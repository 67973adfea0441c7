import LexiconCompiler.Number.Shortest

set_option autoImplicit false
set_option relaxedAutoImplicit false

/-!
Decimal text of numbers. A layout says which exponents are written positionally and how wide the
exponent is otherwise.
-/

namespace LexiconCompiler.Binary64

/-- The decisions of a decimal format. -/
structure Layout where
  /-- The least exponent of the leading digit that is written positionally. -/
  leastPlain : Int
  /-- The first exponent of the leading digit that is not. -/
  firstScientific : Int
  /-- The least number of exponent digits. -/
  exponentWidth : Nat

/-- Positional from `0.0001` to `999999`, exponents of at least two digits. -/
def Layout.general : Layout := ⟨-4, 6, 2⟩

/-- Positional from `0.000001` up to 21 digits, exponents without padding. -/
def Layout.wire : Layout := ⟨-6, 21, 1⟩

/-- The digits of a number, padded with zeros in front. -/
def padded (width n : Nat) : List Char :=
  let ds := Nat.toDigits 10 n
  List.replicate (width - ds.length) '0' ++ ds

/-- Digits with a point after the first `whole` of them. -/
def pointed (ds : List Char) (whole : Nat) : List Char :=
  if ds.length ≤ whole then ds ++ List.replicate (whole - ds.length) '0'
  else ds.take whole ++ '.' :: ds.drop whole

def Decimal.layOut (layout : Layout) (d : Decimal) : List Char :=
  let ds := Nat.toDigits 10 d.digits
  let lead := d.exponent + ds.length - 1
  if d.digits == 0 then ['0']
  else if lead < layout.leastPlain || layout.firstScientific ≤ lead then
    pointed ds 1 ++ 'e' :: (if lead < 0 then '-' else '+') ::
      padded layout.exponentWidth lead.natAbs
  else if lead < 0 then '0' :: '.' :: (List.replicate ((-lead).toNat - 1) '0' ++ ds)
  else pointed ds (lead.toNat + 1)

def format (layout : Layout) : Binary64 -> String
  | .nan => "NaN"
  | .infinite negative => if negative then "-Inf" else "+Inf"
  | .finite negative mantissa exponent =>
    let text := (shortest mantissa exponent).layOut layout
    String.ofList (if negative then '-' :: text else text)

/-- The text of a number in the general layout. -/
def text (x : Binary64) : String := x.format .general

end LexiconCompiler.Binary64
