set_option autoImplicit false
set_option relaxedAutoImplicit false

/-!
Double-precision numbers with exact arithmetic: a finite number is a sign, a mantissa and a power of
two. Every finite number has one form: the mantissa has 53 bits, or fewer at the least exponent.
-/

namespace LexiconCompiler

/-- A double-precision number. A finite one is `mantissa * 2 ^ exponent` with its sign. -/
inductive Binary64 where
  | nan
  | infinite (negative : Bool)
  | finite (negative : Bool) (mantissa : Nat) (exponent : Int)
  deriving DecidableEq, Repr

namespace Binary64

/-- The exponent of the smallest positive number. -/
def leastExponent : Int := -1074

/-- The exponent of the largest finite number. -/
def greatestExponent : Int := 971

def mantissaBound : Nat := 0x20000000000000

/-- The quotient rounded to the nearest integer, halves to the even neighbour. -/
def roundHalfEven (num den : Nat) : Nat :=
  let q := num / den
  let r := num % den
  if 2 * r < den then q
  else if den < 2 * r then q + 1
  else if q % 2 == 0 then q else q + 1

/-- The fraction `num / (den * 2 ^ exponent)` as a numerator and a denominator. -/
def scaleDown (num den : Nat) (exponent : Int) : Nat × Nat :=
  if 0 ≤ exponent then (num, den * Nat.pow 2 exponent.toNat)
  else (num * Nat.pow 2 (-exponent).toNat, den)

/-- Puts a rounded mantissa into its one form; too large an exponent gives infinity. -/
def assemble (negative : Bool) (mantissa : Nat) (exponent : Int) : Binary64 :=
  let (mantissa, exponent) :=
    if mantissa == mantissaBound then (mantissa / 2, exponent + 1) else (mantissa, exponent)
  if greatestExponent < exponent then .infinite negative else .finite negative mantissa exponent

def zero (negative : Bool) : Binary64 := .finite negative 0 leastExponent

/-- The number nearest to a fraction, halves to the even neighbour. -/
def ofRatio (negative : Bool) (num den : Nat) : Binary64 :=
  if num == 0 then zero negative
  else
    let low := max leastExponent ((Nat.log2 num : Int) - (Nat.log2 den : Int) - 53)
    let (n, d) := scaleDown num den low
    let exponent := if mantissaBound ≤ n / d then low + 1 else low
    let (n, d) := scaleDown num den exponent
    assemble negative (roundHalfEven n d) exponent

/-- The number nearest to an integer. -/
def ofInt (i : Int) : Binary64 := ofRatio (i < 0) i.natAbs 1

/-- The number of decimal digits of a number. -/
def digitCount (n : Nat) : Nat := (Nat.toDigits 10 n).length

/-- The number nearest to `digits * 10 ^ exponent`. Magnitudes far outside the range are settled
without computing the power. -/
def ofDecimal (negative : Bool) (digits : Nat) (exponent : Int) : Binary64 :=
  if digits == 0 then zero negative
  else
    let magnitude := (digitCount digits : Int) + exponent
    if 400 < magnitude then .infinite negative
    else if magnitude < -400 then zero negative
    else if 0 ≤ exponent then ofRatio negative (digits * Nat.pow 10 exponent.toNat) 1
    else ofRatio negative digits (Nat.pow 10 (-exponent).toNat)

/-- The signed mantissa over a common power of two. -/
def scaled (negative : Bool) (mantissa : Nat) (exponent base : Int) : Int :=
  let magnitude : Int := (mantissa * Nat.pow 2 (exponent - base).toNat : Nat)
  if negative then -magnitude else magnitude

/-- Strict order; no number is related to `nan`. -/
def lt : Binary64 -> Binary64 -> Bool
  | .nan, _ => false
  | _, .nan => false
  | .infinite a, .infinite b => a && !b
  | .infinite a, .finite .. => a
  | .finite .., .infinite b => !b
  | .finite a m e, .finite b n f =>
    let base := min e f
    scaled a m e base < scaled b n f base

/-- Numerical equality: the two zeros are equal and `nan` equals nothing. -/
def same : Binary64 -> Binary64 -> Bool
  | .nan, _ => false
  | _, .nan => false
  | .finite a m e, .finite b n f => (a == b && m == n && e == f) || (m == 0 && n == 0)
  | x, y => x == y

/-- The integer part, rounded towards zero. -/
def truncate? : Binary64 -> Option Int
  | .finite negative mantissa exponent =>
    let magnitude : Nat :=
      if 0 ≤ exponent then mantissa * Nat.pow 2 exponent.toNat
      else mantissa / Nat.pow 2 (-exponent).toNat
    some (if negative then -(magnitude : Int) else magnitude)
  | _ => none

def isIntegral : Binary64 -> Bool
  | .finite _ mantissa exponent =>
    0 ≤ exponent || mantissa % Nat.pow 2 (-exponent).toNat == 0
  | _ => false

/-- The integer that a number is, if it is one of less than 54 bits. -/
def toInt? (x : Binary64) : Option Int :=
  match x.truncate? with
  | some i => if x.isIntegral && i.natAbs < mantissaBound then some i else none
  | none => none

end Binary64

end LexiconCompiler
