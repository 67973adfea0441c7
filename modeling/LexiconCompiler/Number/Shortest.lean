import LexiconCompiler.Number.Binary64

set_option autoImplicit false
set_option relaxedAutoImplicit false

/-!
The fewest decimal digits that read back as the same number, and among those the nearest ones.
-/

namespace LexiconCompiler.Binary64

/-- A decimal number `digits * 10 ^ exponent`. -/
structure Decimal where
  digits : Nat
  exponent : Int
  deriving DecidableEq, Repr

/-- The exponent of the leading digit of a positive fraction. -/
def leadingExponent (num den : Nat) : Int :=
  if den ≤ num then (digitCount (num / den) : Int) - 1
  else
    let count := digitCount (den / num)
    if den ≤ num * Nat.pow 10 (count - 1) then 1 - (count : Int) else -(count : Int)

/-- The numbers that round to a given one: from `low` to `high`, with the number itself at `mid`,
all over `den`. The ends belong to it when `closed`. -/
structure Neighbourhood where
  low : Nat
  mid : Nat
  high : Nat
  den : Nat
  closed : Bool

/-- The neighbourhood of `mantissa * 2 ^ exponent`. Below a power of two the next number is half as
far away. -/
def neighbourhood (mantissa : Nat) (exponent : Int) : Neighbourhood :=
  let below := if 2 * mantissa == mantissaBound && leastExponent < exponent then 1 else 2
  let (low, den) := scaleDown (4 * mantissa - below) 1 (2 - exponent)
  let (mid, _) := scaleDown (4 * mantissa) 1 (2 - exponent)
  let (high, _) := scaleDown (4 * mantissa + 2) 1 (2 - exponent)
  ⟨low, mid, high, den, mantissa % 2 == 0⟩

/-- The fraction `n * 10 ^ exponent * den` against `bound`, cross-multiplied. -/
def gridCompare (n : Nat) (exponent : Int) (bound den : Nat) : Ordering :=
  if 0 ≤ exponent then compare (n * Nat.pow 10 exponent.toNat * den) bound
  else compare (n * den) (bound * Nat.pow 10 (-exponent).toNat)

/-- Whether a decimal lies in a neighbourhood. -/
def Neighbourhood.holds (nb : Neighbourhood) (n : Nat) (exponent : Int) : Bool :=
  let fromLow := gridCompare n exponent nb.low nb.den
  let fromHigh := gridCompare n exponent nb.high nb.den
  (fromLow == .gt && fromHigh == .lt) || (nb.closed && (fromLow == .eq || fromHigh == .eq))

/-- The number over the grid `10 ^ exponent`, as a fraction. -/
def Neighbourhood.onGrid (nb : Neighbourhood) (exponent : Int) : Nat × Nat :=
  if 0 ≤ exponent then (nb.mid, nb.den * Nat.pow 10 exponent.toNat)
  else (nb.mid * Nat.pow 10 (-exponent).toNat, nb.den)

/-- The grid neighbour to take: the nearer one of those in the neighbourhood. -/
def Neighbourhood.pick? (nb : Neighbourhood) (exponent : Int) : Option Nat :=
  let (num, den) := nb.onGrid exponent
  let down := num / den
  let nearest := roundHalfEven num den
  if nb.holds nearest exponent then some nearest
  else if nb.holds down exponent then some down
  else if nb.holds (down + 1) exponent then some (down + 1)
  else none

/-- Tries grids from coarse to fine; the `fuel + 1` grids end at 17 digits, where one always
hits. -/
def Neighbourhood.search (nb : Neighbourhood) : Nat -> Int -> Decimal
  | 0, exponent => ⟨(nb.pick? exponent).getD 0, exponent⟩
  | fuel + 1, exponent =>
    match nb.pick? exponent with
    | some digits => ⟨digits, exponent⟩
    | none => nb.search fuel (exponent - 1)

/-- Moves trailing zeros into the exponent. -/
def Decimal.strip : Nat -> Decimal -> Decimal
  | 0, d => d
  | fuel + 1, d =>
    if d.digits % 10 == 0 && d.digits != 0 then strip fuel ⟨d.digits / 10, d.exponent + 1⟩ else d

/-- The shortest decimal for the magnitude `mantissa * 2 ^ exponent`. -/
def shortest (mantissa : Nat) (exponent : Int) : Decimal :=
  if mantissa == 0 then ⟨0, 0⟩
  else
    let nb := neighbourhood mantissa exponent
    (nb.search 16 (leadingExponent nb.mid nb.den)).strip 18

end LexiconCompiler.Binary64
