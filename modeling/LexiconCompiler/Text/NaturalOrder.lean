import LexiconCompiler.Text.Letter

set_option autoImplicit false
set_option relaxedAutoImplicit false

/-!
The order of keys in which runs of digits count as numbers, so that `a2` comes before `a10`.
-/

namespace LexiconCompiler.Text

/-- The value of the digits in front of a text, in 64-bit words, and how many there are. -/
def digitRun : Int64 -> Nat -> List Char -> Int64 × Nat
  | value, count, [] => (value, count)
  | value, count, c :: rest =>
    if isDigit c then digitRun (value * 10 + Int64.ofInt ((c.toNat : Int) - 48)) (count + 1) rest
    else (value, count)

/-- Whether the digits just passed, last one first, hold one that is not zero. -/
def significantBefore (passed : List Char) : Bool := (passed.takeWhile isDigit).any (· != '0')

/-- Compares where two texts differ first; `passed` is what they share, last character first. -/
def differBefore (passed : List Char) (a : Char) (as : List Char) (b : Char) (bs : List Char) :
    Bool :=
  if isLetter a && isLetter b then a < b
  else if isLetter a || isLetter b then
    if passed.head?.any isDigit then isLetter a else isLetter b
  else
    let lead : Int64 := if (a == '0' || b == '0') && significantBefore passed then 1 else 0
    let (m, i) := digitRun lead 0 (a :: as)
    let (n, j) := digitRun lead 0 (b :: bs)
    if m != n then m < n else if i != j then i < j else a < b

/-- Whether one text comes before another. -/
def naturalBefore (passed : List Char) : List Char -> List Char -> Bool
  | a :: as, b :: bs =>
    if a == b then naturalBefore (a :: passed) as bs else differBefore passed a as b bs
  | [], _ :: _ => true
  | _, [] => false

/-- Whether a key comes before another one. -/
def naturalLt (s t : String) : Bool := naturalBefore [] s.toList t.toList

end LexiconCompiler.Text
