import LexiconCompiler.Text.Basic

set_option autoImplicit false
set_option relaxedAutoImplicit false

/-!
Bytes written with the 64 characters of the standard alphabet, four characters to three bytes. The
last group is padded, and line ends do not count.
-/

namespace LexiconCompiler.Text

def sextet? (c : Char) : Option Nat :=
  if 'A' ≤ c && c ≤ 'Z' then some (c.toNat - 65)
  else if 'a' ≤ c && c ≤ 'z' then some (c.toNat - 71)
  else if '0' ≤ c && c ≤ '9' then some (c.toNat + 4)
  else if c == '+' then some 62
  else if c == '/' then some 63
  else none

def firstByte? (a b : Char) : Option Nat := do
  let x ← sextet? a
  let y ← sextet? b
  return x * 4 + y / 16

/-- The second byte of four characters, told by the second and the third. -/
def secondByte? (b c : Char) : Option Nat := do
  let y ← sextet? b
  let z ← sextet? c
  return y % 16 * 16 + z / 4

/-- The third byte of four characters, told by the last two. -/
def thirdByte? (c d : Char) : Option Nat := do
  let z ← sextet? c
  let w ← sextet? d
  return z % 4 * 64 + w

def groupBytes? : List Char -> Option (List Nat)
  | [] => some []
  | [a, b, '=', '='] => do
    let x ← firstByte? a b
    return [x]
  | [a, b, c, '='] => do
    let x ← firstByte? a b
    let y ← secondByte? b c
    return [x, y]
  | a :: b :: c :: d :: rest => do
    let x ← firstByte? a b
    let y ← secondByte? b c
    let z ← thirdByte? c d
    let others ← groupBytes? rest
    return x :: y :: z :: others
  | _ => none

def base64Bytes? (s : String) : Option (List UInt8) :=
  (groupBytes? (s.toList.filter fun c => c != '\r' && c != '\n')).map fun bytes =>
    bytes.map UInt8.ofNat

end LexiconCompiler.Text
