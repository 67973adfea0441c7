import LexiconCompiler.Number.Binary64
import LexiconCompiler.Text.Basic

set_option autoImplicit false
set_option relaxedAutoImplicit false

/-!
Number literals: integers with base prefixes, and decimal fractions.
-/

namespace LexiconCompiler.Number

open LexiconCompiler.Text

/-- The value of a digit up to `f`, in either case. -/
def digitValue? (c : Char) : Option Nat :=
  if '0' ≤ c && c ≤ '9' then some (c.toNat - 48)
  else if 'a' ≤ c && c ≤ 'z' then some (c.toNat - 87)
  else if 'A' ≤ c && c ≤ 'Z' then some (c.toNat - 55)
  else none

/-- The value of digits in a base; every character has to be a digit of it. -/
def digitsValue? (base : Nat) (cs : List Char) : Option Nat :=
  cs.foldl
    (fun acc c =>
      match acc, digitValue? c with
      | some n, some d => if d < base then some (n * base + d) else none
      | _, _ => none)
    (some 0)

/-- The value of at least one digit. -/
def numeral? (base : Nat) (cs : List Char) : Option Nat :=
  if cs.isEmpty then none else digitsValue? base cs

/-- A magnitude whose base is told by its beginning: `0x`, `0o`, `0b`, a leading `0` for octal. -/
def magnitude? : List Char -> Option Nat
  | '0' :: mark :: c :: rest =>
    if mark == 'x' || mark == 'X' then numeral? 16 (c :: rest)
    else if mark == 'o' || mark == 'O' then numeral? 8 (c :: rest)
    else if mark == 'b' || mark == 'B' then numeral? 2 (c :: rest)
    else numeral? 8 (mark :: c :: rest)
  | ['0', c] => numeral? 8 [c]
  | cs => numeral? 10 cs

def takeSign : List Char -> Bool × List Char
  | '-' :: rest => (true, rest)
  | '+' :: rest => (false, rest)
  | cs => (false, cs)

/-- The first integer above all signed 64-bit words. -/
def signedBound : Int := 0x8000000000000000

/-- The first integer above all unsigned 64-bit words. -/
def unsignedBound : Nat := 0x10000000000000000

/-- Whether an integer fits a signed 64-bit word. -/
def fitsSigned (i : Int) : Bool := -signedBound ≤ i && i < signedBound

/-- A signed integer of 64 bits, or an unsigned one without a sign. -/
def wordOf? (read : List Char -> Option Nat) (cs : List Char) : Option Int :=
  let (negative, rest) := takeSign cs
  match read rest with
  | none => none
  | some n =>
    let i : Int := if negative then -(n : Int) else n
    if fitsSigned i then some i
    else if rest.length == cs.length && n < unsignedBound then some i
    else none

/-- The integer that a literal denotes. After `0b` and `0o` a sign may stand inside. -/
def integer? (cs : List Char) : Option Int :=
  match wordOf? magnitude? cs with
  | some i => some i
  | none =>
    match cs with
    | '0' :: 'b' :: rest => wordOf? (numeral? 2) rest
    | '0' :: 'o' :: rest => wordOf? (numeral? 8) rest
    | _ => none

/-- The exponent part of a fraction: nothing, or a mark, a sign and digits. -/
def exponent? : List Char -> Option Int
  | [] => some 0
  | mark :: rest =>
    if mark == 'e' || mark == 'E' then
      let (negative, ds) := takeSign rest
      (numeral? 10 ds).map fun n => if negative then -(n : Int) else n
    else none

/-- A number unless it overflowed. -/
def finiteOnly : Binary64 -> Option Binary64
  | .infinite _ => none
  | x => some x

/-- The number that a decimal fraction denotes; at least one digit stands in front of the exponent,
and overflow is refused. -/
def fraction? (cs : List Char) : Option Binary64 :=
  let (negative, body) := takeSign cs
  let whole := body.takeWhile isAsciiDigit
  let (places, rest) :=
    match body.dropWhile isAsciiDigit with
    | '.' :: rest => (rest.takeWhile isAsciiDigit, rest.dropWhile isAsciiDigit)
    | rest => ([], rest)
  match numeral? 10 (whole ++ places), exponent? rest with
  | some digits, some exponent =>
    finiteOnly (Binary64.ofDecimal negative digits (exponent - places.length))
  | _, _ => none

/-- Whether underscores only stand between digits; `last` tells whether a digit or an underscore
came before. -/
def underscoresSeparate : Option Bool -> List Char -> Bool
  | last, [] => last != some false
  | last, c :: rest =>
    if isAsciiDigit c then underscoresSeparate (some true) rest
    else if c == '_' then last == some true && underscoresSeparate (some false) rest
    else last != some false && underscoresSeparate none rest

end LexiconCompiler.Number
