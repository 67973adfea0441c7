import LexiconCompiler.Text.Printable

set_option autoImplicit false
set_option relaxedAutoImplicit false

/-!
Quoted text: a mark at both ends, short escapes for the usual control characters, numbered escapes
for everything else that is not printable.
-/

namespace LexiconCompiler.Text

/-- A hexadecimal digit in lower case. -/
def hexDigit (n : Nat) : Char :=
  if n < 10 then Char.ofNat (48 + n) else Char.ofNat (87 + n)

/-- The last `width` hexadecimal digits of a number. -/
def hexDigits (n : Nat) : Nat -> List Char
  | 0 => []
  | width + 1 => hexDigits (n / 16) width ++ [hexDigit (n % 16)]

/-- How one character is written between two marks. -/
def escapeChar (mark c : Char) : List Char :=
  if c == mark || c == '\\' then ['\\', c]
  else if isPrintable c then [c]
  else if c == '\x07' then ['\\', 'a']
  else if c == '\x08' then ['\\', 'b']
  else if c == '\x0c' then ['\\', 'f']
  else if c == '\n' then ['\\', 'n']
  else if c == '\r' then ['\\', 'r']
  else if c == '\t' then ['\\', 't']
  else if c == '\x0b' then ['\\', 'v']
  else if c.toNat < 0x80 then '\\' :: 'x' :: hexDigits c.toNat 2
  else if c.toNat < 0x10000 then '\\' :: 'u' :: hexDigits c.toNat 4
  else '\\' :: 'U' :: hexDigits c.toNat 8

/-- A text between double quotes. -/
def quoteList (cs : List Char) : List Char :=
  '"' :: (cs.flatMap (escapeChar '"') ++ ['"'])

/-- A text between double quotes. -/
def quote (s : String) : String := String.ofList (quoteList s.toList)

def quoteChar (c : Char) : String :=
  String.ofList ('\x27' :: (escapeChar '\x27' c ++ ['\x27']))

end LexiconCompiler.Text
