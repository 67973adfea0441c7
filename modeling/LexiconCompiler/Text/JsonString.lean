import LexiconCompiler.Text.Quoted

set_option autoImplicit false
set_option relaxedAutoImplicit false

/-!
JSON strings. Besides what JSON asks for, the characters that matter inside markup and the two
line separators are escaped.
-/

namespace LexiconCompiler.Text

/-- How one character is written inside a JSON string. -/
def escapeJsonChar (c : Char) : List Char :=
  if c == '"' || c == '\\' then ['\\', c]
  else if c == '\n' then ['\\', 'n']
  else if c == '\r' then ['\\', 'r']
  else if c == '\t' then ['\\', 't']
  else if c == '\x08' then ['\\', 'b']
  else if c == '\x0c' then ['\\', 'f']
  else if c.toNat < 32 || c == '<' || c == '>' || c == '&' || c == '\u2028' || c == '\u2029' then
    '\\' :: 'u' :: hexDigits c.toNat 4
  else [c]

def jsonString (s : String) : String :=
  String.ofList ('"' :: (s.toList.flatMap escapeJsonChar ++ ['"']))

end LexiconCompiler.Text
