import LexiconCompiler.Text.Letter
import LexiconCompiler.Text.Quoted

set_option autoImplicit false
set_option relaxedAutoImplicit false

/-!
Names in TypeScript.
-/

namespace LexiconCompiler.TypeScript

open LexiconCompiler.Text

def reservedWords : List String :=
  ["break", "case", "catch", "class", "const", "continue", "debugger", "default", "delete", "do",
   "else", "enum", "export", "extends", "false", "finally", "for", "function", "if", "implements",
   "import", "in", "instanceof", "interface", "let", "new", "null", "package", "private",
   "protected", "public", "return", "static", "super", "switch", "this", "throw", "true", "try",
   "type", "typeof", "var", "void", "while", "with", "yield"]

/-- The name of a declaration or parameter. A reserved word gets an underscore. -/
def declaredName (name : String) : String :=
  if reservedWords.contains name then name ++ "_" else name

def startsName (c : Char) : Bool := isLetter c || c == '_' || c == '$'

/-- Whether a property of this name needs no quotes. -/
def isIdentifier (name : String) : Bool :=
  match name.toList with
  | [] => false
  | c :: rest => startsName c && rest.all fun d => startsName d || isDigit d

/-- The name of a property, which may be a reserved word. -/
def propertyName (name : String) : String := if isIdentifier name then name else quote name

end LexiconCompiler.TypeScript
