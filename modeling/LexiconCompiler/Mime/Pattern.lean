import LexiconCompiler.Text.Basic
import LexiconCompiler.Text.LetterCase

set_option autoImplicit false
set_option relaxedAutoImplicit false

/-!
Media types with parameters, and the patterns that stand for several of them.
-/

namespace LexiconCompiler.Mime

open LexiconCompiler.Text

def isTokenChar (c : Char) : Bool :=
  isAsciiAlnum c || "!#$%&'*+-.^_\x60\x7b|\x7d~".toList.contains c

/-- Characters that a backslash takes the meaning from inside quotes. -/
def isSpecial (c : Char) : Bool := "()<>@,;:\\\"/[]?=".toList.contains c

/-- A token in front of a text, empty without one, and the text behind it. -/
def token (cs : List Char) : List Char × List Char :=
  (cs.takeWhile isTokenChar, cs.dropWhile isTokenChar)

/-- A text without white space in front. -/
def trimLeft (cs : List Char) : List Char := cs.dropWhile isSpace

/-- Whether a text is a token, or two tokens with a slash between them. -/
def isMediaType (cs : List Char) : Bool :=
  let (type, rest) := token cs
  if type.isEmpty then false
  else
    match rest with
    | [] => true
    | c :: rest =>
      let (subtype, rest) := token rest
      c == '/' && !subtype.isEmpty && rest.isEmpty

/-- Reads a quoted value behind its opening quote. -/
def quoted? (out : List Char) : List Char -> Option (List Char × List Char)
  | [] => none
  | '"' :: rest => some (out.reverse, rest)
  | '\\' :: c :: rest =>
    if isSpecial c then quoted? (c :: out) rest
    else if c == '\r' || c == '\n' then none
    else quoted? (c :: '\\' :: out) rest
  | c :: rest => if c == '\r' || c == '\n' then none else quoted? (c :: out) rest

/-- The value of a parameter: a token or a quoted text. -/
def value? : List Char -> Option (List Char × List Char)
  | '"' :: rest => quoted? [] rest
  | cs => if (token cs).1.isEmpty then none else some (token cs)

/-- One parameter with the semicolon in front of it, and the text behind it. -/
def parameter? (cs : List Char) : Option ((List Char × List Char) × List Char) := do
  let rest ← dropStart? (trimLeft cs) [';']
  let (name, rest) := token (trimLeft rest)
  if name.isEmpty then none
  else
    let rest ← dropStart? (trimLeft rest) ['=']
    let (value, rest) ← value? (trimLeft rest)
    some ((name.map toLower, value), rest)

/-- Whether the text behind a media type is a list of parameters, without two values for one name.
Each parameter takes at least one character. -/
def areParameters : Nat -> List (List Char × List Char) -> List Char -> Bool
  | 0, _, cs => (trimLeft cs).isEmpty
  | fuel + 1, seen, cs =>
    let cs := trimLeft cs
    if cs.isEmpty then true
    else
      match parameter? cs with
      | none => trimList cs == [';']
      | some ((name, value), rest) =>
        (match seen.lookup name with
          | some other => other == value
          | none => true) && areParameters fuel ((name, value) :: seen) rest

/-- The media type of a text with parameters, in lower case. -/
def parse? (s : String) : Option String :=
  let cs := s.toList
  let base := cs.takeWhile (· != ';')
  let mediaType := trimList (base.map toLower)
  if isMediaType mediaType && areParameters (cs.length + 1) [] (cs.drop base.length) then
    some (String.ofList mediaType)
  else none

/-- The text in front of a final `/*`. -/
def wildcardBase? (s : String) : Option (List Char) :=
  match s.toList.reverse with
  | '*' :: '/' :: rest => some rest.reverse
  | _ => none

/-- Whether a pattern stands for all subtypes of a type. -/
def isWildcard (s : String) : Bool := (wildcardBase? s).isSome

/-- Whether a text is a pattern: `*/*`, `type/*`, or a media type with both parts. -/
def isPattern (s : String) : Bool :=
  if s == "*/*" then true
  else
    match wildcardBase? s with
    | some base => !base.isEmpty && !base.any fun c => "/*; ".toList.contains c
    | none =>
      match parse? s with
      | some mediaType => mediaType.toList.contains '/'
      | none => false

end LexiconCompiler.Mime
