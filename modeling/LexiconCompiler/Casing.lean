import LexiconCompiler.Text.Basic
import LexiconCompiler.Text.LetterCase
import LexiconCompiler.Text.Utf8

set_option autoImplicit false
set_option relaxedAutoImplicit false

/-!
Names for generated code. A dotted or hyphenated text is cut into parts; `title` and `camel` join
the parts with capitals, `screaming` cuts them further into words and joins those with underscores.
-/

namespace LexiconCompiler.Casing

open LexiconCompiler.Text

/-- The characters between two parts of a name. -/
def isSeparator (c : Char) : Bool :=
  c == '.' || c == '#' || c == '-' || c == '_' || c == '/'

def parts (cs : List Char) : List (List Char) := fieldsList isSeparator cs

/-- Puts the first letter in upper case. -/
def upperFirst : List Char -> List Char
  | [] => []
  | c :: rest => toUpper c :: rest

/-- Puts the first letter in lower case. -/
def lowerFirst : List Char -> List Char
  | [] => []
  | c :: rest => toLower c :: rest

/-- The parts one after the other, each with a capital in front. -/
def titleList (cs : List Char) : List Char := (parts cs).flatMap upperFirst

/-- `com.example.getRecord` gives `ComExampleGetRecord`. -/
def title (s : String) : String := String.ofList (titleList s.toList)

/-- The title with a small letter in front. -/
def camel (s : String) : String := String.ofList (lowerFirst (titleList s.toList))

/-- Words that are kept whole. -/
def initialisms : List String :=
  ["ACL", "API", "ASCII", "CPU", "CSS", "DNS", "EOF", "ETA", "GPU", "GUID", "HTML", "HTTP",
   "HTTPS", "ID", "IP", "JSON", "LHS", "OS", "QPS", "RAM", "RHS", "RPC", "SLA", "SMTP", "SQL",
   "SSH", "TCP", "TLS", "TTL", "UDP", "UI", "UID", "UUID", "URI", "URL", "UTF8", "VM", "XML",
   "XMPP", "XSRF", "XSS", "OAuth"]

/-- The longest initialism at the front, as bytes. -/
def leadingInitialism? (bytes : List UInt8) : Option (List UInt8) :=
  (initialisms.map fun word => utf8Bytes word.toList).foldl
    (fun best word =>
      if word.isPrefixOf bytes && (best.elim 0 List.length) < word.length then some word else best)
    none

/-- The words of one part. Words start at capitals, counted in characters, and are cut out of the
bytes at those counts; `start` is where the current word starts and `skip` counts characters of an
initialism already taken. -/
def wordsFrom (bytes : List UInt8) : List Char -> Nat -> Nat -> Nat -> List (List UInt8)
  | [], _, start, _ => if (bytes.drop start).isEmpty then [] else [bytes.drop start]
  | _ :: rest, index, start, skip + 1 => wordsFrom bytes rest (index + 1) start skip
  | c :: rest, index, start, 0 =>
    if 0 < index && isUpper c then
      match leadingInitialism? (bytes.drop start) with
      | some word =>
        word :: wordsFrom bytes rest (index + 1) (index + word.length - 1) (word.length - 1)
      | none => (bytes.drop start).take (index - start) :: wordsFrom bytes rest (index + 1) index 0
    else wordsFrom bytes rest (index + 1) start 0

/-- The words of one part, in lower case with underscores between them. -/
def snakeList (cs : List Char) : List Char :=
  ['_'].intercalate
    ((wordsFrom (utf8Bytes cs) cs 0 0 0).map fun word => (decodeBytes word).map toLower)

/-- `reasonSpam` gives `REASON_SPAM`. -/
def screaming (s : String) : String :=
  String.ofList ((['_'].intercalate ((parts s.toList).map snakeList)).map toUpper)

/-- The same, given how a part is cut into words and these are joined. -/
def screamingWith (snake : List Char -> List Char) (s : String) : String :=
  String.ofList ((['_'].intercalate ((parts s.toList).map snake)).map toUpper)

end LexiconCompiler.Casing
