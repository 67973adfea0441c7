import LexiconCompiler.Markup.Timestamp
import LexiconCompiler.Number.Literal
import LexiconCompiler.Text.Base64
import LexiconCompiler.Text.Utf8

set_option autoImplicit false
set_option relaxedAutoImplicit false

/-!
Scalars: the text of a scalar, its tag, and the value that both denote together.
-/

namespace LexiconCompiler.Markup

open LexiconCompiler.Text

/-- The declared or resolved type of a scalar. -/
inductive Tag where
  | str
  | int
  | float
  | bool
  | null
  | timestamp
  | merge
  | binary
  | other (name : String)
  deriving DecidableEq, Repr

def Tag.name : Tag -> String
  | .str => "!!str"
  | .int => "!!int"
  | .float => "!!float"
  | .bool => "!!bool"
  | .null => "!!null"
  | .timestamp => "!!timestamp"
  | .merge => "!!merge"
  | .binary => "!!binary"
  | .other name => name

def Tag.ofName (name : String) : Tag :=
  ([Tag.str, .int, .float, .bool, .null, .timestamp, .merge, .binary].find? fun tag =>
    tag.name == name).getD (.other name)

/-- Whether the text of a tag is resolved to a value of another type than text. -/
def Tag.isResolved : Tag -> Bool
  | .int => true
  | .float => true
  | .bool => true
  | .null => true
  | .timestamp => true
  | _ => false

/-- The value of a scalar. -/
inductive Scalar where
  | null
  | bool (value : Bool)
  | int (value : Int)
  | float (value : Binary64)
  | text (value : String)
  | time (value : Timestamp)
  deriving DecidableEq, Repr

def Scalar.tag : Scalar -> Tag
  | .null => .null
  | .bool _ => .bool
  | .int _ => .int
  | .float _ => .float
  | .text _ => .str
  | .time _ => .timestamp

/-- Texts with a fixed value. -/
def keywords : List (String × Scalar) :=
  ["", "~", "null", "Null", "NULL"].map (·, .null) ++
    ["true", "True", "TRUE"].map (·, .bool true) ++
    ["false", "False", "FALSE"].map (·, .bool false) ++
    [".nan", ".NaN", ".NAN"].map (·, .float .nan) ++
    [".inf", ".Inf", ".INF", "+.inf", "+.Inf", "+.INF"].map (·, .float (.infinite false)) ++
    ["-.inf", "-.Inf", "-.INF"].map (·, .float (.infinite true))

/-- A number: underscores are ignored, integers go before fractions. -/
def numberOf? (cs : List Char) : Option Scalar :=
  let plain := cs.filter (· != '_')
  match Number.integer? plain with
  | some i => some (.int i)
  | none => (Number.fraction? plain).map .float

/-- A fraction that starts with its point; underscores stand between digits only. -/
def pointedOf? (cs : List Char) : Option Scalar :=
  if Number.underscoresSeparate none cs then
    (Number.fraction? (cs.filter (· != '_'))).map .float
  else none

/-- The value of an untagged plain scalar. Dates are only looked for where `dates` allows it. -/
def resolve (dates : Bool) (text : String) : Scalar :=
  match keywords.lookup text with
  | some value => value
  | none =>
    match text.toList with
    | [] => .null
    | c :: rest =>
      if c == '.' then (pointedOf? (c :: rest)).getD (.text text)
      else if isAsciiDigit c || c == '+' || c == '-' then
        match if dates then Timestamp.parse? (c :: rest) else none with
        | some stamp => .time stamp
        | none => (numberOf? (c :: rest)).getD (.text text)
      else .text text

def plainTag (text : String) : Tag :=
  if text == "<<" then .merge else (resolve true text).tag

/-- Why a text does not denote a value of its tag. -/
inductive ScalarFault where
  | mismatch (found : Tag) (text : String) (wanted : Tag)
  | notBinary
  deriving DecidableEq, Repr

def ScalarFault.message : ScalarFault -> String
  | .mismatch found text wanted =>
    "yaml: cannot decode " ++ found.name ++ " \x60" ++ text ++ "\x60 as a " ++ wanted.name
  | .notBinary => "yaml: !!binary value contains invalid base64 data"

/-- The value of a text with a tag that resolves it; an integer serves as a number. -/
def resolveAs (tag : Tag) (text : String) : Except ScalarFault Scalar :=
  let value := resolve (tag == .timestamp) text
  if value.tag == tag then .ok value
  else
    match tag, value with
    | .float, .int i =>
      if Number.fitsSigned i then .ok (.float (Binary64.ofInt i))
      else .error (.mismatch .int text tag)
    | _, _ => .error (.mismatch value.tag text tag)

/-- The value of a tagged text. Every text is a string, and so it is under an unknown tag; binary
text stands for the text that its bytes spell. -/
def decodeScalar (tag : Tag) (text : String) : Except ScalarFault Scalar :=
  if tag == .binary then
    match Text.base64Bytes? text with
    | some bytes => .ok (.text (String.ofList (Text.decodeBytes bytes)))
    | none => .error .notBinary
  else if tag.isResolved then resolveAs tag text
  else .ok (.text text)

end LexiconCompiler.Markup
