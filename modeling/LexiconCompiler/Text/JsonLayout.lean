import LexiconCompiler.Text.Basic

set_option autoImplicit false
set_option relaxedAutoImplicit false

/-!
JSON text with one entry a line. The text is cut into tokens, the tokens are checked against the
grammar, and line breaks are put between them; strings, numbers and words stay as they are.
-/

namespace LexiconCompiler.Text

/-- The parts of a JSON text. -/
inductive JsonToken where
  | openObject
  | closeObject
  | openArray
  | closeArray
  | comma
  | colon
  /-- A string with its quotes. -/
  | string (raw : List Char)
  /-- A number or one of the words `true`, `false` and `null`. -/
  | word (raw : List Char)
  deriving DecidableEq, Repr

namespace JsonToken

def isBlank (c : Char) : Bool := c == ' ' || c == '\t' || c == '\r' || c == '\n'

/-- Digits and the letters up to `f`. -/
def isHexDigit (c : Char) : Bool :=
  isAsciiDigit c || ('a' ≤ c && c ≤ 'f') || ('A' ≤ c && c ≤ 'F')

/-- Characters that stand after a backslash on their own. -/
def isEscape (c : Char) : Bool := ['b', 'f', 'n', 'r', 't', '\\', '/', '"'].contains c

/-- The rest of a string up to its closing quote, and what follows it. -/
def stringEnd? : List Char -> Option (List Char × List Char)
  | [] => none
  | '"' :: rest => some (['"'], rest)
  | '\\' :: 'u' :: a :: b :: c :: d :: rest =>
    if [a, b, c, d].all isHexDigit then
      (stringEnd? rest).map fun (raw, after) => ('\\' :: 'u' :: a :: b :: c :: d :: raw, after)
    else none
  | '\\' :: c :: rest =>
    if isEscape c then (stringEnd? rest).map fun (raw, after) => ('\\' :: c :: raw, after)
    else none
  | c :: rest =>
    if c == '\\' || c < ' ' then none
    else (stringEnd? rest).map fun (raw, after) => (c :: raw, after)

/-- At least one digit, and what follows the digits. -/
def digits? (cs : List Char) : Option (List Char × List Char) :=
  match cs.takeWhile isAsciiDigit with
  | [] => none
  | ds => some (ds, cs.dropWhile isAsciiDigit)

/-- The whole part of a number: no zero stands in front of other digits. -/
def wholePart? : List Char -> Option (List Char × List Char)
  | '0' :: rest => some (['0'], rest)
  | cs => digits? cs

def fractionPart? : List Char -> Option (List Char × List Char)
  | '.' :: rest => (digits? rest).map fun (ds, after) => ('.' :: ds, after)
  | cs => some ([], cs)

def exponentPart? : List Char -> Option (List Char × List Char)
  | mark :: rest =>
    if mark == 'e' || mark == 'E' then
      match rest with
      | '+' :: rest => (digits? rest).map fun (ds, after) => (mark :: '+' :: ds, after)
      | '-' :: rest => (digits? rest).map fun (ds, after) => (mark :: '-' :: ds, after)
      | rest => (digits? rest).map fun (ds, after) => (mark :: ds, after)
    else some ([], mark :: rest)
  | [] => some ([], [])

/-- A number without its sign, and what follows it. -/
def magnitude? (cs : List Char) : Option (List Char × List Char) := do
  let (whole, rest) ← wholePart? cs
  let (fraction, rest) ← fractionPart? rest
  let (exponent, rest) ← exponentPart? rest
  return (whole ++ fraction ++ exponent, rest)

/-- A number or word at the start of a text, and what follows it. -/
def word? (cs : List Char) : Option (List Char × List Char) :=
  match cs with
  | 't' :: 'r' :: 'u' :: 'e' :: rest => some ("true".toList, rest)
  | 'f' :: 'a' :: 'l' :: 's' :: 'e' :: rest => some ("false".toList, rest)
  | 'n' :: 'u' :: 'l' :: 'l' :: rest => some ("null".toList, rest)
  | '-' :: rest => (magnitude? rest).map fun (raw, after) => ('-' :: raw, after)
  | cs => magnitude? cs

/-- The token at the start of a text, and what follows it. -/
def next? : List Char -> Option (JsonToken × List Char)
  | [] => none
  | '\x7b' :: rest => some (.openObject, rest)
  | '\x7d' :: rest => some (.closeObject, rest)
  | '[' :: rest => some (.openArray, rest)
  | ']' :: rest => some (.closeArray, rest)
  | ',' :: rest => some (.comma, rest)
  | ':' :: rest => some (.colon, rest)
  | '"' :: rest => (stringEnd? rest).map fun (raw, after) => (.string ('"' :: raw), after)
  | cs => (word? cs).map fun (raw, after) => (.word raw, after)

/-- The tokens of a text, at most as many as the first argument says. -/
def readAtMost : Nat -> List Char -> Option (List JsonToken)
  | fuel, cs =>
    match cs.dropWhile isBlank, fuel with
    | [], _ => some []
    | _ :: _, 0 => none
    | c :: rest, fuel + 1 => do
      let (token, after) ← next? (c :: rest)
      return token :: (← readAtMost fuel after)

def read? (cs : List Char) : Option (List JsonToken) := readAtMost cs.length cs

/-- What may come next. -/
inductive Expected where
  | value
  | valueOrEnd
  | key
  | keyOrEnd
  | colon
  | separator
  deriving DecidableEq, Repr

/-- The deepest nesting that is read. -/
def maxDepth : Nat := 10000

/-- Goes one level down; `true` stands for an object. -/
def descend (isObject : Bool) (next : Expected) (around : List Bool) :
    Option (List Bool × Expected) :=
  if around.length < maxDepth then some (isObject :: around, next) else none

def startValue (around : List Bool) : JsonToken -> Option (List Bool × Expected)
  | .openObject => descend true .keyOrEnd around
  | .openArray => descend false .valueOrEnd around
  | .string _ => some (around, .separator)
  | .word _ => some (around, .separator)
  | _ => none

/-- What a token leads to, given the values around it and what may come next. -/
def advance : List Bool -> Expected -> JsonToken -> Option (List Bool × Expected)
  | _ :: around, .valueOrEnd, .closeArray => some (around, .separator)
  | _ :: around, .keyOrEnd, .closeObject => some (around, .separator)
  | around, .value, token => startValue around token
  | around, .valueOrEnd, token => startValue around token
  | around, .key, .string _ => some (around, .colon)
  | around, .keyOrEnd, .string _ => some (around, .colon)
  | around, .colon, .colon => some (around, .value)
  | true :: around, .separator, .comma => some (true :: around, .key)
  | false :: around, .separator, .comma => some (false :: around, .value)
  | true :: around, .separator, .closeObject => some (around, .separator)
  | false :: around, .separator, .closeArray => some (around, .separator)
  | _, _, _ => none

def completes : List Bool -> Expected -> List JsonToken -> Bool
  | around, expected, [] => around.isEmpty && expected == .separator
  | around, expected, token :: rest =>
    match advance around expected token with
    | some (around, expected) => completes around expected rest
    | none => false

/-- A line break before a depth of nesting. -/
def lineBreak (start step : String) (depth : Nat) : String :=
  "\n" ++ start ++ String.join (List.replicate depth step)

/-- Tokens with line breaks. `fresh` tells that a bracket was opened and nothing followed yet. -/
def layout (start step : String) : Nat -> Bool -> List JsonToken -> String
  | _, _, [] => ""
  | depth, fresh, token :: rest =>
    let inner := if fresh then depth + 1 else depth
    let before := if fresh then lineBreak start step inner else ""
    let close := fun (mark : String) =>
      if fresh then mark ++ layout start step depth false rest
      else lineBreak start step (depth - 1) ++ mark ++ layout start step (depth - 1) false rest
    match token with
    | .closeObject => close "\x7d"
    | .closeArray => close "]"
    | .openObject => before ++ "\x7b" ++ layout start step inner true rest
    | .openArray => before ++ "[" ++ layout start step inner true rest
    | .comma => before ++ "," ++ lineBreak start step inner ++ layout start step inner false rest
    | .colon => before ++ ": " ++ layout start step inner false rest
    | .string raw => before ++ String.ofList raw ++ layout start step inner false rest
    | .word raw => before ++ String.ofList raw ++ layout start step inner false rest

end JsonToken

/-- A JSON text with one entry a line, each line after the first starting with `start` and one
`step` for each level. Blanks after the value are kept. A text that is no JSON has no layout. -/
def jsonLayout? (start step text : String) : Option String :=
  match JsonToken.read? text.toList with
  | none => none
  | some tokens =>
    if JsonToken.completes [] .value tokens then
      some (JsonToken.layout start step 0 false tokens ++
        String.ofList (text.toList.reverse.takeWhile JsonToken.isBlank).reverse)
    else none

end LexiconCompiler.Text
