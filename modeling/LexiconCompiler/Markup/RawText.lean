import LexiconCompiler.Markup.Cursor
import LexiconCompiler.Markup.RawValue
import LexiconCompiler.Markup.Scalar
import LexiconCompiler.Text.Quoted

set_option autoImplicit false
set_option relaxedAutoImplicit false

/-!
The text of plain values in block notation. A text of several lines is written line by line below
a mark, any other one plainly where it reads back as a text, and else between quotes.
-/

namespace LexiconCompiler

open LexiconCompiler.Markup

def indentWidth : Nat := 4

/-- A text that is being written, newest first. `spaced` tells whether white space may be left out
in front of the next mark, `fresh` whether only marks and white space stand on the line. -/
structure Sheet where
  out : List Char
  column : Nat
  spaced : Bool
  fresh : Bool

namespace Sheet

def blank : Sheet := ⟨[], 0, true, true⟩

def put (sheet : Sheet) (c : Char) : Sheet :=
  { sheet with out := c :: sheet.out, column := sheet.column + 1 }

def putAll (sheet : Sheet) (cs : List Char) : Sheet := cs.foldl put sheet

/-- Ends a line with the given character. -/
def putBreak (sheet : Sheet) (c : Char) : Sheet :=
  { sheet with out := c :: sheet.out, column := 0, fresh := true }

/-- Writes a mark, behind a blank if it needs one; `keeps` tells whether the line stays fresh. -/
def mark (sheet : Sheet) (cs : List Char) (blankBefore keeps : Bool) : Sheet :=
  let sheet := if blankBefore && !sheet.spaced then sheet.put ' ' else sheet
  let sheet := sheet.putAll cs
  { sheet with spaced := false, fresh := sheet.fresh && keeps }

/-- Goes to an indentation, on a new line unless the current one leads there. -/
def indentTo (sheet : Sheet) (indent : Nat) : Sheet :=
  let sheet :=
    if !sheet.fresh || indent < sheet.column || (sheet.column == indent && !sheet.spaced) then
      sheet.putBreak '\n'
    else sheet
  { sheet.putAll (List.replicate (indent - sheet.column) ' ') with spaced := true }

end Sheet

def isShown (c : Char) : Bool :=
  c == '\n' || (' ' ≤ c && c ≤ '~') || ('\u00a0' ≤ c && c ≤ '\ufffd' && c != orderMark)

/-- How a text is written. -/
inductive TextStyle where
  | plain
  | single
  | double
  | literal
  deriving DecidableEq, Repr

/-- The neighbours in a text, with nothing in front of the first and behind the last character. -/
def neighbours : Option Char -> List Char -> List (Option Char × Char × Option Char)
  | _, [] => []
  | before, c :: rest => (before, c, rest.head?) :: neighbours (some c) rest

/-- Whether nothing or white space follows. -/
def blankFollows : Option Char -> Bool
  | none => true
  | some c => isBlank c

/-- Whether a character means something else than itself in a plain text. -/
def isIndicator : Option Char × Char × Option Char -> Bool
  | (none, c, after) =>
    "#,[]\x7b\x7d&*!|>'\"%@\x60".toList.contains c ||
      ("?:-".toList.contains c && blankFollows after)
  | (some before, c, after) =>
    (c == ':' && blankFollows after) || (c == '#' && (isBlank before || isBreak before))

def blankEndsLine : Option Char × Char × Option Char -> Bool
  | (some ' ', c, _) => isBreak c
  | _ => false

def blankStartsLine : Option Char × Char × Option Char -> Bool
  | (some before, ' ', _) => isBreak before
  | _ => false

def startsLikeMark : List Char -> Bool
  | '-' :: '-' :: '-' :: _ => true
  | '.' :: '.' :: '.' :: _ => true
  | _ => false

/-- Whether a text has a character that is written by its number. -/
def hasHidden (cs : List Char) : Bool := cs.any fun c => c != '\t' && !isShown c

/-- Whether a text may be written line by line. -/
def literalAllowed (cs : List Char) : Bool :=
  !cs.isEmpty && cs.getLast? != some ' ' && !(neighbours none cs).any blankEndsLine && !hasHidden cs

/-- Whether a text may be written between single quotes. -/
def singleAllowed (cs : List Char) : Bool :=
  let around := neighbours none cs
  !around.any blankStartsLine && !around.any blankEndsLine && !cs.contains '\t' && !hasHidden cs

def plainAllowed (cs : List Char) : Bool :=
  singleAllowed cs && !cs.any isBreak && cs.head? != some ' ' && cs.getLast? != some ' ' &&
    !startsLikeMark cs && !(neighbours none cs).any isIndicator

/-- Words that other readers take for truth values. -/
def truthWords : List String :=
  ["y", "Y", "yes", "Yes", "YES", "on", "On", "ON", "n", "N", "no", "No", "NO", "off", "Off", "OFF"]

/-- The part of a number to base 60 behind its first digits. -/
def isSexagesimalTail : List Char -> Bool
  | ':' :: a :: b :: rest =>
    if Text.isAsciiDigit b then
      '0' ≤ a && a ≤ '5' && isSexagesimalEnd rest
    else Text.isAsciiDigit a && isSexagesimalEnd (b :: rest)
  | [':', a] => Text.isAsciiDigit a
  | _ => false
where
  /-- What may follow a part of a number to base 60. -/
  isSexagesimalEnd : List Char -> Bool
    | [] => true
    | '.' :: rest => rest.all fun c => Text.isAsciiDigit c || c == '_'
    | cs => isSexagesimalTail cs

/-- Whether a text is a number to base 60. -/
def isSexagesimal (cs : List Char) : Bool :=
  match (Number.takeSign cs).2 with
  | c :: rest =>
    Text.isAsciiDigit c &&
      isSexagesimalTail (rest.dropWhile fun c => Text.isAsciiDigit c || c == '_')
  | [] => false

/-- Whether a text without a tag reads back as a text. -/
def readsAsText (s : String) : Bool :=
  (resolve true s).tag == .str && !truthWords.contains s && !isSexagesimal s.toList

def textStyle (s : String) : TextStyle :=
  let cs := s.toList
  if cs.contains '\n' then (if literalAllowed cs then .literal else .double)
  else if readsAsText s then
    if plainAllowed cs then .plain else if singleAllowed cs then .single else .double
  else .double

/-- The letters of the escapes between double quotes. -/
def escapeLetters : List (Char × Char) :=
  [('\x00', '0'), ('\x07', 'a'), ('\x08', 'b'), ('\t', 't'), ('\n', 'n'), ('\x0b', 'v'),
   ('\x0c', 'f'), ('\r', 'r'), ('\x1b', 'e'), ('"', '"'), ('\\', '\\'), ('\u0085', 'N'),
   ('\u00a0', '_'), ('\u2028', 'L'), ('\u2029', 'P')]

def escapeText (c : Char) : List Char :=
  match escapeLetters.lookup c with
  | some letter => ['\\', letter]
  | none =>
    let digits := fun width => (Text.hexDigits c.toNat width).map Char.toUpper
    if c.toNat ≤ 0xFF then '\\' :: 'x' :: digits 2
    else if c.toNat ≤ 0xFFFF then '\\' :: 'u' :: digits 4
    else '\\' :: 'U' :: digits 8

/-- A text between double quotes; behind a byte-order mark everything is escaped. -/
def doubleText (cs : List Char) : List Char :=
  let all := cs.head? == some orderMark
  '"' :: (cs.flatMap fun c =>
    if all || !isShown c || isBreak c || c == '"' || c == '\\' then escapeText c else [c]) ++ ['"']

/-- Writes the characters of a text between single quotes; `broken` tells whether a line end came
before. -/
def putSingle (indent : Nat) : Bool -> List Char -> Sheet -> Sheet
  | _, [], sheet => sheet
  | broken, c :: rest, sheet =>
    if isBreak c then putSingle indent true rest (sheet.putBreak c)
    else if c == ' ' then putSingle indent broken rest (sheet.put c)
    else
      let sheet := if broken then sheet.indentTo indent else sheet
      let sheet := if c == '\x27' then sheet.put c else sheet
      putSingle indent false rest { sheet.put c with fresh := false }

/-- Writes the lines of a text; `broken` tells whether a line end came before. -/
def putLines (indent : Nat) : Bool -> List Char -> Sheet -> Sheet
  | _, [], sheet => sheet
  | broken, c :: rest, sheet =>
    if isBreak c then putLines indent true rest (sheet.putBreak c)
    else
      let sheet := if broken then sheet.indentTo indent else sheet
      putLines indent false rest { sheet.put c with fresh := false }

/-- What the mark of a text of several lines says of its indentation and its end. -/
def literalHints (cs : List Char) : List Char :=
  (match cs.head? with
   | some c => if c == ' ' || isBreak c then Nat.toDigits 10 indentWidth else []
   | none => []) ++
  (match cs.reverse with
   | [] => ['-']
   | [c] => if isBreak c then ['+'] else ['-']
   | c :: d :: _ => if isBreak c then (if isBreak d then ['+'] else []) else ['-'])

def putText (style : TextStyle) (indent : Nat) (cs : List Char) (sheet : Sheet) : Sheet :=
  match style with
  | .plain =>
    if cs.isEmpty then { sheet with fresh := false } else sheet.mark cs true false
  | .double => sheet.mark (doubleText cs) true false
  | .single =>
    (putSingle indent false cs (sheet.mark ['\x27'] true false)).mark ['\x27'] false false
  | .literal =>
    let sheet := (sheet.mark ['|'] true false).putAll (literalHints cs)
    putLines indent true cs { sheet with spaced := true }

/-- Where a value stands: at the top, as an item of a list, or in a mapping. -/
inductive Place where
  | top
  | item
  | member
  deriving DecidableEq, Repr

/-- The indentation inside a value that stands in one of a given indentation. -/
def Place.inner (place : Place) (scalar : Bool) (indent : Nat) : Nat :=
  match place with
  | .top => if scalar then indentWidth else 0
  | .item => indent + 2
  | .member => indentWidth * ((indent + indentWidth) / indentWidth)

def putString (place : Place) (indent : Nat) (s : String) (sheet : Sheet) : Sheet :=
  putText (textStyle s) (place.inner true indent) s.toList sheet

/-- Whether a key stands in front of its colon without a mark of its own. -/
def isSimpleKey (key : String) : Bool := !key.toList.any isBreak && key.utf8ByteSize ≤ 128

def putKey (indent : Nat) (key : String) (sheet : Sheet) : Sheet :=
  let sheet := sheet.indentTo indent
  if isSimpleKey key then (putString .member indent key sheet).mark [':'] false false
  else
    let sheet := putString .member indent key (sheet.mark ['?'] true true)
    (sheet.indentTo indent).mark [':'] true true

mutual

/-- Writes a value at a place of a given indentation. -/
def putValue (place : Place) (indent : Nat) : RawValue -> Sheet -> Sheet
  | .null, sheet => sheet.mark "null".toList true false
  | .bool value, sheet => sheet.mark (if value then "true" else "false").toList true false
  | .number value, sheet => sheet.mark value.text.toList true false
  | .string value, sheet => putString place indent value sheet
  | .array [], sheet => sheet.mark ['[', ']'] true false
  | .array (item :: items), sheet => putItems (place.inner false indent) (item :: items) sheet
  | .object [], sheet => sheet.mark ['\x7b', '\x7d'] true false
  | .object (member :: members), sheet =>
    putMembers (place.inner false indent) (member :: members) sheet

def putItems (indent : Nat) : List RawValue -> Sheet -> Sheet
  | [], sheet => sheet
  | value :: rest, sheet =>
    let sheet := (sheet.indentTo indent).mark ['-'] true true
    putItems indent rest (putValue .item indent value sheet)

def putMembers (indent : Nat) : List (String × RawValue) -> Sheet -> Sheet
  | [], sheet => sheet
  | (key, value) :: rest, sheet =>
    putMembers indent rest (putValue .member indent value (putKey indent key sheet))

end

/-- The text of a value, its last line ended. -/
def RawValue.toText (value : RawValue) : String :=
  let sheet := (putValue .top 0 value.sorted .blank).indentTo 0
  String.ofList sheet.out.reverse

end LexiconCompiler
