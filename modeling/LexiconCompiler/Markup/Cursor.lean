import LexiconCompiler.Text.Basic

set_option autoImplicit false
set_option relaxedAutoImplicit false

/-!
A place in a document text, and the character classes that the reading of tokens goes by.

A text is taken in by portions of bytes. What lies in portions that were never needed is never
looked at, so a character that may not stand in a text is a fault only once its portion is taken in.
-/

namespace LexiconCompiler.Markup

/-- Characters that may stand in a document text. -/
def isAllowed (c : Char) : Bool :=
  c == '\t' || c == '\n' || c == '\r' || (' ' ≤ c && c ≤ '~') || c == '\u0085' ||
    ('\u00a0' ≤ c && c ≤ '\ufffd') || 0x10000 ≤ c.toNat

def orderMark : Char := '\ufeff'

/-- The end of a line, or the first half of one. -/
def isBreak (c : Char) : Bool :=
  c == '\n' || c == '\r' || c == '\u0085' || c == '\u2028' || c == '\u2029'

/-- White space inside a line. -/
def isBlank (c : Char) : Bool := c == ' ' || c == '\t'

/-- Whether a text starts with a character of a class. -/
def startsWhere (test : Char -> Bool) : List Char -> Bool
  | [] => false
  | c :: _ => test c

/-- Whether a text starts with white space or a line end, or is at its end. -/
def atGap : List Char -> Bool
  | [] => true
  | c :: _ => isBlank c || isBreak c

/-- Whether a text starts with a line end, or is at its end. -/
def atLineEnd : List Char -> Bool
  | [] => true
  | c :: _ => isBreak c

/-- Whether a text starts with white space. -/
def atBlank (cs : List Char) : Bool := startsWhere isBlank cs

/-- Whether a text starts with a line end. -/
def atBreak (cs : List Char) : Bool := startsWhere isBreak cs

/-- Whether a text starts with a given character. -/
def atMark (mark : Char) (cs : List Char) : Bool := startsWhere (· == mark) cs

/-- Characters of anchors and tag handles. -/
def isWordChar (c : Char) : Bool := Text.isAsciiAlnum c || c == '_' || c == '-'

def isTagChar (c : Char) : Bool := isWordChar c || ";/?:@&=+$,.!~*'()[]".toList.contains c

/-- A marker line, `---` or `...`, at the front of a text. -/
def atDocumentMark (cs : List Char) : Bool :=
  match cs with
  | '-' :: '-' :: '-' :: rest => atGap rest
  | '.' :: '.' :: '.' :: rest => atGap rest
  | _ => false

/-- What the line end in front of a text is read as: the Unicode separators stand for themselves,
every other line end for a newline. -/
def breakText : List Char -> List Char
  | [] => []
  | c :: _ => if c == '\u2028' || c == '\u2029' then [c] else if isBreak c then ['\n'] else []

/-- Characters that are taken in together. -/
structure Portion where
  size : Nat
  clean : Bool

def portionBytes : Nat := 512

/-- Cuts a text into portions; `filled` bytes of the current one, which holds `portion`, are in
use. -/
def portionsFrom (filled : Nat) (portion : Portion) : List Char -> List Portion
  | [] => if portion.size == 0 then [] else [portion]
  | c :: rest =>
    let width := c.utf8Size
    if filled + width ≤ portionBytes then
      portionsFrom (filled + width) ⟨portion.size + 1, portion.clean && isAllowed c⟩ rest
    else portion :: portionsFrom width ⟨1, isAllowed c⟩ rest

/-- The text still to be read, and where it starts. `ready` counts the characters in front that were
taken in, end marks behind the text included; `window` is the character at which the portion in
hand begins. `broken` tells whether only white space was read since the last line end. -/
structure Cursor where
  rest : List Char
  index : Nat
  line : Nat
  column : Nat
  broken : Bool
  ready : Nat
  window : Option Char
  portions : List Portion

namespace Cursor

/-- The start of a text; a byte-order mark in front is passed over and fills part of a portion. -/
def start (text : List Char) : Cursor :=
  match text with
  | '\ufeff' :: rest => ⟨rest, 0, 0, 0, false, 0, none, portionsFrom 3 ⟨0, true⟩ rest⟩
  | text => ⟨text, 0, 0, 0, false, 0, none, portionsFrom 0 ⟨0, true⟩ text⟩

/-- Takes in portions until enough characters are ready; behind the text one end mark is added. -/
def takeIn (count : Nat) : List Portion -> Cursor -> Option Cursor
  | [], cursor => some { cursor with ready := cursor.ready + 1, portions := [] }
  | portion :: portions, cursor =>
    if portion.clean then
      let ready := cursor.ready + portion.size
      if count ≤ ready then some { cursor with ready := ready, portions := portions }
      else takeIn count portions { cursor with ready := ready }
    else none

/-- Makes sure that a number of characters is ready. -/
def need (count : Nat) (cursor : Cursor) : Option Cursor :=
  if count ≤ cursor.ready then some cursor
  else takeIn count cursor.portions { cursor with window := cursor.rest.head? }

/-- The place behind the next character, whatever it is. -/
def skip (cursor : Cursor) : Cursor :=
  { cursor with
    rest := cursor.rest.tail, index := cursor.index + 1, column := cursor.column + 1,
    broken := cursor.broken && atBlank cursor.rest, ready := cursor.ready - 1 }

/-- The place behind a line end of some characters. -/
def newLine (width : Nat) (rest : List Char) (cursor : Cursor) : Cursor :=
  { cursor with
    rest := rest, index := cursor.index + width, line := cursor.line + 1, column := 0,
    broken := true, ready := cursor.ready - width }

/-- The place behind the line end in front, if there is one; a return and a newline are one. -/
def skipBreak (cursor : Cursor) : Cursor :=
  match cursor.rest with
  | '\r' :: '\n' :: rest => cursor.newLine 2 rest
  | c :: rest => if isBreak c then cursor.newLine 1 rest else cursor
  | [] => cursor

/-- The place behind several characters. -/
def skipMany : Nat -> Cursor -> Cursor
  | 0, cursor => cursor
  | n + 1, cursor => skipMany n cursor.skip

/-- The characters in front that satisfy a test, newest first on top of `out`, and the place behind
them. The list bounds the steps. -/
def takeFrom (test : Char -> Bool) : List Char -> List Char -> Cursor -> Option (List Char × Cursor)
  | [], out, cursor => some (out, cursor)
  | c :: rest, out, cursor =>
    if test c then do
      let cursor ← cursor.skip.need 1
      takeFrom test rest (c :: out) cursor
    else some (out, cursor)

/-- The characters in front that satisfy a test, and the place behind them. -/
def takeWhile (test : Char -> Bool) (cursor : Cursor) : Option (List Char × Cursor) := do
  let cursor ← cursor.need 1
  let (out, cursor) ← takeFrom test cursor.rest [] cursor
  return (out.reverse, cursor)

/-- The place behind the characters in front that satisfy a test. -/
def skipWhile (test : Char -> Bool) (cursor : Cursor) : Option Cursor := do
  let (_, cursor) ← cursor.takeWhile test
  return cursor

end Cursor

end LexiconCompiler.Markup
