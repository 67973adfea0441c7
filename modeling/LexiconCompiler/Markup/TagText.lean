import LexiconCompiler.Markup.ScalarText
import LexiconCompiler.Text.Utf8

set_option autoImplicit false
set_option relaxedAutoImplicit false

/-!
The texts of tags and directives. A tag is spelled by a handle and a suffix; a directive gives the
version of the notation, or what the tags of a handle start with.
-/

namespace LexiconCompiler.Markup

/-- The number of octets of a character with the given lead octet. -/
def octetCount? (lead : Nat) : Option Nat :=
  if lead < 0x80 then some 1
  else if lead < 0xC0 then none
  else if lead < 0xE0 then some 2
  else if lead < 0xF0 then some 3
  else if lead < 0xF8 then some 4
  else none

/-- Reads an octet that is written as `%` and two digits. -/
def readOctet (cursor : Cursor) : Option (Nat × Cursor) := do
  let cursor ← cursor.need 3
  match cursor.rest with
  | '%' :: high :: low :: _ =>
    let octet ← Number.digitsValue? 16 [high, low]
    return (octet, cursor.skipMany 3)
  | _ => none

/-- Reads the octets that continue a character. -/
def readOctets : Nat -> Cursor -> Option (List Nat × Cursor)
  | 0, cursor => some ([], cursor)
  | count + 1, cursor => do
    let (octet, cursor) ← readOctet cursor
    if 0x80 ≤ octet && octet < 0xC0 then
      let (octets, cursor) ← readOctets count cursor
      return (octet :: octets, cursor)
    else none

/-- Reads a character that is written by its octets. -/
def readSpelledChar (cursor : Cursor) : Option (List Char × Cursor) := do
  let (lead, cursor) ← readOctet cursor
  let count ← octetCount? lead
  let (octets, cursor) ← readOctets (count - 1) cursor
  return (Text.decodeBytes ((lead :: octets).map UInt8.ofNat), cursor)

/-- Reads characters of a tag on, newest first. The list bounds the steps. -/
def readTagRun : List Char -> List Char -> Cursor -> Option (List Char × Cursor)
  | [], out, cursor => some (out, cursor)
  | _ :: bound, out, cursor =>
    match cursor.rest with
    | [] => some (out, cursor)
    | c :: _ =>
      if c == '%' then do
        let (cs, cursor) ← readSpelledChar cursor
        let cursor ← cursor.need 1
        readTagRun bound (cs.reverse ++ out) cursor
      else if isTagChar c then do
        let cursor ← cursor.skip.need 1
        readTagRun bound (c :: out) cursor
      else some (out, cursor)

/-- Reads characters of a tag behind the ones already read; there has to be one. -/
def readTagChars (before : List Char) (optional : Bool) (cursor : Cursor) :
    Option (List Char × Cursor) := do
  let cursor ← cursor.need 1
  let (out, after) ← readTagRun cursor.rest [] cursor
  if out.isEmpty && !optional then none else return (before ++ out.reverse, after)

/-- Reads a handle: a mark, word characters and a mark, of which the last may be missing. -/
def readHandle (cursor : Cursor) : Option (List Char × Cursor) := do
  let cursor ← cursor.need 1
  match cursor.rest with
  | '!' :: _ =>
    let (word, cursor) ← cursor.skip.takeWhile isWordChar
    if atMark '!' cursor.rest then return ('!' :: (word ++ ['!']), cursor.skip)
    else return ('!' :: word, cursor)
  | _ => none

def isFullHandle (handle : List Char) : Bool := handle.length != 1 && handle.getLast? == some '!'

/-- Reads a tag between angle brackets. -/
def readVerbatimTag (cursor : Cursor) : Option (List Char × Cursor) := do
  let (suffix, cursor) ← readTagChars [] false (cursor.skipMany 2)
  if atMark '>' cursor.rest then return (suffix, cursor.skip) else none

/-- Reads a tag with a handle, or with the mark alone; the mark alone is a suffix without a
handle. -/
def readShorthandTag (cursor : Cursor) : Option (List Char × List Char × Cursor) := do
  let (handle, cursor) ← readHandle cursor
  if isFullHandle handle then
    let (suffix, cursor) ← readTagChars [] false cursor
    return (handle, suffix, cursor)
  else
    let (suffix, cursor) ← readTagChars handle.tail true cursor
    if suffix.isEmpty then return ([], ['!'], cursor) else return (['!'], suffix, cursor)

/-- Reads the handle and the suffix of a tag at its mark. -/
def readTag (cursor : Cursor) : Option (List Char × List Char × Cursor) := do
  let cursor ← cursor.need 2
  let (handle, suffix, cursor) ←
    match cursor.rest with
    | '!' :: '<' :: _ => (readVerbatimTag cursor).map fun (suffix, cursor) => ([], suffix, cursor)
    | _ => readShorthandTag cursor
  let cursor ← cursor.need 1
  if atGap cursor.rest then return (handle, suffix, cursor) else none

/-- What stands at the front of a text and concerns its notation. -/
inductive Directive where
  | version (major minor : Nat)
  | handle (name stem : String)
  deriving DecidableEq, Repr

def readVersionNumber (cursor : Cursor) : Option (Nat × Cursor) := do
  let (digits, cursor) ← cursor.takeWhile Text.isAsciiDigit
  if digits.length ≤ 2 then
    let value ← Number.numeral? 10 digits
    return (value, cursor)
  else none

def readVersion (cursor : Cursor) : Option (Directive × Cursor) := do
  let cursor ← cursor.skipWhile isBlank
  let (major, cursor) ← readVersionNumber cursor
  if atMark '.' cursor.rest then
    let (minor, cursor) ← readVersionNumber cursor.skip
    return (.version major minor, cursor)
  else none

/-- Reads the meaning of a handle behind its name. -/
def readHandleMeaning (cursor : Cursor) : Option (Directive × Cursor) := do
  let cursor ← cursor.skipWhile isBlank
  let (handle, cursor) ← readHandle cursor
  if isFullHandle handle || handle == ['!'] then
    let cursor ← cursor.need 1
    if atBlank cursor.rest then
      let cursor ← cursor.skipWhile isBlank
      let (stem, cursor) ← readTagChars [] false cursor
      let cursor ← cursor.need 1
      if atGap cursor.rest then
        return (.handle (String.ofList handle) (String.ofList stem), cursor)
      else none
    else none
  else none

/-- Reads a directive at its mark, with its line. -/
def readDirective (cursor : Cursor) : Option (Directive × Cursor) := do
  let (name, cursor) ← cursor.skip.takeWhile isWordChar
  if atGap cursor.rest then
    let (directive, cursor) ←
      if name == "YAML".toList then readVersion cursor
      else if name == "TAG".toList then readHandleMeaning cursor
      else none
    let cursor ← passHeaderLine cursor
    return (directive, cursor)
  else none

end LexiconCompiler.Markup
