import LexiconCompiler.Markup.Spacing
import LexiconCompiler.Number.Literal

set_option autoImplicit false
set_option relaxedAutoImplicit false

/-!
The texts of scalars. Inside plain and quoted scalars the line ends fold: one gives a blank, more
give one newline less than there are. Block scalars keep or fold the lines below their header.

Lists of characters named `out` are newest first; lists named `bound` only bound the steps.
-/

namespace LexiconCompiler.Markup

/-- White space and line ends that were read but not yet written, each newest first. -/
structure Gap where
  blanks : List Char
  broken : Bool
  first : List Char
  others : List Char

namespace Gap

def none : Gap := ⟨[], false, [], []⟩

/-- A gap behind an escaped line end, which is not written. -/
def escaped : Gap := ⟨[], true, [], []⟩

/-- Adds white space, which counts only before the first line end. -/
def addBlank (gap : Gap) (c : Char) : Gap :=
  if gap.broken then gap else { gap with blanks := c :: gap.blanks }

def addBreak (gap : Gap) (text : List Char) : Gap :=
  if gap.broken then { gap with others := text ++ gap.others } else ⟨[], true, text, []⟩

/-- What a gap is written as, newest first. -/
def folded (gap : Gap) : List Char :=
  if gap.broken then
    if gap.first == ['\n'] then (if gap.others.isEmpty then [' '] else gap.others)
    else gap.others ++ gap.first
  else gap.blanks

end Gap

/-- A scalar text and the place behind it. `broken` tells whether line ends were passed after it. -/
structure ScalarRead where
  text : String
  cursor : Cursor
  broken : Bool

/-- The text of characters collected newest first. -/
def collected (out : List Char) : String := String.ofList out.reverse

/-- Reads the white space and line ends in front. A tab behind a line end has to lie at the column
`indent` at least. -/
def readGap (indent : Nat) : List Char -> Gap -> Cursor -> Option (Gap × Cursor)
  | [], gap, cursor => some (gap, cursor)
  | _ :: bound, gap, cursor =>
    match cursor.rest with
    | [] => some (gap, cursor)
    | c :: _ =>
      if isBlank c then
        if gap.broken && cursor.column < indent && c == '\t' then none
        else do
          let cursor ← cursor.skip.need 1
          readGap indent bound (gap.addBlank c) cursor
      else if isBreak c then do
        let cursor ← cursor.need 2
        let gap := gap.addBreak (breakText cursor.rest)
        let cursor ← cursor.skipBreak.need 1
        readGap indent bound gap cursor
      else some (gap, cursor)

/-- Whether a plain scalar goes on with these characters. -/
def plainContinues (flow : Bool) : List Char -> Bool
  | [] => false
  | c :: rest =>
    !(isBlank c || isBreak c || (c == ':' && atGap rest) ||
      (flow && ",?[]\x7b\x7d".toList.contains c))

/-- Reads characters of a plain scalar up to the next white space. -/
def readPlainRun (flow : Bool) : List Char -> List Char -> Cursor -> Option (List Char × Cursor)
  | [], out, cursor => some (out, cursor)
  | _ :: bound, out, cursor =>
    match cursor.rest with
    | [] => some (out, cursor)
    | c :: rest =>
      if plainContinues flow (c :: rest) then do
        let cursor ← cursor.skip.need 2
        readPlainRun flow bound (c :: out) cursor
      else some (out, cursor)

/-- Reads a plain scalar on. `flow` tells whether brackets are open, `indent` is the least column of
its lines. -/
def readPlainFrom (flow : Bool) (indent : Nat) :
    List Char -> Gap -> List Char -> Cursor -> Option ScalarRead
  | bound, gap, out, cursor => do
    let cursor ← cursor.need 4
    if (cursor.column == 0 && atDocumentMark cursor.rest) || atMark '#' cursor.rest then
      return ⟨collected out, cursor, gap.broken⟩
    else
      let continues := plainContinues flow cursor.rest
      let (out, cursor) ←
        readPlainRun flow cursor.rest (if continues then gap.folded ++ out else out) cursor
      let gap := if continues then Gap.none else gap
      if atBlank cursor.rest || atBreak cursor.rest then
        let cursor ← cursor.need 1
        let (gap, cursor) ← readGap indent cursor.rest gap cursor
        match bound with
        | [] => return ⟨collected out, cursor, gap.broken⟩
        | _ :: bound =>
          if !flow && cursor.column < indent then return ⟨collected out, cursor, gap.broken⟩
          else readPlainFrom flow indent bound gap out cursor
      else return ⟨collected out, cursor, gap.broken⟩

def readPlain (flow : Bool) (indent : Nat) (cursor : Cursor) : Option ScalarRead :=
  readPlainFrom flow indent cursor.rest .none [] cursor

/-- The character that a one-letter escape stands for. -/
def escapes : List (Char × Char) :=
  [('0', '\x00'), ('a', '\x07'), ('b', '\x08'), ('t', '\t'), ('\t', '\t'), ('n', '\n'),
   ('v', '\x0b'), ('f', '\x0c'), ('r', '\r'), ('e', '\x1b'), (' ', ' '), ('"', '"'),
   ('\x27', '\x27'), ('\\', '\\'), ('N', '\u0085'), ('_', '\u00a0'), ('L', '\u2028'),
   ('P', '\u2029')]

/-- The number of digits of a numbered escape. -/
def hexWidth? (c : Char) : Option Nat :=
  if c == 'x' then some 2 else if c == 'u' then some 4 else if c == 'U' then some 8 else none

/-- The character that the digits of a numbered escape spell. -/
def hexChar? (width : Nat) (cs : List Char) : Option Char :=
  let digits := cs.take width
  if digits.length == width then
    (Number.digitsValue? 16 digits).bind fun code =>
      if code.isValidChar then some (Char.ofNat code) else none
  else none

def readEscape (c : Char) (cursor : Cursor) : Option (Char × Cursor) :=
  match escapes.lookup c, hexWidth? c with
  | some meant, _ => some (meant, cursor.skipMany 2)
  | none, some width => do
    let cursor ← (cursor.skipMany 2).need width
    let meant ← hexChar? width cursor.rest
    return (meant, cursor.skipMany width)
  | none, none => none

/-- Reads characters of a double-quoted scalar up to white space, its closing quote, or behind an
escaped line end, which the flag tells. -/
def readDoubleRun : List Char -> List Char -> Cursor -> Option (List Char × Bool × Cursor)
  | [], out, cursor => some (out, false, cursor)
  | _ :: bound, out, cursor =>
    match cursor.rest with
    | '"' :: _ => some (out, false, cursor)
    | '\\' :: c :: _ =>
      if isBreak c then do
        let cursor ← cursor.need 3
        return (out, true, cursor.skip.skipBreak)
      else do
        let (meant, cursor) ← readEscape c cursor
        let cursor ← cursor.need 2
        readDoubleRun bound (meant :: out) cursor
    | ['\\'] => none
    | c :: _ =>
      if isBlank c || isBreak c then some (out, false, cursor)
      else do
        let cursor ← cursor.skip.need 2
        readDoubleRun bound (c :: out) cursor
    | [] => some (out, false, cursor)

/-- Reads characters of a single-quoted scalar up to white space or its closing quote; a quote
written twice is a quote. -/
def readSingleRun : List Char -> List Char -> Cursor -> Option (List Char × Bool × Cursor)
  | [], out, cursor => some (out, false, cursor)
  | _ :: bound, out, cursor =>
    match cursor.rest with
    | '\x27' :: '\x27' :: _ => do
      let cursor ← (cursor.skipMany 2).need 2
      readSingleRun bound ('\x27' :: out) cursor
    | c :: _ =>
      if isBlank c || isBreak c || c == '\x27' then some (out, false, cursor)
      else do
        let cursor ← cursor.skip.need 2
        readSingleRun bound (c :: out) cursor
    | [] => some (out, false, cursor)

/-- Reads a quoted scalar on, up to its closing quote. -/
def readQuotedFrom (double : Bool) : List Char -> List Char -> Cursor -> Option ScalarRead
  | bound, out, cursor => do
    let cursor ← cursor.need 4
    if (cursor.column == 0 && atDocumentMark cursor.rest) || cursor.rest.isEmpty then none
    else
      let (out, escaped, cursor) ←
        if double then readDoubleRun cursor.rest out cursor
        else readSingleRun cursor.rest out cursor
      let cursor ← cursor.need 1
      if atMark (if double then '"' else '\x27') cursor.rest then
        return ⟨collected out, cursor.skip, false⟩
      else
        let (gap, cursor) ←
          readGap 0 cursor.rest (if escaped then Gap.escaped else Gap.none) cursor
        match bound with
        | [] => none
        | _ :: bound => readQuotedFrom double bound (gap.folded ++ out) cursor

def readQuoted (double : Bool) (cursor : Cursor) : Option ScalarRead :=
  readQuotedFrom double cursor.rest [] cursor.skip

/-- How the line ends behind a block scalar are kept. -/
inductive Chomping where
  | clip
  | strip
  | keep
  deriving DecidableEq

/-- The header of a block scalar. `increment` is zero where the first line tells the indentation. -/
structure BlockHeader where
  literal : Bool
  chomping : Chomping
  increment : Nat

/-- The indentation indicator, a digit other than zero. -/
def readIncrement (cursor : Cursor) : Option (Nat × Cursor) := do
  let cursor ← cursor.need 1
  match cursor.rest with
  | c :: _ =>
    if Text.isAsciiDigit c then
      if c == '0' then none else return (c.toNat - 48, cursor.skip)
    else return (0, cursor)
  | [] => return (0, cursor)

def readChomping (cursor : Cursor) : Option (Chomping × Cursor) := do
  let cursor ← cursor.need 1
  match cursor.rest with
  | '+' :: _ => return (.keep, cursor.skip)
  | '-' :: _ => return (.strip, cursor.skip)
  | _ => return (.clip, cursor)

/-- The indicators behind `|` or `>`, in either order. -/
def readIndicators (literal : Bool) (cursor : Cursor) : Option (BlockHeader × Cursor) := do
  match ← readChomping cursor with
  | (.clip, cursor) =>
    match ← readIncrement cursor with
    | (0, cursor) => return (⟨literal, .clip, 0⟩, cursor)
    | (increment, cursor) =>
      let (chomping, cursor) ← readChomping cursor
      return (⟨literal, chomping, increment⟩, cursor)
  | (chomping, cursor) =>
    let (increment, cursor) ← readIncrement cursor
    return (⟨literal, chomping, increment⟩, cursor)

/-- Goes to the end of a line that may hold a comment, and behind it. -/
def passHeaderLine (cursor : Cursor) : Option Cursor := do
  let cursor ← cursor.skipWhile isBlank
  let cursor ←
    if atMark '#' cursor.rest then cursor.skipWhile fun c => !isBreak c else some cursor
  if atBreak cursor.rest then
    let cursor ← cursor.need 2
    return cursor.skipBreak
  else if cursor.rest.isEmpty then return cursor
  else none

/-- The lines in front of text in a block scalar: the widest indentation met and the line ends,
newest first. `indent` is zero until it is known. -/
structure BlockGap where
  widest : Nat
  breaks : List Char
  cursor : Cursor

/-- Reads the indentation and the empty lines in front. -/
def readBlockGap (indent : Nat) : List Char -> Nat -> List Char -> Cursor -> Option BlockGap
  | bound, widest, breaks, cursor => do
    let cursor ← cursor.need 1
    let room := if indent == 0 then cursor.rest else cursor.rest.take (indent - cursor.column)
    let (_, cursor) ← Cursor.takeFrom (· == ' ') room [] cursor
    let widest := max widest cursor.column
    if (indent == 0 || cursor.column < indent) && atMark '\t' cursor.rest then none
    else if atBreak cursor.rest then
      match bound with
      | [] => none
      | _ :: bound =>
        let cursor ← cursor.need 2
        readBlockGap indent bound widest (breakText cursor.rest ++ breaks) cursor.skipBreak
    else return ⟨widest, breaks, cursor⟩

/-- The text of a block scalar so far; `pending` is the end of the last line, `breaks` are the ends
of the empty lines below it. -/
structure BlockText where
  out : List Char
  pending : List Char
  breaks : List Char
  wasBlank : Bool

/-- Joins a line that starts with a character: lines fold unless they start with white space. -/
def BlockText.join (block : BlockText) (literal : Bool) (c : Char) : List Char :=
  let joint :=
    if !literal && !block.wasBlank && !isBlank c && block.pending == ['\n'] then
      (if block.breaks.isEmpty then [' '] else [])
    else block.pending
  block.breaks ++ joint ++ block.out

def BlockText.finish (block : BlockText) (chomping : Chomping) : String :=
  collected <|
    match chomping with
    | .strip => block.out
    | .clip => block.pending ++ block.out
    | .keep => block.breaks ++ block.pending ++ block.out

def readBlockLines (header : BlockHeader) (indent : Nat) :
    List Char -> BlockText -> Cursor -> Option ScalarRead
  | [], block, cursor => some ⟨block.finish header.chomping, cursor, false⟩
  | _ :: bound, block, cursor =>
    match cursor.rest with
    | [] => some ⟨block.finish header.chomping, cursor, false⟩
    | c :: _ =>
      if cursor.column == indent then do
        let (line, cursor) ←
          Cursor.takeFrom (fun c => !isBreak c) cursor.rest (block.join header.literal c) cursor
        let cursor ← cursor.need 2
        let pending := breakText cursor.rest
        let gap ← readBlockGap indent cursor.rest 0 [] cursor.skipBreak
        readBlockLines header indent bound ⟨line, pending, gap.breaks, isBlank c⟩ gap.cursor
      else some ⟨block.finish header.chomping, cursor, false⟩

/-- Reads a block scalar at its `|` or `>`; `parent` is the surrounding indentation, -1 at the
top. -/
def readBlockScalar (literal : Bool) (parent : Int) (cursor : Cursor) : Option ScalarRead := do
  let (header, cursor) ← readIndicators literal cursor.skip
  let cursor ← passHeaderLine cursor
  let given := if header.increment == 0 then 0 else parent.toNat + header.increment
  let gap ← readBlockGap given cursor.rest 0 [] cursor
  let indent := if given == 0 then max gap.widest (max (parent + 1).toNat 1) else given
  let cursor ← gap.cursor.need 1
  readBlockLines header indent cursor.rest ⟨[], [], gap.breaks, false⟩ cursor

end LexiconCompiler.Markup
