import LexiconCompiler.Markup.Cursor

set_option autoImplicit false
set_option relaxedAutoImplicit false

/-!
What stands between tokens: white space, line ends and comments.

Comment lines that follow each other are passed together, and the white space in front of the later
ones may hold tabs. At most 512 bytes are looked at for the next comment.
-/

namespace LexiconCompiler.Markup

namespace Cursor

/-- How far ahead a comment is looked for. -/
def commentReach : Nat := 512

/-- Goes to the comment at an index and on to the end of its line. The list bounds the steps. -/
def passComment (start : Nat) : List Char -> Cursor -> Option Cursor
  | [], cursor => cursor.need 1
  | _ :: bound, cursor => do
    let cursor ← cursor.need 1
    if atLineEnd cursor.rest then
      if start ≤ cursor.index then return cursor
      else
        let cursor ← cursor.need 2
        passComment start bound cursor.skipBreak
    else passComment start bound cursor.skip

/-- The distance to a comment behind white space only; `ahead` characters were passed. -/
def commentOnLine : Nat -> Nat -> List Char -> Cursor -> Option (Option Nat × Cursor)
  | 0, _, _, cursor => some (none, cursor)
  | reach + 1, ahead, cs, cursor => do
    let cursor ← cursor.need (ahead + 1)
    match cs with
    | c :: rest =>
      if isBlank c then commentOnLine reach (ahead + 1) rest cursor
      else return (if c == '#' then some ahead else none, cursor)
    | [] => return (none, cursor)

/-- The distance to a comment behind white space and line ends of one byte. -/
def commentBelow : Nat -> Nat -> List Char -> Cursor -> Option (Option Nat × Cursor)
  | 0, _, _, cursor => some (none, cursor)
  | reach + 1, ahead, cs, cursor => do
    let cursor ← cursor.need (ahead + 1)
    match cs with
    | c :: rest =>
      if isBlank c || c == '\n' || c == '\r' then commentBelow reach (ahead + 1) rest cursor
      else if isBreak c && reach != 0 then
        let cursor ← cursor.need (ahead + 2)
        return (none, cursor)
      else return (if c == '#' then some ahead else none, cursor)
    | [] => return (none, cursor)

/-- The distance from the end of a comment to the comment below it. -/
def nextComment (cursor : Cursor) : Option (Option Nat × Cursor) :=
  match cursor.rest with
  | c :: rest =>
    if c == '\n' || c == '\r' then commentBelow (commentReach - 1) 1 rest cursor
    else (cursor.need 2).map (none, ·)
  | [] => (cursor.need 2).map (none, ·)

/-- Passes the comment lines below the end of a comment. The list bounds the steps. -/
def passCommentsBelow : List Char -> Cursor -> Option Cursor
  | [], cursor => cursor.need 2
  | _ :: bound, cursor => do
    match ← cursor.nextComment with
    | (some ahead, cursor) =>
      let cursor ← passComment (cursor.index + ahead) cursor.rest cursor
      passCommentsBelow bound cursor
    | (none, cursor) => return cursor

/-- Passes a comment and the comment lines below it. -/
def passComments (cursor : Cursor) : Option Cursor := do
  let cursor ← passComment cursor.index cursor.rest cursor
  passCommentsBelow cursor.rest cursor

/-- Passes a comment that follows on the same line, with the white space in front of it. -/
def passTrailingComment (cursor : Cursor) : Option Cursor :=
  if cursor.broken then some cursor
  else do
    match ← commentOnLine commentReach 0 cursor.rest cursor with
    | (some ahead, cursor) => passComment (cursor.index + ahead) cursor.rest cursor
    | (none, cursor) => return cursor

/-- A byte-order mark at the window lets the first character of a line pass. -/
def passOrderMark (cursor : Cursor) : Cursor :=
  if cursor.column == 0 && cursor.window == some orderMark then cursor.skip else cursor

/-- Goes to the next token; the flag tells whether a key may start there. A line end allows a key
outside brackets; a tab is white space only in brackets or where no key may start. The list bounds
the steps. -/
def toTokenWithin (flow : Bool) : List Char -> Bool -> Cursor -> Option (Bool × Cursor)
  | bound, allowed, cursor => do
    let cursor ← cursor.need 1
    let cursor ←
      cursor.passOrderMark.skipWhile fun c => c == ' ' || ((flow || !allowed) && c == '\t')
    let cursor ← if atMark '#' cursor.rest then cursor.passComments else some cursor
    match bound with
    | [] => return (allowed, cursor)
    | _ :: bound =>
      if atBreak cursor.rest then
        let cursor ← cursor.need 2
        toTokenWithin flow bound (allowed || !flow) cursor.skipBreak
      else return (allowed, cursor)

/-- Goes to the next token; the flag tells whether a key may start there. -/
def toToken (flow allowed : Bool) (cursor : Cursor) : Option (Bool × Cursor) :=
  toTokenWithin flow cursor.rest allowed cursor

end Cursor

end LexiconCompiler.Markup
