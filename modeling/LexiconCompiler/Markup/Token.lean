import LexiconCompiler.Markup.TagText

set_option autoImplicit false
set_option relaxedAutoImplicit false

/-!
Tokens of a document text. Indentation becomes explicit: a block collection has a token where it
starts and one where it ends. A key is recognised only at its colon, and its token is then put in
front of it.

Tokens are fetched as they are needed, two further than the one asked for, and as far as it takes to
see whether that one starts a key.
-/

namespace LexiconCompiler.Markup

/-- A token. -/
inductive Token where
  | streamEnd
  | documentStart
  | documentEnd
  | directive (directive : Directive)
  | blockSequence
  | blockMapping
  | blockEnd
  | flowSequence
  | flowSequenceEnd
  | flowMapping
  | flowMappingEnd
  | blockEntry
  | flowEntry
  | key
  | value
  | alias (name : String)
  | anchor (name : String)
  | tag (handle suffix : String)
  | scalar (plain : Bool) (text : String)
  deriving DecidableEq, Repr

/-- Where a key without its own mark may have started. It is required to be one if it stands at the
indentation of the surrounding mapping; `number` is the number of its first token. -/
structure KeyStart where
  possible : Bool
  required : Bool
  number : Nat
  index : Nat
  line : Nat
  column : Nat

/-- The state of reading tokens. `queue` holds the tokens that were fetched and not yet taken, and
`taken` counts those before them. `keys` has one entry for each open bracket, innermost first, and
one for the block level. `levels` tells for the number of a token that may start a key the level of
that key, counted from the block level. -/
structure Scanner where
  cursor : Cursor
  queue : List Token
  taken : Nat
  flow : Nat
  keyAllowed : Bool
  keys : List KeyStart
  levels : List (Nat × Nat)
  indent : Int
  indents : List Int
  depth : Nat

namespace Scanner

def noKey : KeyStart := ⟨false, false, 0, 0, 0, 0⟩

def start (cs : List Char) : Scanner := ⟨.start cs, [], 0, 0, true, [noKey], [], -1, [], 0⟩

/-- The deepest nesting, of brackets and of block collections. -/
def deepest : Nat := 10000

def nextNumber (s : Scanner) : Nat := s.taken + s.queue.length

def add (s : Scanner) (token : Token) : Scanner := { s with queue := s.queue ++ [token] }

/-- Puts a token in front of the one with a number; if that one was taken, at the end. -/
def insertAt (s : Scanner) (number : Nat) (token : Token) : Scanner :=
  if s.taken ≤ number then
    let before := number - s.taken
    { s with queue := s.queue.take before ++ token :: s.queue.drop before }
  else s.add token

/-- Whether a key that started there may still end here: on its line and within 1024 characters. -/
def reaches (s : Scanner) (key : KeyStart) : Bool :=
  s.cursor.line ≤ key.line && s.cursor.index ≤ key.index + 1024

/-- The possible key of the innermost level. -/
def topKey (s : Scanner) : KeyStart := s.keys.head?.getD noKey

/-- Replaces the possible key of the innermost level. -/
def setKey (s : Scanner) (key : KeyStart) : Scanner := { s with keys := key :: s.keys.tail }

/-- Forgets that the token with a number may start a key. -/
def forget (s : Scanner) (number : Nat) : Scanner :=
  { s with levels := s.levels.filter fun entry => entry.1 != number }

/-- Gives up the possible key; a required one is an error. -/
def dropKey (s : Scanner) : Option Scanner :=
  let key := s.topKey
  if key.possible then
    if key.required then none
    else some ((s.setKey { key with possible := false }).forget key.number)
  else some s

/-- Notes that a key may start here. -/
def saveKey (s : Scanner) : Option Scanner :=
  if s.keyAllowed then do
    let c := s.cursor
    let key : KeyStart :=
      ⟨true, s.flow == 0 && s.indent == c.column, s.nextNumber, c.index, c.line, c.column⟩
    let s ← s.dropKey
    let s := (s.setKey key).forget key.number
    return { s with levels := (key.number, s.flow) :: s.levels }
  else some s

/-- Whether a key of a level, counted from the innermost one, may still be one. A key that is out of
reach is given up, and an error if it is required. -/
def checkKey (s : Scanner) (level : Nat) : Option (Bool × Scanner) :=
  match s.keys[level]? with
  | none => some (false, s)
  | some key =>
    if !key.possible then some (false, s)
    else if s.reaches key then some (true, s)
    else if key.required then none
    else some (false, { s with keys := s.keys.set level { key with possible := false } })

/-- Opens a block collection if the column lies further in; its token goes in front of the one with
the given number, or to the end. -/
def roll (s : Scanner) (column : Int) (number : Option Nat) (token : Token) : Option Scanner :=
  if s.flow == 0 && s.indent < column then
    if s.depth < deepest then
      let s := { s with
        indents := s.indent :: s.indents, indent := column, depth := s.depth + 1 }
      match number with
      | some number => some (s.insertAt number token)
      | none => some (s.add token)
    else none
  else some s

/-- Closes the collections of the given indentations that lie further in than the column. -/
def unrollAll (column : Int) : List Int -> Scanner -> Scanner
  | [], s => s
  | outer :: rest, s =>
    if column < s.indent then
      unrollAll column rest
        { s.add .blockEnd with indent := outer, indents := rest, depth := s.depth - 1 }
    else s

/-- Closes the block collections that lie further in than the column. -/
def unroll (s : Scanner) (column : Int) : Scanner :=
  if s.flow == 0 then unrollAll column s.indents s else s

def single (s : Scanner) (token : Token) : Scanner := { s with cursor := s.cursor.skip }.add token

/-- The end of the text, which also ends its last line. -/
def fetchEnd (s : Scanner) : Option Scanner := do
  let c := s.cursor
  let s :=
    if c.column == 0 then s else { s with cursor := { c with column := 0, line := c.line + 1 } }
  let s ← (s.unroll (-1)).dropKey
  return { s with keyAllowed := false }.add .streamEnd

def fetchDirective (s : Scanner) : Option Scanner := do
  let s ← (s.unroll (-1)).dropKey
  let (directive, cursor) ← readDirective s.cursor
  return { s with keyAllowed := false, cursor := cursor }.add (.directive directive)

def fetchMark (s : Scanner) (token : Token) : Option Scanner := do
  let s ← (s.unroll (-1)).dropKey
  return { s with keyAllowed := false, cursor := s.cursor.skipMany 3 }.add token

def fetchOpen (s : Scanner) (token : Token) : Option Scanner := do
  let s ← s.saveKey
  if s.flow < deepest then
    return { s with
      keys := { noKey with number := s.nextNumber } :: s.keys, flow := s.flow + 1,
      keyAllowed := true }.single token
  else none

/-- Leaves a bracket, and with it what its innermost token noted. -/
def leave (s : Scanner) : Scanner :=
  if s.flow == 0 then s
  else { s.forget s.topKey.number with keys := s.keys.tail, flow := s.flow - 1 }

def fetchClose (s : Scanner) (token : Token) : Option Scanner := do
  let s ← s.dropKey
  return { s.leave with keyAllowed := false }.single token

/-- A comma between entries in brackets. -/
def fetchComma (s : Scanner) : Option Scanner := do
  let s ← s.dropKey
  return { s with keyAllowed := true }.single .flowEntry

/-- Opens a block collection for a mark that stands here; outside brackets a key has to be allowed
here. -/
def rollHere (s : Scanner) (token : Token) : Option Scanner :=
  if s.flow == 0 then
    if s.keyAllowed then s.roll s.cursor.column none token else none
  else some s

def fetchDash (s : Scanner) : Option Scanner := do
  let s ← s.rollHere .blockSequence
  let s ← s.dropKey
  return { s with keyAllowed := true }.single .blockEntry

def fetchKeyMark (s : Scanner) : Option Scanner := do
  let s ← s.rollHere .blockMapping
  let s ← s.dropKey
  return { s with keyAllowed := s.flow == 0 }.single .key

/-- The colon behind a key, or without a key in front of it on its line. -/
def fetchColon (s : Scanner) : Option Scanner := do
  match ← s.checkKey 0 with
  | (true, s) =>
    let key := s.topKey
    let s ← (s.insertAt key.number .key).roll key.column (some key.number) .blockMapping
    let s := (s.setKey { key with possible := false }).forget key.number
    return { s with keyAllowed := false }.single .value
  | (false, s) =>
    let s ← s.rollHere .blockMapping
    return { s with keyAllowed := s.flow == 0 }.single .value

/-- An anchor or alias at its mark. -/
def fetchName (s : Scanner) (token : String -> Token) : Option Scanner := do
  let s ← s.saveKey
  let (name, cursor) ← s.cursor.skip.takeWhile isWordChar
  let ends :=
    atGap cursor.rest || startsWhere (fun c => "?:,]\x7d%@\x60".toList.contains c) cursor.rest
  if name.isEmpty || !ends then none
  else return { s with keyAllowed := false, cursor := cursor }.add (token (String.ofList name))

def fetchTag (s : Scanner) : Option Scanner := do
  let s ← s.saveKey
  let (handle, suffix, cursor) ← readTag s.cursor
  return { s with keyAllowed := false, cursor := cursor }.add
    (.tag (String.ofList handle) (String.ofList suffix))

def fetchBlockScalar (s : Scanner) (literal : Bool) : Option Scanner := do
  let s ← s.dropKey
  let read ← readBlockScalar literal s.indent s.cursor
  return { s with keyAllowed := true, cursor := read.cursor }.add (.scalar false read.text)

def fetchQuoted (s : Scanner) (double : Bool) : Option Scanner := do
  let s ← s.saveKey
  let read ← readQuoted double s.cursor
  return { s with keyAllowed := false, cursor := read.cursor }.add (.scalar false read.text)

def fetchPlain (s : Scanner) : Option Scanner := do
  let s ← s.saveKey
  let read ← readPlain (s.flow != 0) (s.indent + 1).toNat s.cursor
  return { s with keyAllowed := read.broken, cursor := read.cursor }.add (.scalar true read.text)

/-- Whether a plain scalar may start with these characters. -/
def startsPlain (flow : Bool) (c : Char) (rest : List Char) : Bool :=
  !(isBlank c || isBreak c || "-?:,[]\x7b\x7d#&*!|>'\"%@\x60".toList.contains c) ||
    (c == '-' && !atBlank rest) || (!flow && (c == '?' || c == ':') && !atGap rest)

/-- The token that starts with these characters, apart from marks that have a line for
themselves. -/
def fetchAt (s : Scanner) (c : Char) (rest : List Char) : Option Scanner :=
  let flow := s.flow != 0
  if c == '[' then s.fetchOpen .flowSequence
  else if c == '\x7b' then s.fetchOpen .flowMapping
  else if c == ']' then s.fetchClose .flowSequenceEnd
  else if c == '\x7d' then s.fetchClose .flowMappingEnd
  else if c == ',' then s.fetchComma
  else if c == '-' && atGap rest then s.fetchDash
  else if c == '?' && (flow || atGap rest) then s.fetchKeyMark
  else if c == ':' && (flow || atGap rest) then s.fetchColon
  else if c == '*' then s.fetchName .alias
  else if c == '&' then s.fetchName .anchor
  else if c == '!' then s.fetchTag
  else if c == '|' && !flow then s.fetchBlockScalar true
  else if c == '>' && !flow then s.fetchBlockScalar false
  else if c == '\x27' then s.fetchQuoted false
  else if c == '"' then s.fetchQuoted true
  else if startsPlain flow c rest then s.fetchPlain
  else none

/-- Passes a comment behind the token just fetched; behind a dash it belongs to what follows. -/
def finishLine (s : Scanner) : Option Scanner :=
  if s.queue.getLast? == some .blockEntry then some s
  else s.cursor.passTrailingComment.map fun cursor => { s with cursor := cursor }

/-- Fetches the next token, with the tokens that its indentation implies. -/
def fetch (s : Scanner) : Option Scanner := do
  let cursor ← s.cursor.need 1
  let (allowed, cursor) ← cursor.toToken (s.flow != 0) s.keyAllowed
  let s := { s with keyAllowed := allowed }.unroll cursor.column
  let cursor ← cursor.need 4
  let s := { s with cursor := cursor }
  match cursor.rest with
  | [] => s.fetchEnd
  | c :: rest =>
    if cursor.column == 0 && c == '%' then s.fetchDirective
    else if cursor.column == 0 && atDocumentMark (c :: rest) then
      s.fetchMark (if c == '-' then .documentStart else .documentEnd)
    else
      let s ← s.fetchAt c rest
      s.finishLine

/-- Whether the first token of the queue is settled: two more are there, and it starts no key that
may still turn out to be one. -/
def isSettled (s : Scanner) : Option (Bool × Scanner) :=
  match s.queue with
  | _ :: _ :: _ :: _ =>
    match s.levels.lookup s.taken with
    | none => some (true, s)
    | some level => (s.checkKey (s.flow - level)).map fun (pending, s) => (!pending, s)
  | _ => some (false, s)

/-- Fetches tokens until the first one is settled. -/
def settle : Nat -> Scanner -> Option Scanner
  | 0, _ => none
  | fuel + 1, s => do
    let (settled, s) ← s.isSettled
    if settled then return s
    else
      let s ← s.fetch
      settle fuel s

def take (s : Scanner) : Scanner :=
  { s with
    queue := s.queue.tail, taken := s.taken + 1,
    levels := s.levels.filter fun entry => s.taken < entry.1 }

end Scanner

end LexiconCompiler.Markup
