import LexiconCompiler.Text.Basic
import LexiconCompiler.Text.Utf8

set_option autoImplicit false
set_option relaxedAutoImplicit false

/-!
Patterns of paths. In a segment, `*` stands for any text, `?` for one character, `[...]` for one of
several, and a backslash takes the meaning from the next character. The segment `**` stands for any
number of segments. `{a,b}` stands for either text and may reach over segments.
-/

namespace LexiconCompiler.Glob

open LexiconCompiler.Text

/-- Characters that make a text a pattern. -/
def isMeta (c : Char) : Bool := c == '*' || c == '?' || c == '[' || c == '\x7b'

/-- Whether a text is a pattern rather than a path. -/
def isPattern (s : String) : Bool := s.toList.any isMeta

/-- Drops the backslashes in front of characters with a meaning. -/
def unescape : List Char -> List Char
  | [] => []
  | '\\' :: c :: rest =>
    if isMeta c || c == ']' || c == '\x7d' then c :: unescape rest else '\\' :: unescape (c :: rest)
  | c :: rest => c :: unescape rest

/-- The position of the last slash before the first character with a meaning. -/
def splitPoint? : Nat -> List Char -> Option Nat
  | _, [] => none
  | _, ['\\'] => none
  | index, '\\' :: _ :: rest => splitPoint? (index + 2) rest
  | index, c :: rest =>
    if isMeta c then none
    else if c == '/' then (splitPoint? (index + 1) rest).orElse fun _ => some index
    else splitPoint? (index + 1) rest

/-- The directory that a pattern searches, and the pattern below it. -/
def splitPattern (s : String) : String × String :=
  let cs := s.toList
  match splitPoint? 0 cs with
  | none => (".", s)
  | some 0 => ("/", String.ofList (cs.drop 1))
  | some n => (String.ofList (unescape (cs.take n)), String.ofList (cs.drop (n + 1)))

/-- The rest of a pattern after a class that was opened, if it is closed. -/
def afterClass? : List Char -> Option (List Char)
  | [] => none
  | ['\\'] => none
  | '\\' :: _ :: rest => afterClass? rest
  | c :: rest => if c == ']' then some rest else afterClass? rest

/-- The rest of a pattern after the mark of a negated class. -/
def dropNegation : List Char -> List Char
  | '^' :: rest => rest
  | '!' :: rest => rest
  | cs => cs

/-- Whether classes and alternatives are closed. The first argument bounds the length, the second
counts the open alternatives. -/
def isClosed : Nat -> Nat -> List Char -> Bool
  | _, depth, [] => depth == 0
  | 0, _, _ :: _ => false
  | bound + 1, depth, c :: rest =>
    if c == '\\' then !rest.isEmpty && isClosed bound depth (rest.drop 1)
    else if c == '[' then
      let inner := dropNegation rest
      if inner.head? == some ']' then false
      else
        match afterClass? inner with
        | none => false
        | some rest => isClosed bound depth rest
    else if c == '\x7b' then isClosed bound (depth + 1) rest
    else if c == '\x7d' then depth != 0 && isClosed bound (depth - 1) rest
    else isClosed bound depth rest

/-- Whether a text is a pattern that can be matched. -/
def isValid (s : String) : Bool := isClosed s.length 0 s.toList

/-- Whether `**` stands somewhere with more than one character behind it. -/
def hasInnerStars : List Char -> Bool
  | '\\' :: _ :: rest => hasInnerStars rest
  | '*' :: '*' :: _ :: _ :: _ => true
  | _ :: rest => hasInnerStars rest
  | [] => false

/-- The position of the first character with a meaning. -/
def metaIndex? : Nat -> List Char -> Option Nat
  | _, [] => none
  | _, ['\\'] => none
  | index, '\\' :: _ :: rest => metaIndex? (index + 2) rest
  | index, c :: rest => if isMeta c then some index else metaIndex? (index + 1) rest

/-- The position of the last character of a class that no backslash stands in front of; `before` is
the character in front of the text. -/
def lastIndex? (test : Char -> Bool) (before : Option Char) (index : Nat) : List Char -> Option Nat
  | [] => none
  | c :: rest =>
    (lastIndex? test (some c) (index + 1) rest).orElse fun _ =>
      if test c && before != some '\\' then some index else none

def lastSlash? (cs : List Char) : Option Nat := lastIndex? (· == '/') none 0 cs

/-- The position of the last slash or end of alternatives. -/
def lastBorder? (cs : List Char) : Option Nat :=
  lastIndex? (fun c => c == '/' || c == '\x7d') none 0 cs

/-- The position of the brace that opens the alternatives closed behind a text, which is given last
character first; `depth` counts the open ones. -/
def openingIndex? (depth : Nat) : List Char -> Option Nat
  | [] => none
  | c :: rest =>
    let escaped := rest.head? == some '\\'
    if c == '\x7d' && !escaped then openingIndex? (depth + 1) rest
    else if c == '\x7b' && !escaped then
      if depth ≤ 1 then some rest.length else openingIndex? (depth - 1) rest
    else openingIndex? depth rest

/-- The position of the next comma between alternatives; `depth` counts the alternatives opened
inside less those closed. -/
def commaIndex? (depth : Int) (index : Nat) : List Char -> Option Nat
  | [] => none
  | ['\\'] => none
  | '\\' :: _ :: rest => commaIndex? depth (index + 2) rest
  | c :: rest =>
    if c == '\x7b' then commaIndex? (depth + 1) (index + 1) rest
    else if c == '\x7d' then commaIndex? (depth - 1) (index + 1) rest
    else if c == ',' && depth == 0 then some index
    else commaIndex? depth (index + 1) rest

/-- The position of the brace that closes alternatives; `depth` counts those opened inside. -/
def closingIndex? (depth index : Nat) : List Char -> Option Nat
  | [] => none
  | ['\\'] => none
  | '\\' :: _ :: rest => closingIndex? depth (index + 2) rest
  | c :: rest =>
    if c == '\x7b' then closingIndex? (depth + 1) (index + 1) rest
    else if c == '\x7d' then
      if depth == 0 then some index else closingIndex? (depth - 1) (index + 1) rest
    else closingIndex? depth (index + 1) rest

/-- The texts between the commas of alternatives, at most as many as the first argument says. -/
def alternativesAtMost : Nat -> List Char -> List (List Char)
  | 0, cs => [cs]
  | bound + 1, cs =>
    match commaIndex? 0 0 cs with
    | none => [cs]
    | some n => cs.take n :: alternativesAtMost bound (cs.drop (n + 1))

/-- The texts between the commas of alternatives. -/
def alternatives (cs : List Char) : List (List Char) := alternativesAtMost cs.length cs

/-- Looks for a character in a class up to its end or to the first part that holds it; `last` is the
character before, with which a range may start. Gives the rest of the pattern too. -/
def scanClass (c : Char) : Option Char -> List Char -> Bool × List Char
  | _, [] => (false, [])
  | some low, '-' :: '\\' :: high :: rest =>
    if low ≤ c && c ≤ high then (true, rest) else scanClass c none rest
  | some low, ['-', '\\'] => (low ≤ c && c ≤ replacement, [])
  | some low, '-' :: high :: rest =>
    if high == ']' then (c == '-', high :: rest)
    else if low ≤ c && c ≤ high then (true, rest)
    else scanClass c none rest
  | _, '\\' :: d :: rest => if c == d then (true, rest) else scanClass c (some d) rest
  | _, ['\\'] => (c == replacement, [])
  | _, d :: rest =>
    if d == ']' then (false, d :: rest)
    else if c == d then (true, rest)
    else scanClass c (some d) rest

/-- Whether a class, given behind its opening, holds a character. -/
inductive ClassMatch where
  | malformed
  | refused
  | accepted (rest : List Char)

/-- Matches a character with a class. A class is malformed if its end is missed on the way. -/
def matchClass (c : Char) (cs : List Char) : ClassMatch :=
  let inner := dropNegation cs
  let negated := inner.length != cs.length
  if inner.isEmpty || inner.head? == some ']' then .malformed
  else
    let (found, rest) := scanClass c none inner
    if found == negated then (if rest.isEmpty then .malformed else .refused)
    else
      match afterClass? rest with
      | none => .malformed
      | some rest => .accepted rest

/-- The first result of a list that is settled: a match, or nothing for a malformed pattern. -/
def firstSettled : List (Option Bool) -> Option Bool
  | [] => some false
  | some false :: rest => firstSettled rest
  | result :: _ => result

/-- The rests of patterns that stand for nothing. -/
def emptyPatterns : List String := ["", "*", "**", "/**", "**/", "/**/"]

/-- Whether the rest of a pattern stands for nothing; nothing is the answer if it is malformed. -/
def isEmptyPattern : Nat -> List Char -> Option Bool
  | 0, cs => some (emptyPatterns.contains (String.ofList cs))
  | bound + 1, cs =>
    if emptyPatterns.contains (String.ofList cs) then some true
    else
      match cs with
      | '\x7b' :: rest =>
        match closingIndex? 0 0 rest with
        | none => none
        | some n =>
          firstSettled ((alternatives (rest.take n)).map fun text =>
            isEmptyPattern bound (text ++ rest.drop (n + 1)))
      | _ => some false

/-- The pattern read since the last star, last character first, and the name at that star. -/
abbrev Star := Option (List Char × List Char)

/-- The star after more of the pattern was read. -/
def readOn (star : Star) (cs : List Char) : Star :=
  star.map fun (since, name) => (cs.reverse ++ since, name)

/-- Matches a segment of a pattern with a name; nothing is the answer if the pattern is malformed.
A mismatch lets the last star stand for one character more. -/
def matchFrom : Nat -> Star -> List Char -> List Char -> Option Bool
  | 0, _, _, _ => some false
  | bound + 1, star, pattern, name =>
    match name with
    | [] => isEmptyPattern pattern.length pattern
    | c :: others =>
      let again : Option Bool :=
        match star with
        | some (since, _ :: later) =>
          matchFrom bound (some ([], later)) (since.reverse ++ pattern) later
        | _ => some false
      match pattern with
      | [] => again
      | '*' :: '*' :: rest => matchFrom bound (some ([], name)) rest name
      | '*' :: rest => matchFrom bound (some ([], name)) rest name
      | '?' :: rest => matchFrom bound (readOn star ['?']) rest others
      | '[' :: rest =>
        match matchClass c rest with
        | .malformed => none
        | .refused => again
        | .accepted after =>
          matchFrom bound (readOn star (pattern.take (pattern.length - after.length))) after others
      | '\x7b' :: rest =>
        match closingIndex? 0 0 rest with
        | none => none
        | some n =>
          firstSettled ((alternatives (rest.take n)).map fun text =>
            matchFrom bound star (text ++ rest.drop (n + 1)) name)
      | ['\\'] => none
      | '\\' :: d :: rest =>
        if c == d then matchFrom bound (readOn star ['\\', d]) rest others else again
      | d :: rest => if c == d then matchFrom bound (readOn star [d]) rest others else again

/-- Whether a segment of a pattern stands for a name; nothing is the answer if matching meets
something malformed. A name is tried at each of its places with each place of the pattern. -/
def matchName (pattern name : List Char) : Option Bool :=
  let size := pattern.length + 2
  matchFrom (size * size * (name.length + 2)) none pattern name

end LexiconCompiler.Glob
