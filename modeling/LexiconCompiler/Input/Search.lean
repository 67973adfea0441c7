import LexiconCompiler.Files.FileSystem
import LexiconCompiler.Input.Glob

set_option autoImplicit false
set_option relaxedAutoImplicit false

/-!
The files that a pattern stands for below a directory. A pattern is taken apart from its end: what
stands before the last slash gives directories, and in each of them the last segment gives names.
Alternatives that end a pattern are tried one after the other with what stands around them.
-/

namespace LexiconCompiler.Glob

/-- The directory that is searched. Names are taken from there, or as they are if it is none. -/
structure Place where
  files : FileSystem
  root : Option String

def Place.below (files : FileSystem) (root : String) : Place :=
  ⟨files, if root == "." then none else some (Path.clean root)⟩

namespace Place

/-- The path of a name. Names that lead out of the directory have none. -/
def path? (place : Place) (name : String) : Option String :=
  match place.root with
  | none => some name
  | some root =>
    let path := Path.join root name
    if Text.startsWith path.toList root.toList then some path else none

def entry? (place : Place) (name : String) : Option FileEntry :=
  (place.path? name).bind place.files.entry?

/-- What stands in a directory, nothing if the name is none of a directory. -/
def children? (place : Place) (name : String) : Option (List (String × FileEntry)) :=
  (place.path? name).bind place.files.children?

/-- What stands at a name that may end with a slash. -/
def found? (place : Place) (name : List Char) : Option FileEntry :=
  let name := if name.length > 1 && name.getLast? == some '/' then name.dropLast else name
  place.entry? (String.ofList name)

end Place

/-- What a search is for: the files at the end of a pattern, or directories on the way. -/
inductive Wanted where
  | files
  | directories
  deriving DecidableEq, Repr

def Wanted.accepts (wanted : Wanted) (entry : FileEntry) : Bool :=
  entry.isDirectory == (wanted == .directories)

/-- All that stands below a directory, at most as deep as the first argument says. Directories are
below themselves. -/
def Place.everything (place : Place) (wanted : Wanted) : Nat -> String -> List String
  | 0, _ => []
  | depth + 1, directory =>
    match place.children? directory with
    | none => []
    | some children =>
      let inside := children.flatMap fun (name, entry) =>
        let path := Path.join directory name
        if entry.isDirectory then place.everything wanted depth path
        else if wanted == .files then [path]
        else []
      if wanted == .directories then directory :: inside else inside

/-- What a last segment stands for in a directory; nothing is the answer if it is malformed. -/
def Place.inDirectory? (place : Place) (wanted : Wanted) (directory : String)
    (segment : List Char) : Option (List String) :=
  if segment.isEmpty then
    match wanted, place.found? directory.toList with
    | .directories, some entry => some (if entry.isDirectory then [directory] else [])
    | _, _ => some []
  else if segment == ['*', '*'] then
    some (place.everything wanted (place.files.depthBound + 1) directory)
  else
    ((place.children? directory).getD []).foldlM
      (fun found (name, entry) => do
        let wins ← matchName segment name.toList
        return if wins && wanted.accepts entry then found ++ [Path.join directory name] else found)
      []

/-- How a pattern is searched: as a path, by its last segment in the directories of what stands in
front, or by the alternatives that end it. -/
inductive Division where
  | path (name : String)
  | segment (directory : List Char) (isPath : Bool) (last : List Char)
  | alternatives (opening closing : Nat)

def divide (pattern : List Char) : Division :=
  match metaIndex? 0 pattern with
  | none => .path (String.ofList (unescape pattern))
  | some firstMeta =>
    let segmentAt (border : Option Nat) : Division :=
      match border with
      | none => .segment ['.'] true pattern
      | some n => .segment (pattern.take n) (n ≤ firstMeta) (pattern.drop (n + 1))
    match lastBorder? pattern with
    | none => segmentAt none
    | some border =>
      if pattern[border]? == some '\x7d' then
        let before := pattern.take border
        match openingIndex? 1 before.reverse with
        | some opening => .alternatives opening border
        | none => segmentAt (lastSlash? before)
      else segmentAt (some border)

/-- The directories that alternatives stand in, as a pattern, and how much of the whole pattern is
left in front of them. -/
def frontOf (pattern : List Char) (opening : Nat) : Option (List Char) × List Char :=
  let before := pattern.take opening
  match lastBorder? before with
  | none => (none, before)
  | some n =>
    if before[n]? == some '\x7d' then (none, before)
    else (some (before.take n), before.drop (n + 1))

/-- The alternatives that are tried. An empty one at the end is none. -/
def triedAlternatives (cs : List Char) : List (List Char) :=
  let all := alternatives cs
  if all.getLast? == some [] then all.dropLast else all

def inFront (directory : String) (pattern : List Char) : List Char :=
  if directory.isEmpty || directory == "." then pattern
  else directory.toList ++ '/' :: pattern

/-- What a pattern stands for, behind what was found before; nothing is the answer if it is
malformed. If `carried` is set, what was found before counts among the directories on the way. The
first argument bounds how often the pattern is taken apart. -/
def Place.search? (place : Place) (carried : Bool) :
    Nat -> Wanted -> List Char -> List String -> Option (List String)
  | 0, _, _, found => some found
  | bound + 1, wanted, pattern, found =>
    let onTheWay (directories : List Char) : Option (List String) :=
      place.search? carried bound .directories directories (if carried then found else [])
    match divide pattern with
    | .path name =>
      match place.found? name.toList with
      | some entry =>
        some (if wanted == .files && entry.isDirectory then found else found ++ [name])
      | none => some found
    | .segment directory isPath last => do
      let directories ← if isPath then some [String.ofList directory] else onTheWay directory
      directories.foldlM
        (fun found d => return found ++ (← place.inDirectory? wanted d last)) found
    | .alternatives opening closing => do
      let (front, start) := frontOf pattern opening
      let directories ← match front with
        | some front => onTheWay front
        | none => some [""]
      let tried := triedAlternatives ((pattern.take closing).drop (opening + 1))
      let rest := pattern.drop (closing + 1)
      directories.foldlM
        (fun found d =>
          tried.foldlM
            (fun found text =>
              place.search? carried bound wanted (inFront d (start ++ text ++ rest)) found)
            found)
        found

/-- No pattern is taken apart more often. -/
def Place.searchBound (place : Place) (pattern : List Char) : Nat :=
  place.files.entries.foldl (fun sum (path, _) => sum + path.length) (pattern.length + 1)

/-- The files that a pattern stands for, by their names in the place; nothing is the answer if it is
malformed. -/
def Place.matches? (place : Place) (pattern : String) : Option (List String) :=
  if isValid pattern then
    let cs := pattern.toList
    place.search? (!hasInnerStars cs) (place.searchBound cs) .files cs []
  else none

end LexiconCompiler.Glob
