import LexiconCompiler.Text.Basic

set_option autoImplicit false
set_option relaxedAutoImplicit false

/-!
Slash-separated paths.
-/

namespace LexiconCompiler.Path

open LexiconCompiler.Text

def isAbsolute (path : String) : Bool := startsWith path.toList ['/']

/-- Drops `.` and empty segments, and lets `..` take back the segment before it. `before` holds what
is kept so far, the last first. Above the root there is only the root. -/
def reduce (rooted : Bool) : List String -> List String -> List String
  | before, [] => before.reverse
  | before, segment :: rest =>
    if segment.isEmpty || segment == "." then reduce rooted before rest
    else if segment == ".." then
      match before with
      | [] => if rooted then reduce rooted [] rest else reduce rooted [".."] rest
      | last :: earlier =>
        if last == ".." then reduce rooted (".." :: last :: earlier) rest
        else reduce rooted earlier rest
    else reduce rooted (segment :: before) rest

/-- The segments of a path once it is clean. -/
def segments (path : String) : List String :=
  reduce (isAbsolute path) [] (split '/' path)

def ofSegments (rooted : Bool) (segments : List String) : String :=
  if rooted then "/" ++ joinWith "/" segments
  else if segments.isEmpty then "."
  else joinWith "/" segments

/-- The shortest path that means the same. -/
def clean (path : String) : String := ofSegments (isAbsolute path) (segments path)

def join (path below : String) : String :=
  if path.isEmpty then
    if below.isEmpty then "" else clean below
  else clean (path ++ "/" ++ below)

/-- The path around the last segment. -/
def dir (path : String) : String :=
  clean (String.ofList (path.toList.reverse.dropWhile fun c => c != '/').reverse)

/-- The last segment of a clean path. -/
def base (path : String) : String := (split '/' path).getLastD ""

/-- The end of the last segment from its last dot on. -/
def ext (path : String) : String :=
  let name := path.toList.reverse.takeWhile fun c => c != '/'
  if name.contains '.' then String.ofList ('.' :: (name.takeWhile fun c => c != '.').reverse)
  else ""

/-- Drops what two lists start with in common. -/
def dropShared : List String -> List String -> List String × List String
  | a :: as, b :: bs => if a == b then dropShared as bs else (a :: as, b :: bs)
  | as, bs => (as, bs)

/-- What a path has before each of its slashes; before the first one of a path from the root that is
the root. -/
def beginnings (path : String) : List String :=
  let parts := split '/' path
  (List.range (parts.length - 1)).map fun n =>
    let start := joinWith "/" (parts.take (n + 1))
    if start.isEmpty then "/" else start

/-- How to get from a directory to a path, if that can be told. -/
def relative? (directory path : String) : Option String :=
  if isAbsolute directory != isAbsolute path then none
  else
    let (up, down) := dropShared (segments directory) (segments path)
    if up.head? == some ".." then none
    else some (ofSegments false (List.replicate up.length ".." ++ down))

/-- The directories around a clean path, the outermost first. -/
def ancestors (path : String) : List String :=
  let parts := segments path
  let around := (List.range parts.length).map fun n =>
    ofSegments (isAbsolute path) (parts.take n)
  around.filter fun directory => directory != "."

end LexiconCompiler.Path
