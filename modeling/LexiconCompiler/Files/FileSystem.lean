import LexiconCompiler.Files.Path

set_option autoImplicit false
set_option relaxedAutoImplicit false

/-!
A tree of files as a list of clean paths and what stands there. A directory knows its members by
their paths. Paths that do not start at the root are taken from the working directory; without one
they are names of their own, only `.` and `..` mean the root, and what they name is a member of the
root all the same.
-/

namespace LexiconCompiler

/-- What stands at a path. A directory is an entry with members. -/
structure FileEntry where
  content : String
  mode : Nat
  members : Option (List String)
  deriving DecidableEq, Repr

namespace FileEntry

def file (content : String) (mode : Nat) : FileEntry := ⟨content, mode, none⟩

def directory : FileEntry := ⟨"", 0o755, some []⟩

def isDirectory (entry : FileEntry) : Bool := entry.members.isSome

/-- An entry with one more member, which makes it a directory. -/
def withMember (entry : FileEntry) (path : String) : FileEntry :=
  let members := entry.members.getD []
  { entry with members := some (if members.contains path then members else members ++ [path]) }

def withoutMember (entry : FileEntry) (path : String) : FileEntry :=
  { entry with members := entry.members.map fun members => members.filter fun m => m != path }

end FileEntry

/-- Paths with their entries. -/
structure FileSystem where
  entries : List (String × FileEntry)
  workingDirectory : Option String
  deriving DecidableEq, Repr

/-- Why a path cannot be used. -/
inductive FileFault where
  /-- Nothing stands at a path of a tree without a working directory. -/
  | absent (path : String)
  /-- Nothing stands at a path. -/
  | notFound (action path : String)
  /-- A directory is read as a file. -/
  | isDirectory (path : String)
  /-- A file stands where a directory is needed. -/
  | notDirectory (action path : String)
  /-- A directory stands where a file is moved to. -/
  | occupied (source target : String)
  deriving DecidableEq, Repr

def FileFault.message : FileFault -> String
  | .absent path => "open " ++ path ++ ": file does not exist"
  | .notFound action path => action ++ " " ++ path ++ ": no such file or directory"
  | .isDirectory path => "read " ++ path ++ ": is a directory"
  | .notDirectory action path => action ++ " " ++ path ++ ": not a directory"
  | .occupied source target => "rename " ++ source ++ " " ++ target ++ ": file exists"

/-- Whether a fault says that nothing is there. -/
def FileFault.isMissing : FileFault -> Bool
  | .absent _ => true
  | .notFound _ _ => true
  | _ => false

namespace FileSystem

/-- The clean path that a path stands for. -/
def key (fs : FileSystem) (path : String) : String :=
  match fs.workingDirectory with
  | some directory =>
    if Path.isAbsolute path then Path.clean path else Path.join directory path
  | none =>
    let path := Path.clean path
    if path == "." || path == ".." then "/" else path

def at? (fs : FileSystem) (path : String) : Option FileEntry := fs.entries.lookup path

/-- Whether a directory stands at a clean path. -/
def isDirectoryAt (fs : FileSystem) (path : String) : Bool :=
  match fs.at? path with
  | some entry => entry.isDirectory
  | none => false

/-- Whether a file stands at a clean path. -/
def isFileAt (fs : FileSystem) (path : String) : Bool :=
  match fs.at? path with
  | some entry => !entry.isDirectory
  | none => false

/-- What stands at a path. With a working directory every slash has to follow a directory. -/
def entry? (fs : FileSystem) (path : String) : Option FileEntry :=
  let reached := !path.isEmpty && (Path.beginnings path).all fun p => fs.isDirectoryAt (fs.key p)
  if fs.workingDirectory.isNone || reached then fs.at? (fs.key path) else none

/-- The fault of a path where nothing stands. -/
def missing (fs : FileSystem) (action path : String) : FileFault :=
  if fs.workingDirectory.isNone then .absent (fs.key path)
  else
    match (Path.beginnings path).find? fun p => !fs.isDirectoryAt (fs.key p) with
    | some p => if fs.isFileAt (fs.key p) then .notDirectory action path else .notFound action path
    | none => .notFound action path

def isDirectory (fs : FileSystem) (path : String) : Except FileFault Bool :=
  match fs.entry? path with
  | some entry => .ok entry.isDirectory
  | none => .error (fs.missing "stat" path)

/-- The content of a file. Without a working directory, directories can be read too. -/
def read (fs : FileSystem) (path : String) : Except FileFault String :=
  match fs.entry? path with
  | some entry =>
    if entry.isDirectory && fs.workingDirectory.isSome then .error (.isDirectory path)
    else .ok entry.content
  | none => .error (fs.missing "open" path)

/-- The members of a directory by their last segments, sorted, each with what stands there. Nothing
is the answer if the path is none of a directory. -/
def children? (fs : FileSystem) (path : String) : Option (List (String × FileEntry)) := do
  let members ← (← fs.entry? path).members
  let found := members.filterMap fun member =>
    (fs.at? member).map fun entry => (Path.base member, entry)
  return found.mergeSort fun a b => !(b.1 < a.1)

/-- Puts an entry at a clean path in place of what stands there. -/
def put (fs : FileSystem) (path : String) (entry : FileEntry) : FileSystem :=
  { fs with
    entries :=
      if (fs.at? path).isSome then
        fs.entries.map fun (p, e) => if p == path then (p, entry) else (p, e)
      else fs.entries ++ [(path, entry)] }

/-- Changes the entry at a clean path, if there is one. -/
def update (fs : FileSystem) (path : String) (change : FileEntry -> FileEntry) : FileSystem :=
  { fs with entries := fs.entries.map fun (p, e) => if p == path then (p, change e) else (p, e) }

/-- Makes a clean path a member of the directory around it. What stands there becomes a directory;
if nothing does, one is made, at most as often as the first argument says. -/
def register : Nat -> String -> FileSystem -> FileSystem
  | 0, _, fs => fs
  | depth + 1, path, fs =>
    let around := fs.key (Path.dir path)
    let fs :=
      if (fs.at? around).isSome then fs else register depth around (fs.put around .directory)
    fs.update around fun entry => entry.withMember path

/-- Puts an entry at a clean path and makes it a member of the directory around it. -/
def place (fs : FileSystem) (path : String) (entry : FileEntry) : FileSystem :=
  register ((Path.segments path).length + 1) path (fs.put path entry)

/-- Takes away what stands at a clean path. What stands below it can still be reached by its
path. -/
def remove (fs : FileSystem) (path : String) : FileSystem :=
  let left := fs.update (fs.key (Path.dir path)) fun entry => entry.withoutMember path
  { left with entries := left.entries.filter fun (p, _) => p != path }

/-- Moves what stands at a clean path to another one in place of what stands there. -/
def move? (fs : FileSystem) (source target : String) : Option FileSystem :=
  if source == target then some fs
  else (fs.at? source).map fun entry => (fs.remove source).place target entry

/-- Moves a file. On a tree with a working directory no file takes the place of a directory. -/
def rename (fs : FileSystem) (source target : String) : Except FileFault FileSystem :=
  if fs.workingDirectory.isSome && fs.isDirectoryAt target then .error (.occupied source target)
  else
    match fs.move? source target with
    | some moved => .ok moved
    | none => .error (fs.missing "rename" source)

/-- Adds a file. What stands there already keeps all but its content. -/
def addFile (fs : FileSystem) (path content : String) : FileSystem :=
  let path := fs.key path
  match fs.at? path with
  | some entry => fs.put path { entry with content := content }
  | none => fs.place path (.file content 0o644)

/-- Makes a directory and those around it at a clean path, unless something stands there. A file in
the way is a fault on a tree with a working directory. -/
def makeDirs (fs : FileSystem) (path : String) : Except FileFault FileSystem :=
  let inTheWay := (Path.ancestors path ++ [path]).find? fs.isFileAt
  match fs.workingDirectory, inTheWay with
  | some _, some file => .error (.notDirectory "mkdir" file)
  | _, _ => .ok (if (fs.at? path).isSome then fs else fs.place path .directory)

/-- A tree with nothing but its root and its working directory. -/
def empty (workingDirectory : Option String) : FileSystem :=
  let root : FileSystem := ⟨[("/", .directory)], workingDirectory⟩
  match workingDirectory with
  | some directory =>
    if (root.at? directory).isSome then root else root.place directory .directory
  | none => root

/-- No path has more segments. -/
def depthBound (fs : FileSystem) : Nat := fs.entries.length

/-- The files below a path, directory by directory in the order of their names, at most as deep as
the first argument says. Members that their paths do not lead to are passed over. -/
def filesBelow (fs : FileSystem) : Nat -> String -> List (String × FileEntry)
  | 0, _ => []
  | depth + 1, path =>
    ((fs.children? path).getD []).flatMap fun (name, _) =>
      let path := Path.join path name
      match fs.entry? path with
      | none => []
      | some entry => if entry.isDirectory then fs.filesBelow depth path else [(path, entry)]

/-- The files below a path: path, content and mode. -/
def files (fs : FileSystem) (root : String) : List (String × String × Nat) :=
  (fs.filesBelow fs.depthBound root).map fun (path, entry) => (path, entry.content, entry.mode)

end FileSystem

end LexiconCompiler
