import LexiconCompiler.Input.Search
import LexiconCompiler.Problem
import LexiconCompiler.Text.LetterCase

set_option autoImplicit false
set_option relaxedAutoImplicit false

/-!
The files that inputs stand for. An input is a file, a directory or a pattern.
-/

namespace LexiconCompiler

open LexiconCompiler.Text

def documentExtensions : List String := [".json", ".yaml", ".yml"]

/-- What names of archives end with. -/
def bundleExtension : String := ".txtar"

/-- Whether a name is one of a document or archive. The case of its end does not matter. -/
def isRecognized (name : String) : Bool :=
  let ending := lower (Path.ext name)
  ending == bundleExtension || documentExtensions.contains ending

namespace FileSystem

/-- The documents and archives below a directory, at most as deep as the first argument says.
Directories whose names start with a dot are passed over. -/
def documentsBelow (fs : FileSystem) : Nat -> String -> Except FileFault (List String)
  | 0, _ => .ok []
  | depth + 1, directory => do
    let found ← ((fs.children? directory).getD []).mapM fun (name, _) =>
      let path := Path.join directory name
      match fs.entry? path with
      | none => .error (fs.missing "lstat" path)
      | some entry =>
        if !entry.isDirectory then .ok (if isRecognized path then [path] else [])
        else if startsWith (Path.base (fs.key path)).toList ['.'] then .ok []
        else fs.documentsBelow depth path
    return found.flatten

/-- The documents and archives that a pattern stands for, sorted. -/
def glob (fs : FileSystem) (input : String) : Except Failure (List String) :=
  let (root, pattern) := Glob.splitPattern input
  match (Glob.Place.below fs root).matches? pattern with
  | none => .error (.within "glob error" (.plain "syntax error in pattern"))
  | some found =>
    let paths := (found.filter isRecognized).map (Path.join root)
    .ok (paths.mergeSort fun a b => !(b < a))

def expandInput (fs : FileSystem) (input : String) : Except Failure (List String) :=
  if input.isEmpty then .ok []
  else if Glob.isPattern input then do
    let found ← fs.glob input
    if found.isEmpty then .error (.plain ("no files match pattern: " ++ input)) else .ok found
  else
    match fs.isDirectory input with
    | .error fault => .error (.within "stat input" (.plain fault.message))
    | .ok false => .ok [input]
    | .ok true =>
      (fs.documentsBelow fs.depthBound input).mapError fun fault =>
        .within ("walk " ++ input) (.plain fault.message)

/-- The files that inputs stand for, each once, in the order they are first met. -/
def resolve (fs : FileSystem) (inputs : List String) : Except Failure (List String) := do
  let found ← inputs.mapM fs.expandInput
  return distinct (found.flatten.map Path.clean)

end FileSystem

/-- The path that holds all files of an input. -/
def inputRoot (input : String) : String :=
  Path.clean (if Glob.isPattern input then (Glob.splitPattern input).1 else input)

/-- The paths that hold all files of inputs, each once. -/
def inputRoots (inputs : List String) : List String :=
  distinct ((inputs.filter fun input => !input.isEmpty).map inputRoot)

end LexiconCompiler
