import LexiconCompiler.Project.Arguments

set_option autoImplicit false
set_option relaxedAutoImplicit false

/-!
The command line. What a command may look at is read into a file system first, and what it wrote
there goes to the disk when it is done.
-/

namespace LexiconCompiler.CommandLine

/-- Adds what stands at a path of the disk. Of a directory that is all documents below it. -/
partial def collect (fs : FileSystem) (path : String) : IO FileSystem := do
  let place := (← IO.currentDir) / path
  if ← place.isDir then
    let mut fs := if (fs.entry? path).isSome then fs else fs.place (fs.key path) .directory
    for entry in ← place.readDir do
      if isRecognized entry.fileName || (← entry.path.isDir) then
        fs ← collect fs (Path.join path entry.fileName)
    return fs
  else if ← place.pathExists then
    return fs.addFile path (← IO.FS.readFile place)
  else return fs

/-- The part of the disk that a command may look at: its configuration and its inputs. -/
def snapshot (command : CheckCommand) : IO FileSystem := do
  let fs ← collect (.empty (some (← IO.currentDir).toString)) command.config
  let inputs :=
    match Config.load fs command.config with
    | .ok (config, _) => if command.inputs.isEmpty then config.inputs else command.inputs
    | .error _ => command.inputs
  (inputRoots inputs).foldlM collect fs

/-- Writes the files that a command left and that were not there before. -/
def flush (before after : FileSystem) : IO Unit := do
  for (path, content, mode) in after.files "/" do
    if before.at? path != some (.file content mode) then
      IO.FS.createDirAll (Path.dir path)
      IO.FS.writeFile path content

end LexiconCompiler.CommandLine

open LexiconCompiler in
/-- Runs the command that the arguments ask for. -/
def main (args : List String) : IO UInt32 := do
  match Invocation.ofArgs args with
  | .error message =>
    IO.eprintln ("lexgen: error: " ++ message)
    return 1
  | .ok invocation =>
    let before ← CommandLine.snapshot invocation.shared
    let result := invocation.run before
    CommandLine.flush before result.files
    IO.print result.stdout
    match result.failure with
    | some failure =>
      IO.eprintln ("lexgen: error: " ++ failure.text)
      return 1
    | none => return 0
