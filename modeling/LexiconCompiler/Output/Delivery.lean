import LexiconCompiler.Output.FileSink

set_option autoImplicit false
set_option relaxedAutoImplicit false

/-!
Runs of the compiler whose files are written. Nothing is written unless all files exist.
-/

namespace LexiconCompiler

def deliver {σ : Type} (write : File -> σ -> Written σ) (run : Except Failure Generated)
    (state : σ) : Except Failure Generated × σ :=
  match run with
  | .error failure => (.error failure, state)
  | .ok generated =>
    match writeAll write generated.files state with
    | (.ok _, state) => (.ok generated, state)
    | (.error failure, state) => (.error failure, state)

/-- Writes the files of a run below a directory, which has to be named. -/
def deliverToDirectory (directory : String) (run : Except Failure Generated) (fs : FileSystem) :
    Except Failure Generated × FileSystem :=
  if directory.isEmpty then (.error (.plain "output directory is required"), fs)
  else deliver ((FileSink.into directory).write false fun _ => .smooth) run fs

end LexiconCompiler
