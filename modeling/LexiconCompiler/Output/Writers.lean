import LexiconCompiler.Output.FileSink

set_option autoImplicit false
set_option relaxedAutoImplicit false

/-!
Several writes on one file system. They take turns in any order, and each turn is one step of one
write under conditions of its own.
-/

namespace LexiconCompiler

/-- A file system, and where each write on it stands. -/
structure Writers (n : Nat) where
  fs : FileSystem
  stages : Fin n -> Stage

/-- One step of one write. -/
structure Turn (n : Nat) where
  writer : Fin n
  given : Conditions
  deriving DecidableEq, Repr

namespace Writers

variable {n : Nat}

def turn (calls : Fin n -> WriteCall) (s : Writers n) (t : Turn n) : Writers n :=
  let (stage, fs) := (calls t.writer).step t.given (s.stages t.writer) s.fs
  ⟨fs, fun i => if i = t.writer then stage else s.stages i⟩

/-- The writes take turns. -/
def play (calls : Fin n -> WriteCall) (s : Writers n) (turns : List (Turn n)) : Writers n :=
  turns.foldl (turn calls) s

end Writers

namespace FileSink

variable {n : Nat}

/-- The calls that write contents to one path. -/
def rivals (sink : FileSink) (fs : FileSystem) (path : String) (contents : Fin n -> String) :
    Fin n -> WriteCall :=
  fun i => sink.call fs ⟨path, contents i⟩

/-- Writes to one path that have not begun; some of them may be canceled already. -/
def writers (sink : FileSink) (fs : FileSystem) (path : String) (canceled : Fin n -> Bool) :
    Writers n :=
  ⟨fs, fun i => sink.start (canceled i) path⟩

end FileSink

end LexiconCompiler
