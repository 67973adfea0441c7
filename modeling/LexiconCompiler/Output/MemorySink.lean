import LexiconCompiler.Output.OutputPath
import LexiconCompiler.Rendering

set_option autoImplicit false
set_option relaxedAutoImplicit false

/-!
Generated files kept in memory. What becomes of a write is either a failure and the state as it was,
or the state with the file in it.
-/

namespace LexiconCompiler

open LexiconCompiler.Text

/-- What a write ends with, and the state it leaves. -/
abbrev Written (σ : Type) := Except Failure Unit × σ

/-- Writes files one after another up to the first failure. -/
def writeAll {σ : Type} (write : File -> σ -> Written σ) : List File -> σ -> Written σ
  | [], state => (.ok ⟨⟩, state)
  | file :: rest, state =>
    match write file state with
    | (.ok _, state) => writeAll write rest state
    | (.error failure, state) => (.error (.within ("write " ++ file.path) failure), state)

/-- What keeps a file from being written at all. -/
def writeRefusal? (path : String) (canceled : Bool) : Option Failure :=
  match OutputPath.fault? path with
  | some fault => some (.within ("invalid path " ++ quote path) (.plain fault.message))
  | none => if canceled then some .canceled else none

/-- Files in memory, each path once. -/
structure MemorySink where
  files : List File
  deriving DecidableEq, Repr

namespace MemorySink

def empty : MemorySink := ⟨[]⟩

def find? (s : MemorySink) (path : String) : Option File :=
  s.files.find? fun file => file.path == path

/-- The content of a file. An empty file reads like a missing one. -/
def get? (s : MemorySink) (path : String) : Option String :=
  ((s.find? path).map File.content).filter fun content => !content.isEmpty

def paths (s : MemorySink) : List String :=
  (s.files.map File.path).mergeSort fun a b => !(b < a)

/-- Puts a file in place of the one with its path. -/
def put (s : MemorySink) (file : File) : MemorySink :=
  if (s.find? file.path).isSome then
    ⟨s.files.map fun old => if old.path == file.path then file else old⟩
  else ⟨s.files ++ [file]⟩

def write (canceled : Bool) (file : File) (s : MemorySink) : Written MemorySink :=
  match writeRefusal? file.path canceled with
  | some failure => (.error failure, s)
  | none => (.ok ⟨⟩, s.put file)

end MemorySink

end LexiconCompiler
