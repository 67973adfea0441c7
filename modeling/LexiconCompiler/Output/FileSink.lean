import LexiconCompiler.Files.FileSystem
import LexiconCompiler.Output.MemorySink

set_option autoImplicit false
set_option relaxedAutoImplicit false

/-!
Generated files on a file system. A write goes through a temporary file that is renamed in the end,
so a file has its old content or its new one. It is a machine that does one operation of the file
system a step, and every operation may fail. Without permission to overwrite, the target is claimed
by creating it first.
-/

namespace LexiconCompiler

open LexiconCompiler.Text

/-- The operations of a write that may fail. -/
inductive Operation where
  | makeDirs
  | claim
  | closeClaim
  | openTemp
  | write
  | close
  | chmod
  | confirm
  | rename
  deriving DecidableEq, Repr

/-- Where a write stands: the operation that comes next, or how it ended. -/
inductive Stage where
  | makeDirs
  | claim
  | closeClaim
  | openTemp
  | write (temp : String)
  | close (temp : String)
  | chmod (temp : String)
  | confirm (temp : String)
  | rename (temp : String)
  | dropTemp (temp : String) (failure : Failure)
  | dropClaim (failure : Failure)
  | finished (failure : Option Failure)

/-- What a step meets with: why its operation fails, if it does; what a write that fails has put
down all the same; and where the search for a temporary name starts. -/
structure Conditions where
  cause : Option String
  written : String
  number : Nat
  deriving DecidableEq, Repr

/-- Conditions under which nothing fails. -/
def Conditions.smooth : Conditions := ⟨none, "", 0⟩

/-- The operation of a stage. Taking files away never fails. -/
def Stage.operation? : Stage -> Option Operation
  | .makeDirs => some .makeDirs
  | .claim => some .claim
  | .closeClaim => some .closeClaim
  | .openTemp => some .openTemp
  | .write _ => some .write
  | .close _ => some .close
  | .chmod _ => some .chmod
  | .confirm _ => some .confirm
  | .rename _ => some .rename
  | .dropTemp _ _ => none
  | .dropClaim _ => none
  | .finished _ => none

/-- One call: the path as given, the clean path it stands for, and what is written how. -/
structure WriteCall where
  path : String
  target : String
  content : String
  mode : Nat
  overwrite : Bool
  deriving DecidableEq, Repr

namespace WriteCall

def modeBits (mode : Nat) : Nat := mode % 0o1000

def directory (call : WriteCall) : String := Path.dir call.target

def tempName (call : WriteCall) (number : Nat) : String :=
  Path.join call.directory (".lexgen-" ++ toString number ++ ".tmp")

/-- The first temporary name from a number on that is free, among as many as are tried. -/
def freeTemp (call : WriteCall) (fs : FileSystem) : Nat -> Nat -> String
  | 0, number => call.tempName number
  | tries + 1, number =>
    let name := call.tempName number
    if (fs.at? name).isSome then call.freeTemp fs tries (number + 1) else name

/-- Gives up after the claim, which is taken back. -/
def giveUp (call : WriteCall) (failure : Failure) : Stage :=
  if call.overwrite then .finished (some failure) else .dropClaim failure

def notCreated (call : WriteCall) (cause : String) : Failure :=
  .within ("failed to create " ++ quote call.path) (.plain cause)

/-- What an operation that fails leads to. -/
def onFault (call : WriteCall) (cause : String) : Stage -> Stage
  | .makeDirs => .finished (some (.within "failed to create directories" (.plain cause)))
  | .claim => .finished (some (call.notCreated cause))
  | .closeClaim => .dropClaim (call.notCreated cause)
  | .openTemp => call.giveUp (.within "failed to create temp file" (.plain cause))
  | .write temp => .dropTemp temp (.within "failed to write temp file" (.plain cause))
  | .close temp => .dropTemp temp (.within "failed to close temp file" (.plain cause))
  | .chmod temp => .dropTemp temp (.within "failed to set file mode" (.plain cause))
  | .confirm temp => .dropTemp temp .canceled
  | .rename temp => .dropTemp temp (.within "failed to rename temp file" (.plain cause))
  | stage => stage

/-- What an operation that fails leaves behind: a write may have put down a part of the content. -/
def spoil (written : String) (fs : FileSystem) : Stage -> FileSystem
  | .write temp => fs.update temp fun entry => { entry with content := written }
  | _ => fs

/-- What an operation that succeeds leads to. A temporary name is searched from a number on. -/
def advance (call : WriteCall) (number : Nat) (fs : FileSystem) : Stage -> Stage × FileSystem
  | .makeDirs =>
    match fs.makeDirs (fs.key call.directory) with
    | .ok made => (if call.overwrite then .openTemp else .claim, made)
    | .error fault => (call.onFault fault.message .makeDirs, fs)
  | .claim =>
    if (fs.at? call.target).isSome then
      (.finished (some (.plain ("file already exists: " ++ quote call.path))), fs)
    else (.closeClaim, fs.place call.target (.file "" 0o600))
  | .closeClaim => (.openTemp, fs)
  | .openTemp =>
    let temp := call.freeTemp fs fs.entries.length number
    (.write temp, fs.place temp (.file "" 0o600))
  | .write temp => (.close temp, fs.update temp fun entry => { entry with content := call.content })
  | .close temp => (.chmod temp, fs)
  | .chmod temp =>
    (.confirm temp, fs.update temp fun entry => { entry with mode := modeBits call.mode })
  | .confirm temp => (.rename temp, fs)
  | .rename temp =>
    match fs.rename temp call.target with
    | .ok moved => (.finished none, moved)
    | .error fault => (call.onFault fault.message (.rename temp), fs)
  | .dropTemp temp failure => (call.giveUp failure, fs.remove temp)
  | .dropClaim failure => (.finished (some failure), fs.remove call.target)
  | .finished failure => (.finished failure, fs)

/-- One step: the operation of a stage, which fails if there is a cause. -/
def step (call : WriteCall) (given : Conditions) (stage : Stage) (fs : FileSystem) :
    Stage × FileSystem :=
  match given.cause, stage.operation? with
  | some cause, some _ => (call.onFault cause stage, spoil given.written fs stage)
  | _, _ => call.advance given.number fs stage

/-- Runs a number of steps, given the conditions of each operation. -/
def run (call : WriteCall) (given : Operation -> Conditions) :
    Nat -> Stage -> FileSystem -> Stage × FileSystem
  | 0, stage, fs => (stage, fs)
  | steps + 1, stage, fs =>
    let (stage, fs) := call.step ((stage.operation?.map given).getD .smooth) stage fs
    call.run given steps stage fs

/-- No write takes more steps. -/
def maxSteps : Nat := 12

def outcome : Stage -> Except Failure Unit
  | .finished none => .ok ⟨⟩
  | .finished (some failure) => .error failure
  | _ => .error (.plain "write did not finish")

end WriteCall

/-- Where generated files go, and how. A mode of zero stands for the usual one. -/
structure FileSink where
  root : String
  mode : Nat
  overwrite : Bool
  deriving DecidableEq, Repr

namespace FileSink

/-- A sink that overwrites, with the usual mode. -/
def into (root : String) : FileSink := ⟨root, 0o644, true⟩

/-- Whether a path leads out of the root. -/
def escapes (sink : FileSink) (path : String) : Bool :=
  match Path.relative? sink.root (Path.join sink.root path) with
  | none => true
  | some rel => rel == ".." || startsWith rel.toList ['.', '.', '/']

def call (sink : FileSink) (fs : FileSystem) (file : File) : WriteCall :=
  { path := file.path
    target := fs.key (Path.join sink.root file.path)
    content := file.content
    mode := if sink.mode == 0 then 0o644 else sink.mode
    overwrite := sink.overwrite }

/-- Where a write starts: with its first operation, unless it is refused before. -/
def start (sink : FileSink) (canceled : Bool) (path : String) : Stage :=
  match writeRefusal? path canceled with
  | some failure => .finished (some failure)
  | none =>
    if sink.escapes path then
      .finished (some (.plain ("path escapes root directory: " ++ quote path)))
    else .makeDirs

/-- Writes a file, given the conditions of each operation. -/
def write (sink : FileSink) (canceled : Bool) (given : Operation -> Conditions) (file : File)
    (fs : FileSystem) : Written FileSystem :=
  let (stage, fs) :=
    (sink.call fs file).run given WriteCall.maxSteps (sink.start canceled file.path) fs
  (WriteCall.outcome stage, fs)

end FileSink

end LexiconCompiler
