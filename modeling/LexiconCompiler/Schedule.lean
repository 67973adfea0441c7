import LexiconCompiler.Compilation

set_option autoImplicit false
set_option relaxedAutoImplicit false

/-!
Compilation by tasks that take turns in any order: each document has a task of its own, which looks
whether the compilation is cancelled and then derives the unit. Cancellation may come at any moment
and stays. When all tasks are done, their results are looked through in input order, cancellation is
looked for once more, and the units of the whole batch are added.
-/

namespace LexiconCompiler.Schedule

open LexiconCompiler.Code

/-- Where the task of a document stands. -/
inductive Task where
  | waiting
  | emitting
  | done (slot : Except Failure SourceUnit)

/-- Where the compilation as a whole stands. What it returns in the end is a result and a failure,
each of which may be missing. -/
inductive Main where
  | waiting
  | gathered (units : List SourceUnit)
  | returned (result : Option Compilation) (failure : Option Failure)

/-- Whether the compilation is cancelled, and where its parts stand. -/
structure State (n : Nat) where
  canceled : Bool
  tasks : Fin n -> Task
  main : Main

/-- What may happen next: a task or the compilation as a whole goes on, or it is cancelled. -/
inductive Event (n : Nat) where
  | task (i : Fin n)
  | main
  | cancel
  deriving DecidableEq, Repr

def Task.slot? : Task -> Option (Except Failure SourceUnit)
  | .done slot => some slot
  | _ => none

/-- Derives the unit of a document. -/
def emit (b : Batch) (skipGuards : Bool) (document : Document) : Except Failure SourceUnit :=
  (Emission.documentUnit b.registry skipGuards document).mapError .problem

def Task.step (b : Batch) (skipGuards canceled : Bool) (document : Document) : Task -> Task
  | .waiting => if canceled then .done (.error .canceled) else .emitting
  | .emitting => .done (emit b skipGuards document)
  | .done slot => .done slot

/-- What all tasks have come to, once they are done. The first one that failed decides. -/
def gather? {n : Nat} (tasks : Fin n -> Task) : Option (Except Failure (List SourceUnit)) :=
  ((List.ofFn tasks).mapM Task.slot?).map fun slots => slots.mapM id

def Main.conclude : Except Failure Compilation -> Main
  | .ok compilation => .returned (some compilation) none
  | .error failure => .returned none (some failure)

def Main.step {n : Nat} (b : Batch) (canceled : Bool) (tasks : Fin n -> Task) : Main -> Main
  | .waiting =>
    match gather? tasks with
    | none => .waiting
    | some (.ok units) => .gathered units
    | some (.error failure) => .returned none (some failure)
  | .gathered units =>
    if canceled then .returned none (some .canceled) else .conclude (b.aggregate units)
  | .returned result failure => .returned result failure

namespace State

/-- A compilation that has not begun; it may be cancelled already. -/
def start (n : Nat) (canceled : Bool) : State n := ⟨canceled, fun _ => .waiting, .waiting⟩

variable (b : Batch) (skipGuards : Bool)

def after (s : State b.registry.documents.length) :
    Event b.registry.documents.length -> State b.registry.documents.length
  | .task i =>
    let task := (s.tasks i).step b skipGuards s.canceled (b.registry.documents.get i)
    { s with tasks := fun j => if j = i then task else s.tasks j }
  | .main => { s with main := s.main.step b s.canceled s.tasks }
  | .cancel => { s with canceled := true }

/-- Things happen one after another. -/
def play (s : State b.registry.documents.length)
    (events : List (Event b.registry.documents.length)) : State b.registry.documents.length :=
  events.foldl (after b skipGuards) s

end State

end LexiconCompiler.Schedule
