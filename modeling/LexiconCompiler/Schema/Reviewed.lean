import LexiconCompiler.Schema.Document
import LexiconCompiler.Text.Quoted

set_option autoImplicit false
set_option relaxedAutoImplicit false

/-!
Reading that goes on after a finding: a value together with all issues and warnings so far.
-/

namespace LexiconCompiler

open LexiconCompiler.Text

/-- One violated rule. -/
structure Issue where
  path : String
  message : String
  expected : String
  actual : String
  deriving DecidableEq, Repr

/-- A text, or a word for its absence. -/
def orNothing (s : String) : String := if s.isEmpty then "nothing" else s

def Issue.text (issue : Issue) : String :=
  (if issue.path.isEmpty then "" else issue.path ++ ": ") ++ issue.message ++
    (if issue.expected.isEmpty && issue.actual.isEmpty then ""
     else " (expected " ++ orNothing issue.expected ++ ", got " ++ orNothing issue.actual ++ ")")

/-- A value and the findings made on the way to it, in order. -/
structure Reviewed (α : Type) where
  value : α
  issues : List Issue
  warnings : List Warning

namespace Reviewed

variable {α β : Type}

def clean (value : α) : Reviewed α := ⟨value, [], []⟩

/-- Goes on with a value and keeps the findings. -/
def andThen (r : Reviewed α) (f : α -> Reviewed β) : Reviewed β :=
  let s := f r.value
  ⟨s.value, r.issues ++ s.issues, r.warnings ++ s.warnings⟩

instance : Monad Reviewed where
  pure := clean
  bind := andThen

/-- An issue without a comparison. -/
def fault (path message : String) : Reviewed Unit := ⟨(), [⟨path, message, "", ""⟩], []⟩

/-- An issue that compares what was found with what was expected. -/
def mismatch (path message expected actual : String) : Reviewed Unit :=
  ⟨(), [⟨path, message, expected, actual⟩], []⟩

def warn (warning : Warning) : Reviewed Unit := ⟨(), [], [warning]⟩

end Reviewed

/-- What a tree is called in an issue. -/
def describe : Option Markup.Node -> String
  | none => "nothing"
  | some (.alias name _) => "string " ++ quote name
  | some (.mapping _) => "object"
  | some (.sequence _) => "array"
  | some (.scalar tag text) =>
    match tag with
    | .int => "integer " ++ text
    | .float => "number " ++ text
    | .bool => "boolean " ++ text
    | .null => "null"
    | _ => "string " ++ quote text

end LexiconCompiler
