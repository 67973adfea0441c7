import LexiconCompiler.Compilation
import LexiconCompiler.Schema.RawValue
import LexiconCompiler.TypeScript.Printer

set_option autoImplicit false
set_option relaxedAutoImplicit false

/-!
Files from units.
-/

namespace LexiconCompiler

open LexiconCompiler.Code
open LexiconCompiler.Text

/-- A path inside the output and what stands there. -/
structure File where
  path : String
  content : String
  deriving DecidableEq, Repr

/-- What files are made of units: TypeScript, or a list of the declarations. -/
inductive Backend where
  | typescript (options : TypeScript.Options)
  | recorder
  deriving DecidableEq, Repr

namespace Backend

def name : Backend -> String
  | .typescript _ => "typescript"
  | .recorder => "recorder"

/-- What file names end with. -/
def ext : Backend -> String
  | .typescript _ => ".ts"
  | .recorder => ".txt"

end Backend

/-- A declaration as the recorder lists it. -/
def Code.Decl.summary (decl : Decl) : String := decl.declared.kindName ++ " " ++ decl.name

/-- The declarations of a unit as the recorder sees them. -/
def Code.SourceUnit.requests (unit : SourceUnit) : List String :=
  unit.decls.map fun decl => unit.name ++ " " ++ decl.summary

def Backend.content (backend : Backend) (unit : SourceUnit) : Except Failure String :=
  match backend with
  | .typescript options =>
    (TypeScript.unitText options.style unit).mapError fun fault =>
      .within unit.name (.plain fault.message)
  | .recorder => .ok (joinWith "\n" (unit.decls.map Decl.summary) ++ "\n")

def Backend.file (backend : Backend) (unit : SourceUnit) : Except Failure File := do
  return ⟨unit.path ++ backend.ext, ← backend.content unit⟩

/-- The files of a compilation in unit order. -/
def Compilation.render (c : Compilation) (backend : Backend) : Except Failure (List File) :=
  (c.units.mapM backend.file).mapError (.within ("render " ++ backend.name))

/-- Files, warnings and numbers of a run. -/
structure Generated where
  files : List File
  requests : List String
  warnings : List Warning
  stats : Stats

/-- Settings of a run. -/
structure Settings where
  skipGuards : Bool
  canceled : Bool
  backend : Backend

/-- Checks documents as a whole, compiles them and renders the units. -/
def generate (settings : Settings) (documents : List (Option Document)) :
    Except Failure Generated := do
  let batch ← (Batch.analyze documents).mapError .problem
  let compilation ← batch.compile settings.skipGuards settings.canceled
  let files ← compilation.render settings.backend
  return ⟨files, compilation.units.flatMap SourceUnit.requests, compilation.warnings,
    compilation.stats⟩

/-- A run from documents, and from plain values that are read as documents behind them. -/
def generateFrom (settings : Settings) (documents : List (Option Document))
    (values : List RawValue) : Except Failure Generated := do
  let read ← (Document.ofValues values).mapError .problem
  generate settings (documents ++ read.map some)

end LexiconCompiler
