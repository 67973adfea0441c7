import LexiconCompiler.Batch
import LexiconCompiler.Emission.DocumentUnit
import LexiconCompiler.Emission.IndexUnit
import LexiconCompiler.Emission.LexiconsUnit

set_option autoImplicit false
set_option relaxedAutoImplicit false

/-!
Compilation of a batch: a unit for each document, and the two units of the whole batch. It yields
all units or none.
-/

namespace LexiconCompiler

open LexiconCompiler.Code

/-- Numbers that sum up a compilation. -/
structure Stats where
  documents : Nat
  units : Nat
  methods : Nat
  tokens : Nat
  namespaces : Nat
  deriving DecidableEq, Repr

/-- The units of the documents in input order, then those of the batch. -/
structure Compilation where
  units : List SourceUnit
  warnings : List Warning
  stats : Stats

def Compilation.unit? (c : Compilation) (name : String) : Option SourceUnit :=
  c.units.find? fun unit => unit.name == name

namespace Batch

/-- The units of the documents. The first document that fails decides. -/
def documentUnits (b : Batch) (skipGuards : Bool) : Except Problem (List SourceUnit) :=
  b.registry.documents.mapM (Emission.documentUnit b.registry skipGuards)

/-- The numbers of a batch that gives a number of units. -/
def stats (b : Batch) (units : Nat) : Stats :=
  { documents := b.registry.documents.length
    units := units
    methods := b.tree.methodCount
    tokens := b.tokens.count
    namespaces := b.tree.namespaces.length }

/-- Adds the units of the whole batch to those of its documents. -/
def aggregate (b : Batch) (documents : List SourceUnit) : Except Failure Compilation := do
  let lexicons ← Emission.lexiconsUnit b.registry
  let index ← (Emission.indexUnit b.tree b.tokens).mapError .problem
  let units := documents ++ [lexicons, index]
  return ⟨units, b.warnings, b.stats units.length⟩

/-- Compiles a batch, unless that is cancelled before it starts. -/
def compile (b : Batch) (skipGuards canceled : Bool) : Except Failure Compilation := do
  if canceled then throw .canceled
  let documents ← (b.documentUnits skipGuards).mapError .problem
  b.aggregate documents

end Batch

end LexiconCompiler
