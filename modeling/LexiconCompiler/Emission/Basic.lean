import LexiconCompiler.Casing
import LexiconCompiler.Code.Unit
import LexiconCompiler.Registry

set_option autoImplicit false
set_option relaxedAutoImplicit false

/-!
What all derivations of units share: the names they give, and a unit that grows by declarations
and refuses a name that it has.
-/

namespace LexiconCompiler.Emission

open LexiconCompiler.Code

def typeName (definition : String) (kind : Kind) : String :=
  if definition == mainDef then
    if kind == .record then "Record" else "Main"
  else Casing.title definition

def guardName (typeName : String) : String := "is" ++ typeName

def validateName (typeName : String) : String := "validate" ++ typeName

def className (path : String) : String := Casing.title path ++ "NS"

/-- A unit that grows, or the problem that ends its growth. -/
abbrev Emit := StateT SourceUnit (Except Problem)

def fail {α : Type} (problem : Problem) : Emit α := fun _ => .error problem

/-- Records that another unit is needed. -/
def depend (name : String) : Emit Unit := modify fun unit => unit.addDep name

/-- Appends a declaration of a new name. -/
def declare (decl : Decl) : Emit Unit := fun unit =>
  if unit.declares decl.name then .error (.repeatedName unit.name decl.name)
  else .ok (⟨⟩, unit.addDecl decl)

/-- The unit that a derivation makes out of an empty one. -/
def grow (name : String) (kind : UnitKind) (emission : Emit Unit) : Except Problem SourceUnit :=
  (emission.run (.empty name kind)).map Prod.snd

end LexiconCompiler.Emission
