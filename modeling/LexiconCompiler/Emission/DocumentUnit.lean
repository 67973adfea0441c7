import LexiconCompiler.Emission.Contract
import LexiconCompiler.Emission.Definition

set_option autoImplicit false
set_option relaxedAutoImplicit false

/-!
The unit of a document: the declarations of its definitions in source order.
-/

namespace LexiconCompiler.Emission

open LexiconCompiler.Code

/-- Declares a definition. The principal definition of a method gives its contract. -/
def declareAny (s : Scope) (skipGuards : Bool) (definition : Definition) : Emit Unit :=
  match definition.type with
  | .method description _ contract =>
    if definition.name == mainDef then declareContract s description contract
    else declareDefinition s skipGuards definition
  | _ => declareDefinition s skipGuards definition

def declareAll (s : Scope) (skipGuards : Bool) : List Definition -> Emit Unit
  | [] => return ⟨⟩
  | definition :: rest => do
    declareAny s skipGuards definition
    declareAll s skipGuards rest

def documentUnit (registry : Registry) (skipGuards : Bool) (document : Document) :
    Except Problem SourceUnit :=
  grow document.id .document (declareAll ⟨registry, document.id⟩ skipGuards document.defs)

end LexiconCompiler.Emission
