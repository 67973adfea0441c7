import LexiconCompiler.Schema.Type

set_option autoImplicit false
set_option relaxedAutoImplicit false

/-!
All types inside a type, each with its place, parents before children.
-/

namespace LexiconCompiler

/-- A place one step further in. -/
def joinPath (path key : String) : String := if path.isEmpty then key else path ++ "." ++ key

/-- The place of an entry of a list. -/
def indexPath (path : String) (index : Nat) : String := path ++ "[" ++ toString index ++ "]"

/-- A type and its place in a document. -/
structure Visit where
  type : SchemaType
  path : String

mutual

def SchemaType.visits : SchemaType -> String -> List Visit
  | .array d items minLength maxLength, path =>
    ⟨.array d items minLength maxLength, path⟩ :: items.visits (joinPath path "items")
  | .object o, path => ⟨.object o, path⟩ :: objectVisits o path
  | .record d key payload, path =>
    ⟨.record d key payload, path⟩ :: ⟨.object payload, joinPath path "record"⟩ ::
      objectVisits payload (joinPath path "record")
  | .method d kind ⟨parameters, input, output, errors⟩, path =>
    ⟨.method d kind ⟨parameters, input, output, errors⟩, path⟩ ::
      (parameterVisits parameters (joinPath path "parameters") ++
        bodyVisits input (joinPath path "input") ++ bodyVisits output (joinPath path "output"))
  | t, path => [⟨t, path⟩]

def objectVisits : ObjectType SchemaType -> String -> List Visit
  | ⟨_, _, properties, _⟩, path => propertyVisits properties (joinPath path "properties")

def propertyVisits : List (Property SchemaType) -> String -> List Visit
  | [], _ => []
  | ⟨name, type⟩ :: rest, path => type.visits (joinPath path name) ++ propertyVisits rest path

/-- The types inside the parameters of a method, and themselves. -/
def parameterVisits : Option (ObjectType SchemaType) -> String -> List Visit
  | none, _ => []
  | some o, path => ⟨.object o, path⟩ :: objectVisits o path

def bodyVisits : Option (Body SchemaType) -> String -> List Visit
  | some ⟨_, _, some schema⟩, path => schema.visits (joinPath path "schema")
  | _, _ => []

end

/-- A reference as written, and the place of the type that holds it. -/
structure RefSite where
  ref : String
  path : String
  deriving DecidableEq, Repr

/-- The references that a type holds itself. -/
def Visit.refs (visit : Visit) : List RefSite :=
  match visit.type with
  | .ref _ ref => [⟨ref, visit.path⟩]
  | .union _ refs => refs.map (⟨·, visit.path⟩)
  | _ => []

end LexiconCompiler
