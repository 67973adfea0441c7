import LexiconCompiler.Casing
import LexiconCompiler.Code.Unit
import LexiconCompiler.Registry

set_option autoImplicit false
set_option relaxedAutoImplicit false

/-!
The unit of all schemas: the schemas as a dictionary and as a list, the validator over them, and
the identifiers by key.
-/

namespace LexiconCompiler

def Markup.JsonFault.failure : Markup.JsonFault -> Failure
  | .undecodable fault => .plain fault.message
  | .notFinite value => .plain ("json: unsupported value: " ++ value.text)
  | .farZone => .plain ("json: error calling MarshalJSON for type *time.Time: " ++
      "timezone hour outside of range [0,23]")
  | .endless => .overflow

/-- The tree of a document as JSON, or why it has none. -/
def Document.encoded (document : Document) : Except Failure String :=
  document.rawJson.mapError fun fault => .within ("encode " ++ document.id) fault.failure

namespace Emission

open LexiconCompiler.Code

/-- A document under its key, with its JSON. -/
structure KeyedSchema where
  key : String
  id : String
  json : String
  deriving DecidableEq, Repr

/-- The documents under their keys, which have to differ; `taken` are the keys before them. -/
def keyedSchemas : List (String × String) -> List Document -> Except Failure (List KeyedSchema)
  | _, [] => .ok []
  | taken, document :: rest =>
    let key := Casing.title document.id
    match taken.lookup key with
    | some other => .error (.problem (.keyClash document.id other key))
    | none => do
      let json ← document.encoded.mapError fun failure =>
        .within ("encode " ++ document.id) failure
      let schemas ← keyedSchemas ((key, document.id) :: taken) rest
      return ⟨key, document.id, json⟩ :: schemas

def schemaList : TypeExpr := .array (.runtime .schema)

def lexiconsUnit (registry : Registry) : Except Failure SourceUnit := do
  let schemas ← keyedSchemas [] registry.documents
  return {
    name := lexiconsName
    kind := .lexicons
    deps := []
    decls := [
      ⟨"schemaDict", .none, .const none
        (.object (schemas.map fun schema => ⟨schema.key, .json schema.json⟩))⟩,
      ⟨"schemas", .none, .const (some schemaList)
        (.cast (.values (.ident "schemaDict")) schemaList)⟩,
      ⟨"lexicons", .none, .const none
        (.construct (.runtime .validator) [.ident "schemas"])⟩,
      ⟨"ids", .none, .const none
        (.object (schemas.map fun schema => ⟨schema.key, .str schema.id⟩))⟩] }

end Emission

end LexiconCompiler
