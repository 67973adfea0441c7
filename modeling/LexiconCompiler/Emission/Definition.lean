import LexiconCompiler.Emission.Types

set_option autoImplicit false
set_option relaxedAutoImplicit false

/-!
Declarations of definitions: a constant for a token, an interface and its guards for a record or
object, an alias for anything else.
-/

namespace LexiconCompiler.Emission

open LexiconCompiler.Code

/-- The tags that mark an object of a definition. A principal definition has two spellings. -/
def tags (address : Address) : List String :=
  if address.isMain then [address.full, address.text] else [address.text]

def subject : Param TypeExpr := .plain "v" (.scalar .unknown)

def guardDecl (name : String) (address : Address) : Decl :=
  ⟨guardName name, .none, .function
    ⟨[subject], some (.predicate "v" (.here name)), [.ret (.tagCheck "v" (tags address))]⟩⟩

def validateDecl (name : String) (address : Address) : Decl :=
  ⟨validateName name, .none, .function
    ⟨[subject], some (.runtime .validationResult),
      [.ret (.call (.member (.imported lexiconsName "lexicons") "validate")
        [.str address.full, .ident "v"])]⟩⟩

def declareGuards (name : String) (address : Address) : Emit Unit := do
  declare (guardDecl name address)
  depend lexiconsName
  declare (validateDecl name address)

/-- Declares an open object, with its guards unless they are left out. -/
def declareObject (s : Scope) (skipGuards : Bool) (name : String) (doc : Documentation)
    (object : ObjectType SchemaType) (path : String) (address : Address) : Emit Unit := do
  let fields ← objectFields s object path
  declare ⟨name, doc, .interface fields true⟩
  if skipGuards then return ⟨⟩ else declareGuards name address

def declareDefinition (s : Scope) (skipGuards : Bool) (definition : Definition) : Emit Unit := do
  let address : Address := ⟨s.document, definition.name⟩
  let path := "defs." ++ definition.name
  let name := typeName definition.name definition.type.kind
  let doc := documentation definition.type
  match definition.type with
  | .token _ =>
    declare ⟨Casing.screaming definition.name, doc, .const none (.str address.text)⟩
  | .record _ key payload =>
    let doc := if key.isEmpty then doc else { doc with notes := doc.notes ++ ["key: " ++ key] }
    declareObject s skipGuards name doc payload (path ++ ".record") address
  | .object object => declareObject s skipGuards name doc object path address
  | type => do
    declare ⟨name, doc, .alias (← nestedType s type path)⟩

end LexiconCompiler.Emission
