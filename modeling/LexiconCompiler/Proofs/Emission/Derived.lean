import LexiconCompiler.Emission.DocumentUnit

set_option autoImplicit false
set_option relaxedAutoImplicit false

/-!
What is derived from the definitions of a document where nothing goes wrong: the types and the
declarations in order, without the unit that they are appended to.
-/

namespace LexiconCompiler

/-- Definitions with guards: records and objects. -/
def SchemaType.isGuarded : SchemaType -> Bool
  | .record .. => true
  | .object _ => true
  | _ => false

namespace Emission

open LexiconCompiler.Code

namespace Scope

def refExpr (s : Scope) (ref : String) : TypeExpr :=
  match s.target ref with
  | .error _ => .missing
  | .ok (address, target) =>
    if target.kind == .token then .literal (.str address.text)
    else if address.nsid == s.document then .here (typeName address.fragment target.kind)
    else .ref (some address.nsid) (typeName address.fragment target.kind)

mutual

def typeExpr (s : Scope) : SchemaType -> TypeExpr
  | .boolean _ _ const => constrained (const.map .bool) [] .boolean
  | .integer _ rules => numericType .int .integer rules
  | .number _ rules => numericType .float .number rules
  | .string _ rules => stringType rules
  | .datetime _ => .scalar .datetime
  | .unknown _ => .scalar .unknown
  | .blob _ rules => .blob (Kind.blob rules.variant).name rules.accept rules.maxSize
  | .array _ items _ _ => .array (s.typeExpr items)
  | .object object => .object (s.objectExprs object) false
  | .ref _ ref => s.refExpr ref
  | .union _ refs => .oneOf (refs.map s.refExpr)
  | .token .. | .record .. | .method .. => .missing

def objectExprs (s : Scope) : ObjectType SchemaType -> List (FieldSpec TypeExpr)
  | ⟨_, required, properties, _⟩ => s.propertyExprs required properties

def propertyExprs (s : Scope) (required : List String) :
    List (Property SchemaType) -> List (FieldSpec TypeExpr)
  | [] => []
  | ⟨name, type⟩ :: rest =>
    ⟨name, s.typeExpr type, !required.contains name, documentation type⟩ ::
      s.propertyExprs required rest

end

def objectDecls (s : Scope) (skipGuards : Bool) (name : String) (doc : Documentation)
    (object : ObjectType SchemaType) (address : Address) : List Decl :=
  ⟨name, doc, .interface (s.objectExprs object) true⟩ ::
    if skipGuards then [] else [guardDecl name address, validateDecl name address]

def schemaDecls (s : Scope) (name : String) : Option (Body SchemaType) -> List Decl
  | some ⟨_, encoding, some schema⟩ =>
    if encoding.isZero then []
    else [.ofType name ⟨schema.description, []⟩ (s.typeExpr schema)]
  | _ => []

def parameterExprs (s : Scope) : Option (ObjectType SchemaType) -> List (FieldSpec TypeExpr)
  | none => []
  | some parameters => s.objectExprs parameters

end Scope

def bodyExpr (name : String) : Option (Body SchemaType) -> TypeExpr
  | none => .void
  | some ⟨_, encoding, schema⟩ =>
    if encoding.isZero then .void
    else .object
      [.plain "encoding" (encodingType encoding),
       .plain "body" (payloadType name encoding schema.isSome)] false

def successDecls (doc : Documentation) : TypeExpr -> List Decl
  | .void => []
  | type => [.ofType "HandlerSuccess" doc type]

def successExpr : TypeExpr -> TypeExpr
  | .void => .void
  | _ => .here "HandlerSuccess"

namespace Scope

def contractDecls (s : Scope) (description : String) (contract : Method SchemaType) : List Decl :=
  let output := bodyExpr "OutputSchema" contract.output
  ⟨"QueryParams", .none, .interface (s.parameterExprs contract.parameters) false⟩ ::
    s.schemaDecls "InputSchema" contract.input ++ s.schemaDecls "OutputSchema" contract.output ++
    .ofType "HandlerInput" (bodyDoc contract.input) (bodyExpr "InputSchema" contract.input) ::
    successDecls (bodyDoc contract.output) output ++
    [handlerError contract.errors,
      ⟨"HandlerOutput", .none, .alias (.oneOf [.here "HandlerError", successExpr output])⟩,
      handlerContext, handler ⟨description, []⟩]

def definitionDecls (s : Scope) (skipGuards : Bool) (definition : Definition) : List Decl :=
  let address : Address := ⟨s.document, definition.name⟩
  let name := typeName definition.name definition.type.kind
  let doc := documentation definition.type
  match definition.type with
  | .token _ => [⟨Casing.screaming definition.name, doc, .const none (.str address.text)⟩]
  | .record _ key payload =>
    s.objectDecls skipGuards name
      (if key.isEmpty then doc else { doc with notes := doc.notes ++ ["key: " ++ key] })
      payload address
  | .object object => s.objectDecls skipGuards name doc object address
  | .method description _ contract => s.contractDecls description contract
  | type => [⟨name, doc, .alias (s.typeExpr type)⟩]

def guardPair (s : Scope) (definition : Definition) : Decl × Decl :=
  let address : Address := ⟨s.document, definition.name⟩
  let name := typeName definition.name definition.type.kind
  (guardDecl name address, validateDecl name address)

def guardDecls (s : Scope) (definition : Definition) : List Decl :=
  if definition.type.isGuarded then [(s.guardPair definition).1, (s.guardPair definition).2] else []

theorem definitionDecls_false (s : Scope) (definition : Definition) :
    s.definitionDecls false definition =
      s.definitionDecls true definition ++ s.guardDecls definition := by
  rcases definition with ⟨name, t⟩
  cases t with
  | record | object => rfl
  | _ => exact (List.append_nil _).symm

end Scope

end Emission

end LexiconCompiler
