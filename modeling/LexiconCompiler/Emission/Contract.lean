import LexiconCompiler.Emission.Types

set_option autoImplicit false
set_option relaxedAutoImplicit false

/-!
The contract of a query or procedure: parameters, bodies, and the handler that serves it.
-/

namespace LexiconCompiler.Emission

open LexiconCompiler.Code

/-- The type of the media type of a body. -/
def encodingType (encoding : Encoding) : TypeExpr :=
  if encoding.multi then .texts encoding.values
  else .literal (.str (encoding.values.headD ""))

/-- The type of what a body carries: the schema if there is one, and bytes if there is none or
another media type may be chosen. -/
def payloadType (name : String) (encoding : Encoding) (hasSchema : Bool) : TypeExpr :=
  if hasSchema then
    if encoding.multi then .oneOf [.here name, .bytes] else .here name
  else .bytes

def declareSchema (s : Scope) (name path : String) : Option SchemaType -> Emit Unit
  | none => return ⟨⟩
  | some schema => do
    declare (.ofType name ⟨schema.description, []⟩ (← nestedType s schema path))

/-- The type of a body, after its schema is declared. Without a media type nothing is carried. -/
def bodyType (s : Scope) (name path : String) : Option (Body SchemaType) -> Emit TypeExpr
  | none => return .void
  | some ⟨_, encoding, schema⟩ => do
    if encoding.isZero then return .void
    declareSchema s name (path ++ ".schema") schema
    return .object
      [.plain "encoding" (encodingType encoding),
       .plain "body" (payloadType name encoding schema.isSome)] false

def bodyDoc : Option (Body SchemaType) -> Documentation
  | none => .none
  | some body => ⟨body.description, []⟩

/-- The field that names the declared errors, if there are any. -/
def errorField (errors : List NamedError) : List (FieldSpec TypeExpr) :=
  if errors.isEmpty then []
  else
    [⟨"error", .texts (errors.map NamedError.name), true,
      ⟨"", (errors.filter fun e => !e.description.isEmpty).map fun e =>
        e.name ++ ": " ++ e.description⟩⟩]

def handlerError (errors : List NamedError) : Decl :=
  ⟨"HandlerError", .none, .interface
    ([.plain "status" (.scalar .integer), ⟨"message", .scalar .string, true, .none⟩] ++
      errorField errors) false⟩

def handlerContext : Decl :=
  ⟨"HandlerContext", .none, .interface
    [.plain "req" (.runtime .request), .plain "res" (.runtime .response)] false⟩

def handler (doc : Documentation) : Decl :=
  ⟨"Handler", doc, .alias (.func
    [.plain "params" (.here "QueryParams"), .plain "input" (.here "HandlerInput"),
     .plain "ctx" (.here "HandlerContext")]
    (.here "HandlerOutput") true)⟩

def parameterFields (s : Scope) : Option (ObjectType SchemaType) -> Emit (List (FieldSpec TypeExpr))
  | none => return []
  | some parameters => objectFields s parameters "defs.main.parameters"

/-- Declares what a handler gives back when it succeeds. -/
def declareSuccess (doc : Documentation) : TypeExpr -> Emit TypeExpr
  | .void => return .void
  | type => do
    declare (.ofType "HandlerSuccess" doc type)
    return .here "HandlerSuccess"

def declareContract (s : Scope) (description : String) (contract : Method SchemaType) :
    Emit Unit := do
  declare ⟨"QueryParams", .none, .interface (← parameterFields s contract.parameters) false⟩
  let input ← bodyType s "InputSchema" "defs.main.input" contract.input
  let output ← bodyType s "OutputSchema" "defs.main.output" contract.output
  declare (.ofType "HandlerInput" (bodyDoc contract.input) input)
  let success ← declareSuccess (bodyDoc contract.output) output
  declare (handlerError contract.errors)
  declare ⟨"HandlerOutput", .none, .alias (.oneOf [.here "HandlerError", success])⟩
  declare handlerContext
  declare (handler ⟨description, []⟩)

end LexiconCompiler.Emission
