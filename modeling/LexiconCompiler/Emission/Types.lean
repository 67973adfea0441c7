import LexiconCompiler.Emission.Basic
import LexiconCompiler.Emission.Notes

set_option autoImplicit false
set_option relaxedAutoImplicit false

/-!
Types of generated code from types of the schema language. References go through the registry, and
one that leaves the document makes its unit need another.
-/

namespace LexiconCompiler.Emission

open LexiconCompiler.Code

/-- What a derivation looks at: the batch, and the identifier of the document at hand. -/
structure Scope where
  registry : Registry
  document : String

def Scope.target (s : Scope) (ref : String) : Except ImportFault (Address × SchemaType) :=
  match Address.parse ref s.document with
  | .error fault => .error (.malformed fault)
  | .ok address =>
    match s.registry.find? address with
    | none => .error (.missing address)
    | some type => .ok (address, type)

/-- The type of a reference: a token is its own address, anything else the declaration that its
target has. -/
def refType (s : Scope) (ref path : String) : Emit TypeExpr :=
  match s.target ref with
  | .error cause => fail (.unresolvedImport s.document path ref cause)
  | .ok (address, target) => do
    if target.kind == .token then return .literal (.str address.text)
    let name := typeName address.fragment target.kind
    if address.nsid == s.document then return .here name
    depend address.nsid
    return .ref (some address.nsid) name

def refTypes (s : Scope) (path : String) : List String -> Emit (List TypeExpr)
  | [] => return []
  | ref :: rest => do
    let type ← refType s ref path
    return type :: (← refTypes s path rest)

/-- One constant, one of several constants, or any value of a built-in type. -/
def constrained (const : Option Literal) (enum : List Literal) (kind : ScalarKind) : TypeExpr :=
  match const, enum with
  | some value, _ => .literal value
  | none, [] => .scalar kind
  | none, values => .oneOf (values.map .literal)

def numericType {α : Type} (literal : α -> Literal) (kind : ScalarKind) (rules : NumericRules α) :
    TypeExpr :=
  constrained (rules.const.map literal) (rules.enum.map literal) kind

/-- The type of a text. Known values leave the type open. -/
def stringType (rules : StringRules) : TypeExpr :=
  if rules.const.isNone && rules.enum.isEmpty && !rules.knownValues.isEmpty then
    .union (rules.knownValues.map fun s => .literal (.str s)) true (some .string)
  else constrained (rules.const.map .str) (rules.enum.map .str) .string

mutual

/-- The type of a type that stands inside another one. -/
def nestedType (s : Scope) : SchemaType -> String -> Emit TypeExpr
  | .boolean _ _ const, _ => return constrained (const.map .bool) [] .boolean
  | .integer _ rules, _ => return numericType .int .integer rules
  | .number _ rules, _ => return numericType .float .number rules
  | .string _ rules, _ => return stringType rules
  | .datetime _, _ => return .scalar .datetime
  | .unknown _, _ => return .scalar .unknown
  | .blob _ rules, _ => return .blob (Kind.blob rules.variant).name rules.accept rules.maxSize
  | .array _ items _ _, path => do
    return .array (← nestedType s items (path ++ ".items"))
  | .object object, path => do
    return .object (← objectFields s object path) false
  | .ref _ ref, path => refType s ref path
  | .union _ refs, path => do
    return .oneOf (← refTypes s path refs)
  | .token d, path => fail (.notNested s.document path (SchemaType.token d).kind)
  | .record d key payload, path =>
    fail (.notNested s.document path (SchemaType.record d key payload).kind)
  | .method d kind contract, path =>
    fail (.notNested s.document path (SchemaType.method d kind contract).kind)

def objectFields (s : Scope) : ObjectType SchemaType -> String -> Emit (List (FieldSpec TypeExpr))
  | ⟨_, required, properties, _⟩, path =>
    propertyFields s required (path ++ ".properties.") properties

/-- The fields of properties, given which are required. -/
def propertyFields (s : Scope) (required : List String) (path : String) :
    List (Property SchemaType) -> Emit (List (FieldSpec TypeExpr))
  | [] => return []
  | ⟨name, type⟩ :: rest => do
    let field : FieldSpec TypeExpr :=
      ⟨name, ← nestedType s type (path ++ name), !required.contains name, documentation type⟩
    return field :: (← propertyFields s required path rest)

end

end LexiconCompiler.Emission
