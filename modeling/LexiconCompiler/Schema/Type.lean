import LexiconCompiler.Number.Binary64
import LexiconCompiler.Schema.Kind

set_option autoImplicit false
set_option relaxedAutoImplicit false

/-!
Types of the schema language. Objects, bodies and methods are records over the types inside them.
-/

namespace LexiconCompiler

/-- What may be said about a number. -/
structure NumericRules (α : Type) where
  default : Option α
  const : Option α
  minimum : Option α
  maximum : Option α
  enum : List α
  deriving DecidableEq, Repr

/-- What may be said about a text. Known values suggest values without closing the set. -/
structure StringRules where
  default : Option String
  const : Option String
  minLength : Option Nat
  maxLength : Option Nat
  enum : List String
  knownValues : List String
  deriving DecidableEq, Repr

/-- What may be said about an attachment. Bounds that do not apply to the variant are absent. -/
structure BlobRules where
  variant : BlobVariant
  accept : List String
  maxSize : Option Int
  maxWidth : Option Int
  maxHeight : Option Int
  maxLength : Option Int
  deriving DecidableEq, Repr

/-- One named member of an object. -/
structure Property (α : Type) where
  name : String
  type : α
  deriving Repr

/-- Named properties in source order. `params` marks the parameters of a method. -/
structure ObjectType (α : Type) where
  description : String
  required : List String
  properties : List (Property α)
  params : Bool
  deriving Repr

/-- The media types of a body. `multi` tells a list of them from a single one. -/
structure Encoding where
  values : List String
  multi : Bool
  deriving DecidableEq, Repr

/-- What a method takes in or gives back. Without an encoding it carries nothing. -/
structure Body (α : Type) where
  description : String
  encoding : Encoding
  schema : Option α
  deriving Repr

/-- A declared failure of a method. -/
structure NamedError where
  name : String
  description : String
  deriving DecidableEq, Repr

/-- Queries read, procedures write. -/
inductive MethodKind where
  | query
  | procedure
  deriving DecidableEq, Repr

/-- The contract of a method; a query has no input. -/
structure Method (α : Type) where
  parameters : Option (ObjectType α)
  input : Option (Body α)
  output : Option (Body α)
  errors : List NamedError
  deriving Repr

/-- A type of the schema language. -/
inductive SchemaType where
  | boolean (description : String) (default const : Option Bool)
  | number (description : String) (rules : NumericRules Binary64)
  | integer (description : String) (rules : NumericRules Int)
  | string (description : String) (rules : StringRules)
  | datetime (description : String)
  | unknown (description : String)
  | token (description : String)
  | blob (description : String) (rules : BlobRules)
  | array (description : String) (items : SchemaType) (minLength maxLength : Option Nat)
  | object (object : ObjectType SchemaType)
  | record (description key : String) (payload : ObjectType SchemaType)
  | method (description : String) (kind : MethodKind) (contract : Method SchemaType)
  | ref (description : String) (ref : String)
  | union (description : String) (refs : List String)
  deriving Repr

/-- Whether no media type was declared. -/
def Encoding.isZero (encoding : Encoding) : Bool := encoding.values.isEmpty

def Encoding.zero : Encoding := ⟨[], false⟩

namespace ObjectType

variable {α : Type}

def property? (o : ObjectType α) (name : String) : Option (Property α) :=
  o.properties.find? fun p => p.name == name

/-- Whether a property is listed as required. -/
def isRequired (o : ObjectType α) (name : String) : Bool := o.required.contains name

def kind (o : ObjectType α) : Kind := if o.params then .params else .object

end ObjectType

def MethodKind.kind : MethodKind -> Kind
  | .query => .query
  | .procedure => .procedure

namespace SchemaType

def kind : SchemaType -> Kind
  | .boolean .. => .boolean
  | .number .. => .number
  | .integer .. => .integer
  | .string .. => .string
  | .datetime .. => .datetime
  | .unknown .. => .unknown
  | .token .. => .token
  | .blob _ rules => .blob rules.variant
  | .array .. => .array
  | .object o => o.kind
  | .record .. => .record
  | .method _ kind _ => kind.kind
  | .ref .. => .ref
  | .union .. => .union

def description : SchemaType -> String
  | .boolean d _ _ => d
  | .number d _ => d
  | .integer d _ => d
  | .string d _ => d
  | .datetime d => d
  | .unknown d => d
  | .token d => d
  | .blob d _ => d
  | .array d _ _ _ => d
  | .object o => o.description
  | .record d _ _ => d
  | .method d _ _ => d
  | .ref d _ => d
  | .union d _ => d

end SchemaType

end LexiconCompiler
