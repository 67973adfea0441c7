import LexiconCompiler.Mime.Pattern
import LexiconCompiler.Proofs.Number.Numeral
import LexiconCompiler.Proofs.Schema.Parts

set_option autoImplicit false
set_option relaxedAutoImplicit false

/-!
What a valid document is, said without reading one: which types may stand where, and what holds of
every type that occurs in it. The rules for single types come in three groups: `Shaped` is what the
form of the fields fixes, `Named` are the rules for names, references and media types, and
`Coherent` are the rules that compare fields with each other.
-/

namespace LexiconCompiler

def Ordered {α : Type} (le : α -> α -> Prop) (least most : Option α) : Prop :=
  ∀ a ∈ least, ∀ b ∈ most, le a b

def Chosen {α : Type} (same : α -> α -> Prop) (choices : List α) (value : Option α) : Prop :=
  ∀ v ∈ value, choices = [] ∨ ∃ choice ∈ choices, same choice v

namespace NumericRules

variable {α : Type}

/-- Every number of the rules has a property. -/
structure Each (P : α -> Prop) (rules : NumericRules α) : Prop where
  default : ∀ x ∈ rules.default, P x
  const : ∀ x ∈ rules.const, P x
  minimum : ∀ x ∈ rules.minimum, P x
  maximum : ∀ x ∈ rules.maximum, P x
  enum : ∀ x ∈ rules.enum, P x

/-- The bounds are in order, and constant and default are among the declared choices. -/
structure Coherent (le same : α -> α -> Prop) (rules : NumericRules α) : Prop where
  bounds : Ordered le rules.minimum rules.maximum
  const : Chosen same rules.enum rules.const
  default : Chosen same rules.enum rules.default

end NumericRules

/-- The lengths are in order, and constant and default are among the declared choices. -/
structure StringRules.Coherent (rules : StringRules) : Prop where
  lengths : Ordered (· ≤ ·) rules.minLength rules.maxLength
  const : Chosen (· = ·) rules.enum rules.const
  default : Chosen (· = ·) rules.enum rules.default

/-- Bounds are 64-bit integers. Images and videos have an extent, videos and recordings a length;
nothing else has one. -/
structure BlobRules.Shaped (rules : BlobRules) : Prop where
  words : ∀ bound ∈ [rules.maxSize, rules.maxWidth, rules.maxHeight, rules.maxLength],
    ∀ i ∈ bound, IsWord i
  extent : rules.variant = .blob ∨ rules.variant = .audio →
    rules.maxWidth = none ∧ rules.maxHeight = none
  length : rules.variant = .blob ∨ rules.variant = .image → rules.maxLength = none

def Encoding.Shaped (encoding : Encoding) : Prop :=
  if encoding.multi then encoding.values ≠ [] ∧ encoding.values.Nodup
  else encoding.values.length ≤ 1

namespace ObjectType

def RequiresDeclared {α : Type} (o : ObjectType α) : Prop :=
  ∀ name ∈ o.required, ∃ p ∈ o.properties, p.name = name

end ObjectType

namespace Method

variable {α : Type}

def bodies (m : Method α) : List (Body α) := m.input.toList ++ m.output.toList

theorem forall_bodies {m : Method α} {P : Body α → Prop} :
    (∀ b ∈ m.bodies, P b) ↔ (∀ b, m.input = some b → P b) ∧ ∀ b, m.output = some b → P b := by
  simp only [Method.bodies, List.mem_append, Option.mem_toList]
  exact ⟨fun h => ⟨fun b hb => h b (Or.inl hb), fun b hb => h b (Or.inr hb)⟩,
    fun h b hb => hb.elim (h.1 b) (h.2 b)⟩

/-- Only procedures have an input, and no two failures share a name. -/
structure Shaped (kind : MethodKind) (m : Method α) : Prop where
  input : kind = .query → m.input = none
  encodings : ∀ body ∈ m.bodies, body.encoding.Shaped
  errors : (m.errors.map NamedError.name).Nodup

/-- The media types of the bodies are patterns, and failures have proper names. -/
structure Named (m : Method α) : Prop where
  encodings : ∀ body ∈ m.bodies, ∀ value ∈ body.encoding.values, Mime.isPattern value = true
  errors : ∀ error ∈ m.errors, Text.isAlnumWord error.name = true

end Method

namespace SchemaType

def IsPrimitive : SchemaType -> Prop
  | .boolean .. | .number .. | .integer .. | .string .. | .datetime .. | .unknown .. => True
  | _ => False

/-- What an array may hold: single values, attachments, references and unions. -/
def IsItem : SchemaType -> Prop
  | .blob .. | .ref .. | .union .. => True
  | t => t.IsPrimitive

/-- What a property may be: anything that an array may hold, and arrays of it. -/
def IsProperty : SchemaType -> Prop
  | .array _ items _ _ => items.IsItem
  | t => t.IsItem

def IsParameter : SchemaType -> Prop
  | .array _ items _ _ => items.IsPrimitive
  | t => t.IsPrimitive

end SchemaType

namespace ObjectType

def IsPlain (o : ObjectType SchemaType) : Prop :=
  o.params = false ∧ ∀ p ∈ o.properties, p.type.IsProperty

def IsParameters (o : ObjectType SchemaType) : Prop :=
  o.IsPlain ∨ (o.params = true ∧ ∀ p ∈ o.properties, p.type.IsParameter)

end ObjectType

namespace SchemaType

def IsSchema : SchemaType -> Prop
  | .object o => o.IsPlain
  | .ref .. | .union .. => True
  | _ => False

def IsDefinition : SchemaType -> Prop
  | .token .. | .blob .. => True
  | .array _ items _ _ => items.IsItem
  | .object o => o.IsPlain
  | .record _ _ payload => payload.IsPlain
  | .method _ _ m =>
    (∀ o ∈ m.parameters, o.IsParameters) ∧
      ∀ body ∈ m.bodies, ∀ schema ∈ body.schema, schema.IsSchema
  | t => t.IsPrimitive

def IsPrincipal : SchemaType -> Prop
  | .record .. | .method .. => True
  | _ => False

/-- What the form of the fields fixes: machine words, bounds that apply, names without
repetitions. -/
def Shaped : SchemaType -> Prop
  | .number _ rules => rules.Each Binary64.Canonical
  | .integer _ rules => rules.Each IsWord
  | .string _ rules => ∀ length ∈ [rules.minLength, rules.maxLength], ∀ n ∈ length, IsWord n
  | .blob _ rules => rules.Shaped
  | .array _ _ least most => ∀ length ∈ [least, most], ∀ n ∈ length, IsWord n
  | .object o => (o.properties.map Property.name).Nodup
  | .method _ kind m => m.Shaped kind
  | _ => True

def Named : SchemaType -> Prop
  | .blob _ rules => ∀ pattern ∈ rules.accept, Mime.isPattern pattern = true
  | .object o => (∀ name ∈ o.required, name ≠ "") ∧ ∀ p ∈ o.properties, p.name ≠ ""
  | .method _ _ m => m.Named
  | .ref _ target => target ≠ ""
  | .union _ targets => targets ≠ [] ∧ ∀ target ∈ targets, target ≠ ""
  | _ => True

def Coherent : SchemaType -> Prop
  | .integer _ rules => rules.Coherent (· ≤ ·) (· = ·)
  | .number _ rules => rules.Coherent (fun a b => b.lt a = false) fun a b => a.same b = true
  | .string _ rules => rules.Coherent
  | .array _ _ least most => Ordered (· ≤ ·) least most
  | .object o => o.RequiresDeclared
  | _ => True

/-- All rules for single types. -/
structure Valid (t : SchemaType) : Prop where
  shaped : t.Shaped
  named : t.Named
  coherent : t.Coherent

end SchemaType

/-- A definition has a proper name, stands where it may, and every type in it is valid. -/
structure Definition.WellFormed (definition : Definition) : Prop where
  name : Text.isAlnumWord definition.name = true
  legal : definition.type.IsDefinition
  placed : definition.type.IsPrincipal → definition.name = mainDef
  valid : ∀ t : SchemaType, t.Inside definition.type → t.Valid

/-- The whole of what makes the fields of a document valid. -/
structure Draft.WellFormed (d : Draft) : Prop where
  version : d.version = 1
  id : Nsid.isValid d.id = true
  revision : ∀ r ∈ d.revision, IsWord r
  nonempty : d.defs ≠ []
  distinct : (d.defs.map Definition.name).Nodup
  defs : ∀ definition ∈ d.defs, definition.WellFormed

end LexiconCompiler
