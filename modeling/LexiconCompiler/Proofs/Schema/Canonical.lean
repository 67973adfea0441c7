import LexiconCompiler.Proofs.Schema.Scalars
import LexiconCompiler.Schema.Document

set_option autoImplicit false
set_option relaxedAutoImplicit false

/-!
The canonical tree of a document. Every field that is present is written under its key; references
and unions are written out, a single media type is a text and several ones are a list.
-/

namespace LexiconCompiler

open LexiconCompiler.Markup

namespace Markup.Node

def text (s : String) : Node := .scalar .str s

def integer (i : Int) : Node := .scalar .int (String.ofList (Number.numeral i))

def number (x : Binary64) : Node := .scalar .float x.exactText

def boolean (b : Bool) : Node := .scalar .bool (booleanText b)

def length (n : Nat) : Node := integer n

def list {α : Type} (write : α -> Node) (values : List α) : Node := .sequence (values.map write)

def present (fields : List (String × Option Node)) : List (Key × Node) :=
  fields.filterMap fun field => field.2.map fun node => (⟨field.1, .scalar .str⟩, node)

def record (fields : List (String × Option Node)) : Node := .mapping (present fields)

end Markup.Node

def writeText (s : String) : Option Node := if s = "" then none else some (.text s)

def writeList {α : Type} (write : α -> Node) (values : List α) : Option Node :=
  if values = [] then none else some (.list write values)

def NumericRules.fields {α : Type} (write : α -> Node) (rules : NumericRules α) :
    List (String × Option Node) :=
  [("default", rules.default.map write), ("const", rules.const.map write),
   ("minimum", rules.minimum.map write), ("maximum", rules.maximum.map write),
   ("enum", writeList write rules.enum)]

def StringRules.fields (rules : StringRules) : List (String × Option Node) :=
  [("default", rules.default.map .text), ("const", rules.const.map .text),
   ("minLength", rules.minLength.map .length), ("maxLength", rules.maxLength.map .length),
   ("enum", writeList .text rules.enum), ("knownValues", writeList .text rules.knownValues)]

def BlobRules.fields (rules : BlobRules) : List (String × Option Node) :=
  [("accept", writeList .text rules.accept), ("maxSize", rules.maxSize.map .integer),
   ("maxWidth", rules.maxWidth.map .integer), ("maxHeight", rules.maxHeight.map .integer),
   ("maxLength", rules.maxLength.map .integer)]

def SchemaType.leafFields : SchemaType -> List (String × Option Node)
  | .boolean _ default const =>
    [("default", default.map .boolean), ("const", const.map .boolean)]
  | .number _ rules => rules.fields .number
  | .integer _ rules => rules.fields .integer
  | .string _ rules => rules.fields
  | .blob _ rules => rules.fields
  | .ref _ target => [("ref", some (.text target))]
  | .union _ targets => [("refs", some (.list .text targets))]
  | _ => []

def typeNode (kind : Kind) (description : String) (fields : List (String × Option Node)) : Node :=
  .record (("type", some (.text kind.name)) :: ("description", writeText description) :: fields)

def Encoding.toNode? (encoding : Encoding) : Option Node :=
  if encoding.multi then some (.list .text encoding.values)
  else encoding.values.head?.map .text

def NamedError.toNode (error : NamedError) : Node :=
  .record [("name", some (.text error.name)), ("description", writeText error.description)]

mutual

/-- The canonical tree of a type. -/
def SchemaType.toNode : SchemaType -> Node
  | .array d items least most =>
    typeNode .array d
      [("items", some items.toNode), ("minLength", least.map .length),
       ("maxLength", most.map .length)]
  | .object o => objectNode o
  | .record d key payload =>
    typeNode .record d [("key", writeText key), ("record", some (objectNode payload))]
  | .method d kind ⟨parameters, input, output, errors⟩ =>
    typeNode kind.kind d
      [("parameters", parametersNode? parameters), ("input", bodyNode? input),
       ("output", bodyNode? output), ("errors", writeList NamedError.toNode errors)]
  | t => typeNode t.kind t.description t.leafFields

def objectNode : ObjectType SchemaType -> Node
  | ⟨d, required, properties, params⟩ =>
    typeNode (if params then .params else .object) d
      [("required", writeList .text required),
       ("properties", some (.mapping (propertyEntries properties)))]

def propertyEntries : List (Property SchemaType) -> List (Key × Node)
  | [] => []
  | ⟨name, type⟩ :: rest => (⟨name, .scalar .str⟩, type.toNode) :: propertyEntries rest

def parametersNode? : Option (ObjectType SchemaType) -> Option Node
  | none => none
  | some o => some (objectNode o)

def bodyNode? : Option (Body SchemaType) -> Option Node
  | none => none
  | some ⟨d, encoding, schema⟩ =>
    some (.record [("description", writeText d), ("encoding", encoding.toNode?),
      ("schema", schemaNode? schema)])

def schemaNode? : Option SchemaType -> Option Node
  | none => none
  | some schema => some schema.toNode

end

def Definition.toEntry (definition : Definition) : Key × Node :=
  (⟨definition.name, .scalar .str⟩, definition.type.toNode)

/-- The canonical tree of a document. -/
def Draft.toNode (d : Draft) : Node :=
  .record
    [("lexicon", some (.integer d.version)), ("id", some (.text d.id)),
     ("revision", d.revision.map .integer), ("description", writeText d.description),
     ("defs", some (.mapping (d.defs.map Definition.toEntry)))]

end LexiconCompiler
