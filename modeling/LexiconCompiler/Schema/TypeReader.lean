import LexiconCompiler.Schema.Fields
import LexiconCompiler.Schema.Position

set_option autoImplicit false
set_option relaxedAutoImplicit false

/-!
Reading types. What may stand inside what bounds the depth: items hold no further types, properties
are items or arrays of them, and only definitions hold objects, payloads and bodies. So each level
is read by the one below it. A type with a part that cannot be read is absent, after an issue.
-/

namespace LexiconCompiler

open LexiconCompiler.Markup LexiconCompiler.Text

/-- How the fields of a type of a given kind are read; the text is its description. -/
abbrev KindReader := Fields -> Kind -> String -> Reviewed (Option SchemaType)

/-- Reads a type by its shorthand or by its `type` field, which the place has to allow. -/
def readTyped (position : Position) (read : KindReader) (node : Node) (path : String) :
    Reviewed (Option SchemaType) :=
  match position.shorthand, node with
  | true, .scalar tag text => do
    let ref ← readString (.scalar tag text) path
    return ref.map (.ref "")
  | true, .sequence items => do
    let refs ← readStrings (.sequence items) path
    return some (.union "" refs)
  | _, node => do
    let some f ← readFields node path | return none
    let some name ← f.requiredString "type" | return none
    match Kind.ofName? name with
    | none =>
      Reviewed.mismatch (f.place "type") "unknown type" "a lexicon type" (describe (f.get? "type"))
      return none
    | some kind =>
      if position.allows kind then
        let description ← f.textOr "description"
        read f kind description
      else
        Reviewed.mismatch (f.place "type") ("type " ++ quote name ++ " is not allowed here")
          position.expected (describe (f.get? "type"))
        return none

def readRequired (position : Position) (read : KindReader) (node : Option Node) (path : String) :
    Reviewed (Option SchemaType) :=
  match node with
  | some node => readTyped position read node path
  | none => do
    Reviewed.mismatch path "required" position.expected (describe none)
    return none

def readNumericRules {α : Type} (read : Node -> String -> Reviewed (Option α)) (f : Fields) :
    Reviewed (NumericRules α) := do
  let default ← f.optional read "default"
  let const ← f.optional read "const"
  let minimum ← f.optional read "minimum"
  let maximum ← f.optional read "maximum"
  let enum ← f.values read "enum"
  return ⟨default, const, minimum, maximum, enum⟩

def readStringRules (f : Fields) : Reviewed StringRules := do
  let default ← f.optional readString "default"
  let const ← f.optional readString "const"
  let minLength ← f.length "minLength"
  let maxLength ← f.length "maxLength"
  let enum ← f.strings "enum"
  let knownValues ← f.strings "knownValues"
  return ⟨default, const, minLength, maxLength, enum, knownValues⟩

/-- Whether a variant has a width and a height. -/
def BlobVariant.hasExtent : BlobVariant -> Bool
  | .image => true
  | .video => true
  | _ => false

def BlobVariant.hasLength : BlobVariant -> Bool
  | .video => true
  | .audio => true
  | _ => false

def readBound (f : Fields) (applies : Bool) (key : String) : Reviewed (Option Int) :=
  if applies then f.optional readInteger key else return none

/-- Reports a bound that is given and does not apply. -/
def refuseBound (f : Fields) (variant : BlobVariant) (applies : Bool) (key : String) :
    Reviewed Unit :=
  if !applies && (f.get? key).isSome then
    Reviewed.fault (f.place key) (key ++ " does not apply to " ++ (Kind.blob variant).name)
  else return ()

def readBlobRules (f : Fields) (variant : BlobVariant) : Reviewed BlobRules := do
  let accept ← f.strings "accept"
  let maxSize ← f.optional readInteger "maxSize"
  let maxWidth ← readBound f variant.hasExtent "maxWidth"
  let maxHeight ← readBound f variant.hasExtent "maxHeight"
  let maxLength ← readBound f variant.hasLength "maxLength"
  refuseBound f variant variant.hasExtent "maxWidth"
  refuseBound f variant variant.hasExtent "maxHeight"
  refuseBound f variant variant.hasLength "maxLength"
  return ⟨variant, accept, maxSize, maxWidth, maxHeight, maxLength⟩

/-- Reads a union, whose references have to be given. -/
def readUnion (f : Fields) (description : String) : Reviewed (Option SchemaType) := do
  match f.get? "refs" with
  | none =>
    Reviewed.mismatch (f.place "refs") "required" "array of references" (describe none)
    return none
  | some _ =>
    let refs ← f.strings "refs"
    return some (.union description refs)

/-- Reads a type that holds no further types. -/
def readLeaf : KindReader := fun f kind description =>
  match kind with
  | .boolean => do
    let default ← f.optional readBoolean "default"
    let const ← f.optional readBoolean "const"
    return some (.boolean description default const)
  | .number => do
    let rules ← readNumericRules readNumber f
    return some (.number description rules)
  | .integer => do
    let rules ← readNumericRules readInteger f
    return some (.integer description rules)
  | .string => do
    let rules ← readStringRules f
    return some (.string description rules)
  | .datetime => return some (.datetime description)
  | .unknown => return some (.unknown description)
  | .token => return some (.token description)
  | .blob variant => do
    let rules ← readBlobRules f variant
    return some (.blob description rules)
  | .ref => do
    let ref ← f.requiredString "ref"
    return ref.map (.ref description)
  | .union => readUnion f description
  | _ => return none

/-- Reads an array of types that hold no further types, or such a type. -/
def readShallow (position : Position) : KindReader := fun f kind description =>
  match kind with
  | .array => do
    let items ← readRequired position.ofItems readLeaf (f.get? "items") (f.place "items")
    let minLength ← f.length "minLength"
    let maxLength ← f.length "maxLength"
    return items.map (.array description · minLength maxLength)
  | _ => readLeaf f kind description

/-- Reads properties, or parameters where the place says so. -/
def readProperties (position : Position) (props : Fields) :
    List (String × Node) -> Reviewed (List (Property SchemaType))
  | [] => return []
  | (name, node) :: rest => do
    let type ← readTyped position (readShallow position) node (props.place name)
    let others ← readProperties position props rest
    return (type.map (⟨name, ·⟩)).toList ++ others

/-- The place of the members of an object. -/
def memberPosition (params : Bool) : Position := if params then .parameter else .property

/-- Reads an object; parameters have to list their properties. -/
def readObject (f : Fields) (description : String) (params : Bool) :
    Reviewed (ObjectType SchemaType) := do
  let required ← f.strings "required"
  match f.get? "properties" with
  | none =>
    if params then Reviewed.mismatch (f.place "properties") "required" "object" (describe none)
    return ⟨description, required, [], params⟩
  | some node =>
    let some props ← readFields node (f.place "properties")
      | return ⟨description, required, [], params⟩
    let pairs ← props.pairs
    let properties ← readProperties (memberPosition params) props pairs
    return ⟨description, required, properties, params⟩

/-- Reads an object of one of the given kinds, each of which is either parameters or not. -/
def readObjectAs (kinds : List (Kind × Bool)) (node : Node) (path : String) :
    Reviewed (Option (ObjectType SchemaType)) := do
  let some f ← readFields node path | return none
  let some name ← f.requiredString "type" | return none
  match kinds.find? fun kind => kind.1.name == name with
  | some (_, params) =>
    let description ← f.textOr "description"
    let object ← readObject f description params
    return some object
  | none =>
    Reviewed.mismatch (f.place "type") "wrong definition type"
      (joinWith " or " (kinds.map fun kind => kind.1.name)) (describe (f.get? "type"))
    return none

/-- Reads the payload of a record, which has to be given. -/
def readPayload (f : Fields) : Reviewed (Option (ObjectType SchemaType)) :=
  match f.get? "record" with
  | none => do
    Reviewed.mismatch (f.place "record") "required" "object definition" (describe none)
    return none
  | some node => readObjectAs [(.object, false)] node (f.place "record")

def readSchema : KindReader := fun f kind description =>
  match kind with
  | .object => do
    let object ← readObject f description false
    return some (.object object)
  | _ => readLeaf f kind description

/-- The warning about a schema without an encoding. -/
def bodyWithoutEncoding : String := "body_without_encoding"

def readEncoding (document : String) (f : Fields) : Reviewed Encoding :=
  match f.get? "encoding" with
  | none => do
    if (f.get? "schema").isSome then
      Reviewed.warn ⟨bodyWithoutEncoding,
        "body declares a schema but no encoding; it is treated as absent", document,
        f.place "encoding"⟩
    return .zero
  | some (.sequence []) => do
    Reviewed.mismatch (f.place "encoding") "must list at least one MIME type" "non-empty array"
      "array"
    return .zero
  | some (.sequence items) => do
    let values ← readStrings (.sequence items) (f.place "encoding")
    return ⟨distinct values, true⟩
  | some node => do
    let value ← readString node (f.place "encoding")
    return ⟨value.toList, false⟩

def readBody (document : String) (node : Node) (path : String) :
    Reviewed (Option (Body SchemaType)) := do
  let some f ← readFields node path | return none
  let description ← f.textOr "description"
  let encoding ← readEncoding document f
  let schema ← f.optional (readTyped .schema readSchema) "schema"
  return some ⟨description, encoding, schema⟩

/-- Reads the declared failures; a name counts once. -/
def readErrors (path : String) (seen : List String) :
    Nat -> List Node -> Reviewed (List NamedError)
  | _, [] => return []
  | index, node :: rest => do
    let some f ← readFields node (indexPath path index) | readErrors path seen (index + 1) rest
    let some name ← f.requiredString "name" | readErrors path seen (index + 1) rest
    if seen.contains name then
      Reviewed.fault (f.place "name") "duplicate error name"
      readErrors path seen (index + 1) rest
    else
      let description ← f.textOr "description"
      let errors ← readErrors path (name :: seen) (index + 1) rest
      return ⟨name, description⟩ :: errors

/-- Reads the input of a method; what a query says about one is not read. -/
def readInput (document : String) (f : Fields) : MethodKind -> Reviewed (Option (Body SchemaType))
  | .procedure => f.optional (readBody document) "input"
  | .query => return none

def readErrorList (f : Fields) : Reviewed (List NamedError) := do
  match ← f.list? "errors" with
  | none => return []
  | some items => readErrors (f.place "errors") [] 0 items

def readMethod (document : String) (f : Fields) (kind : MethodKind) :
    Reviewed (Method SchemaType) := do
  let parameters ← f.optional (readObjectAs [(.params, true), (.object, false)]) "parameters"
  let input ← readInput document f kind
  let output ← f.optional (readBody document) "output"
  let errors ← readErrorList f
  return ⟨parameters, input, output, errors⟩

def readDefinition (document : String) : KindReader := fun f kind description =>
  match kind with
  | .object => do
    let object ← readObject f description false
    return some (.object object)
  | .record => do
    let key ← f.textOr "key"
    let payload ← readPayload f
    return payload.map (.record description key)
  | .query => do
    let contract ← readMethod document f .query
    return some (.method description .query contract)
  | .procedure => do
    let contract ← readMethod document f .procedure
    return some (.method description .procedure contract)
  | _ => readShallow .definition f kind description

def readDefinitions (document : String) : List (String × Node) -> Reviewed (List Definition)
  | [] => return []
  | (name, node) :: rest => do
    let type ← readTyped .definition (readDefinition document) node (joinPath "defs" name)
    let others ← readDefinitions document rest
    return (type.map (⟨name, ·⟩)).toList ++ others

/-- Reads the definitions of a document, which have to be given. -/
def readDefs (document : String) (f : Fields) : Reviewed (List Definition) := do
  match f.get? "defs" with
  | none =>
    Reviewed.mismatch "defs" "required" "object" (describe none)
    return []
  | some node =>
    let some defs ← readFields node "defs" | return []
    let pairs ← defs.pairs
    readDefinitions document pairs

def readDraft (node : Node) : Reviewed Draft := do
  let some f ← readFields node "" | return ⟨0, "", none, "", []⟩
  let version ← f.optional readInteger "lexicon"
  let id ← f.textOr "id"
  let revision ← f.optional readInteger "revision"
  let description ← f.textOr "description"
  let defs ← readDefs id f
  return ⟨version.getD 0, id, revision, description, defs⟩

end LexiconCompiler
