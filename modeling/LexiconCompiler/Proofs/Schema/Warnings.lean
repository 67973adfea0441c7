import LexiconCompiler.Proofs.Schema.Soundness

set_option autoImplicit false
set_option relaxedAutoImplicit false

/-!
The warnings of a document. While a document is read only a body that has a schema and no encoding
gives one; the rest come from the checks.
-/

namespace LexiconCompiler

open LexiconCompiler.Markup LexiconCompiler.Text

namespace Reviewed

variable {α β : Type}

/-- A reading gives no warning. -/
def Quiet (r : Reviewed α) : Prop := r.warnings = []

@[simp] theorem quiet_pure (a : α) : (pure a : Reviewed α).Quiet := rfl

@[simp] theorem quiet_mismatch (path message expected actual : String) :
    (mismatch path message expected actual).Quiet := rfl

@[simp] theorem quiet_fault (path message : String) : (fault path message).Quiet := rfl

@[simp] theorem quiet_bind (r : Reviewed α) (k : α → Reviewed β) :
    (r >>= k).Quiet ↔ r.Quiet ∧ (k r.value).Quiet :=
  List.append_eq_nil_iff

private theorem warnings_bind (r : Reviewed α) (k : α → Reviewed β) :
    (r >>= k).warnings = r.warnings ++ (k r.value).warnings := rfl

private theorem Yields.warnings_bind {r : Reviewed α} {a : α} (h : r.Yields a) (hr : r.Quiet)
    (k : α → Reviewed β) : (r >>= k).warnings = (k a).warnings := by
  rw [Reviewed.warnings_bind, hr, h.2, List.nil_append]

end Reviewed

section Quiet

variable {α : Type} {read : Node → String → Reviewed (Option α)} {f : Fields} {key : String}

@[simp] theorem quiet_readString (node : Node) (path : String) : (readString node path).Quiet := by
  unfold readString
  split <;> simp

@[simp] theorem quiet_readInteger (node : Node) (path : String) :
    (readInteger node path).Quiet := by
  unfold readInteger
  split <;> simp

@[simp] theorem quiet_readNumber (node : Node) (path : String) : (readNumber node path).Quiet := by
  unfold readNumber
  split <;> simp

@[simp] theorem quiet_readBoolean (node : Node) (path : String) :
    (readBoolean node path).Quiet := by
  unfold readBoolean
  split
  · split <;> simp
  · simp

private theorem quiet_readItems (h : ∀ node path, (read node path).Quiet) (path : String)
    (index : Nat) (nodes : List Node) : (readItems read path index nodes).Quiet := by
  induction nodes generalizing index with
  | nil => simp [readItems]
  | cons node rest ih => simp [readItems, h, ih]

@[simp] theorem quiet_readStrings (node : Node) (path : String) :
    (readStrings node path).Quiet := by
  unfold readStrings
  split
  · exact quiet_readItems quiet_readString path 0 _
  · simp

@[simp] theorem quiet_readFields (node : Node) (path : String) : (readFields node path).Quiet := by
  unfold readFields
  split <;> simp

namespace Fields

private theorem quiet_optional (h : ∀ node path, (read node path).Quiet) (key : String) :
    (f.optional read key).Quiet := by
  unfold optional
  split
  · simp
  · exact h _ _

@[simp] theorem quiet_requiredString : (f.requiredString key).Quiet := by
  unfold requiredString
  split <;> simp

@[simp] theorem quiet_textOr : (f.textOr key).Quiet := by
  simp [textOr, quiet_optional quiet_readString]

@[simp] theorem quiet_length : (f.length key).Quiet := by
  simp only [length, Reviewed.quiet_bind, quiet_optional quiet_readInteger, true_and]
  split
  · simp
  · split <;> simp

@[simp] theorem quiet_strings : (f.strings key).Quiet := by
  unfold strings
  split <;> simp

@[simp] theorem quiet_list? : (f.list? key).Quiet := by
  unfold list?
  split <;> simp

private theorem quiet_values (h : ∀ node path, (read node path).Quiet) (key : String) :
    (f.values read key).Quiet := by
  simp only [values, Reviewed.quiet_bind, quiet_list?, true_and]
  split
  · simp
  · exact quiet_readItems h _ 0 _

private theorem quiet_pairsFrom (seen : List String) (entries : List (String × Node)) :
    (f.pairsFrom seen entries).Quiet := by
  induction entries generalizing seen with
  | nil => simp [pairsFrom]
  | cons entry rest ih =>
    rw [pairsFrom]
    split <;> simp [ih]

@[simp] theorem quiet_pairs : f.pairs.Quiet := quiet_pairsFrom [] f.entries

end Fields

private theorem quiet_readNumericRules (h : ∀ node path, (read node path).Quiet) (f : Fields) :
    (readNumericRules read f).Quiet := by
  simp [readNumericRules, Fields.quiet_optional h, Fields.quiet_values h]

private theorem quiet_readBlobRules (f : Fields) (variant : BlobVariant) :
    (readBlobRules f variant).Quiet := by
  have hbound (applies : Bool) (key : String) : (readBound f applies key).Quiet := by
    unfold readBound
    split <;> simp [Fields.quiet_optional quiet_readInteger]
  have hrefuse (applies : Bool) (key : String) : (refuseBound f variant applies key).Quiet := by
    unfold refuseBound
    split <;> simp
  simp [readBlobRules, hbound, hrefuse, Fields.quiet_optional quiet_readInteger]

private theorem quiet_readUnion (f : Fields) (d : String) : (readUnion f d).Quiet := by
  unfold readUnion
  split <;> simp

private theorem quiet_readLeaf (f : Fields) (kind : Kind) (d : String) :
    (readLeaf f kind d).Quiet := by
  cases kind with
  | boolean => simp [readLeaf, Fields.quiet_optional quiet_readBoolean]
  | number => simp [readLeaf, quiet_readNumericRules quiet_readNumber]
  | integer => simp [readLeaf, quiet_readNumericRules quiet_readInteger]
  | string => simp [readLeaf, readStringRules, Fields.quiet_optional quiet_readString]
  | blob variant => simp [readLeaf, quiet_readBlobRules]
  | union => exact quiet_readUnion f d
  | datetime | unknown | token | ref => simp [readLeaf]
  | array | object | record | query | procedure | params => simp [readLeaf]

private theorem quiet_readTyped {position : Position} {read : KindReader}
    (h : ∀ f kind d, (read f kind d).Quiet) (node : Node) (path : String) :
    (readTyped position read node path).Quiet := by
  unfold readTyped
  split
  · simp
  · simp
  · simp only [Reviewed.quiet_bind, quiet_readFields, true_and]
    split
    · simp only [Reviewed.quiet_bind, Fields.quiet_requiredString, true_and]
      split
      · split
        · simp
        · split <;> simp [h]
      · simp
    · simp

private theorem quiet_readShallow (position : Position) (f : Fields) (kind : Kind) (d : String) :
    (readShallow position f kind d).Quiet := by
  have hitems (node : Option Node) (path : String) :
      (readRequired position.ofItems readLeaf node path).Quiet := by
    unfold readRequired
    split
    · exact quiet_readTyped quiet_readLeaf _ _
    · simp
  unfold readShallow
  split
  · simp [hitems]
  · exact quiet_readLeaf f kind d

private theorem quiet_readProperties (position : Position) (props : Fields)
    (entries : List (String × Node)) : (readProperties position props entries).Quiet := by
  induction entries with
  | nil => simp [readProperties]
  | cons entry rest ih => simp [readProperties, quiet_readTyped (quiet_readShallow position), ih]

private theorem quiet_readObject (f : Fields) (d : String) (params : Bool) :
    (readObject f d params).Quiet := by
  simp only [readObject, Reviewed.quiet_bind, Fields.quiet_strings, true_and]
  split
  · split <;> simp
  · simp only [Reviewed.quiet_bind, quiet_readFields, true_and]
    split <;> simp [quiet_readProperties]

private theorem quiet_readObjectAs (kinds : List (Kind × Bool)) (node : Node) (path : String) :
    (readObjectAs kinds node path).Quiet := by
  simp only [readObjectAs, Reviewed.quiet_bind, quiet_readFields, true_and]
  split
  · simp only [Reviewed.quiet_bind, Fields.quiet_requiredString, true_and]
    split
    · split <;> simp [quiet_readObject]
    · simp
  · simp

private theorem quiet_readPayload (f : Fields) : (readPayload f).Quiet := by
  unfold readPayload
  split
  · simp
  · exact quiet_readObjectAs _ _ _

private theorem quiet_readSchema (f : Fields) (kind : Kind) (d : String) :
    (readSchema f kind d).Quiet := by
  unfold readSchema
  split
  · simp [quiet_readObject]
  · exact quiet_readLeaf f kind d

private theorem quiet_readErrors (path : String) (seen : List String) (index : Nat)
    (nodes : List Node) : (readErrors path seen index nodes).Quiet := by
  induction nodes generalizing seen index with
  | nil => simp [readErrors]
  | cons node rest ih =>
    simp only [readErrors, Reviewed.quiet_bind, quiet_readFields, true_and]
    split
    · simp only [Reviewed.quiet_bind, Fields.quiet_requiredString, true_and]
      split
      · split <;> simp [ih]
      · exact ih _ _
    · exact ih _ _

private theorem quiet_readErrorList (f : Fields) : (readErrorList f).Quiet := by
  simp only [readErrorList, Reviewed.quiet_bind, Fields.quiet_list?, true_and]
  split
  · simp
  · exact quiet_readErrors _ _ _ _

end Quiet

section Bodies

def Body.unencoded (document path : String) (body : Body SchemaType) : List Warning :=
  if body.encoding.isZero && body.schema.isSome then
    [⟨bodyWithoutEncoding, "body declares a schema but no encoding; it is treated as absent",
      document, joinPath path "encoding"⟩]
  else []

def Method.unencoded (document path : String) (m : Method SchemaType) : List Warning :=
  m.input.toList.flatMap (Body.unencoded document (joinPath path "input")) ++
    m.output.toList.flatMap (Body.unencoded document (joinPath path "output"))

def SchemaType.unencoded (document path : String) : SchemaType -> List Warning
  | .method _ _ m => m.unencoded document path
  | _ => []

/-- The warnings about the bodies of a document that have a schema and no encoding. -/
def Draft.unencoded (d : Draft) : List Warning :=
  d.defs.flatMap fun x => x.type.unencoded d.id (joinPath "defs" x.name)

variable {document path : String} {node : Node}

private theorem EncodingField.isZero {node : Option Node} {encoding : Encoding}
    (h : EncodingField node encoding) : encoding.isZero = node.isNone := by
  cases node with
  | none =>
    obtain rfl : encoding = .zero := h
    rfl
  | some node =>
    rcases h with ⟨value, -, rfl⟩ | ⟨values, hne, -, rfl⟩
    · rfl
    · simpa [Encoding.isZero] using distinct_ne_nil hne

private theorem optionField_isSome {α : Type} {R : Node → α → Prop} {node : Option Node}
    {v : Option α} (h : OptionField R node v) : v.isSome = node.isSome := by
  cases node with
  | none =>
    obtain rfl : v = none := h
    rfl
  | some node =>
    obtain ⟨a, -, rfl⟩ := h
    rfl

private theorem quiet_readEncoding {f : Fields} (h : (f.get? "encoding").isNone = false) :
    (readEncoding document f).Quiet := by
  unfold readEncoding
  split
  · rename_i hnone
    rw [hnone] at h
    cases h
  · simp
  · simp
  · simp

private theorem warnings_readEncoding (document : String) (f : Fields) :
    (readEncoding document f).warnings =
      if (f.get? "encoding").isNone && (f.get? "schema").isSome then
        [⟨bodyWithoutEncoding, "body declares a schema but no encoding; it is treated as absent",
          document, f.place "encoding"⟩]
      else [] := by
  cases hnone : (f.get? "encoding").isNone with
  | false => exact quiet_readEncoding hnone
  | true =>
    rw [readEncoding, Option.isNone_iff_eq_none.mp hnone]
    cases hschema : (f.get? "schema").isSome <;> rfl

private theorem BodyNode.warnings {body : Body SchemaType} (h : BodyNode node body) :
    (readBody document node path).warnings = body.unencoded document path := by
  obtain ⟨entries, rfl, hd, hencoding, hschema⟩ := h
  have hquiet (f : Fields) (key : String) :
      (f.optional (readTyped .schema readSchema) key).warnings = [] :=
    Fields.quiet_optional (quiet_readTyped quiet_readSchema) key
  have hfields := (yields_readFields (.mapping entries) path _).mpr ⟨entries, rfl, rfl⟩
  have htext := (Fields.yields_textOr ⟨Node.textEntries entries, path⟩ "description" _).mpr hd
  rw [readBody, hfields.warnings_bind (quiet_readFields _ _)]
  simp only
  rw [htext.warnings_bind Fields.quiet_textOr, Reviewed.warnings_bind, Reviewed.warnings_bind,
    hquiet, warnings_readEncoding]
  have hnone : body.encoding.isZero =
      ((⟨Node.textEntries entries, path⟩ : Fields).get? "encoding").isNone := hencoding.isZero
  have hsome : body.schema.isSome =
      ((⟨Node.textEntries entries, path⟩ : Fields).get? "schema").isSome :=
    optionField_isSome hschema
  rw [Body.unencoded, hnone, hsome]
  exact List.append_nil _

private theorem warnings_body {f : Fields} {key : String} {body : Option (Body SchemaType)}
    (h : OptionField BodyNode (f.get? key) body) :
    (f.optional (readBody document) key).warnings =
      body.toList.flatMap (Body.unencoded document (f.place key)) := by
  unfold Fields.optional
  cases hnode : f.get? key with
  | none =>
    rw [hnode] at h
    obtain rfl : body = none := h
    rfl
  | some node =>
    rw [hnode] at h
    obtain ⟨b, hb, rfl⟩ := h
    simp only [hb.warnings, Option.toList_some, List.flatMap_cons, List.flatMap_nil,
      List.append_nil]

private theorem warnings_readMethod {f : Fields} {kind : MethodKind} {m : Method SchemaType}
    (h : m.Denoted f.get? kind) :
    (readMethod document f kind).warnings = m.unencoded document f.path := by
  have hparameters :
      (f.optional (readObjectAs [(.params, true), (.object, false)]) "parameters").warnings = [] :=
    Fields.quiet_optional (quiet_readObjectAs _) "parameters"
  have herrors : (readErrorList f).warnings = [] := quiet_readErrorList f
  have hinput : (readInput document f kind).warnings =
      m.input.toList.flatMap (Body.unencoded document (f.place "input")) := by
    cases kind with
    | query =>
      have hnone : m.input = none := h.input
      rw [hnone]
      rfl
    | procedure => exact warnings_body h.input
  simp only [readMethod, Reviewed.warnings_bind, hparameters, hinput, warnings_body h.output,
    herrors, List.nil_append]
  exact congrArg _ (List.append_nil _)

private theorem SchemaType.DefinitionDenoted.warnings {f : Fields} {t : SchemaType} {d : String}
    (h : t.DefinitionDenoted f.get?) :
    (readDefinition document f t.kind d).warnings = t.unencoded document f.path := by
  have hquiet (hkind : t.kind.isMethod = false) : (readDefinition document f t.kind d).Quiet := by
    cases hk : t.kind with
    | query | procedure => rw [hk] at hkind; cases hkind
    | object => simp [readDefinition, quiet_readObject]
    | record => simp [readDefinition, quiet_readPayload]
    | _ => exact quiet_readShallow .definition f _ d
  cases t with
  | method d' kind m =>
    have hm : m.Denoted f.get? kind := h
    have hwarnings : (readMethod document f kind).warnings = m.unencoded document f.path :=
      warnings_readMethod hm
    cases kind with
    | query | procedure =>
      simp only [SchemaType.kind, MethodKind.kind, readDefinition, Reviewed.warnings_bind,
        hwarnings]
      exact List.append_nil _
  | object o =>
    refine hquiet ?_
    cases hp : o.params <;> simp [SchemaType.kind, ObjectType.kind, hp, Kind.isMethod]
  | _ => exact hquiet rfl

private theorem DefinitionEntry.warnings {entry : String × Node} {x : Definition}
    (h : DefinitionEntry entry x) :
    (readTyped .definition (readDefinition document) entry.2 path).warnings =
      x.type.unencoded document path := by
  obtain ⟨-, htype⟩ := h
  generalize hnode : entry.2 = node at htype ⊢
  generalize x.type = t at htype ⊢
  cases htype with
  | ref hs => cases hs
  | union hs => cases hs
  | @fields entries _ hname hallows hd ht =>
    have hfields := (yields_readFields (.mapping entries) path _).mpr ⟨entries, rfl, rfl⟩
    have hrequired := (Fields.yields_requiredString ⟨Node.textEntries entries, path⟩ "type" _).mpr
      ⟨_, hname, rfl⟩
    have htext := (Fields.yields_textOr ⟨Node.textEntries entries, path⟩ "description" _).mpr hd
    simp only [readTyped, Position.shorthand]
    rw [hfields.warnings_bind (quiet_readFields _ _)]
    simp only
    rw [hrequired.warnings_bind Fields.quiet_requiredString]
    simp only [Kind.ofName?_eq_some.mpr rfl, hallows, if_true]
    rw [htext.warnings_bind Fields.quiet_textOr]
    exact SchemaType.DefinitionDenoted.warnings ht

private theorem warnings_readDefinitions {entries : List (String × Node)} {defs : List Definition}
    (h : List.Forall₂ DefinitionEntry entries defs) :
    (readDefinitions document entries).warnings =
      defs.flatMap fun x => x.type.unencoded document (joinPath "defs" x.name) := by
  induction h with
  | nil => rfl
  | @cons entry x _ _ hentry _ ih =>
    obtain ⟨name, node⟩ := entry
    have hname : x.name = name := hentry.1
    rw [readDefinitions, Reviewed.warnings_bind, Reviewed.warnings_bind, hentry.warnings, ih,
      List.flatMap_cons, hname]
    exact congrArg _ (List.append_nil _)

private theorem warnings_readDefs {f : Fields} {d : Draft} (h : d.Denoted f.get?) :
    (readDefs document f).warnings =
      d.defs.flatMap fun x => x.type.unencoded document (joinPath "defs" x.name) := by
  obtain ⟨entries, hlook, hd, hdefs⟩ := h.defs
  have hfields := (yields_readFields (.mapping entries) "defs" _).mpr ⟨entries, rfl, rfl⟩
  have hpairs := (Fields.yields_pairs ⟨Node.textEntries entries, "defs"⟩ _).mpr ⟨rfl, hd⟩
  simp only [readDefs, hlook]
  rw [hfields.warnings_bind (quiet_readFields _ _)]
  simp only
  rw [hpairs.warnings_bind Fields.quiet_pairs]
  exact warnings_readDefinitions hdefs

/-- The warnings of a document that is read without issues are those about its bodies. -/
private theorem Markup.Node.Denotes.warnings {d : Draft} (h : node.Denotes d) :
    (readDraft node).warnings = d.unencoded := by
  obtain ⟨entries, rfl, hdraft⟩ := h
  have hinteger (f : Fields) (key : String) : (f.optional readInteger key).warnings = [] :=
    Fields.quiet_optional quiet_readInteger key
  have htext (f : Fields) (key : String) : (f.textOr key).warnings = [] := Fields.quiet_textOr
  have hfields := (yields_readFields (.mapping entries) "" _).mpr ⟨entries, rfl, rfl⟩
  have hid := (Fields.yields_textOr ⟨Node.textEntries entries, ""⟩ "id" _).mpr hdraft.id
  have hdefs : (readDefs d.id ⟨Node.textEntries entries, ""⟩).warnings = d.unencoded :=
    warnings_readDefs hdraft
  rw [readDraft, hfields.warnings_bind (quiet_readFields _ _)]
  simp only [Reviewed.warnings_bind, hinteger, htext, hid.2, hdefs, List.nil_append]
  exact List.append_nil _

end Bodies

/-- The warnings of a document: those about its bodies, then those of the checks. -/
theorem Document.warnings_of_ofNode {node : Node} {document : Document}
    (h : Document.ofNode node = .ok document) :
    document.warnings = document.toDraft.unencoded ++ document.toDraft.check.warnings := by
  obtain ⟨hd, hw, -, hwarnings, -⟩ := (Document.ofNode_eq_ok_iff node document).mp h
  have hread := (yields_readDraft node document.toDraft).mpr hd
  rw [hwarnings, reviewDraft, hread.1, hread.2, hd.warnings]
  rfl

end LexiconCompiler
