import LexiconCompiler.Proofs.Schema.Canonical
import LexiconCompiler.Proofs.Schema.Soundness

set_option autoImplicit false
set_option relaxedAutoImplicit false

/-!
Every valid document is described by its canonical tree. A tree that writes the fields of a type
denotes the type, at every place where the type may stand.
-/

namespace LexiconCompiler

open LexiconCompiler.Markup LexiconCompiler.Text

def Writes (look : Lookup) (fields : List (String × Option Node)) : Prop :=
  ∀ field ∈ fields, look field.1 = field.2.map Node.bare

private theorem writes_nil (look : Lookup) : Writes look [] := by simp [Writes]

private theorem writes_cons {look : Lookup} {key : String} {node : Option Node}
    {fields : List (String × Option Node)} :
    Writes look ((key, node) :: fields) ↔ look key = node.map Node.bare ∧ Writes look fields := by
  simp [Writes]

private theorem fieldOf_present_cons (name key : String) (node : Node)
    (rest : List (String × Option Node)) :
    Node.fieldOf (Node.present ((name, some node) :: rest)) key =
      if key = name then some node.bare else Node.fieldOf (Node.present rest) key := by
  have hcons : Node.textEntries (Node.present ((name, some node) :: rest)) =
      (name, node.bare) :: Node.textEntries (Node.present rest) := rfl
  rw [Node.fieldOf, hcons, List.lookup_cons]
  split <;> simp_all [Node.fieldOf]

private theorem fieldOf_present_eq_none {fields : List (String × Option Node)} {key : String}
    (h : key ∉ fields.map Prod.fst) : Node.fieldOf (Node.present fields) key = none := by
  induction fields with
  | nil => rfl
  | cons field rest ih =>
    rw [List.map_cons, List.mem_cons, not_or] at h
    rcases field with ⟨name, _ | node⟩
    · exact ih h.2
    · rw [fieldOf_present_cons, if_neg h.1, ih h.2]

private theorem writes_present (fields : List (String × Option Node))
    (h : (fields.map Prod.fst).Nodup) :
    Writes (Node.fieldOf (Node.present fields)) fields := by
  induction fields with
  | nil => exact writes_nil _
  | cons field rest ih =>
    rcases field with ⟨name, node⟩
    obtain ⟨hname, hrest⟩ := List.nodup_cons.mp h
    cases node with
    | none =>
      have hpresent : Node.present ((name, none) :: rest) = Node.present rest := rfl
      rw [hpresent]
      exact writes_cons.mpr ⟨fieldOf_present_eq_none hname, ih hrest⟩
    | some node =>
      refine writes_cons.mpr ⟨?_, fun field hf => ?_⟩
      · rw [fieldOf_present_cons, if_pos rfl]
        rfl
      · have hne : field.1 ≠ name := by
          rintro rfl
          exact hname (List.mem_map.mpr ⟨field, hf, rfl⟩)
        rw [fieldOf_present_cons, if_neg hne]
        exact ih hrest field hf

section Fields

variable {α : Type} {R : Node → α → Prop} {write : α → Node}

private theorem optionField_map {v : Option α} (h : ∀ a ∈ v, R (write a).bare a) :
    OptionField R ((v.map write).map Node.bare) v := by
  cases v with
  | none => rfl
  | some a => exact ⟨a, h a rfl, rfl⟩

private theorem isList_list {values : List α} (h : ∀ a ∈ values, R (write a).bare a) :
    IsList R (Node.list write values) values := by
  refine ⟨values.map write, rfl, ?_⟩
  rw [List.map_map, List.forall₂_map_left_iff]
  exact List.forall₂_same.mpr h

private theorem listField_writeList {values : List α} (h : ∀ a ∈ values, R (write a).bare a) :
    ListField R ((writeList write values).map Node.bare) values := by
  unfold writeList
  split
  · assumption
  · exact isList_list h

private theorem textField_writeText (s : String) : TextField ((writeText s).map Node.bare) s := by
  unfold writeText
  split
  · assumption
  · rfl

private theorem NumericRules.denoted {P : α → Prop} {look : Lookup} {rules : NumericRules α}
    (hw : Writes look (rules.fields write)) (h : rules.Each P) (hR : ∀ a, P a → R (write a).bare a)
    : rules.Denoted R look := by
  simp only [NumericRules.fields, writes_cons] at hw
  obtain ⟨hd, hc, hmin, hmax, he, _⟩ := hw
  constructor
  · rw [hd]
    exact optionField_map fun a ha => hR a (h.default a ha)
  · rw [hc]
    exact optionField_map fun a ha => hR a (h.const a ha)
  · rw [hmin]
    exact optionField_map fun a ha => hR a (h.minimum a ha)
  · rw [hmax]
    exact optionField_map fun a ha => hR a (h.maximum a ha)
  · rw [he]
    exact listField_writeList fun a ha => hR a (h.enum a ha)

end Fields

private theorem isText_text (s : String) : IsText (Node.text s).bare s := rfl

private theorem lengthFields {look : Lookup} {least most : Option Nat}
    (h : ∀ length ∈ [least, most], ∀ n ∈ length, IsWord (n : Int))
    (hl : look "minLength" = (least.map Node.length).map Node.bare)
    (hm : look "maxLength" = (most.map Node.length).map Node.bare) :
    OptionField IsLength (look "minLength") least ∧
      OptionField IsLength (look "maxLength") most := by
  rw [hl, hm]
  exact ⟨optionField_map fun n hn => isInteger_numeral (h least (by simp) n hn),
    optionField_map fun n hn => isInteger_numeral (h most (by simp) n hn)⟩

private theorem StringRules.denoted {look : Lookup} {rules : StringRules}
    (hw : Writes look rules.fields)
    (h : ∀ length ∈ [rules.minLength, rules.maxLength], ∀ n ∈ length, IsWord (n : Int)) :
    rules.Denoted look := by
  simp only [StringRules.fields, writes_cons] at hw
  obtain ⟨hd, hc, hmin, hmax, he, hk, _⟩ := hw
  obtain ⟨hleast, hmost⟩ := lengthFields h hmin hmax
  refine ⟨?_, ?_, hleast, hmost, ?_, ?_⟩
  · rw [hd]
    exact optionField_map fun s _ => isText_text s
  · rw [hc]
    exact optionField_map fun s _ => isText_text s
  · rw [he]
    exact listField_writeList fun s _ => isText_text s
  · rw [hk]
    exact listField_writeList fun s _ => isText_text s

private theorem boundField_of {applies : Bool} {node : Option Node} {bound : Option Int}
    (hnode : node = (bound.map Node.integer).map Node.bare) (hword : ∀ i ∈ bound, IsWord i)
    (hnone : applies = false → bound = none) : BoundField applies node bound := by
  subst hnode
  cases applies with
  | true => exact optionField_map fun i hi => isInteger_numeral (hword i hi)
  | false =>
    obtain rfl := hnone rfl
    exact ⟨rfl, rfl⟩

private theorem BlobRules.denoted {look : Lookup} {rules : BlobRules}
    (hw : Writes look rules.fields) (h : rules.Shaped) : rules.Denoted look := by
  simp only [BlobRules.fields, writes_cons] at hw
  obtain ⟨ha, hs, hwidth, hheight, hlength, _⟩ := hw
  obtain ⟨hsword, hwword, hhword, hlword, _⟩ := by simpa only [List.forall_mem_cons] using h.words
  have hextent :
      rules.variant.hasExtent = false → rules.maxWidth = none ∧ rules.maxHeight = none := by
    intro hv
    apply h.extent
    cases hvariant : rules.variant <;> simp [hvariant, BlobVariant.hasExtent] at hv ⊢
  have hlen : rules.variant.hasLength = false → rules.maxLength = none := by
    intro hv
    apply h.length
    cases hvariant : rules.variant <;> simp [hvariant, BlobVariant.hasLength] at hv ⊢
  refine ⟨?_, ?_, boundField_of hwidth hwword fun hv => (hextent hv).1,
    boundField_of hheight hhword fun hv => (hextent hv).2, boundField_of hlength hlword hlen⟩
  · rw [ha]
    exact listField_writeList fun s _ => isText_text s
  · rw [hs]
    exact optionField_map fun i hi => isInteger_numeral (hsword i hi)

private theorem SchemaType.leafDenoted {look : Lookup} {t : SchemaType} (ht : t.IsLeaf)
    (hs : t.Shaped) (hw : Writes look t.leafFields) : t.LeafDenoted look := by
  cases t with
  | boolean d default const =>
    simp only [SchemaType.leafFields, writes_cons] at hw
    refine ⟨?_, ?_⟩
    · rw [hw.1]
      exact optionField_map fun b _ => isBoolean_booleanText b
    · rw [hw.2.1]
      exact optionField_map fun b _ => isBoolean_booleanText b
  | number d rules => exact NumericRules.denoted hw hs fun _ => isNumber_exactText
  | integer d rules => exact NumericRules.denoted hw hs fun _ => isInteger_numeral
  | string d rules => exact StringRules.denoted hw hs
  | blob d rules => exact BlobRules.denoted hw hs
  | ref d target => exact (writes_cons.mp hw).1
  | union d targets =>
    exact ⟨_, (writes_cons.mp hw).1, isList_list fun s _ => isText_text s⟩
  | datetime | unknown | token => trivial
  | array | object | record | method => exact ht.elim

private theorem Position.allows_of_admits {position : Position} {t : SchemaType}
    (h : position.Admits t) : position.allows t.kind = true := by
  cases t with
  | object o =>
    cases position with
    | definition | schema => simp [SchemaType.kind, ObjectType.kind, h.1, Position.allows]
    | _ => exact h.elim
  | method d k m =>
    cases position with
    | definition => cases k <;> rfl
    | _ => exact h.elim
  | _ => cases position <;> first | rfl | exact h.elim

private theorem typeNode_eq_mapping (kind : Kind) (d : String)
    (fields : List (String × Option Node))
    (hn : ("type" :: "description" :: fields.map Prod.fst).Nodup) :
    ∃ entries, typeNode kind d fields = .mapping entries ∧
      Node.fieldOf entries "type" = some (.scalar .str kind.name) ∧
      TextField (Node.fieldOf entries "description") d ∧ Writes (Node.fieldOf entries) fields := by
  have hw := writes_present (("type", some (.text kind.name)) ::
    ("description", writeText d) :: fields) hn
  rw [writes_cons, writes_cons] at hw
  obtain ⟨htype, hdescription, hfields⟩ := hw
  refine ⟨_, rfl, htype, ?_, hfields⟩
  rw [hdescription]
  exact textField_writeText d

private theorem typed_typeNode {position : Position} {R : Lookup → SchemaType → Prop}
    {t : SchemaType} {fields : List (String × Option Node)} (ha : position.allows t.kind = true)
    (hn : ("type" :: "description" :: fields.map Prod.fst).Nodup)
    (hR : ∀ look, Writes look fields → R look t) :
    Typed position R (typeNode t.kind t.description fields) t := by
  obtain ⟨entries, hnode, htype, hdescription, hfields⟩ :=
    typeNode_eq_mapping t.kind t.description fields hn
  rw [hnode]
  exact .fields htype ha hdescription (hR _ hfields)

private theorem toNode_of_isLeaf {t : SchemaType} (h : t.IsLeaf) :
    t.toNode = typeNode t.kind t.description t.leafFields := by
  cases t with
  | array | object | record | method => exact h.elim
  | _ => rw [SchemaType.toNode] <;> simp

private theorem leafFields_nodup (t : SchemaType) :
    ("type" :: "description" :: t.leafFields.map Prod.fst).Nodup := by
  cases t <;>
    simp [SchemaType.leafFields, NumericRules.fields, StringRules.fields, BlobRules.fields]

private theorem typed_leaf {position : Position} {t : SchemaType} (ht : t.IsLeaf)
    (h : t.SoundAt position) :
    Typed position (fun look t => t.LeafDenoted look) t.toNode t := by
  rw [toNode_of_isLeaf ht]
  exact typed_typeNode (Position.allows_of_admits h.admitted) (leafFields_nodup t)
    fun look hw => SchemaType.leafDenoted ht (h.shaped t (.refl t)) hw

private theorem Position.isLeaf_of_admits_item {position : Position} {t : SchemaType}
    (h : position.ofItems.Admits t) : t.IsLeaf := by
  cases position <;> cases t <;> trivial

private theorem SchemaType.SoundAt.items {position : Position} {d : String} {items : SchemaType}
    {least most : Option Nat} (h : (SchemaType.array d items least most).SoundAt position) :
    items.SoundAt position.ofItems := by
  refine ⟨?_, fun u hu => h.shaped u (hu.trans (Part.inside .items))⟩
  have ha := h.admitted
  cases position <;> first | exact ha | exact ha.elim

private theorem bare_typeNode (kind : Kind) (d : String) (fields : List (String × Option Node)) :
    (typeNode kind d fields).bare = typeNode kind d fields := rfl

private theorem bare_objectNode (o : ObjectType SchemaType) :
    (objectNode o).bare = objectNode o := by
  rw [objectNode]
  exact bare_typeNode _ _ _

private theorem bare_toNode (t : SchemaType) : t.toNode.bare = t.toNode := by
  by_cases hleaf : t.IsLeaf
  · rw [toNode_of_isLeaf hleaf]
    exact bare_typeNode _ _ _
  cases t with
  | object o =>
    rw [SchemaType.toNode]
    exact bare_objectNode o
  | array | record | method =>
    rw [SchemaType.toNode]
    exact bare_typeNode _ _ _
  | _ => exact absurd trivial hleaf

private theorem Typed.imp {position : Position} {R S : Lookup → SchemaType → Prop} {node : Node}
    {t : SchemaType} (h : Typed position R node t) (hR : ∀ look, R look t → S look t) :
    Typed position S node t := by
  cases h with
  | ref hs => exact .ref hs
  | union hs hl => exact .union hs hl
  | fields hk ha hd hf => exact .fields hk ha hd (hR _ hf)

private theorem typed_shallow {position : Position} {t : SchemaType} (hobject : ∀ o, t ≠ .object o)
    (hprincipal : ¬ t.IsPrincipal) (h : t.SoundAt position) :
    Typed position (fun look t => t.ShallowDenoted position look) t.toNode t := by
  by_cases hleaf : t.IsLeaf
  · refine (typed_leaf hleaf h).imp fun look hl => ?_
    cases t with
    | array => exact hleaf.elim
    | _ => exact hl
  cases t with
  | array d items least most =>
    have ha := Position.allows_of_admits h.admitted
    rw [SchemaType.toNode]
    refine typed_typeNode (t := .array d items least most) ha (by simp) fun look hw => ?_
    simp only [writes_cons, Option.map_some, bare_toNode] at hw
    obtain ⟨hitems, hl, hm, _⟩ := hw
    have hleaf := Position.isLeaf_of_admits_item h.items.admitted
    exact ⟨⟨_, hitems, typed_leaf hleaf h.items⟩, lengthFields (h.shaped _ (.refl _)) hl hm⟩
  | object o => exact absurd rfl (hobject o)
  | record | method => exact absurd trivial hprincipal
  | _ => exact absurd trivial hleaf

private theorem typed_member {params : Bool} {t : SchemaType}
    (h : t.SoundAt (memberPosition params)) :
    Typed (memberPosition params) (fun look t => t.ShallowDenoted (memberPosition params) look)
      t.toNode t := by
  have ha := h.admitted
  refine typed_shallow ?_ ?_ h
  · rintro o rfl
    cases params <;> exact ha
  · intro hp
    cases t with
    | record | method => cases params <;> exact ha
    | _ => exact hp

private theorem textEntries_propertyEntries (properties : List (Property SchemaType)) :
    Node.textEntries (propertyEntries properties) =
      properties.map fun p => (p.name, p.type.toNode) := by
  induction properties with
  | nil => simp [propertyEntries, Node.textEntries]
  | cons p rest ih =>
    rcases p with ⟨name, type⟩
    simp only [Node.textEntries] at ih
    simp [propertyEntries, Node.textEntries, bare_toNode, ih]

private def objectFields (o : ObjectType SchemaType) : List (String × Option Node) :=
  [("required", writeList .text o.required),
   ("properties", some (.mapping (propertyEntries o.properties)))]

private theorem objectNode_eq (o : ObjectType SchemaType) :
    objectNode o = typeNode o.kind o.description (objectFields o) := by
  rcases o with ⟨d, required, properties, params⟩
  rw [objectNode]
  rfl

private theorem object_denoted {look : Lookup} {o : ObjectType SchemaType}
    (hw : Writes look (objectFields o)) (hn : (o.properties.map Property.name).Nodup)
    (h : ∀ p ∈ o.properties, p.type.SoundAt (memberPosition o.params)) : o.Denoted look := by
  simp only [objectFields, writes_cons] at hw
  obtain ⟨hr, hp, _⟩ := hw
  refine ⟨?_, Or.inr ⟨_, hp, ?_, ?_⟩⟩
  · rw [hr]
    exact listField_writeList fun s _ => isText_text s
  · rw [textEntries_propertyEntries, List.map_map]
    exact hn
  · rw [textEntries_propertyEntries, List.forall₂_map_left_iff, List.forall₂_same]
    exact fun p hm => ⟨rfl, typed_member (h p hm)⟩

private theorem ObjectType.members_soundAt {o : ObjectType SchemaType} (h : o.IsParameters)
    (hs : ∀ u : SchemaType, u.Inside (.object o) → u.Shaped) :
    ∀ p ∈ o.properties, p.type.SoundAt (memberPosition o.params) := by
  intro p hp
  refine ⟨?_, fun u hu => hs u (hu.trans (SchemaType.Part.inside (.property hp)))⟩
  rcases h with ⟨hparams, hm⟩ | ⟨hparams, hm⟩ <;> rw [hparams] <;> exact hm p hp

private theorem objectNode_denotes {kinds : List Kind} {o : ObjectType SchemaType}
    (hk : o.kind ∈ kinds) (h : o.IsParameters)
    (hs : ∀ u : SchemaType, u.Inside (.object o) → u.Shaped) :
    ObjectNode kinds (objectNode o) o := by
  obtain ⟨entries, hnode, htype, hdescription, hfields⟩ :=
    typeNode_eq_mapping o.kind o.description (objectFields o) (by simp [objectFields])
  rw [objectNode_eq, hnode]
  exact ⟨entries, rfl, hk, htype, hdescription,
    object_denoted hfields (hs _ (.refl _)) (o.members_soundAt h hs)⟩

private theorem typed_object {position : Position} {R : Lookup → SchemaType → Prop}
    {o : ObjectType SchemaType} (hR : ∀ look, o.Denoted look → R look (.object o)) (h : o.IsPlain)
    (hs : (SchemaType.object o).SoundAt position) :
    Typed position R (SchemaType.object o).toNode (.object o) := by
  rw [SchemaType.toNode, objectNode_eq]
  refine typed_typeNode (t := .object o) (Position.allows_of_admits hs.admitted)
    (by simp [objectFields]) fun look hw => hR look ?_
  exact object_denoted hw (hs.shaped _ (.refl _)) (o.members_soundAt (Or.inl h) hs.shaped)

private theorem typed_schema {t : SchemaType} (h : t.SoundAt .schema) :
    Typed .schema (fun look t => t.SchemaDenoted look) t.toNode t := by
  have ha := h.admitted
  cases t with
  | object o => exact typed_object (fun look ho => ho) ha h
  | ref d target => exact (typed_leaf (t := .ref d target) trivial h).imp fun look hl => hl
  | union d targets => exact (typed_leaf (t := .union d targets) trivial h).imp fun look hl => hl
  | _ => exact ha.elim

private theorem encodingField_toNode? {encoding : Encoding} (h : encoding.Shaped) :
    EncodingField (encoding.toNode?.map Node.bare) encoding := by
  rcases encoding with ⟨values, multi⟩
  cases multi with
  | true =>
    obtain ⟨hne, hn⟩ := h
    exact Or.inr ⟨values, hne, isList_list fun s _ => isText_text s, by rw [distinct_eq_self hn]⟩
  | false =>
    rcases values with _ | ⟨value, _ | ⟨second, rest⟩⟩
    · rfl
    · exact Or.inl ⟨value, rfl, rfl⟩
    · simp [Encoding.Shaped] at h

private theorem bodyField_bodyNode? {body : Option (Body SchemaType)}
    (h : ∀ b ∈ body, b.encoding.Shaped ∧ ∀ schema ∈ b.schema, schema.SoundAt .schema) :
    OptionField BodyNode ((bodyNode? body).map Node.bare) body := by
  rcases body with _ | ⟨d, encoding, schema⟩
  · simp [bodyNode?, OptionField]
  · obtain ⟨he, hs⟩ := h _ rfl
    have hw := writes_present [("description", writeText d), ("encoding", encoding.toNode?),
      ("schema", schemaNode? schema)] (by simp)
    simp only [writes_cons] at hw
    obtain ⟨hdescription, hencoding, hschema, _⟩ := hw
    rw [bodyNode?]
    refine ⟨_, ⟨_, rfl, ?_, ?_, ?_⟩, rfl⟩
    · rw [hdescription]
      exact textField_writeText d
    · rw [hencoding]
      exact encodingField_toNode? he
    · rw [hschema]
      cases schema with
      | none => simp [schemaNode?, OptionField]
      | some t =>
        rw [schemaNode?, Option.map_some, bare_toNode]
        exact ⟨t, typed_schema (hs t rfl), rfl⟩

private theorem errorNode_toNode (error : NamedError) : ErrorNode error.toNode.bare error := by
  have hw := writes_present [("name", some (.text error.name)),
    ("description", writeText error.description)] (by simp)
  simp only [writes_cons] at hw
  obtain ⟨hname, hdescription, _⟩ := hw
  refine ⟨_, rfl, hname, ?_⟩
  rw [hdescription]
  exact textField_writeText error.description

private theorem Method.bodies_soundAt {d : String} {kind : MethodKind} {m : Method SchemaType}
    (h : (SchemaType.method d kind m).SoundAt .definition) :
    ∀ b ∈ m.bodies, b.encoding.Shaped ∧ ∀ schema ∈ b.schema, schema.SoundAt .schema := by
  have hshaped : m.Shaped kind := h.shaped _ (.refl _)
  intro b hb
  refine ⟨hshaped.encodings b hb, fun schema hs => ⟨h.admitted.2 b hb schema hs, fun u hu => ?_⟩⟩
  refine h.shaped u (hu.trans ?_)
  simp only [Method.bodies, List.mem_append, Option.mem_toList] at hb
  rcases hb with hb | hb
  · exact SchemaType.Part.inside (.input hb hs)
  · exact SchemaType.Part.inside (.output hb hs)

private theorem typed_method {d : String} {kind : MethodKind} {m : Method SchemaType}
    (h : (SchemaType.method d kind m).SoundAt .definition) :
    Typed .definition (fun look t => t.DefinitionDenoted look) (SchemaType.method d kind m).toNode
      (.method d kind m) := by
  have ha := Position.allows_of_admits h.admitted
  have hparameters := h.admitted.1
  have hshaped : m.Shaped kind := h.shaped _ (.refl _)
  obtain ⟨hinput, houtput⟩ := Method.forall_bodies.mp (Method.bodies_soundAt h)
  have hinside : ∀ o, m.parameters = some o →
      ∀ u : SchemaType, u.Inside (.object o) → u.Shaped :=
    fun o ho u hu => h.shaped u (hu.trans (SchemaType.Part.inside (.parameters ho)))
  rcases m with ⟨parameters, input, output, errors⟩
  rw [SchemaType.toNode]
  refine typed_typeNode (t := .method d kind ⟨parameters, input, output, errors⟩) ha (by simp)
    fun look hw => ?_
  simp only [writes_cons] at hw
  obtain ⟨hp, hi, ho, he, _⟩ := hw
  refine ⟨?_, ?_, ?_, ?_, hshaped.errors⟩
  · rw [hp]
    cases parameters with
    | none => simp [parametersNode?, OptionField]
    | some o =>
      rw [parametersNode?, Option.map_some, bare_objectNode]
      refine ⟨o, objectNode_denotes ?_ (hparameters o rfl) (hinside o rfl), rfl⟩
      cases hp : o.params <;> simp [ObjectType.kind, hp]
  · cases kind with
    | query => exact hshaped.input rfl
    | procedure =>
      simp only [reduceCtorEq, if_false, hi]
      exact bodyField_bodyNode? hinput
  · rw [ho]
    exact bodyField_bodyNode? houtput
  · rw [he]
    exact listField_writeList fun error _ => errorNode_toNode error

private theorem typed_definition {t : SchemaType} (h : t.SoundAt .definition) :
    Typed .definition (fun look t => t.DefinitionDenoted look) t.toNode t := by
  cases t with
  | object o => exact typed_object (fun look ho => ho) h.admitted h
  | record d key payload =>
    rw [SchemaType.toNode]
    refine typed_typeNode (t := .record d key payload) (Position.allows_of_admits h.admitted)
      (by simp) fun look hw => ?_
    simp only [writes_cons, Option.map_some, bare_objectNode] at hw
    obtain ⟨hkey, hrecord, _⟩ := hw
    have hplain : payload.IsPlain := h.admitted
    refine ⟨?_, _, hrecord, objectNode_denotes ?_ (Or.inl hplain) fun u hu =>
      h.shaped u (hu.trans (SchemaType.Part.inside .payload))⟩
    · rw [hkey]
      exact textField_writeText key
    · exact List.mem_singleton.mpr ((payload.kind_eq_iff false).mpr hplain.1)
  | method d kind m => exact typed_method h
  | _ => exact (typed_shallow (by simp) id h).imp fun look hs => hs

/-- A valid document is denoted by its canonical tree. -/
theorem Draft.WellFormed.denotes_toNode {d : Draft} (h : d.WellFormed) : d.toNode.Denotes d := by
  have hw := writes_present
    [("lexicon", some (.integer d.version)), ("id", some (.text d.id)),
     ("revision", d.revision.map .integer), ("description", writeText d.description),
     ("defs", some (.mapping (d.defs.map Definition.toEntry)))] (by simp)
  simp only [writes_cons] at hw
  obtain ⟨hversion, hid, hrevision, hdescription, hdefs, _⟩ := hw
  have hentries : Node.textEntries (d.defs.map Definition.toEntry) =
      d.defs.map fun x => (x.name, x.type.toNode) := by
    simp [Node.textEntries, Definition.toEntry, bare_toNode]
  refine ⟨_, rfl, ⟨some 1, ?_, h.version⟩, ?_, ?_, ?_, _, hdefs, ?_, ?_⟩
  · rw [hversion, h.version]
    exact ⟨1, isInteger_numeral ((isWord_iff_fitsSigned 1).mpr rfl), rfl⟩
  · rw [hid]
    exact isText_text d.id
  · rw [hrevision]
    exact optionField_map fun i hi => isInteger_numeral (h.revision i hi)
  · rw [hdescription]
    exact textField_writeText d.description
  · rw [hentries, List.map_map]
    exact h.distinct
  · rw [hentries, List.forall₂_map_left_iff, List.forall₂_same]
    intro x hx
    have hx := h.defs x hx
    exact ⟨rfl, typed_definition ⟨hx.legal, fun u hu => (hx.valid u hu).shaped⟩⟩

private theorem readItems_texts (path : String) (index : Nat) (targets : List String) :
    readItems readString path index ((targets.map Node.text).map Node.bare) = pure targets := by
  induction targets generalizing index with
  | nil => rfl
  | cons target rest ih =>
    simp only [List.map_cons, readItems, ih]
    rfl

/-- The places with shorthands, and how types are read there. -/
def shorthandReaders : List (Position × KindReader) :=
  [(.property, readShallow .property), (.item, readLeaf), (.schema, readSchema)]

theorem readTyped_text {place : Position × KindReader} (h : place ∈ shorthandReaders)
    (target path : String) :
    readTyped place.1 place.2 (.text target) path = pure (some (.ref "" target)) ∧
      readTyped place.1 place.2 (SchemaType.ref "" target).toNode path =
        pure (some (.ref "" target)) := by
  simp only [shorthandReaders, List.mem_cons, List.not_mem_nil, or_false] at h
  rcases h with rfl | rfl | rfl <;> exact ⟨rfl, rfl⟩

theorem readTyped_list {place : Position × KindReader} (h : place ∈ shorthandReaders)
    (targets : List String) (path : String) :
    readTyped place.1 place.2 (.list .text targets) path = pure (some (.union "" targets)) ∧
      readTyped place.1 place.2 (SchemaType.union "" targets).toNode path =
        pure (some (.union "" targets)) := by
  have hread (path : String) : readStrings (.list .text targets) path = pure targets :=
    readItems_texts path 0 targets
  have hunion (f : Fields) (hf : f.get? "refs" = some (.list .text targets)) :
      readUnion f "" = pure (some (.union "" targets)) := by
    simp only [readUnion, Fields.strings, hf, hread]
    rfl
  simp only [shorthandReaders, List.mem_cons, List.not_mem_nil, or_false] at h
  constructor
  · have hs : place.1.shorthand = true := by rcases h with rfl | rfl | rfl <;> rfl
    have hshort : readTyped place.1 place.2 (.list .text targets) path =
        (do return some (.union "" (← readStrings (.list .text targets) path))) := by
      rw [Node.list, readTyped]
      exact hs
    rw [hshort, hread]
    rfl
  · have hlong : readTyped place.1 place.2 (SchemaType.union "" targets).toNode path =
        readUnion ⟨[("type", .text "union"), ("refs", .list .text targets)], path⟩ "" := by
      rcases h with rfl | rfl | rfl <;> rfl
    rw [hlong]
    exact hunion _ rfl

end LexiconCompiler
