import LexiconCompiler.Proofs.Address
import LexiconCompiler.Proofs.Schema.Checks
import LexiconCompiler.Proofs.Schema.Denotation
import LexiconCompiler.Proofs.Schema.Scalars
import LexiconCompiler.Schema.Reader

set_option autoImplicit false
set_option relaxedAutoImplicit false

/-!
What was read stands where it may and is well shaped, at every depth. With the checks this makes
every document that a tree describes a valid one, and a tree describes a document exactly if it
denotes a valid one.
-/

namespace LexiconCompiler

open LexiconCompiler.Markup LexiconCompiler.Text

def Position.Admits : Position -> SchemaType -> Prop
  | .definition, t => t.IsDefinition
  | .property, t => t.IsProperty
  | .item, t => t.IsItem
  | .parameter, t => t.IsParameter
  | .parameterItem, t => t.IsPrimitive
  | .schema, t => t.IsSchema

/-- A type stands where it may, and every type in it is well shaped. -/
structure SchemaType.SoundAt (position : Position) (t : SchemaType) : Prop where
  admitted : position.Admits t
  shaped : ∀ u : SchemaType, u.Inside t → u.Shaped

section Fields

variable {α β : Type} {R : Node → α → Prop} {P : α → Prop}

theorem exists_of_forall₂_mem {S : β → α → Prop} {xs : List β} {ys : List α}
    (h : List.Forall₂ S xs ys) {y : α} (hy : y ∈ ys) : ∃ x ∈ xs, S x y := by
  induction h with
  | nil => cases hy
  | cons hxy hrest ih =>
    rcases List.mem_cons.mp hy with rfl | hy
    · exact ⟨_, List.mem_cons_self, hxy⟩
    · obtain ⟨x, hx, hs⟩ := ih hy
      exact ⟨x, List.mem_cons_of_mem _ hx, hs⟩

private theorem OptionField.forall_mem {node : Option Node} {v : Option α}
    (h : OptionField R node v) (hR : ∀ node a, R node a → P a) : ∀ a ∈ v, P a := by
  intro a ha
  cases node with
  | none => simp_all [OptionField]
  | some node =>
    obtain ⟨b, hb, rfl⟩ := h
    obtain rfl : b = a := by simpa using ha
    exact hR node b hb

private theorem ListField.forall_mem {node : Option Node} {values : List α}
    (h : ListField R node values) (hR : ∀ node a, R node a → P a) : ∀ a ∈ values, P a := by
  cases node with
  | none => simp_all [ListField]
  | some node =>
    obtain ⟨items, rfl, hf⟩ := h
    intro a ha
    obtain ⟨item, _, hr⟩ := exists_of_forall₂_mem hf ha
    exact hR item a hr

private theorem NumericRules.Denoted.each {look : Lookup} {rules : NumericRules α}
    (h : rules.Denoted R look) (hR : ∀ node a, R node a → P a) : rules.Each P :=
  ⟨h.default.forall_mem hR, h.const.forall_mem hR, h.minimum.forall_mem hR,
    h.maximum.forall_mem hR, h.enum.forall_mem hR⟩

end Fields

private theorem lengths_isWord {look : Lookup} {least most : Option Nat}
    (hl : OptionField IsLength (look "minLength") least)
    (hm : OptionField IsLength (look "maxLength") most) :
    ∀ length ∈ [least, most], ∀ n ∈ length, IsWord (n : Int) := by
  have hword : ∀ node (n : Nat), IsLength node n → IsWord (n : Int) :=
    fun node n h => IsInteger.isWord h
  intro length hlength
  simp only [List.mem_cons, List.not_mem_nil, or_false] at hlength
  rcases hlength with rfl | rfl
  · exact hl.forall_mem hword
  · exact hm.forall_mem hword

private theorem BoundField.isWord {applies : Bool} {node : Option Node} {bound : Option Int}
    (h : BoundField applies node bound) : ∀ i ∈ bound, IsWord i := by
  unfold BoundField at h
  split at h
  · exact h.forall_mem fun _ _ => IsInteger.isWord
  · simp [h.2]

private theorem BlobRules.Denoted.shaped {look : Lookup} {rules : BlobRules}
    (h : rules.Denoted look) :
    rules.Shaped where
  words := by
    simp only [List.forall_mem_cons]
    exact ⟨h.maxSize.forall_mem fun _ _ => IsInteger.isWord, h.maxWidth.isWord, h.maxHeight.isWord,
      h.maxLength.isWord, by simp⟩
  extent := by
    intro hv
    have hw := h.maxWidth
    have hh := h.maxHeight
    rcases hv with hv | hv <;> rw [hv] at hw hh <;> exact ⟨hw.2, hh.2⟩
  length := by
    intro hv
    have hl := h.maxLength
    rcases hv with hv | hv <;> rw [hv] at hl <;> exact hl.2

private theorem SchemaType.LeafDenoted.shaped {look : Lookup} {t : SchemaType}
    (h : t.LeafDenoted look) :
    t.IsLeaf ∧ t.Shaped := by
  cases t with
  | number d rules => exact ⟨trivial, NumericRules.Denoted.each h fun _ _ => IsNumber.canonical⟩
  | integer d rules => exact ⟨trivial, NumericRules.Denoted.each h fun _ _ => IsInteger.isWord⟩
  | string d rules => exact ⟨trivial, lengths_isWord h.minLength h.maxLength⟩
  | blob d rules => exact ⟨trivial, BlobRules.Denoted.shaped h⟩
  | array | object | record | method => exact h.elim
  | _ => exact ⟨trivial, trivial⟩

private theorem Position.admits_of_isLeaf {position : Position} {t : SchemaType} (ht : t.IsLeaf)
    (h : position.allows t.kind = true) : position.Admits t := by
  cases t with
  | array | object | record | method => exact ht.elim
  | _ => cases position <;> trivial

private theorem SchemaType.LeafDenoted.soundAt {position : Position} (look : Lookup)
    {t : SchemaType} (h : t.LeafDenoted look) (ha : position.allows t.kind = true) :
    t.SoundAt position :=
  ⟨Position.admits_of_isLeaf h.shaped.1 ha, h.shaped.1.forall_inside_iff.mpr h.shaped.2⟩

private theorem Typed.soundAt {position : Position} {R : Lookup → SchemaType → Prop} {node : Node}
    {t : SchemaType} (h : Typed position R node t)
    (hR : ∀ look, position.allows t.kind = true → R look t → t.SoundAt position) :
    t.SoundAt position := by
  have hallows : position.shorthand = true →
      position.allows .ref = true ∧ position.allows .union = true := by
    cases position <;> decide
  cases h with
  | @ref target hs =>
    have hleaf : (SchemaType.ref "" target).IsLeaf := trivial
    exact ⟨Position.admits_of_isLeaf hleaf (hallows hs).1, hleaf.forall_inside_iff.mpr trivial⟩
  | @union items targets hs _ =>
    have hleaf : (SchemaType.union "" targets).IsLeaf := trivial
    exact ⟨Position.admits_of_isLeaf hleaf (hallows hs).2, hleaf.forall_inside_iff.mpr trivial⟩
  | fields _ ha _ ht => exact hR _ ha ht

private theorem SchemaType.ShallowDenoted.soundAt {position : Position} (look : Lookup)
    {t : SchemaType} (h : t.ShallowDenoted position look) (ha : position.allows t.kind = true) :
    t.SoundAt position := by
  cases t with
  | array d items least most =>
    obtain ⟨⟨node, _, hitems⟩, hl, hm⟩ := h
    have hs : items.SoundAt position.ofItems :=
      hitems.soundAt fun look ha ht => ht.soundAt look ha
    refine ⟨?_, ?_⟩
    · cases position <;> first | exact hs.admitted | cases ha
    · rw [SchemaType.forall_inside_iff]
      refine ⟨lengths_isWord hl hm, ?_⟩
      simpa using hs.shaped
  | _ => exact SchemaType.LeafDenoted.soundAt look h ha

private theorem Member.soundAt {position : Position} {entry : String × Node}
    {p : Property SchemaType} (h : Member position entry p) : p.type.SoundAt position :=
  h.2.soundAt fun look ha ht => ht.soundAt look ha

private theorem nodup_of_forall₂ {α : Type} {R : String × Node → α → Prop} {name : α → String}
    {entries : List (String × Node)} {values : List α} (h : List.Forall₂ R entries values)
    (hR : ∀ entry value, R entry value → name value = entry.1) (hn : (entries.map Prod.fst).Nodup) :
    (values.map name).Nodup := by
  have heq : List.Forall₂ (· = ·) (entries.map Prod.fst) (values.map name) := by
    rw [List.forall₂_map_left_iff, List.forall₂_map_right_iff]
    exact h.imp fun entry value hr => (hR entry value hr).symm
  rw [List.forall₂_eq_eq_eq] at heq
  exact heq ▸ hn

private theorem ObjectType.Denoted.members {look : Lookup} {o : ObjectType SchemaType}
    (h : o.Denoted look) : ∀ p ∈ o.properties, p.type.SoundAt (memberPosition o.params) := by
  rcases h.properties with ⟨_, _, hp⟩ | ⟨entries, _, _, hf⟩
  · simp [hp]
  · intro p hp
    obtain ⟨entry, _, hm⟩ := exists_of_forall₂_mem hf hp
    exact hm.soundAt

private theorem ObjectType.Denoted.shaped {look : Lookup} {o : ObjectType SchemaType}
    (h : o.Denoted look) : ∀ u : SchemaType, u.Inside (.object o) → u.Shaped := by
  rw [SchemaType.forall_inside_iff]
  constructor
  · rcases h.properties with ⟨_, _, hp⟩ | ⟨entries, _, hn, hf⟩
    · simp [SchemaType.Shaped, hp]
    · exact nodup_of_forall₂ hf (fun _ _ hm => hm.1) hn
  · intro u hu
    obtain ⟨p, hp, rfl⟩ := SchemaType.part_object.mp hu
    exact (h.members p hp).shaped

private theorem ObjectType.Denoted.isPlain {look : Lookup} {o : ObjectType SchemaType}
    (h : o.Denoted look) (hp : o.params = false) : o.IsPlain := by
  refine ⟨hp, fun p hm => ?_⟩
  have hs := (h.members p hm).admitted
  rw [hp] at hs
  exact hs

private theorem ObjectNode.isPlain {node : Node} {o : ObjectType SchemaType}
    (h : ObjectNode [.object] node o) : o.IsPlain := by
  obtain ⟨entries, _, hk, _, _, ho⟩ := h
  exact ho.isPlain ((o.kind_eq_iff false).mp (List.mem_singleton.mp hk))

private theorem ObjectNode.isParameters {node : Node} {o : ObjectType SchemaType}
    (h : ObjectNode [.params, .object] node o) : o.IsParameters := by
  obtain ⟨entries, _, _, _, _, ho⟩ := h
  cases hp : o.params with
  | false => exact Or.inl (ho.isPlain hp)
  | true =>
    refine Or.inr ⟨hp, fun p hm => ?_⟩
    have hs := (ho.members p hm).admitted
    rw [hp] at hs
    exact hs

private theorem ObjectNode.shaped {kinds : List Kind} {node : Node} {o : ObjectType SchemaType}
    (h : ObjectNode kinds node o) : ∀ u : SchemaType, u.Inside (.object o) → u.Shaped := by
  obtain ⟨entries, _, _, _, _, ho⟩ := h
  exact ho.shaped

private theorem SchemaType.SchemaDenoted.soundAt {look : Lookup} {t : SchemaType}
    (h : t.SchemaDenoted look) (ha : Position.schema.allows t.kind = true) : t.SoundAt .schema := by
  cases t with
  | object o =>
    have ho : o.Denoted look := h
    refine ⟨ho.isPlain ?_, ho.shaped⟩
    cases hp : o.params with
    | false => rfl
    | true => simp [SchemaType.kind, ObjectType.kind, hp, Position.allows] at ha
  | _ => exact SchemaType.LeafDenoted.soundAt look h ha

private theorem EncodingField.shaped {node : Option Node} {encoding : Encoding}
    (h : EncodingField node encoding) : encoding.Shaped := by
  cases node with
  | none =>
    obtain rfl : encoding = .zero := h
    simp [Encoding.Shaped, Encoding.zero]
  | some node =>
    rcases h with ⟨value, _, rfl⟩ | ⟨values, hne, _, rfl⟩
    · simp [Encoding.Shaped]
    · simp [Encoding.Shaped, distinct_ne_nil hne, nodup_distinct values]

private theorem BodyNode.shaped {node : Node} {body : Body SchemaType} (h : BodyNode node body) :
    body.encoding.Shaped ∧ ∀ schema ∈ body.schema, schema.SoundAt .schema := by
  obtain ⟨entries, _, _, he, hs⟩ := h
  exact ⟨he.shaped, hs.forall_mem fun node t ht => ht.soundAt fun _ ha hd => hd.soundAt ha⟩

private theorem Method.Denoted.soundAt {look : Lookup} {kind : MethodKind} {m : Method SchemaType}
    (h : m.Denoted look kind) (d : String) : (SchemaType.method d kind m).SoundAt .definition := by
  have hinput := h.input.forall_mem fun _ _ => BodyNode.shaped
  have houtput := h.output.forall_mem fun _ _ => BodyNode.shaped
  have hbodies : ∀ body ∈ m.bodies,
      body.encoding.Shaped ∧ ∀ schema ∈ body.schema, schema.SoundAt .schema :=
    Method.forall_bodies.mpr ⟨hinput, houtput⟩
  have hnone : kind = .query → m.input = none := by
    rintro rfl
    exact h.input
  refine ⟨⟨h.parameters.forall_mem fun _ _ => ObjectNode.isParameters, ?_⟩, ?_⟩
  · exact fun body hb schema hs => ((hbodies body hb).2 schema hs).admitted
  · rw [SchemaType.forall_inside_iff]
    refine ⟨⟨hnone, fun body hb => (hbodies body hb).1, h.distinct⟩, fun u hu => ?_⟩
    rcases SchemaType.part_method.mp hu with ⟨o, ho, rfl⟩ | ⟨b, hb, hs⟩ | ⟨b, hb, hs⟩
    · exact h.parameters.forall_mem (fun _ _ => ObjectNode.shaped) o ho
    · exact ((hinput b hb).2 u hs).shaped
    · exact ((houtput b hb).2 u hs).shaped

private theorem SchemaType.DefinitionDenoted.soundAt {look : Lookup} {t : SchemaType}
    (h : t.DefinitionDenoted look) (ha : Position.definition.allows t.kind = true) :
    t.SoundAt .definition := by
  cases t with
  | object o =>
    have ho : o.Denoted look := h
    refine ⟨ho.isPlain ?_, ho.shaped⟩
    cases hp : o.params with
    | false => rfl
    | true => simp [SchemaType.kind, ObjectType.kind, hp, Position.allows] at ha
  | record d key payload =>
    obtain ⟨_, node, _, hn⟩ := h
    refine ⟨hn.isPlain, ?_⟩
    rw [SchemaType.forall_inside_iff]
    refine ⟨trivial, ?_⟩
    simpa using hn.shaped
  | method d kind m => exact Method.Denoted.soundAt h d
  | _ => exact SchemaType.ShallowDenoted.soundAt look h ha

/-- What the readers establish of a document. -/
structure Draft.Read (d : Draft) : Prop where
  revision : ∀ r ∈ d.revision, IsWord r
  distinct : (d.defs.map Definition.name).Nodup
  defs : ∀ definition ∈ d.defs, definition.type.SoundAt .definition

private theorem Draft.Denoted.read {look : Lookup} {d : Draft} (h : d.Denoted look) : d.Read := by
  obtain ⟨entries, _, hn, hf⟩ := h.defs
  refine ⟨h.revision.forall_mem fun _ _ => IsInteger.isWord,
    nodup_of_forall₂ hf (fun _ _ hd => hd.1) hn, fun definition hd => ?_⟩
  obtain ⟨entry, _, hentry⟩ := exists_of_forall₂_mem hf hd
  exact hentry.2.soundAt fun _ ha ht => ht.soundAt ha

private theorem Draft.Read.check_issues_eq_nil {d : Draft} (h : d.Read) :
    d.check.issues = [] ↔ d.WellFormed := by
  rw [Draft.check_issues_eq_nil]
  constructor
  · rintro ⟨hv, hid, hne, hdefs⟩
    refine ⟨hv, hid, h.revision, hne, h.distinct, fun x hx => ?_⟩
    have hc := hdefs x hx
    have hs := h.defs x hx
    exact ⟨hc.name, hs.admitted, hc.placed,
      fun t ht => ⟨hs.shaped t ht, hc.named t ht, hc.coherent t ht⟩⟩
  · intro hw
    refine ⟨hw.version, hw.id, hw.nonempty, fun x hx => ?_⟩
    have hx := hw.defs x hx
    exact ⟨hx.name, hx.placed, fun t ht => (hx.valid t ht).named,
      fun t ht => (hx.valid t ht).coherent⟩

/-- A review finds nothing exactly if the tree denotes a valid document. -/
private theorem reviewDraft_issues_eq_nil (node : Node) :
    (reviewDraft node).issues = [] ↔
      node.Denotes (readDraft node).value ∧ (readDraft node).value.WellFormed := by
  have hread : (readDraft node).issues = [] ↔ node.Denotes (readDraft node).value := by
    rw [← yields_readDraft]
    exact ⟨fun h => ⟨h, rfl⟩, fun h => h.1⟩
  unfold reviewDraft
  by_cases hi : (readDraft node).issues = []
  · obtain ⟨entries, hnode, hd⟩ := hread.mp hi
    simp only [hi, List.isEmpty_nil, if_true, hd.read.check_issues_eq_nil]
    exact (and_iff_right (hread.mp hi)).symm
  · have hne : ¬ node.Denotes (readDraft node).value := fun h => hi (hread.mpr h)
    simp [hi, hne]

private theorem reviewDraft_value (node : Node) : (reviewDraft node).value =
    (readDraft node).value := by
  simp only [reviewDraft]
  split <;> rfl

/-- A tree describes a document exactly if it denotes a valid one; the document keeps the parsed
identifier, the tree and the warnings of the review, and comes from nowhere in particular. -/
theorem Document.ofNode_eq_ok_iff (node : Node) (document : Document) :
    Document.ofNode node = .ok document ↔
      node.Denotes document.toDraft ∧ document.toDraft.WellFormed ∧ document.source = "" ∧
        document.warnings = (reviewDraft node).warnings ∧
        Nsid.parse document.id = .ok document.nsid ∧ document.raw = node := by
  simp only [Document.ofNode]
  constructor
  · intro h
    split at h
    · rename_i nsid hi hn
      obtain rfl := Except.ok.inj h
      rw [reviewDraft_issues_eq_nil, ← reviewDraft_value] at hi
      exact ⟨hi.1, hi.2, rfl, rfl, hn, rfl⟩
    · cases h
  · rcases document with ⟨d, source, warnings, nsid, raw⟩
    rintro ⟨hd, hw, hsource, hwarnings, hn, hraw⟩
    simp only at hd hw hsource hwarnings hn hraw
    obtain rfl : (readDraft node).value = d := ((yields_readDraft node d).mpr hd).2
    have hi := (reviewDraft_issues_eq_nil node).mpr ⟨hd, hw⟩
    subst hsource hwarnings hraw
    rw [← reviewDraft_value] at hn ⊢
    simp only [hi, hn]

end LexiconCompiler
