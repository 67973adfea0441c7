import LexiconCompiler.Proofs.Schema.Shuffled
import LexiconCompiler.Proofs.Schema.Slots

set_option autoImplicit false
set_option relaxedAutoImplicit false

/-!
Trees that say the same denote the same, up to the order of definitions and properties. Each
relation between a tree and a value is carried along, from scalars up to documents.
-/

namespace LexiconCompiler

open LexiconCompiler.Markup LexiconCompiler.Text

/-- Two mappings say the same under the keys of a list. -/
def SameFields (fields : List (String × Slot)) (look other : Lookup) : Prop :=
  ∀ key next, fields.lookup key = some next →
    Option.Rel (Node.Same next) (look key) (other key)

section Values

variable {α : Type} {R : Node → α → Prop} {slot : Slot} {node other : Node}

/-- A relation between scalars and values. -/
def OfScalars (R : Node → α → Prop) : Prop :=
  ∀ node a, R node a → ∃ tag text, node = .scalar tag text

private theorem OfScalars.same (hR : OfScalars R) {a : α} (h : R node a)
    (hsame : Node.Same slot node other) : R other a := by
  obtain ⟨tag, text, rfl⟩ := hR node a h
  rwa [hsame.scalar]

private theorem ofScalars_isText : OfScalars IsText := fun _ text h => ⟨.str, text, h⟩

private theorem ofScalars_isBoolean :
    OfScalars IsBoolean := fun _ _ ⟨text, h, _⟩ => ⟨.bool, text, h⟩

private theorem ofScalars_isInteger : OfScalars IsInteger := by
  intro node i h
  cases node with
  | scalar tag text => exact ⟨tag, text, rfl⟩
  | _ => simp [IsInteger, integerOf?] at h

private theorem ofScalars_isLength : OfScalars IsLength := fun node n => ofScalars_isInteger node n

private theorem ofScalars_isNumber : OfScalars IsNumber := by
  intro node x h
  cases node with
  | scalar tag text => exact ⟨tag, text, rfl⟩
  | _ => simp [IsNumber, LexiconCompiler.numberOf?] at h

end Values

section Fields

private theorem rel_some {R : Node → Node → Prop} {node : Node} {y : Option Node}
    (h : Option.Rel R (some node) y) : ∃ tree, y = some tree ∧ R node tree := by
  cases h with
  | some hnode => exact ⟨_, rfl, hnode⟩

private theorem rel_scalar {slot : Slot} {tag : Tag} {text : String} {x y : Option Node}
    (hsame : Option.Rel (Node.Same slot) x y) (hx : x = some (.scalar tag text)) :
    y = some (.scalar tag text) := by
  rw [hx] at hsame
  obtain ⟨tree, htree, hnode⟩ := rel_some hsame
  rw [htree, hnode.scalar]

variable {α : Type} {R : Node → α → Prop} {S : α → α → Prop} {slot : Slot} {x y : Option Node}

private theorem OptionField.same {a : Option α} (hsame : Option.Rel (Node.Same slot) x y)
    (hR : ∀ node other a, R node a → Node.Same slot node other → ∃ b, R other b ∧ S a b)
    (h : OptionField R x a) : ∃ b, OptionField R y b ∧ Option.Rel S a b := by
  cases hsame with
  | none =>
    obtain rfl : a = none := h
    exact ⟨none, rfl, .none⟩
  | some hsame =>
    obtain ⟨v, hv, rfl⟩ := h
    obtain ⟨w, hw, hvw⟩ := hR _ _ v hv hsame
    exact ⟨some w, ⟨w, hw, rfl⟩, .some hvw⟩

private theorem OptionField.same_scalar {a : Option α} (hsame : Option.Rel (Node.Same slot) x y)
    (hR : OfScalars R) (h : OptionField R x a) : OptionField R y a := by
  cases hsame with
  | none => exact h
  | some hsame =>
    obtain ⟨v, hv, rfl⟩ := h
    exact ⟨v, hR.same hv hsame, rfl⟩

private theorem TextField.same {text : String} (hsame : Option.Rel (Node.Same slot) x y)
    (h : TextField x text) : TextField y text := by
  cases hsame with
  | none => exact h
  | some hsame => exact ofScalars_isText.same h hsame

private theorem IsList.same {node other : Node} {values : List α}
    (hsame : Node.Same slot node other)
    (hR : ∀ node other a, R node a → Node.Same slot.item node other → R other a)
    (h : IsList R node values) : IsList R other values := by
  obtain ⟨items, rfl, hitems⟩ := h
  obtain ⟨others, rfl, hothers⟩ := hsame.items
  refine ⟨others, rfl, ?_⟩
  generalize items.map Node.bare = nodes at hitems hothers
  generalize others.map Node.bare = trees at hothers ⊢
  clear hsame
  induction hothers generalizing values with
  | nil => exact hitems
  | cons hnode _ ih =>
    obtain ⟨a, rest, ha, hrest, rfl⟩ := List.forall₂_cons_left_iff.mp hitems
    exact .cons (hR _ _ a ha hnode) (ih hrest)

private theorem ListField.same {values : List α} (hsame : Option.Rel (Node.Same slot) x y)
    (hR : ∀ node other a, R node a → Node.Same slot.item node other → R other a)
    (h : ListField R x values) : ListField R y values := by
  cases hsame with
  | none => exact h
  | some hsame => exact IsList.same hsame hR h

private theorem keys_perm {next : Slot} {entries others : List (String × Node)}
    (hd : (entries.map Prod.fst).Nodup) (hothers : (others.map Prod.fst).Nodup)
    (hsame : ∀ key, Option.Rel (Node.Same next) (entries.lookup key) (others.lookup key)) :
    (others.map Prod.fst).Perm (entries.map Prod.fst) := by
  rw [List.perm_ext_iff_of_nodup hothers hd]
  intro key
  have hnone : others.lookup key = none ↔ entries.lookup key = none := by
    have hkey := hsame key
    generalize entries.lookup key = a at hkey ⊢
    generalize others.lookup key = b at hkey ⊢
    cases hkey <;> simp
  rw [Text.lookup_eq_none_iff_notMem, Text.lookup_eq_none_iff_notMem] at hnone
  exact not_iff_not.mp hnone

private theorem exists_results {R : String × Node → α → Prop} {next : Slot}
    {entries others : List (String × Node)} {values : List α}
    (hpairs : List.Forall₂ (fun (other entry : String × Node) =>
      entry.1 = other.1 ∧ Node.Same next entry.2 other.2) others entries)
    (hR : ∀ key node other a, R (key, node) a → Node.Same next node other →
      ∃ b, R (key, other) b ∧ S a b)
    (h : List.Forall₂ R entries values) :
    ∃ results, List.Forall₂ R others results ∧ List.Forall₂ S values results := by
  induction hpairs generalizing values with
  | nil =>
    obtain rfl := List.forall₂_nil_left_iff.mp h
    exact ⟨[], .nil, .nil⟩
  | @cons other entry _ _ hpair _ ih =>
    obtain ⟨a, rest, ha, hrest, rfl⟩ := List.forall₂_cons_left_iff.mp h
    obtain ⟨key, node⟩ := entry
    obtain ⟨_, tree⟩ := other
    obtain ⟨rfl, hnode⟩ := hpair
    obtain ⟨b, hb, hab⟩ := hR key node tree a ha hnode
    obtain ⟨results, hresults, hs⟩ := ih hrest
    exact ⟨b :: results, .cons hb hresults, .cons hab hs⟩

private theorem exists_of_entries {R : String × Node → α → Prop} {next : Slot}
    {entries others : List (String × Node)} {values : List α} (hd : (entries.map Prod.fst).Nodup)
    (hothers : (others.map Prod.fst).Nodup)
    (hsame : ∀ key, Option.Rel (Node.Same next) (entries.lookup key) (others.lookup key))
    (hR : ∀ key node other a, R (key, node) a → Node.Same next node other →
      ∃ b, R (key, other) b ∧ S a b)
    (h : List.Forall₂ R entries values) :
    ∃ results, List.Forall₂ R others results ∧ UpToOrder S values results := by
  have hself : List.Forall₂ (fun key entry => entry.1 = key) (entries.map Prod.fst) entries := by
    rw [List.forall₂_map_left_iff]
    exact List.forall₂_same.mpr fun _ _ => rfl
  -- The entries, and with them the values, are put in the order of the others.
  obtain ⟨sorted, hsorted, hperm⟩ := List.perm_comp_forall₂ (keys_perm hd hothers hsame) hself
  obtain ⟨moved, hvalues, hmoved⟩ := List.perm_comp_forall₂ hperm h
  have hpairs : List.Forall₂ (fun (other entry : String × Node) =>
      entry.1 = other.1 ∧ Node.Same next entry.2 other.2) others sorted := by
    rw [List.forall₂_map_left_iff, List.forall₂_iff_zip] at hsorted
    rw [List.forall₂_iff_zip]
    refine ⟨hsorted.1, fun {other entry} hmem => ?_⟩
    have hkey : entry.1 = other.1 := hsorted.2 hmem
    have hentry := Text.lookup_of_mem hd (hperm.mem_iff.mp (List.of_mem_zip hmem).2)
    have hother := Text.lookup_of_mem hothers (List.of_mem_zip hmem).1
    have hrel := hsame other.1
    rw [hother, ← hkey, hentry] at hrel
    cases hrel with
    | some hnode => exact ⟨hkey, hnode⟩
  obtain ⟨results, hresults, hs⟩ := exists_results hpairs hR hvalues
  exact ⟨results, hresults, moved, hmoved.symm, hs⟩

end Fields

section Types

variable {look other : Lookup} {position : Position} {t : SchemaType}

private theorem NumericRules.Denoted.same {α : Type} {R : Node → α → Prop} {rules : NumericRules α}
    (hR : OfScalars R)
    (hsame : SameFields (plainly ["default", "const", "minimum", "maximum", "enum"]) look other)
    (h : rules.Denoted R look) : rules.Denoted R other where
  default := h.default.same_scalar (hsame "default" .plain rfl) hR
  const := h.const.same_scalar (hsame "const" .plain rfl) hR
  minimum := h.minimum.same_scalar (hsame "minimum" .plain rfl) hR
  maximum := h.maximum.same_scalar (hsame "maximum" .plain rfl) hR
  enum := h.enum.same (hsame "enum" .plain rfl) fun _ _ _ ha => hR.same ha

private theorem same_texts {node tree : Node} (text : String) (h : IsText node text)
    (hsame : Node.Same Slot.plain.item node tree) : IsText tree text :=
  ofScalars_isText.same h hsame

private theorem StringRules.Denoted.same {rules : StringRules}
    (hsame : SameFields (Kind.fields position .string) look other) (h : rules.Denoted look) :
    rules.Denoted other where
  default := h.default.same_scalar (hsame "default" .plain rfl) ofScalars_isText
  const := h.const.same_scalar (hsame "const" .plain rfl) ofScalars_isText
  minLength := h.minLength.same_scalar (hsame "minLength" .plain rfl) ofScalars_isLength
  maxLength := h.maxLength.same_scalar (hsame "maxLength" .plain rfl) ofScalars_isLength
  enum := h.enum.same (hsame "enum" .plain rfl) fun _ _ => same_texts
  knownValues := h.knownValues.same (hsame "knownValues" .plain rfl) fun _ _ => same_texts

private theorem BoundField.same {applies : Bool} {x y : Option Node} {bound : Option Int}
    (hsame : Option.Rel (Node.Same .plain) x y) (h : BoundField applies x bound) :
    BoundField applies y bound := by
  cases applies with
  | true => exact OptionField.same_scalar hsame ofScalars_isInteger h
  | false =>
    obtain ⟨rfl, hbound⟩ := h
    cases hsame
    exact ⟨rfl, hbound⟩

private theorem BlobRules.Denoted.same {rules : BlobRules}
    (hsame : SameFields (Kind.fields position (.blob rules.variant)) look other)
    (h : rules.Denoted look) : rules.Denoted other where
  accept := h.accept.same (hsame "accept" .plain rfl) fun _ _ => same_texts
  maxSize := h.maxSize.same_scalar (hsame "maxSize" .plain rfl) ofScalars_isInteger
  maxWidth := h.maxWidth.same (hsame "maxWidth" .plain rfl)
  maxHeight := h.maxHeight.same (hsame "maxHeight" .plain rfl)
  maxLength := h.maxLength.same (hsame "maxLength" .plain rfl)

private theorem SchemaType.LeafDenoted.same (hsame : SameFields (t.kind.fields position) look other)
    (h : t.LeafDenoted look) : t.LeafDenoted other := by
  cases t with
  | boolean d default const =>
    exact ⟨h.1.same_scalar (hsame "default" .plain rfl) ofScalars_isBoolean,
      h.2.same_scalar (hsame "const" .plain rfl) ofScalars_isBoolean⟩
  | number d rules => exact NumericRules.Denoted.same ofScalars_isNumber hsame h
  | integer d rules => exact NumericRules.Denoted.same ofScalars_isInteger hsame h
  | string d rules => exact StringRules.Denoted.same hsame h
  | blob d rules => exact BlobRules.Denoted.same hsame h
  | ref d target =>
    have hlook : look "ref" = some (.scalar .str target) := h
    exact rel_scalar (hsame "ref" .plain rfl) hlook
  | union d targets =>
    obtain ⟨node, hlook, htargets⟩ := h
    have hrefs := hsame "refs" .plain rfl
    rw [hlook] at hrefs
    obtain ⟨tree, htree, hnode⟩ := rel_some hrefs
    exact ⟨tree, htree, htargets.same hnode fun _ _ => same_texts⟩
  | datetime | unknown | token => trivial
  | array | object | record | method => exact h.elim

private theorem lookup_fields {kind : Kind} {key : String} {next : Slot}
    (h : (kind.fields position).lookup key = some next) :
    (plainly ["type", "description"] ++ kind.fields position).lookup key = some next := by
  have hkeys : ∀ name ∈ (kind.fields position).map Prod.fst,
      name ∉ (plainly ["type", "description"]).map Prod.fst := by
    cases kind <;> simp [Kind.fields, plainly]
  have hnone : (plainly ["type", "description"]).lookup key = none := by
    rw [Text.lookup_eq_none_iff_notMem]
    refine hkeys key (not_not.mp fun hkey => ?_)
    rw [Text.lookup_eq_none_iff_notMem.mpr hkey] at h
    cases h
  rw [List.lookup_append, hnone, h]
  rfl

private theorem Typed.same {R : Lookup → SchemaType → Prop} {S : SchemaType → SchemaType → Prop}
    {node tree : Node} (h : Typed position R node t) (hsame : Node.Same (.type position) node tree)
    (hrefl : ∀ t, S t t)
    (hR : ∀ look other, position.allows t.kind = true →
      SameFields (t.kind.fields position) look other → R look t →
      ∃ u, R other u ∧ S t u ∧ u.kind = t.kind ∧ u.description = t.description) :
    ∃ u, Typed position R tree u ∧ S t u := by
  cases h with
  | ref hs =>
    rw [hsame.scalar]
    exact ⟨_, .ref hs, hrefl _⟩
  | union hs htargets =>
    have htree := htargets.same hsame fun _ _ => same_texts
    obtain ⟨others, rfl, -⟩ := hsame.items
    exact ⟨_, .union hs htree, hrefl _⟩
  | @fields entries _ hname hallows hd ht =>
    obtain ⟨others, rfl⟩ := hsame.mapping
    have hfields : (Slot.type position).fields (Node.kindOf? entries) =
        plainly ["type", "description"] ++ t.kind.fields position := by
      rw [kindOf?_eq hname, Slot.fields, if_pos hallows]
    have hlook : SameFields (plainly ["type", "description"] ++ t.kind.fields position)
        (Node.fieldOf entries) (Node.fieldOf others) := by
      intro key next hnext
      exact hsame.look rfl _ (by rw [Slot.field?, hfields, hnext])
    have hrest : SameFields (t.kind.fields position) (Node.fieldOf entries)
        (Node.fieldOf others) := fun key next hnext => hlook key next (lookup_fields hnext)
    obtain ⟨u, hu, hS, hkind, hdescription⟩ := hR _ _ hallows hrest ht
    have htype := rel_scalar (hlook "type" .plain rfl) hname
    refine ⟨u, .fields ?_ (hkind ▸ hallows) ?_ hu, hS⟩
    · rw [htype, hkind]
    · rw [hdescription]
      exact hd.same (hlook "description" .plain rfl)

private theorem Typed.keeps {R : Lookup → SchemaType → Prop} {node tree : Node}
    (h : Typed position R node t) (hsame : Node.Same (.type position) node tree)
    (hR : ∀ look other, SameFields (t.kind.fields position) look other → R look t → R other t) :
    Typed position R tree t := by
  obtain ⟨_, hu, rfl⟩ := h.same hsame (S := Eq) (fun _ => rfl) fun look other _ hfields ht =>
    ⟨t, hR look other hfields ht, rfl, rfl, rfl⟩
  exact hu

private theorem SchemaType.ShallowDenoted.same
    (hsame : SameFields (t.kind.fields position) look other) (h : t.ShallowDenoted position look) :
    t.ShallowDenoted position other := by
  cases t with
  | array d items least most =>
    obtain ⟨⟨node, hlook, hitems⟩, hl, hm⟩ := h
    have hrel := hsame "items" (.type position.ofItems) rfl
    rw [hlook] at hrel
    obtain ⟨tree, htree, hnode⟩ := rel_some hrel
    have hkept := hitems.keeps hnode fun _ _ hfields ht => SchemaType.LeafDenoted.same hfields ht
    exact ⟨⟨tree, htree, hkept⟩, hl.same_scalar (hsame "minLength" .plain rfl) ofScalars_isLength,
      hm.same_scalar (hsame "maxLength" .plain rfl) ofScalars_isLength⟩
  | _ => exact SchemaType.LeafDenoted.same hsame h

private theorem Member.same {key : String} {node tree : Node} {p : Property SchemaType}
    (h : Member position (key, node) p) (hsame : Node.Same (.type position) node tree) :
    Member position (key, tree) p :=
  ⟨h.1, h.2.keeps hsame fun _ _ => SchemaType.ShallowDenoted.same⟩

end Types

section Objects

variable {look other : Lookup} {o : ObjectType SchemaType} {node tree : Node}

private theorem exists_of_whole {α : Type} {R : String × Node → α → Prop} {S : α → α → Prop}
    {slot next : Slot} {entries : List (Key × Node)} {values : List α}
    (hsame : Node.Same slot (.mapping entries) tree) (hentry : slot.entry? = some next)
    (hd : ((Node.textEntries entries).map Prod.fst).Nodup)
    (hR : ∀ key node other a, R (key, node) a → Node.Same next node other →
      ∃ b, R (key, other) b ∧ S a b)
    (h : List.Forall₂ R (Node.textEntries entries) values) :
    ∃ others results, tree = .mapping others ∧ ((Node.textEntries others).map Prod.fst).Nodup ∧
      List.Forall₂ R (Node.textEntries others) results ∧ UpToOrder S values results := by
  obtain ⟨others, rfl⟩ := hsame.mapping
  have hdistinct : Node.Distinct entries := by rwa [keys_textEntries] at hd
  obtain ⟨hothers, hlook⟩ := hsame.whole hentry hdistinct
  have hkeys := Node.keys_distinct hothers
  obtain ⟨results, hresults, horder⟩ := exists_of_entries hd hkeys hlook hR h
  exact ⟨others, results, rfl, hkeys, hresults, horder⟩

private theorem ObjectType.Denoted.same (h : o.Denoted look)
    (hrequired : Option.Rel (Node.Same .plain) (look "required") (other "required"))
    (hproperties :
      Option.Rel (Node.Same (.properties o.params)) (look "properties") (other "properties")) :
    ∃ p : ObjectType SchemaType, p.Denoted other ∧ o.Shuffled p := by
  have hkept := h.required.same hrequired fun _ _ => same_texts
  rcases h.properties with ⟨hnone, hparams, hempty⟩ | ⟨entries, hlook, hd, hmembers⟩
  · rw [hnone] at hproperties
    have hother : other "properties" = none := by
      generalize other "properties" = y at hproperties
      cases hproperties
      rfl
    exact ⟨o, ⟨hkept, Or.inl ⟨hother, hparams, hempty⟩⟩, .refl o⟩
  · rw [hlook] at hproperties
    obtain ⟨tree, htree, hnode⟩ := rel_some hproperties
    obtain ⟨others, properties, rfl, hdistinct, hresults, moved, hperm, hequal⟩ :=
      exists_of_whole (S := Eq) hnode rfl hd
        (fun key _ _ p hp hsame => ⟨p, Member.same hp hsame, rfl⟩) hmembers
    rw [List.forall₂_eq_eq_eq] at hequal
    rw [hequal] at hperm
    exact ⟨{ o with properties := properties },
      ⟨hkept, Or.inr ⟨others, htree, hdistinct, hresults⟩⟩, rfl, rfl, rfl, hperm⟩

private theorem ObjectType.Shuffled.kind_eq {p : ObjectType SchemaType} (h : o.Shuffled p) :
    p.kind = o.kind := by
  rw [ObjectType.kind, ObjectType.kind, h.params]

private theorem ObjectNode.same {kinds : List Kind} {slot : Slot} (h : ObjectNode kinds node o)
    (hsame : Node.Same slot node tree) (hentry : slot.entry? = none)
    (hfields : slot.fields (some o.kind) = objectSlots o.params) :
    ∃ p, ObjectNode kinds tree p ∧ o.Shuffled p := by
  obtain ⟨entries, rfl, hkind, hname, hd, ho⟩ := h
  obtain ⟨others, rfl⟩ := hsame.mapping
  have hlook : SameFields (objectSlots o.params) (Node.fieldOf entries) (Node.fieldOf others) := by
    intro key next hnext
    exact hsame.look hentry _ (by rw [Slot.field?, kindOf?_eq hname, hfields, hnext])
  obtain ⟨p, hp, hop⟩ := ho.same (hlook "required" .plain rfl)
    (hlook "properties" (.properties o.params) rfl)
  have htype := rel_scalar (hlook "type" .plain rfl) hname
  refine ⟨p, ⟨others, rfl, hop.kind_eq ▸ hkind, ?_, ?_, hp⟩, hop⟩
  · rw [htype, hop.kind_eq]
  · rw [hop.description]
    exact hd.same (hlook "description" .plain rfl)

private theorem ObjectNode.same_payload (h : ObjectNode [.object] node o)
    (hsame : Node.Same .payload node tree) : ∃ p, ObjectNode [.object] tree p ∧ o.Shuffled p := by
  refine h.same hsame rfl ?_
  obtain ⟨_, _, hkind, _⟩ := h
  have hobject := List.mem_singleton.mp hkind
  rw [hobject, (o.kind_eq_iff false).mp hobject]
  rfl

private theorem ObjectNode.same_parameters (h : ObjectNode [.params, .object] node o)
    (hsame : Node.Same .parameters node tree) :
    ∃ p, ObjectNode [.params, .object] tree p ∧ o.Shuffled p := by
  refine h.same hsame rfl ?_
  cases hparams : o.params with
  | true => rw [(o.kind_eq_iff true).mpr hparams]; rfl
  | false => rw [(o.kind_eq_iff false).mpr hparams]; rfl

end Objects

section Methods

variable {look other : Lookup} {node tree : Node}

private theorem object_same {position : Position} {o : ObjectType SchemaType}
    (hallows : position.allows (SchemaType.object o).kind = true)
    (hsame : SameFields ((SchemaType.object o).kind.fields position) look other)
    (h : o.Denoted look) : ∃ p : ObjectType SchemaType, p.Denoted other ∧ o.Shuffled p := by
  have hparams : o.params = false := by
    cases hp : o.params with
    | false => rfl
    | true =>
      have hkind : (SchemaType.object o).kind = .params := (o.kind_eq_iff true).mpr hp
      rw [hkind] at hallows
      cases position <;> cases hallows
  have hkind : (SchemaType.object o).kind = .object := (o.kind_eq_iff false).mpr hparams
  rw [hkind] at hsame
  refine h.same (hsame "required" .plain rfl) ?_
  rw [hparams]
  exact hsame "properties" (.properties false) rfl

private theorem SchemaType.SchemaDenoted.same {t : SchemaType}
    (hallows : Position.schema.allows t.kind = true)
    (hsame : SameFields (t.kind.fields .schema) look other) (h : t.SchemaDenoted look) :
    ∃ u : SchemaType, u.SchemaDenoted other ∧ t.MembersShuffled u ∧ u.kind = t.kind ∧
      u.description = t.description := by
  cases t with
  | object o =>
    obtain ⟨p, hp, hop⟩ := object_same hallows hsame h
    exact ⟨.object p, hp, .object hop, hop.kind_eq, hop.description⟩
  | _ =>
    refine ⟨_, ?_, .refl _, rfl, rfl⟩
    exact SchemaType.LeafDenoted.same hsame h

private theorem EncodingField.same {x y : Option Node} {encoding : Encoding}
    (hsame : Option.Rel (Node.Same .plain) x y) (h : EncodingField x encoding) :
    EncodingField y encoding := by
  cases hsame with
  | none => exact h
  | some hnode =>
    rcases h with ⟨value, hvalue, he⟩ | ⟨values, hne, hvalues, he⟩
    · exact Or.inl ⟨value, ofScalars_isText.same hvalue hnode, he⟩
    · exact Or.inr ⟨values, hne, hvalues.same hnode fun _ _ => same_texts, he⟩

private theorem BodyNode.same {b : Body SchemaType} (h : BodyNode node b)
    (hsame : Node.Same .body node tree) : ∃ c, BodyNode tree c ∧ b.Shuffled c := by
  obtain ⟨entries, rfl, hd, hencoding, hschema⟩ := h
  obtain ⟨others, rfl⟩ := hsame.mapping
  have hlook (key : String) {next : Slot} (hnext : Slot.body.field? none key = some next) :
      Option.Rel (Node.Same next) (Node.fieldOf entries key) (Node.fieldOf others key) :=
    hsame.look rfl key hnext
  obtain ⟨schema, hkept, hrel⟩ := hschema.same (hlook "schema" rfl)
    fun _ _ _ ht hnode => ht.same hnode .refl fun _ _ => SchemaType.SchemaDenoted.same
  exact ⟨⟨b.description, b.encoding, schema⟩,
    ⟨others, rfl, hd.same (hlook "description" rfl),
      hencoding.same (hlook "encoding" rfl), hkept⟩, rfl, rfl, hrel⟩

private theorem ErrorNode.same {error : NamedError} (h : ErrorNode node error)
    (hsame : Node.Same .failure node tree) : ErrorNode tree error := by
  obtain ⟨entries, rfl, hname, hd⟩ := h
  obtain ⟨others, rfl⟩ := hsame.mapping
  have hlook (key : String) (hnext : Slot.failure.field? none key = some .plain) :
      Option.Rel (Node.Same .plain) (Node.fieldOf entries key) (Node.fieldOf others key) :=
    hsame.look rfl key hnext
  exact ⟨others, rfl, rel_scalar (hlook "name" rfl) hname, hd.same (hlook "description" rfl)⟩

private theorem Method.Denoted.same {kind : MethodKind} {m : Method SchemaType}
    (h : m.Denoted look kind) (hsame : SameFields (kind.kind.fields .definition) look other) :
    ∃ k : Method SchemaType, k.Denoted other kind ∧ m.Shuffled k := by
  have hbody {x y : Option Node} {b : Option (Body SchemaType)}
      (hrel : Option.Rel (Node.Same .body) x y) (hb : OptionField BodyNode x b) :
      ∃ c, OptionField BodyNode y c ∧ Option.Rel Body.Shuffled b c :=
    hb.same hrel fun _ _ _ => BodyNode.same
  have hinput : Option.Rel (Node.Same .body) (if kind = .query then none else look "input")
      (if kind = .query then none else other "input") := by
    cases kind with
    | query => exact .none
    | procedure => exact hsame "input" .body rfl
  obtain ⟨parameters, hp, hparameters⟩ := h.parameters.same
    (hsame "parameters" .parameters (by cases kind <;> rfl)) fun _ _ _ => ObjectNode.same_parameters
  obtain ⟨input, hi, hinputs⟩ := hbody hinput h.input
  obtain ⟨output, ho, houtputs⟩ :=
    hbody (hsame "output" .body (by cases kind <;> rfl)) h.output
  have herrors := ListField.same (R := ErrorNode)
    (hsame "errors" .failures (by cases kind <;> rfl)) (fun _ _ _ => ErrorNode.same) h.errors
  exact ⟨⟨parameters, input, output, m.errors⟩, ⟨hp, hi, ho, herrors, h.distinct⟩,
    hparameters, hinputs, houtputs, rfl⟩

end Methods

section Documents

variable {look other : Lookup} {node tree : Node}

private theorem SchemaType.DefinitionDenoted.same {t : SchemaType}
    (hallows : Position.definition.allows t.kind = true)
    (hsame : SameFields (t.kind.fields .definition) look other) (h : t.DefinitionDenoted look) :
    ∃ u : SchemaType, u.DefinitionDenoted other ∧ t.Shuffled u ∧ u.kind = t.kind ∧
      u.description = t.description := by
  cases t with
  | object o =>
    obtain ⟨p, hp, hop⟩ := object_same hallows hsame h
    exact ⟨.object p, hp, .members (.object hop), hop.kind_eq, hop.description⟩
  | record d key payload =>
    obtain ⟨hkey, record, hlook, hpayload⟩ := h
    have hrel := hsame "record" .payload rfl
    rw [hlook] at hrel
    obtain ⟨child, hchild, hnode⟩ := rel_some hrel
    obtain ⟨p, hp, hop⟩ := hpayload.same_payload hnode
    exact ⟨.record d key p, ⟨hkey.same (hsame "key" .plain rfl), child, hchild, hp⟩,
      .record hop, rfl, rfl⟩
  | method d kind m =>
    obtain ⟨k, hk, hmk⟩ := Method.Denoted.same h hsame
    exact ⟨.method d kind k, hk, .method hmk, rfl, rfl⟩
  | _ =>
    refine ⟨_, ?_, .refl _, rfl, rfl⟩
    exact SchemaType.ShallowDenoted.same hsame h

private theorem DefinitionEntry.same {key : String} {x : Definition}
    (h : DefinitionEntry (key, node) x) (hsame : Node.Same (.type .definition) node tree) :
    ∃ y, DefinitionEntry (key, tree) y ∧ x.Shuffled y := by
  obtain ⟨hname, htype⟩ := h
  obtain ⟨u, hu, htu⟩ := htype.same hsame .refl fun _ _ => SchemaType.DefinitionDenoted.same
  exact ⟨⟨x.name, u⟩, ⟨hname, hu⟩, rfl, htu⟩

/-- Trees that say the same denote the same document, up to order. -/
theorem Markup.Node.Denotes.same {d : Draft} (h : node.Denotes d)
    (hsame : Node.Same .document node tree) : ∃ e, tree.Denotes e ∧ d.Shuffled e := by
  obtain ⟨entries, rfl, hdraft⟩ := h
  obtain ⟨others, rfl⟩ := hsame.mapping
  have hlook (key : String) {next : Slot} (hnext : Slot.document.field? none key = some next) :
      Option.Rel (Node.Same next) (Node.fieldOf entries key) (Node.fieldOf others key) :=
    hsame.look rfl key hnext
  obtain ⟨version, hversion, hv⟩ := hdraft.version
  obtain ⟨fields, hfields, hd, hdefs⟩ := hdraft.defs
  have hrel := hlook "defs" rfl
  rw [hfields] at hrel
  obtain ⟨child, hchild, hnode⟩ := rel_some hrel
  obtain ⟨trees, defs, rfl, hdistinct, hresults, horder⟩ :=
    exists_of_whole hnode rfl hd (fun _ _ _ _ => DefinitionEntry.same) hdefs
  exact ⟨{ d with defs := defs }, ⟨others, rfl,
    ⟨version, hversion.same_scalar (hlook "lexicon" rfl) ofScalars_isInteger, hv⟩,
    hdraft.id.same (hlook "id" rfl),
    hdraft.revision.same_scalar (hlook "revision" rfl) ofScalars_isInteger,
    hdraft.description.same (hlook "description" rfl),
    ⟨trees, hchild, hdistinct, hresults⟩⟩, rfl, rfl, rfl, rfl, horder⟩

end Documents

end LexiconCompiler
