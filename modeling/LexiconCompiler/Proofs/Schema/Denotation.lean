import LexiconCompiler.Proofs.Schema.Reading
import LexiconCompiler.Schema.TypeReader

set_option autoImplicit false
set_option relaxedAutoImplicit false

/-!
Which type a tree denotes. For each reader of types there is a relation between the fields of a
mapping and what they stand for, and the reader finds exactly what is related to its tree. Nothing
that a tree says about a type is lost: every entry of a list of properties or definitions has its
type, in order.
-/

namespace LexiconCompiler

open LexiconCompiler.Markup LexiconCompiler.Text

/-- How the fields of a mapping are found by their keys. -/
abbrev Lookup := String -> Option Node

def Markup.Node.fieldOf (entries : List (Key × Node)) : Lookup :=
  fun key => (Node.textEntries entries).lookup key

section Rules

/-- Fields that say what the rules of a number say. -/
structure NumericRules.Denoted {α : Type} (R : Node -> α -> Prop) (look : Lookup)
    (rules : NumericRules α) : Prop where
  default : OptionField R (look "default") rules.default
  const : OptionField R (look "const") rules.const
  minimum : OptionField R (look "minimum") rules.minimum
  maximum : OptionField R (look "maximum") rules.maximum
  enum : ListField R (look "enum") rules.enum

private theorem yields_readNumericRules {α : Type} {R : Node → α → Prop}
    {read : Node → String → Reviewed (Option α)} (h : Describes R read) (f : Fields)
    (rules : NumericRules α) :
    (readNumericRules read f).Yields rules ↔ rules.Denoted R f.get? := by
  simp only [readNumericRules, Reviewed.yields_bind, Reviewed.yields_pure,
    Fields.yields_optional h, Fields.yields_values h]
  constructor
  · rintro ⟨default, hd, const, hc, minimum, hmin, maximum, hmax, enum, he, rfl⟩
    exact ⟨hd, hc, hmin, hmax, he⟩
  · rintro ⟨hd, hc, hmin, hmax, he⟩
    exact ⟨_, hd, _, hc, _, hmin, _, hmax, _, he, rfl⟩

/-- Fields that say what the rules of a text say. -/
structure StringRules.Denoted (look : Lookup) (rules : StringRules) : Prop where
  default : OptionField IsText (look "default") rules.default
  const : OptionField IsText (look "const") rules.const
  minLength : OptionField IsLength (look "minLength") rules.minLength
  maxLength : OptionField IsLength (look "maxLength") rules.maxLength
  enum : ListField IsText (look "enum") rules.enum
  knownValues : ListField IsText (look "knownValues") rules.knownValues

private theorem yields_readStringRules (f : Fields) (rules : StringRules) :
    (readStringRules f).Yields rules ↔ rules.Denoted f.get? := by
  simp only [readStringRules, Reviewed.yields_bind, Reviewed.yields_pure,
    Fields.yields_optional describes_readString, Fields.yields_length, Fields.yields_strings]
  constructor
  · rintro ⟨default, hd, const, hc, least, hmin, most, hmax, enum, he, known, hk, rfl⟩
    exact ⟨hd, hc, hmin, hmax, he, hk⟩
  · rintro ⟨hd, hc, hmin, hmax, he, hk⟩
    exact ⟨_, hd, _, hc, _, hmin, _, hmax, _, he, _, hk, rfl⟩

/-- A bound that is given only where it applies. -/
def BoundField (applies : Bool) (node : Option Node) (bound : Option Int) : Prop :=
  if applies then OptionField IsInteger node bound else node = none ∧ bound = none

/-- Fields that say what the rules of an attachment say. -/
structure BlobRules.Denoted (look : Lookup) (rules : BlobRules) : Prop where
  accept : ListField IsText (look "accept") rules.accept
  maxSize : OptionField IsInteger (look "maxSize") rules.maxSize
  maxWidth : BoundField rules.variant.hasExtent (look "maxWidth") rules.maxWidth
  maxHeight : BoundField rules.variant.hasExtent (look "maxHeight") rules.maxHeight
  maxLength : BoundField rules.variant.hasLength (look "maxLength") rules.maxLength

private theorem boundField_iff (f : Fields) (variant : BlobVariant) (applies : Bool)
    (key : String) (bound : Option Int) :
    BoundField applies (f.get? key) bound ↔
      (readBound f applies key).Yields bound ∧ (refuseBound f variant applies key).Yields () := by
  unfold BoundField readBound refuseBound
  cases applies with
  | true => simp [Fields.yields_optional describes_readInteger]
  | false => cases f.get? key <;> simp

private theorem yields_readBlobRules (f : Fields) (variant : BlobVariant) (rules : BlobRules) :
    (readBlobRules f variant).Yields rules ↔ rules.variant = variant ∧ rules.Denoted f.get? := by
  simp only [readBlobRules, Reviewed.yields_bind, Reviewed.yields_pure,
    Fields.yields_optional describes_readInteger, Fields.yields_strings]
  constructor
  · rintro ⟨accept, ha, size, hs, width, hw, height, hh, length, hl, _, hw', _, hh', _, hl', rfl⟩
    exact ⟨rfl, ha, hs, (boundField_iff f variant _ _ _).mpr ⟨hw, hw'⟩,
      (boundField_iff f variant _ _ _).mpr ⟨hh, hh'⟩,
      (boundField_iff f variant _ _ _).mpr ⟨hl, hl'⟩⟩
  · rintro ⟨rfl, ha, hs, hw, hh, hl⟩
    obtain ⟨hw, hw'⟩ := (boundField_iff f rules.variant _ _ _).mp hw
    obtain ⟨hh, hh'⟩ := (boundField_iff f rules.variant _ _ _).mp hh
    obtain ⟨hl, hl'⟩ := (boundField_iff f rules.variant _ _ _).mp hl
    exact ⟨_, ha, _, hs, _, hw, _, hh, _, hl, _, hw', _, hh', _, hl', rfl⟩

end Rules

def ReadsKinds (used : Kind -> Bool) (R : Lookup -> SchemaType -> Prop) (read : KindReader) :
    Prop :=
  ∀ (f : Fields) (kind : Kind) (d : String) (v : Option SchemaType), used kind = true →
    ((read f kind d).Yields v ↔
      ∃ t : SchemaType, v = some t ∧ t.kind = kind ∧ t.description = d ∧ R f.get? t)

private theorem ReadsKinds.mono {used less : Kind → Bool} {R : Lookup → SchemaType → Prop}
    {read : KindReader} (h : ReadsKinds used R read)
    (hless : ∀ kind, less kind = true → used kind = true) : ReadsKinds less R read :=
  fun f kind d v hk => h f kind d v (hless kind hk)

/-- The tree of a type at a place: a shorthand where the place has one, or a mapping with the kind
of the type, which the place allows. -/
inductive Typed (position : Position) (R : Lookup -> SchemaType -> Prop) :
    Node -> SchemaType -> Prop
  | ref {target : String} : position.shorthand = true →
      Typed position R (.scalar .str target) (.ref "" target)
  | union {items : List Node} {targets : List String} : position.shorthand = true →
      IsList IsText (.sequence items) targets →
      Typed position R (.sequence items) (.union "" targets)
  | fields {entries : List (Key × Node)} {t : SchemaType} :
      Node.fieldOf entries "type" = some (.scalar .str t.kind.name) →
      position.allows t.kind = true →
      TextField (Node.fieldOf entries "description") t.description →
      R (Node.fieldOf entries) t → Typed position R (.mapping entries) t

private theorem describes_readTyped {position : Position} {R : Lookup → SchemaType → Prop}
    {read : KindReader} (h : ReadsKinds position.allows R read) :
    Describes (Typed position R) (readTyped position read) := by
  intro node path v
  unfold readTyped
  -- A text and a list are shorthands where the place has them; anything else has to be a mapping.
  split
  · rename_i tag text hs
    simp only [Reviewed.yields_bind, describes_readString _ _ _, Reviewed.yields_pure]
    constructor
    · rintro ⟨_, ⟨target, ht, rfl⟩, rfl⟩
      cases ht
      exact ⟨_, .ref hs, rfl⟩
    · rintro ⟨t, ht, rfl⟩
      cases ht
      exact ⟨_, ⟨_, rfl, rfl⟩, rfl⟩
  · rename_i items hs
    simp only [Reviewed.yields_bind, yields_readStrings, Reviewed.yields_pure]
    constructor
    · rintro ⟨targets, ht, rfl⟩
      exact ⟨_, .union hs ht, rfl⟩
    · rintro ⟨t, ht, rfl⟩
      cases ht with
      | union _ ht => exact ⟨_, ht, rfl⟩
  · rename_i hscalar hsequence
    simp only [yields_readFields_bind, Fields.yields_requiredString_bind]
    constructor
    · rintro ⟨entries, rfl, name, hname, hv⟩
      cases hk : Kind.ofName? name with
      | none => simp [hk] at hv
      | some kind =>
        obtain rfl := Kind.ofName?_eq_some.mp hk
        simp only [hk] at hv
        split at hv
        · rename_i ha
          simp only [Reviewed.yields_bind, Fields.yields_textOr, h _ kind _ _ ha] at hv
          obtain ⟨d, hd, t, rfl, rfl, rfl, hR⟩ := hv
          exact ⟨t, .fields hname ha hd hR, rfl⟩
        · simp at hv
    · rintro ⟨t, ht, rfl⟩
      cases ht with
      | ref hs => exact (hscalar _ _ hs rfl).elim
      | union hs _ => exact (hsequence _ hs rfl).elim
      | fields hname ha hd hR =>
        refine ⟨_, rfl, _, hname, ?_⟩
        simp only [Kind.ofName?_eq_some.mpr rfl, ha, if_true, Reviewed.yields_bind,
          Fields.yields_textOr, h _ t.kind _ _ ha]
        exact ⟨_, hd, t, rfl, rfl, rfl, hR⟩

section Kinds

theorem ObjectType.kind_eq_iff {α : Type} (o : ObjectType α) (params : Bool) :
    o.kind = (if params then .params else .object) ↔ o.params = params := by
  cases hp : o.params <;> cases params <;> simp [ObjectType.kind, hp]

namespace SchemaType

variable {t : SchemaType}

theorem exists_array (h : t.kind = .array) :
    ∃ d items least most, t = .array d items least most := by
  cases t with
  | array d items least most => exact ⟨d, items, least, most, rfl⟩
  | object o => cases hp : o.params <;> simp [kind, ObjectType.kind, hp] at h
  | method d k m => cases k <;> cases h
  | _ => cases h

theorem exists_object (h : t.kind = .object) : ∃ o, t = .object o ∧ o.params = false := by
  cases t with
  | object o => exact ⟨o, rfl, (o.kind_eq_iff false).mp h⟩
  | method d k m => cases k <;> cases h
  | _ => cases h

theorem exists_record (h : t.kind = .record) : ∃ d key payload, t = .record d key payload := by
  cases t with
  | record d key payload => exact ⟨d, key, payload, rfl⟩
  | object o => cases hp : o.params <;> simp [kind, ObjectType.kind, hp] at h
  | method d k m => cases k <;> cases h
  | _ => cases h

theorem exists_method {kind : MethodKind} (h : t.kind = kind.kind) :
    ∃ d m, t = .method d kind m := by
  cases t with
  | method d k m => cases k <;> cases kind <;> first | exact ⟨d, m, rfl⟩ | cases h
  | object o => cases hp : o.params <;> cases kind <;>
      simp [SchemaType.kind, ObjectType.kind, MethodKind.kind, hp] at h
  | _ => cases kind <;> cases h

end SchemaType

end Kinds

/-- Kinds of types that hold no further types. -/
def Kind.isLeaf : Kind -> Bool
  | .array | .object | .record | .query | .procedure | .params => false
  | _ => true

def SchemaType.LeafDenoted (look : Lookup) : SchemaType -> Prop
  | .boolean _ default const =>
    OptionField IsBoolean (look "default") default ∧ OptionField IsBoolean (look "const") const
  | .number _ rules => rules.Denoted IsNumber look
  | .integer _ rules => rules.Denoted IsInteger look
  | .string _ rules => rules.Denoted look
  | .datetime _ | .unknown _ | .token _ => True
  | .blob _ rules => rules.Denoted look
  | .ref _ target => look "ref" = some (.scalar .str target)
  | .union _ targets => ∃ node, look "refs" = some node ∧ IsList IsText node targets
  | .array .. | .object .. | .record .. | .method .. => False

private theorem yields_readUnion (f : Fields) (d : String) (v : Option SchemaType) :
    (readUnion f d).Yields v ↔
      ∃ targets, (SchemaType.union d targets).LeafDenoted f.get? ∧ v = some (.union d targets) := by
  unfold readUnion
  cases hg : f.get? "refs" with
  | none => simp [SchemaType.LeafDenoted, hg]
  | some node => simp [SchemaType.LeafDenoted, Fields.yields_strings, hg, ListField]

private theorem readsKinds_readLeaf :
    ReadsKinds Kind.isLeaf (fun look t => t.LeafDenoted look) readLeaf := by
  intro f kind d v hleaf
  constructor
  · intro hv
    cases kind with
    | boolean =>
      simp only [readLeaf, Reviewed.yields_bind, Reviewed.yields_pure,
        Fields.yields_optional describes_readBoolean] at hv
      obtain ⟨default, hd, const, hc, rfl⟩ := hv
      exact ⟨_, rfl, rfl, rfl, hd, hc⟩
    | number =>
      simp only [readLeaf, Reviewed.yields_bind, Reviewed.yields_pure,
        yields_readNumericRules describes_readNumber] at hv
      obtain ⟨rules, hr, rfl⟩ := hv
      exact ⟨_, rfl, rfl, rfl, hr⟩
    | integer =>
      simp only [readLeaf, Reviewed.yields_bind, Reviewed.yields_pure,
        yields_readNumericRules describes_readInteger] at hv
      obtain ⟨rules, hr, rfl⟩ := hv
      exact ⟨_, rfl, rfl, rfl, hr⟩
    | string =>
      simp only [readLeaf, Reviewed.yields_bind, Reviewed.yields_pure,
        yields_readStringRules] at hv
      obtain ⟨rules, hr, rfl⟩ := hv
      exact ⟨_, rfl, rfl, rfl, hr⟩
    | blob variant =>
      simp only [readLeaf, Reviewed.yields_bind, Reviewed.yields_pure,
        yields_readBlobRules] at hv
      obtain ⟨rules, ⟨rfl, hr⟩, rfl⟩ := hv
      exact ⟨_, rfl, rfl, rfl, hr⟩
    | ref =>
      simp only [readLeaf, Reviewed.yields_bind, Reviewed.yields_pure,
        Fields.yields_requiredString] at hv
      obtain ⟨_, ⟨target, ht, rfl⟩, rfl⟩ := hv
      exact ⟨_, rfl, rfl, rfl, ht⟩
    | union =>
      simp only [readLeaf, yields_readUnion] at hv
      obtain ⟨targets, ht, rfl⟩ := hv
      exact ⟨_, rfl, rfl, rfl, ht⟩
    | datetime | unknown | token =>
      simp only [readLeaf, Reviewed.yields_pure] at hv
      exact ⟨_, hv, rfl, rfl, trivial⟩
    | array | object | record | query | procedure | params => cases hleaf
  · rintro ⟨t, rfl, rfl, rfl, ht⟩
    cases t with
    | boolean d default const =>
      simp only [SchemaType.kind, readLeaf, Reviewed.yields_bind, Reviewed.yields_pure,
        Fields.yields_optional describes_readBoolean]
      exact ⟨_, ht.1, _, ht.2, rfl⟩
    | number d rules =>
      simp only [SchemaType.kind, readLeaf, Reviewed.yields_bind, Reviewed.yields_pure,
        yields_readNumericRules describes_readNumber]
      exact ⟨_, ht, rfl⟩
    | integer d rules =>
      simp only [SchemaType.kind, readLeaf, Reviewed.yields_bind, Reviewed.yields_pure,
        yields_readNumericRules describes_readInteger]
      exact ⟨_, ht, rfl⟩
    | string d rules =>
      simp only [SchemaType.kind, readLeaf, Reviewed.yields_bind, Reviewed.yields_pure,
        yields_readStringRules]
      exact ⟨_, ht, rfl⟩
    | blob d rules =>
      simp only [SchemaType.kind, readLeaf, Reviewed.yields_bind, Reviewed.yields_pure,
        yields_readBlobRules]
      exact ⟨_, ⟨rfl, ht⟩, rfl⟩
    | ref d target =>
      simp only [SchemaType.kind, readLeaf, Reviewed.yields_bind, Reviewed.yields_pure,
        Fields.yields_requiredString]
      exact ⟨_, ⟨_, ht, rfl⟩, rfl⟩
    | union d targets =>
      simp only [SchemaType.kind, readLeaf, yields_readUnion]
      exact ⟨_, ht, rfl⟩
    | datetime | unknown | token => simp [SchemaType.kind, readLeaf, SchemaType.description]
    | array | object | record | method => exact ht.elim

private theorem Position.ofItems_allows_isLeaf (position : Position) (kind : Kind)
    (h : position.ofItems.allows kind = true) : kind.isLeaf = true := by
  cases position <;> cases kind <;> first | rfl | cases h

def SchemaType.ShallowDenoted (position : Position) (look : Lookup) : SchemaType -> Prop
  | .array _ items least most =>
    (∃ node, look "items" = some node ∧
      Typed position.ofItems (fun look t => t.LeafDenoted look) node items) ∧
      OptionField IsLength (look "minLength") least ∧ OptionField IsLength (look "maxLength") most
  | t => t.LeafDenoted look

private theorem yields_readRequired {position : Position} {R : Lookup → SchemaType → Prop}
    {read : KindReader} (h : ReadsKinds position.allows R read) (node : Option Node) (path : String)
    (v : Option SchemaType) :
    (readRequired position read node path).Yields v ↔
      ∃ t, (∃ tree, node = some tree ∧ Typed position R tree t) ∧ v = some t := by
  unfold readRequired
  cases node with
  | none => simp
  | some tree => simp [describes_readTyped h _ _ _]

private theorem readsKinds_readShallow (position : Position) :
    ReadsKinds (fun kind => kind.isLeaf || kind == .array)
      (fun look t => t.ShallowDenoted position look) (readShallow position) := by
  intro f kind d v hk
  have hitems : ReadsKinds position.ofItems.allows (fun look t => t.LeafDenoted look) readLeaf :=
    readsKinds_readLeaf.mono position.ofItems_allows_isLeaf
  -- An array is read here, every other kind as at any place.
  cases hleaf : kind.isLeaf with
  | false =>
    obtain rfl : kind = .array := by simpa [hleaf] using hk
    simp only [readShallow, Reviewed.yields_bind, Reviewed.yields_pure, Fields.yields_length,
      yields_readRequired hitems]
    constructor
    · rintro ⟨_, ⟨items, hi, rfl⟩, least, hl, most, hm, rfl⟩
      exact ⟨_, rfl, rfl, rfl, hi, hl, hm⟩
    · rintro ⟨t, rfl, hkind, rfl, ht⟩
      obtain ⟨d, items, least, most, rfl⟩ := SchemaType.exists_array hkind
      exact ⟨_, ⟨items, ht.1, rfl⟩, _, ht.2.1, _, ht.2.2, rfl⟩
  | true =>
    have hread : readShallow position f kind d = readLeaf f kind d := by
      cases kind <;> first | rfl | cases hleaf
    rw [hread, readsKinds_readLeaf f kind d v hleaf]
    refine exists_congr fun t => and_congr_right fun _ => and_congr_right fun hkind => ?_
    cases t with
    | array d items least most => subst hkind; cases hleaf
    | _ => rfl

def Member (position : Position) (entry : String × Node) (p : Property SchemaType) : Prop :=
  p.name = entry.1 ∧ Typed position (fun look t => t.ShallowDenoted position look) entry.2 p.type

private theorem memberPosition_allows (params : Bool) (kind : Kind)
    (h : (memberPosition params).allows kind = true) : (kind.isLeaf || kind == .array) = true := by
  cases params <;> cases kind <;> first | rfl | cases h

private theorem yields_readProperties (params : Bool) (props : Fields)
    (entries : List (String × Node)) (properties : List (Property SchemaType)) :
    (readProperties (memberPosition params) props entries).Yields properties ↔
      List.Forall₂ (Member (memberPosition params)) entries properties := by
  have hread := describes_readTyped
    ((readsKinds_readShallow (memberPosition params)).mono (memberPosition_allows params))
  induction entries generalizing properties with
  | nil => simp [readProperties]
  | cons entry rest ih =>
    rcases entry with ⟨name, node⟩
    simp only [readProperties, Reviewed.yields_bind, Reviewed.yields_pure, hread _ _ _, ih]
    constructor
    · rintro ⟨_, ⟨t, ht, rfl⟩, others, ho, rfl⟩
      exact .cons ⟨rfl, ht⟩ ho
    · intro hf
      obtain ⟨⟨name, t⟩, others, ⟨rfl, ht⟩, ho, rfl⟩ := List.forall₂_cons_left_iff.mp hf
      exact ⟨some t, ⟨t, ht, rfl⟩, others, ho, rfl⟩

/-- Fields that say what an object says. Only parameters have to list their properties. -/
structure ObjectType.Denoted (look : Lookup) (o : ObjectType SchemaType) : Prop where
  required : ListField IsText (look "required") o.required
  properties :
    (look "properties" = none ∧ o.params = false ∧ o.properties = []) ∨
      ∃ entries, look "properties" = some (.mapping entries) ∧
        ((Node.textEntries entries).map Prod.fst).Nodup ∧
        List.Forall₂ (Member (memberPosition o.params)) (Node.textEntries entries) o.properties

private theorem yields_readObject (f : Fields) (d : String) (params : Bool)
    (o : ObjectType SchemaType) :
    (readObject f d params).Yields o ↔
      o.description = d ∧ o.params = params ∧ o.Denoted f.get? := by
  simp only [readObject, Reviewed.yields_bind, Fields.yields_strings]
  constructor
  · rintro ⟨required, hr, ho⟩
    cases hg : f.get? "properties" with
    | none =>
      cases params with
      | true => simp [hg] at ho
      | false =>
        simp only [hg, Bool.false_eq_true, if_false, Reviewed.yields_pure] at ho
        obtain rfl := ho
        exact ⟨rfl, rfl, hr, Or.inl ⟨hg, rfl, rfl⟩⟩
    | some node =>
      simp only [hg, yields_readFields_bind] at ho
      simp only [Reviewed.yields_bind, Reviewed.yields_pure, Fields.yields_pairs,
        yields_readProperties] at ho
      obtain ⟨entries, rfl, _, ⟨rfl, hn⟩, properties, hp, rfl⟩ := ho
      exact ⟨rfl, rfl, hr, Or.inr ⟨entries, hg, hn, hp⟩⟩
  · rintro ⟨rfl, rfl, hr, hp⟩
    refine ⟨o.required, hr, ?_⟩
    rcases o with ⟨d, required, properties, params⟩
    rcases hp with ⟨hg, rfl, rfl⟩ | ⟨entries, hg, hn, hp⟩
    · simp [hg]
    · simp only [hg, yields_readFields_bind]
      simp only [Reviewed.yields_bind, Reviewed.yields_pure, Fields.yields_pairs,
        yields_readProperties]
      exact ⟨entries, rfl, _, ⟨rfl, hn⟩, _, hp, rfl⟩

def ObjectNode (kinds : List Kind) (node : Node) (o : ObjectType SchemaType) : Prop :=
  ∃ entries, node = .mapping entries ∧ o.kind ∈ kinds ∧
    Node.fieldOf entries "type" = some (.scalar .str o.kind.name) ∧
    TextField (Node.fieldOf entries "description") o.description ∧ o.Denoted (Node.fieldOf entries)

private theorem Kind.name_injective {k l : Kind} (h : k.name = l.name) : k = l := by
  have hk : Kind.ofName? l.name = some k := Kind.ofName?_eq_some.mpr h
  rw [Kind.ofName?_eq_some.mpr rfl] at hk
  exact (Option.some.inj hk).symm

private theorem describes_readObjectAs {kinds : List (Kind × Bool)}
    (h : ∀ kind ∈ kinds, kind.1 = if kind.2 then .params else .object) :
    Describes (ObjectNode (kinds.map Prod.fst)) (readObjectAs kinds) := by
  intro node path v
  simp only [readObjectAs, yields_readFields_bind, Fields.yields_requiredString_bind]
  constructor
  · rintro ⟨entries, rfl, name, hname, hv⟩
    cases hf : kinds.find? fun kind => kind.1.name == name with
    | none => simp [hf] at hv
    | some found =>
      rcases found with ⟨kind, params⟩
      obtain rfl : kind.name = name := by simpa using List.find?_some hf
      have hm := List.mem_of_find?_eq_some hf
      simp only [hf, Reviewed.yields_bind, Reviewed.yields_pure, Fields.yields_textOr,
        yields_readObject] at hv
      obtain ⟨d, hd, o, ⟨rfl, rfl, ho⟩, rfl⟩ := hv
      obtain rfl : kind = o.kind := (h _ hm).trans ((o.kind_eq_iff o.params).mpr rfl).symm
      exact ⟨o, ⟨entries, rfl, List.mem_map.mpr ⟨_, hm, rfl⟩, hname, hd, ho⟩, rfl⟩
  · rintro ⟨o, ⟨entries, rfl, hk, hname, hd, ho⟩, rfl⟩
    refine ⟨entries, rfl, _, hname, ?_⟩
    obtain ⟨⟨kind, params⟩, hm, hkind⟩ := List.mem_map.mp hk
    have hf : kinds.find? (fun kind => kind.1.name == o.kind.name) = some (o.kind, o.params) := by
      have hentry : ∀ entry ∈ kinds, entry.1.name = o.kind.name → entry = (o.kind, o.params) := by
        rintro ⟨kind, params⟩ hmem hname
        obtain rfl : kind = o.kind := Kind.name_injective hname
        rw [(o.kind_eq_iff params).mp (h _ hmem)]
      have hm' : (o.kind, o.params) ∈ kinds := by
        rwa [← hentry _ hm (congrArg Kind.name hkind)]
      exact find?_eq_some_of_unique hm' (by simp) fun entry hmem hname =>
        hentry entry hmem (by simpa using hname)
    simp only [hf, Reviewed.yields_bind, Reviewed.yields_pure, Fields.yields_textOr,
      yields_readObject]
    exact ⟨_, hd, o, ⟨rfl, rfl, ho⟩, rfl⟩

def SchemaType.SchemaDenoted (look : Lookup) : SchemaType -> Prop
  | .object o => o.Denoted look
  | t => t.LeafDenoted look

private theorem readsKinds_readSchema :
    ReadsKinds Position.schema.allows (fun look t => t.SchemaDenoted look) readSchema := by
  intro f kind d v hk
  by_cases ho : kind = .object
  · subst ho
    simp only [readSchema, Reviewed.yields_bind, Reviewed.yields_pure, yields_readObject]
    constructor
    · rintro ⟨o, ⟨rfl, hp, ho⟩, rfl⟩
      exact ⟨_, rfl, (o.kind_eq_iff false).mpr hp, rfl, ho⟩
    · rintro ⟨t, rfl, hkind, rfl, ht⟩
      obtain ⟨o, rfl, hparams⟩ := SchemaType.exists_object hkind
      exact ⟨o, ⟨rfl, hparams, ht⟩, rfl⟩
  · have hleaf : kind.isLeaf = true := by
      cases kind <;> first | rfl | exact absurd rfl ho | cases hk
    have hread : readSchema f kind d = readLeaf f kind d := by
      cases kind <;> first | rfl | exact absurd rfl ho
    rw [hread, readsKinds_readLeaf f kind d v hleaf]
    refine exists_congr fun t => and_congr_right fun _ => and_congr_right fun hkind => ?_
    cases t with
    | object o =>
      cases hp : o.params <;> simp [SchemaType.kind, ObjectType.kind, hp] at hkind <;>
        subst hkind <;> cases hleaf
    | _ => rfl

/-- The encoding of a body: absent, a single media type, or a list of at least one. -/
def EncodingField : Option Node -> Encoding -> Prop
  | none, encoding => encoding = .zero
  | some node, encoding =>
    (∃ value, IsText node value ∧ encoding = ⟨[value], false⟩) ∨
      ∃ values, values ≠ [] ∧ IsList IsText node values ∧ encoding = ⟨distinct values, true⟩

private theorem yields_readEncoding (document : String) (f : Fields) (encoding : Encoding) :
    (readEncoding document f).Yields encoding ↔ EncodingField (f.get? "encoding") encoding := by
  unfold readEncoding
  split
  · rename_i hg
    simp only [hg, EncodingField]
    split <;> simp
  · rename_i hg
    simp [hg, EncodingField, IsText, IsList]
  · rename_i items hne hg
    simp only [hg, EncodingField, Reviewed.yields_bind, Reviewed.yields_pure, yields_readStrings]
    constructor
    · rintro ⟨values, hv, rfl⟩
      refine Or.inr ⟨values, ?_, hv, rfl⟩
      rintro rfl
      obtain ⟨items, he, hf⟩ := hv
      rw [List.forall₂_nil_right_iff, List.map_eq_nil_iff] at hf
      obtain rfl := Node.sequence.inj he
      exact hne hf
    · rintro (⟨value, ht, _⟩ | ⟨values, _, hv, rfl⟩)
      · cases ht
      · exact ⟨values, hv, rfl⟩
  · rename_i node hnone hitems hg
    simp only [hg, EncodingField, Reviewed.yields_bind, Reviewed.yields_pure,
      describes_readString _ _ _]
    constructor
    · rintro ⟨_, ⟨value, ht, rfl⟩, rfl⟩
      exact Or.inl ⟨value, ht, rfl⟩
    · rintro (⟨value, ht, rfl⟩ | ⟨values, _, ⟨items, rfl, _⟩, _⟩)
      · exact ⟨_, ⟨value, ht, rfl⟩, rfl⟩
      · exact (hitems items rfl).elim

def BodyNode (node : Node) (body : Body SchemaType) : Prop :=
  ∃ entries, node = .mapping entries ∧
    TextField (Node.fieldOf entries "description") body.description ∧
    EncodingField (Node.fieldOf entries "encoding") body.encoding ∧
    OptionField (Typed .schema fun look t => t.SchemaDenoted look) (Node.fieldOf entries "schema")
      body.schema

private theorem describes_readBody (document : String) : Describes BodyNode
    (readBody document) := by
  intro node path v
  simp only [readBody, yields_readFields_bind]
  simp only [Reviewed.yields_bind, Reviewed.yields_pure, Fields.yields_textOr,
    yields_readEncoding, Fields.yields_optional (describes_readTyped readsKinds_readSchema)]
  constructor
  · rintro ⟨entries, rfl, d, hd, encoding, he, schema, hs, rfl⟩
    exact ⟨⟨d, encoding, schema⟩, ⟨entries, rfl, hd, he, hs⟩, rfl⟩
  · rintro ⟨body, ⟨entries, rfl, hd, he, hs⟩, rfl⟩
    exact ⟨entries, rfl, _, hd, _, he, _, hs, rfl⟩

def ErrorNode (node : Node) (error : NamedError) : Prop :=
  ∃ entries, node = .mapping entries ∧
    Node.fieldOf entries "name" = some (.scalar .str error.name) ∧
    TextField (Node.fieldOf entries "description") error.description

private theorem yields_readErrors (path : String) (seen : List String) (index : Nat)
    (nodes : List Node) (errors : List NamedError) :
    (readErrors path seen index nodes).Yields errors ↔
      List.Forall₂ ErrorNode nodes errors ∧ (errors.map NamedError.name).Nodup ∧
        ∀ error ∈ errors, error.name ∉ seen := by
  induction nodes generalizing seen index errors with
  | nil =>
    simp only [readErrors, Reviewed.yields_pure, List.forall₂_nil_left_iff]
    constructor
    · rintro rfl
      simp
    · exact fun h => h.1
  | cons node rest ih =>
    simp only [readErrors, yields_readFields_bind, Fields.yields_requiredString_bind,
      List.contains_iff_mem]
    constructor
    · rintro ⟨entries, rfl, name, hname, hv⟩
      split at hv
      · simp at hv
      · rename_i hs
        simp only [Reviewed.yields_bind, Reviewed.yields_pure, Fields.yields_textOr, ih] at hv
        obtain ⟨d, hd, others, ⟨hf, hn, ho⟩, rfl⟩ := hv
        simp only [List.mem_cons, not_or] at ho
        refine ⟨.cons ⟨entries, rfl, hname, hd⟩ hf, ?_, ?_⟩
        · rw [List.map_cons, List.nodup_cons]
          refine ⟨fun hm => ?_, hn⟩
          obtain ⟨error, he, hname⟩ := List.mem_map.mp hm
          exact (ho error he).1 hname
        · rw [List.forall_mem_cons]
          exact ⟨hs, fun error he => (ho error he).2⟩
    · rintro ⟨hf, hn, ho⟩
      obtain ⟨⟨name, d⟩, others, ⟨entries, rfl, hname, hd⟩, hrest, rfl⟩ :=
        List.forall₂_cons_left_iff.mp hf
      rw [List.map_cons, List.nodup_cons] at hn
      rw [List.forall_mem_cons] at ho
      refine ⟨entries, rfl, _, hname, ?_⟩
      simp only [ho.1, if_false, Reviewed.yields_bind, Reviewed.yields_pure,
        Fields.yields_textOr, ih, List.mem_cons, not_or]
      refine ⟨d, hd, others, ⟨hrest, hn.2, fun error he => ⟨fun hname => hn.1 ?_, ho.2 error he⟩⟩,
        rfl⟩
      exact List.mem_map.mpr ⟨error, he, hname⟩

private theorem yields_readErrorList (f : Fields) (errors : List NamedError) :
    (readErrorList f).Yields errors ↔
      ListField ErrorNode (f.get? "errors") errors ∧ (errors.map NamedError.name).Nodup := by
  simp only [readErrorList, Reviewed.yields_bind, Fields.yields_list?]
  constructor
  · rintro ⟨_, ⟨hg, rfl⟩ | ⟨items, hg, rfl⟩, hv⟩
    · simp only [Reviewed.yields_pure] at hv
      subst hv
      simp [hg, ListField]
    · simp only [yields_readErrors] at hv
      rw [hg]
      exact ⟨⟨items, rfl, hv.1⟩, hv.2.1⟩
  · rintro ⟨hl, hn⟩
    cases hg : f.get? "errors" with
    | none =>
      rw [hg] at hl
      exact ⟨none, by simp, (Reviewed.yields_pure _ _).mpr hl⟩
    | some node =>
      rw [hg] at hl
      obtain ⟨items, rfl, hi⟩ := hl
      refine ⟨some (items.map Node.bare), by simp, ?_⟩
      simp only [yields_readErrors]
      exact ⟨hi, hn, by simp⟩

/-- Fields that say what the contract of a method says. What a query says about an input does not
count. -/
structure Method.Denoted (look : Lookup) (kind : MethodKind) (m : Method SchemaType) : Prop where
  parameters : OptionField (ObjectNode [.params, .object]) (look "parameters") m.parameters
  input : OptionField BodyNode (if kind = .query then none else look "input") m.input
  output : OptionField BodyNode (look "output") m.output
  errors : ListField ErrorNode (look "errors") m.errors
  distinct : (m.errors.map NamedError.name).Nodup

private theorem yields_readMethod (document : String) (f : Fields) (kind : MethodKind)
    (m : Method SchemaType) :
    (readMethod document f kind).Yields m ↔ m.Denoted f.get? kind := by
  have hparameters : Describes (ObjectNode [.params, .object])
      (readObjectAs [(.params, true), (.object, false)]) := describes_readObjectAs (by simp)
  have hinput (input : Option (Body SchemaType)) : (readInput document f kind).Yields input ↔
      OptionField BodyNode (if kind = .query then none else f.get? "input") input := by
    cases kind with
    | query => simp [readInput, OptionField]
    | procedure => simp [readInput, Fields.yields_optional (describes_readBody document)]
  simp only [readMethod, Reviewed.yields_bind, Reviewed.yields_pure,
    Fields.yields_optional hparameters, hinput,
    Fields.yields_optional (describes_readBody document), yields_readErrorList]
  constructor
  · rintro ⟨parameters, hp, input, hi, output, ho, errors, ⟨he, hn⟩, rfl⟩
    exact ⟨hp, hi, ho, he, hn⟩
  · rintro ⟨hp, hi, ho, he, hn⟩
    exact ⟨_, hp, _, hi, _, ho, _, ⟨he, hn⟩, rfl⟩

def SchemaType.DefinitionDenoted (look : Lookup) : SchemaType -> Prop
  | .object o => o.Denoted look
  | .record _ key payload =>
    TextField (look "key") key ∧ ∃ node, look "record" = some node ∧
      ObjectNode [.object] node payload
  | .method _ kind m => m.Denoted look kind
  | t => t.ShallowDenoted .definition look

private theorem yields_readPayload (f : Fields) (v : Option (ObjectType SchemaType)) :
    (readPayload f).Yields v ↔
      ∃ o, (∃ node, f.get? "record" = some node ∧ ObjectNode [.object] node o) ∧ v = some o := by
  have hread : Describes (ObjectNode [.object]) (readObjectAs [(.object, false)]) :=
    describes_readObjectAs (by simp)
  unfold readPayload
  cases f.get? "record" with
  | none => simp
  | some node => simp [hread _ _ _]

private theorem readsKinds_readDefinition (document : String) :
    ReadsKinds Position.definition.allows (fun look t => t.DefinitionDenoted look)
      (readDefinition document) := by
  intro f kind d v hk
  constructor
  · intro hv
    cases kind with
    | object =>
      simp only [readDefinition, Reviewed.yields_bind, Reviewed.yields_pure,
        yields_readObject] at hv
      obtain ⟨o, ⟨rfl, hp, ho⟩, rfl⟩ := hv
      exact ⟨_, rfl, (o.kind_eq_iff false).mpr hp, rfl, ho⟩
    | record =>
      simp only [readDefinition, Reviewed.yields_bind, Reviewed.yields_pure,
        Fields.yields_textOr, yields_readPayload] at hv
      obtain ⟨key, hkey, _, ⟨o, ho, rfl⟩, rfl⟩ := hv
      exact ⟨_, rfl, rfl, rfl, hkey, ho⟩
    | query | procedure =>
      simp only [readDefinition, Reviewed.yields_bind, Reviewed.yields_pure,
        yields_readMethod] at hv
      obtain ⟨m, hm, rfl⟩ := hv
      exact ⟨_, rfl, rfl, rfl, hm⟩
    | params | ref | union => cases hk
    | _ =>
      obtain ⟨t, rfl, hkind, rfl, ht⟩ := (readsKinds_readShallow .definition f _ d v rfl).mp hv
      refine ⟨t, rfl, hkind, rfl, ?_⟩
      cases t with
      | object | record | method => exact ht.elim
      | _ => exact ht
  · rintro ⟨t, rfl, rfl, rfl, ht⟩
    cases t with
    | object o =>
      cases hp : o.params with
      | true => simp [SchemaType.kind, ObjectType.kind, hp, Position.allows] at hk
      | false =>
        simp only [SchemaType.kind, ObjectType.kind, hp, Bool.false_eq_true, if_false,
          readDefinition, Reviewed.yields_bind, Reviewed.yields_pure, yields_readObject]
        exact ⟨o, ⟨rfl, hp, ht⟩, rfl⟩
    | record d key payload =>
      simp only [SchemaType.kind, readDefinition, Reviewed.yields_bind, Reviewed.yields_pure,
        Fields.yields_textOr, yields_readPayload]
      exact ⟨key, ht.1, _, ⟨payload, ht.2, rfl⟩, rfl⟩
    | method d kind m =>
      cases kind with
      | query | procedure =>
        simp only [SchemaType.kind, MethodKind.kind, readDefinition, Reviewed.yields_bind,
          Reviewed.yields_pure, yields_readMethod]
        exact ⟨m, ht, rfl⟩
    | ref | union => cases hk
    | _ => exact (readsKinds_readShallow .definition f _ _ _ rfl).mpr ⟨_, rfl, rfl, rfl, ht⟩

def DefinitionEntry (entry : String × Node) (definition : Definition) : Prop :=
  definition.name = entry.1 ∧
    Typed .definition (fun look t => t.DefinitionDenoted look) entry.2 definition.type

private theorem yields_readDefinitions (document : String) (entries : List (String × Node))
    (defs : List Definition) :
    (readDefinitions document entries).Yields defs ↔ List.Forall₂ DefinitionEntry entries defs := by
  have hread := describes_readTyped (readsKinds_readDefinition document)
  induction entries generalizing defs with
  | nil => simp [readDefinitions]
  | cons entry rest ih =>
    rcases entry with ⟨name, node⟩
    simp only [readDefinitions, Reviewed.yields_bind, Reviewed.yields_pure, hread _ _ _, ih]
    constructor
    · rintro ⟨_, ⟨t, ht, rfl⟩, others, ho, rfl⟩
      exact .cons ⟨rfl, ht⟩ ho
    · intro hf
      obtain ⟨⟨name, t⟩, others, ⟨rfl, ht⟩, ho, rfl⟩ := List.forall₂_cons_left_iff.mp hf
      exact ⟨some t, ⟨t, ht, rfl⟩, others, ho, rfl⟩

/-- Fields that say what a document says. A version that is not given counts as zero. -/
structure Draft.Denoted (look : Lookup) (d : Draft) : Prop where
  version : ∃ version, OptionField IsInteger (look "lexicon") version ∧ d.version = version.getD 0
  id : TextField (look "id") d.id
  revision : OptionField IsInteger (look "revision") d.revision
  description : TextField (look "description") d.description
  defs : ∃ entries, look "defs" = some (.mapping entries) ∧
    ((Node.textEntries entries).map Prod.fst).Nodup ∧
    List.Forall₂ DefinitionEntry (Node.textEntries entries) d.defs

/-- A tree denotes the fields of a document. -/
def Markup.Node.Denotes (node : Node) (d : Draft) : Prop :=
  ∃ entries, node = .mapping entries ∧ d.Denoted (Node.fieldOf entries)

private theorem yields_readDefs (document : String) (f : Fields) (defs : List Definition) :
    (readDefs document f).Yields defs ↔
      ∃ entries, f.get? "defs" = some (.mapping entries) ∧
        ((Node.textEntries entries).map Prod.fst).Nodup ∧
        List.Forall₂ DefinitionEntry (Node.textEntries entries) defs := by
  unfold readDefs
  cases f.get? "defs" with
  | none => simp
  | some node =>
    simp only [yields_readFields_bind]
    simp only [Reviewed.yields_bind, Fields.yields_pairs, yields_readDefinitions]
    constructor
    · rintro ⟨entries, rfl, _, ⟨rfl, hn⟩, hf⟩
      exact ⟨entries, rfl, hn, hf⟩
    · rintro ⟨entries, he, hn, hf⟩
      obtain rfl := Option.some.inj he
      exact ⟨entries, rfl, _, ⟨rfl, hn⟩, hf⟩

/-- A tree is read without issues exactly if it denotes what was read. -/
theorem yields_readDraft (node : Node) (d : Draft) :
    (readDraft node).Yields d ↔ node.Denotes d := by
  simp only [readDraft, yields_readFields_bind]
  simp only [Reviewed.yields_bind, Reviewed.yields_pure, Fields.yields_textOr,
    Fields.yields_optional describes_readInteger, yields_readDefs]
  constructor
  · rintro ⟨entries, rfl, version, hversion, id, hid, revision, hr, description, hd, defs, hdefs,
      rfl⟩
    exact ⟨entries, rfl, ⟨version, hversion, rfl⟩, hid, hr, hd, hdefs⟩
  · rintro ⟨entries, rfl, ⟨version, hversion, hv⟩, hid, hr, hd, hdefs⟩
    refine ⟨entries, rfl, version, hversion, _, hid, _, hr, _, hd, _, hdefs, ?_⟩
    rw [← hv]

end LexiconCompiler
