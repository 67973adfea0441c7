import LexiconCompiler.Proofs.Schema.Soundness
import Mathlib.Data.List.Perm.Basic

set_option autoImplicit false
set_option relaxedAutoImplicit false

/-!
Documents that differ in the order of their definitions and of the properties of objects. Both are
valid or none is, and the checks give the same warnings, in another order.
-/

namespace LexiconCompiler

/-- Lists whose entries are related one by one once those of the first are put in order. -/
def UpToOrder {α : Type} (R : α → α → Prop) (xs ys : List α) : Prop :=
  ∃ zs, xs.Perm zs ∧ List.Forall₂ R zs ys

/-- Objects that have the same properties, maybe in another order. -/
structure ObjectType.Shuffled (o p : ObjectType SchemaType) : Prop where
  description : p.description = o.description
  required : p.required = o.required
  params : p.params = o.params
  properties : o.properties.Perm p.properties

/-- The same type, or objects that have the same properties. -/
inductive SchemaType.MembersShuffled : SchemaType → SchemaType → Prop
  | refl (t : SchemaType) : MembersShuffled t t
  | object {o p : ObjectType SchemaType} : o.Shuffled p → MembersShuffled (.object o) (.object p)

/-- Bodies whose schemas differ at most in the order of properties. -/
structure Body.Shuffled (b c : Body SchemaType) : Prop where
  description : c.description = b.description
  encoding : c.encoding = b.encoding
  schema : Option.Rel SchemaType.MembersShuffled b.schema c.schema

/-- Methods whose parameters and bodies differ at most in the order of properties. -/
structure Method.Shuffled (m k : Method SchemaType) : Prop where
  parameters : Option.Rel ObjectType.Shuffled m.parameters k.parameters
  input : Option.Rel Body.Shuffled m.input k.input
  output : Option.Rel Body.Shuffled m.output k.output
  errors : k.errors = m.errors

/-- Definitions that differ at most in the order of properties. -/
inductive SchemaType.Shuffled : SchemaType → SchemaType → Prop
  | members {t u : SchemaType} : t.MembersShuffled u → Shuffled t u
  | record {d key : String} {o p : ObjectType SchemaType} : o.Shuffled p →
      Shuffled (.record d key o) (.record d key p)
  | method {d : String} {kind : MethodKind} {m k : Method SchemaType} : m.Shuffled k →
      Shuffled (.method d kind m) (.method d kind k)

structure Definition.Shuffled (x y : Definition) : Prop where
  name : y.name = x.name
  type : x.type.Shuffled y.type

/-- Documents that differ at most in the order of definitions and of properties. -/
structure Draft.Shuffled (d e : Draft) : Prop where
  version : e.version = d.version
  id : e.id = d.id
  revision : e.revision = d.revision
  description : e.description = d.description
  defs : UpToOrder Definition.Shuffled d.defs e.defs

/-- Documents that differ at most in the order of definitions, of properties and of warnings. Each
keeps the tree that it was read from. -/
structure Document.Shuffled (d e : Document) : Prop extends d.toDraft.Shuffled e.toDraft where
  source : e.source = d.source
  warnings : d.warnings.Perm e.warnings
  nsid : e.nsid = d.nsid

section Laws

variable {α : Type} {R : α → α → Prop}

private theorem rel_trans {a b c : Option α} (hab : Option.Rel R a b) (hbc : Option.Rel R b c)
    (h : ∀ {x y z}, R x y → R y z → R x z) : Option.Rel R a c := by
  cases hab with
  | none => exact hbc
  | some hxy =>
    cases hbc with
    | some hyz => exact .some (h hxy hyz)

private theorem forall₂_trans {xs ys zs : List α} (hxy : List.Forall₂ R xs ys)
    (hyz : List.Forall₂ R ys zs) (h : ∀ {x y z}, R x y → R y z → R x z) :
    List.Forall₂ R xs zs := by
  induction hxy generalizing zs with
  | nil => exact hyz
  | cons hr _ ih =>
    obtain ⟨_, _, hs, hrest, rfl⟩ := List.forall₂_cons_left_iff.mp hyz
    exact .cons (h hr hs) (ih hrest)

private theorem UpToOrder.trans {xs ys zs : List α} (hxy : UpToOrder R xs ys)
    (hyz : UpToOrder R ys zs) (h : ∀ {x y z}, R x y → R y z → R x z) : UpToOrder R xs zs := by
  obtain ⟨us, hxs, hus⟩ := hxy
  obtain ⟨vs, hys, hvs⟩ := hyz
  -- The second order is carried back to the entries of the first list.
  obtain ⟨ws, hws, hperm⟩ := List.perm_comp_forall₂ hys.symm hus.flip
  exact ⟨ws, hxs.trans hperm.symm, forall₂_trans hws.flip hvs h⟩

private theorem UpToOrder.length_eq {xs ys : List α} (h : UpToOrder R xs ys) :
    xs.length = ys.length := by
  obtain ⟨zs, hperm, hr⟩ := h
  rw [hperm.length_eq, hr.length_eq]

private theorem UpToOrder.exists_of_mem {xs ys : List α} (h : UpToOrder R xs ys) {y : α}
    (hy : y ∈ ys) :
    ∃ x ∈ xs, R x y := by
  obtain ⟨zs, hperm, hr⟩ := h
  obtain ⟨x, hx, hxy⟩ := exists_of_forall₂_mem hr hy
  exact ⟨x, hperm.mem_iff.mpr hx, hxy⟩

theorem UpToOrder.flatMap_perm {β : Type} {xs ys : List α} (h : UpToOrder R xs ys)
    {f : α → List β} (hf : ∀ x y, R x y → (f x).Perm (f y)) :
    (xs.flatMap f).Perm (ys.flatMap f) := by
  obtain ⟨zs, hperm, hr⟩ := h
  refine (hperm.flatMap_right f).trans ?_
  clear hperm
  induction hr with
  | nil => exact .refl _
  | cons hxy _ ih =>
    rw [List.flatMap_cons, List.flatMap_cons]
    exact (hf _ _ hxy).append ih

private theorem UpToOrder.map_perm {β : Type} {xs ys : List α} (h : UpToOrder R xs ys) {f : α → β}
    (hf : ∀ x y, R x y → f y = f x) : (xs.map f).Perm (ys.map f) := by
  have hperm := h.flatMap_perm (f := fun x => [f x]) fun x y hxy => by rw [hf x y hxy]
  rwa [← List.map_eq_flatMap, ← List.map_eq_flatMap] at hperm

end Laws

section Transitivity

variable {o p q : ObjectType SchemaType} {t u v : SchemaType} {b c e : Body SchemaType}

theorem ObjectType.Shuffled.refl (o : ObjectType SchemaType) : o.Shuffled o :=
  ⟨rfl, rfl, rfl, .refl _⟩

private theorem ObjectType.Shuffled.trans (h : o.Shuffled p) (k : p.Shuffled q) : o.Shuffled q :=
  ⟨k.description.trans h.description, k.required.trans h.required, k.params.trans h.params,
    h.properties.trans k.properties⟩

private theorem SchemaType.MembersShuffled.trans (h : t.MembersShuffled u)
    (k : u.MembersShuffled v) :
    t.MembersShuffled v := by
  cases h with
  | refl => exact k
  | object ho =>
    cases k with
    | refl => exact .object ho
    | object hp => exact .object (ho.trans hp)

private theorem Body.Shuffled.trans (h : b.Shuffled c) (k : c.Shuffled e) : b.Shuffled e :=
  ⟨k.description.trans h.description, k.encoding.trans h.encoding,
    rel_trans h.schema k.schema SchemaType.MembersShuffled.trans⟩

private theorem Method.Shuffled.trans {m k l : Method SchemaType} (h : m.Shuffled k)
    (h' : k.Shuffled l) :
    m.Shuffled l where
  parameters := rel_trans h.parameters h'.parameters ObjectType.Shuffled.trans
  input := rel_trans h.input h'.input Body.Shuffled.trans
  output := rel_trans h.output h'.output Body.Shuffled.trans
  errors := h'.errors.trans h.errors

private theorem SchemaType.Shuffled.trans (h : t.Shuffled u) (k : u.Shuffled v) : t.Shuffled v := by
  cases h with
  | members h =>
    cases h with
    | refl => exact k
    | object ho =>
      cases k with
      | members k => exact .members ((MembersShuffled.object ho).trans k)
  | record ho =>
    cases k with
    | members k =>
      cases k with
      | refl => exact .record ho
    | record hp => exact .record (ho.trans hp)
  | method hm =>
    cases k with
    | members k =>
      cases k with
      | refl => exact .method hm
    | method hk => exact .method (hm.trans hk)

theorem SchemaType.Shuffled.refl (t : SchemaType) : t.Shuffled t := .members (.refl t)

private theorem Definition.Shuffled.trans {x y z : Definition} (h : x.Shuffled y)
    (k : y.Shuffled z) :
    x.Shuffled z :=
  ⟨k.name.trans h.name, h.type.trans k.type⟩

private theorem Draft.Shuffled.refl (d : Draft) : d.Shuffled d :=
  ⟨rfl, rfl, rfl, rfl, d.defs, .refl _, List.forall₂_same.mpr fun _ _ => ⟨rfl, .refl _⟩⟩

private theorem Draft.Shuffled.trans {d e f : Draft} (h : d.Shuffled e) (k : e.Shuffled f) :
    d.Shuffled f where
  version := k.version.trans h.version
  id := k.id.trans h.id
  revision := k.revision.trans h.revision
  description := k.description.trans h.description
  defs := h.defs.trans k.defs Definition.Shuffled.trans

theorem Document.Shuffled.refl (d : Document) : d.Shuffled d :=
  ⟨.refl _, rfl, .refl _, rfl⟩

theorem Document.Shuffled.trans {d e f : Document} (h : d.Shuffled e) (k : e.Shuffled f) :
    d.Shuffled f :=
  ⟨h.toShuffled.trans k.toShuffled, k.source.trans h.source, h.warnings.trans k.warnings,
    k.nsid.trans h.nsid⟩

end Transitivity

section WellFormed

variable {o p : ObjectType SchemaType} {t u : SchemaType} {b c : Body SchemaType}
  {m k : Method SchemaType}

private theorem ObjectType.Shuffled.isPlain (h : o.Shuffled p) (ho : o.IsPlain) : p.IsPlain :=
  ⟨h.params.trans ho.1, fun x hx => ho.2 x (h.properties.mem_iff.mpr hx)⟩

private theorem ObjectType.Shuffled.isParameters (h : o.Shuffled p) (ho : o.IsParameters) :
    p.IsParameters :=
  ho.imp h.isPlain fun hp =>
    ⟨h.params.trans hp.1, fun x hx => hp.2 x (h.properties.mem_iff.mpr hx)⟩

private theorem object_valid (h : o.Shuffled p) (ho : (SchemaType.object o).Valid) :
    (SchemaType.object p).Valid where
  shaped := by
    have hnames := h.properties.map Property.name
    exact hnames.nodup_iff.mp ho.shaped
  named := by
    obtain ⟨hrequired, hproperties⟩ := ho.named
    exact ⟨h.required ▸ hrequired, fun x hx => hproperties x (h.properties.mem_iff.mpr hx)⟩
  coherent := by
    intro name hname
    rw [h.required] at hname
    obtain ⟨x, hx, hn⟩ := ho.coherent name hname
    exact ⟨x, h.properties.mem_iff.mp hx, hn⟩

private theorem ObjectType.Shuffled.valid (h : o.Shuffled p)
    (ho : ∀ t : SchemaType, t.Inside (.object o) → t.Valid) :
    ∀ t : SchemaType, t.Inside (.object p) → t.Valid := by
  rw [SchemaType.forall_inside_iff] at ho ⊢
  refine ⟨object_valid h ho.1, fun u hu => ?_⟩
  obtain ⟨x, hx, rfl⟩ := SchemaType.part_object.mp hu
  exact ho.2 _ (.property (h.properties.mem_iff.mpr hx))

private theorem SchemaType.MembersShuffled.valid (h : t.MembersShuffled u)
    (ht : ∀ s : SchemaType, s.Inside t → s.Valid) : ∀ s : SchemaType, s.Inside u → s.Valid := by
  cases h with
  | refl => exact ht
  | object ho => exact ho.valid ht

private theorem SchemaType.MembersShuffled.isSchema (h : t.MembersShuffled u) (ht : t.IsSchema) :
    u.IsSchema := by
  cases h with
  | refl => exact ht
  | object ho => exact ho.isPlain ht

private theorem rel_exists {α : Type} {R : α → α → Prop} {a b : Option α} (h : Option.Rel R a b)
    {y : α} (hy : b = some y) : ∃ x, a = some x ∧ R x y := by
  subst hy
  cases h with
  | some hxy => exact ⟨_, rfl, hxy⟩

private theorem Method.Shuffled.body (h : m.Shuffled k) (hc : c ∈ k.bodies) :
    ∃ b ∈ m.bodies, b.Shuffled c := by
  simp only [Method.bodies, List.mem_append, Option.mem_toList] at hc ⊢
  rcases hc with hc | hc
  · obtain ⟨b, hb, hbc⟩ := rel_exists h.input hc
    exact ⟨b, Or.inl hb, hbc⟩
  · obtain ⟨b, hb, hbc⟩ := rel_exists h.output hc
    exact ⟨b, Or.inr hb, hbc⟩

private theorem method_valid {d : String} {kind : MethodKind} (h : m.Shuffled k)
    (hm : (SchemaType.method d kind m).Valid) : (SchemaType.method d kind k).Valid where
  shaped := by
    have hshaped : m.Shaped kind := hm.shaped
    refine ⟨fun hquery => ?_, fun c hc => ?_, h.errors ▸ hshaped.errors⟩
    · rw [Option.eq_none_iff_forall_ne_some]
      intro c hc
      obtain ⟨b, hb, -⟩ := rel_exists h.input hc
      rw [hshaped.input hquery] at hb
      cases hb
    · obtain ⟨b, hb, hbc⟩ := h.body hc
      rw [hbc.encoding]
      exact hshaped.encodings b hb
  named := by
    have hnamed : m.Named := hm.named
    refine ⟨fun c hc => ?_, h.errors ▸ hnamed.errors⟩
    obtain ⟨b, hb, hbc⟩ := h.body hc
    rw [hbc.encoding]
    exact hnamed.encodings b hb
  coherent := trivial

private theorem Method.Shuffled.valid {d : String} {kind : MethodKind} (h : m.Shuffled k)
    (hm : ∀ t : SchemaType, t.Inside (.method d kind m) → t.Valid) :
    ∀ t : SchemaType, t.Inside (.method d kind k) → t.Valid := by
  rw [SchemaType.forall_inside_iff] at hm ⊢
  refine ⟨method_valid h hm.1, fun u hu => ?_⟩
  have hschema {b c : Body SchemaType} (hbc : b.Shuffled c) (hs : c.schema = some u)
      (hvalid : ∀ s, b.schema = some s → ∀ t : SchemaType, t.Inside s → t.Valid) :
      ∀ t : SchemaType, t.Inside u → t.Valid := by
    obtain ⟨s, hbs, hsu⟩ := rel_exists hbc.schema hs
    exact hsu.valid (hvalid s hbs)
  rcases SchemaType.part_method.mp hu with ⟨p, hp, rfl⟩ | ⟨c, hc, hs⟩ | ⟨c, hc, hs⟩
  · obtain ⟨o, ho, hop⟩ := rel_exists h.parameters hp
    exact hop.valid (hm.2 _ (.parameters ho))
  · obtain ⟨b, hb, hbc⟩ := rel_exists h.input hc
    exact hschema hbc hs fun s hbs => hm.2 s (.input hb hbs)
  · obtain ⟨b, hb, hbc⟩ := rel_exists h.output hc
    exact hschema hbc hs fun s hbs => hm.2 s (.output hb hbs)

private theorem SchemaType.Shuffled.valid (h : t.Shuffled u)
    (ht : ∀ s : SchemaType, s.Inside t → s.Valid) : ∀ s : SchemaType, s.Inside u → s.Valid := by
  cases h with
  | members h => exact h.valid ht
  | record ho =>
    rw [SchemaType.forall_inside_iff] at ht ⊢
    refine ⟨⟨trivial, trivial, trivial⟩, fun s hs => ?_⟩
    obtain rfl := SchemaType.part_record.mp hs
    exact ho.valid (ht.2 _ .payload)
  | method hm => exact hm.valid ht

private theorem SchemaType.Shuffled.isDefinition (h : t.Shuffled u) (ht : t.IsDefinition) :
    u.IsDefinition := by
  cases h with
  | members h =>
    cases h with
    | refl => exact ht
    | object ho => exact ho.isPlain ht
  | record ho => exact ho.isPlain ht
  | method hm =>
    obtain ⟨hparameters, hbodies⟩ := ht
    refine ⟨fun p hp => ?_, fun c hc s hs => ?_⟩
    · obtain ⟨o, ho, hop⟩ := rel_exists hm.parameters hp
      exact hop.isParameters (hparameters o ho)
    · obtain ⟨b, hb, hbc⟩ := hm.body hc
      obtain ⟨r, hr, hrs⟩ := rel_exists hbc.schema hs
      exact hrs.isSchema (hbodies b hb r hr)

private theorem SchemaType.Shuffled.isPrincipal (h : t.Shuffled u) (hu : u.IsPrincipal) :
    t.IsPrincipal := by
  cases h with
  | members h =>
    cases h with
    | refl => exact hu
    | object => exact hu
  | record => trivial
  | method => trivial

private theorem Definition.Shuffled.wellFormed {x y : Definition} (h : x.Shuffled y)
    (hx : x.WellFormed) :
    y.WellFormed where
  name := h.name ▸ hx.name
  legal := h.type.isDefinition hx.legal
  placed := fun hy => h.name.trans (hx.placed (h.type.isPrincipal hy))
  valid := h.type.valid hx.valid

/-- Whether a document is valid does not depend on the order of definitions and properties. -/
theorem Draft.Shuffled.wellFormed {d e : Draft} (h : d.Shuffled e) (hd : d.WellFormed) :
    e.WellFormed where
  version := h.version.trans hd.version
  id := h.id ▸ hd.id
  revision := h.revision ▸ hd.revision
  nonempty := by
    have hlength := h.defs.length_eq
    have hne := List.length_pos_of_ne_nil hd.nonempty
    exact List.ne_nil_of_length_pos (by omega)
  distinct := (h.defs.map_perm fun _ _ hxy => hxy.name).nodup_iff.mp hd.distinct
  defs := fun y hy => by
    obtain ⟨x, hx, hxy⟩ := h.defs.exists_of_mem hy
    exact hxy.wellFormed (hd.defs x hx)

end WellFormed

section Warnings

variable {document path : String} {o p : ObjectType SchemaType} {t u : SchemaType}

def SchemaType.warnings (document : String) (t : SchemaType) (path : String) : List Warning :=
  (t.visits path).flatMap (Visit.warnings document)

private theorem SchemaType.warnings_eq (document : String) (t : SchemaType) (path : String) :
    t.warnings document path = Visit.warnings document ⟨t, path⟩ ++
      (t.parts path).flatMap fun visit => visit.type.warnings document visit.path := by
  rw [warnings, visits_eq, List.flatMap_cons, List.flatMap_assoc]
  rfl

private theorem ObjectType.Shuffled.warnings_perm (h : o.Shuffled p) :
    ((SchemaType.object o).warnings document path).Perm
      ((SchemaType.object p).warnings document path) := by
  rw [SchemaType.warnings_eq, SchemaType.warnings_eq]
  refine List.Perm.append (.refl _) (List.Perm.flatMap_right _ ?_)
  exact h.properties.map _

private theorem SchemaType.MembersShuffled.warnings_perm (h : t.MembersShuffled u) :
    (t.warnings document path).Perm (u.warnings document path) := by
  cases h with
  | refl => exact .refl _
  | object ho => exact ho.warnings_perm

private theorem rel_flatMap_perm {α : Type} {R : α → α → Prop} {a b : Option α} {f : α → Visit}
    (h : Option.Rel R a b)
    (hf : ∀ x y, R x y → ((f x).type.warnings document (f x).path).Perm
      ((f y).type.warnings document (f y).path)) :
    ((a.map f).toList.flatMap fun visit => visit.type.warnings document visit.path).Perm
      ((b.map f).toList.flatMap fun visit => visit.type.warnings document visit.path) := by
  cases h with
  | none => exact .refl _
  | some hxy => simpa using hf _ _ hxy

private theorem bodyParts_perm {b c : Option (Body SchemaType)} (h : Option.Rel Body.Shuffled b c) :
    ((bodyParts b path).flatMap fun visit => visit.type.warnings document visit.path).Perm
      ((bodyParts c path).flatMap fun visit => visit.type.warnings document visit.path) := by
  cases h with
  | none => exact .refl _
  | some hbc => exact rel_flatMap_perm hbc.schema fun _ _ hst => hst.warnings_perm

private theorem bodyWarnings_eq {b c : Option (Body SchemaType)}
    (h : Option.Rel Body.Shuffled b c) :
    bodyWarnings document path c = bodyWarnings document path b := by
  cases h with
  | none => rfl
  | some hbc => simp only [bodyWarnings, hbc.encoding]

private theorem SchemaType.Shuffled.warnings_perm (h : t.Shuffled u) :
    (t.warnings document path).Perm (u.warnings document path) := by
  cases h with
  | members h => exact h.warnings_perm
  | record ho =>
    rw [SchemaType.warnings_eq, SchemaType.warnings_eq]
    refine List.Perm.append (.refl _) ?_
    simpa [SchemaType.parts] using ho.warnings_perm
  | method hm =>
    rw [SchemaType.warnings_eq, SchemaType.warnings_eq]
    simp only [Visit.warnings, SchemaType.parts, List.flatMap_append, bodyWarnings_eq hm.input,
      bodyWarnings_eq hm.output]
    refine List.Perm.append (.refl _) ?_
    refine List.Perm.append (List.Perm.append ?_ (bodyParts_perm hm.input))
      (bodyParts_perm hm.output)
    exact rel_flatMap_perm hm.parameters fun _ _ hop => hop.warnings_perm

theorem Draft.Shuffled.check_warnings_perm {d e : Draft} (h : d.Shuffled e) :
    d.check.warnings.Perm e.check.warnings := by
  have hwarnings (d : Draft) : d.check.warnings =
      d.defs.flatMap fun x => x.type.warnings d.id (joinPath "defs" x.name) := by
    simp only [Draft.check, Draft.visits, List.flatMap_assoc]
    rfl
  rw [hwarnings, hwarnings, h.id]
  refine h.defs.flatMap_perm fun x y hxy => ?_
  rw [hxy.name]
  exact hxy.type.warnings_perm

end Warnings

end LexiconCompiler
