import LexiconCompiler.Schema.Document
import Mathlib.Logic.Relation

set_option autoImplicit false
set_option relaxedAutoImplicit false

/-!
What stands inside a type. The walk of a type is the type itself, followed by the walks of the
types directly inside it, so it meets exactly the types that occur in it.
-/

namespace LexiconCompiler

namespace SchemaType

/-- One type stands directly inside another one: as items, as a property, as a payload, as
parameters or as the schema of a body, whether the body has an encoding or not. -/
inductive Part : SchemaType -> SchemaType -> Prop
  | items {d : String} {items : SchemaType} {least most : Option Nat} :
      Part items (.array d items least most)
  | property {o : ObjectType SchemaType} {p : Property SchemaType} :
      p ∈ o.properties → Part p.type (.object o)
  | payload {d key : String} {o : ObjectType SchemaType} : Part (.object o) (.record d key o)
  | parameters {d : String} {k : MethodKind} {m : Method SchemaType} {o : ObjectType SchemaType} :
      m.parameters = some o → Part (.object o) (.method d k m)
  | input {d : String} {k : MethodKind} {m : Method SchemaType} {b : Body SchemaType}
      {s : SchemaType} : m.input = some b → b.schema = some s → Part s (.method d k m)
  | output {d : String} {k : MethodKind} {m : Method SchemaType} {b : Body SchemaType}
      {s : SchemaType} : m.output = some b → b.schema = some s → Part s (.method d k m)

/-- A type occurs in another one, at any depth; every type occurs in itself. -/
def Inside : SchemaType -> SchemaType -> Prop := Relation.ReflTransGen Part

theorem Part.inside {t s : SchemaType} (h : Part t s) : t.Inside s := .single h

theorem Inside.refl (t : SchemaType) : t.Inside t := Relation.ReflTransGen.refl

theorem Inside.trans {t u s : SchemaType} (h : t.Inside u) (k : u.Inside s) : t.Inside s :=
  Relation.ReflTransGen.trans h k

theorem inside_iff {t s : SchemaType} : t.Inside s ↔ t = s ∨ ∃ u, Part u s ∧ t.Inside u := by
  constructor
  · intro h
    rcases Relation.ReflTransGen.cases_tail h with he | ⟨u, hu, hp⟩
    · exact Or.inl he.symm
    · exact Or.inr ⟨u, hp, hu⟩
  · rintro (rfl | ⟨u, hp, hu⟩)
    · exact Inside.refl t
    · exact hu.tail hp

theorem forall_inside_iff {P : SchemaType → Prop} {s : SchemaType} :
    (∀ t : SchemaType, t.Inside s → P t) ↔
      P s ∧ ∀ u, Part u s → ∀ t : SchemaType, t.Inside u → P t := by
  constructor
  · intro h
    exact ⟨h s (Inside.refl s), fun u hp t ht => h t (ht.tail hp)⟩
  · rintro ⟨hs, hp⟩ t ht
    rcases inside_iff.mp ht with rfl | ⟨u, hu, htu⟩
    · exact hs
    · exact hp u hu t htu

@[simp] theorem part_array {u items : SchemaType} {d : String} {least most : Option Nat} :
    Part u (.array d items least most) ↔ u = items := by
  constructor
  · rintro ⟨⟩
    rfl
  · rintro rfl
    exact .items

@[simp] theorem part_object {u : SchemaType} {o : ObjectType SchemaType} :
    Part u (.object o) ↔ ∃ p ∈ o.properties, p.type = u := by
  constructor
  · rintro ⟨⟩
    exact ⟨_, ‹_›, rfl⟩
  · rintro ⟨p, hp, rfl⟩
    exact .property hp

@[simp] theorem part_record {u : SchemaType} {d key : String} {o : ObjectType SchemaType} :
    Part u (.record d key o) ↔ u = .object o := by
  constructor
  · rintro ⟨⟩
    rfl
  · rintro rfl
    exact .payload

@[simp] theorem part_method {u : SchemaType} {d : String} {k : MethodKind}
    {m : Method SchemaType} :
    Part u (.method d k m) ↔
      (∃ o, m.parameters = some o ∧ u = .object o) ∨
        (∃ b, m.input = some b ∧ b.schema = some u) ∨
          ∃ b, m.output = some b ∧ b.schema = some u := by
  constructor
  · intro h
    cases h with
    | parameters ho => exact Or.inl ⟨_, ho, rfl⟩
    | input hb hs => exact Or.inr (Or.inl ⟨_, hb, hs⟩)
    | output hb hs => exact Or.inr (Or.inr ⟨_, hb, hs⟩)
  · rintro (⟨o, ho, rfl⟩ | ⟨b, hb, hs⟩ | ⟨b, hb, hs⟩)
    · exact .parameters ho
    · exact .input hb hs
    · exact .output hb hs

def IsLeaf : SchemaType -> Prop
  | .array .. | .object .. | .record .. | .method .. => False
  | _ => True

theorem IsLeaf.not_part {u s : SchemaType} (h : s.IsLeaf) : ¬ Part u s := by
  rintro ⟨⟩ <;> exact h

theorem IsLeaf.forall_inside_iff {P : SchemaType → Prop} {s : SchemaType} (h : s.IsLeaf) :
    (∀ t : SchemaType, t.Inside s → P t) ↔ P s := by
  rw [SchemaType.forall_inside_iff]
  exact and_iff_left fun u hu => (h.not_part hu).elim

private theorem sizeOf_schema_lt {b : Body SchemaType} {s : SchemaType}
    (h : b.schema = some s) : sizeOf s < sizeOf b := by
  rcases b with ⟨d, e, schema⟩
  subst h
  simp only [Body.mk.sizeOf_spec, Option.some.sizeOf_spec]
  omega

private theorem Part.sizeOf_lt {t s : SchemaType} (h : Part t s) : sizeOf t < sizeOf s := by
  cases h with
  | items => simp only [SchemaType.array.sizeOf_spec]; omega
  | @property o p hp =>
    have hm := List.sizeOf_lt_of_mem hp
    have ht : sizeOf p.type < sizeOf p := by
      rcases p with ⟨name, type⟩
      simp only [Property.mk.sizeOf_spec]
      omega
    rcases o with ⟨d, required, properties, params⟩
    simp only [SchemaType.object.sizeOf_spec, ObjectType.mk.sizeOf_spec] at hm ⊢
    omega
  | @payload d key o =>
    have hk : 0 < sizeOf key := by
      cases key
      simp only [String.ofByteArray.sizeOf_spec]
      omega
    simp only [SchemaType.object.sizeOf_spec, SchemaType.record.sizeOf_spec]
    omega
  | @parameters d k m o hm =>
    rcases m with ⟨parameters, input, output, errors⟩
    subst hm
    simp only [SchemaType.object.sizeOf_spec, SchemaType.method.sizeOf_spec,
      Method.mk.sizeOf_spec, Option.some.sizeOf_spec]
    omega
  | @input d k m b s hm hs =>
    have hb := sizeOf_schema_lt hs
    rcases m with ⟨parameters, input, output, errors⟩
    subst hm
    simp only [SchemaType.method.sizeOf_spec, Method.mk.sizeOf_spec, Option.some.sizeOf_spec]
    omega
  | @output d k m b s hm hs =>
    have hb := sizeOf_schema_lt hs
    rcases m with ⟨parameters, input, output, errors⟩
    subst hm
    simp only [SchemaType.method.sizeOf_spec, Method.mk.sizeOf_spec, Option.some.sizeOf_spec]
    omega

/-- Induction over types: what holds of a type once it holds of its parts holds of every type. -/
theorem induction_parts {motive : SchemaType → Prop}
    (step : ∀ s, (∀ t, Part t s → motive t) → motive s) (s : SchemaType) : motive s := by
  refine (measure sizeOf).wf.induction s ?_
  intro s ih
  apply step
  intro t ht
  exact ih t ht.sizeOf_lt

end SchemaType

def bodyParts (body : Option (Body SchemaType)) (path : String) : List Visit :=
  ((body.bind Body.schema).map fun schema => ⟨schema, joinPath path "schema"⟩).toList

/-- The parts of a type in order, each at its place. -/
def SchemaType.parts : SchemaType -> String -> List Visit
  | .array _ items _ _, path => [⟨items, joinPath path "items"⟩]
  | .object o, path =>
    o.properties.map fun p => ⟨p.type, joinPath (joinPath path "properties") p.name⟩
  | .record _ _ payload, path => [⟨.object payload, joinPath path "record"⟩]
  | .method _ _ m, path =>
    (m.parameters.map fun o => ⟨.object o, joinPath path "parameters"⟩).toList ++
      bodyParts m.input (joinPath path "input") ++ bodyParts m.output (joinPath path "output")
  | _, _ => []

private theorem mem_bodyParts (body : Option (Body SchemaType)) (path : String) (t : SchemaType) :
    (∃ visit ∈ bodyParts body path, visit.type = t) ↔
      ∃ b, body = some b ∧ b.schema = some t := by
  rcases body with _ | ⟨d, e, _ | schema⟩ <;> simp [bodyParts]

private theorem SchemaType.mem_parts (s t : SchemaType) (path : String) :
    (∃ visit ∈ s.parts path, visit.type = t) ↔ Part t s := by
  constructor
  · intro h
    cases s with
    | array d items least most =>
      obtain ⟨visit, hv, rfl⟩ := h
      obtain rfl := List.mem_singleton.mp hv
      exact .items
    | object o =>
      obtain ⟨visit, hv, rfl⟩ := h
      obtain ⟨p, hp, rfl⟩ := List.mem_map.mp hv
      exact .property hp
    | record d key payload =>
      obtain ⟨visit, hv, rfl⟩ := h
      obtain rfl := List.mem_singleton.mp hv
      exact .payload
    | method d k m =>
      simp only [parts, List.mem_append, or_and_right, exists_or, mem_bodyParts] at h
      rcases h with (⟨visit, hv, rfl⟩ | ⟨b, hb, hs⟩) | ⟨b, hb, hs⟩
      · obtain ⟨o, ho, rfl⟩ := Option.map_eq_some_iff.mp (Option.mem_toList.mp hv)
        exact .parameters ho
      · exact .input hb hs
      · exact .output hb hs
    | _ => simp [parts] at h
  · intro h
    cases h with
    | items => exact ⟨_, List.mem_singleton.mpr rfl, rfl⟩
    | property hp => exact ⟨_, List.mem_map.mpr ⟨_, hp, rfl⟩, rfl⟩
    | payload => exact ⟨_, List.mem_singleton.mpr rfl, rfl⟩
    | parameters ho => simp [parts, ho]
    | input hb hs =>
      obtain ⟨visit, hv, ht⟩ := (mem_bodyParts _ (joinPath path "input") _).mpr ⟨_, hb, hs⟩
      exact ⟨visit, by simp [parts, hv], ht⟩
    | output hb hs =>
      obtain ⟨visit, hv, ht⟩ := (mem_bodyParts _ (joinPath path "output") _).mpr ⟨_, hb, hs⟩
      exact ⟨visit, by simp [parts, hv], ht⟩

private theorem objectVisits_eq (o : ObjectType SchemaType) (path : String) :
    objectVisits o path =
      ((SchemaType.object o).parts path).flatMap fun v => v.type.visits v.path := by
  rcases o with ⟨d, required, properties, params⟩
  simp only [objectVisits, SchemaType.parts, List.flatMap_map]
  induction properties with
  | nil => simp only [propertyVisits, List.flatMap_nil]
  | cons p rest ih =>
    simp only [propertyVisits, List.flatMap_cons, ih]

private theorem object_visits (o : ObjectType SchemaType) (path : String) :
    (SchemaType.object o).visits path = ⟨.object o, path⟩ :: objectVisits o path := by
  rw [SchemaType.visits]

private theorem parameterVisits_eq (parameters : Option (ObjectType SchemaType)) (path : String) :
    parameterVisits parameters path =
      (parameters.map fun o => (⟨.object o, path⟩ : Visit)).toList.flatMap
        fun v => v.type.visits v.path := by
  cases parameters with
  | none => simp [parameterVisits]
  | some o => simp [parameterVisits, object_visits]

private theorem bodyVisits_eq (body : Option (Body SchemaType)) (path : String) :
    bodyVisits body path = (bodyParts body path).flatMap fun v => v.type.visits v.path := by
  rcases body with _ | ⟨d, e, _ | schema⟩ <;> simp [bodyVisits, bodyParts]

theorem SchemaType.visits_eq (s : SchemaType) (path : String) :
    s.visits path = ⟨s, path⟩ :: (s.parts path).flatMap fun v => v.type.visits v.path := by
  cases s with
  | array d items least most => simp [SchemaType.visits, parts]
  | object o => rw [object_visits, objectVisits_eq]
  | record d key payload =>
    simp only [SchemaType.visits, parts, List.flatMap_cons, List.flatMap_nil, List.append_nil]
  | method d k m =>
    rcases m with ⟨parameters, input, output, errors⟩
    simp only [SchemaType.visits, parts, List.flatMap_append, parameterVisits_eq, bodyVisits_eq]
  | _ => simp [SchemaType.visits, parts]

theorem SchemaType.mem_visits (s t : SchemaType) (path : String) :
    (∃ visit ∈ s.visits path, visit.type = t) ↔ t.Inside s := by
  induction s using SchemaType.induction_parts generalizing path with
  | step s ih =>
    rw [visits_eq, inside_iff]
    simp only [List.mem_cons, List.mem_flatMap, or_and_right, exists_or, exists_eq_left]
    constructor
    · rintro (rfl | ⟨visit, ⟨v, hv, hw⟩, rfl⟩)
      · exact Or.inl rfl
      · have hp : Part v.type s := (mem_parts s v.type path).mp ⟨v, hv, rfl⟩
        exact Or.inr ⟨v.type, hp, (ih v.type hp v.path).mp ⟨visit, hw, rfl⟩⟩
    · rintro (rfl | ⟨u, hp, hu⟩)
      · exact Or.inl rfl
      · obtain ⟨v, hv, rfl⟩ := (mem_parts s u path).mpr hp
        obtain ⟨visit, hw, ht⟩ := (ih v.type hp v.path).mpr hu
        exact Or.inr ⟨visit, ⟨v, hv, hw⟩, ht⟩

end LexiconCompiler
