import LexiconCompiler.Emission.DocumentUnit
import LexiconCompiler.Proofs.Code.Binding
import LexiconCompiler.Proofs.Registry

set_option autoImplicit false
set_option relaxedAutoImplicit false

/-!
How the unit of a document grows. Types only add needs of other units; declarations are appended,
and each of them names what is declared before it or what the batch offers.
-/

namespace LexiconCompiler.Emission

open LexiconCompiler.Code

section Steps

variable {α β : Type} {u v : SourceUnit}

@[simp] theorem bind_eq_ok {x : Emit α} {f : α → Emit β} {r : β × SourceUnit} :
    (x >>= f) u = .ok r ↔ ∃ a v, x u = .ok (a, v) ∧ f a v = .ok r := by
  have hbind : (x >>= f) u = (x u >>= fun p => f p.1 p.2) := rfl
  rw [hbind]
  cases x u with
  | error problem => simp [bind, Except.bind]
  | ok p =>
    rcases p with ⟨a, v⟩
    simp [bind, Except.bind]

@[simp] theorem pure_eq_ok {a b : α} : (pure a : Emit α) u = .ok (b, v) ↔ a = b ∧ u = v := by
  have hpure : (pure a : Emit α) u = .ok (a, u) := rfl
  simp [hpure]

@[simp] theorem fail_ne_ok {problem : Problem} {r : α × SourceUnit} :
    ¬ (fail problem : Emit α) u = .ok r := by
  simp [fail]

@[simp] theorem depend_eq_ok {name : String} {a : Unit} :
    depend name u = .ok (a, v) ↔ u.addDep name = v := by
  have hdepend : depend name u = .ok (⟨⟩, u.addDep name) := rfl
  simp [hdepend]

theorem declare_eq_ok {decl : Decl} {a : Unit} :
    declare decl u = .ok (a, v) ↔ u.declares decl.name = false ∧ v = u.addDecl decl := by
  unfold declare
  cases hd : u.declares decl.name <;> simp [eq_comm]

end Steps

/-- Name and declarations of a unit stay as they are. -/
structure Keeps (u v : SourceUnit) : Prop where
  name : v.name = u.name
  decls : v.decls = u.decls

theorem Keeps.refl (u : SourceUnit) : Keeps u u := ⟨rfl, rfl⟩

theorem Keeps.trans {u v w : SourceUnit} (h : Keeps u v) (k : Keeps v w) : Keeps u w :=
  ⟨k.name.trans h.name, k.decls.trans h.decls⟩

theorem keeps_addDep (u : SourceUnit) (name : String) : Keeps u (u.addDep name) := by
  unfold SourceUnit.addDep
  split <;> exact ⟨rfl, rfl⟩

/-- What may be named in a unit: what is offered, and its own declarations. -/
def Visible (known : Known) (u : SourceUnit) : Known :=
  fun unit name => known unit name ∨ (unit = none ∧ u.declares name = true)

/-- A unit keeps its name and its declarations and gets further ones, in which all names are
bound. -/
structure Grows (known : Known) (u v : SourceUnit) : Prop where
  name : v.name = u.name
  decls : ∃ new, v.decls = u.decls ++ new ∧ ∀ decl ∈ new, decl.Bound (Visible known v)

theorem Grows.declares {known : Known} {u v : SourceUnit} (h : Grows known u v) {name : String}
    (hd : u.declares name = true) : v.declares name = true := by
  obtain ⟨new, hnew, _⟩ := h.decls
  simp only [SourceUnit.declares, hnew, List.any_append, Bool.or_eq_true] at hd ⊢
  exact Or.inl hd

theorem Grows.visible {known : Known} {u v : SourceUnit} (h : Grows known u v) :
    ∀ unit name, Visible known u unit name → Visible known v unit name := by
  rintro unit name (hk | ⟨rfl, hd⟩)
  · exact Or.inl hk
  · exact Or.inr ⟨rfl, h.declares hd⟩

theorem Grows.trans {known : Known} {u v w : SourceUnit} (h : Grows known u v)
    (k : Grows known v w) : Grows known u w := by
  obtain ⟨first, hfirst, hbound⟩ := h.decls
  obtain ⟨second, hsecond, hbound'⟩ := k.decls
  refine ⟨k.name.trans h.name, first ++ second, by rw [hsecond, hfirst, List.append_assoc], ?_⟩
  intro decl hd
  rcases List.mem_append.mp hd with hd | hd
  · exact (hbound decl hd).mono k.visible
  · exact hbound' decl hd

theorem Keeps.grows {known : Known} {u v : SourceUnit} (h : Keeps u v) : Grows known u v :=
  ⟨h.name, [], by simp [h.decls], by simp⟩

theorem Grows.refl (known : Known) (u : SourceUnit) : Grows known u u := (Keeps.refl u).grows

theorem grows_declare (known : Known) {u v : SourceUnit} {decl : Decl} {a : Unit}
    (h : declare decl u = .ok (a, v)) (hb : decl.Bound (Visible known u)) :
    Grows known u v ∧ v.declares decl.name = true := by
  obtain ⟨_, rfl⟩ := declare_eq_ok.mp h
  have hmono : ∀ unit name, Visible known u unit name →
      Visible known (u.addDecl decl) unit name := by
    rintro unit name (hk | ⟨rfl, hd⟩)
    · exact Or.inl hk
    · refine Or.inr ⟨rfl, ?_⟩
      simp only [SourceUnit.declares, SourceUnit.addDecl, List.any_append, Bool.or_eq_true] at hd ⊢
      exact Or.inl hd
  refine ⟨⟨rfl, [decl], rfl, ?_⟩, by simp [SourceUnit.declares, SourceUnit.addDecl]⟩
  intro other ho
  obtain rfl := List.mem_singleton.mp ho
  exact hb.mono hmono

/-- What the batch offers to a document: the declarations of the definitions that may be referenced,
tokens apart, and the validator. -/
inductive Scope.Offers (s : Scope) : Known
  | here {address : Address} {target : SchemaType} : s.registry.find? address = some target →
      target.kind.isPrimary = false → target.kind ≠ .token → address.nsid = s.document →
      Offers s none (typeName address.fragment target.kind)
  | there {address : Address} {target : SchemaType} : s.registry.find? address = some target →
      target.kind.isPrimary = false → target.kind ≠ .token →
      Offers s (some address.nsid) (typeName address.fragment target.kind)
  | validator : Offers s (some lexiconsName) "lexicons"

def Scope.Admits (s : Scope) (ref : String) : Prop :=
  ∀ address target, s.target ref = .ok (address, target) → target.kind.isPrimary = false

private theorem Scope.find?_of_target {s : Scope} {ref : String} {address : Address}
    {target : SchemaType} (h : s.target ref = .ok (address, target)) :
    s.registry.find? address = some target := by
  unfold Scope.target at h
  split at h
  · cases h
  · split at h
    · cases h
    · rename_i hf
      obtain ⟨rfl, rfl⟩ := Prod.mk.inj (Except.ok.inj h)
      exact hf

theorem Scope.parse_of_target {s : Scope} {ref : String} {address : Address} {target : SchemaType}
    (h : s.target ref = .ok (address, target)) : Address.parse ref s.document = .ok address := by
  unfold Scope.target at h
  split at h
  · cases h
  · rename_i hp
    split at h
    · cases h
    · rw [(Prod.mk.inj (Except.ok.inj h)).1] at hp
      exact hp

theorem Scope.target_of_leads {documents : List Document} (hd : DistinctIds documents)
    {document : Document} {ref : String} {address : Address} {target : SchemaType}
    (h : Leads documents document ref address target) :
    Scope.target ⟨⟨documents⟩, document.id⟩ ref = .ok (address, target) := by
  have hfound := (Registry.find?_eq_some hd).mpr h.found
  simp only [Scope.target, h.parsed, hfound]

private theorem refType_bound {s : Scope} {ref path : String} {u v : SourceUnit} {type : TypeExpr}
    (ha : s.Admits ref) (h : refType s ref path u = .ok (type, v)) :
    Keeps u v ∧ type.Bound s.Offers [] := by
  unfold refType at h
  cases ht : s.target ref with
  | error cause =>
    simp only [ht] at h
    exact absurd h fail_ne_ok
  | ok found =>
    rcases found with ⟨address, target⟩
    have hf := Scope.find?_of_target ht
    have hp := ha address target ht
    simp only [ht] at h
    split at h
    · obtain ⟨rfl, rfl⟩ := pure_eq_ok.mp h
      exact ⟨.refl u, .literal⟩
    · rename_i hk
      have hk : target.kind ≠ .token := by simpa using hk
      split at h
      · rename_i hn
        obtain ⟨rfl, rfl⟩ := pure_eq_ok.mp h
        exact ⟨.refl u, .ref (.here hf hp hk (by simpa using hn))⟩
      · simp only [bind_eq_ok, depend_eq_ok, pure_eq_ok] at h
        obtain ⟨_, _, rfl, rfl, rfl⟩ := h
        exact ⟨keeps_addDep u _, .ref (.there hf hp hk)⟩

private theorem refTypes_bound {s : Scope} {path : String} {refs : List String} {u v : SourceUnit}
    {types : List TypeExpr} (ha : ∀ ref ∈ refs, s.Admits ref)
    (h : refTypes s path refs u = .ok (types, v)) :
    Keeps u v ∧ ∀ type ∈ types, type.Bound s.Offers [] := by
  induction refs generalizing u types with
  | nil =>
    obtain ⟨rfl, rfl⟩ := pure_eq_ok.mp h
    exact ⟨.refl u, by simp⟩
  | cons ref rest ih =>
    rw [List.forall_mem_cons] at ha
    simp only [refTypes, bind_eq_ok, pure_eq_ok] at h
    obtain ⟨type, w, hfirst, others, w', hrest, rfl, rfl⟩ := h
    obtain ⟨hkeeps, hbound⟩ := refType_bound ha.1 hfirst
    obtain ⟨hkeeps', hbounds⟩ := ih ha.2 hrest
    exact ⟨hkeeps.trans hkeeps', List.forall_mem_cons.mpr ⟨hbound, hbounds⟩⟩

/-- No reference in a type leads to a record or method. -/
def Scope.AdmitsIn (s : Scope) (t : SchemaType) : Prop :=
  ∀ u : SchemaType, u.Inside t → ∀ ref, u.Cites ref → s.Admits ref

theorem Scope.AdmitsIn.part {s : Scope} {t u : SchemaType} (h : s.AdmitsIn t)
    (hp : SchemaType.Part u t) : s.AdmitsIn u :=
  fun w hw => h w (hw.trans hp.inside)

section Constants

variable (known : Known) (scope : List String)

private theorem bound_constrained (const : Option Literal) (enum : List Literal)
    (kind : ScalarKind) :
    (constrained const enum kind).Bound known scope := by
  unfold constrained
  split
  · exact .literal
  · exact .scalar
  · refine .union fun member hm => ?_
    obtain ⟨value, _, rfl⟩ := List.mem_map.mp hm
    exact .literal

private theorem bound_stringType (rules : StringRules) : (stringType rules).Bound known scope := by
  unfold stringType
  split
  · refine .union fun member hm => ?_
    obtain ⟨value, _, rfl⟩ := List.mem_map.mp hm
    exact .literal
  · exact bound_constrained known scope _ _ _

end Constants

private theorem propertyFields_bound {s : Scope} {required : List String} {path : String}
    {properties : List (Property SchemaType)} {u v : SourceUnit}
    {fields : List (FieldSpec TypeExpr)}
    (hp : ∀ p ∈ properties, ∀ path u v type, nestedType s p.type path u = .ok (type, v) →
      Keeps u v ∧ type.Bound s.Offers [])
    (h : propertyFields s required path properties u = .ok (fields, v)) :
    Keeps u v ∧ ∀ field ∈ fields, field.type.Bound s.Offers [] := by
  induction properties generalizing u fields with
  | nil =>
    rw [propertyFields] at h
    obtain ⟨rfl, rfl⟩ := pure_eq_ok.mp h
    exact ⟨.refl u, by simp⟩
  | cons p rest ih =>
    rcases p with ⟨name, t⟩
    rw [List.forall_mem_cons] at hp
    simp only [propertyFields, bind_eq_ok, pure_eq_ok] at h
    obtain ⟨type, w, hfirst, others, w', hrest, rfl, rfl⟩ := h
    obtain ⟨hkeeps, hbound⟩ := hp.1 _ _ _ _ hfirst
    obtain ⟨hkeeps', hbounds⟩ := ih hp.2 hrest
    exact ⟨hkeeps.trans hkeeps', List.forall_mem_cons.mpr ⟨hbound, hbounds⟩⟩

theorem nestedType_bound {s : Scope} {t : SchemaType} (ha : s.AdmitsIn t) {path : String}
    {u v : SourceUnit} {type : TypeExpr} (h : nestedType s t path u = .ok (type, v)) :
    Keeps u v ∧ type.Bound s.Offers [] := by
  induction t using SchemaType.induction_parts generalizing path u v type with
  | step t ih =>
    cases t with
    | boolean | integer | number =>
      simp only [nestedType, pure_eq_ok] at h
      obtain ⟨rfl, rfl⟩ := h
      exact ⟨.refl u, bound_constrained _ _ _ _ _⟩
    | string d rules =>
      simp only [nestedType, pure_eq_ok] at h
      obtain ⟨rfl, rfl⟩ := h
      exact ⟨.refl u, bound_stringType _ _ rules⟩
    | datetime | unknown =>
      simp only [nestedType, pure_eq_ok] at h
      obtain ⟨rfl, rfl⟩ := h
      exact ⟨.refl u, .scalar⟩
    | blob d rules =>
      simp only [nestedType, pure_eq_ok] at h
      obtain ⟨rfl, rfl⟩ := h
      exact ⟨.refl u, .blob⟩
    | array d items least most =>
      simp only [nestedType, bind_eq_ok, pure_eq_ok] at h
      obtain ⟨element, w, hitems, rfl, rfl⟩ := h
      obtain ⟨hkeeps, hbound⟩ := ih items .items (ha.part .items) hitems
      exact ⟨hkeeps, .array hbound⟩
    | object o =>
      rcases o with ⟨d, required, properties, params⟩
      simp only [nestedType, objectFields, bind_eq_ok, pure_eq_ok] at h
      obtain ⟨fields, w, hfields, rfl, rfl⟩ := h
      obtain ⟨hkeeps, hbound⟩ := propertyFields_bound
        (fun p hp path u v type hn => ih p.type (.property hp) (ha.part (.property hp)) hn) hfields
      exact ⟨hkeeps, .object hbound⟩
    | ref d target =>
      rw [nestedType] at h
      exact refType_bound (ha _ (.refl _) target .ref) h
    | union d targets =>
      simp only [nestedType, bind_eq_ok, pure_eq_ok] at h
      obtain ⟨types, w, htypes, rfl, rfl⟩ := h
      obtain ⟨hkeeps, hbound⟩ :=
        refTypes_bound (fun target ht => ha _ (.refl _) target (.union ht)) htypes
      exact ⟨hkeeps, .union hbound⟩
    | token | record | method =>
      rw [nestedType] at h
      exact absurd h fail_ne_ok

theorem objectFields_bound {s : Scope} {o : ObjectType SchemaType} (ha : s.AdmitsIn (.object o))
    {path : String} {u v : SourceUnit} {fields : List (FieldSpec TypeExpr)}
    (h : objectFields s o path u = .ok (fields, v)) :
    Keeps u v ∧ ∀ field ∈ fields, field.type.Bound s.Offers [] := by
  rcases o with ⟨d, required, properties, params⟩
  rw [objectFields] at h
  exact propertyFields_bound
    (fun p hp path u v type hn => nestedType_bound (ha.part (.property hp)) hn) h

end LexiconCompiler.Emission
