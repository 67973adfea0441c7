import LexiconCompiler.Emission.Basic
import LexiconCompiler.Proofs.Code.Mentions
import LexiconCompiler.Proofs.Text.Distinct

set_option autoImplicit false
set_option relaxedAutoImplicit false

/-!
Derivations whose only obstacle is a name that is declared twice. Such a derivation has one value,
one list of needs and one list of declarations, whatever unit it starts from; it succeeds exactly if
the names of the declarations are new to the unit and differ from each other.
-/

namespace LexiconCompiler

namespace Code.SourceUnit

/-- A unit with further needs and declarations. -/
def extend (u : SourceUnit) (needs : List String) (decls : List Decl) : SourceUnit :=
  { needs.foldl addDep u with decls := u.decls ++ decls }

private theorem addDep_decls (u : SourceUnit) (decls : List Decl) (name : String) :
    { u with decls := decls }.addDep name = { u.addDep name with decls := decls } := by
  unfold addDep isNewDep
  split <;> rfl

theorem foldl_addDep_decls (u : SourceUnit) (decls : List Decl) (needs : List String) :
    needs.foldl addDep { u with decls := decls } =
      { needs.foldl addDep u with decls := decls } := by
  induction needs generalizing u with
  | nil => rfl
  | cons name rest ih => rw [List.foldl_cons, addDep_decls, ih, List.foldl_cons]

@[simp] theorem name_extend (u : SourceUnit) (needs : List String) (decls : List Decl) :
    (u.extend needs decls).name = u.name := by
  rw [extend, foldl_addDep_eq]

@[simp] theorem kind_extend (u : SourceUnit) (needs : List String) (decls : List Decl) :
    (u.extend needs decls).kind = u.kind := by
  rw [extend, foldl_addDep_eq]

@[simp] theorem decls_extend (u : SourceUnit) (needs : List String) (decls : List Decl) :
    (u.extend needs decls).decls = u.decls ++ decls := rfl

theorem extend_extend (u : SourceUnit) (needs more : List String) (decls others : List Decl) :
    (u.extend needs decls).extend more others = u.extend (needs ++ more) (decls ++ others) := by
  simp only [extend, foldl_addDep_decls, List.foldl_append, List.append_assoc]

theorem exact_extend (name : String) (kind : UnitKind) (decls : List Decl) :
    ((empty name kind).extend (unitsOf (decls.flatMap Decl.mentions)) decls).Exact := by
  have hneeds := foldl_addDep_decls (empty name kind) decls (unitsOf (decls.flatMap Decl.mentions))
  have hcleared : { (empty name kind).extend (unitsOf (decls.flatMap Decl.mentions)) decls with
      deps := [] } = { empty name kind with decls := decls } := by
    rw [extend, foldl_addDep_eq]
    rfl
  rw [Exact, hcleared]
  exact hneeds.symm

end Code.SourceUnit

namespace Emission

open LexiconCompiler.Code LexiconCompiler.Text

/-- A derivation gives a value and extends every unit that has none of the names of its
declarations; from any other unit it ends at the first name that is repeated. -/
structure Yields {α : Type} (emission : Emit α) (value : α) (needs : List String)
    (decls : List Decl) : Prop where
  appends : ∀ u : SourceUnit, Fresh (u.decls.map Decl.name) (decls.map Decl.name) →
    emission u = .ok (value, u.extend needs decls)
  repeats : ∀ (u : SourceUnit) (name : String),
    repeated? (u.decls.map Decl.name) (decls.map Decl.name) = some name →
    emission u = .error (.repeatedName u.name name)

section Steps

variable {α β : Type}

private theorem yields_of_keeps {emission : Emit α} {value : α} {needs : List String}
    (h : ∀ u, emission u = .ok (value, needs.foldl SourceUnit.addDep u)) :
    Yields emission value needs [] := by
  constructor
  · intro u _
    have hkept := SourceUnit.foldl_addDep_decls u u.decls needs
    rw [h u, SourceUnit.extend, List.append_nil, ← hkept]
  · intro u name hold
    cases hold

theorem yields_pure (value : α) : Yields (pure value) value [] [] :=
  yields_of_keeps fun _ => rfl

theorem yields_depend (name : String) : Yields (depend name) ⟨⟩ [name] [] :=
  yields_of_keeps fun _ => rfl

private theorem declares_iff {u : SourceUnit} {name : String} :
    u.declares name = true ↔ name ∈ u.decls.map Decl.name := by
  simp [SourceUnit.declares]

theorem yields_declare (decl : Decl) : Yields (declare decl) ⟨⟩ [] [decl] := by
  constructor
  · intro u hnew
    have hdeclares : ¬ u.declares decl.name = true := by
      simpa [fresh_cons, declares_iff] using hnew
    rw [declare, if_neg hdeclares]
    rfl
  · intro u name hold
    have hname : decl.name ∈ u.decls.map Decl.name ∧ decl.name = name := by
      simpa only [List.map_cons, List.map_nil, repeated?, Option.ite_none_right_eq_some,
        Option.some.injEq] using hold
    rw [declare, if_pos (declares_iff.mpr hname.1), hname.2]

theorem Yields.bind {first : Emit α} {rest : α → Emit β} {a : α} {b : β}
    {needs others : List String} {decls more : List Decl} (h : Yields first a needs decls)
    (k : Yields (rest a) b others more) :
    Yields (first >>= rest) b (needs ++ others) (decls ++ more) := by
  have hrun (u : SourceUnit) : (first >>= rest) u = (first u >>= fun p => rest p.1 p.2) := rfl
  have hnames (u : SourceUnit) : (u.extend needs decls).decls.map Decl.name =
      u.decls.map Decl.name ++ decls.map Decl.name := by
    rw [SourceUnit.decls_extend, List.map_append]
  constructor
  · intro u hnew
    rw [List.map_append, fresh_append, ← hnames] at hnew
    have hmore := k.appends (u.extend needs decls) hnew.2
    rw [SourceUnit.extend_extend] at hmore
    rw [hrun, h.appends u hnew.1]
    exact hmore
  · intro u name hold
    rw [List.map_append, repeated?_append, ← hnames] at hold
    -- The clash is among the first declarations, or the second ones meet it in the longer unit.
    rcases Option.or_eq_some_iff.mp hold with hfirst | ⟨hnew, hsecond⟩
    · rw [hrun, h.repeats u name hfirst]
      rfl
    · have hmore := k.repeats (u.extend needs decls) name hsecond
      rw [SourceUnit.name_extend] at hmore
      rw [hrun, h.appends u (repeated?_eq_none.mp hnew)]
      exact hmore

theorem Yields.map {emission : Emit α} {a : α} {needs : List String} {decls : List Decl}
    (h : Yields emission a needs decls) (f : α → β) :
    Yields (emission >>= fun x => pure (f x)) (f a) needs decls := by
  have hthen : Yields (emission >>= fun x => pure (f x)) (f a) (needs ++ []) (decls ++ []) :=
    h.bind (yields_pure (f a))
  rwa [List.append_nil, List.append_nil] at hthen

theorem yields_forM {step : α → Emit PUnit} {needs : α → List String} {decls : α → List Decl}
    {xs : List α} (h : ∀ x ∈ xs, Yields (step x) ⟨⟩ (needs x) (decls x)) :
    Yields (xs.forM step) ⟨⟩ (xs.flatMap needs) (xs.flatMap decls) := by
  induction xs with
  | nil => exact yields_pure _
  | cons x rest ih =>
    rw [List.forall_mem_cons] at h
    exact h.1.bind (ih h.2)

end Steps

section Units

variable {emission : Emit Unit} {needs : List String} {decls : List Decl}

private theorem fresh_empty_iff {name : String} {kind : UnitKind} :
    Fresh ((SourceUnit.empty name kind).decls.map Decl.name) (decls.map Decl.name) ↔
      (decls.map Decl.name).Nodup := by
  simp [Fresh, SourceUnit.empty]

theorem Yields.grow_of_nodup (h : Yields emission ⟨⟩ needs decls)
    (hn : (decls.map Decl.name).Nodup) (name : String) (kind : UnitKind) :
    grow name kind emission = .ok ((SourceUnit.empty name kind).extend needs decls) := by
  have hrun : emission.run (.empty name kind) = _ :=
    h.appends (.empty name kind) (fresh_empty_iff.mpr hn)
  rw [grow, hrun]
  rfl

theorem Yields.grow_of_repeated (h : Yields emission ⟨⟩ needs decls) {repeated : String}
    (hr : repeated? [] (decls.map Decl.name) = some repeated) (name : String) (kind : UnitKind) :
    grow name kind emission = .error (.repeatedName name repeated) := by
  have hrun : emission.run (.empty name kind) = _ := h.repeats (.empty name kind) repeated hr
  rw [grow, hrun]
  rfl

private theorem Yields.grow_of_not_nodup (h : Yields emission ⟨⟩ needs decls)
    (hn : ¬ (decls.map Decl.name).Nodup) (name : String) (kind : UnitKind) :
    ∃ repeated, grow name kind emission = .error (.repeatedName name repeated) := by
  have hsome : repeated? [] (decls.map Decl.name) ≠ none := fun hnone =>
    hn (repeated?_eq_none.mp hnone).1
  obtain ⟨repeated, hr⟩ := Option.ne_none_iff_exists'.mp hsome
  exact ⟨repeated, h.grow_of_repeated hr name kind⟩

theorem Yields.grow_eq_ok (h : Yields emission ⟨⟩ needs decls) {name : String} {kind : UnitKind}
    {v : SourceUnit} (hv : grow name kind emission = .ok v) :
    (decls.map Decl.name).Nodup ∧ v = (SourceUnit.empty name kind).extend needs decls := by
  by_cases hn : (decls.map Decl.name).Nodup
  · exact ⟨hn, Except.ok.inj (hv.symm.trans (h.grow_of_nodup hn name kind))⟩
  · obtain ⟨repeated, hr⟩ := h.grow_of_not_nodup hn name kind
    rw [hr] at hv
    cases hv

theorem Yields.grow_eq_error (h : Yields emission ⟨⟩ needs decls) {name : String}
    {kind : UnitKind} {problem : Problem} (hp : grow name kind emission = .error problem) :
    ∃ repeated, problem = .repeatedName name repeated := by
  by_cases hn : (decls.map Decl.name).Nodup
  · rw [h.grow_of_nodup hn name kind] at hp
    cases hp
  · obtain ⟨repeated, hr⟩ := h.grow_of_not_nodup hn name kind
    exact ⟨repeated, Except.error.inj (hp.symm.trans hr)⟩

end Units

end Emission

end LexiconCompiler
