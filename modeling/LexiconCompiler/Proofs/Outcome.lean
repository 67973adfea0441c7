import Mathlib.Data.List.Forall2

set_option autoImplicit false
set_option relaxedAutoImplicit false

/-!
Computations that may fail, taken apart where they do not, and two of them side by side.
-/

namespace LexiconCompiler

namespace Outcome

variable {α β ε δ : Type}

@[simp] theorem bind_eq_ok {x : Except ε α} {f : α → Except ε β} {b : β} :
    (x >>= f) = .ok b ↔ ∃ a, x = .ok a ∧ f a = .ok b := by
  cases x with
  | error e => simp [bind, Except.bind]
  | ok a => simp [bind, Except.bind]

@[simp] theorem pure_eq_ok {a b : α} : (pure a : Except ε α) = .ok b ↔ a = b := by
  simp [pure, Except.pure]

@[simp] theorem mapError_eq_ok {x : Except ε α} {f : ε → δ} {a : α} :
    x.mapError f = .ok a ↔ x = .ok a := by
  cases x with
  | error e => simp [Except.mapError]
  | ok b => simp [Except.mapError]

theorem bind_eq_error {x : Except ε α} {f : α → Except ε β} {e : ε} :
    (x >>= f) = .error e ↔ x = .error e ∨ ∃ a, x = .ok a ∧ f a = .error e := by
  cases x with
  | error other => simp [bind, Except.bind]
  | ok a => simp [bind, Except.bind]

@[simp] theorem pure_ne_error {a : α} {e : ε} : ¬ (pure a : Except ε α) = .error e := by
  simp [pure, Except.pure]

@[simp] theorem mapError_eq_error {x : Except ε α} {f : ε → δ} {e : δ} :
    x.mapError f = .error e ↔ ∃ cause, x = .error cause ∧ f cause = e := by
  cases x with
  | error other => simp [Except.mapError]
  | ok a => simp [Except.mapError]

theorem toOption_eq_some {x : Except ε α} {a : α} : x.toOption = some a ↔ x = .ok a := by
  cases x with
  | error e => simp [Except.toOption]
  | ok b => simp [Except.toOption]

theorem mapM_eq_ok {f : α → Except ε β} {xs : List α} {ys : List β} (h : xs.mapM f = .ok ys) :
    List.Forall₂ (fun x y => f x = .ok y) xs ys := by
  induction xs generalizing ys with
  | nil =>
    obtain rfl : [] = ys := by simpa using h
    exact .nil
  | cons x rest ih =>
    simp only [List.mapM_cons, bind_eq_ok, pure_eq_ok] at h
    obtain ⟨y, hx, others, hrest, rfl⟩ := h
    exact .cons hx (ih hrest)

theorem exists_of_mem_mapM {f : α → Except ε β} {xs : List α} {ys : List β}
    (h : xs.mapM f = .ok ys) {y : β} (hy : y ∈ ys) : ∃ x ∈ xs, f x = .ok y := by
  induction xs generalizing ys with
  | nil =>
    obtain rfl : [] = ys := by simpa using h
    cases hy
  | cons x rest ih =>
    simp only [List.mapM_cons, bind_eq_ok, pure_eq_ok] at h
    obtain ⟨first, hfirst, others, hothers, rfl⟩ := h
    rcases List.mem_cons.mp hy with rfl | hy
    · exact ⟨x, List.mem_cons_self, hfirst⟩
    · obtain ⟨z, hz, he⟩ := ih hothers hy
      exact ⟨z, List.mem_cons_of_mem x hz, he⟩

theorem mapM_isOk_iff {f : α → Except ε β} {xs : List α} :
    (∃ ys, xs.mapM f = .ok ys) ↔ ∀ x ∈ xs, ∃ y, f x = .ok y := by
  induction xs with
  | nil => simp
  | cons x rest ih =>
    rw [List.forall_mem_cons, ← ih]
    simp only [List.mapM_cons, bind_eq_ok, pure_eq_ok]
    constructor
    · rintro ⟨_, y, hy, ys, hys, _⟩
      exact ⟨⟨y, hy⟩, ys, hys⟩
    · rintro ⟨⟨y, hy⟩, ys, hys⟩
      exact ⟨_, y, hy, ys, hys, rfl⟩

theorem mapM_eq_error {f : α → Except ε β} {xs : List α} {e : ε} (h : xs.mapM f = .error e) :
    ∃ x ∈ xs, f x = .error e := by
  induction xs with
  | nil => simp at h
  | cons x rest ih =>
    simp only [List.mapM_cons, bind_eq_error, pure_ne_error, and_false, exists_false,
      or_false] at h
    rcases h with hx | ⟨y, _, hrest⟩
    · exact ⟨x, List.mem_cons_self, hx⟩
    · obtain ⟨z, hz, he⟩ := ih hrest
      exact ⟨z, List.mem_cons_of_mem x hz, he⟩

theorem mapM_map {γ : Type} {f : α → Except ε β} {g : α → Except ε γ} {change : β → γ}
    {xs : List α} (h : ∀ x ∈ xs, g x = (f x).map change) :
    xs.mapM g = (xs.mapM f).map (List.map change) := by
  induction xs with
  | nil => rfl
  | cons x rest ih =>
    rw [List.forall_mem_cons] at h
    rw [List.mapM_cons, List.mapM_cons, h.1, ih h.2]
    cases f x with
    | error e => rfl
    | ok y => cases rest.mapM f <;> rfl

theorem mapM_ofFn_eq_error {n : Nat} {slots : Fin n → Except ε α} {e : ε} :
    (List.ofFn slots).mapM id = .error e ↔
      ∃ i, slots i = .error e ∧ ∀ j < i, ∃ a, slots j = .ok a := by
  induction n with
  | zero => simp
  | succ n ih =>
    have hrest : (List.ofFn fun i : Fin n => slots i.succ).mapM id = .error e ↔
        ∃ i : Fin n, slots i.succ = .error e ∧ ∀ j < i, ∃ a, slots j.succ = .ok a := ih
    simp only [List.ofFn_succ, List.mapM_cons, bind_eq_error, pure_ne_error, and_false,
      exists_false, or_false, id_eq, hrest]
    constructor
    · rintro (hfirst | ⟨a, ha, i, hi, hbefore⟩)
      · exact ⟨0, hfirst, fun j hj => absurd hj (Fin.not_lt_zero j)⟩
      · refine ⟨i.succ, hi, fun j hj => ?_⟩
        cases j using Fin.cases with
        | zero => exact ⟨a, ha⟩
        | succ j => exact hbefore j (Fin.succ_lt_succ_iff.mp hj)
    · rintro ⟨i, hi, hbefore⟩
      cases i using Fin.cases with
      | zero => exact Or.inl hi
      | succ i =>
        obtain ⟨a, ha⟩ := hbefore 0 (Fin.succ_pos i)
        refine Or.inr ⟨a, ha, i, hi, fun j hj => ?_⟩
        exact hbefore j.succ (Fin.succ_lt_succ_iff.mpr hj)

theorem mapM_mapError {f : α → Except ε β} {change : ε → δ} {xs : List α} :
    (xs.mapM f).mapError change = xs.mapM fun x => (f x).mapError change := by
  induction xs with
  | nil => rfl
  | cons x rest ih =>
    rw [List.mapM_cons, List.mapM_cons, ← ih]
    cases f x with
    | error e => rfl
    | ok y => cases rest.mapM f <;> rfl

end Outcome

/-- Both fail, with the same fault, or both give something, and what they give is related. -/
inductive SameOutcome {ε α β : Type} (R : α → β → Prop) : Except ε α → Except ε β → Prop
  | error (e : ε) : SameOutcome R (.error e) (.error e)
  | ok {a : α} {b : β} (h : R a b) : SameOutcome R (.ok a) (.ok b)

section Outcomes

variable {ε α β γ δ : Type} {R : α → β → Prop} {x : Except ε α} {y : Except ε β}

theorem SameOutcome.bind {S : γ → δ → Prop} {f : α → Except ε γ} {g : β → Except ε δ}
    (h : SameOutcome R x y) (k : ∀ a b, R a b → SameOutcome S (f a) (g b)) :
    SameOutcome S (x >>= f) (y >>= g) := by
  cases h with
  | error e => exact .error e
  | ok hab => exact k _ _ hab

theorem SameOutcome.mapError {η : Type} (h : SameOutcome R x y) (f : ε → η) :
    SameOutcome R (x.mapError f) (y.mapError f) := by
  cases h with
  | error e => exact .error (f e)
  | ok hab => exact .ok hab

end Outcomes

end LexiconCompiler
