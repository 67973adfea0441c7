import LexiconCompiler.Text.Basic
import Mathlib.Data.List.Induction
import Mathlib.Data.List.Nodup

set_option autoImplicit false
set_option relaxedAutoImplicit false

/-!
Lists without repetitions: the first occurrences of their entries, keys that are new to those before
them, entries sorted by key, and searches for the only entry of its sort.
-/

namespace LexiconCompiler.Text

-- The equations are derived here, once for all the proofs that rewrite with them.
attribute [grind =] distinct

section Distinct

variable {α : Type} [BEq α] [LawfulBEq α]

theorem nodup_distinct (xs : List α) : (distinct xs).Nodup := by
  induction xs with
  | nil => exact List.nodup_nil
  | cons x xs ih =>
    rw [distinct, List.nodup_cons]
    exact ⟨by simp, ih.filter _⟩

omit [LawfulBEq α] in
theorem distinct_ne_nil {xs : List α} (h : xs ≠ []) : distinct xs ≠ [] := by
  cases xs with
  | nil => exact absurd rfl h
  | cons x xs => exact List.cons_ne_nil _ _

theorem distinct_eq_self {xs : List α} (h : xs.Nodup) : distinct xs = xs := by
  induction xs with
  | nil => rfl
  | cons x xs ih =>
    obtain ⟨hx, hxs⟩ := List.nodup_cons.mp h
    rw [distinct, ih hxs, List.filter_eq_self.mpr]
    intro y hy
    have hne : y ≠ x := fun he => hx (he ▸ hy)
    simpa using hne

@[simp] theorem mem_distinct {x : α} {xs : List α} : x ∈ distinct xs ↔ x ∈ xs := by
  induction xs with
  | nil => rfl
  | cons y ys ih =>
    simp only [distinct, List.mem_cons, List.mem_filter, ih, Bool.not_eq_true', beq_eq_false_iff_ne]
    by_cases hxy : x = y <;> simp [hxy]

theorem filter_distinct (wanted : α → Bool) (xs : List α) :
    (distinct xs).filter wanted = distinct (xs.filter wanted) := by
  induction xs with
  | nil => rfl
  | cons x xs ih =>
    rw [distinct]
    by_cases hx : wanted x = true
    · rw [List.filter_cons_of_pos hx, List.filter_cons_of_pos hx, distinct, List.filter_comm, ih]
    · rw [List.filter_cons_of_neg hx, List.filter_cons_of_neg hx, ← ih, List.filter_filter]
      refine List.filter_congr fun y _ => ?_
      have hne : wanted y = true → y ≠ x := fun hy he => hx (he ▸ hy)
      cases hy : wanted y <;> simp_all

theorem distinct_append_of_mem {x : α} {xs : List α} (h : x ∈ xs) :
    distinct (xs ++ [x]) = distinct xs := by
  induction xs with
  | nil => cases h
  | cons y ys ih =>
    rw [List.cons_append, distinct, distinct]
    by_cases hxy : x = y
    -- The entry may not occur in the rest, so that `ih` says nothing; the filter removes it anyway.
    · rw [filter_distinct, filter_distinct, List.filter_append]
      simp [hxy]
    · rw [ih ((List.mem_cons.mp h).resolve_left hxy)]

theorem distinct_append_of_notMem {x : α} {xs : List α} (h : x ∉ xs) :
    distinct (xs ++ [x]) = distinct xs ++ [x] := by
  induction xs with
  | nil => rfl
  | cons y ys ih =>
    rw [List.mem_cons, not_or] at h
    have hxy : (x == y) = false := by simpa using h.1
    rw [List.cons_append, distinct, distinct, ih h.2, List.filter_append]
    simp [hxy]

theorem distinct_append (xs ys : List α) :
    distinct (xs ++ ys) =
      distinct xs ++ (distinct ys).filter fun y => !(distinct xs).contains y := by
  induction ys using List.reverseRecOn with
  | nil => simp [distinct]
  | append_singleton ys y ih =>
    rw [← List.append_assoc]
    by_cases hy : y ∈ ys
    · rw [distinct_append_of_mem (List.mem_append_right xs hy), ih, distinct_append_of_mem hy]
    · rw [distinct_append_of_notMem hy, List.filter_append]
      by_cases hx : y ∈ xs
      · rw [distinct_append_of_mem (List.mem_append_left ys hx), ih]
        simp [hx]
      · rw [distinct_append_of_notMem (by simp [hx, hy]), ih]
        simp [hx]

theorem distinct_perm {xs ys : List α} (h : ∀ x, x ∈ xs ↔ x ∈ ys) :
    (distinct xs).Perm (distinct ys) := by
  refine (List.perm_ext_iff_of_nodup (nodup_distinct xs) (nodup_distinct ys)).mpr fun x => ?_
  rw [mem_distinct, mem_distinct, h]

variable {β : Type} [BEq β] [LawfulBEq β]

theorem distinct_map_distinct (f : α → β) (xs : List α) :
    distinct ((distinct xs).map f) = distinct (xs.map f) := by
  induction xs using List.reverseRecOn with
  | nil => rfl
  | append_singleton xs x ih =>
    rw [List.map_append, List.map_singleton]
    by_cases hx : x ∈ xs
    · rw [distinct_append_of_mem hx, distinct_append_of_mem (List.mem_map_of_mem hx), ih]
    · rw [distinct_append_of_notMem hx, List.map_append, List.map_singleton]
      have hmem : f x ∈ (distinct xs).map f ↔ f x ∈ xs.map f := by
        simp only [List.mem_map, mem_distinct]
      by_cases hfx : f x ∈ xs.map f
      · rw [distinct_append_of_mem (hmem.mpr hfx), distinct_append_of_mem hfx, ih]
      · rw [distinct_append_of_notMem (mt hmem.mp hfx), distinct_append_of_notMem hfx, ih]

theorem distinct_map {f : α → β} {xs : List α} (h : ∀ x ∈ xs, ∀ y ∈ xs, f x = f y → x = y) :
    (distinct xs).map f = distinct (xs.map f) := by
  have hn : ((distinct xs).map f).Nodup :=
    List.Nodup.map_on (fun x hx y hy => h x (mem_distinct.mp hx) y (mem_distinct.mp hy))
      (nodup_distinct xs)
  rw [← distinct_map_distinct, distinct_eq_self hn]

end Distinct

/-- Keys that are new and differ from each other. -/
def Fresh {κ : Type} (taken keys : List κ) : Prop := keys.Nodup ∧ ∀ key ∈ keys, key ∉ taken

section Fresh

variable {κ : Type} {taken keys : List κ}

@[simp] theorem fresh_nil : Fresh taken [] := ⟨List.nodup_nil, by simp⟩

theorem fresh_cons {key : κ} :
    Fresh taken (key :: keys) ↔ key ∉ taken ∧ Fresh (key :: taken) keys := by
  simp only [Fresh, List.nodup_cons, List.mem_cons, not_or]
  constructor
  · rintro ⟨⟨hkey, hkeys⟩, hnew⟩
    refine ⟨hnew key (Or.inl rfl), hkeys, fun other ho => ?_⟩
    exact ⟨fun he => hkey (he ▸ ho), hnew other (Or.inr ho)⟩
  · rintro ⟨hnew, hkeys, hrest⟩
    refine ⟨⟨fun hkey => (hrest key hkey).1 rfl, hkeys⟩, ?_⟩
    rintro other (rfl | ho)
    · exact hnew
    · exact (hrest other ho).2

theorem fresh_append {more : List κ} :
    Fresh taken (keys ++ more) ↔ Fresh taken keys ∧ Fresh (taken ++ keys) more := by
  simp only [Fresh, List.nodup_append, List.mem_append, not_or]
  constructor
  · rintro ⟨⟨hkeys, hmore, hdisjoint⟩, hnew⟩
    refine ⟨⟨hkeys, fun key hk => hnew key (Or.inl hk)⟩, hmore, fun key hk => ?_⟩
    exact ⟨hnew key (Or.inr hk), fun hold => hdisjoint key hold key hk rfl⟩
  · rintro ⟨⟨hkeys, hnew⟩, hmore, hlater⟩
    refine ⟨⟨hkeys, hmore, fun key hk other ho he => (hlater other ho).2 (he ▸ hk)⟩, ?_⟩
    rintro key (hk | hk)
    · exact hnew key hk
    · exact (hlater key hk).1

theorem lookup_eq_none_iff_notMem {β : Type} [BEq κ] [LawfulBEq κ] {key : κ}
    {entries : List (κ × β)} : entries.lookup key = none ↔ key ∉ entries.map Prod.fst := by
  rw [List.lookup_eq_none_iff, List.mem_map, not_exists]
  refine forall_congr' fun entry => ?_
  rw [not_and, bne_iff_ne, ne_comm]

end Fresh

/-- The first key that occurred before: among the taken ones, or in front of itself. -/
def repeated? {κ : Type} [DecidableEq κ] (taken : List κ) : List κ → Option κ
  | [] => none
  | key :: keys => if key ∈ taken then some key else repeated? (key :: taken) keys

section Repeated

variable {κ : Type} [DecidableEq κ] {taken keys : List κ}

theorem repeated?_eq_none : repeated? taken keys = none ↔ Fresh taken keys := by
  induction keys generalizing taken with
  | nil => simp [repeated?]
  | cons key keys ih =>
    rw [fresh_cons, repeated?, ← ih]
    split <;> simp_all

theorem repeated?_congr {others : List κ} (h : ∀ key ∈ keys, key ∈ taken ↔ key ∈ others) :
    repeated? taken keys = repeated? others keys := by
  induction keys generalizing taken others with
  | nil => rfl
  | cons key keys ih =>
    rw [List.forall_mem_cons] at h
    have hrest : repeated? (key :: taken) keys = repeated? (key :: others) keys :=
      ih fun other ho => by simp only [List.mem_cons, h.2 other ho]
    simp only [repeated?, h.1, hrest]

theorem repeated?_append {more : List κ} :
    repeated? taken (keys ++ more) =
      (repeated? taken keys).or (repeated? (taken ++ keys) more) := by
  induction keys generalizing taken with
  | nil => simp [repeated?]
  | cons key keys ih =>
    have hsame : repeated? ((key :: taken) ++ keys) more = repeated? (taken ++ key :: keys) more :=
      repeated?_congr fun other _ => by simp [or_left_comm]
    rw [List.cons_append, repeated?, repeated?, ih, hsame]
    split <;> rfl

end Repeated

theorem flatMap_filter_perm {α κ : Type} [BEq κ] [LawfulBEq κ] (key : α → κ) {keys : List κ}
    {xs : List α} (hk : keys.Nodup) (h : ∀ x ∈ xs, key x ∈ keys) :
    (keys.flatMap fun k => xs.filter fun x => key x == k).Perm xs := by
  induction keys generalizing xs with
  | nil =>
    have hxs : xs = [] := List.eq_nil_iff_forall_not_mem.mpr fun x hx => by simpa using h x hx
    subst hxs
    exact .refl _
  | cons k ks ih =>
    obtain ⟨hnew, hks⟩ := List.nodup_cons.mp hk
    -- The other keys pick nothing that the first one has taken.
    have hothers : (ks.flatMap fun k' => xs.filter fun x => key x == k') =
        ks.flatMap fun k' => (xs.filter fun x => !(key x == k)).filter fun x => key x == k' := by
      refine List.flatMap_congr fun k' hk' => ?_
      rw [List.filter_filter]
      refine List.filter_congr fun x _ => ?_
      have hne : key x = k' → key x ≠ k := fun he hek => hnew (hek ▸ he ▸ hk')
      by_cases he : key x = k' <;> simp_all
    have hrest : ∀ x ∈ xs.filter (fun x => !(key x == k)), key x ∈ ks := by
      intro x hx
      obtain ⟨hmem, hne⟩ := List.mem_filter.mp hx
      exact (List.mem_cons.mp (h x hmem)).resolve_left (by simpa using hne)
    rw [List.flatMap_cons, hothers]
    exact ((ih hks hrest).append_left _).trans (List.filter_append_perm _ xs)

theorem lookup_of_mem {κ β : Type} [BEq κ] [LawfulBEq κ] {entries : List (κ × β)}
    (h : (entries.map Prod.fst).Nodup) {entry : κ × β} (he : entry ∈ entries) :
    entries.lookup entry.1 = some entry.2 := by
  obtain ⟨before, after, rfl⟩ := List.append_of_mem he
  refine List.lookup_eq_some_iff.mpr ⟨before, after, rfl, fun other ho => ?_⟩
  rw [List.map_append, List.map_cons, List.nodup_append] at h
  have hne := h.2.2 other.1 (List.mem_map.mpr ⟨other, ho, rfl⟩) entry.1 List.mem_cons_self
  rw [bne_iff_ne]
  exact hne.symm

theorem lookup_filter_ne {κ β : Type} [DecidableEq κ] (key other : κ)
    (entries : List (κ × β)) :
    (entries.filter fun entry => entry.1 != key).lookup other =
      if other = key then none else entries.lookup other := by
  induction entries with
  | nil => simp
  | cons first rest ih =>
    obtain ⟨k, value⟩ := first
    by_cases hk : k = key
    · subst hk
      have hdrop : (((k, value) :: rest).filter fun entry => entry.1 != k) =
          rest.filter fun entry => entry.1 != k := by simp
      rw [hdrop, ih]
      by_cases ho : other = k
      · rw [if_pos ho, if_pos ho]
      · have hne : (other == k) = false := by simpa using ho
        simp [List.lookup_cons, hne, ho]
    · have hkeep : (((k, value) :: rest).filter fun entry => entry.1 != key) =
          (k, value) :: rest.filter fun entry => entry.1 != key := by simp [hk]
      rw [hkeep]
      by_cases ho : other = k
      · subst ho
        simp [hk]
      · have hne : (other == k) = false := by simpa using ho
        simpa [List.lookup_cons, hne] using ih

theorem find?_eq_some_of_unique {α : Type} {wanted : α → Bool} {xs : List α} {x : α} (hx : x ∈ xs)
    (hw : wanted x = true) (hu : ∀ y ∈ xs, wanted y = true → y = x) :
    xs.find? wanted = some x := by
  have hsome : (xs.find? wanted).isSome := List.find?_isSome.mpr ⟨x, hx, hw⟩
  obtain ⟨found, hf⟩ := Option.isSome_iff_exists.mp hsome
  rw [hf, hu found (List.mem_of_find?_eq_some hf) (List.find?_some hf)]

end LexiconCompiler.Text
