import LexiconCompiler.Proofs.Namespace.Census

set_option autoImplicit false
set_option relaxedAutoImplicit false

/-!
The namespaces of a batch: each has a segment, its methods are those of documents, and the walk
meets whatever lies inside a namespace that it meets.
-/

namespace LexiconCompiler

open LexiconCompiler.Text

namespace NamespaceTree

/-- Namespaces have at least one segment, and their methods are those of documents. -/
structure Sound (documents : List Document) (t : NamespaceTree) : Prop where
  segments : ∀ n ∈ t.namespaces, n.segments ≠ []
  methods : ∀ n ∈ t.namespaces, ∀ method ∈ n.methods,
    ∃ document ∈ documents, document.isMethod = true ∧ document.nsid = method

theorem build_sound {documents : List Document} {t : NamespaceTree}
    (h : build documents = .ok t) : t.Sound documents := by
  obtain ⟨_, rfl⟩ := build_eq_ok_iff.mp h
  constructor
  · intro n hn
    obtain ⟨segments, hs, rfl⟩ := mem_ofPrefixes.mp hn
    exact (mem_authorityPrefixes.mp hs).1
  · intro n hn method hm
    obtain ⟨segments, _, rfl⟩ := mem_ofPrefixes.mp hn
    obtain ⟨document, hd, hmethod, _, rfl⟩ := mem_methodsAt.mp hm
    exact ⟨document, hd, hmethod, rfl⟩

section Walk

variable {t : NamespaceTree}

private theorem le_foldl_max (xs : List Nat) (start : Nat) :
    start ≤ xs.foldl max start ∧ ∀ x ∈ xs, x ≤ xs.foldl max start := by
  induction xs generalizing start with
  | nil => simp
  | cons x rest ih =>
    obtain ⟨hmax, hrest⟩ := ih (max start x)
    rw [List.foldl_cons]
    refine ⟨by omega, fun y hy => ?_⟩
    rcases List.mem_cons.mp hy with rfl | hy
    · omega
    · exact hrest y hy

theorem length_le_height {n : Namespace} (h : n ∈ t.namespaces) :
    n.segments.length ≤ t.height :=
  (le_foldl_max _ 0).2 _ (List.mem_map.mpr ⟨n, h, rfl⟩)

theorem length_of_mem_childrenOf {documents : List Document} (ht : t.Sound documents)
    {child : Namespace} {segments : List String} (h : child ∈ t.childrenOf segments) :
    child.segments.length = segments.length + 1 := by
  obtain ⟨hm, rfl⟩ := mem_childrenOf.mp h
  have hpos := List.length_pos_iff.mpr (ht.segments child hm)
  rw [Namespace.parent, List.length_dropLast]
  omega

private theorem mem_walkFrom_self {levels depth : Nat} {level : List Namespace} {n : Namespace}
    (h : n ∈ level) : (n, depth) ∈ t.walkFrom (levels + 1) depth level := by
  rw [walkFrom, List.mem_flatMap]
  exact ⟨n, h, List.mem_cons_self⟩

/-- What lies right inside a namespace that the walk meets is met later, one level deeper: the
levels that are left suffice for all segments that are left. -/
private theorem child_sublist_walkFrom {documents : List Document} (ht : t.Sound documents)
    {levels depth d : Nat} {level : List Namespace} {n child : Namespace}
    (hlevel : ∀ m ∈ level, m.segments.length = depth + 1) (hheight : t.height ≤ levels + depth)
    (hn : (n, d) ∈ t.walkFrom levels depth level) (hc : child ∈ t.childrenOf n.segments) :
    [(n, d), (child, d + 1)].Sublist (t.walkFrom levels depth level) := by
  induction levels generalizing depth level with
  | zero => simp [walkFrom] at hn
  | succ levels ih =>
    rw [walkFrom] at hn ⊢
    obtain ⟨m, hm, hn⟩ := List.mem_flatMap.mp hn
    have hpart := List.sublist_flatten_of_mem (List.mem_map_of_mem hm (f := fun n =>
      (n, depth) :: t.walkFrom levels (depth + 1) (t.childrenOf n.segments)))
    rw [← List.flatMap_def] at hpart
    refine List.Sublist.trans ?_ hpart
    rcases List.mem_cons.mp hn with heq | hn
    · obtain ⟨rfl, rfl⟩ := Prod.mk.inj heq
      have hlen := length_of_mem_childrenOf ht hc
      have hlength := hlevel n hm
      have hmax := length_le_height (mem_childrenOf.mp hc).1
      -- The child has one segment more, so that the height leaves a level for it.
      obtain ⟨rest, rfl⟩ : ∃ rest, levels = rest + 1 := ⟨levels - 1, by omega⟩
      exact (List.singleton_sublist.mpr (mem_walkFrom_self hc)).cons_cons _
    · have hchildren : ∀ c ∈ t.childrenOf m.segments, c.segments.length = depth + 1 + 1 := by
        intro c hc
        rw [length_of_mem_childrenOf ht hc, hlevel m hm]
      exact (ih hchildren (by omega) hn).cons _

theorem roots_mem_walk {documents : List Document} (ht : t.Sound documents) {n : Namespace}
    (h : n ∈ t.roots) : ∃ d, (n, d) ∈ t.walk := by
  have hlen := length_of_mem_childrenOf ht h
  have hmax := length_le_height (mem_childrenOf.mp h).1
  obtain ⟨rest, hrest⟩ : ∃ rest, t.height = rest + 1 := ⟨t.height - 1, by omega⟩
  rw [walk, hrest]
  exact ⟨0, mem_walkFrom_self h⟩

theorem child_sublist_walk {documents : List Document} (ht : t.Sound documents)
    {n child : Namespace} {d : Nat} (hn : (n, d) ∈ t.walk)
    (hc : child ∈ t.childrenOf n.segments) :
    [(n, d), (child, d + 1)].Sublist t.walk :=
  child_sublist_walkFrom ht (fun _ hm => length_of_mem_childrenOf ht hm) (by omega) hn hc

theorem child_mem_walk {documents : List Document} (ht : t.Sound documents) {n child : Namespace}
    {d : Nat} (hn : (n, d) ∈ t.walk) (hc : child ∈ t.childrenOf n.segments) :
    ∃ e, (child, e) ∈ t.walk :=
  ⟨d + 1, (child_sublist_walk ht hn hc).subset (by simp)⟩

theorem mem_namespaces_of_mem_walk {n : Namespace} {d : Nat} (h : (n, d) ∈ t.walk) :
    n ∈ t.namespaces := by
  have hfrom : ∀ levels depth level, (∀ m ∈ level, m ∈ t.namespaces) →
      (n, d) ∈ t.walkFrom levels depth level → n ∈ t.namespaces := by
    intro levels
    induction levels with
    | zero => simp [walkFrom]
    | succ levels ih =>
      intro depth level hlevel hn
      simp only [walkFrom, List.mem_flatMap, List.mem_cons, Prod.mk.injEq] at hn
      obtain ⟨m, hm, ⟨rfl, _⟩ | hn⟩ := hn
      · exact hlevel n hm
      · exact ih _ _ (fun c hc => (mem_childrenOf.mp hc).1) hn
  exact hfrom _ _ _ (fun m hm => (mem_childrenOf.mp hm).1) h

end Walk

end NamespaceTree

end LexiconCompiler
