import LexiconCompiler.Proofs.Namespace
import LexiconCompiler.Proofs.Registry

set_option autoImplicit false
set_option relaxedAutoImplicit false

/-!
The namespaces of documents are a forest of exactly the authority prefixes. The walk meets each of
them once, and each before what lies inside it; every method is counted at its own authority.
-/

namespace LexiconCompiler

open LexiconCompiler.Text

namespace NamespaceTree

section Walk

variable {documents : List Document} {t : NamespaceTree}

private theorem prefix_of_mem_childrenOf {child : Namespace} {segments : List String}
    (h : child ∈ t.childrenOf segments) : segments <+: child.segments := by
  obtain ⟨_, rfl⟩ := mem_childrenOf.mp h
  exact List.dropLast_prefix child.segments

private theorem mem_walkFrom (ht : t.Sound documents) {levels depth d : Nat}
    {level : List Namespace} {n : Namespace} (hlevel : ∀ m ∈ level, m.segments.length = depth + 1)
    (h : (n, d) ∈ t.walkFrom levels depth level) :
    (∃ m ∈ level, m.segments <+: n.segments) ∧ n.segments.length = d + 1 ∧ depth ≤ d := by
  induction levels generalizing depth level with
  | zero => simp [walkFrom] at h
  | succ levels ih =>
    rw [walkFrom] at h
    obtain ⟨m, hm, hn⟩ := List.mem_flatMap.mp h
    rcases List.mem_cons.mp hn with heq | hn
    · obtain ⟨rfl, rfl⟩ := Prod.mk.inj heq
      exact ⟨⟨n, hm, List.prefix_refl _⟩, hlevel n hm, Nat.le_refl _⟩
    · have hchildren : ∀ c ∈ t.childrenOf m.segments, c.segments.length = depth + 1 + 1 := by
        intro c hc
        rw [length_of_mem_childrenOf ht hc, hlevel m hm]
      obtain ⟨⟨c, hc, hfront⟩, hlength, hdepth⟩ := ih hchildren hn
      exact ⟨⟨m, hm, (prefix_of_mem_childrenOf hc).trans hfront⟩, hlength, by omega⟩

theorem nodup_childrenOf (hnodup : (t.namespaces.map Namespace.segments).Nodup)
    (segments : List String) : ((t.childrenOf segments).map Namespace.segments).Nodup :=
  hnodup.sublist (List.filter_sublist.map _)

private theorem nodup_walkFrom (ht : t.Sound documents)
    (hnodup : (t.namespaces.map Namespace.segments).Nodup) {levels depth : Nat}
    {level : List Namespace} (hlevel : ∀ m ∈ level, m.segments.length = depth + 1)
    (hl : (level.map Namespace.segments).Nodup) :
    ((t.walkFrom levels depth level).map fun entry => entry.1.segments).Nodup := by
  induction levels generalizing depth level with
  | zero => simp [walkFrom]
  | succ levels ih =>
    have hchildren : ∀ m ∈ level, ∀ c ∈ t.childrenOf m.segments,
        c.segments.length = depth + 1 + 1 := by
      intro m hm c hc
      rw [length_of_mem_childrenOf ht hc, hlevel m hm]
    rw [walkFrom, List.map_flatMap, List.nodup_flatMap]
    constructor
    · intro m hm
      -- A namespace is not inside itself: everything inside has more segments.
      rw [List.map_cons, List.nodup_cons]
      refine ⟨fun hself => ?_, ih (hchildren m hm) (nodup_childrenOf hnodup m.segments)⟩
      obtain ⟨⟨n, d⟩, hn, hsegments⟩ := List.mem_map.mp hself
      obtain ⟨_, hlength, hdepth⟩ := mem_walkFrom ht (hchildren m hm) hn
      have hsame : n.segments.length = depth + 1 := by
        rw [← hlevel m hm]
        exact congrArg List.length hsegments
      omega
    -- Two namespaces of the level have equally many segments, so nothing begins with both.
    · have hbegins : ∀ m ∈ level, ∀ segments ∈ List.map (fun entry => entry.1.segments)
          ((m, depth) :: t.walkFrom levels (depth + 1) (t.childrenOf m.segments)),
          m.segments <+: segments := by
        intro m hm segments hs
        obtain ⟨⟨n, d⟩, hn, rfl⟩ := List.mem_map.mp hs
        have hone : (n, d) ∈ t.walkFrom (levels + 1) depth [m] := by
          simpa [walkFrom] using hn
        obtain ⟨⟨other, ho, hfront⟩, _⟩ := mem_walkFrom ht (by simpa using hlevel m hm) hone
        obtain rfl := List.mem_singleton.mp ho
        exact hfront
      refine (List.pairwise_map.mp hl).imp_of_mem fun {a b} ha hb hne segments hsa hsb => hne ?_
      have hpa := hbegins a ha segments hsa
      have hpb := hbegins b hb segments hsb
      have hsame : a.segments.length = b.segments.length := by rw [hlevel a ha, hlevel b hb]
      exact (List.prefix_of_prefix_length_le hpa hpb (Nat.le_of_eq hsame)).eq_of_length hsame

/-- Every namespace around a namespace is one as well. -/
def Closed (t : NamespaceTree) : Prop :=
  ∀ n ∈ t.namespaces, n.parent ≠ [] → ∃ m ∈ t.namespaces, m.segments = n.parent

theorem mem_walk_of_mem_namespaces (ht : t.Sound documents) (hclosed : t.Closed) {n : Namespace}
    (hn : n ∈ t.namespaces) : ∃ d, (n, d) ∈ t.walk := by
  -- By the number of segments, since the walk comes to a namespace from the one around it.
  induction hlength : n.segments.length generalizing n with
  | zero => exact absurd (List.length_eq_zero_iff.mp hlength) (ht.segments n hn)
  | succ k ih =>
    by_cases hroot : n.parent = []
    · exact roots_mem_walk ht (mem_childrenOf.mpr ⟨hn, hroot⟩)
    · obtain ⟨m, hm, hsegments⟩ := hclosed n hn hroot
      have hshorter : m.segments.length = k := by
        rw [hsegments, Namespace.parent, List.length_dropLast]
        omega
      obtain ⟨d, hd⟩ := ih hm hshorter
      exact child_mem_walk ht hd (mem_childrenOf.mpr ⟨hn, hsegments.symm⟩)

/-- The walk meets every namespace exactly once. -/
theorem walk_perm (ht : t.Sound documents) (hclosed : t.Closed)
    (hnodup : (t.namespaces.map Namespace.segments).Nodup) :
    (t.walk.map Prod.fst).Perm t.namespaces := by
  have hwalk : ((t.walk.map Prod.fst).map Namespace.segments).Nodup := by
    rw [List.map_map]
    exact nodup_walkFrom ht hnodup (fun _ hm => length_of_mem_childrenOf ht hm)
      (nodup_childrenOf hnodup [])
  refine (List.perm_ext_iff_of_nodup (hwalk.of_map _) (hnodup.of_map _)).mpr fun n => ?_
  constructor
  · intro hn
    obtain ⟨⟨_, d⟩, hd, rfl⟩ := List.mem_map.mp hn
    exact mem_namespaces_of_mem_walk hd
  · intro hn
    obtain ⟨d, hd⟩ := mem_walk_of_mem_namespaces ht hclosed hn
    exact List.mem_map.mpr ⟨(n, d), hd, rfl⟩

end Walk

section Census

variable {documents : List Document}

theorem mem_census_of_mem {segments : List String} (h : segments ∈ authorityPrefixes documents) :
    ⟨segments, methodsAt documents segments⟩ ∈ (census documents).namespaces :=
  mem_ofPrefixes.mpr ⟨segments, h, rfl⟩

theorem segments_mem_of_mem_census {n : Namespace} (hn : n ∈ (census documents).namespaces) :
    n.segments ∈ authorityPrefixes documents := by
  obtain ⟨segments, hs, rfl⟩ := mem_ofPrefixes.mp hn
  exact hs

theorem census_closed : (census documents).Closed := by
  intro n hn hparent
  obtain ⟨segments, hs, rfl⟩ := mem_ofPrefixes.mp hn
  obtain ⟨_, document, hd, hfront⟩ := mem_authorityPrefixes.mp hs
  have hshorter : segments.dropLast <+: segments := List.dropLast_prefix segments
  have hinner : segments.dropLast ∈ authorityPrefixes documents :=
    mem_authorityPrefixes.mpr ⟨hparent, document, hd, hshorter.trans hfront⟩
  exact ⟨_, mem_census_of_mem hinner, rfl⟩

theorem nodup_census : ((census documents).namespaces.map Namespace.segments).Nodup := by
  rw [census, segments_ofPrefixes]
  exact nodup_distinct _

theorem parent_append_segment {n : Namespace} (h : n.segments ≠ []) :
    n.parent ++ [n.segment] = n.segments :=
  dropLast_append_getLastD h ""

private theorem childPath_eq {n child : Namespace} (hn : n.segments ≠ []) (hc : child.segments ≠ [])
    (h : child.parent = n.segments) : child.path = n.path ++ "." ++ child.segment := by
  rw [Namespace.path, ← parent_append_segment hc, h, joinWith_append_single "." hn, Namespace.path]

theorem authoritySegments_mem (hid : Identified documents) {document : Document}
    (hd : document ∈ documents) :
    document.nsid.authoritySegments ∈ authorityPrefixes documents :=
  mem_authorityPrefixes.mpr
    ⟨Nsid.authoritySegments_ne_nil (hid document hd), document, hd, List.prefix_refl _⟩

private theorem dot_notMem_authorityPrefixes (hid : Identified documents) {p : List String}
    (hp : p ∈ authorityPrefixes documents) : ∀ segment ∈ p, '.' ∉ segment.toList := by
  obtain ⟨_, document, hd, hfront⟩ := mem_authorityPrefixes.mp hp
  intro segment hs
  exact Nsid.dot_notMem_of_parse (hid document hd) segment
    (List.dropLast_subset _ (hfront.subset hs))

theorem isSegment_of_mem_authorityPrefixes (hid : Identified documents) {p : List String}
    (hp : p ∈ authorityPrefixes documents) :
    ∀ segment ∈ p, ∃ isName, Nsid.IsSegment isName segment := by
  obtain ⟨_, document, hd, hfront⟩ := mem_authorityPrefixes.mp hp
  intro segment hs
  exact Nsid.isSegment_of_parse (hid document hd) (List.dropLast_subset _ (hfront.subset hs))

private theorem joinWith_dot_inj {p q : List String} (hp : p ≠ []) (hq : q ≠ [])
    (hpdot : ∀ segment ∈ p, '.' ∉ segment.toList) (hqdot : ∀ segment ∈ q, '.' ∉ segment.toList)
    (h : joinWith "." p = joinWith "." q) : p = q := by
  have hsplit : split '.' (joinWith "." p) = split '.' (joinWith "." q) := by rw [h]
  rwa [show "." = String.singleton '.' from rfl, split_joinWith hp hpdot,
    split_joinWith hq hqdot] at hsplit

theorem joinWith_injOn_authorityPrefixes (hid : Identified documents) {p q : List String}
    (hp : p ∈ authorityPrefixes documents) (hq : q ∈ authorityPrefixes documents)
    (h : joinWith "." p = joinWith "." q) : p = q :=
  joinWith_dot_inj (mem_authorityPrefixes.mp hp).1 (mem_authorityPrefixes.mp hq).1
    (dot_notMem_authorityPrefixes hid hp) (dot_notMem_authorityPrefixes hid hq) h

private theorem path_injOn_census (hid : Identified documents) {n m : Namespace}
    (hn : n ∈ (census documents).namespaces) (hm : m ∈ (census documents).namespaces)
    (h : n.path = m.path) : n = m := by
  obtain ⟨p, hp, rfl⟩ := mem_ofPrefixes.mp hn
  obtain ⟨q, hq, rfl⟩ := mem_ofPrefixes.mp hm
  rw [joinWith_injOn_authorityPrefixes hid hp hq h]

private theorem methodsAt_eq (hid : Identified documents) {segments : List String}
    (hs : segments ∈ authorityPrefixes documents) :
    methodsAt documents segments = (documents.filter fun document =>
      document.isMethod && document.nsid.authority == joinWith "." segments).map
        fun document => document.nsid := by
  rw [methodsAt]
  congr 1
  refine List.filter_congr fun document hd => ?_
  congr 1
  rw [Bool.eq_iff_iff, beq_iff_eq, beq_iff_eq]
  constructor
  · intro h
    rw [Nsid.authority, h]
  · exact joinWith_injOn_authorityPrefixes hid (authoritySegments_mem hid hd) hs

theorem flatMap_methods_perm (hid : Identified documents) :
    ((census documents).namespaces.flatMap Namespace.methods).Perm
      ((documents.filter fun document => document.isMethod).map fun document =>
        document.nsid) := by
  have hmethods (segments : List String) : methodsAt documents segments =
      ((documents.filter fun document => document.isMethod).filter fun document =>
        document.nsid.authoritySegments == segments).map fun document => document.nsid := by
    rw [methodsAt, List.filter_filter]
    simp only [Bool.and_comm]
  have hsorted : ((distinct (authorityPrefixes documents)).flatMap fun segments =>
      (documents.filter fun document => document.isMethod).filter fun document =>
        document.nsid.authoritySegments == segments).Perm
          (documents.filter fun document => document.isMethod) :=
    flatMap_filter_perm _ (nodup_distinct _) fun document hd =>
      mem_distinct.mpr (authoritySegments_mem hid (List.mem_of_mem_filter hd))
  have hnamespaces : (census documents).namespaces.flatMap Namespace.methods =
      (distinct (authorityPrefixes documents)).flatMap (methodsAt documents) := by
    rw [census, ofPrefixes, List.flatMap_map]
  rw [hnamespaces, funext hmethods, ← List.map_flatMap]
  exact hsorted.map _

private theorem methodCount_eq (t : NamespaceTree) :
    t.methodCount = (t.namespaces.flatMap Namespace.methods).length := by
  have hfold (ns : List Namespace) (start : Nat) :
      ns.foldl (fun count n => count + n.methods.length) start =
        start + (ns.flatMap Namespace.methods).length := by
    induction ns generalizing start with
    | nil => simp
    | cons n rest ih =>
      rw [List.foldl_cons, ih, List.flatMap_cons, List.length_append]
      omega
  rw [methodCount, hfold, Nat.zero_add]

theorem lookup?_census (hid : Identified documents) {path : String} {n : Namespace} :
    (census documents).lookup? path = some n ↔
      n ∈ (census documents).namespaces ∧ n.path = path := by
  constructor
  · intro h
    have hpath := List.find?_some h
    exact ⟨List.mem_of_find?_eq_some h, eq_of_beq hpath⟩
  · rintro ⟨hn, rfl⟩
    refine find?_eq_some_of_unique hn (beq_self_eq_true _) fun m hm hpath => ?_
    exact path_injOn_census hid hm hn (eq_of_beq hpath)

private theorem mem_childrenOf_census (hid : Identified documents) {n child : Namespace}
    (hn : n ∈ (census documents).namespaces) :
    child ∈ (census documents).childrenOf n.segments ↔
      child ∈ (census documents).namespaces ∧ child.path = n.path ++ "." ++ child.segment := by
  rw [mem_childrenOf]
  refine and_congr_right fun hc => ?_
  have houter := segments_mem_of_mem_census hn
  have hlonger := segments_mem_of_mem_census hc
  have hne := (mem_authorityPrefixes.mp houter).1
  have hcne := (mem_authorityPrefixes.mp hlonger).1
  constructor
  · exact childPath_eq hne hcne
  · intro hpath
    have hlast : child.segment ∈ child.segments := getLastD_mem hcne ""
    have hdots : ∀ segment ∈ n.segments ++ [child.segment], '.' ∉ segment.toList := by
      intro segment hs
      rcases List.mem_append.mp hs with hs | hs
      · exact dot_notMem_authorityPrefixes hid houter segment hs
      · rw [List.mem_singleton.mp hs]
        exact dot_notMem_authorityPrefixes hid hlonger _ hlast
    have hsegments : child.segments = n.segments ++ [child.segment] := by
      refine joinWith_dot_inj hcne (by simp) (dot_notMem_authorityPrefixes hid hlonger) hdots ?_
      rw [joinWith_append_single "." hne]
      exact hpath
    rw [Namespace.parent, hsegments, List.dropLast_concat]

private theorem mem_roots {t : NamespaceTree} (ht : t.Sound documents) {n : Namespace} :
    n ∈ t.roots ↔ n ∈ t.namespaces ∧ n.segments.length = 1 := by
  rw [roots, mem_childrenOf]
  refine and_congr_right fun hn => ?_
  have hpos := List.length_pos_iff.mpr (ht.segments n hn)
  rw [Namespace.parent, ← List.length_eq_zero_iff, List.length_dropLast]
  omega

private theorem pairwise_childrenOf_census (hs : SiblingsDiffer (authorityPrefixes documents))
    (segments : List String) : ((census documents).childrenOf segments).Pairwise fun a b =>
      lower a.segment ≠ lower b.segment := by
  have hnodup : (((census documents).childrenOf segments).map Namespace.segments).Nodup :=
    nodup_childrenOf nodup_census segments
  refine (List.pairwise_map.mp hnodup).imp_of_mem fun {a b} ha hb hne hlower => hne ?_
  obtain ⟨ha, hpa⟩ := mem_childrenOf.mp ha
  obtain ⟨hb, hpb⟩ := mem_childrenOf.mp hb
  obtain ⟨p, hp, rfl⟩ := mem_ofPrefixes.mp ha
  obtain ⟨q, hq, rfl⟩ := mem_ofPrefixes.mp hb
  exact hs p hp q hq (hpa.trans hpb.symm) hlower

end Census

/-- The namespaces of documents form a forest of exactly the authority prefixes: paths name them
without ambiguity, what lies inside what follows from the segments, the walk meets each namespace
once and before those inside it, and each holds the methods of its authority in input order. -/
structure Forest (documents : List Document) (t : NamespaceTree) : Prop where
  exactly : ∀ segments, (∃ n ∈ t.namespaces, n.segments = segments) ↔
    segments ≠ [] ∧ ∃ document ∈ documents, segments <+: document.nsid.authoritySegments
  once : (t.namespaces.map Namespace.segments).Nodup
  lookup : ∀ path n, t.lookup? path = some n ↔ n ∈ t.namespaces ∧ n.path = path
  roots : ∀ n, n ∈ t.roots ↔ n ∈ t.namespaces ∧ n.segments.length = 1
  children : ∀ n ∈ t.namespaces, ∀ child, child ∈ t.childrenOf n.segments ↔
    child ∈ t.namespaces ∧ child.path = n.path ++ "." ++ child.segment
  parents : ∀ child ∈ t.namespaces, child ∉ t.roots →
    ∃ n ∈ t.namespaces, child ∈ t.childrenOf n.segments
  siblings : ∀ segments,
    (t.childrenOf segments).Pairwise fun a b => lower a.segment ≠ lower b.segment
  walk : (t.walk.map Prod.fst).Perm t.namespaces
  inwards : ∀ n ∈ t.namespaces, ∀ child ∈ t.childrenOf n.segments,
    [n, child].Sublist (t.walk.map Prod.fst)
  methods : ∀ n ∈ t.namespaces, n.methods = (documents.filter fun document =>
    document.isMethod && document.nsid.authority == n.path).map fun document => document.nsid
  count : t.methodCount = (documents.filter fun document => document.isMethod).length

theorem build_forest {documents : List Document} {t : NamespaceTree}
    (hid : Identified documents) (h : build documents = .ok t) : Forest documents t := by
  have ht := build_sound h
  obtain ⟨⟨hsiblings, _⟩, rfl⟩ := build_eq_ok_iff.mp h
  have hwalk := walk_perm ht census_closed nodup_census
  constructor
  · intro segments
    rw [← mem_authorityPrefixes]
    simp [census]
  · exact nodup_census
  · intro path n
    exact lookup?_census hid
  · intro n
    exact mem_roots ht
  · intro n hn child
    exact mem_childrenOf_census hid hn
  · intro child hc hroot
    have hparent : child.parent ≠ [] := fun hnil => hroot (mem_childrenOf.mpr ⟨hc, hnil⟩)
    obtain ⟨n, hn, hsegments⟩ := census_closed child hc hparent
    exact ⟨n, hn, mem_childrenOf.mpr ⟨hc, hsegments.symm⟩⟩
  · exact pairwise_childrenOf_census hsiblings
  · exact hwalk
  · intro n hn child hc
    obtain ⟨⟨_, d⟩, hd, rfl⟩ := List.mem_map.mp (hwalk.mem_iff.mpr hn)
    exact (child_sublist_walk ht hd hc).map Prod.fst
  · intro n hn
    obtain ⟨segments, hs, rfl⟩ := mem_ofPrefixes.mp hn
    exact methodsAt_eq hid hs
  · rw [methodCount_eq, (flatMap_methods_perm hid).length_eq, List.length_map]

def solitary (segments : List String) (main : SchemaType) : Document :=
  ⟨⟨1, joinWith "." segments, none, "", [⟨mainDef, main⟩]⟩, "", [], ⟨segments⟩, .empty⟩

/-- Methods at two authorities, one of them inside a namespace that holds a token as well. -/
def repository : List Document :=
  [solitary ["com", "example", "repo", "applyWrites"]
      (.method "" .procedure ⟨none, none, none, []⟩),
    solitary ["com", "example", "status"] (.token ""),
    solitary ["com", "example", "identity", "resolve"] (.method "" .query ⟨none, none, none, []⟩),
    solitary ["com", "example", "repo", "getRecord"] (.method "" .query ⟨none, none, none, []⟩)]

theorem identified_repository : Identified repository := by
  intro document hd
  simp only [repository, List.mem_cons, List.not_mem_nil, or_false] at hd
  rcases hd with rfl | rfl | rfl | rfl <;> decide +kernel

end NamespaceTree

end LexiconCompiler
