import LexiconCompiler.Proofs.Namespace.Arena

set_option autoImplicit false
set_option relaxedAutoImplicit false

/-!
An arena of namespaces is a forest of exactly the authority prefixes. The walk along the positions
ends and visits every node once, after the one around it; every method is kept with the document
that it comes from, at its own authority and in input order.
-/

namespace LexiconCompiler

open LexiconCompiler.Text

namespace NamespaceTree

section Levels

variable {t : NamespaceTree}

private theorem eq_nil_of_deep {depth : Nat} {level : List Namespace}
    (hlevel : ∀ m ∈ level, m ∈ t.namespaces ∧ m.segments.length = depth + 1)
    (hdeep : ∀ n ∈ t.namespaces, n.segments.length ≤ 0 + depth) : level = [] := by
  refine List.eq_nil_iff_forall_not_mem.mpr fun m hm => ?_
  obtain ⟨hmem, hlength⟩ := hlevel m hm
  have hle := hdeep m hmem
  omega

private theorem walkFrom_eq {documents : List Document} (ht : t.Sound documents)
    {levels more depth : Nat} {level : List Namespace}
    (hlevel : ∀ m ∈ level, m ∈ t.namespaces ∧ m.segments.length = depth + 1)
    (hlevels : ∀ n ∈ t.namespaces, n.segments.length ≤ levels + depth)
    (hmore : ∀ n ∈ t.namespaces, n.segments.length ≤ more + depth) :
    t.walkFrom levels depth level = t.walkFrom more depth level := by
  induction levels generalizing more depth level with
  | zero =>
    obtain rfl := eq_nil_of_deep hlevel hlevels
    cases more <;> rfl
  | succ levels ih =>
    cases more with
    | zero =>
      obtain rfl := eq_nil_of_deep hlevel hmore
      rfl
    | succ more =>
      rw [walkFrom, walkFrom]
      refine List.flatMap_congr fun m hm => congrArg _ ?_
      have hchildren : ∀ c ∈ t.childrenOf m.segments,
          c ∈ t.namespaces ∧ c.segments.length = depth + 1 + 1 := by
        intro c hc
        rw [length_of_mem_childrenOf ht hc, (hlevel m hm).2]
        exact ⟨(mem_childrenOf.mp hc).1, rfl⟩
      have hless {few : Nat} (hfew : ∀ n ∈ t.namespaces, n.segments.length ≤ few + 1 + depth) :
          ∀ n ∈ t.namespaces, n.segments.length ≤ few + (depth + 1) := by
        intro n hn
        have hle := hfew n hn
        omega
      exact ih hchildren (hless hlevels) (hless hmore)

end Levels

end NamespaceTree

namespace NamespaceArena

section Walking

variable {t : NamespaceArena} {documents : List Document} {levels depth : Nat} {ids : List Nat}

private theorem visit_cons (t : NamespaceArena) (levels depth id : Nat) (rest : List Nat) :
    t.visit (levels + 1) depth (id :: rest) = do
      let n ← t.nodes[id]?
      let below ← t.visit levels (depth + 1) n.children
      let beside ← t.visit (levels + 1) depth rest
      return (id, depth) :: (below ++ beside) := by
  simp only [visit, List.mapM_cons, bind_assoc, pure_bind, List.flatten_cons, List.cons_append]

/-- Nothing else is visited if more levels are allowed than it takes. -/
private theorem visit_mono {visited : List (Nat × Nat)}
    (h : t.visit levels depth ids = some visited) {more : Nat} (hmore : levels ≤ more) :
    t.visit more depth ids = some visited := by
  induction levels generalizing more depth ids visited with
  | zero =>
    obtain ⟨hempty, hvisited⟩ := Option.ite_none_right_eq_some.mp h
    obtain rfl := List.isEmpty_iff.mp hempty
    obtain rfl := Option.some.inj hvisited
    cases more <;> rfl
  | succ levels ih =>
    obtain ⟨more, rfl⟩ : ∃ rest, more = rest + 1 := ⟨more - 1, by omega⟩
    induction ids generalizing visited with
    | nil => exact h
    | cons id rest ihrest =>
      simp only [visit_cons, Option.bind_eq_bind, Option.bind_eq_some_iff, Option.pure_def] at h ⊢
      obtain ⟨n, hn, below, hbelow, beside, hbeside, hvisited⟩ := h
      exact ⟨n, hn, below, ih hbelow (by omega), beside, ihrest hbeside, hvisited⟩

private theorem Linked.length_le (h : Linked documents t) {i : Nat} {n : ArenaNode}
    (hn : t.nodes[i]? = some n) : n.toNamespace.segments.length ≤ i + 1 := by
  induction i using Nat.strong_induction_on generalizing n with
  | _ i ih =>
    have hspace : t.tree.namespaces[i]? = some n.toNamespace := by simp [tree, hn]
    have hlength : n.toNamespace.parent.length = n.toNamespace.segments.length - 1 :=
      List.length_dropLast
    by_cases hparent : n.toNamespace.parent = []
    · rw [hparent, List.length_nil] at hlength
      omega
    · obtain ⟨m, hm, hsegments⟩ := h.closed _ (List.mem_of_getElem? hspace) hparent
      obtain ⟨outer, houter, rfl⟩ := List.mem_map.mp hm
      obtain ⟨j, hj⟩ := List.getElem?_of_mem houter
      have hchild : i ∈ outer.children := by
        rw [h.children j outer hj]
        exact NamespaceTree.mem_placesIn.mpr ⟨_, hspace, hsegments.symm⟩
      have hearlier := h.later j outer hj i hchild
      have hless := ih j hearlier hj
      rw [hsegments, hlength] at hless
      omega

/-- The walk over positions ends, and meets the namespaces that the walk over them meets. -/
private theorem Linked.visit (h : Linked documents t)
    (hids : ∀ id ∈ ids, id < t.nodes.length ∧ t.nodes.length ≤ id + levels) :
    ∃ visited, t.visit levels depth ids = some visited ∧
      visited.map (fun entry => (t.tree.namespaces[entry.1]?, entry.2)) =
        (t.tree.walkFrom levels depth (ids.filterMap (t.tree.namespaces[·]?))).map fun entry =>
          (some entry.1, entry.2) := by
  induction levels generalizing depth ids with
  | zero =>
    cases ids with
    | nil => exact ⟨[], rfl, rfl⟩
    | cons id rest =>
      have hid := hids id List.mem_cons_self
      omega
  | succ levels ih =>
    induction ids with
    | nil => exact ⟨[], rfl, rfl⟩
    | cons id rest ihrest =>
      obtain ⟨⟨hlt, hle⟩, hrest⟩ := List.forall_mem_cons.mp hids
      have hn : t.nodes[id]? = some t.nodes[id] := List.getElem?_eq_getElem hlt
      have hspace : t.tree.namespaces[id]? = some t.nodes[id].toNamespace :=
        (List.getElem?_map ..).trans (congrArg _ hn)
      have hchildren := h.children id _ hn
      have hinner : ∀ c ∈ t.nodes[id].children, c < t.nodes.length ∧
          t.nodes.length ≤ c + levels := by
        intro c hc
        have hlater := h.later id _ hn c hc
        rw [hchildren] at hc
        obtain ⟨child, hchild, -⟩ := NamespaceTree.mem_placesIn.mp hc
        have hbound : c < t.nodes.length := by
          simpa [tree] using (List.getElem?_eq_some_iff.mp hchild).1
        exact ⟨hbound, by omega⟩
      obtain ⟨below, hbelow, hmet⟩ := @ih (depth + 1) _ hinner
      obtain ⟨beside, hbeside, hothers⟩ := ihrest hrest
      rw [hchildren, NamespaceTree.filterMap_placesIn] at hmet
      refine ⟨(id, depth) :: (below ++ beside), ?_, ?_⟩
      · simp [visit_cons, hn, hbelow, hbeside]
      · simp [NamespaceTree.walkFrom, hspace, hmet, hothers]

/-- The walk over positions ends within any number of levels that the nodes suffice for. -/
private theorem Linked.walk (h : Linked documents t) (hsound : t.tree.Sound documents) :
    ∃ visited, t.walk = some visited ∧
      visited.map (fun entry => (t.tree.namespaces[entry.1]?, entry.2)) =
        t.tree.walk.map fun entry => (some entry.1, entry.2) := by
  have hroots : ∀ id ∈ t.roots, id < t.nodes.length ∧ t.nodes.length ≤ id + t.nodes.length := by
    intro id hid
    rw [h.roots] at hid
    obtain ⟨root, hroot, -⟩ := NamespaceTree.mem_placesIn.mp hid
    have hbound : id < t.nodes.length := by
      simpa [tree] using (List.getElem?_eq_some_iff.mp hroot).1
    exact ⟨hbound, by omega⟩
  obtain ⟨visited, hvisited, hmet⟩ := @Linked.visit t documents t.nodes.length 0 t.roots h hroots
  refine ⟨visited, hvisited, hmet.trans ?_⟩
  have hlong : ∀ n ∈ t.tree.namespaces, n.segments.length ≤ t.nodes.length := by
    intro n hn
    obtain ⟨node, hnode, rfl⟩ := List.mem_map.mp hn
    obtain ⟨i, hi⟩ := List.getElem?_of_mem hnode
    have hlength := h.length_le hi
    have hbound := (List.getElem?_eq_some_iff.mp hi).1
    omega
  rw [h.roots, NamespaceTree.filterMap_placesIn]
  refine congrArg _ (NamespaceTree.walkFrom_eq hsound ?_ hlong ?_)
  · intro m hm
    exact ⟨(NamespaceTree.mem_childrenOf.mp hm).1, NamespaceTree.length_of_mem_childrenOf hsound hm⟩
  · exact fun n hn => NamespaceTree.length_le_height hn

end Walking

/-- An arena is a forest of the authority prefixes: one node for each, found under its path, with
the nodes right inside it and the methods of its authority in the order in which they came in. Only
one-segment paths are outermost, everything else has one node around it, and the walk comes to an
end and visits each node once, after the one around it. -/
structure Arranged (documents : List Document) (t : NamespaceArena) : Prop where
  exactly : ∀ path, (∃ n ∈ t.nodes, n.path = path) ↔ ∃ document ∈ documents, ∃ segments,
    segments ≠ [] ∧ segments <+: document.nsid.authoritySegments ∧ joinWith "." segments = path
  once : (t.nodes.map ArenaNode.path).Nodup
  segment : ∀ n ∈ t.nodes, n.segment = (split '.' n.path).getLastD ""
  index : ∀ path i, t.index.lookup path = some i ↔ ∃ n, t.nodes[i]? = some n ∧ n.path = path
  lookup : ∀ path n, t.lookup? path = some n ↔ n ∈ t.nodes ∧ n.path = path
  roots : t.roots.Pairwise (· < ·) ∧
    ∀ i, i ∈ t.roots ↔ ∃ n, t.nodes[i]? = some n ∧ '.' ∉ n.path.toList
  children : ∀ (i : Nat) (n : ArenaNode), t.nodes[i]? = some n → n.children.Pairwise (· < ·) ∧
    ∀ c, c ∈ n.children ↔
      ∃ child, t.nodes[c]? = some child ∧ child.path = n.path ++ "." ++ child.segment
  parents : ∀ c < t.nodes.length, c ∉ t.roots →
    ∃! i : Nat, ∃ n : ArenaNode, t.nodes[i]? = some n ∧ c ∈ n.children
  siblings : ∀ place, (t.nodesAt (t.inside place)).Pairwise fun a b =>
    lower a.segment ≠ lower b.segment
  walk : ∃ visited, t.walk = some visited ∧
    (∀ levels, t.nodes.length ≤ levels → t.visit levels 0 t.roots = some visited) ∧
    (visited.map Prod.fst).Perm (List.range t.nodes.length) ∧
    ∀ (i : Nat) (n : ArenaNode), t.nodes[i]? = some n → ∀ c ∈ n.children,
      [i, c].Sublist (visited.map Prod.fst)
  methods : ∀ n ∈ t.nodes, n.methods = (documents.filter fun document =>
    document.isMethod && document.nsid.authority == n.path).map fun document =>
      ⟨document.nsid.name, document⟩
  count : t.methodCount = (documents.filter fun document => document.isMethod).length

section Arranged

variable {t : NamespaceArena} {documents : List Document}

private theorem ArenaNode.dot_notMem_segments (n : ArenaNode) :
    ∀ segment ∈ n.toNamespace.segments, '.' ∉ segment.toList := by
  intro segment hs
  obtain ⟨piece, hpiece, rfl⟩ := List.mem_map.mp hs
  simpa using separator_notMem_splitList '.' _ piece hpiece

private theorem ArenaNode.dot_notMem_path_iff (n : ArenaNode) :
    '.' ∉ n.path.toList ↔ n.toNamespace.parent = [] := by
  constructor
  · intro hdot
    have hone : n.toNamespace.segments = [n.path] := by
      simp [ArenaNode.toNamespace, split, splitList_of_notMem hdot]
    rw [Namespace.parent, hone]
    rfl
  · intro hparent
    have hsegments := NamespaceTree.parent_append_segment n.segments_toNamespace_ne_nil
    rw [hparent, List.nil_append] at hsegments
    rw [← n.path_toNamespace, Namespace.path, ← hsegments]
    exact dot_notMem_segments n _ (by rw [← hsegments]; exact List.mem_singleton_self _)

private theorem methodCount_tree (t : NamespaceArena) : t.methodCount = t.tree.methodCount := by
  simp [NamespaceArena.methodCount, NamespaceTree.methodCount, tree, List.foldl_map,
    ArenaNode.toNamespace]

private theorem Linked.pairwise_inside (h : Linked documents t)
    (hf : NamespaceTree.Forest documents t.tree) (place : Option Nat) :
    (t.nodesAt (t.inside place)).Pairwise fun a b => lower a.segment ≠ lower b.segment := by
  have hstands : t.inside place = [] ∨ ∃ segments, t.Stands segments place := by
    cases place with
    | none => exact Or.inr ⟨[], rfl⟩
    | some i =>
      cases hn : t.nodes[i]? with
      | none => exact Or.inl (by rw [NamespaceArena.inside, hn]; rfl)
      | some n => exact Or.inr ⟨_, n, hn, rfl⟩
  rcases hstands with hnone | ⟨segments, hs⟩
  · rw [hnone]
    exact .nil
  · have hpairs := hf.siblings segments
    rw [← nodesAt_placesIn, ← h.inside hs, List.pairwise_map] at hpairs
    refine hpairs.imp_of_mem fun {a b} ha hb hdiffer => ?_
    rw [h.segment a (mem_nodes_of_mem_nodesAt ha), h.segment b (mem_nodes_of_mem_nodesAt hb)]
    exact hdiffer

private theorem Linked.methods_eq (h : Linked documents t) (hid : Identified documents)
    (hf : NamespaceTree.Forest documents t.tree) {n : ArenaNode} (hn : n ∈ t.nodes) :
    n.methods = (documents.filter fun document =>
      document.isMethod && document.nsid.authority == n.path).map fun document =>
        ⟨document.nsid.name, document⟩ := by
  have hprefix : n.toNamespace.segments ∈ NamespaceTree.authorityPrefixes documents :=
    NamespaceTree.mem_authorityPrefixes.mpr
      ((hf.exactly _).mp ⟨_, List.mem_map_of_mem hn, rfl⟩)
  rw [h.methods n hn, leavesAt]
  refine congrArg _ (List.filter_congr fun document hd => congrArg _ ?_)
  rw [Bool.eq_iff_iff, beq_iff_eq, beq_iff_eq, ← n.path_toNamespace]
  refine ⟨congrArg (joinWith "."), fun hpath => ?_⟩
  exact NamespaceTree.joinWith_injOn_authorityPrefixes hid
    (NamespaceTree.authoritySegments_mem hid hd) hprefix hpath

private theorem getElem?_tree (t : NamespaceArena) (i : Nat) :
    t.tree.namespaces[i]? = t.nodes[i]?.map ArenaNode.toNamespace :=
  List.getElem?_map ..

private theorem exists_path_iff (hf : NamespaceTree.Forest documents t.tree) {path : String} :
    (∃ n ∈ t.nodes, n.path = path) ↔ ∃ document ∈ documents, ∃ segments,
      segments ≠ [] ∧ segments <+: document.nsid.authoritySegments ∧
        joinWith "." segments = path := by
  constructor
  · rintro ⟨n, hn, rfl⟩
    obtain ⟨hne, document, hd, hfront⟩ := (hf.exactly _).mp ⟨_, List.mem_map_of_mem hn, rfl⟩
    exact ⟨document, hd, _, hne, hfront, n.path_toNamespace⟩
  · rintro ⟨document, hd, segments, hne, hfront, rfl⟩
    obtain ⟨_, hmem, rfl⟩ := (hf.exactly segments).mpr ⟨hne, document, hd, hfront⟩
    obtain ⟨n, hn, rfl⟩ := List.mem_map.mp hmem
    exact ⟨n, hn, n.path_toNamespace.symm⟩

private theorem nodup_paths (hf : NamespaceTree.Forest documents t.tree) :
    (t.nodes.map ArenaNode.path).Nodup := by
  have hsegments : t.tree.namespaces.map Namespace.segments =
      (t.nodes.map ArenaNode.path).map (split '.') := by
    simp [tree, ArenaNode.toNamespace]
  exact (hsegments ▸ hf.once).of_map _

private theorem Linked.lookup?_eq_some (h : Linked documents t) {path : String} {n : ArenaNode} :
    t.lookup? path = some n ↔ n ∈ t.nodes ∧ n.path = path := by
  rw [lookup?, Option.bind_eq_some_iff]
  constructor
  · rintro ⟨i, hi, hn⟩
    rw [h.index, hn, Option.map_some, Option.some.injEq] at hi
    exact ⟨List.mem_of_getElem? hn, hi⟩
  · rintro ⟨hn, rfl⟩
    obtain ⟨i, hi⟩ := List.getElem?_of_mem hn
    exact ⟨i, (h.index _ i).mpr (by rw [hi, Option.map_some]), hi⟩

private theorem Linked.mem_roots (h : Linked documents t) {i : Nat} :
    i ∈ t.roots ↔ ∃ n, t.nodes[i]? = some n ∧ '.' ∉ n.path.toList := by
  simp only [h.roots, NamespaceTree.mem_placesIn, getElem?_tree, Option.map_eq_some_iff,
    exists_exists_and_eq_and, ArenaNode.dot_notMem_path_iff]

private theorem Linked.mem_children (h : Linked documents t)
    (hf : NamespaceTree.Forest documents t.tree) {i c : Nat} {n : ArenaNode}
    (hn : t.nodes[i]? = some n) : c ∈ n.children ↔
      ∃ child, t.nodes[c]? = some child ∧ child.path = n.path ++ "." ++ child.segment := by
  simp only [h.children i n hn, NamespaceTree.mem_placesIn, getElem?_tree, Option.map_eq_some_iff,
    exists_exists_and_eq_and]
  refine exists_congr fun child => and_congr_right fun hc => ?_
  have hmem := List.mem_map_of_mem (f := ArenaNode.toNamespace) (List.mem_of_getElem? hc)
  have hinside := hf.children _ (List.mem_map_of_mem (List.mem_of_getElem? hn)) child.toNamespace
  rw [NamespaceTree.mem_childrenOf, n.path_toNamespace, child.path_toNamespace,
    ← h.segment child (List.mem_of_getElem? hc)] at hinside
  constructor
  · exact fun hparent => (hinside.mp ⟨hmem, hparent⟩).2
  · exact fun hpath => (hinside.mpr ⟨hmem, hpath⟩).2

private theorem Linked.existsUnique_parent (h : Linked documents t) {c : Nat}
    (hc : c < t.nodes.length) (hroot : c ∉ t.roots) :
    ∃! i : Nat, ∃ n : ArenaNode, t.nodes[i]? = some n ∧ c ∈ n.children := by
  have hchild : t.tree.namespaces[c]? = some t.nodes[c].toNamespace := by
    rw [getElem?_tree, List.getElem?_eq_getElem hc, Option.map_some]
  have hinside {i : Nat} {n : ArenaNode} (hn : t.nodes[i]? = some n) :
      c ∈ n.children ↔ t.nodes[c].toNamespace.parent = n.toNamespace.segments := by
    simp [h.children i n hn, NamespaceTree.mem_placesIn, hchild]
  have hparent : t.nodes[c].toNamespace.parent ≠ [] := by
    intro hnil
    rw [h.roots] at hroot
    exact hroot (NamespaceTree.mem_placesIn.mpr ⟨_, hchild, hnil⟩)
  obtain ⟨m, hm, hsegments⟩ := h.closed _ (List.mem_of_getElem? hchild) hparent
  obtain ⟨outer, houter, rfl⟩ := List.mem_map.mp hm
  obtain ⟨i, hi⟩ := List.getElem?_of_mem houter
  refine ⟨i, ⟨outer, hi, (hinside hi).mpr hsegments.symm⟩, ?_⟩
  rintro j ⟨n, hn, hmem⟩
  exact h.position_unique hn hi (((hinside hn).mp hmem).symm.trans hsegments.symm)

end Arranged

section Visiting

variable {t : NamespaceArena} {documents : List Document}

private theorem Linked.visited (h : Linked documents t) (hsound : t.tree.Sound documents)
    (hf : NamespaceTree.Forest documents t.tree) : ∃ visited, t.walk = some visited ∧
      (visited.map Prod.fst).Perm (List.range t.nodes.length) ∧
      ∀ (i : Nat) (n : ArenaNode), t.nodes[i]? = some n → ∀ c ∈ n.children,
        [i, c].Sublist (visited.map Prod.fst) := by
  obtain ⟨visited, hwalk, hmet⟩ := h.walk hsound
  have hlength : t.tree.namespaces.length = t.nodes.length := List.length_map ..
  have hspaces : (visited.map Prod.fst).map (t.tree.namespaces[·]?) =
      (t.tree.walk.map Prod.fst).map some := by
    have hfirst := congrArg (List.map Prod.fst) hmet
    simpa [Function.comp_def] using hfirst
  -- different positions hold different namespaces
  have hinj {i j : Nat} (hi : i < t.nodes.length)
      (hsame : t.tree.namespaces[i]? = t.tree.namespaces[j]?) : i = j :=
    (List.getElem?_inj (hlength ▸ hi) (hf.once.of_map _)).mp hsame
  have hnodup : (visited.map Prod.fst).Nodup := by
    refine List.Nodup.of_map (t.tree.namespaces[·]?) ?_
    rw [hspaces]
    exact (hf.walk.nodup_iff.mpr (hf.once.of_map _)).map fun _ _ => Option.some.inj
  have hmem (i : Nat) : i ∈ visited.map Prod.fst ↔ i < t.nodes.length := by
    have hwalked (space : Namespace) : space ∈ t.tree.namespaces ↔
        some space ∈ (visited.map Prod.fst).map (t.tree.namespaces[·]?) := by
      rw [hspaces, ← hf.walk.mem_iff]
      simp
    constructor
    · intro hi
      have himage := List.mem_map_of_mem (f := (t.tree.namespaces[·]?)) hi
      rw [hspaces] at himage
      obtain ⟨space, -, hspace⟩ := List.mem_map.mp himage
      exact hlength ▸ (List.getElem?_eq_some_iff.mp hspace.symm).1
    · intro hi
      have hbound : i < t.tree.namespaces.length := hlength ▸ hi
      have hspace := List.getElem?_eq_getElem hbound
      obtain ⟨j, hj, hsame⟩ := List.mem_map.mp ((hwalked _).mp (List.mem_of_getElem? hspace))
      rw [hinj hi (hspace.trans hsame.symm)]
      exact hj
  refine ⟨visited, hwalk, ?_, fun i n hn c hc => ?_⟩
  · refine (List.perm_ext_iff_of_nodup hnodup List.nodup_range).mpr fun i => ?_
    rw [hmem, List.mem_range]
  · rw [h.children i n hn] at hc
    obtain ⟨child, hchild, hparent⟩ := NamespaceTree.mem_placesIn.mp hc
    have hspace : t.tree.namespaces[i]? = some n.toNamespace := by rw [getElem?_tree, hn]; rfl
    have hinside : child ∈ t.tree.childrenOf n.toNamespace.segments :=
      NamespaceTree.mem_childrenOf.mpr ⟨List.mem_of_getElem? hchild, hparent⟩
    have hpair := (hf.inwards _ (List.mem_of_getElem? hspace) child hinside).map some
    rw [← hspaces, List.sublist_map_iff] at hpair
    obtain ⟨places, hplaces, hsame⟩ := hpair
    obtain ⟨j, k, rfl⟩ : ∃ j k, places = [j, k] := by
      have htwo : places.length = 2 := by simpa using (congrArg List.length hsame).symm
      exact List.length_eq_two.mp htwo
    simp only [List.map_cons, List.map_nil, List.cons.injEq, and_true] at hsame
    have hi := hinj (List.getElem?_eq_some_iff.mp hn).1 (hspace.trans hsame.1)
    have hk := hinj (hlength ▸ (List.getElem?_eq_some_iff.mp hchild).1) (hchild.trans hsame.2)
    rw [hi, hk]
    exact hplaces

end Visiting

theorem build_arranged {documents : List Document} {t : NamespaceArena}
    (hid : Identified documents) (h : build documents = .ok t) : Arranged documents t := by
  have hsame := build_same hid
  rw [h] at hsame
  generalize hs : NamespaceTree.build documents = s at hsame
  cases hsame with
  | ok hboth =>
  obtain ⟨rfl, hlinked⟩ := hboth
  have hf := NamespaceTree.build_forest hid hs
  have hsound := NamespaceTree.build_sound hs
  constructor
  · exact fun path => exists_path_iff hf
  · exact nodup_paths hf
  · exact hlinked.segment
  · intro path i
    rw [hlinked.index, Option.map_eq_some_iff]
  · exact fun path n => hlinked.lookup?_eq_some
  · exact ⟨hlinked.roots ▸ NamespaceTree.sorted_placesIn, fun i => hlinked.mem_roots⟩
  · intro i n hn
    refine ⟨?_, fun c => hlinked.mem_children hf hn⟩
    rw [hlinked.children i n hn]
    exact NamespaceTree.sorted_placesIn
  · exact fun c hc hroot => hlinked.existsUnique_parent hc hroot
  · exact hlinked.pairwise_inside hf
  · obtain ⟨visited, hwalk, hperm, hinwards⟩ := hlinked.visited hsound hf
    exact ⟨visited, hwalk, fun levels hlevels => visit_mono hwalk hlevels, hperm, hinwards⟩
  · exact fun n hn => hlinked.methods_eq hid hf hn
  · rw [methodCount_tree, hf.count]

theorem build_arranged_repository :
    ∃ t, Identified NamespaceTree.repository ∧ build NamespaceTree.repository = .ok t ∧
      t.nodes.map ArenaNode.path =
        ["com", "com.example", "com.example.repo", "com.example.identity"] ∧
      Arranged NamespaceTree.repository t := by
  have hpaths : ((build NamespaceTree.repository).toOption.map fun t =>
      t.nodes.map ArenaNode.path) =
        some ["com", "com.example", "com.example.repo", "com.example.identity"] := by
    decide +kernel
  obtain ⟨t, ht, hpaths⟩ := Option.map_eq_some_iff.mp hpaths
  have hbuilt := Outcome.toOption_eq_some.mp ht
  exact ⟨t, NamespaceTree.identified_repository, hbuilt, hpaths,
    build_arranged NamespaceTree.identified_repository hbuilt⟩

end NamespaceArena

end LexiconCompiler
