import LexiconCompiler.NamespaceArena
import LexiconCompiler.Proofs.Namespace.Forest
import Mathlib.Data.List.Find

set_option autoImplicit false
set_option relaxedAutoImplicit false

/-!
The arena and the list of namespaces are two layers of one thing. What the arena keeps beside the
paths of its nodes, the positions and the methods, follows from the paths and from the documents
that have come in, whatever order they come in; so a document enters both layers alike, and both
fail with the same problem.
-/

namespace LexiconCompiler

open LexiconCompiler.Text

namespace NamespaceTree

section Places

variable {t : NamespaceTree} {segments : List String}

/-- The positions of the namespaces right inside the one of some segments. -/
def placesIn (t : NamespaceTree) (segments : List String) : List Nat :=
  (List.range t.namespaces.length).filter fun i =>
    t.namespaces[i]?.any fun n => n.parent == segments

theorem mem_placesIn {i : Nat} :
    i ∈ t.placesIn segments ↔ ∃ n, t.namespaces[i]? = some n ∧ n.parent = segments := by
  rw [placesIn, List.mem_filter, List.mem_range, Option.any_eq_true]
  simp only [beq_iff_eq]
  constructor
  · rintro ⟨-, h⟩
    exact h
  · rintro ⟨n, hn, hparent⟩
    exact ⟨(List.getElem?_eq_some_iff.mp hn).1, n, hn, hparent⟩

theorem sorted_placesIn : (t.placesIn segments).Pairwise (· < ·) :=
  List.pairwise_lt_range.filter _

private theorem placesIn_append (t : NamespaceTree) (n : Namespace) (segments : List String) :
    placesIn ⟨t.namespaces ++ [n]⟩ segments =
      t.placesIn segments ++ if n.parent = segments then [t.namespaces.length] else [] := by
  simp only [placesIn, List.length_append, List.length_singleton, List.range_succ,
    List.filter_append]
  congr 1
  · refine List.filter_congr fun i hi => ?_
    rw [List.getElem?_append_left (List.mem_range.mp hi)]
  · by_cases h : n.parent = segments <;> simp [h]

private theorem filterMap_positions {α : Type} (xs : List α) (p : α → Bool) :
    ((List.range xs.length).filter fun i => xs[i]?.any p).filterMap (xs[·]?) = xs.filter p := by
  induction xs with
  | nil => rfl
  | cons x rest ih =>
    rw [List.length_cons, List.range_succ_eq_map, List.filter_cons, List.filter_map,
      List.filter_cons]
    by_cases hx : p x = true <;> simpa [hx, Function.comp_def, List.filterMap_map] using ih

theorem filterMap_placesIn :
    (t.placesIn segments).filterMap (t.namespaces[·]?) = t.childrenOf segments :=
  filterMap_positions _ _

private theorem segments_addMethod (method : Nsid) (n : Namespace) :
    (if n.segments == method.authoritySegments then
      (⟨n.segments, n.methods ++ [method]⟩ : Namespace) else n).segments = n.segments := by
  split <;> rfl

private theorem placesIn_addMethod (t : NamespaceTree) (method : Nsid) (segments : List String) :
    (t.addMethod method).placesIn segments = t.placesIn segments := by
  simp only [placesIn, addMethod, List.length_map, List.getElem?_map, Option.any_map,
    Namespace.parent, segments_addMethod]

private theorem exists_segments_addMethod {method : Nsid} :
    (∃ n ∈ (t.addMethod method).namespaces, n.segments = segments) ↔
      ∃ n ∈ t.namespaces, n.segments = segments := by
  simp only [addMethod, List.mem_map, exists_exists_and_eq_and, segments_addMethod]

private theorem Closed.addMethod (h : t.Closed) (method : Nsid) : (t.addMethod method).Closed := by
  intro n hn hparent
  obtain ⟨old, hold, rfl⟩ := List.mem_map.mp hn
  rw [Namespace.parent, segments_addMethod] at hparent ⊢
  obtain ⟨m, hm, hsegments⟩ := h old hold hparent
  exact ⟨_, List.mem_map_of_mem hm, (segments_addMethod method m).trans hsegments⟩

private theorem enter_of_forall_ne {id : String} (h : ∀ n ∈ t.namespaces, n.segments ≠ segments) :
    t.enter id segments =
      match (t.childrenOf segments.dropLast).find? fun sibling =>
          lower sibling.segment == lower (segments.getLastD "") with
      | some sibling => .error (.foldedNamespace id (joinWith "." segments) sibling.path)
      | none => .ok ⟨t.namespaces ++ [⟨segments, []⟩]⟩ := by
  have hany : ¬ (t.namespaces.any fun n => n.segments == segments) = true := by simpa using h
  rw [enter, if_neg hany]
  rfl

end Places

end NamespaceTree

namespace ArenaNode

/-- The namespace that a node stands for. -/
def toNamespace (n : ArenaNode) : Namespace :=
  ⟨split '.' n.path, n.methods.map fun method => method.document.nsid⟩

theorem path_toNamespace (n : ArenaNode) : n.toNamespace.path = n.path :=
  joinWith_split '.' n.path

theorem segments_toNamespace_ne_nil (n : ArenaNode) : n.toNamespace.segments ≠ [] := by
  simpa [toNamespace, split] using splitList_ne_nil '.' n.path.toList

end ArenaNode

namespace NamespaceArena

/-- The namespaces that the nodes stand for, without what links them. -/
def tree (t : NamespaceArena) : NamespaceTree := ⟨t.nodes.map ArenaNode.toNamespace⟩

def leavesAt (documents : List Document) (segments : List String) : List LeafMethod :=
  (documents.filter fun document =>
    document.isMethod && document.nsid.authoritySegments == segments).map fun document =>
      ⟨document.nsid.name, document⟩

/-- The parts of an arena fit together: what is kept beside the paths follows from them and from the
documents that have come in. -/
structure Linked (documents : List Document) (t : NamespaceArena) : Prop where
  segment : ∀ n ∈ t.nodes, n.segment = n.toNamespace.segment
  methods : ∀ n ∈ t.nodes, n.methods = leavesAt documents n.toNamespace.segments
  authorities : ∀ document ∈ documents,
    ∃ n ∈ t.tree.namespaces, n.segments = document.nsid.authoritySegments
  index : ∀ path i, t.index.lookup path = some i ↔ t.nodes[i]?.map ArenaNode.path = some path
  roots : t.roots = t.tree.placesIn []
  children : ∀ (i : Nat) (n : ArenaNode), t.nodes[i]? = some n →
    n.children = t.tree.placesIn n.toNamespace.segments
  later : ∀ (i : Nat) (n : ArenaNode), t.nodes[i]? = some n → ∀ c ∈ n.children, i < c
  closed : t.tree.Closed

/-- The node of some segments stands at a place; no segments stand for none. -/
def Stands (t : NamespaceArena) (segments : List String) : Option Nat → Prop
  | none => segments = []
  | some i => ∃ n, t.nodes[i]? = some n ∧ n.toNamespace.segments = segments

section Reading

variable {t : NamespaceArena} {documents : List Document} {segments : List String}
  {place : Option Nat}

private theorem linked_empty : Linked [] empty := by
  constructor <;> simp [empty, tree, NamespaceTree.placesIn, NamespaceTree.Closed]

theorem Linked.inside (h : Linked documents t) (hs : t.Stands segments place) :
    t.inside place = t.tree.placesIn segments := by
  cases place with
  | none =>
    obtain rfl := hs
    exact h.roots
  | some i =>
    obtain ⟨n, hn, rfl⟩ := hs
    rw [NamespaceArena.inside, hn]
    exact h.children i n hn

theorem nodesAt_placesIn (t : NamespaceArena) (segments : List String) :
    (t.nodesAt (t.tree.placesIn segments)).map ArenaNode.toNamespace =
      t.tree.childrenOf segments := by
  rw [← NamespaceTree.filterMap_placesIn, nodesAt, List.map_filterMap]
  simp [tree]

theorem mem_nodes_of_mem_nodesAt {ids : List Nat} {n : ArenaNode} (h : n ∈ t.nodesAt ids) :
    n ∈ t.nodes := by
  obtain ⟨i, -, hn⟩ := List.mem_filterMap.mp h
  exact List.mem_of_getElem? hn

private theorem Linked.find?_inside (h : Linked documents t) (hs : t.Stands segments place)
    (name : String) :
    ((t.nodesAt (t.inside place)).find? fun sibling =>
      lower sibling.segment == lower name).map ArenaNode.toNamespace =
        (t.tree.childrenOf segments).find? fun sibling => lower sibling.segment == lower name := by
  rw [h.inside hs, ← nodesAt_placesIn, List.find?_map]
  refine congrArg _ (List.find?_congr fun n hn => ?_)
  rw [Function.comp_apply, h.segment n (mem_nodes_of_mem_nodesAt hn)]

end Reading

section Growing

variable {t : NamespaceArena} {documents : List Document} {segments : List String}
  {place : Option Nat} {id : String}

private theorem getElem?_link (t : NamespaceArena) (child : Nat) (place : Option Nat) (i : Nat) :
    (t.link child place).nodes[i]? = t.nodes[i]?.map fun n =>
      if place = some i then { n with children := n.children ++ [child] } else n := by
  cases place with
  | none => simp [link]
  | some parent => simp [link, List.getElem?_modify]

private theorem map_nodes_link {α : Type} {f : ArenaNode → α}
    (hf : ∀ n : ArenaNode, ∀ children, f { n with children := children } = f n) (t : NamespaceArena)
    (child : Nat) (place : Option Nat) :
    (t.link child place).nodes.map f = t.nodes.map f := by
  refine List.ext_getElem? fun i => ?_
  rw [List.getElem?_map, List.getElem?_map, getElem?_link, Option.map_map]
  refine congrArg (Option.map · _) (funext fun n => ?_)
  rw [Function.comp_apply]
  split
  · exact hf n _
  · rfl

@[simp] theorem tree_link (t : NamespaceArena) (child : Nat) (place : Option Nat) :
    (t.link child place).tree = t.tree :=
  congrArg NamespaceTree.mk (map_nodes_link (fun _ _ => rfl) t child place)

@[simp] theorem index_link (t : NamespaceArena) (child : Nat) (place : Option Nat) :
    (t.link child place).index = t.index := by
  cases place <;> rfl

/-- An arena with one more node, which is not linked yet. -/
def grow (t : NamespaceArena) (segment path : String) : NamespaceArena :=
  ⟨t.nodes ++ [⟨segment, path, [], []⟩], (path, t.nodes.length) :: t.index, t.roots⟩

private theorem toNamespace_mk (hne : segments ≠ [])
    (hdots : ∀ segment ∈ segments, '.' ∉ segment.toList) (segment : String) :
    ArenaNode.toNamespace ⟨segment, joinWith "." segments, [], []⟩ =
      ⟨segments, []⟩ := by
  rw [ArenaNode.toNamespace, show "." = String.singleton '.' from rfl, split_joinWith hne hdots]
  rfl

private theorem tree_grow (hne : segments ≠ []) (hdots : ∀ segment ∈ segments, '.' ∉ segment.toList)
    (segment : String) : (t.grow segment (joinWith "." segments)).tree =
      ⟨t.tree.namespaces ++ [⟨segments, []⟩]⟩ := by
  simp [grow, tree, toNamespace_mk hne hdots]

theorem Linked.position_unique (h : Linked documents t) {i j : Nat} {n m : ArenaNode}
    (hn : t.nodes[i]? = some n) (hm : t.nodes[j]? = some m)
    (hsegments : n.toNamespace.segments = m.toNamespace.segments) : i = j := by
  have hpath : n.path = m.path := by
    rw [← n.path_toNamespace, ← m.path_toNamespace, Namespace.path, hsegments]
    rfl
  have hi := (h.index n.path i).mpr (by rw [hn]; rfl)
  have hj := (h.index n.path j).mpr (by rw [hm, hpath]; rfl)
  exact Option.some.inj (hi.symm.trans hj)

private theorem getElem?_grow {segment path : String} {i : Nat} {n : ArenaNode} :
    (t.grow segment path).nodes[i]? = some n ↔
      t.nodes[i]? = some n ∨ i = t.nodes.length ∧ n = ⟨segment, path, [], []⟩ := by
  rcases Nat.lt_trichotomy i t.nodes.length with hlt | rfl | hgt
  · simp [NamespaceArena.grow, List.getElem?_append_left hlt, hlt.ne]
  · simp [NamespaceArena.grow, eq_comm]
  · have hbefore : t.nodes[i]? = none := List.getElem?_eq_none hgt.le
    have hafter : (t.grow segment path).nodes[i]? = none :=
      List.getElem?_eq_none (by rw [NamespaceArena.grow, List.length_append]; exact hgt)
    rw [hbefore, hafter]
    simp [hgt.ne']

private theorem Linked.lookup_eq_some (h : Linked documents t) (hne : segments ≠ [])
    (hdots : ∀ segment ∈ segments, '.' ∉ segment.toList) {i : Nat} :
    t.index.lookup (joinWith "." segments) = some i ↔ t.Stands segments (some i) := by
  rw [h.index, Option.map_eq_some_iff]
  refine exists_congr fun n => and_congr_right fun _ => ?_
  constructor
  · intro hpath
    rw [ArenaNode.toNamespace, hpath]
    exact split_joinWith hne hdots
  · intro hsegments
    rw [← n.path_toNamespace, Namespace.path, hsegments]

private theorem Linked.fresh (h : Linked documents t) (hne : segments ≠ [])
    (hdots : ∀ segment ∈ segments, '.' ∉ segment.toList)
    (hnew : t.index.lookup (joinWith "." segments) = none) :
    ∀ n ∈ t.tree.namespaces, n.segments ≠ segments := by
  intro n hn hsegments
  obtain ⟨node, hnode, rfl⟩ := List.mem_map.mp hn
  obtain ⟨i, hi⟩ := List.getElem?_of_mem hnode
  have hknown := (h.lookup_eq_some hne hdots).mpr ⟨node, hi, hsegments⟩
  rw [hnew] at hknown
  cases hknown

private theorem lookup_grow (h : Linked documents t) {segment path other : String} {i : Nat}
    (hnew : t.index.lookup path = none) :
    (t.grow segment path).index.lookup other = some i ↔
      (t.grow segment path).nodes[i]?.map ArenaNode.path = some other := by
  have hnodes : (t.grow segment path).nodes[i]?.map ArenaNode.path = some other ↔
      t.nodes[i]?.map ArenaNode.path = some other ∨ i = t.nodes.length ∧ path = other := by
    simp only [Option.map_eq_some_iff, getElem?_grow, or_and_right, exists_or, and_assoc,
      exists_and_left, exists_eq_left]
  rw [hnodes, ← h.index, NamespaceArena.grow, List.lookup_cons]
  by_cases hsame : other = path
  · subst hsame
    simp [hnew, eq_comm]
  · have hdiffer : (other == path) = false := by simpa using hsame
    simp [hdiffer, Ne.symm hsame]

private theorem getElem?_link_grow (hplace : t.Stands segments.dropLast place)
    {segment path : String} {i : Nat} {n : ArenaNode}
    (h : ((t.grow segment path).link t.nodes.length place).nodes[i]? = some n) :
    (∃ m, t.nodes[i]? = some m ∧ n = if place = some i then
        { m with children := m.children ++ [t.nodes.length] } else m) ∨
      i = t.nodes.length ∧ n = ⟨segment, path, [], []⟩ := by
  rw [getElem?_link, Option.map_eq_some_iff] at h
  obtain ⟨m, hm, rfl⟩ := h
  rcases getElem?_grow.mp hm with hm | ⟨rfl, rfl⟩
  · exact Or.inl ⟨m, hm, rfl⟩
  · refine Or.inr ⟨rfl, if_neg ?_⟩
    rintro rfl
    obtain ⟨n, hn, -⟩ := hplace
    exact absurd (List.getElem?_eq_some_iff.mp hn).1 (Nat.lt_irrefl _)

/-- A new node fits in if its path is new and it is linked to the node around it. -/
private theorem Linked.grow (h : Linked documents t) (hne : segments ≠ [])
    (hdots : ∀ segment ∈ segments, '.' ∉ segment.toList) (hplace : t.Stands segments.dropLast place)
    (hnew : t.index.lookup (joinWith "." segments) = none) :
    Linked documents
      ((t.grow (segments.getLastD "") (joinWith "." segments)).link t.nodes.length place) := by
  have htree : ((t.grow (segments.getLastD "") (joinWith "." segments)).link t.nodes.length
      place).tree = ⟨t.tree.namespaces ++ [⟨segments, []⟩]⟩ := by
    rw [tree_link, tree_grow hne hdots]
  have hlength : t.tree.namespaces.length = t.nodes.length := List.length_map ..
  have hplaces (outer : List String) :
      NamespaceTree.placesIn ⟨t.tree.namespaces ++ [⟨segments, []⟩]⟩ outer =
      t.tree.placesIn outer ++ if segments.dropLast = outer then [t.nodes.length] else [] := by
    rw [NamespaceTree.placesIn_append, hlength]
    rfl
  have houter : place = none ↔ segments.dropLast = [] := by
    cases place with
    | none => exact iff_of_true rfl hplace
    | some i =>
      obtain ⟨n, -, hsegments⟩ := hplace
      simp [← hsegments, n.segments_toNamespace_ne_nil]
  constructor
  · intro n hn
    obtain ⟨i, hi⟩ := List.getElem?_of_mem hn
    rcases getElem?_link_grow hplace hi with ⟨m, hm, rfl⟩ | ⟨-, rfl⟩
    · have hsegment := h.segment m (List.mem_of_getElem? hm)
      split <;> exact hsegment
    · rw [toNamespace_mk hne hdots]
      rfl
  · intro n hn
    obtain ⟨i, hi⟩ := List.getElem?_of_mem hn
    rcases getElem?_link_grow hplace hi with ⟨m, hm, rfl⟩ | ⟨-, rfl⟩
    · have hmethods := h.methods m (List.mem_of_getElem? hm)
      split <;> exact hmethods
    · -- a document of this authority would have made the prefix known
      rw [toNamespace_mk hne hdots, eq_comm, leavesAt, List.map_eq_nil_iff, List.filter_eq_nil_iff]
      intro document hd hhere
      obtain ⟨m, hm, hsegments⟩ := h.authorities document hd
      simp only [Bool.and_eq_true, beq_iff_eq] at hhere
      exact h.fresh hne hdots hnew m hm (hsegments.trans hhere.2)
  · intro document hd
    obtain ⟨m, hm, hsegments⟩ := h.authorities document hd
    rw [htree]
    exact ⟨m, List.mem_append_left _ hm, hsegments⟩
  · intro path i
    have hpaths := map_nodes_link (f := ArenaNode.path) (fun _ _ => rfl)
      (t.grow (segments.getLastD "") (joinWith "." segments)) t.nodes.length place
    rw [← List.getElem?_map, hpaths, List.getElem?_map, index_link]
    exact lookup_grow h hnew
  · rw [htree, hplaces, ← h.roots]
    cases place with
    | none => rw [if_pos (houter.mp rfl)]; rfl
    | some i => rw [if_neg (mt houter.mpr nofun), List.append_nil]; rfl
  · intro i n hn
    rw [htree, hplaces]
    rcases getElem?_link_grow hplace hn with ⟨m, hm, rfl⟩ | ⟨-, rfl⟩
    · have hchildren := h.children i m hm
      by_cases hi : place = some i
      · subst hi
        obtain ⟨outer, houter, hsegments⟩ := hplace
        obtain rfl := Option.some.inj (hm.symm.trans houter)
        rw [if_pos rfl]
        change m.children ++ [t.nodes.length] = t.tree.placesIn m.toNamespace.segments ++
          if segments.dropLast = m.toNamespace.segments then [t.nodes.length] else []
        rw [hchildren, if_pos hsegments.symm]
      · rw [if_neg hi, hchildren, if_neg, List.append_nil]
        intro hsegments
        cases place with
        | none => exact m.segments_toNamespace_ne_nil (hsegments.symm.trans hplace)
        | some j =>
          obtain ⟨outer, houter, hsame⟩ := hplace
          exact hi (congrArg some (h.position_unique houter hm (hsame.trans hsegments)))
    · have hinner : t.tree.placesIn segments = [] := by
        refine List.eq_nil_iff_forall_not_mem.mpr fun j hj => ?_
        obtain ⟨n, hn, hparent⟩ := NamespaceTree.mem_placesIn.mp hj
        obtain ⟨m, hm, hsegments⟩ := h.closed n (List.mem_of_getElem? hn) (hparent ▸ hne)
        exact h.fresh hne hdots hnew m hm (hsegments.trans hparent)
      have hshorter : segments.dropLast ≠ segments := by
        intro hsame
        have hlength := congrArg List.length hsame
        have hpos := List.length_pos_iff.mpr hne
        rw [List.length_dropLast] at hlength
        omega
      rw [toNamespace_mk hne hdots, hinner, if_neg hshorter]
      rfl
  · intro i n hn c hc
    rcases getElem?_link_grow hplace hn with ⟨m, hm, rfl⟩ | ⟨-, rfl⟩
    · have hlater := h.later i m hm
      split at hc
      · rcases List.mem_append.mp hc with hc | hc
        · exact hlater c hc
        · rw [List.mem_singleton.mp hc]
          exact (List.getElem?_eq_some_iff.mp hm).1
      · exact hlater c hc
    · cases hc
  · rw [htree]
    intro n hn hparent
    rcases List.mem_append.mp hn with hn | hn
    · obtain ⟨m, hm, hsegments⟩ := h.closed n hn hparent
      exact ⟨m, List.mem_append_left _ hm, hsegments⟩
    · obtain rfl := List.mem_singleton.mp hn
      cases place with
      | none => exact absurd hplace hparent
      | some i =>
        obtain ⟨outer, houter, hsegments⟩ := hplace
        exact ⟨_, List.mem_append_left _ (List.mem_map_of_mem (List.mem_of_getElem? houter)),
          hsegments⟩

private theorem stands_grow (hne : segments ≠ [])
    (hdots : ∀ segment ∈ segments, '.' ∉ segment.toList) (segment : String) :
    Stands ((t.grow segment (joinWith "." segments)).link t.nodes.length place) segments
      (some t.nodes.length) := by
  have hlast : (t.grow segment (joinWith "." segments)).nodes[t.nodes.length]? =
      some ⟨segment, joinWith "." segments, [], []⟩ := getElem?_grow.mpr (Or.inr ⟨rfl, rfl⟩)
  have hnew := getElem?_link (t.grow segment (joinWith "." segments)) t.nodes.length place
    t.nodes.length
  rw [hlast, Option.map_some] at hnew
  refine ⟨_, hnew, ?_⟩
  split <;> exact congrArg Namespace.segments (toNamespace_mk hne hdots segment)

private theorem Linked.enter (h : Linked documents t) (hne : segments ≠ [])
    (hdots : ∀ segment ∈ segments, '.' ∉ segment.toList)
    (hplace : t.Stands segments.dropLast place) :
    SameOutcome (fun state s =>
        (state.1.tree = s ∧ Linked documents state.1) ∧ state.1.Stands segments state.2)
      (enter id (t, place) segments) (t.tree.enter id segments) := by
  rw [NamespaceArena.enter]
  cases hknown : t.index.lookup (joinWith "." segments) with
  | some i =>
    have hstands := (h.lookup_eq_some hne hdots).mp hknown
    obtain ⟨n, hn, hsegments⟩ := hstands
    have hmember : n.toNamespace ∈ t.tree.namespaces :=
      List.mem_map_of_mem (List.mem_of_getElem? hn)
    have hany : (t.tree.namespaces.any fun n => n.segments == segments) = true :=
      List.any_eq_true.mpr ⟨_, hmember, beq_iff_eq.mpr hsegments⟩
    rw [NamespaceTree.enter, if_pos hany]
    exact .ok ⟨⟨rfl, h⟩, n, hn, hsegments⟩
  | none =>
    have hfound := h.find?_inside hplace (segments.getLastD "")
    rw [NamespaceTree.enter_of_forall_ne (h.fresh hne hdots hknown), ← hfound]
    simp only [add]
    cases (t.nodesAt (t.inside place)).find? fun sibling =>
        lower sibling.segment == lower (segments.getLastD "") with
    | some sibling =>
      simp only [Option.map_some, sibling.path_toNamespace]
      exact .error _
    | none =>
      refine .ok ⟨⟨?_, h.grow hne hdots hplace hknown⟩, stands_grow hne hdots _⟩
      exact (tree_link _ _ _).trans (tree_grow hne hdots _)

end Growing

section Methods

variable {t : NamespaceArena} {documents : List Document} {segments : List String}
  {document : Document} {i : Nat}

private theorem leavesAt_append_single (documents : List Document) (document : Document)
    (segments : List String) : leavesAt (documents ++ [document]) segments =
      leavesAt documents segments ++
        if document.isMethod && document.nsid.authoritySegments == segments then
          [⟨document.nsid.name, document⟩]
        else [] := by
  rw [leavesAt, List.filter_append, List.map_append, leavesAt]
  refine congrArg _ ?_
  by_cases h : (document.isMethod && document.nsid.authoritySegments == segments) = true
  · rw [if_pos h, List.filter_singleton, h]
    rfl
  · rw [if_neg h, List.filter_singleton, Bool.eq_false_of_not_eq_true h]
    rfl

private theorem getElem?_addMethod (t : NamespaceArena) (document : Document) (i j : Nat) :
    (t.addMethod document (some i)).nodes[j]? = t.nodes[j]?.map fun n =>
      if i = j then { n with methods := n.methods ++ [⟨document.nsid.name, document⟩] } else n := by
  simp [addMethod, List.getElem?_modify]

private theorem Linked.position_iff (h : Linked documents t) (hplace : t.Stands segments (some i))
    {j : Nat} {n : ArenaNode} (hn : t.nodes[j]? = some n) :
    i = j ↔ n.toNamespace.segments = segments := by
  obtain ⟨outer, houter, hsegments⟩ := hplace
  constructor
  · rintro rfl
    obtain rfl := Option.some.inj (houter.symm.trans hn)
    exact hsegments
  · intro hsame
    exact h.position_unique houter hn (hsegments.trans hsame.symm)

private theorem Linked.authorities_append (h : Linked documents t)
    (hplace : t.Stands document.nsid.authoritySegments (some i)) :
    ∀ other ∈ documents ++ [document],
      ∃ n ∈ t.tree.namespaces, n.segments = other.nsid.authoritySegments := by
  intro other ho
  rcases List.mem_append.mp ho with ho | ho
  · exact h.authorities other ho
  · obtain rfl := List.mem_singleton.mp ho
    obtain ⟨n, hn, hsegments⟩ := hplace
    exact ⟨_, List.mem_map_of_mem (List.mem_of_getElem? hn), hsegments⟩

private theorem Linked.pass (h : Linked documents t)
    (hplace : t.Stands document.nsid.authoritySegments (some i))
    (hother : document.isMethod = false) :
    Linked (documents ++ [document]) t := by
  refine { h with methods := fun n hn => ?_, authorities := h.authorities_append hplace }
  rw [leavesAt_append_single, hother, Bool.false_and, if_neg Bool.false_ne_true, List.append_nil]
  exact h.methods n hn

private theorem Linked.tree_addMethod (h : Linked documents t)
    (hplace : t.Stands document.nsid.authoritySegments (some i)) :
    (t.addMethod document (some i)).tree = t.tree.addMethod document.nsid := by
  refine congrArg NamespaceTree.mk (List.ext_getElem? fun j => ?_)
  simp only [tree, List.getElem?_map, getElem?_addMethod, Option.map_map]
  cases hn : t.nodes[j]? with
  | none => rfl
  | some n =>
    simp only [Option.map_some, Function.comp_apply, beq_iff_eq, ← h.position_iff hplace hn]
    split
    · simp [ArenaNode.toNamespace]
    · rfl

private theorem Linked.addMethod (h : Linked documents t)
    (hplace : t.Stands document.nsid.authoritySegments (some i)) (hmethod : document.isMethod) :
    Linked (documents ++ [document]) (t.addMethod document (some i)) := by
  have htree := h.tree_addMethod hplace
  have hnodes : ∀ (j : Nat) (n : ArenaNode), (t.addMethod document (some i)).nodes[j]? = some n →
      ∃ m, t.nodes[j]? = some m ∧ n.segment = m.segment ∧ n.path = m.path ∧
        n.children = m.children ∧ n.methods = leavesAt (documents ++ [document])
          m.toNamespace.segments := by
    intro j n hn
    rw [getElem?_addMethod, Option.map_eq_some_iff] at hn
    obtain ⟨m, hm, rfl⟩ := hn
    refine ⟨m, hm, ?_⟩
    rw [leavesAt_append_single, hmethod, Bool.true_and, ← h.methods m (List.mem_of_getElem? hm)]
    by_cases hi : i = j
    · have hhere := ((h.position_iff hplace hm).mp hi).symm
      simp [hi, hhere]
    · have helsewhere := Ne.symm (mt (h.position_iff hplace hm).mpr hi)
      simp [hi, helsewhere]
  have hsegments {n m : ArenaNode} (hpath : n.path = m.path) :
      n.toNamespace.segments = m.toNamespace.segments := congrArg (split '.') hpath
  constructor
  · intro n hn
    obtain ⟨j, hj⟩ := List.getElem?_of_mem hn
    obtain ⟨m, hm, hsegment, hpath, -, -⟩ := hnodes j n hj
    rw [hsegment, h.segment m (List.mem_of_getElem? hm), Namespace.segment, Namespace.segment,
      hsegments hpath]
  · intro n hn
    obtain ⟨j, hj⟩ := List.getElem?_of_mem hn
    obtain ⟨m, hm, -, hpath, -, hmethods⟩ := hnodes j n hj
    rw [hmethods, hsegments hpath]
  · rw [htree]
    simp only [NamespaceTree.exists_segments_addMethod]
    exact h.authorities_append hplace
  · intro path j
    refine (h.index path j).trans ?_
    rw [getElem?_addMethod, Option.map_map]
    cases t.nodes[j]? with
    | none => rfl
    | some n =>
      simp only [Option.map_some, Function.comp_apply]
      split <;> rfl
  · rw [htree, NamespaceTree.placesIn_addMethod]
    exact h.roots
  · intro j n hn
    obtain ⟨m, hm, -, hpath, hchildren, -⟩ := hnodes j n hn
    rw [htree, NamespaceTree.placesIn_addMethod, hchildren, h.children j m hm, hsegments hpath]
  · intro j n hn c hc
    obtain ⟨m, hm, -, -, hchildren, -⟩ := hnodes j n hn
    exact h.later j m hm c (hchildren ▸ hc)
  · rw [htree]
    exact h.closed.addMethod document.nsid

end Methods

section Building

variable {t : NamespaceArena} {segments : List String} {document : Document}
  {documents : List Document} {id : String}

private theorem beginnings_append_single (segments : List String) (segment : String) :
    beginnings (segments ++ [segment]) = beginnings segments ++ [segments ++ [segment]] := by
  simp only [beginnings, List.length_append, List.length_singleton, List.range_succ,
    List.map_append, List.map_singleton]
  congr 1
  · refine List.map_congr_left fun i hi => List.take_append_of_le_length ?_
    exact List.mem_range.mp hi
  · rw [List.take_of_length_le (by simp)]

private theorem Linked.enterAll (h : Linked documents t)
    (hdots : ∀ segment ∈ segments, '.' ∉ segment.toList) :
    SameOutcome (fun state s =>
        (state.1.tree = s ∧ Linked documents state.1) ∧ state.1.Stands segments state.2)
      ((beginnings segments).foldlM (NamespaceArena.enter id) (t, none))
      ((beginnings segments).foldlM (NamespaceTree.enter id) t.tree) := by
  induction segments using List.reverseRecOn with
  | nil => exact .ok ⟨⟨rfl, h⟩, rfl⟩
  | append_singleton front segment ih =>
    have hfront := ih fun other ho => hdots other (List.mem_append_left _ ho)
    rw [beginnings_append_single, List.foldlM_append, List.foldlM_append]
    refine hfront.bind ?_
    rintro ⟨before, place⟩ _ ⟨⟨rfl, hbefore⟩, hplace⟩
    simp only [List.foldlM_cons, List.foldlM_nil, bind_pure]
    exact hbefore.enter (by simp) hdots (by rwa [List.dropLast_concat])

/-- The step lemma: one more document keeps the parts together. -/
private theorem Linked.insert (h : Linked documents t)
    (hid : Nsid.parse document.id = .ok document.nsid) :
    SameOutcome (fun a s => a.tree = s ∧ Linked (documents ++ [document]) a) (t.insert document)
      (t.tree.insert document) := by
  have hdots : ∀ segment ∈ document.nsid.authoritySegments, '.' ∉ segment.toList :=
    fun segment hs => Nsid.dot_notMem_of_parse hid segment (List.dropLast_subset _ hs)
  rw [NamespaceArena.insert, NamespaceTree.insert]
  refine (h.enterAll hdots).bind ?_
  rintro ⟨last, place⟩ _ ⟨⟨rfl, hlast⟩, hplace⟩
  cases place with
  | none => exact absurd hplace (Nsid.authoritySegments_ne_nil hid)
  | some i =>
    cases hmethod : document.isMethod with
    | false => exact .ok ⟨rfl, hlast.pass hplace hmethod⟩
    | true => exact .ok ⟨hlast.tree_addMethod hplace, hlast.addMethod hplace hmethod⟩

/-- The run lemma: all documents keep the parts together. -/
private theorem linked_foldlM_insert (hid : Identified documents) :
    SameOutcome (fun a s => a.tree = s ∧ Linked documents a) (documents.foldlM insert empty)
      (documents.foldlM NamespaceTree.insert .empty) := by
  induction documents using List.reverseRecOn with
  | nil => exact .ok ⟨rfl, linked_empty⟩
  | append_singleton front document ih =>
    have hfront := ih fun other ho => hid other (List.mem_append_left _ ho)
    rw [List.foldlM_append, List.foldlM_append]
    refine hfront.bind ?_
    rintro before _ ⟨rfl, hbefore⟩
    simp only [List.foldlM_cons, List.foldlM_nil, bind_pure]
    exact hbefore.insert (hid document (by simp))

private theorem clash?_leaves {scope : String} (hid : Identified documents)
    (taken : List (String × String)) :
    clash? scope taken (documents.map fun document => ⟨document.nsid.name, document⟩) =
      NamespaceTree.clash? scope taken (documents.map fun document => document.nsid) := by
  induction documents generalizing taken with
  | nil => rfl
  | cons document rest ih =>
    obtain ⟨hfirst, hrest⟩ := List.forall_mem_cons.mp hid
    have htext := Nsid.text_of_parse hfirst
    cases hlookup : taken.lookup (memberKey document.nsid.name) with
    | some other =>
      simp only [List.map_cons, clash?, NamespaceTree.clash?, hlookup, htext]
    | none =>
      simp only [List.map_cons, clash?, NamespaceTree.clash?, hlookup, htext, ih hrest]

private theorem Linked.memberProblem? (h : Linked documents t) (hid : Identified documents)
    {n : ArenaNode} (hn : n ∈ t.nodes) :
    t.memberProblem? n = t.tree.memberProblem? n.toNamespace := by
  obtain ⟨i, hi⟩ := List.getElem?_of_mem hn
  have hchildren : (t.nodesAt n.children).map (fun child => (memberKey child.segment, child.path)) =
      (t.tree.childrenOf n.toNamespace.segments).map fun child =>
        (memberKey child.segment, child.path) := by
    rw [h.children i n hi, ← nodesAt_placesIn, List.map_map]
    refine List.map_congr_left fun child hc => ?_
    rw [Function.comp_apply, child.path_toNamespace, h.segment child (mem_nodes_of_mem_nodesAt hc)]
  have hmethods : n.toNamespace.methods = n.methods.map fun method => method.document.nsid := rfl
  rw [NamespaceArena.memberProblem?, NamespaceTree.memberProblem?, hchildren, hmethods,
    h.methods n hn, n.path_toNamespace, leavesAt, List.map_map]
  exact clash?_leaves (fun document hd => hid document (List.mem_of_mem_filter hd)) _

private theorem findSome?_congr {α β : Type} {f g : α → Option β} {xs : List α}
    (h : ∀ x ∈ xs, f x = g x) : xs.findSome? f = xs.findSome? g := by
  induction xs with
  | nil => rfl
  | cons x rest ih =>
    rw [List.forall_mem_cons] at h
    rw [List.findSome?_cons, List.findSome?_cons, h.1, ih h.2]

/-- Both layers fail alike, or the nodes of the one stand for the namespaces of the other. -/
theorem build_same (hid : Identified documents) :
    SameOutcome (fun a s => a.tree = s ∧ Linked documents a) (build documents)
      (NamespaceTree.build documents) := by
  rw [build, NamespaceTree.build]
  refine (linked_foldlM_insert hid).bind ?_
  rintro t _ ⟨rfl, ht⟩
  have hproblems : t.tree.namespaces.findSome? t.tree.memberProblem? =
      t.nodes.findSome? t.memberProblem? := by
    simp only [tree, List.findSome?_map]
    exact findSome?_congr fun n hn => (ht.memberProblem? hid hn).symm
  rw [hproblems]
  cases t.nodes.findSome? t.memberProblem? with
  | some problem => exact .error problem
  | none => exact .ok ⟨rfl, ht⟩

end Building

end NamespaceArena

end LexiconCompiler
