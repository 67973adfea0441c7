import LexiconCompiler.Proofs.Casing
import LexiconCompiler.Proofs.Compilation.Server

set_option autoImplicit false
set_option relaxedAutoImplicit false

/-!
The members of the classes of the server. The members of a namespace have different names: two
namespaces inside it with one member name would have classes of one name as well. The names that
the classes need for themselves are not kept free, and identifiers that take them are named here.
-/

namespace LexiconCompiler

open LexiconCompiler.Code LexiconCompiler.Emission LexiconCompiler.Text

/-- The names of the fields and methods of a class. -/
def Code.Decl.memberNames (decl : Decl) : List String :=
  match decl.declared with
  | .cls fields _ methods => fields.map FieldSpec.name ++ methods.map ClassMethod.name
  | _ => []

/-- The member that stands for a namespace in the class around it. -/
def Namespace.member (n : Namespace) : String := Casing.camel n.segment

/-- The member that registers a method. -/
def Nsid.member (method : Nsid) : String := Casing.camel method.name

section Names

variable {tree : NamespaceTree} {documents : List Document}

private theorem memberNames_serverDecl :
    (serverDecl tree).memberNames = "xrpc" :: tree.roots.map Namespace.member := by
  simp only [Decl.memberNames, serverDecl, List.map_cons, List.map_map, List.map_nil,
    List.append_nil]
  rfl

private theorem memberNames_namespaceDecl (n : Namespace) :
    (namespaceDecl tree n).memberNames =
      "_server" :: (tree.childrenOf n.segments).map Namespace.member ++
        n.methods.map Nsid.member := by
  simp only [Decl.memberNames, namespaceDecl, List.map_cons, List.map_map]
  rfl

/-- Every declaration of the unit of the server but the server itself has no members or is the class
of a namespace. -/
private theorem memberNames_indexDecls {tokens : TokenGroups} {decl : Decl}
    (h : decl ∈ indexDecls tree tokens) :
    decl.memberNames = [] ∨ decl = serverDecl tree ∨
      ∃ n ∈ tree.namespaces, decl = namespaceDecl tree n := by
  rw [indexDecls, List.mem_append, List.mem_cons, List.mem_cons] at h
  rcases h with hgroup | rfl | rfl | hclass
  · obtain ⟨group, _, rfl⟩ := List.mem_map.mp hgroup
    exact Or.inl rfl
  · exact Or.inl rfl
  · exact Or.inr (Or.inl rfl)
  · obtain ⟨⟨n, d⟩, hwalk, rfl⟩ := List.mem_map.mp hclass
    exact Or.inr (Or.inr ⟨n, NamespaceTree.mem_namespaces_of_mem_walk hwalk, rfl⟩)

private theorem isSegment_segment (hid : Identified documents) {n : Namespace}
    (hn : n.segments ∈ NamespaceTree.authorityPrefixes documents) :
    ∃ isName, Nsid.IsSegment isName n.segment :=
  NamespaceTree.isSegment_of_mem_authorityPrefixes hid hn _
    (getLastD_mem (NamespaceTree.mem_authorityPrefixes.mp hn).1 "")

private theorem isSegment_name (hid : Identified documents) {document : Document}
    (hd : document ∈ documents) : ∃ isName, Nsid.IsSegment isName document.nsid.name := by
  obtain ⟨_, _, hlength, _⟩ := Nsid.parse_eq_ok (hid document hd)
  refine Nsid.isSegment_of_parse (hid document hd) (getLastD_mem ?_ "")
  exact List.ne_nil_of_length_pos (by omega)

private theorem className_eq_of_member_eq (hid : Identified documents) {n m : Namespace}
    (hn : n.segments ∈ NamespaceTree.authorityPrefixes documents)
    (hm : m.segments ∈ NamespaceTree.authorityPrefixes documents) (hp : n.parent = m.parent)
    (h : n.member = m.member) : className n.path = className m.path := by
  have hne := (NamespaceTree.mem_authorityPrefixes.mp hn).1
  have hme := (NamespaceTree.mem_authorityPrefixes.mp hm).1
  have hpath (k : Namespace) (hk : k.segments ≠ []) :
      Casing.title k.path = Casing.title (joinWith "." k.parent) ++ Casing.title k.segment := by
    rw [Namespace.path, ← NamespaceTree.parent_append_segment hk,
      Casing.title_joinWith_append_single]
  obtain ⟨_, hsegment⟩ := isSegment_segment hid hn
  obtain ⟨_, hother⟩ := isSegment_segment hid hm
  have htitle := (Casing.camel_eq_iff hsegment hother).mp h
  rw [className, className, hpath n hne, hpath m hme, hp, htitle]

private theorem nodup_children (hid : Identified documents)
    (ht : (NamespaceTree.census documents).Sound documents) {tokens : TokenGroups}
    (hn : ((indexDecls (.census documents) tokens).map Decl.name).Nodup) (segments : List String) :
    (((NamespaceTree.census documents).childrenOf segments).map Namespace.member).Nodup := by
  have hsegments : ((NamespaceTree.census documents).namespaces.map Namespace.segments).Nodup :=
    NamespaceTree.nodup_census
  have hchildren := NamespaceTree.nodup_childrenOf hsegments segments
  refine List.Nodup.map_on (fun a ha b hb he => ?_) (hchildren.of_map _)
  obtain ⟨ha, hpa⟩ := NamespaceTree.mem_childrenOf.mp ha
  obtain ⟨hb, hpb⟩ := NamespaceTree.mem_childrenOf.mp hb
  have hclass := className_eq_of_member_eq hid (NamespaceTree.segments_mem_of_mem_census ha)
    (NamespaceTree.segments_mem_of_mem_census hb) (hpa.trans hpb.symm) he
  have hwalk := NamespaceTree.walk_perm ht NamespaceTree.census_closed NamespaceTree.nodup_census
  exact List.inj_on_of_nodup_map (nodup_classNames hn) (hwalk.mem_iff.mpr ha)
    (hwalk.mem_iff.mpr hb) hclass

private theorem camel_ne_server {isName : Bool} {segment : String}
    (h : Nsid.IsSegment isName segment) :
    Casing.camel segment ≠ "_server" := by
  obtain ⟨_, _, hspelled⟩ := Casing.spelled_of_isSegment h
  have hchars := hspelled.alnum_camel
  intro he
  rw [← String.toList_ofList (l := Casing.lowerFirst _), ← Casing.camel, he] at hchars
  exact absurd (hchars '_' (by decide)) (by decide)

private theorem nodup_memberNames (hid : Identified documents)
    (ht : (NamespaceTree.census documents).Sound documents)
    (hm : NamespaceTree.MembersDiffer documents) {tokens : TokenGroups}
    (hn : ((indexDecls (.census documents) tokens).map Decl.name).Nodup) {n : Namespace}
    (hmem : n ∈ (NamespaceTree.census documents).namespaces) :
    (namespaceDecl (.census documents) n).memberNames.Nodup := by
  obtain ⟨segments, hs, rfl⟩ := NamespaceTree.mem_ofPrefixes.mp hmem
  obtain ⟨hmethods, hdiffer⟩ := hm segments hs
  rw [memberNames_namespaceDecl, List.cons_append, List.nodup_cons, List.nodup_append]
  refine ⟨fun hserver => ?_, nodup_children hid ht hn segments, ?_, ?_⟩
  · rcases List.mem_append.mp hserver with hchild | hmethod
    · obtain ⟨child, hc, hname⟩ := List.mem_map.mp hchild
      have hmem := (NamespaceTree.mem_childrenOf.mp hc).1
      obtain ⟨_, hsegment⟩ :=
        isSegment_segment hid (NamespaceTree.segments_mem_of_mem_census hmem)
      exact camel_ne_server hsegment hname
    · obtain ⟨_, hmethod, hname⟩ := List.mem_map.mp hmethod
      obtain ⟨document, hd, _, _, rfl⟩ := NamespaceTree.mem_methodsAt.mp hmethod
      obtain ⟨_, hsegment⟩ := isSegment_name hid hd
      exact camel_ne_server hsegment hname
  · refine List.Nodup.of_map lower ?_
    rw [List.map_map]
    exact hmethods
  · intro child hchild method hmethod he
    obtain ⟨inner, hc, rfl⟩ := List.mem_map.mp hchild
    obtain ⟨nsid, hnsid, rfl⟩ := List.mem_map.mp hmethod
    obtain ⟨hc, hparent⟩ := NamespaceTree.mem_childrenOf.mp hc
    exact hdiffer nsid hnsid inner.segments (NamespaceTree.segments_mem_of_mem_census hc) hparent
      (congrArg lower he)

end Names

namespace Batch

/-- Every namespace has a class, whose members stand for the server, the namespaces inside it and
its methods, and have different names. -/
theorem compile_members {documents : List Document} {b : Batch} {skipGuards : Bool}
    {c : Compilation} (hid : Identified documents)
    (hb : Batch.analyze (documents.map some) = .ok b)
    (hc : b.compile skipGuards false = .ok c) :
    ∃ u, c.unit? indexName = some u ∧
      (∀ n ∈ b.tree.namespaces, ∃ decl, u.decl? (className n.path) = some decl ∧
        decl.memberNames = "_server" :: (b.tree.childrenOf n.segments).map Namespace.member ++
          n.methods.map Nsid.member) ∧
      ∀ decl ∈ u.decls, decl.name ≠ "Server" → decl.memberNames.Nodup := by
  obtain ⟨ht, hsound, hmembers, u, hindex, hu, hn⟩ := index_of_compile hid hb hc
  rw [ht] at hsound hu ⊢
  refine ⟨u, hindex, fun n hmem => ?_, fun decl hd hserver => ?_⟩
  · obtain ⟨d, hwalk⟩ :=
      NamespaceTree.mem_walk_of_mem_namespaces hsound NamespaceTree.census_closed hmem
    have hfound := SourceUnit.decl?_of_mem hn (hu ▸ namespaceDecl_mem hwalk)
    exact ⟨_, hfound, memberNames_namespaceDecl n⟩
  · rw [hu] at hd hn
    rcases memberNames_indexDecls hd with hnone | rfl | ⟨n, hmem, rfl⟩
    · rw [hnone]
      exact List.nodup_nil
    · exact absurd rfl hserver
    · exact nodup_memberNames hid hsound hmembers hn hmem

theorem compile_members_repository :
    ∃ b c u, Identified NamespaceTree.repository ∧
      Batch.analyze (NamespaceTree.repository.map some) = .ok b ∧
      b.compile false false = .ok c ∧ c.unit? indexName = some u ∧
      u.decls.map (fun decl => (decl.name, decl.memberNames)) =
        [("COM_EXAMPLE", []), ("createServer", []), ("Server", ["xrpc", "com"]),
          ("ComNS", ["_server", "example"]), ("ComExampleNS", ["_server", "repo", "identity"]),
          ("ComExampleRepoNS", ["_server", "applyWrites", "getRecord"]),
          ("ComExampleIdentityNS", ["_server", "resolve"])] ∧
      ∀ decl ∈ u.decls, decl.name ≠ "Server" → decl.memberNames.Nodup := by
  have hmembers : ((Batch.analyze (NamespaceTree.repository.map some)).toOption.bind fun b =>
      (b.compile false false).toOption.bind fun c =>
        (c.unit? indexName).map fun u =>
          u.decls.map fun decl => (decl.name, decl.memberNames)) =
        some [("COM_EXAMPLE", []), ("createServer", []), ("Server", ["xrpc", "com"]),
          ("ComNS", ["_server", "example"]), ("ComExampleNS", ["_server", "repo", "identity"]),
          ("ComExampleRepoNS", ["_server", "applyWrites", "getRecord"]),
          ("ComExampleIdentityNS", ["_server", "resolve"])] := by
    decide +kernel
  simp only [Option.bind_eq_some_iff, Option.map_eq_some_iff, Outcome.toOption_eq_some] at hmembers
  obtain ⟨b, hb, c, hc, u, hu, hnames⟩ := hmembers
  obtain ⟨v, hv, _, hnodup⟩ := compile_members NamespaceTree.identified_repository hb hc
  obtain rfl : u = v := Option.some.inj (hu.symm.trans hv)
  exact ⟨b, c, u, NamespaceTree.identified_repository, hb, hc, hu, hnames, hnodup⟩

end Batch

section Plumbing

variable {documents : List Document}

/-- Nothing hides what the classes of the server need for themselves: the field of the dispatcher
and the constructors. -/
structure Unshadowed (u : SourceUnit) : Prop where
  dispatcher : ∀ decl ∈ u.decls, decl.name = "Server" → decl.memberNames.Nodup
  constructors : ∀ decl ∈ u.decls, decl.name ≠ "Server" → "constructor" ∉ decl.memberNames

/-- No segment of the identifier of a document has the member name of what a class of the server
needs, in the place where it would be a member of that class. -/
structure Document.SparesPlumbing (document : Document) : Prop where
  root : ∀ segment ∈ document.nsid.authoritySegments.head?, Casing.camel segment ≠ "xrpc"
  inner : ∀ segment ∈ document.nsid.authoritySegments.tail, Casing.camel segment ≠ "constructor"
  method : document.isMethod = true → document.nsid.member ≠ "constructor"

private theorem mem_tail_iff_exists_prefix {segments : List String} {segment : String} :
    segment ∈ segments.tail ↔ ∃ p, p ≠ [] ∧ p ++ [segment] <+: segments := by
  cases segments with
  | nil => simp
  | cons first rest =>
    rw [List.tail_cons, List.mem_iff_append]
    constructor
    · rintro ⟨front, back, rfl⟩
      exact ⟨first :: front, List.cons_ne_nil _ _, back, by simp⟩
    · rintro ⟨p, hp, back, hsegments⟩
      obtain ⟨_, front, rfl⟩ := List.exists_cons_of_ne_nil hp
      simp only [List.cons_append, List.append_assoc, List.cons.injEq, List.nil_append] at hsegments
      exact ⟨front, back, hsegments.2.symm⟩

private theorem exists_child_iff {p : List String} {name : String} :
    (∃ child ∈ (NamespaceTree.census documents).childrenOf p, child.member = name) ↔
      ∃ document ∈ documents, ∃ segment,
        p ++ [segment] <+: document.nsid.authoritySegments ∧ Casing.camel segment = name := by
  constructor
  · rintro ⟨child, hc, rfl⟩
    obtain ⟨hmem, rfl⟩ := NamespaceTree.mem_childrenOf.mp hc
    obtain ⟨hne, document, hd, hfront⟩ :=
      NamespaceTree.mem_authorityPrefixes.mp (NamespaceTree.segments_mem_of_mem_census hmem)
    refine ⟨document, hd, child.segment, ?_, rfl⟩
    rwa [NamespaceTree.parent_append_segment hne]
  · rintro ⟨document, hd, segment, hfront, rfl⟩
    have hmem := NamespaceTree.mem_census_of_mem
      (NamespaceTree.mem_authorityPrefixes.mpr ⟨by simp, document, hd, hfront⟩)
    refine ⟨_, NamespaceTree.mem_childrenOf.mpr ⟨hmem, ?_⟩, ?_⟩
    · simp [Namespace.parent]
    · simp [Namespace.member, Namespace.segment]

private theorem exists_root_iff {name : String} :
    (∃ n ∈ (NamespaceTree.census documents).roots, n.member = name) ↔
      ∃ document ∈ documents, ∃ segment ∈ document.nsid.authoritySegments.head?,
        Casing.camel segment = name := by
  have hhead (segments : List String) (segment : String) :
      [] ++ [segment] <+: segments ↔ segment ∈ segments.head? := by
    cases segments <;> simp [eq_comm]
  simp only [NamespaceTree.roots, exists_child_iff, hhead]

private theorem exists_inner_iff {name : String} :
    (∃ n ∈ (NamespaceTree.census documents).namespaces,
      ∃ child ∈ (NamespaceTree.census documents).childrenOf n.segments, child.member = name) ↔
      ∃ document ∈ documents, ∃ segment ∈ document.nsid.authoritySegments.tail,
        Casing.camel segment = name := by
  simp only [exists_child_iff, mem_tail_iff_exists_prefix]
  constructor
  · rintro ⟨n, hn, document, hd, segment, hfront, hname⟩
    have hne :=
      (NamespaceTree.mem_authorityPrefixes.mp (NamespaceTree.segments_mem_of_mem_census hn)).1
    exact ⟨document, hd, segment, ⟨n.segments, hne, hfront⟩, hname⟩
  · rintro ⟨document, hd, segment, ⟨p, hne, hfront⟩, hname⟩
    have hmem := NamespaceTree.mem_census_of_mem (NamespaceTree.mem_authorityPrefixes.mpr
      ⟨hne, document, hd, (List.prefix_append p [segment]).trans hfront⟩)
    exact ⟨_, hmem, document, hd, segment, hfront, hname⟩

private theorem exists_method_iff (hid : Identified documents) {name : String} :
    (∃ n ∈ (NamespaceTree.census documents).namespaces, ∃ method ∈ n.methods,
      method.member = name) ↔
      ∃ document ∈ documents, document.isMethod = true ∧ document.nsid.member = name := by
  constructor
  · rintro ⟨n, hn, method, hm, hname⟩
    obtain ⟨segments, _, rfl⟩ := NamespaceTree.mem_ofPrefixes.mp hn
    obtain ⟨document, hd, hmethod, _, rfl⟩ := NamespaceTree.mem_methodsAt.mp hm
    exact ⟨document, hd, hmethod, hname⟩
  · rintro ⟨document, hd, hmethod, hname⟩
    have hmem := NamespaceTree.mem_census_of_mem (NamespaceTree.authoritySegments_mem hid hd)
    exact ⟨_, hmem, document.nsid,
      NamespaceTree.mem_methodsAt.mpr ⟨document, hd, hmethod, rfl, rfl⟩, hname⟩

private theorem sparesPlumbing_iff (hid : Identified documents) :
    (∀ document ∈ documents, document.SparesPlumbing) ↔
      (¬ ∃ n ∈ (NamespaceTree.census documents).roots, n.member = "xrpc") ∧
        ¬ ∃ n ∈ (NamespaceTree.census documents).namespaces,
          (∃ child ∈ (NamespaceTree.census documents).childrenOf n.segments,
            child.member = "constructor") ∨
            ∃ method ∈ n.methods, method.member = "constructor" := by
  simp only [and_or_left, exists_or, exists_root_iff, exists_inner_iff, exists_method_iff hid,
    not_or]
  constructor
  · intro h
    refine ⟨?_, ?_, ?_⟩
    · rintro ⟨document, hd, segment, hs, hname⟩
      exact (h document hd).root segment hs hname
    · rintro ⟨document, hd, segment, hs, hname⟩
      exact (h document hd).inner segment hs hname
    · rintro ⟨document, hd, hmethod, hname⟩
      exact (h document hd).method hmethod hname
  · rintro ⟨hroot, hinner, hmethod⟩ document hd
    exact ⟨fun segment hs hname => hroot ⟨document, hd, segment, hs, hname⟩,
      fun segment hs hname => hinner ⟨document, hd, segment, hs, hname⟩,
      fun hm hname => hmethod ⟨document, hd, hm, hname⟩⟩

private theorem className_ne_server (path : String) : className path ≠ "Server" := by
  intro h
  have hlast := congrArg (fun name : String => name.toList.getLast?) h
  simp [className] at hlast

/-- The unit of the server hides nothing of its own exactly if no identifier takes the names. -/
private theorem unshadowed_iff (hid : Identified documents)
    (ht : (NamespaceTree.census documents).Sound documents) {tokens : TokenGroups} {u : SourceUnit}
    (hu : u.decls = indexDecls (.census documents) tokens) (hn : (u.decls.map Decl.name).Nodup) :
    Unshadowed u ↔ ∀ document ∈ documents, document.SparesPlumbing := by
  have hroots : ((NamespaceTree.census documents).roots.map Namespace.member).Nodup :=
    nodup_children hid ht (hu ▸ hn) []
  have hdispatcher : (serverDecl (.census documents)).memberNames.Nodup ↔
      ¬ ∃ n ∈ (NamespaceTree.census documents).roots, n.member = "xrpc" := by
    rw [memberNames_serverDecl, List.nodup_cons, List.mem_map, and_iff_left hroots]
  have hconstructor (n : Namespace) :
      "constructor" ∈ (namespaceDecl (.census documents) n).memberNames ↔
        (∃ child ∈ (NamespaceTree.census documents).childrenOf n.segments,
          child.member = "constructor") ∨ ∃ method ∈ n.methods, method.member = "constructor" := by
    simp [memberNames_namespaceDecl]
  rw [sparesPlumbing_iff hid]
  constructor
  · intro h
    refine ⟨hdispatcher.mp (h.dispatcher _ (hu ▸ serverDecl_mem) rfl), ?_⟩
    rintro ⟨n, hmem, hmember⟩
    obtain ⟨d, hwalk⟩ :=
      NamespaceTree.mem_walk_of_mem_namespaces ht NamespaceTree.census_closed hmem
    exact h.constructors _ (hu ▸ namespaceDecl_mem hwalk) (className_ne_server _)
      ((hconstructor n).mpr hmember)
  · rintro ⟨hroot, hinner⟩
    constructor
    · intro decl hd hname
      rw [hu] at hd
      rcases memberNames_indexDecls hd with hnone | rfl | ⟨n, _, rfl⟩
      · rw [hnone]
        exact List.nodup_nil
      · exact hdispatcher.mpr hroot
      · exact absurd hname (className_ne_server _)
    · intro decl hd hname hmember
      rw [hu] at hd
      rcases memberNames_indexDecls hd with hnone | rfl | ⟨n, hmem, rfl⟩
      · rw [hnone] at hmember
        cases hmember
      · exact hname rfl
      · exact hinner ⟨n, hmem, (hconstructor n).mp hmember⟩

end Plumbing

namespace Batch

/-- Members that stand for the outermost namespaces differ, but the field of the dispatcher and the
constructors are hidden exactly if the identifier of some document takes their names. -/
theorem compile_unshadowed_iff {documents : List Document} {b : Batch} {skipGuards : Bool}
    {c : Compilation} (hid : Identified documents)
    (hb : Batch.analyze (documents.map some) = .ok b)
    (hc : b.compile skipGuards false = .ok c) :
    ∃ u, c.unit? indexName = some u ∧
      (∃ decl, u.decl? "Server" = some decl ∧
        decl.memberNames = "xrpc" :: b.tree.roots.map Namespace.member) ∧
      (b.tree.roots.map Namespace.member).Nodup ∧
      (Unshadowed u ↔ ∀ document ∈ documents, document.SparesPlumbing) := by
  obtain ⟨ht, hsound, _, u, hindex, hu, hn⟩ := index_of_compile hid hb hc
  rw [ht] at hsound hu ⊢
  have hfound := SourceUnit.decl?_of_mem hn (hu ▸ serverDecl_mem)
  refine ⟨u, hindex, ⟨_, hfound, memberNames_serverDecl⟩, ?_, unshadowed_iff hid hsound hu hn⟩
  rw [hu] at hn
  exact nodup_children hid hsound hn []

private theorem repository_sparesPlumbing :
    ∀ document ∈ NamespaceTree.repository, document.SparesPlumbing := by
  have hplain : ∀ document ∈ NamespaceTree.repository,
      (∀ segment ∈ document.nsid.segments,
        Casing.camel segment ≠ "xrpc" ∧ Casing.camel segment ≠ "constructor") ∧
        document.nsid.member ≠ "constructor" := by
    decide +kernel
  intro document hd
  obtain ⟨hsegments, hname⟩ := hplain document hd
  refine ⟨fun segment hs => ?_, fun segment hs => ?_, fun _ => hname⟩
  · exact (hsegments segment (List.dropLast_subset _ (List.mem_of_mem_head? hs))).1
  · exact (hsegments segment (List.dropLast_subset _ (List.mem_of_mem_tail hs))).2

theorem compile_unshadowed_iff_repository :
    ∃ b c u, Identified NamespaceTree.repository ∧
      Batch.analyze (NamespaceTree.repository.map some) = .ok b ∧
      b.compile false false = .ok c ∧ c.unit? indexName = some u ∧
      b.tree.roots.map Namespace.member = ["com"] ∧ Unshadowed u := by
  have hroots : ((Batch.analyze (NamespaceTree.repository.map some)).toOption.bind fun b =>
      (b.compile false false).toOption.map fun _ => b.tree.roots.map Namespace.member) =
        some ["com"] := by
    decide +kernel
  simp only [Option.bind_eq_some_iff, Option.map_eq_some_iff, Outcome.toOption_eq_some] at hroots
  obtain ⟨b, hb, c, hc, hnames⟩ := hroots
  obtain ⟨u, hu, _, _, hiff⟩ := compile_unshadowed_iff NamespaceTree.identified_repository hb hc
  exact ⟨b, c, u, NamespaceTree.identified_repository, hb, hc, hu, hnames,
    hiff.mpr repository_sparesPlumbing⟩

/-- A query that is named like a constructor, in an outermost namespace named like the field of the
dispatcher. -/
def shadowNode : Markup.Node :=
  .record [
    ("lexicon", some (.scalar .int "1")),
    ("id", some (.text "xrpc.example.constructor")),
    ("defs", some (.record [("main", some (.record [("type", some (.text "query"))]))]))]

def shadow : Document :=
  ⟨⟨1, "xrpc.example.constructor", none, "",
    [⟨"main", .method "" .query ⟨none, none, none, []⟩⟩]⟩,
    "", [], ⟨["xrpc", "example", "constructor"]⟩, shadowNode⟩

/-- The dispatcher is hidden by a field for a namespace, and a constructor by a method. -/
theorem compile_shadow :
    ∃ b c u, Document.ofNode shadowNode = .ok shadow ∧ Batch.analyze [some shadow] = .ok b ∧
      b.compile false false = .ok c ∧ c.unit? indexName = some u ∧
      u.decls.map (fun decl => (decl.name, decl.memberNames)) =
        [("createServer", []), ("Server", ["xrpc", "xrpc"]), ("XrpcNS", ["_server", "example"]),
          ("XrpcExampleNS", ["_server", "constructor"])] ∧ ¬ Unshadowed u := by
  have hmembers : ((Batch.analyze [some shadow]).toOption.bind fun b =>
      (b.compile false false).toOption.bind fun c =>
        (c.unit? indexName).map fun u =>
          u.decls.map fun decl => (decl.name, decl.memberNames)) =
        some [("createServer", []), ("Server", ["xrpc", "xrpc"]),
          ("XrpcNS", ["_server", "example"]), ("XrpcExampleNS", ["_server", "constructor"])] := by
    decide +kernel
  simp only [Option.bind_eq_some_iff, Option.map_eq_some_iff, Outcome.toOption_eq_some] at hmembers
  obtain ⟨b, hb, c, hc, u, hu, hnames⟩ := hmembers
  refine ⟨b, c, u, rfl, hb, hc, hu, hnames, fun h => ?_⟩
  have hserver : ("Server", ["xrpc", "xrpc"]) ∈
      u.decls.map fun decl => (decl.name, decl.memberNames) := by simp [hnames]
  obtain ⟨decl, hd, heq⟩ := List.mem_map.mp hserver
  obtain ⟨hname, hmember⟩ := Prod.mk.inj heq
  have hnodup := h.dispatcher decl hd hname
  rw [hmember] at hnodup
  exact absurd hnodup (by decide)

end Batch

end LexiconCompiler
