import LexiconCompiler.Proofs.Compilation
import LexiconCompiler.Proofs.Emission.Server

set_option autoImplicit false
set_option relaxedAutoImplicit false

/-!
The server of a compilation registers every method exactly once, under its own identifier, in the
class that the segments of its authority lead to.
-/

namespace LexiconCompiler

open LexiconCompiler.Code LexiconCompiler.Emission LexiconCompiler.Text

def Document.endpoint (document : Document) : String × ClassMethod :=
  (className document.nsid.authority,
    ⟨Casing.camel document.nsid.name,
      { params := [.plain "handler" (.ref (some document.id) "Handler")]
        result := none
        body :=
          [.ret (.call (.member (.member (.ofThis "_server") "xrpc") "method")
            [.str document.id, .ident "handler"])] }⟩)

/-- What the unit of the server is for documents: each method of a class registers one document,
fields lead to it, its handler is that of the unit of the document, and constructors assign all
fields. -/
structure Scaffold (documents : List Document) (c : Compilation) (u : SourceUnit) : Prop where
  once : (u.classMethods.map fun entry => (entry.1, entry.2.name)).Nodup
  exactly : u.classMethods.Perm
    ((documents.filter fun document => document.isMethod).map Document.endpoint)
  reached : ∀ document ∈ documents, document.isMethod = true →
    Reached u document.nsid.authoritySegments document.endpoint.1 ∧
      ∃ fields constructor? methods,
        u.HasClass document.endpoint.1 fields constructor? methods ∧
          document.endpoint.2 ∈ methods
  handlers : ∀ document ∈ documents, document.isMethod = true →
    ∃ v, c.unit? document.id = some v ∧ v.declares "Handler" = true
  constructors : ∀ decl ∈ u.decls, ∀ fields constructor? methods,
    decl.declared = .cls fields constructor? methods →
      ∃ callable, constructor? = some callable ∧ Assigns fields callable.body ∧
        fields.head?.map FieldSpec.name =
          some (if decl.name = "Server" then "xrpc" else "_server")

section Methods

variable {documents : List Document} {tokens : TokenGroups} {u : SourceUnit}

private theorem endpoint_eq (hid : Identified documents) {document : Document}
    (hd : document ∈ documents) :
    document.endpoint = (className document.nsid.authority, registration document.nsid) := by
  rw [Document.endpoint, registration, Nsid.text_of_parse (hid document hd)]

private theorem classMethods_perm (hid : Identified documents)
    (ht : (NamespaceTree.census documents).Sound documents)
    (hu : u.decls = indexDecls (.census documents) tokens) :
    u.classMethods.Perm
      ((documents.filter fun document => document.isMethod).map Document.endpoint) := by
  have hwalk := NamespaceTree.walk_perm ht NamespaceTree.census_closed NamespaceTree.nodup_census
  have hown : ((NamespaceTree.census documents).namespaces.flatMap fun n =>
      n.methods.map fun method => (className n.path, registration method)) =
        ((NamespaceTree.census documents).namespaces.flatMap Namespace.methods).map fun method =>
          (className method.authority, registration method) := by
    rw [List.map_flatMap]
    refine List.flatMap_congr fun n hn => List.map_congr_left fun method hm => ?_
    obtain ⟨segments, _, rfl⟩ := NamespaceTree.mem_ofPrefixes.mp hn
    obtain ⟨document, _, _, hauthority, rfl⟩ := NamespaceTree.mem_methodsAt.mp hm
    rw [Namespace.path, Nsid.authority, hauthority]
  have hdocuments : (documents.filter fun document => document.isMethod).map Document.endpoint =
      ((documents.filter fun document => document.isMethod).map fun document =>
        document.nsid).map fun method => (className method.authority, registration method) := by
    rw [List.map_map]
    refine List.map_congr_left fun document hd => ?_
    exact endpoint_eq hid (List.mem_of_mem_filter hd)
  rw [classMethods_eq hu, hdocuments]
  refine (hwalk.flatMap_right _).trans ?_
  rw [hown]
  exact (NamespaceTree.flatMap_methods_perm hid).map _

private theorem nodup_classMethods (hm : NamespaceTree.MembersDiffer documents)
    (hn : (u.decls.map Decl.name).Nodup) (hu : u.decls = indexDecls (.census documents) tokens) :
    (u.classMethods.map fun entry => (entry.1, entry.2.name)).Nodup := by
  have hclasses : (((NamespaceTree.census documents).walk.map Prod.fst).map fun n =>
      className n.path).Nodup := by
    rw [hu] at hn
    exact nodup_classNames hn
  rw [classMethods_eq hu, List.map_flatMap, List.nodup_flatMap]
  constructor
  · intro n hwalk
    obtain ⟨⟨_, d⟩, hd, rfl⟩ := List.mem_map.mp hwalk
    have hmem := NamespaceTree.mem_namespaces_of_mem_walk hd
    obtain ⟨segments, hs, rfl⟩ := NamespaceTree.mem_ofPrefixes.mp hmem
    have hkeys := (hm segments hs).1
    -- Names of members differ even without their case.
    rw [List.map_map]
    refine List.Nodup.of_map (fun entry => lower entry.2) ?_
    rw [List.map_map]
    exact hkeys
  · refine (List.pairwise_map.mp hclasses).imp fun {a b} hne => ?_
    intro entry ha hb
    simp only [List.mem_map] at ha hb
    obtain ⟨_, ⟨_, _, rfl⟩, rfl⟩ := ha
    obtain ⟨_, ⟨_, _, rfl⟩, hsame⟩ := hb
    exact hne (Prod.mk.inj hsame).1.symm

private theorem endpoint_reached (hid : Identified documents)
    (ht : (NamespaceTree.census documents).Sound documents) (hn : (u.decls.map Decl.name).Nodup)
    (hu : u.decls = indexDecls (.census documents) tokens) {document : Document}
    (hd : document ∈ documents) (hmethod : document.isMethod = true) :
    Reached u document.nsid.authoritySegments document.endpoint.1 ∧
      ∃ fields constructor? methods,
        u.HasClass document.endpoint.1 fields constructor? methods ∧
          document.endpoint.2 ∈ methods := by
  have hmem := NamespaceTree.mem_census_of_mem (NamespaceTree.authoritySegments_mem hid hd)
  refine ⟨reached_namespace hn hu ht NamespaceTree.census_closed hmem, ?_⟩
  obtain ⟨d, hwalk⟩ := NamespaceTree.mem_walk_of_mem_namespaces ht NamespaceTree.census_closed hmem
  obtain ⟨_, hclass⟩ := hasClass_namespace hn hu hwalk
  refine ⟨_, _, _, hclass, ?_⟩
  rw [endpoint_eq hid hd]
  exact List.mem_map_of_mem (NamespaceTree.mem_methodsAt.mpr ⟨document, hd, hmethod, rfl, rfl⟩)

end Methods

namespace Batch

/-- The unit of the server in closed form, with what the analysis of the documents has checked. -/
theorem index_of_compile {documents : List Document} {b : Batch} {skipGuards : Bool}
    {c : Compilation} (hid : Identified documents)
    (hb : Batch.analyze (documents.map some) = .ok b)
    (hc : b.compile skipGuards false = .ok c) :
    b.tree = .census documents ∧ b.tree.Sound documents ∧ NamespaceTree.MembersDiffer documents ∧
      ∃ u, c.unit? indexName = some u ∧ u.decls = indexDecls b.tree b.tokens ∧
        (u.decls.map Decl.name).Nodup := by
  obtain ⟨_, htree, _⟩ := analyze_eq_ok_iff.mp hb
  obtain ⟨_, _, index, hcompiled⟩ := Compiled.of_compile hid hb hc
  obtain ⟨⟨_, hmembers⟩, ht⟩ := NamespaceTree.build_eq_ok_iff.mp htree
  obtain ⟨hn, _, hu⟩ := indexUnit_eq_ok hcompiled.index
  rw [← hu] at hn
  exact ⟨ht, hcompiled.sound, hmembers, index, hcompiled.unit?_index, hu, hn⟩

/-- The unit of the server registers every query and procedure of the batch exactly once. -/
theorem compile_scaffold {documents : List Document} {b : Batch} {skipGuards : Bool}
    {c : Compilation} (hid : Identified documents)
    (hb : Batch.analyze (documents.map some) = .ok b)
    (hc : b.compile skipGuards false = .ok c) :
    ∃ u, c.unit? indexName = some u ∧ Scaffold documents c u := by
  obtain ⟨_, htree, _⟩ := analyze_eq_ok_iff.mp hb
  obtain ⟨own, lexicons, index, hcompiled⟩ := Compiled.of_compile hid hb hc
  have hindex := hcompiled.index
  have hsound := hcompiled.sound
  obtain ⟨⟨_, hmembers⟩, ht⟩ := NamespaceTree.build_eq_ok_iff.mp htree
  rw [ht] at hindex hsound
  obtain ⟨hn, _, hu⟩ := indexUnit_eq_ok hindex
  rw [← hu] at hn
  refine ⟨index, hcompiled.unit?_index, ?_⟩
  constructor
  · exact nodup_classMethods hmembers hn hu
  · exact classMethods_perm hid hsound hu
  · intro document hd hmethod
    exact endpoint_reached hid hsound hn hu hd hmethod
  · intro document hd hmethod
    rw [← Nsid.text_of_parse (hid document hd)]
    exact hcompiled.declares_handler hd hmethod
  · intro decl hd fields constructor? methods hcls
    exact constructor_of_cls hn hu hd hcls

theorem compile_scaffold_repository :
    ∃ b c u, Identified NamespaceTree.repository ∧
      Batch.analyze (NamespaceTree.repository.map some) = .ok b ∧
      b.compile false false = .ok c ∧ c.unit? indexName = some u ∧
      (u.classMethods.map fun entry => (entry.1, entry.2.name)) =
        [("ComExampleRepoNS", "applyWrites"), ("ComExampleRepoNS", "getRecord"),
          ("ComExampleIdentityNS", "resolve")] ∧
      Scaffold NamespaceTree.repository c u := by
  have hmethods : ((Batch.analyze (NamespaceTree.repository.map some)).toOption.bind fun b =>
      (b.compile false false).toOption.bind fun c =>
        (c.unit? indexName).map fun u =>
          u.classMethods.map fun entry => (entry.1, entry.2.name)) =
        some [("ComExampleRepoNS", "applyWrites"), ("ComExampleRepoNS", "getRecord"),
          ("ComExampleIdentityNS", "resolve")] := by
    decide +kernel
  simp only [Option.bind_eq_some_iff, Option.map_eq_some_iff, Outcome.toOption_eq_some] at hmethods
  obtain ⟨b, hb, c, hc, u, hu, hnames⟩ := hmethods
  obtain ⟨v, hv, hscaffold⟩ := compile_scaffold NamespaceTree.identified_repository hb hc
  obtain rfl : u = v := Option.some.inj (hu.symm.trans hv)
  exact ⟨b, c, u, NamespaceTree.identified_repository, hb, hc, hu, hnames, hscaffold⟩

end Batch

end LexiconCompiler
