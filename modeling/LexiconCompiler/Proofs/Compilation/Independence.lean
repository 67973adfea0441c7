import LexiconCompiler.Proofs.Compilation
import LexiconCompiler.Proofs.Emission.Agreement
import LexiconCompiler.Proofs.Emission.LexiconsUnit
import LexiconCompiler.Proofs.Emission.Server
import LexiconCompiler.Proofs.Namespace.Forest
import LexiconCompiler.Proofs.Registry
import LexiconCompiler.Proofs.TokenGroups

set_option autoImplicit false
set_option relaxedAutoImplicit false

/-!
The order of the documents of a batch does not matter, and neither do documents that are not
referred to: the unit of a document stays the same, and a permuted batch fits together and compiles
exactly if the batch does.
-/

namespace LexiconCompiler

open LexiconCompiler.Code LexiconCompiler.Emission LexiconCompiler.Text

/-- Two batches have the same namespaces, each with the same methods, and the same tokens, maybe in
another order. -/
structure Batch.Alike (b b' : Batch) : Prop where
  paths : (b.tree.namespaces.map Namespace.path).Perm (b'.tree.namespaces.map Namespace.path)
  methods : ∀ path n, b.tree.lookup? path = some n →
    ∃ n', b'.tree.lookup? path = some n' ∧ n.methods.Perm n'.methods
  tokens : b.tokens.tokens.Perm b'.tokens.tokens

section Namespaces

variable {documents permuted : List Document}

namespace NamespaceTree

private theorem census_paths_perm (h : documents.Perm permuted) :
    ((census documents).namespaces.map Namespace.path).Perm
      ((census permuted).namespaces.map Namespace.path) := by
  have hsegments := (census_segments_perm h).map (joinWith ".")
  rwa [List.map_map, List.map_map] at hsegments

private theorem census_methods_perm (hid : Identified documents) (hid' : Identified permuted)
    (h : documents.Perm permuted) {path : String} {n : Namespace}
    (hn : (census documents).lookup? path = some n) :
    ∃ n', (census permuted).lookup? path = some n' ∧ n.methods.Perm n'.methods := by
  obtain ⟨hmem, rfl⟩ := (lookup?_census hid).mp hn
  obtain ⟨segments, hs, rfl⟩ := mem_ofPrefixes.mp hmem
  have hother := (mem_authorityPrefixes_of_perm h).mp hs
  refine ⟨⟨segments, methodsAt permuted segments⟩, ?_, methodsAt_perm h segments⟩
  exact (lookup?_census hid').mpr ⟨mem_census_of_mem hother, rfl⟩

end NamespaceTree

private theorem Identified.of_perm (hid : Identified documents) (h : documents.Perm permuted) :
    Identified permuted :=
  fun document hd => hid document (h.mem_iff.mpr hd)

private theorem DistinctIds.of_perm (hd : DistinctIds documents) (h : documents.Perm permuted) :
    DistinctIds permuted :=
  (h.map _).nodup_iff.mp hd

private theorem Linked.of_perm (hl : Linked documents) (h : documents.Perm permuted) :
    Linked permuted := by
  intro document hd ref hm
  obtain ⟨address, target, hleads⟩ := hl document (h.mem_iff.mpr hd) ref hm
  exact ⟨address, target, hleads.mono h.subset⟩

end Namespaces

namespace Batch

section Order

variable {documents permuted : List Document} {b b' : Batch}

private theorem analyze_of_perm (hid : Identified documents) (h : documents.Perm permuted)
    (hb : analyze (documents.map some) = .ok b) :
    ∃ b', analyze (permuted.map some) = .ok b' := by
  obtain ⟨⟨hd, hl⟩, htree, htokens, _⟩ := analyze_eq_ok_iff.mp hb
  have hwritable := ((TokenGroups.build_eq_ok_iff hid).mp htokens).1
  refine ⟨⟨⟨permuted⟩, .census permuted, .ofDocuments permuted, _⟩, analyze_eq_ok_iff.mpr
    ⟨⟨hd.of_perm h, hl.of_perm h⟩, NamespaceTree.build_of_perm h htree, ?_, rfl, rfl⟩⟩
  exact (TokenGroups.build_eq_ok_iff (hid.of_perm h)).mpr
    ⟨hwritable.of_perm (TokenGroups.ofDocuments_perm h), rfl⟩

private theorem alike_of_perm (hid : Identified documents) (h : documents.Perm permuted)
    (hb : analyze (documents.map some) = .ok b) (hb' : analyze (permuted.map some) = .ok b') :
    b.Alike b' := by
  obtain ⟨_, htree, htokens, _⟩ := analyze_eq_ok_iff.mp hb
  obtain ⟨_, htree', htokens', _⟩ := analyze_eq_ok_iff.mp hb'
  have hid' := hid.of_perm h
  have ht := (NamespaceTree.build_eq_ok_iff.mp htree).2
  have ht' := (NamespaceTree.build_eq_ok_iff.mp htree').2
  have hg := ((TokenGroups.build_eq_ok_iff hid).mp htokens).2
  have hg' := ((TokenGroups.build_eq_ok_iff hid').mp htokens').2
  constructor
  · rw [ht, ht']
    exact NamespaceTree.census_paths_perm h
  · intro path n hn
    rw [ht] at hn
    rw [ht']
    exact NamespaceTree.census_methods_perm hid hid' h hn
  · rw [hg, hg']
    exact TokenGroups.ofDocuments_perm h

/-- A batch compiles exactly if the units of its documents do, its documents have different keys and
JSON forms, and the names of the unit of the server differ. -/
private theorem compile_isOk_iff (hb : analyze (documents.map some) = .ok b) {skipGuards : Bool} :
    (∃ c, b.compile skipGuards false = .ok c) ↔
      (∀ document ∈ documents, ∃ u, documentUnit ⟨documents⟩ skipGuards document = .ok u) ∧
        ((documents.map schemaKey).Nodup ∧
          ∀ document ∈ documents, ∃ json, document.rawJson = .ok json) ∧
        ((indexDecls b.tree b.tokens).map Decl.name).Nodup := by
  obtain ⟨_, _, _, hregistry, _⟩ := analyze_eq_ok_iff.mp hb
  rw [← Outcome.mapM_isOk_iff, ← lexiconsUnit_isOk_iff, ← indexUnit_isOk_iff]
  simp only [compile, aggregate, documentUnits, hregistry, Bool.false_eq_true, if_false,
    Outcome.bind_eq_ok, Outcome.mapError_eq_ok, Outcome.pure_eq_ok]
  constructor
  · rintro ⟨_, own, hown, lexicons, hlexicons, index, hindex, _⟩
    exact ⟨⟨own, hown⟩, ⟨lexicons, hlexicons⟩, index, hindex⟩
  · rintro ⟨⟨own, hown⟩, ⟨lexicons, hlexicons⟩, index, hindex⟩
    exact ⟨_, own, hown, lexicons, hlexicons, index, hindex, rfl⟩

private theorem indexNames_perm (hb : analyze (documents.map some) = .ok b)
    (hb' : analyze (permuted.map some) = .ok b') (halike : b.Alike b') :
    ((indexDecls b.tree b.tokens).map Decl.name).Perm
      ((indexDecls b'.tree b'.tokens).map Decl.name) := by
  -- The walk follows the order of the documents, but what it meets does not depend on it.
  have hclasses {docs : List Document} {batch : Batch}
      (hbatch : analyze (docs.map some) = .ok batch) :
      ((batch.tree.walk.map Prod.fst).map fun n => className n.path).Perm
        ((batch.tree.namespaces.map Namespace.path).map className) := by
    obtain ⟨_, htree, _⟩ := analyze_eq_ok_iff.mp hbatch
    have hsound := NamespaceTree.build_sound htree
    obtain ⟨_, ht⟩ := NamespaceTree.build_eq_ok_iff.mp htree
    have hpaths : (batch.tree.namespaces.map Namespace.path).map className =
        batch.tree.namespaces.map fun n => className n.path := List.map_map
    rw [hpaths]
    rw [ht] at hsound ⊢
    exact (NamespaceTree.walk_perm hsound NamespaceTree.census_closed
      NamespaceTree.nodup_census).map _
  rw [names_indexDecls, names_indexDecls]
  have hgroups := (TokenGroups.groups_perm halike.tokens).map Casing.screaming
  refine hgroups.append (.cons _ (.cons _ ?_))
  exact (hclasses hb).trans ((halike.paths.map className).trans (hclasses hb').symm)

private theorem compile_of_perm (hid : Identified documents) (h : documents.Perm permuted)
    (hb : analyze (documents.map some) = .ok b) (hb' : analyze (permuted.map some) = .ok b')
    {skipGuards : Bool} (hc : ∃ c, b.compile skipGuards false = .ok c) :
    ∃ c', b'.compile skipGuards false = .ok c' := by
  obtain ⟨⟨hd, hl⟩, _⟩ := analyze_eq_ok_iff.mp hb
  obtain ⟨hunits, ⟨hkeys, hjson⟩, hnames⟩ := (compile_isOk_iff hb).mp hc
  refine (compile_isOk_iff hb').mpr ⟨fun document hm => ?_, ⟨?_, fun document hm => ?_⟩, ?_⟩
  · have hm' := h.mem_iff.mpr hm
    rw [← documentUnit_congr hd (hd.of_perm h) h.subset hl hm']
    exact hunits document hm'
  · exact (h.map schemaKey).nodup_iff.mp hkeys
  · exact hjson document (h.mem_iff.mpr hm)
  · exact (indexNames_perm hb hb' (alike_of_perm hid h hb hb')).nodup_iff.mp hnames

private theorem unit?_of_perm (hid : Identified documents) (h : documents.Perm permuted)
    (hb : analyze (documents.map some) = .ok b) (hb' : analyze (permuted.map some) = .ok b')
    {skipGuards : Bool} {c c' : Compilation} (hc : b.compile skipGuards false = .ok c)
    (hc' : b'.compile skipGuards false = .ok c') {document : Document} (hm : document ∈ documents) :
    ∃ u, c.unit? document.id = some u ∧ c'.unit? document.id = some u := by
  obtain ⟨⟨hd, hl⟩, _⟩ := analyze_eq_ok_iff.mp hb
  obtain ⟨_, _, _, hcompiled⟩ := Compiled.of_compile hid hb hc
  obtain ⟨_, _, _, hcompiled'⟩ := Compiled.of_compile (hid.of_perm h) hb' hc'
  obtain ⟨u, hu, hmade⟩ := hcompiled.unit?_document hm
  obtain ⟨u', hu', hmade'⟩ := hcompiled'.unit?_document (h.mem_iff.mp hm)
  rw [← documentUnit_congr hd (hd.of_perm h) h.subset hl hm, hmade] at hmade'
  exact ⟨u, hu, (Except.ok.inj hmade').symm ▸ hu'⟩

/-- The unit of a document is the same in every batch that holds the documents of its own. A
permuted batch fits together exactly if the batch does, with the same namespaces, methods and
tokens, and it compiles exactly if the batch does, to the same units of the documents. -/
theorem order_independent (documents : List Document) :
    (∀ more b b', documents ⊆ more → analyze (documents.map some) = .ok b →
      analyze (more.map some) = .ok b' → ∀ document ∈ documents, ∀ skipGuards,
        documentUnit b.registry skipGuards document =
          documentUnit b'.registry skipGuards document) ∧
    (Identified documents → ∀ permuted, documents.Perm permuted →
      ((∃ b, analyze (documents.map some) = .ok b) ↔
        ∃ b', analyze (permuted.map some) = .ok b') ∧
      ∀ b b', analyze (documents.map some) = .ok b → analyze (permuted.map some) = .ok b' →
        b.Alike b' ∧ ∀ skipGuards,
          ((∃ c, b.compile skipGuards false = .ok c) ↔
            ∃ c', b'.compile skipGuards false = .ok c') ∧
          ∀ c c', b.compile skipGuards false = .ok c → b'.compile skipGuards false = .ok c' →
            ∀ document ∈ documents,
              ∃ u, c.unit? document.id = some u ∧ c'.unit? document.id = some u) := by
  constructor
  · intro more b b' hsub hb hb' document hm skipGuards
    obtain ⟨⟨hd, hl⟩, _, _, hregistry, _⟩ := analyze_eq_ok_iff.mp hb
    obtain ⟨⟨hmore, _⟩, _, _, hregistry', _⟩ := analyze_eq_ok_iff.mp hb'
    rw [hregistry, hregistry']
    exact documentUnit_congr hd hmore hsub hl hm skipGuards
  · intro hid permuted h
    have hid' := hid.of_perm h
    refine ⟨⟨?_, ?_⟩, fun b b' hb hb' => ⟨alike_of_perm hid h hb hb', fun skipGuards => ?_⟩⟩
    · rintro ⟨b, hb⟩
      exact analyze_of_perm hid h hb
    · rintro ⟨b', hb'⟩
      exact analyze_of_perm hid' h.symm hb'
    · refine ⟨⟨compile_of_perm hid h hb hb', compile_of_perm hid' h.symm hb' hb⟩, ?_⟩
      intro c c' hc hc' document hm
      exact unit?_of_perm hid h hb hb' hc hc' hm

end Order

private theorem likes_identified : Identified likes := by
  intro document hd
  simp only [likes, List.mem_cons, List.not_mem_nil, or_false] at hd
  rcases hd with rfl | rfl <;> decide +kernel

private theorem likes_reversed : ∃ b b' c c', analyze (likes.map some) = .ok b ∧
    analyze (likes.reverse.map some) = .ok b' ∧ b.compile false false = .ok c ∧
    b'.compile false false = .ok c' := by
  have hcompiles : ((analyze (likes.map some)).toOption.bind fun b =>
      (analyze (likes.reverse.map some)).toOption.bind fun b' =>
        (b.compile false false).toOption.bind fun _ =>
          (b'.compile false false).toOption.map fun _ => ()) = some () := by
    decide +kernel
  simp only [Option.bind_eq_some_iff, Option.map_eq_some_iff, Outcome.toOption_eq_some] at hcompiles
  obtain ⟨b, hb, b', hb', c, hc, c', hc', _⟩ := hcompiles
  exact ⟨b, b', c, c', hb, hb', hc, hc'⟩

theorem order_independent_likes :
    ∃ b b' c c', Identified likes ∧ likes.Perm likes.reverse ∧
      analyze (likes.map some) = .ok b ∧ analyze (likes.reverse.map some) = .ok b' ∧
      b.compile false false = .ok c ∧ b'.compile false false = .ok c' ∧
      (∀ document ∈ likes, ∀ skipGuards, documentUnit b.registry skipGuards document =
        documentUnit b'.registry skipGuards document) ∧
      b.Alike b' ∧
      ∀ document ∈ likes, ∃ u, c.unit? document.id = some u ∧ c'.unit? document.id = some u := by
  obtain ⟨b, b', c, c', hb, hb', hc, hc'⟩ := likes_reversed
  have hperm : likes.Perm likes.reverse := (List.reverse_perm likes).symm
  have hsame := (order_independent likes).1 likes.reverse b b' hperm.subset hb hb'
  obtain ⟨halike, hcompile⟩ :=
    ((order_independent likes).2 likes_identified likes.reverse hperm).2 b b' hb hb'
  exact ⟨b, b', c, c', likes_identified, hperm, hb, hb', hc, hc', hsame, halike,
    (hcompile false).2 c c' hc hc'⟩

end Batch

end LexiconCompiler
