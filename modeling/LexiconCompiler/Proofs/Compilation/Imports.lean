import LexiconCompiler.Proofs.Compilation.Names
import LexiconCompiler.Proofs.TypeScript.Imports

set_option autoImplicit false
set_option relaxedAutoImplicit false

/-!
The names at the top of the files of a compilation. Aliases of other units differ from each other
like the keys of the documents do, and the constants of the schemas meet no other name. What is left
is that a declared name, an alias and a name of a library may be the same.
-/

namespace LexiconCompiler

open LexiconCompiler.Code LexiconCompiler.Emission LexiconCompiler.Markup LexiconCompiler.Text
open LexiconCompiler.TypeScript

/-- The constants of the unit of all schemas that other units take. -/
def sharedConstants : List String := ["lexicons", "schemas"]

/-- A unit takes types from documents and constants from the schemas, which it does not declare
itself. -/
structure Sourced (documents : List Document) (u : SourceUnit) : Prop where
  types : ∀ unit name, .type unit name ∈ u.mentions →
    ∃ document ∈ documents, document.id = unit
  values : ∀ unit name, .value unit name ∈ u.mentions →
    unit = lexiconsName ∧ name ∈ sharedConstants ∧ name ∉ u.decls.map Decl.name

private theorem sourced_of_supplied {documents : List Document} {u : SourceUnit} (constant : String)
    (hc : constant ∈ sharedConstants) (hn : constant ∉ u.decls.map Decl.name)
    (h : ∀ m ∈ u.mentions, Supplied documents constant m) : Sourced documents u := by
  constructor
  · intro unit name hm
    exact h _ hm
  · intro unit name hm
    obtain ⟨hunit, rfl⟩ := h _ hm
    exact ⟨hunit, hc, hn⟩

section Constants

variable {constant : String}

private theorem ne_of_plain (hc : constant ∈ sharedConstants) {name : String} {first : Char}
    (hp : Plain name first) (hf : first.isLower = false ∨ first ≠ 'l' ∧ first ≠ 's') :
    name ≠ constant := by
  rintro rfl
  simp only [sharedConstants, List.mem_cons, List.not_mem_nil, or_false] at hc
  rcases hc with rfl | rfl
  · obtain rfl : 'l' = first := Option.some.inj hp.front
    simp at hf
  · obtain rfl : 's' = first := Option.some.inj hp.front
    simp at hf

private theorem notMem_libraryNames (hc : constant ∈ sharedConstants) (u : SourceUnit) :
    constant ∉ libraryNames u := by
  have hother : ∀ b ∈ bindingTable, b.here ∉ sharedConstants := by decide
  intro hm
  obtain ⟨b, hb, rfl⟩ := List.mem_map.mp hm
  rw [← mem_distinct, ← bindings_ofUnit] at hb
  exact hother b (bindings_mem_bindingTable b hb) hc

end Constants

section Lexicons

variable {registry : Registry} {v : SourceUnit}

theorem mentions_lexiconsUnit (h : lexiconsUnit registry = .ok v) :
    v.mentions = [.library .schema, .library .schema, .library .validator] := by
  simp only [lexiconsUnit, Outcome.bind_eq_ok, Outcome.pure_eq_ok] at h
  obtain ⟨schemas, _, rfl⟩ := h
  have hnone : (schemas.flatMap fun _ => ([] : List Mention)) = [] := by simp
  simp [SourceUnit.mentions, Decl.mentions, Declared.mentions, Expr.mentions, entryMentions_eq,
    List.flatMap_map, hnone, schemaList, TypeExpr.mentions, argMentions]

theorem deps_lexiconsUnit (h : lexiconsUnit registry = .ok v) : v.deps = [] := by
  simp only [lexiconsUnit, Outcome.bind_eq_ok, Outcome.pure_eq_ok] at h
  obtain ⟨schemas, _, rfl⟩ := h
  rfl

end Lexicons

namespace Compiled

variable {documents : List Document} {skipGuards : Bool} {tree : NamespaceTree}
  {tokens : TokenGroups} {c : Compilation} {own : List SourceUnit} {lexicons index : SourceUnit}

private theorem unitAlias_inj (h : Compiled documents skipGuards tree tokens c own lexicons index)
    {one other : Document} (ho : one ∈ documents) (hother : other ∈ documents)
    (he : unitAlias one.id = unitAlias other.id) : one = other := by
  obtain ⟨hkeys, _⟩ := lexiconsUnit_isOk_iff.mp ⟨lexicons, h.lexicons⟩
  exact List.inj_on_of_nodup_map hkeys ho hother he

private theorem plain_unitAlias (h : Compiled documents skipGuards tree tokens c own lexicons index)
    {document : Document} (hd : document ∈ documents) :
    ∃ first, Plain (unitAlias document.id) first ∧ first.isLower = false := by
  obtain ⟨first, _, hspelled⟩ := Casing.spelled_of_parse (h.identified document hd)
  exact ⟨toUpper first, plain_title hspelled, isLower_toUpper hspelled.alnum⟩

private theorem nodup_deps (h : Compiled documents skipGuards tree tokens c own lexicons index)
    (hw : ∀ document ∈ documents, document.toDraft.WellFormed) : ∀ u ∈ c.units, u.deps.Nodup := by
  intro u hu
  simp only [h.units, List.mem_append, List.mem_cons, List.not_mem_nil, or_false] at hu
  rcases hu with hown | rfl | rfl
  · obtain ⟨document, hd, hmade, _⟩ := h.own_name hown
    exact (documentUnit_exact h.distinct h.linked hd (hw document hd) hmade).nodup_deps
  · rw [deps_lexiconsUnit h.lexicons]
    exact List.nodup_nil
  · exact (indexUnit_exact h.index).nodup_deps

private theorem nodup_names (h : Compiled documents skipGuards tree tokens c own lexicons index)
    (hw : ∀ document ∈ documents, document.toDraft.WellFormed) :
    ∀ u ∈ c.units, (u.decls.map Decl.name).Nodup := by
  intro u hu
  simp only [h.units, List.mem_append, List.mem_cons, List.not_mem_nil, or_false] at hu
  rcases hu with hown | rfl | rfl
  · obtain ⟨document, hd, hmade, _⟩ := h.own_name hown
    exact (documentUnit_eq_ok h.distinct h.linked hd (hw document hd) hmade).1
  · rw [names_lexiconsUnit h.lexicons]
    decide
  · obtain ⟨hn, _, hdecls⟩ := indexUnit_eq_ok h.index
    rw [hdecls]
    exact hn

private theorem sourced (h : Compiled documents skipGuards tree tokens c own lexicons index)
    (hw : ∀ document ∈ documents, document.toDraft.WellFormed) (ht : tree = .census documents)
    (hg : tokens = .ofDocuments documents) :
    ∀ u ∈ c.units, Sourced documents u := by
  intro u hu
  simp only [h.units, List.mem_append, List.mem_cons, List.not_mem_nil, or_false] at hu
  rcases hu with hown | rfl | rfl
  · obtain ⟨document, hd, _, hdecls⟩ := h.own_decls hw hown
    refine sourced_of_supplied "lexicons" (by decide) ?_ fun m hm => ?_
    · intro hname
      obtain ⟨decl, hdecl, hname⟩ := List.mem_map.mp hname
      rw [hdecls] at hdecl
      obtain ⟨definition, hdef, hdecl⟩ := List.mem_flatMap.mp hdecl
      obtain ⟨first, hplain, hfirst, _⟩ :=
        plain_of_mem_definitionDecls ((hw document hd).defs definition hdef) hdecl
      refine ne_of_plain (by decide) hplain ?_ hname
      rcases hfirst with hcapital | rfl | rfl
      · exact Or.inl hcapital
      · exact Or.inr (by decide)
      · exact Or.inr (by decide)
    · rw [SourceUnit.mentions, hdecls, List.flatMap_assoc] at hm
      obtain ⟨definition, _, hm⟩ := List.mem_flatMap.mp hm
      exact supplies_definitionDecls m hm
  · constructor
    · intro unit name hm
      simp [mentions_lexiconsUnit h.lexicons] at hm
    · intro unit name hm
      simp [mentions_lexiconsUnit h.lexicons] at hm
  · obtain ⟨_, _, hdecls⟩ := indexUnit_eq_ok h.index
    refine sourced_of_supplied "schemas" (by decide) ?_ fun m hm => ?_
    · intro hname
      obtain ⟨decl, hdecl, hname⟩ := List.mem_map.mp hname
      rw [hdecls, ht, hg] at hdecl
      obtain ⟨first, hplain, hfirst, _⟩ := plain_of_mem_indexDecls h.identified hdecl
      refine ne_of_plain (by decide) hplain ?_ hname
      rcases hfirst with hcapital | rfl
      · exact Or.inl hcapital
      · exact Or.inr (by decide)
    · rw [SourceUnit.mentions, hdecls] at hm
      rcases mem_mentions_indexDecls hm with ⟨_, rfl⟩ | rfl | ⟨entry, he, method, hmethod, rfl⟩
      · trivial
      · exact ⟨rfl, rfl⟩
      · have hmem := NamespaceTree.mem_namespaces_of_mem_walk he
        obtain ⟨document, hd, _, rfl⟩ := h.sound.methods entry.1 hmem method hmethod
        exact ⟨document, hd, (Nsid.text_of_parse (h.identified document hd)).symm⟩

/-- A file of a compilation binds a name twice exactly if a name of a library, an alias of another
unit and a declared name are the same. -/
private theorem nodup_names_iff (h : Compiled documents skipGuards tree tokens c own lexicons index)
    (hw : ∀ document ∈ documents, document.toDraft.WellFormed) (ht : tree = .census documents)
    (hg : tokens = .ofDocuments documents) {u : SourceUnit} (hu : u ∈ c.units) (style : Style) :
    ((fileImports style u).flatMap ImportStatement.binds ++ u.decls.map Decl.name).Nodup ↔
      Unambiguous u := by
  have hsourced := h.sourced hw ht hg u hu
  have hwhole {unit : String} (hm : unit ∈ u.mentions.filterMap (wholeOf u.name)) :
      ∃ document ∈ documents, document.id = unit := by
    obtain ⟨mention, hm, hsome⟩ := List.mem_filterMap.mp hm
    obtain ⟨⟨name, rfl⟩, _⟩ := wholeOf_eq_some.mp hsome
    exact hsourced.types unit name hm
  refine TypeScript.nodup_names_iff (h.nodup_deps hw u hu) (h.nodup_names hw u hu) ?_ ?_ style
  · intro one ho other hother he
    obtain ⟨document, hd, rfl⟩ := hwhole ho
    obtain ⟨second, hs, rfl⟩ := hwhole hother
    rw [h.unitAlias_inj hd hs he]
  · rintro ⟨unit, name⟩ hentry
    obtain ⟨mention, hm, hsome⟩ := List.mem_filterMap.mp hentry
    obtain ⟨rfl, _⟩ := nameOf_eq_some.mp hsome
    obtain ⟨hunit, hconstant, hown⟩ := hsourced.values unit name hm
    refine ⟨hunit, notMem_libraryNames hconstant u, fun halias => ?_, hown⟩
    obtain ⟨other, hother, hname⟩ := List.mem_map.mp halias
    obtain ⟨document, hd, rfl⟩ := hwhole hother
    obtain ⟨first, hplain, hcapital⟩ := h.plain_unitAlias hd
    exact ne_of_plain hconstant hplain (Or.inl hcapital) hname

end Compiled

namespace Batch

/-- A file imports what its unit mentions and exports what it declares. Imports and declarations
bind each name once unless names of libraries, aliases of other units and declared names meet. -/
theorem compile_bindings {documents : List Document} {b : Batch} {skipGuards : Bool}
    {c : Compilation}
    (hread : ∀ document ∈ documents, ∃ node, Document.ofNode node = .ok document)
    (hb : Batch.analyze (documents.map some) = .ok b)
    (hc : b.compile skipGuards false = .ok c) {u : SourceUnit} (hu : u ∈ c.units)
    {style : Style} {text : String} (htext : unitText style u = .ok text) :
    (∃ bodies, List.Forall₂ (Exports style) u.decls bodies ∧
      text = assemble style.frontmatter
        ((fileImports style u).map ImportStatement.text) bodies ∧
      LaidOut style (fileImports style u) bodies text) ∧
    (∀ decl ∈ u.decls, declaredName decl.name = decl.name) ∧
    (((fileImports style u).flatMap ImportStatement.binds ++ u.decls.map Decl.name).Nodup ↔
      Unambiguous u) := by
  have hw := wellFormed_of_read hread
  have hid := identified_of_read hread
  obtain ⟨_, htree, htokens, _⟩ := analyze_eq_ok_iff.mp hb
  obtain ⟨_, ht⟩ := NamespaceTree.build_eq_ok_iff.mp htree
  obtain ⟨_, hg⟩ := (TokenGroups.build_eq_ok_iff hid).mp htokens
  obtain ⟨own, lexicons, index, hcompiled⟩ := Compiled.of_compile hid hb hc
  refine ⟨?_, fun decl hd => ?_, hcompiled.nodup_names_iff hw ht hg hu style⟩
  · obtain ⟨bodies, hbodies, rfl⟩ := unitText_eq_ok htext
    rw [← text_fileImports]
    exact ⟨bodies, hbodies, rfl, laidOut_assemble _ _ bodies⟩
  · obtain ⟨first, hfirst, _⟩ := hcompiled.plain hw ht hg u hu decl hd
    exact hfirst.declaredName

theorem compile_bindings_likes :
    ∃ b c u text, Batch.analyze (likes.map some) = .ok b ∧ b.compile false false = .ok c ∧
      u ∈ c.units ∧ unitText Options.default.style u = .ok text ∧
      (fileImports Options.default.style u).flatMap ImportStatement.binds =
        ["express", "ValidationResult", "ComExampleDefs", "lexicons"] ∧
      (∃ bodies, List.Forall₂ (Exports Options.default.style) u.decls bodies ∧
        text = assemble defaultFrontmatter
          ((fileImports Options.default.style u).map ImportStatement.text) bodies ∧
        LaidOut Options.default.style (fileImports Options.default.style u) bodies text) ∧
      ((fileImports Options.default.style u).flatMap ImportStatement.binds ++
        u.decls.map Decl.name).Nodup := by
  have hfile : ((Batch.analyze (likes.map some)).toOption.bind fun b =>
      (b.compile false false).toOption.bind fun c =>
        (c.unit? "com.example.getLikes").bind fun u =>
          (unitText Options.default.style u).toOption.map fun _ =>
            ((fileImports Options.default.style u).flatMap ImportStatement.binds,
              decide (Unambiguous u))) =
      some (["express", "ValidationResult", "ComExampleDefs", "lexicons"], true) := by
    decide +kernel
  simp only [Option.bind_eq_some_iff, Option.map_eq_some_iff, Outcome.toOption_eq_some,
    Prod.mk.injEq, decide_eq_true_eq] at hfile
  obtain ⟨b, hb, c, hc, u, hu, text, htext, hbinds, hclear⟩ := hfile
  have hmem := List.mem_of_find?_eq_some hu
  obtain ⟨hmade, _, hiff⟩ := compile_bindings likes_read hb hc hmem htext
  exact ⟨b, c, u, text, hb, hc, hmem, htext, hbinds, hmade, hiff.mpr hclear⟩

/-- An object that is named like the type of its blob. -/
def portraitNode : Node :=
  .record [
    ("lexicon", some (.scalar .int "1")),
    ("id", some (.text "com.example.post")),
    ("defs", some (.record [("blobRef", some (.record [
      ("type", some (.text "object")),
      ("properties", some (.record [
        ("image", some (.record [("type", some (.text "blob"))]))]))]))]))]

def portrait : Document :=
  ⟨⟨1, "com.example.post", none, "",
    [⟨"blobRef", .object ⟨"", [], [⟨"image", .blob "" ⟨.blob, [], none, none, none, none⟩⟩],
      false⟩⟩]⟩,
    "", [], ⟨["com", "example", "post"]⟩, portraitNode⟩

/-- The file of `portrait` without guards. -/
def portraitText : String :=
  defaultFrontmatter ++ "\nimport \x7b BlobRef \x7d from '@atproto/lexicon'\n\n" ++
    "export interface BlobRef \x7b\n  image?: BlobRef;\n  [k: string]: unknown;\n\x7d\n"

/-- A file may import a name and declare it as well. -/
theorem compile_portrait :
    ∃ b c u, Document.ofNode portraitNode = .ok portrait ∧
      Batch.analyze [some portrait] = .ok b ∧ b.compile true false = .ok c ∧ u ∈ c.units ∧
      unitText Options.default.style u = .ok portraitText ∧
      (fileImports Options.default.style u).flatMap ImportStatement.binds = ["BlobRef"] ∧
      u.decls.map Decl.name = ["BlobRef"] ∧
      ¬ ((fileImports Options.default.style u).flatMap ImportStatement.binds ++
        u.decls.map Decl.name).Nodup := by
  have hfile : ((Batch.analyze [some portrait]).toOption.bind fun b =>
      (b.compile true false).toOption.bind fun c =>
        (c.unit? "com.example.post").bind fun u =>
          (unitText Options.default.style u).toOption.map fun text =>
            (text, (fileImports Options.default.style u).flatMap ImportStatement.binds,
              u.decls.map Decl.name)) =
      some (portraitText, ["BlobRef"], ["BlobRef"]) := by
    decide +kernel
  simp only [Option.bind_eq_some_iff, Option.map_eq_some_iff, Outcome.toOption_eq_some,
    Prod.mk.injEq] at hfile
  obtain ⟨b, hb, c, hc, u, hu, text, htext, rfl, hbinds, hdecls⟩ := hfile
  refine ⟨b, c, u, rfl, hb, hc, List.mem_of_find?_eq_some hu, htext, hbinds, hdecls, ?_⟩
  rw [hbinds, hdecls]
  decide

end Batch

end LexiconCompiler
