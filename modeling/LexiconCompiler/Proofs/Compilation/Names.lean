import LexiconCompiler.Proofs.Compilation
import LexiconCompiler.Proofs.Emission.Names

set_option autoImplicit false
set_option relaxedAutoImplicit false

/-!
The names that the units of a compilation declare. They are words and never reserved, but a word is
an identifier only if it starts with a letter, and definitions may start with a digit.
-/

namespace LexiconCompiler

open LexiconCompiler.Code LexiconCompiler.Emission LexiconCompiler.Markup LexiconCompiler.Text
open LexiconCompiler.TypeScript

section Read

variable {documents : List Document}

theorem wellFormed_of_read
    (hread : ∀ document ∈ documents, ∃ node, Document.ofNode node = .ok document) :
    ∀ document ∈ documents, document.toDraft.WellFormed := by
  intro document hd
  obtain ⟨node, hnode⟩ := hread document hd
  exact ((Document.ofNode_eq_ok_iff node document).mp hnode).2.1

theorem identified_of_read
    (hread : ∀ document ∈ documents, ∃ node, Document.ofNode node = .ok document) :
    Identified documents := by
  intro document hd
  obtain ⟨node, hnode⟩ := hread document hd
  exact ((Document.ofNode_eq_ok_iff node document).mp hnode).2.2.2.2.1

end Read

namespace Compiled

variable {documents : List Document} {skipGuards : Bool} {tree : NamespaceTree}
  {tokens : TokenGroups} {c : Compilation} {own : List SourceUnit} {lexicons index : SourceUnit}

theorem own_decls (h : Compiled documents skipGuards tree tokens c own lexicons index)
    (hw : ∀ document ∈ documents, document.toDraft.WellFormed) {u : SourceUnit} (hu : u ∈ own) :
    ∃ document ∈ documents, u.name = document.id ∧ u.decls =
      document.defs.flatMap (Scope.definitionDecls ⟨⟨documents⟩, document.id⟩ skipGuards) := by
  obtain ⟨document, hd, hmade, hname⟩ := h.own_name hu
  exact ⟨document, hd, hname,
    (documentUnit_eq_ok h.distinct h.linked hd (hw document hd) hmade).2.2⟩

theorem plain (h : Compiled documents skipGuards tree tokens c own lexicons index)
    (hw : ∀ document ∈ documents, document.toDraft.WellFormed)
    (ht : tree = .census documents) (hg : tokens = .ofDocuments documents) :
    ∀ u ∈ c.units, ∀ decl ∈ u.decls, ∃ first, Plain decl.name first ∧
      (isAsciiDigit first = true →
        ∃ document ∈ documents, ∃ definition ∈ document.defs, definition.StartsWithDigit) := by
  have hletter {name : String}
      (hname : ∃ first, Plain name first ∧ isAsciiDigit first = false) :
      ∃ first, Plain name first ∧ (isAsciiDigit first = true →
        ∃ document ∈ documents, ∃ definition ∈ document.defs, definition.StartsWithDigit) := by
    obtain ⟨first, hplain, hdigit⟩ := hname
    exact ⟨first, hplain, by simp [hdigit]⟩
  intro u hu decl hd
  simp only [h.units, List.mem_append, List.mem_cons, List.not_mem_nil, or_false] at hu
  rcases hu with hown | rfl | rfl
  · obtain ⟨document, hm, _, hdecls⟩ := h.own_decls hw hown
    rw [hdecls] at hd
    obtain ⟨definition, hdef, hd⟩ := List.mem_flatMap.mp hd
    obtain ⟨first, hplain, _, hdigit⟩ :=
      plain_of_mem_definitionDecls ((hw document hm).defs definition hdef) hd
    exact ⟨first, hplain, fun hf => ⟨document, hm, definition, hdef, hdigit hf⟩⟩
  · exact hletter (plain_of_mem_lexiconsUnit h.lexicons hd)
  · obtain ⟨_, _, hdecls⟩ := indexUnit_eq_ok h.index
    rw [hdecls, ht, hg] at hd
    obtain ⟨first, hplain, _, hdigit⟩ := plain_of_mem_indexDecls h.identified hd
    exact hletter ⟨first, hplain, hdigit⟩

private theorem exists_digit (h : Compiled documents skipGuards tree tokens c own lexicons index)
    (hw : ∀ document ∈ documents, document.toDraft.WellFormed) {document : Document}
    (hm : document ∈ documents) {definition : Definition} (hdef : definition ∈ document.defs)
    (hdigit : definition.StartsWithDigit) :
    ∃ u ∈ c.units, ∃ decl ∈ u.decls, ∃ first,
      Plain decl.name first ∧ isAsciiDigit first = true := by
  obtain ⟨u, hu, hmade⟩ := exists_of_forall₂_mem h.own.flip hm
  obtain ⟨_, _, hdecls⟩ := documentUnit_eq_ok h.distinct h.linked hm (hw document hm) hmade
  obtain ⟨decl, hd, hfirst⟩ := exists_digit_definitionDecls ⟨⟨documents⟩, document.id⟩ skipGuards
    ((hw document hm).defs definition hdef) hdigit
  refine ⟨u, ?_, decl, ?_, hfirst⟩
  · rw [h.units]
    exact List.mem_append_left _ hu
  · rw [hdecls]
    exact List.mem_flatMap.mpr ⟨definition, hdef, hd⟩

end Compiled

namespace Batch

/-- Every name that a compilation declares is a word and not reserved. All of them are identifiers
exactly if no definition starts with a digit. -/
theorem compile_names {documents : List Document} {b : Batch} {skipGuards : Bool}
    {c : Compilation}
    (hread : ∀ document ∈ documents, ∃ node, Document.ofNode node = .ok document)
    (hb : Batch.analyze (documents.map some) = .ok b)
    (hc : b.compile skipGuards false = .ok c) :
    (∀ u ∈ c.units, ∀ decl ∈ u.decls,
      (∃ first, Worded decl.name first) ∧ declaredName decl.name = decl.name) ∧
    ((∀ u ∈ c.units, ∀ decl ∈ u.decls, isIdentifier decl.name = true) ↔
      ∀ document ∈ documents, ∀ definition ∈ document.defs, ¬ definition.StartsWithDigit) := by
  have hw := wellFormed_of_read hread
  have hid := identified_of_read hread
  obtain ⟨_, htree, htokens, _⟩ := analyze_eq_ok_iff.mp hb
  obtain ⟨_, ht⟩ := NamespaceTree.build_eq_ok_iff.mp htree
  obtain ⟨_, hg⟩ := (TokenGroups.build_eq_ok_iff hid).mp htokens
  obtain ⟨own, lexicons, index, hcompiled⟩ := Compiled.of_compile hid hb hc
  have hplain := hcompiled.plain hw ht hg
  refine ⟨fun u hu decl hd => ?_, ?_, ?_⟩
  · obtain ⟨first, hfirst, _⟩ := hplain u hu decl hd
    exact ⟨⟨first, hfirst.toWorded⟩, hfirst.declaredName⟩
  · intro hall document hm definition hdef hdigit
    obtain ⟨u, hu, decl, hd, first, hfirst, hstarts⟩ :=
      hcompiled.exists_digit hw hm hdef hdigit
    have hletter := hfirst.isIdentifier_iff.mp (hall u hu decl hd)
    rw [hstarts] at hletter
    cases hletter
  · intro hnone u hu decl hd
    obtain ⟨first, hfirst, hdigit⟩ := hplain u hu decl hd
    rw [hfirst.isIdentifier_iff, ← Bool.not_eq_true]
    intro hstarts
    obtain ⟨document, hm, definition, hdef, hstarts⟩ := hdigit hstarts
    exact hnone document hm definition hdef hstarts

theorem compile_names_likes :
    ∃ b c, Batch.analyze (likes.map some) = .ok b ∧ b.compile false false = .ok c ∧
      c.units.map SourceUnit.name =
        ["com.example.getLikes", "com.example.defs", lexiconsName, indexName] ∧
      (∀ u ∈ c.units, ∀ decl ∈ u.decls,
        (∃ first, Worded decl.name first) ∧ declaredName decl.name = decl.name) ∧
      ∀ u ∈ c.units, ∀ decl ∈ u.decls, isIdentifier decl.name = true := by
  obtain ⟨b, c, hb, hc, hnames⟩ := likes_compile
  obtain ⟨hworded, hiff⟩ := compile_names likes_read hb hc
  have hdigits : ∀ document ∈ likes, ∀ definition ∈ document.defs,
      ¬ definition.StartsWithDigit := by
    decide +kernel
  exact ⟨b, c, hb, hc, hnames, hworded, hiff.mpr hdigits⟩

/-- A text that is defined under a name with a digit in front. -/
def ordinalNode : Node :=
  .record [
    ("lexicon", some (.scalar .int "1")),
    ("id", some (.text "com.example.ordinal")),
    ("defs", some (.record [("1st", some (.record [("type", some (.text "string"))]))]))]

def ordinal : Document :=
  ⟨⟨1, "com.example.ordinal", none, "",
    [⟨"1st", .string "" ⟨none, none, none, none, [], []⟩⟩]⟩,
    "", [], ⟨["com", "example", "ordinal"]⟩, ordinalNode⟩

/-- A definition may be declared under a name that is no identifier. -/
theorem compile_ordinal :
    ∃ b c u, Document.ofNode ordinalNode = .ok ordinal ∧ Batch.analyze [some ordinal] = .ok b ∧
      b.compile false false = .ok c ∧ u ∈ c.units ∧ u.decls.map Decl.name = ["1st"] ∧
      isIdentifier "1st" = false := by
  have hnames : ((Batch.analyze [some ordinal]).toOption.bind fun b =>
      (b.compile false false).toOption.bind fun c =>
        (c.unit? "com.example.ordinal").map fun u => u.decls.map Decl.name) = some ["1st"] := by
    decide +kernel
  simp only [Option.bind_eq_some_iff, Option.map_eq_some_iff, Outcome.toOption_eq_some] at hnames
  obtain ⟨b, hb, c, hc, u, hu, hdecls⟩ := hnames
  exact ⟨b, c, u, rfl, hb, hc, List.mem_of_find?_eq_some hu, hdecls, by decide +kernel⟩

end Batch

end LexiconCompiler
