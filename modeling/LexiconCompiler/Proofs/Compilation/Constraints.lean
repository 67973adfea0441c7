import LexiconCompiler.Proofs.Compilation.Names
import LexiconCompiler.Proofs.Emission.Constraints

set_option autoImplicit false
set_option relaxedAutoImplicit false

/-!
The constraints in a compilation. Whatever a document says about a type and no generated type
expresses stands in the notes of a declaration or field of its unit, unless it is said about the
items of an array.
-/

namespace LexiconCompiler

open LexiconCompiler.Code LexiconCompiler.Emission LexiconCompiler.Markup

namespace Batch

/-- Every type that is carried is found from its definition, and the constraints of all of them but
items of arrays are noted at the declaration or field of the type. -/
theorem compile_notes {documents : List Document} {b : Batch}
    (hread : ∀ document ∈ documents, ∃ node, Document.ofNode node = .ok document)
    (hb : Batch.analyze (documents.map some) = .ok b) {skipGuards : Bool} {c : Compilation}
    (hc : b.compile skipGuards false = .ok c) :
    ∀ document ∈ documents, ∃ u, c.unit? document.id = some u ∧
      ∀ definition ∈ document.defs,
        (∀ t : SchemaType, t.Inside definition.type.carried ↔
          ∃ path, definition.type.carried.at? path = some t) ∧
        ∀ path t, definition.type.carried.at? path = some t → Noted u definition path t := by
  intro document hm
  have hw := wellFormed_of_read hread
  obtain ⟨own, lexicons, index, hcompiled⟩ := Compiled.of_compile (identified_of_read hread) hb hc
  obtain ⟨u, hu, hmade⟩ := hcompiled.unit?_document hm
  obtain ⟨hn, _, hdecls⟩ :=
    documentUnit_eq_ok hcompiled.distinct hcompiled.linked hm (hw document hm) hmade
  refine ⟨u, hu, fun definition hdef => ?_⟩
  have hwell := (hw document hm).defs definition hdef
  exact ⟨fun t => inside_carried_iff_at? hwell, fun path t => noted_of_at? hn hdecls hdef hwell⟩

def ratingNode : Node :=
  .record [
    ("lexicon", some (.scalar .int "1")),
    ("id", some (.text "com.example.rating")),
    ("defs", some (.record [
      ("main", some (.record [
        ("type", some (.text "record")),
        ("key", some (.text "tid")),
        ("record", some (.record [
          ("type", some (.text "object")),
          ("properties", some (.record [
            ("score", some (.record [
              ("type", some (.text "integer")),
              ("minimum", some (.scalar .int "0")),
              ("maximum", some (.scalar .int "10"))]))]))]))]))]))]

def rating : Document :=
  ⟨⟨1, "com.example.rating", none, "",
      [⟨"main", .record "" "tid" ⟨"", [],
        [⟨"score", .integer "" ⟨none, none, some 0, some 10, []⟩⟩], false⟩⟩]⟩,
    "", [], ⟨["com", "example", "rating"]⟩, ratingNode⟩

private theorem rating_read : ∀ document ∈
    [rating], ∃ node, Document.ofNode node = .ok document := by
  intro document hd
  rw [List.mem_singleton.mp hd]
  exact ⟨ratingNode, rfl⟩

theorem compile_notes_rating :
    ∃ b c u doc, Batch.analyze [some rating] = .ok b ∧ b.compile true false = .ok c ∧
      c.unit? "com.example.rating" = some u ∧
      u.docAt? ⟨"main", .record "" "tid" ⟨"", [],
        [⟨"score", .integer "" ⟨none, none, some 0, some 10, []⟩⟩], false⟩⟩
          [.payload, .property "score"] = some doc ∧
      doc.notes = ["minimum: 0", "maximum: 10"] := by
  have hcompiles : ((Batch.analyze [some rating]).toOption.bind fun b =>
      (b.compile true false).toOption.map fun _ => ()) = some () := by
    decide +kernel
  simp only [Option.bind_eq_some_iff, Option.map_eq_some_iff, Outcome.toOption_eq_some] at hcompiles
  obtain ⟨b, hb, c, hc, -⟩ := hcompiles
  obtain ⟨u, hu, hnoted⟩ := compile_notes rating_read hb hc rating (List.mem_singleton_self _)
  obtain ⟨doc, hdoc, hnotes⟩ := ((hnoted _ (List.mem_singleton_self _)).2
    [.payload, .property "score"] _ rfl).own (by decide)
  exact ⟨b, c, u, doc, hb, hc, hu, hdoc, hnotes⟩

def ladderNode : Node :=
  .record [
    ("lexicon", some (.scalar .int "1")),
    ("id", some (.text "com.example.ladder")),
    ("defs", some (.record [
      ("main", some (.record [
        ("type", some (.text "array")),
        ("minLength", some (.scalar .int "1")),
        ("items", some (.record [
          ("type", some (.text "integer")),
          ("minimum", some (.scalar .int "3"))]))]))]))]

def ladder : Document :=
  ⟨⟨1, "com.example.ladder", none, "",
      [⟨"main", .array "" (.integer "" ⟨none, none, some 3, none, []⟩) (some 1) none⟩]⟩,
    "", [], ⟨["com", "example", "ladder"]⟩, ladderNode⟩

/-- The lower bound of the items is noted nowhere: the declaration has the notes of the array. -/
theorem compile_drops_items :
    Document.ofNode ladderNode = .ok ladder ∧
    ∃ b c u, Batch.analyze [some ladder] = .ok b ∧ b.compile true false = .ok c ∧
      c.unit? "com.example.ladder" = some u ∧
      u.decls.map (fun decl => (decl.name, decl.doc.notes)) = [("Main", ["minLength: 1"])] ∧
      ∀ definition ∈ ladder.defs,
        definition.type.at? [.items] = some (.integer "" ⟨none, none, some 3, none, []⟩) ∧
        u.docAt? definition [.items] = some ⟨"", ["minLength: 1"]⟩ ∧
        notes (.integer "" ⟨none, none, some 3, none, []⟩) = ["minimum: 3"] := by
  have hunit : ((Batch.analyze [some ladder]).toOption.bind fun b =>
      (b.compile true false).toOption.bind fun c => (c.unit? "com.example.ladder").map fun u =>
        (u.decls.map fun decl => (decl.name, decl.doc.notes),
          ladder.defs.map fun definition => u.docAt? definition [.items])) =
      some ([("Main", ["minLength: 1"])], [some ⟨"", ["minLength: 1"]⟩]) := by
    decide +kernel
  simp only [Option.bind_eq_some_iff, Option.map_eq_some_iff, Outcome.toOption_eq_some] at hunit
  obtain ⟨b, hb, c, hc, u, hu, heq⟩ := hunit
  obtain ⟨hdecls, hdocs⟩ := Prod.mk.inj heq
  refine ⟨rfl, b, c, u, hb, hc, hu, hdecls, fun definition hdef => ?_⟩
  have hdoc := List.mem_map_of_mem (f := fun definition => u.docAt? definition [.items]) hdef
  rw [hdocs, List.mem_singleton] at hdoc
  obtain rfl := List.mem_singleton.mp hdef
  exact ⟨rfl, hdoc, by decide⟩

end Batch

end LexiconCompiler
