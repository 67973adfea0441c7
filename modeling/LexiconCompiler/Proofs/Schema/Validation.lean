import LexiconCompiler.Proofs.Schema.Completeness

set_option autoImplicit false
set_option relaxedAutoImplicit false

/-!
Reading documents is sound and complete: a tree describes valid documents only, none of whose types
is missing, and every valid document is described by its canonical tree.
-/

namespace LexiconCompiler

open LexiconCompiler.Markup

/-- A procedure that takes a feed in one of several encodings, and what a feed is. References are
written in short. -/
def feedNode : Node :=
  .record [
    ("lexicon", some (.scalar .int "1")),
    ("id", some (.text "com.example.putFeed")),
    ("defs", some (.record [
      ("main", some (.record [
        ("type", some (.text "procedure")),
        ("parameters", some (.record [
          ("type", some (.text "params")),
          ("required", some (.list .text ["limit"])),
          ("properties", some (.record [
            ("limit", some (.record [
              ("type", some (.text "integer")),
              ("minimum", some (.scalar .int "1")),
              ("maximum", some (.scalar .int "100"))]))]))])),
        ("input", some (.record [
          ("encoding", some (.list .text ["application/json", "text/*"])),
          ("schema", some (.text "#feed"))])),
        ("errors", some (.sequence [.record [("name", some (.text "TooLarge"))]]))])),
      ("feed", some (.record [
        ("type", some (.text "object")),
        ("required", some (.list .text ["entries"])),
        ("properties", some (.record [
          ("entries", some (.record [
            ("type", some (.text "array")), ("items", some (.text "#entry"))])),
          ("owner", some (.list .text ["#entry", "com.example.defs#actor"]))]))])),
      ("entry", some (.record [
        ("type", some (.text "string")),
        ("enum", some (.list .text ["a", "b"])),
        ("default", some (.text "b"))]))]))]

def feedDraft : Draft :=
  ⟨1, "com.example.putFeed", none, "",
    [⟨"main", .method "" .procedure
        ⟨some ⟨"", ["limit"], [⟨"limit", .integer "" ⟨none, none, some 1, some 100, []⟩⟩], true⟩,
          some ⟨"", ⟨["application/json", "text/*"], true⟩, some (.ref "" "#feed")⟩, none,
          [⟨"TooLarge", ""⟩]⟩⟩,
      ⟨"feed", .object ⟨"", ["entries"],
        [⟨"entries", .array "" (.ref "" "#entry") none none⟩,
          ⟨"owner", .union "" ["#entry", "com.example.defs#actor"]⟩], false⟩⟩,
      ⟨"entry", .string "" ⟨some "b", none, none, none, ["a", "b"], []⟩⟩]⟩

def feedDocument : Document :=
  ⟨feedDraft, "", [], ⟨["com", "example", "putFeed"]⟩, feedNode⟩

private theorem ofNode_feedNode : Document.ofNode feedNode = .ok feedDocument := by rfl

namespace Document

/-- Every document that a tree describes is valid. Its types are all those that the tree says, so
none is missing, and its identifier is the one that it was parsed to. -/
theorem wellFormed_of_ofNode {node : Node} {document : Document}
    (h : Document.ofNode node = .ok document) :
    document.toDraft.WellFormed ∧ node.Denotes document.toDraft ∧
      Nsid.parse document.id = .ok document.nsid := by
  obtain ⟨hd, hw, _, _, hn, _⟩ := (ofNode_eq_ok_iff node document).mp h
  exact ⟨hw, hd, hn⟩

theorem wellFormed_feed :
    Document.ofNode feedNode = .ok feedDocument ∧ feedDraft.WellFormed ∧
      feedNode.Denotes feedDraft ∧ Nsid.parse feedDraft.id = .ok feedDocument.nsid :=
  ⟨ofNode_feedNode, wellFormed_of_ofNode ofNode_feedNode⟩

/-- Reading undoes writing: the canonical tree of a valid document describes the document. Where
shorthands are allowed they read as the tree that is written out, without a description. -/
theorem ofNode_toNode {d : Draft} (h : d.WellFormed) :
    (∃ document, Document.ofNode d.toNode = .ok document ∧ document.toDraft = d) ∧
      ∀ place ∈ shorthandReaders, ∀ path,
        (∀ target, readTyped place.1 place.2 (.text target) path =
            pure (some (.ref "" target)) ∧
          readTyped place.1 place.2 (SchemaType.ref "" target).toNode path =
            pure (some (.ref "" target))) ∧
        ∀ targets, readTyped place.1 place.2 (.list .text targets) path =
            pure (some (.union "" targets)) ∧
          readTyped place.1 place.2 (SchemaType.union "" targets).toNode path =
            pure (some (.union "" targets)) := by
  constructor
  · obtain ⟨nsid, hn⟩ := (Nsid.isValid_iff d.id).mp h.id
    refine ⟨⟨d, "", (reviewDraft d.toNode).warnings, nsid, d.toNode⟩, ?_, rfl⟩
    exact (ofNode_eq_ok_iff _ _).mpr ⟨h.denotes_toNode, h, rfl, rfl, hn, rfl⟩
  · intro place hp path
    exact ⟨fun target => readTyped_text hp target path,
      fun targets => readTyped_list hp targets path⟩

theorem ofNode_toNode_feed :
    feedDraft.WellFormed ∧
      ∃ document, Document.ofNode feedDraft.toNode = .ok document ∧
        document.toDraft = feedDraft := by
  have h : feedDraft.WellFormed := ((ofNode_eq_ok_iff feedNode feedDocument).mp ofNode_feedNode).2.1
  exact ⟨h, (ofNode_toNode h).1⟩

end Document

end LexiconCompiler
