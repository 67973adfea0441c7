import LexiconCompiler.Proofs.Schema.Canonical
import LexiconCompiler.Proofs.Schema.Rereading
import LexiconCompiler.Proofs.Schema.Warnings

set_option autoImplicit false
set_option relaxedAutoImplicit false

/-!
The order of keys and keys that are not read do not matter: a tree is accepted if and only if any
tree is that differs in these only, and the documents are the same up to order.
-/

namespace LexiconCompiler

open LexiconCompiler.Markup

section Warnings

variable {document path : String}

private theorem Body.Shuffled.unencoded_eq {b c : Body SchemaType} (h : b.Shuffled c) :
    c.unencoded document path = b.unencoded document path := by
  have hschema : c.schema.isSome = b.schema.isSome := by
    have hrel := h.schema
    generalize b.schema = s at hrel ⊢
    generalize c.schema = t at hrel ⊢
    cases hrel <;> rfl
  rw [Body.unencoded, Body.unencoded, h.encoding, hschema]

private theorem Method.Shuffled.unencoded_eq {m k : Method SchemaType} (h : m.Shuffled k) :
    k.unencoded document path = m.unencoded document path := by
  have hbody {b c : Option (Body SchemaType)} (hrel : Option.Rel Body.Shuffled b c)
      (path : String) : c.toList.flatMap (Body.unencoded document path) =
        b.toList.flatMap (Body.unencoded document path) := by
    cases hrel with
    | none => rfl
    | some hbc => simp only [Option.toList_some, List.flatMap_singleton, hbc.unencoded_eq]
  rw [Method.unencoded, Method.unencoded, hbody h.input, hbody h.output]

private theorem SchemaType.Shuffled.unencoded_eq {t u : SchemaType} (h : t.Shuffled u) :
    u.unencoded document path = t.unencoded document path := by
  cases h with
  | members h =>
    cases h with
    | refl => rfl
    | object => rfl
  | record => rfl
  | method hm => exact hm.unencoded_eq

private theorem Draft.Shuffled.unencoded_perm {d e : Draft} (h : d.Shuffled e) :
    d.unencoded.Perm e.unencoded := by
  rw [Draft.unencoded, Draft.unencoded, h.id]
  refine h.defs.flatMap_perm fun x y hxy => ?_
  rw [hxy.name, hxy.type.unencoded_eq]

end Warnings

namespace Document

variable {node other : Node} {d : Document}

private theorem exists_of_same (h : ofNode node = .ok d) (hsame : Node.Same .document node other) :
    ∃ e, ofNode other = .ok e ∧ d.Shuffled e := by
  obtain ⟨hdenotes, hvalid, hsource, -, hnsid, -⟩ := (ofNode_eq_ok_iff node d).mp h
  obtain ⟨e, he, hshuffled⟩ := hdenotes.same hsame
  have hparsed : Nsid.parse e.id = .ok d.nsid := by rw [hshuffled.id, hnsid]
  have hread : ofNode other = .ok ⟨e, "", (reviewDraft other).warnings, d.nsid, other⟩ :=
    (ofNode_eq_ok_iff _ _).mpr ⟨he, hshuffled.wellFormed hvalid, rfl, rfl, hparsed, rfl⟩
  refine ⟨_, hread, hshuffled, hsource.symm, ?_, rfl⟩
  rw [warnings_of_ofNode h, warnings_of_ofNode hread]
  exact hshuffled.unencoded_perm.append hshuffled.check_warnings_perm

/-- Key order and keys that are not read do not matter. If a tree is turned into another one by
putting entries of mappings without repeated keys in another order and by adding and taking away
entries under keys that are not read where they stand, then both are accepted or none is, and the
documents are the same up to the order of definitions, of properties and of warnings. -/
theorem ofNode_of_changes (h : Relation.ReflTransGen (Node.Change .document) node other) :
    ((∃ d, ofNode node.bare = .ok d) ↔ ∃ e, ofNode other.bare = .ok e) ∧
      ∀ d e, ofNode node.bare = .ok d → ofNode other.bare = .ok e → d.Shuffled e := by
  induction h with
  | refl =>
    refine ⟨Iff.rfl, fun d e hd he => ?_⟩
    obtain rfl := Except.ok.inj (hd.symm.trans he)
    exact .refl d
  | tail _ hchange ih =>
    have hsame := hchange.same.2
    refine ⟨ih.1.trans ⟨fun ⟨d, hd⟩ => ?_, fun ⟨e, he⟩ => ?_⟩, fun d e hd he => ?_⟩
    · obtain ⟨e, he, -⟩ := exists_of_same hd hsame
      exact ⟨e, he⟩
    · obtain ⟨d, hd, -⟩ := exists_of_same he hsame.symm
      exact ⟨d, hd⟩
    · obtain ⟨c, hc⟩ := ih.1.mp ⟨d, hd⟩
      obtain ⟨e', he', hce⟩ := exists_of_same hc hsame
      obtain rfl := Except.ok.inj (he'.symm.trans he)
      exact (ih.2 d c hd hc).trans hce

def orderedDefs : List (Key × Node) :=
  Node.present [
    ("main", some (.record [("type", some (.text "token"))])),
    ("flag", some (.record [("type", some (.text "boolean"))]))]

def orderedFields : List (String × Option Node) := [
  ("lexicon", some (.scalar .int "1")),
  ("id", some (.text "com.example.thing")),
  ("defs", some (.mapping orderedDefs))]

/-- The same document with its definitions in the other order and a key that is not read. -/
def turnedFields : List (String × Option Node) := [
  ("note", some (.text "not read")),
  ("lexicon", some (.scalar .int "1")),
  ("id", some (.text "com.example.thing")),
  ("defs", some (.mapping orderedDefs.reverse))]

private theorem orderedFields_changes :
    Relation.ReflTransGen (Node.Change .document) (.record orderedFields)
      (.record turnedFields) := by
  have hdefs : Node.Change .definitions (.mapping orderedDefs) (.mapping orderedDefs.reverse) :=
    .permute (by decide) orderedDefs.reverse_perm.symm
  have hnode : Node.Change .document (.record orderedFields) (.record turnedFields.tail) :=
    @Node.Change.entry .document (Node.present (orderedFields.take 2)) [] ⟨"defs", .scalar .str⟩ _ _
      (by decide) hdefs
  have hnote : Node.Change .document (.record turnedFields.tail) (.record turnedFields) :=
    @Node.Change.add .document [] (Node.present turnedFields.tail)
      (⟨"note", .scalar .str⟩, .text "not read") (by decide) rfl rfl
  exact .tail (.single hnode) hnote

theorem ofNode_of_changes_ordered :
    Relation.ReflTransGen (Node.Change .document) (.record orderedFields)
      (.record turnedFields) ∧
    ∃ d e, ofNode (.record orderedFields) = .ok d ∧ ofNode (.record turnedFields) = .ok e ∧
      d.Shuffled e ∧ d.defs.map Definition.name = ["main", "flag"] ∧
      e.defs.map Definition.name = ["flag", "main"] := by
  obtain ⟨-, hshuffled⟩ := ofNode_of_changes orderedFields_changes
  exact ⟨orderedFields_changes, _, _, rfl, rfl, hshuffled _ _ rfl rfl, rfl, rfl⟩

end Document

end LexiconCompiler
