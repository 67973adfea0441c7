import LexiconCompiler.Compilation
import LexiconCompiler.Proofs.Emission.LexiconsUnit
import LexiconCompiler.Proofs.Emission.Resolved
import LexiconCompiler.Proofs.Emission.Server
import LexiconCompiler.Proofs.Markup.Json
import LexiconCompiler.Proofs.Registry
import LexiconCompiler.Proofs.Schema.Validation

set_option autoImplicit false
set_option relaxedAutoImplicit false

/-!
How the compilation of documents that fit together can fail: two generated names are equal, or a
document has no JSON form. A reference or a kind is no obstacle any more. Only a document whose tree
has no end lets it run without one.
-/

namespace LexiconCompiler

open LexiconCompiler.Code LexiconCompiler.Emission LexiconCompiler.Markup

private theorem Document.blocked_of_rawJson {document : Document} {fault : JsonFault}
    (h : document.rawJson = .error fault) : document.raw.Blocked fault :=
  document.raw.blocked_of_toJson h

private theorem Document.isOverflow_unencodable {document : Document} {fault : JsonFault} :
    (document.unencodable fault).isOverflow = true ↔ fault = .endless := by
  cases fault <;> simp [Document.unencodable, JsonFault.failure, Failure.isOverflow]

private theorem documentUnit_eq_error {documents : List Document} (hd : DistinctIds documents)
    (hl : Linked documents) {document : Document} (hm : document ∈ documents)
    (hw : document.toDraft.WellFormed) {skipGuards : Bool} {problem : Problem}
    (h : documentUnit ⟨documents⟩ skipGuards document = .error problem) :
    ∃ name, problem = .repeatedName document.id name := by
  have hyields := declareAll_yields hw.defs (resolvesIn_of_linked hd hl hm) skipGuards
  exact hyields.grow_eq_error h

namespace Batch

/-- Compilation runs without an end only at a document whose tree has none. -/
theorem endless_of_compile {b : Batch} {skipGuards canceled : Bool} {failure : Failure}
    (h : b.compile skipGuards canceled = .error failure) (hover : failure.isOverflow = true) :
    ∃ document ∈ b.registry.documents, document.raw.Endless := by
  have hlive : canceled = false := by
    cases canceled with
    | false => rfl
    | true =>
      obtain rfl := Except.error.inj h
      cases hover
  simp only [compile, aggregate, hlive, Bool.false_eq_true, if_false, lexiconsUnit,
    Outcome.bind_eq_error, Outcome.mapError_eq_error, Outcome.pure_ne_error, and_false,
    exists_false, or_false] at h
  rcases h with ⟨_, _, rfl⟩ | ⟨_, _, hlexicons | ⟨_, _, _, _, rfl⟩⟩
  · cases hover
  · obtain ⟨_, _, _, rfl⟩ | ⟨document, hm, fault, hfault, rfl⟩ := keyedSchemas_eq_error hlexicons
    · cases hover
    · obtain rfl := Document.isOverflow_unencodable.mp hover
      obtain ⟨-, hendless⟩ | ⟨_, _, _, hbad⟩ := Document.blocked_of_rawJson hfault
      · exact ⟨document, hm, hendless⟩
      · cases hbad
  · cases hover

/-- The compilation of documents that fit together fails only at a generated name that occurs twice,
or at a document without a JSON form: it holds a scalar without one, or it has no end. The unit of a
single document fails only at such a name. -/
theorem compile_eq_error {documents : List Document} {b : Batch}
    (hread : ∀ document ∈ documents, ∃ node, Document.ofNode node = .ok document)
    (hb : Batch.analyze (documents.map some) = .ok b) (skipGuards : Bool) :
    (∀ document ∈ documents, ∀ problem,
      documentUnit b.registry skipGuards document = .error problem →
        problem.codes = [.duplicateIdentifier]) ∧
    ∀ failure, b.compile skipGuards false = .error failure →
      (∃ problem, failure = .problem problem ∧ problem.codes = [.duplicateIdentifier]) ∨
      ∃ document ∈ documents, ∃ fault, document.rawJson = .error fault ∧
        failure = document.unencodable fault ∧
        ((fault = .endless ∧ document.raw.Endless) ∨
          ∃ tag text, document.raw.Holds tag text ∧ Unwritable tag text fault) := by
  obtain ⟨⟨hd, hl⟩, _, _, hregistry, _⟩ := analyze_eq_ok_iff.mp hb
  have hdocument : ∀ document ∈ documents, ∀ problem,
      documentUnit b.registry skipGuards document = .error problem →
        problem.codes = [.duplicateIdentifier] := by
    intro document hm problem hp
    obtain ⟨node, hnode⟩ := hread document hm
    have hw := ((Document.ofNode_eq_ok_iff node document).mp hnode).2.1
    rw [hregistry] at hp
    obtain ⟨name, rfl⟩ := documentUnit_eq_error hd hl hm hw hp
    rfl
  refine ⟨hdocument, fun failure hf => ?_⟩
  have hdocuments : b.registry.documents = documents := congrArg Registry.documents hregistry
  simp only [compile, aggregate, Bool.false_eq_true, if_false, documentUnits, lexiconsUnit,
    hdocuments, Outcome.bind_eq_error, Outcome.mapError_eq_error, Outcome.pure_ne_error, and_false,
    exists_false, or_false] at hf
  -- The units of the documents, that of all schemas and that of the server: one fails first.
  rcases hf with ⟨problem, hp, rfl⟩ | ⟨_, _, hlexicons | ⟨_, _, problem, hp, rfl⟩⟩
  · obtain ⟨document, hm, hp⟩ := Outcome.mapM_eq_error hp
    exact Or.inl ⟨problem, rfl, hdocument document hm problem hp⟩
  · obtain ⟨_, _, _, rfl⟩ | ⟨document, hm, fault, hr, rfl⟩ := keyedSchemas_eq_error hlexicons
    · exact Or.inl ⟨_, rfl, rfl⟩
    · exact Or.inr ⟨document, hm, fault, hr, rfl, Document.blocked_of_rawJson hr⟩
  · obtain ⟨name, rfl⟩ := indexUnit_eq_error hp
    exact Or.inl ⟨_, rfl, rfl⟩

/-- A document with two definitions whose generated names are the same. -/
def echoNode : Node :=
  .record [
    ("lexicon", some (.scalar .int "1")),
    ("id", some (.text "com.example.echo")),
    ("defs", some (.record [
      ("view", some (.record [("type", some (.text "string"))])),
      ("View", some (.record [("type", some (.text "string"))]))]))]

def echo : Document :=
  ⟨⟨1, "com.example.echo", none, "",
    [⟨"view", .string "" ⟨none, none, none, none, [], []⟩⟩,
      ⟨"View", .string "" ⟨none, none, none, none, [], []⟩⟩]⟩,
    "", [], ⟨["com", "example", "echo"]⟩, echoNode⟩

theorem compile_eq_error_echo :
    ∃ b, Document.ofNode echoNode = .ok echo ∧ Batch.analyze ([echo].map some) = .ok b ∧
      (b.compile false false).toOption.isNone = true ∧
      (∀ document ∈ [echo], ∀ problem,
        documentUnit b.registry false document = .error problem →
          problem.codes = [.duplicateIdentifier]) ∧
      ∀ failure, b.compile false false = .error failure →
        (∃ problem, failure = .problem problem ∧ problem.codes = [.duplicateIdentifier]) ∨
        ∃ document ∈ [echo], ∃ fault, document.rawJson = .error fault ∧
          failure = document.unencodable fault ∧
          ((fault = .endless ∧ document.raw.Endless) ∨
            ∃ tag text, document.raw.Holds tag text ∧ Unwritable tag text fault) := by
  have hnode : Document.ofNode echoNode = .ok echo := rfl
  have hfails : ((Batch.analyze ([echo].map some)).toOption.map fun b =>
      (b.compile false false).toOption.isNone) = some true := by
    decide +kernel
  obtain ⟨b, hb, hnone⟩ := Option.map_eq_some_iff.mp hfails
  have hanalyzed := Outcome.toOption_eq_some.mp hb
  refine ⟨b, hnode, hanalyzed, hnone, compile_eq_error (fun document hd => ?_) hanalyzed false⟩
  obtain rfl := List.mem_singleton.mp hd
  exact ⟨echoNode, hnode⟩

/-- A token, and a time whose zone is a day away in a field of no meaning. -/
def zonedNode : Node :=
  .record [
    ("lexicon", some (.scalar .int "1")),
    ("id", some (.text "com.example.thing")),
    ("defs", some (.record [("main", some (.record [("type", some (.text "token"))]))])),
    ("x", some (.scalar .timestamp "2024-01-02T03:04:05+24:00"))]

def zoned : Document :=
  ⟨⟨1, "com.example.thing", none, "", [⟨"main", .token ""⟩]⟩, "", [],
    ⟨["com", "example", "thing"]⟩, zonedNode⟩

/-- Every scalar of a document may have a value, none of them a number that is not finite, and yet
the document has no JSON form. -/
theorem compile_zoned :
    ∃ b failure, Document.ofNode zonedNode = .ok zoned ∧ Batch.analyze [some zoned] = .ok b ∧
      b.compile false false = .error failure ∧ failure.problem? = none ∧
      ∀ tag text, zoned.raw.Holds tag text →
        ∃ value, decodeScalar tag text = .ok value ∧ value.tag ≠ .float := by
  have hfails : ((Batch.analyze [some zoned]).toOption.bind fun b =>
      match b.compile false false with
      | .ok _ => none
      | .error failure => some failure.problem?) = some none := by
    decide +kernel
  obtain ⟨b, hb, hfailure⟩ := Option.bind_eq_some_iff.mp hfails
  split at hfailure
  · cases hfailure
  · rename_i failure hcompile
    refine ⟨b, failure, rfl, Outcome.toOption_eq_some.mp hb, hcompile,
      Option.some.inj hfailure, fun tag text hholds => ?_⟩
    simp only [zoned, zonedNode, Node.record, Node.present, Node.text, List.filterMap_cons,
      List.filterMap_nil, Option.map_some, holds_mapping, holds_scalar, List.mem_cons,
      List.not_mem_nil, or_false, exists_eq_or_imp, exists_eq_left] at hholds
    rcases hholds with ⟨rfl, rfl⟩ | ⟨rfl, rfl⟩ | ⟨rfl, rfl⟩ | ⟨rfl, rfl⟩
    all_goals exact ⟨_, rfl, by decide +kernel⟩

end Batch

end LexiconCompiler
