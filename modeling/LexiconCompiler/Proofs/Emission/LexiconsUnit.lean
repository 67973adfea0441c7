import LexiconCompiler.Emission.LexiconsUnit
import LexiconCompiler.Proofs.Outcome
import LexiconCompiler.Proofs.Text.Distinct

set_option autoImplicit false
set_option relaxedAutoImplicit false

/-!
When the unit of all schemas comes into being: the keys of the documents differ, and each document
has a JSON form. The order of the documents does not matter to either.
-/

namespace LexiconCompiler

open LexiconCompiler.Text

/-- How a compilation ends that finds no JSON form of a document. -/
def Document.unencodable (document : Document) (fault : Markup.JsonFault) : Failure :=
  .within ("encode " ++ document.id) (.within ("encode " ++ document.id) fault.failure)

namespace Emission

def schemaKey (document : Document) : String := Casing.title document.id

theorem encoded_eq_ok {document : Document} {json : String} :
    document.encoded = .ok json ↔ document.rawJson = .ok json :=
  Outcome.mapError_eq_ok

private theorem keyedSchemas_isOk_iff {taken : List (String × String)} {documents : List Document} :
    (∃ schemas, keyedSchemas taken documents = .ok schemas) ↔
      Fresh (taken.map Prod.fst) (documents.map schemaKey) ∧
        ∀ document ∈ documents, ∃ json, document.rawJson = .ok json := by
  induction documents generalizing taken with
  | nil => simp [keyedSchemas]
  | cons document rest ih =>
    rw [List.map_cons, fresh_cons, List.forall_mem_cons, ← lookup_eq_none_iff_notMem, keyedSchemas]
    cases hl : taken.lookup (schemaKey document) with
    | some other =>
      have hkey : taken.lookup (Casing.title document.id) = some other := hl
      simp [hkey]
    | none =>
      have hkey : taken.lookup (Casing.title document.id) = none := hl
      have hrest : (∃ schemas, keyedSchemas ((schemaKey document, document.id) :: taken) rest =
          .ok schemas) ↔ _ := ih
      simp only [hkey, Outcome.bind_eq_ok, Outcome.mapError_eq_ok, Outcome.pure_eq_ok,
        encoded_eq_ok]
      constructor
      · rintro ⟨_, json, hjson, schemas, hschemas, _⟩
        obtain ⟨hfresh, hall⟩ := hrest.mp ⟨schemas, hschemas⟩
        exact ⟨⟨trivial, hfresh⟩, ⟨json, hjson⟩, hall⟩
      · rintro ⟨⟨_, hfresh⟩, ⟨json, hjson⟩, hall⟩
        obtain ⟨schemas, hschemas⟩ := hrest.mpr ⟨hfresh, hall⟩
        exact ⟨_, json, hjson, schemas, hschemas, rfl⟩

theorem lexiconsUnit_isOk_iff {documents : List Document} :
    (∃ v, lexiconsUnit ⟨documents⟩ = .ok v) ↔
      (documents.map schemaKey).Nodup ∧
        ∀ document ∈ documents, ∃ json, document.rawJson = .ok json := by
  have hkeyed : (∃ schemas, keyedSchemas [] documents = .ok schemas) ↔ _ := keyedSchemas_isOk_iff
  have hfresh : Fresh (([] : List (String × String)).map Prod.fst) (documents.map schemaKey) ↔
      (documents.map schemaKey).Nodup := by simp [Fresh]
  rw [← hfresh, ← hkeyed]
  simp only [lexiconsUnit, Outcome.bind_eq_ok, Outcome.pure_eq_ok]
  constructor
  · rintro ⟨_, schemas, hschemas, _⟩
    exact ⟨schemas, hschemas⟩
  · rintro ⟨schemas, hschemas⟩
    exact ⟨_, schemas, hschemas, rfl⟩

theorem keyedSchemas_eq_error {taken : List (String × String)} {documents : List Document}
    {failure : Failure} (h : keyedSchemas taken documents = .error failure) :
    (∃ id other key, failure = .problem (.keyClash id other key)) ∨
      ∃ document ∈ documents, ∃ fault, document.rawJson = .error fault ∧
        failure = document.unencodable fault := by
  induction documents generalizing taken with
  | nil => cases h
  | cons document rest ih =>
    rw [keyedSchemas] at h
    cases hl : taken.lookup (Casing.title document.id) with
    | some other =>
      simp only [hl] at h
      exact Or.inl ⟨_, _, _, (Except.error.inj h).symm⟩
    | none =>
      simp only [hl, Outcome.bind_eq_error, Outcome.mapError_eq_error, Outcome.pure_ne_error,
        and_false, exists_false, or_false, Document.encoded] at h
      rcases h with ⟨_, ⟨fault, hfault, rfl⟩, rfl⟩ | ⟨_, _, hrest⟩
      · exact Or.inr ⟨document, List.mem_cons_self, fault, hfault, rfl⟩
      · rcases ih hrest with hclash | ⟨other, ho, hfault⟩
        · exact Or.inl hclash
        · exact Or.inr ⟨other, List.mem_cons_of_mem document ho, hfault⟩

end Emission

end LexiconCompiler
