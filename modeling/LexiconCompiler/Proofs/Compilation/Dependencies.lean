import LexiconCompiler.Proofs.Compilation.Imports
import LexiconCompiler.Proofs.Emission.Needs

set_option autoImplicit false
set_option relaxedAutoImplicit false

/-!
The needs of the units of a compilation. They are the other units that the declarations of a unit
mention, in order of first occurrence, and in the unit of a document they follow from the document:
its references, in the order of the walk, and its guards.
-/

namespace LexiconCompiler

open LexiconCompiler.Code LexiconCompiler.Emission LexiconCompiler.Text

namespace Code.SourceUnit

/-- Whether a name is that of another unit. The empty name stands for the unit itself. -/
def isOther (u : SourceUnit) (name : String) : Bool := !(name.isEmpty || name == u.name)

/-- The other units among some needs, in order of first occurrence. -/
def othersIn (u : SourceUnit) (needs : List String) : List String :=
  distinct (needs.filter u.isOther)

private theorem isNewDep_eq (u : SourceUnit) (name : String) :
    u.isNewDep name = (u.isOther name && !u.deps.contains name) := by
  rw [isNewDep, isOther, Bool.not_or]

private theorem deps_foldl_addDep {u : SourceUnit} (h : u.deps = []) (needs : List String) :
    (needs.foldl addDep u).deps = u.othersIn needs := by
  induction needs using List.reverseRecOn with
  | nil => exact h
  | append_singleton needs name ih =>
    have hsame : (needs.foldl addDep u).isOther = u.isOther := by
      rw [foldl_addDep_eq]
      rfl
    have hknown : (needs.foldl addDep u).deps.contains name =
        decide (name ∈ needs.filter u.isOther) := by
      rw [ih, othersIn, List.contains_eq_mem]
      exact decide_eq_decide.mpr mem_distinct
    rw [List.foldl_append, List.foldl_cons, List.foldl_nil, addDep, isNewDep_eq, hsame, hknown,
      othersIn, List.filter_append]
    by_cases hother : u.isOther name = true
    · by_cases hm : name ∈ needs.filter u.isOther
      · simp [hother, hm, ih, othersIn, distinct_append_of_mem hm]
      · simp [hother, hm, ih, othersIn, distinct_append_of_notMem hm]
    · simp [hother, ih, othersIn]

private theorem Exact.deps_eq {u : SourceUnit} (h : u.Exact) :
    u.deps = u.othersIn (unitsOf u.mentions) := by
  have hdeps := deps_foldl_addDep (u := { u with deps := [] }) rfl (unitsOf u.mentions)
  rw [← h] at hdeps
  exact hdeps

end Code.SourceUnit

section Units

variable {registry : Registry} {skipGuards : Bool} {document : Document} {u : SourceUnit}

private theorem lexiconsUnit_exact (h : lexiconsUnit registry = .ok u) : u.Exact := by
  rw [SourceUnit.Exact, mentions_lexiconsUnit h]
  have hdeps := deps_lexiconsUnit h
  rcases u with ⟨name, kind, deps, decls⟩
  obtain rfl : deps = [] := hdeps
  rfl

theorem documentUnit_deps (h : documentUnit registry skipGuards document = .ok u) :
    u.Exact ∧ u.name = document.id ∧ u.deps = u.othersIn
      (document.defs.flatMap (Scope.definitionNeeds ⟨registry, document.id⟩ skipGuards)) := by
  obtain ⟨decls, rfl, hsound⟩ := documentUnit_leaves h
  rw [← hsound.units]
  have hexact := SourceUnit.exact_extend document.id .document decls
  exact ⟨hexact, SourceUnit.name_extend .., hexact.deps_eq⟩

end Units

namespace Batch

/-- The needs of every unit are the other units that its declarations mention, in order of first
occurrence. In the unit of a document these are the units that the definitions refer to; tokens and
bodies without a media type add none. -/
theorem compile_deps {b : Batch} {skipGuards : Bool} {c : Compilation}
    (hc : b.compile skipGuards false = .ok c) :
    (∀ u ∈ c.units, u.deps = u.othersIn (unitsOf u.mentions)) ∧
    ∃ own lexicons index, c.units = own ++ [lexicons, index] ∧
      List.Forall₂ (fun document u => u.name = document.id ∧ u.deps = u.othersIn
        (document.defs.flatMap (Scope.definitionNeeds ⟨b.registry, document.id⟩ skipGuards)))
        b.registry.documents own := by
  obtain ⟨own, lexicons, index, hunits, hown, hlexicons, hindex⟩ := compile_eq_ok hc
  refine ⟨fun u hu => ?_, own, lexicons, index, hunits, hown.imp fun _ _ hmade =>
    (documentUnit_deps hmade).2⟩
  rw [hunits, List.mem_append, List.mem_cons, List.mem_singleton] at hu
  rcases hu with hu | rfl | rfl
  · obtain ⟨document, _, hmade⟩ := exists_of_forall₂_mem hown hu
    exact (documentUnit_deps hmade).1.deps_eq
  · exact (lexiconsUnit_exact hlexicons).deps_eq
  · exact (indexUnit_exact hindex).deps_eq

theorem compile_deps_likes :
    ∃ b c, Batch.analyze (likes.map some) = .ok b ∧ b.compile false false = .ok c ∧
      c.units.map SourceUnit.deps = [["com.example.defs", lexiconsName], [], [],
        [lexiconsName, "com.example.getLikes"]] ∧
      (∀ u ∈ c.units, u.deps = u.othersIn (unitsOf u.mentions)) ∧
      ∃ own lexicons index, c.units = own ++ [lexicons, index] ∧
        List.Forall₂ (fun document u => u.name = document.id ∧ u.deps = u.othersIn
          (document.defs.flatMap (Scope.definitionNeeds ⟨b.registry, document.id⟩ false)))
          b.registry.documents own := by
  have hdeps : ((Batch.analyze (likes.map some)).toOption.bind fun b =>
      (b.compile false false).toOption.map fun c => c.units.map SourceUnit.deps) =
        some [["com.example.defs", lexiconsName], [], [],
          [lexiconsName, "com.example.getLikes"]] := by
    decide +kernel
  obtain ⟨b, hb, hunits⟩ := Option.bind_eq_some_iff.mp hdeps
  obtain ⟨c, hc, hunits⟩ := Option.map_eq_some_iff.mp hunits
  have hcompile := Outcome.toOption_eq_some.mp hc
  exact ⟨b, c, Outcome.toOption_eq_some.mp hb, hcompile, hunits, compile_deps hcompile⟩

end Batch

end LexiconCompiler
