import LexiconCompiler.Proofs.Casing
import LexiconCompiler.TypeScript.Identifier

set_option autoImplicit false
set_option relaxedAutoImplicit false

/-!
Names of letters, digits and underscores as names of declarations: when they are identifiers, and
why they are no reserved words.
-/

namespace LexiconCompiler.TypeScript

open LexiconCompiler.Text

/-- A name of letters, digits and underscores that starts with a given letter or digit. -/
structure Worded (name : String) (first : Char) : Prop where
  front : name.toList.head? = some first
  alnum : isAsciiAlnum first = true
  chars : ∀ c ∈ name.toList, isAsciiAlnum c = true ∨ c = '_'

def isWorded (name : String) (first : Char) : Bool :=
  name.toList.head? == some first && isAsciiAlnum first &&
    name.toList.all fun c => isAsciiAlnum c || c == '_'

section Worded

variable {name : String} {first : Char}

theorem worded_of_isWorded (h : isWorded name first = true) : Worded name first := by
  simp only [isWorded, Bool.and_eq_true, beq_iff_eq, List.all_eq_true, Bool.or_eq_true] at h
  exact ⟨h.1.1, h.1.2, h.2⟩

private theorem startsName_of_isAsciiAlnum {c : Char} (h : isAsciiAlnum c = true) :
    startsName c = !isAsciiDigit c ∧ (startsName c || isDigit c) = true :=
  of_isAsciiAlnum (P := fun c => startsName c = !isAsciiDigit c ∧
    (startsName c || isDigit c) = true) (by decide +kernel) h

private theorem continuesName {c : Char} (h : isAsciiAlnum c = true ∨ c = '_') :
    (startsName c || isDigit c) = true := by
  rcases h with h | rfl
  · exact (startsName_of_isAsciiAlnum h).2
  · simp [startsName]

/-- Such a name is an identifier unless it starts with a digit. -/
theorem Worded.isIdentifier_iff (h : Worded name first) :
    isIdentifier name = true ↔ isAsciiDigit first = false := by
  cases hcs : name.toList with
  | nil =>
    have hfront := h.front
    rw [hcs] at hfront
    cases hfront
  | cons c rest =>
    have hfront := h.front
    have hchars := h.chars
    rw [hcs] at hfront hchars
    obtain rfl : c = first := Option.some.inj hfront
    have hrest : (rest.all fun d => startsName d || isDigit d) = true := by
      rw [List.all_eq_true]
      exact fun d hd => continuesName (hchars d (List.mem_cons_of_mem c hd))
    simp [isIdentifier, hcs, hrest, (startsName_of_isAsciiAlnum h.alnum).1]

theorem Worded.append (h : Worded name first) {more : String}
    (hm : ∀ c ∈ more.toList, isAsciiAlnum c = true ∨ c = '_') : Worded (name ++ more) first := by
  refine ⟨?_, h.alnum, ?_⟩
  · rw [String.toList_append, List.head?_append, h.front]
    rfl
  · rw [String.toList_append]
    exact List.forall_mem_append.mpr ⟨h.chars, hm⟩

theorem worded_title {s : String} (h : Casing.Spelled s.toList first) :
    Worded (Casing.title s) (toUpper first) := by
  obtain ⟨rest, hrest⟩ := h.exists_titleList
  rw [Casing.title]
  refine ⟨?_, isAsciiAlnum_toUpper h.alnum, ?_⟩
  · rw [String.toList_ofList, hrest]
    rfl
  · rw [String.toList_ofList]
    exact fun c hc => Or.inl (h.alnum_titleList c hc)

theorem worded_screaming {s : String} (h : Casing.Spelled s.toList first) :
    Worded (Casing.screaming s) (toUpper first) := by
  rw [Casing.screaming]
  refine ⟨?_, isAsciiAlnum_toUpper h.alnum, ?_⟩
  · rw [String.toList_ofList]
    exact h.head?_screaming
  · rw [String.toList_ofList]
    exact h.chars_screaming

end Worded

section Reserved

theorem declaredName_eq_self {name : String} (h : name ∉ reservedWords) :
    declaredName name = name := by
  simp [declaredName, h]

theorem Worded.notMem_reservedWords {name : String} {first : Char} (h : Worded name first)
    (hf : first.isLower = false) : name ∉ reservedWords := by
  have hsmall : ∀ word ∈ reservedWords, word.toList.head?.any Char.isLower = true := by
    decide +kernel
  intro hm
  have hlower := hsmall name hm
  rw [h.front, Option.any_some, hf] at hlower
  cases hlower

theorem notMem_reservedWords_of_front (front : List Char)
    (hf : ∀ word ∈ reservedWords, startsWith word.toList front = false) {name : String}
    (h : front <+: name.toList) : name ∉ reservedWords := by
  intro hm
  have hnone := hf name hm
  rw [startsWith, List.isPrefixOf_iff_prefix.mpr h] at hnone
  cases hnone

end Reserved

end LexiconCompiler.TypeScript
