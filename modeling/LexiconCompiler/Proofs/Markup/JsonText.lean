import LexiconCompiler.Markup.Json
import LexiconCompiler.Proofs.Outcome
import LexiconCompiler.Proofs.Text.Hexadecimal
import LexiconCompiler.Proofs.Text.JsonGrammar
import LexiconCompiler.Proofs.Text.Pieces

set_option autoImplicit false
set_option relaxedAutoImplicit false

/-!
The JSON form of a tree is a JSON text, nested as deep as the tree: strings are escaped, numbers
have their digits and marks in order, and brackets and separators stand where the tree has them.
-/

namespace LexiconCompiler

open LexiconCompiler.Text

namespace Text

section Strings

private theorem StringBody.append {cs more : List Char} (h : StringBody cs) (k : StringBody more) :
    StringBody (cs ++ more) := by
  induction h with
  | nil => exact k
  | plain hc hquote hslash _ ih => exact .plain hc hquote hslash ih
  | escape hc _ ih => exact .escape hc ih
  | code hc _ ih => exact .code hc ih

private theorem stringBody_code (n : Nat) : StringBody ('\\' :: 'u' :: hexDigits n 4) := by
  have hlength := length_hexDigits n 4
  have hhex : (hexDigits n 4).all JsonToken.isHexDigit = true := by
    rw [List.all_eq_true]
    intro c hc
    obtain ⟨_, hdigit⟩ := isHexDigit_of_mem hc
    exact hdigit.json
  obtain ⟨a, b, c, d, hdigits⟩ := List.length_eq_four.mp hlength
  rw [hdigits] at hhex ⊢
  exact .code hhex .nil

private theorem stringBody_escapeJsonChar (c : Char) : StringBody (escapeJsonChar c) := by
  have hescape {d : Char} (hd : JsonToken.isEscape d = true) : StringBody ['\\', d] :=
    .escape hd .nil
  unfold escapeJsonChar
  split
  · rename_i hc
    rw [Bool.or_eq_true, beq_iff_eq, beq_iff_eq] at hc
    rcases hc with rfl | rfl <;> exact hescape rfl
  rename_i hmark
  rw [Bool.or_eq_true, beq_iff_eq, beq_iff_eq, not_or] at hmark
  split
  · exact hescape rfl
  split
  · exact hescape rfl
  split
  · exact hescape rfl
  split
  · exact hescape rfl
  split
  · exact hescape rfl
  split
  · exact stringBody_code c.toNat
  · rename_i hc
    have hlow : ¬ c.toNat < 32 := fun hlt => hc (by simp [hlt])
    have hplain : ' ' ≤ c := by
      rw [Char.le_def, UInt32.le_iff_toNat_le]
      exact Nat.le_of_not_lt hlow
    exact .plain hplain hmark.1 hmark.2 .nil

theorem jsonQuoted_jsonString (s : String) : JsonQuoted (jsonString s).toList := by
  have hbody : StringBody (s.toList.flatMap escapeJsonChar) := by
    induction s.toList with
    | nil => exact .nil
    | cons c cs ih =>
      rw [List.flatMap_cons]
      exact (stringBody_escapeJsonChar c).append ih
  rw [jsonString, String.toList_ofList]
  exact .quoted hbody

end Strings

section Numbers

open LexiconCompiler.Number

theorem isDigits_digits (n : Nat) : IsDigits (digits n) := by
  obtain ⟨c, rest, hd, _⟩ := exists_digits_eq_cons n
  exact ⟨by simp [hd], fun c hc => isAsciiDigit_of_mem hc⟩

theorem wholePart_digits (n : Nat) : WholePart (digits n) := by
  rcases digits_cases n with ⟨_, hd⟩ | ⟨c, rest, hd, _, hne⟩
  · rw [hd]
    exact .zero
  · exact .digits (isDigits_digits n) (by simp [hd, hne])

private theorem jsonMagnitude_of_fraction {cs more : List Char} (h : WholePart cs)
    (k : FractionPart more) : JsonMagnitude (cs ++ more) := by
  rw [← List.append_nil (cs ++ more)]
  exact .parts h k .none

theorem jsonMagnitude_of_whole {cs : List Char} (h : WholePart cs) : JsonMagnitude cs := by
  rw [← List.append_nil cs]
  exact jsonMagnitude_of_fraction h .none

theorem jsonWord_toString (i : Int) : JsonWord (toString i).toList := by
  cases i with
  | ofNat n =>
    have htext : toString (Int.ofNat n) = n.repr := rfl
    rw [htext, Nat.toList_repr]
    exact .positive (jsonMagnitude_of_whole (wholePart_digits n))
  | negSucc n =>
    have htext : toString (Int.negSucc n) = "-" ++ (n + 1).repr := rfl
    rw [htext, String.toList_append, Nat.toList_repr]
    exact .negative (jsonMagnitude_of_whole (wholePart_digits (n + 1)))

section Layout

open Binary64

theorem IsDigits.zeros_append {ds : List Char} (h : IsDigits ds) (count : Nat) :
    IsDigits (List.replicate count '0' ++ ds) := by
  refine ⟨fun hnil => h.1 (List.append_eq_nil_iff.mp hnil).2, fun c hc => ?_⟩
  rcases List.mem_append.mp hc with hzero | hc
  · rw [List.eq_of_mem_replicate hzero]
    rfl
  · exact h.2 c hc

theorem pointed_parts {ds : List Char} (h : IsDigits ds) (hz : ds.head? ≠ some '0') {count : Nat}
    (hc : 0 < count) :
    ∃ whole fraction, pointed ds count = whole ++ fraction ∧ WholePart whole ∧
      FractionPart fraction ∧
      whole ++ fraction.tail = ds ++ List.replicate (count - ds.length) '0' ∧
      fraction.tail.length = ds.length - count := by
  obtain ⟨d, tail, rfl⟩ := List.exists_cons_of_ne_nil h.1
  obtain ⟨k, rfl⟩ : ∃ k, count = k + 1 := ⟨count - 1, by omega⟩
  unfold pointed
  split
  next hshort =>
    refine ⟨_, [], (List.append_nil _).symm, .digits ⟨nofun, fun c hmem => ?_⟩ hz, .none,
      List.append_nil _, (Nat.sub_eq_zero_of_le hshort).symm⟩
    rcases List.mem_append.mp hmem with hmem | hzero
    · exact h.2 c hmem
    · rw [List.eq_of_mem_replicate hzero]
      rfl
  next hlong =>
    have hnone : k + 1 - (d :: tail).length = 0 := by omega
    refine ⟨_, _, rfl, .digits ⟨nofun, fun c hmem => ?_⟩ hz, .digits ⟨?_, fun c hmem => ?_⟩, ?_,
      List.length_drop⟩
    · exact h.2 c (List.mem_of_mem_take hmem)
    · rw [ne_eq, List.drop_eq_nil_iff]
      exact hlong
    · exact h.2 c (List.mem_of_mem_drop hmem)
    · rw [hnone, List.replicate_zero, List.append_nil, List.tail_cons, List.take_append_drop]

theorem exponentPart_padded (negative : Prop) [Decidable negative] (width n : Nat) :
    ExponentPart ('e' :: (if negative then '-' else '+') :: padded width n) := by
  have hdigits : IsDigits (padded width n) := (isDigits_digits n).zeros_append _
  have hpart {sign : Char} (hs : sign = '+' ∨ sign = '-') :
      ExponentPart ('e' :: ([sign] ++ padded width n)) := by
    refine .digits (Or.inl rfl) (Or.inr ?_) hdigits
    rcases hs with rfl | rfl <;> simp
  split
  · exact hpart (Or.inr rfl)
  · exact hpart (Or.inl rfl)

theorem jsonMagnitude_layOut (layout : Layout) (d : Decimal) :
    JsonMagnitude (d.layOut layout) := by
  simp only [Decimal.layOut]
  split
  · exact jsonMagnitude_of_whole .zero
  rename_i hd
  have hdigits := isDigits_digits d.digits
  have hlead : (digits d.digits).head? ≠ some '0' := by
    rcases digits_cases d.digits with ⟨hzero, _⟩ | ⟨c, rest, hcons, _, hne⟩
    · exact absurd (beq_iff_eq.mpr hzero) hd
    · simp [hcons, hne]
  split
  · obtain ⟨whole, fraction, hparts, hwhole, hfraction, -⟩ :=
      pointed_parts hdigits hlead Nat.one_pos
    rw [hparts]
    exact .parts hwhole hfraction (exponentPart_padded _ _ _)
  split
  · exact jsonMagnitude_of_fraction .zero (.digits (hdigits.zeros_append _))
  · obtain ⟨whole, fraction, hparts, hwhole, hfraction, -⟩ :=
      pointed_parts hdigits hlead (Nat.succ_pos _)
    rw [hparts]
    exact jsonMagnitude_of_fraction hwhole hfraction

theorem jsonWord_format (layout : Layout) (negative : Bool) (mantissa : Nat) (exponent : Int) :
    JsonWord ((finite negative mantissa exponent).format layout).toList := by
  have hmagnitude := jsonMagnitude_layOut layout (shortest mantissa exponent)
  rw [format, String.toList_ofList]
  cases negative with
  | true => exact .negative hmagnitude
  | false => exact .positive hmagnitude

end Layout

end Numbers

end Text

namespace Markup

private theorem Scalar.jsonText {value : Scalar} {text : String} (h : value.toJson = .ok text) :
    JsonText .value 0 text.toList := by
  unfold Scalar.toJson at h
  split at h
  · obtain rfl := Except.ok.inj h
    exact .word .null
  · rename_i value
    obtain rfl := Except.ok.inj h
    cases value with
    | true => exact .word .true
    | false => exact .word .false
  · obtain rfl := Except.ok.inj h
    exact .word (jsonWord_toString _)
  · obtain rfl := Except.ok.inj h
    exact .word (jsonWord_format _ _ _ _)
  · cases h
  · obtain rfl := Except.ok.inj h
    exact .string (jsonQuoted_jsonString _)
  · split at h
    · obtain rfl := Except.ok.inj h
      exact .string (jsonQuoted_jsonString _)
    · cases h

mutual

/-- How deep the sequences and mappings of a tree are nested. -/
def Node.nesting : Node -> Nat
  | .scalar _ _ => 0
  | .sequence items => itemsNesting items + 1
  | .mapping entries => entriesNesting entries + 1
  | .alias _ (some target) => target.nesting
  | .alias _ none => 0

def itemsNesting : List Node -> Nat
  | [] => 0
  | node :: rest => max node.nesting (itemsNesting rest)

def entriesNesting : List (Key × Node) -> Nat
  | [] => 0
  | (_, node) :: rest => max node.nesting (entriesNesting rest)

end

section Trees

-- Items and entries come with commas between them, so the last one stands alone.
mutual

theorem Node.jsonText : (node : Node) → {text : String} → node.toJson = .ok text →
    JsonText .value node.nesting text.toList
  | .scalar tag text, json, h => by
    rw [Node.toJson, scalarJson] at h
    split at h
    · rw [Node.nesting]
      exact Scalar.jsonText h
    · cases h
  | .sequence items, text, h => by
    simp only [Node.toJson, Outcome.bind_eq_ok, Outcome.pure_eq_ok] at h
    obtain ⟨parts, hparts, rfl⟩ := h
    rw [Node.nesting]
    rcases itemsJson_text items hparts with ⟨rfl, rfl⟩ | ⟨_, hitems⟩
    · exact .emptyArray
    · simpa using JsonText.array hitems
  | .mapping entries, text, h => by
    simp only [Node.toJson, Outcome.bind_eq_ok, Outcome.pure_eq_ok] at h
    obtain ⟨parts, hparts, rfl⟩ := h
    rw [Node.nesting]
    rcases entriesJson_text entries hparts with ⟨rfl, rfl⟩ | ⟨_, hentries⟩
    · exact .emptyObject
    · simpa using JsonText.object hentries
  | .alias _ (some target), text, h => by
    rw [Node.toJson] at h
    rw [Node.nesting]
    exact target.jsonText h
  | .alias _ none, _, h => by
    rw [Node.toJson] at h
    cases h

private theorem itemsJson_text : (items : List Node) → {parts : List String} →
    itemsJson items = .ok parts → (items = [] ∧ parts = []) ∨
      (parts ≠ [] ∧ JsonText .items (itemsNesting items) (joinWith "," parts).toList)
  | [], parts, h => by
    rw [itemsJson] at h
    exact Or.inl ⟨rfl, (Except.ok.inj h).symm⟩
  | node :: rest, parts, h => by
    simp only [itemsJson, Outcome.bind_eq_ok, Outcome.pure_eq_ok] at h
    obtain ⟨part, hpart, others, hothers, rfl⟩ := h
    have hnode := node.jsonText hpart
    right
    rw [itemsNesting]
    rcases itemsJson_text rest hothers with ⟨rfl, rfl⟩ | ⟨hne, hrest⟩
    · rw [itemsNesting, Nat.max_zero]
      exact ⟨List.cons_ne_nil _ _, .item hnode⟩
    · refine ⟨List.cons_ne_nil _ _, ?_⟩
      rw [joinWith_cons _ _ hne]
      simpa using JsonText.items hnode hrest

private theorem entriesJson_text : (entries : List (Key × Node)) → {parts : List String} →
    entriesJson entries = .ok parts → (entries = [] ∧ parts = []) ∨
      (parts ≠ [] ∧ JsonText .members (entriesNesting entries) (joinWith "," parts).toList)
  | [], parts, h => by
    rw [entriesJson] at h
    exact Or.inl ⟨rfl, (Except.ok.inj h).symm⟩
  | (key, node) :: rest, parts, h => by
    simp only [entriesJson, Outcome.bind_eq_ok, Outcome.pure_eq_ok] at h
    obtain ⟨part, hpart, others, hothers, rfl⟩ := h
    have hnode := node.jsonText hpart
    have hkey := jsonQuoted_jsonString key.text
    right
    rw [entriesNesting]
    rcases entriesJson_text rest hothers with ⟨rfl, rfl⟩ | ⟨hne, hrest⟩
    · rw [entriesNesting, Nat.max_zero]
      refine ⟨List.cons_ne_nil _ _, ?_⟩
      simpa [joinWith] using JsonText.member hkey hnode
    · refine ⟨List.cons_ne_nil _ _, ?_⟩
      rw [joinWith_cons _ _ hne]
      simpa using JsonText.members hkey hnode hrest

end

end Trees

end Markup

end LexiconCompiler
