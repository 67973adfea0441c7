import LexiconCompiler.Text.Basic
import LexiconCompiler.Text.Letter
import LexiconCompiler.Text.LetterCase
import LexiconCompiler.Text.Utf8

set_option autoImplicit false
set_option relaxedAutoImplicit false

/-!
Letters and digits of the ASCII range under the maps and classes that know every script, and as
bytes. What is said of one such character is checked for all of them.
-/

namespace LexiconCompiler.Text

theorem forall_ascii {P : Char → Prop} (h : ∀ n < 128, P (Char.ofNat n)) {c : Char}
    (hc : c.toNat < 128) : P c := by
  have hp := h c.toNat hc
  rwa [Char.ofNat_toNat] at hp

theorem toNat_lt_of_isAsciiAlnum {c : Char} (h : isAsciiAlnum c = true) : c.toNat < 128 := by
  simp only [isAsciiAlnum, isAsciiLetter, isAsciiDigit, Bool.or_eq_true, Bool.and_eq_true,
    decide_eq_true_eq, Char.le_def, UInt32.le_iff_toNat_le] at h
  change c.val.toNat < 128
  rcases h with (⟨_, h⟩ | ⟨_, h⟩) | ⟨_, h⟩
  · exact Nat.lt_of_le_of_lt h (by decide)
  · exact Nat.lt_of_le_of_lt h (by decide)
  · exact Nat.lt_of_le_of_lt h (by decide)

theorem of_isAsciiAlnum {P : Char → Prop}
    (h : ∀ n < 128, isAsciiAlnum (Char.ofNat n) = true → P (Char.ofNat n)) {c : Char}
    (hc : isAsciiAlnum c = true) : P c :=
  forall_ascii (P := fun c => isAsciiAlnum c = true → P c) h (toNat_lt_of_isAsciiAlnum hc) hc

theorem isAsciiAlnum_of_isAsciiLetter {c : Char} (h : isAsciiLetter c = true) :
    isAsciiAlnum c = true := by
  simp [isAsciiAlnum, h]

section Case

/-- How the case maps and the classes treat a letter or digit. -/
structure Cased (c : Char) : Prop where
  upper_alnum : isAsciiAlnum (toUpper c) = true
  lower_alnum : isAsciiAlnum (toLower c) = true
  upper_lower : toUpper (toLower c) = toUpper c
  upper_upper : toUpper (toUpper c) = toUpper c
  upper_isLower : (toUpper c).isLower = false
  upper_digit : isAsciiDigit (toUpper c) = isAsciiDigit c
  upper_letter : isAsciiLetter (toUpper c) = isAsciiLetter c
  digit : isAsciiDigit c = !isAsciiLetter c

theorem cased_of_isAsciiAlnum {c : Char} (h : isAsciiAlnum c = true) : Cased c := by
  have hall : ∀ n < 128, isAsciiAlnum (Char.ofNat n) = true →
      isAsciiAlnum (toUpper (Char.ofNat n)) = true ∧
      isAsciiAlnum (toLower (Char.ofNat n)) = true ∧
      toUpper (toLower (Char.ofNat n)) = toUpper (Char.ofNat n) ∧
      toUpper (toUpper (Char.ofNat n)) = toUpper (Char.ofNat n) ∧
      (toUpper (Char.ofNat n)).isLower = false ∧
      isAsciiDigit (toUpper (Char.ofNat n)) = isAsciiDigit (Char.ofNat n) ∧
      isAsciiLetter (toUpper (Char.ofNat n)) = isAsciiLetter (Char.ofNat n) ∧
      isAsciiDigit (Char.ofNat n) = !isAsciiLetter (Char.ofNat n) := by
    decide +kernel
  refine of_isAsciiAlnum (P := Cased) (fun n hn hchar => ?_) h
  obtain ⟨h₁, h₂, h₃, h₄, h₅, h₆, h₇, h₈⟩ := hall n hn hchar
  exact ⟨h₁, h₂, h₃, h₄, h₅, h₆, h₇, h₈⟩

variable {c : Char}

theorem isAsciiDigit_of_isAsciiLetter (h : isAsciiLetter c = true) : isAsciiDigit c = false := by
  rw [(cased_of_isAsciiAlnum (isAsciiAlnum_of_isAsciiLetter h)).digit, h]
  rfl

theorem isAsciiAlnum_toUpper (h : isAsciiAlnum c = true) : isAsciiAlnum (toUpper c) = true :=
  (cased_of_isAsciiAlnum h).upper_alnum

theorem isLower_toUpper (h : isAsciiAlnum c = true) : (toUpper c).isLower = false :=
  (cased_of_isAsciiAlnum h).upper_isLower

theorem isAsciiDigit_toUpper (h : isAsciiAlnum c = true) :
    isAsciiDigit (toUpper c) = isAsciiDigit c :=
  (cased_of_isAsciiAlnum h).upper_digit

theorem isAsciiLetter_toUpper (h : isAsciiLetter c = true) : isAsciiLetter (toUpper c) = true := by
  rw [(cased_of_isAsciiAlnum (isAsciiAlnum_of_isAsciiLetter h)).upper_letter, h]

end Case

section Bytes

variable {cs : List Char}

theorem utf8EncodeChar_ascii {c : Char} (h : c.toNat < 128) :
    String.utf8EncodeChar c = [UInt8.ofNat c.toNat] ∧
      Char.ofNat (UInt8.ofNat c.toNat).toNat = c :=
  forall_ascii (P := fun c => String.utf8EncodeChar c = [UInt8.ofNat c.toNat] ∧
    Char.ofNat (UInt8.ofNat c.toNat).toNat = c) (by decide +kernel) h

theorem utf8Bytes_ascii (h : ∀ c ∈ cs, c.toNat < 128) :
    utf8Bytes cs = cs.map fun c => UInt8.ofNat c.toNat := by
  induction cs with
  | nil => rfl
  | cons c rest ih =>
    rw [List.forall_mem_cons] at h
    rw [utf8Bytes, List.flatMap_cons, (utf8EncodeChar_ascii h.1).1, List.map_cons, ← ih h.2]
    rfl

private theorem decodeBytes_ascii {bytes : List UInt8} (h : ∀ b ∈ bytes, b.toNat < 128) :
    decodeBytes bytes = bytes.map fun b => Char.ofNat b.toNat := by
  induction bytes with
  | nil => rfl
  | cons b rest ih =>
    rw [List.forall_mem_cons] at h
    have hshape : leadShape b = some (1, b.toNat) := if_pos h.1
    have hvalid : b.toNat.isValidChar := Or.inl (Nat.lt_trans h.1 (by decide))
    have hone : decodeOne b rest = (Char.ofNat b.toNat, 1) := by
      simp [decodeOne, hshape, leastCode, hvalid]
    rw [decodeBytes, decodeFrom, hone, List.map_cons, ← ih h.2]
    rfl

theorem map_utf8Bytes_ascii (h : ∀ c ∈ cs, c.toNat < 128) :
    (utf8Bytes cs).map (fun b => Char.ofNat b.toNat) = cs := by
  have hback : ∀ c ∈ cs, Char.ofNat (UInt8.ofNat c.toNat).toNat = c := fun c hc =>
    (utf8EncodeChar_ascii (h c hc)).2
  rw [utf8Bytes_ascii h, List.map_map]
  exact (List.map_congr_left hback).trans (List.map_id cs)

theorem decodeBytes_of_subset (h : ∀ c ∈ cs, c.toNat < 128) {bytes : List UInt8}
    (hb : bytes ⊆ utf8Bytes cs) : decodeBytes bytes = bytes.map fun b => Char.ofNat b.toNat := by
  refine decodeBytes_ascii fun b hm => ?_
  have hmem := hb hm
  rw [utf8Bytes_ascii h] at hmem
  obtain ⟨c, hc, rfl⟩ := List.mem_map.mp hmem
  rw [UInt8.toNat_ofNat', Nat.mod_eq_of_lt (Nat.lt_trans (h c hc) (by decide))]
  exact h c hc

end Bytes

end LexiconCompiler.Text
