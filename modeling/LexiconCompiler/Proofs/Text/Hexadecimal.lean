import LexiconCompiler.Proofs.Number.Numeral
import LexiconCompiler.Text.JsonLayout
import LexiconCompiler.Text.Quoted

set_option autoImplicit false
set_option relaxedAutoImplicit false

/-!
Hexadecimal digits of escapes: as many as asked for, and read back as the number that they were
written for.
-/

namespace LexiconCompiler.Text

open LexiconCompiler.Number

/-- What readers ask of a digit. -/
structure IsHexDigit (c : Char) (value : Nat) : Prop where
  value_eq : digitValue? c = some value
  value_lt : value < 16
  json : JsonToken.isHexDigit c = true
  plain : c ≠ '"' ∧ c ≠ '\\' ∧ c ≠ '\n' ∧ c ≠ '\r' ∧ c ≠ '\x7b'

theorem isHexDigit_hexDigit {n : Nat} (h : n < 16) : IsHexDigit (hexDigit n) n := by
  have hall : ∀ n < 16, digitValue? (hexDigit n) = some n ∧
      JsonToken.isHexDigit (hexDigit n) = true ∧
      (hexDigit n ≠ '"' ∧ hexDigit n ≠ '\\' ∧ hexDigit n ≠ '\n' ∧ hexDigit n ≠ '\r' ∧
        hexDigit n ≠ '\x7b') := by
    decide +kernel
  obtain ⟨hvalue, hjson, hplain⟩ := hall n h
  exact ⟨hvalue, h, hjson, hplain⟩

@[simp] theorem length_hexDigits (n width : Nat) : (hexDigits n width).length = width := by
  induction width generalizing n with
  | zero => rfl
  | succ width ih => simp [hexDigits, ih]

theorem isHexDigit_of_mem {n width : Nat} {c : Char} (h : c ∈ hexDigits n width) :
    ∃ value, IsHexDigit c value := by
  induction width generalizing n with
  | zero => cases h
  | succ width ih =>
    rw [hexDigits, List.mem_append, List.mem_singleton] at h
    rcases h with h | rfl
    · exact ih h
    · exact ⟨n % 16, isHexDigit_hexDigit (Nat.mod_lt n (by decide))⟩

private theorem digitsValue?_hexDigits (n width : Nat) :
    digitsValue? 16 (hexDigits n width) = some (n % 16 ^ width) := by
  induction width generalizing n with
  | zero => simp [hexDigits, digitsValue?, Nat.mod_one]
  | succ width ih =>
    have hlast := isHexDigit_hexDigit (Nat.mod_lt n (show 0 < 16 by decide))
    have hsplit : n / 16 % 16 ^ width * 16 + n % 16 = n % 16 ^ (width + 1) := by
      rw [Nat.pow_succ, Nat.mul_comm (16 ^ width) 16, Nat.mod_mul]
      omega
    rw [hexDigits, digitsValue?_append_single, ih, Option.bind_some, hlast.value_eq,
      Option.bind_some, if_pos hlast.value_lt, hsplit]

theorem numeral?_hexDigits {n width : Nat} (hw : width ≠ 0) (h : n < 16 ^ width) :
    numeral? 16 (hexDigits n width) = some n := by
  have hne : (hexDigits n width).isEmpty = false := by
    have hlength := length_hexDigits n width
    cases hd : hexDigits n width with
    | nil => rw [hd] at hlength; exact absurd hlength.symm hw
    | cons c rest => rfl
  rw [numeral?, hne, if_neg (by decide), digitsValue?_hexDigits, Nat.mod_eq_of_lt h]

end LexiconCompiler.Text
