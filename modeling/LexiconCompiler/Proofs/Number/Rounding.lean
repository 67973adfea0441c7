import LexiconCompiler.Number.Binary64
import Mathlib.Algebra.Order.Field.Power
import Mathlib.Data.Nat.Log
import Mathlib.Data.Rat.Cast.Order
import Mathlib.Tactic.FieldSimp
import Mathlib.Tactic.Linarith
import Mathlib.Tactic.Positivity
import Mathlib.Tactic.Ring

set_option autoImplicit false
set_option relaxedAutoImplicit false

/-!
Rounding of fractions to double precision. A rounded fraction is in its one form, and a fraction
that has such a form already is not changed by rounding.
-/

namespace LexiconCompiler.Binary64

/-- The one form of a double-precision number: the mantissa has 53 bits, or fewer at the least
exponent. -/
def Canonical : Binary64 -> Prop
  | .finite _ mantissa exponent =>
    mantissa < 2 ^ 53 ∧ -1074 ≤ exponent ∧ exponent ≤ 971 ∧
      (2 ^ 52 ≤ mantissa ∨ exponent = -1074)
  | _ => True

theorem zero_canonical (negative : Bool) : (zero negative).Canonical := by
  simp [zero, leastExponent, Canonical]

section Scaling

variable (num : Nat) {den : Nat} (e : Int)

theorem scaleDown_pos (hden : 0 < den) : 0 < (scaleDown num den e).2 := by
  unfold scaleDown
  split
  · exact Nat.mul_pos hden (Nat.pow_pos (by decide))
  · exact hden

theorem scaleDown_ratio (hden : 0 < den) :
    ((scaleDown num den e).1 : ℚ) / (scaleDown num den e).2 = (num / den : ℚ) / 2 ^ e := by
  have hd : (den : ℚ) ≠ 0 := by exact_mod_cast hden.ne'
  unfold scaleDown
  split
  · rename_i he
    obtain ⟨k, rfl⟩ := Int.eq_ofNat_of_zero_le he
    simp only [Int.toNat_natCast, Nat.pow_eq, Nat.cast_mul, Nat.cast_pow, Nat.cast_ofNat,
      zpow_natCast]
    rw [div_mul_eq_div_div]
  · rename_i he
    obtain ⟨k, hk⟩ := Int.eq_ofNat_of_zero_le (show 0 ≤ -e by omega)
    obtain rfl : e = -(k : Int) := by omega
    simp only [neg_neg, Int.toNat_natCast, Nat.pow_eq, Nat.cast_mul, Nat.cast_pow, Nat.cast_ofNat,
      zpow_neg, zpow_natCast, div_inv_eq_mul]
    rw [mul_div_right_comm]

private theorem quotient_lt_iff (hden : 0 < den) (bound : Nat) :
    (scaleDown num den e).1 / (scaleDown num den e).2 < bound ↔
      (num / den : ℚ) / 2 ^ e < bound := by
  have hpos := scaleDown_pos num e hden
  have hq : (0 : ℚ) < (scaleDown num den e).2 := by exact_mod_cast hpos
  rw [← scaleDown_ratio num e hden, Nat.div_lt_iff_lt_mul hpos, div_lt_iff₀ hq]
  exact_mod_cast Iff.rfl

end Scaling

/-- The exponent that rounding chooses. -/
def chosenExponent (num den : Nat) : Int :=
  let low := max leastExponent ((Nat.log2 num : Int) - (Nat.log2 den : Int) - 53)
  if mantissaBound ≤ (scaleDown num den low).1 / (scaleDown num den low).2 then low + 1 else low

theorem ofRatio_eq (negative : Bool) {num den : Nat} (hnum : num ≠ 0) :
    ofRatio negative num den =
      assemble negative
        (roundHalfEven (scaleDown num den (chosenExponent num den)).1
          (scaleDown num den (chosenExponent num den)).2)
        (chosenExponent num den) := by
  unfold ofRatio chosenExponent
  simp [hnum]

private theorem ratio_bounds {num den : Nat} (hnum : num ≠ 0) (hden : 0 < den) :
    (2 : ℚ) ^ ((Nat.log2 num : Int) - (Nat.log2 den : Int) - 1) < num / den ∧
      (num / den : ℚ) < 2 ^ ((Nat.log2 num : Int) - (Nat.log2 den : Int) + 1) := by
  have hd : (0 : ℚ) < den := by exact_mod_cast hden
  have n₁ : (2 : ℚ) ^ (Nat.log2 num : Int) ≤ num := by
    exact_mod_cast Nat.log2_self_le hnum
  have n₂ : (num : ℚ) < 2 ^ ((Nat.log2 num : Int) + 1) := by
    exact_mod_cast Nat.lt_log2_self
  have d₁ : (2 : ℚ) ^ (Nat.log2 den : Int) ≤ den := by
    exact_mod_cast Nat.log2_self_le hden.ne'
  have d₂ : (den : ℚ) < 2 ^ ((Nat.log2 den : Int) + 1) := by
    exact_mod_cast Nat.lt_log2_self
  rw [lt_div_iff₀ hd, div_lt_iff₀ hd]
  constructor
  · calc (2 : ℚ) ^ ((Nat.log2 num : Int) - (Nat.log2 den : Int) - 1) * den
        < 2 ^ ((Nat.log2 num : Int) - (Nat.log2 den : Int) - 1) *
            2 ^ ((Nat.log2 den : Int) + 1) := by
          exact mul_lt_mul_of_pos_left d₂ (by positivity)
      _ = 2 ^ (Nat.log2 num : Int) := by
          rw [← zpow_add₀ (by norm_num)]
          congr 1
          omega
      _ ≤ num := n₁
  · calc (num : ℚ) < 2 ^ ((Nat.log2 num : Int) + 1) := n₂
      _ = 2 ^ ((Nat.log2 num : Int) - (Nat.log2 den : Int) + 1) * 2 ^ (Nat.log2 den : Int) := by
          rw [← zpow_add₀ (by norm_num)]
          congr 1
          omega
      _ ≤ 2 ^ ((Nat.log2 num : Int) - (Nat.log2 den : Int) + 1) * den := by
          exact mul_le_mul_of_nonneg_left d₁ (by positivity)

private theorem chosenExponent_cases (num : Nat) {den : Nat} (hden : 0 < den) :
    ∃ low : Int,
      (low = -1074 ∨ low = (Nat.log2 num : Int) - (Nat.log2 den : Int) - 53) ∧
      (Nat.log2 num : Int) - (Nat.log2 den : Int) - 53 ≤ low ∧ -1074 ≤ low ∧
      ((2 ^ 53 ≤ (num / den : ℚ) / 2 ^ low ∧ chosenExponent num den = low + 1) ∨
        ((num / den : ℚ) / 2 ^ low < 2 ^ 53 ∧ chosenExponent num den = low)) := by
  unfold chosenExponent
  simp only
  generalize hlow : max leastExponent ((Nat.log2 num : Int) - (Nat.log2 den : Int) - 53) = low
  have hiff := quotient_lt_iff num low hden mantissaBound
  have hbound : ((mantissaBound : Nat) : ℚ) = 2 ^ 53 := by norm_num [mantissaBound]
  rw [hbound] at hiff
  simp only [leastExponent] at hlow
  refine ⟨low, by omega, by omega, by omega, ?_⟩
  split
  · rename_i hq
    exact Or.inl ⟨not_lt.mp fun h => (hiff.mpr h).not_ge hq, rfl⟩
  · rename_i hq
    exact Or.inr ⟨hiff.mp (not_le.mp hq), rfl⟩

theorem chosenExponent_spec {num den : Nat} (hnum : num ≠ 0) (hden : 0 < den) :
    (num / den : ℚ) / 2 ^ chosenExponent num den < 2 ^ 53 ∧ -1074 ≤ chosenExponent num den ∧
      (2 ^ 52 ≤ (num / den : ℚ) / 2 ^ chosenExponent num den ∨ chosenExponent num den = -1074) := by
  obtain ⟨hlow, hhigh⟩ := ratio_bounds hnum hden
  obtain ⟨low, hcase, hge, hleast, hchoice⟩ := chosenExponent_cases num hden
  generalize (num / den : ℚ) = r at hlow hhigh hchoice ⊢
  generalize (Nat.log2 num : Int) - (Nat.log2 den : Int) = t at hlow hhigh hcase hge ⊢
  -- Both bounds of `r` in the form in which they are compared with a scaled exponent.
  have upper (e : Int) (he : t - 52 ≤ e) : r / 2 ^ e < 2 ^ 53 := by
    rw [div_lt_iff₀ (by positivity)]
    refine hhigh.trans_le ?_
    rw [← zpow_natCast, ← zpow_add₀ (by norm_num)]
    exact zpow_le_zpow_right₀ (by norm_num) (by push_cast; omega)
  have lower (e : Int) (he : e ≤ t - 53) : 2 ^ 52 ≤ r / 2 ^ e := by
    rw [le_div_iff₀ (by positivity)]
    refine le_trans ?_ hlow.le
    rw [← zpow_natCast, ← zpow_add₀ (by norm_num)]
    exact zpow_le_zpow_right₀ (by norm_num) (by push_cast; omega)
  rcases hchoice with ⟨hq, hchosen⟩ | ⟨hq, hchosen⟩
  · have hle : low ≤ t - 53 := by
      by_contra hgt
      exact (upper low (by omega)).not_ge hq
    rw [hchosen]
    refine ⟨upper _ (by omega), by omega, Or.inl ?_⟩
    rw [zpow_add_one₀ (by norm_num), ← div_div, le_div_iff₀ (by norm_num)]
    calc (2 : ℚ) ^ 52 * 2 = 2 ^ 53 := by norm_num
      _ ≤ r / 2 ^ low := hq
  · rw [hchosen]
    refine ⟨hq, hleast, ?_⟩
    rcases hcase with hcase | hcase
    · exact Or.inr hcase
    · exact Or.inl (lower _ hcase.le)

private theorem roundHalfEven_bounds (n d : Nat) :
    n / d ≤ roundHalfEven n d ∧ roundHalfEven n d ≤ n / d + 1 := by
  unfold roundHalfEven
  simp only
  split
  · omega
  split
  · omega
  split <;> omega

private theorem roundHalfEven_mul (m : Nat) {d : Nat} (hd : 0 < d) :
    roundHalfEven (m * d) d = m := by
  unfold roundHalfEven
  simp [Nat.mul_mod_left, Nat.mul_div_cancel _ hd, hd]

private theorem assemble_canonical (negative : Bool) {mantissa : Nat} {exponent : Int}
    (hm : mantissa ≤ 2 ^ 53) (he : -1074 ≤ exponent) (hf : 2 ^ 52 ≤ mantissa ∨ exponent = -1074) :
    (assemble negative mantissa exponent).Canonical := by
  unfold assemble
  by_cases hb : mantissa = mantissaBound
  · subst hb
    simp only [BEq.rfl, if_true]
    split
    · trivial
    · rename_i hg
      simp only [greatestExponent, mantissaBound] at hg ⊢
      refine ⟨by norm_num, by omega, by omega, Or.inl (by norm_num)⟩
  · have hne : (mantissa == mantissaBound) = false := by simpa using hb
    simp only [hne, Bool.false_eq_true, if_false]
    split
    · trivial
    · rename_i hg
      simp only [greatestExponent, mantissaBound] at hg hb
      exact ⟨by omega, he, by omega, hf⟩

theorem ofRatio_canonical (negative : Bool) (num : Nat) {den : Nat} (hden : 0 < den) :
    (ofRatio negative num den).Canonical := by
  by_cases hnum : num = 0
  · subst hnum
    exact zero_canonical negative
  rw [ofRatio_eq negative hnum]
  obtain ⟨hlt, hleast, hform⟩ := chosenExponent_spec hnum hden
  obtain ⟨hl, hu⟩ := roundHalfEven_bounds
    (scaleDown num den (chosenExponent num den)).1 (scaleDown num den (chosenExponent num den)).2
  have hq :=
    (quotient_lt_iff num (chosenExponent num den) hden (2 ^ 53)).mpr (by exact_mod_cast hlt)
  refine assemble_canonical negative (by omega) hleast ?_
  refine hform.imp_left fun h => ?_
  have hnot := mt (quotient_lt_iff num (chosenExponent num den) hden (2 ^ 52)).mp
    (by push_cast; exact not_lt.mpr h)
  omega

private theorem chosenExponent_exact {num den mantissa : Nat} {exponent : Int} (hnum : num ≠ 0)
    (hden : 0 < den) (hlt : mantissa < 2 ^ 53) (hleast : -1074 ≤ exponent)
    (hnormal : 2 ^ 52 ≤ mantissa ∨ exponent = -1074)
    (hvalue : (num / den : ℚ) = mantissa * 2 ^ exponent) :
    chosenExponent num den = exponent := by
  obtain ⟨hsmall, hge, hbig⟩ := chosenExponent_spec hnum hden
  generalize chosenExponent num den = e at hsmall hge hbig ⊢
  have hscaled : (num / den : ℚ) / 2 ^ e = mantissa * 2 ^ (exponent - e) := by
    rw [hvalue, zpow_sub₀ (by norm_num), mul_div_assoc]
  rw [hscaled] at hsmall hbig
  rcases lt_trichotomy e exponent with hlow | heq | hhigh
  · -- One exponent lower the mantissa would need another bit.
    have htwo : (2 : ℚ) ≤ 2 ^ (exponent - e) := by
      calc (2 : ℚ) = 2 ^ (1 : Int) := by norm_num
        _ ≤ 2 ^ (exponent - e) := zpow_le_zpow_right₀ (by norm_num) (by omega)
    have hhalf : (mantissa : ℚ) < 2 ^ 52 := by nlinarith
    have hnat : mantissa < 2 ^ 52 := by exact_mod_cast hhalf
    omega
  · exact heq
  · -- One exponent higher it would have a bit less, which only the least exponent allows.
    have htwo : (2 : ℚ) ^ (exponent - e) ≤ 1 / 2 := by
      calc (2 : ℚ) ^ (exponent - e) ≤ 2 ^ (-1 : Int) :=
            zpow_le_zpow_right₀ (by norm_num) (by omega)
        _ = 1 / 2 := by norm_num
    have hbound : (mantissa : ℚ) < 2 ^ 53 := by exact_mod_cast hlt
    rcases hbig with hbig | heq
    · nlinarith
    · omega

theorem ofRatio_exact (negative : Bool) {num den mantissa : Nat} {exponent : Int}
    (hden : 0 < den) (hm : 0 < mantissa)
    (hform : (finite negative mantissa exponent).Canonical)
    (hvalue : (num / den : ℚ) = mantissa * 2 ^ exponent) :
    ofRatio negative num den = finite negative mantissa exponent := by
  obtain ⟨hlt, hleast, hmost, hnormal⟩ := hform
  have hnum : num ≠ 0 := by
    rintro rfl
    have hm' : (0 : ℚ) < mantissa := by exact_mod_cast hm
    have hpos : (0 : ℚ) < mantissa * 2 ^ exponent := by positivity
    simp [← hvalue] at hpos
  have hchosen : chosenExponent num den = exponent :=
    chosenExponent_exact hnum hden hlt hleast hnormal hvalue
  have hexact : (scaleDown num den exponent).1 = mantissa * (scaleDown num den exponent).2 := by
    have hpos : (0 : ℚ) < (scaleDown num den exponent).2 := by
      exact_mod_cast scaleDown_pos num exponent hden
    have hratio := scaleDown_ratio num exponent hden
    rw [hvalue, mul_div_cancel_right₀ _ (by positivity), div_eq_iff hpos.ne'] at hratio
    exact_mod_cast hratio
  rw [ofRatio_eq negative hnum, hchosen, hexact, roundHalfEven_mul _ (scaleDown_pos num _ hden)]
  have hne : (mantissa == mantissaBound) = false := by
    simp only [mantissaBound, beq_eq_false_iff_ne]
    omega
  have hg : ¬ greatestExponent < exponent := by simp only [greatestExponent]; omega
  simp only [assemble, hne, Bool.false_eq_true, if_false, hg]

end LexiconCompiler.Binary64
