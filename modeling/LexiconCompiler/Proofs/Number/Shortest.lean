import LexiconCompiler.Number.Shortest
import LexiconCompiler.Proofs.Number.Rounding
import Mathlib.Algebra.Order.Floor.Semiring

set_option autoImplicit false
set_option relaxedAutoImplicit false

/-!
The shortest decimal of a number rounds to that number again. What is searched is the neighbourhood
of the number, all of which rounds to it; a grid of 17 digits is fine enough to have a point there.
-/

namespace LexiconCompiler.Binary64

section Rounding

private theorem roundHalfEven_eq {n d m : Nat} (hd : 0 < d) (hlow : 2 * (m * d) ≤ 2 * n + d)
    (hhigh : 2 * n ≤ 2 * (m * d) + d)
    (htie : 2 * (m * d) = 2 * n + d ∨ 2 * n = 2 * (m * d) + d → m % 2 = 0) :
    roundHalfEven n d = m := by
  have hdivision : d * (n / d) + n % d = n := Nat.div_add_mod n d
  have hrest : n % d < d := Nat.mod_lt n hd
  unfold roundHalfEven
  dsimp only
  generalize n / d = q at hdivision ⊢
  generalize n % d = r at hdivision hrest ⊢
  subst hdivision
  have hlower : q ≤ m := by
    by_contra hlt
    have hnext : d * (m + 1) ≤ d * q := Nat.mul_le_mul_left d (by omega)
    rw [Nat.mul_add, Nat.mul_comm d m] at hnext
    omega
  have hupper : m ≤ q + 1 := by
    by_contra hlt
    have hnext : d * (q + 2) ≤ d * m := Nat.mul_le_mul_left d (by omega)
    rw [Nat.mul_add, Nat.mul_comm d m] at hnext
    omega
  obtain rfl | rfl : m = q ∨ m = q + 1 := by omega
  · rw [Nat.mul_comm m d] at *
    split
    · rfl
    split
    · omega
    · have heven := htie (by omega)
      simp [heven]
  · rw [Nat.mul_comm (q + 1) d, Nat.mul_add] at *
    split
    · omega
    split
    · rfl
    · have heven := htie (by omega)
      have hodd : ¬ (q % 2 == 0) = true := by
        rw [beq_iff_eq]
        omega
      rw [if_neg hodd]

variable {n d : Nat}

private theorem roundHalfEven_of_near {m : Nat} (hd : 0 < d) (hlow : (m : ℚ) - 1 / 2 ≤ n / d)
    (hhigh : (n / d : ℚ) ≤ m + 1 / 2)
    (htie : (n / d : ℚ) = m - 1 / 2 ∨ (n / d : ℚ) = m + 1 / 2 → m % 2 = 0) :
    roundHalfEven n d = m := by
  have hpos : (0 : ℚ) < d := by exact_mod_cast hd
  rw [le_div_iff₀ hpos] at hlow
  rw [div_le_iff₀ hpos] at hhigh
  rw [div_eq_iff hpos.ne', div_eq_iff hpos.ne'] at htie
  refine roundHalfEven_eq hd ?_ ?_ fun hcase => htie ?_
  · have h : (2 * (m * d) : ℚ) ≤ 2 * n + d := by linarith
    exact_mod_cast h
  · have h : (2 * n : ℚ) ≤ 2 * (m * d) + d := by linarith
    exact_mod_cast h
  · rcases hcase with hcase | hcase
    · left
      have h : (2 * (m * d) : ℚ) = 2 * n + d := by exact_mod_cast hcase
      linarith
    · right
      have h : (2 * n : ℚ) = 2 * (m * d) + d := by exact_mod_cast hcase
      linarith

private theorem roundHalfEven_near (n : Nat) (hd : 0 < d) :
    (roundHalfEven n d : ℚ) - 1 / 2 ≤ n / d ∧ (n / d : ℚ) ≤ roundHalfEven n d + 1 / 2 := by
  have hpos : (0 : ℚ) < d := by exact_mod_cast hd
  have hdivision : d * (n / d) + n % d = n := Nat.div_add_mod n d
  rw [le_div_iff₀ hpos, div_le_iff₀ hpos]
  have hnat : 2 * (roundHalfEven n d * d) ≤ 2 * n + d ∧
      2 * n ≤ 2 * (roundHalfEven n d * d) + d := by
    have hrest : n % d < d := Nat.mod_lt n hd
    unfold roundHalfEven
    dsimp only
    generalize n / d = q at hdivision ⊢
    generalize n % d = r at hdivision hrest ⊢
    have hnext : (q + 1) * d = d * q + d := by ring
    split
    · rw [Nat.mul_comm q d]
      omega
    split
    · omega
    split
    · rw [Nat.mul_comm q d]
      omega
    · omega
  obtain ⟨hlow, hhigh⟩ := hnat
  constructor
  · have h : (2 * (roundHalfEven n d * d) : ℚ) ≤ 2 * n + d := by exact_mod_cast hlow
    linarith
  · have h : (2 * n : ℚ) ≤ 2 * (roundHalfEven n d * d) + d := by exact_mod_cast hhigh
    linarith

private theorem exponent_unique {r : ℚ} {e f : Int} (he : r / 2 ^ e < 2 ^ 53)
    (hf : r / 2 ^ f < 2 ^ 53) (hle : -1074 ≤ e) (hlf : -1074 ≤ f)
    (hbe : 2 ^ 52 ≤ r / 2 ^ e ∨ e = -1074) (hbf : 2 ^ 52 ≤ r / 2 ^ f ∨ f = -1074) :
    e = f := by
  have hstep : ∀ {a b : Int}, a < b → 2 ^ 52 ≤ r / 2 ^ b → 2 ^ 53 ≤ r / 2 ^ a := by
    intro a b hab hb
    have hscaled : r / 2 ^ a = r / 2 ^ b * 2 ^ (b - a) := by
      rw [zpow_sub₀ (by norm_num)]
      field_simp
    have htwo : (2 : ℚ) ≤ 2 ^ (b - a) := by
      calc (2 : ℚ) = 2 ^ (1 : Int) := by norm_num
        _ ≤ 2 ^ (b - a) := zpow_le_zpow_right₀ (by norm_num) (by omega)
    rw [hscaled]
    nlinarith
  rcases lt_trichotomy e f with hlt | heq | hgt
  · have hbig : 2 ^ 52 ≤ r / 2 ^ f := hbf.resolve_right (by omega)
    exact absurd he (hstep hlt hbig).not_gt
  · exact heq
  · have hbig : 2 ^ 52 ≤ r / 2 ^ e := hbe.resolve_right (by omega)
    exact absurd hf (hstep hgt hbig).not_gt

end Rounding

section Near

/-- How far the neighbourhood of a number reaches below it, in units of its last place. -/
def gapBelow (mantissa : Nat) (exponent : Int) : ℚ :=
  if 2 * mantissa = mantissaBound ∧ leastExponent < exponent then 1 / 4 else 1 / 2

/-- A fraction in the neighbourhood of a number. The ends belong to it if the mantissa is even. -/
structure Near (mantissa : Nat) (exponent : Int) (r : ℚ) : Prop where
  low : mantissa - gapBelow mantissa exponent ≤ r / 2 ^ exponent
  high : r / 2 ^ exponent ≤ mantissa + 1 / 2
  even : r / 2 ^ exponent = mantissa - gapBelow mantissa exponent ∨
    r / 2 ^ exponent = mantissa + 1 / 2 → mantissa % 2 = 0

variable {mantissa num den : Nat} {exponent : Int} {negative : Bool}

private theorem gapBelow_bounds (mantissa : Nat) (exponent : Int) :
    1 / 4 ≤ gapBelow mantissa exponent ∧ gapBelow mantissa exponent ≤ 1 / 2 := by
  unfold gapBelow
  split <;> norm_num

private theorem assemble_eq (hlt : mantissa < 2 ^ 53) (hmost : exponent ≤ 971) :
    assemble negative mantissa exponent = finite negative mantissa exponent := by
  have hne : (mantissa == mantissaBound) = false := by
    simp only [mantissaBound, beq_eq_false_iff_ne]
    omega
  have hg : ¬ greatestExponent < exponent := by
    simp only [greatestExponent]
    omega
  simp only [assemble, hne, Bool.false_eq_true, if_false, hg]

private theorem ofRatio_at {m : Nat} (hnum : num ≠ 0) (hden : 0 < den) {e : Int}
    (hchosen : chosenExponent num den = e) (hlow : (m : ℚ) - 1 / 2 ≤ (num / den : ℚ) / 2 ^ e)
    (hhigh : (num / den : ℚ) / 2 ^ e ≤ m + 1 / 2)
    (htie : (num / den : ℚ) / 2 ^ e = m - 1 / 2 ∨ (num / den : ℚ) / 2 ^ e = m + 1 / 2 →
      m % 2 = 0) :
    ofRatio negative num den = assemble negative m e := by
  rw [← scaleDown_ratio num e hden] at hlow hhigh htie
  rw [ofRatio_eq negative hnum, hchosen,
    roundHalfEven_of_near (scaleDown_pos num e hden) hlow hhigh htie]

private theorem Near.ofRatio_eq (hden : 0 < den) (hm : 0 < mantissa)
    (hform : (finite negative mantissa exponent).Canonical)
    (hnear : Near mantissa exponent (num / den)) :
    ofRatio negative num den = finite negative mantissa exponent := by
  obtain ⟨hlt, hleast, hmost, hnormal⟩ := hform
  obtain ⟨hlow, hhigh, heven⟩ := hnear
  obtain ⟨hgap, hgap'⟩ := gapBelow_bounds mantissa exponent
  have hmantissa : (1 : ℚ) ≤ mantissa := by exact_mod_cast hm
  have hbound : (mantissa : ℚ) + 1 ≤ 2 ^ 53 := by exact_mod_cast hlt
  have hnum : num ≠ 0 := by
    rintro rfl
    simp only [Nat.cast_zero, zero_div] at hlow
    linarith
  obtain ⟨hsmall, hchosenLeast, hbig⟩ := chosenExponent_spec hnum hden
  have hscaled : (num / den : ℚ) / 2 ^ exponent < 2 ^ 53 := by linarith
  by_cases hsize : 2 ^ 52 ≤ (num / den : ℚ) / 2 ^ exponent ∨ exponent = -1074
  · have hchosen : chosenExponent num den = exponent :=
      exponent_unique hsmall hscaled hchosenLeast hleast hbig hsize
    rw [ofRatio_at hnum hden hchosen (by linarith) hhigh ?_, assemble_eq hlt hmost]
    rintro (htie | htie)
    · -- a half below is an end of the neighbourhood, which then reaches no less far
      refine heven (Or.inl ?_)
      linarith
    · exact heven (Or.inr htie)
  · -- just below a power of two the last place is half as large
    rw [not_or, not_le] at hsize
    obtain ⟨hless, hne⟩ := hsize
    have hpower : mantissa = 2 ^ 52 := by
      have hge : 2 ^ 52 ≤ mantissa := hnormal.resolve_right hne
      have hle : (mantissa : ℚ) < 2 ^ 52 + 1 := by linarith
      have hle' : mantissa < 2 ^ 52 + 1 := by exact_mod_cast hle
      omega
    have hquarter : gapBelow mantissa exponent = 1 / 4 := by
      unfold gapBelow
      rw [if_pos]
      rw [hpower]
      simp only [mantissaBound, leastExponent]
      omega
    have hdouble : (num / den : ℚ) / 2 ^ (exponent - 1) = 2 * ((num / den : ℚ) / 2 ^ exponent) := by
      rw [zpow_sub₀ (by norm_num)]
      field_simp
    rw [hpower] at hlow hquarter
    rw [hquarter] at hlow
    push_cast at hlow
    have hchosen : chosenExponent num den = exponent - 1 := by
      refine exponent_unique hsmall ?_ hchosenLeast (by omega) hbig (Or.inl ?_)
      · rw [hdouble]
        linarith
      · rw [hdouble]
        linarith
    have hround : ofRatio negative num den = assemble negative (2 ^ 53) (exponent - 1) := by
      refine ofRatio_at hnum hden hchosen ?_ ?_ fun _ => by norm_num
      · rw [hdouble]
        push_cast
        linarith
      · rw [hdouble]
        push_cast
        linarith
    have hg : ¬ greatestExponent < exponent := by
      simp only [greatestExponent]
      omega
    rw [hround, hpower]
    simp [assemble, mantissaBound, hg]

end Near

def Decimal.value (d : Decimal) : ℚ := d.digits * 10 ^ d.exponent

section Search

variable {mantissa : Nat} {exponent : Int}

private theorem zpow_toNat {k : Int} (h : 0 ≤ k) (base : ℚ) : base ^ k.toNat = base ^ k := by
  obtain ⟨n, rfl⟩ := Int.eq_ofNat_of_zero_le h
  simp

private theorem gridCompare_eq (n bound : Nat) {den : Nat} (hden : 0 < den) (k : Int) :
    gridCompare n k bound den = compare ((n : ℚ) * 10 ^ k) (bound / den : ℚ) := by
  have hpos : (0 : ℚ) < den := by exact_mod_cast hden
  have hcompare : ∀ {a b : Nat} {x y c : ℚ}, 0 < c → (a : ℚ) = x * c → (b : ℚ) = y * c →
      compare a b = compare x y := by
    intro a b x y c hc ha hb
    rcases lt_trichotomy x y with hlt | rfl | hgt
    · have hnat : a < b := by
        have h : (a : ℚ) < b := by
          rw [ha, hb]
          exact mul_lt_mul_of_pos_right hlt hc
        exact_mod_cast h
      rw [compare_lt_iff_lt.mpr hnat, compare_lt_iff_lt.mpr hlt]
    · have hnat : a = b := by
        have h : (a : ℚ) = b := by rw [ha, hb]
        exact_mod_cast h
      rw [compare_eq_iff_eq.mpr hnat, compare_eq_iff_eq.mpr rfl]
    · have hnat : b < a := by
        have h : (b : ℚ) < a := by
          rw [ha, hb]
          exact mul_lt_mul_of_pos_right hgt hc
        exact_mod_cast h
      rw [compare_gt_iff_gt.mpr hnat, compare_gt_iff_gt.mpr hgt]
  unfold gridCompare
  split
  next hk =>
    refine hcompare hpos ?_ (div_mul_cancel₀ _ hpos.ne').symm
    rw [Nat.pow_eq]
    push_cast
    rw [zpow_toNat hk]
  next hk =>
    have hk' : 0 ≤ -k := by omega
    have hten : (0 : ℚ) < 10 ^ (-k) := by positivity
    refine hcompare (mul_pos hpos hten) ?_ ?_
    · rw [zpow_neg]
      push_cast
      field_simp
    · rw [Nat.pow_eq]
      push_cast
      rw [zpow_toNat hk']
      field_simp

private theorem neighbourhood_spec (exponent : Int) (hm : 0 < mantissa) :
    let nb := neighbourhood mantissa exponent
    0 < nb.den ∧ (nb.low / nb.den : ℚ) = (mantissa - gapBelow mantissa exponent) * 2 ^ exponent ∧
      (nb.mid / nb.den : ℚ) = mantissa * 2 ^ exponent ∧
      (nb.high / nb.den : ℚ) = (mantissa + 1 / 2) * 2 ^ exponent ∧
      nb.closed = (mantissa % 2 == 0) := by
  have hscale : ∀ a : Nat, ((scaleDown a 1 (2 - exponent)).1 : ℚ) /
      (scaleDown (4 * mantissa - (if 2 * mantissa == mantissaBound && leastExponent < exponent
        then 1 else 2)) 1 (2 - exponent)).2 = a / 4 * 2 ^ exponent := by
    intro a
    have hratio := scaleDown_ratio a (2 - exponent) Nat.one_pos
    have hden : ∀ b : Nat, (scaleDown b 1 (2 - exponent)).2 = (scaleDown a 1 (2 - exponent)).2 := by
      intro b
      unfold scaleDown
      split <;> rfl
    rw [hden, hratio, zpow_sub₀ (by norm_num)]
    norm_num
    field_simp
  refine ⟨scaleDown_pos _ _ Nat.one_pos, ?_, ?_, ?_, rfl⟩
  · refine (hscale _).trans ?_
    congr 1
    unfold gapBelow
    by_cases hpower : 2 * mantissa = mantissaBound ∧ leastExponent < exponent
    · have htest : (2 * mantissa == mantissaBound && decide (leastExponent < exponent)) = true := by
        simpa using hpower
      rw [if_pos hpower, if_pos htest, Nat.cast_sub (by omega)]
      push_cast
      ring
    · have htest :
          ¬ (2 * mantissa == mantissaBound && decide (leastExponent < exponent)) = true := by
        simpa using hpower
      rw [if_neg hpower, if_neg htest, Nat.cast_sub (by omega)]
      push_cast
      ring
  · refine (hscale _).trans ?_
    push_cast
    ring
  · refine (hscale _).trans ?_
    push_cast
    ring

private theorem near_of_holds (hm : 0 < mantissa) {n : Nat} {k : Int}
    (h : (neighbourhood mantissa exponent).holds n k = true) :
    Near mantissa exponent (n * 10 ^ k) := by
  obtain ⟨hden, hlow, -, hhigh, hclosed⟩ := neighbourhood_spec exponent hm
  have hunit : (0 : ℚ) < 2 ^ exponent := by positivity
  obtain ⟨hgap, hgap'⟩ := gapBelow_bounds mantissa exponent
  simp only [Neighbourhood.holds, gridCompare_eq _ _ hden, hlow, hhigh, hclosed, Bool.or_eq_true,
    Bool.and_eq_true, beq_iff_eq, compare_gt_iff_gt, compare_lt_iff_lt, compare_eq_iff_eq] at h
  rcases h with ⟨habove, hbelow⟩ | ⟨heven, hend⟩
  · have hlower := (lt_div_iff₀ hunit).mpr habove
    have hupper := (div_lt_iff₀ hunit).mpr hbelow
    refine ⟨hlower.le, hupper.le, ?_⟩
    rintro (hend | hend)
    · exact absurd hend hlower.ne'
    · exact absurd hend hupper.ne
  · rcases hend with hend | hend
    · rw [hend]
      refine ⟨?_, ?_, fun _ => heven⟩
      · rw [mul_div_cancel_right₀ _ hunit.ne']
      · rw [mul_div_cancel_right₀ _ hunit.ne']
        linarith
    · rw [hend]
      refine ⟨?_, ?_, fun _ => heven⟩
      · rw [mul_div_cancel_right₀ _ hunit.ne']
        linarith
      · rw [mul_div_cancel_right₀ _ hunit.ne']

private theorem holds_of_inside (hm : 0 < mantissa) {n : Nat} {k : Int}
    (hlow : (mantissa - gapBelow mantissa exponent) * 2 ^ exponent < n * 10 ^ k)
    (hhigh : (n * 10 ^ k : ℚ) < (mantissa + 1 / 2) * 2 ^ exponent) :
    (neighbourhood mantissa exponent).holds n k = true := by
  obtain ⟨hden, hlow', -, hhigh', -⟩ := neighbourhood_spec exponent hm
  simp only [Neighbourhood.holds, gridCompare_eq _ _ hden, hlow', hhigh', Bool.or_eq_true,
    Bool.and_eq_true, beq_iff_eq, compare_gt_iff_gt, compare_lt_iff_lt]
  exact Or.inl ⟨hlow, hhigh⟩

private theorem holds_of_pick? {nb : Neighbourhood} {k : Int} {n : Nat} (h : nb.pick? k = some n) :
    nb.holds n k = true := by
  unfold Neighbourhood.pick? at h
  dsimp only at h
  split at h
  next hnearest =>
    obtain rfl := Option.some.inj h
    exact hnearest
  split at h
  next hdown =>
    obtain rfl := Option.some.inj h
    exact hdown
  split at h
  next hup =>
    obtain rfl := Option.some.inj h
    exact hup
  · cases h

/-- If the finest grid has a point in a neighbourhood, the search finds one. -/
private theorem holds_search {nb : Neighbourhood} (fuel : Nat) {k : Int}
    (h : (nb.pick? (k - fuel)).isSome = true) :
    nb.holds (nb.search fuel k).digits (nb.search fuel k).exponent = true := by
  induction fuel generalizing k with
  | zero =>
    rw [Nat.cast_zero, sub_zero] at h
    obtain ⟨n, hn⟩ := Option.isSome_iff_exists.mp h
    rw [Neighbourhood.search, hn]
    exact holds_of_pick? hn
  | succ fuel ih =>
    rw [Neighbourhood.search]
    split
    next n hn => exact holds_of_pick? hn
    next =>
      refine ih ?_
      rw [sub_sub, add_comm 1 (fuel : Int)]
      exact_mod_cast h

private theorem isSome_pick? (hm : 0 < mantissa) (hlt : mantissa < 2 ^ 53) {k : Int}
    (hfine : (10 : ℚ) ^ k * 10 ^ 16 ≤ mantissa * 2 ^ exponent) :
    ((neighbourhood mantissa exponent).pick? k).isSome = true := by
  obtain ⟨hden, -, hmid, -, -⟩ := neighbourhood_spec exponent hm
  have hten : (0 : ℚ) < 10 ^ k := by positivity
  have hunit : (0 : ℚ) < 2 ^ exponent := by positivity
  have hgrid : 0 < ((neighbourhood mantissa exponent).onGrid k).2 ∧
      (((neighbourhood mantissa exponent).onGrid k).1 /
        ((neighbourhood mantissa exponent).onGrid k).2 : ℚ) = mantissa * 2 ^ exponent / 10 ^ k := by
    rw [← hmid]
    unfold Neighbourhood.onGrid
    split
    next hk =>
      refine ⟨Nat.mul_pos hden (Nat.pow_pos (by decide)), ?_⟩
      rw [Nat.pow_eq]
      push_cast
      rw [zpow_toNat hk, div_div]
    next hk =>
      refine ⟨hden, ?_⟩
      rw [Nat.pow_eq]
      push_cast
      rw [zpow_toNat (by omega), zpow_neg]
      field_simp
  obtain ⟨hgridPos, hgridRatio⟩ := hgrid
  have hnearest := roundHalfEven_near ((neighbourhood mantissa exponent).onGrid k).1 hgridPos
  rw [hgridRatio, le_div_iff₀ hten, div_le_iff₀ hten] at hnearest
  have hholds : (neighbourhood mantissa exponent).holds
      (roundHalfEven ((neighbourhood mantissa exponent).onGrid k).1
        ((neighbourhood mantissa exponent).onGrid k).2) k = true := by
    -- half the distance of two points of the grid against the least reach of the neighbourhood
    have hreach : (10 : ℚ) ^ k < 2 * gapBelow mantissa exponent * 2 ^ exponent := by
      have hbound : (mantissa : ℚ) < 2 ^ 53 := by exact_mod_cast hlt
      unfold gapBelow
      split
      next hpower =>
        have hhalf : (2 * mantissa : ℚ) = 2 ^ 53 := by
          have h : ((2 * mantissa : Nat) : ℚ) = (mantissaBound : Nat) := by rw [hpower.1]
          push_cast [mantissaBound] at h
          linarith
        nlinarith
      · nlinarith
    obtain ⟨-, hgap⟩ := gapBelow_bounds mantissa exponent
    apply holds_of_inside hm
    · nlinarith
    · nlinarith
  rw [Neighbourhood.pick?]
  dsimp only
  rw [if_pos hholds]
  rfl

end Search

section Digits

private theorem ten_pow_digitCount_le {n : Nat} (hn : n ≠ 0) : 10 ^ (digitCount n - 1) ≤ n := by
  by_cases hone : digitCount n - 1 = 0
  · rw [hone]
    exact Nat.one_le_iff_ne_zero.mpr hn
  · by_contra hlt
    have hle := (Nat.length_toDigits_le_iff (by decide) (Nat.pos_of_ne_zero hone)).mpr
      (not_le.mp hlt)
    have hpos : 0 < digitCount n := Nat.length_toDigits_pos
    rw [digitCount] at hle hpos hone
    omega

private theorem lt_ten_pow_digitCount (n : Nat) : n < 10 ^ digitCount n :=
  (Nat.length_toDigits_le_iff (by decide) Nat.length_toDigits_pos).mp le_rfl

private theorem zpow_leadingExponent_le {num den : Nat} (hnum : 0 < num) (hden : 0 < den) :
    (10 : ℚ) ^ leadingExponent num den ≤ num / den := by
  have hpos : (0 : ℚ) < den := by exact_mod_cast hden
  rw [le_div_iff₀ hpos]
  unfold leadingExponent
  split
  next hle =>
    have hcount : 0 < digitCount (num / den) := Nat.length_toDigits_pos
    have hquotient : num / den ≠ 0 := (Nat.div_pos hle hden).ne'
    have hnat : 10 ^ (digitCount (num / den) - 1) * den ≤ num :=
      (Nat.mul_le_mul_right den (ten_pow_digitCount_le hquotient)).trans
        (Nat.div_mul_le_self num den)
    have hexponent :
        (digitCount (num / den) : Int) - 1 = ((digitCount (num / den) - 1 : Nat) : Int) := by
      omega
    rw [hexponent, zpow_natCast]
    exact_mod_cast hnat
  · have hcount : 0 < digitCount (den / num) := Nat.length_toDigits_pos
    dsimp only
    split
    next hle =>
      have hexponent : 1 - (digitCount (den / num) : Int) =
          -((digitCount (den / num) - 1 : Nat) : Int) := by
        omega
      rw [hexponent, zpow_neg, zpow_natCast, inv_mul_le_iff₀ (by positivity), mul_comm]
      rw [Nat.pow_eq] at hle
      exact_mod_cast hle
    · have hlt : den < num * 10 ^ digitCount (den / num) := by
        have hquotient : den < num * (den / num + 1) := Nat.lt_mul_div_succ den hnum
        exact hquotient.trans_le (Nat.mul_le_mul_left num (lt_ten_pow_digitCount _))
      rw [zpow_neg, zpow_natCast, inv_mul_le_iff₀ (by positivity), mul_comm]
      exact_mod_cast hlt.le

private theorem value_strip (fuel : Nat) (d : Decimal) : (d.strip fuel).value = d.value := by
  induction fuel generalizing d with
  | zero => rfl
  | succ fuel ih =>
    rw [Decimal.strip]
    split
    next hzero =>
      have hdigits : d.digits = d.digits / 10 * 10 := by
        rw [Bool.and_eq_true, beq_iff_eq] at hzero
        omega
      rw [ih, Decimal.value, Decimal.value, zpow_add_one₀ (by norm_num)]
      conv_rhs => rw [hdigits]
      push_cast
      ring
    · rfl

end Digits

section Shortest

variable {mantissa : Nat} {exponent : Int}

/-- The shortest decimal of a number is near it. -/
private theorem near_shortest (exponent : Int) (hm : 0 < mantissa) (hlt : mantissa < 2 ^ 53) :
    Near mantissa exponent (shortest mantissa exponent).value := by
  obtain ⟨hden, -, hmid, -, -⟩ := neighbourhood_spec exponent hm
  have hnum : 0 < (neighbourhood mantissa exponent).mid := by
    rw [Nat.pos_iff_ne_zero]
    intro hzero
    have hvalue : (0 : ℚ) < mantissa * 2 ^ exponent := by positivity
    rw [← hmid, hzero, Nat.cast_zero, zero_div] at hvalue
    exact lt_irrefl _ hvalue
  have hlead := zpow_leadingExponent_le hnum hden
  rw [hmid] at hlead
  have hne : (mantissa == 0) = false := by simpa using hm.ne'
  rw [shortest, hne, if_neg Bool.false_ne_true, value_strip]
  apply near_of_holds hm
  refine holds_search 16 (isSome_pick? hm hlt ?_)
  refine le_trans (le_of_eq ?_) hlead
  rw [← zpow_natCast (10 : ℚ) 16, ← zpow_add₀ (by norm_num)]
  norm_num

/-- Shortest digits round-trip: every number that the shortest decimal of a number denotes rounds
to that number. -/
theorem ofRatio_shortest {negative : Bool} (hform : (finite negative mantissa exponent).Canonical)
    {num den : Nat} (hden : 0 < den)
    (hvalue : (num / den : ℚ) = (shortest mantissa exponent).value) :
    ofRatio negative num den = finite negative mantissa exponent := by
  by_cases hm : mantissa = 0
  · subst hm
    obtain ⟨-, -, -, hnormal⟩ := hform
    obtain rfl : exponent = -1074 := by omega
    have hpos : (den : ℚ) ≠ 0 := by exact_mod_cast hden.ne'
    have hnum : num = 0 := by
      have hzero : (shortest 0 (-1074)).value = 0 := by simp [shortest, Decimal.value]
      rw [hzero, div_eq_zero_iff] at hvalue
      exact_mod_cast hvalue.resolve_right hpos
    subst hnum
    rfl
  · have hm' := Nat.pos_of_ne_zero hm
    have hnear := near_shortest exponent hm' hform.1
    rw [← hvalue] at hnear
    exact hnear.ofRatio_eq hden hm' hform

end Shortest

end LexiconCompiler.Binary64
