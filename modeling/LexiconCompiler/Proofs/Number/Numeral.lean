import LexiconCompiler.Markup.Scalar
import LexiconCompiler.Proofs.Number.Rounding
import Mathlib.Data.Nat.Digits.Defs

set_option autoImplicit false
set_option relaxedAutoImplicit false

/-!
Numbers as texts. Every 64-bit integer has a decimal numeral, and every double-precision number an
exact text, from which it is read back; whatever else is read as a number is in its one form.
-/

namespace LexiconCompiler

open LexiconCompiler.Markup LexiconCompiler.Text

def IsWord (i : Int) : Prop := -2 ^ 63 ≤ i ∧ i < 2 ^ 63

theorem isWord_iff_fitsSigned (i : Int) : IsWord i ↔ Number.fitsSigned i = true := by
  simp only [IsWord, Number.fitsSigned, Bool.and_eq_true, decide_eq_true_eq]
  norm_num [Number.signedBound]

namespace Number

abbrev digits (n : Nat) : List Char := Nat.toDigits 10 n

def numeral (i : Int) : List Char := if i < 0 then '-' :: digits i.natAbs else digits i.natAbs

private theorem isDigit_eq (c : Char) : c.isDigit = isAsciiDigit c := by
  simp [Char.isDigit, isAsciiDigit, Char.le_def]

theorem isAsciiDigit_of_mem {n : Nat} {c : Char} (h : c ∈ digits n) :
    isAsciiDigit c = true := by
  rw [← isDigit_eq]
  exact Nat.isDigit_of_mem_toDigits (by decide) (by decide) h

private theorem digitValue?_of_isAsciiDigit {c : Char} (h : isAsciiDigit c = true) :
    digitValue? c = some (c.toNat - '0'.toNat) ∧ c.toNat - '0'.toNat < 10 := by
  have hd : '0' ≤ c ∧ c ≤ '9' := by simpa [isAsciiDigit] using h
  refine ⟨by simp [digitValue?, hd], ?_⟩
  have h9 : c.toNat ≤ '9'.toNat := hd.2
  simp only [Char.reduceToNat] at h9 ⊢
  omega

theorem digitsValue?_append_single (base : Nat) (cs : List Char) (c : Char) :
    digitsValue? base (cs ++ [c]) =
      (digitsValue? base cs).bind fun n =>
        (digitValue? c).bind fun d => if d < base then some (n * base + d) else none := by
  simp only [digitsValue?, List.foldl_append, List.foldl_cons, List.foldl_nil]
  generalize List.foldl _ (some 0) cs = acc
  cases acc with
  | none => rfl
  | some n => cases digitValue? c <;> rfl

private theorem digitsValue?_of_digits {cs : List Char} (h : ∀ c ∈ cs, isAsciiDigit c = true) :
    digitsValue? 10 cs = some (Nat.ofDigitChars 10 cs 0) := by
  induction cs using List.reverseRecOn with
  | nil => rfl
  | append_singleton cs c ih =>
    obtain ⟨hv, hlt⟩ := digitValue?_of_isAsciiDigit (h c (by simp))
    rw [digitsValue?_append_single, ih fun d hd => h d (List.mem_append_left _ hd), hv]
    simp only [Option.bind_some, hlt, if_true]
    rw [Nat.ofDigitChars_append, Nat.ofDigitChars_cons, Nat.ofDigitChars_nil, Nat.mul_comm]

theorem numeral?_digits (n : Nat) : numeral? 10 (digits n) = some n := by
  have hne : (digits n).isEmpty = false := by simp [digits, Nat.toDigits_ne_nil]
  simp only [numeral?, hne, Bool.false_eq_true, if_false]
  rw [digitsValue?_of_digits fun c hc => isAsciiDigit_of_mem hc, Nat.ofDigitChars_ten_toDigits]

private theorem numeral?_eq_none {base : Nat} {cs : List Char} {c : Char} (hc : c ∈ cs)
    (h : ∀ d, digitValue? c = some d → base ≤ d) : numeral? base cs = none := by
  have hnone : digitsValue? base cs = none := by
    induction cs using List.reverseRecOn with
    | nil => simp at hc
    | append_singleton cs last ih =>
      rw [digitsValue?_append_single]
      rcases List.mem_append.mp hc with hc | hc
      · rw [ih hc, Option.bind_none]
      · obtain rfl := List.mem_singleton.mp hc
        cases hd : digitValue? c with
        | none => simp
        | some d => simp [not_lt.mpr (h d hd)]
  simp [numeral?, hnone]

theorem digits_cases (n : Nat) :
    (n = 0 ∧ digits n = ['0']) ∨
      ∃ c rest, digits n = c :: rest ∧ isAsciiDigit c = true ∧ c ≠ '0' := by
  induction n using Nat.strong_induction_on with
  | _ n ih =>
    by_cases hz : n = 0
    · subst hz
      exact Or.inl ⟨rfl, Nat.toDigits_zero 10⟩
    by_cases hlt : n < 10
    · have hd : digits n = [n.digitChar] := Nat.toDigits_of_lt_base hlt
      refine Or.inr ⟨n.digitChar, [], hd, isAsciiDigit_of_mem (by rw [hd]; simp), ?_⟩
      intro h0
      have hv := Nat.toNat_digitChar_sub_48_of_lt_ten hlt
      rw [h0] at hv
      exact hz hv.symm
    · have hd : digits n = digits (n / 10) ++ [(n % 10).digitChar] :=
        Nat.toDigits_of_base_le (by decide) (by omega)
      rcases ih (n / 10) (by omega) with ⟨h0, _⟩ | ⟨c, rest, hc, hdc, hne⟩
      · omega
      · exact Or.inr ⟨c, rest ++ [(n % 10).digitChar], by rw [hd, hc]; rfl, hdc, hne⟩

theorem exists_digits_eq_cons (n : Nat) :
    ∃ c rest, digits n = c :: rest ∧ isAsciiDigit c = true := by
  rcases digits_cases n with ⟨_, hd⟩ | ⟨c, rest, hd, hc, _⟩
  · exact ⟨'0', [], hd, by decide⟩
  · exact ⟨c, rest, hd, hc⟩

theorem exists_numeral_eq_cons (i : Int) : ∃ c rest, numeral i = c :: rest := by
  obtain ⟨c, rest, hd, _⟩ := exists_digits_eq_cons i.natAbs
  unfold numeral
  split
  · exact ⟨_, _, rfl⟩
  · exact ⟨c, rest, hd⟩

private theorem takeSign_of_isAsciiDigit {c : Char} (h : isAsciiDigit c = true)
    (rest : List Char) : takeSign (c :: rest) = (false, c :: rest) := by
  unfold takeSign
  split
  · rename_i he
    obtain rfl := (List.cons.inj he).1
    simp [isAsciiDigit] at h
  · rename_i he
    obtain rfl := (List.cons.inj he).1
    simp [isAsciiDigit] at h
  · rfl

private theorem takeSign_digits_append (n : Nat) (rest : List Char) :
    takeSign (digits n ++ rest) = (false, digits n ++ rest) := by
  rcases digits_cases n with ⟨_, hd⟩ | ⟨c, tail, hd, hc, _⟩
  · rw [hd]
    exact takeSign_of_isAsciiDigit (by decide) rest
  · rw [hd]
    exact takeSign_of_isAsciiDigit hc (tail ++ rest)

private theorem magnitude?_of_ne_zero {c : Char} (h : c ≠ '0') (rest : List Char) :
    magnitude? (c :: rest) = numeral? 10 (c :: rest) := by
  unfold magnitude?
  split
  · rename_i he
    exact (h (List.cons.inj he).1).elim
  · rename_i he
    exact (h (List.cons.inj he).1).elim
  · rfl

private theorem magnitude?_digits (n : Nat) : magnitude? (digits n) = some n := by
  rcases digits_cases n with ⟨rfl, hd⟩ | ⟨c, rest, hd, _, hne⟩
  · rw [hd]
    rfl
  · have hv := numeral?_digits n
    rw [hd] at hv ⊢
    rw [magnitude?_of_ne_zero hne, hv]

private theorem signed_natAbs (i : Int) :
    (if decide (i < 0) then -(i.natAbs : Int) else (i.natAbs : Int)) = i := by
  split <;> rename_i h <;> simp only [decide_eq_true_eq] at h <;> omega

private theorem takeSign_numeral (i : Int) :
    takeSign (numeral i) = (decide (i < 0), digits i.natAbs) := by
  unfold numeral
  split
  · rename_i h
    simp [takeSign, h]
  · rename_i h
    simpa [h] using takeSign_digits_append i.natAbs []

theorem integer?_numeral {i : Int} (h : IsWord i) : integer? (numeral i) = some i := by
  have hw : wordOf? magnitude? (numeral i) = some i := by
    have hf := (isWord_iff_fitsSigned i).mp h
    simp only [wordOf?, takeSign_numeral, magnitude?_digits, signed_natAbs, hf, if_true]
  simp [integer?, hw]

theorem integer?_exponent (negative : Bool) (n : Nat) (c : Char) (rest : List Char) :
    integer? ((if negative then ['-'] else []) ++ (digits n ++ 'e' :: c :: rest)) = none := by
  have hm : magnitude? (digits n ++ 'e' :: c :: rest) = none := by
    rcases digits_cases n with ⟨_, hd⟩ | ⟨d, tail, hd, _, hne⟩
    · rw [hd]
      have hnone : numeral? 8 ('e' :: c :: rest) = none :=
        numeral?_eq_none List.mem_cons_self (by decide)
      simpa [magnitude?] using hnone
    · rw [hd, List.cons_append, magnitude?_of_ne_zero hne]
      exact numeral?_eq_none (c := 'e') (by simp) (by decide)
  have hw : wordOf? magnitude?
      ((if negative then ['-'] else []) ++ (digits n ++ 'e' :: c :: rest)) = none := by
    cases negative with
    | true => simp [wordOf?, takeSign, hm]
    | false => simp [wordOf?, takeSign_digits_append, hm]
  unfold integer?
  rw [hw]
  -- Neither a sign nor a digit leaves room for the marks of a base in front.
  rcases digits_cases n with ⟨_, hd⟩ | ⟨d, tail, hd, _, hne⟩
  · cases negative <;> simp [hd]
  · cases negative with
    | true => simp
    | false =>
      simp only [hd, Bool.false_eq_true, if_false, List.nil_append, List.cons_append]
      split
      · rename_i he
        exact (hne (List.cons.inj he).1).elim
      · rename_i he
        exact (hne (List.cons.inj he).1).elim
      · rfl

private theorem exponent?_numeral (i : Int) : exponent? ('e' :: numeral i) = some i := by
  simp only [exponent?, takeSign_numeral, numeral?_digits, BEq.rfl, Bool.true_or, if_true]
  change Option.map _ (some (i.natAbs : Int)) = some i
  rw [Option.map_some, signed_natAbs]

theorem fraction?_exponent (negative : Bool) (n : Nat) (i : Int) :
    fraction? ((if negative then ['-'] else []) ++ (digits n ++ 'e' :: numeral i)) =
      finiteOnly (Binary64.ofDecimal negative n i) := by
  have hsign : takeSign ((if negative then ['-'] else []) ++ (digits n ++ 'e' :: numeral i)) =
      (negative, digits n ++ 'e' :: numeral i) := by
    cases negative with
    | true => simp [takeSign]
    | false => simpa using takeSign_digits_append n ('e' :: numeral i)
  have hall : ∀ c ∈ digits n, isAsciiDigit c = true := fun c hc => isAsciiDigit_of_mem hc
  have htake : (digits n ++ 'e' :: numeral i).takeWhile isAsciiDigit = digits n := by
    rw [List.takeWhile_append_of_pos hall]
    simp [isAsciiDigit]
  have hdrop : (digits n ++ 'e' :: numeral i).dropWhile isAsciiDigit = 'e' :: numeral i := by
    rw [List.dropWhile_append_of_pos hall]
    simp [isAsciiDigit]
  simp [fraction?, hsign, htake, hdrop, numeral?_digits, exponent?_numeral]

end Number

namespace Binary64

theorem ofDecimal_canonical (negative : Bool) (digits : Nat) (exponent : Int) :
    (ofDecimal negative digits exponent).Canonical := by
  unfold ofDecimal
  split
  · exact zero_canonical negative
  simp only
  split
  · trivial
  split
  · exact zero_canonical negative
  split
  · exact ofRatio_canonical negative _ Nat.one_pos
  · exact ofRatio_canonical negative _ (Nat.pow_pos (by decide))

/-- The digits and the power of ten that `mantissa * 2 ^ exponent` is written with. -/
def exactDecimal (mantissa : Nat) (exponent : Int) : Nat × Int :=
  if 0 ≤ exponent then (mantissa * 2 ^ exponent.toNat, 0)
  else (mantissa * 5 ^ (-exponent).toNat, exponent)

private theorem digitCount_le {n k : Nat} (hk : 0 < k) (h : n < 10 ^ k) : digitCount n ≤ k :=
  (Nat.length_toDigits_le_iff (by decide) hk).mpr h

private theorem lt_of_digitCount_le {n k : Nat} (hk : 0 < k) (h : digitCount n ≤ k) : n < 10 ^ k :=
  (Nat.length_toDigits_le_iff (by decide) hk).mp h

private theorem two_pow_le_ten_pow (k : Nat) : 2 ^ (3 * k) ≤ 10 ^ k := by
  rw [pow_mul]
  exact Nat.pow_le_pow_left (by decide) k

private theorem two_pow_le_five_pow (k : Nat) : 2 ^ (2 * k) ≤ 5 ^ k := by
  rw [pow_mul]
  exact Nat.pow_le_pow_left (by decide) k

private theorem digitCount_whole_le {mantissa k count : Nat} (hm : mantissa < 2 ^ 53)
    (hk : 53 + k ≤ 3 * count) : digitCount (mantissa * 2 ^ k) ≤ count := by
  apply digitCount_le (by omega)
  calc mantissa * 2 ^ k < 2 ^ 53 * 2 ^ k := Nat.mul_lt_mul_of_pos_right hm (by positivity)
    _ = 2 ^ (53 + k) := (pow_add 2 53 k).symm
    _ ≤ 2 ^ (3 * count) := Nat.pow_le_pow_right (by decide) hk
    _ ≤ 10 ^ count := two_pow_le_ten_pow count

private theorem digitCount_fraction_le {mantissa k : Nat} (hm : mantissa < 2 ^ 53) :
    digitCount (mantissa * 5 ^ k) ≤ 53 + k := by
  apply digitCount_le (by omega)
  calc mantissa * 5 ^ k < 2 ^ 53 * 5 ^ k := Nat.mul_lt_mul_of_pos_right hm (by positivity)
    _ ≤ 10 ^ 53 * 10 ^ k :=
      Nat.mul_le_mul (Nat.pow_le_pow_left (by decide) 53) (Nat.pow_le_pow_left (by decide) k)
    _ = 10 ^ (53 + k) := (pow_add 10 53 k).symm

private theorem ten_pow_eq (k : Nat) : 10 ^ k = 2 ^ k * 5 ^ k := mul_pow 2 5 k

private theorem le_digitCount_fraction {mantissa k count : Nat} (hm : 0 < mantissa)
    (hk : k ≤ 3 * count) : k ≤ digitCount (mantissa * 5 ^ k) + count := by
  by_contra hlt
  obtain ⟨j, rfl⟩ : ∃ j, k = j + count := ⟨k - count, by omega⟩
  have hpos : 0 < digitCount (mantissa * 5 ^ (j + count)) := Nat.length_toDigits_pos
  have hbound : mantissa * 5 ^ (j + count) < 10 ^ j := lt_of_digitCount_le (by omega) (by omega)
  have hle : 10 ^ j ≤ mantissa * 5 ^ (j + count) := by
    calc 10 ^ j = 5 ^ j * 2 ^ j := by rw [ten_pow_eq, Nat.mul_comm]
      _ ≤ 5 ^ j * 2 ^ (2 * count) :=
        Nat.mul_le_mul_left _ (Nat.pow_le_pow_right (by decide) (by omega))
      _ ≤ 5 ^ j * 5 ^ count := Nat.mul_le_mul_left _ (two_pow_le_five_pow count)
      _ = 5 ^ (j + count) := (pow_add 5 j count).symm
      _ ≤ mantissa * 5 ^ (j + count) := Nat.le_mul_of_pos_left _ hm
  exact hbound.not_ge hle

private theorem ofDecimal_whole (negative : Bool) {n : Nat} (hn : n ≠ 0)
    (hc : digitCount n ≤ 400) : ofDecimal negative n 0 = ofRatio negative n 1 := by
  have h₁ : ¬ (400 : Int) < (digitCount n : Int) + 0 := by omega
  have h₂ : ¬ (digitCount n : Int) + 0 < -400 := by omega
  simp only [ofDecimal, beq_eq_false_iff_ne.mpr hn, Bool.false_eq_true, if_false, h₁, h₂,
    le_refl, if_true, Int.toNat_zero, Nat.pow_eq, Nat.pow_zero, Nat.mul_one]

private theorem ofDecimal_fraction (negative : Bool) {n k : Nat} (hn : n ≠ 0) (hk : k ≠ 0)
    (hu : digitCount n ≤ 400 + k) (hl : k ≤ digitCount n + 400) :
    ofDecimal negative n (-(k : Int)) = ofRatio negative n (10 ^ k) := by
  have h₁ : ¬ (400 : Int) < (digitCount n : Int) + -(k : Int) := by omega
  have h₂ : ¬ (digitCount n : Int) + -(k : Int) < -400 := by omega
  have h₃ : ¬ (0 : Int) ≤ -(k : Int) := by omega
  simp only [ofDecimal, beq_eq_false_iff_ne.mpr hn, Bool.false_eq_true, if_false, h₁, h₂, h₃,
    neg_neg, Int.toNat_natCast, Nat.pow_eq]

theorem ofDecimal_exact {negative : Bool} {mantissa : Nat} {exponent : Int}
    (h : (finite negative mantissa exponent).Canonical) :
    ofDecimal negative (exactDecimal mantissa exponent).1 (exactDecimal mantissa exponent).2 =
      finite negative mantissa exponent := by
  have ⟨hlt, hleast, hmost, hform⟩ := h
  rcases Nat.eq_zero_or_pos mantissa with rfl | hpos
  · obtain rfl : exponent = -1074 := by omega
    have hzero : exactDecimal 0 (-1074) = (0, -1074) := by
      rw [exactDecimal, if_neg (by decide), Nat.zero_mul]
    rw [hzero]
    rfl
  unfold exactDecimal
  split
  · rename_i he
    obtain ⟨k, rfl⟩ := Int.eq_ofNat_of_zero_le he
    have hcount := digitCount_whole_le hlt (show 53 + k ≤ 3 * 400 by omega)
    simp only [Int.toNat_natCast]
    rw [ofDecimal_whole negative (by positivity) hcount]
    apply ofRatio_exact negative Nat.one_pos hpos h
    simp
  · rename_i he
    obtain ⟨k, hk⟩ := Int.eq_ofNat_of_zero_le (show 0 ≤ -exponent by omega)
    obtain rfl : exponent = -(k : Int) := by omega
    have hupper := digitCount_fraction_le (k := k) hlt
    have hlower := le_digitCount_fraction hpos (show k ≤ 3 * 400 by omega)
    simp only [neg_neg, Int.toNat_natCast]
    rw [ofDecimal_fraction negative (by positivity) (by omega) (by omega) hlower]
    apply ofRatio_exact negative (Nat.pow_pos (by decide)) hpos h
    have hten : (10 : ℚ) ^ k = 2 ^ k * 5 ^ k := by exact_mod_cast ten_pow_eq k
    simp only [Nat.cast_mul, Nat.cast_pow, Nat.cast_ofNat, zpow_neg, zpow_natCast]
    rw [hten]
    field_simp

def exactText : Binary64 -> String
  | .nan => ".nan"
  | .infinite negative => if negative then "-.inf" else ".inf"
  | .finite negative mantissa exponent =>
    String.ofList ((if negative then ['-'] else []) ++
      (Number.digits (exactDecimal mantissa exponent).1 ++
        'e' :: Number.numeral (exactDecimal mantissa exponent).2))

end Binary64

end LexiconCompiler
