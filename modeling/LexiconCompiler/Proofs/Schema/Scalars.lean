import LexiconCompiler.Proofs.Number.Numeral
import LexiconCompiler.Proofs.Schema.Reading

set_option autoImplicit false
set_option relaxedAutoImplicit false

/-!
Scalars of schema documents. Integers that are read are machine words and numbers are in their one
form, and each of them is denoted by some scalar.
-/

namespace LexiconCompiler

open LexiconCompiler.Markup LexiconCompiler.Text

private def startsNumeral : List Char → Bool
  | '-' :: c :: _ => isAsciiDigit c
  | c :: _ => isAsciiDigit c
  | [] => false

private theorem keywords_not_numeral :
    ∀ entry ∈ keywords, startsNumeral entry.1.toList = false := by
  decide

private theorem lookup_keywords {text : String} (h : startsNumeral text.toList = true) :
    keywords.lookup text = none := by
  rw [List.lookup_eq_none_iff]
  intro entry he
  rw [bne_iff_ne]
  rintro rfl
  rw [keywords_not_numeral entry he] at h
  exact Bool.false_ne_true h

private theorem resolve_numeral {text : String} (h : startsNumeral text.toList = true) :
    resolve false text = (Markup.numberOf? text.toList).getD (.text text) := by
  unfold resolve
  rw [lookup_keywords h]
  cases hcs : text.toList with
  | nil => simp [hcs, startsNumeral] at h
  | cons c rest =>
    rw [hcs] at h
    have hc : isAsciiDigit c = true ∨ c = '-' := by
      unfold startsNumeral at h
      split at h
      · rename_i he
        exact Or.inr (List.cons.inj he).1
      · rename_i he
        exact Or.inl ((List.cons.inj he).1 ▸ h)
      · rename_i he
        exact (List.cons_ne_nil _ _ he).elim
    have hdot : c ≠ '.' := by
      rintro rfl
      rcases hc with hc | hc <;> simp [isAsciiDigit] at hc
    rcases hc with hc | rfl
    · simp [hdot, hc]
    · simp

private theorem startsNumeral_append (negative : Bool) (n : Nat) (rest : List Char) :
    startsNumeral ((if negative then ['-'] else []) ++ (Number.digits n ++ rest)) = true := by
  obtain ⟨c, tail, hd, hc⟩ := Number.exists_digits_eq_cons n
  cases negative with
  | true => simp [hd, startsNumeral, hc]
  | false =>
    simp only [hd, Bool.false_eq_true, if_false, List.nil_append, List.cons_append]
    unfold startsNumeral
    split
    · rename_i he
      obtain rfl := (List.cons.inj he).1
      simp [isAsciiDigit] at hc
    · rename_i he
      exact (List.cons.inj he).1 ▸ hc
    · rename_i he
      exact (List.cons_ne_nil _ _ he).elim

private theorem filter_underscore {cs : List Char} (h : '_' ∉ cs) :
    cs.filter (· != '_') = cs := by
  rw [List.filter_eq_self]
  intro c hc
  rw [bne_iff_ne]
  rintro rfl
  exact h hc

private theorem numeral_eq (i : Int) :
    Number.numeral i =
      (if decide (i < 0) then ['-'] else []) ++ (Number.digits i.natAbs ++ []) := by
  unfold Number.numeral
  split <;> simp_all

private theorem underscore_notMem_numeral (i : Int) : '_' ∉ Number.numeral i := by
  rw [numeral_eq]
  have hd : '_' ∉ Number.digits i.natAbs := Nat.underscore_not_in_toDigits
  split <;> simp [hd]

private theorem resolveAs_eq_ok {tag : Tag} {text : String} {value : Scalar}
    (hdates : (tag == .timestamp) = false) (h : resolve false text = value) (htag : value.tag = tag)
    : resolveAs tag text = .ok value := by
  simp only [resolveAs, hdates, h, htag, BEq.rfl, if_true]

theorem isInteger_numeral {i : Int} (h : IsWord i) :
    IsInteger (.scalar .int (String.ofList (Number.numeral i))) i := by
  have hstart : startsNumeral (String.ofList (Number.numeral i)).toList = true := by
    rw [String.toList_ofList, numeral_eq]
    exact startsNumeral_append _ _ _
  have hvalue : resolve false (String.ofList (Number.numeral i)) = .int i := by
    rw [resolve_numeral hstart, String.toList_ofList]
    simp [Markup.numberOf?, filter_underscore (underscore_notMem_numeral i),
      Number.integer?_numeral h]
  have hword := (isWord_iff_fitsSigned i).mp h
  have hdecode : decodeScalar .int (String.ofList (Number.numeral i)) = .ok (.int i) :=
    resolveAs_eq_ok rfl hvalue rfl
  simp [IsInteger, integerOf?, hdecode, hword]

private theorem resolve_exactText {x : Binary64} (h : x.Canonical) :
    resolve false x.exactText = .float x := by
  cases x with
  | nan => rfl
  | infinite negative => cases negative <;> rfl
  | finite negative mantissa exponent =>
    rw [Binary64.exactText]
    generalize hd : Binary64.exactDecimal mantissa exponent = decimal
    have hexact := Binary64.ofDecimal_exact h
    rw [hd] at hexact
    generalize hcs : (if negative then ['-'] else []) ++
      (Number.digits decimal.1 ++ 'e' :: Number.numeral decimal.2) = cs
    have hstart : startsNumeral (String.ofList cs).toList = true := by
      rw [String.toList_ofList, ← hcs]
      exact startsNumeral_append _ _ _
    have hunder : '_' ∉ cs := by
      have hdigits : '_' ∉ Number.digits decimal.1 := Nat.underscore_not_in_toDigits
      rw [← hcs]
      split <;> simp [hdigits, underscore_notMem_numeral]
    have hint : Number.integer? cs = none := by
      obtain ⟨c, rest, hn⟩ := Number.exists_numeral_eq_cons decimal.2
      rw [← hcs, hn]
      exact Number.integer?_exponent negative decimal.1 c rest
    have hfraction : Number.fraction? cs = some (.finite negative mantissa exponent) := by
      rw [← hcs, Number.fraction?_exponent, hexact]
      rfl
    rw [resolve_numeral hstart, String.toList_ofList]
    simp [Markup.numberOf?, filter_underscore hunder, hint, hfraction]

theorem isNumber_exactText {x : Binary64} (h : x.Canonical) :
    IsNumber (.scalar .float x.exactText) x := by
  have hdecode : decodeScalar .float x.exactText = .ok (.float x) :=
    resolveAs_eq_ok rfl (resolve_exactText h) rfl
  simp [IsNumber, LexiconCompiler.numberOf?, hdecode]

def booleanText (b : Bool) : String := if b then "true" else "false"

theorem isBoolean_booleanText (b : Bool) : IsBoolean (.scalar .bool (booleanText b)) b := by
  refine ⟨booleanText b, rfl, ?_⟩
  cases b <;> rfl

private theorem fraction?_canonical {cs : List Char} {x : Binary64}
    (h : Number.fraction? cs = some x) : x.Canonical := by
  unfold Number.fraction? at h
  simp only at h
  split at h
  · rename_i digits exponent _ _
    generalize hd : Binary64.ofDecimal _ digits _ = y at h
    have hy : y.Canonical := hd ▸ Binary64.ofDecimal_canonical _ _ _
    cases y with
    | infinite negative => simp [Number.finiteOnly] at h
    | nan => simp only [Number.finiteOnly, Option.some.injEq] at h; exact h ▸ hy
    | finite negative mantissa exponent =>
      simp only [Number.finiteOnly, Option.some.injEq] at h
      exact h ▸ hy
  · simp at h

private theorem keywords_canonical {text : String} {x : Binary64}
    (h : keywords.lookup text = some (.float x)) : x.Canonical := by
  obtain ⟨before, after, he, _⟩ := List.lookup_eq_some_iff.mp h
  have hm : (text, Scalar.float x) ∈ keywords := by simp [he]
  simp only [keywords, List.map_cons, List.map_nil, List.mem_append, List.mem_cons, Prod.mk.injEq,
    reduceCtorEq, and_false, Scalar.float.injEq, List.not_mem_nil, or_false, false_or] at hm
  rcases x with _ | _ | ⟨negative, mantissa, exponent⟩
  · trivial
  · trivial
  · simp at hm

private theorem resolve_canonical {dates : Bool} {text : String} {x : Binary64}
    (h : resolve dates text = .float x) : x.Canonical := by
  unfold resolve at h
  split at h
  · rename_i value hk
    subst h
    exact keywords_canonical hk
  split at h
  · simp at h
  · rename_i c rest _
    split at h
    · unfold pointedOf? at h
      split at h
      · cases hf : Number.fraction? ((c :: rest).filter (· != '_')) with
        | none => simp [hf] at h
        | some y =>
          simp only [hf, Option.map_some, Option.getD_some, Scalar.float.injEq] at h
          exact h ▸ fraction?_canonical hf
      · simp at h
    split at h
    · split at h
      · simp at h
      · unfold Markup.numberOf? at h
        simp only at h
        split at h
        · simp at h
        · cases hf : Number.fraction? ((c :: rest).filter (· != '_')) with
          | none => simp [hf] at h
          | some y =>
            simp only [hf, Option.map_some, Option.getD_some, Scalar.float.injEq] at h
            exact h ▸ fraction?_canonical hf
    · simp at h

private theorem decode_float_canonical {text : String} {x : Binary64}
    (h : decodeScalar .float text = .ok (.float x)) : x.Canonical := by
  have hr : resolveAs .float text = .ok (.float x) := h
  unfold resolveAs at hr
  simp only at hr
  split at hr
  · exact resolve_canonical (Except.ok.inj hr)
  · split at hr
    · split at hr
      · simp only [Except.ok.injEq, Scalar.float.injEq] at hr
        exact hr ▸ Binary64.ofRatio_canonical _ _ Nat.one_pos
      · simp at hr
    · simp at hr

theorem IsNumber.canonical {node : Node} {x : Binary64} (h : IsNumber node x) : x.Canonical := by
  unfold IsNumber LexiconCompiler.numberOf? at h
  split at h
  · split at h
    · simp only [Option.some.injEq] at h
      exact h ▸ Binary64.ofRatio_canonical _ _ Nat.one_pos
    · simp at h
  · split at h
    · rename_i hd
      simp only [Option.some.injEq] at h
      exact decode_float_canonical (h ▸ hd)
    · simp at h
  · simp at h

theorem IsInteger.isWord {node : Node} {i : Int} (h : IsInteger node i) : IsWord i := by
  unfold IsInteger integerOf? at h
  split at h
  · split at h
    · split at h
      · rename_i hf
        simp only [Option.some.injEq] at h
        exact (isWord_iff_fitsSigned i).mpr (h ▸ hf)
      · simp at h
    · simp at h
  · split at h
    · unfold Binary64.toInt? at h
      split at h
      · split at h
        · rename_i hb
          simp only [Option.some.injEq] at h
          subst h
          simp only [Bool.and_eq_true, decide_eq_true_eq] at hb
          have hbound := hb.2
          simp only [Binary64.mantissaBound] at hbound
          unfold IsWord
          omega
        · simp at h
      · simp at h
    · simp at h
  · simp at h

end LexiconCompiler
