import LexiconCompiler.Proofs.Markup.Json
import LexiconCompiler.Proofs.Markup.JsonText
import LexiconCompiler.Proofs.Number.Shortest
import LexiconCompiler.Proofs.Schema.Scalars
import LexiconCompiler.Proofs.Text.JsonValue

set_option autoImplicit false
set_option relaxedAutoImplicit false

/-!
The JSON form of a tree is read back as the image of the tree: a mapping is an object with the same
keys in the same order, a sequence an array, and a scalar the value that its text denotes. The text
of a number denotes exactly the decimal that is laid out, and that rounds to the number.
-/

namespace LexiconCompiler

open LexiconCompiler.Text LexiconCompiler.Text.JsonToken

namespace Text.JsonToken

section Digits

private theorem digitsNumber_digits (n : Nat) : digitsNumber (Number.digits n) = n :=
  Nat.ofDigitChars_ten_toDigits

private theorem digitsNumber_append_zeros (ds : List Char) (count : Nat) :
    digitsNumber (ds ++ List.replicate count '0') = digitsNumber ds * 10 ^ count := by
  have hzeros : ∀ start, Nat.ofDigitChars 10 (List.replicate count '0') start =
      start * 10 ^ count := by
    induction count with
    | zero => simp
    | succ count ih =>
      intro start
      rw [List.replicate_succ, Nat.ofDigitChars_cons, ih]
      simp only [Nat.sub_self, Nat.add_zero]
      ring
  rw [digitsNumber, Nat.ofDigitChars_append, hzeros]
  rfl

private theorem digitsNumber_zeros_append (count : Nat) (ds : List Char) :
    digitsNumber (List.replicate count '0' ++ ds) = digitsNumber ds := by
  have hzeros := digitsNumber_append_zeros [] count
  rw [List.nil_append] at hzeros
  have hnone : digitsNumber [] = 0 := rfl
  rw [hnone, Nat.zero_mul, digitsNumber] at hzeros
  rw [digitsNumber, Nat.ofDigitChars_append, hzeros]
  rfl

private theorem partsValue_pointed {ds whole fraction : List Char} {count : Nat}
    (hall : whole ++ fraction.tail = ds ++ List.replicate (count - ds.length) '0')
    (hlength : fraction.tail.length = ds.length - count) (exponent : List Char) :
    partsValue whole fraction exponent =
      digitsNumber ds * 10 ^ (power exponent + count - ds.length) := by
  rw [partsValue, hall, hlength, digitsNumber_append_zeros, Nat.cast_mul, mul_assoc]
  congr 1
  rw [Nat.cast_pow, Nat.cast_ofNat, ← zpow_natCast, ← zpow_add₀ (by norm_num)]
  congr 1
  omega

end Digits

end Text.JsonToken

namespace Binary64

private theorem power_padded (width : Nat) (lead : Int) :
    power ('e' :: (if lead < 0 then '-' else '+') :: padded width lead.natAbs) = lead := by
  have hpadded : digitsNumber (padded width lead.natAbs) = lead.natAbs := by
    rw [padded, digitsNumber_zeros_append]
    exact digitsNumber_digits _
  split
  · rw [power, hpadded]
    omega
  · rw [power, hpadded]
    omega

private theorem magnitudeValue?_layOut (layout : Layout) (d : Decimal) :
    magnitudeValue? (d.layOut layout) = some d.value := by
  have hdigits := isDigits_digits d.digits
  have hlength : (Nat.toDigits 10 d.digits).length = (Number.digits d.digits).length := rfl
  have hlengthPos : 0 < (Number.digits d.digits).length := List.length_pos_iff.mpr hdigits.1
  have hnumber := digitsNumber_digits d.digits
  simp only [Decimal.layOut]
  split
  next hzero =>
    have hparts := magnitudeValue?_parts .zero .none .none
    have hnone : partsValue ['0'] [] [] = d.value := by
      rw [Decimal.value, eq_of_beq hzero, Nat.cast_zero, zero_mul]
      have hdigit : digitsNumber ['0'] = 0 := rfl
      rw [partsValue, List.tail_nil, List.append_nil, hdigit, Nat.cast_zero, zero_mul]
    rw [hnone] at hparts
    exact hparts
  next hne =>
    have hhead : (Number.digits d.digits).head? ≠ some '0' := by
      rcases Number.digits_cases d.digits with ⟨hzero, _⟩ | ⟨c, rest, hcons, _, hc⟩
      · exact absurd (beq_iff_eq.mpr hzero) hne
      · simp [hcons, hc]
    split
    · obtain ⟨whole, fraction, hpointed, hwhole, hfraction, hall, hplaces⟩ :=
        pointed_parts hdigits hhead Nat.one_pos
      rw [hpointed, magnitudeValue?_parts hwhole hfraction (exponentPart_padded _ _ _),
        partsValue_pointed hall hplaces, power_padded, hnumber, Decimal.value]
      congr 3
      push_cast
      ring
    split
    next hlead =>
      have hzeros := hdigits.zeros_append
        ((-(d.exponent + (Number.digits d.digits).length - 1)).toNat - 1)
      have hparts := magnitudeValue?_parts .zero (.digits hzeros) .none
      simp only [List.cons_append, List.nil_append, List.append_nil] at hparts
      rw [hparts, partsValue, List.tail_cons, List.length_append, List.length_replicate]
      have hfront : digitsNumber (['0'] ++ (List.replicate
          ((-(d.exponent + (Number.digits d.digits).length - 1)).toNat - 1) '0' ++
            Number.digits d.digits)) = d.digits := by
        have hone : ['0'] = List.replicate 1 '0' := rfl
        rw [hone, digitsNumber_zeros_append, digitsNumber_zeros_append, hnumber]
      rw [hfront, Decimal.value]
      congr 3
      have hpower : power [] = 0 := rfl
      rw [hpower]
      push_cast
      omega
    next hlead =>
      obtain ⟨whole, fraction, hpointed, hwhole, hfraction, hall, hplaces⟩ :=
        pointed_parts hdigits hhead
          (Nat.succ_pos (d.exponent + (Number.digits d.digits).length - 1).toNat)
      have hparts := magnitudeValue?_parts hwhole hfraction .none
      rw [List.append_nil] at hparts
      rw [hpointed, hparts, partsValue_pointed hall hplaces, hnumber, Decimal.value]
      congr 3
      have hpower : power [] = 0 := rfl
      rw [hpower]
      push_cast
      omega

/-- A finite number is written as a decimal that rounds to it. -/
private theorem value_format {negative : Bool} {mantissa : Nat} {exponent : Int} (layout : Layout)
    (h : (finite negative mantissa exponent).Canonical) :
    ∃ magnitude : ℚ, 0 ≤ magnitude ∧
      wordValue? ((finite negative mantissa exponent).format layout).toList =
        some (.number negative magnitude) ∧
      ofRatio negative magnitude.num.natAbs magnitude.den =
        finite negative mantissa exponent := by
  have hnonneg : 0 ≤ (shortest mantissa exponent).value := by
    rw [Decimal.value]
    positivity
  refine ⟨(shortest mantissa exponent).value, hnonneg, ?_, ?_⟩
  · rw [format, String.toList_ofList]
    cases negative with
    | true =>
      rw [if_pos rfl, wordValue?_negative, magnitudeValue?_layOut, Option.map_some]
    | false =>
      rw [if_neg (by decide), wordValue?_positive (jsonMagnitude_layOut layout _),
        magnitudeValue?_layOut, Option.map_some]
  · refine ofRatio_shortest h (Rat.den_pos _) ?_
    have hnum : (((shortest mantissa exponent).value.num.natAbs : Nat) : ℚ) =
        (shortest mantissa exponent).value.num := by
      rw [← Int.cast_natCast, Int.natAbs_of_nonneg (Rat.num_nonneg.mpr hnonneg)]
    rw [hnum, Rat.num_div_den]

end Binary64

namespace Text.JsonToken

private theorem magnitudeValue?_digits (n : Nat) : magnitudeValue? (Number.digits n) = some
    (n : ℚ) := by
  have hparts := magnitudeValue?_parts (wholePart_digits n) .none .none
  rw [List.append_nil, List.append_nil] at hparts
  rw [hparts, partsValue, List.tail_nil, List.append_nil, digitsNumber_digits]
  have hpower : power [] - (([] : List Char).length : Int) = 0 := rfl
  rw [hpower, zpow_zero, mul_one]

private theorem wordValue?_toString (i : Int) :
    wordValue? (toString i).toList = some (.number (decide (i < 0)) i.natAbs) := by
  cases i with
  | ofNat n =>
    have htext : toString (Int.ofNat n) = n.repr := rfl
    rw [htext, Nat.toList_repr, wordValue?_positive (jsonMagnitude_of_whole (wholePart_digits n)),
      magnitudeValue?_digits]
    rfl
  | negSucc n =>
    have htext : toString (Int.negSucc n) = "-" ++ (n + 1).repr := rfl
    have hminus : ("-" ++ (n + 1).repr).toList = '-' :: Number.digits (n + 1) := by
      rw [String.toList_append, Nat.toList_repr]
      rfl
    have hnegative : decide (Int.negSucc n < 0) = true := decide_eq_true (Int.negSucc_lt_zero n)
    rw [htext, hminus, wordValue?_negative, magnitudeValue?_digits, hnegative]
    rfl

end Text.JsonToken

namespace Markup

/-- A JSON value stands for the value of a scalar. A binary fraction may be any decimal that rounds
to it; a time is the text of its date, time and zone. -/
inductive Scalar.Image : Scalar → JsonValue → Prop
  | null : Image .null .null
  | bool (b : Bool) : Image (.bool b) (.bool b)
  | int (i : Int) : Image (.int i) (.number (decide (i < 0)) i.natAbs)
  | float {negative : Bool} {mantissa : Nat} {exponent : Int} {magnitude : ℚ} : 0 ≤ magnitude →
      Binary64.ofRatio negative magnitude.num.natAbs magnitude.den =
        .finite negative mantissa exponent →
      Image (.float (.finite negative mantissa exponent)) (.number negative magnitude)
  | text (s : String) : Image (.text s) (.string s)
  | time (stamp : Timestamp) : Image (.time stamp) (.string stamp.text)

/-- A JSON value stands for a tree, with the keys of every mapping in their order. -/
inductive Node.Image : Node → JsonValue → Prop
  | scalar {tag : Tag} {text : String} {value : Scalar} {json : JsonValue} :
      decodeScalar tag text = .ok value → value.Image json → Image (.scalar tag text) json
  | sequence {items : List Node} {values : List JsonValue} : List.Forall₂ Image items values →
      Image (.sequence items) (.array values)
  | mapping {entries : List (Key × Node)} {members : List (String × JsonValue)} :
      entries.map (·.1.text) = members.map (·.1) →
      List.Forall₂ Image (entries.map (·.2)) (members.map (·.2)) →
      Image (.mapping entries) (.object members)
  | target {name : String} {node : Node} {value : JsonValue} : Image node value →
      Image (.alias name (some node)) value

private theorem canonical_of_decodeScalar {tag : Tag} {text : String} {x : Binary64}
    (h : decodeScalar tag text = .ok (.float x)) : x.Canonical := by
  have htag : tag = .float := by
    unfold decodeScalar at h
    split at h
    · split at h <;> cases h
    split at h
    · unfold resolveAs at h
      simp only at h
      split at h
      next htag =>
        rw [Except.ok.inj h] at htag
        exact (eq_of_beq htag).symm
      next =>
        split at h
        · rfl
        · cases h
    · cases h
  subst htag
  have hnumber : IsNumber (.scalar .float text) x := by
    simp [IsNumber, LexiconCompiler.numberOf?, h]
  exact hnumber.canonical

private theorem scalarJson_image {tag : Tag} {text written : String}
    (h : scalarJson tag text = .ok written) :
    ∃ value, Gives written.toList value ∧ (Node.scalar tag text).Image value := by
  unfold scalarJson at h
  split at h
  next value hvalue =>
    cases value with
    | null =>
      obtain rfl := Except.ok.inj h
      exact ⟨.null, gives_word .null rfl, .scalar hvalue .null⟩
    | bool b =>
      obtain rfl := Except.ok.inj h
      cases b with
      | true => exact ⟨.bool true, gives_word .true rfl, .scalar hvalue (.bool true)⟩
      | false => exact ⟨.bool false, gives_word .false rfl, .scalar hvalue (.bool false)⟩
    | int i =>
      obtain rfl := Except.ok.inj h
      exact ⟨_, gives_word (jsonWord_toString i) (wordValue?_toString i), .scalar hvalue (.int i)⟩
    | float x =>
      cases x with
      | nan => cases h
      | infinite negative => cases h
      | finite negative mantissa exponent =>
        obtain rfl := Except.ok.inj h
        obtain ⟨magnitude, hnonneg, hword, hround⟩ :=
          Binary64.value_format .wire (canonical_of_decodeScalar hvalue)
        exact ⟨_, gives_word (jsonWord_format _ _ _ _) hword,
          .scalar hvalue (.float hnonneg hround)⟩
    | text s =>
      obtain rfl := Except.ok.inj h
      exact ⟨_, gives_jsonString s (jsonQuoted_jsonString s), .scalar hvalue (.text s)⟩
    | time stamp =>
      unfold Scalar.toJson at h
      simp only at h
      split at h
      next =>
        obtain rfl := Except.ok.inj h
        exact ⟨_, gives_jsonString _ (jsonQuoted_jsonString _), .scalar hvalue (.time stamp)⟩
      next => cases h
  next => cases h

section Trees

-- Items and entries come with commas between them, so the last one stands alone.
mutual

theorem Node.gives_image : (node : Node) → {text : String} → node.toJson = .ok text →
    ∃ value, Gives text.toList value ∧ node.Image value
  | .scalar tag text, written, h => by
    rw [Node.toJson] at h
    exact scalarJson_image h
  | .sequence items, text, h => by
    simp only [Node.toJson, Outcome.bind_eq_ok, Outcome.pure_eq_ok] at h
    obtain ⟨parts, hparts, rfl⟩ := h
    obtain ⟨values, himage, hgives⟩ := items_image items hparts
    refine ⟨.array values, ?_, .sequence himage⟩
    rcases hgives with ⟨rfl, rfl⟩ | ⟨_, hgives⟩
    · exact gives_emptyArray
    · simpa using gives_array hgives
  | .mapping entries, text, h => by
    simp only [Node.toJson, Outcome.bind_eq_ok, Outcome.pure_eq_ok] at h
    obtain ⟨parts, hparts, rfl⟩ := h
    obtain ⟨members, hkeys, himage, hgives⟩ := entries_image entries hparts
    refine ⟨.object members, ?_, .mapping hkeys himage⟩
    rcases hgives with ⟨rfl, rfl⟩ | ⟨_, hgives⟩
    · exact gives_emptyObject
    · simpa using gives_object hgives
  | .alias _ (some target), text, h => by
    rw [Node.toJson] at h
    obtain ⟨value, hgives, himage⟩ := target.gives_image h
    exact ⟨value, hgives, .target himage⟩
  | .alias _ none, _, h => by
    rw [Node.toJson] at h
    cases h

private theorem items_image : (items : List Node) → {parts : List String} →
    itemsJson items = .ok parts → ∃ values, List.Forall₂ Node.Image items values ∧
      ((values = [] ∧ parts = []) ∨
        (parts ≠ [] ∧ GivesItems (joinWith "," parts).toList values))
  | [], parts, h => by
    rw [itemsJson] at h
    exact ⟨[], .nil, Or.inl ⟨rfl, (Except.ok.inj h).symm⟩⟩
  | node :: rest, parts, h => by
    simp only [itemsJson, Outcome.bind_eq_ok, Outcome.pure_eq_ok] at h
    obtain ⟨part, hpart, others, hothers, rfl⟩ := h
    obtain ⟨value, hvalue, hnode⟩ := node.gives_image hpart
    obtain ⟨values, hrest, hvalues⟩ := items_image rest hothers
    refine ⟨value :: values, .cons hnode hrest, Or.inr ⟨List.cons_ne_nil _ _, ?_⟩⟩
    rcases hvalues with ⟨rfl, rfl⟩ | ⟨hne, hvalues⟩
    · exact givesItems_single hvalue
    · rw [joinWith_cons _ _ hne]
      simpa using givesItems_cons hvalue hvalues

private theorem entries_image : (entries : List (Key × Node)) → {parts : List String} →
    entriesJson entries = .ok parts → ∃ members : List (String × JsonValue),
      entries.map (·.1.text) = members.map (·.1) ∧
      List.Forall₂ Node.Image (entries.map (·.2)) (members.map (·.2)) ∧
      ((members = [] ∧ parts = []) ∨
        (parts ≠ [] ∧ GivesMembers (joinWith "," parts).toList members))
  | [], parts, h => by
    rw [entriesJson] at h
    exact ⟨[], rfl, .nil, Or.inl ⟨rfl, (Except.ok.inj h).symm⟩⟩
  | (key, node) :: rest, parts, h => by
    simp only [entriesJson, Outcome.bind_eq_ok, Outcome.pure_eq_ok] at h
    obtain ⟨part, hpart, others, hothers, rfl⟩ := h
    have hkey := jsonQuoted_jsonString key.text
    obtain ⟨value, hvalue, hnode⟩ := node.gives_image hpart
    obtain ⟨members, hkeys, hrest, hmembers⟩ := entries_image rest hothers
    refine ⟨(key.text, value) :: members, congrArg (key.text :: ·) hkeys, .cons hnode hrest,
      Or.inr ⟨List.cons_ne_nil _ _, ?_⟩⟩
    rcases hmembers with ⟨rfl, rfl⟩ | ⟨hne, hmembers⟩
    · simpa [joinWith] using givesMembers_single hkey hvalue
    · rw [joinWith_cons _ _ hne]
      simpa using givesMembers_cons hkey hvalue hmembers

end

/-- A tree has no JSON form, and then some scalar in it has none, or it has no end; or it has one
that is a JSON text and is read back as what the tree stands for, and then the tree has an end and
every scalar in it has a JSON form. -/
theorem Node.toJson_faithful (node : Node) :
    (∃ fault tag text, node.toJson = .error fault ∧ node.Holds tag text ∧
      Unwritable tag text fault) ∨
    (node.toJson = .error .endless ∧ node.Endless) ∨
    ∃ text depth value, node.toJson = .ok text ∧ JsonText .value depth text.toList ∧
      JsonValue.read? text = some value ∧ node.Image value ∧ ¬ node.Endless ∧
      ¬ ∃ tag text fault, node.Holds tag text ∧ Unwritable tag text fault := by
  cases hjson : node.toJson with
  | error fault =>
    rcases node.blocked_of_toJson hjson with ⟨rfl, hendless⟩ | ⟨tag, text, hholds, hbad⟩
    · exact Or.inr (Or.inl ⟨rfl, hendless⟩)
    · exact Or.inl ⟨fault, tag, text, rfl, hholds, hbad⟩
  | ok text =>
    obtain ⟨value, hgives, himage⟩ := node.gives_image hjson
    refine Or.inr (Or.inr ⟨text, node.nesting, value, rfl, node.jsonText hjson,
      read?_of_gives hgives, himage, fun hendless => hendless.toJson_ne_ok hjson, ?_⟩)
    rintro ⟨tag, content, fault, hholds, hbad⟩
    obtain ⟨part, hpart⟩ := hholds.scalarJson_eq_ok hjson
    rw [hbad.scalarJson_eq] at hpart
    cases hpart

/-- A tree without a JSON form may hold no scalar but one with a value that is no number. -/
theorem Node.toJson_zoned :
    let node : Node :=
      .mapping [(⟨"x", .scalar .str⟩, .scalar .timestamp "2024-01-02T03:04:05+24:00")]
    node.toJson = .error .farZone ∧
      ∀ tag text, node.Holds tag text →
        ∃ value, decodeScalar tag text = .ok value ∧ value.tag ≠ .float := by
  refine ⟨by decide +kernel, fun tag text hholds => ?_⟩
  simp only [holds_mapping, List.mem_singleton, exists_eq_left, holds_scalar] at hholds
  obtain ⟨rfl, rfl⟩ := hholds
  exact ⟨_, rfl, by decide +kernel⟩

end Trees

end Markup

end LexiconCompiler
