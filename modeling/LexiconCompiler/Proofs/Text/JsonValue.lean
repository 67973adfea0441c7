import LexiconCompiler.Proofs.Text.JsonGrammar
import LexiconCompiler.Proofs.TypeScript.StringLiteral
import LexiconCompiler.Text.JsonString
import Mathlib.Algebra.Field.Rat

set_option autoImplicit false
set_option relaxedAutoImplicit false

/-!
JSON texts read back as values, by the rules of RFC 8259. Objects keep the order of their members
and repeated keys, numbers have their exact values, and zero has a sign.
-/

namespace LexiconCompiler.Text

open LexiconCompiler.TypeScript (codeUnits stringUnits escaped)

/-- What a JSON text denotes. -/
inductive JsonValue where
  | null
  | bool (value : Bool)
  | number (negative : Bool) (magnitude : ℚ)
  | string (text : String)
  | array (items : List JsonValue)
  | object (members : List (String × JsonValue))

namespace JsonToken

section Strings

def isLead (unit : UInt16) : Bool := 0xD800 ≤ unit.toNat && unit.toNat < 0xDC00

def isTrail (unit : UInt16) : Bool := 0xDC00 ≤ unit.toNat && unit.toNat < 0xE000

def unitChar (unit : UInt16) : Char :=
  if isLead unit || isTrail unit then '\uFFFD' else Char.ofNat unit.toNat

/-- The character of a pair of code units. -/
def pairChar (lead trail : UInt16) : Char :=
  Char.ofNat (0x10000 + (lead.toNat - 0xD800) * 0x400 + (trail.toNat - 0xDC00))

def ofUnits : List UInt16 → List Char
  | first :: second :: rest =>
    if isLead first && isTrail second then pairChar first second :: ofUnits rest
    else unitChar first :: ofUnits (second :: rest)
  | [unit] => [unitChar unit]
  | [] => []

def units? : List Char → Option (List UInt16)
  | [] => none
  | ['"'] => some []
  | '\\' :: 'u' :: a :: b :: c :: d :: rest => do
    let unit ← Number.numeral? 16 [a, b, c, d]
    let units ← units? rest
    return UInt16.ofNat unit :: units
  | '\\' :: c :: rest => do
    let units ← units? rest
    return codeUnits (escaped c).toNat ++ units
  | c :: rest => do
    let units ← units? rest
    return codeUnits c.toNat ++ units

def stringText? : List Char → Option String
  | '"' :: body => (units? body).map fun units => String.ofList (ofUnits units)
  | _ => none

-- The equations are derived here, once for all the proofs that rewrite with them.
attribute [grind =] ofUnits units?

private theorem ofUnits_codeUnits_append (c : Char) (units : List UInt16) :
    ofUnits (codeUnits c.toNat ++ units) = c :: ofUnits units := by
  have hvalid : c.toNat < 0xD800 ∨ 0xDFFF < c.toNat ∧ c.toNat < 0x110000 := c.valid
  unfold codeUnits
  split
  next hnarrow =>
    have hunit : (UInt16.ofNat c.toNat).toNat = c.toNat := by
      rw [UInt16.toNat_ofNat']
      omega
    have hlead : isLead (UInt16.ofNat c.toNat) = false := by
      simp only [isLead, hunit, Bool.and_eq_false_iff, decide_eq_false_iff_not]
      omega
    have htrail : isTrail (UInt16.ofNat c.toNat) = false := by
      simp only [isTrail, hunit, Bool.and_eq_false_iff, decide_eq_false_iff_not]
      omega
    have hchar : unitChar (UInt16.ofNat c.toNat) = c := by
      rw [unitChar, hlead, htrail, if_neg (by decide), hunit, Char.ofNat_toNat]
    cases units with
    | nil => rw [List.append_nil, ofUnits, hchar, ofUnits]
    | cons second rest =>
      rw [List.singleton_append, ofUnits, hlead, Bool.false_and, if_neg (by decide), hchar]
  next hwide =>
    have hlead : (UInt16.ofNat (0xD800 + (c.toNat - 0x10000) / 0x400)).toNat =
        0xD800 + (c.toNat - 0x10000) / 0x400 := by
      rw [UInt16.toNat_ofNat']
      omega
    have htrail : (UInt16.ofNat (0xDC00 + (c.toNat - 0x10000) % 0x400)).toNat =
        0xDC00 + (c.toNat - 0x10000) % 0x400 := by
      rw [UInt16.toNat_ofNat']
      omega
    have hpair : (isLead (UInt16.ofNat (0xD800 + (c.toNat - 0x10000) / 0x400)) &&
        isTrail (UInt16.ofNat (0xDC00 + (c.toNat - 0x10000) % 0x400))) = true := by
      simp only [isLead, isTrail, hlead, htrail, Bool.and_eq_true, decide_eq_true_eq]
      omega
    have hcode : 0x10000 + (0xD800 + (c.toNat - 0x10000) / 0x400 - 0xD800) * 0x400 +
        (0xDC00 + (c.toNat - 0x10000) % 0x400 - 0xDC00) = c.toNat := by
      omega
    rw [List.cons_append, List.singleton_append, ofUnits, if_pos hpair, pairChar, hlead, htrail,
      hcode, Char.ofNat_toNat]

private theorem ofUnits_stringUnits (cs : List Char) : ofUnits (stringUnits cs) = cs := by
  induction cs with
  | nil => rfl
  | cons c cs ih =>
    rw [stringUnits, List.flatMap_cons, ofUnits_codeUnits_append]
    exact congrArg (c :: ·) ih

private theorem units?_plain {c : Char} (hquote : c ≠ '"') (hslash : c ≠ '\\') (rest : List Char) :
    units? (c :: rest) = (units? rest).map (codeUnits c.toNat ++ ·) := by
  rw [units?]
  · cases units? rest <;> rfl
  · rintro rfl
    exact absurd rfl hquote
  · rintro _ _ _ _ _ rfl
    exact absurd rfl hslash
  · rintro _ _ rfl
    exact absurd rfl hslash

private theorem units?_escape {c : Char} (hc : c ≠ 'u') (rest : List Char) :
    units? ('\\' :: c :: rest) = (units? rest).map (codeUnits (escaped c).toNat ++ ·) := by
  rw [units?]
  · cases units? rest <;> rfl
  · rintro _ _ _ _ _ rfl
    exact absurd rfl hc

private theorem units?_code {n : Nat} (hn : n < 0x10000) (rest : List Char) :
    units? ('\\' :: 'u' :: (hexDigits n 4 ++ rest)) = (units? rest).map (codeUnits n ++ ·) := by
  obtain ⟨a, b, c, d, hdigits⟩ := List.length_eq_four.mp (length_hexDigits n 4)
  have hcode : Number.numeral? 16 (hexDigits n 4) = some n :=
    numeral?_hexDigits (by decide) (show n < 16 ^ 4 by omega)
  rw [hdigits] at hcode ⊢
  simp only [List.cons_append, List.nil_append]
  rw [units?, hcode, codeUnits, if_pos hn]
  cases units? rest <;> rfl

private theorem units?_escapeJsonChar (c : Char) (rest : List Char) :
    units? (escapeJsonChar c ++ rest) = (units? rest).map (codeUnits c.toNat ++ ·) := by
  unfold escapeJsonChar
  split
  next hc =>
    rw [Bool.or_eq_true, beq_iff_eq, beq_iff_eq] at hc
    rcases hc with rfl | rfl
    · exact units?_escape (by decide) rest
    · exact units?_escape (by decide) rest
  next hmark =>
    rw [Bool.or_eq_true, beq_iff_eq, beq_iff_eq, not_or] at hmark
    split
    next hc =>
      obtain rfl := eq_of_beq hc
      exact units?_escape (by decide) rest
    split
    next hc =>
      obtain rfl := eq_of_beq hc
      exact units?_escape (by decide) rest
    split
    next hc =>
      obtain rfl := eq_of_beq hc
      exact units?_escape (by decide) rest
    split
    next hc =>
      obtain rfl := eq_of_beq hc
      exact units?_escape (by decide) rest
    split
    next hc =>
      obtain rfl := eq_of_beq hc
      exact units?_escape (by decide) rest
    split
    next hc =>
      refine units?_code ?_ rest
      simp only [Bool.or_eq_true, decide_eq_true_eq, beq_iff_eq] at hc
      rcases hc with ((((hlow | rfl) | rfl) | rfl) | rfl) | rfl
      · omega
      all_goals decide
    · exact units?_plain hmark.1 hmark.2 rest

private theorem stringText?_jsonString (s : String) : stringText?
    (jsonString s).toList = some s := by
  have hunits : ∀ cs : List Char,
      units? (cs.flatMap escapeJsonChar ++ ['"']) = some (stringUnits cs) := by
    intro cs
    induction cs with
    | nil => rfl
    | cons c cs ih =>
      rw [List.flatMap_cons, List.append_assoc, units?_escapeJsonChar, ih]
      rfl
  rw [jsonString, String.toList_ofList, stringText?, hunits, Option.map_some, ofUnits_stringUnits,
    String.ofList_toList]

end Strings

section Numbers

def digitsNumber (ds : List Char) : Nat := Nat.ofDigitChars 10 ds 0

def power : List Char → Int
  | [] => 0
  | _ :: '+' :: ds => digitsNumber ds
  | _ :: '-' :: ds => -(digitsNumber ds : Int)
  | _ :: ds => digitsNumber ds

def partsValue (whole fraction exponent : List Char) : ℚ :=
  digitsNumber (whole ++ fraction.tail) * 10 ^ (power exponent - fraction.tail.length)

def magnitudeValue? (cs : List Char) : Option ℚ := do
  let (whole, rest) ← wholePart? cs
  let (fraction, rest) ← fractionPart? rest
  let (exponent, _) ← exponentPart? rest
  return partsValue whole fraction exponent

def wordValue? : List Char → Option JsonValue
  | ['t', 'r', 'u', 'e'] => some (.bool true)
  | ['f', 'a', 'l', 's', 'e'] => some (.bool false)
  | ['n', 'u', 'l', 'l'] => some .null
  | '-' :: cs => (magnitudeValue? cs).map (.number true)
  | cs => (magnitudeValue? cs).map (.number false)

variable {whole fraction exponent : List Char}

theorem magnitudeValue?_parts (hwhole : WholePart whole) (hfraction : FractionPart fraction)
    (hexponent : ExponentPart exponent) :
    magnitudeValue? (whole ++ fraction ++ exponent) =
      some (partsValue whole fraction exponent) := by
  have hend : Delimited [] := nofun
  have hnot := fraction_not_digit hfraction hexponent hend
  have hfractionPart := fractionPart?_append hfraction hexponent hend
  have hexponentPart := exponentPart?_append hexponent hend
  rw [List.append_nil] at hnot hfractionPart hexponentPart
  rw [List.append_assoc, magnitudeValue?, wholePart?_append hwhole hnot]
  simp [hfractionPart, hexponentPart]

theorem wordValue?_negative (cs : List Char) :
    wordValue? ('-' :: cs) = (magnitudeValue? cs).map (.number true) := rfl

theorem wordValue?_positive {cs : List Char} (h : JsonMagnitude cs) :
    wordValue? cs = (magnitudeValue? cs).map (.number false) := by
  obtain ⟨d, tail, rfl, hd⟩ := magnitude_eq_cons h
  rw [wordValue?]
  · exact cons_ne_cons hd (by decide) _ _
  · exact cons_ne_cons hd (by decide) _ _
  · exact cons_ne_cons hd (by decide) _ _
  · exact fun _ => cons_ne_cons hd (by decide) _ _

end Numbers

section Values

mutual

def value? : Nat → List JsonToken → Option (JsonValue × List JsonToken)
  | 0, _ => none
  | fuel + 1, tokens =>
    match tokens with
    | .word raw :: rest => (wordValue? raw).map (·, rest)
    | .string raw :: rest => (stringText? raw).map fun text => (.string text, rest)
    | .openArray :: .closeArray :: rest => some (.array [], rest)
    | .openArray :: rest => (items? fuel rest).map fun (items, after) => (.array items, after)
    | .openObject :: .closeObject :: rest => some (.object [], rest)
    | .openObject :: rest =>
      (members? fuel rest).map fun (members, after) => (.object members, after)
    | _ => none

def items? : Nat → List JsonToken → Option (List JsonValue × List JsonToken)
  | 0, _ => none
  | fuel + 1, tokens => do
    let (value, rest) ← value? fuel tokens
    match rest with
    | .closeArray :: after => some ([value], after)
    | .comma :: more => (items? fuel more).map fun (values, after) => (value :: values, after)
    | _ => none

def members? : Nat → List JsonToken → Option (List (String × JsonValue) × List JsonToken)
  | fuel + 1, .string key :: .colon :: tokens => do
    let name ← stringText? key
    let (value, rest) ← value? fuel tokens
    match rest with
    | .closeObject :: after => some ([(name, value)], after)
    | .comma :: more =>
      (members? fuel more).map fun (members, after) => ((name, value) :: members, after)
    | _ => none
  | _, _ => none

end

-- The equations are derived here, once for all the proofs that rewrite with them.
attribute [grind =] value? items? members?

end Values

end JsonToken

/-- The value of a JSON text. -/
def JsonValue.read? (text : String) : Option JsonValue := do
  let tokens ← JsonToken.read? text.toList
  match JsonToken.value? tokens.length tokens with
  | some (value, []) => some value
  | _ => none

namespace JsonToken

/-- A text is cut into tokens, whatever follows it. -/
def Cuts (cs : List Char) (tokens : List JsonToken) : Prop :=
  ∀ {rest more}, Delimited rest → Reads rest more → Reads (cs ++ rest) (tokens ++ more)

/-- A text denotes a value wherever it stands. -/
def Gives (cs : List Char) (value : JsonValue) : Prop :=
  ∃ tokens, Cuts cs tokens ∧ ∀ fuel rest, tokens.length ≤ fuel →
    value? fuel (tokens ++ rest) = some (value, rest)

def GivesItems (cs : List Char) (values : List JsonValue) : Prop :=
  ∃ tokens, Cuts cs tokens ∧ ∀ fuel rest, tokens.length < fuel →
    items? fuel (tokens ++ .closeArray :: rest) = some (values, rest)

def GivesMembers (cs : List Char) (members : List (String × JsonValue)) : Prop :=
  ∃ tokens, Cuts cs tokens ∧ ∀ fuel rest, tokens.length < fuel →
    members? fuel (tokens ++ .closeObject :: rest) = some (members, rest)

section Giving

variable {cs more : List Char} {value : JsonValue}

theorem read?_of_gives {text : String} (h : Gives text.toList value) :
    JsonValue.read? text = some value := by
  obtain ⟨tokens, hcuts, hvalue⟩ := h
  have hreads : Reads (text.toList ++ []) (tokens ++ []) := hcuts nofun reads_nil
  rw [List.append_nil, List.append_nil] at hreads
  have htokens : JsonToken.read? text.toList = some tokens := hreads _ le_rfl
  have hall := hvalue tokens.length [] le_rfl
  rw [List.append_nil] at hall
  simp [JsonValue.read?, htokens, hall]

theorem gives_word (hword : JsonWord cs) (hvalue : wordValue? cs = some value) :
    Gives cs value := by
  refine ⟨[.word cs], fun hr hrest => hrest.word hword hr, fun fuel rest hfuel => ?_⟩
  obtain ⟨fuel, rfl⟩ : ∃ k, fuel = k + 1 := ⟨fuel - 1, by simp at hfuel; omega⟩
  simp [value?, hvalue]

theorem gives_jsonString (s : String) (hquoted : JsonQuoted (jsonString s).toList) :
    Gives (jsonString s).toList (.string s) := by
  refine ⟨[.string (jsonString s).toList], fun _ hrest => hrest.string hquoted,
    fun fuel rest hfuel => ?_⟩
  obtain ⟨fuel, rfl⟩ : ∃ k, fuel = k + 1 := ⟨fuel - 1, by simp at hfuel; omega⟩
  simp [value?, stringText?_jsonString]

theorem gives_emptyArray : Gives ['[', ']'] (.array []) := by
  refine ⟨[.openArray, .closeArray], fun _ hrest => Reads.mark rfl rfl (Reads.mark rfl rfl hrest),
    fun fuel rest hfuel => ?_⟩
  obtain ⟨fuel, rfl⟩ : ∃ k, fuel = k + 1 := ⟨fuel - 1, by simp at hfuel; omega⟩
  simp [value?]

theorem gives_emptyObject : Gives ['\x7b', '\x7d'] (.object []) := by
  refine ⟨[.openObject, .closeObject],
    fun _ hrest => Reads.mark rfl rfl (Reads.mark rfl rfl hrest), fun fuel rest hfuel => ?_⟩
  obtain ⟨fuel, rfl⟩ : ∃ k, fuel = k + 1 := ⟨fuel - 1, by simp at hfuel; omega⟩
  simp [value?]

private theorem value?_array {fuel : Nat} {tokens after : List JsonToken} {values : List JsonValue}
    (h : items? fuel tokens = some (values, after)) :
    value? (fuel + 1) (.openArray :: tokens) = some (.array values, after) := by
  have hopen : ∀ rest, tokens ≠ .closeArray :: rest := by
    rintro rest rfl
    cases fuel with
    | zero => cases h
    | succ fuel => cases fuel <;> simp [items?, value?] at h
  rw [value?, h]
  · rfl
  · exact hopen

private theorem value?_object {fuel : Nat} {tokens after : List JsonToken}
    {members : List (String × JsonValue)} (h : members? fuel tokens = some (members, after)) :
    value? (fuel + 1) (.openObject :: tokens) = some (.object members, after) := by
  have hopen : ∀ rest, tokens ≠ .closeObject :: rest := by
    rintro rest rfl
    cases fuel <;> simp [members?] at h
  rw [value?, h]
  · rfl
  · exact hopen

theorem gives_array {values : List JsonValue} (h : GivesItems cs values) :
    Gives ('[' :: (cs ++ [']'])) (.array values) := by
  obtain ⟨tokens, hcuts, hitems⟩ := h
  refine ⟨.openArray :: (tokens ++ [.closeArray]), fun _ hrest => ?_, fun fuel rest hfuel => ?_⟩
  · simp only [List.cons_append, List.append_assoc, List.nil_append]
    exact Reads.mark rfl rfl (hcuts (delimited_cons (by simp) _) (Reads.mark rfl rfl hrest))
  · rw [List.length_cons, List.length_append, List.length_singleton] at hfuel
    obtain ⟨fuel, rfl⟩ : ∃ k, fuel = k + 1 := ⟨fuel - 1, by omega⟩
    simp only [List.cons_append, List.append_assoc, List.nil_append]
    exact value?_array (hitems fuel rest (by omega))

theorem gives_object {members : List (String × JsonValue)} (h : GivesMembers cs members) :
    Gives ('\x7b' :: (cs ++ ['\x7d'])) (.object members) := by
  obtain ⟨tokens, hcuts, hmembers⟩ := h
  refine ⟨.openObject :: (tokens ++ [.closeObject]), fun _ hrest => ?_, fun fuel rest hfuel => ?_⟩
  · simp only [List.cons_append, List.append_assoc, List.nil_append]
    exact Reads.mark rfl rfl (hcuts (delimited_cons (by simp) _) (Reads.mark rfl rfl hrest))
  · rw [List.length_cons, List.length_append, List.length_singleton] at hfuel
    obtain ⟨fuel, rfl⟩ : ∃ k, fuel = k + 1 := ⟨fuel - 1, by omega⟩
    simp only [List.cons_append, List.append_assoc, List.nil_append]
    exact value?_object (hmembers fuel rest (by omega))

theorem givesItems_single (h : Gives cs value) : GivesItems cs [value] := by
  obtain ⟨tokens, hcuts, hvalue⟩ := h
  refine ⟨tokens, hcuts, fun fuel rest hfuel => ?_⟩
  obtain ⟨fuel, rfl⟩ : ∃ k, fuel = k + 1 := ⟨fuel - 1, by omega⟩
  simp [items?, hvalue fuel _ (by omega)]

theorem givesItems_cons {values : List JsonValue} (h : Gives cs value)
    (hmore : GivesItems more values) : GivesItems (cs ++ ',' :: more) (value :: values) := by
  obtain ⟨tokens, hcuts, hvalue⟩ := h
  obtain ⟨others, hothers, hvalues⟩ := hmore
  refine ⟨tokens ++ .comma :: others, fun hr hrest => ?_, fun fuel rest hfuel => ?_⟩
  · simp only [List.cons_append, List.append_assoc]
    exact hcuts (delimited_cons (by simp) _) (Reads.mark rfl rfl (hothers hr hrest))
  · rw [List.length_append, List.length_cons] at hfuel
    obtain ⟨fuel, rfl⟩ : ∃ k, fuel = k + 1 := ⟨fuel - 1, by omega⟩
    rw [List.append_assoc, List.cons_append, items?, hvalue fuel _ (by omega)]
    simp [hvalues fuel rest (by omega)]

section Members

variable {key : String}

private theorem members?_cons (key : String) (fuel : Nat) (tokens : List JsonToken) :
    members? (fuel + 1) (.string (jsonString key).toList :: .colon :: tokens) =
      (value? fuel tokens).bind fun (value, rest) =>
        match rest with
        | .closeObject :: after => some ([(key, value)], after)
        | .comma :: more =>
          (members? fuel more).map fun (members, after) => ((key, value) :: members, after)
        | _ => none := by
  rw [members?, stringText?_jsonString]
  rfl

theorem givesMembers_single (hquoted : JsonQuoted (jsonString key).toList) (h : Gives cs value) :
    GivesMembers ((jsonString key).toList ++ ':' :: cs) [(key, value)] := by
  obtain ⟨tokens, hcuts, hvalue⟩ := h
  refine ⟨.string (jsonString key).toList :: .colon :: tokens, fun hr hrest => ?_,
    fun fuel rest hfuel => ?_⟩
  · simp only [List.cons_append, List.append_assoc]
    exact Reads.string hquoted (Reads.mark rfl rfl (hcuts hr hrest))
  · rw [List.length_cons, List.length_cons] at hfuel
    obtain ⟨fuel, rfl⟩ : ∃ k, fuel = k + 1 := ⟨fuel - 1, by omega⟩
    rw [List.cons_append, List.cons_append, members?_cons, hvalue fuel _ (by omega)]
    rfl

theorem givesMembers_cons {members : List (String × JsonValue)}
    (hquoted : JsonQuoted (jsonString key).toList) (h : Gives cs value)
    (hmore : GivesMembers more members) :
    GivesMembers ((jsonString key).toList ++ ':' :: (cs ++ ',' :: more))
      ((key, value) :: members) := by
  obtain ⟨tokens, hcuts, hvalue⟩ := h
  obtain ⟨others, hothers, hmembers⟩ := hmore
  refine ⟨.string (jsonString key).toList :: .colon :: (tokens ++ .comma :: others),
    fun hr hrest => ?_, fun fuel rest hfuel => ?_⟩
  · simp only [List.cons_append, List.append_assoc]
    exact Reads.string hquoted (Reads.mark rfl rfl
      (hcuts (delimited_cons (by simp) _) (Reads.mark rfl rfl (hothers hr hrest))))
  · rw [List.length_cons, List.length_cons, List.length_append, List.length_cons] at hfuel
    obtain ⟨fuel, rfl⟩ : ∃ k, fuel = k + 1 := ⟨fuel - 1, by omega⟩
    rw [List.cons_append, List.cons_append, List.append_assoc, List.cons_append,
      members?_cons, hvalue fuel _ (by omega)]
    simp [hmembers fuel rest (by omega)]

end Members

end Giving

end JsonToken

end LexiconCompiler.Text
