import LexiconCompiler.Text.JsonLayout

set_option autoImplicit false
set_option relaxedAutoImplicit false

/-!
The grammar of JSON text without blanks, and that such a text has a layout exactly if it is not
nested too deep. What the grammar derives is cut into tokens, and the tokens are let through.
-/

namespace LexiconCompiler.Text

section Lexemes

/-- What stands between the quotes of a string. -/
inductive StringBody : List Char -> Prop
  | nil : StringBody []
  | plain {c : Char} {cs : List Char} : ' ' ≤ c → c ≠ '"' → c ≠ '\\' → StringBody cs →
      StringBody (c :: cs)
  | escape {c : Char} {cs : List Char} : JsonToken.isEscape c = true → StringBody cs →
      StringBody ('\\' :: c :: cs)
  | code {a b c d : Char} {cs : List Char} : [a, b, c, d].all JsonToken.isHexDigit = true →
      StringBody cs → StringBody ('\\' :: 'u' :: a :: b :: c :: d :: cs)

/-- A string with its quotes. -/
inductive JsonQuoted : List Char -> Prop
  | quoted {cs : List Char} : StringBody cs → JsonQuoted ('"' :: (cs ++ ['"']))

def IsDigits (ds : List Char) : Prop := ds ≠ [] ∧ ∀ c ∈ ds, isAsciiDigit c = true

/-- The digits of a whole number: zero, or digits that start with another one. -/
inductive WholePart : List Char -> Prop
  | zero : WholePart ['0']
  | digits {ds : List Char} : IsDigits ds → ds.head? ≠ some '0' → WholePart ds

inductive FractionPart : List Char -> Prop
  | none : FractionPart []
  | digits {ds : List Char} : IsDigits ds → FractionPart ('.' :: ds)

inductive ExponentPart : List Char -> Prop
  | none : ExponentPart []
  | digits {mark : Char} {sign ds : List Char} : mark = 'e' ∨ mark = 'E' →
      sign = [] ∨ sign = ['+'] ∨ sign = ['-'] → IsDigits ds → ExponentPart (mark :: (sign ++ ds))

/-- A number without its sign. -/
inductive JsonMagnitude : List Char -> Prop
  | parts {whole fraction exponent : List Char} : WholePart whole → FractionPart fraction →
      ExponentPart exponent → JsonMagnitude (whole ++ fraction ++ exponent)

/-- A number, or a word that stands for a value. -/
inductive JsonWord : List Char -> Prop
  | true : JsonWord "true".toList
  | false : JsonWord "false".toList
  | null : JsonWord "null".toList
  | positive {cs : List Char} : JsonMagnitude cs → JsonWord cs
  | negative {cs : List Char} : JsonMagnitude cs → JsonWord ('-' :: cs)

end Lexemes

/-- Values, and what stands between the brackets of arrays and objects that are not empty. -/
inductive JsonPart where
  | value
  | items
  | members

/-- Texts of JSON, with the depth of their nesting. -/
inductive JsonText : JsonPart -> Nat -> List Char -> Prop
  | word {cs : List Char} : JsonWord cs → JsonText .value 0 cs
  | string {cs : List Char} : JsonQuoted cs → JsonText .value 0 cs
  | emptyArray : JsonText .value 1 ['[', ']']
  | array {depth : Nat} {cs : List Char} : JsonText .items depth cs →
      JsonText .value (depth + 1) ('[' :: (cs ++ [']']))
  | emptyObject : JsonText .value 1 ['\x7b', '\x7d']
  | object {depth : Nat} {cs : List Char} : JsonText .members depth cs →
      JsonText .value (depth + 1) ('\x7b' :: (cs ++ ['\x7d']))
  | item {depth : Nat} {cs : List Char} : JsonText .value depth cs → JsonText .items depth cs
  | items {first rest : Nat} {cs more : List Char} : JsonText .value first cs →
      JsonText .items rest more → JsonText .items (max first rest) (cs ++ ',' :: more)
  | member {depth : Nat} {key cs : List Char} : JsonQuoted key → JsonText .value depth cs →
      JsonText .members depth (key ++ ':' :: cs)
  | members {first rest : Nat} {key cs more : List Char} : JsonQuoted key →
      JsonText .value first cs → JsonText .members rest more →
      JsonText .members (max first rest) (key ++ ':' :: (cs ++ ',' :: more))

namespace JsonToken

section Strings

private theorem stringEnd?_append {cs : List Char} (h : StringBody cs) (rest : List Char) :
    stringEnd? (cs ++ '"' :: rest) = some (cs ++ ['"'], rest) := by
  induction h with
  | nil => rw [List.nil_append, stringEnd?, List.nil_append]
  | @plain c cs hc hquote hslash _ ih =>
    have hlow : ¬ c < ' ' := by simpa using hc
    rw [List.cons_append, stringEnd?, ih]
    · simp [hslash, hlow]
    · exact hquote
    · rintro _ _ _ _ _ rfl
      exact absurd rfl hslash
    · rintro _ _ rfl
      exact absurd rfl hslash
  | @escape c cs hc _ ih =>
    rw [List.cons_append, List.cons_append, stringEnd?, ih, if_pos hc]
    · rfl
    · rintro _ _ _ _ _ rfl
      exact absurd hc (by decide)
  | @code a b c d cs hc _ ih =>
    simp only [List.cons_append]
    rw [stringEnd?, ih, if_pos hc]
    rfl

end Strings

section Numbers

theorem cons_ne_cons {test : Char → Bool} {c d : Char} (hc : test c = true) (hd : test d = false)
    (cs ds : List Char) : c :: cs ≠ d :: ds := by
  intro he
  rw [(List.cons.inj he).1, hd] at hc
  cases hc

/-- What may follow a word: the end, or a mark that closes or separates. -/
def Delimited (rest : List Char) : Prop := ∀ c ∈ rest.head?, c = ',' ∨ c = ']' ∨ c = '\x7d'

variable {ds whole fraction exponent rest : List Char}

private theorem digits?_append (h : IsDigits ds) (hr : ∀ c ∈ rest.head?, isAsciiDigit c = false) :
    digits? (ds ++ rest) = some (ds, rest) := by
  have hstop : rest.takeWhile isAsciiDigit = [] ∧ rest.dropWhile isAsciiDigit = rest := by
    cases rest with
    | nil => exact ⟨rfl, rfl⟩
    | cons c rest => simp [hr c rfl]
  rw [digits?, List.takeWhile_append_of_pos h.2, List.dropWhile_append_of_pos h.2, hstop.1,
    hstop.2, List.append_nil]
  cases hds : ds with
  | nil => exact absurd hds h.1
  | cons d ds => rfl

private theorem Delimited.not_mark (h : Delimited rest) :
    ∀ c ∈ rest.head?, isAsciiDigit c = false ∧ c ≠ '.' ∧ c ≠ 'e' ∧ c ≠ 'E' := by
  intro c hc
  rcases h c hc with rfl | rfl | rfl <;> decide

private theorem exponent_not_mark (h : ExponentPart exponent) (hr : Delimited rest) :
    ∀ c ∈ (exponent ++ rest).head?, isAsciiDigit c = false ∧ c ≠ '.' := by
  cases h with
  | none =>
    intro c hc
    obtain ⟨hdigit, hpoint, _⟩ := hr.not_mark c hc
    exact ⟨hdigit, hpoint⟩
  | digits hmark _ _ =>
    intro c hc
    obtain rfl := Option.some.inj hc
    rcases hmark with rfl | rfl <;> decide

theorem fraction_not_digit (h : FractionPart fraction) (he : ExponentPart exponent)
    (hr : Delimited rest) :
    ∀ c ∈ (fraction ++ (exponent ++ rest)).head?, isAsciiDigit c = false := by
  cases h with
  | none => exact fun c hc => (exponent_not_mark he hr c hc).1
  | digits _ =>
    intro c hc
    obtain rfl := Option.some.inj hc
    decide

theorem exponentPart?_append (h : ExponentPart exponent) (hr : Delimited rest) :
    exponentPart? (exponent ++ rest) = some (exponent, rest) := by
  have hend := hr.not_mark
  cases h with
  | none =>
    cases rest with
    | nil => rfl
    | cons c rest =>
      obtain ⟨_, _, hsmall, hlarge⟩ := hend c rfl
      simp [exponentPart?, hsmall, hlarge]
  | @digits mark sign ds hmark hsign hds =>
    have hread := digits?_append hds fun c hc => (hend c hc).1
    have hm : (mark == 'e' || mark == 'E') = true := by simpa using hmark
    rw [List.cons_append, List.append_assoc]
    rcases hsign with rfl | rfl | rfl
    -- Without a sign the first digit must not be taken for one.
    · obtain ⟨d, tail, rfl⟩ := List.exists_cons_of_ne_nil hds.1
      have hd : isAsciiDigit d = true := hds.2 d List.mem_cons_self
      rw [exponentPart?, if_pos hm, List.nil_append, hread]
      · rfl
      · exact cons_ne_cons hd (by decide) _
      · exact cons_ne_cons hd (by decide) _
    · rw [List.singleton_append, exponentPart?, if_pos hm, hread]
      rfl
    · rw [List.singleton_append, exponentPart?, if_pos hm, hread]
      rfl

theorem fractionPart?_append (h : FractionPart fraction) (he : ExponentPart exponent)
    (hr : Delimited rest) :
    fractionPart? (fraction ++ (exponent ++ rest)) = some (fraction, exponent ++ rest) := by
  have hend := exponent_not_mark he hr
  cases h with
  | none =>
    rw [List.nil_append]
    unfold fractionPart?
    split
    · rename_i hpoint
      rw [hpoint] at hend
      exact absurd rfl (hend '.' rfl).2
    · rfl
  | digits hds =>
    rw [List.cons_append, fractionPart?, digits?_append hds fun c hc => (hend c hc).1]
    rfl

theorem wholePart?_append (h : WholePart whole) (hr : ∀ c ∈ rest.head?, isAsciiDigit c = false) :
    wholePart? (whole ++ rest) = some (whole, rest) := by
  cases h with
  | zero => rfl
  | digits hds hzero =>
    obtain ⟨d, tail, rfl⟩ := List.exists_cons_of_ne_nil hds.1
    rw [List.cons_append, wholePart?]
    · exact digits?_append hds hr
    · rintro _ he
      exact hzero (congrArg some (List.cons.inj he).1)

private theorem magnitude?_append {cs : List Char} (h : JsonMagnitude cs) (hr : Delimited rest) :
    magnitude? (cs ++ rest) = some (cs, rest) := by
  obtain ⟨hwhole, hfraction, hexponent⟩ := h
  rw [List.append_assoc, List.append_assoc, magnitude?,
    wholePart?_append hwhole (fraction_not_digit hfraction hexponent hr)]
  simp [fractionPart?_append hfraction hexponent hr, exponentPart?_append hexponent hr]

theorem magnitude_eq_cons {cs : List Char} (h : JsonMagnitude cs) :
    ∃ d tail, cs = d :: tail ∧ isAsciiDigit d = true := by
  obtain ⟨hwhole, _, _⟩ := h
  cases hwhole with
  | zero => exact ⟨'0', _, rfl, by decide⟩
  | digits hds _ =>
    obtain ⟨d, tail, rfl⟩ := List.exists_cons_of_ne_nil hds.1
    exact ⟨d, _, rfl, hds.2 d List.mem_cons_self⟩

def startsWord (c : Char) : Bool :=
  isAsciiDigit c || c == '-' || c == 't' || c == 'f' || c == 'n'

private theorem word_eq_cons {cs : List Char} (h : JsonWord cs) :
    ∃ c tail, cs = c :: tail ∧ startsWord c = true := by
  cases h with
  | true => exact ⟨'t', _, rfl, by decide⟩
  | false => exact ⟨'f', _, rfl, by decide⟩
  | null => exact ⟨'n', _, rfl, by decide⟩
  | negative _ => exact ⟨'-', _, rfl, by decide⟩
  | positive hm =>
    obtain ⟨d, tail, rfl, hd⟩ := magnitude_eq_cons hm
    exact ⟨d, tail, rfl, by simp [startsWord, hd]⟩

private theorem word?_append {cs : List Char} (h : JsonWord cs) (hr : Delimited rest) :
    word? (cs ++ rest) = some (cs, rest) := by
  cases h with
  | true => rfl
  | false => rfl
  | null => rfl
  | negative hm =>
    rw [List.cons_append, word?, magnitude?_append hm hr]
    rfl
  | positive hm =>
    obtain ⟨d, tail, rfl, hd⟩ := magnitude_eq_cons hm
    rw [word?, magnitude?_append hm hr]
    · exact fun _ => cons_ne_cons hd (by decide) _ _
    · exact fun _ => cons_ne_cons hd (by decide) _ _
    · exact fun _ => cons_ne_cons hd (by decide) _ _
    · exact cons_ne_cons hd (by decide) _

end Numbers

section Reading

/-- A text is cut into tokens, whenever there are enough steps for it. -/
def Reads (cs : List Char) (tokens : List JsonToken) : Prop :=
  ∀ fuel, cs.length ≤ fuel → readAtMost fuel cs = some tokens

variable {rest : List Char} {more : List JsonToken}

theorem reads_nil : Reads [] [] := by
  intro fuel _
  rw [readAtMost]
  rfl

private theorem Reads.cons {c : Char} {tail : List Char} {token : JsonToken}
    (hn : next? (c :: tail ++ rest) = some (token, rest)) (hb : isBlank c = false)
    (h : Reads rest more) : Reads (c :: tail ++ rest) (token :: more) := by
  intro fuel hfuel
  rw [List.cons_append, List.length_cons, List.length_append] at hfuel
  obtain ⟨steps, rfl⟩ : ∃ steps, fuel = steps + 1 := ⟨fuel - 1, by omega⟩
  have hdrop : (c :: tail ++ rest).dropWhile isBlank = c :: tail ++ rest := by simp [hb]
  rw [List.cons_append] at hn hdrop ⊢
  unfold readAtMost
  simp only [hdrop, hn]
  simp [h steps (by omega)]

theorem Reads.mark {c : Char} {token : JsonToken} (hn : next? (c :: rest) = some (token, rest))
    (hb : isBlank c = false) (h : Reads rest more) : Reads (c :: rest) (token :: more) := by
  have hall : Reads ([c] ++ rest) (token :: more) := Reads.cons hn hb h
  exact hall

theorem Reads.word {cs : List Char} (hw : JsonWord cs) (hr : Delimited rest)
    (h : Reads rest more) : Reads (cs ++ rest) (.word cs :: more) := by
  have hword := word?_append hw hr
  obtain ⟨c, tail, rfl, hc⟩ := word_eq_cons hw
  have hblank : isBlank c = false := by
    cases hb : isBlank c with
    | false => rfl
    | true =>
      simp only [isBlank, Bool.or_eq_true, beq_iff_eq] at hb
      rcases hb with ((rfl | rfl) | rfl) | rfl <;> exact absurd hc (by decide)
  refine Reads.cons ?_ hblank h
  rw [next?, hword, Option.map_some]
  · exact List.cons_ne_nil _ _
  -- No mark and no quote starts a word.
  all_goals exact cons_ne_cons hc (by decide) _

theorem Reads.string {cs : List Char} (hq : JsonQuoted cs) (h : Reads rest more) :
    Reads (cs ++ rest) (.string cs :: more) := by
  obtain ⟨hbody⟩ := hq
  refine Reads.cons ?_ (by decide) h
  rw [List.cons_append, List.append_assoc, List.singleton_append, next?, stringEnd?_append hbody,
    Option.map_some]

end Reading

section Grammar

theorem delimited_cons {c : Char} (h : c = ',' ∨ c = ']' ∨ c = '\x7d') (rest : List Char) :
    Delimited (c :: rest) := by
  intro d hd
  obtain rfl := Option.some.inj hd
  exact h

def Expected.IsValue (e : Expected) : Prop := e = .value ∨ e = .valueOrEnd

def Expected.IsKey (e : Expected) : Prop := e = .key ∨ e = .keyOrEnd

private theorem advance_value {e : Expected} (he : e.IsValue) {token : JsonToken}
    (ht : token ≠ .closeArray) (around : List Bool) :
    advance around e token = startValue around token := by
  rcases he with rfl | rfl
  · cases around <;> rfl
  · cases around <;> cases token <;> first | rfl | exact absurd rfl ht

private theorem advance_key {e : Expected} (he : e.IsKey) (raw : List Char) (around : List Bool) :
    advance around e (.string raw) = some (around, .colon) := by
  rcases he with rfl | rfl <;> cases around <;> rfl

private theorem completes_cons {around next : List Bool} {e after : Expected} {token : JsonToken}
    (h : advance around e token = some (next, after)) (rest : List JsonToken) :
    completes around e (token :: rest) = completes next after rest := by
  rw [completes, h]

def Completes : JsonPart -> Nat -> List JsonToken -> Prop
  | .value, depth, tokens => ∀ around rest e, around.length ≤ maxDepth → e.IsValue →
      completes around e (tokens ++ rest) =
        (decide (around.length + depth ≤ maxDepth) && completes around .separator rest)
  | .items, depth, tokens => ∀ around rest e, around.length < maxDepth → e.IsValue →
      completes (false :: around) e (tokens ++ .closeArray :: rest) =
        (decide (around.length + 1 + depth ≤ maxDepth) && completes around .separator rest)
  | .members, depth, tokens => ∀ around rest e, around.length < maxDepth → e.IsKey →
      completes (true :: around) e (tokens ++ .closeObject :: rest) =
        (decide (around.length + 1 + depth ≤ maxDepth) && completes around .separator rest)

private theorem completes_descend {token : JsonToken} {isObject : Bool} {next : Expected}
    (ht : token ≠ .closeArray)
    (hstart : ∀ around, startValue around token = descend isObject next around) {depth : Nat}
    {tokens : List JsonToken} {close : JsonToken}
    (h : ∀ around rest, around.length < maxDepth →
      completes (isObject :: around) next (tokens ++ close :: rest) =
        (decide (around.length + 1 + depth ≤ maxDepth) && completes around .separator rest)) :
    Completes .value (depth + 1) (token :: (tokens ++ [close])) := by
  intro around rest e _ he
  rw [List.cons_append, List.append_assoc, List.singleton_append, completes, advance_value he ht,
    hstart, descend]
  by_cases hdeep : around.length < maxDepth
  · rw [if_pos hdeep]
    simp only [h around rest hdeep, Nat.add_assoc, Nat.add_comm 1 depth]
  · rw [if_neg hdeep]
    have hover : ¬ around.length + (depth + 1) ≤ maxDepth := by omega
    simp [hover]

/-- What the grammar derives is cut into tokens that are let through. -/
structure Scans (part : JsonPart) (depth : Nat) (cs : List Char) (tokens : List JsonToken) :
    Prop where
  reads : ∀ {rest more}, Delimited rest → Reads rest more → Reads (cs ++ rest) (tokens ++ more)
  completes : Completes part depth tokens

private theorem completes_leaf {token : JsonToken} (ht : token ≠ .closeArray)
    (hstart : ∀ around, startValue around token = some (around, .separator)) :
    Completes .value 0 [token] := by
  intro around rest e hdeep he
  rw [List.singleton_append, completes, advance_value he ht, hstart]
  simp [hdeep]

private theorem decide_max_le {first rest around : Nat} :
    (decide (around + 1 + first ≤ maxDepth) && decide (around + 1 + rest ≤ maxDepth)) =
      decide (around + 1 + max first rest ≤ maxDepth) := by
  rw [← Bool.decide_and, decide_eq_decide]
  omega

private theorem Scans.entry {depth : Nat} {cs : List Char} {tokens : List JsonToken}
    (h : Scans .value depth cs tokens) (isObject : Bool) {around : List Bool} {e : Expected}
    (hdeep : around.length < maxDepth) (he : e.IsValue) (rest : List JsonToken) :
    JsonToken.completes (isObject :: around) e (tokens ++ rest) =
      (decide (around.length + 1 + depth ≤ maxDepth) &&
        JsonToken.completes (isObject :: around) .separator rest) :=
  h.completes (isObject :: around) rest e hdeep he

private theorem exists_scans {part : JsonPart} {depth : Nat} {cs : List Char}
    (h : JsonText part depth cs) : ∃ tokens, Scans part depth cs tokens := by
  have harray : JsonToken.openArray ≠ .closeArray := nofun
  have hobject : JsonToken.openObject ≠ .closeArray := nofun
  -- Every value is followed by the end, a comma or a closing bracket, so no word runs on.
  induction h with
  | word hw =>
    exact ⟨_, fun hr hrest => hrest.word hw hr, completes_leaf nofun fun _ => rfl⟩
  | string hq =>
    exact ⟨_, fun _ hrest => hrest.string hq, completes_leaf nofun fun _ => rfl⟩
  | emptyArray =>
    refine ⟨.openArray :: ([] ++ [.closeArray]), fun _ hrest => ?_, ?_⟩
    · exact Reads.mark rfl rfl (Reads.mark rfl rfl hrest)
    · refine completes_descend harray (fun _ => rfl) fun around rest hdeep => ?_
      rw [List.nil_append, completes_cons rfl]
      simp [Nat.succ_le_of_lt hdeep]
  | emptyObject =>
    refine ⟨.openObject :: ([] ++ [.closeObject]), fun _ hrest => ?_, ?_⟩
    · exact Reads.mark rfl rfl (Reads.mark rfl rfl hrest)
    · refine completes_descend hobject (fun _ => rfl) fun around rest hdeep => ?_
      rw [List.nil_append, completes_cons rfl]
      simp [Nat.succ_le_of_lt hdeep]
  | array _ ih =>
    obtain ⟨tokens, hscans⟩ := ih
    refine ⟨.openArray :: (tokens ++ [.closeArray]), fun _ hrest => ?_, ?_⟩
    · simp only [List.cons_append, List.append_assoc, List.nil_append]
      exact Reads.mark rfl rfl
        (hscans.reads (delimited_cons (by simp) _) (Reads.mark rfl rfl hrest))
    · exact completes_descend harray (fun _ => rfl) fun around rest hdeep =>
        hscans.completes around rest _ hdeep (Or.inr rfl)
  | object _ ih =>
    obtain ⟨tokens, hscans⟩ := ih
    refine ⟨.openObject :: (tokens ++ [.closeObject]), fun _ hrest => ?_, ?_⟩
    · simp only [List.cons_append, List.append_assoc, List.nil_append]
      exact Reads.mark rfl rfl
        (hscans.reads (delimited_cons (by simp) _) (Reads.mark rfl rfl hrest))
    · exact completes_descend hobject (fun _ => rfl) fun around rest hdeep =>
        hscans.completes around rest _ hdeep (Or.inr rfl)
  | item _ ih =>
    obtain ⟨tokens, hscans⟩ := ih
    refine ⟨tokens, hscans.reads, fun around rest e hdeep he => ?_⟩
    rw [hscans.entry false hdeep he, completes_cons rfl]
  | items _ _ ihfirst ihrest =>
    obtain ⟨tokens, hfirst⟩ := ihfirst
    obtain ⟨others, hothers⟩ := ihrest
    refine ⟨tokens ++ .comma :: others, fun hr hrest => ?_, fun around rest e hdeep he => ?_⟩
    · simp only [List.cons_append, List.append_assoc]
      exact hfirst.reads (delimited_cons (by simp) _)
        (Reads.mark rfl rfl (hothers.reads hr hrest))
    · rw [List.append_assoc, List.cons_append, hfirst.entry false hdeep he, completes_cons rfl,
        hothers.completes around rest _ hdeep (Or.inl rfl), ← Bool.and_assoc, decide_max_le]
  | @member depth key cs hq _ ih =>
    obtain ⟨tokens, hscans⟩ := ih
    refine ⟨.string key :: .colon :: tokens, fun hr hrest => ?_, fun around rest e hdeep he => ?_⟩
    · simp only [List.cons_append, List.append_assoc]
      exact Reads.string hq (Reads.mark rfl rfl (hscans.reads hr hrest))
    · rw [List.cons_append, List.cons_append, completes_cons (advance_key he _ _),
        completes_cons rfl, hscans.entry true hdeep (Or.inl rfl), completes_cons rfl]
  | @members first rest key cs more hq _ _ ihfirst ihrest =>
    obtain ⟨tokens, hfirst⟩ := ihfirst
    obtain ⟨others, hothers⟩ := ihrest
    refine ⟨.string key :: .colon :: (tokens ++ .comma :: others), fun hr hrest => ?_,
      fun around rest e hdeep he => ?_⟩
    · simp only [List.cons_append, List.append_assoc]
      exact Reads.string hq (Reads.mark rfl rfl (hfirst.reads (delimited_cons (by simp) _)
        (Reads.mark rfl rfl (hothers.reads hr hrest))))
    · rw [List.cons_append, List.cons_append, List.append_assoc, List.cons_append,
        completes_cons (advance_key he _ _), completes_cons rfl,
        hfirst.entry true hdeep (Or.inl rfl), completes_cons rfl,
        hothers.completes around rest _ hdeep (Or.inl rfl), ← Bool.and_assoc, decide_max_le]

end Grammar

end JsonToken

/-- A JSON text has a layout exactly if it is not nested too deep. -/
theorem jsonLayout?_isSome_iff {depth : Nat} {text : String}
    (h : JsonText .value depth text.toList) (start step : String) :
    (jsonLayout? start step text).isSome = true ↔ depth ≤ JsonToken.maxDepth := by
  obtain ⟨tokens, hscans⟩ := JsonToken.exists_scans h
  have hread : JsonToken.read? text.toList = some tokens := by
    have hend : JsonToken.Delimited [] := by
      intro c hc
      cases hc
    have hall := hscans.reads hend JsonToken.reads_nil
    rw [List.append_nil, List.append_nil] at hall
    exact hall _ (Nat.le_refl _)
  have hdone : JsonToken.completes [] .value tokens = decide (depth ≤ JsonToken.maxDepth) := by
    have hall := hscans.completes [] [] .value (Nat.zero_le _) (Or.inl rfl)
    simpa [JsonToken.completes] using hall
  rw [jsonLayout?, hread]
  by_cases hdeep : depth ≤ JsonToken.maxDepth <;> simp [hdone, hdeep]

end LexiconCompiler.Text
