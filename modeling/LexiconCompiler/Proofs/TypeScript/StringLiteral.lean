import LexiconCompiler.Proofs.Text.Hexadecimal
import LexiconCompiler.Proofs.Text.Pieces
import LexiconCompiler.TypeScript.Printer

set_option autoImplicit false
set_option relaxedAutoImplicit false

/-!
String literals of generated files, read back by the rules of ECMAScript. A literal denotes code
units, as the strings of that language are made of them. Most escapes of quoted text mean the same
there; the bell and the numbered escapes of eight digits do not.
-/

namespace LexiconCompiler.TypeScript

open LexiconCompiler.Code LexiconCompiler.Number LexiconCompiler.Text

section Reading

def codeUnits (code : Nat) : List UInt16 :=
  if code < 0x10000 then [UInt16.ofNat code]
  else
    [UInt16.ofNat (0xD800 + (code - 0x10000) / 0x400),
     UInt16.ofNat (0xDC00 + (code - 0x10000) % 0x400)]

def stringUnits (cs : List Char) : List UInt16 := cs.flatMap fun c => codeUnits c.toNat

def isLineEnd (c : Char) : Bool := c == '\n' || c == '\r' || c == '\u2028' || c == '\u2029'

def escaped : Char -> Char
  | 'b' => '\x08'
  | 'f' => '\x0c'
  | 'n' => '\n'
  | 'r' => '\r'
  | 't' => '\t'
  | 'v' => '\x0b'
  | c => c

def fixedCode? (width : Nat) (cs : List Char) : Option (Nat × List Char) :=
  if cs.length < width then none
  else (numeral? 16 (cs.take width)).map (·, cs.drop width)

def bracedCode? (cs : List Char) : Option (Nat × List Char) :=
  match cutList '\x7d' cs with
  | none => none
  | some (digits, after) =>
    match numeral? 16 digits with
    | none => none
    | some code => if code ≤ 0x10FFFF then some (code, after) else none

def plainEscape? (c : Char) (rest : List Char) : Option (List UInt16) :=
  if isLineEnd c then some []
  else if c == '0' then if rest.head?.any isAsciiDigit then none else some [0]
  else if isAsciiDigit c then none
  else some (codeUnits (escaped c).toNat)

def escape? : List Char -> Option (List UInt16 × List Char)
  | [] => none
  | 'x' :: rest => (fixedCode? 2 rest).map fun (code, after) => (codeUnits code, after)
  | 'u' :: '\x7b' :: rest => (bracedCode? rest).map fun (code, after) => (codeUnits code, after)
  | 'u' :: rest => (fixedCode? 4 rest).map fun (code, after) => (codeUnits code, after)
  | '\r' :: '\n' :: rest => some ([], rest)
  | c :: rest => (plainEscape? c rest).map (·, rest)

private theorem length_of_fixedCode? {width : Nat} {cs : List Char} {code : Nat} {after : List Char}
    (h : fixedCode? width cs = some (code, after)) : after.length ≤ cs.length := by
  unfold fixedCode? at h
  split at h
  · cases h
  · obtain ⟨_, _, he⟩ := Option.map_eq_some_iff.mp h
    rw [← (Prod.mk.inj he).2, List.length_drop]
    omega

private theorem length_of_cutList {mark : Char} {cs before after : List Char}
    (h : cutList mark cs = some (before, after)) : after.length < cs.length := by
  rw [eq_of_cutList h, List.length_append, List.length_cons]
  omega

private theorem length_of_bracedCode? {cs : List Char} {code : Nat} {after : List Char}
    (h : bracedCode? cs = some (code, after)) : after.length ≤ cs.length := by
  unfold bracedCode? at h
  split at h
  · cases h
  · rename_i digits back hcut
    split at h
    · cases h
    · split at h
      · obtain ⟨_, rfl⟩ := Prod.mk.inj (Option.some.inj h)
        exact Nat.le_of_lt (length_of_cutList hcut)
      · cases h

private theorem length_of_escape? {cs : List Char} {units : List UInt16} {after : List Char}
    (h : escape? cs = some (units, after)) : after.length < cs.length := by
  unfold escape? at h
  split at h
  · cases h
  · obtain ⟨⟨code, back⟩, hcode, he⟩ := Option.map_eq_some_iff.mp h
    obtain ⟨_, rfl⟩ := Prod.mk.inj he
    exact Nat.lt_succ_of_le (length_of_fixedCode? hcode)
  · obtain ⟨⟨code, back⟩, hcode, he⟩ := Option.map_eq_some_iff.mp h
    obtain ⟨_, rfl⟩ := Prod.mk.inj he
    exact Nat.lt_succ_of_le (Nat.le_succ_of_le (length_of_bracedCode? hcode))
  · obtain ⟨⟨code, back⟩, hcode, he⟩ := Option.map_eq_some_iff.mp h
    obtain ⟨_, rfl⟩ := Prod.mk.inj he
    exact Nat.lt_succ_of_le (length_of_fixedCode? hcode)
  · obtain ⟨_, rfl⟩ := Prod.mk.inj (Option.some.inj h)
    exact Nat.lt_succ_of_lt (Nat.lt_succ_self _)
  · obtain ⟨_, _, he⟩ := Option.map_eq_some_iff.mp h
    obtain ⟨_, rfl⟩ := Prod.mk.inj he
    exact Nat.lt_succ_self _

def literalRest? (mark : Char) (cs : List Char) : Option (List UInt16 × List Char) :=
  match cs with
  | [] => none
  | c :: rest =>
    if c == mark then some ([], rest)
    else if c == '\\' then
      match _h : escape? rest with
      | none => none
      | some (units, after) =>
        (literalRest? mark after).map fun (more, left) => (units ++ more, left)
    else if c == '\n' || c == '\r' then none
    else (literalRest? mark rest).map fun (more, left) => (codeUnits c.toNat ++ more, left)
termination_by cs.length
decreasing_by
  · have hshorter := length_of_escape? _h
    simp only [List.length_cons]
    omega
  · exact Nat.lt_succ_self _

/-- The code units of the literal that a text starts with, and what follows it. -/
def literal? : List Char -> Option (List UInt16 × List Char)
  | '"' :: rest => literalRest? '"' rest
  | '\x27' :: rest => literalRest? '\x27' rest
  | _ => none

/-- A text is one literal, and its value is the given string. -/
def Denotes (text value : String) : Prop :=
  literal? text.toList = some (stringUnits value.toList, [])

instance (text value : String) : Decidable (Denotes text value) :=
  inferInstanceAs (Decidable (_ = _))

end Reading

section Steps

variable {mark : Char} {rest : List Char}

private theorem literalRest?_mark : literalRest? mark (mark :: rest) = some ([], rest) := by
  rw [literalRest?, if_pos (by simp)]

private theorem literalRest?_escape {cs after : List Char} {units : List UInt16} (hm : '\\' ≠ mark)
    (h : escape? cs = some (units, after)) :
    literalRest? mark ('\\' :: cs) =
      (literalRest? mark after).map fun (more, left) => (units ++ more, left) := by
  rw [literalRest?, if_neg (by simpa using hm), if_pos (by decide)]
  split
  · rename_i hnone
    rw [h] at hnone
    cases hnone
  · rename_i found back hsome
    rw [h] at hsome
    obtain ⟨rfl, rfl⟩ := Prod.mk.inj (Option.some.inj hsome)
    rfl

private theorem literalRest?_plain {c : Char} (hm : c ≠ mark) (hb : c ≠ '\\') (hn : c ≠ '\n')
    (hr : c ≠ '\r') :
    literalRest? mark (c :: rest) =
      (literalRest? mark rest).map fun (more, left) => (codeUnits c.toNat ++ more, left) := by
  rw [literalRest?, if_neg (by simpa using hm), if_neg (by simpa using hb),
    if_neg (by simp [hn, hr])]

private theorem fixedCode?_hexDigits {n width : Nat} (hw : width ≠ 0) (h : n < 16 ^ width) :
    fixedCode? width (hexDigits n width ++ rest) = some (n, rest) := by
  have htake : (hexDigits n width ++ rest).take width = hexDigits n width :=
    List.take_left' (length_hexDigits n width)
  have hdrop : (hexDigits n width ++ rest).drop width = rest :=
    List.drop_left' (length_hexDigits n width)
  have hlong : ¬ (hexDigits n width ++ rest).length < width := by
    rw [List.length_append, length_hexDigits]
    omega
  rw [fixedCode?, if_neg hlong, htake, hdrop, numeral?_hexDigits hw h]
  rfl

private theorem escape?_byte {n : Nat} (h : n < 0x100) :
    escape? ('x' :: (hexDigits n 2 ++ rest)) = some (codeUnits n, rest) := by
  rw [escape?, fixedCode?_hexDigits (by decide) h]
  rfl

private theorem escape?_unit {n : Nat} (h : n < 0x10000) :
    escape? ('u' :: (hexDigits n 4 ++ rest)) = some (codeUnits n, rest) := by
  have hcode : fixedCode? 4 (hexDigits n 4 ++ rest) = some (n, rest) :=
    fixedCode?_hexDigits (by decide) h
  have hlength := length_hexDigits n 4
  cases hd : hexDigits n 4 with
  | nil =>
    rw [hd] at hlength
    cases hlength
  | cons c digits =>
    have hmem : c ∈ hexDigits n 4 := by simp [hd]
    obtain ⟨_, hc⟩ := isHexDigit_of_mem hmem
    rw [hd] at hcode
    rw [List.cons_append] at hcode ⊢
    rw [escape?, hcode]
    · rfl
    · intro tail he
      exact hc.plain.2.2.2.2 (List.cons.inj he).1

end Steps

section Meaning

/-- Inside of a literal, a spelling stands for the given characters. -/
def ReadsAs (spelling value : List Char) : Prop :=
  ∀ rest, literalRest? '"' (spelling ++ rest) =
    (literalRest? '"' rest).map fun (more, left) => (stringUnits value ++ more, left)

private theorem ReadsAs.nil : ReadsAs [] [] := by
  intro rest
  cases h : literalRest? '"' rest <;> simp [stringUnits, h]

private theorem stringUnits_append (cs ds : List Char) :
    stringUnits (cs ++ ds) = stringUnits cs ++ stringUnits ds := List.flatMap_append

private theorem ReadsAs.append {front back cs ds : List Char} (hf : ReadsAs front cs)
    (hb : ReadsAs back ds) : ReadsAs (front ++ back) (cs ++ ds) := by
  intro rest
  rw [List.append_assoc, hf, hb, Option.map_map, stringUnits_append]
  simp [Function.comp_def]

private theorem ReadsAs.plain {c : Char} (hm : c ≠ '"') (hb : c ≠ '\\') (hn : c ≠ '\n')
    (hr : c ≠ '\r') :
    ReadsAs [c] [c] := by
  intro rest
  rw [List.singleton_append, literalRest?_plain hm hb hn hr]
  simp [stringUnits]

private theorem ReadsAs.escape {c : Char} {spelling : List Char}
    (h : ∀ rest, escape? (spelling ++ rest) = some (codeUnits c.toNat, rest)) :
    ReadsAs ('\\' :: spelling) [c] := by
  intro rest
  rw [List.cons_append, literalRest?_escape (by decide) (h rest)]
  simp [stringUnits]

private theorem ReadsAs.digits {digits : List Char}
    (h : ∀ c ∈ digits, ∃ value, IsHexDigit c value) :
    ReadsAs digits digits := by
  induction digits with
  | nil => exact .nil
  | cons c digits ih =>
    rw [List.forall_mem_cons] at h
    obtain ⟨⟨_, hc⟩, hdigits⟩ := h
    obtain ⟨hquote, hback, hline, hreturn, _⟩ := hc.plain
    exact (ReadsAs.plain hquote hback hline hreturn).append (ih hdigits)

/-- Characters whose escapes mean the same in both languages. -/
def Faithful (c : Char) : Prop := c ≠ '\x07' ∧ (c.toNat < 0x10000 ∨ isPrintable c = true)

instance (c : Char) : Decidable (Faithful c) := inferInstanceAs (Decidable (_ ∧ _))

/-- What a quoted character is read as. A backslash in front of `a` or `U` has no meaning of its
own, so that the letter is left over, with the digits behind it. -/
def readAs (c : Char) : List Char :=
  if Faithful c then [c]
  else if c = '\x07' then ['a']
  else 'U' :: hexDigits c.toNat 8

private theorem readAs_of_faithful {c : Char} (h : Faithful c) : readAs c = [c] := if_pos h

private theorem readAs_bell : readAs '\x07' = ['a'] := by
  rw [readAs, if_neg (fun h => h.1 rfl), if_pos rfl]

private theorem readAs_of_wide {c : Char} (h : ¬ Faithful c) (hbell : c ≠ '\x07') :
    readAs c = 'U' :: hexDigits c.toNat 8 := by
  rw [readAs, if_neg h, if_neg hbell]

def letters : List (Char × Char) :=
  [('\x08', 'b'), ('\x0c', 'f'), ('\n', 'n'), ('\r', 'r'), ('\t', 't'), ('\x0b', 'v')]

private theorem escapeChar_letter {c letter : Char} (h : (c, letter) ∈ letters) :
    escapeChar '"' c = ['\\', letter] ∧ Faithful c ∧
      ∀ rest, escape? ([letter] ++ rest) = some (codeUnits c.toNat, rest) := by
  simp only [letters, List.mem_cons, Prod.mk.injEq, List.not_mem_nil, or_false] at h
  obtain ⟨rfl, rfl⟩ | ⟨rfl, rfl⟩ | ⟨rfl, rfl⟩ | ⟨rfl, rfl⟩ | ⟨rfl, rfl⟩ | ⟨rfl, rfl⟩ := h <;>
    exact ⟨by decide, by decide, fun _ => rfl⟩

private theorem escapeChar_numbered {c : Char} (hprint : isPrintable c = false) (hbell : c ≠ '\x07')
    (hletter : c ∉ letters.map Prod.fst) :
    escapeChar '"' c =
      if c.toNat < 0x80 then '\\' :: 'x' :: hexDigits c.toNat 2
      else if c.toNat < 0x10000 then '\\' :: 'u' :: hexDigits c.toNat 4
      else '\\' :: 'U' :: hexDigits c.toNat 8 := by
  have hplain : c ≠ '"' ∧ c ≠ '\\' := by
    constructor <;> rintro rfl <;> revert hprint <;> decide
  simp only [letters, List.map_cons, List.map_nil, List.mem_cons, List.not_mem_nil, or_false,
    not_or] at hletter
  simp only [escapeChar, beq_iff_eq, Bool.or_eq_true, hplain, hprint, hbell, hletter, or_self,
    Bool.false_eq_true, if_false]

private theorem faithful_of_lt {c : Char} (hbell : c ≠ '\x07') (h : c.toNat < 0x10000) :
    Faithful c :=
  ⟨hbell, .inl h⟩

private theorem ne_of_isPrintable {c : Char} (h : isPrintable c = true) :
    c ≠ '\x07' ∧ c ≠ '\n' ∧ c ≠ '\r' := by
  refine ⟨?_, ?_, ?_⟩ <;> rintro rfl <;> revert h <;> decide

private theorem readsAs_numbered {c : Char} (hprint : isPrintable c = false) (hbell : c ≠ '\x07')
    (hletter : c ∉ letters.map Prod.fst) : ReadsAs (escapeChar '"' c) (readAs c) := by
  rw [escapeChar_numbered hprint hbell hletter]
  by_cases hbyte : c.toNat < 0x80
  · rw [if_pos hbyte, readAs_of_faithful (faithful_of_lt hbell (by omega))]
    exact .escape fun _ => escape?_byte (by omega)
  rw [if_neg hbyte]
  by_cases hunit : c.toNat < 0x10000
  · rw [if_pos hunit, readAs_of_faithful (faithful_of_lt hbell hunit)]
    exact .escape fun _ => escape?_unit hunit
  · have hunfaithful : ¬ Faithful c := by simp [Faithful, hunit, hprint]
    have hcapital : ReadsAs ['\\', 'U'] ['U'] := .escape fun _ => rfl
    have hdigits : ReadsAs (hexDigits c.toNat 8) (hexDigits c.toNat 8) :=
      .digits fun _ hd => isHexDigit_of_mem hd
    rw [if_neg hunit, readAs_of_wide hunfaithful hbell]
    exact hcapital.append hdigits

private theorem readsAs_escapeChar (c : Char) : ReadsAs (escapeChar '"' c) (readAs c) := by
  by_cases hquoted : c = '"' ∨ c = '\\'
  · have hspelled : escapeChar '"' c = ['\\', c] := if_pos (by simpa using hquoted)
    have hfaithful : Faithful c := by obtain rfl | rfl := hquoted <;> decide
    rw [hspelled, readAs_of_faithful hfaithful]
    refine .escape fun rest => ?_
    obtain rfl | rfl := hquoted <;> rfl
  by_cases hprint : isPrintable c = true
  · have hspelled : escapeChar '"' c = [c] := by
      rw [escapeChar, if_neg (by simpa using hquoted), if_pos hprint]
    obtain ⟨hbell, hline, hreturn⟩ := ne_of_isPrintable hprint
    rw [hspelled, readAs_of_faithful ⟨hbell, .inr hprint⟩]
    exact .plain (fun h => hquoted (.inl h)) (fun h => hquoted (.inr h)) hline hreturn
  by_cases hbell : c = '\x07'
  · subst hbell
    have hspelled : escapeChar '"' '\x07' = ['\\', 'a'] := by decide
    rw [hspelled, readAs_bell]
    exact .escape fun _ => rfl
  by_cases hletter : c ∈ letters.map Prod.fst
  · obtain ⟨⟨_, letter⟩, hmem, rfl⟩ := List.mem_map.mp hletter
    obtain ⟨hspelled, hfaithful, hescape⟩ := escapeChar_letter hmem
    rw [hspelled, readAs_of_faithful hfaithful]
    exact .escape hescape
  · exact readsAs_numbered (by simpa using hprint) hbell hletter

private theorem readsAs_flatMap (cs : List Char) :
    ReadsAs (cs.flatMap (escapeChar '"')) (cs.flatMap readAs) := by
  induction cs with
  | nil => exact .nil
  | cons c cs ih => exact (readsAs_escapeChar c).append ih

private theorem literal?_quote (s : String) :
    literal? (quote s).toList = some (stringUnits (s.toList.flatMap readAs), []) := by
  rw [quote, String.toList_ofList, quoteList, literal?, readsAs_flatMap, literalRest?_mark]
  simp

private theorem codeUnits_of_wide {c : Char} (h : 0x10000 ≤ c.toNat) :
    ∃ lead trail, codeUnits c.toNat = [lead, trail] ∧ lead ≠ UInt16.ofNat 'U'.toNat := by
  have hvalid : c.toNat < 0xD800 ∨ 0xDFFF < c.toNat ∧ c.toNat < 0x110000 := c.valid
  refine ⟨_, _, if_neg (by omega), fun he => ?_⟩
  have hnat := congrArg UInt16.toNat he
  rw [UInt16.toNat_ofNat', UInt16.toNat_ofNat'] at hnat
  have hletter : 'U'.toNat = 85 := rfl
  omega

private theorem stringUnits_readAs_ne {c : Char} (h : ¬ Faithful c) (more others : List UInt16) :
    stringUnits (readAs c) ++ more ≠ stringUnits [c] ++ others := by
  by_cases hbell : c = '\x07'
  · subst hbell
    rw [readAs_bell]
    intro he
    exact absurd (List.cons.inj he).1 (by decide)
  · have hwide : 0x10000 ≤ c.toNat := by
      by_contra hlow
      exact h (faithful_of_lt hbell (by omega))
    obtain ⟨lead, trail, hunits, hlead⟩ := codeUnits_of_wide hwide
    have hletter : codeUnits 'U'.toNat = [UInt16.ofNat 'U'.toNat] := if_pos (by decide)
    rw [readAs_of_wide h hbell]
    intro he
    rw [stringUnits, stringUnits, List.flatMap_singleton, hunits, List.flatMap_cons, hletter,
      List.singleton_append, List.cons_append, List.cons_append] at he
    exact hlead (List.cons.inj he).1.symm

private theorem stringUnits_flatMap_readAs_eq_iff (cs : List Char) :
    stringUnits (cs.flatMap readAs) = stringUnits cs ↔ ∀ c ∈ cs, Faithful c := by
  induction cs with
  | nil => simp
  | cons c cs ih =>
    have hsplit : stringUnits (c :: cs) = stringUnits [c] ++ stringUnits cs :=
      stringUnits_append [c] cs
    rw [List.flatMap_cons, stringUnits_append, hsplit, List.forall_mem_cons, ← ih]
    by_cases hc : Faithful c
    · rw [readAs_of_faithful hc]
      simp [hc]
    · simp [hc, stringUnits_readAs_ne hc]

/-- Quoted text has the value of the text exactly if every character has an escape, or none, that
both languages share. -/
private theorem denotes_quote_iff (s : String) : Denotes
    (quote s) s ↔ ∀ c ∈ s.toList, Faithful c := by
  rw [Denotes, literal?_quote, ← stringUnits_flatMap_readAs_eq_iff]
  simp

private theorem denotes_quote_of_readAs {s t : String} (h : s.toList.flatMap readAs = t.toList) :
    Denotes (quote s) t := by
  rw [Denotes, literal?_quote, h]

/-- An unprintable character beyond the basic plane, and nothing else. -/
def tagText : String := String.ofList [Char.ofNat 0xE0041]

end Meaning

section Printed

variable (site : Site) (depth : Nat) (imports : Imports)

/-- Literal types, string values and quoted property names are written alike: one literal, that
denotes the string exactly if it is free of the bell and of unprintable characters beyond the basic
plane. Elsewhere it denotes what the characters are read as. -/
theorem string_denotes_iff (s : String) :
    ∃ text,
      typeText site (.literal (.str s)) depth imports = .ok (text, imports) ∧
      exprText site (.str s) depth imports = .ok (text, imports) ∧
      (isIdentifier s = false -> propertyName s = text) ∧
      literal? text.toList = some (stringUnits (s.toList.flatMap readAs), []) ∧
      (Denotes text s ↔
        ∀ c ∈ s.toList, c ≠ '\x07' ∧ (c.toNat < 0x10000 ∨ isPrintable c = true)) := by
  refine ⟨quote s, ?_, ?_, fun h => ?_, literal?_quote s, denotes_quote_iff s⟩
  · rw [typeText]
    rfl
  · rw [exprText]
    rfl
  · rw [propertyName, h]
    rfl

end Printed

/-- The literal type that is written for the bell is that of the letter `a`, and the value written
for a tag character has nine letters and digits. -/
theorem string_denotes_other :
    (∃ text,
      typeText ⟨Options.default.style, "com.example.bell"⟩ (.literal (.str "\x07")) 0 .none =
        .ok (text, .none) ∧
      Denotes text "a" ∧ ¬ Denotes text "\x07") ∧
    (∃ text,
      exprText ⟨Options.default.style, "com.example.bell"⟩ (.str tagText) 0 .none =
        .ok (text, .none) ∧
      Denotes text "U000e0041" ∧ ¬ Denotes text tagText) := by
  refine ⟨⟨quote "\x07", by rw [typeText]; rfl, ?_, ?_⟩, ⟨_, by rw [exprText]; rfl, ?_, ?_⟩⟩
  · exact denotes_quote_of_readAs readAs_bell
  · rw [denotes_quote_iff]
    intro hall
    exact (hall '\x07' (by simp)).1 rfl
  · refine denotes_quote_of_readAs ?_
    rw [tagText, String.toList_ofList]
    decide +kernel
  · rw [denotes_quote_iff, tagText, String.toList_ofList]
    intro hall
    exact absurd (hall _ List.mem_cons_self).2 (by decide +kernel)

end LexiconCompiler.TypeScript
