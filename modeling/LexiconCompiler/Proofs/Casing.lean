import LexiconCompiler.Casing
import LexiconCompiler.Proofs.Address

set_option autoImplicit false
set_option relaxedAutoImplicit false

/-!
Names of generated code that come from dotted and hyphenated texts of the ASCII range: what they
are made of and what they start with, that titles are put together part by part, and when two of
them are the same.
-/

namespace LexiconCompiler.Casing

open LexiconCompiler.Text

/-- A text of letters, digits and separators that starts with a given letter or digit. -/
structure Spelled (cs : List Char) (first : Char) : Prop where
  front : cs.head? = some first
  alnum : isAsciiAlnum first = true
  chars : ∀ c ∈ cs, isAsciiAlnum c = true ∨ isSeparator c = true

private theorem isSeparator_of_isAsciiAlnum {c : Char} :
    isAsciiAlnum c = true → isSeparator c = false :=
  of_isAsciiAlnum (P := fun c => isSeparator c = false) (by decide +kernel)

section Parts

variable {cs : List Char} {first : Char}

private theorem Spelled.exists_parts (h : Spelled cs first) :
    ∃ piece pieces, parts cs = (first :: piece) :: pieces := by
  cases cs with
  | nil => cases h.front
  | cons c rest =>
    obtain rfl : c = first := Option.some.inj h.front
    exact exists_fieldsList_cons (isSeparator_of_isAsciiAlnum h.alnum) rest

private theorem Spelled.alnum_of_mem_parts (h : Spelled cs first) {piece : List Char}
    (hp : piece ∈ parts cs) : ∀ c ∈ piece, isAsciiAlnum c = true := by
  intro c hc
  obtain ⟨hmem, hseparator⟩ := mem_fieldsList hp c hc
  refine (h.chars c hmem).resolve_right ?_
  simp [hseparator]

private theorem Spelled.append {separator : Char} {front back : List Char} {next : Char}
    (h : Spelled front first) (hs : isSeparator separator = true) (hb : Spelled back next) :
    Spelled (front ++ separator :: back) first := by
  refine ⟨by simp [h.front], h.alnum, fun c hc => ?_⟩
  rcases List.mem_append.mp hc with hc | hc
  · exact h.chars c hc
  · rcases List.mem_cons.mp hc with rfl | hc
    · exact Or.inr hs
    · exact hb.chars c hc

end Parts

section Title

private theorem titleList_append {separator : Char} (h : isSeparator separator = true)
    (front back : List Char) :
    titleList (front ++ separator :: back) = titleList front ++ titleList back := by
  rw [titleList, parts, fieldsList_append h, List.flatMap_append]
  rfl

private theorem title_append_dot (front back : String) :
    title (front ++ "." ++ back) = title front ++ title back := by
  have hdot : (front ++ "." ++ back).toList = front.toList ++ '.' :: back.toList := by simp
  rw [title, hdot, titleList_append rfl, String.ofList_append]
  rfl

private theorem isAsciiAlnum_upperFirst {piece : List Char}
    (h : ∀ c ∈ piece, isAsciiAlnum c = true) :
    ∀ c ∈ upperFirst piece, isAsciiAlnum c = true := by
  cases piece with
  | nil => exact h
  | cons c rest =>
    rw [List.forall_mem_cons] at h
    exact List.forall_mem_cons.mpr ⟨isAsciiAlnum_toUpper h.1, h.2⟩

variable {cs ds : List Char} {first other : Char}

theorem Spelled.exists_titleList (h : Spelled cs first) :
    ∃ rest, titleList cs = toUpper first :: rest := by
  obtain ⟨piece, pieces, hp⟩ := h.exists_parts
  exact ⟨_, by rw [titleList, hp, List.flatMap_cons]; rfl⟩

theorem Spelled.alnum_titleList (h : Spelled cs first) :
    ∀ c ∈ titleList cs, isAsciiAlnum c = true := by
  intro c hc
  obtain ⟨piece, hp, hc⟩ := List.mem_flatMap.mp hc
  exact isAsciiAlnum_upperFirst (h.alnum_of_mem_parts hp) c hc

theorem Spelled.alnum_camel (h : Spelled cs first) :
    ∀ c ∈ lowerFirst (titleList cs), isAsciiAlnum c = true := by
  have htitle := h.alnum_titleList
  obtain ⟨rest, hrest⟩ := h.exists_titleList
  rw [hrest, List.forall_mem_cons] at htitle
  rw [hrest]
  exact List.forall_mem_cons.mpr ⟨(cased_of_isAsciiAlnum htitle.1).lower_alnum, htitle.2⟩

private theorem Spelled.lowerFirst_inj (h : Spelled cs first) (k : Spelled ds other)
    (he : lowerFirst (titleList cs) = lowerFirst (titleList ds)) :
    titleList cs = titleList ds := by
  obtain ⟨rest, hrest⟩ := h.exists_titleList
  obtain ⟨rest', hrest'⟩ := k.exists_titleList
  rw [hrest, hrest', lowerFirst, lowerFirst, List.cons.injEq] at he
  have hfront (c : Char) (hc : isAsciiAlnum c = true) :
      toUpper (toLower (toUpper c)) = toUpper c := by
    rw [(cased_of_isAsciiAlnum (isAsciiAlnum_toUpper hc)).upper_lower,
      (cased_of_isAsciiAlnum hc).upper_upper]
  rw [hrest, hrest', he.2, ← hfront first h.alnum, ← hfront other k.alnum, he.1]

end Title

section Screaming

private theorem leadingInitialism?_eq_some {bytes word : List UInt8}
    (h : leadingInitialism? bytes = some word) : word <+: bytes ∧ word ≠ [] := by
  -- What is kept is always a front of the bytes, and longer than what was kept before.
  refine List.foldlRecOn (motive := fun kept : Option (List UInt8) =>
    ∀ best, kept = some best → best <+: bytes ∧ best ≠ []) _ _ (by simp) ?_ word h
  intro kept ih found _ best hbest
  split at hbest
  · rename_i hfound
    obtain rfl := Option.some.inj hbest
    simp only [Bool.and_eq_true, List.isPrefixOf_iff_prefix, decide_eq_true_eq] at hfound
    exact ⟨hfound.1, List.ne_nil_of_length_pos (Nat.zero_lt_of_lt hfound.2)⟩
  · exact ih best hbest

private theorem subset_of_mem_wordsFrom {bytes word : List UInt8} {cs : List Char}
    {index start skip : Nat} (h : word ∈ wordsFrom bytes cs index start skip) : word ⊆ bytes := by
  induction cs generalizing index start skip with
  | nil =>
    rw [wordsFrom] at h
    split at h
    · cases h
    · rw [List.mem_singleton.mp h]
      exact List.drop_subset start bytes
  | cons c rest ih =>
    cases skip with
    | succ skip => exact ih h
    | zero =>
      rw [wordsFrom] at h
      split at h
      · split at h
        · rename_i found hfound
          rcases List.mem_cons.mp h with rfl | h
          · have hfront := (leadingInitialism?_eq_some hfound).1.subset
            exact List.Subset.trans hfront (List.drop_subset start bytes)
          · exact ih h
        · rcases List.mem_cons.mp h with rfl | h
          · exact List.Subset.trans (List.take_subset _ _) (List.drop_subset start bytes)
          · exact ih h
      · exact ih h

private theorem exists_wordsFrom {bytes : List UInt8} (hb : bytes ≠ []) (cs : List Char)
    (index skip : Nat) :
    ∃ word words, wordsFrom bytes cs index 0 skip = word :: words ∧ word.head? = bytes.head? := by
  induction cs generalizing index skip with
  | nil =>
    refine ⟨bytes, [], ?_, rfl⟩
    simp [wordsFrom, hb]
  | cons c rest ih =>
    cases skip with
    | succ skip => exact ih (index + 1) skip
    | zero =>
      rw [wordsFrom, List.drop_zero]
      split
      · rename_i hindex
        have hpos : 0 < index := by simp_all
        split
        · rename_i word hword
          obtain ⟨⟨rest, rfl⟩, hne⟩ := leadingInitialism?_eq_some hword
          exact ⟨word, _, rfl, (List.head?_append_of_ne_nil word hne).symm⟩
        · refine ⟨_, _, rfl, ?_⟩
          rw [Nat.sub_zero, List.head?_take, if_neg (Nat.ne_of_gt hpos)]
      · exact ih (index + 1) 0

variable {cs : List Char} {first : Char}

private theorem decode_word (h : ∀ c ∈ cs, isAsciiAlnum c = true) {word : List UInt8}
    (hw : word ∈ wordsFrom (utf8Bytes cs) cs 0 0 0) :
    decodeBytes word = word.map fun b => Char.ofNat b.toNat :=
  decodeBytes_of_subset (fun c hc => toNat_lt_of_isAsciiAlnum (h c hc)) (subset_of_mem_wordsFrom hw)

private theorem chars_snakeList (h : ∀ c ∈ cs, isAsciiAlnum c = true) :
    ∀ c ∈ snakeList cs, isAsciiAlnum c = true ∨ c = '_' := by
  have hascii : ∀ c ∈ cs, c.toNat < 128 := fun c hc => toNat_lt_of_isAsciiAlnum (h c hc)
  intro c hc
  rcases mem_intercalate hc with hc | ⟨_, hm, hc⟩
  · exact Or.inr (List.mem_singleton.mp hc)
  · obtain ⟨word, hw, rfl⟩ := List.mem_map.mp hm
    obtain ⟨d, hd, rfl⟩ := List.mem_map.mp hc
    rw [decode_word h hw] at hd
    have hmem := List.map_subset (fun b : UInt8 => Char.ofNat b.toNat)
      (subset_of_mem_wordsFrom hw) hd
    rw [map_utf8Bytes_ascii hascii] at hmem
    exact Or.inl (cased_of_isAsciiAlnum (h d hmem)).lower_alnum

private theorem head?_snakeList (h : ∀ c ∈ cs, isAsciiAlnum c = true) (hf : cs.head? = some first) :
    (snakeList cs).head? = some (toLower first) := by
  have hascii : ∀ c ∈ cs, c.toNat < 128 := fun c hc => toNat_lt_of_isAsciiAlnum (h c hc)
  have hback := map_utf8Bytes_ascii hascii
  have hne : utf8Bytes cs ≠ [] := by
    rintro hnil
    rw [hnil] at hback
    rw [← hback] at hf
    cases hf
  obtain ⟨word, words, hwords, hhead⟩ := exists_wordsFrom hne cs 0 0
  have hdecoded := decode_word h (hwords ▸ List.mem_cons_self)
  have hfirst : ((decodeBytes word).map toLower).head? = some (toLower first) := by
    rw [hdecoded, List.head?_map, List.head?_map, hhead, ← List.head?_map, hback, hf]
    rfl
  rw [snakeList, hwords, List.map_cons, head?_intercalate _ (by rintro hnil; simp [hnil] at hfirst),
    hfirst]

theorem Spelled.head?_screaming (h : Spelled cs first) :
    ((['_'].intercalate ((parts cs).map snakeList)).map toUpper).head? = some (toUpper first) := by
  obtain ⟨piece, pieces, hp⟩ := h.exists_parts
  have hpiece := h.alnum_of_mem_parts (hp ▸ List.mem_cons_self)
  have hfirst := head?_snakeList hpiece rfl
  rw [hp, List.map_cons, List.head?_map,
    head?_intercalate _ (by rintro hnil; simp [hnil] at hfirst), hfirst, Option.map_some,
    (cased_of_isAsciiAlnum h.alnum).upper_lower]

theorem Spelled.chars_screaming (h : Spelled cs first) :
    ∀ c ∈ (['_'].intercalate ((parts cs).map snakeList)).map toUpper,
      isAsciiAlnum c = true ∨ c = '_' := by
  intro c hc
  obtain ⟨d, hd, rfl⟩ := List.mem_map.mp hc
  have hparts : isAsciiAlnum d = true ∨ d = '_' := by
    rcases mem_intercalate hd with hd | ⟨_, hm, hd⟩
    · exact Or.inr (List.mem_singleton.mp hd)
    · obtain ⟨piece, hp, rfl⟩ := List.mem_map.mp hm
      exact chars_snakeList (h.alnum_of_mem_parts hp) d hd
  rcases hparts with hd | rfl
  · exact Or.inl (isAsciiAlnum_toUpper hd)
  · exact Or.inr (by decide)

end Screaming

section Segments

theorem spelled_of_isSegment {isName : Bool} {segment : String}
    (h : Nsid.IsSegment isName segment) :
    ∃ first, isAsciiLetter first = true ∧ Spelled segment.toList first := by
  obtain ⟨c, rest, hcs, hc, _⟩ := id h
  refine ⟨c, hc, by simp [hcs], isAsciiAlnum_of_isAsciiLetter hc, fun d hd => ?_⟩
  rcases h.chars d hd with halnum | rfl
  · exact Or.inl halnum
  · exact Or.inr (by decide)

theorem spelled_joinWith {segments : List String} (hne : segments ≠ [])
    (h : ∀ segment ∈ segments, ∃ isName, Nsid.IsSegment isName segment) :
    ∃ first, isAsciiLetter first = true ∧ Spelled (joinWith "." segments).toList first := by
  induction segments with
  | nil => exact absurd rfl hne
  | cons segment rest ih =>
    rw [List.forall_mem_cons] at h
    obtain ⟨isName, hsegment⟩ := h.1
    obtain ⟨first, hfirst, hspelled⟩ := spelled_of_isSegment hsegment
    by_cases hrest : rest = []
    · subst hrest
      exact ⟨first, hfirst, hspelled⟩
    · obtain ⟨next, _, hnext⟩ := ih hrest h.2
      have hlist : (joinWith "." (segment :: rest)).toList =
          segment.toList ++ '.' :: (joinWith "." rest).toList := by
        rw [joinWith_cons "." segment hrest]
        simp
      rw [hlist]
      exact ⟨first, hfirst, hspelled.append rfl hnext⟩

theorem title_joinWith_append_single (segments : List String) (segment : String) :
    title (joinWith "." (segments ++ [segment])) =
      title (joinWith "." segments) ++ title segment := by
  by_cases hne : segments = []
  · subst hne
    simp [joinWith, title, titleList, parts, fieldsList]
  · rw [joinWith_append_single "." hne, title_append_dot]

theorem camel_eq_iff {isName isOther : Bool} {segment other : String}
    (h : Nsid.IsSegment isName segment) (k : Nsid.IsSegment isOther other) :
    camel segment = camel other ↔ title segment = title other := by
  obtain ⟨_, _, hspelled⟩ := spelled_of_isSegment h
  obtain ⟨_, _, hother⟩ := spelled_of_isSegment k
  simp only [camel, title, String.ofList_inj]
  constructor
  · exact hspelled.lowerFirst_inj hother
  · intro he
    rw [he]

theorem spelled_of_parse {text : String} {nsid : Nsid} (h : Nsid.parse text = .ok nsid) :
    ∃ first, isAsciiLetter first = true ∧ Spelled text.toList first := by
  have hne : nsid.segments ≠ [] := by
    intro hnil
    refine Nsid.authoritySegments_ne_nil h ?_
    rw [Nsid.authoritySegments, hnil]
    rfl
  have htext : joinWith "." nsid.segments = text := Nsid.text_of_parse h
  rw [← htext]
  exact spelled_joinWith hne fun _ hs => Nsid.isSegment_of_parse h hs

end Segments

section Identifiers

def isCapital (c : Char) : Bool := 'A' ≤ c && c ≤ 'Z'

def isSmall (c : Char) : Bool := 'a' ≤ c && c ≤ 'z'

/-- A text of ASCII letters and digits, the first of which is of the given sort. -/
def LedBy (isFirst : Char → Bool) (s : String) : Prop :=
  ∃ c rest, s.toList = c :: rest ∧ isFirst c = true ∧ ∀ d ∈ c :: rest, isAsciiAlnum d = true

private theorem isCapital_toUpper {c : Char} (h : isAsciiLetter c = true) :
    isCapital (toUpper c) = true := by
  have hall : ∀ n < 128, isAsciiAlnum (Char.ofNat n) = true →
      isAsciiLetter (Char.ofNat n) = true → isCapital (toUpper (Char.ofNat n)) = true := by
    decide +kernel
  exact of_isAsciiAlnum (P := fun c => isAsciiLetter c = true → isCapital (toUpper c) = true)
    hall (isAsciiAlnum_of_isAsciiLetter h) h

private theorem isSmall_toLower {c : Char} (h : isAsciiLetter c = true) : isSmall
    (toLower c) = true := by
  have hall : ∀ n < 128, isAsciiAlnum (Char.ofNat n) = true →
      isAsciiLetter (Char.ofNat n) = true → isSmall (toLower (Char.ofNat n)) = true := by
    decide +kernel
  exact of_isAsciiAlnum (P := fun c => isAsciiLetter c = true → isSmall (toLower c) = true)
    hall (isAsciiAlnum_of_isAsciiLetter h) h

variable {text : String} {first : Char}

private theorem Spelled.ledBy_title (h : Spelled text.toList first)
    (hf : isAsciiLetter first = true) :
    LedBy isCapital (title text) := by
  obtain ⟨rest, hrest⟩ := h.exists_titleList
  have halnum := h.alnum_titleList
  rw [hrest] at halnum
  refine ⟨toUpper first, rest, ?_, isCapital_toUpper hf, halnum⟩
  rw [title, String.toList_ofList, hrest]

private theorem Spelled.ledBy_camel (h : Spelled text.toList first)
    (hf : isAsciiLetter first = true) :
    LedBy isSmall (camel text) := by
  obtain ⟨rest, hrest⟩ := h.exists_titleList
  have halnum := h.alnum_camel
  rw [hrest, lowerFirst] at halnum
  refine ⟨toLower (toUpper first), rest, ?_, isSmall_toLower (isAsciiLetter_toUpper hf), halnum⟩
  rw [camel, String.toList_ofList, hrest, lowerFirst]

/-- Names in generated code for what an identifier starts with and for single segments. A title
grows by the title of the next segment; titles start with a capital and member names with a small
letter, with letters and digits behind; segments share a member name exactly if they share a
title. -/
theorem names_compositional {nsid : Nsid} {front : List String} {segment other : String}
    {isName isOther : Bool} (h : Nsid.parse text = .ok nsid) (hfront : front <+: nsid.segments)
    (hne : front ≠ []) (hs : Nsid.IsSegment isName segment) (ho : Nsid.IsSegment isOther other) :
    title (joinWith "." front ++ "." ++ segment) = title (joinWith "." front) ++ title segment ∧
      LedBy isCapital (title (joinWith "." front)) ∧
      LedBy isSmall (camel segment) ∧
      (camel segment = camel other ↔ title segment = title other) := by
  have hsegments : ∀ piece ∈ front, ∃ isName, Nsid.IsSegment isName piece := fun piece hp =>
    Nsid.isSegment_of_parse h (hfront.subset hp)
  obtain ⟨first, hfirst, hspelled⟩ := spelled_joinWith hne hsegments
  obtain ⟨lead, hlead, hsegment⟩ := spelled_of_isSegment hs
  exact ⟨title_append_dot _ _, hspelled.ledBy_title hfirst, hsegment.ledBy_camel hlead,
    camel_eq_iff hs ho⟩

theorem names_compositional_hyphen :
    Nsid.parse "app.my-host.getFeed" = .ok ⟨["app", "my-host", "getFeed"]⟩ ∧
    ["app", "my-host"] <+: ["app", "my-host", "getFeed"] ∧
    title ("app.my-host" ++ "." ++ "getFeed") = title "app.my-host" ++ title "getFeed" ∧
    LedBy isCapital (title "app.my-host") ∧
    LedBy isSmall (camel "getFeed") ∧
    (camel "getFeed" = camel "get-feed" ↔ title "getFeed" = title "get-feed") := by
  have hparse : Nsid.parse "app.my-host.getFeed" = .ok ⟨["app", "my-host", "getFeed"]⟩ := by rfl
  have hfront : ["app", "my-host"] <+: ["app", "my-host", "getFeed"] := by decide
  have hname : Nsid.IsSegment true "getFeed" := Nsid.segmentFault?_eq_none.mp (by decide)
  have hhyphen : Nsid.IsSegment false "get-feed" := Nsid.segmentFault?_eq_none.mp (by decide)
  have hnames := names_compositional hparse hfront (by decide) hname hhyphen
  rw [show joinWith "." ["app", "my-host"] = "app.my-host" by decide] at hnames
  exact ⟨hparse, hfront, hnames⟩

end Identifiers

end LexiconCompiler.Casing
