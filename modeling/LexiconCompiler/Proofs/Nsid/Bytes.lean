import LexiconCompiler.Nsid.Bytes
import LexiconCompiler.Proofs.Address

set_option autoImplicit false
set_option relaxedAutoImplicit false

/-!
Identifiers have exactly their grammar, in texts and in bytes. A text is read like the bytes that it
is written in, with the same fault if it has one, and bytes that are no text never are one.
-/

namespace LexiconCompiler

open LexiconCompiler.Text

namespace Text

private theorem splitOn_append_of_notMem {α : Type} [BEq α] [LawfulBEq α] {mark : α}
    {front : List α} (h : mark ∉ front) (back : List α) :
    (front ++ back).splitOn mark = (back.splitOn mark).modifyHead (front ++ ·) := by
  induction front with
  | nil => exact (congrFun List.modifyHead_id (back.splitOn mark)).symm
  | cons a rest ih =>
    rw [List.mem_cons, not_or] at h
    have ha : (a == mark) = false := by simpa using fun he => h.1 he.symm
    have hrest := ih h.2
    unfold List.splitOn at hrest ⊢
    rw [List.cons_append, List.splitOnP_cons_eq_if_modifyHead, ha, hrest]
    cases List.splitOnP _ back <;> rfl

section Bytes

private theorem le_of_mem_utf8EncodeChar {c : Char} (h : 128 ≤ c.toNat) :
    ∀ b ∈ String.utf8EncodeChar c, 128 ≤ b.toNat := by
  have hval : ¬ c.val.toNat ≤ 127 := Nat.not_le_of_lt h
  unfold String.utf8EncodeChar
  simp only [hval, if_false]
  -- There are two, three or four bytes, each with an offset beyond the range.
  repeat' split
  all_goals
    simp only [List.mem_cons, List.not_mem_nil, or_false, forall_eq_or_imp, forall_eq,
      UInt8.toNat_ofNat']
    omega

private theorem utf8EncodeChar_ne_nil (c : Char) : String.utf8EncodeChar c ≠ [] := by
  intro hnil
  have hsize := String.length_utf8EncodeChar c
  rw [hnil] at hsize
  exact absurd hsize.symm (Nat.ne_of_gt c.utf8Size_pos)

private theorem utf8Bytes_cons (c : Char) (cs : List Char) :
    utf8Bytes (c :: cs) = String.utf8EncodeChar c ++ utf8Bytes cs := rfl

private theorem utf8Bytes_asciiText {bytes : List UInt8} (h : ∀ b ∈ bytes, b.toNat < 128) :
    utf8Bytes (Nsid.asciiText bytes).toList = bytes := by
  have hchar : ∀ b ∈ bytes, (Char.ofNat b.toNat).toNat = b.toNat := by
    intro b hb
    have hall : ∀ n < 128, (Char.ofNat n).toNat = n := by decide
    exact hall b.toNat (h b hb)
  have hascii : ∀ c ∈ bytes.map (fun b => Char.ofNat b.toNat), c.toNat < 128 := by
    intro c hc
    obtain ⟨b, hb, rfl⟩ := List.mem_map.mp hc
    rw [hchar b hb]
    exact h b hb
  rw [Nsid.asciiText, String.toList_ofList, utf8Bytes_ascii hascii, List.map_map]
  refine (List.map_congr_left fun b hb => ?_).trans (List.map_id bytes)
  rw [Function.comp_apply, hchar b hb, UInt8.ofNat_toNat, id]

end Bytes

end Text

def SegmentFault.bytes : SegmentFault → SegmentByteFault
  | .empty => .empty
  | .leadingDigit segment => .leadingDigit (utf8Bytes segment.toList)
  | .leadingHyphen segment => .leadingHyphen (utf8Bytes segment.toList)
  | .badCharacter lead segment =>
    .badByte (UInt8.ofNat lead.toNat) (utf8Bytes segment.toList)

/-- The fault of the bytes that a text with a fault is written in. -/
def NsidFault.bytes : NsidFault → NsidByteFault
  | .empty => .empty
  | .noAuthority text => .noAuthority (utf8Bytes text.toList)
  | .badSegment text fault => .badSegment (utf8Bytes text.toList) fault.bytes

namespace Nsid

section Classes

/-- A byte that belongs where a character belongs. -/
structure SameClass (c : Char) (b : UInt8) : Prop where
  alnum : (isLetterByte b || isDigitByte b) = isAsciiAlnum c
  digit : isDigitByte b = isAsciiDigit c
  hyphen : (b == hyphenByte) = (c == '-')
  dot : (b == dotByte) = (c == '.')

variable {c : Char} {b : UInt8}

private theorem sameClass_ascii (h : c.toNat < 128) : SameClass c (UInt8.ofNat c.toNat) := by
  have hall : ∀ n < 128,
      (isLetterByte (UInt8.ofNat (Char.ofNat n).toNat) ||
        isDigitByte (UInt8.ofNat (Char.ofNat n).toNat)) = isAsciiAlnum (Char.ofNat n) ∧
      isDigitByte (UInt8.ofNat (Char.ofNat n).toNat) = isAsciiDigit (Char.ofNat n) ∧
      (UInt8.ofNat (Char.ofNat n).toNat == hyphenByte) = (Char.ofNat n == '-') ∧
      (UInt8.ofNat (Char.ofNat n).toNat == dotByte) = (Char.ofNat n == '.') := by
    decide +kernel
  refine forall_ascii (P := fun c => SameClass c (UInt8.ofNat c.toNat)) (fun n hn => ?_) h
  obtain ⟨halnum, hdigit, hhyphen, hdot⟩ := hall n hn
  exact ⟨halnum, hdigit, hhyphen, hdot⟩

private theorem lt_of_alnum (h : (isLetterByte b || isDigitByte b) = true) : b.toNat < 128 := by
  simp only [isLetterByte, isDigitByte, Bool.or_eq_true, Bool.and_eq_true, decide_eq_true_eq,
    UInt8.le_iff_toNat_le] at h
  have hletter : (0x7A : UInt8).toNat = 122 ∧ (0x5A : UInt8).toNat = 90 := by decide
  have hdigit : (0x39 : UInt8).toNat = 57 := by decide
  omega

private theorem sameClass_of_le (hc : 128 ≤ c.toNat) (hb : 128 ≤ b.toNat) : SameClass c b := by
  have halnum : (isLetterByte b || isDigitByte b) = false :=
    Bool.eq_false_iff.mpr fun h => Nat.not_le_of_lt (lt_of_alnum h) hb
  have halnum' : isAsciiAlnum c = false :=
    Bool.eq_false_iff.mpr fun h => Nat.not_le_of_lt (toNat_lt_of_isAsciiAlnum h) hc
  have hne (mark : UInt8) (hmark : mark.toNat < 128) : (b == mark) = false := by
    rw [beq_eq_false_iff_ne]
    rintro rfl
    omega
  have hne' (mark : Char) (hmark : mark.toNat < 128) : (c == mark) = false := by
    rw [beq_eq_false_iff_ne]
    rintro rfl
    omega
  refine ⟨by rw [halnum, halnum'], ?_, ?_, ?_⟩
  · rw [(Bool.or_eq_false_iff.mp halnum).2, (Bool.or_eq_false_iff.mp halnum').2]
  · rw [hne hyphenByte (by decide), hne' '-' (by decide)]
  · rw [hne dotByte (by decide), hne' '.' (by decide)]

private theorem exists_utf8EncodeChar (c : Char) :
    ∃ b more, String.utf8EncodeChar c = b :: more ∧ (∀ d ∈ b :: more, SameClass c d) ∧
      (c.toNat < 128 → more = []) ∧ UInt8.ofNat (leadByte c).toNat = b := by
  obtain ⟨b, more, hbytes⟩ := List.exists_cons_of_ne_nil (utf8EncodeChar_ne_nil c)
  have hlead : UInt8.ofNat (leadByte c).toNat = b := by
    have hall : ∀ n < 256, (Char.ofNat n).toNat = n := by decide +kernel
    rw [leadByte, hbytes]
    dsimp only
    rw [hall b.toNat b.toNat_lt, UInt8.ofNat_toNat]
  refine ⟨b, more, hbytes, fun d hd => ?_, fun hascii => ?_, hlead⟩
  · rw [← hbytes] at hd
    by_cases hascii : c.toNat < 128
    · rw [(utf8EncodeChar_ascii hascii).1, List.mem_singleton] at hd
      exact hd ▸ sameClass_ascii hascii
    · have hc : 128 ≤ c.toNat := Nat.le_of_not_lt hascii
      exact sameClass_of_le hc (le_of_mem_utf8EncodeChar hc d hd)
  · rw [(utf8EncodeChar_ascii hascii).1] at hbytes
    exact (List.cons.inj hbytes).2.symm

end Classes

section Agreement

private theorem scanBytes_utf8Bytes (isName first : Bool) (segment : String) (cs : List Char) :
    scanBytes isName (utf8Bytes segment.toList) first (utf8Bytes cs) =
      (scanSegment isName segment first cs).map SegmentFault.bytes := by
  induction cs generalizing first with
  | nil => rfl
  | cons c rest ih =>
    obtain ⟨b, more, hbytes, hclass, hone, hlead⟩ := exists_utf8EncodeChar c
    have hb := hclass b List.mem_cons_self
    rw [utf8Bytes_cons, hbytes, List.cons_append, scanBytes, scanSegment, hb.alnum, hb.hyphen]
    by_cases hc : isAsciiAlnum c = true
    · rw [if_pos hc, if_pos hc, hone (toNat_lt_of_isAsciiAlnum hc)]
      exact ih false
    · rw [if_neg hc, if_neg hc]
      by_cases hhyphen : (c == '-' && !isName) = true
      · have hascii : c.toNat < 128 := by
          rw [eq_of_beq (Bool.and_eq_true_iff.mp hhyphen).1]
          decide
        rw [if_pos hhyphen, if_pos hhyphen, hone hascii, List.nil_append, ih]
        cases first <;> rfl
      · rw [if_neg hhyphen, if_neg hhyphen, Option.map_some, SegmentFault.bytes, hlead]

private theorem segmentByteFault?_utf8Bytes (isName : Bool) (segment : String) :
    segmentByteFault? isName (utf8Bytes segment.toList) =
      (segmentFault? isName segment).map SegmentFault.bytes := by
  have hscan := scanBytes_utf8Bytes isName true segment segment.toList
  unfold segmentFault?
  cases hcs : segment.toList with
  | nil => rfl
  | cons c rest =>
    obtain ⟨b, more, hbytes, hclass, _, _⟩ := exists_utf8EncodeChar c
    rw [hcs, utf8Bytes_cons, hbytes, List.cons_append] at hscan
    rw [utf8Bytes_cons, hbytes, List.cons_append, segmentByteFault?,
      (hclass b List.mem_cons_self).digit]
    dsimp only
    split
    · rw [Option.map_some, SegmentFault.bytes, hcs, utf8Bytes_cons, hbytes, List.cons_append]
    · exact hscan

private theorem segmentsByteFault?_utf8Bytes (segments : List String) :
    segmentsByteFault? (segments.map fun segment => utf8Bytes segment.toList) =
      (segmentsFault? segments).map SegmentFault.bytes := by
  induction segments with
  | nil => rfl
  | cons segment rest ih =>
    cases rest with
    | nil => exact segmentByteFault?_utf8Bytes true segment
    | cons next rest =>
      rw [List.map_cons, List.map_cons] at *
      rw [segmentsByteFault?, segmentsFault?, ih, segmentByteFault?_utf8Bytes]
      · cases segmentFault? false segment <;> rfl
      · simp
      · simp

private theorem splitOn_utf8Bytes (cs : List Char) :
    (utf8Bytes cs).splitOn dotByte = (splitList '.' cs).map utf8Bytes := by
  induction cs with
  | nil => rfl
  | cons c rest ih =>
    obtain ⟨b, more, hbytes, hclass, hone, _⟩ := exists_utf8EncodeChar c
    rw [utf8Bytes_cons, splitList]
    by_cases hc : (c == '.') = true
    · obtain rfl := eq_of_beq hc
      rw [if_pos hc, List.map_cons, ← ih]
      exact List.splitOnP_append_cons [] (utf8Bytes rest) rfl
    · have hmark : dotByte ∉ String.utf8EncodeChar c := by
        rw [hbytes]
        intro hm
        rw [← (hclass dotByte hm).dot] at hc
        exact hc (beq_self_eq_true dotByte)
      rw [if_neg hc, splitOn_append_of_notMem hmark, ih]
      cases hp : splitList '.' rest with
      | nil => exact absurd hp (splitList_ne_nil '.' rest)
      | cons piece pieces => rfl

private theorem asciiText_utf8Bytes {isName : Bool} {segment : String}
    (h : IsSegment isName segment) :
    asciiText (utf8Bytes segment.toList) = segment := by
  have hascii : ∀ c ∈ segment.toList, c.toNat < 128 := by
    intro c hc
    rcases h.chars c hc with halnum | rfl
    · exact toNat_lt_of_isAsciiAlnum halnum
    · decide
  rw [asciiText, map_utf8Bytes_ascii hascii, String.ofList_toList]

/-- A text is read like the bytes that it is written in, faults included. -/
private theorem ofBytes_utf8Bytes (text : String) :
    ofBytes (utf8Bytes text.toList) = (parse text).mapError NsidFault.bytes := by
  have hsplit : (utf8Bytes text.toList).splitOn dotByte =
      (split '.' text).map fun segment => utf8Bytes segment.toList := by
    rw [splitOn_utf8Bytes, split, List.map_map]
    exact List.map_congr_left fun piece _ => by rw [Function.comp_apply, String.toList_ofList]
  have hempty : (utf8Bytes text.toList).isEmpty = text.isEmpty := by
    rw [Bool.eq_iff_iff, List.isEmpty_iff, String.isEmpty_iff, ← String.toList_eq_nil_iff]
    cases text.toList with
    | nil => simp [utf8Bytes]
    | cons c rest => simp [utf8Bytes_cons]
  rw [ofBytes, parse, hempty, hsplit]
  dsimp only
  rw [List.length_map, segmentsByteFault?_utf8Bytes]
  split
  · rfl
  · split
    · rfl
    · cases hfault : segmentsFault? (split '.' text) with
      | some fault => rfl
      | none =>
        have hback : (split '.' text).map (asciiText ∘ fun segment => utf8Bytes segment.toList) =
            split '.' text := by
          refine (List.map_congr_left fun segment hs => ?_).trans (List.map_id _)
          obtain ⟨_, hsegment⟩ := isSegment_of_segmentsFault? hfault hs
          exact asciiText_utf8Bytes hsegment
        rw [Option.map_none]
        dsimp only
        rw [List.map_map, hback]
        rfl

end Agreement

section Grammar

/-- At least two segments, of which only the last may not have hyphens. -/
structure IsDotted (segments : List String) : Prop where
  length : 2 ≤ segments.length
  authority : ∀ segment ∈ segments.dropLast, IsSegment false segment
  name : ∀ segment ∈ segments.getLast?, IsSegment true segment

private theorem parse_eq_ok_iff {text : String} {nsid : Nsid} :
    parse text = .ok nsid ↔ IsDotted nsid.segments ∧ nsid.text = text := by
  constructor
  · intro h
    obtain ⟨_, _, hlength, hfault⟩ := parse_eq_ok h
    obtain ⟨hauthority, hname⟩ := segmentsFault?_eq_none.mp hfault
    exact ⟨⟨hlength, hauthority, hname⟩, text_of_parse h⟩
  · rintro ⟨hdotted, rfl⟩
    have hne : nsid.segments ≠ [] := List.ne_nil_of_length_pos (Nat.zero_lt_of_lt hdotted.length)
    have hfault := segmentsFault?_eq_none.mpr ⟨hdotted.authority, hdotted.name⟩
    have hsplit : split '.' nsid.text = nsid.segments := by
      refine split_joinWith hne fun segment hs hdot => ?_
      obtain ⟨_, hsegment⟩ := isSegment_of_segmentsFault? hfault hs
      exact absurd (hsegment.chars '.' hdot) (by decide)
    have hempty : nsid.text.isEmpty = false := by
      rw [String.isEmpty_eq_false_iff]
      intro hnil
      have hlength := hdotted.length
      rw [← hsplit, hnil] at hlength
      exact absurd hlength (by decide)
    simp [parse, hempty, hsplit, hfault, Nat.not_lt_of_le hdotted.length]

private theorem lt_of_scanBytes {isName first : Bool} {segment bytes : List UInt8}
    (h : scanBytes isName segment first bytes = none) : ∀ b ∈ bytes, b.toNat < 128 := by
  induction bytes generalizing first with
  | nil => exact List.forall_mem_nil _
  | cons b rest ih =>
    rw [scanBytes] at h
    rw [List.forall_mem_cons]
    split at h
    · rename_i halnum
      exact ⟨lt_of_alnum halnum, ih h⟩
    · split at h
      · rename_i hhyphen
        split at h
        · cases h
        · refine ⟨?_, ih h⟩
          rw [eq_of_beq (Bool.and_eq_true_iff.mp hhyphen).1]
          decide
      · cases h

private theorem lt_of_segmentByteFault? {isName : Bool} {segment : List UInt8}
    (h : segmentByteFault? isName segment = none) : ∀ b ∈ segment, b.toNat < 128 := by
  cases segment with
  | nil => exact List.forall_mem_nil _
  | cons b rest =>
    rw [segmentByteFault?] at h
    split at h
    · cases h
    · exact lt_of_scanBytes h

private theorem lt_of_segmentsByteFault? {segments : List (List UInt8)}
    (h : segmentsByteFault? segments = none) :
    ∀ segment ∈ segments, ∀ b ∈ segment, b.toNat < 128 := by
  induction segments with
  | nil => exact List.forall_mem_nil _
  | cons segment rest ih =>
    cases rest with
    | nil => simpa using lt_of_segmentByteFault? h
    | cons next rest =>
      rw [segmentsByteFault?, Option.or_eq_none_iff] at h
      · exact List.forall_mem_cons.mpr ⟨lt_of_segmentByteFault? h.1, ih h.2⟩
      · simp

private theorem utf8Bytes_of_ofBytes {bytes : List UInt8} {nsid : Nsid}
    (h : ofBytes bytes = .ok nsid) :
    utf8Bytes (asciiText bytes).toList = bytes := by
  have hfault : segmentsByteFault? (bytes.splitOn dotByte) = none := by
    unfold ofBytes at h
    split at h
    · cases h
    · dsimp only at h
      split at h
      · cases h
      · split at h
        · cases h
        · assumption
  refine utf8Bytes_asciiText fun b hb => ?_
  have hjoined : [dotByte].intercalate (bytes.splitOn dotByte) = bytes :=
    List.intercalate_splitOn dotByte
  rw [← hjoined] at hb
  rcases mem_intercalate hb with hdot | ⟨segment, hs, hb⟩
  · rw [List.mem_singleton.mp hdot]
    decide
  · exact lt_of_segmentsByteFault? hfault segment hs b hb

private theorem ofBytes_eq_ok_iff {bytes : List UInt8} {nsid : Nsid} :
    ofBytes bytes = .ok nsid ↔ IsDotted nsid.segments ∧ utf8Bytes nsid.text.toList = bytes := by
  have hread (text : String) : ofBytes (utf8Bytes text.toList) = .ok nsid ↔
      IsDotted nsid.segments ∧ nsid.text = text := by
    rw [ofBytes_utf8Bytes, ← parse_eq_ok_iff]
    cases parse text <;> simp [Except.mapError]
  constructor
  · intro h
    have htext := utf8Bytes_of_ofBytes h
    rw [← htext, hread] at h
    exact ⟨h.1, by rw [h.2, htext]⟩
  · rintro ⟨hdotted, rfl⟩
    exact (hread nsid.text).mpr ⟨hdotted, rfl⟩

/-- Bytes are an identifier exactly if they are a dotted list of segments, of which the last is a
letter, letters and digits, and the others may have hyphens as well. Nothing is lost: the bytes are
those of the dotted form, of the joined segments and of authority, dot and name. Texts are read
like their bytes. -/
theorem bytes_grammar (bytes : List UInt8) :
    ((∃ nsid, ofBytes bytes = .ok nsid) ↔
      ∃ segments, IsDotted segments ∧ bytes = utf8Bytes (joinWith "." segments).toList) ∧
    (∀ nsid, ofBytes bytes = .ok nsid →
      utf8Bytes nsid.text.toList = bytes ∧
      utf8Bytes (joinWith "." nsid.segments).toList = bytes ∧
      utf8Bytes (nsid.authority ++ "." ++ nsid.name).toList = bytes ∧ '.' ∉ nsid.name.toList) ∧
    ∀ text : String, utf8Bytes text.toList = bytes →
      ofBytes bytes = (parse text).mapError NsidFault.bytes := by
  refine ⟨⟨?_, ?_⟩, fun nsid h => ?_, ?_⟩
  · rintro ⟨nsid, h⟩
    obtain ⟨hdotted, rfl⟩ := ofBytes_eq_ok_iff.mp h
    exact ⟨nsid.segments, hdotted, rfl⟩
  · rintro ⟨segments, hdotted, rfl⟩
    exact ⟨⟨segments⟩, ofBytes_eq_ok_iff.mpr ⟨hdotted, rfl⟩⟩
  · obtain ⟨hdotted, hbytes⟩ := ofBytes_eq_ok_iff.mp h
    have hparse : parse nsid.text = .ok nsid := parse_eq_ok_iff.mpr ⟨hdotted, rfl⟩
    refine ⟨hbytes, hbytes, ?_, ?_⟩
    · rw [← text_eq (authoritySegments_ne_nil hparse), hbytes]
    · have hne : nsid.segments ≠ [] := List.ne_nil_of_length_pos (Nat.zero_lt_of_lt hdotted.length)
      exact dot_notMem_of_parse hparse nsid.name (getLastD_mem hne "")
  · rintro text rfl
    exact ofBytes_utf8Bytes text

/-- A hyphen may stand in the authority. -/
theorem bytes_grammar_hyphen :
    ofBytes (utf8Bytes "com.my-site.getPost".toList) = .ok ⟨["com", "my-site", "getPost"]⟩ ∧
      (∃ segments, IsDotted segments ∧
        utf8Bytes "com.my-site.getPost".toList = utf8Bytes (joinWith "." segments).toList) ∧
      utf8Bytes ("com.my-site" ++ "." ++ "getPost").toList =
        utf8Bytes "com.my-site.getPost".toList := by
  have hread : ofBytes (utf8Bytes "com.my-site.getPost".toList) =
      .ok ⟨["com", "my-site", "getPost"]⟩ := by decide +kernel
  obtain ⟨hgrammar, hparts, _⟩ := bytes_grammar (utf8Bytes "com.my-site.getPost".toList)
  exact ⟨hread, hgrammar.mp ⟨_, hread⟩, (hparts _ hread).2.2.1⟩

/-- A byte that belongs to no text is refused like a character that has no place in a segment. -/
example : ofBytes [0x61, 0x2E, 0x62, 0xFF] =
    .error (.badSegment [0x61, 0x2E, 0x62, 0xFF] (.badByte 0xFF [0x62, 0xFF])) := by decide

end Grammar

end Nsid

end LexiconCompiler
