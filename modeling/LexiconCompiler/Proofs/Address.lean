import LexiconCompiler.Address
import LexiconCompiler.Proofs.Text.Ascii
import LexiconCompiler.Proofs.Text.Pieces

set_option autoImplicit false
set_option relaxedAutoImplicit false

/-!
Addresses that were read once are read again from their absolute spellings, outside any document.
-/

namespace LexiconCompiler

open LexiconCompiler.Text

namespace Nsid

theorem isValid_iff (text : String) :
    Nsid.isValid text = true ↔ ∃ nsid, Nsid.parse text = .ok nsid := by
  unfold Nsid.isValid
  cases Nsid.parse text <;> simp

theorem parse_eq_ok {text : String} {nsid : Nsid} (h : Nsid.parse text = .ok nsid) :
    text ≠ "" ∧ nsid.segments = split '.' text ∧ 2 ≤ nsid.segments.length ∧
      segmentsFault? nsid.segments = none := by
  simp only [Nsid.parse] at h
  split at h
  · cases h
  · rename_i hne
    split at h
    · cases h
    · rename_i hlen
      split at h
      · cases h
      · rename_i hfault
        obtain rfl := Except.ok.inj h
        exact ⟨by simpa using hne, rfl, Nat.le_of_not_lt hlen, hfault⟩

theorem text_of_parse {text : String} {nsid : Nsid} (h : Nsid.parse text = .ok nsid) :
    nsid.text = text := by
  obtain ⟨_, hsegments, _, _⟩ := parse_eq_ok h
  rw [Nsid.text, hsegments]
  exact joinWith_split '.' text

theorem dot_notMem_of_parse {text : String} {nsid : Nsid} (h : Nsid.parse text = .ok nsid) :
    ∀ segment ∈ nsid.segments, '.' ∉ segment.toList := by
  obtain ⟨_, hsegments, _, _⟩ := parse_eq_ok h
  intro segment hs
  rw [hsegments, split] at hs
  obtain ⟨piece, hp, rfl⟩ := List.mem_map.mp hs
  rw [String.toList_ofList]
  exact separator_notMem_splitList '.' _ piece hp

/-- A segment: a letter, and then letters, digits and, unless it is the name, hyphens. -/
def IsSegment (isName : Bool) (segment : String) : Prop :=
  ∃ c rest, segment.toList = c :: rest ∧ isAsciiLetter c = true ∧
    ∀ d ∈ rest, isAsciiAlnum d = true ∨ (d = '-' ∧ isName = false)

private theorem scanSegment_eq_none {isName first : Bool} {segment : String} {cs : List Char} :
    scanSegment isName segment first cs = none ↔
      (∀ c ∈ cs, isAsciiAlnum c = true ∨ (c = '-' ∧ isName = false)) ∧
        (first = true → cs.head? ≠ some '-') := by
  induction cs generalizing first with
  | nil => simp [scanSegment]
  | cons c rest ih =>
    have hnext : scanSegment isName segment false rest = none ↔
        ∀ d ∈ rest, isAsciiAlnum d = true ∨ (d = '-' ∧ isName = false) := by simp [ih]
    rw [List.forall_mem_cons, List.head?_cons, scanSegment]
    by_cases hc : isAsciiAlnum c = true
    · have hhyphen : c ≠ '-' := by
        rintro rfl
        revert hc
        decide
      rw [if_pos hc, hnext]
      simp [hc, hhyphen]
    · rw [if_neg hc]
      by_cases hhyphen : c = '-'
      · subst hhyphen
        cases isName <;> cases first <;> simp [hc, hnext]
      · simp [hhyphen, hc]

theorem segmentFault?_eq_none {isName : Bool} {segment : String} :
    segmentFault? isName segment = none ↔ IsSegment isName segment := by
  unfold segmentFault? IsSegment
  cases hcs : segment.toList with
  | nil => simp
  | cons c rest =>
    dsimp only
    constructor
    · intro h
      split at h
      · cases h
      · rename_i hdigit
        obtain ⟨hchars, hfront⟩ := scanSegment_eq_none.mp h
        rw [List.forall_mem_cons] at hchars
        have hc : isAsciiAlnum c = true :=
          hchars.1.resolve_right fun hhyphen => hfront rfl (congrArg some hhyphen.1)
        refine ⟨c, rest, rfl, ?_, hchars.2⟩
        simpa [isAsciiAlnum, hdigit] using hc
    · rintro ⟨_, _, heq, hletter, hrest⟩
      obtain ⟨rfl, rfl⟩ := List.cons.inj heq
      have hc := isAsciiAlnum_of_isAsciiLetter hletter
      have hdigit := isAsciiDigit_of_isAsciiLetter hletter
      simp only [hdigit, Bool.false_eq_true, if_false]
      refine scanSegment_eq_none.mpr ⟨List.forall_mem_cons.mpr ⟨Or.inl hc, hrest⟩, ?_⟩
      rintro _ hhyphen
      rw [Option.some.inj hhyphen] at hletter
      revert hletter
      decide

theorem segmentsFault?_eq_none {segments : List String} :
    segmentsFault? segments = none ↔
      (∀ segment ∈ segments.dropLast, IsSegment false segment) ∧
        ∀ segment ∈ segments.getLast?, IsSegment true segment := by
  induction segments with
  | nil => simp [segmentsFault?]
  | cons segment rest ih =>
    cases rest with
    | nil => simp [segmentsFault?, segmentFault?_eq_none]
    | cons next rest =>
      rw [segmentsFault?, Option.or_eq_none_iff, ih, segmentFault?_eq_none, ← and_assoc]
      · simp
      · simp

theorem IsSegment.chars {isName : Bool} {segment : String} (h : IsSegment isName segment) :
    ∀ c ∈ segment.toList, isAsciiAlnum c = true ∨ c = '-' := by
  obtain ⟨c, rest, hcs, hc, hrest⟩ := h
  rw [hcs, List.forall_mem_cons]
  refine ⟨Or.inl (isAsciiAlnum_of_isAsciiLetter hc), fun d hd => ?_⟩
  exact (hrest d hd).imp_right And.left

theorem isSegment_of_segmentsFault? {segments : List String} (h : segmentsFault? segments = none)
    {segment : String} (hs : segment ∈ segments) : ∃ isName, IsSegment isName segment := by
  obtain ⟨hauthority, hname⟩ := segmentsFault?_eq_none.mp h
  have hne : segments ≠ [] := List.ne_nil_of_mem hs
  rw [← List.dropLast_append_getLast hne, List.mem_append, List.mem_singleton] at hs
  rcases hs with hs | rfl
  · exact ⟨false, hauthority segment hs⟩
  · exact ⟨true, hname _ (List.getLast?_eq_some_getLast hne)⟩

theorem isSegment_of_parse {text : String} {nsid : Nsid} (h : Nsid.parse text = .ok nsid)
    {segment : String} (hs : segment ∈ nsid.segments) : ∃ isName, IsSegment isName segment :=
  isSegment_of_segmentsFault? (parse_eq_ok h).2.2.2 hs

theorem chars_of_isValid {text : String} (h : Nsid.isValid text = true) :
    ∀ c ∈ text.toList, (isAsciiAlnum c = true ∨ c = '-') ∨ c = '.' := by
  obtain ⟨nsid, hn⟩ := (isValid_iff text).mp h
  obtain ⟨_, hsegments, _, _⟩ := parse_eq_ok hn
  intro c hc
  rcases mem_splitList '.' hc with hdot | ⟨piece, hp, hc⟩
  · exact Or.inr hdot
  · have hpiece : String.ofList piece ∈ nsid.segments := by
      rw [hsegments]
      exact List.mem_map_of_mem hp
    obtain ⟨isName, hsegment⟩ := isSegment_of_parse hn hpiece
    exact Or.inl (hsegment.chars c (by rwa [String.toList_ofList]))

private theorem mark_notMem {text : String} (h : Nsid.isValid text = true) : '#' ∉ text.toList :=
  fun hm => absurd (chars_of_isValid h '#' hm) (by decide)

theorem text_eq {nsid : Nsid} (h : nsid.authoritySegments ≠ []) :
    nsid.text = nsid.authority ++ "." ++ nsid.name := by
  have hne : nsid.segments ≠ [] := by
    intro hnil
    rw [authoritySegments, hnil] at h
    exact h rfl
  have hsegments : nsid.segments = nsid.authoritySegments ++ [nsid.name] :=
    (dropLast_append_getLastD hne "").symm
  rw [text, hsegments, joinWith_append_single "." h, authority]

theorem authoritySegments_ne_nil {text : String} {nsid : Nsid} (h : Nsid.parse text = .ok nsid) :
    nsid.authoritySegments ≠ [] := by
  obtain ⟨_, _, hlength, _⟩ := parse_eq_ok h
  rw [← List.length_pos_iff, authoritySegments, List.length_dropLast]
  omega

end Nsid

namespace Address

/-- The parts of an address that was read: an identifier, and a fragment that is a word. -/
structure Proper (address : Address) : Prop where
  nsid : Nsid.isValid address.nsid = true
  word : address.fragment.toList.all isAsciiAlnum = true
  nonempty : address.fragment ≠ ""

private theorem check_eq_ok {ref nsid fragment : String} {address : Address}
    (h : check ref nsid fragment = .ok address) (hne : fragment ≠ "") : address.Proper := by
  unfold check at h
  split at h
  · cases h
  · rename_i hn
    split at h
    · cases h
    · rename_i hw
      obtain rfl := Except.ok.inj h
      exact ⟨by simpa using hn, by simpa using hw, hne⟩

private theorem locate_eq_ok {ref base nsid fragment : String} {address : Address}
    (h : locate ref base nsid fragment = .ok address) (hne : fragment ≠ "") : address.Proper := by
  unfold locate at h
  split at h
  · split at h
    · cases h
    · exact check_eq_ok h hne
  · exact check_eq_ok h hne

theorem parse_eq_ok {ref base : String} {address : Address}
    (h : Address.parse ref base = .ok address) : address.Proper := by
  unfold Address.parse at h
  split at h
  · cases h
  · split at h
    · exact locate_eq_ok h (by decide)
    · split at h
      · cases h
      · rename_i hf
        exact locate_eq_ok h (by simpa using hf)

private theorem Proper.check {address : Address} (h : address.Proper) (ref : String) :
    Address.check ref address.nsid address.fragment = .ok address := by
  simp [Address.check, h.nsid, h.word]

private theorem ne_empty_of_isValid {nsid : String} (h : Nsid.isValid nsid = true) : nsid ≠ "" := by
  rintro rfl
  revert h
  decide

theorem Proper.parse_full {address : Address} (h : address.Proper) (base : String) :
    Address.parse address.full base = .ok address := by
  have hnsid := ne_empty_of_isValid h.nsid
  have hfull : address.full.isEmpty = false := by simp [Address.full]
  have hcut : cut '#' address.full = some (address.nsid, address.fragment) := by
    have hlist : address.full.toList = address.nsid.toList ++ '#' :: address.fragment.toList := by
      simp [Address.full]
    rw [cut, hlist, cutList_append (Nsid.mark_notMem h.nsid)]
    simp
  simp [Address.parse, hfull, hcut, h.nonempty, Address.locate, hnsid, h.check]

theorem Proper.parse_text {address : Address} (h : address.Proper) (base : String) :
    Address.parse address.text base = .ok address := by
  unfold Address.text
  split
  · rename_i hmain
    have hnsid := ne_empty_of_isValid h.nsid
    have hfragment : address.fragment = mainDef := by simpa [Address.isMain] using hmain
    have hcut : cut '#' address.nsid = none := by
      simp [cut, cutList_eq_none (Nsid.mark_notMem h.nsid)]
    have hcheck := h.check address.nsid
    rw [hfragment] at hcheck
    simp [Address.parse, hnsid, hcut, Address.locate, hcheck]
  · exact h.parse_full base

theorem Proper.text_inj {a b : Address} (ha : a.Proper) (hb : b.Proper) (h : a.text = b.text) :
    a = b := by
  have hread := ha.parse_text ""
  rw [h, hb.parse_text] at hread
  exact (Except.ok.inj hread).symm

private theorem check_eq {ref nsid fragment : String} {address : Address}
    (h : Address.check ref nsid fragment = .ok address) : address = ⟨nsid, fragment⟩ := by
  unfold Address.check at h
  split at h
  · cases h
  · split at h
    · cases h
    · exact (Except.ok.inj h).symm

/-- The references that lead to an address: its two absolute spellings, and inside its document the
fragment alone. -/
theorem Proper.parse_eq_ok_iff {address : Address} (h : address.Proper) {ref base : String} :
    Address.parse ref base = .ok address ↔
      ref = address.full ∨ ref = address.text ∨
        (base = address.nsid ∧ ref = "#" ++ address.fragment) := by
  constructor
  · intro hp
    unfold Address.parse at hp
    split at hp
    · cases hp
    · rename_i hne
      split at hp
      · rw [Address.locate, if_neg hne] at hp
        obtain rfl := check_eq hp
        exact Or.inr (Or.inl rfl)
      · rename_i nsid fragment hcut
        obtain ⟨⟨before, after⟩, hlist, he⟩ := Option.map_eq_some_iff.mp hcut
        obtain ⟨rfl, rfl⟩ := Prod.mk.inj he
        have href : ref = String.ofList before ++ "#" ++ String.ofList after := by
          rw [← String.toList_inj, eq_of_cutList hlist]
          simp
        split at hp
        · cases hp
        · unfold Address.locate at hp
          split at hp
          · rename_i hempty
            split at hp
            · cases hp
            · obtain rfl := check_eq hp
              rw [String.isEmpty_iff.mp hempty, String.empty_append] at href
              exact Or.inr (Or.inr ⟨rfl, href⟩)
          · obtain rfl := check_eq hp
            exact Or.inl href
  · rintro (rfl | rfl | ⟨rfl, rfl⟩)
    · exact h.parse_full base
    · exact h.parse_text base
    · have hnsid := ne_empty_of_isValid h.nsid
      have hlist : ("#" ++ address.fragment).toList = [] ++ '#' :: address.fragment.toList := by
        simp
      have hcut : cut '#' ("#" ++ address.fragment) = some ("", address.fragment) := by
        rw [cut, hlist, cutList_append List.not_mem_nil]
        simp
      simp [Address.parse, hcut, h.nonempty, Address.locate, hnsid, h.check]

end Address

end LexiconCompiler
