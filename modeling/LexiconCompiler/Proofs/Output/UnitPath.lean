import LexiconCompiler.Output.OutputPath
import LexiconCompiler.Proofs.Address
import LexiconCompiler.Proofs.Files.Path
import LexiconCompiler.Rendering

set_option autoImplicit false
set_option relaxedAutoImplicit false

/-!
Where files go. The paths of units are accepted by the check of paths, tell units apart even if case
is ignored, and no file takes the place of a directory that another one needs.
-/

namespace LexiconCompiler

open LexiconCompiler.Code LexiconCompiler.Text

namespace Text

private theorem lower_append (s t : String) : lower (s ++ t) = lower s ++ lower t := by
  apply String.ext
  simp [lower]

private theorem lower_joinWith {separator : String} (h : lower separator = separator)
    (pieces : List String) :
    lower (joinWith separator pieces) = joinWith separator (pieces.map lower) := by
  induction pieces with
  | nil => rfl
  | cons piece rest ih =>
    by_cases hrest : rest = []
    · subst hrest
      rfl
    · have hmap : rest.map lower ≠ [] := by simpa using hrest
      rw [joinWith_cons _ _ hrest, List.map_cons, joinWith_cons _ _ hmap, lower_append,
        lower_append, h, ih]

private theorem mem_joinWith {separator : String} {pieces : List String} {c : Char}
    (h : c ∈ (joinWith separator pieces).toList) :
    c ∈ separator.toList ∨ ∃ piece ∈ pieces, c ∈ piece.toList := by
  induction pieces with
  | nil => simp [joinWith] at h
  | cons piece rest ih =>
    by_cases hrest : rest = []
    · subst hrest
      exact Or.inr ⟨piece, List.mem_cons_self, h⟩
    · rw [joinWith_cons _ _ hrest, String.toList_append, String.toList_append, List.mem_append,
        List.mem_append] at h
      obtain (hpiece | hseparator) | hmore := h
      · exact Or.inr ⟨piece, List.mem_cons_self, hpiece⟩
      · exact Or.inl hseparator
      · obtain hseparator | ⟨other, ho, hc⟩ := ih hmore
        · exact Or.inl hseparator
        · exact Or.inr ⟨other, List.mem_cons_of_mem piece ho, hc⟩

end Text

section Clean

/-- A segment of a path: a letter, and then nothing but letters, digits, hyphens and dots. -/
structure PathSegment (segment : String) : Prop where
  letter : ∃ c rest, segment.toList = c :: rest ∧ isAsciiLetter c = true
  chars : ∀ c ∈ segment.toList, (isAsciiAlnum c = true ∨ c = '-') ∨ c = '.'

variable {segment : String} {segments : List String}

theorem PathSegment.notMem (h : PathSegment segment) {mark : Char}
    (hmark : ¬ ((isAsciiAlnum mark = true ∨ mark = '-') ∨ mark = '.')) :
    mark ∉ segment.toList := fun hm => hmark (h.chars mark hm)

theorem PathSegment.ne (h : PathSegment segment) :
    segment ≠ "" ∧ segment ≠ "." ∧ segment ≠ ".." := by
  obtain ⟨c, rest, hcs, hc⟩ := h.letter
  refine ⟨?_, ?_, ?_⟩ <;> rintro rfl
  · cases hcs
  · obtain ⟨rfl, _⟩ := List.cons.inj hcs
    revert hc
    decide
  · obtain ⟨rfl, _⟩ := List.cons.inj hcs
    revert hc
    decide

private theorem PathSegment.isName (h : PathSegment segment) : Path.IsName segment :=
  ⟨h.ne.1, h.ne.2.1, h.ne.2.2, h.notMem (by decide)⟩

theorem Path.split_joinWith (hne : segments ≠ [])
    (h : ∀ segment ∈ segments, PathSegment segment) :
    split '/' (joinWith "/" segments) = segments :=
  Text.split_joinWith hne fun segment hs => (h segment hs).notMem (by decide)

theorem Path.letter_of_joinWith (hne : segments ≠ [])
    (h : ∀ segment ∈ segments, PathSegment segment) :
    ∃ c rest, (joinWith "/" segments).toList = c :: rest ∧ isAsciiLetter c = true := by
  cases segments with
  | nil => exact absurd rfl hne
  | cons segment rest =>
    obtain ⟨c, cs, hcs, hc⟩ := (h segment List.mem_cons_self).letter
    by_cases hrest : rest = []
    · subst hrest
      exact ⟨c, cs, hcs, hc⟩
    · refine ⟨c, cs ++ '/' :: (joinWith "/" rest).toList, ?_, hc⟩
      rw [joinWith_cons _ _ hrest]
      simp [hcs]

private theorem OutputPath.fault?_eq_none (hne : segments ≠ [])
    (h : ∀ segment ∈ segments, PathSegment segment) :
    OutputPath.fault? (joinWith "/" segments) = none := by
  obtain ⟨c, rest, hcs, hc⟩ := Path.letter_of_joinWith hne h
  have hsplit := Path.split_joinWith hne h
  have hmark {mark : Char} (hslash : mark ∉ ['/'])
      (hm : ¬ ((isAsciiAlnum mark = true ∨ mark = '-') ∨ mark = '.')) :
      mark ∉ (joinWith "/" segments).toList := by
    intro hmem
    obtain hin | ⟨segment, hs, hin⟩ := mem_joinWith hmem
    · exact hslash hin
    · exact (h segment hs).notMem hm hin
  have hempty : (joinWith "/" segments).isEmpty = false := by
    rw [String.isEmpty_eq_false_iff]
    rintro hnil
    rw [hnil] at hcs
    cases hcs
  have habsolute : Path.isAbsolute (joinWith "/" segments) = false := by
    have hslash : ('/' == c) = false := by
      rw [beq_eq_false_iff_ne]
      rintro rfl
      revert hc
      decide
    rw [Path.isAbsolute, hcs, startsWith, List.isPrefixOf, hslash, Bool.false_and]
  have hdrive : hasDrive (joinWith "/" segments) = false := by
    unfold hasDrive
    split
    · rename_i letter more hcolon
      have hmem : ':' ∈ (joinWith "/" segments).toList := by simp [hcolon]
      exact absurd hmem (hmark (by decide) (by decide))
    · rfl
  have hback : '\\' ∉ (joinWith "/" segments).toList := hmark (by decide) (by decide)
  have hdots : ".." ∉ segments := fun hmem => (h _ hmem).ne.2.2 rfl
  have hclean : Path.clean (joinWith "/" segments) = joinWith "/" segments := by
    have hsome : segments.isEmpty = false := by simpa using hne
    have hnames : ∀ segment ∈ segments, Path.IsName segment := fun segment hs =>
      (h segment hs).isName
    rw [Path.clean, Path.segments, hsplit, habsolute, Path.reduce_names hnames, List.reverse_nil,
      List.nil_append, Path.ofSegments, hsome]
    rfl
  simp [OutputPath.fault?, hempty, habsolute, hdrive, hback, hsplit, hdots, hclean]

end Clean

section Units

def Code.pathSegments (name : String) : List String :=
  if name == lexiconsName || name == indexName then [name] else "types" :: split '.' name

/-- The names of units: identifiers, and the names of the two units of a batch. -/
def IsUnitName (name : String) : Prop :=
  name = lexiconsName ∨ name = indexName ∨ Nsid.isValid name = true

variable {name other : String} (backend : Backend)

theorem pathOf_eq (name : String) : pathOf name = joinWith "/" (pathSegments name) := by
  unfold pathOf pathSegments
  split
  · rfl
  · have hne : split '.' name ≠ [] := by simpa [split] using splitList_ne_nil '.' name.toList
    rw [joinWith_cons _ _ hne]
    rfl

theorem pathSegments_ne_nil (name : String) : pathSegments name ≠ [] := by
  unfold pathSegments
  split <;> exact List.cons_ne_nil _ _

private theorem pathSegments_of_isValid (h : Nsid.isValid name = true) :
    pathSegments name = "types" :: split '.' name := by
  refine if_neg ?_
  rw [Bool.or_eq_true, beq_iff_eq, beq_iff_eq]
  rintro (rfl | rfl) <;> revert h <;> decide

private theorem isSegment_word {word : String} (h : word ∈ ["types", lexiconsName, indexName]) :
    Nsid.IsSegment true word := by
  rw [← Nsid.segmentFault?_eq_none]
  revert word
  decide

theorem IsUnitName.isSegment (h : IsUnitName name) {segment : String}
    (hs : segment ∈ pathSegments name) : ∃ isName, Nsid.IsSegment isName segment := by
  obtain rfl | rfl | hvalid := h
  · rw [List.mem_singleton.mp hs]
    exact ⟨true, isSegment_word (by decide)⟩
  · rw [List.mem_singleton.mp hs]
    exact ⟨true, isSegment_word (by decide)⟩
  · rw [pathSegments_of_isValid hvalid, List.mem_cons] at hs
    obtain rfl | hs := hs
    · exact ⟨true, isSegment_word (by decide)⟩
    · obtain ⟨nsid, hn⟩ := (Nsid.isValid_iff name).mp hvalid
      rw [← (Nsid.parse_eq_ok hn).2.1] at hs
      exact Nsid.isSegment_of_parse hn hs

theorem PathSegment.of_isSegment {isName : Bool} {segment : String}
    (h : Nsid.IsSegment isName segment) : PathSegment segment := by
  refine ⟨?_, fun c hc => Or.inl (h.chars c hc)⟩
  obtain ⟨c, rest, hcs, hc, _⟩ := h
  exact ⟨c, rest, hcs, hc⟩

private theorem Backend.toList_ext :
    ∃ word, backend.ext.toList = '.' :: word ∧ ∀ c ∈ word, isAsciiAlnum c = true := by
  cases backend with
  | typescript _ => exact ⟨['t', 's'], by simp [Backend.ext], List.all_eq_true.mp (by decide)⟩
  | recorder => exact ⟨['t', 'x', 't'], by simp [Backend.ext], List.all_eq_true.mp (by decide)⟩

private theorem PathSegment.append_ext {segment : String} (h : PathSegment segment) :
    PathSegment (segment ++ backend.ext) := by
  obtain ⟨word, hext, hword⟩ := backend.toList_ext
  obtain ⟨c, rest, hcs, hc⟩ := h.letter
  refine ⟨⟨c, rest ++ backend.ext.toList, by simp [hcs], hc⟩, fun d hd => ?_⟩
  rw [String.toList_append, hext, List.mem_append, List.mem_cons] at hd
  obtain hd | rfl | hd := hd
  · exact h.chars d hd
  · exact Or.inr rfl
  · exact Or.inl (Or.inl (hword d hd))

private theorem joinWith_append_last (front : List String) (last ending : String) :
    joinWith "/" (front ++ [last]) ++ ending = joinWith "/" (front ++ [last ++ ending]) := by
  by_cases hfront : front = []
  · subst hfront
    rfl
  · rw [joinWith_append_single _ hfront, joinWith_append_single _ hfront, String.append_assoc]

theorem IsUnitName.accepted (h : IsUnitName name) :
    OutputPath.fault? (pathOf name ++ backend.ext) = none := by
  have hparts := dropLast_append_getLastD (pathSegments_ne_nil name) ""
  have hsegments : ∀ segment ∈ pathSegments name, PathSegment segment := fun segment hs =>
    (h.isSegment hs).elim fun _ => PathSegment.of_isSegment
  rw [pathOf_eq, ← hparts, joinWith_append_last]
  refine OutputPath.fault?_eq_none (by simp) fun segment hs => ?_
  rw [List.mem_append, List.mem_singleton] at hs
  obtain hs | rfl := hs
  · exact hsegments segment (List.dropLast_subset _ hs)
  · exact (hsegments _ (getLastD_mem (pathSegments_ne_nil name) "")).append_ext backend

private theorem slash_notMem_lower {isName : Bool} {segment : String}
    (h : Nsid.IsSegment isName segment) : '/' ∉ (lower segment).toList := by
  rw [lower, String.toList_ofList]
  intro hmem
  obtain ⟨c, hc, hslash⟩ := List.mem_map.mp hmem
  obtain halnum | rfl := h.chars c hc
  · have hlower := (cased_of_isAsciiAlnum halnum).lower_alnum
    rw [hslash] at hlower
    revert hlower
    decide
  · revert hslash
    decide

private theorem IsUnitName.segments_eq (h : IsUnitName name) (ho : IsUnitName other)
    (heq : lower (pathOf name ++ backend.ext) = lower (pathOf other ++ backend.ext)) :
    (pathSegments name).map lower = (pathSegments other).map lower := by
  have hsplit {name : String} (h : IsUnitName name) :
      split '/' (lower (pathOf name)) = (pathSegments name).map lower := by
    rw [pathOf_eq, lower_joinWith (by decide)]
    refine split_joinWith (by simpa using pathSegments_ne_nil name) fun segment hs => ?_
    obtain ⟨original, ho, rfl⟩ := List.mem_map.mp hs
    obtain ⟨_, hsegment⟩ := h.isSegment ho
    exact slash_notMem_lower hsegment
  have hstem : lower (pathOf name) = lower (pathOf other) := by
    rw [lower_append, lower_append] at heq
    have hchars := congrArg String.toList heq
    rw [String.toList_append, String.toList_append] at hchars
    exact String.ext (List.append_cancel_right hchars)
  rw [← hsplit h, ← hsplit ho, hstem]

private theorem lower_eq_of_path_eq (h : Nsid.isValid name = true) (ho : Nsid.isValid other = true)
    (heq : lower (pathOf name ++ backend.ext) = lower (pathOf other ++ backend.ext)) :
    lower name = lower other := by
  have hsegments := IsUnitName.segments_eq backend (.inr (.inr h)) (.inr (.inr ho)) heq
  rw [pathSegments_of_isValid h, pathSegments_of_isValid ho, List.map_cons,
    List.map_cons] at hsegments
  have hlower (name : String) : lower name = joinWith "." ((split '.' name).map lower) := by
    rw [← lower_joinWith (by decide)]
    exact congrArg lower (joinWith_split '.' name).symm
  rw [hlower name, hlower other, (List.cons.inj hsegments).2]

/-- Files of a batch have different paths, even if case is ignored. -/
theorem nodup_paths {ids : List String} (hvalid : ∀ id ∈ ids, Nsid.isValid id = true)
    (hd : (ids.map lower).Nodup) :
    ((ids ++ [lexiconsName, indexName]).map fun name =>
      lower (pathOf name ++ backend.ext)).Nodup := by
  have hapart {id word : String} (hid : Nsid.isValid id = true)
      (hword : word = lexiconsName ∨ word = indexName) :
      lower (pathOf id ++ backend.ext) ≠ lower (pathOf word ++ backend.ext) := by
    intro heq
    have hname : IsUnitName word := hword.imp_right Or.inl
    have hsegments := IsUnitName.segments_eq backend (.inr (.inr hid)) hname heq
    rw [pathSegments_of_isValid hid, List.map_cons] at hsegments
    -- The first segment already differs.
    obtain rfl | rfl := hword
    · exact absurd (List.cons.inj hsegments).1 (by decide)
    · exact absurd (List.cons.inj hsegments).1 (by decide)
  have hids : (ids.map fun name => lower (pathOf name ++ backend.ext)).Nodup := by
    refine List.Nodup.map_on (fun id hid other ho heq => ?_) hd.of_map
    exact List.inj_on_of_nodup_map hd hid ho
      (lower_eq_of_path_eq backend (hvalid id hid) (hvalid other ho) heq)
  have hwords : lower (pathOf lexiconsName ++ backend.ext) ≠
      lower (pathOf indexName ++ backend.ext) := by
    intro heq
    have hsegments := IsUnitName.segments_eq backend (.inl rfl) (.inr (.inl rfl)) heq
    exact absurd hsegments (by decide)
  rw [List.map_append, List.nodup_append]
  refine ⟨hids, by simpa using hwords, ?_⟩
  intro path hpath other ho
  obtain ⟨id, hid, rfl⟩ := List.mem_map.mp hpath
  obtain ⟨word, hword, rfl⟩ := List.mem_map.mp ho
  exact hapart (hvalid id hid) (by simpa using hword)

theorem IsUnitName.not_directory (h : IsUnitName name) (ho : IsUnitName other) :
    ¬ (pathOf name ++ backend.ext ++ "/").toList <+: (pathOf other ++ backend.ext).toList := by
  have hdot {name : String} (h : IsUnitName name) : '.' ∉ (pathOf name).toList := by
    rw [pathOf_eq]
    intro hmem
    obtain hin | ⟨segment, hs, hin⟩ := mem_joinWith hmem
    · revert hin
      decide
    · obtain ⟨_, hsegment⟩ := h.isSegment hs
      exact absurd (hsegment.chars '.' hin) (by decide)
  obtain ⟨word, hext, _⟩ := backend.toList_ext
  rintro ⟨rest, heq⟩
  have hcut : cutList '.' ((pathOf other).toList ++ '.' :: word) =
      some ((pathOf name).toList, word ++ '/' :: rest) := by
    rw [← cutList_append (hdot h)]
    congr 1
    simpa [hext] using heq.symm
  rw [cutList_append (hdot ho)] at hcut
  have hlength := congrArg List.length (Prod.mk.inj (Option.some.inj hcut)).2
  rw [List.length_append, List.length_cons] at hlength
  omega

end Units

end LexiconCompiler
