import Mathlib.Data.List.TakeWhile
import LexiconCompiler.Files.Path
import LexiconCompiler.Proofs.Text.Pieces

set_option autoImplicit false
set_option relaxedAutoImplicit false

/-!
Clean paths are the same as their segments: what is left of a path once it is reduced is found again
in the clean path, so cleaning twice changes nothing, the directory of a clean path lacks its last
segment, and a name joined to a directory is one segment more.
-/

namespace LexiconCompiler.Path

open LexiconCompiler.Text

-- The equations are derived here, once for all the proofs that rewrite with them.
attribute [grind =] reduce

/-- A segment that names a member of a directory. -/
structure IsName (segment : String) : Prop where
  ne_empty : segment ≠ ""
  ne_dot : segment ≠ "."
  ne_dots : segment ≠ ".."
  slash_notMem : '/' ∉ segment.toList

/-- The segments that reduction keeps, the last first: names, behind which only ways up stand, and
those only if the path does not start at the root. -/
inductive Kept (rooted : Bool) : List String -> Prop
  | nil : Kept rooted []
  | name {segment : String} {before : List String} : IsName segment → Kept rooted before →
      Kept rooted (segment :: before)
  | up {before : List String} : rooted = false → (∀ segment ∈ before, segment = "..") →
      Kept rooted (".." :: before)

/-- Segments that reduction leaves as they are. -/
def Reduced (rooted : Bool) (segments : List String) : Prop := Kept rooted segments.reverse

section Reduction

variable {rooted : Bool} {before segments : List String}

theorem Kept.of_append {front : List String} (h : Kept rooted (front ++ before)) :
    Kept rooted before := by
  induction front with
  | nil => exact h
  | cons segment front ih =>
    cases h with
    | name _ hrest => exact ih hrest
    | up hroot hall =>
      have hbefore : ∀ segment ∈ before, segment = ".." := fun segment hs =>
        hall segment (List.mem_append_right front hs)
      cases before with
      | nil => exact .nil
      | cons first rest =>
        rw [List.forall_mem_cons] at hbefore
        rw [hbefore.1]
        exact .up hroot hbefore.2

private theorem Kept.slash_notMem (h : Kept rooted before) :
    ∀ segment ∈ before, '/' ∉ segment.toList := by
  have hup : '/' ∉ "..".toList := by decide
  induction h with
  | nil => intro segment hs; cases hs
  | name hname _ ih => exact List.forall_mem_cons.mpr ⟨hname.slash_notMem, ih⟩
  | up _ hall =>
    refine List.forall_mem_cons.mpr ⟨hup, fun segment hs => ?_⟩
    rw [hall segment hs]
    exact hup

theorem Kept.isName (h : Kept rooted before) {segment : String} (hs : segment ∈ before)
    (hup : segment ≠ "..") : IsName segment := by
  induction h with
  | nil => cases hs
  | name hname _ ih =>
    rcases List.mem_cons.mp hs with rfl | hrest
    · exact hname
    · exact ih hrest
  | up _ hall =>
    rcases List.mem_cons.mp hs with rfl | hrest
    · exact absurd rfl hup
    · exact absurd (hall segment hrest) hup

private theorem Kept.ne_empty (h : Kept rooted before) : ∀ segment ∈ before, segment ≠ "" := by
  have hup : ".." ≠ "" := by decide
  induction h with
  | nil => intro segment hs; cases hs
  | name hname _ ih => exact List.forall_mem_cons.mpr ⟨hname.ne_empty, ih⟩
  | up _ hall =>
    refine List.forall_mem_cons.mpr ⟨hup, fun segment hs => ?_⟩
    rw [hall segment hs]
    exact hup

theorem Reduced.slash_notMem (h : Reduced rooted segments) :
    ∀ segment ∈ segments, '/' ∉ segment.toList := fun segment hs =>
  Kept.slash_notMem h segment (List.mem_reverse.mpr hs)

private theorem Reduced.ne_empty (h : Reduced rooted segments) :
    ∀ segment ∈ segments, segment ≠ "" :=
  fun segment hs => Kept.ne_empty h segment (List.mem_reverse.mpr hs)

theorem Reduced.isName (h : Reduced rooted segments) {segment : String} (hs : segment ∈ segments)
    (hup : segment ≠ "..") : IsName segment :=
  Kept.isName h (List.mem_reverse.mpr hs) hup

theorem Reduced.append_names (h : Reduced rooted segments) {names : List String}
    (hnames : ∀ name ∈ names, IsName name) : Reduced rooted (segments ++ names) := by
  induction names generalizing segments with
  | nil => rwa [List.append_nil]
  | cons name rest ih =>
    rw [List.forall_mem_cons] at hnames
    have hfirst : Reduced rooted (segments ++ [name]) := by
      rw [Reduced, List.reverse_append]
      exact .name hnames.1 h
    rw [← List.singleton_append, ← List.append_assoc]
    exact ih hfirst hnames.2

private theorem Reduced.dropLast (h : Reduced rooted segments) :
    Reduced rooted segments.dropLast := by
  by_cases hne : segments = []
  · rw [hne]
    exact .nil
  · have hall : Kept rooted ([segments.getLast hne] ++ segments.dropLast.reverse) := by
      rw [Reduced, ← List.dropLast_append_getLast hne, List.reverse_append] at h
      exact h
    exact hall.of_append

theorem reduce_idle {segment : String} (h : segment = "" ∨ segment = ".") (rest : List String) :
    reduce rooted before (segment :: rest) = reduce rooted before rest := by
  rw [reduce.eq_def]
  rcases h with rfl | rfl <;> rfl

theorem reduce_name {segment : String} (h : IsName segment) (rest : List String) :
    reduce rooted before (segment :: rest) = reduce rooted (segment :: before) rest := by
  rw [reduce.eq_def]
  simp [h.ne_empty, h.ne_dot, h.ne_dots]

theorem reduce_names (h : ∀ segment ∈ segments, IsName segment) :
    reduce rooted before segments = before.reverse ++ segments := by
  induction segments generalizing before with
  | nil => rw [reduce, List.append_nil]
  | cons segment rest ih =>
    rw [List.forall_mem_cons] at h
    rw [reduce_name h.1, ih h.2, List.reverse_cons, List.append_assoc, List.singleton_append]

theorem reduce_append (rest : List String) (before segments : List String) :
    reduce rooted before (segments ++ rest) =
      reduce rooted (reduce rooted before segments).reverse rest := by
  fun_induction reduce rooted before segments with
  | case1 before => simp
  | case2 before segment more hidle ih =>
    rw [Bool.or_eq_true, String.isEmpty_iff, beq_iff_eq] at hidle
    rw [List.cons_append, reduce_idle hidle, ih]
  | case3 | case4 | case5 | case6 | case7 =>
    rw [List.cons_append, reduce.eq_def]
    simp_all

theorem kept_reduce (h : Kept rooted before)
    (hs : ∀ segment ∈ segments, '/' ∉ segment.toList) :
    Reduced rooted (reduce rooted before segments) := by
  fun_induction reduce rooted before segments with
  | case1 before =>
    rw [Reduced, List.reverse_reverse]
    exact h
  | case2 before segment more hidle ih => exact ih h (List.forall_mem_cons.mp hs).2
  | case3 segment more hidle hup hroot ih => exact ih .nil (List.forall_mem_cons.mp hs).2
  | case4 segment more hidle hup hroot ih =>
    refine ih (.up ?_ fun segment hs => by cases hs) (List.forall_mem_cons.mp hs).2
    simpa using hroot
  | case5 segment more hidle hup last earlier hlast ih =>
    obtain rfl := eq_of_beq hlast
    cases h with
    | name hname _ => exact absurd rfl hname.ne_dots
    | up hroot hall =>
      exact ih (.up hroot (List.forall_mem_cons.mpr ⟨rfl, hall⟩)) (List.forall_mem_cons.mp hs).2
  | case6 segment more hidle hup last earlier hlast ih =>
    have hafter : Kept rooted ([last] ++ earlier) := h
    exact ih hafter.of_append (List.forall_mem_cons.mp hs).2
  | case7 before segment more hidle hup ih =>
    rw [List.forall_mem_cons] at hs
    rw [Bool.or_eq_true, String.isEmpty_iff, beq_iff_eq, not_or] at hidle
    exact ih (.name ⟨hidle.1, hidle.2, by simpa using hup, hs.1⟩ h) hs.2

private theorem reduce_of_kept (h : Kept rooted (segments.reverse ++ before)) :
    reduce rooted before segments = before.reverse ++ segments := by
  induction segments generalizing before with
  | nil => rw [reduce, List.append_nil]
  | cons segment rest ih =>
    rw [List.reverse_cons, List.append_assoc, List.singleton_append] at h
    have hstep : reduce rooted before (segment :: rest) =
        reduce rooted (segment :: before) rest := by
      cases h.of_append with
      | name hname _ => exact reduce_name hname rest
      | up hroot hall =>
        cases before with
        | nil => rw [reduce.eq_def]; simp [hroot]
        | cons last earlier =>
          rw [hall last List.mem_cons_self, reduce.eq_def]
          rfl
    rw [hstep, ih h, List.reverse_cons, List.append_assoc, List.singleton_append]

private theorem Reduced.reduce_eq (h : Reduced rooted segments) : reduce rooted
    [] segments = segments := by
  refine reduce_of_kept ?_
  rw [List.append_nil]
  exact h

end Reduction

section Clean

variable {rooted : Bool} {list : List String}

private theorem isAbsolute_iff (path : String) :
    isAbsolute path = true ↔ ∃ rest, path.toList = '/' :: rest := by
  unfold isAbsolute startsWith
  cases path.toList with
  | nil => simp
  | cons c rest =>
    simp only [List.isPrefixOf, Bool.and_true, beq_iff_eq, List.cons.injEq, exists_and_left,
      exists_eq', and_true]
    exact eq_comm

theorem split_slash_notMem (path : String) : ∀ segment ∈ split '/' path, '/' ∉ segment.toList := by
  intro segment hs
  obtain ⟨piece, hp, rfl⟩ := List.mem_map.mp hs
  rw [String.toList_ofList]
  exact separator_notMem_splitList '/' path.toList piece hp

theorem reduced_segments (path : String) : Reduced (isAbsolute path) (segments path) :=
  kept_reduce .nil (split_slash_notMem path)

/-- The pieces that a clean path is put together from: from the root on, the first one is empty. -/
def pieces (rooted : Bool) (list : List String) : List String :=
  if rooted then "" :: list else list

theorem joinWith_pieces (h : list ≠ []) :
    joinWith "/" (pieces rooted list) = ofSegments rooted list := by
  cases rooted with
  | false => simp [pieces, ofSegments, h]
  | true =>
    rw [pieces, if_pos rfl, joinWith_cons _ _ h, ofSegments, if_pos rfl]
    simp

theorem split_ofSegments (h : Reduced rooted list) (hne : list ≠ []) :
    split '/' (ofSegments rooted list) = pieces rooted list := by
  have hslash : ∀ piece ∈ pieces rooted list, '/' ∉ piece.toList := by
    cases rooted with
    | false => exact h.slash_notMem
    | true => exact List.forall_mem_cons.mpr ⟨by decide, h.slash_notMem⟩
  have hsome : pieces rooted list ≠ [] := by
    cases rooted with
    | false => exact hne
    | true => exact List.cons_ne_nil _ _
  rw [← joinWith_pieces hne]
  exact split_joinWith hsome hslash

theorem isAbsolute_ofSegments (h : Reduced rooted list) :
    isAbsolute (ofSegments rooted list) = rooted := by
  cases rooted with
  | true =>
    rw [isAbsolute_iff, ofSegments, if_pos rfl]
    exact ⟨(joinWith "/" list).toList, by simp⟩
  | false =>
    rw [Bool.eq_false_iff]
    intro habsolute
    obtain ⟨rest, hrest⟩ := (isAbsolute_iff _).mp habsolute
    cases list with
    | nil => revert hrest; exact nofun
    | cons first more =>
      have hpieces := split_ofSegments h (List.cons_ne_nil first more)
      have hfirst : first.toList ≠ [] := by
        simpa using h.ne_empty first List.mem_cons_self
      have hsplit : split '/' (ofSegments false (first :: more)) =
          "" :: (splitList '/' rest).map String.ofList := by
        rw [split, hrest]
        rfl
      rw [hsplit] at hpieces
      have hempty := (List.cons.inj hpieces).1
      rw [← hempty] at hfirst
      exact hfirst rfl

theorem segments_ofSegments (h : Reduced rooted list) :
    segments (ofSegments rooted list) = list := by
  by_cases hne : list = []
  · subst hne
    cases rooted <;> rfl
  rw [segments, isAbsolute_ofSegments h, split_ofSegments h hne]
  cases rooted with
  | false => exact h.reduce_eq
  | true => exact (reduce_idle (Or.inl rfl) list).trans h.reduce_eq

theorem isAbsolute_clean (path : String) : isAbsolute (clean path) = isAbsolute path :=
  isAbsolute_ofSegments (reduced_segments path)

theorem segments_clean (path : String) : segments (clean path) = segments path :=
  segments_ofSegments (reduced_segments path)

theorem clean_clean (path : String) : clean (clean path) = clean path := by
  rw [clean, isAbsolute_clean, segments_clean]
  rfl

end Clean

section Directory

variable {rooted : Bool} {list : List String}

theorem clean_ne_empty (path : String) : clean path ≠ "" := by
  intro he
  have hclean := clean_clean path
  rw [he] at hclean
  exact absurd hclean (by decide)

private theorem isAbsolute_append {path : String} (h : path ≠ "") (more : String) :
    isAbsolute (path ++ more) = isAbsolute path := by
  have hne : path.toList ≠ [] := by simpa using h
  obtain ⟨c, rest, hcs⟩ := List.exists_cons_of_ne_nil hne
  simp [isAbsolute, startsWith, hcs, List.isPrefixOf]

theorem segments_append {path : String} (h : path ≠ "") (below : String) :
    segments (path ++ "/" ++ below) =
      reduce (isAbsolute path) (segments path).reverse (split '/' below) := by
  have hsplit : split '/' (path ++ "/" ++ below) = split '/' path ++ split '/' below := by
    have hlist : (path ++ "/" ++ below).toList = path.toList ++ '/' :: below.toList := by simp
    rw [split, hlist, splitList_append_append, List.map_append]
    rfl
  rw [segments, String.append_assoc, isAbsolute_append h, ← String.append_assoc, hsplit,
    reduce_append]
  rfl

theorem join_eq {path : String} (h : path ≠ "") (below : String) :
    join path below =
      ofSegments (isAbsolute path) (reduce (isAbsolute path) (segments path).reverse
        (split '/' below)) := by
  have hempty : path.isEmpty = false := by simpa using h
  rw [join, hempty, if_neg (by decide), clean, segments_append h, String.append_assoc,
    isAbsolute_append h]

theorem segments_join_name {path name : String} (h : path ≠ "") (hname : IsName name) :
    segments (join path name) = segments path ++ [name] := by
  have hsplit : split '/' name = [name] := by
    rw [split, splitList_of_notMem hname.slash_notMem, List.map_singleton, String.ofList_toList]
  have hempty : path.isEmpty = false := by simpa using h
  rw [join, hempty, if_neg (by decide), segments_clean, segments_append h, hsplit,
    reduce_name hname, reduce, List.reverse_cons, List.reverse_reverse]

theorem clean_join {path : String} (h : path ≠ "") (below : String) :
    clean (join path below) = join path below := by
  have hempty : path.isEmpty = false := by simpa using h
  rw [join, hempty]
  exact clean_clean _

theorem isAbsolute_join {path : String} (h : path ≠ "") (below : String) :
    isAbsolute (join path below) = isAbsolute path := by
  have hempty : path.isEmpty = false := by simpa using h
  rw [join, hempty, if_neg (by decide), isAbsolute_clean, String.append_assoc, isAbsolute_append h]

private theorem upToSlash (front last : String) (h : '/' ∉ last.toList) :
    String.ofList (((front ++ "/" ++ last).toList.reverse.dropWhile fun c => c != '/').reverse) =
      front ++ "/" := by
  have hlast : ∀ c ∈ last.toList.reverse, (c != '/') = true := by
    intro c hc
    rw [bne_iff_ne]
    rintro rfl
    exact h (List.mem_reverse.mp hc)
  have hreverse : (front ++ "/" ++ last).toList.reverse =
      last.toList.reverse ++ '/' :: front.toList.reverse := by
    simp
  rw [hreverse, List.dropWhile_append_of_pos hlast]
  apply String.ext
  simp

theorem dir_ofSegments (h : Reduced rooted list) :
    dir (ofSegments rooted list) = ofSegments rooted list.dropLast := by
  by_cases hne : list = []
  · subst hne
    cases rooted <;> rfl
  obtain ⟨front, last, rfl⟩ : ∃ front last, list = front ++ [last] :=
    ⟨_, _, (List.dropLast_append_getLast hne).symm⟩
  have hlast : '/' ∉ last.toList := h.slash_notMem last (by simp)
  have hfront : Reduced rooted front := by simpa using h.dropLast
  rw [List.dropLast_concat]
  by_cases hnil : front = []
  · subst hnil
    cases rooted with
    | true =>
      have hslash := upToSlash "" last hlast
      have hpath : ofSegments true ([] ++ [last]) = "" ++ "/" ++ last := by
        simp [ofSegments, joinWith]
      rw [hpath, dir, hslash]
      rfl
    | false =>
      have hpath : ofSegments false ([] ++ [last]) = last := rfl
      have hall : last.toList.reverse.dropWhile (fun c => c != '/') = [] := by
        rw [List.dropWhile_eq_nil_iff]
        intro c hc
        rw [bne_iff_ne]
        rintro rfl
        exact hlast (List.mem_reverse.mp hc)
      rw [hpath, dir, hall]
      rfl
  · have hpieces : pieces rooted front ≠ [] := by
      cases rooted with
      | false => exact hnil
      | true => exact List.cons_ne_nil _ _
    have hsplit : pieces rooted (front ++ [last]) = pieces rooted front ++ [last] := by
      cases rooted <;> rfl
    have hpath : ofSegments rooted (front ++ [last]) = ofSegments rooted front ++ "/" ++ last := by
      rw [← joinWith_pieces hne, hsplit, joinWith_append_single _ hpieces, joinWith_pieces hnil]
    have hsome : ofSegments rooted front ≠ "" := by
      intro he
      have hsegments := segments_ofSegments hfront
      rw [he] at hsegments
      exact hnil hsegments.symm
    have hsegments : segments (ofSegments rooted front ++ "/") = front := by
      have hcut := segments_append hsome ""
      rw [String.append_empty] at hcut
      rw [hcut, segments_ofSegments hfront]
      have hidle : split '/' "" = [""] := rfl
      rw [hidle, reduce_idle (Or.inl rfl), reduce, List.reverse_reverse]
    rw [hpath, dir, upToSlash _ _ hlast, clean, isAbsolute_append hsome,
      isAbsolute_ofSegments hfront, hsegments]

theorem isAbsolute_dir {path : String} (h : clean path = path) :
    isAbsolute (dir path) = isAbsolute path := by
  have hreduced := reduced_segments path
  conv_lhs => rw [← h, clean, dir_ofSegments hreduced]
  exact isAbsolute_ofSegments hreduced.dropLast

theorem segments_dir {path : String} (h : clean path = path) :
    segments (dir path) = (segments path).dropLast := by
  have hreduced := reduced_segments path
  conv_lhs => rw [← h, clean, dir_ofSegments hreduced]
  exact segments_ofSegments hreduced.dropLast

theorem clean_dir (path : String) : clean (dir path) = dir path := clean_clean _

end Directory

end LexiconCompiler.Path
