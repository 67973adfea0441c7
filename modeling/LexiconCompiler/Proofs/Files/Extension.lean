import LexiconCompiler.Proofs.Files.Path

set_option autoImplicit false
set_option relaxedAutoImplicit false

/-!
The last segment of a path and its ending. Both are found again in the clean path, if the last
segment is a name.
-/

namespace LexiconCompiler.Path

open LexiconCompiler.Text

variable {path other : String}

theorem slash_notMem_base (path : String) : '/' ∉ (base path).toList := by
  have hne : split '/' path ≠ [] := by simp [split, splitList_ne_nil]
  exact split_slash_notMem path (base path) (getLastD_mem hne "")

theorem eq_base_or_exists_front (path : String) :
    path = base path ∨ ∃ front, path = front ++ "/" ++ base path := by
  have hne : split '/' path ≠ [] := by simp [split, splitList_ne_nil]
  have hsplit : (split '/' path).dropLast ++ [base path] = split '/' path :=
    dropLast_append_getLastD hne ""
  have hjoin : joinWith "/" ((split '/' path).dropLast ++ [base path]) = path := by
    rw [hsplit]
    exact joinWith_split '/' path
  by_cases hfront : (split '/' path).dropLast = []
  · left
    rw [hfront] at hjoin
    exact hjoin.symm
  · right
    rw [joinWith_append_single "/" hfront] at hjoin
    exact ⟨_, hjoin.symm⟩

theorem base_append_slash (front : String) {last : String} (h : '/' ∉ last.toList) :
    base (front ++ "/" ++ last) = last := by
  have hlist : (front ++ "/" ++ last).toList = front.toList ++ '/' :: last.toList := by simp
  rw [base, split, hlist, splitList_append_append, splitList_of_notMem h, List.map_append]
  simp

private theorem takeWhile_reverse (path : String) :
    (path.toList.reverse.takeWhile fun c => c != '/') = (base path).toList.reverse := by
  have hbase : ∀ c ∈ (base path).toList.reverse, (c != '/') = true := by
    intro c hc
    rw [bne_iff_ne]
    rintro rfl
    exact slash_notMem_base path (List.mem_reverse.mp hc)
  rcases eq_base_or_exists_front path with hpath | ⟨front, hpath⟩
  · conv_lhs => rw [hpath]
    exact List.takeWhile_eq_self_iff.mpr hbase
  · have hreverse : path.toList.reverse =
        (base path).toList.reverse ++ '/' :: front.toList.reverse := by
      conv_lhs => rw [hpath]
      simp
    rw [hreverse, List.takeWhile_append_of_pos hbase]
    simp

theorem ext_congr (h : base path = base other) : ext path = ext other := by
  simp only [ext, takeWhile_reverse, h]

variable {rooted : Bool} {list : List String} {last : String}

theorem base_ofSegments (h : Reduced rooted (list ++ [last])) :
    base (ofSegments rooted (list ++ [last])) = last := by
  rw [base, split_ofSegments h (by simp)]
  cases rooted with
  | false => simp [pieces]
  | true => rw [pieces, if_pos rfl, ← List.cons_append, List.getLastD_concat]

theorem base_clean_of_segments (h : segments path = list ++ [last]) :
    base (clean path) = last := by
  have hreduced := reduced_segments path
  rw [h] at hreduced
  rw [clean, h, base_ofSegments hreduced]

private theorem exists_segments (h : IsName (base path)) :
    ∃ front, segments path = front ++ [base path] := by
  have hne : split '/' path ≠ [] := by simp [split, splitList_ne_nil]
  have hsplit : (split '/' path).dropLast ++ [base path] = split '/' path :=
    dropLast_append_getLastD hne ""
  refine ⟨reduce (isAbsolute path) [] (split '/' path).dropLast, ?_⟩
  rw [segments, ← hsplit, reduce_append, reduce_name h, reduce, List.reverse_cons,
    List.reverse_reverse, hsplit]

theorem base_clean (h : IsName (base path)) : base (clean path) = base path := by
  obtain ⟨front, hfront⟩ := exists_segments h
  exact base_clean_of_segments hfront

end LexiconCompiler.Path
