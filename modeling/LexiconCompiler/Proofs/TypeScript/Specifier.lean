import LexiconCompiler.Proofs.Output.UnitPath
import LexiconCompiler.TypeScript.Imports

set_option autoImplicit false
set_option relaxedAutoImplicit false

/-!
Specifiers of imports lead to the file that is meant. From the directory of a file they go up to the
last directory that both paths share, never further, and from there down to the target.
-/

namespace LexiconCompiler.TypeScript

open LexiconCompiler.Code LexiconCompiler.Text

section Follow

/-- Where segments lead from a directory: `.` stays there, `..` goes up, which the root does not
allow, and any other segment goes down. -/
def follow : List String → List String → Option (List String)
  | directory, [] => some directory
  | directory, segment :: rest =>
    if segment = "." then follow directory rest
    else if segment = ".." then
      if directory = [] then none else follow directory.dropLast rest
    else follow (directory ++ [segment]) rest

private theorem follow_dot (directory rest : List String) :
    follow directory ("." :: rest) = follow directory rest := if_pos rfl

private theorem follow_up (directory rest : List String) (last : String) :
    follow (directory ++ [last]) (".." :: rest) = follow directory rest := by
  simp [follow]

private theorem follow_ups (front up rest : List String) :
    follow (front ++ up) (List.replicate up.length ".." ++ rest) = follow front rest := by
  induction up using List.reverseRecOn with
  | nil => simp
  | append_singleton up last ih =>
    rw [List.length_append, List.length_singleton, List.replicate_succ, List.cons_append,
      ← List.append_assoc, follow_up, ih]

private theorem follow_names {names : List String} (h : ∀ name ∈ names, PathSegment name)
    (directory : List String) : follow directory names = some (directory ++ names) := by
  induction names generalizing directory with
  | nil => simp [follow]
  | cons name rest ih =>
    rw [List.forall_mem_cons] at h
    obtain ⟨_, hdot, hup⟩ := h.1.ne
    rw [follow, if_neg hdot, if_neg hup, ih h.2, List.append_assoc, List.singleton_append]

end Follow

section Shared

private theorem exists_shared (as bs : List String) :
    ∃ front up down, as = front ++ up ∧ bs = front ++ down ∧ sharedLength as bs = front.length := by
  induction as generalizing bs with
  | nil => exact ⟨[], [], bs, rfl, rfl, by simp [sharedLength]⟩
  | cons a as ih =>
    cases bs with
    | nil => exact ⟨[], a :: as, [], rfl, rfl, by simp [sharedLength]⟩
    | cons b bs =>
      by_cases hab : a = b
      · subst hab
        obtain ⟨front, up, down, has, hbs, hlength⟩ := ih bs
        exact ⟨a :: front, up, down, by rw [has, List.cons_append], by rw [hbs, List.cons_append],
          by simp [sharedLength, hlength]⟩
      · exact ⟨[], a :: as, b :: bs, rfl, rfl, by simp [sharedLength, hab]⟩

def ways : Nat → List String
  | 0 => ["."]
  | n + 1 => List.replicate (n + 1) ".."

private theorem follow_ways (front up rest : List String) :
    follow (front ++ up) (ways up.length ++ rest) = follow front rest := by
  cases hup : up.length with
  | zero =>
    rw [List.length_eq_zero_iff.mp hup, List.append_nil]
    exact follow_dot front rest
  | succ n =>
    rw [ways, ← hup]
    exact follow_ups front up rest

private theorem mem_ways {n : Nat} {segment : String} (h : segment ∈ ways n) :
    segment = "." ∨ segment = ".." := by
  cases n with
  | zero => exact Or.inl (List.mem_singleton.mp h)
  | succ n => exact Or.inr (List.eq_of_mem_replicate h)

private theorem relative_ways (n : Nat) {rest : List String} (hrest : rest ≠ []) :
    "./".toList <+: (joinWith "/" (ways n ++ rest)).toList ∨
      "../".toList <+: (joinWith "/" (ways n ++ rest)).toList := by
  have hstart (first : String) {more : List String} (hmore : more ≠ []) :
      (first ++ "/").toList <+: (joinWith "/" (first :: more)).toList := by
    rw [joinWith_cons "/" first hmore]
    exact ⟨(joinWith "/" more).toList, String.toList_append.symm⟩
  cases n with
  | zero => exact Or.inl (hstart "." hrest)
  | succ n => exact Or.inr (hstart ".." (List.append_ne_nil_of_right_ne_nil _ hrest))

end Shared

section Specifier

variable {source target : List String}

/-- A specifier is made of ways up from the directory of the file and of the segments that lead down
from there to the target. -/
private theorem exists_specifier (hs : source ≠ []) (ht : target ≠ [])
    (hsource : ∀ segment ∈ source, PathSegment segment)
    (htarget : ∀ segment ∈ target, PathSegment segment) :
    ∃ front up down, source.dropLast = front ++ up ∧ target = front ++ down ∧ down ≠ [] ∧
      specifier (joinWith "/" source) (joinWith "/" target) =
        joinWith "/" (ways up.length ++ down) := by
  obtain rfl | ⟨goal, last, rfl⟩ := List.eq_nil_or_concat target
  · exact absurd rfl ht
  rw [List.concat_eq_append] at *
  obtain ⟨front, up, below, hfolder, rfl, hshared⟩ := exists_shared source.dropLast goal
  have hdown : below ++ [last] ≠ [] := by simp
  have hnames : ∀ segment ∈ below ++ [last], PathSegment segment := fun segment hm =>
    htarget segment (List.append_assoc front below [last] ▸ List.mem_append_right front hm)
  refine ⟨front, up, below ++ [last], hfolder, List.append_assoc _ _ _, hdown, ?_⟩
  have hups : source.dropLast.length - sharedLength source.dropLast (front ++ below) =
      up.length := by
    rw [hshared, hfolder, List.length_append, Nat.add_sub_cancel_left]
  have hrest : (front ++ below ++ [last]).drop (sharedLength source.dropLast (front ++ below)) =
      below ++ [last] := by
    rw [hshared, List.append_assoc, List.drop_left]
  unfold specifier
  simp only [Path.split_joinWith hs hsource, Path.split_joinWith ht htarget, List.dropLast_concat,
    hups, hrest]
  cases up.length with
  | zero =>
    -- Names start with letters, so that nothing looks like a way up.
    obtain ⟨c, rest, hcs, hc⟩ := Path.letter_of_joinWith hdown hnames
    have hletter : c ≠ '.' := by
      rintro rfl
      revert hc
      decide
    have hfront : startsWith (joinWith "/" (below ++ [last])).toList ['.', '.'] = false := by
      rw [hcs]
      simp [startsWith, List.isPrefixOf, hletter.symm]
    rw [List.replicate_zero, List.nil_append, hfront]
    exact (joinWith_cons "/" "." hdown).symm
  | succ n =>
    have hmore : List.replicate n ".." ++ (below ++ [last]) ≠ [] :=
      List.append_ne_nil_of_right_ne_nil _ hdown
    have hfront :
        startsWith (joinWith "/" (List.replicate (n + 1) ".." ++ (below ++ [last]))).toList
          ['.', '.'] = true := by
      rw [List.replicate_succ, List.cons_append, joinWith_cons "/" ".." hmore]
      simp [startsWith]
    rw [if_pos hfront, ways]

end Specifier

/-- From the directory of its file, the specifier by which a unit imports another one leads to the
path of that one, segment by segment and without going above the root, and it is written as a
relative path. -/
theorem specifier_reaches {unit other : String} (h : IsUnitName unit) (ho : IsUnitName other) :
    ("./".toList <+: (specifier (pathOf unit) (pathOf other)).toList ∨
      "../".toList <+: (specifier (pathOf unit) (pathOf other)).toList) ∧
    (follow (split '/' (pathOf unit)).dropLast
      (split '/' (specifier (pathOf unit) (pathOf other)))).map (joinWith "/") =
        some (pathOf other) := by
  have hsource : ∀ segment ∈ pathSegments unit, PathSegment segment := fun segment hs =>
    (h.isSegment hs).elim fun _ => PathSegment.of_isSegment
  have htarget : ∀ segment ∈ pathSegments other, PathSegment segment := fun segment hs =>
    (ho.isSegment hs).elim fun _ => PathSegment.of_isSegment
  have hs := pathSegments_ne_nil unit
  obtain ⟨front, up, down, hfolder, hgoal, hdown, hspecifier⟩ :=
    exists_specifier hs (pathSegments_ne_nil other) hsource htarget
  have hnames : ∀ segment ∈ down, PathSegment segment := fun segment hm =>
    htarget segment (hgoal ▸ List.mem_append_right front hm)
  rw [pathOf_eq unit, pathOf_eq other, hspecifier]
  refine ⟨relative_ways up.length hdown, ?_⟩
  have hslash : ∀ segment ∈ ways up.length ++ down, '/' ∉ segment.toList := by
    intro segment hm
    rcases List.mem_append.mp hm with hm | hm
    · rcases mem_ways hm with rfl | rfl <;> decide
    · exact (hnames segment hm).notMem (by decide)
  have hsplit : split '/' (joinWith "/" (ways up.length ++ down)) = ways up.length ++ down :=
    split_joinWith (List.append_ne_nil_of_right_ne_nil _ hdown) hslash
  rw [Path.split_joinWith hs hsource, hsplit, hfolder, follow_ways, follow_names hnames, ← hgoal]
  rfl

/-- Out of a directory whose own name is that of the target. -/
theorem specifier_reaches_around :
    IsUnitName "com.example.feed.like" ∧ IsUnitName "com.example" ∧
      specifier (pathOf "com.example.feed.like") (pathOf "com.example") = "../../example" ∧
      (follow ["types", "com", "example", "feed"] ["..", "..", "example"]).map (joinWith "/") =
        some "types/com/example" := by
  have h : IsUnitName "com.example.feed.like" := .inr (.inr (by decide))
  have ho : IsUnitName "com.example" := .inr (.inr (by decide))
  exact ⟨h, ho, by decide, (specifier_reaches h ho).2⟩

end LexiconCompiler.TypeScript
