import LexiconCompiler.Files.FileSystem
import LexiconCompiler.Proofs.Files.Path

set_option autoImplicit false
set_option relaxedAutoImplicit false

/-!
What an operation on a tree of files changes. Besides the path it is about it can only touch the
directories around that path, and these have fewer segments: what stands as deep as the path or
deeper stays as it is.
-/

namespace LexiconCompiler

def Path.depth (path : String) : Nat := (Path.segments path).length

namespace FileSystem

open LexiconCompiler.Path

variable {fs : FileSystem} {path other : String} {entry : FileEntry}

/-- Paths that do not start at the root are taken from a directory whose path does. -/
def Grounded (fs : FileSystem) : Prop :=
  ∀ directory, fs.workingDirectory = some directory → isAbsolute directory = true

/-- A tree with a root. -/
structure Rooted (fs : FileSystem) : Prop where
  grounded : fs.Grounded
  root : (fs.at? "/").isSome = true

section Lookup

private theorem lookup_map_change (path other : String) (change : FileEntry → FileEntry)
    (entries : List (String × FileEntry)) :
    (entries.map fun (p, e) => if p == path then (p, change e) else (p, e)).lookup other =
      if other = path then (entries.lookup path).map change else entries.lookup other := by
  induction entries with
  | nil => simp
  | cons first rest ih =>
    obtain ⟨p, e⟩ := first
    by_cases hp : p = path
    · subst hp
      by_cases ho : other = p
      · simp [ho]
      · have hne : (other == p) = false := by simpa using ho
        simp only [List.map_cons, beq_self_eq_true, if_true, List.lookup_cons, hne,
          if_neg ho] at ih ⊢
        exact ih
    · have hne : (p == path) = false := by simpa using hp
      by_cases ho : other = p
      · subst ho
        simp [hp]
      · have hother : (other == p) = false := by simpa using ho
        have hpath : (path == p) = false := by simpa using Ne.symm hp
        simp only [List.map_cons, hne, Bool.false_eq_true, if_false, List.lookup_cons, hother,
          hpath]
        exact ih

theorem at?_update (change : FileEntry → FileEntry) :
    (fs.update path change).at? other =
      if other = path then (fs.at? path).map change else fs.at? other :=
  lookup_map_change path other change fs.entries

theorem at?_put : (fs.put path entry).at? other =
    if other = path then some entry else fs.at? other := by
  unfold put
  by_cases h : (fs.at? path).isSome = true
  · rw [if_pos h]
    have hmap := lookup_map_change path other (fun _ => entry) fs.entries
    obtain ⟨old, hold⟩ := Option.isSome_iff_exists.mp h
    rw [at?] at hold
    rw [hold] at hmap
    exact hmap
  · rw [if_neg h]
    have hnone : fs.entries.lookup path = none := by
      rw [Bool.not_eq_true, Option.isSome_eq_false_iff, Option.isNone_iff_eq_none] at h
      exact h
    simp only [at?, List.lookup_append]
    by_cases ho : other = path
    · subst ho
      simp [hnone]
    · have hne : (other == path) = false := by simpa using ho
      simp [List.lookup_cons, hne, ho]

theorem at?_isSome : (fs.at? path).isSome = true ↔ path ∈ fs.entries.map Prod.fst := by
  unfold at?
  induction fs.entries with
  | nil => simp
  | cons first rest ih =>
    obtain ⟨p, e⟩ := first
    by_cases hp : path = p
    · simp [hp]
    · have hne : (path == p) = false := by simpa using hp
      simp [List.lookup_cons, hne, hp, ih]

end Lookup

section Directories

@[simp] theorem workingDirectory_update (change : FileEntry → FileEntry) :
    (fs.update path change).workingDirectory = fs.workingDirectory := rfl

@[simp] theorem workingDirectory_put : (fs.put path entry).workingDirectory = fs.workingDirectory :=
  rfl

@[simp] theorem workingDirectory_remove : (fs.remove path).workingDirectory = fs.workingDirectory :=
  rfl

@[simp] theorem workingDirectory_register (steps : Nat) (path : String) (fs : FileSystem) :
    (register steps path fs).workingDirectory = fs.workingDirectory := by
  induction steps generalizing path fs with
  | zero => rfl
  | succ steps ih =>
    rw [register]
    split
    · rfl
    · rw [workingDirectory_update, ih, workingDirectory_put]

@[simp] theorem workingDirectory_place :
    (fs.place path entry).workingDirectory = fs.workingDirectory := by
  rw [place, workingDirectory_register, workingDirectory_put]

theorem key_congr {gs : FileSystem} (h : gs.workingDirectory = fs.workingDirectory)
    (path : String) : gs.key path = fs.key path := by
  rw [key, key, h]

theorem key_of_some {directory : String} (h : fs.workingDirectory = some directory)
    (path : String) :
    fs.key path = if isAbsolute path then clean path else join directory path := by
  rw [key, h]

theorem key_of_none (h : fs.workingDirectory = none) (path : String) :
    fs.key path = if clean path == "." || clean path == ".." then "/" else clean path := by
  rw [key, h]

theorem Grounded.ne_empty (hfs : fs.Grounded) {directory : String}
    (h : fs.workingDirectory = some directory) : directory ≠ "" := by
  rintro rfl
  exact absurd (hfs "" h) (by decide)

theorem clean_key (hfs : fs.Grounded) (path : String) : clean (fs.key path) = fs.key path := by
  cases hwd : fs.workingDirectory with
  | some directory =>
    rw [key_of_some hwd]
    split
    · exact clean_clean path
    · exact clean_join (hfs.ne_empty hwd) path
  | none =>
    rw [key_of_none hwd]
    split
    · rfl
    · exact clean_clean path

theorem clean_of_key (hfs : fs.Grounded) (hpath : fs.key path = path) : clean path = path := by
  rw [← hpath]
  exact clean_key hfs path

theorem isAbsolute_key (hfs : fs.Grounded) {directory : String}
    (h : fs.workingDirectory = some directory) (path : String) :
    isAbsolute (fs.key path) = true := by
  rw [key_of_some h]
  split
  next hpath => rw [isAbsolute_clean, hpath]
  · rw [isAbsolute_join (hfs.ne_empty h), hfs directory h]

theorem key_key (hfs : fs.Grounded) (path : String) : fs.key (fs.key path) = fs.key path := by
  have hclean := clean_key hfs path
  cases hwd : fs.workingDirectory with
  | some directory => rw [key_of_some hwd, if_pos (isAbsolute_key hfs hwd path), hclean]
  | none =>
    rw [key_of_none hwd (fs.key path), hclean]
    rw [key_of_none hwd]
    split
    · rfl
    · rfl

theorem depth_around (hfs : fs.Grounded) (hpath : fs.key path = path) :
    depth (fs.key (dir path)) ≤ depth path - 1 := by
  have hclean := clean_of_key hfs hpath
  have hdir : depth (dir path) = depth path - 1 := by
    rw [depth, segments_dir hclean, List.length_dropLast]
    rfl
  cases hwd : fs.workingDirectory with
  | some directory =>
    have habsolute : isAbsolute path = true := by
      rw [← hpath]
      exact isAbsolute_key hfs hwd path
    rw [key_of_some hwd, isAbsolute_dir hclean, if_pos habsolute, clean_dir]
    exact hdir.le
  | none =>
    rw [key_of_none hwd, clean_dir]
    split
    · exact Nat.zero_le _
    · exact hdir.le

theorem at?_register (hfs : fs.Grounded) (hpath : fs.key path = path)
    (hdepth : depth path ≤ depth other) (hpos : 0 < depth other) (steps : Nat) :
    (register steps path fs).at? other = fs.at? other := by
  induction steps generalizing path fs with
  | zero => rfl
  | succ steps ih =>
    have haround : depth (fs.key (dir path)) < depth other := by
      have h := depth_around hfs hpath
      omega
    have hne : other ≠ fs.key (dir path) := by
      rintro rfl
      exact lt_irrefl _ haround
    rw [register, at?_update, if_neg hne]
    split
    · rfl
    · have hkey : (fs.put (fs.key (dir path)) .directory).key (fs.key (dir path)) =
          fs.key (dir path) := key_key hfs _
      have hgrounded : (fs.put (fs.key (dir path)) .directory).Grounded := hfs
      rw [ih hgrounded hkey haround.le, at?_put, if_neg hne]

theorem at?_place (hfs : fs.Grounded) (hpath : fs.key path = path)
    (hdepth : depth path ≤ depth other) (hpos : 0 < depth other) :
    (fs.place path entry).at? other = if other = path then some entry else fs.at? other := by
  have hkey : (fs.put path entry).key path = path := hpath
  have hgrounded : (fs.put path entry).Grounded := hfs
  rw [place, at?_register hgrounded hkey hdepth hpos, at?_put]

theorem at?_remove_eq : (fs.remove path).at? other = if other = path then none else
    (fs.update (fs.key (dir path)) fun entry => entry.withoutMember path).at? other :=
  Text.lookup_filter_ne _ _ _

theorem at?_remove (hfs : fs.Grounded) (hpath : fs.key path = path)
    (hdepth : depth path ≤ depth other) (hpos : 0 < depth other) :
    (fs.remove path).at? other = if other = path then none else fs.at? other := by
  have hne : other ≠ fs.key (dir path) := by
    rintro rfl
    have h := depth_around hfs hpath
    omega
  rw [at?_remove_eq, at?_update, if_neg hne]

theorem at?_move (hfs : fs.Grounded) {source target : String} (hsource : fs.key source = source)
    (htarget : fs.key target = target) (hne : source ≠ target) (hentry : fs.at? source = some entry)
    (hdepth : depth source = depth target) :
    ∃ moved, fs.move? source target = some moved ∧
      moved.workingDirectory = fs.workingDirectory ∧
      ∀ other, depth target ≤ depth other → 0 < depth other →
        moved.at? other =
          if other = target then some entry else if other = source then none else fs.at? other := by
  refine ⟨(fs.remove source).place target entry, ?_, ?_, ?_⟩
  · have hbeq : (source == target) = false := by simpa using hne
    rw [move?, hbeq, hentry]
    rfl
  · rw [workingDirectory_place, workingDirectory_remove]
  · intro other hother hpos
    have hgrounded : (fs.remove source).Grounded := hfs
    rw [at?_place hgrounded htarget hother hpos,
      at?_remove hfs hsource (hdepth.trans_le hother) hpos]

theorem rename_eq_ok {source target : String} {moved : FileSystem}
    (htarget : fs.isDirectoryAt target = false) (hmoved : fs.move? source target = some moved) :
    fs.rename source target = .ok moved := by
  simp only [rename, htarget, Bool.and_false, Bool.false_eq_true, if_false, hmoved]

theorem move?_of_rename {source target : String} {moved : FileSystem}
    (hmoved : fs.rename source target = .ok moved) : fs.move? source target = some moved := by
  rw [rename] at hmoved
  split at hmoved
  · cases hmoved
  · split at hmoved
    next hmove =>
      rw [← Except.ok.inj hmoved]
      exact hmove
    · cases hmoved

theorem eq_of_makeDirs {made : FileSystem} (hmade : fs.makeDirs path = .ok made) :
    made = if (fs.at? path).isSome then fs else fs.place path .directory := by
  simp only [makeDirs] at hmade
  split at hmade
  · cases hmade
  · exact (Except.ok.inj hmade).symm

theorem at?_makeDirs (hfs : fs.Grounded) (hpath : fs.key path = path) {made : FileSystem}
    (hmade : fs.makeDirs path = .ok made) :
    made.workingDirectory = fs.workingDirectory ∧
      ∀ other, depth path < depth other → made.at? other = fs.at? other := by
  rw [eq_of_makeDirs hmade]
  split
  · exact ⟨rfl, fun _ _ => rfl⟩
  · refine ⟨workingDirectory_place, fun other hother => ?_⟩
    have hne : other ≠ path := by
      rintro rfl
      exact lt_irrefl _ hother
    rw [at?_place hfs hpath hother.le (by omega), if_neg hne]

theorem makeDirs_of_isSome (h : (fs.at? path).isSome = true) {made : FileSystem}
    (hmade : fs.makeDirs path = .ok made) : made = fs := by
  rw [eq_of_makeDirs hmade, if_pos h]

theorem eq_root_of_depth (hfs : fs.Grounded) (hpath : fs.key path = path) (h : depth path = 0) :
    path = "/" := by
  have hnil : segments path = [] := List.length_eq_zero_iff.mp h
  have hclean := clean_of_key hfs hpath
  rw [clean, hnil] at hclean
  cases habsolute : isAbsolute path with
  | true =>
    rw [habsolute] at hclean
    exact hclean.symm
  | false =>
    rw [habsolute] at hclean
    subst hclean
    cases hwd : fs.workingDirectory with
    | some directory =>
      have hkey := isAbsolute_key hfs hwd (ofSegments false [])
      rw [hpath, habsolute] at hkey
      cases hkey
    | none =>
      rw [key_of_none hwd] at hpath
      exact hpath.symm

end Directories

section Root

private theorem isSome_update (change : FileEntry → FileEntry) (h : (fs.at? other).isSome = true) :
    ((fs.update path change).at? other).isSome = true := by
  rw [at?_update]
  split
  next hsame =>
    rw [Option.isSome_map, ← hsame]
    exact h
  · exact h

private theorem isSome_put (h : (fs.at? other).isSome = true) :
    ((fs.put path entry).at? other).isSome = true := by
  rw [at?_put]
  split
  · rfl
  · exact h

private theorem isSome_register (steps : Nat) (h : (fs.at? other).isSome = true) :
    ((register steps path fs).at? other).isSome = true := by
  induction steps generalizing path fs with
  | zero => exact h
  | succ steps ih =>
    rw [register]
    apply isSome_update
    split
    · exact h
    · exact ih (isSome_put h)

/-- A tree that is empty but for its root and its working directory. -/
theorem rooted_empty {workingDirectory : Option String}
    (h : ∀ directory, workingDirectory = some directory → isAbsolute directory = true) :
    (empty workingDirectory).Rooted := by
  cases workingDirectory with
  | none => exact ⟨h, rfl⟩
  | some directory =>
    simp only [empty]
    split
    · exact ⟨h, rfl⟩
    · refine ⟨fun d hd => h d ?_, isSome_register _ (isSome_put rfl)⟩
      rw [workingDirectory_place] at hd
      exact hd

end Root

end FileSystem

end LexiconCompiler
