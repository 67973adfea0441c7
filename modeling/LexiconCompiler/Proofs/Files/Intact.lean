import LexiconCompiler.Proofs.Files.FileSystem

set_option autoImplicit false
set_option relaxedAutoImplicit false

/-!
What operations on a tree of files leave intact: files as they were, directories with their members.
Directories may be added. On a tree without a working directory a file becomes a directory once
something is put below it, so for such trees no file may stand above the paths that are touched.
-/

namespace LexiconCompiler

namespace FileSystem

open LexiconCompiler.Path

/-- What stood at a path of a tree stands there still: a file as it was, a directory with all its
members that were there. Where nothing stood there may be a directory. -/
inductive Intact (before : FileSystem) : Option FileEntry → Option FileEntry → Prop
  | absent : Intact before none none
  | made {entry : FileEntry} : entry.isDirectory = true → Intact before none (some entry)
  | file {entry : FileEntry} : entry.isDirectory = false → Intact before (some entry) (some entry)
  | directory {entry : FileEntry} {members kept : List String} : entry.members = some members →
      (∀ member ∈ members, (before.at? member).isSome = true → member ∈ kept) →
      Intact before (some entry) (some { entry with members := some kept })

/-- A tree is intact but for some paths. -/
structure IntactBut (before : FileSystem) (own : List String) (fs : FileSystem) : Prop where
  workingDirectory : fs.workingDirectory = before.workingDirectory
  at? : ∀ path, path ∉ own → before.Intact (before.at? path) (fs.at? path)

/-- The paths of the directories around a path. -/
inductive Above (fs : FileSystem) : String → String → Prop
  | around {path : String} : Above fs path (fs.key (dir path))
  | further {path directory : String} : Above fs (fs.key (dir path)) directory →
      Above fs path directory

variable {before fs : FileSystem} {own : List String} {path directory : String} {entry : FileEntry}

section Entries

variable {old new : Option FileEntry}

private theorem Intact.refl (before : FileSystem) (entry : Option FileEntry) :
    before.Intact entry entry := by
  cases entry with
  | none => exact .absent
  | some entry =>
    cases hmembers : entry.members with
    | none => exact .file (by rw [FileEntry.isDirectory, hmembers]; rfl)
    | some members =>
      have hsame : entry = { entry with members := some members } := by rw [← hmembers]
      conv_rhs => rw [hsame]
      exact .directory hmembers fun _ hmember _ => hmember

theorem isDirectoryAt_eq_true : fs.isDirectoryAt path = true ↔
    ∃ entry, fs.at? path = some entry ∧ entry.isDirectory = true := by
  unfold isDirectoryAt
  cases fs.at? path <;> simp

private theorem isFileAt_eq_false :
    fs.isFileAt path = false ↔ ∀ entry, fs.at? path = some entry → entry.isDirectory = true := by
  unfold isFileAt
  cases fs.at? path <;> simp

theorem isFileAt_of_directory (hentry : fs.at? path = some entry)
    (hdirectory : entry.isDirectory = true) : fs.isFileAt path = false := by
  rw [isFileAt, hentry]
  simp only [hdirectory, Bool.not_true]

theorem ne_root_of_free (hroot : fs.isDirectoryAt "/" = true) (hfree : fs.at? path = none) :
    path ≠ "/" := by
  rintro rfl
  obtain ⟨root, hentry, -⟩ := isDirectoryAt_eq_true.mp hroot
  rw [hfree] at hentry
  cases hentry

private theorem depth_pos_of_free (hfs : fs.Grounded) (hpath : fs.key path = path)
    (hroot : fs.isDirectoryAt "/" = true) (hfree : fs.at? path = none) : 0 < depth path :=
  Nat.pos_iff_ne_zero.mpr fun hzero =>
    ne_root_of_free hroot hfree (eq_root_of_depth hfs hpath hzero)

private theorem isDirectory_withoutMember (entry : FileEntry) (path : String) :
    (entry.withoutMember path).isDirectory = entry.isDirectory := by
  rw [FileEntry.isDirectory, FileEntry.isDirectory, FileEntry.withoutMember, Option.isSome_map]

private theorem Intact.withMember (h : before.Intact old (some entry))
    (hdirectory : entry.isDirectory = true) (path : String) :
    before.Intact old (some (entry.withMember path)) := by
  cases h with
  | made => exact .made rfl
  | file hfile =>
    rw [hfile] at hdirectory
    cases hdirectory
  | directory hmembers hkept =>
    refine .directory hmembers fun member hmember hthere => ?_
    have hold := hkept member hmember hthere
    simp only [Option.getD_some]
    split
    · exact hold
    · exact List.mem_append_left _ hold

private theorem Intact.withoutMember (h : before.Intact old (some entry))
    (hfree : before.at? path = none) :
    before.Intact old (some (entry.withoutMember path)) := by
  cases h with
  | made hdirectory => exact .made ((isDirectory_withoutMember entry path).trans hdirectory)
  | file hfile =>
    have hnone : entry.members = none := by simpa [FileEntry.isDirectory] using hfile
    have hsame : entry.withoutMember path = entry := by
      rw [FileEntry.withoutMember, hnone, Option.map_none, ← hnone]
    rw [hsame]
    exact .file hfile
  | directory hmembers hkept =>
    refine .directory hmembers fun member hmember hthere => ?_
    have hne : member ≠ path := by
      rintro rfl
      rw [hfree] at hthere
      cases hthere
    exact List.mem_filter.mpr ⟨hkept member hmember hthere, by simpa using hne⟩

end Entries

namespace IntactBut

theorem refl (before : FileSystem) (own : List String) : before.IntactBut own before :=
  ⟨rfl, fun _ _ => .refl before _⟩

theorem mono (h : before.IntactBut own fs) {more : List String} (hsub : own ⊆ more) :
    before.IntactBut more fs :=
  ⟨h.workingDirectory, fun path hpath => h.at? path fun hmem => hpath (hsub hmem)⟩

theorem grounded (h : before.IntactBut own fs) (hbefore : before.Grounded) : fs.Grounded := by
  intro directory hdirectory
  rw [h.workingDirectory] at hdirectory
  exact hbefore directory hdirectory

theorem key_eq (h : before.IntactBut own fs) (path : String) : fs.key path = before.key path :=
  key_congr h.workingDirectory path

theorem update_own (h : before.IntactBut own fs) (hown : path ∈ own)
    (change : FileEntry → FileEntry) : before.IntactBut own (fs.update path change) := by
  refine ⟨h.workingDirectory, fun other hother => ?_⟩
  have hne : other ≠ path := fun hsame => hother (hsame ▸ hown)
  rw [at?_update, if_neg hne]
  exact h.at? other hother

private theorem update (h : before.IntactBut own fs) {change : FileEntry → FileEntry}
    (hchange : ∀ old entry, fs.at? path = some entry → before.Intact old (some entry) →
      before.Intact old (some (change entry))) :
    before.IntactBut own (fs.update path change) := by
  refine ⟨h.workingDirectory, fun other hother => ?_⟩
  have hintact := h.at? other hother
  rw [at?_update]
  split
  next hsame =>
    subst hsame
    cases hentry : fs.at? other with
    | none => rwa [hentry] at hintact
    | some entry =>
      rw [hentry] at hintact
      exact hchange _ entry hentry hintact
  · exact hintact

private theorem withMember (h : before.IntactBut own fs) (hfile : fs.isFileAt directory = false)
    (path : String) :
    before.IntactBut own (fs.update directory fun entry => entry.withMember path) :=
  h.update fun _ entry hentry hintact =>
    hintact.withMember (isFileAt_eq_false.mp hfile entry hentry) path

private theorem withoutMember (h : before.IntactBut own fs) (hfree : before.at? path = none)
    (directory : String) :
    before.IntactBut own (fs.update directory fun entry => entry.withoutMember path) :=
  h.update fun _ _ _ hintact => hintact.withoutMember hfree

private theorem put_own (h : before.IntactBut own fs) (hown : path ∈ own) (entry : FileEntry) :
    before.IntactBut own (fs.put path entry) := by
  refine ⟨h.workingDirectory, fun other hother => ?_⟩
  have hne : other ≠ path := fun hsame => hother (hsame ▸ hown)
  rw [at?_put, if_neg hne]
  exact h.at? other hother

private theorem put_directory (h : before.IntactBut own fs) (hfree : fs.at? path = none) :
    before.IntactBut own (fs.put path .directory) := by
  refine ⟨h.workingDirectory, fun other hother => ?_⟩
  have hintact := h.at? other hother
  rw [at?_put]
  split
  next hsame =>
    rw [hsame, hfree] at hintact
    rw [hsame]
    generalize before.at? path = old at hintact ⊢
    cases hintact
    exact .made rfl
  · exact hintact

theorem remove (h : before.IntactBut own fs) (hfree : before.at? path = none)
    {rest : List String} (hrest : ∀ other ∈ own, other = path ∨ other ∈ rest) :
    before.IntactBut rest (fs.remove path) := by
  have hleft := h.withoutMember hfree (fs.key (dir path))
  refine ⟨h.workingDirectory, fun other hother => ?_⟩
  rw [at?_remove_eq]
  split
  next hsame =>
    rw [hsame, hfree]
    exact .absent
  next hne => exact hleft.at? other fun hown => (hrest other hown).elim hne hother

end IntactBut

section Ancestors

theorem mem_ancestors : directory ∈ ancestors path ↔
    (∃ n, n < (segments path).length ∧
      ofSegments (isAbsolute path) ((segments path).take n) = directory) ∧ directory ≠ "." := by
  simp only [ancestors, List.mem_filter, List.mem_map, List.mem_range, bne_iff_ne]

private theorem dir_eq (h : clean path = path) :
    dir path = ofSegments (isAbsolute path) (segments path).dropLast := by
  rw [← clean_dir, clean, isAbsolute_dir h, segments_dir h]

private theorem ancestors_dir (h : clean path = path) (hmem : directory ∈ ancestors (dir path)) :
    directory ∈ ancestors path := by
  rw [mem_ancestors, isAbsolute_dir h, segments_dir h] at hmem
  obtain ⟨⟨n, hn, rfl⟩, hdot⟩ := hmem
  rw [List.length_dropLast] at hn
  refine mem_ancestors.mpr ⟨⟨n, by omega, ?_⟩, hdot⟩
  rw [List.dropLast_eq_take, List.take_take, Nat.min_eq_left (by omega)]

private theorem around_cases (hfs : fs.Grounded) (hpath : fs.key path = path) :
    fs.key (dir path) = "/" ∨
      fs.key (dir path) = dir path ∧ dir path ∈ ancestors path := by
  have hclean := clean_of_key hfs hpath
  by_cases hzero : depth path = 0
  · left
    have hroot := eq_root_of_depth hfs hpath hzero
    rw [hroot] at hpath ⊢
    exact hpath
  have hmem (hdot : dir path ≠ ".") : dir path ∈ ancestors path := by
    have hlength : (segments path).length - 1 < (segments path).length := by
      rw [depth] at hzero
      omega
    refine mem_ancestors.mpr ⟨⟨(segments path).length - 1, hlength, ?_⟩, hdot⟩
    rw [dir_eq hclean, List.dropLast_eq_take]
  cases hwd : fs.workingDirectory with
  | some working =>
    have habsolute : isAbsolute (dir path) = true := by
      rw [isAbsolute_dir hclean, ← hpath]
      exact isAbsolute_key hfs hwd path
    have hdot : dir path ≠ "." := by
      intro hdot
      rw [hdot] at habsolute
      cases habsolute
    rw [key_of_some hwd, if_pos habsolute, clean_dir]
    exact Or.inr ⟨rfl, hmem hdot⟩
  | none =>
    rw [key_of_none hwd, clean_dir]
    split
    · exact Or.inl rfl
    next hplain =>
      refine Or.inr ⟨rfl, hmem fun hdot => hplain ?_⟩
      rw [hdot]
      rfl

theorem Above.mem_ancestors (hfs : fs.Grounded) (h : fs.Above path directory)
    (hpath : fs.key path = path) : directory = "/" ∨ directory ∈ ancestors path := by
  induction h with
  | around =>
    refine (around_cases hfs hpath).imp_right fun hmem => ?_
    rw [hmem.1]
    exact hmem.2
  | @further path directory _ ih =>
    have hclean := clean_of_key hfs hpath
    refine (ih (key_key hfs _)).imp_right fun hmem => ?_
    rcases around_cases hfs hpath with hroot | ⟨hdir, -⟩
    · rw [hroot] at hmem
      cases hmem
    · rw [hdir] at hmem
      exact ancestors_dir hclean hmem

end Ancestors

section Directories

private theorem Above.congr {gs : FileSystem} (h : fs.Above path directory)
    (hgs : fs.workingDirectory = gs.workingDirectory) : gs.Above path directory := by
  induction h with
  | around =>
    rw [key_congr hgs]
    exact .around
  | further _ ih =>
    rw [key_congr hgs] at ih
    exact .further ih

private theorem isDirectoryAt_put_directory (h : fs.isDirectoryAt path = true) (other : String) :
    (fs.put other .directory).isDirectoryAt path = true := by
  rw [isDirectoryAt_eq_true] at h ⊢
  rw [at?_put]
  split
  · exact ⟨.directory, rfl, rfl⟩
  · exact h

private theorem isFileAt_put_directory (h : path ≠ directory → fs.isFileAt path = false) :
    (fs.put directory .directory).isFileAt path = false := by
  by_cases hsame : path = directory
  · have hentry : (fs.put directory .directory).at? path = some .directory := by
      rw [at?_put, if_pos hsame]
    exact isFileAt_of_directory hentry rfl
  · rw [isFileAt_eq_false, at?_put, if_neg hsame]
    exact isFileAt_eq_false.mp (h hsame)

/-- Where no file stands above a path, making it a member of the directories around it leaves all
intact. -/
private theorem IntactBut.register (h : before.IntactBut own fs) (hfs : fs.Grounded)
    (hroot : fs.isDirectoryAt "/" = true) (hpath : fs.key path = path)
    (hfiles : ∀ directory, fs.Above path directory → fs.isFileAt directory = false) (steps : Nat) :
    before.IntactBut own (register steps path fs) := by
  induction steps generalizing path fs with
  | zero => exact h
  | succ steps ih =>
    rw [FileSystem.register]
    split
    · exact h.withMember (hfiles _ .around) path
    next hnone =>
      have hfree : fs.at? (fs.key (dir path)) = none := by simpa using hnone
      have hkey : fs.key (fs.key (dir path)) = fs.key (dir path) := key_key hfs _
      have hgrounded : (fs.put (fs.key (dir path)) .directory).Grounded := hfs
      have hpos := depth_pos_of_free hfs hkey hroot hfree
      have hmade : before.IntactBut own
          (FileSystem.register steps (fs.key (dir path)) (fs.put (fs.key (dir path)) .directory)) :=
        ih (h.put_directory hfree) hgrounded (isDirectoryAt_put_directory hroot _) hkey
          fun directory habove => isFileAt_put_directory fun _ =>
            hfiles directory (.further (habove.congr rfl))
      have haround : (FileSystem.register steps (fs.key (dir path))
          (fs.put (fs.key (dir path)) .directory)).at? (fs.key (dir path)) = some .directory := by
        rw [at?_register hgrounded hkey le_rfl hpos, at?_put, if_pos rfl]
      exact hmade.withMember (isFileAt_of_directory haround rfl) path

theorem IntactBut.of_makeDirs (hbefore : before.Grounded) (hroot : before.isDirectoryAt "/" = true)
    (hpath : before.key path = path) (hfile : before.isFileAt path = false)
    (hfiles : ∀ directory, before.Above path directory → before.isFileAt directory = false)
    {made : FileSystem} (hmade : before.makeDirs path = .ok made) :
    before.IntactBut [] made ∧ made.isDirectoryAt path = true := by
  rw [eq_of_makeDirs hmade]
  cases hentry : before.at? path with
  | some entry =>
    refine ⟨.refl before [], isDirectoryAt_eq_true.mpr ⟨entry, hentry, ?_⟩⟩
    exact isFileAt_eq_false.mp hfile entry hentry
  | none =>
    have hgrounded : (before.put path .directory).Grounded := hbefore
    have hkey : (before.put path .directory).key path = path := hpath
    have hpos := depth_pos_of_free hbefore hpath hroot hentry
    constructor
    · refine ((refl before []).put_directory hentry).register hgrounded
        (isDirectoryAt_put_directory hroot path) hkey (fun directory habove => ?_) _
      exact isFileAt_put_directory fun _ => hfiles directory (habove.congr rfl)
    · rw [isDirectoryAt_eq_true]
      refine ⟨.directory, ?_, rfl⟩
      show (before.place path .directory).at? path = some .directory
      rw [at?_place hbefore hpath le_rfl hpos, if_pos rfl]

theorem isFileAt_of_makeDirs {made : FileSystem} (hmade : fs.makeDirs path = .ok made)
    (hwd : fs.workingDirectory.isSome = true) (hdirectory : directory ∈ ancestors path ++ [path]) :
    fs.isFileAt directory = false := by
  obtain ⟨working, hworking⟩ := Option.isSome_iff_exists.mp hwd
  simp only [makeDirs, hworking] at hmade
  cases hfind : (ancestors path ++ [path]).find? fs.isFileAt with
  | none => simpa using List.find?_eq_none.mp hfind directory hdirectory
  | some file =>
    rw [hfind] at hmade
    cases hmade

end Directories

section Beside

theorem isDirectoryAt_congr {gs : FileSystem} (h : gs.at? directory = fs.at? directory) :
    gs.isDirectoryAt directory = fs.isDirectoryAt directory := by
  rw [isDirectoryAt, isDirectoryAt, h]

theorem isDirectoryAt_remove (h : fs.isDirectoryAt directory = true) (hne : directory ≠ path) :
    (fs.remove path).isDirectoryAt directory = true := by
  obtain ⟨entry, hentry, hdirectory⟩ := isDirectoryAt_eq_true.mp h
  rw [isDirectoryAt_eq_true, at?_remove_eq, if_neg hne, at?_update]
  split
  next hsame =>
    rw [← hsame, hentry]
    exact ⟨_, rfl, (isDirectory_withoutMember entry path).trans hdirectory⟩
  · exact ⟨entry, hentry, hdirectory⟩

theorem IntactBut.place (h : before.IntactBut own fs) (hown : path ∈ own)
    (hdirectory : fs.isDirectoryAt (fs.key (dir path)) = true) (hne : fs.key (dir path) ≠ path)
    (entry : FileEntry) :
    before.IntactBut own (fs.place path entry) ∧
      (fs.place path entry).at? path = some entry ∧
      (fs.place path entry).isDirectoryAt (fs.key (dir path)) = true := by
  have hat : (fs.put path entry).at? (fs.key (dir path)) = fs.at? (fs.key (dir path)) := by
    rw [at?_put, if_neg hne]
  obtain ⟨around, haround, hstands⟩ := isDirectoryAt_eq_true.mp hdirectory
  have hplace : fs.place path entry =
      (fs.put path entry).update (fs.key (dir path)) fun entry => entry.withMember path := by
    have hkey : (fs.put path entry).key (dir path) = fs.key (dir path) := rfl
    have hsome : ((fs.put path entry).at? (fs.key (dir path))).isSome = true := by
      rw [hat, haround]
      rfl
    rw [FileSystem.place, FileSystem.register, hkey, if_pos hsome]
  rw [hplace]
  refine ⟨(h.put_own hown entry).withMember ?_ path, ?_, ?_⟩
  · exact isFileAt_of_directory (hat.trans haround) hstands
  · rw [at?_update, if_neg (Ne.symm hne), at?_put, if_pos rfl]
  · rw [isDirectoryAt_eq_true, at?_update, if_pos rfl, hat, haround]
    exact ⟨_, rfl, rfl⟩

end Beside

end FileSystem

end LexiconCompiler
