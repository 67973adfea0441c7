import LexiconCompiler.Proofs.Files.Extension
import LexiconCompiler.Proofs.Files.FileSystem

set_option autoImplicit false
set_option relaxedAutoImplicit false

/-!
Trees whose directories only lead down. A member leads up if its path ends with `..`, which no clean
path from the root does. So a tree stays without such members as long as files are added by paths
from the root, and with a working directory every path stands for one.
-/

namespace LexiconCompiler

open LexiconCompiler.Path (clean dir isAbsolute segments)

section Paths

variable {path : String}

def Path.Descends (path : String) : Prop := ".." ∉ segments path

private theorem Path.Descends.base_ne (h : Path.Descends path) (hclean : clean path = path) :
    Path.base path ≠ ".." := by
  rw [← hclean]
  rcases List.eq_nil_or_concat (segments path) with hnil | ⟨front, last, hlast⟩
  · rw [clean, hnil]
    cases isAbsolute path <;> decide
  · rw [List.concat_eq_append] at hlast
    rw [Path.base_clean_of_segments hlast]
    rintro rfl
    rw [Path.Descends, hlast] at h
    simp at h

private theorem Path.Kept.up_notMem {before : List String} (h : Path.Kept true before) :
    ".." ∉ before := by
  induction h with
  | nil => exact List.not_mem_nil
  | name hname _ ih => exact List.not_mem_cons_of_ne_of_not_mem hname.ne_dots.symm ih
  | up hrooted _ => cases hrooted

private theorem Path.Descends.of_isAbsolute (h : isAbsolute path = true) : Path.Descends path := by
  have hreduced := Path.reduced_segments path
  rw [h] at hreduced
  exact fun hup => hreduced.up_notMem (List.mem_reverse.mpr hup)

end Paths

def FileEntry.LeadsDown (entry : FileEntry) : Prop :=
  ∀ member ∈ entry.members.getD [], Path.base member ≠ ".."

instance (entry : FileEntry) : Decidable entry.LeadsDown :=
  inferInstanceAs (Decidable (∀ member ∈ entry.members.getD [], Path.base member ≠ ".."))

private theorem FileEntry.LeadsDown.withMember {entry : FileEntry} {path : String}
    (h : entry.LeadsDown) (hpath : Path.base path ≠ "..") : (entry.withMember path).LeadsDown := by
  intro member hmember
  simp only [FileEntry.withMember, Option.getD_some] at hmember
  split at hmember
  · exact h member hmember
  · rcases List.mem_append.mp hmember with hold | hnew
    · exact h member hold
    · rw [List.mem_singleton.mp hnew]
      exact hpath

namespace FileSystem

/-- None of the directories of a tree has a member that ends with a way up. -/
def LeadsDown (fs : FileSystem) : Prop := ∀ entry ∈ fs.entries.map Prod.snd, entry.LeadsDown

instance (fs : FileSystem) : Decidable fs.LeadsDown :=
  inferInstanceAs (Decidable (∀ entry ∈ fs.entries.map Prod.snd, entry.LeadsDown))

variable {fs : FileSystem} {path : String} {entry : FileEntry}

private theorem LeadsDown.of_at? (h : fs.LeadsDown) (hentry : fs.at? path = some entry) :
    entry.LeadsDown := by
  obtain ⟨before, after, hentries, -⟩ := List.lookup_eq_some_iff.mp hentry
  refine h entry ?_
  rw [hentries]
  simp

theorem LeadsDown.of_entry? (h : fs.LeadsDown) (hentry : fs.entry? path = some entry) :
    entry.LeadsDown := by
  unfold entry? at hentry
  dsimp only at hentry
  split at hentry
  · exact h.of_at? hentry
  · cases hentry

private theorem descends_around (hfs : fs.Grounded) (hpath : fs.key path = path)
    (h : Path.Descends path) : Path.Descends (fs.key (dir path)) := by
  have hdir : Path.Descends (dir path) := by
    rw [Path.Descends, Path.segments_dir (clean_of_key hfs hpath)]
    exact fun hup => h (List.dropLast_subset _ hup)
  cases hwd : fs.workingDirectory with
  | some directory => exact .of_isAbsolute (isAbsolute_key hfs hwd _)
  | none =>
    rw [key_of_none hwd, Path.clean_dir]
    split
    · exact .of_isAbsolute (by decide)
    · exact hdir

private theorem LeadsDown.update {change : FileEntry → FileEntry} (h : fs.LeadsDown)
    (hchange : ∀ entry : FileEntry, entry.LeadsDown → (change entry).LeadsDown) :
    (fs.update path change).LeadsDown := by
  intro entry hentry
  rw [FileSystem.update, List.map_map] at hentry
  obtain ⟨⟨p, old⟩, hold, rfl⟩ := List.mem_map.mp hentry
  have hdown := h old (List.mem_map_of_mem hold)
  dsimp only [Function.comp_apply]
  split
  · exact hchange old hdown
  · exact hdown

private theorem LeadsDown.put (h : fs.LeadsDown) (hentry : entry.LeadsDown) :
    (fs.put path entry).LeadsDown := by
  rw [FileSystem.put]
  split
  · exact h.update fun _ _ => hentry
  · intro other hother
    rw [List.map_append, List.mem_append] at hother
    rcases hother with hold | hnew
    · exact h other hold
    · rw [List.mem_singleton.mp hnew]
      exact hentry

private theorem LeadsDown.register (h : fs.LeadsDown) (hfs : fs.Grounded)
    (hpath : fs.key path = path) (hdown : Path.Descends path) (steps : Nat) :
    (register steps path fs).LeadsDown := by
  induction steps generalizing path fs with
  | zero => exact h
  | succ steps ih =>
    have hbase := hdown.base_ne (clean_of_key hfs hpath)
    rw [FileSystem.register]
    refine LeadsDown.update ?_ fun entry hentry => FileEntry.LeadsDown.withMember hentry hbase
    split
    · exact h
    · have hkey : (fs.put (fs.key (dir path)) .directory).key (fs.key (dir path)) =
          fs.key (dir path) := key_key hfs _
      exact ih (h.put (by decide)) hfs hkey (descends_around hfs hpath hdown)

private theorem LeadsDown.place (h : fs.LeadsDown) (hfs : fs.Grounded) (hpath : fs.key path = path)
    (hdown : Path.Descends path) (hentry : entry.LeadsDown) : (fs.place path entry).LeadsDown :=
  (h.put hentry).register hfs hpath hdown _

private theorem leadsDown_empty {workingDirectory : Option String}
    (h : ∀ directory, workingDirectory = some directory →
      isAbsolute directory = true ∧ clean directory = directory) :
    (empty workingDirectory).LeadsDown := by
  have hroot : (⟨[("/", .directory)], workingDirectory⟩ : FileSystem).LeadsDown := by
    intro entry hentry
    rw [List.mem_singleton.mp hentry]
    decide
  cases workingDirectory with
  | none => exact hroot
  | some directory =>
    obtain ⟨habsolute, hclean⟩ := h directory rfl
    simp only [empty]
    split
    · exact hroot
    · refine hroot.place (fun d hd => (h d hd).1) ?_ (.of_isAbsolute habsolute) (by decide)
      rw [key_of_some rfl, if_pos habsolute, hclean]

private theorem workingDirectory_addFile (fs : FileSystem) (path content : String) :
    (fs.addFile path content).workingDirectory = fs.workingDirectory := by
  simp only [FileSystem.addFile]
  cases fs.at? (fs.key path) with
  | none => exact workingDirectory_place
  | some entry => rfl

private theorem LeadsDown.addFile (h : fs.LeadsDown) (hfs : fs.Grounded)
    (hdown : Path.Descends (fs.key path)) (content : String) :
    (fs.addFile path content).LeadsDown := by
  simp only [FileSystem.addFile]
  cases hat : fs.at? (fs.key path) with
  | none => exact h.place hfs (key_key hfs path) hdown nofun
  | some old =>
    have hold : old.LeadsDown := h.of_at? hat
    exact h.put hold

private theorem LeadsDown.addFiles (h : fs.LeadsDown) (hfs : fs.Grounded)
    (files : List (String × String)) (hdown : ∀ file ∈ files, Path.Descends (fs.key file.1)) :
    (files.foldl (fun fs file => fs.addFile file.1 file.2) fs).LeadsDown := by
  induction files generalizing fs with
  | nil => exact h
  | cons file files ih =>
    rw [List.forall_mem_cons] at hdown
    have hwd := workingDirectory_addFile fs file.1 file.2
    refine ih (h.addFile hfs hdown.1 file.2) ?_ fun other hother => ?_
    · rw [Grounded, hwd]
      exact hfs
    · rw [key_congr hwd]
      exact hdown.2 other hother

private theorem workingDirectory_empty (workingDirectory : Option String) :
    (empty workingDirectory).workingDirectory = workingDirectory := by
  cases workingDirectory with
  | none => rfl
  | some directory =>
    simp only [empty]
    split
    · rfl
    · exact workingDirectory_place

/-- A tree of nothing but files leads down. Without a working directory the files have to be added
by paths without ways up; with one, every path stands for one from the root. -/
theorem leadsDown_of_files {workingDirectory : Option String}
    (h : ∀ directory, workingDirectory = some directory →
      isAbsolute directory = true ∧ clean directory = directory)
    {files : List (String × String)}
    (hdown : workingDirectory = none → ∀ file ∈ files, Path.Descends file.1) :
    (files.foldl (fun fs file => fs.addFile file.1 file.2) (empty workingDirectory)).LeadsDown := by
  have hwd := workingDirectory_empty workingDirectory
  have hgrounded : (empty workingDirectory).Grounded := by
    rw [Grounded, hwd]
    exact fun directory hd => (h directory hd).1
  refine (leadsDown_empty h).addFiles hgrounded files fun file hfile => ?_
  cases workingDirectory with
  | some directory => exact .of_isAbsolute (isAbsolute_key hgrounded hwd file.1)
  | none =>
    rw [key_of_none hwd]
    split
    · exact .of_isAbsolute (by decide)
    · rw [Path.Descends, Path.segments_clean]
      exact hdown rfl file hfile

end FileSystem

end LexiconCompiler
