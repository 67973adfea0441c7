import LexiconCompiler.Output.FileSink
import LexiconCompiler.Proofs.Files.FileSystem
import LexiconCompiler.Proofs.Number.Numeral

set_option autoImplicit false
set_option relaxedAutoImplicit false

/-!
What one step of a write that may not overwrite does to the files beside its target. Before it has
claimed the target it changes none of them; while it holds the claim it answers for the target and
at most one temporary file; and it ends with its content at the target or with all as it was.
-/

namespace LexiconCompiler

open LexiconCompiler.Path

namespace WriteCall

section TempNames

variable {call : WriteCall}

private theorem isName_temp (number : Nat) : IsName (".lexgen-" ++ toString number ++ ".tmp") := by
  have hlist : (".lexgen-" ++ toString number ++ ".tmp").toList =
      ".lexgen-".toList ++ Number.digits number ++ ".tmp".toList := by
    rw [String.toList_append, String.toList_append, Nat.toString_eq_repr, Nat.toList_repr]
  have hother : ∀ text : String, text.toList.length < 8 →
      ".lexgen-" ++ toString number ++ ".tmp" ≠ text := by
    rintro text hlength rfl
    rw [hlist, List.length_append, List.length_append] at hlength
    have height : ".lexgen-".toList.length = 8 := by decide
    omega
  refine ⟨hother "" (by decide), hother "." (by decide), hother ".." (by decide), ?_⟩
  rw [hlist, List.mem_append, List.mem_append]
  rintro ((hstart | hdigit) | hend)
  · exact absurd hstart (by decide)
  · exact absurd (Number.isAsciiDigit_of_mem hdigit) (by decide)
  · exact absurd hend (by decide)

private theorem directory_ne_empty : call.directory ≠ "" := clean_ne_empty _

theorem segments_tempName (number : Nat) :
    segments (call.tempName number) =
      segments call.directory ++ [".lexgen-" ++ toString number ++ ".tmp"] :=
  segments_join_name directory_ne_empty (isName_temp number)

theorem dir_tempName (call : WriteCall) (number : Nat) :
    Path.dir (call.tempName number) = call.directory := by
  have hdirectory : clean call.directory = call.directory := clean_dir _
  have hclean : clean (call.tempName number) = call.tempName number :=
    clean_join directory_ne_empty _
  have hsegments : segments (Path.dir (call.tempName number)) = segments call.directory := by
    rw [segments_dir hclean, segments_tempName, List.dropLast_concat]
  have habsolute : isAbsolute (Path.dir (call.tempName number)) = isAbsolute call.directory := by
    rw [isAbsolute_dir hclean, tempName, isAbsolute_join directory_ne_empty]
  rw [← clean_dir, ← hdirectory, clean, clean, hsegments, habsolute]

private theorem tempName_injective : Function.Injective call.tempName := by
  intro a b he
  have hsegments := congrArg segments he
  rw [segments_tempName, segments_tempName] at hsegments
  have hname := List.singleton_inj.mp (List.append_cancel_left hsegments)
  have hdigits := congrArg String.toList hname
  simp only [String.toList_append, Nat.toString_eq_repr, Nat.toList_repr] at hdigits
  have hsame := List.append_cancel_left (List.append_cancel_right hdigits)
  have hvalue := congrArg (Number.numeral? 10) hsame
  rw [Number.numeral?_digits, Number.numeral?_digits] at hvalue
  exact Option.some.inj hvalue

theorem depth_tempName (htarget : clean call.target = call.target) (hpos : 0 < depth call.target)
    (number : Nat) : depth (call.tempName number) = depth call.target := by
  have hdirectory : segments call.directory = (segments call.target).dropLast :=
    segments_dir htarget
  rw [depth, segments_tempName, hdirectory, List.length_append, List.length_dropLast]
  exact Nat.sub_add_cancel hpos

theorem key_tempName {fs : FileSystem} (hfs : fs.Grounded)
    (htarget : fs.key call.target = call.target) (number : Nat) :
    fs.key (call.tempName number) = call.tempName number := by
  have hclean : clean (call.tempName number) = call.tempName number :=
    clean_join directory_ne_empty _
  cases hwd : fs.workingDirectory with
  | some directory =>
    have htargetClean := FileSystem.clean_of_key hfs htarget
    have habsolute : isAbsolute (call.tempName number) = true := by
      rw [tempName, isAbsolute_join directory_ne_empty, WriteCall.directory,
        isAbsolute_dir htargetClean, ← htarget]
      exact FileSystem.isAbsolute_key hfs hwd _
    rw [FileSystem.key_of_some hwd, if_pos habsolute, hclean]
  | none =>
    have hother : ∀ text : String, segments text = [] ∨ segments text = [".."] →
        call.tempName number ≠ text := by
      rintro text hsegments rfl
      have hlast : ".lexgen-" ++ toString number ++ ".tmp" ∈ segments (call.tempName number) := by
        rw [segments_tempName]
        exact List.mem_append_right _ (List.mem_singleton_self _)
      rcases hsegments with hnil | hup
      · rw [hnil] at hlast
        cases hlast
      · rw [hup] at hlast
        exact (isName_temp number).ne_dots (List.mem_singleton.mp hlast)
    have hdot := hother "." (Or.inl (by decide))
    have hdots := hother ".." (Or.inr (by decide))
    rw [FileSystem.key_of_none hwd, hclean]
    simp [hdot, hdots]

theorem exists_freeTemp (call : WriteCall) (fs : FileSystem) (tries number : Nat) :
    ∃ found, call.freeTemp fs tries number = call.tempName found := by
  induction tries generalizing number with
  | zero => exact ⟨number, rfl⟩
  | succ tries ih =>
    rw [freeTemp]
    split
    · exact ih (number + 1)
    · exact ⟨number, rfl⟩

private theorem taken_of_freeTemp {fs : FileSystem} (tries number : Nat)
    (h : (fs.at? (call.freeTemp fs tries number)).isSome = true) (k : Nat) (hk : k ≤ tries) :
    (fs.at? (call.tempName (number + k))).isSome = true := by
  induction tries generalizing number k with
  | zero =>
    obtain rfl := Nat.le_zero.mp hk
    exact h
  | succ tries ih =>
    by_cases htaken : (fs.at? (call.tempName number)).isSome = true
    · rw [freeTemp, if_pos htaken] at h
      cases k with
      | zero => exact htaken
      | succ k =>
        have hnext := ih (number + 1) h k (Nat.le_of_succ_le_succ hk)
        rw [Nat.add_assoc, Nat.add_comm 1 k] at hnext
        exact hnext
    · rw [freeTemp, if_neg htaken] at h
      exact absurd h htaken

/-- More names are tried than there are paths, so the name that is found is free. -/
theorem at?_freeTemp (call : WriteCall) (fs : FileSystem) (number : Nat) :
    fs.at? (call.freeTemp fs fs.entries.length number) = none := by
  by_contra hne
  have hsome : (fs.at? (call.freeTemp fs fs.entries.length number)).isSome = true :=
    Option.isSome_iff_ne_none.mpr hne
  let names := (List.range (fs.entries.length + 1)).map fun k => call.tempName (number + k)
  have hnodup : names.Nodup := by
    refine List.nodup_range.map ?_
    intro a b he
    exact Nat.add_left_cancel (tempName_injective he)
  have hlisted : names ⊆ fs.entries.map Prod.fst := by
    intro name hname
    obtain ⟨k, hk, rfl⟩ := List.mem_map.mp hname
    have hle : k ≤ fs.entries.length := Nat.le_of_lt_succ (List.mem_range.mp hk)
    exact FileSystem.at?_isSome.mp (taken_of_freeTemp _ _ hsome k hle)
  have hlength := (List.subperm_of_subset hnodup hlisted).length_le
  rw [List.length_map, List.length_map, List.length_range] at hlength
  omega

end TempNames

end WriteCall

/-- A tree that differs from another one only by some entries, as far as paths of a depth or deeper
are concerned. -/
structure FileSystem.Differs (before : FileSystem) (bound : Nat)
    (changes : List (String × FileEntry)) (fs : FileSystem) : Prop where
  workingDirectory : fs.workingDirectory = before.workingDirectory
  at? : ∀ path, bound ≤ depth path → fs.at? path = (changes.lookup path).or (before.at? path)

/-- The stages of a write that has not claimed its target, or has come to nothing. -/
inductive Stage.Idle : Stage → Prop
  | makeDirs : Idle .makeDirs
  | claim : Idle .claim
  | failed (failure : Failure) : Idle (.finished (some failure))

namespace WriteCall

def claimEntry : FileEntry := .file "" 0o600

def entry (call : WriteCall) : FileEntry := .file call.content (modeBits call.mode)

/-- A path that a temporary file may have: it lies beside the target and nothing was there. -/
structure FreshTemp (call : WriteCall) (before : FileSystem) (temp : String) : Prop where
  key : before.key temp = temp
  depth : depth temp = depth call.target
  ne_target : temp ≠ call.target
  free : before.at? temp = none

/-- The entries that a write answers for at a stage that follows its claim. -/
inductive Owns (call : WriteCall) (before : FileSystem) :
    Stage → List (String × FileEntry) → Prop
  | closeClaim : Owns call before .closeClaim [(call.target, claimEntry)]
  | openTemp : Owns call before .openTemp [(call.target, claimEntry)]
  | write {temp : String} : call.FreshTemp before temp →
      Owns call before (.write temp) [(call.target, claimEntry), (temp, claimEntry)]
  | close {temp : String} : call.FreshTemp before temp →
      Owns call before (.close temp) [(call.target, claimEntry), (temp, .file call.content 0o600)]
  | chmod {temp : String} : call.FreshTemp before temp →
      Owns call before (.chmod temp) [(call.target, claimEntry), (temp, .file call.content 0o600)]
  | confirm {temp : String} : call.FreshTemp before temp →
      Owns call before (.confirm temp) [(call.target, claimEntry), (temp, call.entry)]
  | rename {temp : String} : call.FreshTemp before temp →
      Owns call before (.rename temp) [(call.target, claimEntry), (temp, call.entry)]
  | dropTemp {temp : String} (failure : Failure) (left : FileEntry) : call.FreshTemp before temp →
      Owns call before (.dropTemp temp failure) [(call.target, claimEntry), (temp, left)]
  | dropClaim (failure : Failure) :
      Owns call before (.dropClaim failure) [(call.target, claimEntry)]
  | written : Owns call before (.finished none) [(call.target, call.entry)]

end WriteCall

namespace FileSystem.Differs

variable {before fs : FileSystem} {bound : Nat} {changes : List (String × FileEntry)}

theorem refl (before : FileSystem) (bound : Nat) : Differs before bound [] before :=
  ⟨rfl, fun _ _ => rfl⟩

theorem grounded (h : Differs before bound changes fs) (hbefore : before.Grounded) :
    fs.Grounded := by
  intro directory hdirectory
  rw [h.workingDirectory] at hdirectory
  exact hbefore directory hdirectory

private theorem key_eq (h : Differs before bound changes fs) {path : String}
    (hpath : before.key path = path) : fs.key path = path :=
  (key_congr h.workingDirectory path).trans hpath

private theorem place (h : Differs before bound changes fs) (hbefore : before.Grounded)
    {path : String} (hpath : before.key path = path) (hdepth : depth path = bound)
    (hpos : 0 < bound) (entry : FileEntry) :
    Differs before bound ((path, entry) :: changes) (fs.place path entry) := by
  refine ⟨workingDirectory_place.trans h.workingDirectory, fun other hother => ?_⟩
  have hle : depth path ≤ depth other := hdepth.trans_le hother
  rw [at?_place (h.grounded hbefore) (h.key_eq hpath) hle (hpos.trans_le hother),
    h.at? other hother]
  by_cases hsame : other = path
  · simp [hsame]
  · have hne : (other == path) = false := by simpa using hsame
    simp [List.lookup_cons, hne, hsame]

section Claimed

variable {target temp : String} {claimed entry : FileEntry}

private theorem swap (h : Differs before bound [(temp, entry), (target, claimed)] fs)
    (hne : temp ≠ target) : Differs before bound [(target, claimed), (temp, entry)] fs := by
  refine ⟨h.workingDirectory, fun other hother => ?_⟩
  rw [h.at? other hother]
  by_cases htarget : other = target
  · subst htarget
    have hnot : (other == temp) = false := by simpa using Ne.symm hne
    simp [List.lookup_cons, hnot]
  · have hnot : (other == target) = false := by simpa using htarget
    simp [List.lookup_cons, hnot]

private theorem update (h : Differs before bound [(target, claimed), (temp, entry)] fs)
    (hne : temp ≠ target) (hdepth : depth temp = bound) (change : FileEntry → FileEntry) :
    Differs before bound [(target, claimed), (temp, change entry)] (fs.update temp change) := by
  have hsplit : (temp == target) = false := by simpa using hne
  refine ⟨h.workingDirectory, fun other hother => ?_⟩
  rw [at?_update, h.at? temp hdepth.ge, h.at? other hother]
  by_cases htemp : other = temp
  · subst htemp
    simp [List.lookup_cons, hsplit]
  · have hother : (other == temp) = false := by simpa using htemp
    by_cases htarget : other = target
    · subst htarget
      simp [htemp]
    · have hnot : (other == target) = false := by simpa using htarget
      simp [List.lookup_cons, hother, hnot, htemp]

private theorem removeTemp (h : Differs before bound [(target, claimed), (temp, entry)] fs)
    (hbefore : before.Grounded) (hkey : before.key temp = temp) (hne : temp ≠ target)
    (hdepth : depth temp = bound) (hpos : 0 < bound) (hfree : before.at? temp = none) :
    Differs before bound [(target, claimed)] (fs.remove temp) := by
  have hsplit : (temp == target) = false := by simpa using hne
  refine ⟨h.workingDirectory, fun other hother => ?_⟩
  have hle : depth temp ≤ depth other := hdepth.trans_le hother
  rw [at?_remove (h.grounded hbefore) (h.key_eq hkey) hle (hpos.trans_le hother),
    h.at? other hother]
  by_cases htemp : other = temp
  · subst htemp
    simp [List.lookup_cons, hsplit, hfree]
  · have hnot : (other == temp) = false := by simpa using htemp
    rw [if_neg htemp]
    cases htarget : other == target <;> simp [List.lookup_cons, htarget, hnot]

private theorem removeClaim (h : Differs before bound [(target, claimed)] fs)
    (hbefore : before.Grounded) (hkey : before.key target = target) (hdepth : depth target = bound)
    (hpos : 0 < bound) (hfree : before.at? target = none) :
    Differs before bound [] (fs.remove target) := by
  refine ⟨h.workingDirectory, fun other hother => ?_⟩
  have hle : depth target ≤ depth other := hdepth.trans_le hother
  rw [at?_remove (h.grounded hbefore) (h.key_eq hkey) hle (hpos.trans_le hother),
    h.at? other hother]
  by_cases htarget : other = target
  · subst htarget
    simp [hfree]
  · have hnot : (other == target) = false := by simpa using htarget
    simp [List.lookup_cons, hnot, htarget]

private theorem move (h : Differs before bound [(target, claimed), (temp, entry)] fs)
    (hbefore : before.Grounded) (hkey : before.key temp = temp)
    (htarget : before.key target = target) (hne : temp ≠ target) (hdepth : depth temp = bound)
    (hsame : depth target = bound) (hpos : 0 < bound) (hfree : before.at? temp = none) :
    ∃ moved, fs.move? temp target = some moved ∧ Differs before bound [(target, entry)] moved := by
  have hsplit : (temp == target) = false := by simpa using hne
  have hentry : fs.at? temp = some entry := by
    rw [h.at? temp hdepth.ge]
    simp [List.lookup_cons, hsplit]
  obtain ⟨moved, hmoved, hdirectory, hat⟩ := at?_move (h.grounded hbefore) (h.key_eq hkey)
    (h.key_eq htarget) hne hentry (hdepth.trans hsame.symm)
  refine ⟨moved, hmoved, hdirectory.trans h.workingDirectory, fun other hother => ?_⟩
  rw [hat other (hsame.trans_le hother) (hpos.trans_le hother), h.at? other hother]
  by_cases ho : other = target
  · subst ho
    simp
  · have hnot : (other == target) = false := by simpa using ho
    rw [if_neg ho]
    by_cases htemp : other = temp
    · subst htemp
      simp [List.lookup_cons, hnot, hfree]
    · have hother' : (other == temp) = false := by simpa using htemp
      simp [List.lookup_cons, hnot, hother', htemp]

end Claimed

end FileSystem.Differs

namespace WriteCall

open FileSystem (Differs)

theorem step_eq (call : WriteCall) (given : Conditions) (stage : Stage) (fs : FileSystem) :
    (∃ cause operation, stage.operation? = some operation ∧
      call.step given stage fs = (call.onFault cause stage, spoil given.written fs stage)) ∨
    call.step given stage fs = call.advance given.number fs stage := by
  unfold step
  split
  next cause operation _ hoperation => exact Or.inl ⟨cause, operation, hoperation, rfl⟩
  · exact Or.inr rfl

section Step

variable {call : WriteCall} {before fs : FileSystem} {changes : List (String × FileEntry)}

private theorem differs_makeDirs (hbefore : before.Grounded)
    (hkey : before.key call.target = call.target)
    (hd : Differs before (depth call.target) changes fs)
    (hroot : 0 < depth call.target ∨ (fs.at? call.target).isSome = true) {made : FileSystem}
    (hmade : fs.makeDirs (fs.key call.directory) = .ok made) :
    Differs before (depth call.target) changes made := by
  have hfs := hd.grounded hbefore
  have htarget := hd.key_eq hkey
  by_cases hpos : 0 < depth call.target
  · obtain ⟨hdirectory, hat⟩ := FileSystem.at?_makeDirs hfs (FileSystem.key_key hfs _) hmade
    have haround : depth (fs.key call.directory) ≤ depth call.target - 1 :=
      FileSystem.depth_around hfs htarget
    refine ⟨hdirectory.trans hd.workingDirectory, fun other hother => ?_⟩
    rw [hat other (by omega), hd.at? other hother]
  · have hzero : depth call.target = 0 := Nat.eq_zero_of_not_pos hpos
    have hslash := FileSystem.eq_root_of_depth hfs htarget hzero
    have haround : fs.key call.directory = call.target := by
      have hdir : call.directory = call.target := by
        rw [WriteCall.directory, hslash]
        decide
      rw [hdir]
      exact htarget
    rw [haround] at hmade
    rw [FileSystem.makeDirs_of_isSome (hroot.resolve_left hpos) hmade]
    exact hd

private theorem freshTemp_freeTemp (hbefore : before.Grounded)
    (hkey : before.key call.target = call.target) (hpos : 0 < depth call.target)
    (hd : Differs before (depth call.target) [(call.target, claimEntry)] fs) (number : Nat) :
    call.FreshTemp before (call.freeTemp fs fs.entries.length number) := by
  have hclean := FileSystem.clean_of_key hbefore hkey
  obtain ⟨found, hfound⟩ := exists_freeTemp call fs fs.entries.length number
  have hdepth : depth (call.freeTemp fs fs.entries.length number) = depth call.target := by
    rw [hfound]
    exact depth_tempName hclean hpos found
  have hnone := at?_freeTemp call fs number
  have hne : call.freeTemp fs fs.entries.length number ≠ call.target := by
    intro he
    have hclaimed := hd.at? call.target le_rfl
    rw [← he, hnone] at hclaimed
    simp at hclaimed
  refine ⟨?_, hdepth, hne, ?_⟩
  · rw [hfound]
    exact key_tempName hbefore hkey found
  · have hbeq : (call.freeTemp fs fs.entries.length number == call.target) = false := by
      simpa using hne
    have hat := hd.at? _ hdepth.ge
    rw [hnone] at hat
    simpa [List.lookup_cons, hbeq] using hat.symm

theorem step_idle (hoverwrite : call.overwrite = false) (hbefore : before.Grounded)
    (hkey : before.key call.target = call.target)
    (hd : Differs before (depth call.target) changes fs)
    (hroot : 0 < depth call.target ∨ (fs.at? call.target).isSome = true) {stage : Stage}
    (hidle : stage.Idle) (given : Conditions) :
    ((call.step given stage fs).1.Idle ∧
      Differs before (depth call.target) changes (call.step given stage fs).2) ∨
    (fs.at? call.target = none ∧ (call.step given stage fs).1 = .closeClaim ∧
      Differs before (depth call.target) ((call.target, claimEntry) :: changes)
        (call.step given stage fs).2) := by
  rcases step_eq call given stage fs with ⟨cause, operation, hoperation, hstep⟩ | hstep
  · rw [hstep]
    left
    cases hidle with
    | makeDirs => exact ⟨.failed _, hd⟩
    | claim => exact ⟨.failed _, hd⟩
    | failed failure => exact ⟨.failed _, hd⟩
  · rw [hstep]
    cases hidle with
    | makeDirs =>
      left
      rw [advance]
      split
      next made hmade =>
        rw [hoverwrite]
        exact ⟨.claim, differs_makeDirs hbefore hkey hd hroot hmade⟩
      · exact ⟨.failed _, hd⟩
    | claim =>
      rw [advance]
      by_cases hthere : (fs.at? call.target).isSome = true
      · rw [if_pos hthere]
        exact Or.inl ⟨.failed _, hd⟩
      · rw [if_neg hthere]
        have hnone : fs.at? call.target = none := by simpa using hthere
        have hpos : 0 < depth call.target := hroot.resolve_right hthere
        exact Or.inr ⟨hnone, rfl, hd.place hbefore hkey rfl hpos claimEntry⟩
    | failed failure => exact Or.inl ⟨.failed _, hd⟩

/-- A write that has claimed its target keeps answering for it, until it takes all back. -/
theorem step_owns (hoverwrite : call.overwrite = false) (hbefore : before.Grounded)
    (hkey : before.key call.target = call.target) (hfree : before.at? call.target = none)
    (hpos : 0 < depth call.target) (hd : Differs before (depth call.target) changes fs)
    {stage : Stage} (howns : call.Owns before stage changes) (given : Conditions) :
    (∃ changes', call.Owns before (call.step given stage fs).1 changes' ∧
      Differs before (depth call.target) changes' (call.step given stage fs).2) ∨
    ((call.step given stage fs).1.Idle ∧
      Differs before (depth call.target) [] (call.step given stage fs).2) := by
  have hgiveUp : ∀ failure, call.giveUp failure = .dropClaim failure := by
    intro failure
    rw [giveUp, hoverwrite]
    rfl
  rcases step_eq call given stage fs with ⟨cause, operation, hoperation, hstep⟩ | hstep
  · rw [hstep]
    left
    cases howns with
    | closeClaim => exact ⟨_, .dropClaim _, hd⟩
    | openTemp =>
      rw [onFault, hgiveUp]
      exact ⟨_, .dropClaim _, hd⟩
    | write hfresh =>
      have hspoilt := hd.update hfresh.ne_target hfresh.depth fun entry =>
        { entry with content := given.written }
      exact ⟨_, .dropTemp _ _ hfresh, hspoilt⟩
    | close hfresh => exact ⟨_, .dropTemp _ _ hfresh, hd⟩
    | chmod hfresh => exact ⟨_, .dropTemp _ _ hfresh, hd⟩
    | confirm hfresh => exact ⟨_, .dropTemp _ _ hfresh, hd⟩
    | rename hfresh => exact ⟨_, .dropTemp _ _ hfresh, hd⟩
    | dropTemp failure left hfresh => cases hoperation
    | dropClaim failure => cases hoperation
    | written => cases hoperation
  · rw [hstep]
    cases howns with
    | closeClaim => exact Or.inl ⟨_, .openTemp, hd⟩
    | openTemp =>
      have hfresh := freshTemp_freeTemp hbefore hkey hpos hd given.number
      have hplaced := hd.place hbefore hfresh.key hfresh.depth hpos claimEntry
      exact Or.inl ⟨_, .write hfresh, hplaced.swap hfresh.ne_target⟩
    | write hfresh =>
      have hfilled := hd.update hfresh.ne_target hfresh.depth fun entry =>
        { entry with content := call.content }
      exact Or.inl ⟨_, .close hfresh, hfilled⟩
    | close hfresh => exact Or.inl ⟨_, .chmod hfresh, hd⟩
    | chmod hfresh =>
      have hopened := hd.update hfresh.ne_target hfresh.depth fun entry =>
        { entry with mode := modeBits call.mode }
      exact Or.inl ⟨_, .confirm hfresh, hopened⟩
    | confirm hfresh => exact Or.inl ⟨_, .rename hfresh, hd⟩
    | rename hfresh =>
      obtain ⟨moved, hmoved, hmovedTo⟩ := hd.move hbefore hfresh.key hkey hfresh.ne_target
        hfresh.depth rfl hpos hfresh.free
      have hplain : fs.isDirectoryAt call.target = false := by
        rw [FileSystem.isDirectoryAt, hd.at? call.target le_rfl]
        simp [claimEntry, FileEntry.file, FileEntry.isDirectory]
      rw [advance, FileSystem.rename_eq_ok hplain hmoved]
      exact Or.inl ⟨_, .written, hmovedTo⟩
    | dropTemp failure left hfresh =>
      rw [advance, hgiveUp]
      exact Or.inl ⟨_, .dropClaim _, hd.removeTemp hbefore hfresh.key hfresh.ne_target hfresh.depth
        hpos hfresh.free⟩
    | dropClaim failure =>
      exact Or.inr ⟨.failed _, hd.removeClaim hbefore hkey rfl hpos hfree⟩
    | written => exact Or.inl ⟨_, .written, hd⟩

end Step

end WriteCall

/-- At most how many steps a write takes from a stage on. -/
def Stage.remaining : Stage → Nat
  | .makeDirs => 11
  | .claim => 10
  | .closeClaim => 9
  | .openTemp => 8
  | .write _ => 7
  | .close _ => 6
  | .chmod _ => 5
  | .confirm _ => 4
  | .rename _ => 3
  | .dropTemp _ _ => 2
  | .dropClaim _ => 1
  | .finished _ => 0

theorem Stage.eq_finished_of_remaining {stage : Stage} (h : stage.remaining = 0) :
    ∃ failure, stage = .finished failure := by
  cases stage with
  | finished failure => exact ⟨failure, rfl⟩
  | _ => cases h

namespace WriteCall

theorem remaining_step (call : WriteCall) (given : Conditions) (stage : Stage) (fs : FileSystem) :
    (call.step given stage fs).1.remaining ≤ stage.remaining - 1 := by
  have hgiveUp : ∀ failure, (call.giveUp failure).remaining ≤ 1 := by
    intro failure
    unfold giveUp
    split <;> simp [Stage.remaining]
  rcases step_eq call given stage fs with ⟨cause, operation, hoperation, hstep⟩ | hstep
  · rw [hstep]
    cases stage with
    | openTemp => exact (hgiveUp _).trans (by decide)
    | dropTemp | dropClaim | finished => cases hoperation
    | _ => simp [onFault, Stage.remaining]
  · rw [hstep]
    cases stage with
    | dropTemp temp failure => exact hgiveUp failure
    | makeDirs | claim | rename =>
      rw [advance]
      repeat' split
      all_goals simp [onFault, Stage.remaining]
    | _ => simp [advance, Stage.remaining]

theorem remaining_le (stage : Stage) : stage.remaining ≤ maxSteps := by
  cases stage <;> simp [Stage.remaining, maxSteps]

private theorem remaining_run (call : WriteCall) (given : Operation → Conditions) (steps : Nat)
    (stage : Stage) (fs : FileSystem) :
    (call.run given steps stage fs).1.remaining ≤ stage.remaining - steps := by
  induction steps generalizing stage fs with
  | zero => exact le_rfl
  | succ steps ih =>
    let next := call.step ((stage.operation?.map given).getD .smooth) stage fs
    have hstep : next.1.remaining ≤ stage.remaining - 1 := call.remaining_step _ stage fs
    have hrest := ih next.1 next.2
    rw [run]
    exact hrest.trans (by omega)

/-- A write ends. -/
theorem run_finished (call : WriteCall) (given : Operation → Conditions) (stage : Stage)
    (fs : FileSystem) :
    ∃ failure, (call.run given maxSteps stage fs).1 = .finished failure := by
  have hend := call.remaining_run given maxSteps stage fs
  have hbound := remaining_le stage
  exact Stage.eq_finished_of_remaining (by omega)

end WriteCall

end LexiconCompiler
