import LexiconCompiler.Proofs.Files.Intact
import LexiconCompiler.Proofs.Output.FileSink

set_option autoImplicit false
set_option relaxedAutoImplicit false

/-!
A write happens as a whole or not at all. While it is under way it holds at most its claim and its
temporary file, paths where nothing stood before. A failure takes them back, whichever operation
fails, and only directories may be left; a success changes the target alone.
-/

namespace LexiconCompiler

open LexiconCompiler.Path

namespace WriteCall

/-- What a write relies on: the tree has a root. If it has no working directory, no file stands
where directories are needed, and the root itself is not overwritten. On a tree with a working
directory both are refused. -/
structure Clear (call : WriteCall) (fs : FileSystem) : Prop where
  grounded : fs.Grounded
  root : fs.isDirectoryAt "/" = true
  files : fs.workingDirectory = none →
    ∀ directory ∈ ancestors call.target, fs.isFileAt directory = false
  target : fs.workingDirectory = none → call.overwrite = true → call.target ≠ "/"

/-- The paths that a write holds once it is past its claim, its temporary file apart. -/
def claims (call : WriteCall) : List String := if call.overwrite then [] else [call.target]

/-- The tree is intact but for the paths that a write holds, where nothing stood before. The
directory around the target stands. -/
structure Holds (call : WriteCall) (before : FileSystem) (own : List String) (fs : FileSystem) :
    Prop where
  intact : before.IntactBut own fs
  free : ∀ path ∈ own, before.at? path = none
  directory : fs.isDirectoryAt (before.key call.directory) = true

/-- Besides what it has claimed a write holds a temporary file. -/
structure HoldsTemp (call : WriteCall) (before : FileSystem) (temp : String) (entry : FileEntry)
    (fs : FileSystem) : Prop extends Holds call before (temp :: call.claims) fs where
  named : ∃ number, call.tempName number = temp
  at? : fs.at? temp = some entry

/-- What holds of the tree at each stage of a write. -/
inductive Stands (call : WriteCall) (before : FileSystem) : Stage → FileSystem → Prop
  | makeDirs : Stands call before .makeDirs before
  | claim {fs : FileSystem} : call.overwrite = false → call.Holds before [] fs →
      Stands call before .claim fs
  | closeClaim {fs : FileSystem} : call.overwrite = false → call.Holds before call.claims fs →
      Stands call before .closeClaim fs
  | openTemp {fs : FileSystem} : call.Holds before call.claims fs → Stands call before .openTemp fs
  | write {temp : String} {fs : FileSystem} : call.HoldsTemp before temp claimEntry fs →
      Stands call before (.write temp) fs
  | close {temp : String} {fs : FileSystem} :
      call.HoldsTemp before temp (.file call.content 0o600) fs →
      Stands call before (.close temp) fs
  | chmod {temp : String} {fs : FileSystem} :
      call.HoldsTemp before temp (.file call.content 0o600) fs →
      Stands call before (.chmod temp) fs
  | confirm {temp : String} {fs : FileSystem} : call.HoldsTemp before temp call.entry fs →
      Stands call before (.confirm temp) fs
  | rename {temp : String} {fs : FileSystem} : call.HoldsTemp before temp call.entry fs →
      Stands call before (.rename temp) fs
  | dropTemp {temp : String} {entry : FileEntry} {fs : FileSystem} (failure : Failure) :
      call.HoldsTemp before temp entry fs → Stands call before (.dropTemp temp failure) fs
  | dropClaim {fs : FileSystem} (failure : Failure) : call.overwrite = false →
      call.Holds before call.claims fs → Stands call before (.dropClaim failure) fs
  | failed {fs : FileSystem} (failure : Failure) : before.IntactBut [] fs →
      Stands call before (.finished (some failure)) fs
  | written {fs : FileSystem} : before.IntactBut [call.target] fs →
      fs.at? call.target = some call.entry → Stands call before (.finished none) fs

section Places

variable {call : WriteCall} {before fs : FileSystem} {own : List String} {temp : String}
  {entry : FileEntry}

private theorem claims_of_overwrite (h : call.overwrite = true) : call.claims = [] := by
  rw [claims, if_pos h]

private theorem claims_of_not_overwrite (h : call.overwrite = false) : call.claims =
    [call.target] := by
  rw [claims, h]
  rfl

private theorem claims_subset (call : WriteCall) : call.claims ⊆ [call.target] := by
  rw [claims]
  split
  · exact List.nil_subset _
  · exact List.Subset.refl _

private theorem around_ne (hbefore : before.Grounded) {path : String}
    (hpath : before.key path = path) (hpos : 0 < depth path) (hdir : dir path = call.directory) :
    before.key call.directory ≠ path := by
  intro hsame
  have hdepth := FileSystem.depth_around hbefore hpath
  rw [hdir, hsame] at hdepth
  omega

private theorem around_ne_temp (hbefore : before.Grounded)
    (hkey : before.key call.target = call.target) (number : Nat) :
    before.key call.directory ≠ call.tempName number := by
  refine around_ne hbefore (key_tempName hbefore hkey number) ?_ (call.dir_tempName number)
  rw [depth, segments_tempName, List.length_append]
  exact Nat.succ_pos _

private theorem around_ne_target (hbefore : before.Grounded)
    (hkey : before.key call.target = call.target) (hne : call.target ≠ "/") :
    before.key call.directory ≠ call.target := by
  refine around_ne hbefore hkey (Nat.pos_iff_ne_zero.mpr fun hzero => hne ?_) rfl
  exact FileSystem.eq_root_of_depth hbefore hkey hzero

private theorem Holds.free_of_none (h : call.Holds before own fs) {path : String}
    (hnone : fs.at? path = none) : before.at? path = none := by
  by_cases hown : path ∈ own
  · exact h.free path hown
  · have hintact := h.intact.at? path hown
    rw [hnone] at hintact
    generalize before.at? path = old at hintact ⊢
    cases hintact
    rfl

private theorem Holds.root (h : call.Holds before own fs)
    (hroot : before.isDirectoryAt "/" = true) :
    fs.isDirectoryAt "/" = true := by
  obtain ⟨root, hentry, hdirectory⟩ := FileSystem.isDirectoryAt_eq_true.mp hroot
  have hown : "/" ∉ own := fun hown =>
    FileSystem.ne_root_of_free hroot (h.free "/" hown) rfl
  have hintact := h.intact.at? "/" hown
  rw [FileSystem.isDirectoryAt_eq_true]
  rw [hentry] at hintact
  generalize fs.at? "/" = new at hintact ⊢
  cases hintact with
  | file => exact ⟨root, rfl, hdirectory⟩
  | directory => exact ⟨_, rfl, rfl⟩

private theorem HoldsTemp.update (h : call.HoldsTemp before temp entry fs)
    (hbefore : before.Grounded) (hkey : before.key call.target = call.target)
    (change : FileEntry → FileEntry) :
    call.HoldsTemp before temp (change entry) (fs.update temp change) where
  intact := h.intact.update_own List.mem_cons_self change
  free := h.free
  directory := by
    obtain ⟨number, rfl⟩ := h.named
    refine (FileSystem.isDirectoryAt_congr ?_).trans h.directory
    rw [FileSystem.at?_update, if_neg (around_ne_temp hbefore hkey number)]
  named := h.named
  at? := by rw [FileSystem.at?_update, if_pos rfl, h.at?, Option.map_some]

private theorem HoldsTemp.remove (h : call.HoldsTemp before temp entry fs)
    (hbefore : before.Grounded) (hkey : before.key call.target = call.target) :
    call.Holds before call.claims (fs.remove temp) where
  intact := h.intact.remove (h.free temp List.mem_cons_self) fun _ => List.mem_cons.mp
  free := fun path hpath => h.free path (List.mem_cons_of_mem _ hpath)
  directory := by
    obtain ⟨number, rfl⟩ := h.named
    exact FileSystem.isDirectoryAt_remove h.directory (around_ne_temp hbefore hkey number)

private theorem Holds.openTemp (h : call.Holds before call.claims fs) (hbefore : before.Grounded)
    (hkey : before.key call.target = call.target) (number : Nat) :
    call.HoldsTemp before (call.freeTemp fs fs.entries.length number) claimEntry
      (fs.place (call.freeTemp fs fs.entries.length number) claimEntry) := by
  have hfree := h.free_of_none (at?_freeTemp call fs number)
  obtain ⟨found, hfound⟩ := call.exists_freeTemp fs fs.entries.length number
  rw [hfound] at hfree ⊢
  have haround : fs.key (dir (call.tempName found)) = before.key call.directory := by
    rw [dir_tempName, h.intact.key_eq]
  have hmore : before.IntactBut (call.tempName found :: call.claims) fs :=
    h.intact.mono (List.subset_cons_self _ _)
  obtain ⟨hintact, hat, hdirectory⟩ := hmore.place List.mem_cons_self
    (haround ▸ h.directory) (haround ▸ around_ne_temp hbefore hkey found) claimEntry
  exact ⟨⟨hintact, List.forall_mem_cons.mpr ⟨hfree, h.free⟩, haround ▸ hdirectory⟩,
    ⟨found, rfl⟩, hat⟩

private theorem Holds.placeTarget (h : call.Holds before own fs) (hbefore : before.Grounded)
    (hkey : before.key call.target = call.target) (hne : call.target ≠ "/")
    (hown : own ⊆ [call.target]) (entry : FileEntry) :
    before.IntactBut [call.target] (fs.place call.target entry) ∧
      (fs.place call.target entry).at? call.target = some entry ∧
      (fs.place call.target entry).isDirectoryAt (before.key call.directory) = true := by
  have haround : fs.key (dir call.target) = before.key call.directory := h.intact.key_eq _
  obtain ⟨hintact, hat, hdirectory⟩ := (h.intact.mono hown).place (List.mem_singleton_self _)
    (haround ▸ h.directory) (haround ▸ around_ne_target hbefore hkey hne) entry
  exact ⟨hintact, hat, haround ▸ hdirectory⟩

private theorem Holds.claim (h : call.Holds before [] fs) (hbefore : before.Grounded)
    (hkey : before.key call.target = call.target) (hne : call.target ≠ "/")
    (hoverwrite : call.overwrite = false) (hfree : fs.at? call.target = none) :
    call.Holds before call.claims (fs.place call.target claimEntry) := by
  obtain ⟨hintact, -, hdirectory⟩ :=
    h.placeTarget hbefore hkey hne (List.nil_subset _) claimEntry
  rw [claims_of_not_overwrite hoverwrite]
  exact ⟨hintact, List.forall_mem_singleton.mpr (h.free_of_none hfree), hdirectory⟩

private theorem HoldsTemp.rename (h : call.HoldsTemp before temp entry fs)
    (hbefore : before.Grounded) (hkey : before.key call.target = call.target)
    (hne : call.target ≠ "/") {moved : FileSystem}
    (hmoved : fs.move? temp call.target = some moved) :
    before.IntactBut [call.target] moved ∧ moved.at? call.target = some entry := by
  rw [FileSystem.move?] at hmoved
  split at hmoved
  next hsame =>
    obtain rfl := eq_of_beq hsame
    obtain rfl := Option.some.inj hmoved
    refine ⟨h.intact.mono ?_, h.at?⟩
    exact List.cons_subset.mpr ⟨List.mem_singleton_self _, call.claims_subset⟩
  · rw [h.at?, Option.map_some] at hmoved
    obtain rfl := Option.some.inj hmoved
    have hplaced :=
      (h.remove hbefore hkey).placeTarget hbefore hkey hne call.claims_subset entry
    exact ⟨hplaced.1, hplaced.2.1⟩

end Places

section Step

variable {call : WriteCall} {before fs : FileSystem}

private theorem Clear.no_file (h : call.Clear before)
    (hkey : before.key call.target = call.target) {made : FileSystem}
    (hmade : before.makeDirs (before.key call.directory) = .ok made) {directory : String}
    (habove : before.Above call.target directory) : before.isFileAt directory = false := by
  obtain ⟨root, hstands, hdirectory⟩ := FileSystem.isDirectoryAt_eq_true.mp h.root
  have hroot : before.isFileAt "/" = false := FileSystem.isFileAt_of_directory hstands hdirectory
  cases hwd : before.workingDirectory with
  | none =>
    rcases habove.mem_ancestors h.grounded hkey with rfl | hmem
    · exact hroot
    · exact h.files hwd directory hmem
  | some working =>
    have hsome : before.workingDirectory.isSome = true := by rw [hwd, Option.isSome_some]
    have hmem (hlisted : directory ∈ ancestors (before.key call.directory) ++
        [before.key call.directory]) : before.isFileAt directory = false :=
      FileSystem.isFileAt_of_makeDirs hmade hsome hlisted
    cases habove with
    | around => exact hmem (List.mem_append_right _ (List.mem_singleton_self _))
    | further hfurther =>
      rcases hfurther.mem_ancestors h.grounded (FileSystem.key_key h.grounded _) with rfl | hup
      · exact hroot
      · exact hmem (List.mem_append_left _ hup)

private theorem Clear.makeDirs (h : call.Clear before) (hkey : before.key call.target = call.target)
    {made : FileSystem} (hmade : before.makeDirs (before.key call.directory) = .ok made) :
    call.Holds before [] made := by
  have hfiles {directory : String} (habove : before.Above call.target directory) :
      before.isFileAt directory = false := h.no_file hkey hmade habove
  obtain ⟨hintact, hdirectory⟩ := FileSystem.IntactBut.of_makeDirs h.grounded h.root
    (FileSystem.key_key h.grounded _) (hfiles .around)
    (fun _ habove => hfiles (.further habove)) hmade
  exact ⟨hintact, fun _ hmem => absurd hmem List.not_mem_nil, hdirectory⟩

private theorem Clear.ne_root (h : call.Clear before) {own : List String}
    (hs : call.Holds before own fs) (hclaims : call.claims ⊆ own) {temp : String}
    {moved : FileSystem} (hmoved : fs.rename temp call.target = .ok moved) :
    call.target ≠ "/" := by
  intro hroot
  have hstands : fs.isDirectoryAt call.target = true := by
    rw [hroot]
    exact hs.root h.root
  cases hwd : before.workingDirectory with
  | some working =>
    have hrefused : (fs.workingDirectory.isSome && fs.isDirectoryAt call.target) = true := by
      rw [hs.intact.workingDirectory, hwd, hstands]
      rfl
    rw [FileSystem.rename, if_pos hrefused] at hmoved
    cases hmoved
  | none =>
    cases hoverwrite : call.overwrite with
    | true => exact h.target hwd hoverwrite hroot
    | false =>
      -- What is claimed was free, but the root was there.
      have hclaimed : call.target ∈ own := by
        apply hclaims
        rw [claims_of_not_overwrite hoverwrite]
        exact List.mem_singleton_self _
      exact FileSystem.ne_root_of_free h.root (hs.free _ hclaimed) hroot

private theorem giveUp_stands (hs : call.Holds before call.claims fs) (failure : Failure) :
    call.Stands before (call.giveUp failure) fs := by
  rw [giveUp]
  split
  next hoverwrite =>
    refine .failed failure ?_
    rw [← claims_of_overwrite hoverwrite]
    exact hs.intact
  next hoverwrite => exact .dropClaim failure (Bool.not_eq_true _ ▸ hoverwrite) hs

/-- An operation that fails keeps what holds of the tree, with what a write has put down by then. -/
private theorem onFault_stands (hbefore : before.Grounded)
    (hkey : before.key call.target = call.target) {stage : Stage} (hs : call.Stands before stage fs)
    {operation : Operation} (hoperation : stage.operation? = some operation)
    (cause written : String) :
    call.Stands before (call.onFault cause stage) (spoil written fs stage) := by
  cases hs with
  | makeDirs => exact .failed _ (.refl before [])
  | claim _ hholds => exact .failed _ hholds.intact
  | closeClaim hoverwrite hholds => exact .dropClaim _ hoverwrite hholds
  | openTemp hholds => exact giveUp_stands hholds _
  | write hholds =>
    have hspoilt := hholds.update hbefore hkey fun entry => { entry with content := written }
    exact .dropTemp _ hspoilt
  | close hholds => exact .dropTemp _ hholds
  | chmod hholds => exact .dropTemp _ hholds
  | confirm hholds => exact .dropTemp _ hholds
  | rename hholds => exact .dropTemp _ hholds
  | dropTemp | dropClaim | failed | written => cases hoperation

/-- So does an operation that is done. -/
private theorem advance_stands (h : call.Clear before) (hkey : before.key call.target = call.target)
    {stage : Stage} (hs : call.Stands before stage fs) (number : Nat) :
    call.Stands before (call.advance number fs stage).1 (call.advance number fs stage).2 := by
  have hbefore := h.grounded
  cases hs with
  | makeDirs =>
    rw [advance]
    split
    next made hmade =>
      have hholds := h.makeDirs hkey hmade
      cases hoverwrite : call.overwrite with
      | true => exact .openTemp (claims_of_overwrite hoverwrite ▸ hholds)
      | false => exact .claim hoverwrite hholds
    · exact .failed _ (.refl before [])
  | claim hoverwrite hholds =>
    rw [advance]
    split
    · exact .failed _ hholds.intact
    next hnone =>
      have hfree : fs.at? call.target = none := by simpa using hnone
      have hne := FileSystem.ne_root_of_free (hholds.root h.root) hfree
      exact .closeClaim hoverwrite (hholds.claim hbefore hkey hne hoverwrite hfree)
  | closeClaim _ hholds => exact .openTemp hholds
  | openTemp hholds => exact .write (hholds.openTemp hbefore hkey number)
  | write hholds =>
    have hfilled := hholds.update hbefore hkey fun entry => { entry with content := call.content }
    exact .close hfilled
  | close hholds => exact .chmod hholds
  | chmod hholds =>
    have hopened := hholds.update hbefore hkey fun entry =>
      { entry with mode := modeBits call.mode }
    exact .confirm hopened
  | confirm hholds => exact .rename hholds
  | rename hholds =>
    rw [advance]
    split
    next moved hmoved =>
      have hne := h.ne_root hholds.toHolds (List.subset_cons_self _ _) hmoved
      obtain ⟨hintact, hat⟩ := hholds.rename hbefore hkey hne (FileSystem.move?_of_rename hmoved)
      exact .written hintact hat
    · exact .dropTemp _ hholds
  | dropTemp failure hholds => exact giveUp_stands (hholds.remove hbefore hkey) failure
  | dropClaim failure hoverwrite hholds =>
    refine .failed failure (hholds.intact.remove (hholds.free _ ?_) ?_)
    · rw [claims_of_not_overwrite hoverwrite]
      exact List.mem_singleton_self _
    · rw [claims_of_not_overwrite hoverwrite]
      exact fun _ => List.mem_cons.mp
  | failed failure hintact => exact .failed failure hintact
  | written hintact hat => exact .written hintact hat

/-- A step keeps what holds of the tree, whether its operation fails or not. -/
private theorem step_stands (h : call.Clear before) (hkey : before.key call.target = call.target)
    {stage : Stage} (hs : call.Stands before stage fs) (given : Conditions) :
    call.Stands before (call.step given stage fs).1 (call.step given stage fs).2 := by
  rcases step_eq call given stage fs with ⟨cause, operation, hoperation, hstep⟩ | hstep
  · rw [hstep]
    exact onFault_stands h.grounded hkey hs hoperation cause given.written
  · rw [hstep]
    exact advance_stands h hkey hs given.number

/-- So does a run. -/
private theorem run_stands (h : call.Clear before) (hkey : before.key call.target = call.target)
    {stage : Stage} (hs : call.Stands before stage fs) (given : Operation → Conditions)
    (steps : Nat) :
    call.Stands before (call.run given steps stage fs).1 (call.run given steps stage fs).2 := by
  induction steps generalizing stage fs with
  | zero => exact hs
  | succ steps ih =>
    rw [run]
    exact ih (step_stands h hkey hs _)

end Step

end WriteCall

namespace FileSink

private theorem start_stands (sink : FileSink) (canceled : Bool) (path : String) (call : WriteCall)
    (fs : FileSystem) : call.Stands fs (sink.start canceled path) fs := by
  unfold start
  split
  · exact .failed _ (.refl fs [])
  · split
    · exact .failed _ (.refl fs [])
    · exact .makeDirs

/-- Whichever operations of a write fail, if it ends with a failure everything is as it was but for
directories that were made. If it ends well the file is at the target and the rest is as it was. -/
theorem write_atomic (sink : FileSink) (canceled : Bool) (given : Operation → Conditions)
    (file : File) (fs : FileSystem) (h : (sink.call fs file).Clear fs) :
    let target := fs.key (join sink.root file.path)
    let written := sink.write canceled given file fs
    match written.1 with
    | .error _ => fs.IntactBut [] written.2
    | .ok _ => fs.IntactBut [target] written.2 ∧
        written.2.at? target =
          some (.file file.content (WriteCall.modeBits (sink.call fs file).mode)) := by
  intro target written
  have hkey : fs.key (sink.call fs file).target = (sink.call fs file).target :=
    FileSystem.key_key h.grounded _
  have hstands := WriteCall.run_stands h hkey (start_stands sink canceled file.path _ fs) given
    WriteCall.maxSteps
  obtain ⟨failure, hfinished⟩ :=
    (sink.call fs file).run_finished given (sink.start canceled file.path) fs
  have hwritten : written = (WriteCall.outcome (.finished failure), written.2) :=
    Prod.ext (congrArg WriteCall.outcome hfinished) rfl
  rw [hfinished] at hstands
  rw [hwritten]
  cases hstands with
  | failed failure hintact => exact hintact
  | written hintact hat => exact ⟨hintact, hat⟩

/-- A file is written to an empty tree. When its temporary file cannot be renamed, only directories
are left. -/
theorem write_atomic_types :
    let sink : FileSink := ⟨"/out", 0, false⟩
    let file : File := ⟨"app/types.ts", "export {};"⟩
    let fs := FileSystem.empty none
    let full : Operation → Conditions := fun operation =>
      if operation = .rename then ⟨some "no space left on device", "", 0⟩ else .smooth
    (sink.call fs file).Clear fs ∧
      (fs.IntactBut ["/out/app/types.ts"] (sink.write false (fun _ => .smooth) file fs).2 ∧
        (sink.write false (fun _ => .smooth) file fs).2.at? "/out/app/types.ts" =
          some (.file "export {};" 0o644)) ∧
      fs.IntactBut [] (sink.write false full file fs).2 := by
  intro sink file fs full
  have hclear : (sink.call fs file).Clear fs :=
    { grounded := fun _ hnone => nomatch hnone
      root := by decide
      files := fun _ => by decide
      target := fun _ hoverwrite => nomatch hoverwrite }
  have hok : (sink.write false (fun _ => .smooth) file fs).1.isOk = true := by decide +kernel
  have hfailed : (sink.write false full file fs).1.isOk = false := by decide +kernel
  have hkey : fs.key (join sink.root file.path) = "/out/app/types.ts" := by decide
  have hwritten := write_atomic sink false (fun _ => .smooth) file fs hclear
  have hleft := write_atomic sink false full file fs hclear
  dsimp only at hwritten hleft
  rw [hkey] at hwritten
  refine ⟨hclear, ?_, ?_⟩
  · generalize (sink.write false (fun _ => .smooth) file fs).1 = result at hok hwritten
    cases result with
    | error failure => cases hok
    | ok _ => exact hwritten
  · generalize (sink.write false full file fs).1 = result at hfailed hleft
    cases result with
    | error failure => exact hleft
    | ok _ => cases hfailed

/-- On a tree without a working directory a file becomes a directory when a path below it is
written, and the root stays a directory when it is overwritten. -/
theorem write_changes_file :
    let sink := FileSink.into "/out"
    let first := (sink.write false (fun _ => .smooth) ⟨"a", "x"⟩ (FileSystem.empty none)).2
    let second := sink.write false (fun _ => .smooth) ⟨"a/b", "y"⟩ first
    let root :=
      (FileSink.into "/").write false (fun _ => .smooth) ⟨".", "x"⟩ (FileSystem.empty none)
    (second.1.isOk = true ∧ first.at? "/out/a" = some (.file "x" 0o644) ∧
      second.2.isFileAt "/out/a" = false) ∧
    root.1.isOk = true ∧ root.2.isFileAt "/" = false := by
  decide +kernel

end FileSink

end LexiconCompiler
