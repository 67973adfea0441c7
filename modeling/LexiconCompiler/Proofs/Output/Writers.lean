import LexiconCompiler.Output.Writers
import LexiconCompiler.Proofs.Output.FileSink

set_option autoImplicit false
set_option relaxedAutoImplicit false

/-!
Writes to one path that may not overwrite and take turns in any order, with any of their operations
failing. At each moment the target is free, or one write answers for it: that one holds the claim,
or it has written its content and the others can only fail.
-/

namespace LexiconCompiler

open LexiconCompiler.Path
open FileSystem (Differs)

namespace Writers

variable {n : Nat}

def Succeeded (s : Writers n) (i : Fin n) : Prop := s.stages i = .finished none

def Failed (s : Writers n) (i : Fin n) : Prop := ∃ failure, s.stages i = .finished (some failure)

instance (s : Writers n) (i : Fin n) : Decidable (s.Succeeded i) :=
  match h : s.stages i with
  | .finished none => isTrue h
  | .finished (some _) | .makeDirs | .claim | .closeClaim | .openTemp | .write _ | .close _
  | .chmod _ | .confirm _ | .rename _ | .dropTemp _ _ | .dropClaim _ =>
    isFalse fun hsucceeded => by rw [Succeeded, h] at hsucceeded; cases hsucceeded

section Turns

variable {calls : Fin n → WriteCall} {s : Writers n} {t : Turn n} {i : Fin n}

private theorem stages_turn_self : (s.turn calls t).stages t.writer =
    ((calls t.writer).step t.given (s.stages t.writer) s.fs).1 :=
  if_pos rfl

private theorem stages_turn_of_ne (h : i ≠ t.writer) : (s.turn calls t).stages i = s.stages i :=
  if_neg h

private theorem play_induction {motive : Writers n → Prop}
    (hturn : ∀ (s : Writers n) (t : Turn n), motive s → motive (s.turn calls t)) (hstart : motive s)
    (turns : List (Turn n)) : motive (s.play calls turns) := by
  induction turns generalizing s with
  | nil => exact hstart
  | cons t rest ih => exact ih (hturn s t hstart)

private theorem stages_play_of_finished {failure : Option Failure}
    (h : s.stages i = .finished failure) (turns : List (Turn n)) :
    (s.play calls turns).stages i = .finished failure := by
  have hturn : ∀ (s : Writers n) (t : Turn n), s.stages i = .finished failure →
      (s.turn calls t).stages i = .finished failure := by
    intro s t hi
    by_cases hwriter : i = t.writer
    · subst hwriter
      rw [stages_turn_self, hi]
      rcases WriteCall.step_eq (calls t.writer) t.given (.finished failure) s.fs with
        ⟨cause, operation, hoperation, -⟩ | hstep
      · cases hoperation
      · rw [hstep]
        rfl
    · rw [stages_turn_of_ne hwriter]
      exact hi
  exact play_induction hturn h turns

private theorem remaining_play (calls : Fin n → WriteCall) (s : Writers n) (i : Fin n)
    (turns : List (Turn n)) :
    ((s.play calls turns).stages i).remaining ≤
      (s.stages i).remaining - turns.countP fun t => t.writer = i := by
  induction turns generalizing s with
  | nil => exact le_rfl
  | cons t rest ih =>
    have hrest : ((s.play calls (t :: rest)).stages i).remaining ≤
        ((s.turn calls t).stages i).remaining - rest.countP fun t => t.writer = i :=
      ih (s.turn calls t)
    by_cases hwriter : t.writer = i
    · subst hwriter
      have hstep := WriteCall.remaining_step (calls t.writer) t.given (s.stages t.writer) s.fs
      rw [← stages_turn_self] at hstep
      rw [List.countP_cons_of_pos (by simp)]
      omega
    · rw [stages_turn_of_ne (Ne.symm hwriter)] at hrest
      rw [List.countP_cons_of_neg (by simpa using hwriter)]
      exact hrest

/-- A write that has had enough turns has ended. -/
theorem ended_of_turns {turns : List (Turn n)}
    (h : WriteCall.maxSteps ≤ turns.countP fun t => t.writer = i) :
    (s.play calls turns).Succeeded i ∨ (s.play calls turns).Failed i := by
  have hremaining := remaining_play calls s i turns
  have hbound := WriteCall.remaining_le (s.stages i)
  have hzero : ((s.play calls turns).stages i).remaining = 0 := by omega
  obtain ⟨failure, hfinished⟩ := Stage.eq_finished_of_remaining hzero
  cases failure with
  | none => exact Or.inl hfinished
  | some failure => exact Or.inr ⟨failure, hfinished⟩

end Turns

/-- Calls that may not overwrite and are all about one target. -/
structure Rivals (calls : Fin n → WriteCall) (target : String) (before : FileSystem) : Prop where
  target_eq : ∀ i, (calls i).target = target
  overwrite_eq : ∀ i, (calls i).overwrite = false
  rooted : before.Rooted
  key : before.key target = target

/-- At most one write answers for the target, and nobody has changed another file beside it. -/
inductive Orderly (calls : Fin n → WriteCall) (target : String) (before : FileSystem)
    (s : Writers n) : Prop
  | free : before.Differs (depth target) [] s.fs → (∀ i, (s.stages i).Idle) →
      Orderly calls target before s
  | held (owner : Fin n) (changes : List (String × FileEntry)) : before.at? target = none →
      (calls owner).Owns before (s.stages owner) changes →
      before.Differs (depth target) changes s.fs → (∀ i, i ≠ owner → (s.stages i).Idle) →
      Orderly calls target before s

section Exclusion

variable {calls : Fin n → WriteCall} {target : String} {before : FileSystem} {s : Writers n}

private theorem Rivals.pos (h : Rivals calls target before) (hnone : before.at? target = none) :
    0 < depth target := by
  by_contra hzero
  have hslash := FileSystem.eq_root_of_depth h.rooted.grounded h.key (Nat.eq_zero_of_not_pos hzero)
  have hroot := h.rooted.root
  rw [← hslash, hnone] at hroot
  cases hroot

private theorem at?_of_owns (h : Rivals calls target before) {owner : Fin n} {stage : Stage}
    {changes : List (String × FileEntry)} (howns : (calls owner).Owns before stage changes)
    (hd : before.Differs (depth target) changes s.fs) : s.fs.at? target ≠ none := by
  have htarget := h.target_eq owner
  rw [hd.at? target le_rfl]
  cases howns <;> simp [htarget]

/-- The step lemma: a turn of any write, under any conditions, keeps the writes in order. -/
private theorem Orderly.turn (h : Rivals calls target before) (ho : Orderly calls target before s)
    (t : Turn n) : Orderly calls target before (s.turn calls t) := by
  have htarget := h.target_eq t.writer
  have hkey : before.key (calls t.writer).target = (calls t.writer).target := by
    rw [htarget]
    exact h.key
  have hgrounded := h.rooted.grounded
  cases ho with
  | free hd hidle =>
    rw [← htarget] at hd
    have hroot : 0 < depth (calls t.writer).target ∨
        (s.fs.at? (calls t.writer).target).isSome = true := by
      by_cases hnone : before.at? target = none
      · left
        rw [htarget]
        exact h.pos hnone
      · right
        rw [hd.at? _ le_rfl, htarget]
        simpa [Option.isSome_iff_ne_none] using hnone
    rcases WriteCall.step_idle (h.overwrite_eq t.writer) hgrounded hkey hd hroot
      (hidle t.writer) t.given with ⟨hstage, hfs⟩ | ⟨hnone, hstage, hfs⟩
    · rw [htarget] at hfs
      refine .free hfs fun i => ?_
      by_cases hi : i = t.writer
      · subst hi
        rw [stages_turn_self]
        exact hstage
      · rw [stages_turn_of_ne hi]
        exact hidle i
    · have hbefore : before.at? target = none := by
        rw [hd.at? _ le_rfl, htarget] at hnone
        exact hnone
      rw [htarget] at hfs
      refine .held t.writer _ hbefore ?_ hfs fun i hi => ?_
      · rw [stages_turn_self, hstage, ← htarget]
        exact .closeClaim
      · rw [stages_turn_of_ne hi]
        exact hidle i
  | held owner changes hnone howns hd hidle =>
    have hthere := at?_of_owns h howns hd
    rw [← htarget] at hd
    have hpos : 0 < depth (calls t.writer).target := by
      rw [htarget]
      exact h.pos hnone
    by_cases howner : t.writer = owner
    · subst howner
      have hothers : ∀ i, i ≠ t.writer → ((s.turn calls t).stages i).Idle := by
        intro i hi
        rw [stages_turn_of_ne hi]
        exact hidle i hi
      have hfree : before.at? (calls t.writer).target = none := by
        rw [htarget]
        exact hnone
      rcases WriteCall.step_owns (h.overwrite_eq t.writer) hgrounded hkey hfree hpos hd howns
        t.given with ⟨changes', howns', hfs⟩ | ⟨hstage, hfs⟩
      · rw [htarget] at hfs
        refine .held t.writer changes' hnone ?_ hfs hothers
        rw [stages_turn_self]
        exact howns'
      · rw [htarget] at hfs
        refine .free hfs fun i => ?_
        by_cases hi : i = t.writer
        · subst hi
          rw [stages_turn_self]
          exact hstage
        · exact hothers i hi
    · rcases WriteCall.step_idle (h.overwrite_eq t.writer) hgrounded hkey hd (Or.inl hpos)
        (hidle t.writer howner) t.given with ⟨hstage, hfs⟩ | ⟨hfree, -, -⟩
      · rw [htarget] at hfs
        refine .held owner changes hnone ?_ hfs fun i hi => ?_
        · rw [stages_turn_of_ne (Ne.symm howner)]
          exact howns
        · by_cases hwriter : i = t.writer
          · subst hwriter
            rw [stages_turn_self]
            exact hstage
          · rw [stages_turn_of_ne hwriter]
            exact hidle i hi
      · rw [htarget] at hfree
        exact absurd hfree hthere

/-- The run lemma: writes that have not begun stay in order, however they take turns. -/
private theorem orderly_play (h : Rivals calls target before) (hfs : s.fs = before)
    (hidle : ∀ i, (s.stages i).Idle) (turns : List (Turn n)) :
    Orderly calls target before (s.play calls turns) := by
  have hstart : Orderly calls target before s := by
    refine .free ?_ hidle
    rw [hfs]
    exact .refl before _
  exact play_induction (fun _ t ho => ho.turn h t) hstart turns

/-- A write that has ended well is the one that answers for the target. -/
private theorem Orderly.of_succeeded (ho : Orderly calls target before s) {i : Fin n}
    (hi : s.Succeeded i) :
    before.at? target = none ∧
      before.Differs (depth target) [((calls i).target, (calls i).entry)] s.fs ∧
      ∀ j, s.Succeeded j → j = i := by
  have hnot : ∀ {j : Fin n}, s.Succeeded j → ¬ (s.stages j).Idle := by
    intro j hj hidle
    rw [hj] at hidle
    cases hidle
  cases ho with
  | free _ hidle => exact absurd (hidle i) (hnot hi)
  | held owner changes hnone howns hd hidle =>
    have howner : ∀ j, s.Succeeded j → j = owner := by
      intro j hj
      by_contra hne
      exact hnot hj (hidle j hne)
    obtain rfl := howner i hi
    rw [hi] at howns
    cases howns
    exact ⟨hnone, hd, howner⟩

/-- If all writes have failed, the files beside the target and the target are as before. -/
private theorem Orderly.of_failed (ho : Orderly calls target before s) (h : ∀ i, s.Failed i) :
    before.Differs (depth target) [] s.fs := by
  cases ho with
  | free hd _ => exact hd
  | held owner changes _ howns _ _ =>
    obtain ⟨failure, hfailed⟩ := h owner
    rw [hfailed] at howns
    cases howns

private theorem Orderly.of_isSome (ho : Orderly calls target before s) {entry : FileEntry}
    (h : before.at? target = some entry) :
    s.fs.at? target = some entry ∧ ∀ i, ¬ s.Succeeded i := by
  cases ho with
  | free hd hidle =>
    refine ⟨?_, fun i hi => ?_⟩
    · rw [hd.at? target le_rfl]
      exact h
    · have hi' := hidle i
      rw [hi] at hi'
      cases hi'
  | held owner changes hnone _ _ _ =>
    rw [h] at hnone
    cases hnone

end Exclusion

end Writers

namespace FileSink

open Writers

variable {n : Nat}

private theorem start_idle (sink : FileSink) (canceled : Bool) (path : String) :
    (sink.start canceled path).Idle := by
  unfold start
  split
  · exact .failed _
  · split
    · exact .failed _
    · exact .makeDirs

private theorem rivals_rivals {sink : FileSink} {fs : FileSystem} (hfs : fs.Rooted)
    (hkeep : sink.overwrite = false) (path : String) (contents : Fin n → String) :
    Rivals (sink.rivals fs path contents) (fs.key (Path.join sink.root path)) fs :=
  ⟨fun _ => rfl, fun _ => hkeep, hfs, FileSystem.key_key hfs.grounded _⟩

/-- Writes to one path that may not overwrite, with any of their operations failing and interleaved
in any way: at most one ends well, and from then on its content is what stands at the target; what
stood there before is never touched, and then none ends well; and once all have failed, the target
is free if it was before, and no temporary file is left. -/
theorem one_writer (sink : FileSink) (fs : FileSystem) (path : String) (contents : Fin n → String)
    (canceled : Fin n → Bool) (turns more : List (Turn n)) (hfs : fs.Rooted)
    (hkeep : sink.overwrite = false) :
    let calls := sink.rivals fs path contents
    let target := fs.key (Path.join sink.root path)
    let now := (sink.writers fs path canceled).play calls turns
    let later := now.play calls more
    (∀ i j, now.Succeeded i → now.Succeeded j → i = j) ∧
      (∀ i, now.Succeeded i → later.Succeeded i ∧
        later.fs.at? target =
          some (.file (contents i) (WriteCall.modeBits (calls i).mode))) ∧
      (∀ entry, fs.at? target = some entry →
        now.fs.at? target = some entry ∧ ∀ i, ¬ now.Succeeded i) ∧
      ((∀ i, now.Failed i) →
        (fs.at? target = none → now.fs.at? target = none) ∧
        ∀ i number,
          now.fs.at? ((calls i).tempName number) = fs.at? ((calls i).tempName number)) := by
  intro calls target now later
  have hrivals : Rivals calls target fs := rivals_rivals hfs hkeep path contents
  have horderly : ∀ turns,
      Orderly calls target fs ((sink.writers fs path canceled).play calls turns) :=
    fun turns => orderly_play hrivals rfl (fun i => sink.start_idle (canceled i) path) turns
  have hnow : Orderly calls target fs now := horderly turns
  have hlater : Orderly calls target fs later := by
    have happend : later = (sink.writers fs path canceled).play calls (turns ++ more) :=
      (List.foldl_append ..).symm
    rw [happend]
    exact horderly (turns ++ more)
  refine ⟨?_, ?_, ?_, ?_⟩
  · intro i j hi hj
    exact (hnow.of_succeeded hj).2.2 i hi
  · intro i hi
    have hstays : later.Succeeded i := stages_play_of_finished hi more
    obtain ⟨-, hd, -⟩ := hlater.of_succeeded hstays
    refine ⟨hstays, ?_⟩
    rw [hd.at? target le_rfl]
    simp only [hrivals.target_eq, List.lookup_cons, beq_self_eq_true, Option.some_or]
    rfl
  · intro entry hentry
    exact hnow.of_isSome hentry
  · intro hfailed
    have hd := hnow.of_failed hfailed
    refine ⟨fun hnone => ?_, fun i number => ?_⟩
    · rw [hd.at? target le_rfl]
      exact hnone
    · have hclean : clean (calls i).target = (calls i).target := FileSystem.clean_key hfs.grounded _
      by_cases hpos : 0 < depth target
      · exact hd.at? _ (WriteCall.depth_tempName hclean hpos number).ge
      · exact hd.at? _ (by omega)

/-- Three writes of one path: the first claims it, the second comes too late, the first fails and
takes its claim back, and the third writes the file. -/
def takeTurns : List (Turn 3) :=
  let go (writer : Fin 3) (cause : Option String) : Turn 3 := ⟨writer, cause, "par", 0⟩
  [go 0 none, go 0 none, go 1 none, go 1 none, go 0 none, go 0 none, go 0 (some "disk full"),
    go 2 none, go 0 none, go 0 none] ++ List.replicate 8 (go 2 none)

theorem one_writer_takeTurns :
    let sink : FileSink := ⟨"/out", 0, false⟩
    let fs := FileSystem.empty none
    let contents : Fin 3 → String := fun i => toString i
    let calls := sink.rivals fs "a.ts" contents
    let now := (sink.writers fs "a.ts" fun _ => false).play calls takeTurns
    let later := now.play calls takeTurns
    fs.Rooted ∧ sink.overwrite = false ∧ now.Succeeded 2 ∧ (∀ i, now.Succeeded i → i = 2) ∧
      later.fs.at? (fs.key (Path.join sink.root "a.ts")) =
        some (.file (contents 2) (WriteCall.modeBits (calls 2).mode)) := by
  intro sink fs contents calls now later
  have hfs : fs.Rooted := FileSystem.rooted_empty nofun
  have hkeep : sink.overwrite = false := rfl
  have hwon : now.Succeeded 2 := by decide +kernel
  -- what follows does not depend on the run any more
  clear_value sink fs contents
  obtain ⟨hone, hholds, -, -⟩ := one_writer sink fs "a.ts" contents (fun _ => false) takeTurns
    takeTurns hfs hkeep
  exact ⟨hfs, hkeep, hwon, fun i hi => hone i 2 hi hwon, (hholds 2 hwon).2⟩

end FileSink

end LexiconCompiler
