import LexiconCompiler.Schedule
import LexiconCompiler.Proofs.Compilation
import LexiconCompiler.Proofs.Outcome

set_option autoImplicit false
set_option relaxedAutoImplicit false

/-!
The order in which the tasks of a compilation go on does not matter: what is returned is what a
compilation returns that derives the units one after another, or that it was cancelled.
-/

namespace LexiconCompiler.Schedule

open LexiconCompiler.Code

section Gathering

variable {n : Nat}

private theorem gather?_done (slots : Fin n → Except Failure SourceUnit) :
    gather? (fun i => .done (slots i)) = some ((List.ofFn slots).mapM id) := by
  have hslots : (List.ofFn fun i => Task.done (slots i)).mapM Task.slot? =
      some (List.ofFn slots) := by
    induction n with
    | zero => rfl
    | succ n ih =>
      rw [List.ofFn_succ, List.mapM_cons, ih fun i => slots i.succ, List.ofFn_succ]
      rfl
  rw [gather?, hslots]
  rfl

private theorem done_of_mapM {tasks : List Task} {slots : List (Except Failure SourceUnit)}
    (h : tasks.mapM Task.slot? = some slots) : ∀ task ∈ tasks, ∃ slot, task = .done slot := by
  induction tasks generalizing slots with
  | nil => intro task ht; cases ht
  | cons first rest ih =>
    simp only [List.mapM_cons, Option.bind_eq_bind, Option.bind_eq_some_iff, Option.pure_def] at h
    obtain ⟨slot, hslot, others, hothers, -⟩ := h
    refine List.forall_mem_cons.mpr ⟨?_, ih hothers⟩
    cases first with
    | done found => exact ⟨found, rfl⟩
    | waiting | emitting => cases hslot

private theorem exists_slots_of_gather? {tasks : Fin n → Task}
    {outcome : Except Failure (List SourceUnit)} (h : gather? tasks = some outcome) :
    ∃ slots, (∀ i, tasks i = .done (slots i)) ∧ outcome = (List.ofFn slots).mapM id := by
  have hdone : ∀ i, ∃ slot, tasks i = .done slot := by
    obtain ⟨found, hfound, -⟩ := Option.map_eq_some_iff.mp h
    intro i
    exact done_of_mapM hfound _ (List.mem_ofFn.mpr ⟨i, rfl⟩)
  choose slots hslots using hdone
  refine ⟨slots, hslots, ?_⟩
  have htasks : tasks = fun i => .done (slots i) := funext hslots
  rw [htasks, gather?_done] at h
  exact (Option.some.inj h).symm

end Gathering

section Invariant

variable {b : Batch} {skipGuards : Bool} {raised : Prop}
  {s : State b.registry.documents.length}

def emitAt (b : Batch) (skipGuards : Bool) (i : Fin b.registry.documents.length) :
    Except Failure SourceUnit :=
  emit b skipGuards b.registry.documents[i]

private theorem mapM_emitAt : (List.ofFn (emitAt b skipGuards)).mapM id =
    (b.documentUnits skipGuards).mapError .problem := by
  have hdocuments : b.registry.documents =
      List.ofFn fun i : Fin b.registry.documents.length => b.registry.documents[i] :=
    List.ofFn_getElem.symm
  have hunits : List.ofFn (emitAt b skipGuards) =
      b.registry.documents.map (emit b skipGuards) := by
    conv_rhs => rw [hdocuments, List.map_ofFn]
    rfl
  rw [hunits, List.mapM_map, Batch.documentUnits, Outcome.mapM_mapError]
  rfl

/-- What the compilation as a whole may have come to: what it returns when no task runs beside
another, or that it was cancelled. -/
inductive Main.Sound (b : Batch) (skipGuards : Bool) (raised : Prop) : Main → Prop
  | waiting : Sound b skipGuards raised .waiting
  | gathered {units : List SourceUnit} : b.documentUnits skipGuards = .ok units →
      Sound b skipGuards raised (.gathered units)
  | compiled {compilation : Compilation} : b.compile skipGuards false = .ok compilation →
      Sound b skipGuards raised (.returned (some compilation) none)
  | failed {failure : Failure} : b.compile skipGuards false = .error failure →
      Sound b skipGuards raised (.returned none (some failure))
  | canceled : raised → Sound b skipGuards raised (.returned none (some .canceled))

private theorem Main.Sound.isSome_iff {result : Option Compilation} {failure : Option Failure}
    (h : Main.Sound b skipGuards raised (.returned result failure)) :
    result.isSome ↔ failure = none := by
  cases h <;> simp

/-- What a task has left behind is the unit of its document or why there is none, unless it found
the compilation cancelled. -/
structure Faithful (b : Batch) (skipGuards : Bool) (raised : Prop)
    (s : State b.registry.documents.length) : Prop where
  canceled : s.canceled = true → raised
  tasks : ∀ i slot, s.tasks i = .done slot →
    slot = emitAt b skipGuards i ∨ slot = .error .canceled ∧ raised
  main : s.main.Sound b skipGuards raised

private theorem faithful_start {canceled : Bool} (h : canceled = true → raised) :
    Faithful b skipGuards raised (State.start _ canceled) :=
  ⟨h, fun _ _ hdone => absurd hdone nofun, .waiting⟩

private theorem Faithful.step_task (h : Faithful b skipGuards raised s)
    {i : Fin b.registry.documents.length} {slot : Except Failure SourceUnit}
    (hdone : (s.tasks i).step b skipGuards s.canceled b.registry.documents[i] = .done slot) :
    slot = emitAt b skipGuards i ∨ slot = .error .canceled ∧ raised := by
  cases htask : s.tasks i with
  | waiting =>
    rw [htask, Task.step] at hdone
    split at hdone
    next hcanceled =>
      obtain rfl := Task.done.inj hdone
      exact Or.inr ⟨rfl, h.canceled hcanceled⟩
    · cases hdone
  | emitting =>
    rw [htask, Task.step] at hdone
    exact Or.inl (Task.done.inj hdone).symm
  | done old =>
    rw [htask, Task.step] at hdone
    obtain rfl := Task.done.inj hdone
    exact h.tasks i old htask

private theorem Faithful.gathered (h : Faithful b skipGuards raised s)
    {outcome : Except Failure (List SourceUnit)} (hgather : gather? s.tasks = some outcome) :
    outcome = (b.documentUnits skipGuards).mapError .problem ∨
      outcome = .error .canceled ∧ raised := by
  obtain ⟨slots, hslots, rfl⟩ := exists_slots_of_gather? hgather
  have hslot : ∀ i, slots i = emitAt b skipGuards i ∨ slots i = .error .canceled ∧ raised :=
    fun i => h.tasks i (slots i) (hslots i)
  have hgood : ∀ {i a}, slots i = .ok a → emitAt b skipGuards i = .ok a := by
    intro i a ha
    rcases hslot i with he | ⟨he, -⟩
    · rw [← he, ha]
    · rw [ha] at he
      cases he
  cases hresult : (List.ofFn slots).mapM id with
  | ok units =>
    left
    have hall := Outcome.mapM_isOk_iff.mp ⟨units, hresult⟩
    have hsame : slots = emitAt b skipGuards := by
      funext i
      obtain ⟨a, ha⟩ := hall (slots i) (List.mem_ofFn.mpr ⟨i, rfl⟩)
      exact ha.trans (hgood ha).symm
    rw [← hresult, hsame, mapM_emitAt]
  | error failure =>
    -- every task before the first one that failed has derived its unit
    obtain ⟨i, hi, hbefore⟩ := Outcome.mapM_ofFn_eq_error.mp hresult
    rcases hslot i with he | ⟨he, hraised⟩
    · left
      rw [← mapM_emitAt]
      refine (Outcome.mapM_ofFn_eq_error.mpr ⟨i, he.symm.trans hi, fun j hj => ?_⟩).symm
      obtain ⟨a, ha⟩ := hbefore j hj
      exact ⟨a, hgood ha⟩
    · right
      obtain rfl := Except.error.inj (hi.symm.trans he)
      exact ⟨rfl, hraised⟩

/-- The step lemma: whatever happens next keeps the parts faithful. -/
private theorem Faithful.after (h : Faithful b skipGuards raised s)
    (event : Event b.registry.documents.length) (hcancel : event = .cancel → raised) :
    Faithful b skipGuards raised (s.after b skipGuards event) := by
  cases event with
  | task i =>
    refine ⟨h.canceled, fun j slot hdone => ?_, h.main⟩
    by_cases hj : j = i
    · subst hj
      simp only [State.after, if_true] at hdone
      exact h.step_task hdone
    · simp only [State.after, if_neg hj] at hdone
      exact h.tasks j slot hdone
  | main =>
    refine ⟨h.canceled, h.tasks, ?_⟩
    cases hmain : s.main with
    | waiting =>
      simp only [State.after, hmain, Main.step]
      split
      · exact .waiting
      next units hgather =>
        rcases h.gathered hgather with hunits | ⟨hcanceled, -⟩
        · exact .gathered (Outcome.mapError_eq_ok.mp hunits.symm)
        · cases hcanceled
      next failure hgather =>
        rcases h.gathered hgather with hfailed | ⟨hcanceled, hraised⟩
        · have hcompile : b.compile skipGuards false = .error failure := by
            simp only [Batch.compile, Bool.false_eq_true, if_false, ← hfailed]
            rfl
          exact .failed hcompile
        · obtain rfl := Except.error.inj hcanceled
          exact .canceled hraised
    | gathered units =>
      have hsound := h.main
      rw [hmain] at hsound
      cases hsound with
      | gathered hunits =>
        have hcompile : b.compile skipGuards false = b.aggregate units := by
          simp only [Batch.compile, Bool.false_eq_true, if_false, hunits]
          rfl
        simp only [State.after, hmain, Main.step]
        split
        next hcanceled => exact .canceled (h.canceled hcanceled)
        · cases haggregate : b.aggregate units with
          | ok compilation => exact .compiled (hcompile.trans haggregate)
          | error failure => exact .failed (hcompile.trans haggregate)
    | returned result failure =>
      have hsound := h.main
      rw [hmain] at hsound
      simp only [State.after, hmain, Main.step]
      exact hsound
  | cancel => exact ⟨fun _ => hcancel rfl, h.tasks, h.main⟩

/-- The run lemma. -/
private theorem Faithful.play (h : Faithful b skipGuards raised s)
    {events : List (Event b.registry.documents.length)} (hcancel : .cancel ∈ events → raised) :
    Faithful b skipGuards raised (s.play b skipGuards events) := by
  induction events generalizing s with
  | nil => exact h
  | cons event rest ih =>
    have hevent : event = .cancel → raised := by
      rintro rfl
      exact hcancel List.mem_cons_self
    exact ih (h.after event hevent) fun hrest => hcancel (List.mem_cons_of_mem event hrest)

end Invariant

section Progress

variable {b : Batch} {skipGuards : Bool} {s : State b.registry.documents.length}

/-- At most how many turns a task takes from where it stands. -/
def Task.remaining : Task → Nat
  | .waiting => 2
  | .emitting => 1
  | .done _ => 0

/-- At most how many turns it takes to return, once all tasks are done. -/
def Main.remaining : Main → Nat
  | .waiting => 2
  | .gathered _ => 1
  | .returned _ _ => 0

private theorem Main.remaining_le (main : Main) : main.remaining ≤ 2 := by
  cases main <;> simp [Main.remaining]

private theorem Task.remaining_step (canceled : Bool) (document : Document) (task : Task) :
    (task.step b skipGuards canceled document).remaining ≤ task.remaining - 1 := by
  cases task with
  | waiting =>
    rw [Task.step]
    split <;> simp [Task.remaining]
  | emitting | done => simp [Task.step, Task.remaining]

private theorem Main.remaining_step (canceled : Bool)
    {tasks : Fin b.registry.documents.length → Task} (hdone : ∀ i, ∃ slot, tasks i = .done slot)
    (main : Main) :
    (main.step b canceled tasks).remaining ≤ main.remaining - 1 := by
  cases main with
  | waiting =>
    choose slots hslots using hdone
    rw [Main.step, funext hslots, gather?_done]
    cases (List.ofFn slots).mapM id <;> simp [Main.remaining]
  | gathered units =>
    rw [Main.step]
    split
    · simp [Main.remaining]
    · cases b.aggregate units <;> simp [Main.conclude, Main.remaining]
  | returned => simp [Main.step, Main.remaining]

private theorem remaining_task_play (skipGuards : Bool) (s : State b.registry.documents.length)
    (events : List (Event b.registry.documents.length)) (i : Fin b.registry.documents.length) :
    ((s.play b skipGuards events).tasks i).remaining ≤
      (s.tasks i).remaining - events.count (.task i) := by
  induction events generalizing s with
  | nil => exact Nat.le_refl _
  | cons event rest ih =>
    have hrest : ((s.play b skipGuards (event :: rest)).tasks i).remaining ≤
        ((s.after b skipGuards event).tasks i).remaining - rest.count (.task i) :=
      ih (s.after b skipGuards event)
    by_cases hi : event = .task i
    · subst hi
      have hstep : ((s.after b skipGuards (.task i)).tasks i).remaining ≤
          (s.tasks i).remaining - 1 := by
        simp only [State.after, if_true]
        exact Task.remaining_step _ _ _
      rw [List.count_cons_self]
      omega
    · have hsame : (s.after b skipGuards event).tasks i = s.tasks i := by
        cases event with
        | task j =>
          have hj : i ≠ j := fun he => hi (congrArg Event.task he.symm)
          simp only [State.after, if_neg hj]
        | main | cancel => rfl
      rw [hsame] at hrest
      rw [List.count_cons_of_ne hi]
      exact hrest

private theorem eq_done_of_remaining {task : Task} (h : task.remaining = 0) :
    ∃ slot, task = .done slot := by
  cases task with
  | done slot => exact ⟨slot, rfl⟩
  | waiting | emitting => cases h

private theorem eq_returned_of_remaining {main : Main} (h : main.remaining = 0) :
    ∃ result failure, main = .returned result failure := by
  cases main with
  | returned result failure => exact ⟨result, failure, rfl⟩
  | waiting | gathered => cases h

private theorem remaining_main_play (skipGuards : Bool) (s : State b.registry.documents.length)
    (hdone : ∀ i, ∃ slot, s.tasks i = .done slot)
    (events : List (Event b.registry.documents.length)) :
    (s.play b skipGuards events).main.remaining ≤ s.main.remaining - events.count .main := by
  induction events generalizing s with
  | nil => exact Nat.le_refl _
  | cons event rest ih =>
    have hstill : ∀ i, ∃ slot, (s.after b skipGuards event).tasks i = .done slot := by
      intro i
      obtain ⟨slot, hslot⟩ := hdone i
      have hplayed := remaining_task_play skipGuards s [event] i
      rw [hslot] at hplayed
      exact eq_done_of_remaining (Nat.eq_zero_of_le_zero (Nat.le_trans hplayed (Nat.sub_le _ _)))
    have hrest : (s.play b skipGuards (event :: rest)).main.remaining ≤
        (s.after b skipGuards event).main.remaining - rest.count .main :=
      ih (s.after b skipGuards event) hstill
    by_cases hmain : event = .main
    · subst hmain
      have hstep : (s.after b skipGuards .main).main.remaining ≤ s.main.remaining - 1 :=
        Main.remaining_step s.canceled hdone s.main
      rw [List.count_cons_self]
      omega
    · have hsame : (s.after b skipGuards event).main = s.main := by
        cases event with
        | main => exact absurd rfl hmain
        | task | cancel => rfl
      rw [hsame] at hrest
      rw [List.count_cons_of_ne hmain]
      exact hrest

end Progress

/-- Enough turns for a compilation to return: two for each task, and then two for the whole. -/
def Complete {n : Nat} (events : List (Event n)) : Prop :=
  ∃ before after, events = before ++ after ∧ (∀ i, 2 ≤ before.count (.task i)) ∧
    2 ≤ after.count .main

private theorem returned_of_complete {b : Batch} {skipGuards canceled : Bool}
    {events : List (Event b.registry.documents.length)} (h : Complete events) :
    ∃ result failure, ((State.start _ canceled).play b skipGuards events).main =
      .returned result failure := by
  obtain ⟨before, after, rfl, htasks, hmain⟩ := h
  have hsplit : (State.start _ canceled).play b skipGuards (before ++ after) =
      ((State.start _ canceled).play b skipGuards before).play b skipGuards after :=
    List.foldl_append ..
  have hdone : ∀ i, ∃ slot,
      ((State.start _ canceled).play b skipGuards before).tasks i = .done slot := by
    intro i
    have hremaining := remaining_task_play skipGuards
      (State.start _ canceled) before i
    have htwo : ((State.start b.registry.documents.length canceled).tasks i).remaining = 2 := rfl
    have hturns := htasks i
    exact eq_done_of_remaining (by omega)
  have hremaining := remaining_main_play skipGuards _ hdone after
  have hbound := Main.remaining_le ((State.start _ canceled).play b skipGuards before).main
  rw [hsplit]
  exact eq_returned_of_remaining (by omega)

private theorem compile_error_cases {b : Batch} {skipGuards : Bool} {failure : Failure}
    (h : b.compile skipGuards false = .error failure) :
    (∃ i : Fin b.registry.documents.length, ∃ problem, failure = .problem problem ∧
      Emission.documentUnit b.registry skipGuards b.registry.documents[i] = .error problem ∧
      ∀ j < i, ∃ unit,
        Emission.documentUnit b.registry skipGuards b.registry.documents[j] = .ok unit) ∨
    ∃ units, b.documentUnits skipGuards = .ok units ∧ b.aggregate units = .error failure := by
  simp only [Batch.compile, Bool.false_eq_true, if_false, Outcome.bind_eq_error] at h
  rcases h with hdocuments | ⟨units, hunits, haggregate⟩
  · left
    rw [← mapM_emitAt, Outcome.mapM_ofFn_eq_error] at hdocuments
    obtain ⟨i, hi, hbefore⟩ := hdocuments
    obtain ⟨problem, hproblem, rfl⟩ := Outcome.mapError_eq_error.mp hi
    refine ⟨i, problem, rfl, hproblem, fun j hj => ?_⟩
    obtain ⟨unit, hunit⟩ := hbefore j hj
    exact ⟨unit, Outcome.mapError_eq_ok.mp hunit⟩
  · exact Or.inr ⟨units, Outcome.mapError_eq_ok.mp hunits, haggregate⟩

/-- However the tasks of a compilation are interleaved and whenever it is cancelled: what it returns
is units or a failure, exactly one of the two; the units are those of a compilation that derives
them one after another; the failure is that it was cancelled, that of the first document that has no
unit, or that of the units of the whole batch; without cancellation it is all the same as one after
another; and once all have had their turns, it has returned. -/
theorem schedule_independent (b : Batch) (skipGuards canceled : Bool)
    (events : List (Event b.registry.documents.length)) :
    let last := (State.start _ canceled).play b skipGuards events
    (∀ result failure, last.main = .returned result failure →
      (result.isSome ↔ failure = none) ∧
      (∀ compilation, result = some compilation →
        failure = none ∧ b.compile skipGuards false = .ok compilation) ∧
      (∀ cause, failure = some cause → result = none ∧
        (cause = .canceled ∧ (canceled = true ∨ .cancel ∈ events) ∨
          (∃ i : Fin b.registry.documents.length, ∃ problem, cause = .problem problem ∧
            Emission.documentUnit b.registry skipGuards b.registry.documents[i] = .error problem ∧
            ∀ j < i, ∃ unit,
              Emission.documentUnit b.registry skipGuards b.registry.documents[j] = .ok unit) ∨
          ∃ units, b.documentUnits skipGuards = .ok units ∧ b.aggregate units = .error cause)) ∧
      (canceled = false → .cancel ∉ events →
        .returned result failure = Main.conclude (b.compile skipGuards false))) ∧
    (Complete events → (∃ compilation, last.main = .returned (some compilation) none) ∨
      ∃ cause, last.main = .returned none (some cause)) := by
  intro last
  have hfaithful : Faithful b skipGuards (canceled = true ∨ .cancel ∈ events) last :=
    (faithful_start Or.inl).play Or.inr
  have hsound (result failure) (hreturned : last.main = .returned result failure) :
      Main.Sound b skipGuards (canceled = true ∨ .cancel ∈ events) (.returned result failure) :=
    hreturned ▸ hfaithful.main
  refine ⟨fun result failure hreturned => ⟨(hsound _ _ hreturned).isSome_iff, ?_⟩,
    fun hcomplete => ?_⟩
  · cases hsound result failure hreturned with
    | @compiled compilation hcompile =>
      refine ⟨?_, nofun, fun _ _ => by rw [hcompile]; rfl⟩
      rintro _ ⟨⟩
      exact ⟨rfl, hcompile⟩
    | @failed cause hcompile =>
      refine ⟨nofun, ?_, fun _ _ => by rw [hcompile]; rfl⟩
      rintro _ ⟨⟩
      exact ⟨rfl, Or.inr (compile_error_cases hcompile)⟩
    | canceled hraised =>
      refine ⟨nofun, ?_, fun hnot hnever => ?_⟩
      · rintro _ ⟨⟩
        exact ⟨rfl, Or.inl ⟨rfl, hraised⟩⟩
      · rcases hraised with hcanceled | hcancel
        · rw [hnot] at hcanceled
          cases hcanceled
        · exact absurd hcancel hnever
  · obtain ⟨result, failure, hreturned⟩ := returned_of_complete hcomplete
    have hone := (hsound _ _ hreturned).isSome_iff
    cases result with
    | some compilation =>
      obtain rfl := hone.mp rfl
      exact Or.inl ⟨compilation, hreturned⟩
    | none =>
      cases failure with
      | some cause => exact Or.inr ⟨cause, hreturned⟩
      | none => cases hone.mpr rfl

/-- The tasks in reverse order, each all at once. -/
def backwards (n : Nat) : List (Event n) :=
  ((List.finRange n).reverse.flatMap fun i => [.task i, .task i]) ++ [.main, .main]

private theorem complete_backwards (n : Nat) : Complete (backwards n) := by
  refine ⟨_, _, rfl, fun i => ?_, by simp⟩
  have hmember : i ∈ (List.finRange n).reverse := List.mem_reverse.mpr (List.mem_finRange i)
  have hsublist : [Event.task i, Event.task i].Sublist
      ((List.finRange n).reverse.flatMap fun i => [Event.task i, Event.task i]) := by
    rw [List.flatMap_def]
    exact List.sublist_flatten_of_mem (List.mem_map.mpr ⟨i, hmember, rfl⟩)
  have hcount := hsublist.count_le (.task i)
  rw [List.count_cons_self, List.count_cons_self] at hcount
  omega

private theorem cancel_notMem_backwards (n : Nat) : .cancel ∉ backwards n := by
  simp [backwards]

theorem schedule_independent_likes :
    ∃ b c, Batch.analyze (Batch.likes.map some) = .ok b ∧ b.compile false false = .ok c ∧
      Complete (backwards b.registry.documents.length) ∧
      .cancel ∉ backwards b.registry.documents.length ∧
      ((State.start _ false).play b false (backwards _)).main = .returned (some c) none := by
  obtain ⟨b, c, hb, hc, -⟩ := Batch.likes_compile
  have hcomplete := complete_backwards b.registry.documents.length
  have hnever := cancel_notMem_backwards b.registry.documents.length
  obtain ⟨hreturns, hends⟩ := schedule_independent b false false (backwards _)
  refine ⟨b, c, hb, hc, hcomplete, hnever, ?_⟩
  rcases hends hcomplete with ⟨compilation, hreturned⟩ | ⟨cause, hreturned⟩
  · have hsame := (hreturns _ _ hreturned).2.2.2 rfl hnever
    rw [hc] at hsame
    exact hreturned.trans hsame
  · have hsame := (hreturns _ _ hreturned).2.2.2 rfl hnever
    rw [hc] at hsame
    exact hreturned.trans hsame

end LexiconCompiler.Schedule
