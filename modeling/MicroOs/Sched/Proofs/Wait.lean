import MicroOs.Sched.Proofs.WaitInvariant

/-!
# `sched_wait`

What `sched_wait` promises, in runs without a pass in the middle of a call: a task that waits for
`X` is woken by a pass that finds `X` dead and by nothing else, all tasks that wait for `X` are
woken together, and each returns the exit code the pass found.
-/

namespace MicroOs.Sched
open Lib

variable {k k' entered : Kernel} {e : KernelEvent} {how : Resume} {s : Scheduler} {now i j : Nat}

/-- The step is a pass that finds the task `id` dead with exit code `code`, and makes the task of
slot `j`, which waits for it, ready with that code. -/
structure WokenBy (st : StepOf Kernel KernelEvent) (j id : Nat) (code : Int) : Prop where
  pass : (st.pre.passEntry st.event).isSome
  found : ∃ i, NotifiedBy st.pre.sched j i ∧ (st.pre.sched.tasks i).id = id ∧
    (st.pre.sched.tasks i).exitCode = code
  ready : (st.post.sched.tasks j).state = .ready ∨ (st.post.sched.tasks j).state = .running
  exitCode : (st.post.sched.tasks j).exitCode = code

/-- A call of `sched_wait(id)` by the task of slot `j` returns from `sched_yield`
(`task.c:272-274`): the task is switched back in, or the pass the call makes chooses it again. -/
def ReturnsFromWait (st : StepOf Kernel KernelEvent) (j id : Nat) : Prop :=
  st.post.Runs ∧ st.post.sched.currentTask = j ∧
    (st.pre.sched.currentTask ≠ j ∧ st.pre.saved j = .yielded (.wait id) ∨
      st.pre.sched.currentTask = j ∧ st.event = .wait id ∧ st.pre.waitBlocks id = true)

lemma ArrayOk.yield_notified (now : Nat) (ok : ArrayOk s) (notified : NotifiedBy s j i)
    (isTask : (s.tasks i).id ≠ 0) :
    (((schedYield now s).tasks j).state = .ready ∨ ((schedYield now s).tasks j).state = .running) ∧
      ((schedYield now s).tasks j).exitCode = (s.tasks i).exitCode := by
  have prepared := prepare_task now s j
  rw [schedYield_tasks]
  generalize (prepare now s).tasks j = t at prepared
  cases prepared with
  | woken due => exact absurd due.2.1 (by simp [notified.2.2.1])
  | reaped reaps => exact absurd reaps.2.2.1 (by simp [notified.2.2.1])
  | kept notDue notNotified notReaped => exact absurd notified (notNotified i)
  | notified i' notified' =>
    obtain rfl : i = i' := ok.id_inj i i' (notified.2.2.2.trans notified'.2.2.2.symm) isTask
    refine ⟨?_, rfl⟩
    rcases handover_cases s.currentTask (schedYield now s).currentTask j .ready with
      same | running | ⟨ready, -⟩
    · exact .inl same
    · exact .inr running
    · exact .inl ready

lemma yield_exitCode (notNotified : ∀ i, ¬ NotifiedBy s j i) :
    ((schedYield now s).tasks j).exitCode = (s.tasks j).exitCode := by
  have prepared := prepare_task now s j
  rw [schedYield_tasks]
  generalize (prepare now s).tasks j = t at prepared
  cases prepared with
  | woken _ | reaped _ | kept => rfl
  | notified i notified => exact absurd notified (notNotified i)

lemma Entry.notifiedBy_iff (entry : Entry k e entered how) (other : j ≠ k.sched.currentTask) :
    NotifiedBy entered.sched j i ↔ NotifiedBy k.sched j i := by
  unfold NotifiedBy Reapable
  rw [entry.taskCount, entry.currentTask, entry.other_tasks other]
  by_cases hi : i = k.sched.currentTask
  · simp [hi]
  · rw [entry.other_tasks hi]

lemma WaitInv.current_not_notified (inv : WaitInv k) (runs : k.Runs) (enabled : k.Enabled e)
    (entry : Entry k e entered how) (i : Nat) :
    ¬ NotifiedBy entered.sched k.sched.currentTask i := by
  rintro ⟨⟨-, -, dead, notCurrent⟩, -, -, isTarget⟩
  have isTask := inv.entry_dead runs enabled entry dead
  rcases inv.entry_current entry with none | ⟨id, -, -, blocks, -, sameId⟩
  · exact isTask (isTarget.trans none)
  · obtain ⟨i', -, isTarget', alive⟩ := waitBlocks_spec blocks
    rw [entry.currentTask] at notCurrent
    rw [entry.other_tasks notCurrent] at dead isTarget isTask
    obtain rfl : i = i' := inv.base.ok.array.id_inj i i'
      (isTarget.trans (sameId.trans isTarget'.symm)) isTask
    exact alive dead

lemma WaitInv.woken_of_notified (inv : WaitInv k) (enabled : k.Enabled e)
    (pass : k.passEntry e = some (entered, how)) (other : j ≠ k.sched.currentTask)
    (notified : NotifiedBy k.sched j i) :
    WokenBy ⟨k, e, entered.pass how⟩ j (k.sched.tasks i).id (k.sched.tasks i).exitCode := by
  have entry := entry_of_passEntry pass
  have array := inv.base.ok.array.entry enabled entry
  have isTask := inv.dead_id i notified.1.2.2.1
  have same := entry.other_tasks notified.1.2.2.2
  have ⟨ready, code⟩ := array.yield_notified entered.ticks
    ((entry.notifiedBy_iff other).mpr notified) (by rwa [same])
  refine ⟨by simp [pass], ⟨i, notified, rfl, rfl⟩, ?_, ?_⟩
  · rw [pass_sched]
    exact ready
  · rw [pass_sched, code, same]

/-- Between passes a task that is not executing is left alone, or it is killed or stopped. -/
def LeftAlone (t t' : Task) : Prop :=
  t'.id = t.id ∧ t'.waitForId = t.waitForId ∧
    (t'.state = t.state ∧ t'.exitCode = t.exitCode ∨ t'.state = .dead ∨ t'.state = .blocked)

lemma LeftAlone.refl (t : Task) : LeftAlone t t := ⟨rfl, rfl, .inl ⟨rfl, rfl⟩⟩

lemma modify_leftAlone {slot : Nat} {f : Task → Task} (leaves : ∀ t, LeftAlone t (f t)) :
    LeftAlone (s.tasks j) ((s.modify slot f).tasks j) := by
  by_cases hj : j = slot
  · subst hj
    rw [modify_tasks_self]
    exact leaves _
  · rw [modify_tasks_of_ne _ hj]
    exact .refl _

/-- A step without a pass changes a task that is not executing no further, unless it creates a task
in its slot. -/
lemma WaitInv.quiet_leftAlone (inv : WaitInv k) (step : Quiet k e k')
    (other : j ≠ k.sched.currentTask) :
    LeftAlone (k.sched.tasks j) (k'.sched.tasks j) ∧ k'.saved j = k.saved j ∨
      (j < k.sched.taskCount → (k.sched.tasks j).state = .dead) ∧
        ((k'.sched.tasks j).id = 0 ∨ k'.saved j = .fresh) := by
  cases step with
  | timer | setInterrupts _ | enablePreemption | answered _ | noTarget _ _ | noSlot _ | signal _ _ _
  | ignore _ | find _ _ | done _ => exact .inl ⟨.refl _, rfl⟩
  | exit code =>
    simp only [exitCurrent, modify_tasks_of_ne _ other]
    exact .inl ⟨.refl _, rfl⟩
  | stop _ =>
    simp only [Scheduler.setState]
    exact .inl ⟨modify_leftAlone fun t => ⟨rfl, rfl, .inr (.inr rfl)⟩, rfl⟩
  | kill _ _ =>
    simp only [terminate]
    exact .inl ⟨modify_leftAlone fun t => ⟨rfl, rfl, .inr (.inl rfl)⟩, rfl⟩
  | stack slot args stack activity =>
    have dead := (inv.base.calls.found slot args activity).2.1
    simp only [createStack_tasks]
    by_cases hj : j = slot
    · subst hj
      rw [modify_tasks_self]
      split
      · exact .inr ⟨dead, .inl rfl⟩
      · exact .inl ⟨⟨rfl, rfl, .inl ⟨rfl, rfl⟩⟩, rfl⟩
    · rw [modify_tasks_of_ne _ hj]
      exact .inl ⟨.refl _, rfl⟩
  | commit slot args activity =>
    have dead := (inv.base.calls.stacked slot args activity).2.1
    by_cases hj : j = slot
    · subst hj
      exact .inr ⟨dead, .inr (Function.update_self ..)⟩
    · simp only [createCommit, modify_tasks_of_ne _ hj]
      exact .inl ⟨.refl _, Function.update_of_ne hj ..⟩
  | user _ _ _ =>
    dsimp only
    exact .inl ⟨modify_leftAlone fun t => ⟨rfl, rfl, .inl ⟨rfl, rfl⟩⟩, rfl⟩

lemma WaitInv.waiter_step (inv : WaitInv k) (step : KernelStep k e k') (waits : Waits k.sched j) :
    Waits k'.sched j ∧ (k'.sched.tasks j).waitForId = (k.sched.tasks j).waitForId ∨
      (k'.sched.tasks j).state = .dead ∨
      ∃ code, WokenBy ⟨k, e, k'⟩ j (k.sched.tasks j).waitForId code := by
  have other := (inv.waiter j waits).1
  have ⟨blocked, waiting⟩ := waits
  rcases step.cases inv.base.ok with ⟨entered, how, pass, rfl⟩ | ⟨-, quiet⟩
  · have entry := entry_of_passEntry pass
    by_cases notified : ∃ i, NotifiedBy k.sched j i
    · obtain ⟨i, notified⟩ := notified
      rw [← notified.2.2.2]
      exact .inr (.inr ⟨_, inv.woken_of_notified step.enabled pass other notified⟩)
    · have array := inv.base.ok.array.entry step.enabled entry
      have stays := (array.yield_stays_blocked entered.ticks
        (by rwa [entry.other_tasks other])
        fun i h => notified ⟨i, (entry.notifiedBy_iff other).mp h⟩).1
      have sameId := (yield_waits (by decide) stays).2.2
      rw [entry.other_tasks other] at sameId
      unfold Waits
      rw [pass_sched, sameId]
      exact .inl ⟨⟨stays, waiting⟩, rfl⟩
  · rcases inv.quiet_leftAlone quiet other with ⟨⟨-, sameId, state⟩, -⟩ | ⟨dead, -⟩
    · unfold Waits
      rw [sameId]
      rcases state with ⟨same, -⟩ | dead | stopped
      · exact .inl ⟨⟨same.trans blocked, waiting⟩, rfl⟩
      · exact .inr (.inl dead)
      · exact .inl ⟨⟨stopped, waiting⟩, rfl⟩
    · rw [dead (inv.base.ok.array.lt_of_blocked blocked)] at blocked
      cases blocked

/-- The task of slot `j` was woken in the run and has not been executing since. -/
def WokenIn (trace : List (StepOf Kernel KernelEvent)) (j id : Nat) (code : Int) : Prop :=
  ∃ early woken later, trace = early ++ woken :: later ∧ WokenBy woken j id code ∧
    ∀ st ∈ later, st.pre.sched.currentTask ≠ j

variable {trace : List (StepOf Kernel KernelEvent)} {st : StepOf Kernel KernelEvent} {id : Nat}
  {code : Int}

lemma WokenBy.wokenIn (woken : WokenBy st j id code) : WokenIn (trace ++ [st]) j id code :=
  ⟨trace, st, [], rfl, woken, by simp⟩

lemma WokenIn.snoc (woken : WokenIn trace j id code) (other : st.pre.sched.currentTask ≠ j) :
    WokenIn (trace ++ [st]) j id code := by
  obtain ⟨early, woken, later, rfl, wokenBy, notExecuting⟩ := woken
  refine ⟨early, woken, later ++ [st], by simp, wokenBy, fun st' member => ?_⟩
  rcases List.mem_append.mp member with member | member
  · exact notExecuting st' member
  · rwa [List.mem_singleton.mp member]

/-- Every task that is ready and will resume in `sched_wait` has been woken with the exit code it
has. -/
def Pending (trace : List (StepOf Kernel KernelEvent)) (k : Kernel) : Prop :=
  ∀ j id, k.saved j = .yielded (.wait id) → j ≠ k.sched.currentTask →
    (k.sched.tasks j).id ≠ 0 → (k.sched.tasks j).state = .ready →
    WokenIn trace j id (k.sched.tasks j).exitCode

/-- A task that is ready or running after a pass and resumes in `sched_wait` has been woken by this
pass or before. -/
lemma Pending.pass (pending : Pending trace k) (inv : WaitInv k) (enabled : k.Enabled e)
    (pass : k.passEntry e = some (entered, how)) (other : j ≠ k.sched.currentTask)
    (saved : k.saved j = .yielded (.wait id)) (isTask : (k.sched.tasks j).id ≠ 0)
    (awake : ((schedYield entered.ticks entered.sched).tasks j).state = .ready ∨
      ((schedYield entered.ticks entered.sched).tasks j).state = .running) :
    WokenIn (trace ++ [⟨k, e, entered.pass how⟩]) j id
      ((schedYield entered.ticks entered.sched).tasks j).exitCode := by
  have entry := entry_of_passEntry pass
  have array := inv.base.ok.array.entry enabled entry
  have same := entry.other_tasks other
  by_cases notified : ∃ i, NotifiedBy k.sched j i
  · obtain ⟨i, notified⟩ := notified
    have woken := inv.woken_of_notified enabled pass other notified
    have isTarget := notified.2.2.2
    have waits : Waits k.sched j := ⟨notified.2.2.1, isTarget ▸ inv.dead_id i notified.1.2.2.1⟩
    have resumes := (inv.waiter j waits).2.1
    rw [saved] at resumes
    cases resumes
    rw [← isTarget, ← pass_sched entered how, woken.exitCode]
    exact woken.wokenIn
  · have notNotified (i : Nat) : ¬ NotifiedBy entered.sched j i := fun h =>
      notified ⟨i, (entry.notifiedBy_iff other).mp h⟩
    rw [yield_exitCode notNotified, same]
    refine (pending j id saved other isTask ?_).snoc other.symm
    cases state : (k.sched.tasks j).state with
    | ready => rfl
    | running => exact absurd (inv.base.ok.array.running j state) other
    | sleeping => exact absurd state (inv.suspended j id saved other isTask)
    | blocked =>
      have stays := (array.yield_stays_blocked entered.ticks (same ▸ state) notNotified).1
      simp [stays] at awake
    | dead =>
      have stays : ((schedYield entered.ticks entered.sched).tasks j).state = .dead :=
        array.yield_dead_iff.mpr (same ▸ state)
      simp [stays] at awake

lemma Entry.blocked_of_wait (entry : Entry k e entered (.yielded (.wait id))) :
    (entered.sched.tasks k.sched.currentTask).state = .blocked := by
  cases entry with
  | wait id => simp [blockCurrent]

lemma Pending.step (pending : Pending trace k) (inv : WaitInv k) (step : KernelStep k e k') :
    Pending (trace ++ [⟨k, e, k'⟩]) k' := by
  intro j id saved other isTask ready
  rcases step.cases inv.base.ok with ⟨entered, how, pass, rfl⟩ | ⟨-, quiet⟩
  · have entry := entry_of_passEntry pass
    have array := inv.base.ok.array.entry step.enabled entry
    rw [pass_sched] at other isTask ready ⊢
    rw [schedYield_id, entry.id] at isTask
    rw [pass_saved_of_ne entered how other, entry.saved, entry.currentTask] at saved
    by_cases hj : j = k.sched.currentTask
    · -- the task that calls `sched_wait` in this step stays blocked
      subst hj
      rw [Function.update_self] at saved
      subst saved
      have stays := (array.yield_stays_blocked entered.ticks entry.blocked_of_wait
        (inv.current_not_notified step.runs step.enabled entry)).1
      simp [stays] at ready
    · rw [Function.update_of_ne hj] at saved
      exact pending.pass inv step.enabled pass hj saved isTask (.inl ready)
  · rw [quiet.currentTask] at other
    rcases inv.quiet_leftAlone quiet other with ⟨⟨sameId, -, state⟩, sameSaved⟩ | ⟨-, gone⟩
    · rw [sameSaved] at saved
      rw [sameId] at isTask
      rcases state with ⟨same, sameCode⟩ | dead | stopped
      · rw [sameCode]
        exact (pending j id saved other isTask (same ▸ ready)).snoc other.symm
      · simp [dead] at ready
      · simp [stopped] at ready
    · rcases gone with zero | fresh
      · exact absurd zero isTask
      · simp [fresh] at saved

lemma wait_invariants {ticks cr3 rsp0 : Nat}
    (run : Run KernelStep (Kernel.boot ticks cr3 rsp0) trace k)
    (atomic : ∀ st ∈ trace, AtomicPass st.pre st.event) : WaitInv k ∧ Pending trace k := by
  induction run with
  | nil => exact ⟨.boot ticks cr3 rsp0, fun j id saved => by cases saved⟩
  | snoc run step ih =>
    obtain ⟨inv, pending⟩ := ih fun st member => atomic st (List.mem_append_left _ member)
    have last := atomic _ (List.mem_append_right _ List.mem_cons_self)
    exact ⟨inv.step step last, pending.step inv step⟩

lemma Pending.returns (pending : Pending trace k) (inv : WaitInv k) (step : KernelStep k e k')
    (returns : ReturnsFromWait ⟨k, e, k'⟩ j id) :
    WokenIn (trace ++ [⟨k, e, k'⟩]) j id k'.sched.current.exitCode := by
  obtain ⟨runs, rfl, how⟩ := returns
  simp only at runs how ⊢
  rcases step.cases inv.base.ok with ⟨entered, how', pass, rfl⟩ | ⟨noPass, quiet⟩
  · have entry := entry_of_passEntry pass
    have array := inv.base.ok.array.entry step.enabled entry
    unfold Scheduler.current
    unfold Kernel.Runs Scheduler.current at runs
    rw [pass_sched] at runs how ⊢
    rcases how with ⟨other, saved⟩ | ⟨current, rfl, blocks⟩
    · have isTask := runs.resolve_left fun idle => inv.idle_saved id (idle ▸ saved)
      rw [schedYield_id, entry.id] at isTask
      refine pending.pass inv step.enabled pass other.symm saved isTask (.inr ?_)
      simp [schedYield_tasks, handover, entry.currentTask, other.symm]
    · -- a pass does not choose the task that has just blocked
      have notNotified := inv.current_not_notified step.runs step.enabled entry
      have blocked : how' = .yielded (.wait id) := by
        simp only [Kernel.passEntry, blocks, if_true, Option.some.injEq, Prod.mk.injEq] at pass
        exact pass.2.symm
      subst blocked
      have stays := array.yield_stays_blocked entered.ticks entry.blocked_of_wait notNotified
      exact absurd current stays.2
  · rcases how with ⟨other, -⟩ | ⟨-, rfl, blocks⟩
    · exact absurd quiet.currentTask.symm other
    · simp [Kernel.passEntry, blocks] at noPass

structure WaitsRespected (st : StepOf Kernel KernelEvent) : Prop where
  /-- A call of `sched_wait` that has to wait leaves its caller waiting. -/
  blocks : ∀ id, st.event = .wait id → st.pre.waitBlocks id = true →
    Waits st.post.sched st.pre.sched.currentTask ∧
      (st.post.sched.tasks st.pre.sched.currentTask).waitForId = id
  /-- A task that waits goes on doing so until it is killed or woken. -/
  onlyWoken : ∀ j, Waits st.pre.sched j →
    Waits st.post.sched j ∧
        (st.post.sched.tasks j).waitForId = (st.pre.sched.tasks j).waitForId ∨
      (st.post.sched.tasks j).state = .dead ∨
      ∃ code, WokenBy st j (st.pre.sched.tasks j).waitForId code
  /-- A pass that finds a task dead wakes all tasks that wait for it. -/
  allWoken : (st.pre.passEntry st.event).isSome → ∀ i j, Reapable st.pre.sched i →
    Waits st.pre.sched j → (st.pre.sched.tasks j).waitForId = (st.pre.sched.tasks i).id →
    WokenBy st j (st.pre.sched.tasks i).id (st.pre.sched.tasks i).exitCode

/-- Every task that waits waits for a task that some slot holds. -/
def NoLostWakeUp (s : Scheduler) : Prop :=
  ∀ j, Waits s j → ∃ i < s.taskCount, (s.tasks i).id = (s.tasks j).waitForId

lemma WaitInv.noLostWakeUp (inv : WaitInv k) : NoLostWakeUp k.sched := by
  intro j waits
  obtain ⟨-, -, i, lt, sameTask, -⟩ := inv.waiter j waits
  exact ⟨i, lt, sameTask⟩

lemma WaitInv.respected (inv : WaitInv k) (step : KernelStep k e k') :
    WaitsRespected ⟨k, e, k'⟩ where
  blocks := by
    rintro id rfl blocks
    have isTask := step.enabled.2.2
    rcases step.cases inv.base.ok with ⟨entered, how, pass, rfl⟩ | ⟨noPass, -⟩
    · have entry := entry_of_passEntry pass
      have array := inv.base.ok.array.entry step.enabled entry
      cases entry with
      | wait id blocks =>
        have stays := (array.yield_stays_blocked k.ticks (by simp [blockCurrent])
          (inv.current_not_notified step.runs step.enabled (.wait id blocks))).1
        have sameId := (yield_waits (by decide) stays).2.2
        simp only [blockCurrent, modify_tasks_self] at sameId
        unfold Waits
        rw [pass_sched]
        exact ⟨⟨stays, ne_of_eq_of_ne sameId isTask⟩, sameId⟩
    · simp [Kernel.passEntry, blocks] at noPass
  onlyWoken j waits := inv.waiter_step step waits
  allWoken := by
    intro isPass i j reaps waits isTarget
    obtain ⟨⟨entered, how⟩, pass⟩ := Option.isSome_iff_exists.mp isPass
    have result := step.result
    rw [Kernel.next, pass] at result
    subst result
    exact inv.woken_of_notified step.enabled pass (inv.waiter j waits).1
      ⟨reaps, inv.base.ok.array.lt_of_blocked waits.1, waits.1, isTarget.symm⟩

/-- In every run in which no pass interrupts `do_task_create` or `sched_send_signal`, waiting tasks
are woken by a pass that finds their target dead and by nothing else, all with its exit code, which
`sched_wait` then returns; and no task waits for one that is gone. -/
theorem waits_are_answered {boot : Kernel} (booted : KernelBooted boot)
    (run : Run KernelStep boot trace k) (atomic : ∀ st ∈ trace, AtomicPass st.pre st.event) :
    NoLostWakeUp boot.sched ∧
    (∀ st ∈ trace, WaitsRespected st ∧ NoLostWakeUp st.post.sched) ∧
    ∀ before st after, trace = before ++ st :: after → ∀ j id, ReturnsFromWait st j id →
      WokenIn (before ++ [st]) j id st.post.sched.current.exitCode := by
  obtain ⟨ticks, cr3, rsp0, rfl⟩ := booted
  refine ⟨(WaitInv.boot ticks cr3 rsp0).noLostWakeUp, fun st member => ?_, ?_⟩
  · have step := run.step_of_mem st member
    have inv := run.invariant_of_pre (WaitInv.boot ticks cr3 rsp0)
      (fun a e b inv step cond => inv.step step cond) atomic st member
    exact ⟨inv.respected step, (inv.step step (atomic st member)).noLostWakeUp⟩
  · rintro before st after rfl j id returns
    have step := run.step_of_mem st (by simp)
    obtain ⟨inv, pending⟩ := wait_invariants run.before fun st member =>
      atomic st (List.mem_append_left _ member)
    exact pending.returns inv step returns

/-- The shell creates two tasks and waits for the first, which yields to the second, which kills
it. -/
def killedJob : List KernelEvent :=
  Kernel.startShell ++ Kernel.creates ⟨"job", 0x2000, 1⟩ 0x20000 ++
    Kernel.creates ⟨"killer", 0x3000, 1⟩ 0x30000 ++
    [.wait 2, .yield, .signal 2 9, .signalDeliver]

theorem waits_are_answered_killed_job :
    ReturnsFromWait ⟨(Kernel.boot 0 0 0).after killedJob, .yield,
        ((Kernel.boot 0 0 0).after killedJob).next .yield⟩ 1 2 ∧
      WokenIn ((Kernel.boot 0 0 0).stepsOf (killedJob ++ [.yield])) 1 2 137 := by
  have ⟨follows, between⟩ : (Kernel.boot 0 0 0).Follows (killedJob ++ [.yield]) ∧
      ∀ st ∈ (Kernel.boot 0 0 0).stepsOf (killedJob ++ [.yield]),
        (st.pre.passEntry st.event).isSome → st.pre.activity.all (!·.inCall) = true := by
    decide +kernel
  have ⟨returns, code⟩ : ReturnsFromWait ⟨(Kernel.boot 0 0 0).after killedJob, .yield,
        ((Kernel.boot 0 0 0).after killedJob).next .yield⟩ 1 2 ∧
      (((Kernel.boot 0 0 0).after killedJob).next .yield).sched.current.exitCode = 137 := by
    unfold ReturnsFromWait
    decide +kernel
  have atomic := (StackInv.boot 0 0 0).atomic_of_between follows between
  have answered := (waits_are_answered ⟨0, 0, 0, rfl⟩ follows.run atomic).2.2 _ _ []
    (Kernel.stepsOf_append _ killedJob [.yield]) 1 2 returns
  rw [code] at answered
  rw [Kernel.stepsOf_append]
  exact ⟨returns, answered⟩

end MicroOs.Sched
