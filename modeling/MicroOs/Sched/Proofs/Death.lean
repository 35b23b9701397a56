import MicroOs.Sched.Proofs.Invariant

/-!
# Death is final

A pass of the scheduler, a fault and an exit leave a dead task dead. Four other pieces of code write
the state of a task that may be dead: `sched_sleep` and `sched_wait` that of the current task,
`sched_send_signal` when it stops a task that died after the check, and `do_task_create` when it
zeroes the dead slot it was about to reuse.
-/

namespace MicroOs.Sched
open Lib

variable {s : Scheduler} {k k' entered : Kernel} {e : KernelEvent} {how : Resume} {now i : Nat}

/-- Whoever is dead before the step is dead after it, or has been replaced by a new task with an id
that no slot had before. -/
def StaysDead (k : Kernel) (e : KernelEvent) (k' : Kernel) : Prop :=
  ∀ i, (k.sched.tasks i).state = .dead →
    (k'.sched.tasks i).state = .dead ∨
      e = .createCommit ∧ ∀ j, (k'.sched.tasks i).id ≠ (k.sched.tasks j).id

/-- The step does not write the state of a dead task. -/
def SparesDead (k : Kernel) : KernelEvent → Prop
  | .sleep _ => k.sched.current.state ≠ .dead
  | .wait id => k.waitBlocks id = true → k.sched.current.state ≠ .dead
  | .signalDeliver => ∀ slot, k.activity = some (.signalling slot 19) →
      (k.sched.tasks slot).state ≠ .dead
  | .createStack stack => stack = 0 → ∀ slot args, k.activity = some (.found slot args) →
      (k.sched.tasks slot).state ≠ .dead
  | _ => True

lemma staysDead_iff_of_other {slot : Nat} (notCommit : e ≠ .createCommit)
    (others : ∀ i, i ≠ slot → ((k'.sched.tasks i).state = .dead ↔ (k.sched.tasks i).state = .dead)) :
    StaysDead k e k' ↔
      ((k.sched.tasks slot).state = .dead → (k'.sched.tasks slot).state = .dead) := by
  simp only [StaysDead, notCommit, false_and, or_false]
  constructor
  · exact fun stays => stays slot
  · intro own i dead
    by_cases hi : i = slot
    · subst hi
      exact own dead
    · exact (others i hi).mpr dead

lemma staysDead_modify {slot : Nat} {f : Task → Task} (notCommit : e ≠ .createCommit)
    (change : k'.sched.tasks = (k.sched.modify slot f).tasks) :
    StaysDead k e k' ↔
      ((k.sched.tasks slot).state = .dead → (f (k.sched.tasks slot)).state = .dead) := by
  rw [staysDead_iff_of_other notCommit (fun i hi => by rw [change, modify_tasks_of_ne f hi]),
    change, modify_tasks_self]

lemma staysDead_of_same
    (same : ∀ i, (k'.sched.tasks i).state = .dead ↔ (k.sched.tasks i).state = .dead) :
    StaysDead k e k' :=
  fun i dead => .inl ((same i).mpr dead)

lemma Entry.staysDead_iff (ok : k.Ok) (enabled : k.Enabled e) (h : Entry k e entered how) :
    StaysDead k e (entered.pass how) ↔ SparesDead k e := by
  have after (i : Nat) : ((entered.pass how).sched.tasks i).state = .dead ↔
      (entered.sched.tasks i).state = .dead := by
    rw [pass_sched]
    exact (ok.entry enabled h).array.yield_dead_iff
  have others (i : Nat) (hi : i ≠ k.sched.currentTask) :
      ((entered.pass how).sched.tasks i).state = .dead ↔ (k.sched.tasks i).state = .dead := by
    rw [after, h.other_tasks hi]
  cases h with
  | timer | yield | exitYield => exact iff_of_true (staysDead_of_same after) trivial
  | sleep ticks =>
    rw [staysDead_iff_of_other (by simp) others, after]
    simp [SparesDead, Scheduler.current, sleepCurrent]
  | wait id blocks =>
    rw [staysDead_iff_of_other (by simp) others, after]
    simp [SparesDead, Scheduler.current, blockCurrent, blocks]
  | fault =>
    rw [staysDead_iff_of_other (by simp) others, after]
    simp [SparesDead, faultCurrent, Scheduler.setState]

lemma staysDead_createCommit {slot : Nat} {args : CreateArgs} (ok : ArrayOk k.sched)
    (created : k'.sched = createCommit k.sched slot args) : StaysDead k .createCommit k' := by
  intro i dead
  rw [created]
  by_cases hi : i = slot
  · subst hi
    refine .inr ⟨rfl, fun j same => ?_⟩
    simp only [createCommit, modify_tasks_self, newTask] at same
    exact Nat.lt_irrefl _ (same ▸ ok.id_lt j)
  · refine .inl ?_
    simp only [createCommit]
    rwa [modify_tasks_of_ne _ hi]

lemma Kernel.Ok.quiet_staysDead_iff (ok : k.Ok) (step : Quiet k e k') :
    StaysDead k e k' ↔ SparesDead k e := by
  have same {k' : Kernel} (sched : k'.sched = k.sched) : StaysDead k e k' :=
    staysDead_of_same fun i => by rw [sched]
  cases step with
  | timer | setInterrupts _ | enablePreemption | noTarget _ _ | noSlot _ | signal _ _ _ | find _ _
  | done _ => exact iff_of_true (same rfl) trivial
  | answered id answered =>
    exact iff_of_true (same rfl) fun blocks => absurd (answered.symm.trans blocks) nofun
  | exit code => exact iff_of_true ((staysDead_modify (by simp) rfl).mpr fun _ => rfl) trivial
  | stop slot activity =>
    simp only [SparesDead, activity, Option.some.injEq, Activity.signalling.injEq]
    rw [staysDead_modify (by simp) rfl]
    simp
  | ignore slot activity =>
    refine iff_of_true (same rfl) fun other stops => ?_
    cases activity.symm.trans stops
  | kill slot sig activity _ notStop =>
    refine iff_of_true ((staysDead_modify (by simp) rfl).mpr fun _ => rfl) fun other stops => ?_
    cases activity.symm.trans stops
    exact absurd rfl notStop
  | stack slot args stack activity =>
    simp only [SparesDead, activity, Option.some.injEq, Activity.found.injEq]
    rw [staysDead_modify (by simp) (createStack_tasks stack)]
    by_cases failed : stack = 0
    · simp [failed, Task.zero]
    · simp [failed]
  | commit slot args => exact iff_of_true (staysDead_createCommit ok.array rfl) trivial
  | user slot => exact iff_of_true ((staysDead_modify (by simp) rfl).mpr fun dead => dead) trivial

lemma KernelStep.staysDead_iff (ok : k.Ok) (step : KernelStep k e k') :
    StaysDead k e k' ↔ SparesDead k e := by
  rcases step.cases ok with ⟨entered, how, entry, rfl⟩ | ⟨-, quiet⟩
  · exact (entry_of_passEntry entry).staysDead_iff ok step.enabled
  · exact ok.quiet_staysDead_iff quiet

variable {trace : List (StepOf Kernel KernelEvent)}

/-- In every part of the run, whoever is dead at its beginning is dead at its end, unless
`do_task_create` has given the slot to a new task with a new id. -/
def DeathIsFinal (trace : List (StepOf Kernel KernelEvent)) : Prop :=
  ∀ part a b, part <:+: trace → Run KernelStep a part b →
    ∀ i, (a.sched.tasks i).state = .dead → (b.sched.tasks i).state = .dead ∨
      ∃ st ∈ part, st.event = .createCommit ∧
        ∀ j, (st.post.sched.tasks i).id ≠ (st.pre.sched.tasks j).id

lemma DeathIsFinal.staysDead (final : DeathIsFinal trace) {st : StepOf Kernel KernelEvent}
    (member : st ∈ trace) (step : KernelStep st.pre st.event st.post) :
    StaysDead st.pre st.event st.post := by
  intro i dead
  obtain ⟨early, later, rfl⟩ := List.append_of_mem member
  have isPart : [st] <:+: early ++ st :: later := ⟨early, later, by simp⟩
  rcases final [st] st.pre st.post isPart (Run.nil.snoc step) i dead with stays | replaced
  · exact .inl stays
  · obtain ⟨_, isStep, commit, newId⟩ := replaced
    obtain rfl := List.mem_singleton.mp isStep
    exact .inr ⟨commit, newId⟩

lemma deathIsFinal_of_staysDead (stays : ∀ st ∈ trace, StaysDead st.pre st.event st.post) :
    DeathIsFinal trace := by
  intro part a b isPart run i dead
  induction run with
  | nil => exact .inl dead
  | @snoc earlier b c e run step ih =>
    have isStep : ⟨b, e, c⟩ ∈ trace := isPart.subset (by simp)
    rcases ih ((List.prefix_append _ _).isInfix.trans isPart) with stillDead | replaced
    · rcases stays _ isStep i stillDead with stillDead | ⟨commit, newId⟩
      · exact .inl stillDead
      · exact .inr ⟨⟨b, e, c⟩, by simp, commit, newId⟩
    · obtain ⟨st, member, replaced⟩ := replaced
      exact .inr ⟨st, List.mem_append_left _ member, replaced⟩

/-- In a run whoever is dead stays dead until its slot is given to a new task, iff no step writes
the state of a dead task. -/
theorem dead_stays_dead_iff {boot : Kernel} (booted : KernelBooted boot)
    (run : Run KernelStep boot trace k) :
    DeathIsFinal trace ↔ ∀ st ∈ trace, SparesDead st.pre st.event := by
  have ok := fun st member => kernel_ok (run.reachable_pre booted st member)
  constructor
  · intro final st member
    have step := run.step_of_mem st member
    exact (step.staysDead_iff (ok st member)).mp (final.staysDead member step)
  · intro spares
    refine deathIsFinal_of_staysDead fun st member => ?_
    exact ((run.step_of_mem st member).staysDead_iff (ok st member)).mpr (spares st member)

def killItself : List KernelEvent :=
  Kernel.creates ⟨"job", 0x2000, 1⟩ 0x20000 ++ [.yield, .signal 1 9, .signalDeliver]

theorem dead_stays_dead_iff_yield :
    DeathIsFinal ((Kernel.boot 0 0 0).stepsOf (killItself ++ [.yield])) := by
  have follows : (Kernel.boot 0 0 0).Follows (killItself ++ [.yield]) := by decide +kernel
  refine (dead_stays_dead_iff ⟨0, 0, 0, rfl⟩ follows.run).mpr ?_
  simp only [killItself, Kernel.creates, List.cons_append, List.nil_append, Kernel.stepsOf,
    List.forall_mem_cons]
  refine ⟨trivial, fun failed => absurd failed (by decide), trivial, trivial, trivial, trivial, ?_,
    trivial, by simp⟩
  -- the signal is not SIGSTOP
  intro slot activity
  have kill : (((((((Kernel.boot 0 0 0).next (.createFind ⟨"job", 0x2000, 1⟩)).next
      (.createStack 0x20000)).next .createCommit).next .createDone).next .yield).next
      (.signal 1 9)).activity = some (.signalling 1 9) := by decide +kernel
  cases kill.symm.trans activity

/-- When it calls `sched_sleep` instead, it wakes up again and runs, under its old id. -/
theorem sleep_revives_killed_task :
    ∃ trace k, Run KernelStep (Kernel.boot 0 0 0) trace k ∧ ¬ DeathIsFinal trace ∧
      (k.sched.tasks 1).id = 1 ∧ (k.sched.tasks 1).state = .running ∧
      (k.sched.tasks 1).exitCode = 128 + 9 := by
  have follows : (Kernel.boot 0 0 0).Follows (killItself ++ [.sleep 1, .timer, .yield]) := by
    decide +kernel
  refine ⟨_, _, follows.run, fun final => ?_, by decide +kernel, by decide +kernel,
    by decide +kernel⟩
  have member := Kernel.step_mem (Kernel.boot 0 0 0) killItself (.sleep 1) [.timer, .yield]
  rcases final.staysDead member (follows.run.step_of_mem _ member) 1 (by decide +kernel) with
    dead | ⟨commit, -⟩
  · exact absurd dead (by decide +kernel)
  · cases commit

end MicroOs.Sched
