import MicroOs.Sched.Proofs.Bypass

/-!
# Stopped tasks

SIGSTOP marks a task blocked. It keeps the `wait_for_id` of the task, so that the death of the task
it waits for releases it; and a task that stops itself goes on until it yields, so that `sched_sleep`
or `sched_wait` may overwrite the mark. Otherwise it is not chosen again.
-/

namespace MicroOs.Sched
open Lib

variable {s : Scheduler} {k k' entered : Kernel} {e : KernelEvent} {how : Resume} {id i now : Nat}
  {trace : List (StepOf Kernel KernelEvent)}

/-- The scheduling decision is for the task with this id. -/
def Chooses (id : Nat) (st : StepOf Kernel KernelEvent) : Prop :=
  ∃ slot, decision st = some slot ∧ (st.post.sched.tasks slot).id = id

def SendsTo (id : Nat) (st : StepOf Kernel KernelEvent) : Prop :=
  st.event = .signalDeliver ∧
    ∃ slot sig, st.pre.activity = some (.signalling slot sig) ∧ (st.pre.sched.tasks slot).id = id

/-- The task does not itself enter `sched_sleep` or block in `sched_wait`. -/
def DoesNotBlock (id : Nat) (k : Kernel) (e : KernelEvent) : Prop :=
  k.sched.current.id = id →
    (∀ ticks, e ≠ .sleep ticks) ∧ ∀ other, k.waitBlocks other = true → e ≠ .wait other

/-- No task that is dead has the id which the blocked task with this id waits for. -/
def AwaitsNoDead (id : Nat) (s : Scheduler) : Prop :=
  ∀ i j, (s.tasks i).id = id → (s.tasks i).state = .blocked → (s.tasks j).state = .dead →
    (s.tasks j).id ≠ (s.tasks i).waitForId

/-- Nothing overwrites the mark in this step. -/
def LeavesStopped (id : Nat) (st : StepOf Kernel KernelEvent) : Prop :=
  DoesNotBlock id st.pre st.event ∧ AwaitsNoDead id st.pre.sched

/-- The task with this id is blocked, or dead. -/
def Stopped (id : Nat) (s : Scheduler) : Prop :=
  ∀ i, (s.tasks i).id = id → (s.tasks i).state = .blocked ∨ (s.tasks i).state = .dead

lemma Entry.keeps_task (h : Entry k e entered how) (own : DoesNotBlock id k e)
    (hi : (k.sched.tasks i).id = id) :
    entered.sched.tasks i = k.sched.tasks i ∨ (entered.sched.tasks i).state = .dead := by
  by_cases current : i = k.sched.currentTask
  · subst current
    cases h with
    | timer | yield | exitYield => exact .inl rfl
    | sleep ticks => exact absurd rfl ((own hi).1 ticks)
    | wait other blocks => exact absurd rfl ((own hi).2 other blocks)
    | fault => exact .inr (by simp [faultCurrent, Scheduler.setState])
  · exact .inl (h.other_tasks current)

lemma Entry.not_ready (h : Entry k e entered how) (own : DoesNotBlock id k e)
    (noDead : AwaitsNoDead id k.sched) (stopped : Stopped id k.sched)
    (hi : (k.sched.tasks i).id = id) : ¬ ReadyAfterWake entered.ticks entered.sched i := by
  have kept := h.keeps_task own hi
  have state :
      (entered.sched.tasks i).state = .blocked ∨ (entered.sched.tasks i).state = .dead := by
    rcases kept with same | dead
    · rw [same]
      exact stopped i hi
    · exact .inr dead
  rintro (⟨-, ready⟩ | due | ⟨j, reaps, -, blocked, awaited⟩)
  · simp [ready] at state
  · simp [due.2.1] at state
  · rcases kept with same | dead
    · rw [same] at blocked awaited
      have other : j ≠ k.sched.currentTask := h.currentTask ▸ reaps.2.2.2
      have dead := reaps.2.2.1
      rw [h.other_tasks other] at dead awaited
      exact noDead i j hi blocked dead awaited
    · simp [dead] at blocked

lemma prepare_stopped (notReady : ¬ ReadyAfterWake now s i) :
    ((prepare now s).tasks i).state = (s.tasks i).state := by
  have prepared := prepare_task now s i
  generalize (prepare now s).tasks i = t at prepared
  cases prepared with
  | woken due => exact absurd (.inr (.inl due)) notReady
  | notified j notified => exact absurd (.inr (.inr ⟨j, notified⟩)) notReady
  | reaped | kept => rfl

lemma Entry.stopped (ok : k.Ok) (enabled : k.Enabled e) (nonzero : id ≠ 0)
    (h : Entry k e entered how) (own : DoesNotBlock id k e) (noDead : AwaitsNoDead id k.sched)
    (stopped : Stopped id k.sched) :
    ((entered.pass how).sched.tasks (entered.pass how).sched.currentTask).id ≠ id ∧
      Stopped id (entered.pass how).sched := by
  have array := (ok.entry enabled h).array
  rw [pass_sched]
  have other : ((schedYield entered.ticks entered.sched).tasks
      (schedYield entered.ticks entered.sched).currentTask).id ≠ id := by
    intro same
    rw [schedYield_id] at same
    rcases (nextIs_iff array.toSchedulable).mpr rfl with ⟨ready, -⟩ | ⟨-, zero⟩
    · exact h.not_ready own noDead stopped ((h.id _).symm.trans same) ready
    · rw [zero, array.idle_id] at same
      exact nonzero same.symm
  refine ⟨other, fun i hi => ?_⟩
  have hi' : (k.sched.tasks i).id = id := by rw [← h.id, ← hi, schedYield_id]
  have before : (entered.sched.tasks i).state = .blocked ∨
      (entered.sched.tasks i).state = .dead := by
    rcases h.keeps_task own hi' with same | dead
    · rw [same]
      exact stopped i hi'
    · exact .inr dead
  have notNext : i ≠ (schedYield entered.ticks entered.sched).currentTask := by
    rintro rfl
    exact other hi
  have state : ((schedYield entered.ticks entered.sched).tasks i).state =
      (entered.sched.tasks i).state := by
    rw [schedYield_tasks, prepare_stopped (h.not_ready own noDead stopped hi')]
    simp only [handover, if_neg notNext]
    split
    · rfl
    · split
      · rename_i running
        simp [running.2] at before
      · rfl
  rw [state]
  exact before

lemma Stopped.modify {f : Task → Task} (stopped : Stopped id s) (slot : Nat)
    (ok : (f (s.tasks slot)).id = id → (f (s.tasks slot)).state = .dead ∨
      (s.tasks slot).id = id ∧ (f (s.tasks slot)).state = (s.tasks slot).state) :
    Stopped id (s.modify slot f) := by
  intro i hi
  by_cases here : i = slot
  · subst here
    rw [modify_tasks_self] at hi ⊢
    rcases ok hi with dead | ⟨same, state⟩
    · exact .inr dead
    · rw [state]
      exact stopped i same
  · rw [modify_tasks_of_ne f here] at hi ⊢
    exact stopped i hi

lemma Stopped.quiet (step : Quiet k e k') (nonzero : id ≠ 0) (below : id < k.sched.nextId)
    (silent : ¬ SendsTo id ⟨k, e, k'⟩) (stopped : Stopped id k.sched) : Stopped id k'.sched := by
  have other {slot sig : Nat} (activity : k.activity = some (.signalling slot sig))
      (delivers : e = .signalDeliver) : (k.sched.tasks slot).id ≠ id :=
    fun same => silent ⟨delivers, slot, sig, activity, same⟩
  cases step with
  | timer | setInterrupts _ | enablePreemption | answered _ | noTarget _ _ | noSlot _ | signal _ _ _
  | ignore _ | find _ _ | done _ => exact stopped
  | exit _ =>
    simp only [exitCurrent]
    exact stopped.modify _ fun _ => .inl rfl
  | stop slot activity | kill slot _ activity =>
    simp only [terminate, Scheduler.setState]
    exact stopped.modify slot fun same => absurd same (other activity rfl)
  | stack slot args stack =>
    intro i
    rw [createStack_tasks]
    refine stopped.modify slot (fun same => ?_) i
    split at same
    · exact absurd same.symm nonzero
    · exact .inr ⟨same, by rw [if_neg ‹_›]⟩
  | commit slot args =>
    -- the new task has an id that no task had before
    exact stopped.modify slot fun same => absurd same (Nat.ne_of_gt below)
  | user slot =>
    dsimp only
    exact stopped.modify slot fun same => .inr ⟨same, rfl⟩

lemma Entry.nextId (h : Entry k e entered how) : entered.sched.nextId = k.sched.nextId := by
  cases h <;> rfl

lemma KernelStep.nextId_le (ok : k.Ok) (step : KernelStep k e k') :
    k.sched.nextId ≤ k'.sched.nextId := by
  rcases step.cases ok with ⟨entered, how, entry, rfl⟩ | ⟨-, quiet⟩
  · apply Nat.le_of_eq
    rw [pass_sched, schedYield_nextId, (entry_of_passEntry entry).nextId]
  · cases quiet with
    | stack => exact Nat.le_of_eq (by rw [createStack_rest])
    | commit => exact Nat.le_succ _
    | _ => exact Nat.le_refl _

/-- The task with this id has been created and is stopped. -/
structure Halted (id : Nat) (k : Kernel) : Prop where
  ok : k.Ok
  below : id < k.sched.nextId
  stopped : Stopped id k.sched

lemma Halted.step (halted : Halted id k) (nonzero : id ≠ 0) (step : KernelStep k e k')
    (silent : ¬ SendsTo id ⟨k, e, k'⟩) (leaves : LeavesStopped id ⟨k, e, k'⟩) :
    ¬ Chooses id ⟨k, e, k'⟩ ∧ Halted id k' := by
  have ok' := halted.ok.step step
  have below := Nat.lt_of_lt_of_le halted.below (step.nextId_le halted.ok)
  obtain ⟨own, noDead⟩ := leaves
  rcases step.cases halted.ok with ⟨entered, how, entry, rfl⟩ | ⟨notPass, quiet⟩
  · have entry_ := entry_of_passEntry entry
    obtain ⟨other, stopped⟩ :=
      entry_.stopped halted.ok step.enabled nonzero own noDead halted.stopped
    refine ⟨?_, ok', below, stopped⟩
    rintro ⟨slot, decided, same⟩
    have isPass : (k.passEntry e).isSome := by
      rw [entry]
      rfl
    obtain rfl := Option.mem_unique (if_pos isPass) decided
    exact other same
  · refine ⟨?_, ok', below, halted.stopped.quiet quiet nonzero halted.below silent⟩
    rintro ⟨slot, decided, -⟩
    have notSome : ¬ (k.passEntry e).isSome := by simp [notPass]
    cases (if_neg notSome).symm.trans decided

lemma halted_of_stop {slot : Nat} (ok : k.Ok) (step : KernelStep k .signalDeliver k')
    (target : k.activity = some (.signalling slot 19)) (created : (k.sched.tasks slot).id ≠ 0) :
    Halted (k.sched.tasks slot).id k' := by
  have result : k'.sched = k.sched.setState slot .blocked := by
    rw [step.result]
    simp only [Kernel.next, Kernel.passEntry, Kernel.quiet, target]
    rw [deliverSignal_eq 19 (ok.array.no_signals slot).2, if_pos rfl]
  refine ⟨ok.step step, Nat.lt_of_lt_of_le (ok.array.id_lt slot) (step.nextId_le ok), fun i hi => ?_⟩
  rw [result] at hi ⊢
  unfold Scheduler.setState at hi ⊢
  by_cases here : i = slot
  · subst here
    rw [modify_tasks_self]
    exact .inl rfl
  · rw [modify_tasks_of_ne _ here] at hi
    exact absurd (ok.array.id_inj slot i hi.symm created).symm here

/-- After SIGSTOP the scheduler does not choose the task again in any run in which no other signal
is sent to it, it does not itself call `sched_sleep` or block in `sched_wait`, and no dead task has
the id that it waits for. -/
theorem stopped_task_is_not_chosen {slot : Nat} {last : Kernel}
    (reachable : Reachable KernelBooted KernelStep k) (stop : KernelStep k .signalDeliver k')
    (target : k.activity = some (.signalling slot 19)) (created : (k.sched.tasks slot).id ≠ 0)
    (run : Run KernelStep k' trace last)
    (silent : ∀ st ∈ trace, ¬ SendsTo (k.sched.tasks slot).id st)
    (leaves : ∀ st ∈ trace, LeavesStopped (k.sched.tasks slot).id st) :
    ∀ st ∈ trace, ¬ Chooses (k.sched.tasks slot).id st := by
  have halted := halted_of_stop (kernel_ok reachable) stop target created
  generalize (k.sched.tasks slot).id = id at *
  intro st member
  have keeps : ∀ a e b, Halted id a → KernelStep a e b →
      ¬ SendsTo id ⟨a, e, b⟩ ∧ LeavesStopped id ⟨a, e, b⟩ → Halted id b :=
    fun a e b inv step meets => (inv.step created step meets.1 meets.2).2
  have before := run.invariant_of_pre halted keeps
    (fun st member => ⟨silent st member, leaves st member⟩) st member
  exact (before.step created (run.step_of_mem st member) (silent st member)
    (leaves st member)).1

/-- Two tasks; the first runs and is about to stop the second. -/
def stopSecond : List KernelEvent :=
  Kernel.creates ⟨"a", 0x1000, 1⟩ 0x10000 ++ Kernel.creates ⟨"b", 0x2000, 1⟩ 0x20000 ++
    [.yield, .signal 2 19]

lemma awaitsNoDead_of_alive (ok : ArrayOk s)
    (alive : ∀ j < s.taskCount, (s.tasks j).state ≠ .dead) : AwaitsNoDead id s := by
  intro i j _ _ dead
  by_cases used : j < s.taskCount
  · exact absurd dead (alive j used)
  · rw [ok.unused j (Nat.not_lt.mp used)] at dead
    cases dead

theorem stopped_task_is_not_chosen_ready :
    ¬ Chooses 2 ⟨((Kernel.boot 0 0 0).after stopSecond).next .signalDeliver, .yield,
      (((Kernel.boot 0 0 0).after stopSecond).next .signalDeliver).next .yield⟩ := by
  have started : (Kernel.boot 0 0 0).Follows stopSecond := by decide +kernel
  have stops : ((Kernel.boot 0 0 0).after stopSecond).Follows [.signalDeliver] := by decide +kernel
  have yields : (((Kernel.boot 0 0 0).after stopSecond).next .signalDeliver).Follows [.yield] := by
    decide +kernel
  have reachable : Reachable KernelBooted KernelStep ((Kernel.boot 0 0 0).after stopSecond) :=
    started.run.reachable ⟨0, 0, 0, rfl⟩
  have stop : KernelStep ((Kernel.boot 0 0 0).after stopSecond) .signalDeliver _ :=
    ⟨stops.1, stops.2.1, rfl⟩
  have target : ((Kernel.boot 0 0 0).after stopSecond).activity = some (.signalling 2 19) := by
    decide +kernel
  refine stopped_task_is_not_chosen reachable stop target (by decide +kernel) yields.run ?_ ?_ _
    (List.mem_singleton_self _)
  · intro st member
    rw [List.mem_singleton.mp member]
    rintro ⟨⟨⟩, -⟩
  · intro st member
    rw [List.mem_singleton.mp member]
    refine ⟨fun isCurrent => absurd isCurrent (by decide +kernel), ?_⟩
    exact awaitsNoDead_of_alive (kernel_ok (reachable.next stop)).array (by decide +kernel)

/-- The first task waits for the second, which stops it and exits. -/
def stopWaiter : List KernelEvent :=
  Kernel.creates ⟨"a", 0x1000, 1⟩ 0x10000 ++ Kernel.creates ⟨"b", 0x2000, 1⟩ 0x20000 ++
    [.yield, .wait 2, .signal 1 19]

theorem stopped_waiter_is_chosen :
    ∃ before k, Run KernelStep (Kernel.boot 0 0 0) before k ∧
      k.activity = some (.signalling 1 19) ∧ (k.sched.tasks 1).id = 1 ∧
      (k.sched.tasks 1).state ≠ .dead ∧ KernelStep k .signalDeliver (k.next .signalDeliver) ∧
      ∃ trace k', Run KernelStep (k.next .signalDeliver) trace k' ∧
        (∀ st ∈ trace, st.event ≠ .signalDeliver) ∧ ∃ st ∈ trace, Chooses 1 st := by
  have started : (Kernel.boot 0 0 0).Follows stopWaiter := by decide +kernel
  have stops : ((Kernel.boot 0 0 0).after stopWaiter).Follows [.signalDeliver] := by decide +kernel
  have goesOn : (((Kernel.boot 0 0 0).after stopWaiter).next .signalDeliver).Follows
      [.exit 0, .exitYield, .yield] := by decide +kernel
  refine ⟨_, _, started.run, by decide +kernel, by decide +kernel, by decide +kernel,
    ⟨stops.1, stops.2.1, rfl⟩, _, _, goesOn.run, by simp [Kernel.stepsOf], ?_⟩
  have member := Kernel.step_mem (((Kernel.boot 0 0 0).after stopWaiter).next .signalDeliver)
    [.exit 0, .exitYield] .yield []
  exact ⟨_, member, 1, by decide +kernel, by decide +kernel⟩

end MicroOs.Sched
