import MicroOs.Sched.Proofs.Invariant

/-!
# Preemption stays switched on

`timer_handler` clears `in_schedule`, and `isr_dispatch` sends the EOI, only after
`sched_schedule` has returned in the interrupted task. The task that runs in the meantime does
either only when it was itself suspended inside the timer handler.
-/

namespace MicroOs.Sched
open Lib

variable {k k' entered : Kernel} {e : KernelEvent} {how : Resume}

/-- The next timer interrupt will be delivered and will call the scheduler. -/
def Preemptible (k : Kernel) : Prop := k.inSchedule = false ∧ k.irq0InService = false

/-- The task that a pass from the timer handler installs now is the interrupted one or was itself
suspended inside the handler (or the slot has been zeroed and no task resumes). -/
def ResumesInTimer (k : Kernel) : Prop :=
  ∀ next, NextIs (add64 k.ticks 1) k.sched next →
    next = k.sched.currentTask ∨ k.saved next = .timer ∨ next ≠ 0 ∧ (k.sched.tasks next).id = 0

def resumedAs (k : Kernel) (how : Resume) : Resume :=
  if (schedYield k.ticks k.sched).currentTask = k.sched.currentTask then how
  else k.saved (schedYield k.ticks k.sched).currentTask

lemma pass_intFlag (k : Kernel) (how : Resume) : (k.pass how).intFlag = true :=
  (pass_rest k how).1.2.2.2

lemma pass_preemptible_of_timer (h : resumedAs k how = .timer) : Preemptible (k.pass how) := by
  unfold resumedAs at h
  simp only [Kernel.pass]
  split at h
  · rename_i stays
    rw [if_pos stays, h]
    exact ⟨rfl, rfl⟩
  · rename_i switches
    rw [if_neg switches, h]
    exact ⟨rfl, rfl⟩

lemma pass_flags_of_not_timer (h : resumedAs k how ≠ .timer) :
    (k.pass how).inSchedule = k.inSchedule ∧
      (k.pass how).irq0InService = k.irq0InService := by
  unfold resumedAs at h
  simp only [Kernel.pass]
  split at h
  · rename_i stays
    rw [if_pos stays]
    cases how with
    | timer => exact absurd rfl h
    | fresh | yielded _ => exact ⟨rfl, rfl⟩
  · rename_i switches
    rw [if_neg switches]
    cases saved : k.saved (schedYield k.ticks k.sched).currentTask with
    | timer => exact absurd saved h
    | fresh | yielded _ => exact ⟨rfl, rfl⟩

lemma Preemptible.pass (h : Preemptible k) (how : Resume) : Preemptible (k.pass how) := by
  by_cases timer : resumedAs k how = .timer
  · exact pass_preemptible_of_timer timer
  · have ⟨sameSchedule, sameService⟩ := pass_flags_of_not_timer timer
    exact ⟨sameSchedule.trans h.1, sameService.trans h.2⟩

lemma Preemptible.quiet (h : Preemptible k) (step : Quiet k e k') : Preemptible k' := by
  cases step <;> exact h

/-- The state in which `timer_handler` calls `sched_schedule`. -/
def inHandler (k : Kernel) : Kernel :=
  { k with ticks := add64 k.ticks 1, irq0InService := true, intFlag := false, inSchedule := true }

lemma next_timer (preempts : k.preempts = true) : k.next .timer = (inHandler k).pass .timer := by
  simp only [Kernel.next, Kernel.passEntry, preempts, if_true, inHandler]

/-- A preempting timer interrupt leaves the kernel preemptible iff the next task resumes inside
the timer handler. -/
lemma timer_preemptible_iff (ok : k.Ok) (preempts : k.preempts = true) :
    ((k.next .timer).Runs → Preemptible (k.next .timer)) ↔ ResumesInTimer k := by
  have schedulable : Schedulable (inHandler k).sched := ok.array.toSchedulable
  obtain ⟨next, hnext⟩ : ∃ next,
      (schedYield (inHandler k).ticks (inHandler k).sched).currentTask = next := ⟨_, rfl⟩
  have chosen : NextIs (add64 k.ticks 1) k.sched next := (nextIs_iff schedulable).mpr hnext
  have only (other : Nat) (h : NextIs (add64 k.ticks 1) k.sched other) : other = next :=
    ((nextIs_iff schedulable).mp h).symm.trans hnext
  have runs_iff : (k.next .timer).Runs ↔ next = 0 ∨ (k.sched.tasks next).id ≠ 0 := by
    rw [next_timer preempts]
    simp only [Kernel.Runs, Scheduler.current, pass_sched, hnext, schedYield_id]
    rfl
  rw [runs_iff, next_timer preempts]
  constructor
  · intro preemptible other h
    obtain rfl := only other h
    by_contra fails
    simp only [not_or, not_and] at fails
    obtain ⟨switches, notTimer, isTask⟩ := fails
    have resumed : resumedAs (inHandler k) .timer ≠ .timer := by
      unfold resumedAs
      rw [hnext]
      exact fun timer => notTimer ((if_neg switches).symm.trans timer)
    have stuck := (pass_flags_of_not_timer resumed).1
    have cleared := (preemptible (or_iff_not_imp_left.mpr isTask)).1
    rw [stuck] at cleared
    cases cleared
  · intro resumes isTask
    apply pass_preemptible_of_timer
    unfold resumedAs
    rw [hnext]
    split
    · rfl
    · rename_i switches
      rcases resumes next chosen with stays | timer | ⟨nonzero, zeroed⟩
      · exact absurd stays switches
      · exact timer
      · rcases isTask with zero | isTask
        · exact absurd zero nonzero
        · exact absurd zeroed isTask

lemma Entry.preemptible (h : Entry k e entered how) (notTimer : e ≠ .timer)
    (before : Preemptible k) : Preemptible entered := by
  cases h with
  | timer => exact absurd rfl notTimer
  | yield | sleep | wait | exitYield | fault => exact before

/-- The kernel is in order, and preemptible while a task executes. -/
def PreemptionOk (k : Kernel) : Prop := k.Ok ∧ (k.Runs → Preemptible k)

lemma PreemptionOk.step (inv : PreemptionOk k) (step : KernelStep k e k')
    (cond : e = .timer → k.preempts = true → ResumesInTimer k) : PreemptionOk k' := by
  have before := inv.2 step.runs
  refine ⟨inv.1.step step, fun runs => ?_⟩
  rcases step.cases inv.1 with ⟨entered, how, entry, rfl⟩ | ⟨-, quiet⟩
  · have entry := entry_of_passEntry entry
    by_cases isTimer : e = .timer
    · subst isTimer
      cases entry with
      | timer preempts =>
        rw [step.result] at runs ⊢
        exact (timer_preemptible_iff inv.1 preempts).mpr (cond rfl preempts) runs
    · exact (entry.preemptible isTimer before).pass how
  · exact before.quiet quiet

/-- Preemption is never left switched off while a task executes with interrupts on, iff every timer
interrupt that calls the scheduler resumes a task inside the timer handler. -/
theorem preemption_stays_on_iff {boot : Kernel} {trace : List (StepOf Kernel KernelEvent)}
    (booted : KernelBooted boot) (run : Run KernelStep boot trace k) :
    (∀ st ∈ trace, st.post.Runs → st.post.intFlag = true → Preemptible st.post) ↔
      ∀ st ∈ trace, st.event = .timer → st.pre.preempts = true → ResumesInTimer st.pre := by
  constructor
  · intro on st member isTimer preempts
    have ok := kernel_ok (run.reachable_pre booted st member)
    have post : st.post = st.pre.next .timer := isTimer ▸ (run.step_of_mem st member).result
    refine (timer_preemptible_iff ok preempts).mp fun runs => ?_
    rw [← post] at runs ⊢
    refine on st member runs ?_
    rw [post, next_timer preempts, pass_intFlag]
  · intro resumes st member runs _
    have start : PreemptionOk boot := by
      obtain ⟨ticks, cr3, rsp0, rfl⟩ := booted
      exact ⟨.boot ticks cr3 rsp0, fun _ => ⟨rfl, rfl⟩⟩
    -- the invariant holds before each step, hence also after it
    have before := run.invariant_of_pre start (fun a e b inv step cond => inv.step step cond)
      resumes st member
    exact (before.step (run.step_of_mem st member) (resumes st member)).2 runs

theorem preemption_stays_on_iff_idle :
    Preemptible (((Kernel.boot 0 0 0).next .enablePreemption).next .timer) := by
  have follows : (Kernel.boot 0 0 0).Follows [.enablePreemption, .timer] := by decide +kernel
  refine (preemption_stays_on_iff ⟨0, 0, 0, rfl⟩ follows.run).mpr ?_ _
    (Kernel.step_mem _ [.enablePreemption] .timer []) (by decide +kernel) (by decide +kernel)
  rintro st member - -
  -- there is no second slot that could be chosen
  have one : st.pre.sched.taskCount = 1 ∧ st.pre.sched.currentTask = 0 := by
    simp only [Kernel.stepsOf, List.mem_cons, List.not_mem_nil, or_false] at member
    rcases member with rfl | rfl
    · exact ⟨rfl, rfl⟩
    · exact ⟨rfl, rfl⟩
  have ok := kernel_ok (follows.run.reachable_pre ⟨0, 0, 0, rfl⟩ st member)
  intro next chosen
  have := nextIs_lt ok.array.toSchedulable chosen
  exact .inl (by omega)

/-- A timer interrupt in the shell switches to the idle task, which yielded voluntarily and goes on
with interrupts enabled, `in_schedule` set and IRQ 0 in service. -/
theorem timer_leaves_preemption_off :
    ∃ trace k, Run KernelStep (Kernel.boot 0 0 0) trace k ∧
      k.Runs ∧ k.intFlag = true ∧ k.inSchedule = true ∧ k.irq0InService = true := by
  have follows : (Kernel.boot 0 0 0).Follows (Kernel.startShell ++ [.timer]) := by decide +kernel
  exact ⟨_, _, follows.run, by decide +kernel, by decide +kernel, by decide +kernel,
    by decide +kernel⟩

end MicroOs.Sched
