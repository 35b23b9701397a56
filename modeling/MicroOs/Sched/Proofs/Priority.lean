import MicroOs.Sched.Proofs.Invariant

/-!
# Priorities

`pick_next` looks at the tasks that are `READY` while the outgoing task is still `RUNNING`, and
`sched_yield` marks the outgoing task `READY` afterwards. So the chosen task has the highest
priority among all ready tasks unless the outgoing task is running and outranks every other one.
-/

namespace MicroOs.Sched
open Lib

variable {s : Scheduler} {now : Nat}

/-- No ready task has a strictly higher priority, which is a smaller number, than the current
task. -/
def TopPriority (s : Scheduler) : Prop :=
  ∀ j, j < s.taskCount → (s.tasks j).state = .ready → ¬ (s.tasks j).priority < s.current.priority

/-- The current task is running and outranks whatever a pass can choose: every task that is ready
or about to be woken, and task 0 when there is none. -/
def OutranksReady (now : Nat) (s : Scheduler) : Prop :=
  s.current.state = .running ∧
  (∀ j, ReadyAfterWake now s j → s.current.priority < (s.tasks j).priority) ∧
  ((∀ j, ¬ ReadyAfterWake now s j) → s.current.priority < (s.tasks 0).priority)

lemma outranksReady_iff {next : Nat} (chosen : NextIs now s next) :
    OutranksReady now s ↔
      s.current.state = .running ∧ s.current.priority < (s.tasks next).priority := by
  unfold OutranksReady
  refine and_congr_right fun _ => ?_
  rcases chosen with ⟨ready, first⟩ | ⟨noneReady, rfl⟩
  · constructor
    · exact fun outranks => outranks.1 next ready
    · intro higher
      refine ⟨fun j hj => ?_, fun noneReady => absurd ready (noneReady next)⟩
      rcases first j hj with lower | ⟨same, -⟩
      · exact Nat.lt_trans higher lower
      · exact Nat.lt_of_lt_of_eq higher same
  · constructor
    · exact fun outranks => outranks.2 noneReady
    · exact fun higher => ⟨fun j hj => absurd hj (noneReady j), fun _ => higher⟩

lemma NextIs.priority_le {next j : Nat} (chosen : NextIs now s next)
    (ready : ReadyAfterWake now s j) : (s.tasks next).priority ≤ (s.tasks j).priority := by
  rcases chosen with ⟨-, first⟩ | ⟨noneReady, -⟩
  · rcases first j ready with lower | ⟨same, -⟩
    · exact Nat.le_of_lt lower
    · exact Nat.le_of_eq same
  · exact absurd ready (noneReady j)

lemma schedYield_priority (now : Nat) (s : Scheduler) (j : Nat) :
    ((schedYield now s).tasks j).priority = (s.tasks j).priority := by
  rw [schedYield_record]

lemma topPriority_schedYield (ok : Schedulable s) :
    TopPriority (schedYield now s) ↔ ¬ OutranksReady now s := by
  obtain ⟨next, hnext⟩ : ∃ next, (schedYield now s).currentTask = next := ⟨_, rfl⟩
  have chosen : NextIs now s next := (nextIs_iff ok).mpr hnext
  have state (j : Nat) : ((schedYield now s).tasks j).state =
      handover s.currentTask next j ((prepare now s).tasks j).state := by
    rw [schedYield_tasks, hnext]
  rw [outranksReady_iff chosen]
  unfold TopPriority Scheduler.current
  simp only [schedYield_priority, schedYield_taskCount, hnext]
  constructor
  · -- the outgoing task has become ready
    rintro top ⟨running, higher⟩
    have switched : ¬ next = s.currentTask := by
      rintro rfl
      exact Nat.lt_irrefl _ higher
    refine top s.currentTask ok.current_lt ?_ higher
    rw [state, prepare_running_iff.mpr running]
    simp [handover, switched, Ne.symm switched]
  · intro notHigher j hj ready
    rw [Nat.not_lt]
    rw [state] at ready
    unfold handover at ready
    split at ready
    · exact chosen.priority_le (((prepare_task now s j).ready_iff hj).mp ready)
    · split at ready
      · cases ready
      · split at ready
        · rename_i outgoing
          obtain ⟨rfl, running⟩ := outgoing
          exact Nat.le_of_not_lt fun higher => notHigher ⟨prepare_running_iff.mp running, higher⟩
        · exact chosen.priority_le (((prepare_task now s j).ready_iff hj).mp ready)

/-- In every run, a pass installs a task that no ready task outranks iff it was not entered by a
running task that outranks whatever the pass can choose. -/
theorem pass_topPriority_iff {boot k : Kernel} {trace : List (StepOf Kernel KernelEvent)}
    (booted : KernelBooted boot) (run : Run KernelStep boot trace k) :
    ∀ st ∈ trace, ∀ entered how, st.pre.passEntry st.event = some (entered, how) →
      (TopPriority st.post.sched ↔ ¬ OutranksReady entered.ticks entered.sched) := by
  intro st member entered how entry
  have ok := kernel_ok (run.reachable_pre booted st member)
  have step := run.step_of_mem st member
  have entered_ok := ok.entry step.enabled (entry_of_passEntry entry)
  have post : st.post = entered.pass how := by
    rw [step.result, Kernel.next, entry]
  rw [post, pass_sched]
  exact topPriority_schedYield entered_ok.array.toSchedulable

def equalPriorities : List KernelEvent :=
  Kernel.startShell ++ Kernel.creates ⟨"worker", 0x2000, 0⟩ 0x20000

theorem pass_topPriority_iff_equal_priorities :
    TopPriority (((Kernel.boot 0 0 0).after equalPriorities).next .yield).sched := by
  have follows : (Kernel.boot 0 0 0).Follows (equalPriorities ++ [.yield]) := by decide +kernel
  have iff := pass_topPriority_iff ⟨0, 0, 0, rfl⟩ follows.run _
    (Kernel.step_mem _ equalPriorities .yield []) _ _ rfl
  refine iff.mpr ?_
  rintro ⟨-, outranks, -⟩
  exact absurd (outranks 2 (.inl (by decide +kernel))) (by decide +kernel)

/-- A timer interrupt in the shell, the only task besides the idle task, installs the idle task
and leaves the shell ready, which has a higher priority. -/
theorem timer_installs_idle_over_shell :
    ∃ trace k, Run KernelStep (Kernel.boot 0 0 0) trace k ∧
      ∃ st ∈ trace, (st.pre.passEntry st.event).isSome ∧ ¬ TopPriority st.post.sched := by
  have follows : (Kernel.boot 0 0 0).Follows (Kernel.startShell ++ [.timer]) := by decide +kernel
  refine ⟨_, _, follows.run, _, Kernel.step_mem _ Kernel.startShell .timer [], ?_, ?_⟩
  · decide +kernel
  · intro top
    exact top 1 (by decide +kernel) (by decide +kernel) (by decide +kernel)

end MicroOs.Sched
