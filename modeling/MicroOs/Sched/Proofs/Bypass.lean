import MicroOs.Sched.Proofs.Invariant

/-!
# How often a ready task is passed over

While a task of the best priority waits for its turn, every choice of `pick_next` lies between the
current task and the waiting one in the cyclic order. So no slot is chosen twice, also when the array
grows and slots are reused in between.
-/

namespace MicroOs.Sched
open Lib List

variable {k k' : Kernel} {goal : Nat} {trace : List (StepOf Kernel KernelEvent)}

/-- The slot that a step has chosen, if it is a scheduling decision. -/
def decision (st : StepOf Kernel KernelEvent) : Option Nat :=
  if (st.pre.passEntry st.event).isSome then some st.post.sched.currentTask else none

/-- If the step is a scheduling decision, then the task of slot `goal` is ready by the time of the
choice, no ready task has a higher priority, and another one is chosen. -/
def PassedOver (goal : Nat) (st : StepOf Kernel KernelEvent) : Prop :=
  ∀ entered how, st.pre.passEntry st.event = some (entered, how) →
    ReadyAfterWake entered.ticks entered.sched goal ∧
    (∀ j, ReadyAfterWake entered.ticks entered.sched j →
      (entered.sched.tasks goal).priority ≤ (entered.sched.tasks j).priority) ∧
    st.post.sched.currentTask ≠ goal

lemma turn_lt_of_passed {s : Scheduler} {now next : Nat} (ok : Schedulable s)
    (chosen : NextIs now s next) (ready : ReadyAfterWake now s goal)
    (top : ∀ j, ReadyAfterWake now s j → (s.tasks goal).priority ≤ (s.tasks j).priority)
    (other : next ≠ goal) :
    turn s.taskCount s.currentTask next < turn s.taskCount s.currentTask goal := by
  rcases chosen with ⟨nextReady, first⟩ | ⟨none, -⟩
  · have not_higher := top next nextReady
    rcases first goal ready with higher | ⟨-, earlier⟩
    · exact absurd higher (Nat.not_lt.mpr not_higher)
    · refine Nat.lt_of_le_of_ne earlier fun same => other ?_
      exact turn_injective ok.current_lt nextReady.lt_taskCount ready.lt_taskCount same
  · exact absurd ready (none goal)

lemma PassedOver.moves {st : StepOf Kernel KernelEvent} (passed : PassedOver goal st)
    (ok : st.pre.Ok) (step : KernelStep st.pre st.event st.post)
    (pass : (st.pre.passEntry st.event).isSome) :
    pastGoal maxTasks goal st.pre.sched.currentTask <
      pastGoal maxTasks goal st.post.sched.currentTask := by
  obtain ⟨⟨entered, how⟩, entry⟩ := Option.isSome_iff_exists.mp pass
  obtain ⟨ready, top, other⟩ := passed entered how entry
  have entry_ := entry_of_passEntry entry
  have array := (ok.entry step.enabled entry_).array
  have post : st.post.sched.currentTask =
      (schedYield entered.ticks entered.sched).currentTask := by
    rw [step.result, Kernel.next, entry]
    exact congrArg Scheduler.currentTask (pass_sched entered how)
  have chosen := (nextIs_iff array.toSchedulable).mpr post.symm
  rw [← entry_.currentTask]
  exact pastGoal_lt array.current_lt ready.lt_taskCount array.count_le
    (turn_lt_of_passed array.toSchedulable chosen ready top other)

/-- The slots chosen so far come in the order of the scan, up to the current task. -/
structure InOrder (goal : Nat) (chosen : List Nat) (k : Kernel) : Prop where
  sorted : chosen.Pairwise fun a b => pastGoal maxTasks goal a < pastGoal maxTasks goal b
  upTo : ∀ a ∈ chosen,
    pastGoal maxTasks goal a ≤ pastGoal maxTasks goal k.sched.currentTask
  inArray : ∀ a ∈ chosen, a < maxTasks

lemma InOrder.step {e : KernelEvent} {chosen : List Nat} (h : InOrder goal chosen k) (ok : k.Ok)
    (step : KernelStep k e k') (passed : PassedOver goal ⟨k, e, k'⟩) :
    InOrder goal (chosen ++ (decision ⟨k, e, k'⟩).toList) k' := by
  by_cases pass : (k.passEntry e).isSome
  · have moves := passed.moves ok step pass
    have ok' := (ok.step step).array
    have bound : k'.sched.currentTask < maxTasks := Nat.lt_of_lt_of_le ok'.current_lt ok'.count_le
    have new : decision ⟨k, e, k'⟩ = some k'.sched.currentTask := if_pos pass
    rw [new]
    refine ⟨pairwise_append.mpr ⟨h.sorted, pairwise_singleton _ _, ?_⟩, ?_, ?_⟩
    · intro a ha b hb
      obtain rfl := mem_singleton.mp hb
      exact Nat.lt_of_le_of_lt (h.upTo a ha) moves
    · intro a ha
      rcases mem_append.mp ha with ha | ha
      · exact Nat.le_of_lt (Nat.lt_of_le_of_lt (h.upTo a ha) moves)
      · obtain rfl := mem_singleton.mp ha
        exact Nat.le_refl _
    · intro a ha
      rcases mem_append.mp ha with ha | ha
      · exact h.inArray a ha
      · rw [mem_singleton.mp ha]
        exact bound
  · have none : decision ⟨k, e, k'⟩ = none := if_neg pass
    have same : k'.sched.currentTask = k.sched.currentTask := by
      rcases step.cases ok with ⟨entered, how, entry, -⟩ | ⟨-, quiet⟩
      · exact absurd (by rw [entry]; rfl) pass
      · exact quiet.currentTask
    rw [none, Option.toList_none, append_nil]
    exact ⟨h.sorted, same ▸ h.upTo, h.inArray⟩

lemma inOrder_of_run (start : k.Ok) (run : Run KernelStep k trace k')
    (passed : ∀ st ∈ trace, PassedOver goal st) :
    k'.Ok ∧ InOrder goal (trace.filterMap decision) k' := by
  induction run with
  | nil => exact ⟨start, .nil, by simp, by simp⟩
  | @snoc trace k₁ k₂ e run step ih =>
    obtain ⟨ok, order⟩ := ih fun st member => passed st (mem_append_left _ member)
    have last := passed _ (mem_append_right _ mem_cons_self)
    have new : [⟨k₁, e, k₂⟩].filterMap decision = (decision ⟨k₁, e, k₂⟩).toList := by
      cases h : decision ⟨k₁, e, k₂⟩ <;> simp [h]
    rw [filterMap_append, new]
    exact ⟨ok.step step, order.step ok step last⟩

/-- Along every run from a reachable state in which slot `goal` is passed over at every scheduling
decision although no ready task has a higher priority, no slot is chosen twice; so there are at most
`MAX_TASKS` decisions. -/
theorem passed_over_by_no_slot_twice (reachable : Reachable KernelBooted KernelStep k)
    (run : Run KernelStep k trace k') (passed : ∀ st ∈ trace, PassedOver goal st) :
    (trace.filterMap decision).Nodup ∧ (trace.filterMap decision).length ≤ maxTasks := by
  obtain ⟨-, order⟩ := inOrder_of_run (kernel_ok reachable) run passed
  have nodup : (trace.filterMap decision).Nodup :=
    order.sorted.imp fun {a b} lt (same : a = b) => by
      rw [same] at lt
      exact Nat.lt_irrefl _ lt
  refine ⟨nodup, ?_⟩
  have within : trace.filterMap decision ⊆ range maxTasks :=
    fun a ha => mem_range.mpr (order.inArray a ha)
  have length := (subperm_of_subset nodup within).length_le
  rwa [length_range] at length

def twoEquals : Kernel := (Kernel.boot 0 0 0).after
  (Kernel.creates ⟨"a", 0x1000, 1⟩ 0x10000 ++ Kernel.creates ⟨"b", 0x2000, 1⟩ 0x20000)

theorem passed_over_by_no_slot_twice_two_equals :
    PassedOver 2 ⟨twoEquals, .yield, twoEquals.next .yield⟩ ∧
    (twoEquals.stepsOf [.yield]).filterMap decision = [1] ∧
    ((twoEquals.stepsOf [.yield]).filterMap decision).Nodup ∧
    ((twoEquals.stepsOf [.yield]).filterMap decision).length ≤ maxTasks := by
  have created : (Kernel.boot 0 0 0).Follows
      (Kernel.creates ⟨"a", 0x1000, 1⟩ 0x10000 ++ Kernel.creates ⟨"b", 0x2000, 1⟩ 0x20000) := by
    decide +kernel
  have yields : twoEquals.Follows [.yield] := by decide +kernel
  have passed : PassedOver 2 ⟨twoEquals, .yield, twoEquals.next .yield⟩ := by
    rintro _ _ ⟨⟩
    refine ⟨.inl (by decide +kernel), fun j ready => ?_, by decide +kernel⟩
    have below : j < 3 := ready.lt_taskCount
    have all : ∀ j < 3, (twoEquals.sched.tasks 2).priority ≤ (twoEquals.sched.tasks j).priority := by
      decide +kernel
    exact all j below
  have every : ∀ st ∈ twoEquals.stepsOf [.yield], PassedOver 2 st := by
    intro st member
    rw [mem_singleton.mp member]
    exact passed
  exact ⟨passed, by decide +kernel,
    passed_over_by_no_slot_twice (created.run.reachable ⟨0, 0, 0, rfl⟩) yields.run every⟩

end MicroOs.Sched
