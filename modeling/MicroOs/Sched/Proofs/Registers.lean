import MicroOs.Sched.Proofs.Stacks

/-!
# CR3 and the interrupt stack

`sched_yield` writes CR3 only when the next task or the previous one has an address space of its
own, and RSP0 only when the next task is a user task with a stack. That the registers fit the
current task all the same is an invariant of whole runs.
-/

namespace MicroOs.Sched
open Lib

section Functions
variable {s s' : Scheduler} {now slot : Nat}

structure FitCurrent (s : Scheduler) : Prop where
  cr3 : s.cr3 = if s.current.pml4 ≠ 0 then s.current.pml4 else s.kernelPml4
  rsp0 : s.current.isUser = true → s.current.stackBase ≠ 0 →
    s.rsp0 = s.current.stackBase + taskStackSize

/-- The registers, and what they are loaded from, are the same. -/
structure SameLoaded (s s' : Scheduler) : Prop where
  cr3 : s'.cr3 = s.cr3
  rsp0 : s'.rsp0 = s.rsp0
  kernelPml4 : s'.kernelPml4 = s.kernelPml4
  pml4 : s'.current.pml4 = s.current.pml4
  isUser : s'.current.isUser = s.current.isUser
  stackBase : s'.current.stackBase = s.current.stackBase

lemma SameLoaded.refl (s : Scheduler) : SameLoaded s s := ⟨rfl, rfl, rfl, rfl, rfl, rfl⟩

lemma FitCurrent.same (h : FitCurrent s) (same : SameLoaded s s') : FitCurrent s' where
  cr3 := by
    rw [same.cr3, same.pml4, same.kernelPml4]
    exact h.cr3
  rsp0 := by
    rw [same.isUser, same.stackBase, same.rsp0]
    exact h.rsp0

lemma SameLoaded.modify_other (f : Task → Task) (other : slot ≠ s.currentTask) :
    SameLoaded s (s.modify slot f) := by
  have current : (s.modify slot f).current = s.current := modify_tasks_of_ne f other.symm
  exact ⟨rfl, rfl, rfl, by rw [current], by rw [current], by rw [current]⟩

lemma SameLoaded.modify {f : Task → Task} (pml4 : ∀ t, (f t).pml4 = t.pml4)
    (isUser : ∀ t, (f t).isUser = t.isUser) (stackBase : ∀ t, (f t).stackBase = t.stackBase) :
    SameLoaded s (s.modify slot f) := by
  by_cases other : slot = s.currentTask
  · subst other
    have current : (s.modify s.currentTask f).current = f s.current := modify_tasks_self f
    exact ⟨rfl, rfl, rfl, by rw [current, pml4], by rw [current, isUser],
      by rw [current, stackBase]⟩
  · exact .modify_other f other

lemma SameLoaded.trans {s'' : Scheduler} (h : SameLoaded s s') (h' : SameLoaded s' s'') :
    SameLoaded s s'' where
  cr3 := h'.cr3.trans h.cr3
  rsp0 := h'.rsp0.trans h.rsp0
  kernelPml4 := h'.kernelPml4.trans h.kernelPml4
  pml4 := h'.pml4.trans h.pml4
  isUser := h'.isUser.trans h.isUser
  stackBase := h'.stackBase.trans h.stackBase

lemma prepare_sameLoaded (now : Nat) (s : Scheduler) : SameLoaded s (prepare now s) := by
  have record := (prepare_task now s s.currentTask).record
  have kept : ((prepare now s).tasks s.currentTask).stackBase = (s.tasks s.currentTask).stackBase := by
    have prepared := prepare_task now s s.currentTask
    generalize (prepare now s).tasks s.currentTask = t at prepared
    cases prepared with
    | woken _ | notified _ _ => rfl
    | reaped reaps => exact absurd rfl reaps.2.2.2
    | kept notDue notNotified notReaped => rfl
  have current : (prepare now s).current = (prepare now s).tasks s.currentTask := by
    rw [Scheduler.current, prepare_currentTask]
  refine ⟨?_, ?_, ?_, ?_, ?_, ?_⟩
  · rw [prepare_rest]
  · rw [prepare_rest]
  · rw [prepare_rest]
  · rw [current, record]
    rfl
  · rw [current, record]
    rfl
  · rw [current, kept]
    rfl

section Install
variable {next : Nat}

section
variable (other : next ≠ s.currentTask)
include other

lemma installTask_current : (installTask s next).current =
    { s.tasks next with state := handover s.currentTask next next (s.tasks next).state } := by
  unfold installTask
  rw [loadCr3_rest, loadRsp0_rest, switchTo_rest]
  exact switchTo_tasks other next

lemma installTask_cr3 : (installTask s next).cr3 =
    if (s.tasks next).pml4 ≠ 0 then (s.tasks next).pml4
    else if s.current.pml4 ≠ 0 then s.kernelPml4
    else s.cr3 := by
  have pml4 (j : Nat) : ((loadRsp0 (switchTo s next) next).tasks j).pml4 = (s.tasks j).pml4 := by
    rw [loadRsp0_rest]
    simp only [switchTo_tasks other]
  have rest : (loadRsp0 (switchTo s next) next).kernelPml4 = s.kernelPml4 ∧
      (loadRsp0 (switchTo s next) next).cr3 = s.cr3 := by
    rw [loadRsp0_rest, switchTo_rest]
    exact ⟨rfl, rfl⟩
  unfold installTask loadCr3
  rw [pml4, pml4, rest.1]
  split
  · rfl
  · split
    · exact (if_pos ‹_›).symm
    · exact rest.2.trans (if_neg ‹_›).symm

lemma installTask_rsp0 : (installTask s next).rsp0 =
    if (s.tasks next).isUser = true ∧ (s.tasks next).stackBase ≠ 0 then
      (s.tasks next).stackBase + taskStackSize
    else s.rsp0 := by
  have before : (switchTo s next).rsp0 = s.rsp0 := by
    rw [switchTo_rest]
  unfold installTask
  rw [loadCr3_rest]
  show (loadRsp0 (switchTo s next) next).rsp0 = _
  unfold loadRsp0
  rw [switchTo_tasks other]
  split
  · rfl
  · exact before

end

lemma FitCurrent.install (h : FitCurrent s) (other : next ≠ s.currentTask) :
    FitCurrent (installTask s next) where
  cr3 := by
    have kernel : (installTask s next).kernelPml4 = s.kernelPml4 := by
      unfold installTask
      rw [loadCr3_rest, loadRsp0_rest, switchTo_rest]
    rw [installTask_current other, installTask_cr3 other, kernel]
    -- where neither task has an address space of its own, CR3 is the kernel's already
    have shared : s.current.pml4 = 0 → s.cr3 = s.kernelPml4 := fun none => by
      rw [h.cr3, if_neg (by simpa using none)]
    by_cases own : (s.tasks next).pml4 = 0
    · simp only [own, ne_eq, not_true_eq_false, if_false]
      split
      · rfl
      · exact shared (not_not.mp ‹_›)
    · simp [own]
  rsp0 := by
    rw [installTask_current other, installTask_rsp0 other]
    exact fun isUser hasStack => if_pos ⟨isUser, hasStack⟩

end Install

lemma FitCurrent.yield (h : FitCurrent s) : FitCurrent (schedYield now s) := by
  have prepared := h.same (prepare_sameLoaded now s)
  simp only [schedYield]
  split
  · exact prepared
  · rename_i other
    exact prepared.install other

end Functions

section Steps
variable {k k' entered : Kernel} {e : KernelEvent} {how : Resume}
  {trace : List (StepOf Kernel KernelEvent)}

/-- A caller of `do_task_create` waits for another task than itself to be completed. -/
def OtherReturned (k : Kernel) : Prop :=
  ∀ caller slot, k.inside caller = some (.returned slot) → slot ≠ caller

lemma createStack_sameLoaded {s : Scheduler} {slot : Nat} (stack : Nat)
    (other : slot ≠ s.currentTask) : SameLoaded s (createStack s slot stack) := by
  unfold createStack
  split
  · exact .modify_other _ other
  · exact (SameLoaded.modify_other (fun t => { t with stackBase := stack }) other).trans
      ⟨rfl, rfl, rfl, rfl, rfl, rfl⟩

lemma StackInv.quiet_sameLoaded (inv : StackInv k) (returned : OtherReturned k)
    (step : Quiet k e k') : SameLoaded k.sched k'.sched := by
  cases step with
  | exit _ | stop _ | kill _ _ =>
    simp only [exitCurrent, terminate, Scheduler.setState]
    exact .modify (fun _ => rfl) (fun _ => rfl) fun _ => rfl
  | stack slot args stack activity =>
    exact createStack_sameLoaded stack (inv.calls.found slot args activity).1
  | commit slot args activity =>
    have other := (inv.calls.stacked slot args activity).1
    exact (SameLoaded.modify_other _ other).trans ⟨rfl, rfl, rfl, rfl, rfl, rfl⟩
  | user slot pml4 pendingSlot activity =>
    dsimp only
    exact .modify_other _ (returned _ slot activity)
  | timer | setInterrupts _ | enablePreemption | answered _ | noTarget _ _ | noSlot _ | signal _ _ _
  | ignore _ | find _ _ | done _ => exact .refl _

lemma OtherReturned.setActivity (h : OtherReturned k) (new : Option Activity)
    (other : ∀ slot, new = some (.returned slot) → slot ≠ k.sched.currentTask) :
    OtherReturned (k.setActivity new) := by
  intro caller slot inside
  by_cases current : caller = k.sched.currentTask
  · rw [current] at inside ⊢
    exact other slot (by simpa [Kernel.setActivity] using inside)
  · apply h caller slot
    simpa [Kernel.setActivity, current] using inside

lemma StackInv.quiet_returned (inv : StackInv k) (returned : OtherReturned k)
    (step : Quiet k e k') : OtherReturned k' := by
  have set (new : Option Activity) (other : ∀ slot, new ≠ some (.returned slot)) :
      OtherReturned (k.setActivity new) :=
    returned.setActivity new fun slot h => absurd h (other slot)
  cases step with
  | timer | setInterrupts _ | enablePreemption | answered _ | noTarget _ _ | noSlot _ =>
    exact returned
  | exit _ => exact set (some .exiting) nofun
  | signal _ _ _ | find _ _ => exact set _ nofun
  | stop _ | ignore _ | kill _ _ | user _ _ _ | done _ => exact set none nofun
  | stack slot args stack =>
    refine set (if stack = 0 then none else some (.stacked slot args)) fun slot' => ?_
    split <;> simp
  | commit slot args activity =>
    have other := (inv.calls.stacked slot args activity).1
    have cleared : OtherReturned { k with inside := Function.update k.inside slot none } := by
      intro caller slot' inside
      by_cases new : caller = slot
      · simp [new] at inside
      · exact returned caller slot' (by simpa [new] using inside)
    refine cleared.setActivity (some (.returned slot)) fun slot' h => ?_
    cases h
    exact other

lemma Entry.sameLoaded (h : Entry k e entered how) : SameLoaded k.sched entered.sched := by
  cases h with
  | timer | yield | exitYield => exact .refl _
  | sleep _ | wait _ | fault =>
    simp only [sleepCurrent, blockCurrent, faultCurrent, Scheduler.setState]
    exact .modify (fun _ => rfl) (fun _ => rfl) fun _ => rfl

/-- The invariant of runs without a pass in the middle of a call. -/
structure RegistersInv (cr3 : Nat) (k : Kernel) : Prop where
  calls : StackInv k
  returned : OtherReturned k
  kernelPml4 : k.sched.kernelPml4 = cr3
  fit : FitCurrent k.sched

lemma RegistersInv.step {cr3 : Nat} (inv : RegistersInv cr3 k) (step : KernelStep k e k')
    (atomic : AtomicPass k e) : RegistersInv cr3 k' := by
  have calls := inv.calls.step step atomic
  rcases step.cases inv.calls.ok with ⟨entered, how, entry, rfl⟩ | ⟨-, quiet⟩
  · have entry := entry_of_passEntry entry
    refine ⟨calls, ?_, ?_, ?_⟩
    · intro caller slot inside
      rw [pass_inside, entry.inside] at inside
      exact inv.returned caller slot inside
    · rw [pass_sched, schedYield_rest]
      exact entry.sameLoaded.kernelPml4.trans inv.kernelPml4
    · rw [pass_sched]
      exact (inv.fit.same entry.sameLoaded).yield
  · have same := inv.calls.quiet_sameLoaded inv.returned quiet
    exact ⟨calls, inv.calls.quiet_returned inv.returned quiet,
      same.kernelPml4.trans inv.kernelPml4, inv.fit.same same⟩

lemma RegistersInv.boot (ticks cr3 rsp0 : Nat) :
    RegistersInv cr3 (Kernel.boot ticks cr3 rsp0) where
  calls := .boot ticks cr3 rsp0
  returned := nofun
  kernelPml4 := rfl
  fit := ⟨rfl, nofun⟩

/-- In every run in which `do_task_create` and `sched_send_signal` are atomic, after every step CR3
and RSP0 are those of the current task. -/
theorem registers_fit_current {ticks cr3 rsp0 : Nat}
    (run : Run KernelStep (Kernel.boot ticks cr3 rsp0) trace k)
    (atomic : ∀ st ∈ trace, AtomicPass st.pre st.event) :
    ∀ st ∈ trace,
      st.post.sched.cr3 =
        (if st.post.sched.current.pml4 ≠ 0 then st.post.sched.current.pml4 else cr3) ∧
      (st.post.sched.current.isUser = true → st.post.sched.current.stackBase ≠ 0 →
        st.post.sched.rsp0 = st.post.sched.current.stackBase + taskStackSize) := by
  intro st member
  have before := run.invariant_of_pre (RegistersInv.boot ticks cr3 rsp0)
    (fun _ _ _ inv step atomic => RegistersInv.step inv step atomic) atomic st member
  have after := before.step (run.step_of_mem st member) (atomic st member)
  have cr3 := after.fit.cr3
  rw [after.kernelPml4] at cr3
  exact ⟨cr3, after.fit.rsp0⟩

/-- `kernel_main` creates a user task with the address space `0x200000`. -/
def createUserTask : List KernelEvent :=
  [.createFind ⟨"user", 0x2000, 1⟩, .createStack 0x10000, .createCommit, .createUser 0x200000 0]

def userTaskRuns : Kernel := ((Kernel.boot 0 0x1000 0).after createUserTask).next .yield

theorem registers_fit_current_user_task :
    userTaskRuns.sched.currentTask = 1 ∧ userTaskRuns.sched.cr3 = 0x200000 ∧
      userTaskRuns.sched.rsp0 = 0x10000 + taskStackSize := by
  have follows : (Kernel.boot 0 0x1000 0).Follows (createUserTask ++ [.yield]) := by decide +kernel
  have between : ∀ st ∈ (Kernel.boot 0 0x1000 0).stepsOf (createUserTask ++ [.yield]),
      (st.pre.passEntry st.event).isSome → st.pre.activity.all (!·.inCall) = true := by
    decide +kernel
  have atomic := (StackInv.boot 0 0x1000 0).atomic_of_between follows between
  obtain ⟨cr3, rsp0⟩ := registers_fit_current follows.run atomic _
    (Kernel.step_mem _ createUserTask .yield [])
  have task : userTaskRuns.sched.current.pml4 = 0x200000 ∧
      userTaskRuns.sched.current.isUser = true ∧
      userTaskRuns.sched.current.stackBase = 0x10000 := by decide +kernel
  have loaded : userTaskRuns.sched.rsp0 = userTaskRuns.sched.current.stackBase + taskStackSize :=
    rsp0 task.2.1 (by rw [← userTaskRuns, task.2.2]; decide)
  have switched : userTaskRuns.sched.cr3 = if userTaskRuns.sched.current.pml4 ≠ 0 then
      userTaskRuns.sched.current.pml4 else 0x1000 := cr3
  rw [task.2.2] at loaded
  rw [task.1] at switched
  exact ⟨by decide +kernel, switched, loaded⟩

end Steps

end MicroOs.Sched
