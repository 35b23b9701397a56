import MicroOs.Sched.Proofs.Invariant

/-!
# Reuse of dead slots

`do_task_create` takes the first dead slot without a stack and sets some of its fields. The others
keep what the previous task of the slot left there: `is_user`, `pml4` and `wake_tick`, and the
signal fields, which no code ever changes.
-/

namespace MicroOs.Sched
open Lib

variable {s s₁ s₂ : Scheduler} {slot j : Nat} {args : CreateArgs} {stack : Nat}

/-- The slot holds a dead task that has been cleared up. -/
def CleanedSlot (s : Scheduler) (j : Nat) : Prop :=
  0 < j ∧ j < s.taskCount ∧ (s.tasks j).state = .dead ∧ (s.tasks j).stackBase = 0

def FirstCleaned (s : Scheduler) (slot : Nat) : Prop :=
  CleanedSlot s slot ∧ ∀ j, CleanedSlot s j → slot ≤ j

/-- Two states agree, in the slots in use, except in the fields of dead tasks that have been
cleared up. -/
structure AgreeButCleaned (s₁ s₂ : Scheduler) : Prop where
  taskCount : s₁.taskCount = s₂.taskCount
  currentTask : s₁.currentTask = s₂.currentTask
  nextId : s₁.nextId = s₂.nextId
  tasks : ∀ j < s₁.taskCount, s₁.tasks j = s₂.tasks j ∨ CleanedSlot s₁ j ∧ CleanedSlot s₂ j

/-- Two tasks are equal in the fields the kernel reads later. -/
structure SameToKernel (t₁ t₂ : Task) : Prop where
  isUser : t₁.isUser = t₂.isUser
  pml4 : t₁.pml4 = t₂.pml4
  sigPending : t₁.sigPending = t₂.sigPending
  sigHandlers : t₁.sigHandlers = t₂.sigHandlers
  wakeTick : t₁.wakeTick = t₂.wakeTick
  waitForId : t₁.waitForId = t₂.waitForId
  pendingSlot : t₁.pendingSlot = t₂.pendingSlot
  state : t₁.state = t₂.state
  priority : t₁.priority = t₂.priority

/-- The task runs in the kernel and in its address space. -/
def IsKernelTask (t : Task) : Prop := t.pml4 = 0 ∧ t.isUser = false

/-- What two tasks leave behind makes no difference to a kernel task that follows. -/
def Harmless (t₁ t₂ : Task) : Prop :=
  t₁.wakeTick = t₂.wakeTick ∧ IsKernelTask t₁ ∧ IsKernelTask t₂

lemma mem_deadSlot_range : j ∈ List.range' 1 (s.taskCount - 1) ↔ 0 < j ∧ j < s.taskCount := by
  rw [List.mem_range'_1]
  omega

lemma deadSlot_eq_some : deadSlot s = some slot ↔ FirstCleaned s slot := by
  unfold deadSlot
  rw [List.find?_range'_eq_some]
  simp only [decide_eq_true_eq, mem_deadSlot_range, Bool.not_eq_eq_eq_not, Bool.not_true,
    decide_eq_false_iff_not, not_and]
  constructor
  · rintro ⟨cleaned, range, earlier⟩
    refine ⟨⟨range.1, range.2, cleaned⟩, fun j other => ?_⟩
    by_contra before
    exact earlier j other.1 (by omega) other.2.2.1 other.2.2.2
  · rintro ⟨⟨pos, lt, cleaned⟩, first⟩
    refine ⟨cleaned, ⟨pos, lt⟩, fun j hj before dead noStack => ?_⟩
    have := first j ⟨hj, by omega, dead, noStack⟩
    omega

lemma deadSlot_eq_none : deadSlot s = none ↔ ∀ j, ¬ CleanedSlot s j := by
  unfold deadSlot
  simp only [List.find?_eq_none, mem_deadSlot_range, decide_eq_true_eq]
  constructor
  · rintro none j ⟨pos, lt, cleaned⟩
    exact none j ⟨pos, lt⟩ cleaned
  · rintro none j ⟨pos, lt⟩ cleaned
    exact none j ⟨pos, lt, cleaned⟩

section
variable (agree : AgreeButCleaned s₁ s₂)
include agree

lemma AgreeButCleaned.cleanedSlot : CleanedSlot s₁ j ↔ CleanedSlot s₂ j := by
  by_cases inUse : j < s₁.taskCount
  · rcases agree.tasks j inUse with same | ⟨h₁, h₂⟩
    · unfold CleanedSlot
      rw [agree.taskCount, same]
    · exact iff_of_true h₁ h₂
  · exact iff_of_false (fun h₁ => inUse h₁.2.1) (fun h₂ => inUse (agree.taskCount ▸ h₂.2.1))

lemma AgreeButCleaned.deadSlot : deadSlot s₁ = deadSlot s₂ := by
  cases h : Sched.deadSlot s₂ with
  | none =>
    rw [deadSlot_eq_none] at h ⊢
    exact fun j cleaned => h j (agree.cleanedSlot.mp cleaned)
  | some slot =>
    rw [deadSlot_eq_some] at h ⊢
    exact ⟨agree.cleanedSlot.mpr h.1, fun j cleaned => h.2 j (agree.cleanedSlot.mp cleaned)⟩

lemma AgreeButCleaned.findSlot : findSlot s₁ = findSlot s₂ := by
  unfold Sched.findSlot
  rw [agree.deadSlot, agree.taskCount]

end

lemma doTaskCreate_fst :
    (doTaskCreate s args stack).1 = if stack = 0 then none else findSlot s := by
  unfold doTaskCreate
  cases findSlot s with
  | none => simp
  | some slot =>
    simp only
    split <;> rfl

lemma doTaskCreate_task (found : findSlot s = some slot) (nonzero : stack ≠ 0) :
    (doTaskCreate s args stack).2.tasks slot =
      newTask (createStack s slot stack) args { s.tasks slot with stackBase := stack } := by
  simp only [doTaskCreate, found, nonzero, if_false, createCommit, modify_tasks_self]
  simp only [createStack, nonzero, if_false, modify_tasks_self]

lemma sameToKernel_newTask_iff (ok₁ : ArrayOk s₁) (ok₂ : ArrayOk s₂) (t₁ t₂ : Scheduler) :
    SameToKernel (newTask t₁ args { s₁.tasks slot with stackBase := stack })
        (newTask t₂ args { s₂.tasks slot with stackBase := stack }) ↔
      (s₁.tasks slot).isUser = (s₂.tasks slot).isUser ∧
        (s₁.tasks slot).pml4 = (s₂.tasks slot).pml4 ∧
        (s₁.tasks slot).wakeTick = (s₂.tasks slot).wakeTick := by
  have ⟨pending₁, handlers₁⟩ := ok₁.no_signals slot
  have ⟨pending₂, handlers₂⟩ := ok₂.no_signals slot
  simp only [newTask]
  constructor
  · exact fun same => ⟨same.isUser, same.pml4, same.wakeTick⟩
  · rintro ⟨isUser, pml4, wakeTick⟩
    exact ⟨isUser, pml4, pending₁.trans pending₂.symm, handlers₁.trans handlers₂.symm, wakeTick,
      rfl, rfl, rfl, rfl⟩

lemma isKernelTask_newTask (t : Task) :
    IsKernelTask (newTask s args { t with stackBase := stack }) ↔ IsKernelTask t := by
  simp only [newTask, IsKernelTask]

lemma harmless_of_unused (ok₁ : ArrayOk s₁) (ok₂ : ArrayOk s₂) (beyond₁ : s₁.taskCount ≤ slot)
    (beyond₂ : s₂.taskCount ≤ slot) : Harmless (s₁.tasks slot) (s₂.tasks slot) := by
  rw [ok₁.unused slot beyond₁, ok₂.unused slot beyond₂]
  exact ⟨rfl, ⟨rfl, rfl⟩, rfl, rfl⟩

/-- In two reachable states that agree except in cleared-up dead slots, `task_create` takes the same
slot and creates kernel tasks that are the same to the kernel, iff it fails for want of a stack or
the first cleared-up slot, if any, was left harmless in both. -/
theorem taskCreate_ignores_previous_iff {k₁ k₂ : Kernel}
    (reachable₁ : Reachable KernelBooted KernelStep k₁)
    (reachable₂ : Reachable KernelBooted KernelStep k₂) (agree : AgreeButCleaned k₁.sched k₂.sched)
    (args : CreateArgs) (stack : Nat) :
    ((doTaskCreate k₁.sched args stack).1 = (doTaskCreate k₂.sched args stack).1 ∧
      ∀ slot, (doTaskCreate k₁.sched args stack).1 = some slot →
        SameToKernel ((doTaskCreate k₁.sched args stack).2.tasks slot)
          ((doTaskCreate k₂.sched args stack).2.tasks slot) ∧
        IsKernelTask ((doTaskCreate k₁.sched args stack).2.tasks slot) ∧
        IsKernelTask ((doTaskCreate k₂.sched args stack).2.tasks slot)) ↔
    (stack ≠ 0 → ∀ slot, FirstCleaned k₁.sched slot →
      Harmless (k₁.sched.tasks slot) (k₂.sched.tasks slot)) := by
  have ok₁ := (kernel_ok reachable₁).array
  have ok₂ := (kernel_ok reachable₂).array
  have sameSlot := agree.findSlot
  simp only [doTaskCreate_fst, sameSlot, true_and]
  by_cases noStack : stack = 0
  · simp [noStack]
  simp only [noStack, if_false]
  -- for the slot that is taken, the two sides say the same
  have key (slot : Nat) (found : findSlot k₂.sched = some slot) :
      (SameToKernel ((doTaskCreate k₁.sched args stack).2.tasks slot)
          ((doTaskCreate k₂.sched args stack).2.tasks slot) ∧
        IsKernelTask ((doTaskCreate k₁.sched args stack).2.tasks slot) ∧
        IsKernelTask ((doTaskCreate k₂.sched args stack).2.tasks slot)) ↔
      Harmless (k₁.sched.tasks slot) (k₂.sched.tasks slot) := by
    rw [doTaskCreate_task (sameSlot.trans found) noStack, doTaskCreate_task found noStack,
      sameToKernel_newTask_iff ok₁ ok₂, isKernelTask_newTask, isKernelTask_newTask]
    constructor
    · rintro ⟨⟨-, -, wakeTick⟩, kernel₁, kernel₂⟩
      exact ⟨wakeTick, kernel₁, kernel₂⟩
    · rintro ⟨wakeTick, kernel₁, kernel₂⟩
      exact ⟨⟨kernel₁.2.trans kernel₂.2.symm, kernel₁.1.trans kernel₂.1.symm, wakeTick⟩,
        kernel₁, kernel₂⟩
  constructor
  · intro independent _ slot first
    have found : findSlot k₂.sched = some slot := by
      rw [← sameSlot]
      unfold findSlot
      rw [deadSlot_eq_some.mpr first]
    exact (key slot found).mp (independent slot found)
  · intro harmless slot found
    refine (key slot found).mpr ?_
    cases dead : deadSlot k₁.sched with
    | some reused =>
      have same : findSlot k₁.sched = some reused := by
        unfold findSlot
        rw [dead]
      obtain rfl : reused = slot := Option.some.inj (same.symm.trans (sameSlot.trans found))
      exact harmless noStack _ (deadSlot_eq_some.mp dead)
    | none =>
      -- no slot is reused, so the new one has never held a task
      have isCount : slot = k₁.sched.taskCount := by
        rw [← sameSlot] at found
        unfold findSlot at found
        rw [dead] at found
        simp only at found
        split at found
        · cases found
        · exact (Option.some.inj found).symm
      exact harmless_of_unused ok₁ ok₂ (Nat.le_of_eq isCount.symm)
        (Nat.le_of_eq (agree.taskCount.symm.trans isCount.symm))

/-- The idle task creates a task, the task runs and exits, and is cleared up; `last` ends the
creation. -/
def createAndExit (name : String) (last : KernelEvent) : List KernelEvent :=
  [.createFind ⟨name, 0x2000, 1⟩, .createStack 0x20000, .createCommit, last, .yield, .exit 0,
    .exitYield, .yield]

lemma agreeButCleaned_of_two (count₁ : s₁.taskCount = 2) (count₂ : s₂.taskCount = 2)
    (current : s₁.currentTask = s₂.currentTask) (nextId : s₁.nextId = s₂.nextId)
    (idle : s₁.tasks 0 = s₂.tasks 0) (cleaned₁ : CleanedSlot s₁ 1) (cleaned₂ : CleanedSlot s₂ 1) :
    AgreeButCleaned s₁ s₂ := by
  refine ⟨count₁.trans count₂.symm, current, nextId, fun j hj => ?_⟩
  rw [count₁] at hj
  interval_cases j
  · exact .inl idle
  · exact .inr ⟨cleaned₁, cleaned₂⟩

theorem taskCreate_ignores_previous_iff_renamed :
    SameToKernel
      ((doTaskCreate ((Kernel.boot 0 0 0).after (createAndExit "a" .createDone)).sched
        ⟨"job", 0x3000, 1⟩ 0x20000).2.tasks 1)
      ((doTaskCreate ((Kernel.boot 0 0 0).after (createAndExit "b" .createDone)).sched
        ⟨"job", 0x3000, 1⟩ 0x20000).2.tasks 1) := by
  have follows₁ : (Kernel.boot 0 0 0).Follows (createAndExit "a" .createDone) := by decide +kernel
  have follows₂ : (Kernel.boot 0 0 0).Follows (createAndExit "b" .createDone) := by decide +kernel
  have agree : AgreeButCleaned ((Kernel.boot 0 0 0).after (createAndExit "a" .createDone)).sched
      ((Kernel.boot 0 0 0).after (createAndExit "b" .createDone)).sched :=
    agreeButCleaned_of_two (by decide +kernel) (by decide +kernel) (by decide +kernel)
      (by decide +kernel) (by decide +kernel) (by unfold CleanedSlot; decide +kernel)
      (by unfold CleanedSlot; decide +kernel)
  have two : ((Kernel.boot 0 0 0).after (createAndExit "a" .createDone)).sched.taskCount = 2 := by
    decide +kernel
  have created := (taskCreate_ignores_previous_iff (follows₁.run.reachable ⟨0, 0, 0, rfl⟩)
    (follows₂.run.reachable ⟨0, 0, 0, rfl⟩) agree ⟨"job", 0x3000, 1⟩ 0x20000).mpr ?_
  · exact (created.2 1 (by decide +kernel)).1
  · intro _ slot first
    have pos := first.1.1
    have lt := Nat.lt_of_lt_of_eq first.1.2.1 two
    obtain rfl : slot = 1 := by omega
    unfold Harmless IsKernelTask
    decide +kernel

/-- A kernel task that takes the slot of a dead user task inherits its mode and its address
space. -/
theorem taskCreate_inherits_user_task :
    ∃ k₁ k₂, Reachable KernelBooted KernelStep k₁ ∧ Reachable KernelBooted KernelStep k₂ ∧
      AgreeButCleaned k₁.sched k₂.sched ∧
      ((doTaskCreate k₁.sched ⟨"job", 0x3000, 1⟩ 0x20000).2.tasks 1).isUser = false ∧
      ((doTaskCreate k₂.sched ⟨"job", 0x3000, 1⟩ 0x20000).2.tasks 1).isUser = true ∧
      ((doTaskCreate k₂.sched ⟨"job", 0x3000, 1⟩ 0x20000).2.tasks 1).pml4 = 0x5000 := by
  have follows₁ : (Kernel.boot 0 0 0).Follows (createAndExit "a" .createDone) := by decide +kernel
  have follows₂ : (Kernel.boot 0 0 0).Follows (createAndExit "b" (.createUser 0x5000 0)) := by
    decide +kernel
  refine ⟨_, _, follows₁.run.reachable ⟨0, 0, 0, rfl⟩, follows₂.run.reachable ⟨0, 0, 0, rfl⟩,
    agreeButCleaned_of_two ?_ ?_ ?_ ?_ ?_ ?_ ?_, ?_, ?_, ?_⟩
  all_goals
    try unfold CleanedSlot
    decide +kernel

end MicroOs.Sched
