import MicroOs.Sched.Proofs.Reuse

/-!
# Creations that fail

`do_task_create` returns `NULL` when the array is full, and when `kmalloc` has no stack for the slot
it found, which it then clears. For a slot behind the last task nobody sees this; a dead slot becomes
a ready task of the highest priority without a stack, for `TASK_READY` and `PRIORITY_HIGH` are 0.
-/

namespace MicroOs.Sched
open Lib

/-- State, id and priority of the task in a slot, if there is one that is not dead. -/
def liveTask (s : Scheduler) (i : Nat) : Option (TaskState × Nat × Nat) :=
  if i < s.taskCount ∧ (s.tasks i).state ≠ .dead then
    some ((s.tasks i).state, (s.tasks i).id, (s.tasks i).priority)
  else none

/-- `pick_next` may choose the slot. -/
def Selectable (s : Scheduler) (i : Nat) : Prop := i < s.taskCount ∧ (s.tasks i).state = .ready

/-- For scheduling purposes `s'` is as `s`. -/
structure SchedulesAlike (s s' : Scheduler) : Prop where
  live : ∀ i, liveTask s' i = liveTask s i
  pick : ∀ now, pickReady (prepare now s') = pickReady (prepare now s)
  stackless : ∀ i, i ≠ 0 → Selectable s' i → (s'.tasks i).stackBase = 0 → Selectable s i

/-- No slot below `task_count` is dead and without a stack. -/
def NoReusableSlot (s : Scheduler) : Prop := ∀ i, ¬ CleanedSlot s i

structure SameBelow (s s' : Scheduler) : Prop where
  taskCount : s'.taskCount = s.taskCount
  currentTask : s'.currentTask = s.currentTask
  tasks : ∀ i, i < s.taskCount → s'.tasks i = s.tasks i

variable {s s' : Scheduler} {slot now : Nat}

section
variable (same : SameBelow s s')
include same

lemma SameBelow.symm : SameBelow s' s where
  taskCount := same.taskCount.symm
  currentTask := same.currentTask.symm
  tasks i below := (same.tasks i (same.taskCount ▸ below)).symm

lemma SameBelow.reapable {i : Nat} (reaps : Reapable s i) : Reapable s' i := by
  obtain ⟨pos, below, dead, other⟩ := reaps
  refine ⟨pos, ?_, ?_, ?_⟩
  · rwa [same.taskCount]
  · rwa [same.tasks i below]
  · rwa [same.currentTask]

lemma SameBelow.notifiedBy {i j : Nat} (notified : NotifiedBy s j i) : NotifiedBy s' j i := by
  obtain ⟨reaps, below, blocked, waits⟩ := notified
  refine ⟨same.reapable reaps, ?_, ?_, ?_⟩
  · rwa [same.taskCount]
  · rwa [same.tasks j below]
  · rwa [same.tasks j below, same.tasks i reaps.2.1]

lemma SameBelow.readyAfterWake {j : Nat} (ready : ReadyAfterWake now s j) :
    ReadyAfterWake now s' j := by
  have below := ready.lt_taskCount
  have task := same.tasks j below
  rcases ready with ⟨-, ready⟩ | ⟨-, sleeping, due⟩ | ⟨i, notified⟩
  · exact .inl ⟨same.taskCount ▸ below, task ▸ ready⟩
  · exact .inr (.inl ⟨same.taskCount ▸ below, task ▸ sleeping, task ▸ due⟩)
  · exact .inr (.inr ⟨i, same.notifiedBy notified⟩)

lemma SameBelow.readyAfterWake_iff (j : Nat) : ReadyAfterWake now s' j ↔ ReadyAfterWake now s j :=
  ⟨same.symm.readyAfterWake, same.readyAfterWake⟩

lemma SameBelow.pickAt_prepare (now priority : Nat) :
    pickAt (prepare now s') priority = pickAt (prepare now s) priority := by
  simp only [pickAt, prepare_taskCount, prepare_currentTask, same.taskCount, same.currentTask,
    ← List.head?_filter]
  congr 1
  refine List.filter_congr fun idx member => ?_
  obtain ⟨i, range, rfl⟩ := List.mem_map.mp member
  have inside := List.mem_range'_1.mp range
  have below : (s.currentTask + i) % s.taskCount < s.taskCount := Nat.mod_lt _ (by omega)
  have below' : (s.currentTask + i) % s.taskCount < s'.taskCount := same.taskCount ▸ below
  refine decide_eq_decide.mpr ?_
  rw [(prepare_task now s _).ready_iff below, (prepare_task now s' _).ready_iff below',
    prepare_priority, prepare_priority, same.readyAfterWake_iff, same.tasks _ below]

lemma SameBelow.schedulesAlike : SchedulesAlike s s' where
  live i := by
    unfold liveTask
    rw [same.taskCount]
    by_cases below : i < s.taskCount
    · rw [same.tasks i below]
    · rw [if_neg (fun h => below h.1), if_neg (fun h => below h.1)]
  pick now := by
    unfold pickReady
    rw [funext (same.pickAt_prepare now)]
  stackless i _ selectable _ := by
    obtain ⟨below, ready⟩ := selectable
    rw [same.taskCount] at below
    exact ⟨below, same.tasks i below ▸ ready⟩

end

lemma doTaskCreate_failed {args : CreateArgs} {stack : Nat}
    (failed : (doTaskCreate s args stack).1 = none) :
    (findSlot s = none ∧ (doTaskCreate s args stack).2 = s) ∨
      ∃ slot, findSlot s = some slot ∧
        (doTaskCreate s args stack).2 = s.modify slot fun _ => .zero := by
  unfold doTaskCreate at failed ⊢
  cases found : findSlot s with
  | none => exact .inl ⟨rfl, rfl⟩
  | some slot =>
    by_cases empty : stack = 0
    · refine .inr ⟨slot, rfl, ?_⟩
      simp only [createStack, if_pos empty]
    · simp [found, empty] at failed

lemma sameBelow_modify (behind : s.taskCount ≤ slot) (f : Task → Task) :
    SameBelow s (s.modify slot f) :=
  ⟨rfl, rfl, fun _ below => Function.update_of_ne (by omega) _ _⟩

lemma not_schedulesAlike_cleared (below : slot < s.taskCount)
    (dead : (s.tasks slot).state = .dead) : ¬ SchedulesAlike s (s.modify slot fun _ => .zero) := by
  intro alike
  have live := alike.live slot
  simp [liveTask, Scheduler.modify, Task.zero, below, dead] at live

lemma doTaskCreate_failed_iff {args : CreateArgs} {stack : Nat}
    (failed : (doTaskCreate s args stack).1 = none) :
    SchedulesAlike s (doTaskCreate s args stack).2 ↔ NoReusableSlot s := by
  rw [NoReusableSlot, ← deadSlot_eq_none]
  obtain ⟨full, same⟩ | ⟨slot, found, cleared⟩ := doTaskCreate_failed failed
  · rw [same]
    refine iff_of_true (SameBelow.schedulesAlike ⟨rfl, rfl, fun _ _ => rfl⟩) ?_
    unfold findSlot at full
    split at full
    · cases full
    · assumption
  · rw [cleared]
    unfold findSlot at found
    cases dead : deadSlot s with
    | none =>
      simp only [dead] at found
      split at found
      · cases found
      · cases found
        exact iff_of_true (sameBelow_modify (Nat.le_refl _) _).schedulesAlike rfl
    | some slot' =>
      simp only [dead, Option.some.injEq] at found
      subst found
      obtain ⟨⟨-, below, isDead, -⟩, -⟩ := deadSlot_eq_some.mp dead
      exact iff_of_false (not_schedulesAlike_cleared below isDead) (by simp)

/-- After a creation that returns `NULL`, the scheduler is as before for scheduling purposes if and
only if there was no dead slot to use again. -/
theorem failed_create_schedules_alike_iff (s : Scheduler) (name : String) (entry stack : Nat) :
    ((taskCreate s name entry stack).1 = none →
      (SchedulesAlike s (taskCreate s name entry stack).2 ↔ NoReusableSlot s)) ∧
    ∀ priority : Int, (taskCreatePrio s name entry priority stack).1 = none →
      (SchedulesAlike s (taskCreatePrio s name entry priority stack).2 ↔ NoReusableSlot s) :=
  ⟨doTaskCreate_failed_iff, fun _ => doTaskCreate_failed_iff⟩

theorem failed_create_schedules_alike_iff_init :
    (taskCreate (schedInit 0 0) "shell" 0x400000 0).1 = none ∧
      (SchedulesAlike (schedInit 0 0) (taskCreate (schedInit 0 0) "shell" 0x400000 0).2 ↔
        NoReusableSlot (schedInit 0 0)) :=
  ⟨by decide, (failed_create_schedules_alike_iff (schedInit 0 0) "shell" 0x400000 0).1 (by decide)⟩

def oneExited : Scheduler :=
  prepare 0 ((taskCreate (schedInit 0 0) "init" 0x400000 0x2000).2.setState 1 .dead)

/-- With no memory for a stack, the creation of another task makes `pick_next` return slot 1, which
has no stack. -/
theorem failed_create_readies_slot :
    (taskCreate oneExited "shell" 0x400000 0).1 = none ∧
      pickReady (prepare 0 oneExited) = 0 ∧
      pickReady (prepare 0 (taskCreate oneExited "shell" 0x400000 0).2) = 1 ∧
      ((taskCreate oneExited "shell" 0x400000 0).2.tasks 1).stackBase = 0 ∧
      ¬ SchedulesAlike oneExited (taskCreate oneExited "shell" 0x400000 0).2 :=
  ⟨by decide, by decide, by decide, by decide, fun alike => absurd (alike.pick 0) (by decide)⟩

end MicroOs.Sched
