import MicroOs.Sched.Proofs.Stacks

/-!
# The fields of user tasks

`is_user`, `pml4` and `pending_slot` are stored by the functions that create user tasks. Nothing
else in the kernel changes them in a task that is alive.
-/

namespace MicroOs.Sched

variable {k k' entered : Kernel} {e : KernelEvent} {how : Resume} {s s' : Scheduler} {j slot : Nat}

/-- The slot has a task that is not dead. -/
def IsTask (s : Scheduler) (j : Nat) : Prop := (s.tasks j).state ≠ .dead ∧ (s.tasks j).id ≠ 0

/-- What the functions that create user tasks store in a task. -/
structure SameFields (t t' : Task) : Prop where
  isUser : t'.isUser = t.isUser
  pml4 : t'.pml4 = t.pml4
  pendingSlot : t'.pendingSlot = t.pendingSlot

/-- A task of the slot was there before, with the same fields. -/
def Steady (s s' : Scheduler) (j : Nat) : Prop :=
  IsTask s' j → IsTask s j ∧ SameFields (s.tasks j) (s'.tasks j)

lemma Steady.of_eq (same : s'.tasks j = s.tasks j) : Steady s s' j := by
  intro isTask
  unfold IsTask at isTask
  rw [same] at isTask ⊢
  exact ⟨isTask, rfl, rfl, rfl⟩

lemma Steady.of_not_task (h : ¬ IsTask s' j) : Steady s s' j := fun isTask => absurd isTask h

lemma Steady.modify {f : Task → Task}
    (state : (f (s.tasks slot)).state ≠ .dead → (s.tasks slot).state ≠ .dead)
    (sameId : (f (s.tasks slot)).id = (s.tasks slot).id)
    (fields : SameFields (s.tasks slot) (f (s.tasks slot))) (j : Nat) :
    Steady s (s.modify slot f) j := by
  by_cases isSlot : j = slot
  · subst isSlot
    intro isTask
    unfold IsTask at isTask
    rw [modify_tasks_self] at isTask ⊢
    exact ⟨⟨state isTask.1, sameId ▸ isTask.2⟩, fields⟩
  · exact .of_eq (modify_tasks_of_ne f isSlot)

lemma Entry.calm_task (entry : Entry k e entered how)
    (calm : j ≠ k.sched.currentTask ∨ e = .timer) : entered.sched.tasks j = k.sched.tasks j := by
  rcases calm with other | rfl
  · exact entry.other_tasks other
  · cases entry
    rfl

section
variable (array : ArrayOk entered.sched)
include array

lemma steady_pass (entry : Entry k e entered how)
    (calm : j ≠ k.sched.currentTask ∨ e = .timer) : Steady k.sched (entered.pass how).sched j := by
  have before := entry.calm_task calm
  rw [pass_sched]
  intro isTask
  have alive : (entered.sched.tasks j).state ≠ .dead :=
    fun dead => isTask.1 (array.yield_dead_iff.mpr dead)
  have isOne : (entered.sched.tasks j).id ≠ 0 := schedYield_id ▸ isTask.2
  rw [schedYield_record]
  rw [before] at alive isOne ⊢
  exact ⟨⟨alive, isOne⟩, rfl, rfl, rfl⟩

lemma isTask_pass (entry : Entry k e entered how)
    (calm : j ≠ k.sched.currentTask ∨ e = .timer) (isTask : IsTask k.sched j) :
    IsTask (entered.pass how).sched j := by
  have before := entry.calm_task calm
  unfold IsTask
  rw [pass_sched, schedYield_id, before]
  refine ⟨fun dead => isTask.1 ?_, isTask.2⟩
  rw [← before]
  exact array.yield_dead_iff.mp dead

lemma ArrayOk.next_alive (how : Resume) :
    ((entered.pass how).sched.tasks (entered.pass how).sched.currentTask).state ≠ .dead := by
  rw [pass_sched]
  intro dead
  exact array.not_nextIs_of_dead (array.yield_dead_iff.mp dead)
    ((nextIs_iff array.toSchedulable).mpr rfl)

end

lemma StackInv.not_isTask (inv : StackInv k)
    (slot_free : slot < k.sched.taskCount → (k.sched.tasks slot).state = .dead) :
    ¬ IsTask k.sched slot := by
  rintro ⟨alive, isOne⟩
  by_cases inUse : slot < k.sched.taskCount
  · exact alive (slot_free inUse)
  · rw [inv.ok.array.unused slot (Nat.le_of_not_lt inUse)] at isOne
    exact isOne rfl

lemma StackInv.steady_quiet (inv : StackInv k) (step : Quiet k e k')
    (notCommit : e ≠ .createCommit) (notUser : ∀ pml4 pendingSlot, e ≠ .createUser pml4 pendingSlot)
    (j : Nat) : Steady k.sched k'.sched j := by
  cases step with
  | timer | setInterrupts _ | enablePreemption | answered _ | noTarget _ _ | noSlot _ | signal _ _ _
  | ignore _ | find _ _ | done _ => exact .of_eq rfl
  | exit _ | kill _ _ =>
    simp only [exitCurrent, terminate]
    exact .modify (fun alive => absurd rfl alive) rfl ⟨rfl, rfl, rfl⟩ j
  | stop slot activity =>
    simp only [Scheduler.setState]
    exact .modify (fun _ => inv.calls.signalling slot 19 activity) rfl ⟨rfl, rfl, rfl⟩ j
  | stack slot args stack activity =>
    have notTask := inv.not_isTask (inv.calls.found slot args activity).2.1
    by_cases isSlot : j = slot
    · subst isSlot
      refine .of_not_task (fun isTask => notTask ?_)
      unfold IsTask at isTask
      rw [createStack_tasks, modify_tasks_self] at isTask
      split at isTask
      · exact absurd rfl isTask.2
      · exact isTask
    · refine .of_eq ?_
      simp only [createStack_tasks]
      exact modify_tasks_of_ne _ isSlot
  | commit slot args => exact absurd rfl notCommit
  | user slot pml4 pendingSlot => exact absurd rfl (notUser pml4 pendingSlot)

lemma CallsOk.modify {f : Task → Task} (h : CallsOk k)
    (state : (f (k.sched.tasks slot)).state = (k.sched.tasks slot).state)
    (stack : (f (k.sched.tasks slot)).stackBase = (k.sched.tasks slot).stackBase) :
    CallsOk { k with sched := k.sched.modify slot f } := by
  have sameState (j : Nat) : ((k.sched.modify slot f).tasks j).state = (k.sched.tasks j).state := by
    by_cases isSlot : j = slot
    · rw [isSlot, modify_tasks_self, state]
    · rw [modify_tasks_of_ne f isSlot]
  have sameStack := modify_stackBase (s := k.sched) stack
  refine ⟨h.mine, fun slot args activity => ?_, fun slot args activity => ?_,
    fun slot sig activity => ?_, fun j beyond hasStack => ?_⟩
  · rw [sameState, sameStack]
    exact h.found slot args activity
  · rw [sameState, sameStack]
    exact h.stacked slot args activity
  · rw [sameState]
    exact h.signalling slot sig activity
  · rw [sameStack] at hasStack
    exact h.unused j beyond hasStack

lemma StackInv.store {f : Task → Task} (inv : StackInv k) (slot_pos : 0 < slot)
    (slot_lt : slot < k.sched.taskCount)
    (fields : ∀ t, f t =
      { t with isUser := (f t).isUser, pml4 := (f t).pml4, pendingSlot := (f t).pendingSlot }) :
    StackInv { k with sched := k.sched.modify slot f } := by
  have same := fields (k.sched.tasks slot)
  have state : (f (k.sched.tasks slot)).state = (k.sched.tasks slot).state := by rw [same]
  have stack : (f (k.sched.tasks slot)).stackBase = (k.sched.tasks slot).stackBase := by rw [same]
  have sameId : (f (k.sched.tasks slot)).id = (k.sched.tasks slot).id := by rw [same]
  have array := inv.ok.array.modify slot_pos slot_lt sameId (by rw [same]) (by rw [same])
    (by rw [same]) (.inr state)
  refine ⟨inv.ok.withSched array (Nat.le_refl _), ?_, inv.calls.modify state stack⟩
  by_cases needs : NeedsStack k.sched slot
  · exact inv.slots.modify stack sameId (.inl needs)
  · exact inv.slots.modify stack sameId (.inr (state.trans (not_not.mp (not_or.mp needs).1)))

lemma StackInv.setRsp0 (inv : StackInv k) (rsp0 : Nat) (on : Bool) :
    StackInv { k with sched := { k.sched with rsp0 }, intFlag := on } where
  ok := ⟨⟨⟨inv.ok.array.current_lt, inv.ok.array.priority_lt⟩, inv.ok.array.count_le,
    inv.ok.array.idle_id, inv.ok.array.idle_state, inv.ok.array.unused, inv.ok.array.no_signals,
    inv.ok.array.id_lt, inv.ok.array.id_inj, inv.ok.array.running⟩, inv.ok.activities⟩
  slots := ⟨inv.slots.owns, inv.slots.keeps, inv.slots.holds⟩
  calls := ⟨inv.calls.mine, inv.calls.found, inv.calls.stacked, inv.calls.signalling,
    inv.calls.unused⟩

end MicroOs.Sched
