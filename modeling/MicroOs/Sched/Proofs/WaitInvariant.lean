import MicroOs.Sched.Proofs.Stacks

/-!
# Tasks that wait for another task

The invariant of runs without a pass in the middle of a call, for `sched_wait`: a task that waits for
`X` is suspended in its call, and a slot still holds `X`. A dead slot is reused only without a stack,
and the pass that takes the stack away wakes all waiters.
-/

namespace MicroOs.Sched
open Lib
open Function (update update_of_ne update_self)

variable {args : CreateArgs} {i id j : Nat} {s : Scheduler}
variable {k k' entered : Kernel} {e : KernelEvent} {how : Resume} {slot : Nat}

/-- The task is blocked by `sched_wait`; one that is stopped by a signal has `wait_for_id` 0. -/
def Waits (s : Scheduler) (j : Nat) : Prop :=
  (s.tasks j).state = .blocked ∧ (s.tasks j).waitForId ≠ 0

/-- The slot holds the task `id`, and will do so until a pass clears it up. -/
def Awaitable (s : Scheduler) (id i : Nat) : Prop :=
  i < s.taskCount ∧ (s.tasks i).id = id ∧
    ((s.tasks i).state = .dead → (s.tasks i).stackBase ≠ 0)

structure WaitInv (k : Kernel) : Prop where
  base : StackInv k
  waiter : ∀ j, Waits k.sched j → j ≠ k.sched.currentTask ∧
    k.saved j = .yielded (.wait (k.sched.tasks j).waitForId) ∧
    ∃ i, Awaitable k.sched (k.sched.tasks j).waitForId i
  notWaiting : ∀ j, ((k.sched.tasks j).state ≠ .blocked ∧ (k.sched.tasks j).state ≠ .dead) ∨
    j = k.sched.currentTask → (k.sched.tasks j).waitForId = 0
  dead_id : ∀ i, (k.sched.tasks i).state = .dead → (k.sched.tasks i).id ≠ 0
  suspended : ∀ j id, k.saved j = .yielded (.wait id) → j ≠ k.sched.currentTask →
    (k.sched.tasks j).id ≠ 0 → (k.sched.tasks j).state ≠ .sleeping
  idle_saved : ∀ id, k.saved 0 ≠ .yielded (.wait id)
  stacked : ∀ slot args, k.activity = some (.stacked slot args) → ∀ j, Waits k.sched j →
    (k.sched.tasks j).waitForId ≠ (k.sched.tasks slot).id
  signalling : ∀ slot sig, k.activity = some (.signalling slot sig) →
    (k.sched.tasks slot).id ≠ 0

lemma WaitInv.boot (ticks cr3 rsp0 : Nat) : WaitInv (Kernel.boot ticks cr3 rsp0) := by
  have state (j : Nat) : ((Kernel.boot ticks cr3 rsp0).sched.tasks j).state = .running ∨
      ((Kernel.boot ticks cr3 rsp0).sched.tasks j).state = .ready := by
    simp only [Kernel.boot, schedInit]
    split
    · exact .inl rfl
    · exact .inr rfl
  have noWait (j : Nat) : ((Kernel.boot ticks cr3 rsp0).sched.tasks j).waitForId = 0 := by
    simp only [Kernel.boot, schedInit]
    split <;> rfl
  refine ⟨.boot ticks cr3 rsp0, fun j waits => absurd (noWait j) waits.2, fun j _ => noWait j,
    fun i dead => ?_, fun j id saved => ?_, fun id saved => ?_, fun slot args current => ?_,
    fun slot sig current => ?_⟩
  · rcases state i with h | h <;> simp [dead] at h
  · cases saved
  · cases saved
  · cases current
  · cases current

/-- A task is as before for those who wait, or it is killed or stopped. -/
def StateChange (k k' : Kernel) (j : Nat) : Prop :=
  (k'.sched.tasks j).id = (k.sched.tasks j).id ∧
  (k'.sched.tasks j).waitForId = (k.sched.tasks j).waitForId ∧
  (k'.sched.tasks j).stackBase = (k.sched.tasks j).stackBase ∧
  ((k'.sched.tasks j).state = (k.sched.tasks j).state ∨
    NeedsStack k.sched j ∧ (k.sched.tasks j).id ≠ 0 ∧
      ((k'.sched.tasks j).state = .dead ∨
        (k'.sched.tasks j).state = .blocked ∧ (k.sched.tasks j).waitForId = 0))

lemma StateChange.waits (change : StateChange k k' j) (waits : Waits k'.sched j) :
    Waits k.sched j := by
  obtain ⟨-, sameWait, -, same | ⟨-, -, dead | ⟨-, none⟩⟩⟩ := change
  · exact ⟨same ▸ waits.1, sameWait ▸ waits.2⟩
  · simp [waits.1] at dead
  · exact absurd (sameWait.trans none) waits.2

lemma StateChange.awaitable (inv : WaitInv k) (sameCount : k'.sched.taskCount = k.sched.taskCount)
    (change : StateChange k k' i) (awaitable : Awaitable k.sched id i) :
    Awaitable k'.sched id i := by
  obtain ⟨lt, sameTask, hasStack⟩ := awaitable
  obtain ⟨sameId, -, sameStack, state⟩ := change
  refine ⟨sameCount ▸ lt, sameId.trans sameTask, fun dead => ?_⟩
  rw [sameStack]
  rcases state with same | ⟨needs, isTask, -⟩
  · exact hasStack (same ▸ dead)
  · exact inv.base.slots.holds i needs isTask

lemma WaitInv.change (inv : WaitInv k) (base : StackInv k')
    (change : ∀ j, StateChange k k' j) (sameCurrent : k'.sched.currentTask = k.sched.currentTask)
    (sameCount : k'.sched.taskCount = k.sched.taskCount) (sameSaved : k'.saved = k.saved)
    (stacked : ∀ slot args, k'.activity ≠ some (.stacked slot args) ∨
      k.activity = some (.stacked slot args))
    (signalling : ∀ slot sig, k'.activity = some (.signalling slot sig) →
      (k'.sched.tasks slot).id ≠ 0) : WaitInv k' := by
  refine ⟨base, fun j waits => ?_, fun j cond => ?_, fun i dead => ?_,
    fun j id saved other isTask => ?_, fun id => ?_, fun slot args current j waits => ?_,
    signalling⟩
  · have waited := (change j).waits waits
    obtain ⟨other, saved, i, awaitable⟩ := inv.waiter j waited
    rw [sameCurrent, sameSaved, (change j).2.1]
    exact ⟨other, saved, i, (change i).awaitable inv sameCount awaitable⟩
  · rw [(change j).2.1]
    rw [sameCurrent] at cond
    obtain ⟨-, -, -, same | ⟨-, -, state⟩⟩ := change j
    · rw [same] at cond
      exact inv.notWaiting j cond
    · rcases cond with ⟨notBlocked, notDead⟩ | current
      · rcases state with dead | ⟨blocked, -⟩
        · exact absurd dead notDead
        · exact absurd blocked notBlocked
      · exact inv.notWaiting j (.inr current)
  · rw [(change i).1]
    obtain ⟨-, -, -, same | ⟨-, isTask, -⟩⟩ := change i
    · exact inv.dead_id i (same ▸ dead)
    · exact isTask
  · rw [sameSaved] at saved
    rw [sameCurrent] at other
    rw [(change j).1] at isTask
    obtain ⟨-, -, -, same | ⟨-, -, dead | ⟨blocked, -⟩⟩⟩ := change j
    · rw [same]
      exact inv.suspended j id saved other isTask
    · simp [dead]
    · simp [blocked]
  · rw [sameSaved]
    exact inv.idle_saved id
  · rw [(change j).2.1, (change slot).1]
    have before := (stacked slot args).resolve_left (not_not.mpr current)
    exact inv.stacked slot args before j ((change j).waits waits)

lemma stateChange_of_same (same : k'.sched.tasks j = k.sched.tasks j) : StateChange k k' j := by
  unfold StateChange
  rw [same]
  exact ⟨rfl, rfl, rfl, .inl rfl⟩

lemma WaitInv.sameSched (inv : WaitInv k) (base : StackInv k') (sched : k'.sched = k.sched)
    (saved : k'.saved = k.saved)
    (stacked : ∀ slot args, k'.activity ≠ some (.stacked slot args) ∨
      k.activity = some (.stacked slot args))
    (signalling : ∀ slot sig, k'.activity = some (.signalling slot sig) →
      (k.sched.tasks slot).id ≠ 0) : WaitInv k' :=
  inv.change base (fun _ => stateChange_of_same (by rw [sched])) (by rw [sched]) (by rw [sched])
    saved stacked (by rw [sched]; exact signalling)

lemma stateChange_of_modify {f : Task → Task}
    (change : k'.sched.tasks = (k.sched.modify slot f).tasks)
    (sameId : (f (k.sched.tasks slot)).id = (k.sched.tasks slot).id)
    (sameWait : (f (k.sched.tasks slot)).waitForId = (k.sched.tasks slot).waitForId)
    (sameStack : (f (k.sched.tasks slot)).stackBase = (k.sched.tasks slot).stackBase)
    (state : (f (k.sched.tasks slot)).state = (k.sched.tasks slot).state ∨
      NeedsStack k.sched slot ∧ (k.sched.tasks slot).id ≠ 0 ∧
        ((f (k.sched.tasks slot)).state = .dead ∨
          (f (k.sched.tasks slot)).state = .blocked ∧ (k.sched.tasks slot).waitForId = 0))
    (j : Nat) : StateChange k k' j := by
  by_cases hj : j = slot
  · subst hj
    unfold StateChange
    rw [change, modify_tasks_self]
    exact ⟨sameId, sameWait, sameStack, state⟩
  · exact stateChange_of_same (by rw [change, modify_tasks_of_ne f hj])

section
variable (inv : WaitInv k)
include inv

lemma WaitInv.slot_idle (dead : slot < k.sched.taskCount → (k.sched.tasks slot).state = .dead) :
    (k.sched.tasks slot).state ≠ .blocked ∧ (k.sched.tasks slot).state ≠ .sleeping := by
  by_cases inUse : slot < k.sched.taskCount
  · simp [dead inUse]
  · rw [inv.base.ok.array.unused slot (Nat.le_of_not_lt inUse)]
    simp [Task.zero]

lemma WaitInv.not_awaited (dead : slot < k.sched.taskCount → (k.sched.tasks slot).state = .dead)
    (empty : (k.sched.tasks slot).stackBase = 0) (waits : Waits k.sched j) :
    (k.sched.tasks j).waitForId ≠ (k.sched.tasks slot).id := by
  obtain ⟨-, -, i, lt, sameTask, hasStack⟩ := inv.waiter j waits
  intro same
  obtain rfl : i = slot :=
    inv.base.ok.array.id_inj i slot (sameTask.trans same) (sameTask ▸ waits.2)
  exact hasStack (dead lt) empty

lemma WaitInv.replace (base : StackInv k') (slot_pos : 0 < slot)
    (others : ∀ j, j ≠ slot → k'.sched.tasks j = k.sched.tasks j)
    (sameSaved : ∀ j, j ≠ slot → k'.saved j = k.saved j)
    (sameCurrent : k'.sched.currentTask = k.sched.currentTask)
    (notCurrent : slot ≠ k.sched.currentTask) (grows : k.sched.taskCount ≤ k'.sched.taskCount)
    (notAwaited : ∀ j, Waits k.sched j → (k.sched.tasks j).waitForId ≠ (k.sched.tasks slot).id)
    (notBlocked : (k'.sched.tasks slot).state ≠ .blocked)
    (notWaiting : (k'.sched.tasks slot).state ≠ .dead → (k'.sched.tasks slot).waitForId = 0)
    (dead_id : (k'.sched.tasks slot).state = .dead → (k'.sched.tasks slot).id ≠ 0)
    (awake : (k'.sched.tasks slot).state ≠ .sleeping)
    (stacked : ∀ args other, k'.activity = some (.stacked other args) →
      other = slot ∧ (k'.sched.tasks slot).id = (k.sched.tasks slot).id)
    (signalling : ∀ other sig, k'.activity ≠ some (.signalling other sig)) : WaitInv k' := by
  have waited {j : Nat} (waits : Waits k'.sched j) : j ≠ slot ∧ Waits k.sched j := by
    have other : j ≠ slot := by
      rintro rfl
      exact notBlocked waits.1
    unfold Waits at waits
    rw [others j other] at waits
    exact ⟨other, waits⟩
  refine ⟨base, fun j waits => ?_, fun j cond => ?_, fun i dead => ?_,
    fun j id saved other isTask => ?_, fun id => ?_, fun other args current j waits => ?_,
    fun other sig current => absurd current (signalling other sig)⟩
  · have ⟨other, waits⟩ := waited waits
    obtain ⟨notCurrent', saved, i, lt, sameTask, hasStack⟩ := inv.waiter j waits
    have otherTarget : i ≠ slot := by
      rintro rfl
      exact notAwaited j waits sameTask.symm
    rw [others j other, sameCurrent, sameSaved j other]
    refine ⟨notCurrent', saved, i, Nat.lt_of_lt_of_le lt grows, ?_⟩
    rw [others i otherTarget]
    exact ⟨sameTask, hasStack⟩
  · by_cases hj : j = slot
    · subst hj
      rcases cond with ⟨-, notDead⟩ | current
      · exact notWaiting notDead
      · exact absurd (current.trans sameCurrent) notCurrent
    · rw [others j hj] at cond ⊢
      rw [sameCurrent] at cond
      exact inv.notWaiting j cond
  · by_cases hi : i = slot
    · subst hi
      exact dead_id dead
    · rw [others i hi] at dead ⊢
      exact inv.dead_id i dead
  · by_cases hj : j = slot
    · subst hj
      exact awake
    · rw [sameSaved j hj] at saved
      rw [sameCurrent] at other
      rw [others j hj] at isTask ⊢
      exact inv.suspended j id saved other isTask
  · rw [sameSaved 0 (Nat.ne_of_lt slot_pos)]
    exact inv.idle_saved id
  · have ⟨otherSlot, waits⟩ := waited waits
    obtain ⟨rfl, sameId⟩ := stacked args other current
    rw [others j otherSlot, sameId]
    exact notAwaited j waits

lemma WaitInv.gotStack (base : StackInv k') {stack : Nat}
    (found : k.activity = some (.found slot args))
    (sched : k'.sched = createStack k.sched slot stack) (saved : k'.saved = k.saved)
    (activity : k'.activity = if stack = 0 then none else some (.stacked slot args)) :
    WaitInv k' := by
  have ⟨notCurrent, dead, empty⟩ := inv.base.calls.found slot args found
  have slot_pos := (inv.base.ok.activity found).1
  have ⟨notBlocked, awake⟩ := inv.slot_idle dead
  have own : k'.sched.tasks slot =
      if stack = 0 then .zero else { k.sched.tasks slot with stackBase := stack } := by
    rw [sched, createStack_tasks, modify_tasks_self]
  refine inv.replace base slot_pos (fun j hj => ?_) (fun _ _ => by rw [saved])
    (by rw [sched, createStack_rest]) notCurrent (Nat.le_of_eq (by rw [sched, createStack_rest]))
    (fun j waits => inv.not_awaited dead empty waits) ?_ ?_ ?_ ?_ (fun args' other h => ?_)
    (fun other sig h => ?_)
  · rw [sched, createStack_tasks, modify_tasks_of_ne _ hj]
  · rw [own]
    split
    · simp [Task.zero]
    · exact notBlocked
  · rw [own]
    split
    · exact fun _ => rfl
    · exact fun notDead => inv.notWaiting slot (.inl ⟨notBlocked, notDead⟩)
  · rw [own]
    split
    · simp [Task.zero]
    · exact inv.dead_id slot
  · rw [own]
    split
    · simp [Task.zero]
    · exact awake
  · rw [activity] at h
    split at h
    · cases h
    · rename_i nonzero
      cases h
      exact ⟨rfl, by rw [own, if_neg nonzero]⟩
  · rw [activity] at h
    split at h <;> cases h

lemma WaitInv.committed (base : StackInv k') (stacked : k.activity = some (.stacked slot args))
    (sched : k'.sched = createCommit k.sched slot args)
    (saved : k'.saved = update k.saved slot .fresh)
    (activity : k'.activity = some (.returned slot)) : WaitInv k' := by
  have ⟨notCurrent, _, _⟩ := inv.base.calls.stacked slot args stacked
  have slot_pos := (inv.base.ok.activity stacked).1
  have own : k'.sched.tasks slot = newTask k.sched args (k.sched.tasks slot) := by
    rw [sched]
    exact modify_tasks_self _
  refine inv.replace base slot_pos (fun j hj => ?_) (fun j hj => ?_) (by rw [sched]; rfl) notCurrent
    ?_ (inv.stacked slot args stacked) ?_ ?_ ?_ ?_ (by simp [activity]) (by simp [activity])
  · rw [sched]
    exact modify_tasks_of_ne _ hj
  · rw [saved, update_of_ne hj]
  · simp only [sched, createCommit]
    split <;> omega
  all_goals simp [own, newTask]

end

lemma WaitInv.leave (inv : WaitInv k) (base : StackInv k') {new : Option Activity}
    (change : ∀ j, StateChange k k' j) (inside : k'.inside = (k.setActivity new).inside)
    (sameCurrent : k'.sched.currentTask = k.sched.currentTask)
    (sameCount : k'.sched.taskCount = k.sched.taskCount) (sameSaved : k'.saved = k.saved)
    (notInCall : new.all (!·.inCall) = true) : WaitInv k' := by
  have activity := activity_of_set inside sameCurrent
  refine inv.change base change sameCurrent sameCount sameSaved (fun slot args => .inl ?_)
    fun slot sig current => ?_
  · rw [activity]
    rintro rfl
    cases notInCall
  · rw [activity] at current
    subst current
    cases notInCall

lemma Kernel.current_id (runs : k.Runs) (notIdle : k.sched.currentTask ≠ 0) :
    (k.sched.tasks k.sched.currentTask).id ≠ 0 :=
  runs.resolve_left notIdle

lemma WaitInv.quiet (inv : WaitInv k) (base : StackInv k') (runs : k.Runs) (step : Quiet k e k') :
    WaitInv k' := by
  have same (sched : k'.sched = k.sched) (saved : k'.saved = k.saved)
      (inside : k'.inside = k.inside) : WaitInv k' := by
    have activity : k'.activity = k.activity := by
      unfold Kernel.activity
      rw [sched, inside]
    refine inv.sameSched base sched saved (fun slot args => ?_) ?_
    · rw [activity]
      exact (Classical.em _).symm
    · rw [activity]
      exact inv.signalling
  cases step with
  | timer | setInterrupts _ | enablePreemption | answered _ | noTarget _ _ | noSlot _ =>
    exact same rfl rfl rfl
  | ignore _ | find _ _ | done _ => exact inv.sameSched base rfl rfl (by simp) (by simp)
  | signal id sig slot _ nonzero target =>
    refine inv.sameSched base rfl rfl (by simp) fun other sig' current => ?_
    rw [setActivity_activity] at current
    cases current
    rw [(signalTarget_spec target).2.1]
    exact nonzero
  | exit code _ notIdle =>
    exact inv.leave base (stateChange_of_modify
      (f := fun t => { t with exitCode := code, state := .dead }) rfl rfl rfl rfl
      (.inr ⟨.inr rfl, k.current_id runs notIdle, .inl rfl⟩)) rfl rfl rfl rfl rfl
  | stop slot activity =>
    have alive := inv.base.calls.signalling slot 19 activity
    refine inv.leave base (stateChange_of_modify (f := fun t => { t with state := .blocked })
      rfl rfl rfl rfl ?_) rfl rfl rfl rfl rfl
    by_cases blocked : (k.sched.tasks slot).state = .blocked
    · exact .inl blocked.symm
    · exact .inr ⟨.inl alive, inv.signalling slot 19 activity,
        .inr ⟨rfl, inv.notWaiting slot (.inl ⟨blocked, alive⟩)⟩⟩
  | kill slot sig activity =>
    exact inv.leave base (stateChange_of_modify
      (f := fun t => { t with exitCode := 128 + sig, state := .dead }) rfl rfl rfl rfl
      (.inr ⟨.inl (inv.base.calls.signalling slot sig activity),
        inv.signalling slot sig activity, .inl rfl⟩)) rfl rfl rfl rfl rfl
  | stack slot args stack activity =>
    exact inv.gotStack base activity rfl rfl (activity_of_set rfl (by rw [createStack_rest]))
  | commit slot args activity =>
    exact inv.committed base activity rfl rfl (activity_of_set rfl rfl)
  | user slot pml4 pendingSlot =>
    exact inv.leave base (stateChange_of_modify
      (f := fun t => { t with isUser := true, pml4, pendingSlot }) rfl rfl rfl rfl (.inl rfl))
      rfl rfl rfl rfl rfl

section Pass

variable {s : Scheduler} {now j : Nat}

/-- A task that is blocked or asleep after a pass was so before, and nobody it waits for was found
dead. -/
lemma yield_waits {x : TaskState} (waits : x ≠ .running ∧ x ≠ .ready ∧ x ≠ .dead)
    (state : ((schedYield now s).tasks j).state = x) :
    (s.tasks j).state = x ∧ (∀ i, ¬ NotifiedBy s j i) ∧
      ((schedYield now s).tasks j).waitForId = (s.tasks j).waitForId := by
  obtain ⟨notRunning, notReady, notDead⟩ := waits
  rw [schedYield_tasks] at state ⊢
  have prepared := prepare_task now s j
  have before : ((prepare now s).tasks j).state = x := by
    rcases handover_cases s.currentTask (schedYield now s).currentTask j
      ((prepare now s).tasks j).state with same | running | ⟨ready, -⟩
    · exact same.symm.trans state
    · exact absurd (state.symm.trans running) notRunning
    · exact absurd (state.symm.trans ready) notReady
  generalize (prepare now s).tasks j = t at prepared before
  cases prepared with
  | woken _ | notified _ _ => exact absurd before.symm notReady
  | reaped reaps => exact absurd (before.symm.trans reaps.2.2.1) notDead
  | kept notDue notNotified notReaped => exact ⟨before, notNotified, rfl⟩

lemma ArrayOk.not_nextIs_of_blocked (ok : ArrayOk s) (blocked : (s.tasks j).state = .blocked)
    (notNotified : ∀ i, ¬ NotifiedBy s j i) : ¬ NextIs now s j := by
  rintro (⟨⟨-, ready⟩ | due | ⟨i, notified⟩, -⟩ | ⟨-, rfl⟩)
  · simp [blocked] at ready
  · exact absurd due.2.1 (by simp [blocked])
  · exact notNotified i notified
  · rcases ok.idle_state with idle | idle <;> simp [blocked] at idle

lemma ArrayOk.yield_stays_blocked (now : Nat) (ok : ArrayOk s)
    (blocked : (s.tasks j).state = .blocked) (notNotified : ∀ i, ¬ NotifiedBy s j i) :
    ((schedYield now s).tasks j).state = .blocked ∧ j ≠ (schedYield now s).currentTask := by
  have notNext : j ≠ (schedYield now s).currentTask := fun isNext =>
    ok.not_nextIs_of_blocked blocked notNotified ((nextIs_iff ok.toSchedulable).mpr isNext.symm)
  refine ⟨?_, notNext⟩
  have prepared := prepare_task now s j
  rw [schedYield_tasks]
  generalize (prepare now s).tasks j = t at prepared
  cases prepared with
  | woken due => exact absurd due.2.1 (by simp [blocked])
  | notified i notified => exact absurd notified (notNotified i)
  | reaped reaps => exact absurd reaps.2.2.1 (by simp [blocked])
  | kept => simp [handover, blocked, notNext]

lemma yield_waitForId (now : Nat) (s : Scheduler) (j : Nat) :
    ((schedYield now s).tasks j).waitForId = 0 ∨
      ((schedYield now s).tasks j).waitForId = (s.tasks j).waitForId ∧
        ∀ i, ¬ NotifiedBy s j i := by
  rw [schedYield_tasks]
  have prepared := prepare_task now s j
  generalize (prepare now s).tasks j = t at prepared
  cases prepared with
  | woken due =>
    exact .inr ⟨rfl, fun i notified => absurd notified.2.2.1 (by simp [due.2.1])⟩
  | notified i notified => exact .inl rfl
  | reaped reaps =>
    exact .inr ⟨rfl, fun i notified => absurd notified.2.2.1 (by simp [reaps.2.2.1])⟩
  | kept notDue notNotified notReaped => exact .inr ⟨rfl, notNotified⟩

end Pass

lemma waitBlocks_spec (blocks : k.waitBlocks id = true) :
    ∃ i < k.sched.taskCount, (k.sched.tasks i).id = id ∧ (k.sched.tasks i).state ≠ .dead := by
  unfold Kernel.waitBlocks waitAnswer at blocks
  cases search : schedFindTask k.sched id with
  | none => simp [search] at blocks
  | some i =>
    have ⟨lt, sameId⟩ := schedFindTask_spec search
    refine ⟨i, lt, sameId, fun dead => ?_⟩
    simp [search, dead] at blocks

section
variable (inv : WaitInv k) (entry : Entry k e entered how)
include inv entry

lemma WaitInv.entry_current :
    (entered.sched.tasks k.sched.currentTask).waitForId = 0 ∨
      ∃ id, e = .wait id ∧ how = .yielded (.wait id) ∧ k.waitBlocks id = true ∧
        (entered.sched.tasks k.sched.currentTask).state = .blocked ∧
        (entered.sched.tasks k.sched.currentTask).waitForId = id := by
  have none := inv.notWaiting k.sched.currentTask (.inr rfl)
  cases entry with
  | timer | yield | exitYield => exact .inl none
  | sleep _ | fault =>
    simp only [sleepCurrent, faultCurrent, Scheduler.setState, modify_tasks_self]
    exact .inl none
  | wait id blocks =>
    exact .inr ⟨id, rfl, rfl, blocks, by simp [blockCurrent], by simp [blockCurrent]⟩

lemma WaitInv.entry_awaitable (isTask : id ≠ 0) (awaitable : Awaitable k.sched id i) :
    Awaitable entered.sched id i := by
  obtain ⟨lt, sameTask, hasStack⟩ := awaitable
  refine ⟨entry.taskCount ▸ lt, (entry.id i).trans sameTask, fun dead => ?_⟩
  rw [entry.stackBase]
  by_cases hi : i = k.sched.currentTask
  · exact inv.base.slots.holds i (.inr hi) (sameTask ▸ isTask)
  · rw [entry.other_tasks hi] at dead
    exact hasStack dead

/-- When `sched_yield` is entered, everyone who waits will resume in `sched_wait`, and whom they
wait for is there. -/
lemma WaitInv.entry_waits (waits : Waits entered.sched j) :
    update k.saved k.sched.currentTask how j =
        .yielded (.wait (entered.sched.tasks j).waitForId) ∧
      ∃ i, Awaitable entered.sched (entered.sched.tasks j).waitForId i := by
  by_cases hj : j = k.sched.currentTask
  · subst hj
    rcases inv.entry_current entry with none | ⟨id, -, resumes, blocks, -, sameId⟩
    · exact absurd none waits.2
    · obtain ⟨i, lt, isTarget, alive⟩ := waitBlocks_spec blocks
      rw [update_self, sameId]
      exact ⟨resumes, i, inv.entry_awaitable entry (sameId ▸ waits.2)
        ⟨lt, isTarget, fun dead => absurd dead alive⟩⟩
  · have same := entry.other_tasks hj
    have waited : Waits k.sched j := by
      unfold Waits at waits
      rwa [same] at waits
    obtain ⟨-, saved, i, awaitable⟩ := inv.waiter j waited
    rw [update_of_ne hj, same]
    exact ⟨saved, i, inv.entry_awaitable entry waited.2 awaitable⟩

end

lemma ArrayOk.lt_of_blocked (ok : ArrayOk s) (blocked : (s.tasks j).state = .blocked) :
    j < s.taskCount := by
  refine Nat.lt_of_not_le fun beyond => ?_
  rw [ok.unused j beyond] at blocked
  simp [Task.zero] at blocked

lemma ArrayOk.yield_awaitable {now : Nat} (ok : ArrayOk s) (waits : Waits s j)
    (notNotified : ∀ i, ¬ NotifiedBy s j i) (awaitable : Awaitable s (s.tasks j).waitForId i) :
    Awaitable (schedYield now s) (s.tasks j).waitForId i := by
  obtain ⟨lt, sameTask, hasStack⟩ := awaitable
  have notReaped : ¬ Reapable s i := fun reaps =>
    notNotified i ⟨reaps, ok.lt_of_blocked waits.1, waits.1, sameTask⟩
  refine ⟨by rwa [schedYield_taskCount], by rwa [schedYield_id], fun dead => ?_⟩
  rw [schedYield_stackBase_of_not_reapable notReaped]
  exact hasStack (ok.yield_dead_iff.mp dead)

lemma pass_saved_of_ne (k : Kernel) (how : Resume)
    (other : j ≠ (schedYield k.ticks k.sched).currentTask) :
    (k.pass how).saved j = update k.saved k.sched.currentTask how j := by
  rw [pass_saved]
  split
  · rename_i stays
    rw [update_of_ne (stays ▸ other)]
  · rfl

section
variable (inv : WaitInv k)
include inv

lemma WaitInv.entry_dead (runs : k.Runs) (enabled : k.Enabled e) (entry : Entry k e entered how)
    (dead : (entered.sched.tasks i).state = .dead) : (entered.sched.tasks i).id ≠ 0 := by
  rw [entry.id]
  by_cases hi : i = k.sched.currentTask
  · subst hi
    cases entry with
    | timer | yield | exitYield => exact inv.dead_id _ dead
    | sleep ticks => simp [sleepCurrent] at dead
    | wait id => simp [blockCurrent] at dead
    | fault => exact k.current_id runs enabled.2
  · rw [entry.other_tasks hi] at dead
    exact inv.dead_id i dead

lemma WaitInv.entry_awake (entry : Entry k e entered how)
    (saved : update k.saved k.sched.currentTask how j = .yielded (.wait id))
    (isTask : (entered.sched.tasks j).id ≠ 0) : (entered.sched.tasks j).state ≠ .sleeping := by
  by_cases hj : j = k.sched.currentTask
  · subst hj
    rw [update_self] at saved
    cases entry with
    | timer | yield | exitYield | sleep _ | fault => cases saved
    | wait id => simp [blockCurrent]
  · rw [update_of_ne hj] at saved
    rw [entry.other_tasks hj] at isTask ⊢
    exact inv.suspended j id saved hj isTask

lemma WaitInv.entry_waiting (entry : Entry k e entered how)
    (waiting : (entered.sched.tasks j).waitForId ≠ 0) :
    (entered.sched.tasks j).state = .blocked ∨ (entered.sched.tasks j).state = .dead := by
  by_cases hj : j = k.sched.currentTask
  · subst hj
    rcases inv.entry_current entry with none | ⟨id, -, -, -, blocked, -⟩
    · exact absurd none waiting
    · exact .inl blocked
  · rw [entry.other_tasks hj] at waiting ⊢
    by_contra neither
    exact waiting (inv.notWaiting j (.inl (not_or.mp neither)))

lemma WaitInv.pass (runs : k.Runs) (enabled : k.Enabled e) (entry : Entry k e entered how)
    (between : ¬ k.InProgress) : WaitInv (entered.pass how) := by
  have array := inv.base.ok.array.entry enabled entry
  have noCall (activity : Activity) (current : (entered.pass how).activity = some activity) :
      activity.inCall = false := by
    unfold Kernel.activity at current
    rw [pass_inside, entry.inside] at current
    cases inCall : activity.inCall with
    | false => rfl
    | true => exact absurd ⟨_, activity, current, inCall⟩ between
  have savedAfter {j : Nat} (other : j ≠ (entered.pass how).sched.currentTask) :
      (entered.pass how).saved j = update k.saved k.sched.currentTask how j := by
    rw [pass_sched] at other
    rw [pass_saved_of_ne entered how other, entry.saved, entry.currentTask]
  refine ⟨inv.base.pass enabled entry between, fun j waits => ?_, fun j cond => ?_,
    fun i dead => ?_, fun j id saved other isTask => ?_, fun id saved => ?_,
    fun slot args current => ?_, fun slot sig current => ?_⟩
  · -- still waiting after the pass: it was waiting before, and its target was not found dead
    have ⟨blocked, waiting⟩ := waits
    rw [pass_sched] at blocked waiting
    obtain ⟨wasBlocked, notNotified, sameId⟩ := yield_waits (by decide) blocked
    have waited : Waits entered.sched j := ⟨wasBlocked, sameId ▸ waiting⟩
    obtain ⟨saved, i, awaitable⟩ := inv.entry_waits entry waited
    have notCurrent := (array.yield_stays_blocked entered.ticks wasBlocked notNotified).2
    rw [savedAfter (by rwa [pass_sched]), pass_sched, sameId]
    exact ⟨notCurrent, saved, i, array.yield_awaitable waited notNotified awaitable⟩
  · rw [pass_sched] at cond ⊢
    rcases yield_waitForId entered.ticks entered.sched j with none | ⟨same, notNotified⟩
    · exact none
    · rw [same]
      by_contra waiting
      rcases inv.entry_waiting entry waiting with blocked | dead
      · have ⟨stays, notCurrent⟩ := array.yield_stays_blocked entered.ticks blocked notNotified
        rcases cond with ⟨notBlocked, -⟩ | current
        · exact notBlocked stays
        · exact notCurrent current
      · have stays : ((schedYield entered.ticks entered.sched).tasks j).state = .dead :=
          array.yield_dead_iff.mpr dead
        rcases cond with ⟨-, notDead⟩ | current
        · exact notDead stays
        · exact array.not_nextIs_of_dead dead ((nextIs_iff array.toSchedulable).mpr current.symm)
  · rw [pass_sched] at dead ⊢
    rw [schedYield_id]
    exact inv.entry_dead runs enabled entry (array.yield_dead_iff.mp dead)
  · rw [savedAfter other] at saved
    rw [pass_sched] at isTask ⊢
    rw [schedYield_id] at isTask
    exact fun sleeping => inv.entry_awake entry saved isTask (yield_waits (by decide) sleeping).1
  · rw [pass_saved, entry.saved, entry.currentTask] at saved
    split at saved
    · exact inv.idle_saved id saved
    · by_cases idle : 0 = k.sched.currentTask
      · rw [← idle, update_self] at saved
        cases entry with
        | timer | yield | exitYield | sleep _ | fault => cases saved
        | wait id => exact enabled.2.1 idle.symm
      · rw [update_of_ne idle] at saved
        exact inv.idle_saved id saved
  · cases noCall _ current
  · cases noCall _ current

lemma WaitInv.step (step : KernelStep k e k') (atomic : AtomicPass k e) : WaitInv k' := by
  have base := inv.base.step step atomic
  rcases step.cases inv.base.ok with ⟨entered, how, entry, rfl⟩ | ⟨-, quiet⟩
  · exact inv.pass step.runs step.enabled (entry_of_passEntry entry) (atomic (by rw [entry]; rfl))
  · exact inv.quiet base step.runs quiet

end

end MicroOs.Sched
