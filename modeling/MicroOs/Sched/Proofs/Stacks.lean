import MicroOs.Sched.Proofs.Invariant

/-!
# Ownership of kernel stacks

As long as no pass runs in the middle of `do_task_create` or `sched_send_signal`, every stack that
has been allocated and not been freed belongs to one slot, and a task that is not dead, or still
executing, has the stack it was given.
-/

namespace MicroOs.Sched
open Lib List
open Function (update update_of_ne update_self)

variable {args : CreateArgs} {f : Task → Task} {j stack : Nat} {new : Option Activity}
  {s' : Scheduler}
variable {s : Scheduler} {given : Nat → Nat} {k k' entered : Kernel} {e : KernelEvent}
  {how : Resume} {now slot : Nat}

/-- No scheduling pass runs while a call of `do_task_create` or `sched_send_signal` is in
progress. -/
def AtomicPass (k : Kernel) (e : KernelEvent) : Prop :=
  (k.passEntry e).isSome → ¬ k.InProgress

/-- The task needs its stack: it is not dead, or it is the one executing. -/
def NeedsStack (s : Scheduler) (j : Nat) : Prop := (s.tasks j).state ≠ .dead ∨ j = s.currentTask

structure StacksOk (s : Scheduler) (given : Nat → Nat) : Prop where
  owns : Owns (fun j => (s.tasks j).stackBase) 0 s.stackLog
  keeps : ∀ j, NeedsStack s j → given j = (s.tasks j).stackBase
  holds : ∀ j, NeedsStack s j → (s.tasks j).id ≠ 0 → (s.tasks j).stackBase ≠ 0

structure CallsOk (k : Kernel) : Prop where
  mine : ∀ caller activity, k.inside caller = some activity → activity.inCall = true →
    caller = k.sched.currentTask
  found : ∀ slot args, k.activity = some (.found slot args) → slot ≠ k.sched.currentTask ∧
    (slot < k.sched.taskCount → (k.sched.tasks slot).state = .dead) ∧
    (k.sched.tasks slot).stackBase = 0
  stacked : ∀ slot args, k.activity = some (.stacked slot args) → slot ≠ k.sched.currentTask ∧
    (slot < k.sched.taskCount → (k.sched.tasks slot).state = .dead) ∧
    k.given slot = (k.sched.tasks slot).stackBase ∧ (k.sched.tasks slot).stackBase ≠ 0
  signalling : ∀ slot sig, k.activity = some (.signalling slot sig) →
    (k.sched.tasks slot).state ≠ .dead
  unused : ∀ j, k.sched.taskCount ≤ j → (k.sched.tasks j).stackBase ≠ 0 →
    ∃ args, k.activity = some (.stacked j args)

/-- The invariant of runs without a pass in the middle of a call. -/
structure StackInv (k : Kernel) : Prop where
  ok : k.Ok
  slots : StacksOk k.sched k.given
  calls : CallsOk k

lemma StacksOk.boot (cr3 rsp0 : Nat) : StacksOk (schedInit cr3 rsp0) (fun _ => 0) := by
  have noStack (j : Nat) : ((schedInit cr3 rsp0).tasks j).stackBase = 0 := by
    simp only [schedInit]
    split <;> rfl
  have noId (j : Nat) : ((schedInit cr3 rsp0).tasks j).id = 0 := by
    simp only [schedInit]
    split <;> rfl
  refine ⟨?_, fun j _ => (noStack j).symm, fun j _ nonzero => absurd (noId j) nonzero⟩
  rw [show (fun j => ((schedInit cr3 rsp0).tasks j).stackBase) = fun _ => 0 from funext noStack]
  exact Owns.empty

lemma StacksOk.change (h : StacksOk s given) (sameLog : s'.stackLog = s.stackLog)
    (sameStack : ∀ j, (s'.tasks j).stackBase = (s.tasks j).stackBase)
    (sameId : ∀ j, (s'.tasks j).id = (s.tasks j).id)
    (needs : ∀ j, NeedsStack s' j → NeedsStack s j) : StacksOk s' given := by
  refine ⟨?_, fun j hj => ?_, fun j hj => ?_⟩
  · rw [sameLog, funext sameStack]
    exact h.owns
  · rw [sameStack]
    exact h.keeps j (needs j hj)
  · rw [sameStack, sameId]
    exact h.holds j (needs j hj)

lemma modify_stackBase (same : (f (s.tasks slot)).stackBase = (s.tasks slot).stackBase)
    (j : Nat) :
    ((s.modify slot f).tasks j).stackBase = (s.tasks j).stackBase := by
  by_cases hj : j = slot
  · rw [hj, modify_tasks_self, same]
  · rw [modify_tasks_of_ne f hj]

lemma StacksOk.modify (h : StacksOk s given)
    (sameStack : (f (s.tasks slot)).stackBase = (s.tasks slot).stackBase)
    (sameId : (f (s.tasks slot)).id = (s.tasks slot).id)
    (needs : NeedsStack s slot ∨ (f (s.tasks slot)).state = .dead) :
    StacksOk (s.modify slot f) given := by
  refine h.change rfl (modify_stackBase sameStack) (fun j => ?_) (fun j hj => ?_)
  · by_cases hjs : j = slot
    · rw [hjs, modify_tasks_self, sameId]
    · rw [modify_tasks_of_ne f hjs]
  · by_cases hjs : j = slot
    · subst hjs
      rcases needs with needs | dead
      · exact needs
      · rcases hj with alive | current
        · rw [modify_tasks_self] at alive
          exact absurd dead alive
        · exact .inr current
    · unfold NeedsStack at hj
      rwa [modify_tasks_of_ne f hjs] at hj

lemma mem_reapedSlots : j ∈ reapedSlots s (range' 1 (s.taskCount - 1)) ↔ Reapable s j := by
  simp only [reapedSlots, mem_filter, mem_range'_1, decide_eq_true_eq, Reapable]
  constructor
  · rintro ⟨⟨pos, lt⟩, dead, other⟩
    exact ⟨pos, by omega, dead, other⟩
  · rintro ⟨pos, lt, dead, other⟩
    exact ⟨⟨pos, by omega⟩, dead, other⟩

lemma schedYield_stackBase (now : Nat) (s : Scheduler) (j : Nat) :
    ((schedYield now s).tasks j).stackBase =
      if j ∈ reapedSlots s (range' 1 (s.taskCount - 1)) then 0
      else (s.tasks j).stackBase := by
  rw [schedYield_tasks]
  have prepared := prepare_task now s j
  have alive (h : (s.tasks j).state ≠ .dead) : j ∉ reapedSlots s (range' 1 (s.taskCount - 1)) :=
    fun reaps => h (mem_reapedSlots.mp reaps).2.2.1
  generalize (prepare now s).tasks j = t at prepared
  cases prepared with
  | woken due => rw [if_neg (alive (by simp [due.2.1]))]
  | notified i notified => rw [if_neg (alive (by simp [notified.2.2.1]))]
  | reaped reaps => rw [if_pos (mem_reapedSlots.mpr reaps)]
  | kept _ _ notReaped => rw [if_neg (mt mem_reapedSlots.mp notReaped)]

lemma schedYield_stackBase_of_not_reapable (notReaped : ¬ Reapable s j) :
    ((schedYield now s).tasks j).stackBase = (s.tasks j).stackBase := by
  rw [schedYield_stackBase, if_neg (mt mem_reapedSlots.mp notReaped)]

lemma schedYield_stackLog :
    (schedYield now s).stackLog =
      (frees s (range' 1 (s.taskCount - 1))).reverse ++ s.stackLog := by
  rw [schedYield_rest]
  exact prepare_stackLog

lemma StacksOk.yield (h : StacksOk s given) (ok : ArrayOk s) :
    StacksOk (schedYield now s) given := by
  -- whoever needs its stack after the pass is not dead, so it needed the stack before
  have needs (j : Nat) (hj : NeedsStack (schedYield now s) j) : (s.tasks j).state ≠ .dead := by
    rcases hj with alive | current
    · exact fun dead => alive (ok.yield_dead_iff.mpr dead)
    · exact fun dead => ok.not_nextIs_of_dead dead
        ((nextIs_iff ok.toSchedulable).mpr current.symm)
  have kept (j : Nat) (hj : NeedsStack (schedYield now s) j) :
      ((schedYield now s).tasks j).stackBase = (s.tasks j).stackBase :=
    schedYield_stackBase_of_not_reapable fun reaps => needs j hj reaps.2.2.1
  refine ⟨?_, fun j hj => ?_, fun j hj => ?_⟩
  · rw [funext (schedYield_stackBase now s), schedYield_stackLog]
    exact h.owns.frees _ ((nodup_range' ..).filter _)
  · rw [kept j hj]
    exact h.keeps j (.inl (needs j hj))
  · rw [kept j hj, schedYield_id]
    exact h.holds j (.inl (needs j hj))

lemma stackBase_update (t : Task) :
    (fun j => (update s.tasks slot t j).stackBase) =
      update (fun j => (s.tasks j).stackBase) slot t.stackBase := by
  funext j
  by_cases hj : j = slot
  · subst hj
    rw [update_self, update_self]
  · rw [update_of_ne hj, update_of_ne hj]

lemma StacksOk.gotStack (h : StacksOk s given) (empty : (s.tasks slot).stackBase = 0)
    (fresh : stack ∉ live s.stackLog) :
    StacksOk (createStack s slot stack) (update given slot stack) := by
  have others (j : Nat) (hj : j ≠ slot) : (createStack s slot stack).tasks j = s.tasks j := by
    rw [createStack_tasks, modify_tasks_of_ne _ hj]
  have own : (createStack s slot stack).tasks slot =
      if stack = 0 then .zero else { s.tasks slot with stackBase := stack } := by
    rw [createStack_tasks, modify_tasks_self]
  have sameCurrent : (createStack s slot stack).currentTask = s.currentTask := by
    rw [createStack_rest]
  have ownStack : ((createStack s slot stack).tasks slot).stackBase = stack := by
    rw [own]
    split
    · exact Eq.symm ‹_›
    · rfl
  refine ⟨?_, fun j hj => ?_, fun j hj nonzero => ?_⟩
  · by_cases failed : stack = 0
    · subst failed
      have same : update (fun j => (s.tasks j).stackBase) slot 0 =
          fun j => (s.tasks j).stackBase := by
        rw [← empty, Function.update_eq_self]
      simp only [createStack, if_true, Scheduler.modify]
      rw [stackBase_update, show Task.zero.stackBase = 0 from rfl, same]
      exact h.owns
    · simp only [createStack, failed, if_false, Scheduler.modify]
      rw [stackBase_update]
      exact h.owns.alloc empty failed fresh
  · by_cases hjs : j = slot
    · rw [hjs, update_self, ownStack]
    · rw [update_of_ne hjs, others j hjs]
      unfold NeedsStack at hj
      rw [others j hjs, sameCurrent] at hj
      exact h.keeps j hj
  · by_cases hjs : j = slot
    · rw [hjs, own] at nonzero ⊢
      split at nonzero
      · exact absurd rfl nonzero
      · rename_i nonnull
        rw [if_neg nonnull]
        exact nonnull
    · unfold NeedsStack at hj
      rw [others j hjs, sameCurrent] at hj
      rw [others j hjs] at nonzero ⊢
      exact h.holds j hj nonzero

lemma StacksOk.committed (h : StacksOk s given) (own : given slot = (s.tasks slot).stackBase)
    (nonzero : (s.tasks slot).stackBase ≠ 0) : StacksOk (createCommit s slot args) given := by
  have others (j : Nat) (hj : j ≠ slot) : (createCommit s slot args).tasks j = s.tasks j := by
    simp only [createCommit, modify_tasks_of_ne _ hj]
  have sameStack (j : Nat) :
      ((createCommit s slot args).tasks j).stackBase = (s.tasks j).stackBase := by
    by_cases hj : j = slot
    · subst hj
      simp only [createCommit, modify_tasks_self, newTask]
    · rw [others j hj]
  refine ⟨?_, fun j hj => ?_, fun j hj isTask => ?_⟩
  · rw [funext sameStack]
    exact h.owns
  · rw [sameStack]
    by_cases hjs : j = slot
    · rw [hjs, own]
    · unfold NeedsStack at hj
      rw [others j hjs] at hj
      exact h.keeps j hj
  · rw [sameStack]
    by_cases hjs : j = slot
    · rwa [hjs]
    · unfold NeedsStack at hj
      rw [others j hjs] at hj isTask
      exact h.holds j hj isTask

lemma StackInv.quiet_stacks (inv : StackInv k) (step : Quiet k e k') :
    StacksOk k'.sched k'.given := by
  have slots := inv.slots
  cases step with
  | timer | setInterrupts _ | enablePreemption | answered _ | noTarget _ _ | noSlot _ | signal _ _ _
  | ignore _ | find _ _ | done _ => exact slots
  | exit _ | kill _ _ =>
    simp only [exitCurrent, terminate]
    exact slots.modify rfl rfl (.inr rfl)
  | stop slot activity =>
    simp only [Scheduler.setState]
    exact slots.modify rfl rfl (.inl (.inl (inv.calls.signalling slot 19 activity)))
  | stack slot args stack activity fresh =>
    exact slots.gotStack (inv.calls.found slot args activity).2.2 fresh
  | commit slot args activity =>
    have stacked := inv.calls.stacked slot args activity
    exact slots.committed stacked.2.2.1 stacked.2.2.2
  | user slot =>
    dsimp only
    by_cases needs : NeedsStack k.sched slot
    · exact slots.modify rfl rfl (.inl needs)
    · exact slots.modify rfl rfl (.inr (not_not.mp (not_or.mp needs).1))

lemma CallsOk.unused_empty (h : CallsOk k)
    (notStacked : ∀ slot args, k.activity ≠ some (.stacked slot args)) (j : Nat)
    (beyond : k.sched.taskCount ≤ j) : (k.sched.tasks j).stackBase = 0 := by
  by_contra hasStack
  obtain ⟨args, stacked⟩ := h.unused j beyond hasStack
  exact notStacked j args stacked

lemma callsOk_of_not_inCall
    (mine : ∀ caller activity, k.inside caller = some activity → activity.inCall = true →
      caller = k.sched.currentTask)
    (notInCall : ∀ activity, k.activity = some activity → activity.inCall = false)
    (unused : ∀ j, k.sched.taskCount ≤ j → (k.sched.tasks j).stackBase = 0) : CallsOk k where
  mine := mine
  found _ _ h := by cases notInCall _ h
  stacked _ _ h := by cases notInCall _ h
  signalling _ _ h := by cases notInCall _ h
  unused j beyond hasStack := absurd (unused j beyond) hasStack

lemma CallsOk.mine_update (h : CallsOk k) (new : Option Activity) :
    ∀ caller activity, update k.inside k.sched.currentTask new caller = some activity →
      activity.inCall = true → caller = k.sched.currentTask := by
  intro caller activity inside inCall
  by_contra other
  rw [update_of_ne other] at inside
  exact other (h.mine caller activity inside inCall)

@[simp] lemma setActivity_activity (new : Option Activity) :
    (k.setActivity new).activity = new := by
  simp [Kernel.activity, Kernel.setActivity]

lemma activity_of_set (inside : k'.inside = (k.setActivity new).inside)
    (current : k'.sched.currentTask = k.sched.currentTask) : k'.activity = new := by
  rw [Kernel.activity, inside, current]
  exact setActivity_activity new

lemma CallsOk.leave (h : CallsOk k) {given' : Nat → Nat} {saved' : Nat → Resume}
    (sameCurrent : s'.currentTask = k.sched.currentTask)
    (notInCall : ∀ activity, new = some activity → activity.inCall = false)
    (unused : ∀ j, s'.taskCount ≤ j → (s'.tasks j).stackBase = 0) :
    CallsOk { k.setActivity new with sched := s', given := given', saved := saved' } := by
  refine callsOk_of_not_inCall ?_ ?_ unused
  · simp only [sameCurrent]
    exact h.mine_update new
  · intro activity current
    simp only [Kernel.activity, Kernel.setActivity, sameCurrent, update_self] at current
    exact notInCall activity current

lemma CallsOk.congr (h : CallsOk k) (sched : k'.sched = k.sched) (inside : k'.inside = k.inside)
    (given : k'.given = k.given) : CallsOk k' := by
  have activity : k'.activity = k.activity := by
    unfold Kernel.activity
    rw [sched, inside]
  refine ⟨?_, ?_, ?_, ?_, ?_⟩
  · rw [inside, sched]
    exact h.mine
  · rw [activity, sched]
    exact h.found
  · rw [activity, sched, given]
    exact h.stacked
  · rw [activity, sched]
    exact h.signalling
  · rw [activity, sched]
    exact h.unused

lemma CallsOk.signal (h : CallsOk k) (idle : k.activity = none) {sig : Nat}
    (alive : (k.sched.tasks slot).state ≠ .dead) :
    CallsOk (k.setActivity (some (.signalling slot sig))) where
  mine := h.mine_update _
  found _ _ current := by
    rw [setActivity_activity] at current
    cases current
  stacked _ _ current := by
    rw [setActivity_activity] at current
    cases current
  signalling _ _ current := by
    rw [setActivity_activity] at current
    cases current
    exact alive
  unused j beyond hasStack := absurd (h.unused_empty (by simp [idle]) j beyond) hasStack

lemma StackInv.find (inv : StackInv k) (runs : k.Runs) (idle : k.activity = none)
    (found : findSlot k.sched = some slot) :
    CallsOk (k.setActivity (some (.found slot args))) where
  mine := inv.calls.mine_update _
  found _ _ current := by
    rw [setActivity_activity] at current
    cases current
    have array := inv.ok.array
    have ⟨slot_pos, slot_le, _, reused⟩ := findSlot_spec found array.count_pos array.count_le
    by_cases inUse : slot < k.sched.taskCount
    · have ⟨dead, empty⟩ := reused inUse
      refine ⟨?_, fun _ => dead, empty⟩
      -- the current task has a stack, even when it is dead
      intro (isCurrent : slot = k.sched.currentTask)
      have isTask : (k.sched.tasks slot).id ≠ 0 := by
        rw [isCurrent] at slot_pos ⊢
        exact runs.resolve_left (Nat.ne_of_gt slot_pos)
      exact inv.slots.holds slot (.inr isCurrent) isTask empty
    · refine ⟨fun isCurrent => inUse (isCurrent ▸ array.current_lt), fun h => absurd h inUse, ?_⟩
      exact inv.calls.unused_empty (by simp [idle]) slot (Nat.le_of_not_lt inUse)
  stacked _ _ current := by
    rw [setActivity_activity] at current
    cases current
  signalling _ _ current := by
    rw [setActivity_activity] at current
    cases current
  unused j beyond hasStack := absurd (inv.calls.unused_empty (by simp [idle]) j beyond) hasStack

lemma CallsOk.gotStack (h : CallsOk k) (activity : k.activity = some (.found slot args)) :
    CallsOk
      { k.setActivity (if stack = 0 then none else some (.stacked slot args)) with
        sched := createStack k.sched slot stack
        given := update k.given slot stack } := by
  have ⟨notCurrent, dead, _⟩ := h.found slot args activity
  have empty := h.unused_empty (by simp [activity])
  by_cases failed : stack = 0
  · subst failed
    refine h.leave rfl (by simp) fun j beyond => ?_
    by_cases hj : j = slot
    · rw [hj, createStack_tasks, modify_tasks_self]
      rfl
    · rw [createStack_tasks, modify_tasks_of_ne _ hj]
      exact empty j beyond
  · have current (other : Option Activity) :
        ({ k.setActivity (if stack = 0 then none else some (.stacked slot args)) with
          sched := createStack k.sched slot stack
          given := update k.given slot stack } : Kernel).activity = other →
        other = some (.stacked slot args) := by
      simp only [Kernel.activity, Kernel.setActivity, createStack, failed, if_false,
        Scheduler.modify, update_self]
      exact Eq.symm
    have own : (createStack k.sched slot stack).tasks slot =
        { k.sched.tasks slot with stackBase := stack } := by
      rw [createStack_tasks, modify_tasks_self, if_neg failed]
    refine ⟨?_, fun _ _ h => ?_, fun _ _ h => ?_, fun _ _ h => ?_, fun j beyond hasStack => ?_⟩
    · simp only [createStack, failed, if_false]
      exact h.mine_update _
    · cases current _ h
    · cases current _ h
      rw [own]
      simp only [update_self, createStack, failed, if_false]
      exact ⟨notCurrent, dead, trivial, failed⟩
    · cases current _ h
    · by_cases hj : j = slot
      · exact ⟨args, hj ▸ current _ rfl⟩
      · refine absurd ?_ hasStack
        simp only [createStack_tasks, modify_tasks_of_ne _ hj]
        simp only [createStack, failed, if_false] at beyond
        exact empty j beyond

lemma StackInv.quiet_calls (inv : StackInv k) (runs : k.Runs) (step : Quiet k e k') :
    CallsOk k' := by
  have calls := inv.calls
  cases step with
  | timer | setInterrupts _ | enablePreemption => exact calls.congr rfl rfl rfl
  | answered _ | noTarget _ _ | noSlot _ => exact calls
  | ignore _ activity | done _ activity =>
    exact calls.leave rfl (by simp) (calls.unused_empty (by simp [activity]))
  | user _ _ _ activity =>
    refine calls.leave rfl (by simp) fun j beyond => ?_
    rw [modify_stackBase rfl]
    exact calls.unused_empty (by simp [activity]) j beyond
  | exit _ activity | stop _ activity | kill _ _ activity =>
    refine calls.leave rfl (by simp [Activity.inCall]) fun j beyond => ?_
    simp only [exitCurrent, terminate, Scheduler.setState]
    rw [modify_stackBase rfl]
    exact calls.unused_empty (by simp [activity]) j beyond
  | signal id sig slot activity _ target => exact calls.signal activity (signalTarget_spec target).2.2
  | find args slot activity _ found => exact inv.find runs activity found
  | stack slot args stack activity => exact calls.gotStack activity
  | commit slot args activity =>
    refine callsOk_of_not_inCall (fun caller a inside inCall => ?_) (fun a current => ?_)
      (fun j beyond => ?_)
    · by_contra (other : caller ≠ k.sched.currentTask)
      simp only [Kernel.setActivity] at inside
      rw [update_of_ne other] at inside
      by_cases hslot : caller = slot
      · rw [hslot, update_self] at inside
        cases inside
      · rw [update_of_ne hslot] at inside
        exact other (calls.mine caller a inside inCall)
    · simp only [Kernel.activity, Kernel.setActivity, createCommit, Scheduler.modify,
        update_self, Option.some.injEq] at current
      subst current
      rfl
    · simp only [createCommit] at beyond ⊢
      have notSlot : j ≠ slot := by
        split at beyond <;> omega
      have beyond' : k.sched.taskCount ≤ j := by
        split at beyond <;> omega
      rw [modify_tasks_of_ne _ notSlot]
      by_contra hasStack
      obtain ⟨args', stacked⟩ := calls.unused j beyond' hasStack
      rw [activity] at stacked
      cases stacked
      exact notSlot rfl

lemma Entry.stackBase (h : Entry k e entered how) (j : Nat) :
    (entered.sched.tasks j).stackBase = (k.sched.tasks j).stackBase := by
  cases h with
  | timer | yield | exitYield => rfl
  | sleep _ | wait _ | fault =>
    simp only [sleepCurrent, blockCurrent, faultCurrent, Scheduler.setState]
    exact modify_stackBase rfl j

lemma StacksOk.entry (h : StacksOk k.sched k.given) (entry : Entry k e entered how) :
    StacksOk entered.sched entered.given := by
  cases entry with
  | timer | yield | exitYield => exact h
  | sleep _ | wait _ | fault =>
    simp only [sleepCurrent, blockCurrent, faultCurrent, Scheduler.setState]
    exact h.modify rfl rfl (.inl (.inr rfl))

lemma StackInv.pass (inv : StackInv k) (enabled : k.Enabled e) (entry : Entry k e entered how)
    (between : ¬ k.InProgress) : StackInv (entered.pass how) := by
  have array := inv.ok.array.entry enabled entry
  have noCall (caller : Nat) (activity : Activity) (inside : k.inside caller = some activity) :
      activity.inCall = false := by
    cases inCall : activity.inCall with
    | false => rfl
    | true => exact absurd ⟨caller, activity, inside, inCall⟩ between
  refine ⟨(inv.ok.entry enabled entry).pass how, ?_, ?_⟩
  · rw [pass_sched, pass_given]
    exact (inv.slots.entry entry).yield array
  · refine callsOk_of_not_inCall (fun caller activity inside inCall => ?_)
      (fun activity inside => ?_) (fun j beyond => ?_)
    · rw [pass_inside, entry.inside] at inside
      rw [noCall caller activity inside] at inCall
      cases inCall
    · unfold Kernel.activity at inside
      rw [pass_inside, entry.inside] at inside
      exact noCall _ activity inside
    · rw [pass_sched, schedYield_taskCount] at beyond
      have notReaped : ¬ Reapable entered.sched j := fun reaps => absurd reaps.2.1 (by omega)
      rw [pass_sched, schedYield_stackBase_of_not_reapable notReaped, entry.stackBase]
      refine inv.calls.unused_empty (fun slot args stacked => ?_) j (entry.taskCount ▸ beyond)
      cases noCall _ _ stacked

lemma StackInv.quiet (inv : StackInv k) (runs : k.Runs) (step : Quiet k e k') : StackInv k' :=
  ⟨inv.ok.quiet step, inv.quiet_stacks step, inv.quiet_calls runs step⟩

lemma StackInv.step (inv : StackInv k) (step : KernelStep k e k') (atomic : AtomicPass k e) :
    StackInv k' := by
  rcases step.cases inv.ok with ⟨entered, how, entry, rfl⟩ | ⟨-, quiet⟩
  · exact inv.pass step.enabled (entry_of_passEntry entry) (atomic (by rw [entry]; rfl))
  · exact inv.quiet step.runs quiet

lemma StackInv.boot (ticks cr3 rsp0 : Nat) : StackInv (Kernel.boot ticks cr3 rsp0) := by
  refine ⟨.boot ticks cr3 rsp0, .boot cr3 rsp0,
    callsOk_of_not_inCall (by simp [Kernel.boot]) (by simp [Kernel.boot, Kernel.activity]) ?_⟩
  intro j beyond
  have pos : 0 < j := beyond
  simp only [Kernel.boot, schedInit, if_neg (Nat.ne_of_gt pos)]
  rfl

structure StacksSafe (k : Kernel) : Prop where
  /-- Every stack that is allocated belongs to exactly one slot. -/
  owner : ∀ stack ∈ live k.sched.stackLog, ∃! j, (k.sched.tasks j).stackBase = stack
  /-- No stack has been freed that was not allocated at the time. -/
  freedOnce : Matched k.sched.stackLog
  /-- The stack of a task that is not dead has not been freed. -/
  alive : ∀ j, (k.sched.tasks j).state ≠ .dead → k.given j ≠ 0 → k.given j ∈ live k.sched.stackLog
  /-- No other task than the current one is running. -/
  running : ∀ j, (k.sched.tasks j).state = .running → j = k.sched.currentTask

/-- The step frees only stacks of slots whose task is dead and not the current one. -/
def FreesOnlyDead (k k' : Kernel) : Prop :=
  ∃ new, k'.sched.stackLog = new ++ k.sched.stackLog ∧
    ∀ stack, .free stack ∈ new → ∃ j, (k.sched.tasks j).stackBase = stack ∧
      (k.sched.tasks j).state = .dead ∧ j ≠ k.sched.currentTask

lemma StackInv.safe (inv : StackInv k) : StacksSafe k where
  owner _ allocated := inv.slots.owns.existsUnique allocated
  freedOnce := inv.slots.owns.matched
  alive j alive nonzero := by
    rw [inv.slots.keeps j (.inl alive)] at nonzero ⊢
    exact inv.slots.owns.mem_live nonzero
  running := inv.ok.array.running

lemma freesOnlyDead_pass (entry : Entry k e entered how) : FreesOnlyDead k (entered.pass how) := by
  refine ⟨(frees entered.sched (range' 1 (entered.sched.taskCount - 1))).reverse, ?_, ?_⟩
  · rw [pass_sched, schedYield_stackLog, entry.stackLog]
  · intro stack freed
    rw [mem_reverse] at freed
    obtain ⟨j, hj, same⟩ := mem_map.mp freed
    have reaps := mem_reapedSlots.mp (mem_of_mem_filter hj)
    have other : j ≠ k.sched.currentTask := entry.currentTask ▸ reaps.2.2.2
    rw [entry.other_tasks other] at same
    refine ⟨j, AllocEvent.free.inj same, ?_, other⟩
    have dead := reaps.2.2.1
    rwa [entry.other_tasks other] at dead

lemma freesOnlyDead_quiet (step : Quiet k e k') : FreesOnlyDead k k' := by
  cases step with
  | stack slot args stack =>
    by_cases failed : stack = 0
    · exact ⟨[], by simp [createStack, failed, Scheduler.modify], by simp⟩
    · exact ⟨[.alloc stack], by simp [createStack, failed], by simp⟩
  | _ => exact ⟨[], rfl, by simp⟩

/-- In every run in which no pass interrupts `do_task_create` or `sched_send_signal`, the kernel
stacks are safe in every state, and every step frees only stacks of dead tasks that are not
executing. -/
theorem stacks_safe_of_atomic {boot : Kernel} {trace : List (StepOf Kernel KernelEvent)}
    (booted : KernelBooted boot) (run : Run KernelStep boot trace k)
    (atomic : ∀ st ∈ trace, AtomicPass st.pre st.event) :
    StacksSafe boot ∧ ∀ st ∈ trace, StacksSafe st.post ∧ FreesOnlyDead st.pre st.post := by
  obtain ⟨ticks, cr3, rsp0, rfl⟩ := booted
  refine ⟨(StackInv.boot ticks cr3 rsp0).safe, fun st member => ?_⟩
  have step := run.step_of_mem st member
  have before := run.invariant_of_pre (StackInv.boot ticks cr3 rsp0)
    (fun a e b inv step cond => inv.step step cond) atomic st member
  refine ⟨(before.step step (atomic st member)).safe, ?_⟩
  rcases step.cases before.ok with ⟨entered, how, entry, post⟩ | ⟨-, quiet⟩
  · rw [post]
    exact freesOnlyDead_pass (entry_of_passEntry entry)
  · exact freesOnlyDead_quiet quiet

lemma StackInv.not_inProgress (inv : StackInv k) (idle : k.activity.all (!·.inCall) = true) :
    ¬ k.InProgress := by
  rintro ⟨caller, activity, inside, inCall⟩
  obtain rfl := inv.calls.mine caller activity inside inCall
  rw [Kernel.activity, inside] at idle
  simp [inCall] at idle

lemma StackInv.atomic_of_between {events : List KernelEvent} (inv : StackInv k)
    (follows : k.Follows events)
    (between : ∀ st ∈ k.stepsOf events, (st.pre.passEntry st.event).isSome →
      st.pre.activity.all (!·.inCall) = true) :
    ∀ st ∈ k.stepsOf events, AtomicPass st.pre st.event := by
  induction events generalizing k with
  | nil => exact fun st member => absurd member not_mem_nil
  | cons e events ih =>
    have first : AtomicPass k e := fun pass =>
      inv.not_inProgress (between _ mem_cons_self pass)
    have rest := ih (inv.step ⟨follows.1, follows.2.1, rfl⟩ first) follows.2.2
      fun st member => between st (mem_cons_of_mem _ member)
    exact forall_mem_cons.mpr ⟨first, rest⟩

theorem stacks_safe_of_atomic_shell :
    StacksSafe (((Kernel.boot 0 0 0).after Kernel.createShell).next .yield) := by
  have follows : (Kernel.boot 0 0 0).Follows Kernel.startShell := by decide +kernel
  have between : ∀ st ∈ (Kernel.boot 0 0 0).stepsOf Kernel.startShell,
      (st.pre.passEntry st.event).isSome → st.pre.activity.all (!·.inCall) = true := by
    decide +kernel
  have atomic := (StackInv.boot 0 0 0).atomic_of_between follows between
  exact ((stacks_safe_of_atomic ⟨0, 0, 0, rfl⟩ follows.run atomic).2 _
    (Kernel.step_mem _ Kernel.createShell .yield [])).1

/-- The shell is creating a task in the slot of a dead one, and a timer interrupt comes between the
allocation of the stack and the change of the state. -/
def interruptedCreation : List KernelEvent :=
  Kernel.startShell ++ Kernel.creates ⟨"job", 0x2000, 1⟩ 0x20000 ++
    [.yield, .exit 0, .exitYield, .yield, .yield,
      .createFind ⟨"job", 0x2000, 1⟩, .createStack 0x30000, .timer, .yield, .createCommit]

/-- The pass frees the stack, and the new task is ready without it. -/
theorem interrupted_creation_loses_stack :
    ∃ trace k, Run KernelStep (Kernel.boot 0 0 0) trace k ∧
      (k.sched.tasks 2).state = .ready ∧ k.given 2 = 0x30000 ∧
      k.given 2 ∉ live k.sched.stackLog ∧ ¬ StacksSafe k := by
  have follows : (Kernel.boot 0 0 0).Follows interruptedCreation := by decide +kernel
  have ⟨ready, given, freed⟩ :
      (((Kernel.boot 0 0 0).after interruptedCreation).sched.tasks 2).state = .ready ∧
      ((Kernel.boot 0 0 0).after interruptedCreation).given 2 = 0x30000 ∧
      ((Kernel.boot 0 0 0).after interruptedCreation).given 2 ∉
        live ((Kernel.boot 0 0 0).after interruptedCreation).sched.stackLog := by
    decide +kernel
  refine ⟨_, _, follows.run, ready, given, freed, fun safe => freed (safe.alive 2 ?_ ?_)⟩
  · rw [ready]
    simp
  · rw [given]
    simp

end MicroOs.Sched
