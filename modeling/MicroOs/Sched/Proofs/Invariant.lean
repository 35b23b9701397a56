import MicroOs.Sched.Proofs.Pass

/-!
# The task array in every reachable state

Facts about the array that hold whatever the interleaving: the ids are unique, unused slots are
zero, task 0 is ready or running, and no other task than the current one is marked running.
-/

namespace MicroOs.Sched
open Lib List
open Function (update update_apply update_of_ne update_self)

structure ArrayOk (s : Scheduler) : Prop extends Schedulable s where
  count_le : s.taskCount ≤ maxTasks
  idle_id : (s.tasks 0).id = 0
  idle_state : (s.tasks 0).state = .ready ∨ (s.tasks 0).state = .running
  unused : ∀ j, s.taskCount ≤ j → s.tasks j = { Task.zero with stackBase := (s.tasks j).stackBase }
  no_signals : ∀ j, (s.tasks j).sigPending = 0 ∧
    (s.tasks j).sigHandlers = replicate sigMaxTask 0
  id_lt : ∀ j, (s.tasks j).id < s.nextId
  id_inj : ∀ i j, (s.tasks i).id = (s.tasks j).id → (s.tasks i).id ≠ 0 → i = j
  running : ∀ j, (s.tasks j).state = .running → j = s.currentTask

/-- The slot of an activity is one that `do_task_create` or `sched_send_signal` can work on. -/
def Activity.Ok (count : Nat) : Activity → Prop
  | .found slot args => 0 < slot ∧ slot ≤ count ∧ slot < maxTasks ∧ args.priority < numPriorities
  | .stacked slot args => 0 < slot ∧ slot ≤ count ∧ slot < maxTasks ∧ args.priority < numPriorities
  | .returned slot => 0 < slot ∧ slot < count
  | .signalling slot _ => 0 < slot ∧ slot < count
  | .exiting => True

structure Kernel.Ok (k : Kernel) : Prop where
  array : ArrayOk k.sched
  activities : ∀ caller activity, k.inside caller = some activity →
    activity.Ok k.sched.taskCount

section Functions

variable {s : Scheduler} {now i j slot : Nat}

lemma ArrayOk.count_pos (ok : ArrayOk s) : 0 < s.taskCount :=
  Nat.lt_of_le_of_lt (Nat.zero_le _) ok.current_lt

@[simp] lemma modify_tasks_self (f : Task → Task) :
    (s.modify slot f).tasks slot = f (s.tasks slot) := by
  simp [Scheduler.modify]

lemma modify_tasks_of_ne (f : Task → Task) (other : j ≠ slot) :
    (s.modify slot f).tasks j = s.tasks j := by
  simp [Scheduler.modify, other]

/-- What a task may look like that is written to a slot of the array. -/
structure TaskOk (s : Scheduler) (slot count nextId : Nat) (t : Task) : Prop where
  priority_lt : t.priority < numPriorities
  unused : count ≤ slot → t = { Task.zero with stackBase := t.stackBase }
  no_signals : t.sigPending = 0 ∧ t.sigHandlers = replicate sigMaxTask 0
  id_lt : t.id < nextId
  id_fresh : t.id ≠ 0 → ∀ j, j ≠ slot → (s.tasks j).id ≠ t.id
  running : t.state = .running → slot = s.currentTask

lemma ArrayOk.write {t : Task} {count nextId : Nat} {log : List (AllocEvent Nat)} (ok : ArrayOk s)
    (slot_pos : 0 < slot) (count_ge : s.taskCount ≤ count) (count_le : count ≤ maxTasks)
    (nextId_ge : s.nextId ≤ nextId) (task : TaskOk s slot count nextId t) :
    ArrayOk
      { s with
        tasks := update s.tasks slot t
        taskCount := count, nextId := nextId, stackLog := log } := by
  have idle_eq : update s.tasks slot t 0 = s.tasks 0 := update_of_ne (by omega) _ _
  have all {p : Nat → Task → Prop} (own : p slot t) (others : ∀ j, j ≠ slot → p j (s.tasks j)) :
      ∀ j, p j (update s.tasks slot t j) :=
    (Function.forall_update_iff _ p).mpr ⟨own, others⟩
  refine ⟨⟨Nat.lt_of_lt_of_le ok.current_lt count_ge,
      all (p := fun _ t => t.priority < numPriorities) task.priority_lt
        fun j _ => ok.priority_lt j⟩, count_le, ?_, ?_,
    all (p := fun j t => count ≤ j → t = { Task.zero with stackBase := t.stackBase }) task.unused
      fun j _ hj => ok.unused j (Nat.le_trans count_ge hj),
    all (p := fun _ t => t.sigPending = 0 ∧ t.sigHandlers = replicate sigMaxTask 0)
      task.no_signals fun j _ => ok.no_signals j,
    all (p := fun _ t => t.id < nextId) task.id_lt fun j _ =>
      Nat.lt_of_lt_of_le (ok.id_lt j) nextId_ge,
    fun i j same nonzero => ?_,
    all (p := fun j t => t.state = .running → j = s.currentTask) task.running
      fun j _ => ok.running j⟩
  · simpa only [idle_eq] using ok.idle_id
  · simpa only [idle_eq] using ok.idle_state
  · -- two slots with one id: neither of them can be the written one and the other not
    by_cases hi : i = slot
    · by_cases hj : j = slot
      · rw [hi, hj]
      · subst hi
        simp only [update_self, update_of_ne hj] at same nonzero
        exact absurd same.symm (task.id_fresh nonzero j hj)
    · by_cases hj : j = slot
      · subst hj
        simp only [update_self, update_of_ne hi] at same nonzero
        exact absurd same (task.id_fresh (same ▸ nonzero) i hi)
      · simp only [update_of_ne hi, update_of_ne hj] at same nonzero
        exact ok.id_inj i j same nonzero

lemma ArrayOk.modify {f : Task → Task} (ok : ArrayOk s) (slot_pos : 0 < slot)
    (slot_lt : slot < s.taskCount) (same_id : (f (s.tasks slot)).id = (s.tasks slot).id)
    (same_priority : (f (s.tasks slot)).priority = (s.tasks slot).priority)
    (same_pending : (f (s.tasks slot)).sigPending = (s.tasks slot).sigPending)
    (same_handlers : (f (s.tasks slot)).sigHandlers = (s.tasks slot).sigHandlers)
    (not_running : (f (s.tasks slot)).state ≠ .running ∨
      (f (s.tasks slot)).state = (s.tasks slot).state) :
    ArrayOk (s.modify slot f) := by
  refine ok.write slot_pos (Nat.le_refl _) ok.count_le (Nat.le_refl _) ⟨?_, ?_, ?_, ?_, ?_, ?_⟩
  · rw [same_priority]
    exact ok.priority_lt slot
  · exact fun beyond => absurd slot_lt (by omega)
  · rw [same_pending, same_handlers]
    exact ok.no_signals slot
  · rw [same_id]
    exact ok.id_lt slot
  · rw [same_id]
    exact fun nonzero j other same => other (ok.id_inj slot j same.symm nonzero).symm
  · intro running
    rcases not_running with not | same
    · exact absurd running not
    · exact ok.running slot (same ▸ running)

lemma ArrayOk.prepare_idle (ok : ArrayOk s) : (prepare now s).tasks 0 = s.tasks 0 := by
  have prepared := prepare_task now s 0
  have state := ok.idle_state
  generalize (prepare now s).tasks 0 = t at prepared
  cases prepared with
  | woken due => simp [due.2.1] at state
  | notified i notified => simp [notified.2.2.1] at state
  | reaped reaps => exact absurd reaps.1 (Nat.lt_irrefl 0)
  | kept => rfl

lemma prepare_running_iff :
    ((prepare now s).tasks j).state = .running ↔ (s.tasks j).state = .running := by
  have prepared := prepare_task now s j
  generalize (prepare now s).tasks j = t at prepared
  cases prepared with
  | woken due => simp [due.2.1]
  | notified i notified => simp [notified.2.2.1]
  | reaped reaps => simp
  | kept => rfl

lemma prepare_unused (beyond : s.taskCount ≤ j) : (prepare now s).tasks j = s.tasks j := by
  have prepared := prepare_task now s j
  generalize (prepare now s).tasks j = t at prepared
  cases prepared with
  | woken due => exact absurd due.1 (by omega)
  | notified i notified => exact absurd notified.2.1 (by omega)
  | reaped reaps => exact absurd reaps.2.1 (by omega)
  | kept => rfl

lemma handover_cases (prev next j : Nat) (state : TaskState) :
    handover prev next j state = state ∨ handover prev next j state = .running ∨
      handover prev next j state = .ready ∧ state = .running := by
  unfold handover
  split
  · exact .inl rfl
  · split
    · exact .inr (.inl rfl)
    · split
      · rename_i isPrev
        exact .inr (.inr ⟨rfl, isPrev.2⟩)
      · exact .inl rfl

lemma schedYield_record :
    (schedYield now s).tasks j =
      { s.tasks j with
        state := ((schedYield now s).tasks j).state
        exitCode := ((schedYield now s).tasks j).exitCode
        waitForId := ((schedYield now s).tasks j).waitForId
        stackBase := ((schedYield now s).tasks j).stackBase } := by
  rw [schedYield_tasks, (prepare_task now s j).record]

@[simp] lemma schedYield_taskCount : (schedYield now s).taskCount = s.taskCount := by
  rw [schedYield_rest]

@[simp] lemma schedYield_nextId : (schedYield now s).nextId = s.nextId := by
  rw [schedYield_rest]

@[simp] lemma schedYield_id : ((schedYield now s).tasks j).id = (s.tasks j).id := by
  rw [schedYield_record]

lemma Schedulable.next_lt (ok : Schedulable s) (now : Nat) :
    (schedYield now s).currentTask < s.taskCount :=
  nextIs_lt ok ((nextIs_iff ok).mpr rfl)

lemma ArrayOk.yield (ok : ArrayOk s) : ArrayOk (schedYield now s) := by
  have next_lt := ok.next_lt now
  refine ⟨⟨?_, fun j => ?_⟩, ?_, ?_, ?_, fun j hj => ?_, fun j => ?_, fun j => ?_,
    fun i j same nonzero => ?_, fun j running => ?_⟩
  · rw [schedYield_taskCount]
    exact next_lt
  · rw [schedYield_record]
    exact ok.priority_lt j
  · rw [schedYield_taskCount]
    exact ok.count_le
  · rw [schedYield_id]
    exact ok.idle_id
  · rw [schedYield_tasks, ok.prepare_idle]
    rcases handover_cases s.currentTask (schedYield now s).currentTask 0 (s.tasks 0).state
      with same | running | ⟨ready, -⟩
    · rw [same]
      exact ok.idle_state
    · exact .inr running
    · exact .inl ready
  · rw [schedYield_taskCount] at hj
    rw [schedYield_tasks, prepare_unused hj]
    have notNext : j ≠ (schedYield now s).currentTask := by omega
    have notPrev : j ≠ s.currentTask := by
      have := ok.current_lt
      omega
    simp only [handover, notNext, notPrev, false_and, if_false, ite_self]
    exact ok.unused j hj
  · rw [schedYield_record]
    exact ok.no_signals j
  · rw [schedYield_id, schedYield_nextId]
    exact ok.id_lt j
  · rw [schedYield_id, schedYield_id] at same
    rw [schedYield_id] at nonzero
    exact ok.id_inj i j same nonzero
  · rw [schedYield_tasks] at running
    simp only [handover] at running
    by_cases stays : (schedYield now s).currentTask = s.currentTask
    · rw [if_pos stays, prepare_running_iff] at running
      rw [stays]
      exact ok.running j running
    · by_cases isNext : j = (schedYield now s).currentTask
      · exact isNext
      · -- any other task marked running would have been the previous one, which is now ready
        rw [if_neg stays, if_neg isNext] at running
        split at running
        · cases running
        · rename_i notPrev
          have wasRunning := prepare_running_iff.mp running
          exact absurd ⟨ok.running j wasRunning, running⟩ notPrev

lemma prepare_dead_iff : ((prepare now s).tasks i).state = .dead ↔ (s.tasks i).state = .dead := by
  have prepared := prepare_task now s i
  generalize (prepare now s).tasks i = t at prepared
  cases prepared with
  | woken due => simp [due.2.1]
  | notified j notified => simp [notified.2.2.1]
  | reaped reaps => simp
  | kept => rfl

lemma ArrayOk.not_nextIs_of_dead (ok : ArrayOk s) (dead : (s.tasks i).state = .dead) :
    ¬ NextIs now s i := by
  rintro (⟨⟨-, ready⟩ | due | ⟨j, notified⟩, -⟩ | ⟨-, rfl⟩)
  · simp [dead] at ready
  · exact absurd due.2.1 (by simp [dead])
  · exact absurd notified.2.2.1 (by simp [dead])
  · rcases ok.idle_state with idle | idle <;> simp [dead] at idle

lemma ArrayOk.yield_dead_iff (ok : ArrayOk s) :
    ((schedYield now s).tasks i).state = .dead ↔ (s.tasks i).state = .dead := by
  rw [schedYield_tasks]
  constructor
  · intro dead
    rcases handover_cases s.currentTask (schedYield now s).currentTask i
      ((prepare now s).tasks i).state with same | running | ⟨ready, -⟩
    · exact prepare_dead_iff.mp (same.symm.trans dead)
    · simp [running] at dead
    · simp [ready] at dead
  · intro dead
    have notNext : i ≠ (schedYield now s).currentTask := fun isNext =>
      ok.not_nextIs_of_dead dead ((nextIs_iff ok.toSchedulable).mpr isNext.symm)
    simp [handover, prepare_dead_iff.mpr dead, notNext]

lemma findSlot_spec (found : findSlot s = some slot) (pos : 0 < s.taskCount)
    (count_le : s.taskCount ≤ maxTasks) :
    0 < slot ∧ slot ≤ s.taskCount ∧ slot < maxTasks ∧
      (slot < s.taskCount → (s.tasks slot).state = .dead ∧ (s.tasks slot).stackBase = 0) := by
  unfold findSlot at found
  cases dead : deadSlot s with
  | some reused =>
    rw [dead] at found
    obtain rfl := Option.some.inj found
    have holds := find?_some dead
    have member := mem_range'_1.mp (mem_of_find?_eq_some dead)
    exact ⟨by omega, by omega, by omega, fun _ => of_decide_eq_true holds⟩
  | none =>
    rw [dead] at found
    simp only at found
    split at found
    · cases found
    · obtain rfl := Option.some.inj found
      exact ⟨pos, Nat.le_refl _, by omega, fun h => absurd h (Nat.lt_irrefl _)⟩

lemma createStack_tasks (stack : Nat) :
    (createStack s slot stack).tasks =
      (s.modify slot fun t => if stack = 0 then .zero else { t with stackBase := stack }).tasks := by
  unfold createStack
  split
  · simp [Scheduler.modify, *]
  · simp [Scheduler.modify, *]

lemma createStack_rest (s : Scheduler) (slot stack : Nat) :
    createStack s slot stack =
      { s with
        tasks := (createStack s slot stack).tasks
        stackLog := (createStack s slot stack).stackLog } := by
  unfold createStack
  split <;> rfl

lemma ArrayOk.gotStack (ok : ArrayOk s) (slot_pos : 0 < slot) (stack : Nat) :
    ArrayOk (createStack s slot stack) := by
  have nextId_pos : 0 < s.nextId := Nat.lt_of_le_of_lt (Nat.zero_le _) (ok.id_lt 0)
  unfold createStack
  split
  · exact ok.write slot_pos (Nat.le_refl _) ok.count_le (Nat.le_refl _)
      ⟨Nat.zero_lt_succ _, fun _ => rfl, ⟨rfl, rfl⟩, nextId_pos, fun nonzero => absurd rfl nonzero,
        fun running => by cases running⟩
  · refine ok.write slot_pos (Nat.le_refl _) ok.count_le (Nat.le_refl _)
      ⟨ok.priority_lt slot, fun beyond => ?_, ok.no_signals slot, ok.id_lt slot,
        fun nonzero j other same => other (ok.id_inj slot j same.symm nonzero).symm,
        ok.running slot⟩
    rw [ok.unused slot beyond]

lemma ArrayOk.committed {args : CreateArgs} (ok : ArrayOk s) (slot_pos : 0 < slot)
    (slot_le : slot ≤ s.taskCount) (slot_lt : slot < maxTasks)
    (priority_lt : args.priority < numPriorities) : ArrayOk (createCommit s slot args) := by
  have count_le := ok.count_le
  have in_use : ¬ (if slot ≥ s.taskCount then slot + 1 else s.taskCount) ≤ slot := by
    split <;> omega
  refine ok.write slot_pos ?_ ?_ (Nat.le_succ _) ⟨priority_lt, fun beyond => absurd beyond in_use,
    ok.no_signals slot, Nat.lt_succ_self _, fun _ j _ same => ?_, fun running => by cases running⟩
  · split <;> omega
  · split <;> omega
  · exact Nat.lt_irrefl _ (same ▸ ok.id_lt j)

lemma deliverSignal_eq (sig : Nat)
    (default : (s.tasks slot).sigHandlers = replicate sigMaxTask 0) :
    deliverSignal s slot sig =
      if sig = 19 then s.setState slot .blocked
      else if sig = 17 then s
      else terminate s slot sig := by
  have handler : (s.tasks slot).sigHandlers.getD sig 0 = 0 := by
    rw [default, getD_eq_getElem?_getD, getElem?_replicate]
    split <;> rfl
  simp only [deliverSignal, handler]
  by_cases kill : sig = 9
  · subst kill
    simp
  · simp [kill]

lemma schedFindTask_spec {id : Nat} (found : schedFindTask s id = some slot) :
    slot < s.taskCount ∧ (s.tasks slot).id = id := by
  have holds := find?_some found
  exact ⟨mem_range.mp (mem_of_find?_eq_some found), of_decide_eq_true holds⟩

lemma signalTarget_spec {id : Nat} {sig : Int} (found : signalTarget s id sig = .ok slot) :
    slot < s.taskCount ∧ (s.tasks slot).id = id ∧ (s.tasks slot).state ≠ .dead := by
  unfold signalTarget at found
  split at found
  · cases found
  · cases search : schedFindTask s id with
    | none =>
      rw [search] at found
      cases found
    | some target =>
      rw [search] at found
      simp only at found
      split at found
      · cases found
      · rename_i alive
        obtain rfl := Except.ok.inj found
        have ⟨slot_lt, sameId⟩ := schedFindTask_spec search
        exact ⟨slot_lt, sameId, alive⟩

lemma ArrayOk.pos_of_id (ok : ArrayOk s) (nonzero : (s.tasks slot).id ≠ 0) : 0 < slot := by
  rcases Nat.eq_zero_or_pos slot with rfl | pos
  · exact absurd ok.idle_id nonzero
  · exact pos

end Functions

section Steps

variable {k k' entered : Kernel} {e : KernelEvent} {how : Resume}

section
variable (k) (how)

lemma pass_rest :
    ((k.pass how).sched = schedYield k.ticks k.sched ∧ (k.pass how).inside = k.inside ∧
      (k.pass how).given = k.given ∧ (k.pass how).intFlag = true) ∧
    (k.pass how).saved =
      if (schedYield k.ticks k.sched).currentTask = k.sched.currentTask then k.saved
      else update k.saved k.sched.currentTask how := by
  simp only [Kernel.pass]
  split
  · cases how <;> exact ⟨⟨rfl, rfl, rfl, rfl⟩, rfl⟩
  · cases k.saved (schedYield k.ticks k.sched).currentTask <;> exact ⟨⟨rfl, rfl, rfl, rfl⟩, rfl⟩

@[simp] lemma pass_sched : (k.pass how).sched = schedYield k.ticks k.sched :=
  (pass_rest k how).1.1

@[simp] lemma pass_inside : (k.pass how).inside = k.inside :=
  (pass_rest k how).1.2.1

@[simp] lemma pass_given : (k.pass how).given = k.given :=
  (pass_rest k how).1.2.2.1

lemma pass_saved :
    (k.pass how).saved =
      if (schedYield k.ticks k.sched).currentTask = k.sched.currentTask then k.saved
      else update k.saved k.sched.currentTask how :=
  (pass_rest k how).2

end

/-- The ways into `sched_yield`. -/
inductive Entry (k : Kernel) : KernelEvent → Kernel → Resume → Prop
  | timer : k.preempts = true →
      Entry k .timer
        { k with
          ticks := add64 k.ticks 1, irq0InService := true, intFlag := false, inSchedule := true }
        .timer
  | yield : Entry k .yield k (.yielded .yield)
  | sleep (ticks : Nat) :
      Entry k (.sleep ticks) { k with sched := sleepCurrent k.ticks ticks k.sched }
        (.yielded .sleep)
  | wait (id : Nat) : k.waitBlocks id = true →
      Entry k (.wait id) { k with sched := blockCurrent id k.sched } (.yielded (.wait id))
  | exitYield : Entry k .exitYield k (.yielded .exit)
  | fault : Entry k .fault { k with sched := faultCurrent k.sched } (.yielded .fault)

lemma entry_of_passEntry (h : k.passEntry e = some (entered, how)) : Entry k e entered how := by
  cases e with
  | timer =>
    simp only [Kernel.passEntry] at h
    split at h
    · rename_i preempts
      cases h
      exact .timer preempts
    · cases h
  | wait id =>
    simp only [Kernel.passEntry] at h
    split at h
    · rename_i blocks
      cases h
      exact .wait id blocks
    · cases h
  | yield | sleep _ | exitYield | fault =>
    cases h
    constructor
  | setInterrupts _ | enablePreemption | exit _ | signal _ _ | signalDeliver | createFind _
  | createStack _ | createCommit | createUser _ _ | createDone => cases h

section
variable (h : Entry k e entered how)
include h

lemma Entry.inside : entered.inside = k.inside := by
  cases h <;> rfl

lemma Entry.saved : entered.saved = k.saved := by
  cases h <;> rfl

lemma Entry.given : entered.given = k.given := by
  cases h <;> rfl

lemma Entry.currentTask : entered.sched.currentTask = k.sched.currentTask := by
  cases h <;> rfl

lemma Entry.taskCount : entered.sched.taskCount = k.sched.taskCount := by
  cases h <;> rfl

lemma Entry.stackLog : entered.sched.stackLog = k.sched.stackLog := by
  cases h <;> rfl

lemma Entry.other_tasks {j : Nat} (other : j ≠ k.sched.currentTask) :
    entered.sched.tasks j = k.sched.tasks j := by
  cases h with
  | timer | yield | exitYield => rfl
  | sleep _ | wait _ | fault =>
    simp only [sleepCurrent, blockCurrent, faultCurrent, Scheduler.setState,
      modify_tasks_of_ne _ other]

end

lemma Entry.id (entry : Entry k e entered how) (j : Nat) :
    (entered.sched.tasks j).id = (k.sched.tasks j).id := by
  by_cases hj : j = k.sched.currentTask
  · subst hj
    cases entry <;> simp [sleepCurrent, blockCurrent, faultCurrent, Scheduler.setState]
  · rw [entry.other_tasks hj]

lemma ArrayOk.entry (ok : ArrayOk k.sched) (enabled : k.Enabled e) (h : Entry k e entered how) :
    ArrayOk entered.sched := by
  have pos (notIdle : k.sched.currentTask ≠ 0) := Nat.pos_of_ne_zero notIdle
  cases h with
  | timer | yield | exitYield => exact ok
  | sleep _ | fault =>
    simp only [sleepCurrent, faultCurrent, Scheduler.setState]
    exact ok.modify (pos enabled.2) ok.current_lt rfl rfl rfl rfl (.inl (by simp))
  | wait _ =>
    simp only [blockCurrent]
    exact ok.modify (pos enabled.2.1) ok.current_lt rfl rfl rfl rfl (.inl (by simp))

lemma Kernel.Ok.entry (ok : k.Ok) (enabled : k.Enabled e) (h : Entry k e entered how) :
    entered.Ok := by
  refine ⟨ok.array.entry enabled h, ?_⟩
  rw [h.inside, h.taskCount]
  exact ok.activities

lemma Kernel.Ok.pass (ok : k.Ok) (how : Resume) : (k.pass how).Ok := by
  refine ⟨?_, ?_⟩
  · rw [pass_sched]
    exact ok.array.yield
  · rw [pass_inside, pass_sched, schedYield_taskCount]
    exact ok.activities

lemma Activity.Ok.mono {count count' : Nat} {activity : Activity} (h : activity.Ok count)
    (le : count ≤ count') : activity.Ok count' := by
  cases activity with
  | found _ _ | stacked _ _ => exact ⟨h.1, Nat.le_trans h.2.1 le, h.2.2⟩
  | returned _ | signalling _ _ => exact ⟨h.1, Nat.lt_of_lt_of_le h.2 le⟩
  | exiting => trivial

lemma Kernel.Ok.setActivity (ok : k.Ok) {activity : Option Activity}
    (new : ∀ a, activity = some a → a.Ok k.sched.taskCount) : (k.setActivity activity).Ok := by
  refine ⟨ok.array, fun caller a inside => ?_⟩
  simp only [Kernel.setActivity, update_apply] at inside
  split at inside
  · exact new a inside
  · exact ok.activities caller a inside

lemma Kernel.Ok.withSched (ok : k.Ok) {sched : Scheduler} (array : ArrayOk sched)
    (count_ge : k.sched.taskCount ≤ sched.taskCount) : ({ k with sched } : Kernel).Ok :=
  ⟨array, fun caller a inside => (ok.activities caller a inside).mono count_ge⟩

lemma Kernel.Ok.activity (ok : k.Ok) {activity : Activity} (h : k.activity = some activity) :
    activity.Ok k.sched.taskCount :=
  ok.activities k.sched.currentTask activity h

/-- What a step does that does not enter `sched_yield`. -/
inductive Quiet (k : Kernel) : KernelEvent → Kernel → Prop
  | timer : Quiet k .timer { k with ticks := add64 k.ticks 1 }
  | setInterrupts (on : Bool) : Quiet k (.setInterrupts on) { k with intFlag := on }
  | enablePreemption : Quiet k .enablePreemption { k with schedActive := true }
  | answered (id : Nat) : k.waitBlocks id = false → Quiet k (.wait id) k
  | noTarget (id : Nat) (sig : Int) : Quiet k (.signal id sig) k
  | noSlot (args : CreateArgs) : Quiet k (.createFind args) k
  | exit (code : Int) : k.activity = none → k.sched.currentTask ≠ 0 →
      Quiet k (.exit code)
        { k.setActivity (some .exiting) with sched := exitCurrent code k.sched }
  | signal (id : Nat) (sig : Int) (slot : Nat) : k.activity = none → id ≠ 0 →
      signalTarget k.sched id sig = .ok slot →
      Quiet k (.signal id sig) (k.setActivity (some (.signalling slot sig.toNat)))
  | stop (slot : Nat) : k.activity = some (.signalling slot 19) →
      Quiet k .signalDeliver
        { k.setActivity none with sched := k.sched.setState slot .blocked }
  | ignore (slot : Nat) : k.activity = some (.signalling slot 17) →
      Quiet k .signalDeliver (k.setActivity none)
  | kill (slot sig : Nat) : k.activity = some (.signalling slot sig) → sig ≠ 17 → sig ≠ 19 →
      Quiet k .signalDeliver { k.setActivity none with sched := terminate k.sched slot sig }
  | find (args : CreateArgs) (slot : Nat) : k.activity = none → args.priority < numPriorities →
      findSlot k.sched = some slot →
      Quiet k (.createFind args) (k.setActivity (some (.found slot args)))
  | stack (slot : Nat) (args : CreateArgs) (stack : Nat) :
      k.activity = some (.found slot args) → stack ∉ live k.sched.stackLog →
      Quiet k (.createStack stack)
        { k.setActivity (if stack = 0 then none else some (.stacked slot args)) with
          sched := createStack k.sched slot stack
          given := update k.given slot stack }
  | commit (slot : Nat) (args : CreateArgs) : k.activity = some (.stacked slot args) →
      Quiet k .createCommit
        { { k with inside := update k.inside slot none }.setActivity
            (some (.returned slot)) with
          sched := createCommit k.sched slot args
          saved := update k.saved slot .fresh }
  | user (slot pml4 : Nat) (pendingSlot : Int) : k.activity = some (.returned slot) →
      Quiet k (.createUser pml4 pendingSlot)
        { k.setActivity none with
          sched := k.sched.modify slot fun t => { t with isUser := true, pml4, pendingSlot } }
  | done (slot : Nat) : k.activity = some (.returned slot) →
      Quiet k .createDone (k.setActivity none)

lemma ArrayOk.quiet_delivers (ok : ArrayOk k.sched) {slot sig : Nat}
    (activity : k.activity = some (.signalling slot sig)) :
    Quiet k .signalDeliver (k.quiet .signalDeliver) := by
  simp only [Kernel.quiet, activity]
  rw [deliverSignal_eq sig (ok.no_signals slot).2]
  by_cases stops : sig = 19
  · subst stops
    exact .stop slot activity
  · by_cases ignored : sig = 17
    · subst ignored
      exact .ignore slot activity
    · rw [if_neg stops, if_neg ignored]
      exact .kill slot sig activity ignored stops

lemma ArrayOk.quiet (ok : ArrayOk k.sched) (enabled : k.Enabled e)
    (notPass : k.passEntry e = none) : Quiet k e (k.quiet e) := by
  cases e with
  | timer => exact .timer
  | setInterrupts on => exact .setInterrupts on
  | enablePreemption => exact .enablePreemption
  | yield | sleep _ | exitYield | fault => cases notPass
  | wait id =>
    cases blocks : k.waitBlocks id with
    | false => exact .answered id blocks
    | true => simp [Kernel.passEntry, blocks] at notPass
  | exit code => exact .exit code enabled.1 enabled.2
  | signal id sig =>
    cases target : signalTarget k.sched id sig with
    | error _ =>
      simp only [Kernel.quiet, target]
      exact .noTarget id sig
    | ok slot =>
      simp only [Kernel.quiet, target]
      exact .signal id sig slot enabled.1 enabled.2 target
  | signalDeliver =>
    obtain ⟨slot, sig, activity⟩ := enabled
    exact ok.quiet_delivers activity
  | createFind args =>
    cases found : findSlot k.sched with
    | none =>
      simp only [Kernel.quiet, found]
      exact .noSlot args
    | some slot =>
      simp only [Kernel.quiet, found]
      exact .find args slot enabled.1 enabled.2 found
  | createStack stack =>
    obtain ⟨⟨slot, args, activity⟩, fresh⟩ := enabled
    simp only [Kernel.quiet, activity]
    exact .stack slot args stack activity fresh
  | createCommit =>
    obtain ⟨slot, args, activity⟩ := enabled
    simp only [Kernel.quiet, activity]
    exact .commit slot args activity
  | createUser pml4 pendingSlot =>
    obtain ⟨slot, activity⟩ := enabled
    simp only [Kernel.quiet, activity]
    exact .user slot pml4 pendingSlot activity
  | createDone =>
    obtain ⟨slot, activity⟩ := enabled
    exact .done slot activity

lemma KernelStep.cases (step : KernelStep k e k') (ok : k.Ok) :
    (∃ entered how, k.passEntry e = some (entered, how) ∧ k' = entered.pass how) ∨
      k.passEntry e = none ∧ Quiet k e k' := by
  have result := step.result
  unfold Kernel.next at result
  cases entry : k.passEntry e with
  | none =>
    rw [entry] at result
    exact .inr ⟨rfl, result ▸ ok.array.quiet step.enabled entry⟩
  | some pair =>
    rw [entry] at result
    exact .inl ⟨pair.1, pair.2, rfl, result⟩

lemma Quiet.currentTask (step : Quiet k e k') : k'.sched.currentTask = k.sched.currentTask := by
  cases step with
  | stack => rw [createStack_rest]
  | _ => rfl

lemma Quiet.taskCount_le (step : Quiet k e k') : k.sched.taskCount ≤ k'.sched.taskCount := by
  cases step with
  | stack => exact Nat.le_of_eq (by rw [createStack_rest])
  | commit =>
    simp only [createCommit]
    split <;> omega
  | _ => exact Nat.le_refl _

lemma Kernel.Ok.quiet (ok : k.Ok) (step : Quiet k e k') : k'.Ok := by
  have array := ok.array
  have grows := step.taskCount_le
  have idle : (k.setActivity none).Ok := ok.setActivity (by simp)
  cases step with
  | timer | setInterrupts _ | enablePreemption => exact ⟨array, ok.activities⟩
  | answered _ | noTarget _ _ | noSlot _ => exact ok
  | ignore _ | done _ => exact idle
  | exit code _ notIdle =>
    have exiting : (k.setActivity (some .exiting)).Ok :=
      ok.setActivity fun a h => Option.some.inj h ▸ trivial
    exact exiting.withSched (array.modify (Nat.pos_of_ne_zero notIdle) array.current_lt
      rfl rfl rfl rfl (.inl (by simp))) grows
  | signal id sig slot _ nonzero target =>
    have ⟨slot_lt, sameId, _⟩ := signalTarget_spec target
    have slot_pos := array.pos_of_id (sameId ▸ nonzero)
    exact ok.setActivity fun a h => Option.some.inj h ▸ ⟨slot_pos, slot_lt⟩
  | stop slot activity | kill slot _ activity =>
    have ⟨slot_pos, slot_lt⟩ := ok.activity activity
    exact idle.withSched (array.modify slot_pos slot_lt rfl rfl rfl rfl (.inl (by simp))) grows
  | find args slot _ priority_lt found =>
    have ⟨slot_pos, slot_le, slot_lt, _⟩ := findSlot_spec found array.count_pos array.count_le
    exact ok.setActivity fun a h => Option.some.inj h ▸ ⟨slot_pos, slot_le, slot_lt, priority_lt⟩
  | stack slot args stack activity =>
    have found := ok.activity activity
    have new : (k.setActivity (if stack = 0 then none else some (.stacked slot args))).Ok := by
      refine ok.setActivity fun a h => ?_
      split at h
      · cases h
      · exact Option.some.inj h ▸ found
    have created := new.withSched (array.gotStack found.1 stack) grows
    exact ⟨created.array, created.activities⟩
  | commit slot args activity =>
    have ⟨slot_pos, slot_le, slot_lt, priority_lt⟩ := ok.activity activity
    refine ⟨array.committed slot_pos slot_le slot_lt priority_lt, fun caller a inside => ?_⟩
    simp only [Kernel.setActivity, update_apply] at inside
    split at inside
    · cases inside
      refine ⟨slot_pos, ?_⟩
      simp only [createCommit]
      split <;> omega
    · split at inside
      · cases inside
      · exact (ok.activities caller a inside).mono grows
  | user slot _ _ activity =>
    have ⟨slot_pos, slot_lt⟩ := ok.activity activity
    exact idle.withSched (array.modify slot_pos slot_lt rfl rfl rfl rfl (.inr rfl)) grows

lemma Kernel.Ok.step (ok : k.Ok) (step : KernelStep k e k') : k'.Ok := by
  rcases step.cases ok with ⟨entered, how, entry, rfl⟩ | ⟨-, quiet⟩
  · exact (ok.entry step.enabled (entry_of_passEntry entry)).pass how
  · exact ok.quiet quiet

lemma Kernel.Ok.boot (ticks cr3 rsp0 : Nat) : (Kernel.boot ticks cr3 rsp0).Ok := by
  have tasks (j : Nat) : (Kernel.boot ticks cr3 rsp0).sched.tasks j =
      if j = 0 then
        { Task.zero with state := .running, name := "idle", priority := priorityIdle }
      else .zero := rfl
  refine ⟨⟨⟨Nat.zero_lt_one, fun j => ?_⟩, Nat.le_add_left 1 63, rfl, .inr rfl, fun j hj => ?_,
    fun j => ?_, fun j => ?_, fun i j same nonzero => ?_, fun j running => ?_⟩, nofun⟩
  · rw [tasks]
    split <;> decide
  · have pos : 0 < j := hj
    rw [tasks, if_neg (Nat.ne_of_gt pos)]
  · rw [tasks]
    split <;> decide
  · rw [tasks]
    split <;> exact Nat.zero_lt_one
  · rw [tasks] at nonzero
    split at nonzero <;> exact absurd rfl nonzero
  · rw [tasks] at running
    split at running
    · assumption
    · cases running

lemma kernel_ok (h : Reachable KernelBooted KernelStep k) : k.Ok := by
  refine h.invariant _ ?_ (fun _ _ _ ok step => ok.step step)
  rintro _ ⟨ticks, cr3, rsp0, rfl⟩
  exact .boot ticks cr3 rsp0

end Steps

end MicroOs.Sched
