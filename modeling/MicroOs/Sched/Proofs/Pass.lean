import MicroOs.Lib.RoundRobin
import MicroOs.Sched.Kernel

/-!
# What a scheduling pass does

`prepare` is described task by task: a task is woken, notified of the death it waits for, reaped,
or kept as it is. From this follows which tasks are ready when `pick_next` makes its choice, in
terms of the state before the pass, and which of them is chosen.
-/

namespace MicroOs.Sched
open Lib List

variable {s' : Scheduler} {slot : Nat} {slots : List Nat} {t : Task}
variable {s : Scheduler} {now i j : Nat}

/-- `cleanup_dead_tasks` clears up the slot: its task is dead and not the current one. -/
def Reapable (s : Scheduler) (i : Nat) : Prop :=
  0 < i ∧ i < s.taskCount ∧ (s.tasks i).state = .dead ∧ i ≠ s.currentTask

/-- The task of slot `j` waits for the dead task of slot `i`. -/
def NotifiedBy (s : Scheduler) (j i : Nat) : Prop :=
  Reapable s i ∧ j < s.taskCount ∧ (s.tasks j).state = .blocked ∧
    (s.tasks i).id = (s.tasks j).waitForId

/-- The task of slot `j` sleeps and its deadline has passed. -/
def Due (now : Nat) (s : Scheduler) (j : Nat) : Prop :=
  j < s.taskCount ∧ (s.tasks j).state = .sleeping ∧ (s.tasks j).wakeTick ≤ now

/-- The task of slot `j` is ready by the time `pick_next` makes its choice. -/
def ReadyAfterWake (now : Nat) (s : Scheduler) (j : Nat) : Prop :=
  (j < s.taskCount ∧ (s.tasks j).state = .ready) ∨ Due now s j ∨ ∃ i, NotifiedBy s j i

/-- The task that a pass makes the current one: a ready task that comes before all other ready
tasks, or task 0 when no task is ready. -/
def NextIs (now : Nat) (s : Scheduler) (i : Nat) : Prop :=
  (ReadyAfterWake now s i ∧ ∀ j, ReadyAfterWake now s j →
    Precedes s.taskCount s.currentTask (fun slot => (s.tasks slot).priority) i j) ∨
  (∀ j, ¬ ReadyAfterWake now s j) ∧ i = 0

/-- What the iterations for the slots in `slots` make of the task of slot `j`. -/
inductive Cleaned (s : Scheduler) (slots : List Nat) (j : Nat) : Task → Prop
  | notified (i : Nat) : i ∈ slots → NotifiedBy s j i →
      Cleaned s slots j
        { s.tasks j with state := .ready, exitCode := (s.tasks i).exitCode, waitForId := 0 }
  | reaped : j ∈ slots → Reapable s j → Cleaned s slots j { s.tasks j with stackBase := 0 }
  | kept : (j ∈ slots → ¬ Reapable s j) → (∀ i ∈ slots, ¬ NotifiedBy s j i) →
      Cleaned s slots j (s.tasks j)

/-- The slots among `slots` that are cleared up. -/
def reapedSlots (s : Scheduler) (slots : List Nat) : List Nat :=
  slots.filter fun i => (s.tasks i).state = .dead ∧ i ≠ s.currentTask

/-- The calls of `kfree` this makes, in order. -/
def frees (s : Scheduler) (slots : List Nat) : List (AllocEvent Nat) :=
  ((reapedSlots s slots).filter fun i => (s.tasks i).stackBase ≠ 0).map
    fun i => .free (s.tasks i).stackBase

/-- The state in the middle of the loop of `cleanup_dead_tasks`. -/
structure CleanedUp (s : Scheduler) (slots : List Nat) (s' : Scheduler) : Prop where
  tasks : ∀ j, Cleaned s slots j (s'.tasks j)
  log : s'.stackLog = (frees s slots).reverse ++ s.stackLog
  rest : s' = { s with tasks := s'.tasks, stackLog := s'.stackLog }

lemma CleanedUp.taskCount (h : CleanedUp s slots s') :
    s'.taskCount = s.taskCount := by rw [h.rest]

lemma CleanedUp.currentTask (h : CleanedUp s slots s') :
    s'.currentTask = s.currentTask := by rw [h.rest]

lemma freeStack_tasks (slot : Nat) :
    (freeStack s slot).tasks =
      Function.update s.tasks slot { s.tasks slot with stackBase := 0 } := by
  simp only [freeStack]
  split
  · rename_i none
    rw [← none, Function.update_eq_self]
  · rfl

lemma freeStack_log (slot : Nat) :
    (freeStack s slot).stackLog =
      if (s.tasks slot).stackBase = 0 then s.stackLog
      else .free (s.tasks slot).stackBase :: s.stackLog := by
  simp only [freeStack]
  split <;> rfl

lemma freeStack_rest (slot : Nat) :
    freeStack s slot =
      { s with tasks := (freeStack s slot).tasks, stackLog := (freeStack s slot).stackLog } := by
  simp only [freeStack]
  split <;> rfl

lemma Cleaned.unvisited (h : Cleaned s slots j t) (fresh : j ∉ slots) :
    (t.state = .dead ↔ (s.tasks j).state = .dead) ∧ (t.state = .dead → t = s.tasks j) := by
  cases h with
  | notified i hi notified => simp [notified.2.2.1]
  | reaped hj reaps => exact absurd hj fresh
  | kept notReaped notNotified => simp

lemma Cleaned.skip (h : Cleaned s slots j t) (skipped : ¬ Reapable s slot) :
    Cleaned s (slots ++ [slot]) j t := by
  cases h with
  | notified i hi notified => exact .notified i (mem_append_left _ hi) notified
  | reaped hj reaps => exact .reaped (mem_append_left _ hj) reaps
  | kept notReaped notNotified =>
    refine .kept (fun hj reaps => ?_) (fun i hi notified => ?_)
    · rcases mem_append.mp hj with hj | hj
      · exact notReaped hj reaps
      · exact skipped (mem_singleton.mp hj ▸ reaps)
    · rcases mem_append.mp hi with hi | hi
      · exact notNotified i hi notified
      · exact skipped (mem_singleton.mp hi ▸ notified.1)

lemma wakeWaiter_of_not_blocked (h : t.state ≠ .blocked) (id : Nat) (code : Int) :
    wakeWaiter id code t = t :=
  if_neg fun waits => h waits.1

lemma Cleaned.wake (h : Cleaned s slots j t) (reaps : Reapable s slot) (other : j ≠ slot) :
    Cleaned s (slots ++ [slot]) j
      (if j < s.taskCount then wakeWaiter (s.tasks slot).id (s.tasks slot).exitCode t else t) := by
  cases h with
  | notified i hi notified =>
    rw [wakeWaiter_of_not_blocked (by simp), ite_self]
    exact .notified i (mem_append_left _ hi) notified
  | reaped hj reaped =>
    rw [wakeWaiter_of_not_blocked (by simp [reaped.2.2.1]), ite_self]
    exact .reaped (mem_append_left _ hj) reaped
  | kept notReaped notNotified =>
    by_cases notified : NotifiedBy s j slot
    · have ⟨_, hj, blocked, sameId⟩ := notified
      simp only [wakeWaiter, hj, blocked, sameId, if_true, and_self]
      exact .notified slot (mem_append_right _ (mem_singleton_self _)) notified
    · have unchanged :
          (if j < s.taskCount then
            wakeWaiter (s.tasks slot).id (s.tasks slot).exitCode (s.tasks j)
          else s.tasks j) = s.tasks j := by
        unfold wakeWaiter
        split
        · rename_i hj
          exact if_neg fun waits => notified ⟨reaps, hj, waits.1, waits.2.symm⟩
        · rfl
      rw [unchanged]
      refine .kept (fun hj => ?_) (fun i hi => ?_)
      · rcases mem_append.mp hj with hj | hj
        · exact notReaped hj
        · exact absurd (mem_singleton.mp hj) other
      · rcases mem_append.mp hi with hi | hi
        · exact notNotified i hi
        · exact mem_singleton.mp hi ▸ notified

lemma frees_append (slots : List Nat) (slot : Nat) :
    frees s (slots ++ [slot]) = frees s slots ++ frees s [slot] := by
  simp [frees, reapedSlots]

lemma CleanedUp.step (h : CleanedUp s slots s') (fresh : slot ∉ slots)
    (inRange : 0 < slot ∧ slot < s.taskCount) :
    CleanedUp s (slots ++ [slot]) (cleanupSlot s' slot) := by
  obtain ⟨deadIff, sameTask⟩ := (h.tasks slot).unvisited fresh
  by_cases reaps : Reapable s slot
  · have same : s'.tasks slot = s.tasks slot := sameTask (deadIff.mpr reaps.2.2.1)
    have unfolded : cleanupSlot s' slot =
        freeStack (s'.mapTasks (wakeWaiter (s.tasks slot).id (s.tasks slot).exitCode)) slot := by
      unfold cleanupSlot
      rw [same, h.currentTask]
      simp [reaps.2.2.1, reaps.2.2.2]
    -- the dead task itself is not blocked, so the wake-up loop leaves it alone
    have own : (s'.mapTasks (wakeWaiter (s.tasks slot).id (s.tasks slot).exitCode)).tasks slot =
        s.tasks slot := by
      simp only [Scheduler.mapTasks, same]
      rw [wakeWaiter_of_not_blocked (by simp [reaps.2.2.1]), ite_self]
    rw [unfolded]
    refine ⟨fun j => ?_, ?_, ?_⟩
    · rw [freeStack_tasks, own]
      by_cases hj : j = slot
      · subst hj
        rw [Function.update_self]
        exact .reaped (mem_append_right _ (mem_singleton_self _)) reaps
      · rw [Function.update_of_ne hj]
        simpa only [Scheduler.mapTasks, h.taskCount] using (h.tasks j).wake reaps hj
    · rw [freeStack_log, own, frees_append]
      simp only [Scheduler.mapTasks, h.log]
      by_cases hasStack : (s.tasks slot).stackBase = 0
      · simp [frees, reapedSlots, hasStack, reaps.2.2.1, reaps.2.2.2]
      · simp [frees, reapedSlots, hasStack, reaps.2.2.1, reaps.2.2.2]
    · rw [freeStack_rest]
      simp only [Scheduler.mapTasks]
      rw [h.rest]
  · have unchanged : cleanupSlot s' slot = s' := by
      unfold cleanupSlot
      simp only [ne_eq, deadIff, h.currentTask]
      split
      · rfl
      · rename_i dead
        exact if_pos (by_contra fun other => reaps ⟨inRange.1, inRange.2, not_not.mp dead, other⟩)
    rw [unchanged]
    refine ⟨fun j => (h.tasks j).skip reaps, ?_, h.rest⟩
    have nothing : reapedSlots s [slot] = [] := by
      simp only [reapedSlots, filter_eq_nil_iff, mem_singleton, decide_eq_true_eq]
      rintro _ rfl ⟨dead, other⟩
      exact reaps ⟨inRange.1, inRange.2, dead, other⟩
    have nothingFreed : frees s [slot] = [] := by
      rw [frees, nothing]
      rfl
    rw [frees_append, nothingFreed, append_nil, h.log]

lemma cleanupDeadTasks_spec (s : Scheduler) :
    CleanedUp s (range' 1 (s.taskCount - 1)) (cleanupDeadTasks s) := by
  have prefixes : ∀ n ≤ s.taskCount - 1,
      CleanedUp s (range' 1 n) ((range' 1 n).foldl cleanupSlot s) := by
    intro n
    induction n with
    | zero =>
      intro _
      exact ⟨fun j => .kept (by simp) (by simp), by simp [frees, reapedSlots], rfl⟩
    | succ n ih =>
      intro hn
      rw [range'_concat, foldl_append]
      refine (ih (by omega)).step ?_ (by omega)
      simp [mem_range'_1]
  exact prefixes _ (Nat.le_refl _)

/-- What the first half of `pick_next` makes of the task of slot `j`. -/
inductive Prepared (now : Nat) (s : Scheduler) (j : Nat) : Task → Prop
  | woken : Due now s j → Prepared now s j { s.tasks j with state := .ready }
  | notified (i : Nat) : NotifiedBy s j i →
      Prepared now s j
        { s.tasks j with state := .ready, exitCode := (s.tasks i).exitCode, waitForId := 0 }
  | reaped : Reapable s j → Prepared now s j { s.tasks j with stackBase := 0 }
  | kept : ¬ Due now s j → (∀ i, ¬ NotifiedBy s j i) → ¬ Reapable s j →
      Prepared now s j (s.tasks j)

lemma mapTasks_wakeSleeper_of_due (due : Due now s j) :
    (s.mapTasks (wakeSleeper now)).tasks j = { s.tasks j with state := .ready } := by
  simp only [Scheduler.mapTasks, if_pos due.1]
  exact if_pos due.2

lemma mapTasks_wakeSleeper_of_not_due (notDue : ¬ Due now s j) :
    (s.mapTasks (wakeSleeper now)).tasks j = s.tasks j := by
  simp only [Scheduler.mapTasks]
  split
  · rename_i hj
    exact if_neg fun due => notDue ⟨hj, due⟩
  · rfl

lemma mapTasks_wakeSleeper_dead :
    ((s.mapTasks (wakeSleeper now)).tasks j).state = .dead ↔ (s.tasks j).state = .dead := by
  by_cases due : Due now s j
  · rw [mapTasks_wakeSleeper_of_due due]
    simp [due.2.1]
  · rw [mapTasks_wakeSleeper_of_not_due due]

lemma mapTasks_wakeSleeper_of_dead (dead : (s.tasks j).state = .dead) :
    (s.mapTasks (wakeSleeper now)).tasks j = s.tasks j :=
  mapTasks_wakeSleeper_of_not_due fun due => by simp [due.2.1] at dead

lemma reapable_mapTasks : Reapable (s.mapTasks (wakeSleeper now)) i ↔ Reapable s i := by
  unfold Reapable
  rw [mapTasks_wakeSleeper_dead]
  rfl

lemma notifiedBy_mapTasks : NotifiedBy (s.mapTasks (wakeSleeper now)) j i ↔ NotifiedBy s j i := by
  unfold NotifiedBy
  rw [reapable_mapTasks]
  refine and_congr_right fun reaps => and_congr_right fun hj => ?_
  rw [mapTasks_wakeSleeper_of_dead reaps.2.2.1]
  by_cases due : Due now s j
  · rw [mapTasks_wakeSleeper_of_due due]
    simp [due.2.1]
  · rw [mapTasks_wakeSleeper_of_not_due due]

lemma mem_cleanup_slots (reaps : Reapable s i) : i ∈ range' 1 (s.taskCount - 1) := by
  rw [mem_range'_1]
  have := reaps.1
  have := reaps.2.1
  omega

lemma prepare_task (now : Nat) (s : Scheduler) (j : Nat) :
    Prepared now s j ((prepare now s).tasks j) := by
  have cleaned := (cleanupDeadTasks_spec (s.mapTasks (wakeSleeper now))).tasks j
  change Cleaned _ _ j ((prepare now s).tasks j) at cleaned
  generalize (prepare now s).tasks j = t at cleaned
  cases cleaned with
  | notified i hi notified =>
    rw [notifiedBy_mapTasks] at notified
    have ⟨reaps, _, blocked, _⟩ := notified
    rw [mapTasks_wakeSleeper_of_dead reaps.2.2.1,
      mapTasks_wakeSleeper_of_not_due fun due => by simp [due.2.1] at blocked]
    exact .notified i notified
  | reaped hj reaps =>
    rw [reapable_mapTasks] at reaps
    rw [mapTasks_wakeSleeper_of_dead reaps.2.2.1]
    exact .reaped reaps
  | kept notReaped notNotified =>
    by_cases due : Due now s j
    · rw [mapTasks_wakeSleeper_of_due due]
      exact .woken due
    · rw [mapTasks_wakeSleeper_of_not_due due]
      refine .kept due (fun i notified => ?_) (fun reaps => ?_)
      · exact notNotified i (mem_cleanup_slots (reapable_mapTasks.mpr notified.1))
          (notifiedBy_mapTasks.mpr notified)
      · exact notReaped (mem_cleanup_slots (reapable_mapTasks.mpr reaps))
          (reapable_mapTasks.mpr reaps)

lemma prepare_rest :
    prepare now s =
      { s with tasks := (prepare now s).tasks, stackLog := (prepare now s).stackLog } :=
  (cleanupDeadTasks_spec (s.mapTasks (wakeSleeper now))).rest

@[simp] lemma prepare_taskCount : (prepare now s).taskCount = s.taskCount := by
  rw [prepare_rest]

@[simp] lemma prepare_currentTask : (prepare now s).currentTask = s.currentTask := by
  rw [prepare_rest]

lemma prepare_stackLog :
    (prepare now s).stackLog =
      (frees s (range' 1 (s.taskCount - 1))).reverse ++ s.stackLog := by
  have log := (cleanupDeadTasks_spec (s.mapTasks (wakeSleeper now))).log
  have sameSlots (slots : List Nat) :
      reapedSlots (s.mapTasks (wakeSleeper now)) slots = reapedSlots s slots := by
    unfold reapedSlots
    simp only [mapTasks_wakeSleeper_dead]
    rfl
  have sameTask (slots : List Nat) (i : Nat) (hi : i ∈ reapedSlots s slots) :
      (s.mapTasks (wakeSleeper now)).tasks i = s.tasks i :=
    mapTasks_wakeSleeper_of_dead (of_decide_eq_true (mem_filter.mp hi).2).1
  have same (slots : List Nat) : frees (s.mapTasks (wakeSleeper now)) slots = frees s slots := by
    unfold frees
    rw [sameSlots]
    have filtered : ((reapedSlots s slots).filter fun i =>
          ((s.mapTasks (wakeSleeper now)).tasks i).stackBase ≠ 0) =
        (reapedSlots s slots).filter fun i => (s.tasks i).stackBase ≠ 0 :=
      filter_congr fun i hi => by rw [sameTask slots i hi]
    rw [filtered]
    exact map_congr_left fun i hi => by
      rw [sameTask slots i (mem_of_mem_filter hi)]
  rw [same] at log
  exact log

lemma Prepared.record (h : Prepared now s j t) :
    t = { s.tasks j with
      state := t.state, exitCode := t.exitCode, waitForId := t.waitForId,
      stackBase := t.stackBase } := by
  cases h <;> rfl

lemma Prepared.ready_iff (h : Prepared now s j t) (hj : j < s.taskCount) :
    t.state = .ready ↔ ReadyAfterWake now s j := by
  cases h with
  | woken due => exact iff_of_true rfl (.inr (.inl due))
  | notified i notified => exact iff_of_true rfl (.inr (.inr ⟨i, notified⟩))
  | reaped reaps =>
    refine iff_of_false (by simp [reaps.2.2.1]) ?_
    rintro (⟨-, ready⟩ | due | ⟨i, notified⟩)
    · simp [reaps.2.2.1] at ready
    · exact absurd due.2.1 (by simp [reaps.2.2.1])
    · exact absurd notified.2.2.1 (by simp [reaps.2.2.1])
  | kept notDue notNotified notReaped =>
    constructor
    · exact fun ready => .inl ⟨hj, ready⟩
    · rintro (⟨-, ready⟩ | due | ⟨i, notified⟩)
      · exact ready
      · exact absurd due notDue
      · exact absurd notified (notNotified i)

lemma ReadyAfterWake.lt_taskCount (h : ReadyAfterWake now s j) : j < s.taskCount := by
  rcases h with ⟨hj, -⟩ | due | ⟨i, notified⟩
  · exact hj
  · exact due.1
  · exact notified.2.1

lemma pickReady_eq :
    pickReady s =
      (pickByLevel s.taskCount s.currentTask numPriorities
        (fun i => (s.tasks i).state = .ready) (fun i => (s.tasks i).priority)).getD 0 := by
  simp only [pickReady, pickByLevel, oneRound, decide_eq_true_eq]
  rfl

/-- What the array looks like in every reachable state, as far as `pick_next` relies on it. -/
structure Schedulable (s : Scheduler) : Prop where
  current_lt : s.currentTask < s.taskCount
  priority_lt : ∀ j, (s.tasks j).priority < numPriorities

lemma prepare_priority : ((prepare now s).tasks j).priority = (s.tasks j).priority := by
  rw [(prepare_task now s j).record]

lemma pickReady_prepare (ok : Schedulable s) : NextIs now s i ↔ pickReady (prepare now s) = i := by
  have current_lt := ok.current_lt
  rw [pickReady_eq]
  simp only [prepare_taskCount, prepare_currentTask, prepare_priority]
  have ready_iff (j : Nat) (hj : j < s.taskCount) := (prepare_task now s j).ready_iff hj
  have levels_ok : ∀ j < s.taskCount, decide (((prepare now s).tasks j).state = .ready) = true →
      (s.tasks j).priority < numPriorities := fun j _ _ => ok.priority_lt j
  cases chosen : pickByLevel s.taskCount s.currentTask numPriorities
      (fun i => ((prepare now s).tasks i).state = .ready) (fun i => (s.tasks i).priority) with
  | none =>
    have noneReady : ∀ j, ¬ ReadyAfterWake now s j := by
      intro j ready
      have hj := ready.lt_taskCount
      have above := (pickByLevel_eq_none current_lt).mp chosen j hj
        (decide_eq_true ((ready_iff j hj).mpr ready))
      have := ok.priority_lt j
      omega
    constructor
    · rintro (⟨ready, -⟩ | ⟨-, rfl⟩)
      · exact absurd ready (noneReady i)
      · rfl
    · rintro rfl
      exact .inr ⟨noneReady, rfl⟩
  | some slot =>
    obtain ⟨hslot, ready, first⟩ := (pickByLevel_eq_some_iff current_lt levels_ok).mp chosen
    rw [decide_eq_true_eq, ready_iff slot hslot] at ready
    constructor
    · rintro (⟨ready', first'⟩ | ⟨noneReady, -⟩)
      · have hi := ready'.lt_taskCount
        have again := (pickByLevel_eq_some_iff current_lt levels_ok).mpr
          ⟨hi, decide_eq_true ((ready_iff i hi).mpr ready'), fun j hj hready =>
            first' j ((ready_iff j hj).mp (of_decide_eq_true hready))⟩
        exact Option.mem_unique chosen again
      · exact absurd ready (noneReady slot)
    · rintro rfl
      refine .inl ⟨ready, fun j hj => first j hj.lt_taskCount ?_⟩
      exact decide_eq_true ((ready_iff j hj.lt_taskCount).mpr hj)

/-- The state of the task of slot `j` after the switch from `prev` to `next`. -/
def handover (prev next j : Nat) (state : TaskState) : TaskState :=
  if next = prev then state
  else if j = next then .running
  else if j = prev ∧ state = .running then .ready
  else state

lemma loadRsp0_rest (next : Nat) : loadRsp0 s next = { s with rsp0 := (loadRsp0 s next).rsp0 } := by
  unfold loadRsp0
  split <;> rfl

lemma loadCr3_rest (prev next : Nat) :
    loadCr3 s prev next = { s with cr3 := (loadCr3 s prev next).cr3 } := by
  unfold loadCr3
  split
  · rfl
  · split <;> rfl

lemma switchTo_rest (next : Nat) :
    switchTo s next = { s with tasks := (switchTo s next).tasks, currentTask := next } := by
  simp only [switchTo]
  split <;> rfl

lemma switchTo_tasks {next : Nat} (other : next ≠ s.currentTask) (j : Nat) :
    (switchTo s next).tasks j =
      { s.tasks j with state := handover s.currentTask next j (s.tasks j).state } := by
  simp only [switchTo, handover, if_neg other]
  by_cases running : (s.tasks s.currentTask).state = .running
  all_goals
    by_cases isNext : j = next
    · subst isNext
      simp [running, Scheduler.setState, Scheduler.modify, other]
    · by_cases isPrev : j = s.currentTask
      · subst isPrev
        simp [running, Scheduler.setState, Scheduler.modify, isNext]
      · simp [running, Scheduler.setState, Scheduler.modify, isNext, isPrev]

lemma schedYield_rest :
    schedYield now s =
      { s with
        tasks := (schedYield now s).tasks, currentTask := (schedYield now s).currentTask
        stackLog := (prepare now s).stackLog
        cr3 := (schedYield now s).cr3, rsp0 := (schedYield now s).rsp0 } := by
  simp only [schedYield]
  split
  · rw [prepare_rest]
  · unfold installTask
    rw [loadCr3_rest, loadRsp0_rest, switchTo_rest, prepare_rest]

lemma schedYield_currentTask : (schedYield now s).currentTask = pickReady (prepare now s) := by
  simp only [schedYield]
  split
  · exact Eq.symm ‹_›
  · unfold installTask
    rw [loadCr3_rest, loadRsp0_rest, switchTo_rest]

lemma schedYield_tasks (now : Nat) (s : Scheduler) (j : Nat) :
    (schedYield now s).tasks j =
      { (prepare now s).tasks j with
        state := handover s.currentTask (schedYield now s).currentTask j
          ((prepare now s).tasks j).state } := by
  rw [schedYield_currentTask]
  simp only [schedYield]
  split
  · rename_i stays
    rw [prepare_currentTask] at stays
    simp only [handover, if_pos stays]
  · rename_i other
    unfold installTask
    rw [loadCr3_rest, loadRsp0_rest, switchTo_tasks other, prepare_currentTask]

lemma nextIs_iff (ok : Schedulable s) : NextIs now s i ↔ (schedYield now s).currentTask = i := by
  rw [schedYield_currentTask]
  exact pickReady_prepare ok

lemma nextIs_lt (ok : Schedulable s) (h : NextIs now s i) : i < s.taskCount := by
  rcases h with ⟨ready, -⟩ | ⟨-, rfl⟩
  · exact ready.lt_taskCount
  · exact Nat.lt_of_le_of_lt (Nat.zero_le _) ok.current_lt

end MicroOs.Sched
