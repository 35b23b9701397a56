import MicroOs.Sync.Sync

/-!
# Exclusion, counts and wait queues

A mutex excludes and a semaphore counts, whatever the tasks do in between. The wait queue is another
matter: a waiter enters itself on each pass, and an acquisition does not take it out again.
-/

namespace MicroOs.Sync
open Lib List

variable {initial x : CInt}
variable {R T : Type} [DecidableEq T] {p : Primitive R} {id : T → BitVec 64} {owned : Bool}
  {s s' : LockSys R T} {e : LockEvent T}

inductive LockEffect (p : Primitive R) (id : T → BitVec 64) (owned : Bool) (s : LockSys R T) :
    LockEvent T → LockSys R T → Prop
  | call {t : T} (outside : t ∉ s.waiting) :
      LockEffect p id owned s (.call t) { s with waiting := t :: s.waiting }
  | acquire {t : T} (inside : t ∈ s.waiting) (free : p.free s.lock.resource = true) :
      LockEffect p id owned s (.pass t)
        { lock := { s.lock with resource := p.take (toInt (id t)) s.lock.resource }
          waiting := s.waiting.filter (· ≠ t)
          taken := t :: s.taken
          given := s.given }
  | enqueue {t : T} (inside : t ∈ s.waiting) (busy : p.free s.lock.resource = false)
      (room : s.lock.waitQueue.length < p.queueSize) :
      LockEffect p id owned s (.pass t)
        { s with lock := { s.lock with waitQueue := s.lock.waitQueue ++ [toInt (id t)] } }
  | full {t : T} (inside : t ∈ s.waiting) (busy : p.free s.lock.resource = false)
      (none : p.queueSize ≤ s.lock.waitQueue.length) : LockEffect p id owned s (.pass t) s
  | took {t : T} (outside : t ∉ s.waiting) (free : p.free s.lock.resource = true) :
      LockEffect p id owned s (.tryTake t)
        { s with
          lock := { s.lock with resource := p.take (toInt (id t)) s.lock.resource }
          taken := t :: s.taken }
  | failed {t : T} (outside : t ∉ s.waiting) (busy : p.free s.lock.resource = false) :
      LockEffect p id owned s (.tryTake t) s
  | release {t : T} (outside : t ∉ s.waiting) (holder : owned = true → s.Holds t) :
      LockEffect p id owned s (.release t)
        { s with
          lock := ⟨p.give s.lock.resource, s.lock.waitQueue.tail⟩
          given := t :: s.given }

lemma LockStep.effect (step : LockStep p id owned s e s') : LockEffect p id owned s e s' := by
  obtain ⟨allowed, rfl⟩ := step
  cases e with
  | call t => exact .call allowed
  | pass t =>
    unfold LockSys.next Primitive.pass
    cases free : p.free s.lock.resource with
    | true => exact .acquire allowed free
    | false =>
      by_cases room : s.lock.waitQueue.length < p.queueSize
      · simp only [Bool.false_eq_true, ↓reduceIte, room]
        exact .enqueue allowed free room
      · simp only [Bool.false_eq_true, ↓reduceIte, room]
        exact .full allowed free (Nat.le_of_not_lt room)
  | tryTake t =>
    unfold LockSys.next Primitive.tryTake
    cases free : p.free s.lock.resource with
    | true => exact .took allowed free
    | false => exact .failed allowed free
  | release t => exact .release allowed.1 allowed.2

/-- A task has released as often as it has acquired. -/
def LockSys.Balanced (s : LockSys R T) (t : T) : Prop := s.taken.count t = s.given.count t

/-- The mutex is free and nobody holds it, or one task holds it. -/
inductive MutexInv (id : T → BitVec 64) (s : LockSys MutexWord T) : Prop
  | free (word : s.lock.resource = ⟨0, -1⟩) (all : ∀ u, s.Balanced u)
  | held (t : T) (word : s.lock.resource = ⟨1, toInt (id t)⟩)
      (once : s.taken.count t = s.given.count t + 1) (others : ∀ u, u ≠ t → s.Balanced u)

lemma MutexInv.take {m : LockSys MutexWord T} (inv : MutexInv id m)
    (free : mutex.free m.lock.resource = true) (t : T) {m' : LockSys MutexWord T}
    (word : m'.lock.resource = ⟨1, toInt (id t)⟩) (taken : m'.taken = t :: m.taken)
    (given : m'.given = m.given) : MutexInv id m' := by
  cases inv with
  | held u was once others =>
    rw [was] at free
    exact absurd free (by simp [mutex])
  | free was all =>
    refine .held t word ?_ fun u other => ?_
    · rw [taken, given, count_cons_self, all t]
    · unfold LockSys.Balanced
      rw [taken, given, count_cons_of_ne (Ne.symm other)]
      exact all u

lemma MutexInv.give {m : LockSys MutexWord T} (inv : MutexInv id m) {t : T} (holder : m.Holds t)
    {m' : LockSys MutexWord T} (word : m'.lock.resource = ⟨0, -1⟩) (taken : m'.taken = m.taken)
    (given : m'.given = t :: m.given) : MutexInv id m' := by
  have balanced : ∀ u, m.Balanced u → ¬ m.Holds u := by
    intro u same more
    unfold LockSys.Balanced at same
    unfold LockSys.Holds at more
    omega
  cases inv with
  | free was all => exact absurd holder (balanced t (all t))
  | held v was once others =>
    obtain rfl : t = v := by
      by_contra other
      exact balanced t (others t other) holder
    refine .free word fun u => ?_
    unfold LockSys.Balanced
    by_cases same : u = t
    · rw [taken, given, same, count_cons_self, once]
    · rw [taken, given, count_cons_of_ne (Ne.symm same)]
      exact others u same

lemma MutexInv.step {m m' : LockSys MutexWord T} {e : LockEvent T} (inv : MutexInv id m)
    (step : LockStep mutex id true m e m') : MutexInv id m' := by
  have same : ∀ {m' : LockSys MutexWord T}, m'.lock.resource = m.lock.resource →
      m'.taken = m.taken → m'.given = m.given → MutexInv id m' := by
    intro m' word taken given
    cases inv with
    | free was all =>
      refine .free (word.trans was) fun u => ?_
      unfold LockSys.Balanced
      rw [taken, given]
      exact all u
    | held t was once others =>
      refine .held t (word.trans was) (by rw [taken, given, once]) fun u other => ?_
      unfold LockSys.Balanced
      rw [taken, given]
      exact others u other
  cases step.effect with
  | call => exact same rfl rfl rfl
  | acquire inside free => exact inv.take free _ rfl rfl rfl
  | enqueue => exact same rfl rfl rfl
  | full => exact inv
  | took outside free => exact inv.take free _ rfl rfl rfl
  | failed => exact inv
  | release outside holder => exact inv.give (holder rfl) rfl rfl rfl

structure MutexExcludes (id : T → BitVec 64) (s : LockSys MutexWord T) : Prop where
  unique : ∀ t u, s.Holds t → s.Holds u → t = u
  once : ∀ t, s.taken.count t ≤ s.given.count t + 1
  locked : s.lock.resource.locked = 1 ↔ ∃ t, s.Holds t
  unlocked : s.lock.resource.locked = 0 ↔ ¬∃ t, s.Holds t
  owner : ∀ t, s.Holds t → s.lock.resource.owner = toInt (id t)

lemma MutexInv.excludes {m : LockSys MutexWord T} (inv : MutexInv id m) : MutexExcludes id m := by
  cases inv with
  | free word all =>
    have nobody : ∀ t, ¬ m.Holds t := by
      intro t more
      exact absurd more (Nat.not_lt.mpr (Nat.le_of_eq (all t)))
    refine ⟨fun t u h => absurd h (nobody t), fun t => ?_, ?_, ?_, fun t h => absurd h (nobody t)⟩
    · exact Nat.le_succ_of_le (Nat.le_of_eq (all t))
    · rw [word]
      exact ⟨fun h => absurd h (by decide), fun ⟨t, h⟩ => absurd h (nobody t)⟩
    · rw [word]
      exact ⟨fun _ ⟨t, h⟩ => nobody t h, fun _ => rfl⟩
  | held t word once others =>
    have only : ∀ u, m.Holds u → u = t := by
      intro u more
      by_contra other
      exact absurd more (Nat.not_lt.mpr (Nat.le_of_eq (others u other)))
    have holder : m.Holds t := by
      unfold LockSys.Holds
      omega
    refine ⟨fun u v hu hv => (only u hu).trans (only v hv).symm, fun u => ?_, ?_, ?_, ?_⟩
    · by_cases same : u = t
      · exact Nat.le_of_eq (by rw [same, once])
      · exact Nat.le_succ_of_le (Nat.le_of_eq (others u same))
    · rw [word]
      exact ⟨fun _ => ⟨t, holder⟩, fun _ => rfl⟩
    · have taken : (1 : BitVec 32) ≠ 0 := by decide
      rw [word]
      exact ⟨fun free => absurd free taken, fun nobody => absurd ⟨t, holder⟩ nobody⟩
    · intro u hu
      rw [word, only u hu]

lemma mutex_excludes {trace : List (StepOf (LockSys MutexWord T) (LockEvent T))}
    {m : LockSys MutexWord T} (run : Run (LockStep mutex id true) (.start mutexInit) trace m) :
    MutexExcludes id m := by
  apply MutexInv.excludes
  apply run.invariant (MutexInv id) (.free rfl fun _ => rfl)
  intro a e b inv step
  exact inv.step step

lemma toInt_sub_one (positive : 0 < x.toInt) : (x - 1).toInt = x.toInt - 1 := by
  have one : (1 : CInt).toInt = 1 := by decide
  have upper := BitVec.toInt_lt (x := x)
  rw [BitVec.toInt_sub, one, Int.bmod_eq_of_le (by omega) (by omega)]

lemma toInt_add_one (room : x.toInt + 1 < 2 ^ 31) : (x + 1).toInt = x.toInt + 1 := by
  have one : (1 : CInt).toInt = 1 := by decide
  have lower := BitVec.le_toInt x
  rw [BitVec.toInt_add, one, Int.bmod_eq_of_le (by omega) (by omega)]

/-- `count` is the initial value with the completed signals and without the completed waits. -/
structure SemCounts (initial : CInt) (s : LockSys CInt T) : Prop where
  count : s.lock.resource.toInt = initial.toInt + s.given.length - s.taken.length
  nonneg : 0 ≤ s.lock.resource.toInt

omit [DecidableEq T] in
lemma SemCounts.take {m : LockSys CInt T} (counts : SemCounts initial m)
    (free : semaphore.free m.lock.resource = true) {t : T} {m' : LockSys CInt T}
    (count : m'.lock.resource = m.lock.resource - 1) (taken : m'.taken = t :: m.taken)
    (given : m'.given = m.given) : SemCounts initial m' := by
  have positive : 0 < m.lock.resource.toInt := by
    have less : BitVec.slt 0 m.lock.resource = true := free
    rw [BitVec.slt_iff_toInt_lt] at less
    exact less
  have minus : m'.lock.resource.toInt = m.lock.resource.toInt - 1 := by
    rw [count]
    exact toInt_sub_one positive
  have before := counts.count
  constructor
  · rw [minus, taken, given, length_cons]
    omega
  · omega

omit [DecidableEq T] in
lemma SemCounts.give {m : LockSys CInt T} (counts : SemCounts initial m) {t : T}
    {m' : LockSys CInt T} (few : initial.toInt + m'.given.length < 2 ^ 31)
    (count : m'.lock.resource = m.lock.resource + 1) (taken : m'.taken = m.taken)
    (given : m'.given = t :: m.given) : SemCounts initial m' := by
  have before := counts.count
  have nonneg := counts.nonneg
  rw [given, length_cons] at few
  have plus : m'.lock.resource.toInt = m.lock.resource.toInt + 1 := by
    rw [count]
    exact toInt_add_one (by omega)
  constructor
  · rw [plus, taken, given, length_cons]
    omega
  · omega

lemma SemCounts.step {m m' : LockSys CInt T} {e : LockEvent T}
    (counts : initial.toInt + m.given.length < 2 ^ 31 → SemCounts initial m)
    (step : LockStep semaphore id owned m e m') (few : initial.toInt + m'.given.length < 2 ^ 31) :
    SemCounts initial m' := by
  cases step.effect with
  | call => exact ⟨(counts few).count, (counts few).nonneg⟩
  | acquire inside free => exact (counts few).take free rfl rfl rfl
  | enqueue => exact ⟨(counts few).count, (counts few).nonneg⟩
  | full => exact counts few
  | took outside free => exact (counts few).take free rfl rfl rfl
  | failed => exact counts few
  | @release t outside holder =>
    have fewer : initial.toInt + m.given.length < 2 ^ 31 := by
      simp only [length_cons] at few
      omega
    exact (counts fewer).give few rfl rfl rfl

lemma semaphore_counts (start : 0 ≤ initial.toInt)
    {trace : List (StepOf (LockSys CInt T) (LockEvent T))} {m : LockSys CInt T}
    (run : Run (LockStep semaphore id owned) (.start (semInit initial)) trace m)
    (few : initial.toInt + m.given.length < 2 ^ 31) : SemCounts initial m := by
  suffices all : initial.toInt + m.given.length < 2 ^ 31 → SemCounts initial m from all few
  apply run.invariant fun m => initial.toInt + m.given.length < 2 ^ 31 → SemCounts initial m
  · intro _
    exact ⟨by simp [LockSys.start, semInit], start⟩
  · intro a e b counts step
    exact SemCounts.step counts step

/-- A mutex excludes, and its `owner` is the id of the holder as an `int`, which is the id itself
exactly if that is below 2³¹; a semaphore counts. -/
theorem locks_exclude_and_count (id : T → BitVec 64) :
    (∀ (trace : List (StepOf (LockSys MutexWord T) (LockEvent T))) (m : LockSys MutexWord T),
      Run (LockStep mutex id true) (.start mutexInit) trace m →
        MutexExcludes id m ∧
        ∀ t, m.Holds t → (m.lock.resource.owner.toInt = (id t).toNat ↔ (id t).toNat < 2 ^ 31)) ∧
    ∀ (initial : CInt) (trace : List (StepOf (LockSys CInt T) (LockEvent T)))
      (m : LockSys CInt T), 0 ≤ initial.toInt →
        Run (LockStep semaphore id false) (.start (semInit initial)) trace m →
        m.given.length < 2 ^ 31 - initial.toInt → SemCounts initial m := by
  constructor
  · intro trace m run
    have excludes := mutex_excludes run
    refine ⟨excludes, fun t holder => ?_⟩
    rw [excludes.owner t holder, toInt]
    have low := BitVec.toNat_setWidth 32 (id t)
    rw [BitVec.toInt_eq_toNat_cond, low]
    split <;> omega
  · intro initial trace m start run few
    exact semaphore_counts start run (by omega)

def sevenEight : Bool → BitVec 64
  | false => 7
  | true => 8

/-- One task locks, the other one waits, unlocks and signals. -/
theorem locks_exclude_and_count_two :
    (MutexExcludes sevenEight ([LockEvent.call false, .pass false, .call true, .pass true].foldl
        (LockSys.next mutex sevenEight) (.start mutexInit))) ∧
      SemCounts 1 ([LockEvent.call false, .pass false, .release true].foldl
        (LockSys.next semaphore sevenEight) (.start (semInit 1))) := by
  have locks : Executes (LockSys.Allowed true) (LockSys.next mutex sevenEight) (.start mutexInit)
      [LockEvent.call false, .pass false, .call true, .pass true] := by
    decide
  have waits : Executes (LockSys.Allowed false) (LockSys.next semaphore sevenEight)
      (.start (semInit 1)) [LockEvent.call false, .pass false, .release true] := by
    decide
  constructor
  · exact ((locks_exclude_and_count sevenEight).1 _ _
      (locks.run fun _ _ allowed => ⟨allowed, rfl⟩)).1
  · exact (locks_exclude_and_count sevenEight).2 1 _ _ (by decide)
      (waits.run fun _ _ allowed => ⟨allowed, rfl⟩) (by decide)

/-- The `owner` of a mutex that the task with id 2³² + 5 holds is 5. -/
theorem owner_of_large_id :
    ∃ trace m, Run (LockStep mutex (fun _ : Unit => 0x100000005) true) (.start mutexInit) trace m ∧
      m.Holds () ∧ m.lock.resource.owner.toInt = 5 := by
  have locks : Executes (LockSys.Allowed true) (LockSys.next mutex fun _ : Unit => 0x100000005)
      (.start mutexInit) [LockEvent.tryTake ()] := by
    decide
  exact ⟨_, _, locks.run fun _ _ allowed => ⟨allowed, rfl⟩, by decide, by decide⟩

/-- The queue names each task at most once, and only tasks that wait. -/
structure QueueExact (id : T → BitVec 64) (s : LockSys R T) : Prop where
  nodup : s.lock.waitQueue.Nodup
  waits : ∀ q ∈ s.lock.waitQueue, ∃ t ∈ s.waiting, toInt (id t) = q
  empty : s.waiting = [] → s.lock.waitQueue = []

/-- A pass is made by a task that is not in the queue, or finds the queue full, or acquires while
another waiting task goes by the same `int`. -/
def CleanPass (p : Primitive R) (id : T → BitVec 64)
    (st : StepOf (LockSys R T) (LockEvent T)) : Prop :=
  match st.event with
  | .pass t =>
    toInt (id t) ∉ st.pre.lock.waitQueue ∨
    (p.free st.pre.lock.resource = false ∧ p.queueSize ≤ st.pre.lock.waitQueue.length) ∨
    (p.free st.pre.lock.resource = true ∧
      ∃ u ∈ st.pre.waiting, u ≠ t ∧ toInt (id u) = toInt (id t))
  | _ => True

omit [DecidableEq T] in
lemma queueExact_of (nodup : s.lock.waitQueue.Nodup)
    (waits : ∀ q ∈ s.lock.waitQueue, ∃ t ∈ s.waiting, toInt (id t) = q) : QueueExact id s := by
  refine ⟨nodup, waits, fun nobody => ?_⟩
  rw [eq_nil_iff_forall_not_mem]
  intro q member
  obtain ⟨t, inside, -⟩ := waits q member
  rw [nobody] at inside
  exact not_mem_nil inside

/-- After an acquisition the queue is exact if it does not name the task any more, or if it names
another one by the same `int`. -/
lemma queueExact_acquire_iff (exact : QueueExact id s) {t : T} (inside : t ∈ s.waiting)
    {s' : LockSys R T} (queue : s'.lock.waitQueue = s.lock.waitQueue)
    (waiting : s'.waiting = s.waiting.filter (· ≠ t)) :
    QueueExact id s' ↔ toInt (id t) ∉ s.lock.waitQueue ∨
      ∃ u ∈ s.waiting, u ≠ t ∧ toInt (id u) = toInt (id t) := by
  constructor
  · intro after
    by_cases named : toInt (id t) ∈ s.lock.waitQueue
    · right
      obtain ⟨u, member, same⟩ := after.waits (toInt (id t)) (by rw [queue]; exact named)
      rw [waiting, mem_filter] at member
      exact ⟨u, member.1, by simpa using member.2, same⟩
    · exact .inl named
  · intro clean
    apply queueExact_of
    · rw [queue]
      exact exact.nodup
    · intro q member
      rw [queue] at member
      obtain ⟨u, waits, named⟩ := exact.waits q member
      by_cases same : u = t
      · subst same
        rcases clean with absent | ⟨v, there, other, alike⟩
        · exact absurd (named ▸ member) absent
        · refine ⟨v, ?_, alike.trans named⟩
          rw [waiting, mem_filter]
          exact ⟨there, by simpa using other⟩
      · refine ⟨u, ?_, named⟩
        rw [waiting, mem_filter]
        exact ⟨waits, by simpa using same⟩

omit [DecidableEq T] in
lemma queueExact_enqueue_iff (exact : QueueExact id s) {t : T} (inside : t ∈ s.waiting)
    {s' : LockSys R T} (queue : s'.lock.waitQueue = s.lock.waitQueue ++ [toInt (id t)])
    (waiting : s'.waiting = s.waiting) : QueueExact id s' ↔ toInt (id t) ∉ s.lock.waitQueue := by
  constructor
  · intro after named
    have nodup := after.nodup
    rw [queue, nodup_append] at nodup
    exact nodup.2.2 _ named _ (mem_singleton_self _) rfl
  · intro absent
    apply queueExact_of
    · rw [queue, nodup_append]
      refine ⟨exact.nodup, nodup_singleton _, fun a member b last => ?_⟩
      rw [mem_singleton] at last
      subst last
      intro same
      exact absent (same ▸ member)
    · intro q member
      rw [queue, mem_append, mem_singleton] at member
      rw [waiting]
      rcases member with member | rfl
      · exact exact.waits q member
      · exact ⟨t, inside, rfl⟩

lemma queueExact_step_iff (exact : QueueExact id s) (step : LockStep p id owned s e s') :
    QueueExact id s' ↔ CleanPass p id ⟨s, e, s'⟩ := by
  cases step.effect with
  | @call t outside =>
    refine iff_of_true (queueExact_of exact.nodup fun q member => ?_) trivial
    obtain ⟨u, inside, named⟩ := exact.waits q member
    exact ⟨u, mem_cons_of_mem _ inside, named⟩
  | acquire inside free =>
    refine Iff.trans (queueExact_acquire_iff exact inside (by rfl) (by rfl)) ?_
    simp [CleanPass, free]
  | enqueue inside busy room =>
    refine Iff.trans (queueExact_enqueue_iff exact inside (by rfl) (by rfl)) ?_
    simp [CleanPass, busy, Nat.not_le.mpr room]
  | full inside busy none => exact iff_of_true exact (.inr (.inl ⟨busy, none⟩))
  | took => exact iff_of_true (queueExact_of exact.nodup exact.waits) trivial
  | failed => exact iff_of_true exact trivial
  | release outside holder =>
    refine iff_of_true (queueExact_of ?_ fun q member => ?_) trivial
    · exact exact.nodup.sublist (tail_sublist _)
    · exact exact.waits q (mem_of_mem_tail member)

lemma queueExact_run_iff {r : R} {trace : List (StepOf (LockSys R T) (LockEvent T))}
    (run : Run (LockStep p id owned) (.start ⟨r, []⟩) trace s) :
    (∀ st ∈ trace, QueueExact id st.post) ↔ ∀ st ∈ trace, CleanPass p id st := by
  apply run.forall_post_iff
  · exact queueExact_of nodup_nil fun q member => absurd member not_mem_nil
  · intro a e b exact step
    exact queueExact_step_iff exact step

/-- The wait queues of mutexes and of semaphores. -/
theorem wait_queues_exact_iff (id : T → BitVec 64) (owned : Bool) :
    (∀ (trace : List (StepOf (LockSys MutexWord T) (LockEvent T))) (m : LockSys MutexWord T),
      Run (LockStep mutex id owned) (.start mutexInit) trace m →
        ((∀ st ∈ trace, QueueExact id st.post) ↔ ∀ st ∈ trace, CleanPass mutex id st)) ∧
    ∀ (initial : CInt) (trace : List (StepOf (LockSys CInt T) (LockEvent T)))
      (m : LockSys CInt T), Run (LockStep semaphore id owned) (.start (semInit initial)) trace m →
        ((∀ st ∈ trace, QueueExact id st.post) ↔ ∀ st ∈ trace, CleanPass semaphore id st) :=
  ⟨fun _ _ run => queueExact_run_iff run, fun _ _ _ run => queueExact_run_iff run⟩

theorem wait_queues_exact_iff_woken :
    ∀ st ∈ stepsFrom (LockSys.next mutex sevenEight) (.start mutexInit)
      [LockEvent.call false, .pass false, .call true, .pass true, .release false, .pass true],
      QueueExact sevenEight st.post := by
  have locks : Executes (LockSys.Allowed true) (LockSys.next mutex sevenEight) (.start mutexInit)
      [LockEvent.call false, .pass false, .call true, .pass true, .release false, .pass true] := by
    decide
  apply ((wait_queues_exact_iff sevenEight true).1 _ _
    (locks.run fun _ _ allowed => ⟨allowed, rfl⟩)).mpr
  intro st member
  simp only [stepsFrom, mem_cons, not_mem_nil, or_false] at member
  rcases member with rfl | rfl | rfl | rfl | rfl | rfl
  · trivial
  · exact .inl (by decide)
  · trivial
  · exact .inl (by decide)
  · trivial
  · exact .inl (by decide)

/-- A waiter that tries again before the holder unlocks is in the queue twice, and still in it when
nobody waits any more. -/
theorem waiter_queued_twice :
    ∃ (trace : List (StepOf (LockSys MutexWord Bool) (LockEvent Bool)))
      (m : LockSys MutexWord Bool),
      Run (LockStep mutex sevenEight true) (.start mutexInit) trace m ∧
      (∃ st ∈ trace, st.post.lock.waitQueue = [8, 8]) ∧
      m.waiting = [] ∧ m.lock.waitQueue = [8] ∧ ¬∀ st ∈ trace, QueueExact sevenEight st.post := by
  have locks : Executes (LockSys.Allowed true) (LockSys.next mutex sevenEight) (.start mutexInit)
      [LockEvent.call false, .pass false, .call true, .pass true, .pass true, .release false,
        .pass true] := by
    decide
  have twice : ∃ st ∈ stepsFrom (LockSys.next mutex sevenEight) (.start mutexInit)
      [LockEvent.call false, .pass false, .call true, .pass true, .pass true, .release false,
        .pass true], st.post.lock.waitQueue = [8, 8] := by
    decide
  refine ⟨_, _, locks.run fun _ _ allowed => ⟨allowed, rfl⟩, twice, by decide, by decide, ?_⟩
  intro all
  obtain ⟨st, member, queue⟩ := twice
  have nodup := (all st member).nodup
  rw [queue] at nodup
  exact absurd nodup (by decide)

end MicroOs.Sync
