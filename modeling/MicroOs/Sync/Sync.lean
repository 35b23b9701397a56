import MicroOs.Lib.Transition

/-!
# Mutex and semaphore (`sync.c`)

Both are a resource and a wait queue behind the spinlock `guard`. A function takes the guard for one
critical section, which is one step here; `mutex_lock` and `sem_wait` may take it again and again,
with `sched_sleep(1)` between the passes.
-/

namespace MicroOs.Sync
open Lib

/-- `int`. -/
abbrev CInt := BitVec 32

/-- `(int)id` of a task id, which has 64 bits. -/
def toInt (id : BitVec 64) : CInt := id.setWidth 32

/-- What a guard protects: the resource and `wait_queue[0 .. wait_count)`. -/
structure Guarded (R : Type) where
  resource : R
  waitQueue : List CInt
  deriving DecidableEq

/-- What a mutex and a semaphore do differently. -/
structure Primitive (R : Type) where
  /-- The number of slots of `wait_queue`. -/
  queueSize : Nat
  free : R → Bool
  take : CInt → R → R
  give : R → R

namespace Primitive

variable {R : Type} (p : Primitive R)

/-- One pass through the loop of `mutex_lock` and of `sem_wait`, and whether it returns. -/
def pass (g : Guarded R) (current : CInt) : Bool × Guarded R :=
  if p.free g.resource then
    (true, { g with resource := p.take current g.resource })
  else if g.waitQueue.length < p.queueSize then
    (false, { g with waitQueue := g.waitQueue ++ [current] })
  else (false, g)

/-- `mutex_try_lock` and `sem_try_wait`. -/
def tryTake (g : Guarded R) (current : CInt) : Bool × Guarded R :=
  if p.free g.resource then
    (true, { g with resource := p.take current g.resource })
  else (false, g)

/-- `mutex_unlock` and `sem_signal`: the queue is shifted down by one. -/
def release (g : Guarded R) : Guarded R where
  resource := p.give g.resource
  waitQueue := g.waitQueue.tail

end Primitive

/-- `locked` and `owner` of a `Mutex`. -/
structure MutexWord where
  locked : BitVec 32
  owner : CInt
  deriving DecidableEq

abbrev Mutex := Guarded MutexWord

/-- `MUTEX_WAIT_QUEUE_SIZE`. -/
def mutexWaitQueueSize : Nat := 16

def mutex : Primitive MutexWord where
  queueSize := mutexWaitQueueSize
  free m := m.locked = 0
  take current _ := ⟨1, current⟩
  give _ := ⟨0, -1⟩

/-- `mutex_init` (`sync.c:14-21`). -/
def mutexInit : Mutex := ⟨⟨0, -1⟩, []⟩

/-- A pass of `mutex_lock` (`sync.c:23-46`). -/
def mutexLock : Mutex → CInt → Bool × Mutex := mutex.pass

/-- `mutex_unlock` (`sync.c:48-63`). -/
def mutexUnlock : Mutex → Mutex := mutex.release

/-- `mutex_try_lock` (`sync.c:65-77`). -/
def mutexTryLock : Mutex → CInt → Bool × Mutex := mutex.tryTake

/-- A `Semaphore`: its `count` and its wait queue. -/
abbrev Semaphore := Guarded CInt

/-- `SEM_WAIT_QUEUE_SIZE`. -/
def semWaitQueueSize : Nat := 16

def semaphore : Primitive CInt where
  queueSize := semWaitQueueSize
  free count := BitVec.slt 0 count
  take _ count := count - 1
  give count := count + 1

/-- `sem_init` (`sync.c:81-87`). -/
def semInit (initial : CInt) : Semaphore := ⟨initial, []⟩

/-- A pass of `sem_wait` (`sync.c:89-108`). -/
def semWait : Semaphore → CInt → Bool × Semaphore := semaphore.pass

/-- `sem_signal` (`sync.c:110-123`). -/
def semSignal : Semaphore → Semaphore := semaphore.release

/-- `sem_try_wait` (`sync.c:125-136`). -/
def semTryWait : Semaphore → CInt → Bool × Semaphore := semaphore.tryTake

/-- What a task does: it calls `mutex_lock` (`sem_wait`), makes a pass of the loop in it, calls
`mutex_try_lock` (`sem_try_wait`), or calls `mutex_unlock` (`sem_signal`). -/
inductive LockEvent (T : Type) where
  | call (t : T)
  | pass (t : T)
  | tryTake (t : T)
  | release (t : T)
  deriving DecidableEq

/-- A primitive and the tasks that use it. -/
structure LockSys (R T : Type) where
  lock : Guarded R
  /-- The tasks inside `mutex_lock` (`sem_wait`) that have not acquired. -/
  waiting : List T
  /-- The tasks that have acquired, as often as they have. -/
  taken : List T
  /-- The tasks that have released. -/
  given : List T
  deriving DecidableEq

namespace LockSys

variable {R T : Type} [DecidableEq T]

/-- Nobody has done anything yet. -/
def start (g : Guarded R) : LockSys R T := ⟨g, [], [], []⟩

/-- `t` is between an acquisition and its release. -/
def Holds (s : LockSys R T) (t : T) : Prop := s.given.count t < s.taken.count t

instance (s : LockSys R T) (t : T) : Decidable (s.Holds t) :=
  inferInstanceAs (Decidable (_ < _))

/-- A task inside `mutex_lock` or `sem_wait` does nothing else; only it makes the passes there.
With `owned` only a holder releases. -/
def Allowed (owned : Bool) (s : LockSys R T) : LockEvent T → Prop
  | .call t => t ∉ s.waiting
  | .pass t => t ∈ s.waiting
  | .tryTake t => t ∉ s.waiting
  | .release t => t ∉ s.waiting ∧ (owned = true → s.Holds t)

instance (owned : Bool) (s : LockSys R T) (e : LockEvent T) : Decidable (s.Allowed owned e) :=
  match e with
  | .call _ => inferInstanceAs (Decidable (¬ _))
  | .pass _ => inferInstanceAs (Decidable (_ ∈ _))
  | .tryTake _ => inferInstanceAs (Decidable (¬ _))
  | .release _ => inferInstanceAs (Decidable (_ ∧ _))

/-- The state after a step; `id` gives the `id` of a task. -/
def next (p : Primitive R) (id : T → BitVec 64) (s : LockSys R T) : LockEvent T → LockSys R T
  | .call t => { s with waiting := t :: s.waiting }
  | .pass t =>
    match p.pass s.lock (toInt (id t)) with
    | (true, g) =>
      { s with lock := g, waiting := s.waiting.filter (· ≠ t), taken := t :: s.taken }
    | (false, g) => { s with lock := g }
  | .tryTake t =>
    match p.tryTake s.lock (toInt (id t)) with
    | (true, g) => { s with lock := g, taken := t :: s.taken }
    | (false, g) => { s with lock := g }
  | .release t => { s with lock := p.release s.lock, given := t :: s.given }

end LockSys

/-- One step of a task. -/
def LockStep {R T : Type} [DecidableEq T] (p : Primitive R) (id : T → BitVec 64) (owned : Bool)
    (s : LockSys R T) (e : LockEvent T) (s' : LockSys R T) : Prop :=
  s.Allowed owned e ∧ s' = s.next p id e

end MicroOs.Sync
