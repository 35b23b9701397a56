import MicroOs.Lib.AllocLog
import MicroOs.Lib.Word64

/-!
# Tasks and the scheduler

Model of `kernel/sched/task.c`. The task array is a map from slot numbers to tasks. A loop that
treats every slot alike is `mapTasks`; the others are folds and searches in the order of the source.
The address `kmalloc` returned is an argument of the creation; `stackLog` records every `kmalloc`
and `kfree` of a kernel stack.
-/

namespace MicroOs.Sched
open Lib

/-- `TASK_STACK_SIZE` (`task.h:14`). -/
def taskStackSize : Nat := 4096 * 4

/-- `MAX_TASKS` (`task.h:15`). -/
def maxTasks : Nat := 64

/-- `TaskState` (`task.h:17-23`). -/
inductive TaskState where
  | ready
  | running
  | sleeping
  | blocked
  | dead
  deriving DecidableEq, Repr

/-- `PRIORITY_NORMAL` (`task.h:27`). -/
def priorityNormal : Nat := 1

/-- `PRIORITY_IDLE` (`task.h:29`). -/
def priorityIdle : Nat := 3

/-- `NUM_PRIORITIES` (`task.h:30`). Lower numbers are higher priorities. -/
def numPriorities : Nat := 4

/-- `SIG_MAX_TASK` (`task.h:44`). -/
def sigMaxTask : Nat := 20

/-- `TaskContext` (`task.h:32-42`). -/
structure TaskContext where
  rsp : Nat
  rip : Nat
  rbx : Nat
  rbp : Nat
  r12 : Nat
  r13 : Nat
  r14 : Nat
  r15 : Nat
  rflags : Nat
  deriving DecidableEq, Repr

/-- `Task` (`task.h:46-67`). Pointers are addresses, 0 is `NULL`. -/
structure Task where
  id : Nat
  ctx : TaskContext
  state : TaskState
  wakeTick : Nat
  stackBase : Nat
  name : String
  priority : Nat
  exitCode : Int
  parentId : Nat
  waitForId : Nat
  isUser : Bool
  sigPending : Nat
  sigHandlers : List Nat
  pml4 : Nat
  pendingSlot : Int
  deriving DecidableEq, Repr

/-- A `TaskContext` of zero bytes. -/
def TaskContext.zero : TaskContext := ⟨0, 0, 0, 0, 0, 0, 0, 0, 0⟩

/-- A `Task` of zero bytes, as `memset` leaves it. `TASK_READY` is 0. -/
def Task.zero : Task where
  id := 0
  ctx := .zero
  state := .ready
  wakeTick := 0
  stackBase := 0
  name := ""
  priority := 0
  exitCode := 0
  parentId := 0
  waitForId := 0
  isUser := false
  sigPending := 0
  sigHandlers := List.replicate sigMaxTask 0
  pml4 := 0
  pendingSlot := 0

/-- The file-scope variables of `task.c:22-25`, the CPU registers the scheduler sets, and the
calls of `kmalloc` and `kfree` for kernel stacks, the last one first. -/
structure Scheduler where
  tasks : Nat → Task
  taskCount : Nat
  currentTask : Nat
  nextId : Nat
  cr3 : Nat
  rsp0 : Nat
  kernelPml4 : Nat
  stackLog : List (AllocEvent Nat)

namespace Scheduler

/-- `tasks[current_task]`. -/
def current (s : Scheduler) : Task := s.tasks s.currentTask

/-- Change one slot of the array. -/
def modify (s : Scheduler) (slot : Nat) (f : Task → Task) : Scheduler :=
  { s with tasks := Function.update s.tasks slot (f (s.tasks slot)) }

/-- Change every slot below `task_count`. -/
def mapTasks (s : Scheduler) (f : Task → Task) : Scheduler :=
  { s with tasks := fun i => if i < s.taskCount then f (s.tasks i) else s.tasks i }

/-- `tasks[slot].state = state`. -/
def setState (s : Scheduler) (slot : Nat) (state : TaskState) : Scheduler :=
  s.modify slot fun t => { t with state }

end Scheduler

/-- `sched_init` (`task.c:29-44`). -/
def schedInit (cr3 rsp0 : Nat) : Scheduler where
  tasks i :=
    if i = 0 then { Task.zero with state := .running, name := "idle", priority := priorityIdle }
    else .zero
  taskCount := 1
  currentTask := 0
  nextId := 1
  cr3 := cr3
  rsp0 := rsp0
  kernelPml4 := cr3
  stackLog := []

/-- The first dead slot without a stack (`task.c:61-67`). -/
def deadSlot (s : Scheduler) : Option Nat :=
  (List.range' 1 (s.taskCount - 1)).find? fun i =>
    (s.tasks i).state = .dead ∧ (s.tasks i).stackBase = 0

/-- The slot a new task gets (`task.c:60-72`); `none` when the array is full. -/
def findSlot (s : Scheduler) : Option Nat :=
  match deadSlot s with
  | some slot => some slot
  | none => if s.taskCount ≥ maxTasks then none else some s.taskCount

/-- The arguments of `do_task_create`. -/
structure CreateArgs where
  name : String
  entry : Nat
  priority : Nat
  deriving DecidableEq, Repr

/-- `stack_top` after the two pushes (`task.c:92-99`). -/
def frameTop (stackBase : Nat) : Nat := (stackBase + taskStackSize) / 16 * 16 - 16

/-- The saved registers of a new task (`task.c:102-110`). -/
def initialContext (stackBase entry : Nat) : TaskContext where
  rsp := frameTop stackBase - 7 * 8
  rip := entry
  rbx := 0
  rbp := 0
  r12 := 0
  r13 := 0
  r14 := 0
  r15 := 0
  rflags := 0x202

/-- `t->stack_base = kmalloc(TASK_STACK_SIZE)` and the check of the result (`task.c:75-80`). -/
def createStack (s : Scheduler) (slot stack : Nat) : Scheduler :=
  if stack = 0 then s.modify slot fun _ => .zero
  else
    { s.modify slot fun t => { t with stackBase := stack } with
      stackLog := .alloc stack :: s.stackLog }

/-- The fields of a new task (`task.c:83-90,102-110`); the others are left as they were. -/
def newTask (s : Scheduler) (args : CreateArgs) (t : Task) : Task :=
  { t with
    id := s.nextId
    state := .ready
    name := args.name
    priority := args.priority
    exitCode := 0
    parentId := s.current.id
    waitForId := 0
    pendingSlot := -1
    ctx := initialContext t.stackBase args.entry }

/-- The rest of `do_task_create` (`task.c:82-122`), without the words written to the new stack. -/
def createCommit (s : Scheduler) (slot : Nat) (args : CreateArgs) : Scheduler :=
  { s.modify slot (newTask s args) with
    taskCount := if slot ≥ s.taskCount then slot + 1 else s.taskCount
    nextId := s.nextId + 1 }

/-- `do_task_create` (`task.c:57-123`) without interruption: the slot of the new task, or `none`
for `NULL`. `stack` is what `kmalloc` returns. -/
def doTaskCreate (s : Scheduler) (args : CreateArgs) (stack : Nat) : Option Nat × Scheduler :=
  match findSlot s with
  | none => (none, s)
  | some slot =>
      let s := createStack s slot stack
      if stack = 0 then (none, s) else (some slot, createCommit s slot args)

/-- `task_create` (`task.c:125-129`). -/
def taskCreate (s : Scheduler) (name : String) (entry stack : Nat) : Option Nat × Scheduler :=
  doTaskCreate s ⟨name, entry, priorityNormal⟩ stack

/-- The priority `task_create_prio` uses (`task.c:134-135`). -/
def clampPriority (priority : Int) : Nat :=
  if priority < 0 then 0
  else if priority ≥ numPriorities then numPriorities - 1
  else priority.toNat

/-- `task_create_prio` (`task.c:131-137`). -/
def taskCreatePrio (s : Scheduler) (name : String) (entry : Nat) (priority : Int) (stack : Nat) :
    Option Nat × Scheduler :=
  doTaskCreate s ⟨name, entry, clampPriority priority⟩ stack

/-- Wake a task that waits for the task `id` (`task.c:155-161`). -/
def wakeWaiter (id : Nat) (code : Int) (t : Task) : Task :=
  if t.state = .blocked ∧ t.waitForId = id then
    { t with state := .ready, exitCode := code, waitForId := 0 }
  else t

/-- `kfree` the stack of a slot and forget it (`task.c:166-169`). -/
def freeStack (s : Scheduler) (slot : Nat) : Scheduler :=
  let stack := (s.tasks slot).stackBase
  if stack = 0 then s
  else
    { s.modify slot fun t => { t with stackBase := 0 } with
      stackLog := .free stack :: s.stackLog }

/-- One iteration of the loop of `cleanup_dead_tasks` (`task.c:144-173`). -/
def cleanupSlot (s : Scheduler) (slot : Nat) : Scheduler :=
  let dying := s.tasks slot
  if dying.state ≠ .dead then s
  else if slot = s.currentTask then s
  else freeStack (s.mapTasks (wakeWaiter dying.id dying.exitCode)) slot

/-- `cleanup_dead_tasks` (`task.c:141-174`). -/
def cleanupDeadTasks (s : Scheduler) : Scheduler :=
  (List.range' 1 (s.taskCount - 1)).foldl cleanupSlot s

/-- Wake a sleeping task whose deadline has passed (`task.c:184-185`). -/
def wakeSleeper (now : Nat) (t : Task) : Task :=
  if t.state = .sleeping ∧ now ≥ t.wakeTick then { t with state := .ready } else t

/-- The first half of `pick_next` (`task.c:181-189`): what it changes. -/
def prepare (now : Nat) (s : Scheduler) : Scheduler := cleanupDeadTasks (s.mapTasks (wakeSleeper now))

/-- The round-robin search at one priority (`task.c:194-198`). -/
def pickAt (s : Scheduler) (priority : Nat) : Option Nat :=
  ((List.range' 1 s.taskCount).map fun i => (s.currentTask + i) % s.taskCount).find? fun idx =>
    (s.tasks idx).state = .ready ∧ (s.tasks idx).priority = priority

/-- The second half of `pick_next` (`task.c:191-201`): what it returns. -/
def pickReady (s : Scheduler) : Nat :=
  ((List.range numPriorities).findSome? (pickAt s)).getD 0

/-- Make `next` the running task (`task.c:217-221`). -/
def switchTo (s : Scheduler) (next : Nat) : Scheduler :=
  let prev := s.currentTask
  let s := if (s.tasks prev).state = .running then s.setState prev .ready else s
  { s with currentTask := next }.setState next .running

/-- Update the stack for interrupts from user mode (`task.c:224-225`). -/
def loadRsp0 (s : Scheduler) (next : Nat) : Scheduler :=
  if (s.tasks next).isUser ∧ (s.tasks next).stackBase ≠ 0 then
    { s with rsp0 := (s.tasks next).stackBase + taskStackSize }
  else s

/-- Switch the address space (`task.c:228-231`). -/
def loadCr3 (s : Scheduler) (prev next : Nat) : Scheduler :=
  if (s.tasks next).pml4 ≠ 0 then { s with cr3 := (s.tasks next).pml4 }
  else if (s.tasks prev).pml4 ≠ 0 then { s with cr3 := s.kernelPml4 }
  else s

/-- Install `next` (`task.c:215-231`). -/
def installTask (s : Scheduler) (next : Nat) : Scheduler :=
  loadCr3 (loadRsp0 (switchTo s next) next) s.currentTask next

/-- `sched_yield` (`task.c:204-239`) up to the context switch; it is also `sched_schedule`. The
current task has changed exactly when `context_switch` is called. -/
def schedYield (now : Nat) (s : Scheduler) : Scheduler :=
  let s := prepare now s
  let next := pickReady s
  if next = s.currentTask then s else installTask s next

/-- What `sched_sleep` does before it yields (`task.c:250-251`). -/
def sleepCurrent (now ticks : Nat) (s : Scheduler) : Scheduler :=
  s.modify s.currentTask fun t => { t with state := .sleeping, wakeTick := add64 now ticks }

/-- `sched_find_task` (`task.c:320-328`), and the search of `sched_wait` (`task.c:265-266`). -/
def schedFindTask (s : Scheduler) (id : Nat) : Option Nat :=
  (List.range s.taskCount).find? fun i => (s.tasks i).id = id

/-- What `sched_wait` returns at once (`task.c:264-269,277`); `none` when it has to wait. -/
def waitAnswer (s : Scheduler) (id : Nat) : Option Int :=
  match schedFindTask s id with
  | none => some (-1)
  | some slot => if (s.tasks slot).state = .dead then some (s.tasks slot).exitCode else none

/-- What `sched_wait` does before it yields (`task.c:271-272`). -/
def blockCurrent (id : Nat) (s : Scheduler) : Scheduler :=
  s.modify s.currentTask fun t => { t with state := .blocked, waitForId := id }

/-- What `sched_exit` (`task.c:283-284`) and `task_exit_trampoline` (`task.c:51-52`, with code 0)
do before they yield. -/
def exitCurrent (code : Int) (s : Scheduler) : Scheduler :=
  s.modify s.currentTask fun t => { t with exitCode := code, state := .dead }

/-- What the exception handlers do to a user task before they yield (`idt.c:133`). -/
def faultCurrent (s : Scheduler) : Scheduler := s.setState s.currentTask .dead

/-- The termination of a task by a signal (`task.c:341-342,360-361`). -/
def terminate (s : Scheduler) (slot sig : Nat) : Scheduler :=
  s.modify slot fun t => { t with exitCode := 128 + sig, state := .dead }

/-- The checks of `sched_send_signal` (`task.c:333-337`): the slot of the target, or what is
returned instead. -/
def signalTarget (s : Scheduler) (id : Nat) (sig : Int) : Except Int Nat :=
  if sig < 1 ∨ sig ≥ sigMaxTask then .error (-1)
  else
    match schedFindTask s id with
    | none => .error (-1)
    | some slot => if (s.tasks slot).state = .dead then .error (-2) else .ok slot

/-- What `sched_send_signal` does to its target (`task.c:339-372`). -/
def deliverSignal (s : Scheduler) (slot sig : Nat) : Scheduler :=
  let handler := (s.tasks slot).sigHandlers.getD sig 0
  if sig = 9 then terminate s slot sig
  else if sig = 19 then s.setState slot .blocked
  else if handler = 1 then s
  else if handler = 0 then
    if sig = 17 then s else terminate s slot sig
  else
    let s := s.modify slot fun t => { t with sigPending := t.sigPending ||| 1 <<< sig }
    let state := (s.tasks slot).state
    if state = .sleeping ∨ state = .blocked then s.setState slot .ready else s

/-- `sched_send_signal` (`task.c:330-373`) without interruption. -/
def schedSendSignal (s : Scheduler) (id : Nat) (sig : Int) : Int × Scheduler :=
  match signalTarget s id sig with
  | .error code => (code, s)
  | .ok slot => (0, deliverSignal s slot sig.toNat)

end MicroOs.Sched
