import MicroOs.Lib.Transition
import MicroOs.Sched.Task

/-!
# The scheduler in the kernel

The scheduler with the timer interrupt (`drivers/timer.c`), the interrupt flag, the interrupt
controller, and what each suspended task will do when it is switched back in.

A step is a scheduler function called by the current task, or a timer interrupt. System calls and
exceptions run with interrupts off, so what they call is one step; `do_task_create`,
`sched_send_signal` and `sched_exit` are cut where the timer can interrupt them. Task 0 is
`kernel_main`, which ends up yielding in a loop (`main.c:1417-1434`).
-/

namespace MicroOs.Sched
open Lib
open Function (update)

/-- The function that called `sched_yield`. -/
inductive YieldCaller where
  | yield
  | sleep
  | wait (id : Nat)
  | exit
  | fault
  deriving DecidableEq, Repr

/-- How a suspended task resumes: at its entry function, in a call of `sched_yield` of its own,
or inside the timer handler that interrupted it. -/
inductive Resume where
  | fresh
  | yielded (caller : YieldCaller)
  | timer
  deriving DecidableEq, Repr

/-- A function that a task is in the middle of. -/
inductive Activity where
  /-- `do_task_create` has found a slot (`task.c:60-73`). -/
  | found (slot : Nat) (args : CreateArgs)
  /-- `do_task_create` has given the slot a stack (`task.c:75-80`). -/
  | stacked (slot : Nat) (args : CreateArgs)
  /-- `do_task_create` has returned to `user_task_create` or `elf_load`. -/
  | returned (slot : Nat)
  /-- `sched_send_signal` has found its target alive (`task.c:333-337`). -/
  | signalling (slot sig : Nat)
  /-- `sched_exit` or `task_exit_trampoline` has marked the task dead (`task.c:51-52,283-284`). -/
  | exiting
  deriving DecidableEq, Repr

/-- The function is `do_task_create` or `sched_send_signal`. -/
def Activity.inCall : Activity → Bool
  | .found _ _ => true
  | .stacked _ _ => true
  | .signalling _ _ => true
  | .returned _ => false
  | .exiting => false

/-- The state of the kernel as far as scheduling goes. -/
structure Kernel where
  sched : Scheduler
  /-- `g_ticks` (`timer.c:22`). -/
  ticks : Nat
  /-- `sched_active` (`timer.c:23`). -/
  schedActive : Bool
  /-- `in_schedule` (`timer.c:24`). -/
  inSchedule : Bool
  /-- The interrupt flag of the CPU. -/
  intFlag : Bool
  /-- IRQ 0 has been delivered and its EOI not been sent. -/
  irq0InService : Bool
  /-- How the task of each slot resumes, when it is suspended. -/
  saved : Nat → Resume
  /-- What the task of each slot is in the middle of. -/
  inside : Nat → Option Activity
  /-- The stack `do_task_create` allocated for the task of each slot. -/
  given : Nat → Nat

/-- The kernel when `sched_init` has returned; interrupts are on (`main.c:1344,1417`). -/
def Kernel.boot (ticks cr3 rsp0 : Nat) : Kernel where
  sched := schedInit cr3 rsp0
  ticks := ticks
  schedActive := false
  inSchedule := false
  intFlag := true
  irq0InService := false
  saved _ := .fresh
  inside _ := none
  given _ := 0

/-- What the current task calls or does next, or the timer interrupt. -/
inductive KernelEvent where
  | timer
  | setInterrupts (on : Bool)
  | enablePreemption
  | yield
  | sleep (ticks : Nat)
  | wait (id : Nat)
  | exit (code : Int)
  | exitYield
  | fault
  | signal (id : Nat) (sig : Int)
  | signalDeliver
  | createFind (args : CreateArgs)
  | createStack (stack : Nat)
  | createCommit
  | createUser (pml4 : Nat) (pendingSlot : Int)
  | createDone
  deriving DecidableEq, Repr

namespace Kernel

/-- What the current task is in the middle of. -/
def activity (k : Kernel) : Option Activity := k.inside k.sched.currentTask

/-- Record what the current task is in the middle of. -/
def setActivity (k : Kernel) (activity : Option Activity) : Kernel :=
  { k with inside := update k.inside k.sched.currentTask activity }

/-- What happens right after `context_switch` has returned in a task. A fresh task gets the flags of
its initial frame (`task.c:120`) and a task inside `sched_yield` executes `sti` (`task.c:238`). The
timer handler clears `in_schedule` (`timer.c:38`), `isr_dispatch` sends the EOI (`idt.c:331-333`)
and the interrupted code goes on with interrupts on. -/
def resume (k : Kernel) : Resume → Kernel
  | .fresh => { k with intFlag := true }
  | .yielded _ => { k with intFlag := true }
  | .timer => { k with inSchedule := false, irq0InService := false, intFlag := true }

/-- A call of `sched_yield` or `sched_schedule`. When another task is chosen, the caller is
suspended and that task resumes. -/
def pass (k : Kernel) (how : Resume) : Kernel :=
  let s := schedYield k.ticks k.sched
  if s.currentTask = k.sched.currentTask then { k with sched := s }.resume how
  else
    { k with sched := s, saved := update k.saved k.sched.currentTask how }.resume
      (k.saved s.currentTask)

/-- The timer handler calls `sched_schedule` (`timer.c:35`). -/
def preempts (k : Kernel) : Bool := k.schedActive && !k.inSchedule

/-- `sched_wait` has to wait. -/
def waitBlocks (k : Kernel) (id : Nat) : Bool := (waitAnswer k.sched id).isNone

/-- The kernel at the moment `sched_yield` is entered, and how its caller will resume; `none` when
the event does not call it. -/
def passEntry (k : Kernel) : KernelEvent → Option (Kernel × Resume)
  -- `timer_handler` (`timer.c:26-40`), entered through an interrupt gate
  | .timer =>
      if k.preempts then
        some ({ k with
          ticks := add64 k.ticks 1, irq0InService := true, intFlag := false, inSchedule := true },
          .timer)
      else none
  | .yield => some (k, .yielded .yield)
  -- `sched_sleep` (`task.c:247-253`)
  | .sleep ticks => some ({ k with sched := sleepCurrent k.ticks ticks k.sched }, .yielded .sleep)
  -- `sched_wait` (`task.c:261-278`); when it need not wait it changes nothing
  | .wait id =>
      if k.waitBlocks id then
        some ({ k with sched := blockCurrent id k.sched }, .yielded (.wait id))
      else none
  -- the rest of `sched_exit` (`task.c:285`)
  | .exitYield => some (k, .yielded .exit)
  -- an exception in user mode (`idt.c:131-135`)
  | .fault => some ({ k with sched := faultCurrent k.sched }, .yielded .fault)
  | _ => none

/-- The effect of an event that does not enter `sched_yield`. -/
def quiet (k : Kernel) : KernelEvent → Kernel
  | .timer => { k with ticks := add64 k.ticks 1 }
  | .setInterrupts on => { k with intFlag := on }
  | .enablePreemption => { k with schedActive := true }
  | .exit code => { k.setActivity (some .exiting) with sched := exitCurrent code k.sched }
  | .signal id sig =>
      match signalTarget k.sched id sig with
      | .error _ => k
      | .ok slot => k.setActivity (some (.signalling slot sig.toNat))
  | .signalDeliver =>
      match k.activity with
      | some (.signalling slot sig) =>
          { k.setActivity none with sched := deliverSignal k.sched slot sig }
      | _ => k
  | .createFind args =>
      match findSlot k.sched with
      | none => k
      | some slot => k.setActivity (some (.found slot args))
  | .createStack stack =>
      match k.activity with
      | some (.found slot args) =>
          { k.setActivity (if stack = 0 then none else some (.stacked slot args)) with
            sched := createStack k.sched slot stack
            given := update k.given slot stack }
      | _ => k
  | .createCommit =>
      match k.activity with
      | some (.stacked slot args) =>
          -- the new task is in the middle of nothing, whatever the old one of its slot was
          { { k with inside := update k.inside slot none }.setActivity
              (some (.returned slot)) with
            sched := createCommit k.sched slot args
            saved := update k.saved slot .fresh }
      | _ => k
  -- the rest of `user_task_create` (`user.c:107-111`) and `elf_load` (`elf.c:186-190`)
  | .createUser pml4 pendingSlot =>
      match k.activity with
      | some (.returned slot) =>
          { k.setActivity none with
            sched := k.sched.modify slot fun t => { t with isUser := true, pml4, pendingSlot } }
      | _ => k
  | .createDone => k.setActivity none
  | _ => k

/-- The state after an event. -/
def next (k : Kernel) (e : KernelEvent) : Kernel :=
  match k.passEntry e with
  | some (entered, how) => entered.pass how
  | none => k.quiet e

/-- A task is executing. A switch to a slot that `memset` has zeroed (`task.c:78`) loads a null
stack pointer, and nothing is known of the machine from then on. -/
def Runs (k : Kernel) : Prop := k.sched.currentTask = 0 ∨ k.sched.current.id ≠ 0

/-- When an event can happen. Task 0 neither sleeps, waits, exits nor runs in user mode; task ids
in system calls and in the shell are positive (`syscall.c:145,153`, `main.c:1082`); `kmalloc`
returns `NULL` or a stack that is not in use. -/
def Enabled (k : Kernel) : KernelEvent → Prop
  | .timer => k.intFlag = true ∧ k.irq0InService = false
  | .setInterrupts _ => True
  | .enablePreemption => k.sched.currentTask = 0
  | .yield => k.activity = none
  | .sleep _ => k.activity = none ∧ k.sched.currentTask ≠ 0
  | .wait id => k.activity = none ∧ k.sched.currentTask ≠ 0 ∧ id ≠ 0
  | .exit _ => k.activity = none ∧ k.sched.currentTask ≠ 0
  | .exitYield => k.activity = some .exiting
  | .fault => k.activity = none ∧ k.sched.currentTask ≠ 0
  | .signal id _ => k.activity = none ∧ id ≠ 0
  | .signalDeliver => ∃ slot sig, k.activity = some (.signalling slot sig)
  | .createFind args => k.activity = none ∧ args.priority < numPriorities
  | .createStack stack =>
      (∃ slot args, k.activity = some (.found slot args)) ∧
        stack ∉ live k.sched.stackLog
  | .createCommit => ∃ slot args, k.activity = some (.stacked slot args)
  | .createUser _ _ => ∃ slot, k.activity = some (.returned slot)
  | .createDone => ∃ slot, k.activity = some (.returned slot)

/-- A call of `do_task_create` or `sched_send_signal` is in progress. -/
def InProgress (k : Kernel) : Prop :=
  ∃ caller activity, k.inside caller = some activity ∧ activity.inCall = true

end Kernel

/-- One step of the kernel. -/
structure KernelStep (k : Kernel) (e : KernelEvent) (k' : Kernel) : Prop where
  runs : k.Runs
  enabled : k.Enabled e
  result : k' = k.next e

/-- The states in which the kernel starts to schedule. -/
def KernelBooted (k : Kernel) : Prop := ∃ ticks cr3 rsp0, k = Kernel.boot ticks cr3 rsp0

namespace Kernel

instance (k : Kernel) : Decidable k.Runs := inferInstanceAs (Decidable (_ ∨ _))

instance (k : Kernel) (e : KernelEvent) : Decidable (k.Enabled e) :=
  match e with
  | .timer => inferInstanceAs (Decidable (_ ∧ _))
  | .setInterrupts _ => inferInstanceAs (Decidable True)
  | .enablePreemption => inferInstanceAs (Decidable (_ = _))
  | .yield => inferInstanceAs (Decidable (_ = _))
  | .sleep _ => inferInstanceAs (Decidable (_ ∧ _))
  | .wait _ => inferInstanceAs (Decidable (_ ∧ _ ∧ _))
  | .exit _ => inferInstanceAs (Decidable (_ ∧ _))
  | .exitYield => inferInstanceAs (Decidable (_ = _))
  | .fault => inferInstanceAs (Decidable (_ ∧ _))
  | .signal _ _ => inferInstanceAs (Decidable (_ ∧ _))
  | .createFind _ => inferInstanceAs (Decidable (_ ∧ _))
  | .signalDeliver =>
      match h : k.activity with
      | some (.signalling slot sig) => isTrue ⟨slot, sig, h⟩
      | none | some (.found _ _) | some (.stacked _ _) | some (.returned _) | some .exiting =>
          isFalse (by simp [Enabled, h])
  | .createStack _ =>
      match h : k.activity with
      | some (.found slot args) =>
          decidable_of_iff (_ ∉ live k.sched.stackLog)
            ⟨fun fresh => ⟨⟨slot, args, h⟩, fresh⟩, And.right⟩
      | none | some (.stacked _ _) | some (.returned _) | some (.signalling _ _) | some .exiting =>
          isFalse (by simp [Enabled, h])
  | .createCommit =>
      match h : k.activity with
      | some (.stacked slot args) => isTrue ⟨slot, args, h⟩
      | none | some (.found _ _) | some (.returned _) | some (.signalling _ _) | some .exiting =>
          isFalse (by simp [Enabled, h])
  | .createUser _ _ | .createDone =>
      match h : k.activity with
      | some (.returned slot) => isTrue ⟨slot, h⟩
      | none | some (.found _ _) | some (.stacked _ _) | some (.signalling _ _) | some .exiting =>
          isFalse (by simp [Enabled, h])

/-- The events can happen one after another. -/
def Follows (k : Kernel) : List KernelEvent → Prop
  | [] => True
  | e :: events => k.Runs ∧ k.Enabled e ∧ (k.next e).Follows events

instance decidableFollows (k : Kernel) : (events : List KernelEvent) → Decidable (k.Follows events)
  | [] => inferInstanceAs (Decidable True)
  | e :: events =>
      have := decidableFollows (k.next e) events
      inferInstanceAs (Decidable (_ ∧ _ ∧ _))

/-- The steps they make. -/
def stepsOf (k : Kernel) : List KernelEvent → List (StepOf Kernel KernelEvent)
  | [] => []
  | e :: events => ⟨k, e, k.next e⟩ :: (k.next e).stepsOf events

/-- The state they lead to. -/
def after (k : Kernel) (events : List KernelEvent) : Kernel := events.foldl next k

lemma Follows.run {k : Kernel} {events : List KernelEvent} (h : k.Follows events) :
    Run KernelStep k (k.stepsOf events) (k.after events) := by
  induction events generalizing k with
  | nil => exact .nil
  | cons e events ih => exact (ih h.2.2).cons ⟨h.1, h.2.1, rfl⟩

lemma stepsOf_append (k : Kernel) (before later : List KernelEvent) :
    k.stepsOf (before ++ later) = k.stepsOf before ++ (k.after before).stepsOf later := by
  induction before generalizing k with
  | nil => rfl
  | cons e before ih => exact congrArg _ (ih (k.next e))

lemma step_mem (k : Kernel) (before : List KernelEvent) (e : KernelEvent)
    (later : List KernelEvent) :
    ⟨k.after before, e, (k.after before).next e⟩ ∈ k.stepsOf (before ++ e :: later) := by
  rw [stepsOf_append]
  exact List.mem_append_right _ List.mem_cons_self

/-- The calls of the current task that create a kernel task. -/
def creates (args : CreateArgs) (stack : Nat) : List KernelEvent :=
  [.createFind args, .createStack stack, .createCommit, .createDone]

/-- `kernel_main` creates the shell and enables preemption (`main.c:1418-1431`). -/
def createShell : List KernelEvent :=
  creates ⟨"shell", 0x1000, 0⟩ 0x10000 ++ [.enablePreemption]

/-- It then yields to the shell (`main.c:1434`). -/
def startShell : List KernelEvent := createShell ++ [.yield]

end Kernel

end MicroOs.Sched
