import MicroOs.Sched.Kernel
import MicroOs.User.Elf

/-!
# The launch of user tasks

Model of the last part of `user_task_create` (`user.c:92-113`) and `elf_load` (`elf.c:171-192`)
and of the trampolines (`user.c:36-66`, `elf.c:30-54`), as code that the timer can interrupt between
any two accesses to memory. The two functions differ in the records and the trampoline they use, and
are one definition here. What comes before them is `elfLoad`.
-/

namespace MicroOs.User
open Lib Sched
open Function (update)

/-- The functions that create user tasks, with their trampolines. -/
inductive LaunchKind where
  /-- `user_task_create` and `user_task_trampoline`. -/
  | user
  /-- `elf_load` and `elf_trampoline`. -/
  | elf
  deriving DecidableEq, Repr

/-- A creation: the function, what it has for the new task, and the number of the record it works
on, `slot` in the source. -/
structure Launch where
  kind : LaunchKind
  entry : BitVec 64
  pml4 : Nat
  record : Nat
  deriving DecidableEq, Repr

/-- What the creation records for the trampoline (`user.c:102-103`, `elf.c:181-182`). -/
def Launch.info (launch : Launch) : LaunchInfo := ⟨launch.entry, userStackBase⟩

/-- The record, among those of both arrays. -/
def Launch.key (launch : Launch) : LaunchKind × Nat := (launch.kind, launch.record)

/-- Where a task is in one of the functions, or in one of the trampolines. -/
inductive Doing where
  /-- The loop over the records looks at the next one (`user.c:94-99`, `elf.c:173-178`). -/
  | scanning (launch : Launch)
  /-- The record is free (`user.c:102`, `elf.c:181`). -/
  | claimed (launch : Launch)
  /-- Its entry point is stored (`user.c:103`, `elf.c:182`). -/
  | entered (launch : Launch)
  /-- Its stack pointer is stored; `task_create` is next, or going on. -/
  | recorded (launch : Launch)
  /-- `task_create` has returned the task (`user.c:108`, `elf.c:187`). -/
  | created (launch : Launch) (slot : Nat)
  /-- `is_user` is stored (`user.c:109`, `elf.c:188`). -/
  | markedUser (launch : Launch) (slot : Nat)
  /-- `pml4` is stored (`user.c:110`, `elf.c:189`). -/
  | gotPml4 (launch : Launch) (slot : Nat)
  /-- The new task is at the start of its trampoline. -/
  | start (kind : LaunchKind)
  /-- The trampoline has found an entry point in its record (`user.c:44`, `elf.c:38`). -/
  | checked (kind : LaunchKind) (slot : Nat)
  | readEntry (kind : LaunchKind) (slot : Nat) (entry : BitVec 64)
  | readRsp (kind : LaunchKind) (slot : Nat) (entry userRsp : BitVec 64)
  | clearedEntry (kind : LaunchKind) (slot : Nat) (entry userRsp : BitVec 64)
  | clearedRsp (entry userRsp : BitVec 64)
  /-- The trampoline tests `entry` (`user.c:52`, `elf.c:46`). -/
  | loaded (entry userRsp : BitVec 64)
  /-- The task is in user mode, where `jump_to_user` put it. -/
  | inUser (entry userRsp : BitVec 64)
  deriving DecidableEq, Repr

/-- The kernel with the records of the two functions. -/
structure Launcher where
  kernel : Kernel
  records : LaunchKind → Nat → LaunchInfo
  /-- Where the task of each slot is in the code above. -/
  doing : Nat → Option Doing
  /-- The creation that made the task of each slot. -/
  origin : Nat → Option Launch

/-- Something happens in the kernel, the current task gets to the records with what it has
prepared, or it executes its next access to memory. -/
inductive LaunchEvent where
  | kernel (e : KernelEvent)
  | launch (kind : LaunchKind) (entry : BitVec 64) (pml4 : Nat)
  | advance
  deriving DecidableEq, Repr

namespace Launcher

/-- `pending_user` (`user.c:31-34`). -/
def pendingUser (l : Launcher) : Nat → LaunchInfo := l.records .user

/-- `elf_pending` (`elf.c:23-26`). -/
def elfPending (l : Launcher) : Nat → LaunchInfo := l.records .elf

/-- The kernel when `sched_init` has returned. -/
def boot (ticks cr3 rsp0 : Nat) : Launcher where
  kernel := .boot ticks cr3 rsp0
  records _ _ := ⟨0, 0⟩
  doing _ := none
  origin _ := none

/-- The slot of the current task. -/
def current (l : Launcher) : Nat := l.kernel.sched.currentTask

/-- The current task gets to another point. -/
def goTo (l : Launcher) (point : Option Doing) : Launcher :=
  { l with doing := update l.doing l.current point }

/-- Write one of the records. -/
def setRecord (l : Launcher) (kind : LaunchKind) (i : Nat) (info : LaunchInfo) : Launcher :=
  { l with records := update l.records kind (update (l.records kind) i info) }

/-- Write a task. -/
def setTask (l : Launcher) (slot : Nat) (f : Task → Task) : Launcher :=
  { l with kernel := { l.kernel with sched := l.kernel.sched.modify slot f } }

/-- The next access to memory of the current task. -/
def advance (l : Launcher) : Launcher :=
  match l.doing l.current with
  | some (.scanning launch) =>
      if (l.records launch.kind launch.record).entry = 0 then l.goTo (some (.claimed launch))
      else if launch.record + 1 < maxTasks then
        l.goTo (some (.scanning { launch with record := launch.record + 1 }))
      -- `if (slot < 0) return NULL`
      else l.goTo none
  | some (.claimed launch) =>
      (l.setRecord launch.kind launch.record
        { l.records launch.kind launch.record with entry := launch.entry }).goTo
        (some (.entered launch))
  | some (.entered launch) =>
      (l.setRecord launch.kind launch.record
        { l.records launch.kind launch.record with userRsp := userStackBase }).goTo
        (some (.recorded launch))
  | some (.created launch slot) =>
      (l.setTask slot fun t => { t with isUser := true }).goTo (some (.markedUser launch slot))
  | some (.markedUser launch slot) =>
      (l.setTask slot fun t => { t with pml4 := launch.pml4 }).goTo (some (.gotPml4 launch slot))
  | some (.gotPml4 launch slot) =>
      let l := l.setTask slot fun t => { t with pendingSlot := launch.record }
      { l with kernel := l.kernel.setActivity none }.goTo none
  | some (.start kind) =>
      let slot := l.kernel.sched.current.pendingSlot
      if 0 ≤ slot ∧ slot < maxTasks ∧ (l.records kind slot.toNat).entry ≠ 0 then
        l.goTo (some (.checked kind slot.toNat))
      else l.goTo (some (.loaded 0 0))
  | some (.checked kind slot) =>
      l.goTo (some (.readEntry kind slot (l.records kind slot).entry))
  | some (.readEntry kind slot entry) =>
      l.goTo (some (.readRsp kind slot entry (l.records kind slot).userRsp))
  | some (.readRsp kind slot entry userRsp) =>
      (l.setRecord kind slot { l.records kind slot with entry := 0 }).goTo
        (some (.clearedEntry kind slot entry userRsp))
  | some (.clearedEntry kind slot entry userRsp) =>
      (l.setRecord kind slot { l.records kind slot with userRsp := 0 }).goTo
        (some (.clearedRsp entry userRsp))
  | some (.clearedRsp entry userRsp) =>
      (l.setTask l.current fun t => { t with pendingSlot := -1 }).goTo
        (some (.loaded entry userRsp))
  | some (.loaded entry userRsp) =>
      -- "no pending entry", and `sched_exit(1)`
      if entry = 0 then { l with kernel := l.kernel.quiet (.exit 1) }.goTo none
      else
        -- `gdt_set_rsp0`, and the flags of the frame of `jump_to_user`
        let sched := l.kernel.sched
        let rsp0 := sched.current.stackBase + taskStackSize
        { l with kernel := { l.kernel with sched := { sched with rsp0 }, intFlag := true } }.goTo
          (some (.inUser entry userRsp))
  | _ => l

/-- `do_task_create` has made a task. A creation of a user task has got its task, which will start
in the trampoline; any other task is none of the two functions'. -/
def commit (l : Launcher) (slot : Nat) : Launcher :=
  match l.doing l.current with
  | some (.recorded launch) =>
      { l with
        doing := update (update l.doing slot (some (.start launch.kind)))
          l.current (some (.created launch slot))
        origin := update l.origin slot (some launch) }
  | _ =>
      { l with
        doing := update l.doing slot none
        origin := update l.origin slot none }

/-- An event of the kernel, and what the current task makes of it. When `task_create` returns
`NULL`, the function does. -/
def kernelNext (l : Launcher) (e : KernelEvent) : Launcher :=
  let l' := { l with kernel := l.kernel.next e }
  match e with
  | .createFind _ => if findSlot l.kernel.sched = none then l'.goTo none else l'
  | .createStack stack => if stack = 0 then l'.goTo none else l'
  | .createCommit =>
      match l.kernel.activity with
      | some (.stacked slot _) => l'.commit slot
      | _ => l'
  | _ => l'

/-- The state after an event. -/
def next (l : Launcher) : LaunchEvent → Launcher
  | .kernel e => l.kernelNext e
  | .launch kind entry pml4 => l.goTo (some (.scanning ⟨kind, entry, pml4, 0⟩))
  | .advance => l.advance

end Launcher

/-- The event is a part of `do_task_create` or of what its callers do. -/
def creating : KernelEvent → Bool
  | .createFind _ => true
  | .createStack _ => true
  | .createCommit => true
  | .createUser _ _ => true
  | .createDone => true
  | _ => false

/-- What a task calls at this point. No system call creates a task. -/
def Doing.calls : Doing → KernelEvent → Bool
  | .recorded _, .createFind args => args.priority = priorityNormal
  | .recorded _, .createStack _ => true
  | .recorded _, .createCommit => true
  | .inUser _ _, e => !creating e
  | _, _ => false

/-- Which events of the kernel can happen to it. The timer can interrupt it anywhere. -/
def Doing.allows (d : Doing) (e : KernelEvent) : Bool := e = .timer || d.calls e

/-- The same for a task that is in none of the functions. Their stores to the new task are steps
of their own here. -/
def plainAllows : KernelEvent → Bool
  | .createUser _ _ => false
  | _ => true

/-- The task has an access to memory to make. -/
def Doing.moves : Doing → Bool
  | .recorded _ => false
  | .inUser _ _ => false
  | _ => true

namespace Launcher

/-- When an event can happen. -/
def Enabled (l : Launcher) : LaunchEvent → Prop
  | .kernel e => l.kernel.Enabled e ∧ (l.doing l.current).elim (plainAllows e) (·.allows e) = true
  | .launch _ _ _ => l.doing l.current = none ∧ l.kernel.activity = none
  | .advance => (l.doing l.current).any Doing.moves = true

instance (l : Launcher) (e : LaunchEvent) : Decidable (l.Enabled e) :=
  match e with
  | .kernel _ => inferInstanceAs (Decidable (_ ∧ _))
  | .launch _ _ _ => inferInstanceAs (Decidable (_ ∧ _))
  | .advance => inferInstanceAs (Decidable (_ = _))

end Launcher

/-- One step. -/
structure LaunchStep (l : Launcher) (e : LaunchEvent) (l' : Launcher) : Prop where
  runs : l.kernel.Runs
  enabled : l.Enabled e
  result : l' = l.next e

/-- The states in which the kernel starts to schedule. -/
def LaunchBooted (l : Launcher) : Prop := ∃ ticks cr3 rsp0, l = Launcher.boot ticks cr3 rsp0

namespace Launcher

/-- The event can happen. -/
def Can (l : Launcher) (e : LaunchEvent) : Prop := l.kernel.Runs ∧ l.Enabled e

instance (l : Launcher) (e : LaunchEvent) : Decidable (l.Can e) :=
  inferInstanceAs (Decidable (_ ∧ _))

lemma Can.step {l : Launcher} {e : LaunchEvent} (h : l.Can e) : LaunchStep l e (l.next e) :=
  ⟨h.1, h.2, rfl⟩

/-- The state after some events. -/
def after (l : Launcher) (events : List LaunchEvent) : Launcher := events.foldl next l

end Launcher

end MicroOs.User
