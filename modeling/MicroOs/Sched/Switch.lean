import MicroOs.Lib.StackMachine
import MicroOs.Lib.Transition
import MicroOs.Sched.Task

/-!
# The context switch

Model of `kernel/sched/switch.asm`, of the stack frame that `do_task_create` builds, and of the
tasks that switch to one another. A suspended task was created or has called `context_switch`.

`context_switch` is called with interrupts off (`task.c:209`), so its code is one step. Of the code
in between it is only known that it leaves the stacks and stack pointers of other tasks alone.
-/

namespace MicroOs.Sched
open Lib
open Function (update)

/-- The registers; `rip` holds the address of the next instruction. -/
inductive Reg where
  | rax | rbx | rcx | rdx | rsi | rdi | rbp | rsp
  | r8 | r9 | r10 | r11 | r12 | r13 | r14 | r15
  | rip | rflags
  deriving DecidableEq, Repr

/-- `pushfq`. -/
def pushfq : Instr Reg := .push .rflags

/-- `popfq`. -/
def popfq : Instr Reg := .pop .rflags

/-- `ret` pops the return address. -/
def ret : Instr Reg := .pop .rip

/-- `context_switch` (`switch.asm:29-56`). -/
def contextSwitch : List (Instr Reg) :=
  [pushfq, .push .rbx, .push .rbp, .push .r12, .push .r13, .push .r14, .push .r15,
    -- `mov [rcx], rsp` and `mov rsp, [rdx]`
    .store .rcx .rsp, .load .rsp .rdx,
    .pop .r15, .pop .r14, .pop .r13, .pop .r12, .pop .rbp, .pop .rbx, popfq, ret]

/-- The call of `context_switch` (`task.c:235`), which pushes the return address. -/
def callContextSwitch (m : Machine Reg) : Machine Reg := exec .rsp (.push .rip :: contextSwitch) m

/-- The registers that a function of the MS x64 calling convention leaves as they were, besides the
stack pointer. -/
def calleeSaved : List Reg := [.rbx, .rbp, .rdi, .rsi, .r12, .r13, .r14, .r15]

/-- The interrupt flag. -/
def interruptFlag (rflags : Nat) : Bool := rflags.testBit 9

/-- The addresses the linker has given to `tasks` and `task_exit_trampoline`. -/
structure KernelImage where
  tasks : Nat
  taskExitTrampoline : Nat

/-- `sizeof(Task)`. -/
def sizeOfTask : Nat := 320

/-- `&tasks[slot].ctx`, which is also the address of `ctx.rsp`. -/
def KernelImage.ctx (image : KernelImage) (slot : Nat) : Nat := image.tasks + sizeOfTask * slot

/-- The array `tasks`. -/
def KernelImage.array (image : KernelImage) : Area where
  lo := image.tasks
  hi := image.tasks + sizeOfTask * maxTasks

/-- The words of a `TaskContext` in memory. -/
def TaskContext.words (ctx : TaskContext) : List Nat :=
  [ctx.rsp, ctx.rip, ctx.rbx, ctx.rbp, ctx.r12, ctx.r13, ctx.r14, ctx.r15, ctx.rflags]

/-- The words that `do_task_create` puts on a new stack (`task.c:95-99,112-120`): the registers
that `context_switch` pops, the entry function and its return address. -/
def KernelImage.initialFrame (image : KernelImage) (entry : Nat) : List Nat :=
  [0, 0, 0, 0, 0, 0, 0x202, entry, image.taskExitTrampoline]

/-- What `do_task_create` writes to memory for the context switch (`task.c:92-120`). -/
def KernelImage.writeFrame (image : KernelImage) (slot stackBase entry : Nat) (mem : Nat → Nat) :
    Nat → Nat :=
  let ctx := initialContext stackBase entry
  writeWords (writeWords mem ctx.rsp (image.initialFrame entry)) (image.ctx slot) ctx.words

/-- What a task that is not executing did last. -/
inductive Suspension where
  | fresh (entry : Nat)
  | called (regs : Reg → Nat)

/-- The machine, and which task executes on which stack. -/
structure Switching where
  machine : Machine Reg
  current : Nat
  stack : Nat → Area
  /-- The tasks that can be switched to. -/
  suspended : Nat → Option Suspension

inductive SwitchEvent where
  /-- The current task executes until the machine is in the given state. -/
  | work (machine : Machine Reg)
  /-- `do_task_create` has got a stack and prepares it. -/
  | create (slot stackBase entry : Nat)
  /-- The stack of a task is freed. -/
  | free (slot : Nat)
  /-- The current task calls `context_switch`. -/
  | switch (next : Nat)

/-- The task that boots the kernel executes, and there is no other. -/
def SwitchBooted (image : KernelImage) (s : Switching) : Prop :=
  s.current = 0 ∧ (∀ j, s.suspended j = none) ∧ (s.stack 0).hi < two64 ∧
    (s.stack 0).Apart image.array

namespace Switching

/-- The slot holds a task. -/
def Present (s : Switching) (j : Nat) : Prop := j = s.current ∨ s.suspended j ≠ none

/-- The area of a stack that `kmalloc` returned. -/
def stackArea (stackBase : Nat) : Area := ⟨stackBase, stackBase + taskStackSize⟩

/-- When an event can happen. Stacks are disjoint from one another and from the array `tasks`; a
task calls `context_switch` on its own stack, with room for the frame. -/
def Enabled (image : KernelImage) (s : Switching) : SwitchEvent → Prop
  | .work machine => ∀ j, s.suspended j ≠ none →
      (∀ a, (s.stack j).Has a → machine.mem a = s.machine.mem a) ∧
        machine.mem (image.ctx j) = s.machine.mem (image.ctx j)
  | .create slot stackBase _ => slot < maxTasks ∧ ¬ s.Present slot ∧
      stackBase + taskStackSize < two64 ∧ (stackArea stackBase).Apart image.array ∧
      ∀ j, s.Present j → (stackArea stackBase).Apart (s.stack j)
  | .free slot => s.suspended slot ≠ none
  | .switch next => s.suspended next ≠ none ∧
      s.machine.reg .rcx = image.ctx s.current ∧ s.machine.reg .rdx = image.ctx next ∧
      s.machine.reg .rsp % 8 = 0 ∧ (s.stack s.current).lo + 64 ≤ s.machine.reg .rsp ∧
      s.machine.reg .rsp ≤ (s.stack s.current).hi

/-- The state after an event. -/
def next (image : KernelImage) (s : Switching) : SwitchEvent → Switching
  | .work machine => { s with machine }
  | .create slot stackBase entry =>
      { s with
        machine := { s.machine with mem := image.writeFrame slot stackBase entry s.machine.mem }
        stack := update s.stack slot (stackArea stackBase)
        suspended := update s.suspended slot (some (.fresh entry)) }
  | .free slot => { s with suspended := update s.suspended slot none }
  | .switch next =>
      { s with
        machine := callContextSwitch s.machine
        current := next
        suspended := update
          (update s.suspended s.current (some (.called s.machine.reg))) next none }

end Switching

/-- One step. -/
structure SwitchStep (image : KernelImage) (s : Switching) (e : SwitchEvent) (s' : Switching) :
    Prop where
  enabled : s.Enabled image e
  result : s' = s.next image e

end MicroOs.Sched
