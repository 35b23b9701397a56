import MicroOs.User.Elf

/-!
# User tasks with code in the kernel

Model of `user_task_create` (`user.c:68-113`) without interruption: a new address space with a user
stack, the mark on the 2 MiB page of the code, the record for the trampoline and the task.
-/

namespace MicroOs.User
open Mm Sched

/-- What `user_task_create` works on; `pendingUser` is `pending_user` (`user.c:31-34`). -/
structure UserSystem where
  loader : Loader
  pendingUser : Nat → LaunchInfo

/-- The record and the task (`user.c:92-112`); `stack` is the answer of `kmalloc` to
`task_create`. -/
def startUser (entry : Addr) (name : String) (trampoline stack : Nat) (root : Addr)
    (u : UserSystem) : Option Nat × UserSystem :=
  match freeRecord u.pendingUser with
  | none => (none, u)
  | some record =>
    let pendingUser := Function.update u.pendingUser record ⟨entry, userStackBase⟩
    match taskCreate u.loader.sched name trampoline stack with
    | (none, sched) => (none, ⟨{ u.loader with sched }, pendingUser⟩)
    | (some slot, sched) =>
      let sched := sched.modify slot fun t =>
        { t with isUser := true, pml4 := root.toNat, pendingSlot := record }
      (some slot, ⟨{ u.loader with sched }, pendingUser⟩)

/-- `user_task_create` (`user.c:68-113`); `none` is `NULL`. -/
def userTaskCreate (name : String) (entry : Addr) (trampoline stack : Nat) (u : UserSystem) :
    Option Nat × UserSystem :=
  match u.loader.vmm.createAddressSpace with
  | (vmm, none) => (none, { u with loader := { u.loader with vmm } })
  | (vmm, some root) =>
    match mapUserStack root { u.loader with vmm } with
    | (.ok, l) =>
      startUser entry name trampoline stack root
        { u with loader := { l with vmm := l.vmm.markHugeUser entry } }
    | (_, l) => (none, { u with loader := l })

end MicroOs.User
