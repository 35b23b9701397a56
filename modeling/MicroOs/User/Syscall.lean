import MicroOs.Mm.Vmm

/-!
# System calls and user memory

Model of the part of `kernel/syscall.c` that decides which user memory a system call works on:
the dispatcher, the checks of each call, and `uptr_valid`. What a call then does with the memory
(the console, the keyboard and the VFS) is not modelled here.
-/

namespace MicroOs.User
open Mm

/-- `USER_ADDR_LIMIT` (`syscall.c:24`). -/
def userAddrLimit : BitVec 64 := 0x0000800000000000#64

/-- `SYSCALL_MAX_LEN` (`syscall.c:25`). -/
def syscallMaxLen : BitVec 64 := 65536#64

/-- `sizeof(VfsStat)`: the type, padding, the size and 64 bytes for the name (`vfs.h:42-47`). -/
def sizeofVfsStat : BitVec 64 := 80#64

/-- `uptr_valid` (`syscall.c:27-31`). -/
def uptrValid (addr len : BitVec 64) : Bool :=
  addr < userAddrLimit && len ≤ userAddrLimit - addr

/-- Memory that a call reads or writes through a pointer of the task. -/
inductive UserMemory where
  /-- The `len` bytes from `addr` on. -/
  | buffer (addr len : BitVec 64)
  /-- The bytes from `addr` on up to the first zero byte. -/
  | string (addr : BitVec 64)
  deriving DecidableEq, Repr

/-! ## The calls with pointers

Each returns the memory it goes on to use, or nothing when it returns -1 before. -/

/-- The length that `sys_write` and `sys_read` use. -/
def clampLen (len : BitVec 64) : BitVec 64 :=
  if syscallMaxLen.slt len then syscallMaxLen else len

/-- `sys_write` (`syscall.c:43-61`). -/
def sysWrite (_fd bufAddr len _a3 : BitVec 64) : Option (List UserMemory) :=
  if len.slt 0 then none
  else if !uptrValid bufAddr (clampLen len) then none
  else some [.buffer bufAddr (clampLen len)]

/-- `sys_read` (`syscall.c:63-84`): an empty read is an error. -/
def sysRead (_fd bufAddr len _a3 : BitVec 64) : Option (List UserMemory) :=
  if len.sle 0 then none
  else if !uptrValid bufAddr (clampLen len) then none
  else some [.buffer bufAddr (clampLen len)]

/-- `sys_open` (`syscall.c:110-116`): only the first byte of the path is checked. -/
def sysOpen (pathAddr _create _a2 _a3 : BitVec 64) : Option (List UserMemory) :=
  if !uptrValid pathAddr 1 then none else some [.string pathAddr]

/-- `sys_stat` (`syscall.c:125-132`). -/
def sysStat (pathAddr bufAddr _a2 _a3 : BitVec 64) : Option (List UserMemory) :=
  if !uptrValid pathAddr 1 then none
  else if !uptrValid bufAddr sizeofVfsStat then none
  else some [.string pathAddr, .buffer bufAddr sizeofVfsStat]

/-- The entries of `syscall_table` (`syscall.c:186-199`). -/
inductive Syscall where
  | exit | write | read | yield | getpid | sleep | open | close | stat | getppid | waitpid | kill
  deriving DecidableEq, Repr

/-- `SYS_MAX` (`syscall.h:29`). -/
def sysMax : Nat := 14

/-- `syscall_table`: `SYS_SBRK` and `SYS_SIGRETURN` have no entry. -/
def syscallTable : Nat → Option Syscall
  | 0 => some .exit
  | 1 => some .write
  | 2 => some .read
  | 3 => some .yield
  | 4 => some .getpid
  | 5 => some .sleep
  | 6 => some .open
  | 7 => some .close
  | 8 => some .stat
  | 10 => some .getppid
  | 11 => some .waitpid
  | 12 => some .kill
  | _ => none

/-- `syscall_dispatch` (`syscall.c:163-169`): the user memory that the call with this number and
these arguments uses. -/
def syscallDispatch (num a0 a1 a2 a3 : BitVec 64) : Option (List UserMemory) :=
  if sysMax ≤ num.toNat then none
  else match syscallTable num.toNat with
    | none => none
    | some .write => sysWrite a0 a1 a2 a3
    | some .read => sysRead a0 a1 a2 a3
    | some .open => sysOpen a0 a1 a2 a3
    | some .stat => sysStat a0 a1 a2 a3
    | some _ => some []

/-- The byte at `a` is part of the memory; `memory` is what the calling task's address space
holds. -/
def UserMemory.Contains (memory : Addr → BitVec 8) : UserMemory → Addr → Prop
  | .buffer addr len, a => ∃ k < len.toNat, a = addr + BitVec.ofNat 64 k
  | .string addr, a => ∃ k, (∀ j < k, memory (addr + BitVec.ofNat 64 j) ≠ 0) ∧
      a = addr + BitVec.ofNat 64 k

/-- The kernel reads or writes the byte at `a` in a call. -/
def Touches (memory : Addr → BitVec 8) (num a0 a1 a2 a3 : BitVec 64) (a : Addr) : Prop :=
  ∃ used, syscallDispatch num a0 a1 a2 a3 = some used ∧ ∃ part ∈ used, part.Contains memory a

/-- Ring 3 may access the byte at `v`: the page is present with `PTE_USER` at every level. -/
def UserAccessible (s : Vmm) (root v : Addr) : Prop :=
  ∃ t, s.translate root v = some t ∧ t.user = true

instance (s : Vmm) (root v : Addr) : Decidable (UserAccessible s root v) :=
  match h : s.translate root v with
  | none => .isFalse fun ⟨t, ht, _⟩ => by rw [h] at ht; cases ht
  | some t => decidable_of_iff (t.user = true)
      ⟨fun user => ⟨t, h, user⟩, fun ⟨t', ht, user⟩ => by
        rw [h, Option.some.injEq] at ht; rwa [ht]⟩

end MicroOs.User
