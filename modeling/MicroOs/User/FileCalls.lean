import MicroOs.Fs.Vfs
import MicroOs.User.Syscall

/-!
# System calls on files

What `sys_write`, `sys_read`, `sys_open` and `sys_close` of `kernel/syscall.c` do once their checks
have passed. The memory is that of the calling task, without the buffers of the file system. The key
of `keyboard_getchar`, the string at a path's address and the answer of `kmalloc` are arguments.
-/

namespace MicroOs.User
open Mm Fs Lib

/-- What the calls work on. -/
structure FileSys where
  vfs : Vfs
  /-- The characters that have gone to the console. -/
  console : List Fs.Byte
  memory : Addr → Fs.Byte

/-- What the outside decides. -/
structure CallInput where
  key : BitVec 16
  path : Path
  block : Nat

/-- The result of a function that returns -1 on errors. -/
def result : Option Nat → Int
  | none => -1
  | some n => n

/-- `(int)fd`. -/
def intOf (fd : BitVec 64) : Int := (fd.setWidth 32).toInt

namespace FileSys

/-- The bytes of the task from an address on. -/
def bytesAt (m : FileSys) (addr : Addr) : Nat → Fs.Byte := fun k => m.memory (addr + BitVec.ofNat 64 k)

/-- Puts bytes into the task's memory. -/
def store (m : FileSys) (addr : Addr) (bytes : List Fs.Byte) : FileSys :=
  { m with memory := fun a => bytes.getD (a - addr).toNat (m.memory a) }

/-- `sys_write` (`syscall.c:43-61`). -/
def sysWrite (m : FileSys) (fd bufAddr len a3 : BitVec 64) : Int × FileSys :=
  match User.sysWrite fd bufAddr len a3 with
  | none => (-1, m)
  | some _ =>
    let n := (clampLen len).toNat
    if fd = 1 ∨ fd = 2 then
      (n, { m with console := m.console ++ window (m.bytesAt bufAddr) 0 n })
    else
      let written := m.vfs.vfsWrite (intOf fd) (m.bytesAt bufAddr) n
      (result written.1, { m with vfs := written.2 })

/-- `sys_read` (`syscall.c:63-84`). -/
def sysRead (m : FileSys) (key : BitVec 16) (fd bufAddr len a3 : BitVec 64) : Int × FileSys :=
  match User.sysRead fd bufAddr len a3 with
  | none => (-1, m)
  | some _ =>
    if fd = 0 then
      if key < 128 then (1, m.store bufAddr [key.setWidth 8]) else (0, m)
    else
      let read := m.vfs.vfsRead (intOf fd) (clampLen len).toNat
      (result (read.1.map List.length), { m.store bufAddr (read.1.getD []) with vfs := read.2 })

/-- `sys_open` (`syscall.c:110-116`); `path` is the string at `pathAddr`. -/
def sysOpen (m : FileSys) (path : Path) (block : Nat) (pathAddr create a2 a3 : BitVec 64) :
    Int × FileSys :=
  match User.sysOpen pathAddr create a2 a3 with
  | none => (-1, m)
  | some _ =>
    let opened := m.vfs.vfsOpen path (create ≠ 0) block
    (result opened.1, { m with vfs := opened.2 })

/-- `sys_close` (`syscall.c:118-123`). -/
def sysClose (m : FileSys) (fd _a1 _a2 _a3 : BitVec 64) : Int × FileSys :=
  let closed := m.vfs.vfsClose (intOf fd)
  (if closed.1 then 0 else -1, { m with vfs := closed.2 })

/-- `syscall_dispatch` (`syscall.c:163-169`) for the calls above; the others are not about open
files. -/
def syscallDispatch (m : FileSys) (input : CallInput) (num a0 a1 a2 a3 : BitVec 64) :
    Option (Int × FileSys) :=
  if sysMax ≤ num.toNat then some (-1, m)
  else match syscallTable num.toNat with
    | none => some (-1, m)
    | some .write => some (m.sysWrite a0 a1 a2 a3)
    | some .read => some (m.sysRead input.key a0 a1 a2 a3)
    | some .open => some (m.sysOpen input.path input.block a0 a1 a2 a3)
    | some .close => some (m.sysClose a0 a1 a2 a3)
    | some _ => none

end FileSys

/-- `SYS_WRITE` (`syscall.h:15`). -/
def sysWriteNumber : BitVec 64 := 1
/-- `SYS_READ`. -/
def sysReadNumber : BitVec 64 := 2
/-- `SYS_OPEN`. -/
def sysOpenNumber : BitVec 64 := 6

end MicroOs.User
