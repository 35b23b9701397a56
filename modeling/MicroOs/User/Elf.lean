import MicroOs.Mm.Vmm
import MicroOs.Sched.Task

/-!
# The ELF loader

Model of `kernel/elf.c`: the checks of the headers, the loop over the program headers, the user
stack, and the creation of the task. The copy of the file is read by 64-bit offsets that may wrap
around, so the bytes around it are part of the model. `frames page k` is byte `k` of a page of a
segment or a stack. The VFS is not modelled here.
-/

namespace MicroOs.User
open Mm Sched

abbrev Byte := BitVec 8

/-! ## Constants (`elf.h:14-23`, `user.h:17-19`) -/

/-- `ELF_MAGIC`. -/
def elfMagic : BitVec 32 := 0x464C457F#32
/-- `ET_EXEC`. -/
def etExec : BitVec 16 := 2#16
/-- `EM_X86_64`. -/
def emX8664 : BitVec 16 := 62#16
/-- `PT_LOAD`. -/
def ptLoad : BitVec 32 := 1#32
/-- `PF_W`. -/
def pfW : BitVec 32 := 2#32
/-- `sizeof(Elf64_Ehdr)`. -/
def sizeofEhdr : Nat := 64
/-- `sizeof(Elf64_Phdr)`. -/
def sizeofPhdr : BitVec 64 := 56#64
/-- `USER_STACK_BASE`. -/
def userStackBase : Addr := 0x00007FFFFFFFE000#64
/-- `USER_STACK_PAGES`. -/
def userStackPages : Nat := 4
/-- `USER_STACK_SIZE`. -/
def userStackSize : BitVec 64 := 0x4000#64

/-- The kernel's copy of a file, and the bytes at the other offsets from its start. -/
structure ElfFile where
  bytes : List Byte
  around : BitVec 64 → Byte
  fits : bytes.length < 2 ^ 31

namespace ElfFile

/-- `st.size`. -/
def size (f : ElfFile) : BitVec 64 := BitVec.ofNat 64 f.bytes.length

/-- `buf[off]`. -/
def byte (f : ElfFile) (off : BitVec 64) : Byte := f.bytes.getD off.toNat (f.around off)

def read16 (f : ElfFile) (off : BitVec 64) : BitVec 16 := f.byte (off + 1) ++ f.byte off

def read32 (f : ElfFile) (off : BitVec 64) : BitVec 32 := f.read16 (off + 2) ++ f.read16 off

def read64 (f : ElfFile) (off : BitVec 64) : BitVec 64 := f.read32 (off + 4) ++ f.read32 off

/-! The fields of `Elf64_Ehdr` (`elf.h:25-44`). -/

def eIdentMagic (f : ElfFile) : BitVec 32 := f.read32 0
def eIdentClass (f : ElfFile) : Byte := f.byte 4
def eIdentData (f : ElfFile) : Byte := f.byte 5
def eType (f : ElfFile) : BitVec 16 := f.read16 16
def eMachine (f : ElfFile) : BitVec 16 := f.read16 18
def eEntry (f : ElfFile) : BitVec 64 := f.read64 24
def ePhoff (f : ElfFile) : BitVec 64 := f.read64 32
def ePhnum (f : ElfFile) : BitVec 16 := f.read16 56

end ElfFile

/-- The fields of `Elf64_Phdr` (`elf.h:46-55`) that the loader reads. -/
structure Phdr where
  type : BitVec 32
  flags : BitVec 32
  offset : BitVec 64
  vaddr : BitVec 64
  filesz : BitVec 64
  memsz : BitVec 64
  deriving DecidableEq, Repr

namespace ElfFile

/-- The program header at an offset. -/
def phdrAt (f : ElfFile) (off : BitVec 64) : Phdr where
  type := f.read32 off
  flags := f.read32 (off + 4)
  offset := f.read64 (off + 8)
  vaddr := f.read64 (off + 16)
  filesz := f.read64 (off + 32)
  memsz := f.read64 (off + 40)

/-- `phdr[0 .. e_phnum - 1]`. -/
def phdrs (f : ElfFile) : List Phdr :=
  (List.range f.ePhnum.toNat).map fun i => f.phdrAt (f.ePhoff + sizeofPhdr * BitVec.ofNat 64 i)

/-- `ph_end` (`elf.c:105-106`). -/
def phEnd (f : ElfFile) : BitVec 64 := f.ePhoff + f.ePhnum.setWidth 64 * sizeofPhdr

/-- The checks of the header (`elf.c:82-98`). -/
def headerOk (f : ElfFile) : Bool :=
  f.eIdentMagic = elfMagic && f.eIdentClass = 2 && f.eIdentData = 1 &&
    f.eType = etExec && f.eMachine = emX8664

end ElfFile

/-! ## Segments -/

namespace Phdr

/-- The check of a segment (`elf.c:119-125`). -/
def bad (f : ElfFile) (h : Phdr) : Bool :=
  f.size < h.offset + h.filesz || 0x1000000#64 < h.memsz || 0x0000800000000000#64 ≤ h.vaddr + h.memsz

/-- `vaddr` (`elf.c:127`). -/
def firstPage (h : Phdr) : Addr := h.vaddr &&& ~~~0xFFF#64

/-- `end` (`elf.c:128`). -/
def endPage (h : Phdr) : Addr := (h.vaddr + h.memsz + 0xFFF#64) &&& ~~~0xFFF#64

/-- The passes of the loop over the pages; both bounds are page-aligned. -/
def pageCount (h : Phdr) : Nat := (h.endPage.toNat - h.firstPage.toNat) / 4096

/-- `flags` (`elf.c:130-131`). -/
def pageFlags (h : Phdr) : Pte :=
  if h.flags &&& pfW != 0 then pteUser ||| pteWritable else pteUser

end Phdr

/-- What the page at `addr` holds after `memset` and `memcpy` (`elf.c:137-151`). With an end before
its start the copy has a length of nearly 2^64 and does not end: `none`. -/
def pageContent (f : ElfFile) (h : Phdr) (addr : Addr) : Option (Nat → Byte) :=
  let segStart := h.vaddr
  let segFileEnd := segStart + h.filesz
  let pageStart := addr
  let pageEnd := addr + 4096#64
  if pageStart < segFileEnd ∧ segStart < pageEnd then
    let copyStart := if segStart < pageStart then pageStart else segStart
    let copyEnd := if pageEnd < segFileEnd then pageEnd else segFileEnd
    let fileOff := h.offset + (copyStart - segStart)
    let pageOff := copyStart - pageStart
    if copyEnd < copyStart then none
    else some fun k =>
      if pageOff.toNat ≤ k ∧ k < pageOff.toNat + (copyEnd - copyStart).toNat then
        f.byte (fileOff + BitVec.ofNat 64 (k - pageOff.toNat))
      else 0
  else some fun _ => 0

/-- A record of `elf_pending` and of `pending_user` (`elf.c:23-26`, `user.c:31-34`). -/
structure LaunchInfo where
  entry : BitVec 64
  userRsp : BitVec 64
  deriving DecidableEq, Repr

/-- What the loader works on. -/
structure Loader where
  vmm : Vmm
  frames : Addr → Nat → Byte
  elfPending : Nat → LaunchInfo
  sched : Scheduler

/-- How a part of the loader ends: it goes on, `elf_load` returns NULL, or the kernel faults. -/
inductive LoadStatus where
  | ok
  | null
  | fault
  deriving DecidableEq, Repr

/-- Map `count` fresh pages from `addr` on (`elf.c:134-154` and `163-169`, `user.c:79-85`). -/
def mapFresh (root : Addr) (flags : Pte) (content : Addr → Option (Nat → Byte)) :
    Nat → Loader → Addr → LoadStatus × Loader
  | 0, l, _ => (.ok, l)
  | count + 1, l, addr =>
    match l.vmm.allocPage with
    | (vmm, none) => (.null, { l with vmm })
    | (vmm, some page) =>
      match content addr with
      | none => (.fault, { l with vmm })
      | some bytes =>
        mapFresh root flags content count
          { l with
            vmm := vmm.mapPageIn root addr page flags
            frames := Function.update l.frames page bytes }
          (addr + 4096#64)

/-- The loop over the program headers (`elf.c:115-155`). -/
def loadSegments (f : ElfFile) (root : Addr) : List Phdr → Loader → LoadStatus × Loader
  | [], l => (.ok, l)
  | h :: hs, l =>
    if h.type ≠ ptLoad then loadSegments f root hs l
    else if h.bad f then (.null, l)
    else match mapFresh root h.pageFlags (pageContent f h) h.pageCount l h.firstPage with
      | (.ok, l) => loadSegments f root hs l
      | (status, l) => (status, l)

/-- The user stack (`elf.c:159-169`, `user.c:75-85`). -/
def mapUserStack (root : Addr) (l : Loader) : LoadStatus × Loader :=
  mapFresh root (pteWritable ||| pteUser) (fun _ => some fun _ => 0) userStackPages l
    (userStackBase - userStackSize)

/-- The first free record (`elf.c:172-178`, `user.c:93-99`). -/
def freeRecord (records : Nat → LaunchInfo) : Option Nat :=
  (List.range maxTasks).find? fun i => (records i).entry = 0

/-- The record and the task (`elf.c:171-192`); `stack` is the answer of `kmalloc` to
`task_create`. -/
def startElf (f : ElfFile) (name : String) (trampoline stack : Nat) (root : Addr) (l : Loader) :
    Option Nat × Loader :=
  match freeRecord l.elfPending with
  | none => (none, l)
  | some record =>
    let elfPending := Function.update l.elfPending record ⟨f.eEntry, userStackBase⟩
    match taskCreate l.sched name trampoline stack with
    | (none, sched) => (none, { l with elfPending, sched })
    | (some slot, sched) =>
      let sched := sched.modify slot fun t =>
        { t with isUser := true, pml4 := root.toNat, pendingSlot := record }
      (some slot, { l with elfPending, sched })

/-- What `elf_load` returns. -/
inductive LoadResult where
  | task (slot : Nat)
  | null
  | fault
  deriving DecidableEq, Repr

/-- `elf_load` (`elf.c:58-193`) for a file that the VFS has read. The entry point is read from the
copy of the file after `kfree`; nobody has overwritten it. -/
def elfLoad (f : ElfFile) (name : String) (trampoline stack : Nat) (l : Loader) :
    LoadResult × Loader :=
  if f.bytes.length < sizeofEhdr then (.null, l)
  else if !f.headerOk then (.null, l)
  else match l.vmm.createAddressSpace with
    | (vmm, none) => (.null, { l with vmm })
    | (vmm, some root) =>
      let l := { l with vmm }
      if f.size < f.phEnd then (.null, l)
      else match loadSegments f root f.phdrs l with
        | (.null, l) => (.null, l)
        | (.fault, l) => (.fault, l)
        | (.ok, l) =>
          match mapUserStack root l with
          | (.null, l) => (.null, l)
          | (.fault, l) => (.fault, l)
          | (.ok, l) =>
            match startElf f name trampoline stack root l with
            | (none, l) => (.null, l)
            | (some slot, l) => (.task slot, l)

end MicroOs.User
