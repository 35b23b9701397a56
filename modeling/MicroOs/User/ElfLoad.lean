import MicroOs.Fs.Vfs
import MicroOs.User.Elf

/-!
# A whole call of the ELF loader

`elf_load` (`elf.c:58-193`) with the calls of the VFS and of the heap. What `kmalloc` answers is an
argument: the block, and the number of pages by which the heap has grown for it (`heap.c:112-130`),
which it never gives back. Pages come from the front of the list of the free ones.
-/

namespace MicroOs.User
open Mm Sched Fs Lib

/-- An answer of `kmalloc`; the block is 0 for `NULL`. -/
structure KmallocAnswer where
  block : Nat
  pages : Nat
  deriving DecidableEq, Repr

/-- The heap grows. -/
def Loader.grow (l : Loader) (count : Nat) : Loader :=
  { l with vmm := { l.vmm with pages := l.vmm.pages.drop count } }

/-- The loader with the file system; `log` has the calls of the heap made by `elf_load` itself. -/
structure ElfSystem where
  vfs : Vfs
  loader : Loader
  log : List (AllocEvent Nat)

namespace ElfSystem

def kmalloc (s : ElfSystem) (answer : KmallocAnswer) : ElfSystem :=
  { s with
    loader := s.loader.grow answer.pages
    log := if answer.block = 0 then s.log else .alloc answer.block :: s.log }

def kfree (s : ElfSystem) (block : Nat) : ElfSystem := { s with log := .free block :: s.log }

def close (s : ElfSystem) (fd : Nat) : ElfSystem := { s with vfs := (s.vfs.vfsClose fd).2 }

/-- `vfs_read` has put these bytes into the buffer. -/
def fill (s : ElfSystem) (buf : Nat) (bytes : List Byte) : ElfSystem :=
  { s with
    vfs := { s.vfs with mem := copied s.vfs.mem buf (fun k => bytes.getD k 0) bytes.length } }

end ElfSystem

/-- The buffer, in the memory around it. -/
def copyAt (mem : Nat → Byte) (buf : Nat) (bytes : List Byte) (fits : bytes.length < 2 ^ 31) :
    ElfFile :=
  ⟨bytes, fun off => mem ((buf + off.toNat) % 2 ^ 64), fits⟩

/-- `startElf`, where the heap may grow when `task_create` asks for a stack. -/
def startElfGrowing (f : ElfFile) (name : String) (trampoline : Nat) (stack : KmallocAnswer)
    (root : Addr) (l : Loader) : Option Nat × Loader :=
  if (freeRecord l.elfPending).isSome ∧ (findSlot l.sched).isSome then
    startElf f name trampoline stack.block root (l.grow stack.pages)
  else startElf f name trampoline stack.block root l

/-- The call from the checks of the header on (`elf.c:81-192`). -/
def loadCopy (f : ElfFile) (name : String) (trampoline : Nat) (stack : KmallocAnswer)
    (l : Loader) : LoadResult × Loader :=
  if !f.headerOk then (.null, l)
  else match l.vmm.createAddressSpace with
    | (vmm, none) => (.null, { l with vmm })
    | (vmm, some root) =>
      let l := { l with vmm }
      if f.size < f.phEnd then (.null, l)
      else match loadSegments f root f.phdrs l with
        | (.null, l) => (.null, l)
        | (.fault, l) => (.fault, l)
        | (.ok, l) =>
          match mapUserStack root l with
          | (.null, l) => (.null, l)
          | (.fault, l) => (.fault, l)
          | (.ok, l) =>
            match startElfGrowing f name trampoline stack root l with
            | (none, l) => (.null, l)
            | (some slot, l) => (.task slot, l)

/-- The call behind `vfs_close` (`elf.c:78-192`). All its exits give the buffer back, once. Files
have at most `VFS_MAX_DATA` bytes, so that `nread` and `(int)st.size` are exact. -/
def loadRead (bytes : List Byte) (size : Nat) (name : String) (trampoline buf : Nat)
    (stack : KmallocAnswer) (s : ElfSystem) : LoadResult × ElfSystem :=
  if fits : bytes.length = size ∧ bytes.length < 2 ^ 31 then
    let f := copyAt s.vfs.mem buf bytes fits.2
    let (result, loader) := loadCopy f name trampoline stack s.loader
    (result, { s with loader }.kfree buf)
  else (.null, s.kfree buf)

/-- The call behind `vfs_open` (`elf.c:73-192`). -/
def loadOpened (fd size : Nat) (name : String) (trampoline : Nat) (buffer stack : KmallocAnswer)
    (s : ElfSystem) : LoadResult × ElfSystem :=
  let s := s.kmalloc buffer
  if buffer.block = 0 then (.null, s.close fd)
  else match s.vfs.vfsRead fd size with
    | (none, vfs) => (.null, ({ s with vfs }.close fd).kfree buffer.block)
    | (some bytes, vfs) =>
      loadRead bytes size name trampoline buffer.block stack
        (({ s with vfs }.fill buffer.block bytes).close fd)

/-- `elf_load` (`elf.c:58-193`). -/
def elfLoadPath (path : Path) (name : String) (trampoline : Nat) (buffer stack : KmallocAnswer)
    (s : ElfSystem) : LoadResult × ElfSystem :=
  match s.vfs.vfsStat path with
  | none => (.null, s)
  | some st =>
    if st.size < sizeofEhdr then (.null, s)
    else match s.vfs.vfsOpen path false 0 with
      | (none, vfs) => (.null, { s with vfs })
      | (some fd, vfs) => loadOpened fd st.size name trampoline buffer stack { s with vfs }

end MicroOs.User
