import MicroOs.User.Elf

/-!
# What the ELF loader reads

The reads of the copy of the file that `elf_load` makes, as ranges of 64-bit offsets: the header, the
entries of the program header table, and the source of every `memcpy` into a segment page. The
functions follow those of the loader; a range that wraps around is kept as it is.
-/

namespace MicroOs.User
open Mm

/-- `len` bytes from an offset on. -/
structure ReadRange where
  off : BitVec 64
  len : Nat
  deriving DecidableEq, Repr

/-- All bytes of the range are bytes of the file. -/
def ReadRange.Inside (f : ElfFile) (r : ReadRange) : Prop :=
  ∀ k, k < r.len → (r.off + BitVec.ofNat 64 k).toNat < f.bytes.length

/-- The source of the `memcpy` into the page at `addr` (`elf.c:139-151`). -/
def pageReads (h : Phdr) (addr : Addr) : List ReadRange :=
  let segStart := h.vaddr
  let segFileEnd := segStart + h.filesz
  let pageStart := addr
  let pageEnd := addr + 4096#64
  if pageStart < segFileEnd ∧ segStart < pageEnd then
    let copyStart := if segStart < pageStart then pageStart else segStart
    let copyEnd := if pageEnd < segFileEnd then pageEnd else segFileEnd
    [⟨h.offset + (copyStart - segStart), (copyEnd - copyStart).toNat⟩]
  else []

/-- Where in the page at `addr` this `memcpy` begins (`elf.c:148`). -/
def pageOff (h : Phdr) (addr : Addr) : BitVec 64 :=
  let copyStart := if h.vaddr < addr then addr else h.vaddr
  copyStart - addr

/-- The reads of `mapFresh`, where the page at `addr` reads `reads addr`. -/
def mapFreshReads (root : Addr) (flags : Pte) (content : Addr → Option (Nat → Byte))
    (reads : Addr → List ReadRange) : Nat → Loader → Addr → List ReadRange
  | 0, _, _ => []
  | count + 1, l, addr =>
    match l.vmm.allocPage with
    | (_, none) => []
    | (vmm, some page) =>
      reads addr ++
        match content addr with
        | none => []
        | some bytes =>
          mapFreshReads root flags content reads count
            { l with
              vmm := vmm.mapPageIn root addr page flags
              frames := Function.update l.frames page bytes }
            (addr + 4096#64)

/-- The offsets of `phdr[0 .. e_phnum - 1]`. -/
def ElfFile.phdrOffsets (f : ElfFile) : List (BitVec 64) :=
  (List.range f.ePhnum.toNat).map fun i => f.ePhoff + sizeofPhdr * BitVec.ofNat 64 i

/-- The reads of `loadSegments`, for the program headers at `offs`. -/
def loadSegmentsReads (f : ElfFile) (root : Addr) : List (BitVec 64) → Loader → List ReadRange
  | [], _ => []
  | off :: offs, l =>
    let h := f.phdrAt off
    ⟨off, sizeofPhdr.toNat⟩ ::
      if h.type ≠ ptLoad then loadSegmentsReads f root offs l
      else if h.bad f then []
      else
        mapFreshReads root h.pageFlags (pageContent f h) (pageReads h) h.pageCount l h.firstPage ++
          match mapFresh root h.pageFlags (pageContent f h) h.pageCount l h.firstPage with
          | (.ok, l) => loadSegmentsReads f root offs l
          | _ => []

/-- The reads of `elfLoad`. -/
def elfLoadReads (f : ElfFile) (l : Loader) : List ReadRange :=
  if f.bytes.length < sizeofEhdr then []
  else
    ⟨0, sizeofEhdr⟩ ::
      if !f.headerOk then []
      else match l.vmm.createAddressSpace with
        | (_, none) => []
        | (vmm, some root) =>
          if f.size < f.phEnd then []
          else loadSegmentsReads f root f.phdrOffsets { l with vmm }

end MicroOs.User
