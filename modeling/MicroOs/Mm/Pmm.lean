import MicroOs.Lib.Bitmap
import MicroOs.Lib.Word64

/-!
# The physical memory manager

Model of `kernel/mm/pmm.c`: a bitmap with one bit for each 4 KiB page, set when the page is free.
`words i` is the 64-bit word at `bitmap + 8 * i`, whether or not it belongs to the bitmap, so that
an access past its end is visible. Numbers are natural; the wrap-around of the C arithmetic is
written out with `add64` and `sub64` where the operands come from outside.
-/

namespace MicroOs.Mm
open Lib

/-- `PAGE_SIZE` (`pmm.h`). -/
def pageSize : Nat := 4096

/-- `MmapEntryType` (`bootinfo.h:32-41`). -/
inductive MmapEntryType where
  | usable
  | reserved
  | acpiReclaimable
  | acpiNvs
  | badMemory
  | bootloaderReclaimable
  | kernel
  | framebuffer
  deriving DecidableEq, Repr

/-- `MmapEntry` (`bootinfo.h:43-47`). -/
structure MmapEntry where
  base : Nat
  length : Nat
  type : MmapEntryType
  deriving DecidableEq, Repr

/-- What `build_mmap` reads of an `EFI_MEMORY_DESCRIPTOR` (`uefi.h:102-108`). -/
structure EfiMemoryDescriptor where
  type : BitVec 32
  physicalStart : Nat
  numberOfPages : Nat

/-- `translate_efi_memory_type` (`boot/main.c:99-119`), with the values of `uefi.h:83-100`. -/
def translateEfiMemoryType (type : BitVec 32) : MmapEntryType :=
  match type.toNat with
  | 7 | 3 | 4 => .usable
  | 1 | 2 => .bootloaderReclaimable
  | 9 => .acpiReclaimable
  | 10 => .acpiNvs
  | 8 => .badMemory
  | _ => .reserved

/-- `BOOT_MMAP_MAX_ENTRIES`. -/
def bootMmapMaxEntries : Nat := 256

/-- `build_mmap` (`boot/main.c:121-136`) for the descriptors in the buffer of the firmware. -/
def buildMmap (descs : List EfiMemoryDescriptor) : List MmapEntry :=
  (descs.take bootMmapMaxEntries).map fun desc =>
    ⟨desc.physicalStart, desc.numberOfPages * 4096 % two64, translateEfiMemoryType desc.type⟩

/-- The file-scope variables of `pmm.c:20-24` and the memory the bitmap pointer leads to. -/
structure Pmm where
  bitmap : Nat
  words : Words
  bitmapSize : Nat
  totalPages : Nat
  freeCount : Nat
  highestPage : Nat

/-- `bitmap_set` (`pmm.c:28-32`). -/
def bitmapSet (w : Words) (page : Nat) : Words :=
  Function.update w (page / 64) (w (page / 64) ||| (1#64 <<< (page % 64)))

/-- `bitmap_clear` (`pmm.c:34-38`). -/
def bitmapClear (w : Words) (page : Nat) : Words :=
  Function.update w (page / 64) (w (page / 64) &&& ~~~(1#64 <<< (page % 64)))

/-- `bitmap_test` (`pmm.c:40-44`). -/
def bitmapTest (w : Words) (page : Nat) : Bool :=
  ((w (page / 64) >>> (page % 64)) &&& 1#64) != 0#64

/-- `popcount64` (`pmm.c:46-53`). -/
def popcount64 (x : BitVec 64) : BitVec 64 :=
  let x := x - ((x >>> 1) &&& 0x5555555555555555#64)
  let x := (x &&& 0x3333333333333333#64) + ((x >>> 2) &&& 0x3333333333333333#64)
  let x := (x + (x >>> 4)) &&& 0x0F0F0F0F0F0F0F0F#64
  (x * 0x0101010101010101#64) >>> 56

/-- What one iteration of a bit-by-bit loop writes: `bitmap_set` or `bitmap_clear`. -/
def bitmapPut (on : Bool) (w : Words) (page : Nat) : Words :=
  if on then bitmapSet w page else bitmapClear w page

/-- The bit-by-bit loops of `bitmap_set_range` and `bitmap_clear_range`: they run while `start <
stop` and, before the aligned part, while `start` is not a multiple of 64. Only bits that change are
written and counted. -/
def bitmapBits (on unaligned : Bool) (stop : Nat) (w : Words) (start count : Nat) :
    Words × Nat × Nat :=
  if start < stop ∧ (unaligned = true → start % 64 ≠ 0) then
    if bitmapTest w start = on then bitmapBits on unaligned stop w (start + 1) count
    else bitmapBits on unaligned stop (bitmapPut on w start) (start + 1) (count + 1)
  else (w, start, count)
termination_by stop - start

/-- The word loop: `count += 64 - popcount64(bitmap[idx])` and `bitmap[idx] = ~0`, or
`count += popcount64(bitmap[idx])` and `bitmap[idx] = 0`. -/
def bitmapWords (on : Bool) (stop : Nat) (w : Words) (start count : Nat) : Words × Nat × Nat :=
  if start + 64 ≤ stop then
    let idx := start / 64
    let pop := (popcount64 (w idx)).toNat
    bitmapWords on stop (Function.update w idx (if on then ~~~0#64 else 0#64)) (start + 64)
      (count + if on then 64 - pop else pop)
  else (w, start, count)
termination_by stop - start

/-- The common body of the two bulk operations: a head up to the next multiple of 64, whole
words, and a tail. -/
def bitmapRange (on : Bool) (w : Words) (start stop : Nat) : Words × Nat :=
  let head := bitmapBits on true stop w start 0
  let body := bitmapWords on stop head.1 head.2.1 head.2.2
  let tail := bitmapBits on false stop body.1 body.2.1 body.2.2
  (tail.1, tail.2.2)

/-- `bitmap_set_range` (`pmm.c:56-75`): mark pages free. -/
def bitmapSetRange : Words → Nat → Nat → Words × Nat := bitmapRange true

/-- `bitmap_clear_range` (`pmm.c:78-97`): mark pages used. -/
def bitmapClearRange : Words → Nat → Nat → Words × Nat := bitmapRange false

/-- The low megabyte that is never handed out (`pmm.c:132-139,192`). -/
def lowMemory : Nat := 0x100000

/-- One iteration of pass 1 (`pmm.c:109-114`). -/
def raiseHighest (highest : Nat) (e : MmapEntry) : Nat :=
  let endPage := add64 e.base e.length / pageSize
  if endPage > highest then endPage else highest

/-- Pass 1 of `pmm_init` (`pmm.c:107-114`): the highest end page of any entry. -/
def highestPageOf (entries : List MmapEntry) : Nat :=
  entries.foldl raiseHighest 0

/-- `(x + PAGE_SIZE - 1) & ~(PAGE_SIZE - 1)`. -/
def pageUp (x : Nat) : Nat := add64 x (pageSize - 1) / pageSize * pageSize

/-- `x & ~(PAGE_SIZE - 1)`. -/
def pageDown (x : Nat) : Nat := x / pageSize * pageSize

/-- A region under consideration in pass 2: its base and its length. -/
structure Region where
  base : Nat
  len : Nat

/-- Cut the part below `limit` off a region; `none` is the `continue` taken when nothing is
left. -/
def skipBelow (limit : Nat) (r : Region) : Option Region :=
  let skip := sub64 limit r.base
  if skip ≥ r.len then none else some ⟨add64 r.base skip, r.len - skip⟩

/-- Avoid the low megabyte (`pmm.c:131-138`). -/
def avoidLow (r : Region) : Option Region :=
  if r.base < lowMemory then skipBelow lowMemory r else some r

/-- Avoid the kernel region (`pmm.c:140-150`). -/
def avoidKernel (kernelPhys kernelSize : Nat) (r : Region) : Option Region :=
  let kend := add64 kernelPhys kernelSize
  if r.base < kend ∧ add64 r.base r.len > kernelPhys then skipBelow kend r else some r

/-- Align the base up to a page boundary (`pmm.c:152-158`). -/
def alignRegion (r : Region) : Option Region :=
  let aligned := pageUp r.base
  let diff := sub64 aligned r.base
  if diff ≥ r.len then none else some ⟨aligned, r.len - diff⟩

/-- One iteration of pass 2 (`pmm.c:124-164`): where the bitmap goes in this entry, if it
fits there. -/
def bitmapPlace (kernelPhys kernelSize bitmapSize : Nat) (e : MmapEntry) : Option Nat :=
  if e.type ≠ .usable then none
  else
    (((avoidLow ⟨e.base, e.length⟩).bind (avoidKernel kernelPhys kernelSize)).bind
      alignRegion).bind fun r => if r.len ≥ bitmapSize then some r.base else none

/-- One iteration of pass 3 (`pmm.c:174-189`): mark the pages of a usable entry free. -/
def markUsable (totalPages : Nat) (acc : Words × Nat) (e : MmapEntry) : Words × Nat :=
  if e.type ≠ .usable then acc
  else
    let startPage := pageUp e.base / pageSize
    let endPage := pageDown (add64 e.base e.length) / pageSize
    let endPage := if endPage > totalPages then totalPages else endPage
    let r := bitmapSetRange acc.1 startPage endPage
    (r.1, add64 acc.2 r.2)

/-- `free_count -= bitmap_clear_range(start, end)`. -/
def reserve (acc : Words × Nat) (start stop : Nat) : Words × Nat :=
  let r := bitmapClearRange acc.1 start stop
  (r.1, sub64 acc.2 r.2)

/-- Pass 2 of `pmm_init` (`pmm.c:119-164`): the bitmap goes into the first entry that can hold
it; 0 is `NULL`. -/
def findBitmap (entries : List MmapEntry) (kernelPhys kernelSize bitmapSize : Nat) : Nat :=
  (entries.findSome? (bitmapPlace kernelPhys kernelSize bitmapSize)).getD 0

/-- The rest of `pmm_init` (`pmm.c:169-200`): clear the bitmap, mark the usable pages free, and
take back the low megabyte, the kernel and the bitmap itself. -/
def fillBitmap (entries : List MmapEntry) (kernelPhys kernelSize totalPages bitmap bitmapSize : Nat)
    (memory : Words) : Words × Nat :=
  let zeroed : Words := fun i => if i < bitmapSize / 8 then 0#64 else memory i
  let marked := entries.foldl (markUsable totalPages) (zeroed, 0)
  let low := reserve marked 0 (lowMemory / pageSize)
  let kernel := reserve low (kernelPhys / pageSize)
    (add64 (add64 kernelPhys kernelSize) (pageSize - 1) / pageSize)
  reserve kernel (bitmap / pageSize) (add64 (add64 bitmap bitmapSize) (pageSize - 1) / pageSize)

/-- `pmm_init` (`pmm.c:101-201`). `ram a` is the 64-bit word the memory holds at address `a`
before the call. When no entry can hold the bitmap the pointer stays `NULL`. -/
def pmmInit (ram : Nat → BitVec 64) (entries : List MmapEntry) (kernelPhys kernelSize : Nat) :
    Pmm :=
  let totalPages := highestPageOf entries
  let bitmapSize := (totalPages + 63) / 64 * 8
  let bitmap := findBitmap entries kernelPhys kernelSize bitmapSize
  let memory : Words := fun i => ram (bitmap + 8 * i)
  if bitmap = 0 then
    { bitmap, words := memory, bitmapSize, totalPages, freeCount := 0, highestPage := totalPages }
  else
    let filled := fillBitmap entries kernelPhys kernelSize totalPages bitmap bitmapSize memory
    { bitmap, words := filled.1, bitmapSize, totalPages, freeCount := filled.2,
      highestPage := totalPages }

/-- `PMM_MAX_PAGE` (`pmm.c:206`): only pages below 4 GiB are handed out. -/
def pmmMaxPage : Nat := 0x100000000 / pageSize

/-- `pmm_alloc_page` (`pmm.c:208-236`). The result is an address, 0 for `NULL`. The word loop
stops at the first non-zero word, and with it at the lowest set bit of that word. -/
def pmmAllocPage (s : Pmm) : Nat × Pmm :=
  let maxPage := if s.totalPages < pmmMaxPage then s.totalPages else pmmMaxPage
  let qwords := (maxPage + 63) / 64
  match (List.range qwords).find? (fun i => s.words i != 0#64) with
  | none => (0, s)
  | some i =>
      let bit := (s.words i).ctz.toNat
      let page := i * 64 + bit
      if page ≥ maxPage then (0, s)
      else
        (page * pageSize,
          { s with words := bitmapClear s.words page, freeCount := sub64 s.freeCount 1 })

/-- `pmm_free_page` (`pmm.c:238-250`). -/
def pmmFreePage (s : Pmm) (addr : Nat) : Pmm :=
  let page := addr / pageSize
  if page ≥ s.totalPages then s
  else if bitmapTest s.words page then s
  else { s with words := bitmapSet s.words page, freeCount := add64 s.freeCount 1 }

end MicroOs.Mm
