import MicroOs.Lib.Chain
import MicroOs.Mm.Pmm

/-!
# The kernel heap

Model of `kernel/mm/heap.c`: a first-fit allocator whose free blocks form a linked list in the free
memory itself. A block has its size in its first word, and in the second the link of the free list
(`FreeBlock`) or, while it is allocated, the complement of its size.

A `FreeBlock **` of the source is a `Link`. A list walk is bounded by `maxBlocks`; `none` is a walk
that has not ended by then.
-/

namespace MicroOs.Mm
open Lib

/-- `HEADER_SIZE` (`heap.c:21`). -/
def headerSize : Nat := 16

/-- `MIN_BLOCK`, the size of a `FreeBlock` (`heap.c:29`). -/
def minBlock : Nat := 16

/-- `HEAP_PAGES` (`heap.c:30`). -/
def heapPages : Nat := 64

/-- More 16-byte blocks than memory below 4 GiB has room for. -/
def maxBlocks : Nat := 2 ^ 28 + 1

/-- The file-scope variables of `heap.c:26-32` and the memory. -/
structure Heap where
  mem : Memory
  freeList : Nat
  heapStart : Nat
  heapEnd : Nat

/-- A `FreeBlock **`: `&free_list`, or `&blk->next`. -/
inductive Link where
  | head
  | next (blk : Nat)
  deriving DecidableEq, Repr

namespace Heap

/-- `blk->size`, which is also `hdr[0]`. -/
def size (h : Heap) (blk : Nat) : Nat := h.mem blk

/-- `blk->next`, which is also `hdr[1]`. -/
def next (h : Heap) (blk : Nat) : Nat := h.mem (blk + 8)

/-- `blk->size = v`. -/
def setSize (h : Heap) (blk v : Nat) : Heap := { h with mem := Function.update h.mem blk v }

/-- `blk->next = v`. -/
def setNext (h : Heap) (blk v : Nat) : Heap := { h with mem := Function.update h.mem (blk + 8) v }

/-- `*prev = v`. -/
def setLink (h : Heap) (prev : Link) (v : Nat) : Heap :=
  match prev with
  | .head => { h with freeList := v }
  | .next blk => h.setNext blk v

/-- The blocks of the free list, in the order of the list. -/
def freeBlocks (h : Heap) : List Block := blocksAt h.mem maxBlocks h.freeList

end Heap

/-- `free_list = base; free_list->size = total; free_list->next = NULL`. -/
def Heap.singleBlock (h : Heap) (base total : Nat) : Heap :=
  ({ h with freeList := base }.setSize base total).setNext base 0

/-- `heap_init` (`heap.c:36-65`). `answer i` is what the call number `i` of `pmm_alloc_page`
returns. The result holds the number of pages kept; the first page that does not continue the run
ends the function. -/
def heapInit (answer : Nat → Nat) (h : Heap) : Heap × Nat :=
  let base := answer 0
  if base = 0 then (h, 0)
  else
    match (List.range' 1 (heapPages - 1)).find? fun i => answer i ≠ base + i * pageSize with
    | some i => (h.singleBlock base (i * pageSize), i)
    | none =>
        let total := heapPages * pageSize
        ({ h.singleBlock base total with heapStart := base, heapEnd := base + total }, heapPages)

/-- The size of the block that serves a request (`heap.c:74-78`). -/
def neededSize (size : Nat) : Nat :=
  let size := add64 size 15 / 16 * 16
  let needed := add64 size headerSize
  if needed < minBlock then minBlock else needed

/-- Take the block `cur` off the list, whole or its front part (`heap.c:89-101`). -/
def takeBlock (h : Heap) (needed : Nat) (prev : Link) (cur : Nat) : Heap :=
  let h :=
    if h.size cur ≥ add64 needed (minBlock + 16) then
      let remainder := cur + needed
      let h := h.setSize remainder (h.size cur - needed)
      let h := h.setNext remainder (h.next cur)
      let h := h.setLink prev remainder
      h.setSize cur needed
    else h.setLink prev (h.next cur)
  let h := h.setSize cur (h.size cur)
  h.setNext cur (not64 (h.size cur))

/-- The search of `kmalloc` (`heap.c:84-107`): first fit. The pointer is 0 when no block is
large enough. -/
def searchFit (needed : Nat) : Nat → Heap → Link → Nat → Option (Nat × Heap)
  | 0, _, _, _ => none
  | fuel + 1, h, prev, cur =>
      if cur = 0 then some (0, h)
      else if h.size cur ≥ needed then some (cur + headerSize, takeBlock h needed prev cur)
      else searchFit needed fuel h (.next cur) (h.next cur)

/-- One attempt of `kmalloc`: a walk over the whole free list. -/
def kmallocAttempt (h : Heap) (needed : Nat) : Option (Nat × Heap) :=
  searchFit needed maxBlocks h .head h.freeList

/-- The number of pages `kmalloc` asks for when it grows the heap (`heap.c:115-116`). -/
def pagesNeeded (needed : Nat) : Nat :=
  let pages := add64 needed (pageSize - 1) / pageSize
  if pages < 4 then 4 else pages

/-- `blk` swallows the block `other` that follows it (`heap.c:154-155,162-163`). -/
def absorb (h : Heap) (blk other : Nat) : Heap :=
  let h := h.setSize blk (add64 (h.size blk) (h.size other))
  h.setNext blk (h.next other)

/-- Find the place of `blk` in the sorted list (`heap.c:143-148,209-215`). -/
def findPlace (h : Heap) (blk : Nat) : Nat → Link → Nat → Option (Link × Nat)
  | 0, _, _ => none
  | fuel + 1, prev, cur =>
      if cur ≠ 0 ∧ cur < blk then findPlace h blk fuel (.next cur) (h.next cur)
      else some (prev, cur)

/-- Coalesce with the next block. -/
def coalesceNext (h : Heap) (blk cur : Nat) : Heap :=
  if cur ≠ 0 ∧ add64 blk (h.size blk) = cur then absorb h blk cur else h

/-- Coalesce with the previous block, recovered from the link to its `next` field. -/
def coalescePrev (h : Heap) (prev : Link) (blk : Nat) : Heap :=
  match prev with
  | .head => h
  | .next p => if add64 p (h.size p) = blk then absorb h p blk else h

/-- Insert a block into the sorted list and coalesce it with its neighbours: the text that `kmalloc`
(`heap.c:142-165`) and `kfree` (`heap.c:208-234`) have in common. -/
def insertFree (h : Heap) (blk : Nat) : Option Heap := do
  let (prev, cur) ← findPlace h blk maxBlocks .head h.freeList
  let h := h.setNext blk cur
  let h := h.setLink prev blk
  let h := coalesceNext h blk cur
  return coalescePrev h prev blk

/-- The bounds after a region has been added (`heap.c:134-136`). -/
def Heap.widen (h : Heap) (base newEnd : Nat) : Heap :=
  { h with
    heapEnd := if newEnd > h.heapEnd then newEnd else h.heapEnd
    heapStart := if base < h.heapStart then base else h.heapStart }

/-- The second critical section of `kmalloc` (`heap.c:133-169`): add the region of `got` pages
and search once more. -/
def kmallocGrown (h : Heap) (needed base got : Nat) : Option (Nat × Heap) := do
  let h := h.widen base (base + got * pageSize)
  let h := h.setSize base (got * pageSize)
  let h ← insertFree h base
  kmallocAttempt h needed

/-- The part of `kfree` before the lock (`heap.c:193-204`): the block that goes back to the free
list, or `none` when the call returns early. -/
def kfreeCheck (h : Heap) (ptr : Nat) : Option (Nat × Heap) :=
  if ptr = 0 then none
  else
    let blk := sub64 ptr headerSize
    let blockSize := h.size blk
    if h.next blk ≠ not64 blockSize then none
    else if blk < h.heapStart ∨ add64 blk blockSize > h.heapEnd then none
    else some (blk, h.setSize blk blockSize)

/-- `kfree` (`heap.c:190-237`) without interruption. -/
def kfree (h : Heap) (ptr : Nat) : Option Heap :=
  match kfreeCheck h ptr with
  | none => some h
  | some (blk, h) => insertFree h blk

end MicroOs.Mm
