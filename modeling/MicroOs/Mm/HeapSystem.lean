import MicroOs.Lib.Transition
import MicroOs.Mm.Heap

/-!
# Calls of the heap by several tasks

A step is what one task does without giving up `heap_lock`, or one call of `pmm_alloc_page` that
`kmalloc` makes without the lock. Between its steps a call is recorded in `calls` with its local
variables, so that calls of any number of tasks interleave.
-/

namespace MicroOs.Mm
open Lib

/-- A call that is between two of its critical sections. -/
inductive HeapCall where
  /-- `kmalloc` has released the lock and has not asked for a page yet (`heap.c:113-118`). -/
  | growing (needed : Nat)
  /-- In the loop that collects contiguous pages (`heap.c:121-130`). -/
  | collecting (needed base got : Nat)
  /-- The loop is left, the lock not yet taken again (`heap.c:133`). -/
  | grown (needed base got : Nat)
  /-- `kfree` has checked the block and waits for the lock (`heap.c:204-206`). -/
  | freeing (blk : Block)
  deriving DecidableEq, Repr

/-- The memory a call holds between its steps. -/
def HeapCall.blocks : HeapCall → List Block
  | .growing _ => []
  | .collecting _ base got => [⟨base, got * pageSize⟩]
  | .grown _ base got => [⟨base, got * pageSize⟩]
  | .freeing blk => [blk]

/-- The heap and everything that is outside of it but came from it. -/
structure HeapSys where
  heap : Heap
  /-- The numbers of the pages taken from the page allocator and not given back. -/
  pages : Finset Nat
  /-- The blocks returned by `kmalloc` and not yet passed to `kfree`. -/
  live : List Block
  /-- The calls in progress, in no particular order. -/
  calls : List HeapCall
  /-- The blocks passed to a `kfree` that returned at one of its checks. -/
  lost : List Block

/-- The blocks held by calls in progress. -/
def HeapSys.inFlight (s : HeapSys) : List Block := s.calls.flatMap HeapCall.blocks

/-- All blocks that are not on the free list. -/
def HeapSys.owned (s : HeapSys) : List Block := s.live ++ s.inFlight ++ s.lost

/-- What `pmm_alloc_page` may return: `NULL`, or a page that the heap does not have. -/
def PageAnswer (pages : Finset Nat) (a : Nat) : Prop :=
  a = 0 ∨ a % pageSize = 0 ∧ 0 < a ∧ a / pageSize < pmmMaxPage ∧ a / pageSize ∉ pages

/-- The block that belongs to a pointer returned by `kmalloc`. -/
def Heap.blockOf (h : Heap) (ptr : Nat) : Block := ⟨ptr - headerSize, h.size (ptr - headerSize)⟩

/-- The calls of the heap and what goes on around them. -/
inductive HeapEvent where
  | kmalloc (size : Nat)
  | page (answer : Nat)
  | leaveLoop
  | grow
  | kfree (ptr : Nat)
  | kfreeLocked (blk : Nat)
  | store
  deriving DecidableEq, Repr

/-- One step of one task. `Perm` picks the call, or the live block, that the step is about. -/
inductive HeapStep : HeapSys → HeapEvent → HeapSys → Prop
  | kmallocZero (s : HeapSys) : HeapStep s (.kmalloc 0) s
  | kmallocHit (s : HeapSys) (size ptr : Nat) (h' : Heap) : size ≠ 0 →
      kmallocAttempt s.heap (neededSize size) = some (ptr, h') → ptr ≠ 0 →
      HeapStep s (.kmalloc size) { s with heap := h', live := h'.blockOf ptr :: s.live }
  | kmallocMiss (s : HeapSys) (size : Nat) (h' : Heap) : size ≠ 0 →
      kmallocAttempt s.heap (neededSize size) = some (0, h') →
      HeapStep s (.kmalloc size)
        { s with heap := h', calls := .growing (neededSize size) :: s.calls }
  | noPage (s : HeapSys) (needed : Nat) (rest : List HeapCall) :
      s.calls.Perm (.growing needed :: rest) → HeapStep s (.page 0) { s with calls := rest }
  | firstPage (s : HeapSys) (needed a : Nat) (rest : List HeapCall) :
      s.calls.Perm (.growing needed :: rest) → PageAnswer s.pages a → a ≠ 0 →
      HeapStep s (.page a)
        { s with calls := .collecting needed a 1 :: rest, pages := insert (a / pageSize) s.pages }
  | nextPage (s : HeapSys) (needed base got a : Nat) (rest : List HeapCall) :
      s.calls.Perm (.collecting needed base got :: rest) → got < pagesNeeded needed →
      PageAnswer s.pages a → a ≠ 0 → a = base + got * pageSize →
      HeapStep s (.page a)
        { s with calls := .collecting needed base (got + 1) :: rest
                 pages := insert (a / pageSize) s.pages }
  -- a page that does not continue the run goes straight back to the page allocator
  | otherPage (s : HeapSys) (needed base got a : Nat) (rest : List HeapCall) :
      s.calls.Perm (.collecting needed base got :: rest) → got < pagesNeeded needed →
      PageAnswer s.pages a → a = 0 ∨ a ≠ base + got * pageSize →
      HeapStep s (.page a) { s with calls := .grown needed base got :: rest }
  | leaveLoop (s : HeapSys) (needed base got : Nat) (rest : List HeapCall) :
      s.calls.Perm (.collecting needed base got :: rest) → ¬ got < pagesNeeded needed →
      HeapStep s .leaveLoop { s with calls := .grown needed base got :: rest }
  | growHit (s : HeapSys) (needed base got ptr : Nat) (rest : List HeapCall) (h' : Heap) :
      s.calls.Perm (.grown needed base got :: rest) →
      kmallocGrown s.heap needed base got = some (ptr, h') → ptr ≠ 0 →
      HeapStep s .grow { s with heap := h', live := h'.blockOf ptr :: s.live, calls := rest }
  | growMiss (s : HeapSys) (needed base got : Nat) (rest : List HeapCall) (h' : Heap) :
      s.calls.Perm (.grown needed base got :: rest) →
      kmallocGrown s.heap needed base got = some (0, h') →
      HeapStep s .grow { s with heap := h', calls := rest }
  | kfreeReject (s : HeapSys) (b : Block) (rest : List Block) : s.live.Perm (b :: rest) →
      kfreeCheck s.heap (b.addr + headerSize) = none →
      HeapStep s (.kfree (b.addr + headerSize)) { s with live := rest, lost := b :: s.lost }
  | kfreeAccept (s : HeapSys) (b : Block) (rest : List Block) (blk : Nat) (h' : Heap) :
      s.live.Perm (b :: rest) → kfreeCheck s.heap (b.addr + headerSize) = some (blk, h') →
      HeapStep s (.kfree (b.addr + headerSize))
        { s with heap := h', live := rest, calls := .freeing ⟨blk, h'.size blk⟩ :: s.calls }
  | kfreeLocked (s : HeapSys) (b : Block) (rest : List HeapCall) (h' : Heap) :
      s.calls.Perm (.freeing b :: rest) → insertFree s.heap b.addr = some h' →
      HeapStep s (.kfreeLocked b.addr) { s with heap := h', calls := rest }
  -- tasks write to the payload of live blocks and to memory that is not the heap's
  | store (s : HeapSys) (mem' : Memory) :
      (∀ x, mem' x ≠ s.heap.mem x →
        (∃ b ∈ s.live, b.addr + headerSize ≤ x ∧ x < b.fin) ∨ x / pageSize ∉ s.pages) →
      HeapStep s .store { s with heap := { s.heap with mem := mem' } }

/-- What the calls of `pmm_alloc_page` that `heap_init` makes may return. -/
def InitAnswers (answer : Nat → Nat) : Prop :=
  ∀ i, answer i = 0 ∨ answer i % pageSize = 0 ∧ answer i / pageSize < pmmMaxPage

/-- The system after `heap_init`. The file-scope variables of `heap.c` start as zero. -/
def heapBoot (answer : Nat → Nat) (mem : Memory) : HeapSys :=
  let r := heapInit answer { mem, freeList := 0, heapStart := 0, heapEnd := 0 }
  { heap := r.1
    pages := (Finset.range r.2).image (answer 0 / pageSize + ·)
    live := []
    calls := []
    lost := [] }

/-- The states a kernel can be in when `heap_init` has returned. -/
def HeapBooted (s : HeapSys) : Prop := ∃ answer mem, InitAnswers answer ∧ s = heapBoot answer mem

end MicroOs.Mm
