import MicroOs.Mm.Proofs.HeapRun
import MicroOs.Mm.Proofs.PmmRefine

/-!
# What holds of the heap in every run

The free list and the live blocks are well-formed in every state any interleaving can reach. No
memory is lost as long as every block passed to `kfree` lies between `heap_start` and `heap_end`;
`heap_init` leaves these at zero when its run of pages breaks off.
-/

namespace MicroOs.Mm
open Lib List

variable {s t : HeapSys} {fl : List Block}

/-- The page allocator gives the answers that are assumed of it: while it counts the pages of
the heap as held, what it returns is not one of them. -/
theorem pageAnswer_pmmAllocPage {total : Nat} {p : PmmSys} (hp : p.Inv total) {pages : Finset Nat}
    (hheld : ∀ q ∈ pages, q * pageSize ∈ p.held) : PageAnswer pages (pmmAllocPage p.pmm).1 := by
  rcases pmmAllocPage_step hp.ok with ⟨heq, -⟩ | ⟨q, u, heq, hpos, -, -, hstep⟩
  · rw [heq]
    exact Or.inl rfl
  · rw [heq]
    have hdiv : q * pageSize / pageSize = q := Nat.mul_div_cancel q (by decide)
    generalize u.freePages = after at hstep
    cases hstep with
    | allocated mem below lowest =>
      refine Or.inr ⟨Nat.mul_mod_left _ _, Nat.mul_pos hpos (by decide), ?_, ?_⟩
      · rw [hdiv]
        exact lt_of_lt_of_le below (Nat.min_le_right _ _)
      · rw [hdiv]
        intro hq
        exact hp.used _ (hheld q hq) (hdiv.symm ▸ mem)

theorem pageAnswer_pmmAllocPage_second :
    let first := pmmAllocPage oneMegabyteBoot.pmm
    PageAnswer {first.1 / pageSize} (pmmAllocPage first.2).1 := by
  have inv := PmmSys.inv_of_reachable oneMegabyte_bootMap oneMegabyte_found (.start rfl)
  exact pageAnswer_pmmAllocPage (inv.step (.alloc _ (by decide +kernel))) (by decide +kernel)

lemma HeapSys.inv_of_reachable (reach : Reachable HeapBooted HeapStep s) : ∃ fl, s.Inv fl := by
  refine reach.invariant (fun a => ∃ fl, HeapSys.Inv a fl) ?_ ?_
  · rintro _ ⟨answer, mem, hans, rfl⟩
    obtain ⟨fl, hinv, -⟩ := heapBoot_inv mem hans
    exact ⟨fl, hinv⟩
  · rintro a e b ⟨fl, hinv⟩ hstep
    obtain ⟨fl', hinv', -⟩ := hstep.keepsInv hinv
    exact ⟨fl', hinv'⟩

lemma HeapSys.Inv.kmallocAttempt_isSome (hinv : s.Inv fl) (size : Nat) :
    (kmallocAttempt s.heap (neededSize size)).isSome := by
  obtain ⟨hn, hn16⟩ := neededSize_ok size
  rcases kmallocAttempt_spec hinv.free hn hn16 with ⟨heq, -⟩ | ⟨b, fl', h', heq, -⟩ <;> simp [heq]

lemma HeapSys.Inv.kmallocGrown_isSome (hinv : s.Inv fl) {needed base got : Nat}
    (hcall : .grown needed base got ∈ s.calls) : (kmallocGrown s.heap needed base got).isSome := by
  obtain ⟨hn, hn16, -⟩ := hinv.calls _ hcall
  obtain ⟨hshaped, htop, hapart⟩ :=
    hinv.of_call (b := ⟨base, got * pageSize⟩) hcall (by simp [HeapCall.blocks])
  obtain ⟨h2, fl2, -, -, -, -, heq | ⟨b', fl', h', heq, -⟩⟩ :=
    kmallocGrown_spec got hinv.free hshaped htop hapart rfl hn hn16
  · simp [heq]
  · simp [heq]

lemma HeapSys.Inv.insertFree_spec (hinv : s.Inv fl) {b : Block} (hcall : .freeing b ∈ s.calls) :
    ∃ h' fl', insertFree s.heap b.addr = some h' ∧ h'.FreeIs fl' ∧ Same (b :: fl) fl' := by
  obtain ⟨hshaped, htop, hapart⟩ := hinv.of_call (b := b) hcall (by simp [HeapCall.blocks])
  obtain ⟨h', fl', heq, hfree, hsame, -, -⟩ :=
    Mm.insertFree_spec hinv.free hshaped htop hapart (hinv.calls _ hcall)
  exact ⟨h', fl', heq, hfree, hsame⟩

/-- In every reachable state the free list is sorted, disjoint from the live blocks and fully
coalesced, all blocks lie in pages of the heap, and every critical section that can be entered
returns. -/
theorem heap_wellFormed (reach : Reachable HeapBooted HeapStep s) :
    -- the links end in NULL after the blocks of the list, which are in strictly increasing order
    Seg s.heap.mem s.heap.freeList s.heap.freeBlocks 0 ∧
    s.heap.freeBlocks.Pairwise (fun a b => a.addr < b.addr) ∧
    -- free and live blocks are disjoint and inside pages of the heap
    (s.heap.freeBlocks ++ s.live).Pairwise Apart ∧
    (∀ b ∈ s.heap.freeBlocks ++ s.live, ∀ x, b.Has x → x / pageSize ∈ s.pages) ∧
    -- no free block ends where another one starts
    s.heap.freeBlocks.Pairwise (fun a b => a.fin ≠ b.addr) ∧
    (∀ b ∈ s.heap.freeBlocks ++ s.live,
      b.addr % 16 = 0 ∧ b.size % 16 = 0 ∧ 16 ≤ b.addr ∧ 16 ≤ b.size) ∧
    -- no walk over the list runs on forever
    (∀ size, (kmallocAttempt s.heap (neededSize size)).isSome) ∧
    (∀ needed base got, .grown needed base got ∈ s.calls →
      (kmallocGrown s.heap needed base got).isSome) ∧
    (∀ b, .freeing b ∈ s.calls → (insertFree s.heap b.addr).isSome) := by
  obtain ⟨fl, hinv⟩ := HeapSys.inv_of_reachable reach
  rw [hinv.free.freeBlocks]
  have hsub : (fl ++ s.live).Sublist (fl ++ s.owned) := by
    refine (Sublist.refl fl).append ?_
    rw [HeapSys.owned, append_assoc]
    exact sublist_append_left _ _
  have hshaped : ∀ b ∈ fl ++ s.live, Shaped b := fun b hb => hinv.tiles.shaped b (hsub.subset hb)
  refine ⟨hinv.free.rep, ?_, hinv.tiles.apart.sublist hsub, ?_, ?_, ?_,
    hinv.kmallocAttempt_isSome, fun _ _ _ => hinv.kmallocGrown_isSome, ?_⟩
  · exact hinv.free.spaced.imp fun hab => by simp only [Block.fin] at hab; omega
  · exact fun b hb x hx => hinv.tiles.inside x ⟨b, hsub.subset hb, hx⟩
  · exact hinv.free.spaced.imp Nat.ne_of_lt
  · exact fun b hb => ⟨(hshaped b hb).addr, (hshaped b hb).size, (hshaped b hb).low,
      (hshaped b hb).room⟩
  · intro b hcall
    obtain ⟨h', fl', heq, -⟩ := hinv.insertFree_spec hcall
    simp [heq]

def contiguousPages (i : Nat) : Nat := if i < heapPages then 0x200000 + i * pageSize else 0

lemma initAnswers_contiguousPages : InitAnswers contiguousPages := by
  intro i
  simp only [contiguousPages]
  split
  · simp only [heapPages, pageSize, pmmMaxPage] at *
    omega
  · exact Or.inl rfl

theorem heap_wellFormed_after_kmalloc :
    ∃ s, Reachable HeapBooted HeapStep s ∧ s.live = [⟨0x200000, 128⟩] ∧
      s.heap.freeBlocks.Pairwise (fun a b => a.addr < b.addr) ∧
      (s.heap.freeBlocks ++ s.live).Pairwise Apart := by
  have hstep := HeapStep.kmallocHit (heapBoot contiguousPages fun _ => 0) 100 (0x200000 + 16) _
    (by decide) rfl (by decide)
  have booted : Reachable HeapBooted HeapStep (heapBoot contiguousPages fun _ => 0) :=
    .start ⟨contiguousPages, fun _ => 0, initAnswers_contiguousPages, rfl⟩
  have reach := booted.next hstep
  obtain ⟨-, hsorted, hapart, -⟩ := heap_wellFormed reach
  exact ⟨_, reach, rfl, hsorted, hapart⟩

lemma HeapSys.Inv.accounts (hinv : s.Inv fl) :
    bytes s.heap.freeBlocks + bytes s.live + bytes s.inFlight + bytes s.lost =
      pageSize * s.pages.card := by
  rw [hinv.free.freeBlocks, ← hinv.tiles.bytes]
  simp only [HeapSys.owned, bytes_append]
  omega

lemma HeapSys.Inv.bytes_lost (hinv : s.Inv fl) : bytes s.lost = 0 ↔ s.lost = [] := by
  constructor
  · intro hzero
    by_contra hne
    obtain ⟨b, rest, heq⟩ := exists_cons_of_ne_nil hne
    have hroom := (hinv.tiles.shaped b (by simp [HeapSys.owned, heq])).room
    simp only [heq, bytes_cons] at hzero
    omega
  · intro hnil
    simp [hnil]

lemma HeapSys.Inv.blockOf (hinv : s.Inv fl) {b : Block} (hb : b ∈ s.live) :
    s.heap.blockOf (b.addr + headerSize) = b := by
  simp only [Heap.blockOf, Nat.add_sub_cancel, Heap.size, (hinv.headers b hb).1]

lemma HeapStep.kfree_live {ptr : Nat} (hstep : HeapStep s (.kfree ptr) t) :
    ∃ b ∈ s.live, ptr = b.addr + headerSize := by
  cases hstep with
  | kfreeReject b rest hpick hdo => exact ⟨b, hpick.mem_iff.mpr mem_cons_self, rfl⟩
  | kfreeAccept b rest blk h' hpick hdo => exact ⟨b, hpick.mem_iff.mpr mem_cons_self, rfl⟩

def FreesInBounds (s : HeapSys) (e : HeapEvent) : Prop :=
  ∀ ptr, e = .kfree ptr → s.heap.InBounds (s.heap.blockOf ptr)

lemma HeapStep.lost_iff {e : HeapEvent} (hstep : HeapStep s e t) (hinv : s.Inv fl) :
    t.lost = [] ↔ s.lost = [] ∧ FreesInBounds s e := by
  have other : (∀ ptr, e ≠ .kfree ptr) → FreesInBounds s e := fun hne ptr he => absurd he (hne ptr)
  cases hstep with
  | kfreeReject b rest hpick hdo =>
    have hb : b ∈ s.live := hpick.mem_iff.mpr mem_cons_self
    rw [hinv.kfreeCheck hb] at hdo
    have hout : ¬ s.heap.InBounds b := fun hin => by simp [hin] at hdo
    simp only [reduceCtorEq, false_iff, not_and]
    intro _ hfrees
    exact hout (hinv.blockOf hb ▸ hfrees _ rfl)
  | kfreeAccept b rest blk h' hpick hdo =>
    have hb : b ∈ s.live := hpick.mem_iff.mpr mem_cons_self
    rw [hinv.kfreeCheck hb] at hdo
    have hin : s.heap.InBounds b := by
      by_contra hout
      simp [hout] at hdo
    have hfrees : FreesInBounds s (.kfree (b.addr + headerSize)) := by
      rintro ptr heq
      obtain rfl := HeapEvent.kfree.inj heq
      rw [hinv.blockOf hb]
      exact hin
    simp [hfrees]
  | _ => simp [other (by simp)]

variable {answer : Nat → Nat} {mem : Memory} {trace : List (StepOf HeapSys HeapEvent)}

lemma run_lost_iff (hans : InitAnswers answer)
    (run : Run HeapStep (heapBoot answer mem) trace t) :
    t.lost = [] ↔ ∀ st ∈ trace, FreesInBounds st.pre st.event := by
  induction run with
  | nil => simp [heapBoot]
  | snoc run hstep ih =>
    obtain ⟨fl, hinv⟩ := HeapSys.inv_of_reachable (run.reachable ⟨answer, mem, hans, rfl⟩)
    rw [hstep.lost_iff hinv, ih]
    simp [or_imp, forall_and]

lemma run_freesInBounds (hans : InitAnswers answer)
    (hfull : answer 0 = 0 ∨ ∀ j < heapPages, answer j = answer 0 + j * pageSize)
    (run : Run HeapStep (heapBoot answer mem) trace t) :
    ∀ st ∈ trace, FreesInBounds st.pre st.event := by
  obtain ⟨fl0, hinv0, hbound0⟩ := heapBoot_inv mem hans
  have keep : ∀ a e b, (∃ fl, HeapSys.Inv a fl ∧ a.Bounded fl) → HeapStep a e b → True →
      ∃ fl, HeapSys.Inv b fl ∧ b.Bounded fl := by
    rintro a e b ⟨fl, hinv, hbound⟩ hstep -
    obtain ⟨fl', hinv', hbound'⟩ := hstep.keepsInv hinv
    exact ⟨fl', hinv', hbound' hbound⟩
  intro st hst ptr he
  obtain ⟨fl, hinv, hbound⟩ :=
    run.invariant_of_pre ⟨fl0, hinv0, hbound0 hfull⟩ keep (fun _ _ => True.intro) st hst
  have hstep := run.step_of_mem st hst
  rw [he] at hstep
  obtain ⟨b, hb, rfl⟩ := hstep.kfree_live
  rw [hinv.blockOf hb]
  exact hbound b (by simp [hb])

lemma HeapStep.kfreeLocked_covers {blk : Nat} (hstep : HeapStep s (.kfreeLocked blk) t)
    (hinv : s.Inv fl) (x : Nat) : Covers t.heap.freeBlocks x ↔
      (⟨blk, s.heap.size blk⟩ : Block).Has x ∨ Covers s.heap.freeBlocks x := by
  cases hstep with
  | kfreeLocked b rest h' hpick hdo =>
    have hcall : HeapCall.freeing b ∈ s.calls := hpick.mem_iff.mpr mem_cons_self
    obtain ⟨h'', fl', heq, hfree, hsame⟩ := hinv.insertFree_spec hcall
    obtain rfl : h'' = h' := Option.mem_unique heq hdo
    have hblock : (⟨b.addr, s.heap.size b.addr⟩ : Block) = b := by
      rw [Heap.size, show s.heap.mem b.addr = b.size from hinv.calls _ hcall]
    rw [hblock, hinv.free.freeBlocks]
    simp only [hfree.freeBlocks, ← hsame.covers x, covers_cons]

/-- In a run from any outcome of `heap_init`, free and live memory and what calls in progress hold
add up to the pages of the heap exactly when every `kfree` is called on a block between `heap_start`
and `heap_end`; always so when `heap_init` got all its pages in a row, or none. -/
theorem heap_conserves_iff_frees_inBounds (hans : InitAnswers answer)
    (run : Run HeapStep (heapBoot answer mem) trace t) :
    (bytes t.heap.freeBlocks + bytes t.live + bytes t.inFlight = pageSize * t.pages.card ↔
      ∀ st ∈ trace, FreesInBounds st.pre st.event) ∧
    ((answer 0 = 0 ∨ ∀ j < heapPages, answer j = answer 0 + j * pageSize) →
      ∀ st ∈ trace, FreesInBounds st.pre st.event) ∧
    (∀ st ∈ trace, ∀ blk, st.event = .kfreeLocked blk → ∀ x,
      Covers st.post.heap.freeBlocks x ↔
        (⟨blk, st.pre.heap.size blk⟩ : Block).Has x ∨ Covers st.pre.heap.freeBlocks x) := by
  have booted : HeapBooted (heapBoot answer mem) := ⟨answer, mem, hans, rfl⟩
  obtain ⟨fl, hinv⟩ := HeapSys.inv_of_reachable (run.reachable booted)
  refine ⟨?_, fun hfull => run_freesInBounds hans hfull run, ?_⟩
  · rw [← run_lost_iff hans run, ← hinv.bytes_lost]
    have haccounts := hinv.accounts
    omega
  · intro st hst blk he
    obtain ⟨fl', hinv'⟩ := HeapSys.inv_of_reachable (run.reachable_pre booted st hst)
    have hstep := run.step_of_mem st hst
    rw [he] at hstep
    exact hstep.kfreeLocked_covers hinv'

/-- A fresh heap of contiguous pages, one `kmalloc(100)`. -/
theorem heap_conserves_iff_frees_inBounds_contiguous :
    ∃ trace t, Run HeapStep (heapBoot contiguousPages fun _ => 0) trace t ∧
      t.live = [⟨0x200000, 128⟩] ∧
      bytes t.heap.freeBlocks + bytes t.live + bytes t.inFlight = pageSize * t.pages.card := by
  have hstep := HeapStep.kmallocHit (heapBoot contiguousPages fun _ => 0) 100 (0x200000 + 16) _
    (by decide) rfl (by decide)
  have run := Run.nil.snoc hstep
  obtain ⟨hiff, hfull, -⟩ := heap_conserves_iff_frees_inBounds initAnswers_contiguousPages run
  refine ⟨_, _, run, rfl, hiff.mpr (hfull (Or.inr fun j hj => ?_))⟩
  have hfirst : contiguousPages 0 = 0x200000 := rfl
  rw [hfirst, contiguousPages, if_pos hj]

def onePage (i : Nat) : Nat := if i = 0 then 0x200000 else 0

lemma initAnswers_onePage : InitAnswers onePage := by
  intro i
  simp only [onePage]
  split
  · exact Or.inr (by decide)
  · exact Or.inl rfl

/-- When `heap_init` gets a single page, the first block that is allocated and freed is lost: 32
of 4096 bytes are neither free nor live. -/
theorem kfree_loses_block_after_partial_init :
    InitAnswers onePage ∧ ∃ trace t, Run HeapStep (heapBoot onePage fun _ => 0) trace t ∧
      trace.map StepOf.event = [.kmalloc 16, .kfree 0x200010] ∧ t.live = [] ∧ t.calls = [] ∧
      bytes t.heap.freeBlocks + bytes t.live + bytes t.inFlight = 4064 ∧
      pageSize * t.pages.card = 4096 := by
  have alloc := HeapStep.kmallocHit (heapBoot onePage fun _ => 0) 16 0x200010 _
    (by decide) rfl (by decide)
  have free := HeapStep.kfreeReject
    { heapBoot onePage fun _ => 0 with
      heap := takeBlock (heapBoot onePage fun _ => 0).heap 32 .head 0x200000
      live := [⟨0x200000, 32⟩] }
    ⟨0x200000, 32⟩ [] (Perm.refl _) rfl
  have run := (Run.nil.snoc alloc).snoc free
  obtain ⟨fl, hinv⟩ :=
    HeapSys.inv_of_reachable (run.reachable ⟨onePage, fun _ => 0, initAnswers_onePage, rfl⟩)
  have haccounts := hinv.accounts
  have hpages : pageSize * (heapBoot onePage fun _ => 0).pages.card = 4096 := by decide
  refine ⟨initAnswers_onePage, _, _, run, rfl, rfl, rfl, ?_, hpages⟩
  exact Nat.add_right_cancel (haccounts.trans hpages)

end MicroOs.Mm
