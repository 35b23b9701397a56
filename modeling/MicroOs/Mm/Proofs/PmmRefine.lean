import MicroOs.Lib.Transition
import MicroOs.Mm.Proofs.PmmInit

/-!
# The page allocator refines a finite set of pages

What the allocator is for is `PageStep`: a set of free page numbers from which the lowest
page below a limit is taken and into which pages are put back. The bitmap, searched
word by word, is shown to take exactly these steps in every history of calls.
-/

namespace MicroOs.Mm
open Lib List

variable {p total : Nat} {s : Pmm}

inductive PageEvent where
  | allocated (page : Nat)
  | exhausted
  | freed (page : Nat)
  deriving DecidableEq, Repr

/-- The steps of an allocator over a finite set of free pages. -/
inductive PageStep (limit : Nat) : Finset Nat → PageEvent → Finset Nat → Prop
  | allocated {free : Finset Nat} {p : Nat} (mem : p ∈ free) (below : p < limit)
      (lowest : ∀ q ∈ free, q < limit → p ≤ q) : PageStep limit free (.allocated p) (free.erase p)
  | exhausted {free : Finset Nat} (none : ∀ q ∈ free, limit ≤ q) :
      PageStep limit free .exhausted free
  | freed (free : Finset Nat) (p : Nat) : PageStep limit free (.freed p) (insert p free)

def Pmm.freePages (s : Pmm) : Finset Nat := bitsIn s.words 0 s.totalPages

def Pmm.limit (s : Pmm) : Nat := min s.totalPages pmmMaxPage

lemma Pmm.mem_freePages : p ∈ s.freePages ↔ p < s.totalPages ∧ bitAt s.words p = true := by
  simp [Pmm.freePages]

lemma Pmm.Ok.all_bits (h : s.Ok) : bitsIn s.words 0 (8 * s.bitmapSize) = s.freePages := by
  have hsize := h.size
  ext p
  rw [mem_bitsIn, Pmm.mem_freePages]
  constructor
  · rintro ⟨⟨-, hlt⟩, hbit⟩
    refine ⟨?_, hbit⟩
    by_contra hge
    rw [h.tail p (by omega) hlt] at hbit
    exact Bool.false_ne_true hbit
  · rintro ⟨hlt, hbit⟩
    exact ⟨⟨Nat.zero_le _, by omega⟩, hbit⟩

lemma bitAt_of_word_zero {w : Words} (h : w (p / 64) = 0#64) : bitAt w p = false := by
  rw [bitAt, h]
  exact BitVec.getLsbD_zero

lemma pmmAllocPage_cases (s : Pmm) :
    (pmmAllocPage s = (0, s) ∧ ∀ q < s.limit, bitAt s.words q = false) ∨
      ∃ p, p < s.limit ∧ bitAt s.words p = true ∧ (∀ q < p, bitAt s.words q = false) ∧
        pmmAllocPage s = (p * pageSize,
          { s with words := bitmapClear s.words p, freeCount := sub64 s.freeCount 1 }) := by
  have hmax : (if s.totalPages < pmmMaxPage then s.totalPages else pmmMaxPage) = s.limit := by
    unfold Pmm.limit; split <;> omega
  simp only [pmmAllocPage, hmax]
  cases hfind : (range ((s.limit + 63) / 64)).find? (fun i => s.words i != 0#64) with
  | none =>
    -- every word that has a bit below the limit is zero
    left
    refine ⟨rfl, fun q hq => bitAt_of_word_zero ?_⟩
    have hzero := find?_eq_none.mp hfind (q / 64) (mem_range.mpr (by omega))
    simpa using hzero
  | some i =>
    obtain ⟨hne, -, hbefore⟩ := find?_range_eq_some.mp hfind
    have hword : s.words i ≠ 0#64 := by simpa using hne
    have hctz : (s.words i).ctz.toNat < 64 := by
      have := BitVec.ctz_lt_iff_ne_zero.mpr hword
      simpa [BitVec.lt_def] using this
    have hdiv : (i * 64 + (s.words i).ctz.toNat) / 64 = i := by omega
    have hmod : (i * 64 + (s.words i).ctz.toNat) % 64 = (s.words i).ctz.toNat := by omega
    have hon : bitAt s.words (i * 64 + (s.words i).ctz.toNat) = true := by
      rw [bitAt, hdiv, hmod]
      exact BitVec.getLsbD_true_ctz_of_ne_zero hword
    have hlow : ∀ q < i * 64 + (s.words i).ctz.toNat, bitAt s.words q = false := by
      intro q hq
      by_cases hqi : q / 64 < i
      · apply bitAt_of_word_zero
        simpa using hbefore (q / 64) hqi
      · obtain hqi : q / 64 = i := by omega
        rw [bitAt, hqi]
        exact BitVec.getLsbD_false_of_lt_ctz (by omega)
    simp only
    split
    · -- the early return: the lowest bit of all is already past the limit
      rename_i hge
      exact Or.inl ⟨rfl, fun q hq => hlow q (by omega)⟩
    · rename_i hlt
      exact Or.inr ⟨_, by omega, hon, hlow, rfl⟩

lemma Pmm.Ok.take (h : s.Ok) (hp : p ∈ s.freePages) :
    let t := { s with words := bitmapClear s.words p, freeCount := sub64 s.freeCount 1 }
    t.Ok ∧ t.freePages = s.freePages.erase p := by
  intro t
  have hset : t.freePages = s.freePages.erase p := by
    ext q
    simp only [t, Pmm.mem_freePages, bitAt_bitmapClear, Finset.mem_erase]
    by_cases hq : q = p <;> simp [hq]
  have hcard : s.freePages.card ≤ s.totalPages := by
    simpa [Pmm.freePages] using bitsIn_card_le s.words 0 s.totalPages
  have hpos : 0 < s.freePages.card := Finset.card_pos.mpr ⟨p, hp⟩
  have hbound := h.bound
  refine ⟨{ size := h.size, tail := ?_, count := ?_, page0 := ?_, bound := h.bound }, hset⟩
  · intro q hq hlt
    simp [t, bitAt_bitmapClear, h.tail q hq hlt]
  · have hcount : s.freeCount = s.freePages.card := h.count
    change sub64 s.freeCount 1 = t.freePages.card
    rw [hset, Finset.card_erase_of_mem hp, hcount, sub64_of_le hpos (by simp only [two64]; omega)]
  · simp [t, bitAt_bitmapClear, h.page0]

lemma Pmm.Ok.put (h : s.Ok) (hlt : p < s.totalPages) (hp : p ∉ s.freePages) (hne : p ≠ 0) :
    let t := { s with words := bitmapSet s.words p, freeCount := add64 s.freeCount 1 }
    t.Ok ∧ t.freePages = insert p s.freePages := by
  intro t
  have hset : t.freePages = insert p s.freePages := by
    ext q
    simp only [t, Pmm.mem_freePages, bitAt_bitmapSet, Finset.mem_insert]
    by_cases hq : q = p
    · simp [hq, hlt]
    · simp [hq]
  have hcard : t.freePages.card ≤ s.totalPages := by
    simpa [Pmm.freePages] using bitsIn_card_le t.words 0 s.totalPages
  have hbound := h.bound
  refine ⟨{ size := h.size, tail := ?_, count := ?_, page0 := ?_, bound := h.bound }, hset⟩
  · intro q hq hltq
    have hqp : q ≠ p := by simp only [t] at hq; omega
    simp [t, bitAt_bitmapSet, hqp, h.tail q hq hltq]
  · have hcount : s.freeCount = s.freePages.card := h.count
    change add64 s.freeCount 1 = t.freePages.card
    rw [hset, Finset.card_insert_of_notMem hp] at hcard ⊢
    rw [hcount, add64_of_lt (by simp only [two64]; omega)]
  · simp [t, bitAt_bitmapSet, hne.symm, h.page0]

/-- `pmm_alloc_page` takes an abstract step, and keeps the invariant. The address it returns
is `NULL` exactly when the abstract allocator is exhausted. -/
lemma pmmAllocPage_step (h : s.Ok) :
    (pmmAllocPage s = (0, s) ∧ PageStep s.limit s.freePages .exhausted s.freePages) ∨
      ∃ p t, pmmAllocPage s = (p * pageSize, t) ∧ 0 < p ∧ t.Ok ∧ t.totalPages = s.totalPages ∧
        PageStep s.limit s.freePages (.allocated p) t.freePages := by
  rcases pmmAllocPage_cases s with ⟨hnull, hoff⟩ | ⟨p, hlt, hon, hlow, heq⟩
  · left
    refine ⟨hnull, .exhausted fun q hq => ?_⟩
    by_contra hlt
    rw [Pmm.mem_freePages, hoff q (by omega)] at hq
    exact Bool.false_ne_true hq.2
  · right
    have hmem : p ∈ s.freePages :=
      Pmm.mem_freePages.mpr ⟨lt_of_lt_of_le hlt (Nat.min_le_left _ _), hon⟩
    obtain ⟨hok, hset⟩ := h.take hmem
    have hpos : 0 < p := by
      rcases Nat.eq_zero_or_pos p with rfl | hpos
      · rw [h.page0] at hon; exact absurd hon Bool.false_ne_true
      · exact hpos
    refine ⟨p, _, heq, hpos, hok, rfl, ?_⟩
    rw [hset]
    refine .allocated hmem hlt fun q hq _ => ?_
    by_contra hqp
    rw [Pmm.mem_freePages, hlow q (by omega)] at hq
    exact Bool.false_ne_true hq.2

/-- `pmm_free_page` takes an abstract step, keeps the invariant, and changes nothing when the
page is already free. -/
lemma pmmFreePage_step (h : s.Ok) {a : Nat} (hne : a / pageSize ≠ 0)
    (hlt : a / pageSize < s.totalPages) :
    (pmmFreePage s a).Ok ∧ (pmmFreePage s a).totalPages = s.totalPages ∧
      PageStep s.limit s.freePages (.freed (a / pageSize)) (pmmFreePage s a).freePages ∧
      (a / pageSize ∈ s.freePages → pmmFreePage s a = s) := by
  simp only [pmmFreePage, if_neg (Nat.not_le.mpr hlt), bitmapTest_eq]
  split
  · rename_i hon
    have hmem : a / pageSize ∈ s.freePages := Pmm.mem_freePages.mpr ⟨hlt, hon⟩
    refine ⟨h, rfl, ?_, fun _ => rfl⟩
    have step : PageStep s.limit s.freePages (.freed (a / pageSize))
        (insert (a / pageSize) s.freePages) := .freed _ _
    rwa [Finset.insert_eq_of_mem hmem] at step
  · rename_i hoff
    have hmem : a / pageSize ∉ s.freePages := fun hm => hoff (Pmm.mem_freePages.mp hm).2
    obtain ⟨hok, hset⟩ := h.put hlt hmem hne
    refine ⟨hok, rfl, ?_, fun hm => absurd hm hmem⟩
    rw [hset]
    exact .freed _ _

/-- The allocator together with what its callers know: every address returned so far, and
those among them that have not been freed since. -/
structure PmmSys where
  pmm : Pmm
  returned : List Nat
  held : List Nat

inductive PmmCall where
  | alloc
  | free (addr : Nat)
  deriving DecidableEq, Repr

/-- One call. Only addresses that `pmm_alloc_page` returned are freed, any number of times. -/
inductive PmmStep : PmmSys → PmmCall → PmmSys → Prop
  | alloc (s : PmmSys) : (pmmAllocPage s.pmm).1 ≠ 0 →
      PmmStep s .alloc ⟨(pmmAllocPage s.pmm).2, (pmmAllocPage s.pmm).1 :: s.returned,
        (pmmAllocPage s.pmm).1 :: s.held⟩
  | allocNull (s : PmmSys) : (pmmAllocPage s.pmm).1 = 0 →
      PmmStep s .alloc ⟨(pmmAllocPage s.pmm).2, s.returned, s.held⟩
  | free (s : PmmSys) (a : Nat) : a ∈ s.returned →
      PmmStep s (.free a) ⟨pmmFreePage s.pmm a, s.returned, s.held.filter (· ≠ a)⟩

/-- What holds in every history: the bitmap is well-formed, returned addresses are pages of the
map, and a page that is still held is not free. -/
structure PmmSys.Inv (total : Nat) (s : PmmSys) : Prop where
  ok : s.pmm.Ok
  size : s.pmm.totalPages = total
  pages : ∀ a ∈ s.returned, ∃ p, a = p * pageSize ∧ 0 < p ∧ p < total
  sub : ∀ a ∈ s.held, a ∈ s.returned
  used : ∀ a ∈ s.held, a / pageSize ∉ s.pmm.freePages

lemma PmmSys.Inv.step {s t : PmmSys} {c : PmmCall} (h : s.Inv total) (hstep : PmmStep s c t) :
    t.Inv total := by
  have hdiv : ∀ p : Nat, p * pageSize / pageSize = p := fun p =>
    Nat.mul_div_cancel p (by decide)
  cases hstep with
  | allocNull hnull =>
    rcases pmmAllocPage_step h.ok with ⟨heq, -⟩ | ⟨p, u, heq, hpos, -, -, -⟩
    · rw [heq]; exact ⟨h.ok, h.size, h.pages, h.sub, h.used⟩
    · rw [heq] at hnull
      simp only [pageSize] at hnull
      omega
  | alloc hsome =>
    rcases pmmAllocPage_step h.ok with ⟨heq, -⟩ | ⟨p, u, heq, hpos, hok, htot, hset⟩
    · rw [heq] at hsome; exact absurd rfl hsome
    · rw [heq]
      generalize hfree : u.freePages = after at hset
      cases hset with
      | allocated mem below lowest =>
        have hp : p < total := by
          have := (Pmm.mem_freePages.mp mem).1
          rwa [h.size] at this
        refine ⟨hok, htot.trans h.size, ?_, ?_, ?_⟩
        · intro a ha
          rcases mem_cons.mp ha with rfl | ha
          · exact ⟨p, rfl, hpos, hp⟩
          · exact h.pages a ha
        · intro a ha
          rcases mem_cons.mp ha with rfl | ha
          · exact mem_cons_self
          · exact mem_cons_of_mem _ (h.sub a ha)
        · intro a ha
          simp only [hfree, Finset.mem_erase, not_and]
          rcases mem_cons.mp ha with rfl | ha
          · intro hne; exact absurd (hdiv p) hne
          · intro _; exact h.used a ha
  | free a ha =>
    obtain ⟨p, rfl, hpos, hlt⟩ := h.pages a ha
    obtain ⟨hok, htot, hset, -⟩ := pmmFreePage_step h.ok (a := p * pageSize)
      (by rw [hdiv]; omega) (by rw [hdiv, h.size]; exact hlt)
    generalize hfree : (pmmFreePage s.pmm (p * pageSize)).freePages = after at hset
    rw [hdiv] at hset
    cases hset
    refine ⟨hok, htot.trans h.size, h.pages, ?_, ?_⟩
    · intro a ha
      exact h.sub a (mem_filter.mp ha).1
    · intro a ha
      obtain ⟨hmem, hne⟩ := mem_filter.mp ha
      obtain ⟨q, rfl, -, -⟩ := h.pages a (h.sub a hmem)
      have hqp : q ≠ p := by rintro rfl; simp at hne
      simp only [hfree, hdiv, Finset.mem_insert, not_or]
      exact ⟨hqp, by simpa [hdiv] using h.used _ hmem⟩

/-- What a call shows: the page that was handed out, that there was none, or the page that
was freed. -/
def PmmCall.event (s : Pmm) : PmmCall → PageEvent
  | .alloc =>
      if (pmmAllocPage s).1 = 0 then .exhausted else .allocated ((pmmAllocPage s).1 / pageSize)
  | .free a => .freed (a / pageSize)

lemma PmmSys.Inv.refines {s t : PmmSys} {c : PmmCall} (h : s.Inv total) (hstep : PmmStep s c t) :
    PageStep s.pmm.limit s.pmm.freePages (c.event s.pmm) t.pmm.freePages := by
  cases hstep with
  | allocNull hnull =>
    rcases pmmAllocPage_step h.ok with ⟨heq, hset⟩ | ⟨p, u, heq, hpos, -, -, -⟩
    · simp only [PmmCall.event, heq, if_true]
      exact hset
    · simp only [heq, pageSize] at hnull
      omega
  | alloc hsome =>
    rcases pmmAllocPage_step h.ok with ⟨heq, -⟩ | ⟨p, u, heq, -, -, -, hset⟩
    · exact absurd (by rw [heq]) hsome
    · rw [heq] at hsome
      have hdiv : p * pageSize / pageSize = p := Nat.mul_div_cancel p (by decide)
      simp only [PmmCall.event, heq, if_neg hsome, hdiv]
      exact hset
  | free a ha =>
    obtain ⟨p, rfl, hpos, hlt⟩ := h.pages a ha
    have hdiv : p * pageSize / pageSize = p := Nat.mul_div_cancel p (by decide)
    exact (pmmFreePage_step h.ok (by rw [hdiv]; omega) (by rw [hdiv, h.size]; exact hlt)).2.2.1

def pmmBoot (ram : Nat → BitVec 64) (entries : List MmapEntry) (kernelPhys kernelSize : Nat) :
    PmmSys :=
  ⟨pmmInit ram entries kernelPhys kernelSize, [], []⟩

variable {ram : Nat → BitVec 64} {entries : List MmapEntry} {kernelPhys kernelSize : Nat}

lemma PmmSys.inv_of_reachable {s : PmmSys} (h : BootMap entries kernelPhys kernelSize)
    (found : (pmmInit ram entries kernelPhys kernelSize).bitmap ≠ 0)
    (reach : Reachable (· = pmmBoot ram entries kernelPhys kernelSize) PmmStep s) :
    s.Inv (pmmInit ram entries kernelPhys kernelSize).totalPages := by
  refine reach.invariant (PmmSys.Inv _) ?_ fun _ _ _ ha hab => ha.step hab
  rintro _ rfl
  exact ⟨pmmInit_ok ram h found, rfl, by simp [pmmBoot], by simp [pmmBoot], by simp [pmmBoot]⟩

/-- In every history of allocations and frees the bitmap is a finite set of free pages, and
every call does to that set what an allocator of single pages should do. -/
theorem pmm_refines_free_page_set {s : PmmSys} (h : BootMap entries kernelPhys kernelSize)
    (found : (pmmInit ram entries kernelPhys kernelSize).bitmap ≠ 0)
    (reach : Reachable (· = pmmBoot ram entries kernelPhys kernelSize) PmmStep s) :
    -- the bits that are on are the free pages, and the counter counts them
    bitsIn s.pmm.words 0 (8 * s.pmm.bitmapSize) = s.pmm.freePages ∧
    s.pmm.freeCount = (bitsIn s.pmm.words 0 (8 * s.pmm.bitmapSize)).card ∧
    -- each call takes the abstract step
    (∀ c t, PmmStep s c t →
      PageStep s.pmm.limit s.pmm.freePages (c.event s.pmm) t.pmm.freePages) ∧
    -- allocation returns the start of a page, or NULL with nothing changed
    (pmmAllocPage s.pmm).1 % pageSize = 0 ∧
    ((pmmAllocPage s.pmm).1 = 0 ↔ ∀ p ∈ s.pmm.freePages, s.pmm.limit ≤ p) ∧
    ((pmmAllocPage s.pmm).1 = 0 → (pmmAllocPage s.pmm).2 = s.pmm) ∧
    -- freeing a free page changes nothing
    (∀ a ∈ s.returned, a / pageSize ∈ s.pmm.freePages → pmmFreePage s.pmm a = s.pmm) ∧
    -- a page that was handed out and not freed since is not handed out again
    (∀ a ∈ s.held, (pmmAllocPage s.pmm).1 / pageSize ≠ a / pageSize) := by
  have inv := PmmSys.inv_of_reachable h found reach
  have hdiv : ∀ p : Nat, p * pageSize / pageSize = p := fun p => Nat.mul_div_cancel p (by decide)
  refine ⟨inv.ok.all_bits, ?_, fun c t hstep => inv.refines hstep, ?_⟩
  · rw [inv.ok.all_bits]
    exact inv.ok.count
  have hfree : ∀ a ∈ s.returned, a / pageSize ∈ s.pmm.freePages → pmmFreePage s.pmm a = s.pmm := by
    intro a ha
    obtain ⟨p, rfl, hpos, hlt⟩ := inv.pages a ha
    exact (pmmFreePage_step inv.ok (by rw [hdiv]; omega) (by rw [hdiv, inv.size]; exact hlt)).2.2.2
  rcases pmmAllocPage_step inv.ok with ⟨heq, hset⟩ | ⟨p, u, heq, hpos, -, -, hset⟩
  · rw [heq]
    refine ⟨rfl, ?_, fun _ => rfl, hfree, ?_⟩
    · cases hset with
      | exhausted none => exact ⟨fun _ => none, fun _ => rfl⟩
    · intro a ha
      obtain ⟨q, rfl, hq, -⟩ := inv.pages a (inv.sub a ha)
      rw [hdiv]
      simp only [Nat.zero_div]
      omega
  · rw [heq]
    have hne : p * pageSize ≠ 0 := by simp only [pageSize]; omega
    generalize u.freePages = after at hset
    cases hset with
    | allocated mem below lowest =>
      refine ⟨Nat.mul_mod_left _ _, ?_, fun hnull => absurd hnull hne, hfree, ?_⟩
      · exact ⟨fun hnull => absurd hnull hne, fun none => absurd (none p mem) (by omega)⟩
      · intro a ha heq
        rw [hdiv] at heq
        exact inv.used a ha (heq ▸ mem)

lemma pmmInit_bitmap : (pmmInit ram entries kernelPhys kernelSize).bitmap =
    findBitmap entries kernelPhys kernelSize ((highestPageOf entries + 63) / 64 * 8) := by
  simp only [pmmInit]
  split <;> rfl

def oneMegabyte : List MmapEntry := [⟨0x100000, 0x100000, .usable⟩]

def oneMegabyteBoot : PmmSys := pmmBoot (fun _ => 0#64) oneMegabyte 0x100000 0x1000

lemma oneMegabyte_bootMap : BootMap oneMegabyte 0x100000 0x1000 := by
  refine ⟨by decide, by decide, by decide, fun p hlo hhi => ?_⟩
  refine ⟨_, mem_singleton_self _, ?_, ?_⟩ <;> simp only [pageSize] at * <;> omega

lemma oneMegabyte_found : (pmmInit (fun _ => 0#64) oneMegabyte 0x100000 0x1000).bitmap ≠ 0 := by
  rw [pmmInit_bitmap]
  decide

theorem pmm_refines_free_page_set_one_megabyte :
    BootMap oneMegabyte 0x100000 0x1000 ∧ oneMegabyteBoot.pmm.bitmap ≠ 0 ∧
      oneMegabyteBoot.pmm.freeCount =
        (bitsIn oneMegabyteBoot.pmm.words 0 (8 * oneMegabyteBoot.pmm.bitmapSize)).card ∧
      ((pmmAllocPage oneMegabyteBoot.pmm).1 = 0 ↔
        ∀ p ∈ oneMegabyteBoot.pmm.freePages, oneMegabyteBoot.pmm.limit ≤ p) := by
  have hboot : oneMegabyteBoot = pmmBoot (fun _ => 0#64) oneMegabyte 0x100000 0x1000 := rfl
  have result := pmm_refines_free_page_set oneMegabyte_bootMap oneMegabyte_found (.start hboot)
  exact ⟨oneMegabyte_bootMap, oneMegabyte_found, result.2.1, result.2.2.2.2.1⟩

end MicroOs.Mm
