import MicroOs.Mm.Proofs.PmmBitmap

/-!
# `pmm_init` establishes the invariant of the page bitmap

The memory map is the one the bootloader builds (`boot/main.c:121-137`): page-aligned entries, in any
order and possibly overlapping, that do not reach the end of the address space and that contain the
kernel image.
-/

namespace MicroOs.Mm
open Lib

variable {acc : Words × Nat} {bitmap size total : Nat} {e : MmapEntry}

/-- What the bootloader promises about the arguments of `pmm_init`: `build_mmap` multiplies page
counts, the firmware's bases are page-aligned, and the kernel's pages come from `AllocatePages`. -/
structure BootMap (entries : List MmapEntry) (kernelPhys kernelSize : Nat) : Prop where
  aligned : ∀ e ∈ entries, e.base % pageSize = 0 ∧ e.length % pageSize = 0
  nowrap : ∀ e ∈ entries, e.base + e.length ≤ two64 - pageSize
  nonempty : 0 < kernelSize
  kernel : ∀ p, kernelPhys / pageSize ≤ p → p * pageSize < kernelPhys + kernelSize →
    ∃ e ∈ entries, e.base ≤ p * pageSize ∧ (p + 1) * pageSize ≤ e.base + e.length

/-- The invariant of the bitmap: it has a bit for every page, no bit beyond the last page is
on, and the counter is the number of free pages. -/
structure Pmm.Ok (s : Pmm) : Prop where
  size : s.bitmapSize = (s.totalPages + 63) / 64 * 8
  tail : ∀ p, s.totalPages ≤ p → p < 8 * s.bitmapSize → bitAt s.words p = false
  count : s.freeCount = (bitsIn s.words 0 s.totalPages).card
  page0 : bitAt s.words 0 = false
  bound : s.totalPages < 2 ^ 52

variable {entries : List MmapEntry} {kernelPhys kernelSize : Nat}

lemma raiseHighest_foldl (entries : List MmapEntry) (h0 : Nat) :
    h0 ≤ entries.foldl raiseHighest h0 ∧
      (∀ e ∈ entries, add64 e.base e.length / pageSize ≤ entries.foldl raiseHighest h0) ∧
      ∀ b, h0 ≤ b → (∀ e ∈ entries, add64 e.base e.length / pageSize ≤ b) →
        entries.foldl raiseHighest h0 ≤ b := by
  induction entries generalizing h0 with
  | nil => simp
  | cons e es ih =>
    have step : h0 ≤ raiseHighest h0 e ∧ add64 e.base e.length / pageSize ≤ raiseHighest h0 e ∧
        (raiseHighest h0 e = h0 ∨ raiseHighest h0 e = add64 e.base e.length / pageSize) := by
      simp only [raiseHighest]
      split <;> omega
    obtain ⟨ge, mem, least⟩ := ih (raiseHighest h0 e)
    simp only [List.foldl_cons, List.mem_cons, forall_eq_or_imp]
    refine ⟨by omega, ⟨by omega, mem⟩, ?_⟩
    rintro b hb ⟨he, hes⟩
    exact least b (by omega) hes

namespace BootMap

section
variable (h : BootMap entries kernelPhys kernelSize)
include h

lemma end_lt (he : e ∈ entries) : add64 e.base e.length = e.base + e.length := by
  have := h.nowrap e he
  exact add64_of_lt (by simp only [two64, pageSize] at *; omega)

lemma end_le_highest (he : e ∈ entries) : e.base + e.length ≤ highestPageOf entries * pageSize := by
  have le := (raiseHighest_foldl entries 0).2.1 e he
  rw [h.end_lt he] at le
  have al := h.aligned e he
  unfold highestPageOf
  simp only [pageSize] at *
  omega

lemma highest_lt : highestPageOf entries < 2 ^ 52 := by
  have le : highestPageOf entries ≤ 2 ^ 52 - 1 := by
    apply (raiseHighest_foldl entries 0).2.2 _ (by omega)
    intro e he
    have := h.nowrap e he
    rw [h.end_lt he]
    simp only [two64, pageSize] at *
    omega
  omega

lemma kernel_end :
    kernelPhys + kernelSize ≤ two64 - pageSize ∧
      (kernelPhys + kernelSize + (pageSize - 1)) / pageSize ≤ highestPageOf entries := by
  have pos := h.nonempty
  obtain ⟨e, he, lo, hi⟩ := h.kernel ((kernelPhys + kernelSize - 1) / pageSize)
    (by apply Nat.div_le_div_right; omega) (by simp only [pageSize]; omega)
  have top := h.end_le_highest he
  have nowrap := h.nowrap e he
  simp only [pageSize, two64] at *
  omega

end

end BootMap

section

variable (kernelPhys kernelSize : Nat) (e : MmapEntry)

/-- Where an entry is clear of the low megabyte and of the kernel. -/
def clearStart : Nat :=
  if max e.base lowMemory < (kernelPhys + kernelSize) % two64 ∧
      kernelPhys < (e.base + e.length) % two64 then
    (kernelPhys + kernelSize) % two64
  else max e.base lowMemory

def roomStart : Nat := (clearStart kernelPhys kernelSize e + (pageSize - 1)) / pageSize * pageSize

structure HasRoom (size : Nat) : Prop where
  usable : e.type = .usable
  start : roomStart kernelPhys kernelSize e < e.base + e.length
  room : roomStart kernelPhys kernelSize e + size ≤ e.base + e.length

structure MmapEntry.Fits : Prop where
  base : e.base < two64
  length : e.length < two64

end

section

variable {kernelPhys kernelSize : Nat}

lemma skipBelow_eq {limit : Nat} {r : Region} (below : r.base < limit) (fits : limit < two64) :
    skipBelow limit r =
      if r.base + r.len ≤ limit then none else some ⟨limit, r.base + r.len - limit⟩ := by
  simp only [skipBelow, sub64_of_le (Nat.le_of_lt below) fits]
  by_cases all : r.base + r.len ≤ limit
  · rw [if_pos all, if_pos (by omega)]
  · rw [if_neg all, if_neg (by omega), add64_of_lt (by omega)]
    congr 2
    · omega
    · omega

lemma avoidLow_eq {e : MmapEntry} :
    avoidLow ⟨e.base, e.length⟩ =
      if e.base < lowMemory ∧ e.base + e.length ≤ lowMemory then none
      else some ⟨max e.base lowMemory, e.base + e.length - max e.base lowMemory⟩ := by
  unfold avoidLow
  by_cases low : e.base < lowMemory
  · rw [if_pos low, skipBelow_eq low (by decide), Nat.max_eq_right (Nat.le_of_lt low)]
    simp only [low, true_and]
  · rw [if_neg low, if_neg fun both => low both.1, Nat.max_eq_left (Nat.le_of_not_lt low),
      Nat.add_sub_cancel_left]

lemma avoidKernel_eq {e : MmapEntry} {base : Nat} (low : base = max e.base lowMemory)
    (inside : base ≤ e.base + e.length) :
    avoidKernel kernelPhys kernelSize ⟨base, e.base + e.length - base⟩ =
      if base < clearStart kernelPhys kernelSize e ∧
          e.base + e.length ≤ clearStart kernelPhys kernelSize e then none
      else some ⟨clearStart kernelPhys kernelSize e,
        e.base + e.length - clearStart kernelPhys kernelSize e⟩ := by
  have whole : base + (e.base + e.length - base) = e.base + e.length := by omega
  have kend : (kernelPhys + kernelSize) % two64 < two64 := Nat.mod_lt _ (by decide)
  unfold avoidKernel clearStart add64
  rw [← low]
  simp only [whole]
  by_cases meets : base < (kernelPhys + kernelSize) % two64 ∧
      kernelPhys < (e.base + e.length) % two64
  · rw [if_pos meets, if_pos meets, skipBelow_eq meets.1 kend]
    simp only [whole, meets.1, true_and]
  · rw [if_neg meets, if_neg meets, if_neg fun both => absurd both.1 (Nat.lt_irrefl _)]

lemma clearStart_lt (kernelPhys kernelSize : Nat) {e : MmapEntry} (fits : e.Fits) :
    clearStart kernelPhys kernelSize e < two64 := by
  unfold clearStart
  have kend : (kernelPhys + kernelSize) % two64 < two64 := Nat.mod_lt _ (by decide)
  have low : lowMemory < two64 := by decide
  have base := fits.base
  split <;> omega

lemma alignRegion_eq {start top a : Nat} (fits : start < two64) (inside : start ≤ top)
    (aligned : a = (start + (pageSize - 1)) / pageSize * pageSize) :
    alignRegion ⟨start, top - start⟩ = if top ≤ a then none else some ⟨a % two64, top - a⟩ := by
  have up : start ≤ a ∧ a ≤ two64 := by
    simp only [two64, pageSize] at *
    omega
  have wrapped : pageUp start = a % two64 := by
    unfold pageUp add64
    simp only [two64, pageSize] at *
    omega
  have diff : sub64 (pageUp start) start = a - start := by
    rw [wrapped]
    unfold sub64
    simp only [two64, pageSize] at *
    omega
  unfold alignRegion
  simp only [diff]
  rw [wrapped]
  by_cases none : top ≤ a
  · rw [if_pos none, if_pos (by omega)]
  · rw [if_neg none, if_neg (by omega)]
    congr 2
    omega

lemma bitmapPlace_eq_some_iff {e : MmapEntry} (fits : e.Fits) {size a : Nat} :
    bitmapPlace kernelPhys kernelSize size e = some a ↔
      HasRoom kernelPhys kernelSize e size ∧ roomStart kernelPhys kernelSize e % two64 = a := by
  have bound := clearStart_lt kernelPhys kernelSize fits
  have above : max e.base lowMemory ≤ clearStart kernelPhys kernelSize e := by
    unfold clearStart
    split <;> omega
  have up : clearStart kernelPhys kernelSize e ≤ roomStart kernelPhys kernelSize e := by
    unfold roomStart
    simp only [pageSize]
    omega
  unfold bitmapPlace
  by_cases usable : e.type = .usable
  case neg =>
    rw [if_pos usable]
    exact iff_of_false (by simp) fun room => usable room.1.usable
  rw [if_neg (not_not_intro usable), avoidLow_eq]
  by_cases inside : roomStart kernelPhys kernelSize e < e.base + e.length
  · rw [if_neg (by omega), Option.bind_some, avoidKernel_eq rfl (by omega), if_neg (by omega),
      Option.bind_some, alignRegion_eq bound (by omega) rfl, ← roomStart, if_neg (by omega),
      Option.bind_some]
    by_cases room : roomStart kernelPhys kernelSize e + size ≤ e.base + e.length
    · simp only [if_pos (show e.base + e.length - roomStart kernelPhys kernelSize e ≥ size by omega),
        Option.some.injEq]
      exact ⟨fun same => ⟨⟨usable, inside, room⟩, same⟩, fun both => both.2⟩
    · simp only [if_neg (show ¬e.base + e.length - roomStart kernelPhys kernelSize e ≥ size by omega)]
      exact iff_of_false (by simp) fun both => room both.1.room
  · refine iff_of_false ?_ fun both => inside both.1.start
    intro place
    obtain ⟨r3, aligned, -⟩ := Option.bind_eq_some_iff.mp place
    obtain ⟨r2, avoided, aligned⟩ := Option.bind_eq_some_iff.mp aligned
    obtain ⟨r1, low, avoided⟩ := Option.bind_eq_some_iff.mp avoided
    split at low
    · cases low
    obtain rfl := Option.some.inj low
    rw [avoidKernel_eq rfl (by omega)] at avoided
    split at avoided
    · cases avoided
    obtain rfl := Option.some.inj avoided
    rw [alignRegion_eq bound (by omega) rfl, ← roomStart, if_pos (by omega)] at aligned
    cases aligned

end

/-- Where pass 2 puts the bitmap: page-aligned, inside the usable entry, above the low
megabyte, and clear of the kernel. -/
lemma bitmapPlace_spec (h : BootMap entries kernelPhys kernelSize) (he : e ∈ entries) {b : Nat}
    (hb : bitmapPlace kernelPhys kernelSize size e = some b) :
    e.type = .usable ∧ b % pageSize = 0 ∧ lowMemory ≤ b ∧ e.base ≤ b ∧
      b < e.base + e.length ∧ b + size ≤ e.base + e.length ∧
      (kernelPhys + kernelSize ≤ b ∨ b + size ≤ kernelPhys) := by
  have top := h.nowrap e he
  have hk := h.kernel_end.1
  have fits : e.Fits := by constructor <;> simp only [two64, pageSize] at * <;> omega
  obtain ⟨⟨usable, start, room⟩, rfl⟩ := (bitmapPlace_eq_some_iff fits).mp hb
  have clear : e.base ≤ clearStart kernelPhys kernelSize e ∧
      lowMemory ≤ clearStart kernelPhys kernelSize e ∧
      (kernelPhys + kernelSize ≤ clearStart kernelPhys kernelSize e ∨
        e.base + e.length ≤ kernelPhys) := by
    unfold clearStart
    rw [Nat.mod_eq_of_lt (by simp only [two64, pageSize] at *; omega),
      Nat.mod_eq_of_lt (by simp only [two64, pageSize] at *; omega)]
    split <;> omega
  refine ⟨usable, ?_⟩
  unfold roomStart at *
  simp only [two64, pageSize] at *
  omega

structure Counted (total : Nat) (acc : Words × Nat) : Prop where
  tail : ∀ p, total ≤ p → p < (total + 63) / 64 * 64 → bitAt acc.1 p = false
  count : acc.2 = (bitsIn acc.1 0 total).card

lemma Counted.count_le (h : Counted total acc) : acc.2 ≤ total := by
  have := bitsIn_card_le acc.1 0 total
  rw [h.count]
  omega

lemma counted_markUsable (h : Counted total acc) (hbound : total < 2 ^ 52) (e : MmapEntry) :
    Counted total (markUsable total acc e) := by
  simp only [markUsable]
  split
  · exact h
  · -- the end page is clamped, so the range stays below `total`
    generalize hstop : (if pageDown (add64 e.base e.length) / pageSize > total then total
      else pageDown (add64 e.base e.length) / pageSize) = stop
    have hle : stop ≤ total := by split at hstop <;> omega
    have bits := bitAt_bitmapRange true acc.1 (pageUp e.base / pageSize) stop
    have card := bitsIn_card_on hle bits
    have le := bitsIn_card_le (bitmapSetRange acc.1 (pageUp e.base / pageSize) stop).1 0 total
    have counted : (bitmapSetRange acc.1 (pageUp e.base / pageSize) stop).2 =
      changed true acc.1 (pageUp e.base / pageSize) stop := bitmapRange_count true acc.1 _ _
    constructor
    · intro p hp hlt
      simp only [bitmapSetRange, bits]
      rw [if_neg (by omega)]
      exact h.tail p hp hlt
    · simp only [counted, h.count]
      rw [add64_of_lt]
      · exact card.symm
      · rw [← card]
        simp only [bitmapSetRange, two64] at *
        omega

lemma counted_reserve {stop : Nat} (h : Counted total acc) (hbound : total < 2 ^ 52) (start : Nat)
    (hstop : stop ≤ total) :
    Counted total (reserve acc start stop) ∧
      ∀ p, bitAt (reserve acc start stop).1 p = if start ≤ p ∧ p < stop then false
        else bitAt acc.1 p := by
  have bits := bitAt_bitmapRange false acc.1 start stop
  have card := bitsIn_card_off hstop bits
  have counted := bitmapRange_count false acc.1 start stop
  refine ⟨⟨?_, ?_⟩, bits⟩
  · intro p hp hlt
    simp only [reserve, bitmapClearRange, bits]
    rw [if_neg (by omega)]
    exact h.tail p hp hlt
  · have le := h.count_le
    simp only [reserve, bitmapClearRange, counted, h.count] at *
    rw [sub64_of_le (by omega) (by simp only [two64]; omega)]
    omega

lemma counted_zeroed (total : Nat) (memory : Words) :
    Counted total (fun i => if i < (total + 63) / 64 * 8 / 8 then 0#64 else memory i, 0) := by
  have off : ∀ p, p < (total + 63) / 64 * 64 →
      bitAt (fun i => if i < (total + 63) / 64 * 8 / 8 then 0#64 else memory i) p = false := by
    intro p hp
    simp only [bitAt]
    rw [if_pos (by omega)]
    exact BitVec.getLsbD_zero
  constructor
  · intro p _ hlt
    exact off p hlt
  · symm
    rw [Finset.card_eq_zero, Finset.eq_empty_iff_forall_notMem]
    intro p hp
    rw [mem_bitsIn, off p (by omega)] at hp
    exact Bool.false_ne_true hp.2

lemma findBitmap_mem (found : findBitmap entries kernelPhys kernelSize size ≠ 0) :
    ∃ e ∈ entries, bitmapPlace kernelPhys kernelSize size e =
      some (findBitmap entries kernelPhys kernelSize size) := by
  unfold findBitmap at found ⊢
  cases hfind : entries.findSome? (bitmapPlace kernelPhys kernelSize size) with
  | none => simp [hfind] at found
  | some b => exact List.exists_of_findSome?_eq_some hfind

/-- Each of the three reserved ranges ends inside the map, without wrapping around. -/
structure ReservedStops (entries : List MmapEntry) (kernelPhys kernelSize bitmap size : Nat) :
    Prop where
  low : lowMemory / pageSize ≤ highestPageOf entries
  kernel_eq : add64 (add64 kernelPhys kernelSize) (pageSize - 1) / pageSize =
    (kernelPhys + kernelSize + (pageSize - 1)) / pageSize
  kernel_le : (kernelPhys + kernelSize + (pageSize - 1)) / pageSize ≤ highestPageOf entries
  bitmap_eq : add64 (add64 bitmap size) (pageSize - 1) / pageSize =
    (bitmap + size + (pageSize - 1)) / pageSize
  bitmap_le : (bitmap + size + (pageSize - 1)) / pageSize ≤ highestPageOf entries

lemma BootMap.reservedStops (h : BootMap entries kernelPhys kernelSize) (he : e ∈ entries)
    (hplace : bitmapPlace kernelPhys kernelSize size e = some bitmap) :
    ReservedStops entries kernelPhys kernelSize bitmap size := by
  obtain ⟨-, -, low, -, inside, fits, -⟩ := bitmapPlace_spec h he hplace
  have top := h.end_le_highest he
  have nowrap := h.nowrap e he
  obtain ⟨kwrap, ktop⟩ := h.kernel_end
  have aligned := h.aligned e he
  refine ⟨?_, ?_, ktop, ?_, ?_⟩
  · simp only [lowMemory, pageSize] at *
    omega
  · rw [add64_of_lt (by simp only [two64, pageSize] at *; omega : kernelPhys + kernelSize < two64),
      add64_of_lt (by simp only [two64, pageSize] at *; omega)]
  · rw [add64_of_lt (by simp only [two64, pageSize] at *; omega : bitmap + size < two64),
      add64_of_lt (by simp only [two64, pageSize] at *; omega)]
  · simp only [pageSize] at *
    omega

lemma counted_fillBitmap (h : BootMap entries kernelPhys kernelSize)
    (he : e ∈ entries)
    (hplace : bitmapPlace kernelPhys kernelSize ((highestPageOf entries + 63) / 64 * 8) e =
      some bitmap) (memory : Words) :
    Counted (highestPageOf entries) (fillBitmap entries kernelPhys kernelSize
        (highestPageOf entries) bitmap ((highestPageOf entries + 63) / 64 * 8) memory) ∧
      bitAt (fillBitmap entries kernelPhys kernelSize (highestPageOf entries) bitmap
        ((highestPageOf entries + 63) / 64 * 8) memory).1 0 = false := by
  have stops := h.reservedStops he hplace
  have bound := h.highest_lt
  have marked := List.foldlRecOn (motive := Counted (highestPageOf entries)) entries
    (markUsable (highestPageOf entries)) (counted_zeroed (highestPageOf entries) memory)
    (fun acc hacc e _ => counted_markUsable hacc bound e)
  simp only [fillBitmap, stops.kernel_eq, stops.bitmap_eq]
  generalize entries.foldl (markUsable (highestPageOf entries)) _ = acc at marked ⊢
  obtain ⟨counted1, bits1⟩ := counted_reserve marked bound 0 stops.low
  obtain ⟨counted2, bits2⟩ := counted_reserve counted1 bound (kernelPhys / pageSize) stops.kernel_le
  obtain ⟨counted3, bits3⟩ := counted_reserve counted2 bound (bitmap / pageSize) stops.bitmap_le
  refine ⟨counted3, ?_⟩
  rw [bits3, bits2, bits1]
  simp [lowMemory, pageSize]

lemma pmmInit_fields (ram : Nat → BitVec 64) (entries : List MmapEntry)
    (kernelPhys kernelSize : Nat) :
    (pmmInit ram entries kernelPhys kernelSize).bitmapSize =
        (highestPageOf entries + 63) / 64 * 8 ∧
      (pmmInit ram entries kernelPhys kernelSize).totalPages = highestPageOf entries ∧
      (pmmInit ram entries kernelPhys kernelSize).bitmap =
        findBitmap entries kernelPhys kernelSize ((highestPageOf entries + 63) / 64 * 8) := by
  unfold pmmInit
  simp only
  split <;> exact ⟨rfl, rfl, rfl⟩

lemma pmmInit_ok (ram : Nat → BitVec 64) (h : BootMap entries kernelPhys kernelSize)
    (found : (pmmInit ram entries kernelPhys kernelSize).bitmap ≠ 0) :
    (pmmInit ram entries kernelPhys kernelSize).Ok := by
  have hne : findBitmap entries kernelPhys kernelSize ((highestPageOf entries + 63) / 64 * 8) ≠ 0 := by
    intro hzero
    apply found
    simp only [pmmInit, hzero, if_true]
  obtain ⟨e, he, hplace⟩ := findBitmap_mem hne
  obtain ⟨counted, page0⟩ := counted_fillBitmap h he hplace fun i => ram
    (findBitmap entries kernelPhys kernelSize ((highestPageOf entries + 63) / 64 * 8) + 8 * i)
  simp only [pmmInit, if_neg hne]
  exact {
    size := rfl
    tail := fun p hp hlt => counted.tail p hp (by simp only at hlt; omega)
    count := counted.count
    page0 := page0
    bound := h.highest_lt }

end MicroOs.Mm
