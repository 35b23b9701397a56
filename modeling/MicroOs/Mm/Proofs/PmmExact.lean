import MicroOs.Mm.PmmAccess
import MicroOs.Mm.Proofs.PmmRefine

/-!
# What `pmm_init` leaves

Pass 3 marks the pages of each usable entry, and then three ranges are taken back. A page is free
afterwards exactly if one usable entry has all of it and none of the three ranges meets it, in
whichever order the entries come and however they overlap.
-/

namespace MicroOs.Mm
open Lib List

variable {i start stop : Nat}
variable {entries : List MmapEntry} {kernelPhys kernelSize bitmap size p total : Nat}
  {acc : Words × Nat} {e : MmapEntry}

/-- The page `p` and the bytes `start, ..., start + size - 1` have a byte in common. -/
def Meets (p start size : Nat) : Prop := p * pageSize < start + size ∧ start < (p + 1) * pageSize

structure MmapEntry.Supplies (e : MmapEntry) (p : Nat) : Prop where
  usable : e.type = .usable
  first : e.base ≤ p * pageSize
  last : (p + 1) * pageSize ≤ e.base + e.length

structure FreeAtBoot (entries : List MmapEntry) (kernelPhys kernelSize bitmap bitmapSize p : Nat) :
    Prop where
  supplied : ∃ e ∈ entries, e.Supplies p
  low : lowMemory ≤ p * pageSize
  kernel : ¬ Meets p kernelPhys kernelSize
  bitmapApart : ¬ Meets p bitmap bitmapSize

lemma meets_iff (start : Nat) :
    Meets p start size ↔
      start / pageSize ≤ p ∧ p < (start + size + (pageSize - 1)) / pageSize := by
  unfold Meets pageSize
  omega

lemma bitAt_markUsable (al : e.base % pageSize = 0 ∧ e.length % pageSize = 0)
    (nowrap : e.base + e.length ≤ two64 - pageSize) (top : e.base + e.length ≤ total * pageSize) :
    bitAt (markUsable total acc e).1 p = true ↔ bitAt acc.1 p = true ∨ e.Supplies p := by
  unfold markUsable
  by_cases usable : e.type = .usable
  · have start : pageUp e.base / pageSize = e.base / pageSize := by
      unfold pageUp
      rw [add64_of_lt (by simp only [two64, pageSize] at *; omega)]
      simp only [pageSize] at *
      omega
    have stop : pageDown (add64 e.base e.length) / pageSize = (e.base + e.length) / pageSize := by
      unfold pageDown
      rw [add64_of_lt (by simp only [two64, pageSize] at *; omega)]
      simp only [pageSize]
      omega
    have inside : ¬ (e.base + e.length) / pageSize > total := by
      simp only [pageSize] at *
      omega
    have range : e.Supplies p ↔ e.base / pageSize ≤ p ∧ p < (e.base + e.length) / pageSize := by
      refine ⟨fun supplies => ?_, fun inside => ⟨usable, ?_, ?_⟩⟩
      · have first := supplies.first
        have last := supplies.last
        simp only [pageSize] at *
        omega
      · simp only [pageSize] at *
        omega
      · simp only [pageSize] at *
        omega
    simp only [usable, ne_eq, not_true_eq_false, if_false, start, stop, if_neg inside,
      bitmapSetRange, bitAt_bitmapRange, range]
    split
    · simp [*]
    · simp [*]
  · have none : ¬ e.Supplies p := fun supplies => usable supplies.usable
    simp [usable, none]

lemma bitAt_markAll (al : ∀ e ∈ entries, e.base % pageSize = 0 ∧ e.length % pageSize = 0)
    (nowrap : ∀ e ∈ entries, e.base + e.length ≤ two64 - pageSize)
    (top : ∀ e ∈ entries, e.base + e.length ≤ total * pageSize) :
    bitAt (entries.foldl (markUsable total) acc).1 p = true ↔
      bitAt acc.1 p = true ∨ ∃ e ∈ entries, e.Supplies p := by
  induction entries generalizing acc with
  | nil => simp
  | cons e entries ih =>
    rw [forall_mem_cons] at al nowrap top
    rw [foldl_cons, ih al.2 nowrap.2 top.2, bitAt_markUsable al.1 nowrap.1 top.1,
      exists_mem_cons_iff, or_assoc]

lemma bitAt_reserve (start stop : Nat) :
    bitAt (reserve acc start stop).1 p = true ↔
      bitAt acc.1 p = true ∧ ¬ (start ≤ p ∧ p < stop) := by
  unfold reserve bitmapClearRange
  rw [bitAt_bitmapRange]
  split
  · simp [*]
  · simp [*]

lemma bitAt_fillBitmap (h : BootMap entries kernelPhys kernelSize) (he : e ∈ entries)
    (hplace : bitmapPlace kernelPhys kernelSize ((highestPageOf entries + 63) / 64 * 8) e =
      some bitmap) (memory : Words) (inside : p < highestPageOf entries) :
    bitAt (fillBitmap entries kernelPhys kernelSize (highestPageOf entries) bitmap
        ((highestPageOf entries + 63) / 64 * 8) memory).1 p = true ↔
      FreeAtBoot entries kernelPhys kernelSize bitmap
        ((highestPageOf entries + 63) / 64 * 8) p := by
  have stops := h.reservedStops he hplace
  simp only [fillBitmap, stops.kernel_eq, stops.bitmap_eq]
  rw [bitAt_reserve, bitAt_reserve, bitAt_reserve,
    bitAt_markAll h.aligned h.nowrap fun e he => h.end_le_highest he, ← meets_iff, ← meets_iff]
  have zeroed : bitAt (fun i => if i < (highestPageOf entries + 63) / 64 * 8 / 8 then 0#64
      else memory i) p = false := by
    simp only [bitAt]
    rw [if_pos (by omega)]
    exact BitVec.getLsbD_zero
  have low : ¬ (0 ≤ p ∧ p < lowMemory / pageSize) ↔ lowMemory ≤ p * pageSize := by
    simp only [lowMemory, pageSize]
    omega
  rw [zeroed, low]
  constructor
  · rintro ⟨⟨⟨supplied, low⟩, kernel⟩, apart⟩
    exact ⟨supplied.resolve_left Bool.false_ne_true, low, kernel, apart⟩
  · rintro ⟨supplied, low, kernel, apart⟩
    exact ⟨⟨⟨.inr supplied, low⟩, kernel⟩, apart⟩

lemma FreeAtBoot.lt_highest (isFree : FreeAtBoot entries kernelPhys kernelSize bitmap size p)
    (h : BootMap entries kernelPhys kernelSize) : p < highestPageOf entries := by
  obtain ⟨e, he, supplies⟩ := isFree.supplied
  have top := h.end_le_highest he
  have last := supplies.last
  simp only [pageSize] at top last
  omega

lemma bitmapRange_word_of_le (on : Bool) (w : Words) (start : Nat) (behind : stop ≤ 64 * i) :
    (bitmapRange on w start stop).1 i = w i := by
  apply word_eq_of_bits
  intro p here
  rw [bitAt_bitmapRange, if_neg (by omega)]

lemma markUsable_word (behind : total ≤ 64 * i) : (markUsable total acc e).1 i = acc.1 i := by
  unfold markUsable
  split
  · rfl
  · apply bitmapRange_word_of_le
    split <;> omega

lemma markAll_word (behind : total ≤ 64 * i) :
    (entries.foldl (markUsable total) acc).1 i = acc.1 i := by
  induction entries generalizing acc with
  | nil => rfl
  | cons e entries ih => rw [foldl_cons, ih, markUsable_word behind]

lemma fillBitmap_word (stops : ReservedStops entries kernelPhys kernelSize bitmap
      ((highestPageOf entries + 63) / 64 * 8)) (memory : Words)
    (behind : (highestPageOf entries + 63) / 64 * 8 ≤ 8 * i) :
    (fillBitmap entries kernelPhys kernelSize (highestPageOf entries) bitmap
      ((highestPageOf entries + 63) / 64 * 8) memory).1 i = memory i := by
  obtain ⟨low, kernelEq, kernel, bitmapEq, bitmap⟩ := stops
  simp only [fillBitmap, kernelEq, bitmapEq, reserve, bitmapClearRange]
  rw [bitmapRange_word_of_le _ _ _ (by omega), bitmapRange_word_of_le _ _ _ (by omega),
    bitmapRange_word_of_le _ _ _ (by omega), markAll_word (by omega)]
  exact if_neg (by omega)

lemma bitmapBitsAccess_lt {unaligned : Bool} (mem : i ∈ bitmapBitsAccess unaligned stop start) :
    64 * i < stop := by
  fun_induction bitmapBitsAccess unaligned stop start with
  | case1 start run ih =>
    rcases mem_cons.mp mem with rfl | mem
    · omega
    · exact ih mem
  | case2 => cases mem

lemma bitmapWordsAccess_lt (mem : i ∈ bitmapWordsAccess stop start) : 64 * i < stop := by
  fun_induction bitmapWordsAccess stop start with
  | case1 start run ih =>
    rcases mem_cons.mp mem with rfl | mem
    · omega
    · exact ih mem
  | case2 => cases mem

lemma bitmapRangeAccess_lt {on : Bool} {w : Words} (mem : i ∈ bitmapRangeAccess on w start stop) :
    64 * i < stop := by
  unfold bitmapRangeAccess at mem
  rcases mem_append.mp mem with mem | mem
  · rcases mem_append.mp mem with mem | mem
    · exact bitmapBitsAccess_lt mem
    · exact bitmapWordsAccess_lt mem
  · exact bitmapBitsAccess_lt mem

lemma markAllAccess_lt (mem : i ∈ markAllAccess total entries acc) : 64 * i < total := by
  induction entries generalizing acc with
  | nil => cases mem
  | cons e entries ih =>
    rcases mem_append.mp mem with mem | mem
    · unfold markUsableAccess at mem
      split at mem
      · cases mem
      · have lt := bitmapRangeAccess_lt mem
        split at lt <;> omega
    · exact ih mem

lemma fillBitmapAccess_inside (stops : ReservedStops entries kernelPhys kernelSize bitmap
      ((highestPageOf entries + 63) / 64 * 8)) {memory : Words}
    (mem : i ∈ fillBitmapAccess entries kernelPhys kernelSize (highestPageOf entries) bitmap
      ((highestPageOf entries + 63) / 64 * 8) memory) :
    8 * i + 8 ≤ (highestPageOf entries + 63) / 64 * 8 := by
  obtain ⟨low, kernelEq, kernel, bitmapEq, bitmap⟩ := stops
  simp only [fillBitmapAccess, kernelEq, bitmapEq, mem_append] at mem
  obtain (((mem | mem) | mem) | mem) | mem := mem
  · have lt := mem_range.mp mem
    omega
  · have lt := markAllAccess_lt mem
    omega
  all_goals
    have lt := bitmapRangeAccess_lt mem
    omega

/-- What `pmm_init` leaves when it has found a place for the bitmap. -/
structure PmmExact (ram : Nat → BitVec 64) (entries : List MmapEntry)
    (kernelPhys kernelSize : Nat) (s : Pmm) : Prop where
  free : ∀ p, p < 8 * s.bitmapSize ∧ bitmapTest s.words p = true ↔
    FreeAtBoot entries kernelPhys kernelSize s.bitmap s.bitmapSize p
  count : s.freeCount =
    {p | FreeAtBoot entries kernelPhys kernelSize s.bitmap s.bitmapSize p}.ncard
  place : ∃ e ∈ entries, e.type = .usable ∧ e.base ≤ s.bitmap ∧
    s.bitmap + s.bitmapSize ≤ e.base + e.length
  aboveLow : lowMemory ≤ s.bitmap
  clearOfKernel : kernelPhys + kernelSize ≤ s.bitmap ∨ s.bitmap + s.bitmapSize ≤ kernelPhys
  accesses : ∀ i ∈ pmmInitAccess ram entries kernelPhys kernelSize, 8 * i + 8 ≤ s.bitmapSize
  others : ∀ i, s.bitmapSize ≤ 8 * i → s.words i = ram (s.bitmap + 8 * i)

lemma pmmInit_words (ram : Nat → BitVec 64)
    (found : findBitmap entries kernelPhys kernelSize ((highestPageOf entries + 63) / 64 * 8) ≠ 0) :
    (pmmInit ram entries kernelPhys kernelSize).words =
      (fillBitmap entries kernelPhys kernelSize (highestPageOf entries)
        (findBitmap entries kernelPhys kernelSize ((highestPageOf entries + 63) / 64 * 8))
        ((highestPageOf entries + 63) / 64 * 8)
        fun i => ram (findBitmap entries kernelPhys kernelSize
          ((highestPageOf entries + 63) / 64 * 8) + 8 * i)).1 := by
  simp only [pmmInit, if_neg found]

lemma mem_freePages_pmmInit (ram : Nat → BitVec 64) (h : BootMap entries kernelPhys kernelSize)
    (found : findBitmap entries kernelPhys kernelSize ((highestPageOf entries + 63) / 64 * 8) ≠ 0)
    (p : Nat) :
    p ∈ (pmmInit ram entries kernelPhys kernelSize).freePages ↔
      FreeAtBoot entries kernelPhys kernelSize
        (findBitmap entries kernelPhys kernelSize ((highestPageOf entries + 63) / 64 * 8))
        ((highestPageOf entries + 63) / 64 * 8) p := by
  obtain ⟨e, he, hplace⟩ := findBitmap_mem found
  rw [Pmm.mem_freePages, (pmmInit_fields ram entries kernelPhys kernelSize).2.1,
    pmmInit_words ram found]
  constructor
  · rintro ⟨inside, bit⟩
    exact (bitAt_fillBitmap h he hplace _ inside).mp bit
  · intro isFree
    have inside := isFree.lt_highest h
    exact ⟨inside, (bitAt_fillBitmap h he hplace _ inside).mpr isFree⟩

/-- For every map that the bootloader may build, if there is a place for the bitmap then the bitmap
and the counter are exactly right. -/
theorem pmm_init_exact (ram : Nat → BitVec 64) (h : BootMap entries kernelPhys kernelSize)
    (found : (pmmInit ram entries kernelPhys kernelSize).bitmap ≠ 0) :
    PmmExact ram entries kernelPhys kernelSize (pmmInit ram entries kernelPhys kernelSize) := by
  have ok := pmmInit_ok ram h found
  rw [pmmInit_bitmap] at found
  obtain ⟨e, he, hplace⟩ := findBitmap_mem found
  have stops := h.reservedStops he hplace
  obtain ⟨usable, -, low, first, -, last, clear⟩ := bitmapPlace_spec h he hplace
  have free := mem_freePages_pmmInit ram h found
  have size := (pmmInit_fields ram entries kernelPhys kernelSize).1
  constructor
  case free =>
    intro p
    rw [pmmInit_bitmap, size, ← free p, ← ok.all_bits, mem_bitsIn, bitmapTest_eq, size]
    simp only [Nat.zero_le, true_and]
  case count =>
    have same : {p | FreeAtBoot entries kernelPhys kernelSize
        (findBitmap entries kernelPhys kernelSize ((highestPageOf entries + 63) / 64 * 8))
        ((highestPageOf entries + 63) / 64 * 8) p} =
        ((pmmInit ram entries kernelPhys kernelSize).freePages : Set Nat) :=
      Set.ext fun p => (free p).symm
    rw [pmmInit_bitmap, size, same, Set.ncard_coe_finset]
    exact ok.count
  case place =>
    rw [pmmInit_bitmap, size]
    exact ⟨e, he, usable, first, last⟩
  case aboveLow => rwa [pmmInit_bitmap]
  case clearOfKernel => rwa [pmmInit_bitmap, size]
  case accesses =>
    intro i mem
    rw [pmmInitAccess, if_neg found] at mem
    rw [size]
    exact fillBitmapAccess_inside stops mem
  case others =>
    intro i behind
    rw [size] at behind
    rw [pmmInit_words ram found, pmmInit_bitmap]
    exact fillBitmap_word stops _ behind

theorem pmm_init_exact_one_megabyte :
    PmmExact (fun _ => 0#64) oneMegabyte 0x100000 0x1000
      (pmmInit (fun _ => 0#64) oneMegabyte 0x100000 0x1000) :=
  pmm_init_exact (fun _ => 0#64) oneMegabyte_bootMap oneMegabyte_found

/-- The descriptor has the whole page. -/
def EfiMemoryDescriptor.Has (desc : EfiMemoryDescriptor) (p : Nat) : Prop :=
  desc.physicalStart ≤ p * pageSize ∧
    (p + 1) * pageSize ≤ desc.physicalStart + desc.numberOfPages * 4096

/-- What the firmware promises: page-aligned regions that do not reach the end of the address
space, and the kernel in pages of the descriptors that are passed on. -/
structure EfiMap (descs : List EfiMemoryDescriptor) (kernelPhys kernelSize : Nat) : Prop where
  region : ∀ desc ∈ descs, desc.physicalStart % pageSize = 0 ∧
    desc.physicalStart + desc.numberOfPages * 4096 ≤ two64 - pageSize
  nonempty : 0 < kernelSize
  kernel : ∀ p, kernelPhys / pageSize ≤ p → p * pageSize < kernelPhys + kernelSize →
    ∃ desc ∈ descs.take bootMmapMaxEntries, desc.Has p

section
variable {descs : List EfiMemoryDescriptor} (h : EfiMap descs kernelPhys kernelSize)
include h

lemma EfiMap.buildMmap_eq : buildMmap descs = (descs.take bootMmapMaxEntries).map fun desc =>
    ⟨desc.physicalStart, desc.numberOfPages * 4096, translateEfiMemoryType desc.type⟩ := by
  refine map_congr_left fun desc mem => ?_
  have bound := (h.region desc (mem_of_mem_take mem)).2
  rw [Nat.mod_eq_of_lt (by simp only [two64, pageSize] at *; omega)]

lemma EfiMap.bootMap : BootMap (buildMmap descs) kernelPhys kernelSize := by
  rw [h.buildMmap_eq]
  refine ⟨forall_mem_map.mpr fun desc mem => ?_, forall_mem_map.mpr fun desc mem => ?_,
    h.nonempty, fun p low high => ?_⟩
  · exact ⟨(h.region desc (mem_of_mem_take mem)).1, Nat.mul_mod_left _ _⟩
  · exact (h.region desc (mem_of_mem_take mem)).2
  · obtain ⟨desc, mem, has⟩ := h.kernel p low high
    exact ⟨_, mem_map_of_mem mem, has⟩

/-- After the bootloader and `pmm_init` the free pages are those above the low megabyte that one of
the first 256 descriptors has as conventional or boot services memory, but for the pages of the
kernel and of the bitmap. -/
theorem free_after_boot (ram : Nat → BitVec 64)
    (found : (pmmInit ram (buildMmap descs) kernelPhys kernelSize).bitmap ≠ 0) (p : Nat) :
    let s := pmmInit ram (buildMmap descs) kernelPhys kernelSize
    p ∈ s.freePages ↔
      (∃ desc ∈ descs.take bootMmapMaxEntries, desc.type.toNat ∈ [3, 4, 7] ∧ desc.Has p) ∧
      lowMemory ≤ p * pageSize ∧ ¬Meets p kernelPhys kernelSize ∧
      ¬Meets p s.bitmap s.bitmapSize := by
  intro s
  have usable (type : BitVec 32) :
      translateEfiMemoryType type = .usable ↔ type.toNat ∈ [3, 4, 7] := by
    unfold translateEfiMemoryType
    split <;> simp_all
  rw [pmmInit_bitmap] at found
  rw [mem_freePages_pmmInit ram h.bootMap found, pmmInit_bitmap, (pmmInit_fields ..).1]
  constructor
  · rintro ⟨⟨e, mem, supplies⟩, low, kernel, bitmap⟩
    rw [h.buildMmap_eq] at mem
    obtain ⟨desc, listed, rfl⟩ := mem_map.mp mem
    have type := (usable _).mp supplies.usable
    exact ⟨⟨desc, listed, type, supplies.first, supplies.last⟩, low, kernel, bitmap⟩
  · rintro ⟨⟨desc, listed, type, first, last⟩, low, kernel, bitmap⟩
    have mem := h.buildMmap_eq ▸ mem_map_of_mem listed
    exact ⟨⟨_, mem, (usable _).mpr type, first, last⟩, low, kernel, bitmap⟩

end

theorem free_after_boot_one_megabyte :
    0 ∉ (pmmInit (fun _ => 0#64) (buildMmap [⟨7, 0x100000, 256⟩]) 0x100000 0x1000).freePages := by
  intro mem
  have map : EfiMap [⟨7, 0x100000, 256⟩] 0x100000 0x1000 := by
    refine ⟨by decide, by decide, fun p low high => ⟨_, mem_singleton_self _, ?_, ?_⟩⟩ <;>
      simp only [pageSize] at * <;> omega
  have free := (free_after_boot map (fun _ => 0#64) (by rw [pmmInit_bitmap]; decide) 0).mp mem
  exact absurd free.2.1 (by decide)

end MicroOs.Mm
