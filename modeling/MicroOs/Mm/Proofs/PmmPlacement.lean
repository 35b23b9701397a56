import MicroOs.Mm.Proofs.PmmRefine
import MicroOs.Mm.Proofs.VmmIdentity

/-!
# Where the bitmap is

The identity map of `vmm_init` ends at 4 GiB. `pmm_alloc_page` hands out pages below that limit
only, but `pmm_init` puts its bitmap into the first usable entry that has room for it. The entries
are arbitrary: in any order, overlapping, or wrapping around.
-/

namespace MicroOs.Mm
open Lib List

section

variable {kernelPhys kernelSize : Nat}

lemma findBitmap_of_first {before after : List MmapEntry} {e : MmapEntry} {size : Nat}
    (fits : ∀ d ∈ before ++ e :: after, d.Fits)
    (none : ∀ d ∈ before, ¬HasRoom kernelPhys kernelSize d size)
    (room : HasRoom kernelPhys kernelSize e size) :
    findBitmap (before ++ e :: after) kernelPhys kernelSize size =
      roomStart kernelPhys kernelSize e % two64 := by
  have skipped : before.findSome? (bitmapPlace kernelPhys kernelSize size) = .none := by
    rw [findSome?_eq_none_iff]
    intro d member
    cases place : bitmapPlace kernelPhys kernelSize size d with
    | none => rfl
    | some a =>
      have found := (bitmapPlace_eq_some_iff (fits d (mem_append_left _ member))).mp place
      exact absurd found.1 (none d member)
  have placed := (bitmapPlace_eq_some_iff (fits e (by simp))).mpr ⟨room, rfl⟩
  rw [findBitmap, findSome?_append, skipped, findSome?_cons, placed]
  rfl

end

def Pmm.call (s : Pmm) : PmmCall → Pmm
  | .alloc => (pmmAllocPage s).2
  | .free a => pmmFreePage s a

/-- The bytes that are touched: the words that `pmm_alloc_page` looks at, the word of a page that is
freed, and the page that an allocation returns. -/
inductive Pmm.Touches (s : Pmm) : Nat → Prop
  | scan {i k : Nat} (looked : i < (min s.totalPages pmmMaxPage + 63) / 64) (byte : k < 8) :
      Touches s (s.bitmap + 8 * i + k)
  | free {addr k : Nat} (page : addr / pageSize < s.totalPages) (byte : k < 8) :
      Touches s (s.bitmap + 8 * (addr / pageSize / 64) + k)
  | page {k : Nat} (got : (pmmAllocPage s).1 ≠ 0) (byte : k < pageSize) :
      Touches s ((pmmAllocPage s).1 + k)

/-- The bitmap and all pages that can be allocated are below 4 GiB, and whatever is touched later is
mapped to itself by the kernel's page tables. -/
structure Pmm.InIdentityMap (s : Pmm) : Prop where
  bitmap : s.bitmap + s.bitmapSize ≤ 2 ^ 32
  pages : ∀ calls : List PmmCall, (pmmAllocPage (calls.foldl Pmm.call s)).1 ≠ 0 →
    (pmmAllocPage (calls.foldl Pmm.call s)).1 + pageSize ≤ 2 ^ 32
  mapped : ∀ (m : StaticTables) (memory : Addr → Index → Pte) (trace : List (StepOf Vmm VmmEvent))
    (v : Vmm), Run VmmStep (vmmInit m memory) trace v → (∀ st ∈ trace, InBounds st.event) →
    ∀ (calls : List PmmCall) (a : Nat), (calls.foldl Pmm.call s).Touches a →
      ∃ t, v.translate v.pml4 (BitVec.ofNat 64 a) = some t ∧ t.phys = BitVec.ofNat 64 a ∧
        t.writable = true

lemma pmmAllocPage_below (s : Pmm) (got : (pmmAllocPage s).1 ≠ 0) :
    (pmmAllocPage s).1 + pageSize ≤ 2 ^ 32 := by
  rcases pmmAllocPage_cases s with ⟨null, -⟩ | ⟨p, inside, -, -, taken⟩
  · rw [null] at got
    exact absurd rfl got
  · have limit : s.limit ≤ pmmMaxPage := Nat.min_le_right _ _
    rw [taken]
    simp only [pmmMaxPage, pageSize] at limit ⊢
    omega

lemma call_same (s : Pmm) (c : PmmCall) :
    (s.call c).bitmap = s.bitmap ∧ (s.call c).bitmapSize = s.bitmapSize ∧
      (s.call c).totalPages = s.totalPages := by
  cases c with
  | alloc =>
    rcases pmmAllocPage_cases s with ⟨null, -⟩ | ⟨p, -, -, -, taken⟩
    · rw [Pmm.call, null]
      exact ⟨rfl, rfl, rfl⟩
    · rw [Pmm.call, taken]
      exact ⟨rfl, rfl, rfl⟩
  | free a =>
    simp only [Pmm.call, pmmFreePage]
    split
    · exact ⟨rfl, rfl, rfl⟩
    · split <;> exact ⟨rfl, rfl, rfl⟩

lemma calls_same (s : Pmm) (calls : List PmmCall) :
    (calls.foldl Pmm.call s).bitmap = s.bitmap ∧
      (calls.foldl Pmm.call s).totalPages = s.totalPages := by
  induction calls generalizing s with
  | nil => exact ⟨rfl, rfl⟩
  | cons c calls ih =>
    obtain ⟨bitmap, -, total⟩ := call_same s c
    rw [foldl_cons, (ih _).1, (ih _).2]
    exact ⟨bitmap, total⟩

lemma touches_below {s : Pmm} {a : Nat} (touched : s.Touches a)
    (below : s.bitmap + (s.totalPages + 63) / 64 * 8 ≤ 2 ^ 32) : a < 2 ^ 32 := by
  cases touched with
  | scan _ _ | free _ _ => omega
  | page got byte =>
    have := pmmAllocPage_below s got
    omega

section

variable {entries : List MmapEntry} {kernelPhys kernelSize : Nat}

lemma inIdentityMap_of_bitmap (ram : Nat → BitVec 64)
    (below : (pmmInit ram entries kernelPhys kernelSize).bitmap +
      (pmmInit ram entries kernelPhys kernelSize).bitmapSize ≤ 2 ^ 32) :
    (pmmInit ram entries kernelPhys kernelSize).InIdentityMap := by
  refine ⟨below, fun calls => pmmAllocPage_below _, ?_⟩
  intro m memory trace v run bounds calls a touched
  obtain ⟨bitmap, total⟩ := calls_same (pmmInit ram entries kernelPhys kernelSize) calls
  obtain ⟨size, pages, -⟩ := pmmInit_fields ram entries kernelPhys kernelSize
  have low : a < 2 ^ 32 := by
    apply touches_below touched
    rw [bitmap, total, pages, ← size]
    exact below
  have address : (BitVec.ofNat 64 a).toNat < 2 ^ 32 := by
    rw [BitVec.toNat_ofNat]
    omega
  obtain ⟨t, translated, phys, writable, -⟩ := identity_map_is_kept run bounds mem_cons_self address
  exact ⟨t, translated, phys, writable⟩

/-- For every memory map with a place for the bitmap, everything the PMM uses and hands out is in
the identity map exactly if the first entry with room for the bitmap has that room below 4 GiB. -/
theorem pmm_in_identity_map_iff (ram : Nat → BitVec 64) (fits : ∀ e ∈ entries, e.Fits)
    (found : (pmmInit ram entries kernelPhys kernelSize).bitmap ≠ 0) :
    (pmmInit ram entries kernelPhys kernelSize).InIdentityMap ↔
      ∀ before e after, entries = before ++ e :: after →
        (∀ d ∈ before, ¬HasRoom kernelPhys kernelSize d ((highestPageOf entries + 63) / 64 * 8)) →
        HasRoom kernelPhys kernelSize e ((highestPageOf entries + 63) / 64 * 8) →
        roomStart kernelPhys kernelSize e + (highestPageOf entries + 63) / 64 * 8 ≤ 2 ^ 32 := by
  obtain ⟨size, -, bitmap⟩ := pmmInit_fields ram entries kernelPhys kernelSize
  have place : ∀ before e after, entries = before ++ e :: after →
      (∀ d ∈ before, ¬HasRoom kernelPhys kernelSize d ((highestPageOf entries + 63) / 64 * 8)) →
      HasRoom kernelPhys kernelSize e ((highestPageOf entries + 63) / 64 * 8) →
      (pmmInit ram entries kernelPhys kernelSize).bitmap = roomStart kernelPhys kernelSize e := by
    intro before e after split none room
    have member : e ∈ entries := by
      rw [split]
      simp
    have first : findBitmap entries kernelPhys kernelSize ((highestPageOf entries + 63) / 64 * 8) =
        roomStart kernelPhys kernelSize e % two64 := by
      generalize (highestPageOf entries + 63) / 64 * 8 = bytes at none room
      subst split
      exact findBitmap_of_first fits none room
    have start := clearStart_lt kernelPhys kernelSize (fits e member)
    rw [bitmap, first] at found ⊢
    unfold roomStart at found ⊢
    simp only [two64, pageSize] at start found ⊢
    omega
  constructor
  · intro inside before e after split none room
    have below := inside.bitmap
    rwa [place before e after split none room, size] at below
  · intro first
    apply inIdentityMap_of_bitmap ram
    rw [bitmap] at found
    unfold findBitmap at found
    cases search : entries.findSome?
        (bitmapPlace kernelPhys kernelSize ((highestPageOf entries + 63) / 64 * 8)) with
    | none =>
      rw [search] at found
      exact absurd rfl found
    | some b =>
      obtain ⟨before, e, after, split, taken, skipped⟩ := findSome?_eq_some_iff.mp search
      have member : e ∈ entries := by
        rw [split]
        simp
      have room := ((bitmapPlace_eq_some_iff (fits e member)).mp taken).1
      have none : ∀ d ∈ before,
          ¬HasRoom kernelPhys kernelSize d ((highestPageOf entries + 63) / 64 * 8) := by
        intro d earlier room
        have known : d ∈ entries := by
          rw [split]
          exact mem_append_left _ earlier
        have place := (bitmapPlace_eq_some_iff (fits d known)).mpr ⟨room, rfl⟩
        rw [skipped d earlier] at place
        cases place
      rw [place before e after split none room, size]
      exact first before e after split none room

end

/-- 1 MiB for the kernel and 16 MiB of memory above it. -/
def smallMachine : List MmapEntry :=
  [⟨0, 0xA0000, .usable⟩, ⟨0x100000, 0x100000, .kernel⟩, ⟨0x200000, 0x1000000, .usable⟩]

theorem pmm_in_identity_map_iff_small :
    (pmmInit (fun _ => 0#64) smallMachine 0x100000 0x100000).InIdentityMap := by
  have fits : ∀ e ∈ smallMachine, e.Fits := by
    intro e member
    simp only [smallMachine, mem_cons, not_mem_nil, or_false] at member
    rcases member with rfl | rfl | rfl <;> exact ⟨by decide, by decide⟩
  obtain ⟨-, -, bitmap⟩ := pmmInit_fields (fun _ => 0#64) smallMachine 0x100000 0x100000
  have found : (pmmInit (fun _ => 0#64) smallMachine 0x100000 0x100000).bitmap ≠ 0 := by
    rw [bitmap]
    decide
  apply (pmm_in_identity_map_iff (fun _ => 0#64) fits found).mpr
  intro before e after split _ _
  have member : e ∈ smallMachine := by
    rw [split]
    simp
  simp only [smallMachine, mem_cons, not_mem_nil, or_false] at member
  rcases member with rfl | rfl | rfl <;> decide

/-- The only usable memory above the low megabyte starts at 4 GiB, and so does the bitmap. -/
theorem bitmap_at_four_gigabytes :
    (pmmInit (fun _ => 0#64)
        [⟨0, 0xA0000, .usable⟩, ⟨0x100000, 0x100000, .kernel⟩,
          ⟨0x100000000, 0x40000000, .usable⟩] 0x100000 0x100000).bitmap = 0x100000000 ∧
      ¬(pmmInit (fun _ => 0#64)
        [⟨0, 0xA0000, .usable⟩, ⟨0x100000, 0x100000, .kernel⟩,
          ⟨0x100000000, 0x40000000, .usable⟩] 0x100000 0x100000).InIdentityMap := by
  obtain ⟨size, -, bitmap⟩ := pmmInit_fields (fun _ => 0#64)
    [⟨0, 0xA0000, .usable⟩, ⟨0x100000, 0x100000, .kernel⟩, ⟨0x100000000, 0x40000000, .usable⟩]
    0x100000 0x100000
  constructor
  · rw [bitmap]
    decide
  · intro inside
    have below := inside.bitmap
    rw [bitmap, size] at below
    exact absurd below (by decide)

end MicroOs.Mm
