import MicroOs.Mm.Proofs.VmmPages
import MicroOs.User.ElfReads
import MicroOs.User.Proofs.ElfContents

/-!
# Reads outside the file

The checks of `elf_load` compare 64-bit sums with the size of the file. A sum that wraps around
passes them, and then the loader reads the program headers, or the bytes of a segment, from outside
its copy of the file.
-/

namespace MicroOs.User
open Mm Sched Lib List
open BitVec (ofNat ofNat_add toNat_add toNat_ofNat lt_def)

variable {f g : ElfFile} {root a : Addr} {flags : Pte} {h : Phdr} {l l' : Loader}
  {content : Addr → Option (Nat → Byte)} {reads : Addr → List ReadRange} {r : ReadRange}
  {count : Nat}

/-- The page number `i` from `a` on. -/
def pageAt (a : Addr) (i : Nat) : Addr := a + ofNat 64 (4096 * i)

lemma pageAt_zero (a : Addr) : pageAt a 0 = a := BitVec.add_zero a

lemma pageAt_succ (a : Addr) (i : Nat) : pageAt (a + 4096#64) i = pageAt a (i + 1) := by
  unfold pageAt
  rw [BitVec.add_assoc, Nat.mul_succ, ofNat_add, BitVec.add_comm 4096#64]

section Pass
variable {page : Addr} {rest : List Addr} {bytes : Nat → Byte}

lemma mapFresh_pass (answer : l.vmm.pages = page :: rest) (here : content a = some bytes) :
    mapFresh root flags content (count + 1) l a =
      mapFresh root flags content count (PageOp.apply ⟨a, flags, bytes⟩ root page rest l)
        (a + 4096#64) := by
  simp only [mapFresh, Vmm.allocPage, answer, here]
  rfl

lemma mapFreshReads_pass (answer : l.vmm.pages = page :: rest) (here : content a = some bytes) :
    mapFreshReads root flags content reads (count + 1) l a =
      reads a ++ mapFreshReads root flags content reads count
        (PageOp.apply ⟨a, flags, bytes⟩ root page rest l) (a + 4096#64) := by
  simp only [mapFreshReads, Vmm.allocPage, answer, here]
  rfl

lemma pages_pass (root : Addr) (answer : l.vmm.pages = page :: rest) (op : PageOp) :
    l.vmm.pages.length ≤ (op.apply root page rest l).vmm.pages.length + 4 := by
  rw [answer]
  exact Nat.succ_le_succ
    (Vmm.takes_mapPageIn { l.vmm with pages := rest } root op.virt page op.flags).length_le

end Pass

lemma mapFresh_ok_of_plenty (root : Addr) (flags : Pte) (plenty : 4 * count ≤ l.vmm.pages.length)
    (filled : ∀ i, i < count → (content (pageAt a i)).isSome) :
    ∃ l', mapFresh root flags content count l a = (.ok, l') ∧
      l.vmm.pages.length ≤ l'.vmm.pages.length + 4 * count ∧
      l'.elfPending = l.elfPending ∧ l'.sched = l.sched := by
  induction count generalizing l a with
  | zero => exact ⟨l, rfl, Nat.le_refl _, rfl, rfl⟩
  | succ count ih =>
    obtain ⟨bytes, here⟩ := Option.isSome_iff_exists.mp (filled 0 (Nat.succ_pos count))
    rw [pageAt_zero] at here
    obtain ⟨page, rest, answer⟩ := exists_cons_of_length_pos (l := l.vmm.pages) (by omega)
    have used := pages_pass root answer ⟨a, flags, bytes⟩
    rw [mapFresh_pass answer here]
    obtain ⟨l', run, left, pending, sched⟩ :=
      ih (l := PageOp.apply ⟨a, flags, bytes⟩ root page rest l) (a := a + 4096#64)
        (by omega) (fun i inside => by
          rw [pageAt_succ]
          exact filled (i + 1) (by omega))
    exact ⟨l', run, by omega, pending, sched⟩

lemma mapFresh_not_fault (filled : ∀ i, i < count → (content (pageAt a i)).isSome) :
    (mapFresh root flags content count l a).1 ≠ .fault := by
  induction count generalizing l a with
  | zero => exact nofun
  | succ count ih =>
    obtain ⟨bytes, here⟩ := Option.isSome_iff_exists.mp (filled 0 (Nat.succ_pos count))
    rw [pageAt_zero] at here
    cases pages : l.vmm.pages with
    | nil => simp [mapFresh, Vmm.allocPage, pages]
    | cons page rest =>
      simp only [mapFresh, Vmm.allocPage, pages, here]
      refine ih fun i inside => ?_
      rw [pageAt_succ]
      exact filled (i + 1) (by omega)

lemma mem_mapFreshReads (mem : r ∈ mapFreshReads root flags content reads count l a) :
    ∃ i, i < count ∧ r ∈ reads (pageAt a i) := by
  induction count generalizing l a with
  | zero => cases mem
  | succ count ih =>
    cases pages : l.vmm.pages with
    | nil => simp [mapFreshReads, Vmm.allocPage, pages] at mem
    | cons page rest =>
      simp only [mapFreshReads, Vmm.allocPage, pages] at mem
      rcases mem_append.mp mem with here | later
      · exact ⟨0, Nat.succ_pos count, by rwa [pageAt_zero]⟩
      · cases filled : content a with
        | none => simp [filled] at later
        | some bytes =>
          rw [filled] at later
          obtain ⟨i, inside, found⟩ := ih later
          exact ⟨i + 1, Nat.succ_lt_succ inside, by rwa [← pageAt_succ]⟩

lemma mem_mapFreshReads_of_plenty {j : Nat} (plenty : 4 * count ≤ l.vmm.pages.length)
    (inside : j < count) (filled : ∀ i, i < j → (content (pageAt a i)).isSome)
    (mem : r ∈ reads (pageAt a j)) : r ∈ mapFreshReads root flags content reads count l a := by
  induction count generalizing l a j with
  | zero => cases inside
  | succ count ih =>
    obtain ⟨page, rest, answer⟩ := exists_cons_of_length_pos (l := l.vmm.pages) (by omega)
    cases j with
    | zero =>
      simp only [mapFreshReads, Vmm.allocPage, answer]
      exact mem_append_left _ (by rwa [pageAt_zero] at mem)
    | succ j =>
      obtain ⟨bytes, here⟩ := Option.isSome_iff_exists.mp (filled 0 (Nat.succ_pos j))
      rw [pageAt_zero] at here
      have used := pages_pass root answer ⟨a, flags, bytes⟩
      rw [mapFreshReads_pass answer here]
      refine mem_append_right _ (ih (j := j) ?_ ?_ (fun i before => ?_) ?_)
      · omega
      · omega
      · rw [pageAt_succ]
        exact filled (i + 1) (by omega)
      · rwa [pageAt_succ]

/-- The bytes of the file that the pages of a segment get, from `p_offset` on, up to the end of the
last page. When `p_vaddr + p_filesz` wraps around, the copy into the first page has its end before
its start if that page begins before the end, and no page gets anything otherwise. -/
def Phdr.bytesCopied (h : Phdr) : Nat :=
  if h.pageCount = 0 then 0
  else if h.vaddr.toNat + h.filesz.toNat < 2 ^ 64 then
    min h.filesz.toNat (h.endPage.toNat - h.vaddr.toNat)
  else if 2 ^ 64 < h.vaddr.toNat % 4096 + h.filesz.toNat then h.filesz.toNat
  else 0

/-- What the pages of the segment get is in the file. -/
def Phdr.CopyInside (f : ElfFile) (h : Phdr) : Prop :=
  h.bytesCopied = 0 ∨ h.offset.toNat + h.bytesCopied ≤ f.bytes.length

lemma Phdr.pageAt_toNat (good : h.bad f = false) {i : Nat} (inside : i < h.pageCount) :
    (pageAt h.firstPage i).toNat = h.firstPage.toNat + 4096 * i ∧
      h.firstPage.toNat + 4096 * i + 4096 ≤ h.endPage.toNat ∧ h.endPage.toNat < 2 ^ 48 := by
  have bound := Phdr.end_lt good
  have last := Phdr.endPage_toNat good
  have first := h.firstPage_toNat
  have pages : h.firstPage.toNat + 4096 * h.pageCount = h.endPage.toNat :=
    (Phdr.pages_end good).resolve_left (by omega)
  refine ⟨?_, by omega, by omega⟩
  rw [pageAt, toNat_add, toNat_ofNat, Nat.mod_eq_of_lt (by omega : 4096 * i < 2 ^ 64)]
  exact Nat.mod_eq_of_lt (by omega)

lemma mem_pageReads (fits : h.vaddr.toNat + h.filesz.toNat < 2 ^ 64)
    (room : a.toNat + 4096 < 2 ^ 64) :
    r ∈ pageReads h a ↔
      a.toNat < h.vaddr.toNat + h.filesz.toNat ∧ h.vaddr.toNat < a.toNat + 4096 ∧
      r = ⟨h.offset + ofNat 64 (max a.toNat h.vaddr.toNat - h.vaddr.toNat),
        min (a.toNat + 4096) (h.vaddr.toNat + h.filesz.toNat) - max a.toNat h.vaddr.toNat⟩ := by
  have fileEnd : (h.vaddr + h.filesz).toNat = h.vaddr.toNat + h.filesz.toNat := by
    rw [toNat_add]
    exact Nat.mod_eq_of_lt fits
  have pageEnd := add_page_toNat room
  unfold pageReads
  simp only [lt_def, fileEnd, pageEnd]
  by_cases overlap : a.toNat < h.vaddr.toNat + h.filesz.toNat ∧ h.vaddr.toNat < a.toNat + 4096
  · rw [if_pos overlap, mem_singleton]
    generalize hstart : (if h.vaddr.toNat < a.toNat then a else h.vaddr) = start
    generalize hstop : (if a.toNat + 4096 < h.vaddr.toNat + h.filesz.toNat then
      a + 4096#64 else h.vaddr + h.filesz) = stop
    have start_toNat : start.toNat = max a.toNat h.vaddr.toNat := by
      rw [← hstart]
      split <;> omega
    have stop_toNat : stop.toNat = min (a.toNat + 4096) (h.vaddr.toNat + h.filesz.toNat) := by
      rw [← hstop]
      split <;> omega
    have skipped : start - h.vaddr = ofNat 64 (start.toNat - h.vaddr.toNat) := by
      rw [← sub_toNat (by omega), BitVec.ofNat_toNat, BitVec.setWidth_eq]
    rw [skipped, sub_toNat (by omega), start_toNat, stop_toNat]
    exact ⟨fun same => ⟨overlap.1, overlap.2, same⟩, fun facts => facts.2.2⟩
  · rw [if_neg overlap]
    exact iff_of_false not_mem_nil fun facts => overlap ⟨facts.1, facts.2.1⟩

/-- When the end of the segment's file bytes wraps around, a copy is as long as `p_filesz` and does
not end. -/
lemma pageReads_of_wrap (wraps : 2 ^ 64 ≤ h.vaddr.toNat + h.filesz.toNat)
    (room : a.toNat + 4096 < 2 ^ 64) :
    pageReads h a =
      (if a.toNat + 2 ^ 64 < h.vaddr.toNat + h.filesz.toNat ∧ h.vaddr.toNat < a.toNat + 4096 then
        [⟨h.offset, h.filesz.toNat⟩] else []) ∧
    pageContent f h a =
      (if a.toNat + 2 ^ 64 < h.vaddr.toNat + h.filesz.toNat ∧ h.vaddr.toNat < a.toNat + 4096 then
        none else some fun _ => 0) := by
  have hv := h.vaddr.isLt
  have hf := h.filesz.isLt
  have fileEnd : (h.vaddr + h.filesz).toNat = h.vaddr.toNat + h.filesz.toNat - 2 ^ 64 := by
    rw [toNat_add, Nat.mod_eq_sub_mod wraps]
    exact Nat.mod_eq_of_lt (by omega)
  have pageEnd := add_page_toNat room
  unfold pageReads pageContent
  simp only [lt_def, fileEnd, pageEnd]
  by_cases overlap : a.toNat + 2 ^ 64 < h.vaddr.toNat + h.filesz.toNat ∧
      h.vaddr.toNat < a.toNat + 4096
  · have inPage : a.toNat < h.vaddr.toNat + h.filesz.toNat - 2 ^ 64 ∧
        h.vaddr.toNat < a.toNat + 4096 := by omega
    have start : ¬ h.vaddr.toNat < a.toNat := by omega
    have stop : ¬ a.toNat + 4096 < h.vaddr.toNat + h.filesz.toNat - 2 ^ 64 := by omega
    have back : h.vaddr.toNat + h.filesz.toNat - 2 ^ 64 < h.vaddr.toNat := by omega
    have length : h.vaddr + h.filesz - h.vaddr = h.filesz := by
      rw [BitVec.add_comm, BitVec.add_sub_cancel]
    simp only [if_pos overlap, if_pos inPage, if_neg start, if_neg stop, fileEnd, if_pos back,
      length, BitVec.sub_self, BitVec.add_zero, and_self]
  · rw [if_neg overlap, if_neg overlap, if_neg (by omega), if_neg (by omega)]
    exact ⟨rfl, rfl⟩

lemma add_ofNat_toNat {x : BitVec 64} {k : Nat} (fits : x.toNat + k < 2 ^ 64) :
    (x + ofNat 64 k).toNat = x.toNat + k := by
  rw [toNat_add, toNat_ofNat, Nat.mod_eq_of_lt (by omega : k < 2 ^ 64)]
  exact Nat.mod_eq_of_lt fits

lemma add_ofNat_add_ofNat (x : BitVec 64) (j k : Nat) :
    x + ofNat 64 j + ofNat 64 k = x + ofNat 64 (j + k) := by
  rw [BitVec.add_assoc, ofNat_add]

lemma pageOff_toNat (h : Phdr) (a : Addr) :
    (pageOff h a).toNat = max a.toNat h.vaddr.toNat - a.toNat := by
  simp only [pageOff, lt_def]
  split <;> rw [sub_toNat (by omega)] <;> omega

/-- The copies into the pages of the segment stay in their pages and take every byte that it has in
the file, each of them once and to the place of its virtual address. -/
def Phdr.CopiedOnce (h : Phdr) : Prop :=
  (∀ i < h.pageCount, ∀ r ∈ pageReads h (pageAt h.firstPage i),
    (pageOff h (pageAt h.firstPage i)).toNat + r.len ≤ 4096 ∧
    ∀ j < r.len, ∃ k < h.filesz.toNat, r.off.toNat + j = h.offset.toNat + k ∧
      (pageAt h.firstPage i).toNat + (pageOff h (pageAt h.firstPage i)).toNat + j =
        h.vaddr.toNat + k) ∧
  ∀ k < h.filesz.toNat, ∃! i, i < h.pageCount ∧ ∃ r ∈ pageReads h (pageAt h.firstPage i),
    r.off.toNat ≤ h.offset.toNat + k ∧ h.offset.toNat + k < r.off.toNat + r.len

/-- So it is for every accepted segment whose sums do not wrap around and that has no more bytes in
the file than in memory. -/
theorem segment_copied_once (good : h.bad f = false)
    (offset : h.offset.toNat + h.filesz.toNat < 2 ^ 64)
    (vaddr : h.vaddr.toNat + h.memsz.toNat < 2 ^ 64) (sizes : h.filesz ≤ h.memsz) :
    h.CopiedOnce := by
  have sizes := BitVec.le_def.mp sizes
  have fits : h.vaddr.toNat + h.filesz.toNat < 2 ^ 64 := by omega
  have first := h.firstPage_toNat
  constructor
  · intro i hi r mem
    obtain ⟨page, last, bound⟩ := Phdr.pageAt_toNat good hi
    obtain ⟨below, above, rfl⟩ := (mem_pageReads fits (by omega)).mp mem
    rw [pageOff_toNat, add_ofNat_toNat (by omega)]
    generalize (pageAt h.firstPage i).toNat = a at *
    refine ⟨by dsimp only; omega, fun j hj => ?_⟩
    dsimp only at hj ⊢
    exact ⟨max a h.vaddr.toNat - h.vaddr.toNat + j, by omega, by omega, by omega⟩
  · intro k hk
    have stop : h.endPage.toNat = (h.vaddr.toNat + h.memsz.toNat + 4095) / 4096 * 4096 := by
      rw [Phdr.endPage_toNat good, toNat_add, Nat.mod_eq_of_lt vaddr]
    have inside : (h.vaddr.toNat + k) / 4096 - h.vaddr.toNat / 4096 < h.pageCount := by
      unfold Phdr.pageCount
      omega
    -- the page of the byte's address, and no other, has it between the ends of its copy
    have takes {i : Nat} (hi : i < h.pageCount) :
        (∃ r ∈ pageReads h (pageAt h.firstPage i), r.off.toNat ≤ h.offset.toNat + k ∧
          h.offset.toNat + k < r.off.toNat + r.len) ↔
        i = (h.vaddr.toNat + k) / 4096 - h.vaddr.toNat / 4096 := by
      obtain ⟨page, last, bound⟩ := Phdr.pageAt_toNat good hi
      simp only [mem_pageReads fits (show (pageAt h.firstPage i).toNat + 4096 < 2 ^ 64 by omega)]
      generalize (pageAt h.firstPage i).toNat = a at *
      constructor
      · rintro ⟨r, ⟨below, above, rfl⟩, low, high⟩
        rw [add_ofNat_toNat (by omega)] at low high
        dsimp only at high
        omega
      · intro same
        refine ⟨_, ⟨by omega, by omega, rfl⟩, ?_⟩
        rw [add_ofNat_toNat (by omega)]
        dsimp only
        omega
    refine ⟨_, ⟨inside, (takes inside).mpr rfl⟩, ?_⟩
    rintro i ⟨hi, taken⟩
    exact (takes hi).mp taken

theorem segment_copied_once_first : (⟨ptLoad, 5, 0, 0x8000000000, 16, 16⟩ : Phdr).CopiedOnce :=
  segment_copied_once (f := fileOfOnePage) (by decide +kernel) (by decide) (by decide) (by decide)

/-- A segment whose copies are in the file reads nothing else, and none of its copies goes on
without end. -/
lemma Phdr.CopyInside.page (inside : h.CopyInside f) (good : h.bad f = false) {i : Nat}
    (hi : i < h.pageCount) :
    (∀ r ∈ pageReads h (pageAt h.firstPage i), r.Inside f) ∧
      (pageContent f h (pageAt h.firstPage i)).isSome := by
  obtain ⟨page, last, bound⟩ := Phdr.pageAt_toNat good hi
  have first := h.firstPage_toNat
  have size := f.fits
  have room : (pageAt h.firstPage i).toNat + 4096 < 2 ^ 64 := by omega
  unfold Phdr.CopyInside Phdr.bytesCopied at inside
  rw [if_neg (by omega)] at inside
  rcases Nat.lt_or_ge (h.vaddr.toNat + h.filesz.toNat) (2 ^ 64) with fits | wraps
  · rw [if_pos fits] at inside
    refine ⟨fun r mem k hk => ?_, ?_⟩
    · obtain ⟨-, -, rfl⟩ := (mem_pageReads fits room).mp mem
      simp only at hk
      rw [add_ofNat_add_ofNat, add_ofNat_toNat (by omega)]
      omega
    · obtain ⟨bytes, filled, -⟩ := pageContent_byte f fits room
      rw [filled]
      rfl
  · rw [if_neg (by omega)] at inside
    have outside : h.vaddr.toNat % 4096 + h.filesz.toNat ≤ 2 ^ 64 := by
      by_contra huge
      rw [if_pos (by omega)] at inside
      have := h.vaddr.isLt
      omega
    obtain ⟨reads, content⟩ := pageReads_of_wrap (f := f) wraps room
    rw [reads, content, if_neg (by omega), if_neg (by omega)]
    exact ⟨fun r mem => absurd mem not_mem_nil, rfl⟩

/-- A segment whose copies are not all in the file comes to a page with a copy from outside. -/
lemma Phdr.exists_outside (outside : ¬ h.CopyInside f) (good : h.bad f = false) :
    ∃ i, i < h.pageCount ∧ (∀ j, j < i → (pageContent f h (pageAt h.firstPage j)).isSome) ∧
      ∃ r ∈ pageReads h (pageAt h.firstPage i), ¬ r.Inside f := by
  have first := h.firstPage_toNat
  have size := f.fits
  unfold Phdr.CopyInside at outside
  obtain ⟨some, beyond⟩ := not_or.mp outside
  have pages : h.pageCount ≠ 0 := by
    intro none
    exact some (if_pos none)
  have count : h.firstPage.toNat + 4096 * h.pageCount = h.endPage.toNat :=
    (Phdr.pages_end good).resolve_left pages
  unfold Phdr.bytesCopied at some beyond
  rw [if_neg pages] at some beyond
  rcases Nat.lt_or_ge (h.vaddr.toNat + h.filesz.toNat) (2 ^ 64) with fits | wraps
  · rw [if_pos fits] at some beyond
    -- The byte of the segment whose place is the end of the file, or the first one.
    obtain ⟨j, hj, place⟩ : ∃ j, j < min h.filesz.toNat (h.endPage.toNat - h.vaddr.toNat) ∧
        f.bytes.length ≤ h.offset.toNat + j ∧
        h.offset.toNat + j ≤ max f.bytes.length h.offset.toNat :=
      ⟨f.bytes.length - h.offset.toNat, by omega, by omega, by omega⟩
    have place_lt : h.offset.toNat + j < 2 ^ 64 := by
      have := h.offset.isLt
      omega
    obtain ⟨i, low, high⟩ : ∃ i, h.firstPage.toNat + 4096 * i ≤ h.vaddr.toNat + j ∧
        h.vaddr.toNat + j < h.firstPage.toNat + 4096 * i + 4096 :=
      ⟨(h.vaddr.toNat + j - h.firstPage.toNat) / 4096, by omega, by omega⟩
    have hi : i < h.pageCount := by omega
    obtain ⟨page, -, bound⟩ := Phdr.pageAt_toNat good hi
    refine ⟨i, hi, fun i' before => ?_, _,
      (mem_pageReads fits (by omega)).mpr ⟨by omega, by omega, rfl⟩, fun inside => ?_⟩
    · obtain ⟨page', last', -⟩ := Phdr.pageAt_toNat good (Nat.lt_trans before hi)
      obtain ⟨bytes, filled, -⟩ := pageContent_byte f fits
        (by omega : (pageAt h.firstPage i').toNat + 4096 < 2 ^ 64)
      rw [filled]
      rfl
    · have read := inside (h.vaddr.toNat + j - max (pageAt h.firstPage i).toNat h.vaddr.toNat)
        (by simp only; omega)
      simp only at read
      rw [add_ofNat_add_ofNat, show max (pageAt h.firstPage i).toNat h.vaddr.toNat - h.vaddr.toNat +
        (h.vaddr.toNat + j - max (pageAt h.firstPage i).toNat h.vaddr.toNat) = j by omega,
        add_ofNat_toNat place_lt] at read
      omega
  · rw [if_neg (by omega)] at some beyond
    have huge : 2 ^ 64 < h.vaddr.toNat % 4096 + h.filesz.toNat := by
      by_contra none
      rw [if_neg none] at some
      exact some rfl
    obtain ⟨page, last, bound⟩ := Phdr.pageAt_toNat good (Nat.pos_of_ne_zero pages)
    have room : (pageAt h.firstPage 0).toNat + 4096 < 2 ^ 64 := by omega
    obtain ⟨reads, -⟩ := pageReads_of_wrap (f := f) wraps room
    refine ⟨0, Nat.pos_of_ne_zero pages, nofun, ⟨h.offset, h.filesz.toNat⟩, ?_, fun inside => ?_⟩
    · rw [reads, if_pos (by omega)]
      exact mem_singleton_self _
    · -- Two bytes that are more than the size of any file apart.
      have start := inside 0 (by simp only; omega)
      have far := inside (2 ^ 33) (by simp only; omega)
      simp only [BitVec.add_zero] at start
      rw [add_ofNat_toNat (by simp only; omega)] at far
      simp only at far
      omega

lemma ElfFile.phdrs_eq (f : ElfFile) : f.phdrs = f.phdrOffsets.map f.phdrAt := by
  rw [ElfFile.phdrs, ElfFile.phdrOffsets, map_map]
  rfl

def SameOn (f g : ElfFile) (r : ReadRange) : Prop :=
  ∀ k, k < r.len → g.byte (r.off + ofNat 64 k) = f.byte (r.off + ofNat 64 k)

section Same
variable {off : BitVec 64} {n : Nat}

lemma SameOn.part (same : SameOn f g ⟨off, n⟩) (j : Nat) {m : Nat} (inside : j + m ≤ n) :
    SameOn f g ⟨off + ofNat 64 j, m⟩ := by
  intro k hk
  simp only at hk ⊢
  rw [add_ofNat_add_ofNat]
  exact same (j + k) (by simp only; omega)

lemma SameOn.front (same : SameOn f g ⟨off, n⟩) {m : Nat} (inside : m ≤ n) : SameOn f g ⟨off, m⟩ :=
  fun k hk => same k (Nat.lt_of_lt_of_le hk inside)

lemma SameOn.byte (same : SameOn f g ⟨off, 1⟩) : g.byte off = f.byte off := by
  simpa only [BitVec.add_zero] using same 0 Nat.one_pos

lemma SameOn.read16 (same : SameOn f g ⟨off, 2⟩) : g.read16 off = f.read16 off := by
  exact congrArg₂ (· ++ ·) (same.part 1 (Nat.le_refl 2)).byte (same.front (by decide)).byte

lemma SameOn.read32 (same : SameOn f g ⟨off, 4⟩) : g.read32 off = f.read32 off := by
  exact congrArg₂ (· ++ ·) (same.part 2 (Nat.le_refl 4)).read16 (same.front (by decide)).read16

lemma SameOn.read64 (same : SameOn f g ⟨off, 8⟩) : g.read64 off = f.read64 off := by
  exact congrArg₂ (· ++ ·) (same.part 4 (Nat.le_refl 8)).read32 (same.front (by decide)).read32

lemma SameOn.phdrAt (same : SameOn f g ⟨off, 56⟩) : g.phdrAt off = f.phdrAt off := by
  have type : SameOn f g ⟨off, 4⟩ := same.front (by decide)
  have flags : SameOn f g ⟨off + 4#64, 4⟩ := same.part 4 (by decide)
  have offset : SameOn f g ⟨off + 8#64, 8⟩ := same.part 8 (by decide)
  have vaddr : SameOn f g ⟨off + 16#64, 8⟩ := same.part 16 (by decide)
  have filesz : SameOn f g ⟨off + 32#64, 8⟩ := same.part 32 (by decide)
  have memsz : SameOn f g ⟨off + 40#64, 8⟩ := same.part 40 (by decide)
  simp only [ElfFile.phdrAt, BitVec.ofNat_eq_ofNat, type.read32, flags.read32, offset.read64,
    vaddr.read64, filesz.read64, memsz.read64]

lemma SameOn.headerOk (same : SameOn f g ⟨0#64, 64⟩) : g.headerOk = f.headerOk := by
  have magic : g.eIdentMagic = f.eIdentMagic := (same.front (by decide)).read32
  have cls : g.eIdentClass = f.eIdentClass := (same.part 4 (by decide)).byte
  have data : g.eIdentData = f.eIdentData := (same.part 5 (by decide)).byte
  have type : g.eType = f.eType := (same.part 16 (by decide)).read16
  have machine : g.eMachine = f.eMachine := (same.part 18 (by decide)).read16
  rw [ElfFile.headerOk, ElfFile.headerOk, magic, cls, data, type, machine]

end Same

lemma pageContent_congr (same : ∀ r ∈ pageReads h a, SameOn f g r) :
    pageContent g h a = pageContent f h a := by
  unfold pageReads at same
  unfold pageContent
  dsimp only at same ⊢
  split
  · rename_i overlap
    rw [if_pos overlap] at same
    generalize (if h.vaddr < a then a else h.vaddr) = start at same ⊢
    generalize (if a + 4096#64 < h.vaddr + h.filesz then a + 4096#64 else h.vaddr + h.filesz) = stop
      at same ⊢
    have copied := same _ (mem_singleton_self _)
    split
    · rfl
    · refine congrArg some (funext fun k => ?_)
      split
      · rename_i inside
        exact copied _ (by simp only; omega)
      · rfl
  · rfl

lemma mapFresh_congr {content' : Addr → Option (Nat → Byte)}
    (same : ∀ b, (∀ r ∈ reads b, SameOn f g r) → content' b = content b)
    (agree : ∀ r ∈ mapFreshReads root flags content reads count l a, SameOn f g r) :
    mapFresh root flags content' count l a = mapFresh root flags content count l a := by
  induction count generalizing l a with
  | zero => rfl
  | succ count ih =>
    cases pages : l.vmm.pages with
    | nil => simp only [mapFresh, Vmm.allocPage, pages]
    | cons page rest =>
      have here : content' a = content a := by
        refine same a fun r mem => agree r ?_
        simp only [mapFreshReads, Vmm.allocPage, pages]
        exact mem_append_left _ mem
      cases filled : content a with
      | none => simp only [mapFresh, Vmm.allocPage, pages, here, filled]
      | some bytes =>
        rw [mapFresh_pass pages filled, mapFresh_pass pages (here.trans filled)]
        rw [mapFreshReads_pass pages filled] at agree
        exact ih fun r mem => agree r (mem_append_right _ mem)

section
variable (size : g.bytes.length = f.bytes.length)
include size

lemma bad_congr : h.bad g = h.bad f := by
  rw [Phdr.bad, Phdr.bad, ElfFile.size, ElfFile.size, size]

lemma loadSegments_congr {offs : List (BitVec 64)}
    (agree : ∀ r ∈ loadSegmentsReads f root offs l, SameOn f g r) :
    loadSegments g root (offs.map g.phdrAt) l = loadSegments f root (offs.map f.phdrAt) l := by
  induction offs generalizing l with
  | nil => rfl
  | cons off offs ih =>
    have header := (agree _ mem_cons_self).phdrAt
    have rest := fun r mem => agree r (mem_cons_of_mem _ mem)
    simp only [map_cons, loadSegments, header, bad_congr size]
    by_cases load : (f.phdrAt off).type = ptLoad
    case neg =>
      rw [if_pos load] at rest
      rw [if_pos load, if_pos load]
      exact ih rest
    rw [if_neg (not_not_intro load)] at rest
    rw [if_neg (not_not_intro load), if_neg (not_not_intro load)]
    cases bad : (f.phdrAt off).bad f with
    | true => rw [if_pos rfl, if_pos rfl]
    | false =>
      rw [bad, if_neg Bool.false_ne_true] at rest
      rw [if_neg Bool.false_ne_true, if_neg Bool.false_ne_true, mapFresh_congr (fun _ => pageContent_congr) fun r mem =>
        rest r (mem_append_left _ mem)]
      generalize mapFresh root (f.phdrAt off).pageFlags (pageContent f (f.phdrAt off))
        (f.phdrAt off).pageCount l (f.phdrAt off).firstPage = m at rest ⊢
      obtain ⟨status, l'⟩ := m
      cases status with
      | ok => exact ih fun r mem => rest r (mem_append_right _ mem)
      | null | fault => rfl

/-- What a load does depends on the size of the file and on the bytes in the ranges read. -/
theorem elfLoad_congr (agree : ∀ r ∈ elfLoadReads f l, SameOn f g r) (name : String)
    (trampoline stack : Nat) :
    elfLoad g name trampoline stack l = elfLoad f name trampoline stack l := by
  unfold elfLoadReads at agree
  unfold elfLoad
  rw [size]
  split
  · rfl
  rename_i large
  rw [if_neg large] at agree
  have header : SameOn f g ⟨0#64, 64⟩ := agree _ mem_cons_self
  have rest := fun r mem => agree r (mem_cons_of_mem _ mem)
  have ok : g.headerOk = f.headerOk := header.headerOk
  have phoff : g.ePhoff = f.ePhoff := (header.part 32 (by decide)).read64
  have phnum : g.ePhnum = f.ePhnum := (header.part 56 (by decide)).read16
  have entry : g.eEntry = f.eEntry := (header.part 24 (by decide)).read64
  have offsets : g.phdrOffsets = f.phdrOffsets := by
    rw [ElfFile.phdrOffsets, ElfFile.phdrOffsets, phoff, phnum]
  rw [ok]
  split
  · rfl
  rename_i passes
  rw [if_neg passes] at rest
  split
  · rfl
  rename_i vmm root space
  rw [space] at rest
  have tableEnd : g.phEnd = f.phEnd := by rw [ElfFile.phEnd, ElfFile.phEnd, phoff, phnum]
  have fileSize : g.size = f.size := by rw [ElfFile.size, ElfFile.size, size]
  dsimp only at rest ⊢
  rw [tableEnd, fileSize]
  split
  · rfl
  rename_i table
  rw [if_neg table] at rest
  simp only [ElfFile.phdrs_eq, offsets, loadSegments_congr size rest, startElf, entry]

end

theorem elfLoad_congr_one_page :
    elfLoad { fileOfOnePage with around := fun _ => 1 } "a" 0 0 bootedLoader =
      elfLoad fileOfOnePage "a" 0 0 bootedLoader := by
  refine elfLoad_congr (by rfl) ?_ "a" 0 0
  unfold SameOn
  decide +kernel

/-- The segments before the first that fails its check. -/
def ElfFile.firstLoads (f : ElfFile) (hs : List Phdr) : List Phdr :=
  (hs.filter (·.type = ptLoad)).takeWhile fun h => !h.bad f

variable {off : BitVec 64} {offs : List (BitVec 64)} {hs : List Phdr}

lemma firstLoads_cons_other (other : h.type ≠ ptLoad) :
    f.firstLoads (h :: hs) = f.firstLoads hs := by
  simp [ElfFile.firstLoads, other]

lemma firstLoads_cons_good (load : h.type = ptLoad) (good : h.bad f = false) :
    f.firstLoads (h :: hs) = h :: f.firstLoads hs := by
  simp [ElfFile.firstLoads, load, good]

lemma firstLoads_cons_bad (load : h.type = ptLoad) (bad : h.bad f = true) :
    f.firstLoads (h :: hs) = [] := by
  simp [ElfFile.firstLoads, load, bad]

lemma loadSegmentsReads_inside (table : ∀ off ∈ offs, ReadRange.Inside f ⟨off, 56⟩)
    (copies : ∀ h ∈ f.firstLoads (offs.map f.phdrAt), h.CopyInside f) :
    ∀ r ∈ loadSegmentsReads f root offs l, r.Inside f := by
  induction offs generalizing l with
  | nil => exact fun r mem => absurd mem not_mem_nil
  | cons off offs ih =>
    have later : ∀ off ∈ offs, ReadRange.Inside f ⟨off, 56⟩ :=
      fun o mem => table o (mem_cons_of_mem off mem)
    intro r mem
    rw [map_cons] at copies
    rcases mem_cons.mp mem with rfl | mem
    · exact table off mem_cons_self
    by_cases load : (f.phdrAt off).type = ptLoad
    case neg =>
      rw [if_pos load] at mem
      rw [firstLoads_cons_other load] at copies
      exact ih later copies r mem
    rw [if_neg (not_not_intro load)] at mem
    cases bad : (f.phdrAt off).bad f with
    | true =>
      rw [bad, if_pos rfl] at mem
      cases mem
    | false =>
      rw [bad, if_neg nofun] at mem
      rw [firstLoads_cons_good load bad] at copies
      rcases mem_append.mp mem with here | mem
      · obtain ⟨i, hi, read⟩ := mem_mapFreshReads here
        exact ((copies _ mem_cons_self).page bad hi).1 r read
      · split at mem
        · exact ih later (fun h mem => copies h (mem_cons_of_mem _ mem)) r mem
        · cases mem

lemma loadSegments_not_fault (copies : ∀ h ∈ f.firstLoads hs, h.CopyInside f) :
    (loadSegments f root hs l).1 ≠ .fault := by
  induction hs generalizing l with
  | nil => simp [loadSegments]
  | cons h hs ih =>
    rw [loadSegments]
    by_cases load : h.type = ptLoad
    case neg =>
      rw [if_pos load]
      rw [firstLoads_cons_other load] at copies
      exact ih copies
    rw [if_neg (not_not_intro load)]
    cases bad : h.bad f with
    | true => simp
    | false =>
      rw [firstLoads_cons_good load bad] at copies
      have here : (mapFresh root h.pageFlags (pageContent f h) h.pageCount l h.firstPage).1 ≠
          .fault := mapFresh_not_fault fun i hi => ((copies h mem_cons_self).page bad hi).2
      rw [if_neg Bool.false_ne_true]
      generalize mapFresh root h.pageFlags (pageContent f h) h.pageCount l h.firstPage = m at here
      obtain ⟨status, l'⟩ := m
      cases status with
      | ok => exact ih fun h' mem => copies h' (mem_cons_of_mem h mem)
      | null => simp
      | fault => exact absurd rfl here

lemma loadSegments_not_ok (mem : h ∈ hs) (load : h.type = ptLoad) (bad : h.bad f = true) :
    (loadSegments f root hs l).1 ≠ .ok := by
  induction hs generalizing l with
  | nil => cases mem
  | cons h' hs ih =>
    rw [loadSegments]
    rcases mem_cons.mp mem with rfl | mem
    · rw [if_neg (not_not_intro load), if_pos bad]
      simp
    · split
      · exact ih mem
      split
      · simp
      split
      · exact ih mem
      · rename_i notOk same
        exact fun ok => notOk ok

lemma exists_outside_read (root : Addr)
    (outside : ∃ h ∈ f.firstLoads (offs.map f.phdrAt), ¬ h.CopyInside f) :
    ∃ n, ∀ l : Loader, n ≤ l.vmm.pages.length →
      ∃ r ∈ loadSegmentsReads f root offs l, ¬ r.Inside f := by
  induction offs with
  | nil =>
    obtain ⟨h, mem, -⟩ := outside
    cases mem
  | cons off offs ih =>
    rw [map_cons] at outside
    by_cases load : (f.phdrAt off).type = ptLoad
    case neg =>
      rw [firstLoads_cons_other load] at outside
      obtain ⟨n, enough⟩ := ih outside
      refine ⟨n, fun l plenty => ?_⟩
      obtain ⟨r, mem, notInside⟩ := enough l plenty
      refine ⟨r, mem_cons_of_mem _ ?_, notInside⟩
      rwa [if_pos load]
    cases bad : (f.phdrAt off).bad f with
    | true =>
      rw [firstLoads_cons_bad load bad] at outside
      obtain ⟨h, mem, -⟩ := outside
      cases mem
    | false =>
      rw [firstLoads_cons_good load bad] at outside
      by_cases copies : (f.phdrAt off).CopyInside f
      case neg =>
        obtain ⟨i, hi, before, r, mem, notInside⟩ := Phdr.exists_outside copies bad
        refine ⟨4 * (f.phdrAt off).pageCount, fun l plenty => ⟨r, mem_cons_of_mem _ ?_, notInside⟩⟩
        rw [if_neg (not_not_intro load), bad, if_neg nofun]
        exact mem_append_left _ (mem_mapFreshReads_of_plenty plenty hi before mem)
      case pos =>
        have later : ∃ h ∈ f.firstLoads (offs.map f.phdrAt), ¬ h.CopyInside f := by
          obtain ⟨h, mem, notCopies⟩ := outside
          rcases mem_cons.mp mem with rfl | mem
          · exact absurd copies notCopies
          · exact ⟨h, mem, notCopies⟩
        obtain ⟨n, enough⟩ := ih later
        refine ⟨4 * (f.phdrAt off).pageCount + n, fun l plenty => ?_⟩
        have room : 4 * (f.phdrAt off).pageCount ≤ l.vmm.pages.length := by omega
        obtain ⟨l', run, left, -, -⟩ := mapFresh_ok_of_plenty root (f.phdrAt off).pageFlags room
          fun i hi => (copies.page bad hi).2
        obtain ⟨r, mem, notInside⟩ := enough l' (by omega)
        refine ⟨r, mem_cons_of_mem _ ?_, notInside⟩
        rw [if_neg (not_not_intro load), bad, if_neg nofun, run]
        exact mem_append_right _ mem

lemma loadSegments_ok_of_plenty (root : Addr)
    (good : ∀ h ∈ hs, h.type = ptLoad → h.bad f = false ∧ h.CopyInside f) :
    ∃ n, ∀ l : Loader, n ≤ l.vmm.pages.length →
      ∃ l', loadSegments f root hs l = (.ok, l') ∧ l.vmm.pages.length ≤ l'.vmm.pages.length + n ∧
        l'.elfPending = l.elfPending ∧ l'.sched = l.sched := by
  induction hs with
  | nil => exact ⟨0, fun l _ => ⟨l, rfl, Nat.le_refl _, rfl, rfl⟩⟩
  | cons h hs ih =>
    obtain ⟨n, enough⟩ := ih fun h' mem => good h' (mem_cons_of_mem h mem)
    by_cases load : h.type = ptLoad
    case neg =>
      refine ⟨n, fun l plenty => ?_⟩
      rw [loadSegments, if_pos load]
      exact enough l plenty
    obtain ⟨passes, copies⟩ := good h mem_cons_self load
    refine ⟨4 * h.pageCount + n, fun l plenty => ?_⟩
    have room : 4 * h.pageCount ≤ l.vmm.pages.length := by omega
    obtain ⟨l₁, run, left, pending, sched⟩ := mapFresh_ok_of_plenty root h.pageFlags room
      fun i hi => (copies.page passes hi).2
    obtain ⟨l', run', left', pending', sched'⟩ := enough l₁ (by omega)
    rw [loadSegments, if_neg (not_not_intro load), passes, if_neg Bool.false_ne_true, run]
    exact ⟨l', run', by omega, pending'.trans pending, sched'.trans sched⟩

lemma mapUserStack_ok_of_plenty (root : Addr) (plenty : 16 ≤ l.vmm.pages.length) :
    ∃ l', mapUserStack root l = (.ok, l') ∧ l'.elfPending = l.elfPending ∧ l'.sched = l.sched := by
  have run : ∃ l', mapFresh root (pteWritable ||| pteUser) (fun _ => some fun _ => 0) userStackPages
      l (userStackBase - userStackSize) = (.ok, l') ∧ _ ∧ _ ∧ _ :=
    mapFresh_ok_of_plenty root _ plenty fun _ _ => rfl
  obtain ⟨l', ok, -, same⟩ := run
  exact ⟨l', ok, same⟩

namespace ElfFile

/-- The file passes the checks of its header and of the place of its program header table. -/
def TablePasses (f : ElfFile) : Prop :=
  sizeofEhdr ≤ f.bytes.length ∧ f.headerOk = true ∧ ¬ f.size < f.phEnd

/-- The program header table, or the file bytes of a segment, are not all in the file. -/
def Outside (f : ElfFile) : Prop :=
  f.bytes.length < f.ePhoff.toNat + 56 * f.ePhnum.toNat ∨
    ∃ h ∈ f.loads, f.bytes.length < h.offset.toNat + h.filesz.toNat

def Rejected (f : ElfFile) : Prop :=
  ∀ (name : String) (trampoline stack : Nat) (l : Loader),
    (elfLoad f name trampoline stack l).1 = .null

/-- The place of the table does not wrap around, the copies of the segments before the first that
fails its check are in the file, and no segment wraps around when all pass. -/
structure Bounded (f : ElfFile) : Prop where
  table : f.ePhoff.toNat + 56 * f.ePhnum.toNat < 2 ^ 64
  copies : ∀ h ∈ f.firstLoads f.phdrs, h.CopyInside f
  segments : (∀ h ∈ f.loads, h.bad f = false) →
    ∀ h ∈ f.loads, h.offset.toNat + h.filesz.toNat < 2 ^ 64

lemma phEnd_toNat (f : ElfFile) :
    f.phEnd.toNat = (f.ePhoff.toNat + 56 * f.ePhnum.toNat) % 2 ^ 64 := by
  have := f.ePhnum.isLt
  rw [phEnd, toNat_add, BitVec.toNat_mul, BitVec.toNat_setWidth,
    show sizeofPhdr.toNat = 56 from rfl]
  omega

lemma TablePasses.end_le (passes : f.TablePasses)
    (table : f.ePhoff.toNat + 56 * f.ePhnum.toNat < 2 ^ 64) :
    f.ePhoff.toNat + 56 * f.ePhnum.toNat ≤ f.bytes.length := by
  have bound := passes.2.2
  rw [lt_def, size_toNat, phEnd_toNat, Nat.mod_eq_of_lt table] at bound
  omega

lemma TablePasses.inside (passes : f.TablePasses)
    (table : f.ePhoff.toNat + 56 * f.ePhnum.toNat < 2 ^ 64) :
    ∀ off ∈ f.phdrOffsets, ReadRange.Inside f ⟨off, 56⟩ := by
  intro off mem k hk
  have bound := passes.end_le table
  obtain ⟨i, hi, rfl⟩ := mem_map.mp mem
  have hi := mem_range.mp hi
  have place : sizeofPhdr * ofNat 64 i = ofNat 64 (56 * i) := by
    rw [BitVec.ofNat_mul]
    rfl
  simp only at hk ⊢
  rw [place, add_ofNat_add_ofNat, add_ofNat_toNat (by omega)]
  omega

lemma end_le_of_good (good : h.bad f = false) (fits : h.offset.toNat + h.filesz.toNat < 2 ^ 64) :
    h.offset.toNat + h.filesz.toNat ≤ f.bytes.length := by
  simp only [Phdr.bad, Bool.or_eq_false_iff, decide_eq_false_iff_not, lt_def, size_toNat] at good
  have bound := good.1.1
  rw [toNat_add, Nat.mod_eq_of_lt fits] at bound
  omega

end ElfFile

/-- A kernel with `n + 1` pages and nothing running. -/
def plentyLoader (n : Nat) : Loader where
  vmm :=
    { table := fun _ _ => 0
      pml4 := 0x101000#64
      pages := 0x200000#64 :: (range n).map fun i => 0x201000#64 + ofNat 64 (4096 * i)
      tables := []
      roots := [] }
  frames _ _ := 0
  elfPending _ := ⟨0, 0⟩
  sched := schedInit 0x101000 0

lemma plentyLoader_space (n : Nat) :
    ∃ vmm, (plentyLoader n).vmm.createAddressSpace = (vmm, some 0x200000#64) ∧
      vmm.pages.length = n := by
  refine ⟨_, rfl, ?_⟩
  simp

section
variable (passes : f.TablePasses)
include passes

lemma elfLoadReads_of_passes (n : Nat) :
    ∃ vmm : Vmm, vmm.pages.length = n ∧
      elfLoadReads f (plentyLoader n) = ⟨0, sizeofEhdr⟩ ::
        loadSegmentsReads f 0x200000#64 f.phdrOffsets { plentyLoader n with vmm } := by
  obtain ⟨vmm, space, pages⟩ := plentyLoader_space n
  refine ⟨vmm, pages, ?_⟩
  rw [elfLoadReads, if_neg (Nat.not_lt.mpr passes.1), passes.2.1, space]
  simp only [Bool.not_true, Bool.false_eq_true, if_false, if_neg passes.2.2]

lemma elfLoad_task_of_passes
    (good : ∀ h ∈ f.phdrs, h.type = ptLoad → h.bad f = false ∧ h.CopyInside f) (name : String)
    (trampoline : Nat) :
    ∃ n, (elfLoad f name trampoline 0x300000 (plentyLoader n)).1 = .task 1 := by
  obtain ⟨n, enough⟩ := loadSegments_ok_of_plenty 0x200000#64 good
  obtain ⟨vmm, space, pages⟩ := plentyLoader_space (n + 16)
  obtain ⟨l₁, run, left, pending, sched⟩ := enough { plentyLoader (n + 16) with vmm } (by
    simp only
    omega)
  simp only at left
  obtain ⟨l₂, stack, pending', sched'⟩ := mapUserStack_ok_of_plenty 0x200000#64
    (by omega : 16 ≤ l₁.vmm.pages.length)
  refine ⟨n + 16, ?_⟩
  rw [elfLoad, if_neg (Nat.not_lt.mpr passes.1), passes.2.1, space]
  simp only [Bool.not_true, Bool.false_eq_true, if_false, if_neg passes.2.2, run, stack, startElf,
    pending', pending, sched', sched]
  rfl

lemma table_of_reads (reads : ∀ l, ∀ r ∈ elfLoadReads f l, r.Inside f) :
    f.ePhoff.toNat + 56 * f.ePhnum.toNat < 2 ^ 64 := by
  by_contra wraps
  have offset := f.ePhoff.isLt
  have number := f.ePhnum.isLt
  have size := f.fits
  obtain ⟨count, hcount⟩ := Nat.exists_eq_succ_of_ne_zero (by omega : f.ePhnum.toNat ≠ 0)
  obtain ⟨rest, offsets⟩ : ∃ rest, f.phdrOffsets = f.ePhoff :: rest := by
    rw [ElfFile.phdrOffsets, hcount, range_succ_eq_map, map_cons]
    exact ⟨_, congrArg (· :: _) (BitVec.add_zero f.ePhoff)⟩
  obtain ⟨vmm, -, same⟩ := elfLoadReads_of_passes passes 0
  have inside := reads (plentyLoader 0) ⟨f.ePhoff, 56⟩ (by
    rw [same, offsets]
    exact mem_cons_of_mem _ mem_cons_self)
  have start := inside 0 (Nat.succ_pos 55)
  simp only [BitVec.add_zero] at start
  omega

lemma copies_of_reads (reads : ∀ l, ∀ r ∈ elfLoadReads f l, r.Inside f) :
    ∀ h ∈ f.firstLoads f.phdrs, h.CopyInside f := by
  by_contra all
  have outside : ∃ h ∈ f.firstLoads (f.phdrOffsets.map f.phdrAt), ¬ h.CopyInside f := by
    rw [← ElfFile.phdrs_eq]
    simpa only [not_forall, exists_prop] using all
  obtain ⟨n, enough⟩ := exists_outside_read 0x200000#64 outside
  obtain ⟨vmm, pages, same⟩ := elfLoadReads_of_passes passes n
  obtain ⟨r, mem, notInside⟩ := enough { plentyLoader n with vmm } (Nat.le_of_eq pages.symm)
  refine notInside (reads (plentyLoader n) r ?_)
  rw [same]
  exact mem_cons_of_mem _ mem

end

lemma firstLoads_of_good (good : ∀ h ∈ f.loads, h.bad f = false) :
    f.firstLoads f.phdrs = f.loads := by
  refine takeWhile_eq_self_iff.mpr fun h mem => ?_
  rw [good h mem]
  rfl

lemma ElfFile.Bounded.of_reads (passes : f.TablePasses)
    (reads : ∀ l, ∀ r ∈ elfLoadReads f l, r.Inside f) (rejects : f.Outside → f.Rejected) :
    f.Bounded := by
  have copies := copies_of_reads passes reads
  refine ⟨table_of_reads passes reads, copies, fun good h load => ?_⟩
  by_contra wraps
  have size := f.fits
  rw [firstLoads_of_good good] at copies
  have all : ∀ h ∈ f.phdrs, h.type = ptLoad → h.bad f = false ∧ h.CopyInside f := by
    intro h mem type
    have load : h ∈ f.loads := mem_filter.mpr ⟨mem, decide_eq_true type⟩
    exact ⟨good h load, copies h load⟩
  obtain ⟨n, task⟩ := elfLoad_task_of_passes passes all "" 0
  have null := rejects (.inr ⟨h, load, by omega⟩) "" 0 0x300000 (plentyLoader n)
  rw [task] at null
  cases null

lemma ElfFile.Bounded.inside (bounded : f.TablePasses → f.Bounded) :
    ∀ l, ∀ r ∈ elfLoadReads f l, r.Inside f := by
  intro l r mem
  unfold elfLoadReads at mem
  split at mem
  · cases mem
  rename_i large
  rcases mem_cons.mp mem with rfl | mem
  · intro k hk
    have small : k < 64 := hk
    have enough : 64 ≤ f.bytes.length := Nat.not_lt.mp large
    have place : (0#64 + ofNat 64 k).toNat = 0 + k := add_ofNat_toNat (by
      rw [toNat_ofNat]
      omega)
    exact place.trans_lt (by omega)
  split at mem
  · cases mem
  rename_i header
  split at mem
  · cases mem
  split at mem
  · cases mem
  rename_i table
  have passes : f.TablePasses := ⟨Nat.not_lt.mp large, by simpa using header, table⟩
  obtain ⟨noWrap, copies, -⟩ := bounded passes
  rw [ElfFile.phdrs_eq] at copies
  exact loadSegmentsReads_inside (passes.inside noWrap) copies r mem

lemma ElfFile.Bounded.rejected (bounded : f.TablePasses → f.Bounded) (outside : f.Outside) :
    f.Rejected := by
  intro name trampoline stack l
  unfold elfLoad
  split
  · rfl
  rename_i large
  split
  · rfl
  rename_i header
  split
  · rfl
  rename_i vmm root space
  dsimp only
  split
  · rfl
  rename_i table
  have passes : f.TablePasses := ⟨Nat.not_lt.mp large, by simpa using header, table⟩
  obtain ⟨noWrap, copies, segments⟩ := bounded passes
  have notFault : (loadSegments f root f.phdrs { l with vmm }).1 ≠ .fault :=
    loadSegments_not_fault copies
  have notOk : (loadSegments f root f.phdrs { l with vmm }).1 ≠ .ok := by
    intro ok
    have good : ∀ h ∈ f.loads, h.bad f = false := by
      intro h load
      obtain ⟨mem, type⟩ := mem_filter.mp load
      by_contra bad
      exact loadSegments_not_ok mem (of_decide_eq_true type) (by simpa using bad) ok
    rcases outside with table | ⟨h, load, beyond⟩
    · exact absurd (passes.end_le noWrap) (Nat.not_le.mpr table)
    · exact absurd (ElfFile.end_le_of_good (good h load) (segments good h load))
        (Nat.not_le.mpr beyond)
  generalize loadSegments f root f.phdrs { l with vmm } = run at notFault notOk
  obtain ⟨status, l'⟩ := run
  cases status with
  | ok => exact absurd rfl notOk
  | null => rfl
  | fault => exact absurd rfl notFault

/-- Every offset that `elf_load` reads is in the file, and files with a table or a segment outside
are rejected, if and only if no sum that a check compares with the size wraps around to where it
matters. -/
theorem elf_reads_inside_iff (f : ElfFile) :
    ((∀ l, ∀ r ∈ elfLoadReads f l, r.Inside f) ∧ (f.Outside → f.Rejected)) ↔
      (f.TablePasses → f.Bounded) :=
  ⟨fun inside passes => .of_reads passes inside.1 inside.2,
    fun bounded => ⟨ElfFile.Bounded.inside bounded, ElfFile.Bounded.rejected bounded⟩⟩

/-- A segment of one page whose place in the file begins one page before the end of the address
range, so that its end wraps around to zero. -/
def fileBelowZero : ElfFile where
  bytes := imageOf [⟨ptLoad, 5, 0xFFFFFFFFFFFFF000, 0x8000000000, 4096, 4096⟩]
  around _ := 0
  fits := by decide

/-- The page is copied from the 4096 bytes before the copy of the file, and the load succeeds. -/
theorem segment_read_below_zero :
    sizeofEhdr ≤ fileBelowZero.bytes.length ∧ fileBelowZero.Outside ∧
      ⟨0xFFFFFFFFFFFFF000, 4096⟩ ∈ elfLoadReads fileBelowZero bootedLoader ∧
      ¬ ReadRange.Inside fileBelowZero ⟨0xFFFFFFFFFFFFF000, 4096⟩ ∧
      (elfLoad fileBelowZero "a" 0x100000 0x300000 bootedLoader).1 = .task 1 := by
  refine ⟨by decide, ?_, by decide +kernel, ?_, by decide +kernel⟩
  · exact .inr ⟨⟨ptLoad, 5, 0xFFFFFFFFFFFFF000, 0x8000000000, 4096, 4096⟩, by decide +kernel,
      by decide⟩
  · intro inside
    exact absurd (inside 0 (by decide)) (by decide +kernel)

end MicroOs.User
