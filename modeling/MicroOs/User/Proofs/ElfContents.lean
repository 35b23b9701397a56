import MicroOs.User.Proofs.ElfSegments

/-!
# The bytes of a loaded program

A page that the loader maps holds the file's bytes of one segment and zeros everywhere else. So a
segment that shares a page with an earlier one replaces the earlier one's bytes by zeros.
-/

namespace MicroOs.User
open Mm Sched Lib List
open BitVec (ofNat toNat_add toNat_ofNat lt_def)

variable {P : Place} {f : ElfFile} {root page addr v : Addr} {op : PageOp} {h h' : Phdr}
  {l l₀ l' : Loader} {slot : Nat} {name : String} {trampoline stack : Nat}
  {front back : List Phdr}

/-- The byte at `v` that a task with the address space `root` reads. -/
def seenByte (l : Loader) (root v : Addr) : Option Byte :=
  match l.vmm.translate root v with
  | some t => if t.user then some (l.frames (pageBase t.phys) (t.phys.toNat % 4096)) else none
  | none => none

/-- `v` is one of the `p_memsz` bytes of the segment. -/
def Phdr.Contains (h : Phdr) (v : Addr) : Prop :=
  ∃ k < h.memsz.toNat, v = h.vaddr + ofNat 64 k

/-- The segment's bytes are in memory as the file has them, the rest of it is zero. -/
def Phdr.InMemory (f : ElfFile) (l : Loader) (root : Addr) (h : Phdr) : Prop :=
  (∀ k < h.filesz.toNat, ∃ b, f.bytes[h.offset.toNat + k]? = some b ∧
    seenByte l root (h.vaddr + ofNat 64 k) = some b) ∧
  ∀ k, h.filesz.toNat ≤ k → k < h.memsz.toNat →
    seenByte l root (h.vaddr + ofNat 64 k) = some 0

/-- Neither the addresses of the segment nor its place in the file wrap around, and no page with a
non-zero byte of it is mapped again for a segment in `later` or for the stack. -/
structure Phdr.Survives (f : ElfFile) (h : Phdr) (later : List Phdr) : Prop where
  vaddr : 0 < h.memsz.toNat → h.vaddr.toNat + h.memsz.toNat < 2 ^ 64
  offset : 0 < h.filesz.toNat → h.offset.toNat + h.filesz.toNat < 2 ^ 64
  last : ∀ k < h.filesz.toNat, f.byte (h.offset + ofNat 64 k) ≠ 0 →
    onStack (h.vaddr + ofNat 64 k) = false ∧
    ∀ h' ∈ later, h'.mapsPage (h.vaddr + ofNat 64 k) = false

lemma sub_toNat {a b : Addr} (le : b.toNat ≤ a.toNat) : (a - b).toNat = a.toNat - b.toNat :=
  BitVec.toNat_sub_of_le (BitVec.le_def.mpr le)

lemma pageContent_byte (f : ElfFile) (fits : h.vaddr.toNat + h.filesz.toNat < 2 ^ 64)
    (room : addr.toNat + 4096 < 2 ^ 64) :
    ∃ bytes, pageContent f h addr = some bytes ∧ ∀ j < 4096, bytes j =
      if h.vaddr.toNat ≤ addr.toNat + j ∧ addr.toNat + j < h.vaddr.toNat + h.filesz.toNat then
        f.byte (h.offset + ofNat 64 (addr.toNat + j - h.vaddr.toNat))
      else 0 := by
  have fileEnd : (h.vaddr + h.filesz).toNat = h.vaddr.toNat + h.filesz.toNat := by
    rw [toNat_add]
    exact Nat.mod_eq_of_lt fits
  have pageEnd := add_page_toNat room
  unfold pageContent
  simp only [lt_def, fileEnd, pageEnd]
  by_cases overlap : addr.toNat < h.vaddr.toNat + h.filesz.toNat ∧
      h.vaddr.toNat < addr.toNat + 4096
  · rw [if_pos overlap]
    generalize hstart : (if h.vaddr.toNat < addr.toNat then addr else h.vaddr) = start
    generalize hstop : (if addr.toNat + 4096 < h.vaddr.toNat + h.filesz.toNat then
      addr + 4096#64 else h.vaddr + h.filesz) = stop
    have start_toNat : start.toNat = max addr.toNat h.vaddr.toNat := by
      rw [← hstart]
      split <;> omega
    have stop_toNat : stop.toNat = min (addr.toNat + 4096) (h.vaddr.toNat + h.filesz.toNat) := by
      rw [← hstop]
      split <;> omega
    rw [if_neg (by omega)]
    refine ⟨_, rfl, fun j hj => ?_⟩
    have pageOff : (start - addr).toNat = start.toNat - addr.toNat := sub_toNat (by omega)
    have length : (stop - start).toNat = stop.toNat - start.toNat := sub_toNat (by omega)
    have skipped : (start - h.vaddr).toNat = start.toNat - h.vaddr.toNat := sub_toNat (by omega)
    rw [pageOff, length]
    by_cases inside : h.vaddr.toNat ≤ addr.toNat + j ∧
        addr.toNat + j < h.vaddr.toNat + h.filesz.toNat
    · rw [if_pos inside, if_pos (by omega)]
      rw [BitVec.add_assoc]
      refine congrArg (fun i => f.byte (h.offset + i)) (BitVec.eq_of_toNat_eq ?_)
      have small : j - (start.toNat - addr.toNat) < 2 ^ 64 :=
        Nat.lt_of_le_of_lt (Nat.sub_le ..) (Nat.lt_trans hj (by decide))
      have same : start.toNat - h.vaddr.toNat + (j - (start.toNat - addr.toNat)) =
          addr.toNat + j - h.vaddr.toNat := by omega
      rw [toNat_add, toNat_ofNat, toNat_ofNat, skipped, Nat.mod_eq_of_lt small, same]
    · rw [if_neg inside, if_neg (by omega)]
  · rw [if_neg overlap]
    refine ⟨_, rfl, fun j hj => ?_⟩
    rw [if_neg (by omega)]

lemma phys_split (aligned : page &&& pteAddrMask = page) (v : Addr) :
    pageBase ((page &&& pteAddrMask) ||| (v.setWidth 12).setWidth 64) = page ∧
    ((page &&& pteAddrMask) ||| (v.setWidth 12).setWidth 64).toNat % 4096 = v.toNat % 4096 := by
  have low : ∀ k < 12, page.getLsbD k = false := by
    intro k hk
    rw [← aligned, BitVec.getLsbD_and, pteAddrMask_getLsbD k (by omega)]
    simp [Nat.not_le.mpr hk]
  rw [aligned]
  constructor
  · apply BitVec.eq_of_getLsbD_eq
    intro k hk
    rw [pageBase, BitVec.getLsbD_shiftLeft, BitVec.getLsbD_ushiftRight]
    by_cases small : k < 12
    · simp [small, low k small]
    · have sum : 12 + (k - 12) = k := by omega
      simp [sum, hk, small]
  · have bits : (page ||| (v.setWidth 12).setWidth 64).setWidth 12 = v.setWidth 12 := by
      apply BitVec.eq_of_getLsbD_eq
      intro k hk
      simp [hk, low k hk]
    have nat := congrArg BitVec.toNat bits
    rwa [BitVec.toNat_setWidth, BitVec.toNat_setWidth] at nat

lemma UserLeaf.seenByte {flags : Pte} (tree : Tree P l.vmm)
    (hroot : root ∈ l.vmm.pml4 :: l.vmm.roots)
    (leaf : UserLeaf l.vmm root v (Vmm.leafEntry page flags)) (user : hasFlag flags pteUser = true)
    (disjoint : flags &&& pteAddrMask = 0) (aligned : page &&& pteAddrMask = page) :
    seenByte l root v = some (l.frames page (v.toNat % 4096)) := by
  obtain ⟨t, translated, isUser, -, phys⟩ := leaf.translate tree hroot user disjoint
  obtain ⟨base, offset⟩ := phys_split aligned v
  rw [← phys] at base offset
  simp [User.seenByte, translated, isUser, base, offset]

lemma Loaded.seenByte_last (loaded : Loaded f l l' slot root l₀) (tree : Tree P l.vmm)
    (last : (f.plan.filter (PageOp.covers v)).getLast? = some op) (lower : v.toNat < 2 ^ 47)
    (high : 2 ^ 39 ≤ v.toNat) : seenByte l' root v = some (op.bytes (v.toNat % 4096)) := by
  obtain ⟨P', tree', hroot⟩ := loaded.final
  have private_ : pml4Index v ≠ 0 := by
    intro zero
    have idx := pml4Index_toNat v
    rw [zero, show (0 : Index).toNat = 0 by decide] at idx
    omega
  obtain ⟨page, leaf, bytes, aligned⟩ :=
    loaded.userLeaf tree last (sharedHuge_high _ private_) lower
  have mem := (mem_filter.mp (mem_of_getLast? last)).1
  obtain ⟨⟨user, disjoint⟩, -⟩ := plan_spec loaded.good mem
  rw [UserLeaf.seenByte tree' hroot leaf user disjoint aligned, bytes]

/-- The byte of the segment at an address, as the file has it. -/
def Phdr.fileByte (f : ElfFile) (h : Phdr) (v : Addr) : Byte :=
  if h.vaddr.toNat ≤ v.toNat ∧ v.toNat < h.vaddr.toNat + h.filesz.toNat then
    f.byte (h.offset + ofNat 64 (v.toNat - h.vaddr.toNat))
  else 0

lemma opAt_byte (f : ElfFile) (fits : h.vaddr.toNat + h.filesz.toNat < 2 ^ 64)
    (lower : v.toNat < 2 ^ 47) : (h.opAt f v).bytes (v.toNat % 4096) = h.fileByte f v := by
  have base := pageBase_toNat v
  have room : (pageBase v).toNat + 4096 < 2 ^ 64 := by omega
  obtain ⟨bytes, content, each⟩ := pageContent_byte f fits room
  have whole : (pageBase v).toNat + v.toNat % 4096 = v.toNat := by omega
  have byte := each (v.toNat % 4096) (Nat.mod_lt _ (by decide))
  rw [whole] at byte
  show ((pageContent f h (pageBase v)).getD fun _ => 0) (v.toNat % 4096) = _
  rw [content]
  exact byte

lemma Phdr.fits_of_mapsPage (good : h.bad f = false) (maps : h.mapsPage v = true) :
    h.vaddr.toNat + h.memsz.toNat < 2 ^ 64 := by
  by_contra wraps
  have size := Phdr.memsz_le good
  have first := h.firstPage_toNat
  have last := Phdr.endPage_toNat good
  have bound := h.vaddr.isLt
  have sum : (h.vaddr + h.memsz).toNat = h.vaddr.toNat + h.memsz.toNat - 2 ^ 64 := by
    rw [toNat_add]
    omega
  simp only [Phdr.mapsPage, Bool.and_eq_true, decide_eq_true_eq, BitVec.le_def, lt_def]
    at maps
  omega

lemma Phdr.fileByte_outside (small : h.filesz.toNat ≤ h.memsz.toNat) (out : ¬h.Contains v) :
    h.fileByte f v = 0 := by
  unfold Phdr.fileByte
  apply if_neg
  intro inside
  apply out
  refine ⟨v.toNat - h.vaddr.toNat, by omega, ?_⟩
  apply BitVec.eq_of_toNat_eq
  have bound := v.isLt
  rw [toNat_add, toNat_ofNat, Nat.mod_eq_of_lt (show v.toNat - h.vaddr.toNat < 2 ^ 64 by omega)]
  omega

lemma Phdr.fileByte_self (fits : h.vaddr.toNat + h.memsz.toNat < 2 ^ 64) {k : Nat}
    (hk : k < h.memsz.toNat) : h.fileByte f (h.vaddr + ofNat 64 k) =
      if k < h.filesz.toNat then f.byte (h.offset + ofNat 64 k) else 0 := by
  unfold Phdr.fileByte
  rw [Phdr.byte_toNat fits hk]
  by_cases inFile : k < h.filesz.toNat
  · rw [if_pos inFile, if_pos (by omega), Nat.add_sub_cancel_left]
  · rw [if_neg inFile, if_neg (by omega)]

/-- The segments lie in the private part of the address space and do not overlap. -/
structure ElfFile.Apart (f : ElfFile) : Prop where
  high : ∀ h ∈ f.loads, 2 ^ 39 ≤ h.vaddr.toNat
  small : ∀ h ∈ f.loads, h.filesz.toNat ≤ h.memsz.toNat
  disjoint : f.loads.Pairwise fun h h' => ∀ v, ¬(h.Contains v ∧ h'.Contains v)

lemma Loaded.seenByte_eq (loaded : Loaded f l l' slot root l₀) (tree : Tree P l.vmm)
    (apart : f.Apart) (split : f.loads = front ++ h :: back)
    (fits : h.vaddr.toNat + h.memsz.toNat < 2 ^ 64) {k : Nat} (hk : k < h.memsz.toNat) :
    seenByte l' root (h.vaddr + ofNat 64 k) = some
      (if onStack (h.vaddr + ofNat 64 k) = true ∨
          ∃ h' ∈ back, h'.mapsPage (h.vaddr + ofNat 64 k) = true then 0
        else if k < h.filesz.toNat then f.byte (h.offset + ofNat 64 k) else 0) := by
  have mem : h ∈ f.loads := split ▸ by simp
  obtain ⟨lower, maps⟩ := Phdr.maps_byte (loaded.good h mem) fits hk
  have self := Phdr.fileByte_self (f := f) fits hk
  have high : 2 ^ 39 ≤ (h.vaddr + ofNat 64 k).toNat := by
    have start := apart.high h mem
    rw [Phdr.byte_toNat fits hk]
    omega
  have contains : h.Contains (h.vaddr + ofNat 64 k) := ⟨k, hk, rfl⟩
  generalize h.vaddr + ofNat 64 k = v at lower maps self high contains ⊢
  have last := last_plan loaded.good v
  by_cases inStack : onStack v = true
  · rw [if_pos inStack] at last
    rw [loaded.seenByte_last tree last lower high, if_pos (.inl inStack)]
    rfl
  rw [if_neg inStack] at last
  by_cases later : ∃ h' ∈ back, h'.mapsPage v = true
  · -- the last segment that maps the page comes after this one and does not contain the byte
    obtain ⟨owner, howner, hmaps⟩ : ∃ owner ∈ back, owner.mapsPage v = true ∧
        (f.loads.filter (·.mapsPage v)).getLast? = some owner := by
      obtain ⟨h', mem', maps'⟩ := later
      have some : (back.filter (·.mapsPage v)) ≠ [] := ne_nil_of_mem (mem_filter.mpr ⟨mem', maps'⟩)
      obtain ⟨owner, howner⟩ := Option.isSome_iff_exists.mp (getLast?_isSome.mpr some)
      have owned := mem_filter.mp (mem_of_getLast? howner)
      refine ⟨owner, owned.1, owned.2, ?_⟩
      rw [split, filter_append, filter_cons_of_pos (p := fun h : Phdr => h.mapsPage v) maps,
        getLast?_append, getLast?_cons, howner]
      rfl
    have memOwner : owner ∈ f.loads := split ▸ by simp [howner]
    have out : ¬owner.Contains v := by
      have pairs := apart.disjoint
      rw [split] at pairs
      have after := (pairwise_cons.mp (pairwise_append.mp pairs).2.1).1
      exact fun contained => after owner howner v ⟨contains, contained⟩
    rw [hmaps.2, Option.map_some] at last
    have fitsOwner := Phdr.fits_of_mapsPage (loaded.good owner memOwner) hmaps.1
    have small := apart.small owner memOwner
    rw [loaded.seenByte_last tree last lower high, opAt_byte f (by omega) lower,
      Phdr.fileByte_outside small out, if_pos (.inr later)]
  · have owner : (f.loads.filter (·.mapsPage v)).getLast? = some h := by
      have none : back.filter (·.mapsPage v) = [] :=
        filter_eq_nil_iff.mpr fun h' mem' maps' => later ⟨h', mem', maps'⟩
      rw [split, filter_append, filter_cons_of_pos (p := fun h : Phdr => h.mapsPage v) maps,
        none, getLast?_concat]
    have small := apart.small h mem
    rw [owner, Option.map_some] at last
    rw [loaded.seenByte_last tree last lower high, opAt_byte f (by omega) lower, self,
      if_neg (not_or.mpr ⟨inStack, later⟩)]

lemma ElfFile.size_toNat (f : ElfFile) : f.size.toNat = f.bytes.length := by
  have fits := f.fits
  rw [ElfFile.size, toNat_ofNat]
  exact Nat.mod_eq_of_lt (by omega)

lemma Phdr.byte_of_file (good : h.bad f = false) (fits : h.offset.toNat + h.filesz.toNat < 2 ^ 64)
    {k : Nat} (hk : k < h.filesz.toNat) :
    f.bytes[h.offset.toNat + k]? = some (f.byte (h.offset + ofNat 64 k)) := by
  simp only [Phdr.bad, Bool.or_eq_false_iff, decide_eq_false_iff_not, BitVec.not_lt] at good
  have inFile := BitVec.le_def.mp good.1.1
  rw [ElfFile.size_toNat, toNat_add, Nat.mod_eq_of_lt fits] at inFile
  have index : (h.offset + ofNat 64 k).toNat = h.offset.toNat + k := by
    rw [toNat_add, toNat_ofNat, Nat.mod_eq_of_lt (show k < 2 ^ 64 by omega)]
    exact Nat.mod_eq_of_lt (by omega)
  have bound : h.offset.toNat + k < f.bytes.length := by omega
  unfold ElfFile.byte
  rw [index, getD_eq_getElem?_getD, List.getElem?_eq_getElem bound, Option.getD_some]

lemma userMapped_of_seenByte {b : Byte} (seen : seenByte l root v = some b) :
    UserMapped l.vmm root v false := by
  unfold seenByte at seen
  split at seen
  · rename_i t translated
    split at seen
    · rename_i user
      exact ⟨t, translated, user, fun write => absurd write (by decide)⟩
    · cases seen
  · cases seen

/-- A load puts all segments into memory exactly when nothing wraps around and no page with
something in it is mapped twice. -/
theorem segments_are_in_memory_iff {m : StaticTables} {memory : Addr → Index → Pte}
    {trace : List (StepOf Vmm VmmEvent)} (run : Run VmmStep (vmmInit m memory) trace l.vmm)
    (lower : ∀ st ∈ trace, LowerUser st.event) (apart : f.Apart)
    (loaded : elfLoad f name trampoline stack l = (.task slot, l')) :
    (∀ h ∈ f.loads, h.InMemory f l' (ofNat 64 (l'.sched.tasks slot).pml4)) ↔
      ∀ front h back, f.loads = front ++ h :: back → h.Survives f back := by
  obtain ⟨P, tree, -⟩ := run_tree run
  have closed := run_upperClosed run lower
  obtain ⟨root, l₀, loaded⟩ := elfLoad_loaded tree loaded
  rw [loaded.pml4]
  constructor
  · intro inMemory front h back split
    have mem : h ∈ f.loads := split ▸ by simp
    have good := loaded.good h mem
    have small := apart.small h mem
    obtain ⟨fromFile, zeros⟩ := inMemory h mem
    have fits : 0 < h.memsz.toNat → h.vaddr.toNat + h.memsz.toNat < 2 ^ 64 := by
      intro size
      by_contra wraps
      have high := Phdr.wraps_high good (Nat.not_lt.mp wraps)
      obtain ⟨b, seen⟩ : ∃ b, seenByte l' root (h.vaddr + ofNat 64 0) = some b := by
        by_cases inFile : 0 < h.filesz.toNat
        · obtain ⟨b, -, seen⟩ := fromFile 0 inFile
          exact ⟨b, seen⟩
        · exact ⟨0, zeros 0 (by omega) size⟩
      rw [BitVec.add_zero] at seen
      exact loaded.not_userMapped closed high _ (userMapped_of_seenByte seen)
    have inFile : 0 < h.filesz.toNat → h.offset.toNat + h.filesz.toNat < 2 ^ 64 := by
      intro size
      obtain ⟨b, byte, -⟩ := fromFile 0 size
      have bound := (List.getElem?_eq_some_iff.mp byte).1
      have length := f.fits
      have limit := Phdr.memsz_le good
      omega
    refine ⟨fits, inFile, fun k hk nonzero => ?_⟩
    obtain ⟨b, byte, seen⟩ := fromFile k hk
    have same := Phdr.byte_of_file good (inFile (by omega)) hk
    obtain rfl := Option.mem_unique byte same
    rw [loaded.seenByte_eq tree apart split (fits (by omega)) (by omega), if_pos hk] at seen
    by_cases replaced : onStack (h.vaddr + ofNat 64 k) = true ∨
        ∃ h' ∈ back, h'.mapsPage (h.vaddr + ofNat 64 k) = true
    · rw [if_pos replaced] at seen
      exact absurd (Option.some.inj seen).symm nonzero
    · simpa using replaced
  · intro survives h mem
    obtain ⟨front, back, split⟩ := append_of_mem mem
    have good := loaded.good h mem
    have small := apart.small h mem
    obtain ⟨fits, inFile, last⟩ := survives front h back split
    constructor
    · intro k hk
      refine ⟨_, Phdr.byte_of_file good (inFile (by omega)) hk, ?_⟩
      rw [loaded.seenByte_eq tree apart split (fits (by omega)) (by omega), if_pos hk]
      by_cases nonzero : f.byte (h.offset + ofNat 64 k) = 0
      · rw [nonzero, ite_self]
      · rw [if_neg]
        simpa using last k hk nonzero
    · intro k above hk
      rw [loaded.seenByte_eq tree apart split (fits (by omega)) hk,
        if_neg (show ¬k < h.filesz.toNat by omega), ite_self]

/-- Two segments of 16 bytes in one page, both from the start of the file. -/
def fileOfOnePage : ElfFile where
  bytes := imageOf [⟨ptLoad, 5, 0, 0x8000000000, 16, 16⟩, ⟨ptLoad, 6, 0, 0x8000000800, 16, 16⟩]
  around _ := 0
  fits := by decide +kernel

lemma fileOfOnePage_loads : fileOfOnePage.loads =
    [⟨ptLoad, 5, 0, 0x8000000000, 16, 16⟩, ⟨ptLoad, 6, 0, 0x8000000800, 16, 16⟩] := by
  decide +kernel

lemma fileOfOnePage_apart : fileOfOnePage.Apart := by
  constructor
  · rw [fileOfOnePage_loads]
    simp only [mem_cons, not_mem_nil, or_false, forall_eq_or_imp, forall_eq]
    decide
  · rw [fileOfOnePage_loads]
    simp only [mem_cons, not_mem_nil, or_false, forall_eq_or_imp, forall_eq]
    decide
  · rw [fileOfOnePage_loads]
    refine pairwise_pair.mpr ?_
    rintro v ⟨⟨k, hk, rfl⟩, k', hk', eq⟩
    have nat := congrArg BitVec.toNat eq
    rw [Phdr.byte_toNat (by decide) hk, Phdr.byte_toNat (by decide) hk'] at nat
    rw [show (0x8000000000 : BitVec 64).toNat = 0x8000000000 by decide,
      show (0x8000000800 : BitVec 64).toNat = 0x8000000800 by decide] at nat
    rw [show (16 : BitVec 64).toNat = 16 by decide] at hk
    omega

def loadOfOnePage : LoadResult × Loader := elfLoad fileOfOnePage "a" 0x100000 0x300000 bootedLoader

lemma loadOfOnePage_returns : loadOfOnePage.1 = .task 1 := by
  decide +kernel

theorem segments_are_in_memory_iff_one_page :
    (∀ h ∈ fileOfOnePage.loads, h.InMemory fileOfOnePage loadOfOnePage.2
        (ofNat 64 (loadOfOnePage.2.sched.tasks 1).pml4)) ↔
      ∀ front h back, fileOfOnePage.loads = front ++ h :: back → h.Survives fileOfOnePage back := by
  have returned : loadOfOnePage = (loadOfOnePage.1, loadOfOnePage.2) := Prod.mk.eta.symm
  rw [loadOfOnePage_returns] at returned
  exact segments_are_in_memory_iff bootedLoader_run bootedTrace_lower fileOfOnePage_apart returned

/-- The first segment begins with the `0x7F` at the start of the file, but the task reads a zero:
the page of the second segment has replaced that of the first. -/
theorem second_segment_erases_first :
    loadOfOnePage.1 = .task 1 ∧ fileOfOnePage.Apart ∧
    (⟨ptLoad, 5, 0, 0x8000000000, 16, 16⟩ : Phdr) ∈ fileOfOnePage.loads ∧
    fileOfOnePage.bytes[0]? = some 0x7F ∧
    seenByte loadOfOnePage.2 (ofNat 64 (loadOfOnePage.2.sched.tasks 1).pml4)
      0x8000000000 = some 0 :=
  ⟨loadOfOnePage_returns, fileOfOnePage_apart, by decide +kernel, by decide, by decide +kernel⟩

end MicroOs.User
