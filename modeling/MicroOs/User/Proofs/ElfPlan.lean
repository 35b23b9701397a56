import MicroOs.User.Elf
import MicroOs.User.Proofs.SyscallAccess
import MicroOs.Mm.Proofs.VmmUser

/-!
# What the loader maps

A load that returns a task has made one address space and then, page by page, taken a fresh page,
filled it and mapped it. Which pages these are, with which flags and contents, is a function of the
file: its plan.
-/

namespace MicroOs.User
open Mm Sched Lib List

variable {addr root : Addr} {content : Addr → Option (Nat → Byte)} {f : ElfFile} {flags : Pte}

structure PageOp where
  virt : Addr
  flags : Pte
  bytes : Nat → Byte

/-- The state after a fresh page has been filled and mapped. -/
def PageOp.apply (op : PageOp) (root page : Addr) (rest : List Addr) (l : Loader) : Loader :=
  { l with
    vmm := { l.vmm with pages := rest }.mapPageIn root op.virt page op.flags
    frames := Function.update l.frames page op.bytes }

/-- Map pages one after the other, as long as the PMM has some. -/
def runOps (root : Addr) : List PageOp → Loader → Option Loader
  | [], l => some l
  | op :: ops, l =>
    match l.vmm.pages with
    | [] => none
    | page :: rest => runOps root ops (op.apply root page rest l)

/-- The pages of a loop over `count` pages from `addr` on. -/
def pageOps (flags : Pte) (content : Addr → Option (Nat → Byte)) : Nat → Addr → List PageOp
  | 0, _ => []
  | count + 1, addr =>
    ⟨addr, flags, (content addr).getD fun _ => 0⟩ :: pageOps flags content count (addr + 4096#64)

def Phdr.ops (f : ElfFile) (h : Phdr) : List PageOp :=
  pageOps h.pageFlags (pageContent f h) h.pageCount h.firstPage

def ElfFile.loads (f : ElfFile) : List Phdr := f.phdrs.filter (·.type = ptLoad)

def stackOps : List PageOp :=
  pageOps (pteWritable ||| pteUser) (fun _ => some fun _ => 0) userStackPages
    (userStackBase - userStackSize)

def ElfFile.plan (f : ElfFile) : List PageOp := f.loads.flatMap (Phdr.ops f) ++ stackOps

lemma runOps_append (root : Addr) (ops₁ ops₂ : List PageOp) (l : Loader) :
    runOps root (ops₁ ++ ops₂) l = (runOps root ops₁ l).bind (runOps root ops₂) := by
  induction ops₁ generalizing l with
  | nil => rfl
  | cons op ops ih =>
    cases pages : l.vmm.pages with
    | nil => simp [runOps, pages]
    | cons page rest => simp [runOps, pages, ih]

lemma mapFresh_ok (count : Nat) :
    ∀ {l l' : Loader} {addr : Addr}, mapFresh root flags content count l addr = (.ok, l') →
      runOps root (pageOps flags content count addr) l = some l' ∧
      ∀ op ∈ pageOps flags content count addr, content op.virt = some op.bytes := by
  induction count with
  | zero =>
    intro l l' addr h
    simp only [mapFresh, Prod.mk.injEq, true_and] at h
    exact ⟨congrArg some h, by simp [pageOps]⟩
  | succ count ih =>
    intro l l' addr h
    cases pages : l.vmm.pages with
    | nil => simp [mapFresh, Vmm.allocPage, pages] at h
    | cons page rest =>
      cases filled : content addr with
      | none => simp [mapFresh, Vmm.allocPage, pages, filled] at h
      | some bytes =>
        simp only [mapFresh, Vmm.allocPage, pages, filled] at h
        obtain ⟨run, contents⟩ := ih h
        constructor
        · simp only [pageOps, runOps, pages, filled, Option.getD_some]
          exact run
        · intro op hop
          simp only [pageOps, filled, Option.getD_some, mem_cons] at hop
          rcases hop with rfl | hop
          · exact filled
          · exact contents op hop

lemma loadSegments_ok (hs : List Phdr) :
    ∀ {l l' : Loader}, loadSegments f root hs l = (.ok, l') →
      runOps root ((hs.filter (·.type = ptLoad)).flatMap (Phdr.ops f)) l = some l' ∧
      ∀ h ∈ hs.filter (·.type = ptLoad), h.bad f = false ∧
        ∀ op ∈ h.ops f, pageContent f h op.virt = some op.bytes := by
  induction hs with
  | nil =>
    intro l l' h
    simp only [loadSegments, Prod.mk.injEq, true_and] at h
    exact ⟨congrArg some h, by simp⟩
  | cons h hs ih =>
    intro l l' eq
    unfold loadSegments at eq
    split at eq
    · rename_i skip
      rw [filter_cons_of_neg (by simpa using skip)]
      exact ih eq
    · rename_i load
      rw [filter_cons_of_pos (by simpa using load)]
      split at eq
      · cases eq
      · rename_i good
        split at eq
        · rename_i l₁ mapped
          obtain ⟨run, contents⟩ := mapFresh_ok _ mapped
          obtain ⟨rest, others⟩ := ih eq
          constructor
          · rw [flatMap_cons, runOps_append]
            show (runOps root (pageOps _ _ _ _) l).bind _ = _
            rw [run]
            exact rest
          · intro h' mem
            rcases mem_cons.mp mem with rfl | mem
            · exact ⟨by simpa using good, contents⟩
            · exact others h' mem
        · rename_i status l₁ notOk mapped
          obtain ⟨rfl, -⟩ := Prod.mk.injEq .. ▸ eq
          exact absurd rfl notOk

def PageOp.covers (v : Addr) (op : PageOp) : Bool := op.virt.toNat / 4096 = v.toNat / 4096

/-- The loop over the pages of the segment passes the page of `v`. -/
def Phdr.mapsPage (h : Phdr) (v : Addr) : Bool := h.firstPage ≤ v && v < h.endPage

def onStack (v : Addr) : Bool := userStackBase - userStackSize ≤ v && v < userStackBase

/-- What the segment maps at the page of `v`. -/
def Phdr.opAt (f : ElfFile) (v : Addr) (h : Phdr) : PageOp :=
  ⟨pageBase v, h.pageFlags, (pageContent f h (pageBase v)).getD fun _ => 0⟩

/-- What is mapped for the stack at the page of `v`. -/
def stackOpAt (v : Addr) : PageOp := ⟨pageBase v, pteWritable ||| pteUser, fun _ => 0⟩

lemma pageBase_eq {v : Addr} (aligned : addr.toNat % 4096 = 0)
    (same : addr.toNat / 4096 = v.toNat / 4096) : pageBase v = addr := by
  apply BitVec.eq_of_toNat_eq
  rw [pageBase_toNat]
  omega

lemma add_page_toNat (bound : addr.toNat + 4096 < 2 ^ 64) :
    (addr + 4096#64).toNat = addr.toNat + 4096 := by
  rw [BitVec.toNat_add, show (4096#64).toNat = 4096 by decide]
  exact Nat.mod_eq_of_lt bound

lemma filter_pageOps (flags : Pte) (content : Addr → Option (Nat → Byte)) (v : Addr)
    (count : Nat) :
    ∀ addr : Addr, addr.toNat % 4096 = 0 → addr.toNat + 4096 * count < 2 ^ 64 →
      (pageOps flags content count addr).filter (PageOp.covers v) =
        if addr.toNat ≤ v.toNat ∧ v.toNat < addr.toNat + 4096 * count then
          [⟨pageBase v, flags, (content (pageBase v)).getD fun _ => 0⟩]
        else [] := by
  induction count with
  | zero =>
    intro addr _ _
    rw [if_neg (by omega)]
    rfl
  | succ count ih =>
    intro addr aligned bound
    rw [Nat.mul_succ, ← Nat.add_assoc] at bound ⊢
    have fits : addr.toNat + 4096 < 2 ^ 64 := by omega
    have next := add_page_toNat fits
    have tail := ih (addr + 4096#64) (by omega) (by omega)
    rw [next, Nat.add_right_comm] at tail
    by_cases here : addr.toNat / 4096 = v.toNat / 4096
    · rw [if_neg (by omega)] at tail
      rw [if_pos (by omega), pageBase_eq aligned here]
      simp only [pageOps]
      rw [filter_cons_of_pos (by simpa [PageOp.covers] using here), tail]
    · simp only [pageOps]
      have above : addr.toNat + 4096 ≤ v.toNat ↔ addr.toNat ≤ v.toNat := by omega
      rw [filter_cons_of_neg (by simpa [PageOp.covers] using here), tail]
      simp only [above]

lemma mem_pageOps (count : Nat) :
    ∀ {addr : Addr} {op : PageOp}, addr.toNat + 4096 * count < 2 ^ 64 →
      op ∈ pageOps flags content count addr →
      op.flags = flags ∧ op.virt.toNat < addr.toNat + 4096 * count := by
  induction count with
  | zero =>
    intro addr op _ mem
    simp [pageOps] at mem
  | succ count ih =>
    intro addr op bound mem
    rw [Nat.mul_succ, ← Nat.add_assoc] at bound ⊢
    rcases mem_cons.mp mem with rfl | mem
    · exact ⟨rfl, by simp only; omega⟩
    · have fits : addr.toNat + 4096 < 2 ^ 64 := by omega
      have next := add_page_toNat fits
      obtain ⟨hflags, lt⟩ := ih (by omega) mem
      exact ⟨hflags, by omega⟩

lemma and_page_mask_toNat (a : Addr) : (a &&& ~~~0xFFF#64).toNat = a.toNat / 4096 * 4096 := by
  have shift : a &&& ~~~0xFFF#64 = pageBase a := by
    apply BitVec.eq_of_getLsbD_eq
    intro k hk
    have mask : ∀ k < 64, (~~~0xFFF#64 : BitVec 64).getLsbD k = decide (12 ≤ k) := by decide
    rw [BitVec.getLsbD_and, mask k hk, pageBase, BitVec.getLsbD_shiftLeft,
      BitVec.getLsbD_ushiftRight]
    by_cases low : k < 12
    · simp [low, Nat.not_le.mpr low]
    · have sum : 12 + (k - 12) = k := by omega
      simp [low, hk, sum, Nat.not_lt.mp low]
  rw [shift, pageBase_toNat]

section Segment
variable {f : ElfFile} {h : Phdr}

lemma Phdr.memsz_le (good : h.bad f = false) : h.memsz.toNat ≤ 0x1000000 := by
  simp only [Phdr.bad, Bool.or_eq_false_iff, decide_eq_false_iff_not, BitVec.not_lt] at good
  exact good.1.2

lemma Phdr.end_lt (good : h.bad f = false) : (h.vaddr + h.memsz).toNat < 2 ^ 47 := by
  simp only [Phdr.bad, Bool.or_eq_false_iff, decide_eq_false_iff_not, BitVec.not_le] at good
  exact good.2

lemma Phdr.firstPage_toNat (h : Phdr) : h.firstPage.toNat = h.vaddr.toNat / 4096 * 4096 :=
  and_page_mask_toNat _

section
variable (good : h.bad f = false)
include good

lemma Phdr.endPage_toNat : h.endPage.toNat = ((h.vaddr + h.memsz).toNat + 4095) / 4096 * 4096 := by
  have bound := Phdr.end_lt good
  have sum : (h.vaddr + h.memsz + 0xFFF#64).toNat = (h.vaddr + h.memsz).toNat + 4095 := by
    rw [BitVec.toNat_add (h.vaddr + h.memsz), show (0xFFF#64).toNat = 4095 by decide]
    exact Nat.mod_eq_of_lt (by omega)
  rw [Phdr.endPage, and_page_mask_toNat, sum]

lemma Phdr.pages_end :
    h.pageCount = 0 ∨ h.firstPage.toNat + 4096 * h.pageCount = h.endPage.toNat := by
  have first := h.firstPage_toNat
  have last := Phdr.endPage_toNat good
  unfold Phdr.pageCount
  omega

lemma Phdr.pages_bound : h.firstPage.toNat + 4096 * h.pageCount < 2 ^ 64 := by
  have bound := Phdr.end_lt good
  have last := Phdr.endPage_toNat good
  have first := h.firstPage_toNat
  have := h.vaddr.isLt
  rcases Phdr.pages_end good with none | some
  · omega
  · omega

lemma Phdr.filter_ops (v : Addr) :
    (h.ops f).filter (PageOp.covers v) = if h.mapsPage v then [h.opAt f v] else [] := by
  unfold Phdr.ops
  rw [filter_pageOps _ _ v _ _ (by rw [h.firstPage_toNat]; omega) (Phdr.pages_bound good)]
  unfold Phdr.opAt
  congr 1
  apply propext
  have first := h.firstPage_toNat
  have last := Phdr.endPage_toNat good
  simp only [Phdr.mapsPage, Bool.and_eq_true, decide_eq_true_eq, BitVec.le_def, BitVec.lt_def]
  unfold Phdr.pageCount
  omega

lemma Phdr.ops_spec {op : PageOp} (mem : op ∈ h.ops f) :
    op.flags = h.pageFlags ∧ op.virt.toNat < 2 ^ 47 := by
  obtain ⟨flags, lt⟩ := mem_pageOps _ (Phdr.pages_bound good) mem
  have bound := Phdr.end_lt good
  have last := Phdr.endPage_toNat good
  refine ⟨flags, ?_⟩
  rcases Phdr.pages_end good with none | some
  · simp [Phdr.ops, none, pageOps] at mem
  · omega

end

end Segment

lemma filter_stackOps (v : Addr) :
    stackOps.filter (PageOp.covers v) = if onStack v then [stackOpAt v] else [] := by
  unfold stackOps
  rw [filter_pageOps _ _ v _ _ (by decide) (by decide)]
  unfold stackOpAt
  congr 1
  simp only [onStack, Bool.and_eq_true, decide_eq_true_eq, BitVec.le_def, BitVec.lt_def]
  rfl

lemma filter_plan (good : ∀ h ∈ f.loads, h.bad f = false) (v : Addr) :
    f.plan.filter (PageOp.covers v) = (f.loads.filter (·.mapsPage v)).map (Phdr.opAt f v) ++
      if onStack v then [stackOpAt v] else [] := by
  unfold ElfFile.plan
  rw [filter_append, filter_stackOps, filter_flatMap]
  congr 1
  generalize f.loads = hs at good
  induction hs with
  | nil => rfl
  | cons h hs ih =>
    have rest := ih fun h' mem => good h' (mem_cons_of_mem _ mem)
    rw [flatMap_cons, rest, Phdr.filter_ops (good h mem_cons_self)]
    by_cases maps : h.mapsPage v
    · rw [if_pos maps, filter_cons_of_pos (p := fun h : Phdr => h.mapsPage v) maps,
        map_cons, singleton_append]
    · rw [if_neg maps, filter_cons_of_neg (p := fun h : Phdr => h.mapsPage v) maps, nil_append]

lemma pageFlags_spec (h : Phdr) :
    hasFlag h.pageFlags pteUser = true ∧ h.pageFlags &&& pteAddrMask = 0 := by
  unfold Phdr.pageFlags
  split <;> decide

lemma plan_spec (good : ∀ h ∈ f.loads, h.bad f = false) {op : PageOp} (mem : op ∈ f.plan) :
    (hasFlag op.flags pteUser = true ∧ op.flags &&& pteAddrMask = 0) ∧ op.virt.toNat < 2 ^ 47 := by
  rcases mem_append.mp mem with segment | inStack
  · obtain ⟨h, hh, hop⟩ := mem_flatMap.mp segment
    obtain ⟨flags, lower⟩ := Phdr.ops_spec (good h hh) hop
    exact ⟨flags ▸ pageFlags_spec h, lower⟩
  · obtain ⟨flags, lower⟩ := mem_pageOps _ (by decide) inStack
    refine ⟨flags ▸ by decide, lower.trans ?_⟩
    decide

lemma elfLoad_task {name : String} {trampoline stack slot : Nat} {l l' : Loader}
    (h : elfLoad f name trampoline stack l = (.task slot, l')) :
    ∃ vmm root l₂, l.vmm.createAddressSpace = (vmm, some root) ∧
      runOps root f.plan { l with vmm } = some l₂ ∧ l'.vmm = l₂.vmm ∧ l'.frames = l₂.frames ∧
      (l'.sched.tasks slot).pml4 = root.toNat ∧
      ∀ h ∈ f.loads, h.bad f = false ∧ ∀ op ∈ h.ops f, pageContent f h op.virt = some op.bytes := by
  unfold elfLoad at h
  split at h
  · cases h
  split at h
  · cases h
  split at h
  · cases h
  rename_i vmm root created
  simp only at h
  split at h
  · cases h
  split at h
  · cases h
  · cases h
  rename_i l₁ segments
  split at h
  · cases h
  · cases h
  rename_i l₂ stackMapped
  split at h
  · cases h
  rename_i slot' l₃ started
  obtain ⟨hslot, rfl⟩ := Prod.mk.injEq .. ▸ h
  obtain rfl := LoadResult.task.inj hslot
  obtain ⟨runSegments, good⟩ := loadSegments_ok _ segments
  obtain ⟨runStack, -⟩ := mapFresh_ok _ stackMapped
  unfold startElf at started
  split at started
  · cases started
  simp only at started
  split at started
  · cases started
  rename_i record _ slot'' sched _
  obtain ⟨hslot, rfl⟩ := Prod.mk.injEq .. ▸ started
  obtain rfl := Option.some.inj hslot
  refine ⟨vmm, root, l₂, created, ?_, rfl, rfl, ?_, good⟩
  · unfold ElfFile.plan
    rw [runOps_append]
    show (runOps root (f.loads.flatMap _) _).bind _ = _
    rw [show f.loads = f.phdrs.filter (·.type = ptLoad) from rfl, runSegments]
    exact runStack
  · simp [Scheduler.modify]

end MicroOs.User
