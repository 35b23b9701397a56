import MicroOs.Lib.TableTree
import MicroOs.Lib.Transition

/-!
# The virtual memory manager

Model of `kernel/mm/vmm.c`: four levels of page tables, read and written through the identity map.
A table entry is named by the address of its table and its index. The pages `pmm_alloc_page` will
return are part of the state; `tables` and `roots` are no variables of the program, but record
which pages are page tables and which of them `vmm_create_address_space` has returned.

`translate` is the page walk of the processor, with 4 KiB, 2 MiB and 1 GiB pages.
-/

namespace MicroOs.Mm
open Lib

/-- `uint64_t` addresses, virtual and physical. -/
abbrev Addr := BitVec 64

/-- `pte_t` (`vmm.c:23`). -/
abbrev Pte := BitVec 64

/-- An index into a table of 512 entries. -/
abbrev Index := BitVec 9

/-! ## Entries (`vmm.h:16-28`) -/

/-- `PTE_PRESENT`. -/
def ptePresent : Pte := 1#64 <<< 0
/-- `PTE_WRITABLE`. -/
def pteWritable : Pte := 1#64 <<< 1
/-- `PTE_USER`. -/
def pteUser : Pte := 1#64 <<< 2
/-- `PTE_WRITETHROUGH`. -/
def pteWritethrough : Pte := 1#64 <<< 3
/-- `PTE_NOCACHE`. -/
def pteNocache : Pte := 1#64 <<< 4
/-- `PTE_HUGE`: a 2 MiB page in a PD, a 1 GiB page in a PDPT. -/
def pteHuge : Pte := 1#64 <<< 7
/-- `PTE_NX`. -/
def pteNx : Pte := 1#64 <<< 63
/-- `PTE_ADDR_MASK`. -/
def pteAddrMask : Pte := 0x000FFFFFFFFFF000#64

/-- The test `entry & flag`. -/
def hasFlag (entry flag : Pte) : Bool := entry &&& flag != 0

/-- `pml4_index` (`vmm.c:47`). -/
def pml4Index (virt : Addr) : Index := virt.extractLsb' 39 9
/-- `pdpt_index` (`vmm.c:48`). -/
def pdptIndex (virt : Addr) : Index := virt.extractLsb' 30 9
/-- `pd_index` (`vmm.c:49`). -/
def pdIndex (virt : Addr) : Index := virt.extractLsb' 21 9
/-- `pt_index` (`vmm.c:50`). -/
def ptIndex (virt : Addr) : Index := virt.extractLsb' 12 9

/-- The page tables in memory, the variable `pml4` (`vmm.c:34`), and the answers of the PMM. -/
structure Vmm where
  table : Addr → Index → Pte
  pml4 : Addr
  /-- What `pmm_alloc_page` returns from now on; NULL when the list is used up. -/
  pages : List Addr
  /-- The pages in use as page tables. -/
  tables : List Addr
  /-- The roots `vmm_create_address_space` has returned. -/
  roots : List Addr

namespace Vmm

/-- `table[idx] = entry`. -/
def store (s : Vmm) (table : Addr) (idx : Index) (entry : Pte) : Vmm :=
  { s with table := Function.update s.table table (Function.update (s.table table) idx entry) }

/-- `pmm_alloc_page`. -/
def allocPage (s : Vmm) : Vmm × Option Addr :=
  match s.pages with
  | [] => (s, none)
  | page :: rest => ({ s with pages := rest }, some page)

/-- `alloc_table` (`vmm.c:38-45`). -/
def allocTable (s : Vmm) : Vmm × Option Addr :=
  match s.allocPage with
  | (s, none) => (s, none)
  | (s, some page) =>
    ({ s with table := Function.update s.table page fun _ => 0
              tables := page :: s.tables }, some page)

/-- The bits that intermediate entries get: `inter` (`vmm.c:58-59`). -/
def inter (flags : Pte) : Pte :=
  if hasFlag flags pteUser then ptePresent ||| pteWritable ||| pteUser
  else ptePresent ||| pteWritable

/-- One level of `walk` and `walk_in` (`vmm.c:62-71`, `73-82`, `88-96` and `253-285`): the table
that `table[idx]` leads to. -/
def descend (s : Vmm) (table : Addr) (idx : Index) (create : Bool) (inter : Pte) :
    Vmm × Option Addr :=
  if !hasFlag (s.table table idx) ptePresent then
    if !create then (s, none) else
    match s.allocTable with
    | (s, none) => (s, none)
    | (s, some next) =>
      let s := s.store table idx (next ||| inter)
      (s, some (s.table table idx &&& pteAddrMask))
  else if create then
    let s := s.store table idx (s.table table idx ||| inter)
    (s, some (s.table table idx &&& pteAddrMask))
  else
    (s, some (s.table table idx &&& pteAddrMask))

/-- `walk` (`vmm.c:52-100`): the slot of the entry for `virt` in its PT. -/
def walk (s : Vmm) (virt : Addr) (create : Bool) (flags : Pte) : Vmm × Option (Addr × Index) :=
  match s.descend s.pml4 (pml4Index virt) create (inter flags) with
  | (s, none) => (s, none)
  | (s, some pdpt) =>
    match s.descend pdpt (pdptIndex virt) create (inter flags) with
    | (s, none) => (s, none)
    | (s, some pd) =>
      -- 2 MiB page: there is no PT below
      if hasFlag (s.table pd (pdIndex virt)) pteHuge then (s, none) else
      match s.descend pd (pdIndex virt) create (inter flags) with
      | (s, none) => (s, none)
      | (s, some pt) => (s, some (pt, ptIndex virt))

/-- `walk_in` (`vmm.c:245-289`). -/
def walkIn (s : Vmm) (root virt : Addr) (create : Bool) (flags : Pte) :
    Vmm × Option (Addr × Index) :=
  match s.descend root (pml4Index virt) create (inter flags) with
  | (s, none) => (s, none)
  | (s, some pdpt) =>
    match s.descend pdpt (pdptIndex virt) create (inter flags) with
    | (s, none) => (s, none)
    | (s, some pd) =>
      if hasFlag (s.table pd (pdIndex virt)) pteHuge then (s, none) else
      match s.descend pd (pdIndex virt) create (inter flags) with
      | (s, none) => (s, none)
      | (s, some pt) => (s, some (pt, ptIndex virt))

/-- The leaf entry for a page: `(phys & PTE_ADDR_MASK) | flags | PTE_PRESENT`. -/
def leafEntry (phys flags : BitVec 64) : Pte := (phys &&& pteAddrMask) ||| flags ||| ptePresent

/-- `vmm_map_page` (`vmm.c:137-145`). -/
def mapPage (s : Vmm) (virt phys flags : BitVec 64) : Vmm :=
  match s.walk virt true flags with
  | (s, none) => s
  | (s, some (pt, idx)) => s.store pt idx (leafEntry phys flags)

/-- `vmm_unmap_page` (`vmm.c:147-155`). -/
def unmapPage (s : Vmm) (virt : Addr) : Vmm :=
  match s.walk virt false 0 with
  | (s, none) => s
  | (s, some (pt, idx)) => s.store pt idx 0

/-- `vmm_map_page_in` (`vmm.c:291-297`). -/
def mapPageIn (s : Vmm) (root virt phys flags : BitVec 64) : Vmm :=
  match s.walkIn root virt true flags with
  | (s, none) => s
  | (s, some (pt, idx)) => s.store pt idx (leafEntry phys flags)

/-- "Ensure the entry exists" (`vmm.c:171-186`). -/
def ensureTable (s : Vmm) (table : Addr) (idx : Index) (flags : Pte) : Vmm × Option Addr :=
  if !hasFlag (s.table table idx) ptePresent then
    match s.allocTable with
    | (s, none) => (s, none)
    | (s, some next) =>
      let s := s.store table idx (next ||| flags)
      (s, some (s.table table idx &&& pteAddrMask))
  else
    (s, some (s.table table idx &&& pteAddrMask))

/-- The entry of a 2 MiB device page. -/
def mmioEntry (addr : Addr) : Pte :=
  addr ||| ptePresent ||| pteWritable ||| pteHuge ||| pteNocache ||| pteWritethrough

/-- The loop of `vmm_map_mmio` (`vmm.c:166-194`) with `count` passes to go. -/
def mapMmioLoop : Nat → Vmm → Addr → Vmm
  | 0, s, _ => s
  | count + 1, s, addr =>
    match s.ensureTable s.pml4 (pml4Index addr) (ptePresent ||| pteWritable) with
    | (s, none) => s
    | (s, some pdpt) =>
      match s.ensureTable pdpt (pdptIndex addr) (ptePresent ||| pteWritable) with
      | (s, none) => s
      | (s, some pd) =>
        mapMmioLoop count (s.store pd (pdIndex addr) (mmioEntry addr)) (addr + 0x200000)

/-- `start` (`vmm.c:161`). -/
def mmioStart (phys : Addr) : Addr := phys &&& ~~~(0x200000 - 1)

/-- `end` (`vmm.c:162`). -/
def mmioEnd (phys size : BitVec 64) : Addr := (phys + size + 0x200000 - 1) &&& ~~~(0x200000 - 1)

/-- `vmm_map_mmio` (`vmm.c:157-195`). The bounds are multiples of 2 MiB, so `addr` never steps
over `end`. -/
def mapMmio (s : Vmm) (phys size : BitVec 64) : Vmm :=
  mapMmioLoop (((mmioEnd phys size).toNat - (mmioStart phys).toNat) / 0x200000) s (mmioStart phys)

/-- `vmm_mark_huge_user` (`vmm.c:197-211`). -/
def markHugeUser (s : Vmm) (virt : Addr) : Vmm :=
  let pdpt := s.table s.pml4 (pml4Index virt) &&& pteAddrMask
  let pd := s.table pdpt (pdptIndex virt) &&& pteAddrMask
  if hasFlag (s.table pd (pdIndex virt)) pteHuge then
    s.store pd (pdIndex virt) (s.table pd (pdIndex virt) ||| pteUser)
  else s

/-- `vmm_create_address_space` (`vmm.c:219-237`): entry 0 and the upper half are those of the
kernel's PML4. -/
def createAddressSpace (s : Vmm) : Vmm × Option Addr :=
  match s.allocTable with
  | (s, none) => (s, none)
  | (s, some root) =>
    let entries : Index → Pte := fun idx =>
      if idx = 0 ∨ 256 ≤ idx.toNat then s.table s.pml4 idx else 0
    ({ s with table := Function.update s.table root entries, roots := root :: s.roots }, some root)

end Vmm

/-- The tables in the kernel's BSS (`vmm.c:30-32`): six different pages. -/
structure StaticTables where
  initPml4 : Addr
  initPdpt : Addr
  initPd : Fin 4 → Addr
  aligned : ∀ t ∈ [initPml4, initPdpt, initPd 0, initPd 1, initPd 2, initPd 3],
    t &&& pteAddrMask = t
  distinct : [initPml4, initPdpt, initPd 0, initPd 1, initPd 2, initPd 3].Nodup

namespace StaticTables

def all (m : StaticTables) : List Addr :=
  [m.initPml4, m.initPdpt, m.initPd 0, m.initPd 1, m.initPd 2, m.initPd 3]

end StaticTables

def tablesAtOneMegabyte : StaticTables where
  initPml4 := 0x101000#64
  initPdpt := 0x102000#64
  initPd
    | 0 => 0x103000#64
    | 1 => 0x104000#64
    | 2 => 0x105000#64
    | 3 => 0x106000#64
  aligned := by
    simp only [List.mem_cons, List.not_mem_nil, or_false, forall_eq_or_imp, forall_eq]
    decide
  distinct := by decide

/-- `phys` of `vmm_init` (`vmm.c:127-128`). -/
def identityPhys (i : Fin 4) (j : Index) : Addr :=
  BitVec.ofNat 64 (i * (512 * 0x200000) + j.toNat * 0x200000)

/-- `vmm_init` (`vmm.c:104-135`); `memory` is what the other pages hold. -/
def vmmInit (m : StaticTables) (memory : Addr → Index → Pte) : Vmm where
  table t idx :=
    if t = m.initPml4 then
      if idx = 0 then m.initPdpt ||| ptePresent ||| pteWritable else 0
    else if t = m.initPdpt then
      if h : idx.toNat < 4 then m.initPd ⟨idx.toNat, h⟩ ||| ptePresent ||| pteWritable else 0
    else
      match (List.finRange 4).find? fun i => m.initPd i = t with
      | some i => identityPhys i idx ||| ptePresent ||| pteWritable ||| pteHuge
      | none => memory t idx
  pml4 := m.initPml4
  pages := []
  tables := m.all
  roots := []

/-- Where an entry above the lowest level leads. -/
def nextTable (entry : Pte) : Option Addr :=
  if hasFlag entry ptePresent && !hasFlag entry pteHuge then some (entry &&& pteAddrMask) else none

/-- The indices of an address, from the PML4 down. -/
def indices (virt : Addr) : List Index :=
  [pml4Index virt, pdptIndex virt, pdIndex virt, ptIndex virt]

/-- What the processor makes of an address: the physical address, the leaf entry's bits outside
the address, and the permissions, which every level has to grant. -/
structure Translation where
  phys : Addr
  flags : Pte
  user : Bool
  writable : Bool
  noExecute : Bool
  deriving DecidableEq, Repr

/-- The number of address bits below a leaf, by the number of entries read. -/
def offsetBits : Nat → Nat
  | 4 => 12
  | 3 => 21
  | _ => 30

/-- The page at `base` with the offset of `virt`. -/
def physIn (bits : Nat) (base virt : Addr) : Addr :=
  base >>> bits <<< bits ||| (virt.setWidth bits).setWidth 64

/-- The translation that the entries of a page walk give. A PML4 entry is never a leaf. -/
def translation (entries : List Pte) (virt : Addr) : Option Translation :=
  match entries.getLast? with
  | none => none
  | some leaf =>
    if hasFlag leaf ptePresent && 2 ≤ entries.length then
      some { phys := physIn (offsetBits entries.length) (leaf &&& pteAddrMask) virt
             flags := leaf &&& ~~~pteAddrMask
             user := entries.all (hasFlag · pteUser)
             writable := entries.all (hasFlag · pteWritable)
             noExecute := entries.any (hasFlag · pteNx) }
    else none

namespace Vmm

/-- The slots the processor reads for `virt` with `root` in CR3. -/
def slots (s : Vmm) (root virt : Addr) : List (Addr × Index) :=
  trail nextTable s.table root (indices virt)

/-- The entries the processor reads. -/
def entries (s : Vmm) (root virt : Addr) : List Pte :=
  trailEntries nextTable s.table root (indices virt)

/-- The page walk for `virt` with `root` in CR3. -/
def translate (s : Vmm) (root virt : Addr) : Option Translation :=
  translation (s.entries root virt) virt

end Vmm

/-- Calls of the VMM, and a change of what the PMM will return (other code takes and frees
pages between the calls). -/
inductive VmmEvent where
  | supply (pages : List Addr)
  | mapPage (virt phys flags : BitVec 64)
  | unmapPage (virt : Addr)
  | mapPageIn (root virt phys flags : BitVec 64)
  | mapMmio (phys size : BitVec 64)
  | markHugeUser (virt : Addr)
  | createAddressSpace
  deriving DecidableEq

/-- The state after a call. -/
def Vmm.next (s : Vmm) : VmmEvent → Vmm
  | .supply pages => { s with pages := pages }
  | .mapPage virt phys flags => s.mapPage virt phys flags
  | .unmapPage virt => s.unmapPage virt
  | .mapPageIn root virt phys flags => s.mapPageIn root virt phys flags
  | .mapMmio phys size => s.mapMmio phys size
  | .markHugeUser virt => s.markHugeUser virt
  | .createAddressSpace => s.createAddressSpace.1

/-- Pages the PMM may return: whole pages, none of them in use as a page table. -/
def Fresh (s : Vmm) (pages : List Addr) : Prop :=
  pages.Nodup ∧ ∀ page ∈ pages, page ≠ 0 ∧ page &&& pteAddrMask = page ∧ page ∉ s.tables

instance (s : Vmm) (pages : List Addr) : Decidable (Fresh s pages) :=
  haveI := List.decidableBAll
    (fun page => page ≠ 0 ∧ page &&& pteAddrMask = page ∧ page ∉ s.tables) pages
  inferInstanceAs (Decidable (_ ∧ _))

/-- When a call may be made: `vmm_map_page_in` gets a root, `vmm_mark_huge_user` an address that
has a PD. -/
def Vmm.Allowed (s : Vmm) : VmmEvent → Prop
  | .supply pages => Fresh s pages
  | .mapPageIn root _ _ _ => root ∈ s.pml4 :: s.roots
  | .markHugeUser virt =>
    hasFlag (s.table s.pml4 (pml4Index virt)) ptePresent ∧
    hasFlag (s.table (s.table s.pml4 (pml4Index virt) &&& pteAddrMask) (pdptIndex virt)) ptePresent
  | _ => True

instance (s : Vmm) (e : VmmEvent) : Decidable (s.Allowed e) :=
  match e with
  | .supply _ => inferInstanceAs (Decidable (Fresh _ _))
  | .mapPageIn _ _ _ _ => inferInstanceAs (Decidable (_ ∈ _))
  | .markHugeUser _ => inferInstanceAs (Decidable (_ ∧ _))
  | .mapPage _ _ _ | .unmapPage _ | .mapMmio _ _ | .createAddressSpace => .isTrue trivial

/-- One call. -/
def VmmStep (s : Vmm) (e : VmmEvent) (t : Vmm) : Prop := s.Allowed e ∧ t = s.next e

/-- The state `vmm_init` leaves. -/
def VmmBooted (s : Vmm) : Prop := ∃ m memory, s = vmmInit m memory

end MicroOs.Mm
