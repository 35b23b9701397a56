import MicroOs.Mm.Proofs.VmmUser

/-!
# Devices in new address spaces

`vmm_create_address_space` copies entry 0 and the upper half of the kernel's PML4. Device ranges
below 512 GiB are reached through entry 0 and so are shared by every root. A range above that gets
an entry of its own in the lower half, which no new root has.
-/

namespace MicroOs.Mm
open Lib Relation

variable {s s' : Vmm} {e : VmmEvent} {x y : Place × Vmm} {m : StaticTables}
  {memory : Addr → Index → Pte}

def BelowEntryOne : VmmEvent → Prop
  | .mapMmio phys size => phys.toNat + size.toNat ≤ 2 ^ 39
  | .mapPage virt _ _ => virt.toNat < 2 ^ 39
  | .mapPageIn _ virt _ _ => virt.toNat < 2 ^ 39
  | _ => True

def OneEntry (s : Vmm) : Prop := ∀ idx : Index, idx ≠ 0 → s.table s.pml4 idx = 0

lemma widens_low {virt : Addr} {user : Bool} (he : e.Widens virt user) (low : BelowEntryOne e) :
    virt.toNat < 2 ^ 39 := by
  cases e with
  | mapPage v phys flags =>
    obtain ⟨rfl, -⟩ := he
    exact low
  | mapPageIn root v phys flags =>
    obtain ⟨rfl, -⟩ := he
    exact low
  | mapMmio phys size =>
    obtain ⟨-, -, below⟩ := he
    have bound : phys.toNat + size.toNat ≤ 2 ^ 39 := low
    have stop := mmioEnd_toNat (Nat.le_trans bound (by decide))
    rw [BitVec.lt_def] at below
    omega
  | _ => exact absurd he id

lemma Edit.oneEntry (h : Edit e x y) (low : BelowEntryOne e) (tree : Tree x.1 x.2)
    (one : OneEntry x.2) : OneEntry y.2 := by
  have deeper : ∀ {P : Place} {s : Vmm} {t : Addr} {i : Index} {entry : Pte}, Tree P s →
      (P.home t).length ≠ 0 → OneEntry s → OneEntry (s.store t i entry) := by
    intro P s t i entry tree deep one idx other
    rw [store_pml4, store_table_of_home (P := P) (by rw [tree.pml4_home]; exact deep)]
    exact one idx other
  cases h with
  | grow he h =>
    intro idx other
    have index := pml4Index_low (widens_low he low)
    rw [(h.stable tree).pml4,
      h.table_off tree tree.pml4_mem (tree.off_of_root List.mem_cons_self (index ▸ other))]
    exact one idx other
  | leaf mem level => exact deeper tree (by rw [level]; decide) one
  | device he above below aligned mem place => exact deeper tree (by simp [place]) one
  | mark he mem place huge => exact deeper tree (by simp [place]) one
  | @root P s page rest he answer =>
    have tree : Tree P s := tree
    intro idx other
    have kept := newRoot_table tree answer tree.pml4_mem
    have same := ((Edit.root (P := P) he answer).stable tree).pml4
    rw [same]
    exact (congrFun kept idx).trans (one idx other)
  | supply fresh => exact one

lemma run_oneEntry {trace : List (StepOf Vmm VmmEvent)}
    (run : Run VmmStep (vmmInit m memory) trace s) (low : ∀ st ∈ trace, BelowEntryOne st.event) :
    OneEntry s := by
  apply run_of_edits _ (fun h low tree one => h.oneEntry low tree one) run low
  intro idx other
  show (vmmInit m memory).table m.initPml4 idx = 0
  rw [vmmInit_pml4, if_neg other]

lemma OneEntry.cloned (one : OneEntry s) : s.clonedEntries = s.table s.pml4 := by
  funext idx
  unfold Vmm.clonedEntries
  split
  · rfl
  · rename_i middle
    exact (one idx fun first => middle (.inl first)).symm

/-- In every run that maps devices below 512 GiB only, a new root translates every address as the
kernel's root does. -/
theorem new_root_reaches_devices {trace : List (StepOf Vmm VmmEvent)}
    (run : Run VmmStep (vmmInit m memory) trace s) (low : ∀ st ∈ trace, BelowEntryOne st.event)
    {root : Addr} (created : s.createAddressSpace = (s', some root)) (v : Addr) :
    s'.translate root v = s'.translate s'.pml4 v := by
  obtain ⟨P, tree, -⟩ := run_tree run
  cases answer : s.pages with
  | nil =>
    rw [createAddressSpace_none answer] at created
    cases created
  | cons page rest =>
    have new := tree.ne_of_pages answer tree.pml4_mem
    rw [tree.createAddressSpace_eq answer] at created
    obtain ⟨rfl, taken⟩ := Prod.mk.inj created
    obtain rfl : page = root := Option.some.inj taken
    have same : (s.fill page rest s.clonedEntries).table page =
        (s.fill page rest s.clonedEntries).table s.pml4 := by
      simp only [Vmm.fill, Function.update_self, Function.update_of_ne new]
      exact (run_oneEntry run low).cloned
    unfold Vmm.translate Vmm.entries
    exact congrArg (translation · v) (trailEntries_of_same_table same)

/-- The state after a device has been mapped at `phys` and an address space has been made. -/
def withDevice (phys : BitVec 64) : Vmm × Option Addr :=
  ((bootedVmm.next (.supply [0x200000, 0x201000, 0x202000])).next
    (.mapMmio phys 0x10000)).createAddressSpace

theorem new_root_reaches_devices_four_gigabytes :
    (withDevice 0x100000000).2 = some 0x201000 ∧
      ((withDevice 0x100000000).1.translate (withDevice 0x100000000).1.pml4 0x100000000).isSome ∧
      (withDevice 0x100000000).1.translate 0x201000 0x100000000 =
        (withDevice 0x100000000).1.translate (withDevice 0x100000000).1.pml4 0x100000000 := by
  have supplied : VmmStep bootedVmm (.supply [0x200000, 0x201000, 0x202000])
      (bootedVmm.next (.supply [0x200000, 0x201000, 0x202000])) := ⟨by decide +kernel, rfl⟩
  have mapped : VmmStep (bootedVmm.next (.supply [0x200000, 0x201000, 0x202000]))
      (.mapMmio 0x100000000 0x10000) ((bootedVmm.next (.supply [0x200000, 0x201000, 0x202000])).next
        (.mapMmio 0x100000000 0x10000)) := ⟨trivial, rfl⟩
  have root : (withDevice 0x100000000).2 = some 0x201000 := by decide +kernel
  refine ⟨root, by decide +kernel, ?_⟩
  refine new_root_reaches_devices ((Run.nil.snoc supplied).snoc mapped) ?_
    (Prod.ext rfl root) 0x100000000
  intro st hst
  simp only [List.nil_append, List.cons_append, List.mem_cons, List.not_mem_nil, or_false] at hst
  rcases hst with rfl | rfl
  · trivial
  · show (0x100000000 : Addr).toNat + (0x10000 : Addr).toNat ≤ 2 ^ 39
    decide

/-- A controller with its registers at 512 GiB is not reached from the new root. -/
theorem device_missing_in_new_root :
    (0x8000000000 : Addr).toNat + (0x10000 : Addr).toNat ≤ 2 ^ 47 ∧
      (withDevice 0x8000000000).2 = some 0x202000 ∧
      ((withDevice 0x8000000000).1.translate (withDevice 0x8000000000).1.pml4
        0x8000000000).map Translation.phys = some 0x8000000000 ∧
      (withDevice 0x8000000000).1.translate 0x202000 0x8000000000 = none := by
  refine ⟨by decide, by decide +kernel, by decide +kernel, by decide +kernel⟩

end MicroOs.Mm
