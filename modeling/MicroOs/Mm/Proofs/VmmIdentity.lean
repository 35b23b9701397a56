import MicroOs.Mm.Proofs.VmmEdits

/-!
# The identity map

`vmm_init` maps the first 4 GiB to themselves with 2 MiB pages, and every root shares that map
through entry 0. The kernel reaches all page tables through it. Walks never replace or split its
pages; `vmm_map_mmio` and `vmm_mark_huge_user` only change their flags.
-/

namespace MicroOs.Mm
open Lib Relation List

variable {a b root t v : Addr} {entry : Pte} {i : Index} {j : Fin 4} {marked : Addr → Prop}
  {phys size : BitVec 64} {trace : List (StepOf Vmm VmmEvent)}
variable {P : Place} {s s' : Vmm} {e : VmmEvent} {x y : Place × Vmm} {m : StaticTables}
  {memory : Addr → Index → Pte}

lemma Edit.stable (h : Edit e x y) (tree : Tree x.1 x.2) : Stable x y := by
  cases h with
  | grow _ h => exact h.stable tree
  | @root P s page rest he answer =>
    have tree : Tree P s := tree
    apply stable_fill tree answer
    · rw [tree.createAddressSpace_eq answer]
      rfl
    · rw [tree.createAddressSpace_eq answer]
      rfl
  | leaf | device | mark | supply => exact ⟨rfl, fun _ h => h, fun _ _ => rfl, fun _ _ => rfl⟩

lemma store_table_of_home {j : Index} (h : (P.home t).length ≠ (P.home b).length) :
    (s.store t i entry).table b j = s.table b j := by
  apply store_table_of_ne
  intro eq
  obtain rfl : b = t := congrArg Prod.fst eq
  exact h rfl

lemma newRoot_table (tree : Tree P s) {page : Addr} {rest : List Addr}
    (answer : s.pages = page :: rest) (ht : t ∈ s.tables) :
    s.createAddressSpace.1.table t = s.table t := by
  rw [tree.createAddressSpace_eq answer]
  simp [Vmm.fill, tree.ne_of_pages answer ht]

lemma Edit.upper_entry (h : Edit e x y) (tree : Tree x.1 x.2) (ht : t ∈ x.2.tables)
    (deep : (x.1.home t).length < 2) (present : hasFlag (x.2.table t i) ptePresent = true) :
    nextTable (y.2.table t i) = nextTable (x.2.table t i) := by
  cases h with
  | grow _ h => exact (h.entry tree ht present).1
  | @leaf P s b j entry mem low =>
    exact congrArg nextTable (store_table_of_home (P := P) (by simp only at deep; omega))
  | @device P s b phys size addr he above below aligned mem place =>
    exact congrArg nextTable (store_table_of_home (P := P) (by simp only at deep; simp [place]; omega))
  | @mark P s b virt he mem place huge =>
    exact congrArg nextTable (store_table_of_home (P := P) (by simp only at deep; simp [place]; omega))
  | root he answer => exact congrArg (fun f => nextTable (f i)) (newRoot_table tree answer ht)
  | supply => rfl

lemma Edit.huge_entry (h : Edit e x y) (tree : Tree x.1 x.2) (ht : t ∈ x.2.tables)
    (level : (x.1.home t).length = 2) (present : hasFlag (x.2.table t i) ptePresent = true)
    (huge : hasFlag (x.2.table t i) pteHuge = true) :
    y.2.table t i = x.2.table t i ∨
    (∃ phys size addr, e = .mapMmio phys size ∧ addr < Vmm.mmioEnd phys size ∧
      addr &&& 0x1FFFFF = 0 ∧ x.1.home t = [pml4Index addr, pdptIndex addr] ∧ i = pdIndex addr ∧
      y.2.table t i = Vmm.mmioEntry addr) ∨
    ∃ virt, e = .markHugeUser virt ∧ x.1.home t = [pml4Index virt, pdptIndex virt] ∧
      i = pdIndex virt ∧ y.2.table t i = x.2.table t i ||| pteUser := by
  cases h with
  | grow _ h => exact .inl (h.table_huge tree ht present huge)
  | @leaf P s b j entry mem low =>
    exact .inl (store_table_of_home (P := P) (by simp only at level; omega))
  | @device P s b phys size addr he above below aligned mem place =>
    by_cases eq : (t, i) = (b, pdIndex addr)
    · obtain ⟨rfl, rfl⟩ := Prod.mk.injEq .. ▸ eq
      exact .inr (.inl ⟨phys, size, addr, he, below, aligned, place, rfl, store_table_self ..⟩)
    · exact .inl (store_table_of_ne _ eq)
  | @mark P s b virt he mem place isHuge =>
    by_cases eq : (t, i) = (b, pdIndex virt)
    · obtain ⟨rfl, rfl⟩ := Prod.mk.injEq .. ▸ eq
      exact .inr (.inr ⟨virt, he, place, rfl, store_table_self ..⟩)
    · exact .inl (store_table_of_ne _ eq)
  | root he answer => exact .inl (congrFun (newRoot_table tree answer ht) i)
  | supply => exact .inl rfl

/-- The index of a PD of the identity map in the PDPT. -/
def lowIndex (i : Fin 4) : Index := BitVec.ofNat 9 i

/-- Every root leads to the same four PDs, which hold 2 MiB pages only. -/
structure IdentityMap (m : StaticTables) (P : Place) (s : Vmm) : Prop where
  pdpt : m.initPdpt ∈ s.tables ∧ P.home m.initPdpt = [0]
  pd : ∀ i, m.initPd i ∈ s.tables ∧ P.home (m.initPd i) = [0, lowIndex i]
  top : ∀ r ∈ s.pml4 :: s.roots, nextTable (s.table r 0) = some m.initPdpt
  middle : ∀ i, nextTable (s.table m.initPdpt (lowIndex i)) = some (m.initPd i)
  present : ∀ i j, hasFlag (s.table (m.initPd i) j) ptePresent = true
  huge : ∀ i j, hasFlag (s.table (m.initPd i) j) pteHuge = true

lemma Edit.roots_cases (h : Edit e x y) (tree : Tree x.1 x.2) :
    y.2.roots = x.2.roots ∨ ∃ page, y.2.roots = page :: x.2.roots ∧
      ∀ i, i = 0 ∨ 256 ≤ i.toNat → y.2.table page i = x.2.table x.2.pml4 i := by
  cases h with
  | grow _ h => exact .inl h.roots
  | @root P s page rest he answer =>
    have tree : Tree P s := tree
    right
    refine ⟨page, ?_, fun i hi => ?_⟩
    · show s.createAddressSpace.1.roots = page :: s.roots
      rw [tree.createAddressSpace_eq answer]
    · show s.createAddressSpace.1.table page i = s.table s.pml4 i
      rw [tree.createAddressSpace_eq answer]
      simp only [Vmm.fill, Function.update_self]
      exact if_pos hi
  | leaf | device | mark | supply => exact .inl rfl

lemma Edit.identityMap (h : Edit e x y) (tree : Tree x.1 x.2) (map : IdentityMap m x.1 x.2) :
    IdentityMap m y.1 y.2 := by
  have stable := h.stable tree
  have huge : ∀ i j, hasFlag (y.2.table (m.initPd i) j) ptePresent = true ∧
      hasFlag (y.2.table (m.initPd i) j) pteHuge = true := by
    intro i j
    obtain ⟨mem, home⟩ := map.pd i
    rcases h.huge_entry tree mem (by simp [home]) (map.present i j) (map.huge i j) with
      same | ⟨phys, size, addr, -, -, -, -, -, device⟩ | ⟨virt, -, -, -, marked⟩
    · rw [same]
      exact ⟨map.present i j, map.huge i j⟩
    · rw [device]
      exact ⟨mmioEntry_has (by decide), mmioEntry_has (by decide)⟩
    · rw [marked, hasFlag_or, hasFlag_or, map.present i j, map.huge i j]
      exact ⟨rfl, rfl⟩
  have oldTop : ∀ r ∈ x.2.pml4 :: x.2.roots, nextTable (y.2.table r 0) = some m.initPdpt := by
    intro r hr
    obtain ⟨mem, home, -⟩ := tree.root r hr
    have leads := map.top r hr
    rw [h.upper_entry tree mem (by simp [home]) (nextTable_eq_some leads).1, leads]
  constructor
  case pdpt => exact ⟨stable.tables _ map.pdpt.1, (stable.home _ map.pdpt.1).trans map.pdpt.2⟩
  case pd => exact fun i => ⟨stable.tables _ (map.pd i).1, (stable.home _ (map.pd i).1).trans (map.pd i).2⟩
  case top =>
    intro r hr
    rw [stable.pml4] at hr
    rcases h.roots_cases tree with roots | ⟨page, roots, cloned⟩
    · rw [roots] at hr
      exact oldTop r hr
    · by_cases hpage : r = page
      · rw [hpage, cloned 0 (.inl rfl)]
        exact map.top _ mem_cons_self
      · apply oldTop r
        rw [roots] at hr
        simp only [mem_cons] at hr ⊢
        tauto
  case middle =>
    intro i
    have leads := map.middle i
    rw [h.upper_entry tree map.pdpt.1 (by simp [map.pdpt.2]) (nextTable_eq_some leads).1, leads]
  case present => exact fun i j => (huge i j).1
  case huge => exact fun i j => (huge i j).2

lemma Edits.identityMap (h : Edits e x y) (tree : Tree x.1 x.2) (map : IdentityMap m x.1 x.2) :
    IdentityMap m y.1 y.2 := by
  induction h with
  | refl => exact map
  | tail before h ih => exact h.identityMap (Edits.tree before tree) ih

def initPlace (m : StaticTables) : Place where
  home t :=
    if t = m.initPml4 then []
    else if t = m.initPdpt then [0]
    else match (finRange 4).find? fun i => m.initPd i = t with
      | some i => [0, lowIndex i]
      | none => []
  owner _ := m.initPml4

section Start

section
variable (m)

lemma StaticTables.pdpt_ne : m.initPdpt ≠ m.initPml4 := by
  have h := m.distinct
  simp only [nodup_cons, mem_cons, not_or] at h
  exact fun eq => h.1.1 eq.symm

lemma StaticTables.pd_ne (i : Fin 4) : m.initPd i ≠ m.initPml4 ∧ m.initPd i ≠ m.initPdpt := by
  have h := m.distinct
  simp only [nodup_cons, mem_cons, not_or] at h
  obtain ⟨⟨-, a0, a1, a2, a3, -⟩, ⟨b0, b1, b2, b3, -⟩, -⟩ := h
  fin_cases i
  · exact ⟨Ne.symm a0, Ne.symm b0⟩
  · exact ⟨Ne.symm a1, Ne.symm b1⟩
  · exact ⟨Ne.symm a2, Ne.symm b2⟩
  · exact ⟨Ne.symm a3, Ne.symm b3⟩

lemma StaticTables.pd_injective {i : Fin 4} (h : m.initPd i = m.initPd j) : i = j := by
  have d := m.distinct
  simp only [nodup_cons, mem_cons, not_or] at d
  obtain ⟨-, -, ⟨a1, a2, a3, -⟩, ⟨b2, b3, -⟩, ⟨c3, -⟩, -⟩ := d
  fin_cases i <;> fin_cases j <;> first | rfl | exact absurd h ‹_› | exact absurd h.symm ‹_›

lemma StaticTables.find_pd (i : Fin 4) :
    (finRange 4).find? (fun j => m.initPd j = m.initPd i) = some i := by
  rw [find?_eq_some_iff_getElem]
  refine ⟨by simp, i, by simp, by simp, fun j hj => ?_⟩
  simp only [getElem_finRange, Bool.not_eq_true', decide_eq_false_iff_not]
  intro h
  have same := m.pd_injective h
  have : j = i.val := by simpa using congrArg Fin.val same
  omega

lemma StaticTables.mem_all (h : t ∈ m.all) :
    t = m.initPml4 ∨ t = m.initPdpt ∨ ∃ i, t = m.initPd i := by
  simp only [StaticTables.all, mem_cons, not_mem_nil, or_false] at h
  rcases h with h | h | h | h | h | h
  · exact .inl h
  · exact .inr (.inl h)
  · exact .inr (.inr ⟨0, h⟩)
  · exact .inr (.inr ⟨1, h⟩)
  · exact .inr (.inr ⟨2, h⟩)
  · exact .inr (.inr ⟨3, h⟩)

lemma StaticTables.pd_mem (i : Fin 4) : m.initPd i ∈ m.all := by
  fin_cases i <;> simp [StaticTables.all]

end

@[simp] lemma initPlace_pml4 : (initPlace m).home m.initPml4 = [] := by
  simp [initPlace]

@[simp] lemma initPlace_pdpt : (initPlace m).home m.initPdpt = [0] := by
  simp [initPlace, m.pdpt_ne]

@[simp] lemma initPlace_pd (i : Fin 4) : (initPlace m).home (m.initPd i) = [0, lowIndex i] := by
  simp only [initPlace, (m.pd_ne i).1, (m.pd_ne i).2, ↓reduceIte, m.find_pd]

lemma vmmInit_pml4 (idx : Index) : (vmmInit m memory).table m.initPml4 idx =
    if idx = 0 then m.initPdpt ||| ptePresent ||| pteWritable else 0 := by
  simp [vmmInit]

lemma vmmInit_pdpt (idx : Index) : (vmmInit m memory).table m.initPdpt idx =
    if h : idx.toNat < 4 then m.initPd ⟨idx.toNat, h⟩ ||| ptePresent ||| pteWritable else 0 := by
  simp [vmmInit, m.pdpt_ne]

lemma vmmInit_pd (i : Fin 4) (idx : Index) : (vmmInit m memory).table (m.initPd i) idx =
    identityPhys i idx ||| ptePresent ||| pteWritable ||| pteHuge := by
  simp only [vmmInit, (m.pd_ne i).1, (m.pd_ne i).2, ↓reduceIte, m.find_pd]

lemma StaticTables.pdpt_mem (m : StaticTables) : m.initPdpt ∈ m.all := by
  simp [StaticTables.all]

lemma nextTable_static (ht : t ∈ m.all) :
    nextTable (t ||| ptePresent ||| pteWritable) = some t := by
  rw [BitVec.or_assoc]
  exact nextTable_link interBits_kernel (m.aligned t ht)

lemma lowIndex_toNat (i : Fin 4) : (lowIndex i).toNat = i := by
  fin_cases i <;> rfl

lemma lowIndex_injective {i : Fin 4} (h : lowIndex i = lowIndex j) : i = j := by
  have same := congrArg BitVec.toNat h
  rw [lowIndex_toNat, lowIndex_toNat] at same
  exact Fin.ext same

lemma lowIndex_mk {idx : Index} (h : idx.toNat < 4) : lowIndex ⟨idx.toNat, h⟩ = idx := by
  apply BitVec.eq_of_toNat_eq
  rw [lowIndex_toNat]

lemma huge_init (i : Fin 4) (idx : Index) :
    hasFlag ((vmmInit m memory).table (m.initPd i) idx) pteHuge = true := by
  rw [vmmInit_pd, hasFlag_or, show hasFlag pteHuge pteHuge = true by decide, Bool.or_true]

lemma writable_init (i : Fin 4) (idx : Index) :
    hasFlag ((vmmInit m memory).table (m.initPd i) idx) pteWritable = true := by
  rw [vmmInit_pd, hasFlag_or, hasFlag_or, show hasFlag pteWritable pteWritable = true by decide,
    Bool.or_true, Bool.true_or]

lemma present_init (i : Fin 4) (idx : Index) :
    hasFlag ((vmmInit m memory).table (m.initPd i) idx) ptePresent = true := by
  rw [vmmInit_pd, hasFlag_or, hasFlag_or, hasFlag_or,
    show hasFlag ptePresent ptePresent = true by decide, Bool.or_true, Bool.true_or, Bool.true_or]

lemma vmmInit_identityMap : IdentityMap m (initPlace m) (vmmInit m memory) where
  pdpt := ⟨m.pdpt_mem, initPlace_pdpt⟩
  pd i := ⟨m.pd_mem i, initPlace_pd i⟩
  top := by
    intro r hr
    obtain rfl : r = m.initPml4 := by simpa [vmmInit] using hr
    rw [vmmInit_pml4, if_pos rfl]
    exact nextTable_static m.pdpt_mem
  middle i := by
    have h : (lowIndex i).toNat < 4 := by
      rw [lowIndex_toNat]
      exact i.isLt
    rw [vmmInit_pdpt, dif_pos h, nextTable_static (m.pd_mem _)]
    congr 2
    exact Fin.ext (lowIndex_toNat i)
  present := present_init
  huge := huge_init

lemma entryOk_static (hb : b ∈ m.all)
    (home : (initPlace m).home b = (initPlace m).home t ++ [i]) :
    EntryOk (initPlace m) m.all t i (b ||| ptePresent ||| pteWritable) := by
  obtain ⟨present, small, -⟩ := nextTable_eq_some (nextTable_static hb)
  refine ⟨fun _ c h => ?_, fun _ _ => small, fun _ _ => ?_, fun _ _ => present⟩
  · rw [nextTable_static hb, Option.some.injEq] at h
    subst h
    exact ⟨hb, home, fun _ => rfl⟩
  · rw [hasFlag_or _ pteWritable, show hasFlag pteWritable pteWritable = true by decide, Bool.or_true]

lemma vmmInit_tree : Tree (initPlace m) (vmmInit m memory) := by
  constructor
  case fresh => exact ⟨nodup_nil, by simp [vmmInit]⟩
  case root =>
    intro r hr
    obtain rfl : r = m.initPml4 := by simpa [vmmInit] using hr
    exact ⟨by simp [vmmInit, StaticTables.all], initPlace_pml4, rfl⟩
  case distinct => simp [vmmInit]
  case entry =>
    intro t ht i
    rcases m.mem_all ht with rfl | rfl | ⟨k, rfl⟩
    · rw [vmmInit_pml4]
      split
      · rename_i hi
        exact entryOk_static m.pdpt_mem (by rw [initPlace_pdpt, initPlace_pml4, hi]; rfl)
      · exact entryOk_zero
    · rw [vmmInit_pdpt]
      split
      · exact entryOk_static (m.pd_mem _) (by rw [initPlace_pd, initPlace_pdpt, lowIndex_mk]; rfl)
      · exact entryOk_zero
    · exact entryOk_huge (by simp) (huge_init k i) (present_init k i) (writable_init k i)

end Start

lemma run_tree (run : Run VmmStep (vmmInit m memory) trace s) :
    ∃ P, Tree P s ∧ IdentityMap m P s := by
  induction run with
  | nil => exact ⟨initPlace m, vmmInit_tree, vmmInit_identityMap⟩
  | snoc run step ih =>
    obtain ⟨P, tree, map⟩ := ih
    obtain ⟨allowed, rfl⟩ := step
    obtain ⟨P', edits⟩ := next_edits tree allowed
    exact ⟨P', edits.tree tree, edits.identityMap tree map⟩

lemma run_of_edits {Q : Vmm → Prop} {may : VmmEvent → Prop} (start : Q (vmmInit m memory))
    (keep : ∀ {e : VmmEvent} {x y : Place × Vmm}, Edit e x y → may e → Tree x.1 x.2 → Q x.2 → Q y.2)
    (run : Run VmmStep (vmmInit m memory) trace s) (events : ∀ st ∈ trace, may st.event) : Q s := by
  induction run with
  | nil => exact start
  | @snoc trace t u e run step ih =>
    obtain ⟨P, tree, -⟩ := run_tree run
    obtain ⟨allowed, rfl⟩ := step
    obtain ⟨P', edits⟩ := next_edits tree allowed
    have held := ih fun st hst => events st (mem_append_left _ hst)
    have event : may e := events ⟨t, e, t.next e⟩ (by simp)
    suffices h : ∀ {y}, Edits e (P, t) y → Q y.2 from h edits
    intro y h
    induction h with
    | refl => exact held
    | tail before h ih => exact keep h event (Edits.tree before tree) ih

lemma pml4Index_toNat (v : Addr) : (pml4Index v).toNat = v.toNat / 2 ^ 39 % 2 ^ 9 := by
  rw [pml4Index, BitVec.extractLsb'_toNat, Nat.shiftRight_eq_div_pow]

lemma pdptIndex_toNat (v : Addr) : (pdptIndex v).toNat = v.toNat / 2 ^ 30 % 2 ^ 9 := by
  rw [pdptIndex, BitVec.extractLsb'_toNat, Nat.shiftRight_eq_div_pow]

lemma pdIndex_toNat (v : Addr) : (pdIndex v).toNat = v.toNat / 2 ^ 21 % 2 ^ 9 := by
  rw [pdIndex, BitVec.extractLsb'_toNat, Nat.shiftRight_eq_div_pow]

lemma ptIndex_toNat (v : Addr) : (ptIndex v).toNat = v.toNat / 2 ^ 12 % 2 ^ 9 := by
  rw [ptIndex, BitVec.extractLsb'_toNat, Nat.shiftRight_eq_div_pow]

lemma identityPhys_toNat (i : Fin 4) (j : Index) :
    (identityPhys i j).toNat = i * 2 ^ 30 + j.toNat * 2 ^ 21 := by
  have hi := i.isLt
  have hj := j.isLt
  rw [identityPhys, BitVec.toNat_ofNat]
  exact Nat.mod_eq_of_lt (by omega)

lemma pteAddrMask_getLsbD : ∀ k < 64, pteAddrMask.getLsbD k = decide (12 ≤ k ∧ k < 52) := by
  decide

lemma and_pteAddrMask (aligned : a.toNat % 2 ^ 12 = 0) (bound : a.toNat < 2 ^ 52) :
    a &&& pteAddrMask = a := by
  apply BitVec.eq_of_getLsbD_eq
  intro k hk
  rw [BitVec.getLsbD_and, pteAddrMask_getLsbD k hk]
  by_cases low : k < 12
  · have zero : a.getLsbD k = false := by
      have := Nat.testBit_mod_two_pow a.toNat 12 k
      rw [aligned] at this
      simpa [low, BitVec.getLsbD] using this.symm
    simp [zero]
  · by_cases high : k < 52
    · simp [high, Nat.not_lt.mp low]
    · have zero : a.getLsbD k = false :=
        Nat.testBit_lt_two_pow (lt_of_lt_of_le bound (Nat.pow_le_pow_right (by decide) (by omega)))
      simp [zero]

lemma identityPhys_and_mask (i : Fin 4) (j : Index) :
    identityPhys i j &&& pteAddrMask = identityPhys i j := by
  have hi := i.isLt
  have hj := j.isLt
  apply and_pteAddrMask
  · rw [identityPhys_toNat]
    omega
  · rw [identityPhys_toNat]
    omega

lemma eq_identityPhys {i : Fin 4} (aligned : a.toNat % 2 ^ 21 = 0) (bound : a.toNat < 2 ^ 48)
    (top : pml4Index a = 0) (middle : pdptIndex a = lowIndex i) :
    a = identityPhys i (pdIndex a) := by
  have h4 := congrArg BitVec.toNat top
  have h3 := congrArg BitVec.toNat middle
  rw [pml4Index_toNat] at h4
  rw [pdptIndex_toNat, lowIndex_toNat] at h3
  change _ = 0 at h4
  apply BitVec.eq_of_toNat_eq
  rw [identityPhys_toNat, pdIndex_toNat]
  omega

lemma mmioEnd_toNat (bound : phys.toNat + size.toNat ≤ 2 ^ 48) :
    (Vmm.mmioEnd phys size).toNat =
      (phys.toNat + size.toNat + (2 ^ 21 - 1)) / 2 ^ 21 * 2 ^ 21 := by
  have round : ∀ a : Addr, (a &&& (~~~(0x200000 - 1) : Addr)).toNat = a.toNat / 2 ^ 21 * 2 ^ 21 := by
    intro a
    have split : a &&& (~~~(0x200000 - 1) : Addr) = a >>> 21 <<< 21 := by
      apply BitVec.eq_of_getLsbD_eq
      intro k hk
      have mask : ∀ k < 64, (~~~(0x200000 - 1) : Addr).getLsbD k = decide (21 ≤ k) := by decide
      rw [BitVec.getLsbD_and, mask k hk]
      by_cases low : k < 21
      · simp [low, Nat.not_le.mpr low]
      · simp [low, Nat.not_lt.mp low, hk]
    have shifted := a.isLt
    rw [split, BitVec.toNat_shiftLeft, BitVec.toNat_ushiftRight, Nat.shiftRight_eq_div_pow,
      Nat.shiftLeft_eq]
    exact Nat.mod_eq_of_lt (by omega)
  have sum : (phys + size + 0x200000 - 1).toNat = phys.toNat + size.toNat + (2 ^ 21 - 1) := by
    bv_omega
  rw [Vmm.mmioEnd, round, sum]

lemma mmioEnd_le (bound : phys.toNat + size.toNat ≤ 2 ^ 48) :
    (Vmm.mmioEnd phys size).toNat ≤ 2 ^ 48 := by
  rw [mmioEnd_toNat bound]
  omega

/-- Device ranges end within the 48 bits of an address; only pages below 4 GiB are marked. -/
def InBounds : VmmEvent → Prop
  | .mapMmio phys size => phys.toNat + size.toNat ≤ 2 ^ 48
  | .markHugeUser virt => virt.toNat < 2 ^ 32
  | _ => True

/-- `vmm_mark_huge_user` was called for the 2 MiB page of an address. -/
def Marked (trace : List (StepOf Vmm VmmEvent)) (v : Addr) : Prop :=
  ∃ st ∈ trace, ∃ virt, st.event = .markHugeUser virt ∧ virt.toNat / 2 ^ 21 = v.toNat / 2 ^ 21

/-- The pages are mapped to themselves, and user-accessible only where they are marked. -/
structure IdentityPages (m : StaticTables) (marked : Addr → Prop) (s : Vmm) : Prop where
  phys : ∀ i j, s.table (m.initPd i) j &&& pteAddrMask = identityPhys i j
  user : ∀ i j, hasFlag (s.table (m.initPd i) j) pteUser = true → marked (identityPhys i j)

lemma mmioEntry_and_mask (aligned : a.toNat % 2 ^ 21 = 0) (bound : a.toNat < 2 ^ 48) :
    Vmm.mmioEntry a &&& pteAddrMask = a ∧ hasFlag (Vmm.mmioEntry a) pteUser = false := by
  have page : a &&& pteAddrMask = a := and_pteAddrMask (by omega) (by omega)
  unfold Vmm.mmioEntry
  constructor
  · rw [addr_or (by decide), addr_or (by decide), addr_or (by decide), addr_or (by decide),
      addr_or (by decide), page]
  · simp only [hasFlag_or, hasFlag_of_aligned page (show pteAddrMask &&& pteUser = 0 by decide)]
    decide

lemma Edit.identityPages (h : Edit e x y) (bounds : InBounds e)
    (tree : Tree x.1 x.2) (map : IdentityMap m x.1 x.2) (pages : IdentityPages m marked x.2)
    (hmark : ∀ virt, e = .markHugeUser virt → ∀ v : Addr, virt.toNat / 2 ^ 21 = v.toNat / 2 ^ 21 →
      marked v) : IdentityPages m marked y.2 := by
  have entry : ∀ i j, y.2.table (m.initPd i) j &&& pteAddrMask = identityPhys i j ∧
      (hasFlag (y.2.table (m.initPd i) j) pteUser = true → marked (identityPhys i j)) := by
    intro i j
    obtain ⟨mem, home⟩ := map.pd i
    rcases h.huge_entry tree mem (by simp [home]) (map.present i j) (map.huge i j) with
      same | ⟨phys, size, addr, rfl, below, aligned, place, rfl, device⟩ |
        ⟨virt, rfl, place, rfl, mark⟩
    · rw [same]
      exact ⟨pages.phys i j, pages.user i j⟩
    · -- a device page over the identity map: the same address without the user flag
      have bound : addr.toNat < 2 ^ 48 := lt_of_lt_of_le (BitVec.lt_def.mp below) (mmioEnd_le bounds)
      rw [and_mask_eq_zero_iff] at aligned
      simp only [home, cons.injEq, and_true] at place
      have self := eq_identityPhys aligned bound place.1.symm place.2.symm
      obtain ⟨page, notUser⟩ := mmioEntry_and_mask aligned bound
      rw [device, page, notUser]
      exact ⟨self, by simp⟩
    · rw [mark, addr_or (by decide)]
      refine ⟨pages.phys i _, fun _ => hmark virt rfl _ ?_⟩
      simp only [home, cons.injEq, and_true] at place
      have h4 := congrArg BitVec.toNat place.1.symm
      have h3 := congrArg BitVec.toNat place.2.symm
      have bound : virt.toNat < 2 ^ 32 := bounds
      rw [pdptIndex_toNat, lowIndex_toNat] at h3
      rw [identityPhys_toNat, pdIndex_toNat]
      omega
  exact ⟨fun i j => (entry i j).1, fun i j => (entry i j).2⟩

lemma Edits.identityPages (h : Edits e x y) (bounds : InBounds e)
    (tree : Tree x.1 x.2) (map : IdentityMap m x.1 x.2) (pages : IdentityPages m marked x.2)
    (hmark : ∀ virt, e = .markHugeUser virt → ∀ v : Addr, virt.toNat / 2 ^ 21 = v.toNat / 2 ^ 21 →
      marked v) : IdentityPages m marked y.2 := by
  induction h with
  | refl => exact pages
  | tail before h ih =>
    exact h.identityPages bounds (Edits.tree before tree) (Edits.identityMap before tree map) ih hmark

lemma vmmInit_identityPages (marked : Addr → Prop) : IdentityPages m marked (vmmInit m memory) := by
  constructor
  · intro i j
    rw [vmmInit_pd, addr_or (by decide), addr_or (by decide), addr_or (by decide),
      identityPhys_and_mask]
  · intro i j user
    rw [vmmInit_pd] at user
    simp only [hasFlag_or, hasFlag_of_aligned (identityPhys_and_mask i j)
      (show pteAddrMask &&& pteUser = 0 by decide)] at user
    exact absurd user (by decide)

lemma run_identityPages (run : Run VmmStep (vmmInit m memory) trace s)
    (bounds : ∀ st ∈ trace, InBounds st.event) : IdentityPages m (Marked trace) s := by
  induction run with
  | nil => exact vmmInit_identityPages _
  | @snoc trace t u e run step ih =>
    obtain ⟨P, tree, map⟩ := run_tree run
    obtain ⟨allowed, rfl⟩ := step
    obtain ⟨P', edits⟩ := next_edits tree allowed
    have before : IdentityPages m (Marked trace) t :=
      ih fun st hst => bounds st (mem_append_left _ hst)
    have more : IdentityPages m (Marked (trace ++ [⟨t, e, t.next e⟩])) t := by
      refine ⟨before.phys, fun i j user => ?_⟩
      obtain ⟨st, hst, virt, mark, same⟩ := before.user i j user
      exact ⟨st, mem_append_left _ hst, virt, mark, same⟩
    apply edits.identityPages (bounds ⟨t, e, t.next e⟩ (by simp)) tree map more
    intro virt he v same
    exact ⟨⟨t, e, t.next e⟩, by simp, virt, he, same⟩

lemma translate_huge {pdpt pd : Addr} (way : UpperWay s root v pdpt pd)
    (present : hasFlag (s.table pd (pdIndex v)) ptePresent = true)
    (huge : hasFlag (s.table pd (pdIndex v)) pteHuge = true) :
    let es := [s.table root (pml4Index v), s.table pdpt (pdptIndex v), s.table pd (pdIndex v)]
    s.translate root v = some
      { phys := physIn 21 (s.table pd (pdIndex v) &&& pteAddrMask) v
        flags := s.table pd (pdIndex v) &&& ~~~pteAddrMask
        user := es.all (hasFlag · pteUser)
        writable := es.all (hasFlag · pteWritable)
        noExecute := es.any (hasFlag · pteNx) } := by
  intro es
  have read : s.entries root v = es := by
    unfold Vmm.entries trailEntries indices
    rw [trail_cons_some way.level4, trail_cons_some way.level3, trail_cons_none (nextTable_huge huge)]
    rfl
  unfold Vmm.translate translation
  rw [read]
  simp [es, present, offsetBits]

lemma IdentityMap.way (map : IdentityMap m P s) (hroot : root ∈ s.pml4 :: s.roots)
    (low : v.toNat < 2 ^ 32) : ∃ i : Fin 4, pdptIndex v = lowIndex i ∧
      UpperWay s root v m.initPdpt (m.initPd i) := by
  have top : pml4Index v = 0 := by
    apply BitVec.eq_of_toNat_eq
    rw [pml4Index_toNat]
    change _ = 0
    omega
  have bound : (pdptIndex v).toNat < 4 := by
    rw [pdptIndex_toNat]
    omega
  refine ⟨⟨(pdptIndex v).toNat, bound⟩, (lowIndex_mk bound).symm, ?_, ?_⟩
  · rw [top]
    exact map.top root hroot
  · have leads := map.middle ⟨(pdptIndex v).toNat, bound⟩
    rwa [lowIndex_mk] at leads

lemma physIn_self {i : Fin 4} (low : v.toNat < 2 ^ 32) (middle : pdptIndex v = lowIndex i) :
    physIn 21 (identityPhys i (pdIndex v)) v = v := by
  have base : identityPhys i (pdIndex v) >>> 21 <<< 21 = v >>> 21 <<< 21 := by
    have h3 := congrArg BitVec.toNat middle
    rw [pdptIndex_toNat, lowIndex_toNat] at h3
    congr 1
    apply BitVec.eq_of_toNat_eq
    rw [BitVec.toNat_ushiftRight, BitVec.toNat_ushiftRight, Nat.shiftRight_eq_div_pow,
      Nat.shiftRight_eq_div_pow, identityPhys_toNat, pdIndex_toNat]
    omega
  unfold physIn
  rw [base]
  apply BitVec.eq_of_getLsbD_eq
  intro k hk
  simp only [BitVec.getLsbD_or, BitVec.getLsbD_shiftLeft, BitVec.getLsbD_ushiftRight,
    BitVec.getLsbD_setWidth, hk, decide_true, Bool.true_and]
  by_cases below : k < 21
  · simp [below]
  · simp [below, Nat.not_lt.mp below]

lemma hasFlag_and_not_mask {flag : Pte} (outside : ~~~pteAddrMask &&& flag = flag) :
    hasFlag (entry &&& ~~~pteAddrMask) flag = hasFlag entry flag := by
  unfold hasFlag
  rw [BitVec.and_assoc, outside]

/-- In every reachable state and root, an address below 4 GiB translates to itself and is writable
by the kernel; its leaf entry is a user entry only if its 2 MiB page has been marked. -/
theorem identity_map_is_kept {trace : List (StepOf Vmm VmmEvent)}
    (run : Run VmmStep (vmmInit m memory) trace s) (bounds : ∀ st ∈ trace, InBounds st.event)
    {root v : Addr} (hroot : root ∈ s.pml4 :: s.roots) (low : v.toNat < 2 ^ 32) :
    ∃ t, s.translate root v = some t ∧ t.phys = v ∧ t.writable = true ∧
      (hasFlag t.flags pteUser = true → Marked trace v) := by
  obtain ⟨P, tree, map⟩ := run_tree run
  have pages := run_identityPages run bounds
  obtain ⟨i, middle, way⟩ := map.way hroot low
  obtain ⟨-, home3, on2, home2⟩ := way.places tree hroot
  have present := map.present i (pdIndex v)
  refine ⟨_, translate_huge way present (map.huge i _), ?_, ?_, ?_⟩
  · show physIn 21 (s.table (m.initPd i) (pdIndex v) &&& pteAddrMask) v = v
    rw [pages.phys, physIn_self low middle]
  · obtain ⟨memRoot, homeRoot, -⟩ := tree.root root hroot
    have w4 := tree.writable root memRoot (by simp [homeRoot]) _ (nextTable_eq_some way.level4).1
    have w3 := tree.writable m.initPdpt map.pdpt.1 (by simp [home3]) _
      (nextTable_eq_some way.level3).1
    have w2 := tree.writable _ on2.mem (by simp [home2]) _ present
    simp [w4, w3, w2]
  · intro user
    have leaf : hasFlag (s.table (m.initPd i) (pdIndex v)) pteUser = true := by
      rw [← hasFlag_and_not_mask (show ~~~pteAddrMask &&& pteUser = pteUser by decide)]
      exact user
    obtain ⟨st, hst, virt, mark, same⟩ := pages.user i _ leaf
    refine ⟨st, hst, virt, mark, same.trans ?_⟩
    have h3 := congrArg BitVec.toNat middle
    rw [pdptIndex_toNat, lowIndex_toNat] at h3
    rw [identityPhys_toNat, pdIndex_toNat]
    omega

/-- The state of a machine with its tables at 1 MiB after `vmm_init`. -/
def bootedVmm : Vmm := vmmInit tablesAtOneMegabyte fun _ _ => 0

/-- Kernel code at `0x100000` seen from an address space made before its page was marked. -/
theorem identity_map_is_kept_marked_page :
    ∃ t, (((bootedVmm.next (.supply [0x200000])).next .createAddressSpace).next
        (.markHugeUser 0x100000)).translate 0x200000 0x100000 = some t ∧
      t.phys = 0x100000 ∧ t.writable = true ∧ (hasFlag t.flags pteUser = true → Marked
        [⟨bootedVmm, .supply [0x200000], bootedVmm.next (.supply [0x200000])⟩,
         ⟨bootedVmm.next (.supply [0x200000]), .createAddressSpace,
           (bootedVmm.next (.supply [0x200000])).next .createAddressSpace⟩,
         ⟨(bootedVmm.next (.supply [0x200000])).next .createAddressSpace, .markHugeUser 0x100000,
           ((bootedVmm.next (.supply [0x200000])).next .createAddressSpace).next
             (.markHugeUser 0x100000)⟩] 0x100000) := by
  have supplied : VmmStep bootedVmm (.supply [0x200000]) (bootedVmm.next (.supply [0x200000])) :=
    ⟨by decide +kernel, rfl⟩
  have created : VmmStep (bootedVmm.next (.supply [0x200000])) .createAddressSpace
      ((bootedVmm.next (.supply [0x200000])).next .createAddressSpace) := ⟨trivial, rfl⟩
  have marked : VmmStep ((bootedVmm.next (.supply [0x200000])).next .createAddressSpace)
      (.markHugeUser 0x100000) (((bootedVmm.next (.supply [0x200000])).next .createAddressSpace).next
        (.markHugeUser 0x100000)) := ⟨by decide +kernel, rfl⟩
  refine identity_map_is_kept (((Run.nil.snoc supplied).snoc created).snoc marked) ?_
    (by decide +kernel) (by decide)
  intro st hst
  simp only [nil_append, cons_append, mem_cons, not_mem_nil, or_false] at hst
  rcases hst with rfl | rfl | rfl
  · trivial
  · trivial
  · show (0x100000 : Addr).toNat < 2 ^ 32
    decide

end MicroOs.Mm
