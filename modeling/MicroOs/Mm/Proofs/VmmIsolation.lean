import MicroOs.Mm.Proofs.VmmMapping

/-!
# Isolation of address spaces

A root gets its PML4 entry 0 from the kernel, so everything below 512 GiB is in one PDPT that all
roots share; the rest of the user half is private. A mapping is invisible to other address spaces
exactly at or above 512 GiB, or when it falls into the identity map and adds no user permission.
-/

namespace MicroOs.Mm
open Lib Relation List

variable {flags : Pte} {m : StaticTables} {pd pdpt : Addr}
variable {P : Place} {s s' : Vmm} {root r v w : Addr} {user : Bool} {x y : Place × Vmm}

/-- The physical address and the effective permissions of an address. -/
def Vmm.access (s : Vmm) (root v : Addr) : Option (Addr × Bool × Bool × Bool) :=
  (s.translate root v).map fun t => (t.phys, t.user, t.writable, t.noExecute)

lemma OnPath.private_slot (tree : Tree P s) {t : Addr} {i : Index} (on : OnPath P s root v t i)
    (half : UserHalf (pml4Index v)) (hr : r ∈ s.pml4 :: s.roots) (other : r ≠ root) :
    (t, i) ∉ s.slots r w := by
  intro read
  obtain ⟨mem, home, own⟩ := tree.root r hr
  have path := (tree.mem_slots hr read).2
  have first : pml4Index w = pml4Index v := by
    obtain ⟨k, rest, place⟩ : ∃ k rest, P.home t ++ [i] = k :: rest := by
      cases P.home t with
      | nil => exact ⟨i, [], rfl⟩
      | cons k rest => exact ⟨k, rest ++ [i], rfl⟩
    have pathV := on.path
    rw [place] at path pathV
    exact (cons_prefix_cons.mp path).1.symm.trans (cons_prefix_cons.mp pathV).1
  have full : (P.home r ++ indices w).length = 4 := by simp [home, indices]
  have owner : P.owner t = P.owner r := by
    apply tree.placed.owner_trail tree.keeps mem full _ (t, i) read
    intro j hj
    rw [home] at hj
    obtain rfl : pml4Index w = j := by simpa [indices] using hj
    rwa [first]
  exact other (own.symm.trans (owner.symm.trans (on.owner half)))

lemma Grow.translate_private (h : Grow root v user x y) (tree : Tree x.1 x.2)
    (half : UserHalf (pml4Index v)) (hr : r ∈ x.2.pml4 :: x.2.roots) (other : r ≠ root) :
    y.2.translate r w = x.2.translate r w := by
  cases h with
  | link on deep absent answer hbits => exact translate_link tree on.mem deep absent answer hbits hr
  | @widen P s t i bits on deep present small hbits =>
    have read : (s.store t i (s.table t i ||| bits)).entries r w = s.entries r w := by
      apply trailEntries_eq
      intro slot hslot
      apply store_table_of_ne
      intro h
      obtain rfl : slot = (t, i) := h
      exact on.private_slot tree half hr other hslot
    show (s.store t i (s.table t i ||| bits)).translate r w = s.translate r w
    unfold Vmm.translate
    rw [read]

lemma Grows.translate_private (h : Grows root v user x y) (tree : Tree x.1 x.2)
    (half : UserHalf (pml4Index v)) (hr : r ∈ x.2.pml4 :: x.2.roots) (other : r ≠ root) :
    y.2.translate r w = x.2.translate r w := by
  induction h with
  | refl => rfl
  | tail before h ih =>
    exact (h.translate_private (Grows.tree before tree) half (Grows.root_mem before tree hr) other).trans ih

lemma mapPageIn_private (tree : Tree P s) (hroot : root ∈ s.pml4 :: s.roots)
    (phys flags : BitVec 64) (half : UserHalf (pml4Index v)) (hr : r ∈ s.pml4 :: s.roots)
    (other : r ≠ root) : (s.mapPageIn root v phys flags).translate r w = s.translate r w := by
  obtain ⟨P', s', grows, tree', -, eq | ⟨pt, on, home, eq⟩⟩ :=
    mapPageIn_grown tree hroot v phys flags
  · rw [eq]
    exact grows.translate_private tree half hr other
  · have hr' := grows.root_mem tree hr
    rw [eq, ← grows.translate_private tree half hr other]
    exact translate_leaf tree' (by simp [home]) hr' (on.private_slot tree' half hr' other)

lemma Grows.identityMap (h : Grows root v user x y) (tree : Tree x.1 x.2)
    (map : IdentityMap m x.1 x.2) : IdentityMap m y.1 y.2 := by
  have event : (VmmEvent.mapPage v 0 (if user then pteUser else 0)).Widens v user :=
    ⟨rfl, by cases user <;> rfl⟩
  exact (h.edits event).identityMap tree map

lemma mapPageIn_low (tree : Tree P s) (map : IdentityMap m P s) (hroot : root ∈ s.pml4 :: s.roots)
    (phys flags : BitVec 64) (low : v.toNat < 2 ^ 32) :
    ∃ P', Grows root v (hasFlag flags pteUser) (P, s) (P', s.mapPageIn root v phys flags) ∧
      HugeWay (s.mapPageIn root v phys flags) root v (hasFlag flags pteUser) := by
  obtain ⟨P', s', grows, result⟩ := mapPageIn_cases tree hroot v phys flags
  have map' : IdentityMap m P' s' := grows.identityMap tree map
  obtain ⟨i, -, upper⟩ := map'.way (grows.root_mem tree hroot) low
  rcases result with ⟨eq, ⟨-, missing⟩ | huge⟩ | ⟨pdpt, pd, pt, way, -, -⟩
  · exact absurd ((map'.present i _).symm.trans (missing _ _ upper)) (by decide)
  · rw [eq]
    exact ⟨P', grows, huge⟩
  · obtain rfl : m.initPdpt = pdpt := Option.mem_unique upper.level4 way.level4
    obtain rfl : m.initPd i = pd := Option.mem_unique upper.level3 way.level3
    exact absurd ((nextTable_huge (map'.huge i _)).symm.trans way.level2) (by simp)

/-- A mapping at `v` in one created address space is not seen in another one, nor in the
kernel's. -/
def IsolatedAt (v phys flags : BitVec 64) : Prop :=
  ∀ s, Reachable VmmBooted VmmStep s → ∀ a ∈ s.roots, ∀ b ∈ s.roots, a ≠ b → ∀ w,
    (s.mapPageIn a v phys flags).access b w = s.access b w ∧
    (s.mapPageIn a v phys flags).access s.pml4 w = s.access s.pml4 w

lemma userHalf_of_high (hv : v.toNat < 2 ^ 47) (high : 2 ^ 39 ≤ v.toNat) :
    UserHalf (pml4Index v) := by
  unfold UserHalf
  rw [pml4Index_toNat]
  omega

lemma isolatedAt_of_private (hv : v.toNat < 2 ^ 47) (high : 2 ^ 39 ≤ v.toNat)
    (phys flags : BitVec 64) : IsolatedAt v phys flags := by
  intro s hs a ha b hb hab w
  obtain ⟨s₀, trace, ⟨m, memory, rfl⟩, run⟩ := hs
  obtain ⟨P, tree, -⟩ := run_tree run
  have half := userHalf_of_high hv high
  have notKernel : s.pml4 ≠ a := fun h => (nodup_cons.mp tree.distinct).1 (h ▸ ha)
  have ha := mem_cons_of_mem s.pml4 ha
  have hb := mem_cons_of_mem s.pml4 hb
  unfold Vmm.access
  rw [mapPageIn_private tree ha phys flags half hb hab.symm,
    mapPageIn_private tree ha phys flags half mem_cons_self notKernel]
  exact ⟨rfl, rfl⟩

lemma isolatedAt_of_identity (low : v.toNat < 2 ^ 32) (phys : Addr)
    (kernel : hasFlag flags pteUser = false) : IsolatedAt v phys flags := by
  intro s hs a ha b hb _ w
  obtain ⟨s₀, trace, ⟨m, memory, rfl⟩, run⟩ := hs
  obtain ⟨P, tree, map⟩ := run_tree run
  obtain ⟨P', grows, -⟩ := mapPageIn_low tree map (mem_cons_of_mem _ ha) phys flags low
  rw [kernel] at grows
  unfold Vmm.access
  rw [grows.translate_eq tree (mem_cons_of_mem _ hb), grows.translate_eq tree mem_cons_self]
  exact ⟨rfl, rfl⟩

section Shared
variable {m : StaticTables} {a b : Addr}

lemma pml4Index_low (low : v.toNat < 2 ^ 39) : pml4Index v = 0 := by
  apply BitVec.eq_of_toNat_eq
  rw [pml4Index_toNat]
  change _ = 0
  omega

/-- A page mapped between 4 GiB and 512 GiB in one address space appears in all of them. -/
lemma mapPageIn_shared (tree : Tree P s) (map : IdentityMap m P s) (ha : a ∈ s.pml4 :: s.roots)
    (hb : b ∈ s.pml4 :: s.roots) (low : v.toNat < 2 ^ 39) (phys flags : BitVec 64)
    (empty : s.table m.initPdpt (pdptIndex v) = 0) (pages : 2 ≤ s.pages.length) :
    s.access b v = none ∧ (s.mapPageIn a v phys flags).access b v ≠ none := by
  have top := pml4Index_low low
  have absent : hasFlag (s.table m.initPdpt (pdptIndex v)) ptePresent = false := by
    rw [empty]
    exact hasFlag_zero _
  have stop := nextTable_eq_none absent
  have read : ∀ r ∈ s.pml4 :: s.roots,
      s.slots r v = [(r, pml4Index v), (m.initPdpt, pdptIndex v)] := by
    intro r hr
    unfold Vmm.slots indices
    rw [trail_cons_some (top ▸ map.top r hr), trail_cons_none stop]
  constructor
  · have last : (s.entries b v).getLast? = some (s.table m.initPdpt (pdptIndex v)) := by
      rw [entries_eq_map, read b hb]
      rfl
    unfold Vmm.access Vmm.translate
    rw [translation_of_absent last absent]
    rfl
  · have small : s.NoHuge a v := by
      intro entry h
      rw [entries_eq_map, read a ha] at h
      simp only [map_cons, map_nil, take_succ_cons, take_nil, mem_cons, not_mem_nil, or_false] at h
      rcases h with rfl | rfl
      · exact (nextTable_eq_some (top ▸ map.top a ha)).2.1
      · rw [empty]
        exact hasFlag_zero _
    have room : s.Room a v := by
      unfold Vmm.Room
      rw [read a ha]
      simp only [length_cons, length_nil]
      omega
    obtain ⟨P', s', pdpt, pd, pt, grows, way, -, eq⟩ :=
      mapPageIn_succeeds tree ha phys flags small room
    have tree' : Tree P' s' := grows.tree tree
    have map' : IdentityMap m P' s' := grows.identityMap tree map
    have hb' := grows.root_mem tree hb
    -- both roots lead to the same PDPT
    have same : m.initPdpt = pdpt :=
      Option.some.inj ((top ▸ map'.top a (grows.root_mem tree ha)).symm.trans way.level4)
    have wayB : Way s' b v pdpt pd pt :=
      ⟨⟨by rw [top, ← same]; exact map'.top b hb', way.level3⟩, way.level2⟩
    rw [eq]
    unfold Vmm.access
    rw [wayB.translate_store tree' hb']
    simp

/-- A mapping with the user flag into the identity map opens a marked 2 MiB page to every address
space whose PML4 entry 0 has the flag. -/
lemma mapPageIn_opens (tree : Tree P s) (map : IdentityMap m P s) (ha : a ∈ s.pml4 :: s.roots)
    (hb : b ∈ s.pml4 :: s.roots) (low : v.toNat < 2 ^ 32) (phys : Addr)
    (user : hasFlag flags pteUser = true) (top : hasFlag (s.table b 0) pteUser = true)
    (closed : hasFlag (s.table m.initPdpt (pdptIndex v)) pteUser = false)
    (marked : ∀ i, pdptIndex v = lowIndex i →
      hasFlag (s.table (m.initPd i) (pdIndex v)) pteUser = true) :
    (s.mapPageIn a v phys flags).access b v ≠ s.access b v := by
  obtain ⟨i, middle, way⟩ := map.way hb low
  obtain ⟨P', grows, pdpt, pd, wayA, -, users⟩ := mapPageIn_low tree map ha phys flags low
  have map' := grows.identityMap tree map
  have hb' := grows.root_mem tree hb
  obtain ⟨j, middle', way'⟩ := map'.way hb' low
  obtain rfl : j = i := lowIndex_injective (middle'.symm.trans middle)
  have zero := pml4Index_low (lt_trans low (by decide))
  have opened : hasFlag ((s.mapPageIn a v phys flags).table m.initPdpt (pdptIndex v)) pteUser
      = true := by
    have same : m.initPdpt = pdpt := by
      have h := map'.top a (grows.root_mem tree ha)
      rw [← zero] at h
      exact Option.mem_unique h wayA.level4
    rw [same]
    exact (users user).2
  have leaf := (grows.entry tree (map.pd j).1 (map.present j (pdIndex v))).2 _ (marked j middle)
  have first := (grows.entry tree (tree.root b hb).1 (nextTable_eq_some way.level4).1).2 _
    (zero ▸ top)
  intro same
  unfold Vmm.access at same
  rw [translate_huge way (map.present j _) (map.huge j _),
    translate_huge way' (map'.present j _) (map'.huge j _)] at same
  simp only [Option.map_some, Option.some.injEq, Prod.mk.injEq, all_cons, closed, first,
    opened, leaf] at same
  simp at same

end Shared

lemma markHugeUser_eq (way : UpperWay s s.pml4 v pdpt pd)
    (huge : hasFlag (s.table pd (pdIndex v)) pteHuge = true) :
    s.markHugeUser v = s.store pd (pdIndex v) (s.table pd (pdIndex v) ||| pteUser) := by
  unfold Vmm.markHugeUser
  simp only [(nextTable_eq_some way.level4).2.2, (nextTable_eq_some way.level3).2.2, huge,
    ↓reduceIte]

lemma UpperWay.allowed_mark (way : UpperWay s s.pml4 v pdpt pd) : s.Allowed (.markHugeUser v) := by
  refine ⟨(nextTable_eq_some way.level4).1, ?_⟩
  rw [(nextTable_eq_some way.level4).2.2]
  exact (nextTable_eq_some way.level3).1

/-- Two address spaces, with roots at `0x200000` and `0x201000`. -/
def twoSpaces : Vmm :=
  ((bootedVmm.next (.supply [0x200000, 0x201000, 0x202000, 0x203000])).next
    .createAddressSpace).next .createAddressSpace

def userSpace : Vmm := twoSpaces.next (.mapPageIn 0x201000 0x100000000 0 pteUser)

lemma twoSpaces_run :
    ∃ trace, Run VmmStep (vmmInit tablesAtOneMegabyte fun _ _ => 0) trace twoSpaces := by
  have supplied : VmmStep bootedVmm (.supply [0x200000, 0x201000, 0x202000, 0x203000])
      (bootedVmm.next (.supply [0x200000, 0x201000, 0x202000, 0x203000])) := ⟨by decide +kernel, rfl⟩
  have first : VmmStep (bootedVmm.next (.supply [0x200000, 0x201000, 0x202000, 0x203000]))
      .createAddressSpace ((bootedVmm.next (.supply [0x200000, 0x201000, 0x202000, 0x203000])).next
        .createAddressSpace) := ⟨trivial, rfl⟩
  have second : VmmStep ((bootedVmm.next (.supply [0x200000, 0x201000, 0x202000, 0x203000])).next
      .createAddressSpace) .createAddressSpace twoSpaces := ⟨trivial, rfl⟩
  exact ⟨_, ((Run.nil.snoc supplied).snoc first).snoc second⟩

lemma userSpace_run :
    ∃ trace, Run VmmStep (vmmInit tablesAtOneMegabyte fun _ _ => 0) trace userSpace := by
  obtain ⟨trace, run⟩ := twoSpaces_run
  have step : VmmStep twoSpaces (.mapPageIn 0x201000 0x100000000 0 pteUser) userSpace :=
    ⟨by decide +kernel, rfl⟩
  exact ⟨_, run.snoc step⟩

lemma not_isolatedAt_shared (low : v.toNat < 2 ^ 39) (high : 2 ^ 32 ≤ v.toNat)
    (phys flags : BitVec 64) : ¬IsolatedAt v phys flags := by
  intro isolated
  obtain ⟨trace, run⟩ := twoSpaces_run
  obtain ⟨P, tree, map⟩ := run_tree run
  have empty : ∀ idx : Index, 4 ≤ idx.toNat → twoSpaces.table 0x102000 idx = 0 := by decide +kernel
  have above : 4 ≤ (pdptIndex v).toNat := by
    rw [pdptIndex_toNat]
    omega
  have mem : (0x200000 : Addr) ∈ twoSpaces.roots ∧ (0x201000 : Addr) ∈ twoSpaces.roots := by
    decide +kernel
  obtain ⟨before, after⟩ := mapPageIn_shared tree map (mem_cons_of_mem _ mem.1)
    (mem_cons_of_mem _ mem.2) low phys flags (empty _ above) (by decide +kernel)
  have same := (isolated twoSpaces ⟨_, _, ⟨_, _, rfl⟩, run⟩ _ mem.1 _ mem.2 (by decide) v).1
  exact after (same.trans before)

lemma not_isolatedAt_user (low : v.toNat < 2 ^ 32) (phys : Addr)
    (user : hasFlag flags pteUser = true) : ¬IsolatedAt v phys flags := by
  intro isolated
  obtain ⟨trace, run⟩ := userSpace_run
  obtain ⟨P, tree, map⟩ := run_tree run
  obtain ⟨i, middle, way⟩ := map.way mem_cons_self low
  have marks := markHugeUser_eq way (map.huge i _)
  have step : VmmStep userSpace (.markHugeUser v) (userSpace.markHugeUser v) :=
    ⟨way.allowed_mark, rfl⟩
  obtain ⟨P', tree', map'⟩ := run_tree (run.snoc step)
  have mem : (0x200000 : Addr) ∈ userSpace.roots ∧ (0x201000 : Addr) ∈ userSpace.roots := by
    decide +kernel
  have roots : (userSpace.markHugeUser v).roots = userSpace.roots := by rw [marks, store_roots]
  have home := (tree.root 0x201000 (mem_cons_of_mem _ mem.2)).2.1
  -- the mark changes the PD only
  have top : hasFlag ((userSpace.markHugeUser v).table 0x201000 0) pteUser = true := by
    rw [marks, store_table_of_home (P := P) (by rw [(map.pd i).2, home]; simp)]
    decide +kernel
  have closed : hasFlag ((userSpace.markHugeUser v).table tablesAtOneMegabyte.initPdpt
      (pdptIndex v)) pteUser = false := by
    have kernelOnly : ∀ i, hasFlag (userSpace.table tablesAtOneMegabyte.initPdpt (lowIndex i))
        pteUser = false := by decide +kernel
    rw [marks, store_table_of_home (P := P) (by simp [map.pdpt.2, (map.pd i).2]), middle]
    exact kernelOnly i
  have marked : ∀ j, pdptIndex v = lowIndex j → hasFlag ((userSpace.markHugeUser v).table
      (tablesAtOneMegabyte.initPd j) (pdIndex v)) pteUser = true := by
    intro j hj
    obtain rfl : i = j := lowIndex_injective (middle.symm.trans hj)
    rw [marks, store_table_self, hasFlag_or, show hasFlag pteUser pteUser = true by decide,
      Bool.or_true]
  rw [← roots] at mem
  apply mapPageIn_opens tree' map' (mem_cons_of_mem _ mem.1) (mem_cons_of_mem _ mem.2)
    low phys user top closed marked
  exact (isolated _ ⟨_, _, ⟨_, _, rfl⟩, run.snoc step⟩ _ mem.1 _ mem.2 (by decide) v).1

/-- A mapping is invisible to the other address spaces and to the kernel's if and only if it is in
the private part of the user half, or falls into the identity map without the user flag. -/
theorem isolatedAt_iff (hv : v.toNat < 2 ^ 47) (phys flags : BitVec 64) :
    IsolatedAt v phys flags ↔
      2 ^ 39 ≤ v.toNat ∨ (v.toNat < 2 ^ 32 ∧ hasFlag flags pteUser = false) := by
  constructor
  · intro isolated
    by_contra outside
    simp only [not_or, not_and, Nat.not_le, Bool.not_eq_false] at outside
    by_cases low : v.toNat < 2 ^ 32
    · exact not_isolatedAt_user low phys (outside.2 low) isolated
    · exact not_isolatedAt_shared outside.1 (Nat.not_lt.mp low) phys flags isolated
  · rintro (high | ⟨low, kernel⟩)
    · exact isolatedAt_of_private hv high phys flags
    · exact isolatedAt_of_identity low phys kernel

theorem isolatedAt_iff_first_user_page :
    IsolatedAt 0x8000000000 0x300000 (pteWritable ||| pteUser) ↔
      2 ^ 39 ≤ (0x8000000000 : Addr).toNat ∨ ((0x8000000000 : Addr).toNat < 2 ^ 32 ∧
        hasFlag (pteWritable ||| pteUser) pteUser = false) :=
  isolatedAt_iff (by decide) _ _

lemma entries_second_page (level4 : s.table 0x201000 0 = 0x102007)
    (level3 : s.table 0x102000 4 = 0x202007) (level2 : s.table 0x202000 0 = 0x203007) :
    s.entries 0x201000 0x100001000 = [0x102007, 0x202007, 0x203007, s.table 0x203000 1] := by
  have next4 : nextTable (s.table 0x201000 (pml4Index 0x100001000)) = some 0x102000 := by
    rw [show pml4Index 0x100001000 = 0 from rfl, level4]
    decide
  have next3 : nextTable (s.table 0x102000 (pdptIndex 0x100001000)) = some 0x202000 := by
    rw [show pdptIndex 0x100001000 = 4 from rfl, level3]
    decide
  have next2 : nextTable (s.table 0x202000 (pdIndex 0x100001000)) = some 0x203000 := by
    rw [show pdIndex 0x100001000 = 0 from rfl, level2]
    decide
  rw [Way.entries ⟨⟨next4, next3⟩, next2⟩, ← level4, ← level3, ← level2]
  rfl

/-- A page that is mapped for one address space at 4 GiB + 4 KiB can be written by the user code of
another one. -/
theorem mapping_leaks_into_other_space :
    Reachable VmmBooted VmmStep userSpace ∧
    (0x200000 : Addr) ∈ userSpace.roots ∧ (0x201000 : Addr) ∈ userSpace.roots ∧
    userSpace.access 0x201000 0x100001000 = none ∧
    (userSpace.mapPageIn 0x200000 0x100001000 0x300000 (pteWritable ||| pteUser)).access
      0x201000 0x100001000 = some (0x300000, true, true, false) := by
  obtain ⟨trace, run⟩ := userSpace_run
  have second : userSpace.table 0x201000 0 = 0x102007 := by decide +kernel
  have pdpt : userSpace.table 0x102000 4 = 0x202007 := by decide +kernel
  have pd : userSpace.table 0x202000 0 = 0x203007 := by decide +kernel
  have absent : userSpace.table 0x203000 1 = 0 := by decide +kernel
  refine ⟨⟨_, _, ⟨_, _, rfl⟩, run⟩, by decide +kernel, by decide +kernel, ?_, ?_⟩
  · rw [Vmm.access, Vmm.translate, entries_second_page second pdpt pd, absent]
    decide
  · decide +kernel

end MicroOs.Mm
