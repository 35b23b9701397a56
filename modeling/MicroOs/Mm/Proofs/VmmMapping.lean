import MicroOs.Mm.Proofs.VmmIdentity

/-!
# What a mapping changes

Growing the tree changes no physical address and no leaf flag, in any root, and without the user flag
no permission either. Writing the entry of a PT changes the translation of one page. From this follows
what `vmm_map_page_in` and `vmm_unmap_page` do to every translation.
-/

namespace MicroOs.Mm
open Lib Relation List

variable {bits entry : Pte} {es fs : List Pte} {i : Index} {pd pdpt pt t : Addr}
  {slot : Addr × Index}
variable {P : Place} {s s' : Vmm} {root r virt v w : Addr} {user : Bool} {x y : Place × Vmm}

/-- The physical address and the leaf flags of an address. -/
def Vmm.mapping (s : Vmm) (root virt : Addr) : Option (Addr × Pte) :=
  (s.translate root virt).map fun t => (t.phys, t.flags)

lemma entries_eq_map (s : Vmm) (root v : Addr) :
    s.entries root v = (s.slots root v).map fun slot => s.table slot.1 slot.2 := rfl

lemma Tree.mem_slots (tree : Tree P s) (hroot : root ∈ s.pml4 :: s.roots)
    (h : slot ∈ s.slots root v) : slot.1 ∈ s.tables ∧ P.home slot.1 ++ [slot.2] <+: indices v := by
  obtain ⟨mem, home, -⟩ := tree.root root hroot
  have := tree.placed.mem_trail mem (by simp [home, indices]) slot h
  rwa [home] at this

lemma Tree.last_slot (tree : Tree P s) (hroot : root ∈ s.pml4 :: s.roots)
    (last : (s.slots root v).getLast? = some slot) :
    nextTable (s.table slot.1 slot.2) = none ∨ (P.home slot.1).length = 3 := by
  obtain ⟨mem, home, -⟩ := tree.root root hroot
  rcases tree.placed.getLast_trail mem (by simp [home, indices]) last with h | h
  · exact .inl h
  · exact .inr (by omega)

lemma translation_eq_map (length : es.length = fs.length) (last : es.getLast? = fs.getLast?)
    (flags : es.all (hasFlag · pteWritable) = fs.all (hasFlag · pteWritable) ∧
      es.any (hasFlag · pteNx) = fs.any (hasFlag · pteNx)) :
    translation es v =
      (translation fs v).map fun tr => { tr with user := es.all (hasFlag · pteUser) } := by
  unfold translation
  rw [length, last, flags.1, flags.2]
  cases fs.getLast? with
  | none => rfl
  | some leaf =>
    simp only
    split <;> rfl

lemma translate_map_user (s : Vmm) (r w : Addr) : ((s.translate r w).map fun tr =>
    { tr with user := (s.entries r w).all (hasFlag · pteUser) }) = s.translate r w :=
  (translation_eq_map rfl rfl ⟨rfl, rfl⟩).symm

lemma translation_of_absent {leaf : Pte} (last : es.getLast? = some leaf)
    (absent : hasFlag leaf ptePresent = false) : translation es v = none := by
  simp [translation, last, absent]

lemma translate_link (tree : Tree P s) {page : Addr} {rest : List Addr} (mem : t ∈ s.tables)
    (deep : (P.home t).length < 3) (absent : hasFlag (s.table t i) ptePresent = false)
    (answer : s.pages = page :: rest) (hbits : InterBits bits user) (hr : r ∈ s.pml4 :: s.roots) :
    (s.link t i page rest bits).translate r w = s.translate r w := by
  have other := tree.ne_of_pages answer mem
  obtain ⟨memRoot, home, -⟩ := tree.root r hr
  have same : ∀ b j, b ∈ s.tables → (b, j) ≠ (t, i) →
      (s.link t i page rest bits).table b j = s.table b j :=
    fun b j hb hne => link_table_of_ne hne (tree.ne_of_pages answer hb)
  have full : (P.home r ++ indices w).length = 4 := by simp [home, indices]
  rcases tree.placed.trail_link memRoot full (show (P.home t).length + 1 < 4 by omega) (nextTable_eq_none absent)
      (by rw [link_table_self]; exact nextTable_link hbits (tree.aligned_of_pages answer))
      (fun j => by rw [link_table_page other]; simp [nextTable]) same with
    ⟨miss, way⟩ | ⟨front, j, was, now⟩
  · have read : (s.link t i page rest bits).entries r w = s.entries r w := by
      unfold Vmm.entries trailEntries
      rw [way]
      apply map_congr_left
      intro slot hslot
      exact same _ _ (tree.mem_slots hr hslot).1 fun h => miss (h ▸ hslot)
    unfold Vmm.translate
    rw [read]
  · -- the walk ended in the absent entry and now ends in the empty table
    have before : s.translate r w = none := by
      have last : (s.entries r w).getLast? = some (s.table t i) := by
        simp [Vmm.entries, trailEntries, was]
      exact translation_of_absent last absent
    have after : (s.link t i page rest bits).translate r w = none := by
      have last : ((s.link t i page rest bits).entries r w).getLast? = some 0 := by
        simp [Vmm.entries, trailEntries, now, link_table_page other]
      exact translation_of_absent last (hasFlag_zero _)
    rw [before, after]

section Widen
variable {t : Addr} {i : Index} {bits : Pte}

lemma slots_widen (present : hasFlag (s.table t i) ptePresent = true)
    (hbits : InterBits bits user) :
    (s.store t i (s.table t i ||| bits)).slots r w = s.slots r w := by
  apply trail_eq_of_next
  intro slot _
  by_cases h : (slot.1, slot.2) = (t, i)
  · obtain ⟨h1, h2⟩ := Prod.mk.injEq .. ▸ h
    rw [h1, h2, store_table_self, nextTable_widen hbits present]
  · rw [store_table_of_ne _ h]

lemma last_entry_widen (tree : Tree P s) (deep : (P.home t).length < 3)
    (present : hasFlag (s.table t i) ptePresent = true)
    (small : hasFlag (s.table t i) pteHuge = false) (hbits : InterBits bits user)
    (hr : r ∈ s.pml4 :: s.roots) :
    ((s.store t i (s.table t i ||| bits)).entries r w).getLast? = (s.entries r w).getLast? := by
  rw [entries_eq_map, entries_eq_map, slots_widen present hbits, getLast?_map, getLast?_map]
  cases last : (s.slots r w).getLast? with
  | none => rfl
  | some slot =>
    have other : (slot.1, slot.2) ≠ (t, i) := by
      intro h
      obtain ⟨h1, h2⟩ := Prod.mk.injEq .. ▸ h
      rcases tree.last_slot hr last with stop | low
      · rw [h1, h2, nextTable_of_present present small] at stop
        cases stop
      · rw [h1] at low
        omega
    simp only [Option.map_some, store_table_of_ne _ other]

lemma hasFlag_widen_eq {flag : Pte}
    (h : hasFlag bits flag = true → hasFlag (s.table t i) flag = true) :
    hasFlag ((s.store t i (s.table t i ||| bits)).table slot.1 slot.2) flag =
      hasFlag (s.table slot.1 slot.2) flag := by
  apply store_table_cases (fun b j e => hasFlag e flag = hasFlag (s.table b j) flag)
  · rw [hasFlag_or]
    cases hb : hasFlag bits flag with
    | false => rw [Bool.or_false]
    | true => rw [h hb, Bool.true_or]
  · rfl

/-- Widening an entry changes the user access only. -/
lemma translate_widen (tree : Tree P s) (mem : t ∈ s.tables) (deep : (P.home t).length < 3)
    (present : hasFlag (s.table t i) ptePresent = true)
    (small : hasFlag (s.table t i) pteHuge = false) (hbits : InterBits bits user)
    (hr : r ∈ s.pml4 :: s.roots) :
    (s.store t i (s.table t i ||| bits)).translate r w = (s.translate r w).map fun tr => { tr with
      user := ((s.store t i (s.table t i ||| bits)).entries r w).all (hasFlag · pteUser) } := by
  have writable := tree.writable t mem deep i present
  apply translation_eq_map
  · rw [entries_eq_map, entries_eq_map, length_map, length_map, slots_widen present hbits]
  · exact last_entry_widen tree deep present small hbits hr
  · simp only [entries_eq_map, slots_widen present hbits, all_map, any_map, Function.comp_def]
    refine ⟨?_, ?_⟩
    · simp only [hasFlag_widen_eq fun _ => writable]
    · simp only [hasFlag_widen_eq fun h : hasFlag bits pteNx = true =>
        absurd (hbits.executable.symm.trans h) (by decide)]

end Widen

lemma Grow.mapping_eq (h : Grow root virt user x y) (tree : Tree x.1 x.2)
    (hr : r ∈ x.2.pml4 :: x.2.roots) : y.2.mapping r w = x.2.mapping r w := by
  cases h with
  | @link P s t i page rest bits on deep absent answer hbits =>
    show (s.link t i page rest bits).mapping r w = s.mapping r w
    unfold Vmm.mapping
    rw [translate_link tree on.mem deep absent answer hbits hr]
  | widen on deep present small hbits =>
    unfold Vmm.mapping
    rw [translate_widen tree on.mem deep present small hbits hr, Option.map_map]
    rfl

lemma Grow.translate_eq (h : Grow root virt false x y) (tree : Tree x.1 x.2)
    (hr : r ∈ x.2.pml4 :: x.2.roots) : y.2.translate r w = x.2.translate r w := by
  cases h with
  | link on deep absent answer hbits => exact translate_link tree on.mem deep absent answer hbits hr
  | widen on deep present small hbits =>
    refine (translate_widen tree on.mem deep present small hbits hr).trans ?_
    refine Eq.trans ?_ (translate_map_user ..)
    simp only [entries_eq_map, slots_widen present hbits, all_map, Function.comp_def,
      hasFlag_widen_eq fun h => absurd (hbits.user.symm.trans h) (by decide)]

lemma Grows.mapping_eq (h : Grows root virt user x y) (tree : Tree x.1 x.2)
    (hr : r ∈ x.2.pml4 :: x.2.roots) : y.2.mapping r w = x.2.mapping r w := by
  induction h with
  | refl => rfl
  | tail before h ih =>
    exact (h.mapping_eq (Grows.tree before tree) (Grows.root_mem before tree hr)).trans ih

lemma Grows.translate_eq (h : Grows root virt false x y) (tree : Tree x.1 x.2)
    (hr : r ∈ x.2.pml4 :: x.2.roots) : y.2.translate r w = x.2.translate r w := by
  induction h with
  | refl => rfl
  | tail before h ih =>
    exact (h.translate_eq (Grows.tree before tree) (Grows.root_mem before tree hr)).trans ih

lemma slots_leaf (tree : Tree P s) (low : (P.home t).length = 3) (hr : r ∈ s.pml4 :: s.roots) :
    (s.store t i entry).slots r w = s.slots r w := by
  obtain ⟨mem, home, -⟩ := tree.root r hr
  have full : (P.home r ++ indices w).length = 4 := by simp [home, indices]
  apply tree.placed.trail_eq_of_lowest mem full
  intro b j deep _
  exact store_table_of_home (P := P) (by omega)

lemma translate_leaf (tree : Tree P s) (low : (P.home t).length = 3) (hr : r ∈ s.pml4 :: s.roots)
    (miss : (t, i) ∉ s.slots r w) : (s.store t i entry).translate r w = s.translate r w := by
  have read : (s.store t i entry).entries r w = s.entries r w := by
    rw [entries_eq_map, entries_eq_map, slots_leaf tree low hr]
    apply map_congr_left
    intro slot hslot
    exact store_table_of_ne _ fun h => miss (h ▸ hslot)
  unfold Vmm.translate
  rw [read]

lemma translate_leaf_other (tree : Tree P s) (hroot : root ∈ s.pml4 :: s.roots)
    (way : Way s root v pdpt pd pt) (hr : r ∈ s.pml4 :: s.roots) (other : indices w ≠ indices v) :
    (s.store pt (ptIndex v) entry).translate r w = s.translate r w := by
  obtain ⟨on, home⟩ := way.places tree hroot
  apply translate_leaf tree (by simp [home]) hr
  intro h
  obtain ⟨-, whole⟩ := tree.mem_slots hr h
  rw [home] at whole
  exact other (whole.eq_of_length (by simp [indices])).symm

lemma Way.slots (way : Way s root v pdpt pd pt) :
    s.slots root v = [(root, pml4Index v), (pdpt, pdptIndex v), (pd, pdIndex v),
      (pt, ptIndex v)] := by
  unfold Vmm.slots indices
  rw [trail_cons_some way.level4, trail_cons_some way.level3, trail_cons_some way.level2]
  cases h : nextTable (s.table pt (ptIndex v)) <;> simp [trail, h]

lemma Way.entries (way : Way s root v pdpt pd pt) :
    s.entries root v = [s.table root (pml4Index v), s.table pdpt (pdptIndex v),
      s.table pd (pdIndex v), s.table pt (ptIndex v)] := by
  rw [entries_eq_map, way.slots]
  rfl

lemma Way.entries_store (tree : Tree P s) (hroot : root ∈ s.pml4 :: s.roots)
    (way : Way s root v pdpt pd pt) (entry : Pte) :
    (s.store pt (ptIndex v) entry).entries root v = [s.table root (pml4Index v),
      s.table pdpt (pdptIndex v), s.table pd (pdIndex v), entry] := by
  obtain ⟨-, home3, -, home2⟩ := way.toUpperWay.places tree hroot
  obtain ⟨-, home1⟩ := way.places tree hroot
  have home := (tree.root root hroot).2.1
  rw [entries_eq_map, slots_leaf tree (by simp [home1]) hroot, way.slots]
  simp only [map_cons, map_nil, store_table_self]
  rw [store_table_of_home (P := P) (by simp [home1, home]),
    store_table_of_home (P := P) (by simp [home1, home3]),
    store_table_of_home (P := P) (by simp [home1, home2])]

lemma page_eq_of_indices (hv : v.toNat < 2 ^ 48) (hw : w.toNat < 2 ^ 48)
    (same : indices w = indices v) : w.toNat / 4096 = v.toNat / 4096 := by
  simp only [indices, cons.injEq, and_true] at same
  obtain ⟨h4, h3, h2, h1⟩ := same
  have h4 := congrArg BitVec.toNat h4
  have h3 := congrArg BitVec.toNat h3
  have h2 := congrArg BitVec.toNat h2
  have h1 := congrArg BitVec.toNat h1
  rw [pml4Index_toNat, pml4Index_toNat] at h4
  rw [pdptIndex_toNat, pdptIndex_toNat] at h3
  rw [pdIndex_toNat, pdIndex_toNat] at h2
  rw [ptIndex_toNat, ptIndex_toNat] at h1
  omega

def Vmm.NoHuge (s : Vmm) (root v : Addr) : Prop :=
  ∀ entry ∈ (s.entries root v).take 3, hasFlag entry pteHuge = false

instance (s : Vmm) (root v : Addr) : Decidable (s.NoHuge root v) :=
  decidableBAll (fun entry => hasFlag entry pteHuge = false) _

/-- The PMM has a page for every table that the way to `v` is missing. -/
def Vmm.Room (s : Vmm) (root v : Addr) : Prop := 4 ≤ (s.slots root v).length + s.pages.length

instance (s : Vmm) (root v : Addr) : Decidable (s.Room root v) := Nat.decLe _ _

lemma descend_room (tree : Tree P s) (mem : t ∈ s.tables) {j : Index}
    {path : List Index} (hbits : InterBits bits user)
    (room : (i :: j :: path).length ≤
      (trail nextTable s.table t (i :: j :: path)).length + s.pages.length)
    (small : ∀ entry ∈ (trailEntries nextTable s.table t (i :: j :: path)).take (path.length + 1),
      hasFlag entry pteHuge = false) :
    ∃ s' b, s.descend t i true bits = (s', some b) ∧
      (j :: path).length ≤ (trail nextTable s'.table b (j :: path)).length + s'.pages.length ∧
      ∀ entry ∈ (trailEntries nextTable s'.table b (j :: path)).take path.length,
        hasFlag entry pteHuge = false := by
  rcases descend_cases s t i bits with ⟨absent, pages, -⟩ | ⟨absent, page, rest, answer, eq⟩ | ⟨present, eq⟩
  · rw [trail_cons_none (nextTable_eq_none absent), pages] at room
    simp at room
  · -- the new table is empty: the walk gets one slot further and has one page less
    have other := tree.ne_of_pages answer mem
    have zero : (s.link t i page rest bits).table page j = 0 := link_table_page other
    have stop : nextTable ((s.link t i page rest bits).table page j) = none := by
      rw [zero]
      simp [nextTable]
    refine ⟨_, _, eq, ?_⟩
    rw [addr_or hbits.outside, tree.aligned_of_pages answer]
    constructor
    · rw [trail_cons_none (nextTable_eq_none absent), answer] at room
      rw [trail_cons_none stop]
      simp only [length_cons, length_nil] at room ⊢
      show _ ≤ _ + rest.length
      omega
    · intro entry hentry
      have h := mem_of_mem_take hentry
      simp only [trailEntries, trail_cons_none stop, map_cons, map_nil, mem_singleton, zero] at h
      rw [h]
      exact hasFlag_zero _
  · have here : hasFlag (s.table t i) pteHuge = false := by
      apply small
      simp [trailEntries, trail]
    have leads := nextTable_of_present present here
    refine ⟨_, _, eq, ?_⟩
    rw [addr_or hbits.outside]
    generalize s.table t i &&& pteAddrMask = b at leads ⊢
    have way : trail nextTable (s.store t i (s.table t i ||| bits)).table b (j :: path) =
        trail nextTable s.table b (j :: path) := by
      apply trail_eq_of_next
      intro slot _
      apply store_table_cases (fun b j e => nextTable e = nextTable (s.table b j))
        (nextTable_widen hbits present) rfl
    constructor
    · rw [trail_cons_some leads] at room
      rw [way]
      simp only [length_cons] at room ⊢
      show _ ≤ _ + s.pages.length
      omega
    · intro entry hentry
      simp only [trailEntries, way, ← map_take, mem_map] at hentry
      obtain ⟨slot, hslot, rfl⟩ := hentry
      have notNew : hasFlag bits pteHuge = true → hasFlag (s.table t i) pteHuge = true :=
        fun h => absurd (hbits.notHuge.symm.trans h) (by decide)
      rw [hasFlag_widen_eq notNew]
      apply small
      simp only [trailEntries, trail_cons_some leads, map_cons, take_succ_cons]
      refine mem_cons_of_mem _ ?_
      rw [← map_take]
      exact mem_map_of_mem hslot

lemma walkIn_succeeds (tree : Tree P s) (hroot : root ∈ s.pml4 :: s.roots) (flags : Pte)
    (small : s.NoHuge root v) (room : s.Room root v) :
    ∃ s' slot, s.walkIn root v true flags = (s', some slot) := by
  have bits := interBits_inter flags
  have top : Reached P s root v root [] := Reached.top tree hroot
  have room : [pml4Index v, pdptIndex v, pdIndex v, ptIndex v].length ≤
      (trail nextTable s.table root [pml4Index v, pdptIndex v, pdIndex v, ptIndex v]).length +
        s.pages.length := room
  obtain ⟨s1, pdpt, h4, room3, small3⟩ := descend_room tree top.mem bits room small
  obtain ⟨P1, -, tree1, -, -, at3⟩ := descend_some tree top ⟨_, rfl⟩ (by decide)
    (tree.upper root top.mem (by simp [top.home]) _) bits h4
  obtain ⟨s2, pd, h3, room2, small2⟩ := descend_room tree1 at3.mem bits room3 small3
  obtain ⟨P2, -, tree2, -, -, at2⟩ := descend_some tree1 at3 ⟨_, rfl⟩ (by simp)
    (tree1.upper pdpt at3.mem (by simp [at3.home]) _) bits h3
  have notHuge : hasFlag (s2.table pd (pdIndex v)) pteHuge = false := by
    apply small2
    simp [trailEntries, trail]
  obtain ⟨s3, pt, h2, -, -⟩ := descend_room tree2 at2.mem bits room2 small2
  refine ⟨s3, (pt, ptIndex v), ?_⟩
  simp only [Vmm.walkIn, h4, h3, notHuge, h2, Bool.false_eq_true, ↓reduceIte]

lemma physIn_page (phys v : Addr) :
    physIn 12 (phys &&& pteAddrMask) v = (phys &&& pteAddrMask) ||| (v.setWidth 12).setWidth 64 := by
  unfold physIn
  congr 1
  apply BitVec.eq_of_getLsbD_eq
  intro k hk
  rw [BitVec.getLsbD_shiftLeft, BitVec.getLsbD_ushiftRight, BitVec.getLsbD_and,
    BitVec.getLsbD_and, pteAddrMask_getLsbD k hk]
  by_cases low : k < 12
  · simp [low, Nat.not_le.mpr low]
  · have sum : 12 + (k - 12) = k := by omega
    rw [sum, pteAddrMask_getLsbD k hk]
    simp [low, hk]

lemma leafEntry_spec (phys : Addr) {flags : Pte} (disjoint : flags &&& pteAddrMask = 0) :
    Vmm.leafEntry phys flags &&& pteAddrMask = phys &&& pteAddrMask ∧
    Vmm.leafEntry phys flags &&& ~~~pteAddrMask = flags ||| ptePresent := by
  have keep : flags &&& ~~~pteAddrMask = flags := by
    have split : flags &&& (pteAddrMask ||| ~~~pteAddrMask) = flags := by
      rw [show pteAddrMask ||| ~~~pteAddrMask = BitVec.allOnes 64 by decide, BitVec.and_allOnes]
    rw [BitVec.and_or_distrib_left, disjoint] at split
    simpa using split
  unfold Vmm.leafEntry
  constructor
  · rw [addr_or (by decide), addr_or disjoint, BitVec.and_assoc, BitVec.and_self]
  · rw [BitVec.and_or_distrib_right, BitVec.and_or_distrib_right, keep, BitVec.and_assoc,
      show pteAddrMask &&& ~~~pteAddrMask = 0#64 by decide,
      show ptePresent &&& ~~~pteAddrMask = ptePresent by decide]
    simp

lemma hasFlag_leafEntry (phys flags : BitVec 64) (flag : Pte)
    (outside : pteAddrMask &&& flag = 0) :
    hasFlag (Vmm.leafEntry phys flags) flag = (hasFlag flags flag || hasFlag ptePresent flag) := by
  have page : hasFlag (phys &&& pteAddrMask) flag = false := by
    apply hasFlag_of_aligned _ outside
    rw [BitVec.and_assoc, BitVec.and_self]
  unfold Vmm.leafEntry
  rw [hasFlag_or, hasFlag_or, page, Bool.false_or]

/-- With enough pages and no 2 MiB page before it, a mapping completes the way and writes the
entry. -/
lemma mapPageIn_succeeds (tree : Tree P s) (hroot : root ∈ s.pml4 :: s.roots)
    (phys flags : BitVec 64) (small : s.NoHuge root v) (room : s.Room root v) :
    ∃ P' s' pdpt pd pt, Grows root v (hasFlag flags pteUser) (P, s) (P', s') ∧
      Way s' root v pdpt pd pt ∧
      (hasFlag flags pteUser = true → hasFlag (s'.table root (pml4Index v)) pteUser = true ∧
        hasFlag (s'.table pdpt (pdptIndex v)) pteUser = true ∧
        hasFlag (s'.table pd (pdIndex v)) pteUser = true) ∧
      s.mapPageIn root v phys flags = s'.store pt (ptIndex v) (Vmm.leafEntry phys flags) := by
  obtain ⟨s', slot, walked⟩ := walkIn_succeeds tree hroot flags small room
  obtain ⟨P', done⟩ := walkIn_walked tree hroot v flags
  rw [walked] at done
  obtain ⟨idx, pdpt, pd, way, users⟩ := done.found slot.1 slot.2 rfl
  refine ⟨P', s', pdpt, pd, slot.1, done.grows, way, users, ?_⟩
  unfold Vmm.mapPageIn
  rw [walked, ← idx]

lemma present_leafEntry (phys flags : BitVec 64) :
    hasFlag (Vmm.leafEntry phys flags) ptePresent = true := by
  rw [hasFlag_leafEntry _ _ _ (by decide), show hasFlag ptePresent ptePresent = true by decide,
    Bool.or_true]

section
variable (tree : Tree P s) (hroot : root ∈ s.pml4 :: s.roots)
include tree hroot

lemma Way.translate_store (way : Way s root v pdpt pd pt) (phys flags : BitVec 64) :
    let leaf := Vmm.leafEntry phys flags
    let es := [s.table root (pml4Index v), s.table pdpt (pdptIndex v), s.table pd (pdIndex v), leaf]
    (s.store pt (ptIndex v) leaf).translate root v = some
      { phys := physIn 12 (leaf &&& pteAddrMask) v
        flags := leaf &&& ~~~pteAddrMask
        user := es.all (hasFlag · pteUser)
        writable := es.all (hasFlag · pteWritable)
        noExecute := es.any (hasFlag · pteNx) } := by
  intro leaf es
  unfold Vmm.translate translation
  rw [way.entries_store tree hroot]
  simp [leaf, es, present_leafEntry, offsetBits]

lemma mapPageIn_self {phys flags : BitVec 64} (small : s.NoHuge root v) (room : s.Room root v)
    (disjoint : flags &&& pteAddrMask = 0) :
    ∃ t, (s.mapPageIn root v phys flags).translate root v = some t ∧
      t.phys = (phys &&& pteAddrMask) ||| (v.setWidth 12).setWidth 64 ∧
      t.flags = flags ||| ptePresent ∧ (hasFlag flags pteUser = true → t.user = true) := by
  obtain ⟨P', s', pdpt, pd, pt, grows, way, users, eq⟩ :=
    mapPageIn_succeeds tree hroot phys flags small room
  have tree' : Tree P' s' := grows.tree tree
  obtain ⟨addr, bits⟩ := leafEntry_spec phys disjoint
  rw [eq, way.translate_store tree' (grows.root_mem tree hroot)]
  refine ⟨_, rfl, ?_, bits, fun user => ?_⟩
  · show physIn 12 (Vmm.leafEntry phys flags &&& pteAddrMask) v = _
    rw [addr, physIn_page]
  · obtain ⟨u4, u3, u2⟩ := users user
    have u1 : hasFlag (Vmm.leafEntry phys flags) pteUser = true := by
      rw [hasFlag_leafEntry _ _ _ (by decide), user, Bool.true_or]
    simp [u4, u3, u2, u1]

/-- A mapping in a root is not seen at any other page, in any root, but for permissions. -/
lemma mapPageIn_other (phys flags : BitVec 64) (hr : r ∈ s.pml4 :: s.roots)
    (other : indices w ≠ indices v) :
    (s.mapPageIn root v phys flags).mapping r w = s.mapping r w := by
  obtain ⟨P', s', grows, ⟨eq, -⟩ | ⟨pdpt, pd, pt, way, -, eq⟩⟩ :=
    mapPageIn_cases tree hroot v phys flags
  · rw [eq]
    exact grows.mapping_eq tree hr
  · have tree' : Tree P' s' := grows.tree tree
    rw [eq, ← grows.mapping_eq tree hr]
    unfold Vmm.mapping
    rw [translate_leaf_other tree' (grows.root_mem tree hroot) way (grows.root_mem tree hr) other]

end

lemma unmapPage_spec (tree : Tree P s) (small : s.NoHuge s.pml4 v) :
    (s.unmapPage v).translate s.pml4 v = none ∧
    ∀ r ∈ s.pml4 :: s.roots, ∀ w, indices w ≠ indices v →
      (s.unmapPage v).translate r w = s.translate r w := by
  unfold Vmm.unmapPage
  rcases walk_look tree v with ⟨eq, ⟨entry, last, absent⟩ | ⟨entry, mem, huge⟩⟩ |
    ⟨pdpt, pd, pt, way, eq⟩
  · rw [eq]
    exact ⟨translation_of_absent last absent, fun _ _ _ _ => rfl⟩
  · exact absurd (huge.symm.trans (small entry mem)) (by decide)
  · rw [eq]
    constructor
    · have read := way.entries_store tree mem_cons_self 0
      have last : ((s.store pt (ptIndex v) 0).entries s.pml4 v).getLast? = some 0 := by
        rw [read]
        rfl
      exact translation_of_absent last (hasFlag_zero _)
    · intro r hr w other
      exact translate_leaf_other tree mem_cons_self way hr other

/-- For every reachable state, root and address whose walk succeeds: the address translates as
asked, all other pages of the root keep their physical address and leaf flags, both mapping
functions do the same in the kernel's root, and unmapping removes this page only. -/
theorem mapping_is_exact (hs : Reachable VmmBooted VmmStep s) (hroot : root ∈ s.pml4 :: s.roots)
    (hv : v.toNat < 2 ^ 48) {phys flags : BitVec 64} (small : s.NoHuge root v)
    (room : s.Room root v) (disjoint : flags &&& pteAddrMask = 0) :
    (∃ t, (s.mapPageIn root v phys flags).translate root v = some t ∧
      t.phys = (phys &&& pteAddrMask) ||| (v.setWidth 12).setWidth 64 ∧
      t.flags = flags ||| ptePresent ∧ (hasFlag flags pteUser = true → t.user = true)) ∧
    (∀ w : Addr, w.toNat < 2 ^ 48 → w.toNat / 4096 ≠ v.toNat / 4096 →
      (s.mapPageIn root v phys flags).mapping root w = s.mapping root w) ∧
    s.mapPage v phys flags = s.mapPageIn s.pml4 v phys flags ∧
    (s.NoHuge s.pml4 v → (s.unmapPage v).translate s.pml4 v = none ∧
      ∀ r ∈ s.pml4 :: s.roots, ∀ w : Addr, w.toNat < 2 ^ 48 → w.toNat / 4096 ≠ v.toNat / 4096 →
        (s.unmapPage v).translate r w = s.translate r w) := by
  obtain ⟨s₀, trace, ⟨m, memory, rfl⟩, run⟩ := hs
  obtain ⟨P, tree, -⟩ := run_tree run
  refine ⟨mapPageIn_self tree hroot small room disjoint, ?_, mapPage_eq_mapPageIn v phys flags, ?_⟩
  · intro w hw other
    apply mapPageIn_other tree hroot phys flags hroot
    exact fun same => other (page_eq_of_indices hv hw same)
  · intro small
    obtain ⟨gone, rest⟩ := unmapPage_spec tree small
    refine ⟨gone, fun r hr w hw other => rest r hr w ?_⟩
    exact fun same => other (page_eq_of_indices hv hw same)

/-- A machine with one address space, whose root is at `0x200000`, and pages for its tables. -/
def oneSpace : Vmm :=
  (bootedVmm.next (.supply [0x200000, 0x201000, 0x202000, 0x203000])).next .createAddressSpace

lemma oneSpace_reachable : Reachable VmmBooted VmmStep oneSpace := by
  have booted : Reachable VmmBooted VmmStep bootedVmm := .start ⟨_, _, rfl⟩
  have supplied : VmmStep bootedVmm (.supply [0x200000, 0x201000, 0x202000, 0x203000])
      (bootedVmm.next (.supply [0x200000, 0x201000, 0x202000, 0x203000])) := ⟨by decide +kernel, rfl⟩
  have created : VmmStep (bootedVmm.next (.supply [0x200000, 0x201000, 0x202000, 0x203000]))
      .createAddressSpace oneSpace := ⟨trivial, rfl⟩
  exact (booted.next supplied).next created

theorem mapping_is_exact_first_user_page :
    ∃ t, (oneSpace.mapPageIn 0x200000 0x8000000000 0x300000 (pteWritable ||| pteUser)).translate
        0x200000 0x8000000000 = some t ∧
      t.phys = (0x300000 &&& pteAddrMask) ||| ((0x8000000000 : Addr).setWidth 12).setWidth 64 ∧
      t.flags = pteWritable ||| pteUser ||| ptePresent ∧
      (hasFlag (pteWritable ||| pteUser) pteUser = true → t.user = true) :=
  (mapping_is_exact oneSpace_reachable (by decide +kernel) (by decide +kernel) (by decide +kernel)
    (by decide +kernel) (by decide)).1

end MicroOs.Mm
