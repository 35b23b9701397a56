import MicroOs.Mm.Proofs.VmmIsolation

/-!
# Sequences of user mappings

A loader maps page after page in one root. Here is what one mapping with the user flag leaves for
an address: its own page gets a leaf, unless the way ends in a 2 MiB page or the PMM runs out of
pages; leaves of other pages and 2 MiB pages stay as they are.
-/

namespace MicroOs.Mm
open Lib Relation List

variable {e : VmmEvent} {i : Index} {pd pdpt pt r t : Addr} {x y : Place × Vmm}
variable {P P' : Place} {s s' : Vmm} {root virt v w phys : Addr} {entry flags : Pte} {user : Bool}

/-- The way to `v` is open to the user and ends in this entry of a PT. -/
def UserLeaf (s : Vmm) (root v : Addr) (entry : Pte) : Prop :=
  ∃ pdpt pd pt, Way s root v pdpt pd pt ∧ hasFlag (s.table root (pml4Index v)) pteUser = true ∧
    hasFlag (s.table pdpt (pdptIndex v)) pteUser = true ∧
    hasFlag (s.table pd (pdIndex v)) pteUser = true ∧ s.table pt (ptIndex v) = entry

/-- The way to `v` is open to the user above this entry of a PD, which is a 2 MiB page. -/
def UserHuge (s : Vmm) (root v : Addr) (entry : Pte) : Prop :=
  ∃ pdpt pd, UpperWay s root v pdpt pd ∧ hasFlag (s.table root (pml4Index v)) pteUser = true ∧
    hasFlag (s.table pdpt (pdptIndex v)) pteUser = true ∧ s.table pd (pdIndex v) = entry ∧
    hasFlag entry pteHuge = true

/-- The way to `v` ends in this entry of a PD, which is a 2 MiB page. -/
def HugeAt (s : Vmm) (root v : Addr) (entry : Pte) : Prop :=
  ∃ pdpt pd, UpperWay s root v pdpt pd ∧ s.table pd (pdIndex v) = entry ∧
    hasFlag entry pteHuge = true

/-- The way to `v`, as far as it exists, does not end in a 2 MiB page. -/
def NoHugeWay (s : Vmm) (root v : Addr) : Prop :=
  ∀ pdpt pd, UpperWay s root v pdpt pd → hasFlag (s.table pd (pdIndex v)) pteHuge = false

/-! Only the indices of an address matter. -/

lemma UpperWay.of_indices (h4 : pml4Index w = pml4Index v) (h3 : pdptIndex w = pdptIndex v)
    (way : UpperWay s root w pdpt pd) : UpperWay s root v pdpt pd :=
  ⟨h4 ▸ way.level4, h3 ▸ way.level3⟩

lemma Way.of_indices (h4 : pml4Index w = pml4Index v) (h3 : pdptIndex w = pdptIndex v)
    (h2 : pdIndex w = pdIndex v) (way : Way s root w pdpt pd pt) : Way s root v pdpt pd pt :=
  ⟨way.toUpperWay.of_indices h4 h3, h2 ▸ way.level2⟩

section
variable (same : indices w = indices v)
include same

lemma UserLeaf.of_indices (leaf : UserLeaf s root w entry) : UserLeaf s root v entry := by
  simp only [indices, cons.injEq, and_true] at same
  obtain ⟨h4, h3, h2, h1⟩ := same
  obtain ⟨pdpt, pd, pt, way, u4, u3, u2, hleaf⟩ := leaf
  exact ⟨pdpt, pd, pt, way.of_indices h4 h3 h2, h4 ▸ u4, h3 ▸ u3, h2 ▸ u2, h1 ▸ hleaf⟩

lemma HugeAt.of_indices (huge : HugeAt s root w entry) : HugeAt s root v entry := by
  simp only [indices, cons.injEq, and_true] at same
  obtain ⟨h4, h3, h2, -⟩ := same
  obtain ⟨pdpt, pd, way, hentry, isHuge⟩ := huge
  exact ⟨pdpt, pd, way.of_indices h4 h3, h2 ▸ hentry, isHuge⟩

lemma UserHuge.of_indices (huge : UserHuge s root w entry) : UserHuge s root v entry := by
  simp only [indices, cons.injEq, and_true] at same
  obtain ⟨h4, h3, h2, -⟩ := same
  obtain ⟨pdpt, pd, way, u4, u3, hentry, isHuge⟩ := huge
  exact ⟨pdpt, pd, way.of_indices h4 h3, h4 ▸ u4, h3 ▸ u3, h2 ▸ hentry, isHuge⟩

lemma NoHugeWay.of_indices (no : NoHugeWay s root w) : NoHugeWay s root v := by
  simp only [indices, cons.injEq, and_true] at same
  obtain ⟨h4, h3, h2, -⟩ := same
  exact fun pdpt pd way => h2 ▸ no pdpt pd (way.of_indices h4.symm h3.symm)

end

/-! The pages that the PMM will return do not matter for these. -/

lemma UserLeaf.supply (leaf : UserLeaf s root v entry) (pages : List Addr) :
    UserLeaf { s with pages } root v entry := by
  obtain ⟨pdpt, pd, pt, way, rest⟩ := leaf
  exact ⟨pdpt, pd, pt, ⟨⟨way.level4, way.level3⟩, way.level2⟩, rest⟩

lemma UserHuge.supply (huge : UserHuge s root v entry) (pages : List Addr) :
    UserHuge { s with pages } root v entry := by
  obtain ⟨pdpt, pd, way, rest⟩ := huge
  exact ⟨pdpt, pd, ⟨way.level4, way.level3⟩, rest⟩

lemma HugeAt.supply (huge : HugeAt s root v entry) (pages : List Addr) :
    HugeAt { s with pages } root v entry := by
  obtain ⟨pdpt, pd, way, rest⟩ := huge
  exact ⟨pdpt, pd, ⟨way.level4, way.level3⟩, rest⟩

lemma NoHugeWay.supply (no : NoHugeWay s root v) (pages : List Addr) :
    NoHugeWay { s with pages } root v :=
  fun pdpt pd way => no pdpt pd ⟨way.level4, way.level3⟩

lemma Grow.table_low (h : Grow root virt user x y) (tree : Tree x.1 x.2) (mem : t ∈ x.2.tables)
    (low : (x.1.home t).length = 3) : y.2.table t i = x.2.table t i :=
  (h.slot tree mem).resolve_right fun ⟨_, deep, _⟩ => by omega

lemma Grow.table_off (h : Grow root virt user x y) (tree : Tree x.1 x.2) (mem : t ∈ x.2.tables)
    (off : ¬ x.1.home t ++ [i] <+: indices virt) : y.2.table t i = x.2.table t i :=
  (h.slot tree mem).resolve_right fun ⟨on, _⟩ => off on.path

lemma Grown.notHuge {old new : Pte} (grown : Grown user old new)
    (was : hasFlag old pteHuge = false) : hasFlag new pteHuge = false := by
  cases grown with
  | link _ aligned hbits =>
    rw [hasFlag_or, hbits.notHuge, hasFlag_of_aligned aligned (by decide)]
    rfl
  | widen _ _ hbits =>
    rw [hasFlag_or, hbits.notHuge, was]
    rfl

lemma Grow.leads_cases (h : Grow root virt user x y) (tree : Tree x.1 x.2) (mem : t ∈ x.2.tables)
    (i : Index) :
    nextTable (y.2.table t i) = nextTable (x.2.table t i) ∨
      ∃ page, nextTable (y.2.table t i) = some page ∧ ∀ j, y.2.table page j = 0 := by
  cases h with
  | @link P s b j page rest bits on deep absent answer hbits =>
    have tree : Tree P s := tree
    by_cases h : (t, i) = (b, j)
    · obtain ⟨rfl, rfl⟩ := Prod.mk.injEq .. ▸ h
      refine .inr ⟨page, ?_, fun j => link_table_page (tree.ne_of_pages answer mem)⟩
      rw [link_table_self]
      exact nextTable_link hbits (tree.aligned_of_pages answer)
    · exact .inl (congrArg nextTable (link_table_of_ne h (tree.ne_of_pages answer mem)))
  | @widen P s b j bits on deep present small hbits =>
    exact .inl (store_table_cases (fun b j e => nextTable e = nextTable (s.table b j))
      (nextTable_widen hbits present) rfl)

lemma Grow.noHugeWay (h : Grow r virt user x y) (tree : Tree x.1 x.2)
    (hroot : root ∈ x.2.pml4 :: x.2.roots) (no : NoHugeWay x.2 root v) : NoHugeWay y.2 root v := by
  intro pdpt pd way
  obtain ⟨memRoot, home, -⟩ := tree.root root hroot
  rcases h.leads_cases tree memRoot (pml4Index v) with same | ⟨page, leads, empty⟩
  · have level4 := same.symm.trans way.level4
    obtain ⟨mem3, home3⟩ := tree.placed.child root memRoot (by simp [home]) _ _ level4
    rcases h.leads_cases tree mem3 (pdptIndex v) with same | ⟨page, leads, empty⟩
    · have level3 := same.symm.trans way.level3
      have before := no pdpt pd ⟨level4, level3⟩
      have mem2 := (tree.placed.child pdpt mem3 (by simp [home3, home]) _ _ level3).1
      rcases h.slot (i := pdIndex v) tree mem2 with same | ⟨-, -, grown⟩
      · rw [same]
        exact before
      · exact grown.notHuge before
    · obtain rfl : page = pd := Option.mem_unique leads way.level3
      rw [empty]
      exact hasFlag_zero _
  · -- the way goes through the new table, which is empty
    obtain rfl : page = pdpt := Option.mem_unique leads way.level4
    have level3 := way.level3
    rw [empty] at level3
    simp [nextTable] at level3

lemma Grow.pages (h : Grow root virt user x y) : y.2.pages <:+ x.2.pages := by
  cases h with
  | @link P s t i page rest bits on deep absent answer hbits =>
    show rest <:+ s.pages
    rw [answer]
    exact suffix_cons page rest
  | widen => exact suffix_rfl

section Grows
variable {x y : Place × Vmm} {r : Addr}

section
variable (h : Grows r virt user x y) (tree : Tree x.1 x.2)
include h tree

lemma Grows.table_low (mem : t ∈ x.2.tables) (low : (x.1.home t).length = 3) :
    y.2.table t i = x.2.table t i := by
  induction h with
  | refl => rfl
  | tail before h ih =>
    have stable := Grows.stable before tree
    exact (h.table_low (Grows.tree before tree) (stable.tables t mem)
      ((stable.home t mem).symm ▸ low)).trans ih

lemma Grows.table_off (mem : t ∈ x.2.tables) (off : ¬ x.1.home t ++ [i] <+: indices virt) :
    y.2.table t i = x.2.table t i := by
  induction h with
  | refl => rfl
  | tail before h ih =>
    have stable := Grows.stable before tree
    refine (h.table_off (Grows.tree before tree) (stable.tables t mem) ?_).trans ih
    rw [stable.home t mem]
    exact off

lemma Grows.table_huge (mem : t ∈ x.2.tables)
    (present : hasFlag (x.2.table t i) ptePresent = true)
    (huge : hasFlag (x.2.table t i) pteHuge = true) : y.2.table t i = x.2.table t i := by
  induction h with
  | refl => rfl
  | tail before h ih =>
    have stable := Grows.stable before tree
    refine (h.table_huge (Grows.tree before tree) (stable.tables t mem) ?_ ?_).trans ih
    · rw [ih]
      exact present
    · rw [ih]
      exact huge

lemma Grows.noHugeWay (hroot : root ∈ x.2.pml4 :: x.2.roots) (no : NoHugeWay x.2 root v) :
    NoHugeWay y.2 root v := by
  induction h with
  | refl => exact no
  | tail before h ih =>
    exact h.noHugeWay (Grows.tree before tree) (Grows.root_mem before tree hroot) ih

end

lemma Grows.pages (h : Grows r virt user x y) : y.2.pages <:+ x.2.pages := by
  induction h with
  | refl => exact suffix_rfl
  | tail before h ih => exact h.pages.trans ih

end Grows

lemma Way.grows (tree : Tree P s) (hroot : root ∈ s.pml4 :: s.roots)
    (way : Way s root v pdpt pd pt) (h : Grows r virt user (P, s) (P', s')) :
    Way s' root v pdpt pd pt where
  toUpperWay := way.toUpperWay.grows tree hroot h
  level2 := h.leads tree (way.toUpperWay.places tree hroot).2.2.1.mem way.level2

lemma UpperWay.store (tree : Tree P s) (hroot : root ∈ s.pml4 :: s.roots)
    (way : UpperWay s root v pdpt pd) (low : (P.home t).length = 3) (i : Index) (entry : Pte) :
    UpperWay (s.store t i entry) root v pdpt pd ∧
    (s.store t i entry).table root (pml4Index v) = s.table root (pml4Index v) ∧
    (s.store t i entry).table pdpt (pdptIndex v) = s.table pdpt (pdptIndex v) ∧
    (s.store t i entry).table pd (pdIndex v) = s.table pd (pdIndex v) := by
  obtain ⟨-, home3, -, home2⟩ := way.places tree hroot
  have home := (tree.root root hroot).2.1
  have same4 : (s.store t i entry).table root (pml4Index v) = s.table root (pml4Index v) :=
    store_table_of_home (P := P) (by simp [low, home])
  have same3 : (s.store t i entry).table pdpt (pdptIndex v) = s.table pdpt (pdptIndex v) :=
    store_table_of_home (P := P) (by simp [low, home3])
  have same2 : (s.store t i entry).table pd (pdIndex v) = s.table pd (pdIndex v) :=
    store_table_of_home (P := P) (by simp [low, home2])
  exact ⟨⟨by rw [same4]; exact way.level4, by rw [same3]; exact way.level3⟩, same4, same3, same2⟩

structure Kept (P' : Place) (s s' : Vmm) : Prop where
  tree : Tree P' s'
  pml4 : s'.pml4 = s.pml4
  roots : s'.roots = s.roots
  pages : s'.pages <:+ s.pages

section
variable (tree : Tree P s) (hroot : root ∈ s.pml4 :: s.roots)
include tree hroot

lemma mapPageIn_kept (w phys flags : BitVec 64) :
    ∃ P', Kept P' s (s.mapPageIn root w phys flags) := by
  obtain ⟨P', s', grows, tree', -, result⟩ := mapPageIn_grown tree hroot w phys flags
  have pml4 : s'.pml4 = s.pml4 := (grows.stable tree).pml4
  rcases result with eq | ⟨pt, on, home, eq⟩
  · rw [eq]
    exact ⟨P', tree', pml4, grows.roots, grows.pages⟩
  · have leaf : Edit (.mapPage w 0 0) (P', s')
      (P', s'.store pt (ptIndex w) (Vmm.leafEntry phys flags)) := .leaf on.mem (by simp [home])
    rw [eq]
    exact ⟨P', leaf.tree tree', pml4, grows.roots, grows.pages⟩

lemma mapPageIn_table_off (phys flags : BitVec 64) (mem : t ∈ s.tables)
    (off : ¬ P.home t ++ [i] <+: indices w) :
    (s.mapPageIn root w phys flags).table t i = s.table t i := by
  obtain ⟨P', s', grows, -, -, result⟩ := mapPageIn_grown tree hroot w phys flags
  have grown : s'.table t i = s.table t i := grows.table_off tree mem off
  rcases result with eq | ⟨pt, -, place, eq⟩
  · rw [eq, grown]
  · rw [eq, store_table_of_ne, grown]
    intro h
    obtain ⟨rfl, rfl⟩ := Prod.mk.injEq .. ▸ h
    have home : P'.home t = P.home t := (grows.stable tree).home t mem
    apply off
    rw [← home, place]
    exact prefix_rfl

lemma mapPageIn_userLeaf_other (phys flags : BitVec 64) (leaf : UserLeaf s root v entry)
    (other : indices w ≠ indices v) : UserLeaf (s.mapPageIn root w phys flags) root v entry := by
  obtain ⟨pdpt, pd, pt, way, u4, u3, u2, hleaf⟩ := leaf
  obtain ⟨P', s', grows, tree', hroot', result⟩ := mapPageIn_grown tree hroot w phys flags
  obtain ⟨on3, -, on2, -⟩ := way.toUpperWay.places tree hroot
  obtain ⟨on1, home1⟩ := way.places tree hroot
  have grown : Way s' root v pdpt pd pt := way.grows tree hroot grows
  have user4 := (grows.entry tree (tree.root root hroot).1 (nextTable_eq_some way.level4).1).2 _ u4
  have user3 := (grows.entry tree on3.mem (nextTable_eq_some way.level3).1).2 _ u3
  have user2 := (grows.entry tree on2.mem (nextTable_eq_some way.level2).1).2 _ u2
  have same : s'.table pt (ptIndex v) = entry :=
    (grows.table_low tree on1.mem (by simp [home1])).trans hleaf
  rcases result with eq | ⟨pt', -, home', eq⟩
  · rw [eq]
    exact ⟨pdpt, pd, pt, grown, user4, user3, user2, same⟩
  · obtain ⟨-, homeV⟩ := grown.places tree' hroot'
    obtain ⟨upper, same4, same3, same2⟩ :=
      grown.toUpperWay.store tree' hroot' (congrArg length home') (ptIndex w) (Vmm.leafEntry phys flags)
    rw [eq]
    refine ⟨pdpt, pd, pt, ⟨upper, by rw [same2]; exact grown.level2⟩, by rw [same4]; exact user4,
      by rw [same3]; exact user3, by rw [same2]; exact user2, ?_⟩
    rw [store_table_of_ne, same]
    intro h
    obtain ⟨rfl, idx⟩ := Prod.mk.injEq .. ▸ h
    rw [home'] at homeV
    simp only [cons.injEq, and_true] at homeV
    apply other
    rw [indices, indices, homeV.1, homeV.2.1, homeV.2.2, idx]

lemma mapPageIn_huge_way (w phys flags : BitVec 64) (way : UpperWay s root v pdpt pd)
    (huge : hasFlag (s.table pd (pdIndex v)) pteHuge = true) :
    UpperWay (s.mapPageIn root w phys flags) root v pdpt pd ∧
    (s.mapPageIn root w phys flags).table pd (pdIndex v) = s.table pd (pdIndex v) ∧
    (∀ flag, hasFlag (s.table root (pml4Index v)) flag = true →
      hasFlag ((s.mapPageIn root w phys flags).table root (pml4Index v)) flag = true) ∧
    ∀ flag, hasFlag (s.table pdpt (pdptIndex v)) flag = true →
      hasFlag ((s.mapPageIn root w phys flags).table pdpt (pdptIndex v)) flag = true := by
  obtain ⟨P', s', grows, tree', hroot', result⟩ := mapPageIn_grown tree hroot w phys flags
  obtain ⟨on3, -, on2, home2⟩ := way.places tree hroot
  have present := tree.solid pd on2.mem (by simp [home2]) _ huge
  have grown : UpperWay s' root v pdpt pd := way.grows tree hroot grows
  have user4 := (grows.entry tree (tree.root root hroot).1 (nextTable_eq_some way.level4).1).2
  have user3 := (grows.entry tree on3.mem (nextTable_eq_some way.level3).1).2
  have same : s'.table pd (pdIndex v) = s.table pd (pdIndex v) :=
    grows.table_huge tree on2.mem present huge
  rcases result with eq | ⟨pt', -, home', eq⟩
  · rw [eq]
    exact ⟨grown, same, user4, user3⟩
  · obtain ⟨upper, same4, same3, same2⟩ :=
      grown.store tree' hroot' (congrArg length home') (ptIndex w) (Vmm.leafEntry phys flags)
    rw [eq]
    exact ⟨upper, same2.trans same, by rw [same4]; exact user4, by rw [same3]; exact user3⟩

lemma mapPageIn_hugeAt (w phys flags : BitVec 64) (huge : HugeAt s root v entry) :
    HugeAt (s.mapPageIn root w phys flags) root v entry := by
  obtain ⟨pdpt, pd, way, rfl, isHuge⟩ := huge
  obtain ⟨upper, same, -⟩ := mapPageIn_huge_way tree hroot w phys flags way isHuge
  exact ⟨pdpt, pd, upper, same, isHuge⟩

lemma mapPageIn_userHuge (w phys flags : BitVec 64) (huge : UserHuge s root v entry) :
    UserHuge (s.mapPageIn root w phys flags) root v entry := by
  obtain ⟨pdpt, pd, way, u4, u3, rfl, isHuge⟩ := huge
  obtain ⟨upper, same, user4, user3⟩ := mapPageIn_huge_way tree hroot w phys flags way isHuge
  exact ⟨pdpt, pd, upper, user4 _ u4, user3 _ u3, same, isHuge⟩

lemma mapPageIn_noHugeWay (w phys flags : BitVec 64) (no : NoHugeWay s root v) :
    NoHugeWay (s.mapPageIn root w phys flags) root v := by
  obtain ⟨P', s', grows, tree', hroot', result⟩ := mapPageIn_grown tree hroot w phys flags
  have grown : NoHugeWay s' root v := grows.noHugeWay tree hroot no
  rcases result with eq | ⟨pt', -, home', eq⟩
  · rwa [eq]
  · obtain ⟨memRoot, home, -⟩ := tree'.root root hroot'
    have low : (P'.home pt').length = 3 := by simp [home']
    rw [eq]
    intro pdpt pd way
    -- the store is in a PT: the tables of the way are those of before
    have level4 := way.level4
    rw [store_table_of_home (P := P') (by simp [low, home])] at level4
    obtain ⟨mem3, home3⟩ := tree'.placed.child root memRoot (by simp [home]) _ _ level4
    have level3 := way.level3
    rw [store_table_of_home (P := P') (by simp [low, home3, home])] at level3
    obtain ⟨-, home2⟩ := tree'.placed.child pdpt mem3 (by simp [home3, home]) _ _ level3
    rw [store_table_of_home (P := P') (by simp [low, home2, home3, home])]
    exact grown pdpt pd ⟨level4, level3⟩

lemma mapPageIn_own (v phys : Addr) (user : hasFlag flags pteUser = true) :
    UserLeaf (s.mapPageIn root v phys flags) root v (Vmm.leafEntry phys flags) ∨
    (∃ entry, UserHuge (s.mapPageIn root v phys flags) root v entry) ∨
    ((s.mapPageIn root v phys flags).pages = [] ∧
      MissingTable (s.mapPageIn root v phys flags) root v ∧
      ∀ pdpt pd pt, ¬Way s root v pdpt pd pt) := by
  obtain ⟨P', s', grows, result⟩ := mapPageIn_cases tree hroot v phys flags
  rcases result with ⟨eq, ⟨pages, missing⟩ | ⟨pdpt, pd, way, huge, users⟩⟩ |
    ⟨pdpt, pd, pt, way, users, eq⟩
  · right; right
    rw [eq]
    refine ⟨pages, missing, fun pdpt pd pt way => ?_⟩
    have grown : Way s' root v pdpt pd pt := way.grows tree hroot grows
    exact absurd ((nextTable_eq_some grown.level2).1.symm.trans
      (missing pdpt pd grown.toUpperWay)) (by decide)
  · right; left
    rw [eq]
    exact ⟨_, pdpt, pd, way, (users user).1, (users user).2, rfl, huge⟩
  · left
    have tree' : Tree P' s' := grows.tree tree
    have hroot' := grows.root_mem tree hroot
    obtain ⟨-, home⟩ := way.places tree' hroot'
    have low : (P'.home pt).length = 3 := by simp [home]
    obtain ⟨upper, same4, same3, same2⟩ :=
      way.toUpperWay.store tree' hroot' low (ptIndex v) (Vmm.leafEntry phys flags)
    obtain ⟨u4, u3, u2⟩ := users user
    rw [eq]
    exact ⟨pdpt, pd, pt, ⟨upper, by rw [same2]; exact way.level2⟩, by rw [same4]; exact u4,
      by rw [same3]; exact u3, by rw [same2]; exact u2, store_table_self ..⟩

lemma mapPageIn_own_huge (phys : Addr) (user : hasFlag flags pteUser = true)
    (huge : HugeAt s root v entry) : UserHuge (s.mapPageIn root v phys flags) root v entry := by
  obtain ⟨P', kept⟩ := mapPageIn_kept tree hroot v phys flags
  obtain ⟨pdpt, pd, way, rfl, isHuge⟩ := huge
  obtain ⟨upper, same, -⟩ := mapPageIn_huge_way tree hroot v phys flags way isHuge
  rcases mapPageIn_own tree hroot v phys user with leaf | ⟨entry, huge⟩ | ⟨-, missing, -⟩
  · obtain ⟨pdpt', pd', pt, way', -⟩ := leaf
    obtain rfl : pdpt = pdpt' := Option.mem_unique upper.level4 way'.level4
    obtain rfl : pd = pd' := Option.mem_unique upper.level3 way'.level3
    have stop := nextTable_huge (same.symm ▸ isHuge)
    exact absurd (stop.symm.trans way'.level2) (by simp)
  · obtain ⟨pdpt', pd', way', u4, u3, hentry, huge⟩ := huge
    obtain rfl : pdpt = pdpt' := Option.mem_unique upper.level4 way'.level4
    obtain rfl : pd = pd' := Option.mem_unique upper.level3 way'.level3
    exact ⟨pdpt, pd, way', u4, u3, same, isHuge⟩
  · obtain ⟨-, -, on2, home2⟩ := way.places tree hroot
    have present := tree.solid pd on2.mem (by simp [home2]) _ isHuge
    have absent := missing pdpt pd upper
    rw [same] at absent
    exact absurd (present.symm.trans absent) (by decide)

end

lemma UserLeaf.translate (tree : Tree P s) (hroot : root ∈ s.pml4 :: s.roots)
    (leaf : UserLeaf s root v (Vmm.leafEntry phys flags)) (user : hasFlag flags pteUser = true)
    (disjoint : flags &&& pteAddrMask = 0) :
    ∃ t, s.translate root v = some t ∧ t.user = true ∧ t.writable = hasFlag flags pteWritable ∧
      t.phys = (phys &&& pteAddrMask) ||| (v.setWidth 12).setWidth 64 := by
  obtain ⟨pdpt, pd, pt, way, u4, u3, u2, hleaf⟩ := leaf
  obtain ⟨on3, home3, on2, home2⟩ := way.toUpperWay.places tree hroot
  obtain ⟨memRoot, home, -⟩ := tree.root root hroot
  have w4 := tree.writable root memRoot (by simp [home]) _ (nextTable_eq_some way.level4).1
  have w3 := tree.writable pdpt on3.mem (by simp [home3]) _ (nextTable_eq_some way.level3).1
  have w2 := tree.writable pd on2.mem (by simp [home2]) _ (nextTable_eq_some way.level2).1
  have read := way.entries
  rw [hleaf] at read
  have last : [s.table root (pml4Index v), s.table pdpt (pdptIndex v), s.table pd (pdIndex v),
      Vmm.leafEntry phys flags].getLast? = some (Vmm.leafEntry phys flags) := rfl
  unfold Vmm.translate translation
  rw [read, last]
  simp only [present_leafEntry, length_cons, length_nil, Nat.reduceAdd,
    Nat.reduceLeDiff, decide_true, Bool.and_self, if_true]
  refine ⟨_, rfl, ?_, ?_, ?_⟩
  · simp [u4, u3, u2, hasFlag_leafEntry phys flags pteUser (by decide), user]
  · simp [w4, w3, w2, hasFlag_leafEntry phys flags pteWritable (by decide),
      show hasFlag ptePresent pteWritable = false by decide]
  · show physIn (offsetBits 4) _ _ = _
    rw [(leafEntry_spec phys disjoint).1]
    exact physIn_page phys v

lemma UserHuge.translate (tree : Tree P s) (hroot : root ∈ s.pml4 :: s.roots)
    (huge : UserHuge s root v entry) :
    ∃ t, s.translate root v = some t ∧ t.user = hasFlag entry pteUser ∧ t.writable = true := by
  obtain ⟨pdpt, pd, way, u4, u3, rfl, isHuge⟩ := huge
  obtain ⟨on3, home3, on2, home2⟩ := way.places tree hroot
  obtain ⟨memRoot, home, -⟩ := tree.root root hroot
  have present := tree.solid pd on2.mem (by simp [home2]) _ isHuge
  have w4 := tree.writable root memRoot (by simp [home]) _ (nextTable_eq_some way.level4).1
  have w3 := tree.writable pdpt on3.mem (by simp [home3]) _ (nextTable_eq_some way.level3).1
  have w2 := tree.writable pd on2.mem (by simp [home2]) _ present
  refine ⟨_, translate_huge way present isHuge, ?_, ?_⟩
  · simp [u4, u3]
  · simp [w4, w3, w2]

lemma OnPath.index_of_root (tree : Tree P s) (on : OnPath P s root w t i)
    (hr : t ∈ s.pml4 :: s.roots) : i = pml4Index w := by
  have path := on.path
  rw [(tree.root t hr).2.1] at path
  exact (cons_prefix_cons.mp path).1

lemma Tree.off_of_root (tree : Tree P s) (hr : r ∈ s.pml4 :: s.roots) {idx : Index}
    (other : idx ≠ pml4Index w) : ¬ P.home r ++ [idx] <+: indices w := by
  rw [(tree.root r hr).2.1]
  exact fun path => other (cons_prefix_cons.mp path).1

def LowerUser : VmmEvent → Prop
  | .mapPage v _ flags => hasFlag flags pteUser = true → v.toNat < 2 ^ 47
  | .mapPageIn _ v _ flags => hasFlag flags pteUser = true → v.toNat < 2 ^ 47
  | _ => True

def UpperClosed (s : Vmm) : Prop :=
  ∀ r ∈ s.pml4 :: s.roots, ∀ idx : Index, 256 ≤ idx.toNat → hasFlag (s.table r idx) pteUser = false

lemma pml4Index_lower (hv : v.toNat < 2 ^ 47) : (pml4Index v).toNat < 256 := by
  rw [pml4Index_toNat]
  omega

lemma widens_lower (he : e.Widens virt user) (lower : LowerUser e) :
    user = true → virt.toNat < 2 ^ 47 := by
  intro huser
  cases e with
  | mapPage v phys flags =>
    obtain ⟨rfl, rfl⟩ := he
    exact lower huser
  | mapPageIn root v phys flags =>
    obtain ⟨rfl, rfl⟩ := he
    exact lower huser
  | mapMmio phys size => exact absurd (huser.symm.trans he.1) (by decide)
  | _ => exact absurd he id

lemma Grow.upperClosed (h : Grow root virt user x y) (tree : Tree x.1 x.2)
    (lower : user = true → virt.toNat < 2 ^ 47) (closed : UpperClosed x.2) : UpperClosed y.2 := by
  intro r hr idx high
  rw [(h.stable tree).pml4, h.roots] at hr
  have was := closed r hr idx high
  rcases h.slot (i := idx) tree (tree.root r hr).1 with same | ⟨on, -, grown⟩
  · rw [same]
    exact was
  · have kernel : user = false := by
      cases user with
      | false => rfl
      | true =>
        have low := pml4Index_lower (lower rfl)
        rw [← on.index_of_root tree hr] at low
        omega
    generalize y.2.table r idx = new at grown ⊢
    cases grown with
    | link _ aligned hbits =>
      rw [hasFlag_or, hbits.user, hasFlag_of_aligned aligned (by decide), kernel]
      rfl
    | widen _ _ hbits =>
      rw [hasFlag_or, hbits.user, was, kernel]
      rfl

lemma Edit.upperClosed (h : Edit e x y) (lower : LowerUser e) (tree : Tree x.1 x.2)
    (closed : UpperClosed x.2) : UpperClosed y.2 := by
  have roots : ∀ {P : Place} {s : Vmm} {t : Addr} {i : Index} {entry : Pte}, Tree P s →
      (P.home t).length ≠ 0 → UpperClosed s → UpperClosed (s.store t i entry) := by
    intro P s t i entry tree deep closed r hr idx high
    rw [store_table_of_home (P := P) (by simp [(tree.root r hr).2.1]; simpa using deep)]
    exact closed r hr idx high
  cases h with
  | grow he h => exact h.upperClosed tree (widens_lower he lower) closed
  | leaf mem low => exact roots tree (by rw [low]; decide) closed
  | device he above below aligned mem place => exact roots tree (by simp [place]) closed
  | mark he mem place huge => exact roots tree (by simp [place]) closed
  | @root P s page rest he answer =>
    have tree : Tree P s := tree
    intro r hr idx high
    have shape := tree.createAddressSpace_eq answer
    show hasFlag (s.createAddressSpace.1.table r idx) pteUser = false
    by_cases hpage : r = page
    · rw [shape, hpage]
      simp only [Vmm.fill, Function.update_self]
      unfold Vmm.clonedEntries
      rw [if_pos (.inr high)]
      exact closed s.pml4 mem_cons_self idx high
    · have old : r ∈ s.pml4 :: s.roots := by
        have hr : r ∈ s.createAddressSpace.1.pml4 :: s.createAddressSpace.1.roots := hr
        rw [shape] at hr
        simp only [Vmm.fill, mem_cons] at hr ⊢
        tauto
      rw [newRoot_table tree answer (tree.root r old).1]
      exact closed r old idx high
  | supply fresh => exact closed

lemma run_upperClosed {m : StaticTables} {memory : Addr → Index → Pte}
    {trace : List (StepOf Vmm VmmEvent)} (run : Run VmmStep (vmmInit m memory) trace s)
    (lower : ∀ st ∈ trace, LowerUser st.event) : UpperClosed s := by
  apply run_of_edits _ (fun h lower tree closed => h.upperClosed lower tree closed) run lower
  intro r hr idx high
  obtain rfl : r = m.initPml4 := by simpa [vmmInit] using hr
  rw [vmmInit_pml4, if_neg]
  · exact hasFlag_zero _
  · rintro rfl
    simp at high

end MicroOs.Mm
