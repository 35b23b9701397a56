import MicroOs.Mm.Proofs.VmmTree

/-!
# The calls of the VMM as edits

Each call makes a sequence of edits. A walk that creates tables only grows the tree on the way to
its address; where it succeeds, the way is complete.
-/

namespace MicroOs.Mm
open Lib Relation

variable {P' : Place} {b page pd pdpt r t v : Addr} {bits : Pte} {e : VmmEvent} {i j : Index}
  {rest : List Addr}
variable {P : Place} {s s' : Vmm} {root virt : Addr} {user : Bool} {x y : Place × Vmm}

lemma link_table_of_ne (h : (b, j) ≠ (t, i)) (hpage : b ≠ page) :
    (s.link t i page rest bits).table b j = s.table b j := by
  unfold Vmm.link
  rw [store_table_of_ne _ h]
  simp [Vmm.fill, hpage]

@[simp] lemma link_table_self : (s.link t i page rest bits).table t i = page ||| bits := by
  simp [Vmm.link]

lemma link_table_page (h : t ≠ page) : (s.link t i page rest bits).table page j = 0 := by
  unfold Vmm.link
  rw [store_table_of_ne _ (fun he => h (congrArg Prod.fst he).symm)]
  simp [Vmm.fill]

structure Stable (x y : Place × Vmm) : Prop where
  pml4 : y.2.pml4 = x.2.pml4
  tables : ∀ t ∈ x.2.tables, t ∈ y.2.tables
  home : ∀ t ∈ x.2.tables, y.1.home t = x.1.home t
  owner : ∀ t ∈ x.2.tables, y.1.owner t = x.1.owner t

lemma Stable.refl (x : Place × Vmm) : Stable x x :=
  ⟨rfl, fun _ h => h, fun _ _ => rfl, fun _ _ => rfl⟩

lemma Stable.trans {z : Place × Vmm} (h : Stable x y) (h' : Stable y z) : Stable x z where
  pml4 := h'.pml4.trans h.pml4
  tables t ht := h'.tables t (h.tables t ht)
  home t ht := (h'.home t (h.tables t ht)).trans (h.home t ht)
  owner t ht := (h'.owner t (h.tables t ht)).trans (h.owner t ht)

lemma stable_fill (tree : Tree P s) (answer : s.pages = page :: rest) {s' : Vmm}
    (hpml4 : s'.pml4 = s.pml4) (htables : s'.tables = page :: s.tables) (home : List Index)
    (owner : Addr) : Stable (P, s) (P.put page home owner, s') := by
  have old : ∀ t ∈ s.tables, t ≠ page := fun t => tree.ne_of_pages answer
  refine ⟨hpml4, fun t ht => ?_, fun t ht => put_home_of_ne (old t ht),
    fun t ht => put_owner_of_ne (old t ht)⟩
  rw [htables]
  exact List.mem_cons_of_mem _ ht

lemma Grow.stable (h : Grow root virt user x y) (tree : Tree x.1 x.2) : Stable x y := by
  cases h with
  | @link P s t i page rest bits on deep absent answer hbits =>
    have tree : Tree P s := tree
    exact stable_fill tree answer (by rfl) (by rfl) _ _
  | widen => exact ⟨rfl, fun _ h => h, fun _ _ => rfl, fun _ _ => rfl⟩

lemma Grow.roots (h : Grow root virt user x y) : y.2.roots = x.2.roots := by
  cases h <;> rfl

/-- What an entry on the way becomes: a link to a new table, or the old entry with more bits. -/
inductive Grown (user : Bool) (old : Pte) : Pte → Prop
  | link {page bits : Pte} (absent : hasFlag old ptePresent = false)
      (aligned : page &&& pteAddrMask = page) (hbits : InterBits bits user) :
      Grown user old (page ||| bits)
  | widen {bits : Pte} (present : hasFlag old ptePresent = true)
      (small : hasFlag old pteHuge = false) (hbits : InterBits bits user) :
      Grown user old (old ||| bits)

section
variable (h : Grow root virt user x y) (tree : Tree x.1 x.2)
include h tree

lemma Grow.slot (ht : t ∈ x.2.tables) :
    y.2.table t i = x.2.table t i ∨ OnPath x.1 x.2 root virt t i ∧
      (x.1.home t).length < 3 ∧ Grown user (x.2.table t i) (y.2.table t i) := by
  cases h with
  | @link P s b j page rest bits on deep absent answer hbits =>
    by_cases h : (t, i) = (b, j)
    · obtain ⟨rfl, rfl⟩ := Prod.mk.injEq .. ▸ h
      refine .inr ⟨on, deep, ?_⟩
      rw [link_table_self]
      exact .link absent (Tree.aligned_of_pages tree answer) hbits
    · exact .inl (link_table_of_ne h (Tree.ne_of_pages tree answer ht))
  | @widen P s b j bits on deep present small hbits =>
    by_cases h : (t, i) = (b, j)
    · obtain ⟨rfl, rfl⟩ := Prod.mk.injEq .. ▸ h
      refine .inr ⟨on, deep, ?_⟩
      rw [store_table_self]
      exact .widen present small hbits
    · exact .inl (store_table_of_ne _ h)

lemma Grow.entry (ht : t ∈ x.2.tables) (present : hasFlag (x.2.table t i) ptePresent = true) :
    nextTable (y.2.table t i) = nextTable (x.2.table t i) ∧
    ∀ flag, hasFlag (x.2.table t i) flag = true → hasFlag (y.2.table t i) flag = true := by
  rcases h.slot (i := i) tree ht with same | ⟨-, -, grown⟩
  · rw [same]
    exact ⟨rfl, fun _ h => h⟩
  · generalize y.2.table t i = new at grown ⊢
    cases grown with
    | link absent => exact absurd (present.symm.trans absent) (by decide)
    | widen _ _ hbits =>
      refine ⟨nextTable_widen hbits present, fun flag was => ?_⟩
      rw [hasFlag_or, was, Bool.true_or]

lemma Grow.table_huge (mem : t ∈ x.2.tables) (present : hasFlag (x.2.table t i) ptePresent = true)
    (huge : hasFlag (x.2.table t i) pteHuge = true) : y.2.table t i = x.2.table t i := by
  rcases h.slot (i := i) tree mem with same | ⟨-, -, grown⟩
  · exact same
  · generalize y.2.table t i = new at grown ⊢
    cases grown with
    | link absent => exact absurd (present.symm.trans absent) (by decide)
    | widen _ small => exact absurd (huge.symm.trans small) (by decide)

end

abbrev Grows (root virt : Addr) (user : Bool) := ReflTransGen (Grow root virt user)

section
variable (h : Grows root virt user x y)
include h

lemma Grows.tree (tree : Tree x.1 x.2) : Tree y.1 y.2 := by
  induction h with
  | refl => exact tree
  | tail _ h ih => exact h.tree ih

lemma Grows.stable (tree : Tree x.1 x.2) : Stable x y := by
  induction h with
  | refl => exact Stable.refl x
  | tail before h ih => exact ih.trans (h.stable (Grows.tree before tree))

lemma Grows.roots : y.2.roots = x.2.roots := by
  induction h with
  | refl => rfl
  | tail _ h ih => exact h.roots.trans ih

lemma Grows.entry (tree : Tree x.1 x.2) (ht : t ∈ x.2.tables)
    (present : hasFlag (x.2.table t i) ptePresent = true) :
    nextTable (y.2.table t i) = nextTable (x.2.table t i) ∧
    ∀ flag, hasFlag (x.2.table t i) flag = true → hasFlag (y.2.table t i) flag = true := by
  induction h with
  | refl => exact ⟨rfl, fun _ h => h⟩
  | tail before h ih =>
    have mem := (Grows.stable before tree).tables t ht
    obtain ⟨next, flags⟩ := h.entry (Grows.tree before tree) mem (ih.2 _ present)
    exact ⟨next.trans ih.1, fun flag hflag => flags flag (ih.2 flag hflag)⟩

lemma Grows.leads (tree : Tree x.1 x.2) (ht : t ∈ x.2.tables)
    (leads : nextTable (x.2.table t i) = some b) : nextTable (y.2.table t i) = some b :=
  (h.entry tree ht (nextTable_eq_some leads).1).1.trans leads

end

lemma descend_cases (s : Vmm) (t : Addr) (i : Index) (bits : Pte) :
    (hasFlag (s.table t i) ptePresent = false ∧ s.pages = [] ∧
      s.descend t i true bits = (s, none)) ∨
    (hasFlag (s.table t i) ptePresent = false ∧ ∃ page rest, s.pages = page :: rest ∧
      s.descend t i true bits =
        (s.link t i page rest bits, some ((page ||| bits) &&& pteAddrMask))) ∨
    (hasFlag (s.table t i) ptePresent = true ∧
      s.descend t i true bits = (s.store t i (s.table t i ||| bits),
        some ((s.table t i ||| bits) &&& pteAddrMask))) := by
  cases present : hasFlag (s.table t i) ptePresent with
  | true =>
    right; right
    simp [Vmm.descend, present]
  | false =>
    cases pages : s.pages with
    | nil => simp [Vmm.descend, present, Vmm.allocTable, Vmm.allocPage, pages]
    | cons page rest =>
      right; left
      refine ⟨rfl, page, rest, rfl, ?_⟩
      simp only [Vmm.descend, present, Vmm.allocTable, Vmm.allocPage, pages, Bool.not_false,
        Bool.not_true, ↓reduceIte, Bool.false_eq_true, store_table_self]
      rfl

lemma descend_none (h : s.descend t i true bits = (s', none)) :
    s' = s ∧ s.pages = [] ∧ hasFlag (s.table t i) ptePresent = false := by
  rcases descend_cases s t i bits with ⟨absent, pages, eq⟩ | ⟨-, page, rest, -, eq⟩ | ⟨-, eq⟩
  · rw [eq, Prod.mk.injEq] at h
    exact ⟨h.1.symm, pages, absent⟩
  · rw [eq] at h
    cases h
  · rw [eq] at h
    cases h

/-- The way to `virt` from `root` comes to `t` after the indices `above`. -/
structure Reached (P : Place) (s : Vmm) (root virt t : Addr) (above : List Index) : Prop where
  mem : t ∈ s.tables
  home : P.home t = above
  owner : UserHalf (pml4Index virt) → P.owner t = root

section Reached
variable {P' : Place} {t b : Addr} {i : Index} {above : List Index} {bits : Pte}

lemma Reached.top (tree : Tree P s) (hroot : root ∈ s.pml4 :: s.roots) :
    Reached P s root virt root [] := by
  obtain ⟨mem, home, own⟩ := tree.root root hroot
  exact ⟨mem, home, fun _ => own⟩

section
variable (here : Reached P s root virt t above)
include here

lemma Reached.on (path : above ++ [i] <+: indices virt) : OnPath P s root virt t i :=
  ⟨here.mem, here.home ▸ path, here.owner⟩

lemma Reached.stable (h : Stable (P, s) (P', s')) : Reached P' s' root virt t above :=
  ⟨h.tables t here.mem, (h.home t here.mem).trans here.home,
    fun half => (h.owner t here.mem).trans (here.owner half)⟩

lemma Reached.next (tree : Tree P s) (path : above ++ [i] <+: indices virt)
    (deep : above.length < 3) (leads : nextTable (s.table t i) = some b) :
    Reached P s root virt b (above ++ [i]) := by
  obtain ⟨mem, home, own⟩ := (tree.entry t here.mem i).child (here.home ▸ deep) b leads
  rw [here.home] at home
  refine ⟨mem, home, fun half => (own fun j hj => ?_).trans (here.owner half)⟩
  obtain ⟨rest, whole⟩ := path
  have head := congrArg List.head? whole
  rw [home] at hj
  rw [List.head?_append, hj] at head
  obtain rfl : j = pml4Index virt := Option.some.inj head
  exact half

end

lemma descend_some (tree : Tree P s) (here : Reached P s root virt t above)
    (path : above ++ [i] <+: indices virt) (deep : above.length < 3)
    (small : hasFlag (s.table t i) ptePresent = true → hasFlag (s.table t i) pteHuge = false)
    (hbits : InterBits bits user) (h : s.descend t i true bits = (s', some b)) :
    ∃ P', Grows root virt user (P, s) (P', s') ∧ Tree P' s' ∧ nextTable (s'.table t i) = some b ∧
      (user = true → hasFlag (s'.table t i) pteUser = true) ∧
      Reached P' s' root virt b (above ++ [i]) := by
  have on := here.on path
  have deep' : (P.home t).length < 3 := here.home ▸ deep
  suffices ∃ P', Grow root virt user (P, s) (P', s') ∧ nextTable (s'.table t i) = some b ∧
      (user = true → hasFlag (s'.table t i) pteUser = true) by
    obtain ⟨P', grow, leads, users⟩ := this
    exact ⟨P', .single grow, grow.tree tree, leads, users,
      (here.stable (grow.stable tree)).next (grow.tree tree) path deep leads⟩
  rcases descend_cases s t i bits with ⟨-, -, eq⟩ | ⟨absent, page, rest, answer, eq⟩ | ⟨present, eq⟩
  · rw [eq] at h
    cases h
  · rw [eq, Prod.mk.injEq] at h
    obtain ⟨rfl, hb⟩ := h
    refine ⟨_, .link on deep' absent answer hbits, ?_, fun huser => ?_⟩
    · rw [link_table_self, nextTable_link hbits (tree.aligned_of_pages answer), ← hb,
        addr_or hbits.outside, tree.aligned_of_pages answer]
    · rw [link_table_self, hasFlag_or, hbits.user, huser, Bool.or_true]
  · rw [eq, Prod.mk.injEq] at h
    obtain ⟨rfl, hb⟩ := h
    refine ⟨P, .widen on deep' present (small present) hbits, ?_, fun huser => ?_⟩
    · rw [store_table_self, nextTable_widen hbits present,
        nextTable_of_present present (small present), ← hb, addr_or hbits.outside]
    · rw [store_table_self, hasFlag_or, hbits.user, huser, Bool.or_true]

end Reached

/-- The upper two levels of the way to `virt` exist and lead to the PD `pd`. -/
structure UpperWay (s : Vmm) (root virt pdpt pd : Addr) : Prop where
  level4 : nextTable (s.table root (pml4Index virt)) = some pdpt
  level3 : nextTable (s.table pdpt (pdptIndex virt)) = some pd

/-- The whole way to `virt` exists and leads to the PT `pt`. -/
structure Way (s : Vmm) (root virt pdpt pd pt : Addr) : Prop extends
    UpperWay s root virt pdpt pd where
  level2 : nextTable (s.table pd (pdIndex virt)) = some pt

def MissingTable (s : Vmm) (root virt : Addr) : Prop :=
  ∀ pdpt pd, UpperWay s root virt pdpt pd → hasFlag (s.table pd (pdIndex virt)) ptePresent = false

/-- The way to `virt` ends in a 2 MiB page; what `user` asks for has been granted above it. -/
def HugeWay (s : Vmm) (root virt : Addr) (user : Bool) : Prop :=
  ∃ pdpt pd, UpperWay s root virt pdpt pd ∧ hasFlag (s.table pd (pdIndex virt)) pteHuge = true ∧
    (user = true → hasFlag (s.table root (pml4Index virt)) pteUser = true ∧
      hasFlag (s.table pdpt (pdptIndex virt)) pteUser = true)

lemma UpperWay.places (tree : Tree P s) (hroot : root ∈ s.pml4 :: s.roots)
    (way : UpperWay s root virt pdpt pd) :
    OnPath P s root virt pdpt (pdptIndex virt) ∧ P.home pdpt = [pml4Index virt] ∧
      OnPath P s root virt pd (pdIndex virt) ∧ P.home pd = [pml4Index virt, pdptIndex virt] := by
  have at3 := (Reached.top tree hroot).next tree ⟨_, rfl⟩ (by decide) way.level4
  have at2 := at3.next tree ⟨_, rfl⟩ (by simp) way.level3
  exact ⟨at3.on ⟨_, rfl⟩, at3.home, at2.on ⟨_, rfl⟩, at2.home⟩

lemma Way.places (tree : Tree P s) (hroot : root ∈ s.pml4 :: s.roots) {pt : Addr}
    (way : Way s root virt pdpt pd pt) :
    OnPath P s root virt pt (ptIndex virt) ∧
      P.home pt = [pml4Index virt, pdptIndex virt, pdIndex virt] := by
  have at3 := (Reached.top tree hroot).next tree ⟨_, rfl⟩ (by decide) way.level4
  have at2 := at3.next tree ⟨_, rfl⟩ (by simp) way.level3
  have at1 := at2.next tree ⟨_, rfl⟩ (by simp) way.level2
  exact ⟨at1.on ⟨_, rfl⟩, at1.home⟩

lemma Grows.root_mem (h : Grows r v user (P, s) (P', s')) (tree : Tree P s)
    (hroot : root ∈ s.pml4 :: s.roots) : root ∈ s'.pml4 :: s'.roots := by
  rw [(h.stable tree).pml4, h.roots]
  exact hroot

lemma UpperWay.grows (tree : Tree P s) (hroot : root ∈ s.pml4 :: s.roots)
    (way : UpperWay s root virt pdpt pd) (h : Grows r v user (P, s) (P', s')) :
    UpperWay s' root virt pdpt pd where
  level4 := h.leads tree (tree.root root hroot).1 way.level4
  level3 := h.leads tree (way.places tree hroot).1.mem way.level3

structure Walked (root virt : Addr) (user : Bool) (P' : Place) (x : Place × Vmm) (s' : Vmm)
    (result : Option (Addr × Index)) : Prop where
  grows : Grows root virt user x (P', s')
  /-- It fails for want of a page or because of a 2 MiB page. -/
  failed : result = none →
    (s'.pages = [] ∧ MissingTable s' root virt) ∨ HugeWay s' root virt user
  /-- Where it succeeds, the way is complete. -/
  found : ∀ pt idx, result = some (pt, idx) → idx = ptIndex virt ∧
    ∃ pdpt pd, Way s' root virt pdpt pd pt ∧
      (user = true → hasFlag (s'.table root (pml4Index virt)) pteUser = true ∧
        hasFlag (s'.table pdpt (pdptIndex virt)) pteUser = true ∧
        hasFlag (s'.table pd (pdIndex virt)) pteUser = true)

lemma walkIn_walked (tree : Tree P s) (hroot : root ∈ s.pml4 :: s.roots) (virt : Addr)
    (flags : Pte) :
    ∃ P', Walked root virt (hasFlag flags pteUser) P' (P, s) (s.walkIn root virt true flags).1
      (s.walkIn root virt true flags).2 := by
  have bits := interBits_inter flags
  have top : Reached P s root virt root [] := Reached.top tree hroot
  unfold Vmm.walkIn
  cases h4 : s.descend root (pml4Index virt) true (Vmm.inter flags) with
  | mk s1 r1 =>
  cases r1 with
  | none =>
    obtain ⟨rfl, pages, absent⟩ := descend_none h4
    refine ⟨P, .refl, fun _ => .inl ⟨pages, fun pdpt pd way => ?_⟩, by simp⟩
    exact absurd ((nextTable_eq_some way.level4).1.symm.trans absent) (by decide)
  | some pdpt =>
    obtain ⟨P1, grows1, tree1, leads1, user1, at3⟩ := descend_some tree top ⟨_, rfl⟩ (by decide)
      (tree.upper root top.mem (by simp [top.home]) _) bits h4
    have mem1 : root ∈ s1.tables := (grows1.stable tree).tables root top.mem
    simp only
    cases h3 : s1.descend pdpt (pdptIndex virt) true (Vmm.inter flags) with
    | mk s2 r2 =>
    cases r2 with
    | none =>
      obtain ⟨rfl, pages, absent⟩ := descend_none h3
      refine ⟨P1, grows1, fun _ => .inl ⟨pages, fun pdpt' pd way => ?_⟩, by simp⟩
      obtain rfl : pdpt = pdpt' := Option.mem_unique leads1 way.level4
      exact absurd ((nextTable_eq_some way.level3).1.symm.trans absent) (by decide)
    | some pd =>
      obtain ⟨P2, step2, tree2, leads2, user2, at2⟩ := descend_some tree1 at3 ⟨_, rfl⟩ (by simp)
        (tree1.upper pdpt at3.mem (by simp [at3.home]) _) bits h3
      have grows2 : Grows root virt _ (P, s) (P2, s2) := grows1.trans step2
      have upper : UpperWay s2 root virt pdpt pd := ⟨step2.leads tree1 mem1 leads1, leads2⟩
      have users : hasFlag flags pteUser = true →
          hasFlag (s2.table root (pml4Index virt)) pteUser = true ∧
          hasFlag (s2.table pdpt (pdptIndex virt)) pteUser = true := fun huser =>
        ⟨(step2.entry tree1 mem1 (nextTable_eq_some leads1).1).2 _ (user1 huser), user2 huser⟩
      simp only
      cases huge : hasFlag (s2.table pd (pdIndex virt)) pteHuge with
      | true => exact ⟨P2, grows2, fun _ => .inr ⟨pdpt, pd, upper, huge, users⟩, by simp⟩
      | false =>
        simp only [Bool.false_eq_true, ↓reduceIte]
        cases h2 : s2.descend pd (pdIndex virt) true (Vmm.inter flags) with
        | mk s3 r3 =>
        cases r3 with
        | none =>
          obtain ⟨rfl, pages, absent⟩ := descend_none h2
          refine ⟨P2, grows2, fun _ => .inl ⟨pages, fun pdpt' pd' way => ?_⟩, by simp⟩
          obtain rfl : pdpt = pdpt' := Option.mem_unique upper.level4 way.level4
          obtain rfl : pd = pd' := Option.mem_unique upper.level3 way.level3
          exact absent
        | some pt =>
          obtain ⟨P3, step3, -, leads3, user3, -⟩ := descend_some tree2 at2 ⟨_, rfl⟩ (by simp)
            (fun _ => huge) bits h2
          refine ⟨P3, grows2.trans step3, by simp, ?_⟩
          intro pt' idx h
          obtain ⟨rfl, rfl⟩ := Prod.mk.injEq .. ▸ Option.some.inj h
          refine ⟨rfl, pdpt, pd,
            ⟨upper.grows tree2 (grows2.root_mem tree hroot) step3, leads3⟩, fun huser => ?_⟩
          have mem2 := (step2.stable tree1).tables root mem1
          have mem3 := (step2.stable tree1).tables pdpt at3.mem
          exact ⟨(step3.entry tree2 mem2 (nextTable_eq_some upper.level4).1).2 _ (users huser).1,
            (step3.entry tree2 mem3 (nextTable_eq_some upper.level3).1).2 _ (users huser).2,
            user3 huser⟩

lemma walk_eq_walkIn (virt : Addr) (create : Bool) (flags : Pte) :
    s.walk virt create flags = s.walkIn s.pml4 virt create flags := rfl

lemma mapPage_eq_mapPageIn (virt phys flags : BitVec 64) :
    s.mapPage virt phys flags = s.mapPageIn s.pml4 virt phys flags := by
  unfold Vmm.mapPage Vmm.mapPageIn
  rw [walk_eq_walkIn]

lemma Tree.down (tree : Tree P s) (mem : t ∈ s.tables) (deep : (P.home t).length < 2)
    (present : hasFlag (s.table t i) ptePresent = true) :
    nextTable (s.table t i) = some (s.table t i &&& pteAddrMask) ∧
      s.table t i &&& pteAddrMask ∈ s.tables ∧
      P.home (s.table t i &&& pteAddrMask) = P.home t ++ [i] := by
  have leads := nextTable_of_present present (tree.upper t mem deep i present)
  exact ⟨leads, tree.placed.child t mem (by omega) i _ leads⟩

lemma descend_look (t : Addr) (i : Index) (bits : Pte) :
    s.descend t i false bits = if hasFlag (s.table t i) ptePresent then
      (s, some (s.table t i &&& pteAddrMask)) else (s, none) := by
  cases present : hasFlag (s.table t i) ptePresent <;> simp [Vmm.descend, present]

/-- A walk that creates nothing changes nothing. It finds the slot when the way is complete; it
fails at an absent entry or at a 2 MiB page. -/
lemma walk_look (tree : Tree P s) (virt : Addr) :
    (s.walk virt false 0 = (s, none) ∧
      ((∃ entry, (s.entries s.pml4 virt).getLast? = some entry ∧
          hasFlag entry ptePresent = false) ∨
        ∃ entry ∈ (s.entries s.pml4 virt).take 3, hasFlag entry pteHuge = true)) ∨
    ∃ pdpt pd pt, Way s s.pml4 virt pdpt pd pt ∧ s.walk virt false 0 = (s, some (pt, ptIndex virt)) := by
  unfold Vmm.walk Vmm.entries trailEntries indices
  rw [descend_look]
  cases present4 : hasFlag (s.table s.pml4 (pml4Index virt)) ptePresent with
  | false =>
    rw [trail_cons_none (nextTable_eq_none present4)]
    exact .inl ⟨rfl, .inl ⟨_, rfl, present4⟩⟩
  | true =>
    simp only [↓reduceIte]
    obtain ⟨leads4, mem3, home3⟩ := tree.down tree.pml4_mem (by simp [tree.pml4_home]) present4
    generalize s.table s.pml4 (pml4Index virt) &&& pteAddrMask = pdpt at leads4 mem3 home3 ⊢
    rw [tree.pml4_home] at home3
    rw [descend_look, trail_cons_some leads4]
    cases present3 : hasFlag (s.table pdpt (pdptIndex virt)) ptePresent with
    | false =>
      rw [trail_cons_none (nextTable_eq_none present3)]
      exact .inl ⟨rfl, .inl ⟨_, rfl, present3⟩⟩
    | true =>
      simp only [↓reduceIte]
      have leads3 := (tree.down mem3 (by simp [home3]) present3).1
      generalize s.table pdpt (pdptIndex virt) &&& pteAddrMask = pd at leads3 ⊢
      rw [trail_cons_some leads3]
      cases huge : hasFlag (s.table pd (pdIndex virt)) pteHuge with
      | true =>
        rw [trail_cons_none (nextTable_huge huge)]
        exact .inl ⟨rfl, .inr ⟨_, by simp, huge⟩⟩
      | false =>
        rw [descend_look]
        cases present2 : hasFlag (s.table pd (pdIndex virt)) ptePresent with
        | false =>
          rw [trail_cons_none (nextTable_eq_none present2)]
          exact .inl ⟨rfl, .inl ⟨_, rfl, present2⟩⟩
        | true =>
          exact .inr ⟨pdpt, pd, _, ⟨⟨leads4, leads3⟩, nextTable_of_present present2 huge⟩, rfl⟩

abbrev Edits (e : VmmEvent) := ReflTransGen (Edit e)

lemma Grows.edits (he : e.Widens virt user) (h : Grows root virt user x y) : Edits e x y :=
  ReflTransGen.mono (fun _ _ => Edit.grow he) x y h

lemma Edits.tree (h : Edits e x y) (tree : Tree x.1 x.2) : Tree y.1 y.2 := by
  induction h with
  | refl => exact tree
  | tail _ h ih => exact h.tree ih

/-- A mapping grows the tree on the way to its address and then writes at most the entry for it. -/
lemma mapPageIn_cases (tree : Tree P s) (hroot : root ∈ s.pml4 :: s.roots)
    (virt phys flags : BitVec 64) :
    ∃ P' s', Grows root virt (hasFlag flags pteUser) (P, s) (P', s') ∧
      ((s.mapPageIn root virt phys flags = s' ∧
          ((s'.pages = [] ∧ MissingTable s' root virt) ∨
            HugeWay s' root virt (hasFlag flags pteUser))) ∨
        ∃ pdpt pd pt, Way s' root virt pdpt pd pt ∧
          (hasFlag flags pteUser = true → hasFlag (s'.table root (pml4Index virt)) pteUser = true ∧
            hasFlag (s'.table pdpt (pdptIndex virt)) pteUser = true ∧
            hasFlag (s'.table pd (pdIndex virt)) pteUser = true) ∧
          s.mapPageIn root virt phys flags =
            s'.store pt (ptIndex virt) (Vmm.leafEntry phys flags)) := by
  obtain ⟨P', grows, failed, found⟩ := walkIn_walked tree hroot virt flags
  refine ⟨P', _, grows, ?_⟩
  unfold Vmm.mapPageIn
  generalize s.walkIn root virt true flags = w at failed found ⊢
  obtain ⟨s', r⟩ := w
  cases r with
  | none => exact .inl ⟨rfl, failed rfl⟩
  | some slot =>
    obtain ⟨pt, idx⟩ := slot
    obtain ⟨rfl, pdpt, pd, way, users⟩ := found pt idx rfl
    exact .inr ⟨pdpt, pd, pt, way, users, rfl⟩

lemma mapPageIn_grown (tree : Tree P s) (hroot : root ∈ s.pml4 :: s.roots)
    (virt phys flags : BitVec 64) :
    ∃ P' s', Grows root virt (hasFlag flags pteUser) (P, s) (P', s') ∧ Tree P' s' ∧
      root ∈ s'.pml4 :: s'.roots ∧ (s.mapPageIn root virt phys flags = s' ∨
        ∃ pt, OnPath P' s' root virt pt (ptIndex virt) ∧
          P'.home pt = [pml4Index virt, pdptIndex virt, pdIndex virt] ∧
          s.mapPageIn root virt phys flags =
            s'.store pt (ptIndex virt) (Vmm.leafEntry phys flags)) := by
  obtain ⟨P', s', grows, result⟩ := mapPageIn_cases tree hroot virt phys flags
  have tree' : Tree P' s' := grows.tree tree
  have hroot' := grows.root_mem tree hroot
  refine ⟨P', s', grows, tree', hroot', ?_⟩
  rcases result with ⟨eq, -⟩ | ⟨pdpt, pd, pt, way, -, eq⟩
  · exact .inl eq
  · obtain ⟨on, home⟩ := way.places tree' hroot'
    exact .inr ⟨pt, on, home, eq⟩

lemma mapPageIn_edits (tree : Tree P s) (hroot : root ∈ s.pml4 :: s.roots)
    (virt phys flags : BitVec 64) (he : e.Widens virt (hasFlag flags pteUser)) :
    ∃ P', Edits e (P, s) (P', s.mapPageIn root virt phys flags) := by
  obtain ⟨P', s', grows, -, -, eq | ⟨pt, on, home, eq⟩⟩ :=
    mapPageIn_grown tree hroot virt phys flags
  · rw [eq]
    exact ⟨P', grows.edits he⟩
  · rw [eq]
    exact ⟨P', (grows.edits he).tail (.leaf on.mem (by simp [home]))⟩

lemma unmapPage_edits (tree : Tree P s) (virt : Addr) : Edits e (P, s) (P, s.unmapPage virt) := by
  unfold Vmm.unmapPage
  rcases walk_look tree virt with ⟨eq, -⟩ | ⟨pdpt, pd, pt, way, eq⟩
  · rw [eq]
  · obtain ⟨on, home⟩ := way.places tree List.mem_cons_self
    rw [eq]
    exact .single (.leaf on.mem (by simp [home]))

lemma markHugeUser_edits (tree : Tree P s) {virt : Addr}
    (allowed : s.Allowed (.markHugeUser virt)) :
    Edits (.markHugeUser virt) (P, s) (P, s.markHugeUser virt) := by
  obtain ⟨present4, present3⟩ := allowed
  unfold Vmm.markHugeUser
  simp only
  obtain ⟨-, mem3, home3⟩ := tree.down tree.pml4_mem (by simp [tree.pml4_home]) present4
  generalize s.table s.pml4 (pml4Index virt) &&& pteAddrMask = pdpt at mem3 home3 present3 ⊢
  rw [tree.pml4_home] at home3
  obtain ⟨-, mem2, home2⟩ := tree.down mem3 (by simp [home3]) present3
  rw [home3] at home2
  split
  · rename_i huge
    exact .single (.mark rfl mem2 home2 huge)
  · exact .refl

lemma createAddressSpace_edits (P : Place) (s : Vmm) :
    ∃ P', Edits .createAddressSpace (P, s) (P', s.createAddressSpace.1) := by
  cases answer : s.pages with
  | nil =>
    rw [createAddressSpace_none answer]
    exact ⟨P, .refl⟩
  | cons page rest => exact ⟨_, .single (.root rfl answer)⟩

lemma ensureTable_of_absent (absent : hasFlag (s.table t i) ptePresent = false) (bits : Pte) :
    s.ensureTable t i bits = s.descend t i true bits := by
  simp [Vmm.ensureTable, Vmm.descend, absent]

lemma ensureTable_of_present (present : hasFlag (s.table t i) ptePresent = true) (bits : Pte) :
    s.ensureTable t i bits = (s, some (s.table t i &&& pteAddrMask)) := by
  simp [Vmm.ensureTable, present]

lemma ensureTable_some (tree : Tree P s) {above : List Index}
    (here : Reached P s root virt t above) (path : above ++ [i] <+: indices virt)
    (deep : above.length < 2) (h : s.ensureTable t i (ptePresent ||| pteWritable) = (s', some b)) :
    ∃ P', Grows root virt false (P, s) (P', s') ∧ Tree P' s' ∧ nextTable (s'.table t i) = some b ∧
      Reached P' s' root virt b (above ++ [i]) := by
  cases present : hasFlag (s.table t i) ptePresent with
  | false =>
    rw [ensureTable_of_absent present] at h
    obtain ⟨P', grows, tree', leads, -, below⟩ :=
      descend_some tree here path (by omega) (by simp [present]) interBits_kernel h
    exact ⟨P', grows, tree', leads, below⟩
  | true =>
    rw [ensureTable_of_present present, Prod.mk.injEq, Option.some.injEq] at h
    obtain ⟨rfl, rfl⟩ := h
    have leads := (tree.down here.mem (here.home ▸ deep) present).1
    exact ⟨P, .refl, tree, leads, here.next tree path (by omega) leads⟩

lemma ensureTable_none (h : s.ensureTable t i bits = (s', none)) : s' = s := by
  cases present : hasFlag (s.table t i) ptePresent with
  | false =>
    rw [ensureTable_of_absent present] at h
    exact (descend_none h).1
  | true =>
    rw [ensureTable_of_present present] at h
    cases h

lemma and_mask_eq_zero_iff (x : Addr) : x &&& 0x1FFFFF = 0 ↔ x.toNat % 2 ^ 21 = 0 := by
  rw [← BitVec.toNat_inj, BitVec.toNat_and]
  change x.toNat &&& (2 ^ 21 - 1) = 0 ↔ _
  rw [Nat.and_two_pow_sub_one_eq_mod]

lemma mapMmioLoop_edits {phys size : BitVec 64} (count : Nat) :
    ∀ {P : Place} {s : Vmm} {addr : Addr}, Tree P s → Vmm.mmioStart phys ≤ addr →
      (count ≠ 0 → addr.toNat + count * 2 ^ 21 ≤ (Vmm.mmioEnd phys size).toNat) →
      addr &&& 0x1FFFFF = 0 →
      ∃ P', Edits (.mapMmio phys size) (P, s) (P', Vmm.mapMmioLoop count s addr) := by
  induction count with
  | zero =>
    intro P s addr _ _ _ _
    exact ⟨P, .refl⟩
  | succ count ih =>
    intro P s addr tree above bound aligned
    have bound := bound (by omega)
    have below : addr < Vmm.mmioEnd phys size := by
      rw [BitVec.lt_def]
      omega
    have kernel : (VmmEvent.mapMmio phys size).Widens addr false := ⟨rfl, above, below⟩
    have top : Reached P s s.pml4 addr s.pml4 [] := Reached.top tree List.mem_cons_self
    unfold Vmm.mapMmioLoop
    cases h4 : s.ensureTable s.pml4 (pml4Index addr) (ptePresent ||| pteWritable) with
    | mk s1 r1 =>
    cases r1 with
    | none =>
      obtain rfl := ensureTable_none h4
      exact ⟨P, .refl⟩
    | some pdpt =>
      obtain ⟨P1, grows1, tree1, -, at3⟩ := ensureTable_some tree top ⟨_, rfl⟩ (by decide) h4
      simp only
      cases h3 : s1.ensureTable pdpt (pdptIndex addr) (ptePresent ||| pteWritable) with
      | mk s2 r2 =>
      cases r2 with
      | none =>
        obtain rfl := ensureTable_none h3
        exact ⟨P1, grows1.edits kernel⟩
      | some pd =>
        obtain ⟨P2, grows2, tree2, -, at2⟩ := ensureTable_some tree1 at3 ⟨_, rfl⟩ (by simp) h3
        have device : Edit (.mapMmio phys size) (P2, s2)
            (P2, s2.store pd (pdIndex addr) (Vmm.mmioEntry addr)) :=
          .device rfl above below aligned at2.mem at2.home
        have stop := (Vmm.mmioEnd phys size).isLt
        have step : (addr + 0x200000).toNat = addr.toNat + 2 ^ 21 := by
          have hugePage : (0x200000 : Addr).toNat = 2 ^ 21 := by decide
          rw [BitVec.toNat_add, hugePage]
          exact Nat.mod_eq_of_lt (by omega)
        have divides := (and_mask_eq_zero_iff addr).mp aligned
        rw [BitVec.le_def] at above
        obtain ⟨P3, rest⟩ := ih (device.tree tree2)
          (show Vmm.mmioStart phys ≤ addr + 0x200000 by rw [BitVec.le_def]; omega)
          (fun _ => by omega) ((and_mask_eq_zero_iff _).mpr (by omega))
        exact ⟨P3, (((grows1.edits kernel).trans (grows2.edits kernel)).tail device).trans rest⟩

lemma mapMmio_edits (tree : Tree P s) (phys size : BitVec 64) :
    ∃ P', Edits (.mapMmio phys size) (P, s) (P', s.mapMmio phys size) := by
  apply mapMmioLoop_edits _ tree (BitVec.le_refl _)
  · intro more
    omega
  · unfold Vmm.mmioStart
    rw [BitVec.and_assoc]
    exact BitVec.and_zero

lemma next_edits (tree : Tree P s) (allowed : s.Allowed e) :
    ∃ P', Edits e (P, s) (P', s.next e) := by
  cases e with
  | supply pages => exact ⟨P, .single (.supply allowed)⟩
  | mapPage virt phys flags =>
    show ∃ P', Edits _ (P, s) (P', s.mapPage virt phys flags)
    rw [mapPage_eq_mapPageIn]
    exact mapPageIn_edits tree List.mem_cons_self virt phys flags ⟨rfl, rfl⟩
  | unmapPage virt => exact ⟨P, unmapPage_edits tree virt⟩
  | mapPageIn root virt phys flags => exact mapPageIn_edits tree allowed virt phys flags ⟨rfl, rfl⟩
  | mapMmio phys size => exact mapMmio_edits tree phys size
  | markHugeUser virt => exact ⟨P, markHugeUser_edits tree allowed⟩
  | createAddressSpace => exact createAddressSpace_edits P s

end MicroOs.Mm
