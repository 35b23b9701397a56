import MicroOs.Mm.Vmm

/-!
# Page tables form a tree

The place of a page table are the indices that lead to it from a root. The invariant `Tree` says
that entries lead to the place below their own, that tables below the user half of a root belong
to that root alone, and that the entries of the upper levels are never pages. A call of the VMM is
a sequence of edits: it links an empty table, widens the permissions of an entry on the way, writes
an entry of a PT, makes or marks a 2 MiB page, or makes a root.
-/

namespace MicroOs.Mm
open Lib Relation List

variable {b page t : Addr} {e entry flag : Pte} {i j : Index} {rest : List Addr}

lemma hasFlag_or (a b flag : Pte) :
    hasFlag (a ||| b) flag = (hasFlag a flag || hasFlag b flag) := by
  have split : (a ||| b) &&& flag = 0#64 ↔ a &&& flag = 0#64 ∧ b &&& flag = 0#64 := by
    rw [BitVec.and_or_distrib_right, BitVec.or_eq_zero_iff]
  unfold hasFlag
  rw [Bool.eq_iff_iff]
  simp only [bne_iff_ne, ne_eq, Bool.or_eq_true]
  change ¬(a ||| b) &&& flag = 0#64 ↔ ¬a &&& flag = 0#64 ∨ ¬b &&& flag = 0#64
  rw [split]
  tauto

lemma hasFlag_of_aligned {page : Pte} (aligned : page &&& pteAddrMask = page)
    (outside : pteAddrMask &&& flag = 0) : hasFlag page flag = false := by
  unfold hasFlag
  rw [← aligned, BitVec.and_assoc, outside]
  simp

lemma addr_or {a b : Pte} (flags : b &&& pteAddrMask = 0) :
    (a ||| b) &&& pteAddrMask = a &&& pteAddrMask := by
  rw [BitVec.and_or_distrib_right, flags]
  simp

/-- The bits of a new or a widened intermediate entry. -/
structure InterBits (bits : Pte) (user : Bool) : Prop where
  outside : bits &&& pteAddrMask = 0
  present : hasFlag bits ptePresent = true
  writable : hasFlag bits pteWritable = true
  notHuge : hasFlag bits pteHuge = false
  executable : hasFlag bits pteNx = false
  user : hasFlag bits pteUser = user

lemma interBits_inter (flags : Pte) : InterBits (Vmm.inter flags) (hasFlag flags pteUser) := by
  unfold Vmm.inter
  cases hasFlag flags pteUser with
  | true | false => constructor <;> decide

lemma interBits_kernel : InterBits (ptePresent ||| pteWritable) false := by
  constructor <;> decide

variable {bits : Pte} {user : Bool}

lemma nextTable_link (hbits : InterBits bits user) (aligned : page &&& pteAddrMask = page) :
    nextTable (page ||| bits) = some page := by
  have huge : hasFlag page pteHuge = false := hasFlag_of_aligned aligned (by decide)
  unfold nextTable
  rw [hasFlag_or, hasFlag_or, hbits.present, hbits.notHuge, huge, addr_or hbits.outside, aligned]
  simp

lemma nextTable_widen (hbits : InterBits bits user) (present : hasFlag entry ptePresent = true) :
    nextTable (entry ||| bits) = nextTable entry := by
  unfold nextTable
  rw [hasFlag_or, hasFlag_or, hbits.notHuge, present, addr_or hbits.outside]
  simp

lemma nextTable_eq_none (absent : hasFlag entry ptePresent = false) : nextTable entry = none := by
  simp [nextTable, absent]

lemma nextTable_huge (huge : hasFlag entry pteHuge = true) : nextTable entry = none := by
  simp [nextTable, huge]

lemma nextTable_eq_some (h : nextTable entry = some t) :
    hasFlag entry ptePresent = true ∧ hasFlag entry pteHuge = false ∧
      entry &&& pteAddrMask = t := by
  unfold nextTable at h
  split at h
  · rename_i flags
    simp only [Bool.and_eq_true, Bool.not_eq_true'] at flags
    exact ⟨flags.1, flags.2, by simpa using h⟩
  · cases h

lemma nextTable_of_present (present : hasFlag entry ptePresent = true)
    (small : hasFlag entry pteHuge = false) : nextTable entry = some (entry &&& pteAddrMask) := by
  simp [nextTable, present, small]

@[simp] lemma hasFlag_zero (flag : Pte) : hasFlag 0#64 flag = false := by
  simp [hasFlag]

/-- Where each table is, and which root the tables below a user half belong to. -/
structure Place where
  home : Addr → List Index
  owner : Addr → Addr

def Place.put (P : Place) (page : Addr) (home : List Index) (owner : Addr) : Place :=
  ⟨Function.update P.home page home, Function.update P.owner page owner⟩

/-- The PML4 entries of the user half that a new root does not get from the kernel's. -/
def UserHalf (idx : Index) : Prop := 0 < idx.toNat ∧ idx.toNat < 256

/-- What an entry of a table has to satisfy: it leads to the place below its own, stays with the
owner in the user half, is no page in the upper levels, and huge or writable only as it should. -/
structure EntryOk (P : Place) (tables : List Addr) (t : Addr) (i : Index) (e : Pte) : Prop where
  child : (P.home t).length < 3 → ∀ b, nextTable e = some b → b ∈ tables ∧
    P.home b = P.home t ++ [i] ∧ ((∀ j ∈ (P.home b).head?, UserHalf j) → P.owner b = P.owner t)
  upper : (P.home t).length < 2 → hasFlag e ptePresent = true → hasFlag e pteHuge = false
  writable : (P.home t).length < 3 → hasFlag e ptePresent = true → hasFlag e pteWritable = true
  solid : (P.home t).length < 3 → hasFlag e pteHuge = true → hasFlag e ptePresent = true

structure Tree (P : Place) (s : Vmm) : Prop where
  fresh : Fresh s s.pages
  root : ∀ r ∈ s.pml4 :: s.roots, r ∈ s.tables ∧ P.home r = [] ∧ P.owner r = r
  distinct : (s.pml4 :: s.roots).Nodup
  entry : ∀ t ∈ s.tables, ∀ i, EntryOk P s.tables t i (s.table t i)

section Tree
variable {P : Place} {s : Vmm} {t : Addr} {i : Index}

section
variable (tree : Tree P s)
include tree

lemma Tree.placed : Placed nextTable s.table (· ∈ s.tables) P.home 4 where
  child t ht deep i b h :=
    have ⟨mem, home, _⟩ := (tree.entry t ht i).child (by omega) b h
    ⟨mem, home⟩

lemma Tree.keeps : ∀ t ∈ s.tables, (P.home t).length + 1 < 4 → ∀ i b,
    nextTable (s.table t i) = some b → (∀ j ∈ (P.home b).head?, UserHalf j) →
      P.owner b = P.owner t :=
  fun t ht deep i b h => ((tree.entry t ht i).child (by omega) b h).2.2

lemma Tree.upper (t : Addr) (ht : t ∈ s.tables) (deep : (P.home t).length < 2) (i : Index) :
    hasFlag (s.table t i) ptePresent = true → hasFlag (s.table t i) pteHuge = false :=
  (tree.entry t ht i).upper deep

lemma Tree.writable (t : Addr) (ht : t ∈ s.tables) (deep : (P.home t).length < 3) (i : Index) :
    hasFlag (s.table t i) ptePresent = true → hasFlag (s.table t i) pteWritable = true :=
  (tree.entry t ht i).writable deep

lemma Tree.solid (t : Addr) (ht : t ∈ s.tables) (deep : (P.home t).length < 3) (i : Index) :
    hasFlag (s.table t i) pteHuge = true → hasFlag (s.table t i) ptePresent = true :=
  (tree.entry t ht i).solid deep

end

end Tree

structure OnPath (P : Place) (s : Vmm) (root virt t : Addr) (i : Index) : Prop where
  mem : t ∈ s.tables
  path : P.home t ++ [i] <+: indices virt
  owner : UserHalf (pml4Index virt) → P.owner t = root

def Vmm.fill (s : Vmm) (page : Addr) (rest : List Addr) (entries : Index → Pte) : Vmm :=
  { s with
    pages := rest
    table := Function.update s.table page entries
    tables := page :: s.tables }

def Vmm.link (s : Vmm) (t : Addr) (i : Index) (page : Addr) (rest : List Addr) (bits : Pte) : Vmm :=
  (s.fill page rest fun _ => 0).store t i (page ||| bits)

/-- What a walk that creates tables does on the way to `virt` in `root`. -/
inductive Grow (root virt : Addr) (user : Bool) : Place × Vmm → Place × Vmm → Prop
  | link {P : Place} {s : Vmm} {t : Addr} {i : Index} {page : Addr} {rest : List Addr} {bits : Pte}
      (on : OnPath P s root virt t i) (deep : (P.home t).length < 3)
      (absent : hasFlag (s.table t i) ptePresent = false) (answer : s.pages = page :: rest)
      (hbits : InterBits bits user) :
      Grow root virt user (P, s) (P.put page (P.home t ++ [i]) (P.owner t), s.link t i page rest bits)
  | widen {P : Place} {s : Vmm} {t : Addr} {i : Index} {bits : Pte}
      (on : OnPath P s root virt t i) (deep : (P.home t).length < 3)
      (present : hasFlag (s.table t i) ptePresent = true)
      (small : hasFlag (s.table t i) pteHuge = false) (hbits : InterBits bits user) :
      Grow root virt user (P, s) (P, s.store t i (s.table t i ||| bits))

/-- The ways an event may grow the tree on, and whether it asks for the user flag. -/
def VmmEvent.Widens : VmmEvent → Addr → Bool → Prop
  | .mapPage v _ flags, virt, user => virt = v ∧ user = hasFlag flags pteUser
  | .mapPageIn _ v _ flags, virt, user => virt = v ∧ user = hasFlag flags pteUser
  | .mapMmio phys size, virt, user =>
    user = false ∧ Vmm.mmioStart phys ≤ virt ∧ virt < Vmm.mmioEnd phys size
  | _, _, _ => False

inductive Edit (e : VmmEvent) : Place × Vmm → Place × Vmm → Prop
  | grow {root virt : Addr} {user : Bool} {x y : Place × Vmm} (he : e.Widens virt user)
      (h : Grow root virt user x y) : Edit e x y
  | leaf {P : Place} {s : Vmm} {t : Addr} {i : Index} {entry : Pte} (mem : t ∈ s.tables)
      (low : (P.home t).length = 3) : Edit e (P, s) (P, s.store t i entry)
  | device {P : Place} {s : Vmm} {t phys size addr : Addr} (he : e = .mapMmio phys size)
      (above : Vmm.mmioStart phys ≤ addr) (below : addr < Vmm.mmioEnd phys size)
      (aligned : addr &&& 0x1FFFFF = 0) (mem : t ∈ s.tables) (place : P.home t = [pml4Index addr, pdptIndex addr]) :
      Edit e (P, s) (P, s.store t (pdIndex addr) (Vmm.mmioEntry addr))
  | mark {P : Place} {s : Vmm} {t virt : Addr} (he : e = .markHugeUser virt) (mem : t ∈ s.tables)
      (place : P.home t = [pml4Index virt, pdptIndex virt])
      (huge : hasFlag (s.table t (pdIndex virt)) pteHuge = true) :
      Edit e (P, s) (P, s.store t (pdIndex virt) (s.table t (pdIndex virt) ||| pteUser))
  | root {P : Place} {s : Vmm} {page : Addr} {rest : List Addr} (he : e = .createAddressSpace)
      (answer : s.pages = page :: rest) :
      Edit e (P, s) (P.put page [] page, s.createAddressSpace.1)
  | supply {P : Place} {s : Vmm} {pages : List Addr} (fresh : Fresh s pages) :
      Edit e (P, s) (P, { s with pages := pages })

variable {P : Place} {s : Vmm}

@[simp] lemma store_pml4 (t : Addr) (i : Index) (e : Pte) : (s.store t i e).pml4 = s.pml4 := rfl
@[simp] lemma store_roots (t : Addr) (i : Index) (e : Pte) :
    (s.store t i e).roots = s.roots := rfl

@[simp] lemma store_table_self (t : Addr) (i : Index) (e : Pte) :
    (s.store t i e).table t i = e := by
  simp [Vmm.store]

lemma store_table_of_ne (e : Pte) (h : (b, j) ≠ (t, i)) :
    (s.store t i e).table b j = s.table b j := by
  unfold Vmm.store
  by_cases hb : b = t
  · subst hb
    have hj : j ≠ i := fun hj => h (by rw [hj])
    simp [hj]
  · simp [hb]

lemma store_table_cases (q : Addr → Index → Pte → Prop) (new : q t i e)
    (old : q b j (s.table b j)) : q b j ((s.store t i e).table b j) := by
  by_cases h : (b, j) = (t, i)
  · obtain ⟨rfl, rfl⟩ := Prod.mk.injEq .. ▸ h
    rwa [store_table_self]
  · rwa [store_table_of_ne e h]

lemma Tree.store (tree : Tree P s) (ok : EntryOk P s.tables t i e) : Tree P (s.store t i e) where
  fresh := tree.fresh
  root := tree.root
  distinct := tree.distinct
  entry b hb j := store_table_cases (EntryOk P s.tables) ok (tree.entry b hb j)

section Entries
variable {tables : List Addr} {t : Addr} {i : Index} {e : Pte}

lemma entryOk_zero : EntryOk P tables t i 0 :=
  ⟨by simp [nextTable], by simp, by simp, by simp⟩

lemma entryOk_of_low (low : (P.home t).length = 3) : EntryOk P tables t i e :=
  ⟨by omega, by omega, by omega, by omega⟩

lemma entryOk_huge (level : (P.home t).length = 2) (huge : hasFlag e pteHuge = true)
    (present : hasFlag e ptePresent = true) (writable : hasFlag e pteWritable = true) :
    EntryOk P tables t i e where
  child _ b h := by
    rw [nextTable_huge huge] at h
    cases h
  upper := by omega
  writable _ _ := writable
  solid _ _ := present

end Entries

section Put
variable {page : Addr} {rest : List Addr} {home : List Index} {owner : Addr}

lemma put_home_of_ne (h : t ≠ page) : (P.put page home owner).home t = P.home t := by
  simp [Place.put, h]

lemma put_owner_of_ne (h : t ≠ page) : (P.put page home owner).owner t = P.owner t := by
  simp [Place.put, h]

@[simp] lemma put_home_self : (P.put page home owner).home page = home := by
  simp [Place.put]

@[simp] lemma put_owner_self : (P.put page home owner).owner page = owner := by
  simp [Place.put]

section
variable (tree : Tree P s) (answer : s.pages = page :: rest)
include tree answer

lemma Tree.not_mem_of_pages : page ∉ s.tables :=
  (tree.fresh.2 page (by simp [answer])).2.2

lemma Tree.ne_of_pages (ht : t ∈ s.tables) : t ≠ page :=
  fun h => tree.not_mem_of_pages answer (h ▸ ht)

lemma Tree.aligned_of_pages : page &&& pteAddrMask = page :=
  (tree.fresh.2 page (by simp [answer])).2.1

end

lemma EntryOk.put {tables : List Addr} (ok : EntryOk P tables t i e)
    (old : ∀ t ∈ tables, t ≠ page) (ht : t ≠ page) :
    EntryOk (P.put page home owner) (page :: tables) t i e := by
  have place : (P.put page home owner).home t = P.home t := put_home_of_ne ht
  refine ⟨?_, place ▸ ok.upper, place ▸ ok.writable, place ▸ ok.solid⟩
  rw [place, put_owner_of_ne ht]
  intro deep b h
  obtain ⟨mem, home, own⟩ := ok.child deep b h
  rw [put_home_of_ne (old b mem), put_owner_of_ne (old b mem)]
  exact ⟨mem_cons_of_mem _ mem, home, own⟩

lemma Tree.fill (tree : Tree P s) (answer : s.pages = page :: rest) {entries : Index → Pte}
    (ok : ∀ i, EntryOk (P.put page home owner) (page :: s.tables) page i (entries i)) :
    Tree (P.put page home owner) (s.fill page rest entries) := by
  have old : ∀ t ∈ s.tables, t ≠ page := fun t => tree.ne_of_pages answer
  constructor
  case fresh =>
    obtain ⟨nodup, pages⟩ := tree.fresh
    rw [answer] at nodup pages
    refine ⟨nodup.of_cons, fun p hp => ?_⟩
    obtain ⟨nonNull, aligned, notTable⟩ := pages p (mem_cons_of_mem _ hp)
    refine ⟨nonNull, aligned, fun h => ?_⟩
    rcases mem_cons.mp h with rfl | h
    · exact (nodup_cons.mp nodup).1 hp
    · exact notTable h
  case root =>
    intro r hr
    obtain ⟨mem, place, own⟩ := tree.root r hr
    rw [put_home_of_ne (old r mem), put_owner_of_ne (old r mem)]
    exact ⟨mem_cons_of_mem _ mem, place, own⟩
  case distinct => exact tree.distinct
  case entry =>
    intro t ht i
    rcases mem_cons.mp ht with rfl | ht
    · simpa [Vmm.fill] using ok i
    · have same : (s.fill page rest entries).table t = s.table t := by simp [Vmm.fill, old t ht]
      rw [same]
      exact (tree.entry t ht i).put old (old t ht)

end Put

/-- A new root takes entry 0 and the upper half from the kernel's PML4. -/
def Vmm.clonedEntries (s : Vmm) (idx : Index) : Pte :=
  if idx = 0 ∨ 256 ≤ idx.toNat then s.table s.pml4 idx else 0

lemma createAddressSpace_none (answer : s.pages = []) : s.createAddressSpace = (s, none) := by
  simp [Vmm.createAddressSpace, Vmm.allocTable, Vmm.allocPage, answer]

lemma createAddressSpace_some (answer : s.pages = page :: rest) (new : page ≠ s.pml4) :
    s.createAddressSpace =
      ({ s.fill page rest s.clonedEntries with roots := page :: s.roots }, some page) := by
  have other : s.pml4 ≠ page := new.symm
  simp only [Vmm.createAddressSpace, Vmm.allocTable, Vmm.allocPage, answer, Vmm.fill,
    Function.update_idem, Prod.mk.injEq, Vmm.mk.injEq, and_true]
  congr 1
  funext idx
  simp [Vmm.clonedEntries, other]

lemma Tree.pml4_mem (tree : Tree P s) : s.pml4 ∈ s.tables :=
  (tree.root s.pml4 mem_cons_self).1

lemma Tree.pml4_home (tree : Tree P s) : P.home s.pml4 = [] :=
  (tree.root s.pml4 mem_cons_self).2.1

lemma Tree.createAddressSpace_eq (tree : Tree P s) (answer : s.pages = page :: rest) :
    s.createAddressSpace =
      ({ s.fill page rest s.clonedEntries with roots := page :: s.roots }, some page) :=
  createAddressSpace_some answer (tree.ne_of_pages answer tree.pml4_mem).symm

lemma Tree.newRoot (tree : Tree P s) (answer : s.pages = page :: rest) :
    Tree (P.put page [] page) { s.fill page rest s.clonedEntries with roots := page :: s.roots } := by
  have old : ∀ t ∈ s.tables, t ≠ page := fun t => tree.ne_of_pages answer
  have top := tree.pml4_home
  have filled : Tree (P.put page [] page) (s.fill page rest s.clonedEntries) := by
    refine tree.fill answer fun i => ?_
    unfold Vmm.clonedEntries
    split
    · rename_i shared
      have ok := tree.entry s.pml4 tree.pml4_mem i
      refine ⟨fun _ b h => ?_, fun _ => ok.upper (by simp [top]), fun _ => ok.writable (by simp [top]),
        fun _ => ok.solid (by simp [top])⟩
      obtain ⟨mem, place, -⟩ := ok.child (by simp [top]) b h
      rw [top] at place
      rw [put_home_of_ne (old b mem), put_home_self, place]
      refine ⟨mem_cons_of_mem _ mem, rfl, fun user => ?_⟩
      -- the entries that are copied are not those of the user half
      have half := user i rfl
      rcases shared with rfl | shared
      · exact absurd half.1 (by decide)
      · exact absurd half.2 (by omega)
    · exact entryOk_zero
  refine { filled with root := ?_, distinct := ?_ }
  · intro r hr
    by_cases hpage : r = page
    · subst hpage
      exact ⟨mem_cons_self, put_home_self, put_owner_self⟩
    · apply filled.root r
      simp only [mem_cons] at hr ⊢
      tauto
  · have fresh : page ∉ s.pml4 :: s.roots := fun h => old page (tree.root page h).1 rfl
    have old := tree.distinct
    simp only [mem_cons, not_or] at fresh
    show (s.pml4 :: page :: s.roots).Nodup
    simp only [nodup_cons, mem_cons, not_or] at old ⊢
    exact ⟨⟨fun h => fresh.1 h.symm, old.1⟩, fresh.2, old.2⟩

lemma Grow.tree {root virt : Addr} {user : Bool} {x y : Place × Vmm} (h : Grow root virt user x y)
    (tree : Tree x.1 x.2) : Tree y.1 y.2 := by
  cases h with
  | @link P s t i page rest bits on deep absent answer hbits =>
    have new := tree.ne_of_pages answer on.mem
    have aligned := tree.aligned_of_pages answer
    have filled : Tree (P.put page (P.home t ++ [i]) (P.owner t)) (s.fill page rest fun _ => 0) :=
      tree.fill answer fun _ => entryOk_zero
    refine filled.store ⟨?_, ?_, ?_, ?_⟩
    · intro _ b hb
      rw [nextTable_link hbits aligned, Option.some.injEq] at hb
      subst hb
      rw [put_home_self, put_owner_self, put_home_of_ne new, put_owner_of_ne new]
      exact ⟨mem_cons_self, rfl, fun _ => rfl⟩
    · intro _ _
      rw [hasFlag_or, hbits.notHuge, hasFlag_of_aligned aligned (by decide)]
      rfl
    · intro _ _
      rw [hasFlag_or, hbits.writable, Bool.or_true]
    · intro _ _
      rw [hasFlag_or, hbits.present, Bool.or_true]
  | @widen P s t i bits on deep present small hbits =>
    refine tree.store ⟨?_, ?_, ?_, ?_⟩
    · rw [nextTable_widen hbits present]
      exact (tree.entry t on.mem i).child
    · intro _ _
      rw [hasFlag_or, small, hbits.notHuge]
      rfl
    · intro _ _
      rw [hasFlag_or, hbits.writable, Bool.or_true]
    · intro _ _
      rw [hasFlag_or, hbits.present, Bool.or_true]

lemma mmioEntry_has {addr : Pte} (h : hasFlag
    (ptePresent ||| pteWritable ||| pteHuge ||| pteNocache ||| pteWritethrough) flag = true) :
    hasFlag (Vmm.mmioEntry addr) flag = true := by
  have regroup : Vmm.mmioEntry addr =
      addr ||| (ptePresent ||| pteWritable ||| pteHuge ||| pteNocache ||| pteWritethrough) := by
    simp only [Vmm.mmioEntry, BitVec.or_assoc]
  rw [regroup, hasFlag_or, h, Bool.or_true]

lemma Edit.tree {e : VmmEvent} {x y : Place × Vmm} (h : Edit e x y) (tree : Tree x.1 x.2) :
    Tree y.1 y.2 := by
  cases h with
  | grow _ h => exact h.tree tree
  | @leaf P s t i entry mem low =>
    exact tree.store (entryOk_of_low low)
  | @device P s t phys size addr he above below aligned mem place =>
    exact tree.store (entryOk_huge (by simp [place]) (mmioEntry_has (by decide))
      (mmioEntry_has (by decide)) (mmioEntry_has (by decide)))
  | @mark P s t virt he mem place huge =>
    have present := tree.solid t mem (by simp [place]) _ huge
    refine tree.store (entryOk_huge (by simp [place]) ?_ ?_ ?_)
    · rw [hasFlag_or, huge, Bool.true_or]
    · rw [hasFlag_or, present, Bool.true_or]
    · rw [hasFlag_or, tree.writable t mem (by simp [place]) _ present, Bool.true_or]
  | @root P s page rest he answer =>
    show Tree (P.put page [] page) s.createAddressSpace.1
    rw [Tree.createAddressSpace_eq tree answer]
    exact tree.newRoot answer
  | supply fresh => exact { tree with fresh := fresh }

end MicroOs.Mm
