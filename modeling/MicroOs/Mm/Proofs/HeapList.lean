import MicroOs.Mm.Heap

/-!
# The free list in memory

What the list operations of the heap do, in terms of the list of blocks in memory: `takeBlock`
removes a block or its front part, `insertFree` adds a block and merges it with those it touches.
Each writes only to blocks of the free list and to the block it is given.
-/

namespace MicroOs.Mm
open Lib List
open Function (update update_of_ne update_self)

variable {a b c : Block} {fl l post pre : List Block} {fuel needed p q x : Nat} {h h' : Heap}

/-- The shape every block keeps: multiples of 16, and room for a header. -/
structure Shaped (b : Block) : Prop where
  addr : b.addr % 16 = 0
  size : b.size % 16 = 0
  low : 16 ≤ b.addr
  room : 16 ≤ b.size

def memTop : Nat := pmmMaxPage * pageSize

/-- The free list of `h` is `fl`: linked in memory, sorted, fully coalesced, in low memory. -/
structure Heap.FreeIs (h : Heap) (fl : List Block) : Prop where
  rep : Seg h.mem h.freeList fl 0
  spaced : Spaced fl
  shaped : ∀ b ∈ fl, Shaped b
  top : ∀ b ∈ fl, b.fin ≤ memTop

lemma roomy_of_shaped (h : ∀ b ∈ l, Shaped b) : Roomy l :=
  fun b hb => (h b hb).room

lemma Heap.FreeIs.length_lt (hf : h.FreeIs fl) : fl.length < maxBlocks := by
  have hlen := hf.spaced.length_mul_le (roomy_of_shaped hf.shaped) hf.top
  have htop : memTop = 2 ^ 28 * 16 := by decide
  simp only [maxBlocks]
  omega

lemma Heap.FreeIs.freeBlocks (hf : h.FreeIs fl) : h.freeBlocks = fl :=
  hf.rep.blocksAt hf.length_lt.le

@[simp] lemma Heap.setSize_mem (h : Heap) (b v : Nat) :
    (h.setSize b v).mem = update h.mem b v := rfl

@[simp] lemma Heap.setNext_mem (h : Heap) (b v : Nat) :
    (h.setNext b v).mem = update h.mem (b + 8) v := rfl

/-- The bounds that `kfree` checks against are the same in both states. -/
def SameBounds (h h' : Heap) : Prop :=
  h'.heapStart = h.heapStart ∧ h'.heapEnd = h.heapEnd

lemma SameBounds.setSize (hb : SameBounds h h') (b v : Nat) :
    SameBounds h (h'.setSize b v) := hb

lemma SameBounds.setLink (hb : SameBounds h h') (prev : Link) (v : Nat) :
    SameBounds h (h'.setLink prev v) := by
  cases prev <;> exact hb

/-- The link that leads out of a list: `&free_list`, or the `next` field of the last block. -/
def linkOf (pre : List Block) : Link :=
  match pre.getLast? with
  | none => .head
  | some a => .next a.addr

@[simp] lemma linkOf_nil : linkOf [] = .head := rfl

@[simp] lemma linkOf_snoc (pre : List Block) (a : Block) : linkOf (pre ++ [a]) = .next a.addr := by
  simp [linkOf]

lemma Heap.setLink_seg (hseg : Seg h.mem h.freeList pre q) (hroom : Roomy pre)
    (hapart : pre.Pairwise Apart) (x : Nat) :
    Seg (h.setLink (linkOf pre) x).mem (h.setLink (linkOf pre) x).freeList pre x := by
  rcases eq_nil_or_concat' pre with rfl | ⟨pre, a, rfl⟩
  · rfl
  · rw [linkOf_snoc]
    exact hseg.relink hroom hapart x

lemma Heap.setLink_mem (hroom : Roomy pre) (hx : ¬ Covers pre x) (v : Nat) :
    (h.setLink (linkOf pre) v).mem x = h.mem x := by
  rcases eq_nil_or_concat' pre with rfl | ⟨pre, a, rfl⟩
  · rfl
  · rw [linkOf_snoc]
    refine update_of_ne ?_ _ _
    rintro rfl
    have ha : 16 ≤ a.size := hroom a (by simp)
    exact hx (by simp [(Block.has_words ha).2])

lemma Heap.setLink_append {o : List Block} {r : Nat} (hpre : Seg h.mem h.freeList pre r)
    (hroomPre : Roomy pre) (hapart : pre.Pairwise Apart) (ho : Seg h.mem q o 0) (hroom : Roomy o)
    (hoff : ∀ x, Covers o x → ¬ Covers pre x) :
    Seg (h.setLink (linkOf pre) q).mem (h.setLink (linkOf pre) q).freeList (pre ++ o) 0 := by
  refine seg_append.mpr ⟨q, Heap.setLink_seg hpre hroomPre hapart q, ?_⟩
  exact ho.frame hroom fun x hx => Heap.setLink_mem hroomPre (hoff x hx) q

/-- What is cut off a block, and what is left of it (`heap.c:89-97`). -/
def cutBlock (needed : Nat) (c : Block) : Block × List Block :=
  if needed + 32 ≤ c.size then (⟨c.addr, needed⟩, [⟨c.addr + needed, c.size - needed⟩])
  else (c, [])

lemma cutBlock_addr (needed : Nat) (c : Block) : (cutBlock needed c).1.addr = c.addr := by
  unfold cutBlock; split <;> rfl

lemma cutBlock_same (needed : Nat) (c : Block) :
    Same [c] ((cutBlock needed c).1 :: (cutBlock needed c).2) := by
  unfold cutBlock
  split
  · exact Same.split (by omega) []
  · exact Same.refl _

lemma cutBlock_shaped (hc : Shaped c) (hn : needed % 16 = 0) (hn16 : 16 ≤ needed) :
    ∀ b ∈ (cutBlock needed c).1 :: (cutBlock needed c).2, Shaped b := by
  have h1 := hc.addr
  have h2 := hc.size
  have h3 := hc.low
  unfold cutBlock
  split
  · simp only [mem_cons, not_mem_nil, or_false]
    rintro b (rfl | rfl) <;> constructor <;> simp only <;> omega
  · simp only [mem_cons, not_mem_nil, or_false]
    rintro b rfl
    exact hc

lemma cutBlock_rest (hb : b ∈ (cutBlock needed c).2) :
    b.fin = c.fin ∧ (cutBlock needed c).1.fin = b.addr := by
  by_cases hcut : needed + 32 ≤ c.size
  · simp only [cutBlock, if_pos hcut, mem_singleton] at hb ⊢
    subst hb
    simp only [Block.fin, and_true]
    omega
  · simp [cutBlock, if_neg hcut] at hb

lemma spaced_cut (h : Spaced (pre ++ c :: post)) :
    Spaced (pre ++ ((cutBlock needed c).2 ++ post)) := by
  obtain ⟨hpre, hc, hcross⟩ := pairwise_append.mp h
  obtain ⟨hcpost, hpost⟩ := pairwise_cons.mp hc
  have hrest : ∀ b ∈ (cutBlock needed c).2, b.fin = c.fin ∧ c.addr ≤ b.addr := by
    intro b hb
    obtain ⟨hfin, hstart⟩ := cutBlock_rest hb
    have haddr := cutBlock_addr needed c
    simp only [Block.fin] at *
    omega
  refine pairwise_append.mpr ⟨hpre, pairwise_append.mpr ⟨?_, hpost, ?_⟩, ?_⟩
  · unfold cutBlock; split <;> simp
  · intro b hb d hd
    rw [(hrest b hb).1]
    exact hcpost d hd
  · intro a ha d hd
    rcases mem_append.mp hd with hd | hd
    · exact lt_of_lt_of_le (hcross a ha c mem_cons_self) (hrest d hd).2
    · exact hcross a ha d (mem_cons_of_mem _ hd)

lemma apart_cut (h : Spaced (pre ++ c :: post)) :
    ∀ b ∈ pre ++ ((cutBlock needed c).2 ++ post), Apart (cutBlock needed c).1 b := by
  obtain ⟨-, hc, hcross⟩ := pairwise_append.mp h
  obtain ⟨hcpost, -⟩ := pairwise_cons.mp hc
  have haddr := cutBlock_addr needed c
  have hfin : (cutBlock needed c).1.fin ≤ c.fin := by
    unfold cutBlock; split <;> simp only [Block.fin] <;> omega
  intro b hb
  simp only [mem_append] at hb
  rcases hb with hb | hb | hb
  · have := hcross b hb c mem_cons_self
    exact Or.inr (by omega)
  · exact Or.inl (cutBlock_rest hb).2.le
  · have := hcpost b hb
    exact Or.inl (by omega)

structure Heap.Split (h : Heap) (pre : List Block) (c : Block) (post : List Block) : Prop
    extends Parted pre c post where
  segPre : Seg h.mem h.freeList pre c.addr
  size : h.mem c.addr = c.size
  segPost : Seg h.mem (h.mem (c.addr + 8)) post 0
  ne : c.addr ≠ 0
  top : c.fin ≤ memTop

lemma Heap.FreeIs.split (hf : h.FreeIs (pre ++ c :: post)) : h.Split pre c post := by
  obtain ⟨_, hpre, rfl, hne, hsize, hpost⟩ := seg_append.mp hf.rep
  exact
    { parted_of_apart (roomy_of_shaped hf.shaped) hf.spaced.pairwise_apart with
      segPre := hpre
      size := hsize
      segPost := hpost
      ne := hne
      top := hf.top c (by simp) }

/-- What `takeBlock` leaves behind: the taken part has its header, the rest is linked. -/
def TakeSpec (h h' : Heap) (pre : List Block) (c : Block) (post : List Block)
    (cut : Block × List Block) : Prop :=
  Seg h'.mem h'.freeList (pre ++ (cut.2 ++ post)) 0 ∧
    h'.mem c.addr = cut.1.size ∧ h'.mem (c.addr + 8) = not64 cut.1.size ∧
    (∀ x, ¬ Covers (pre ++ c :: post) x → h'.mem x = h.mem x) ∧ SameBounds h h'

lemma takeSpec_of_header {k : Heap} {cut : Block × List Block} (hroomC : 16 ≤ c.size)
    (hseg : Seg k.mem k.freeList (pre ++ (cut.2 ++ post)) 0)
    (hroom : Roomy (pre ++ (cut.2 ++ post)))
    (hoff : ∀ x, (⟨c.addr, 16⟩ : Block).Has x → ¬ Covers (pre ++ (cut.2 ++ post)) x)
    (hsize : k.mem c.addr = cut.1.size)
    (hframe : ∀ x, ¬ Covers (pre ++ c :: post) x → k.mem x = h.mem x) (hbounds : SameBounds h k) :
    let k1 := k.setSize c.addr (k.size c.addr)
    TakeSpec h (k1.setNext c.addr (not64 (k1.size c.addr))) pre c post cut := by
  intro k1
  refine ⟨hseg.update_words hroom le_rfl hoff, ?_, ?_, fun x hx => ?_, hbounds⟩
  · simp [k1, Heap.size, hsize]
  · simp [k1, Heap.size, hsize]
  · obtain ⟨hx0, hx8⟩ := Block.ne_words hroomC fun hxc : c.Has x => hx (by simp [hxc])
    simp only [k1, Heap.setNext_mem, Heap.setSize_mem, update_of_ne hx0, update_of_ne hx8]
    exact hframe x hx

lemma Block.has_of_header (room : 16 ≤ c.size) (hx : (⟨c.addr, 16⟩ : Block).Has x) : c.Has x := by
  simp only [Block.Has, Block.fin] at *
  omega

/-- `takeBlock` on a block with room for a remainder: the remainder is written inside the block
and linked in its place, and the block shrinks to its front part. -/
lemma takeBlock_front (sp : h.Split pre c post) (hcut : needed + 32 ≤ c.size) (hn : 16 ≤ needed)
    (hwrap : add64 needed (minBlock + 16) = needed + 32) :
    TakeSpec h (takeBlock h needed (linkOf pre) c.addr) pre c post
      (⟨c.addr, needed⟩, [⟨c.addr + needed, c.size - needed⟩]) := by
  set rem : Block := ⟨c.addr + needed, c.size - needed⟩ with hrem
  have hremRoom : 16 ≤ rem.size := by simp only [hrem]; omega
  have hremHas : ∀ x, rem.Has x → c.Has x := by
    intro x
    simp only [Block.Has, Block.fin, hrem]
    omega
  have hroomRem : Roomy (rem :: post) := forall_mem_cons.mpr ⟨hremRoom, sp.roomPost⟩
  set h1 := (h.setSize (c.addr + needed) (c.size - needed)).setNext (c.addr + needed)
    (h.mem (c.addr + 8)) with hh1
  set h2 := h1.setLink (linkOf pre) (c.addr + needed) with hh2
  have hEq : takeBlock h needed (linkOf pre) c.addr =
      let h3 := h2.setSize c.addr needed
      let h4 := h3.setSize c.addr (h3.size c.addr)
      h4.setNext c.addr (not64 (h4.size c.addr)) := by
    have hnext : (h.setSize (c.addr + needed) (c.size - needed)).next c.addr
        = h.mem (c.addr + 8) := update_of_ne (by omega) _ _
    simp only [takeBlock, Heap.size, sp.size, hwrap, ge_iff_le, hcut, if_true, hnext]
    rfl
  have seg1 : Seg h1.mem (c.addr + needed) (rem :: post) 0 := by
    refine ⟨rfl, by omega, by simp [hh1, hrem], ?_⟩
    have hlink : h1.mem (c.addr + needed + 8) = h.mem (c.addr + 8) := by simp [hh1]
    rw [hlink]
    exact sp.segPost.update_words sp.roomPost hremRoom fun x hx => sp.offPost x (hremHas x hx)
  have seg2 : Seg h2.mem h2.freeList (pre ++ rem :: post) 0 := by
    refine Heap.setLink_append (r := c.addr) ?_ sp.roomPre sp.apartPre seg1 hroomRem fun x hx => ?_
    · exact sp.segPre.update_words sp.roomPre hremRoom
        fun x hx => sp.offPre x (Or.inl (hremHas x hx))
    · exact sp.offPre x (((covers_cons _ _ _).mp hx).imp_left (hremHas x))
  have hoff : ∀ x, (⟨c.addr, 16⟩ : Block).Has x → ¬ Covers (pre ++ rem :: post) x := by
    intro x hx
    have hcx := Block.has_of_header sp.room hx
    have hrx : ¬ rem.Has x := by
      simp only [Block.Has, Block.fin, hrem] at *
      omega
    simp [sp.offPre x (Or.inl hcx), sp.offPost x hcx, hrx]
  have hroom : Roomy (pre ++ rem :: post) := sp.roomPre.append hroomRem
  rw [hEq]
  refine takeSpec_of_header sp.room (seg2.update hroom (hoff _ ?_)) hroom hoff
    (by simp) (fun x hx => ?_) ?_
  · exact (Block.has_words (b := ⟨c.addr, 16⟩) le_rfl).1
  · simp only [covers_append, covers_cons, not_or] at hx
    obtain ⟨hx0, -⟩ := Block.ne_words sp.room hx.2.1
    obtain ⟨hxr0, hxr8⟩ : x ≠ c.addr + needed ∧ x ≠ c.addr + needed + 8 :=
      Block.ne_words hremRoom fun hxr => hx.2.1 (hremHas x hxr)
    rw [Heap.setSize_mem, update_of_ne hx0, hh2, Heap.setLink_mem sp.roomPre hx.1]
    simp [hh1, update_of_ne hxr8, update_of_ne hxr0]
  · have base : SameBounds h h1 := ⟨rfl, rfl⟩
    exact (base.setLink (linkOf pre) _).setSize _ _

lemma takeBlock_whole (sp : h.Split pre c post) (hcut : ¬ needed + 32 ≤ c.size)
    (hwrap : add64 needed (minBlock + 16) = needed + 32) :
    TakeSpec h (takeBlock h needed (linkOf pre) c.addr) pre c post (c, []) := by
  set h2 := h.setLink (linkOf pre) (h.mem (c.addr + 8)) with hh2
  have hEq : takeBlock h needed (linkOf pre) c.addr =
      let h3 := h2.setSize c.addr (h2.size c.addr)
      h3.setNext c.addr (not64 (h3.size c.addr)) := by
    simp only [takeBlock, Heap.size, sp.size, hwrap, ge_iff_le, hcut, if_false]
    rfl
  have hoff : ∀ x, (⟨c.addr, 16⟩ : Block).Has x → ¬ Covers (pre ++ post) x := by
    intro x hx
    have hcx := Block.has_of_header sp.room hx
    simp [sp.offPre x (Or.inl hcx), sp.offPost x hcx]
  have hmem2 : h2.mem c.addr = c.size := by
    have hhas := (Block.has_words sp.room).1
    rw [hh2, Heap.setLink_mem sp.roomPre (sp.offPre _ (Or.inl hhas)), sp.size]
  have seg2 : Seg h2.mem h2.freeList (pre ++ post) 0 :=
    Heap.setLink_append sp.segPre sp.roomPre sp.apartPre sp.segPost sp.roomPost
      fun x hx => sp.offPre x (Or.inr hx)
  rw [hEq]
  refine takeSpec_of_header sp.room seg2 (sp.roomPre.append sp.roomPost) hoff hmem2
    (fun x hx => ?_) (SameBounds.setLink ⟨rfl, rfl⟩ _ _)
  simp only [covers_append, covers_cons, not_or] at hx
  exact Heap.setLink_mem sp.roomPre hx.1 _

lemma takeBlock_spec (hf : h.FreeIs (pre ++ c :: post)) (hfit : needed ≤ c.size)
    (hn : 16 ≤ needed) :
    TakeSpec h (takeBlock h needed (linkOf pre) c.addr) pre c post (cutBlock needed c) := by
  have sp := hf.split
  have hwrap : add64 needed (minBlock + 16) = needed + 32 := by
    have htop := sp.top
    have : memTop = 2 ^ 32 := by decide
    simp only [Block.fin] at htop
    exact add64_of_lt (by simp only [two64, minBlock]; omega)
  unfold cutBlock
  split
  · exact takeBlock_front sp ‹_› hn hwrap
  · exact takeBlock_whole sp ‹_› hwrap

/-- The search stops at the first block that is large enough, or at the end of the list. The
induction is on the part of the list not visited yet. -/
lemma searchFit_spec (needed : Nat) (pre : List Block) (hseg : Seg h.mem p l 0)
    (hfuel : l.length < fuel) :
    (searchFit needed fuel h (linkOf pre) p = some (0, h) ∧ ∀ b ∈ l, b.size < needed) ∨
      ∃ mid c post, l = mid ++ c :: post ∧ needed ≤ c.size ∧ (∀ b ∈ mid, b.size < needed) ∧
        searchFit needed fuel h (linkOf pre) p =
          some (c.addr + headerSize, takeBlock h needed (linkOf (pre ++ mid)) c.addr) := by
  induction l generalizing pre p fuel with
  | nil =>
    obtain rfl : p = 0 := hseg
    obtain ⟨fuel, rfl⟩ := Nat.exists_eq_succ_of_ne_zero (by omega : fuel ≠ 0)
    exact Or.inl ⟨by simp [searchFit], by simp⟩
  | cons b l ih =>
    obtain ⟨rfl, hne, hsize, hrest⟩ := hseg
    obtain ⟨fuel, rfl⟩ := Nat.exists_eq_succ_of_ne_zero (by omega : fuel ≠ 0)
    simp only [searchFit, if_neg hne, Heap.size, hsize, ge_iff_le]
    split
    · rename_i hfit
      exact Or.inr ⟨[], b, l, rfl, hfit, by simp, by simp⟩
    · rename_i hsmall
      have hsmall' : b.size < needed := by omega
      have hfuel' : l.length < fuel := by simpa using hfuel
      have hlink : Link.next b.addr = linkOf (pre ++ [b]) := (linkOf_snoc pre b).symm
      rw [hlink]
      rcases ih (pre ++ [b]) hrest hfuel' with ⟨heq, hall⟩ | ⟨mid, c, post, rfl, hfit, hmid, heq⟩
      · exact Or.inl ⟨heq, forall_mem_cons.mpr ⟨hsmall', hall⟩⟩
      · rw [append_assoc] at heq
        exact Or.inr ⟨b :: mid, c, post, rfl, hfit, forall_mem_cons.mpr ⟨hsmall', hmid⟩, heq⟩

/-- A block was taken off the free list `fl` and `fl'` is left. -/
structure Took (h h' : Heap) (fl : List Block) (needed : Nat) (b : Block) (fl' : List Block) :
    Prop where
  free : h'.FreeIs fl'
  same : Same fl (b :: fl')
  apart : ∀ c ∈ fl', Apart b c
  shaped : Shaped b
  fits : needed ≤ b.size
  size : h'.mem b.addr = b.size
  canary : h'.mem (b.addr + 8) = not64 b.size
  frame : ∀ x, ¬ Covers fl x → h'.mem x = h.mem x
  bounds : SameBounds h h'

lemma fin_le_of_covers {top : Nat} (hb : 0 < b.size) (hcov : ∀ x, b.Has x → Covers l x)
    (htop : ∀ c ∈ l, c.fin ≤ top) : b.fin ≤ top := by
  obtain ⟨c, hc, hcx⟩ := hcov (b.fin - 1) (by simp only [Block.Has, Block.fin]; omega)
  have := htop c hc
  simp only [Block.Has, Block.fin] at *
  omega

lemma kmallocAttempt_spec (hf : h.FreeIs fl) (hn : needed % 16 = 0) (hn16 : 16 ≤ needed) :
    (kmallocAttempt h needed = some (0, h) ∧ ∀ b ∈ fl, b.size < needed) ∨
      ∃ b fl' h', kmallocAttempt h needed = some (b.addr + headerSize, h') ∧
        Took h h' fl needed b fl' := by
  rcases searchFit_spec needed [] hf.rep hf.length_lt with
    hmiss | ⟨pre, c, post, rfl, hfit, -, heq⟩
  · exact Or.inl hmiss
  · right
    rw [nil_append] at heq
    obtain ⟨hseg, hsize, hcanary, hframe, hbounds⟩ := takeBlock_spec hf hfit hn16
    obtain ⟨shapedPre, shapedRest⟩ := forall_mem_append.mp hf.shaped
    obtain ⟨shapedC, shapedPost⟩ := forall_mem_cons.mp shapedRest
    obtain ⟨shapedCut, shapedLeft⟩ := forall_mem_cons.mp (cutBlock_shaped shapedC hn hn16)
    have haddr := cutBlock_addr needed c
    have hsame : Same (pre ++ c :: post)
        ((cutBlock needed c).1 :: (pre ++ ((cutBlock needed c).2 ++ post))) := by
      have hcut := (cutBlock_same needed c).append_right (k := post)
      refine (Same.append (k := pre) hcut).trans (Same.of_perm ?_)
      exact perm_middle
    have hshaped' : ∀ b ∈ pre ++ ((cutBlock needed c).2 ++ post), Shaped b :=
      forall_mem_append.mpr ⟨shapedPre, forall_mem_append.mpr ⟨shapedLeft, shapedPost⟩⟩
    refine ⟨(cutBlock needed c).1, pre ++ ((cutBlock needed c).2 ++ post),
      takeBlock h needed (linkOf pre) c.addr, ?_, ?_⟩
    · rw [haddr]
      exact heq
    · refine ⟨⟨hseg, spaced_cut hf.spaced, hshaped', fun b hb => ?_⟩, hsame,
        apart_cut hf.spaced, shapedCut, ?_, ?_, ?_, hframe, hbounds⟩
      · have hpos : 0 < b.size := by have := (hshaped' b hb).room; omega
        refine fin_le_of_covers hpos (fun x hx => ?_) hf.top
        exact (hsame.covers x).mpr ((covers_cons _ _ _).mpr (Or.inr ⟨b, hb, hx⟩))
      · unfold cutBlock; split <;> simp_all
      · rw [haddr]
        exact hsize
      · rw [haddr]
        exact hcanary

lemma findPlace_spec (blk : Nat) (pre : List Block) (hseg : Seg h.mem p l 0)
    (hfuel : l.length < fuel) :
    ∃ mid post q, l = mid ++ post ∧ (∀ b ∈ mid, b.addr < blk) ∧
      (∀ b ∈ post.head?, blk ≤ b.addr) ∧ Seg h.mem p mid q ∧ Seg h.mem q post 0 ∧
      findPlace h blk fuel (linkOf pre) p = some (linkOf (pre ++ mid), q) := by
  induction l generalizing pre p fuel with
  | nil =>
    obtain rfl : p = 0 := hseg
    obtain ⟨fuel, rfl⟩ := Nat.exists_eq_succ_of_ne_zero (by omega : fuel ≠ 0)
    exact ⟨[], [], 0, rfl, by simp, by simp, rfl, rfl, by simp [findPlace]⟩
  | cons b l ih =>
    have hseg' := hseg
    obtain ⟨rfl, hne, hsize, hrest⟩ := hseg
    obtain ⟨fuel, rfl⟩ := Nat.exists_eq_succ_of_ne_zero (by omega : fuel ≠ 0)
    have hfuel' : l.length < fuel := by simpa using hfuel
    simp only [findPlace]
    split
    · rename_i hbefore
      have hlink : Link.next b.addr = linkOf (pre ++ [b]) := (linkOf_snoc pre b).symm
      rw [hlink]
      obtain ⟨mid, post, q, rfl, hmid, hpost, hsegMid, hsegPost, heq⟩ :=
        ih (pre ++ [b]) hrest hfuel'
      rw [append_assoc] at heq
      exact ⟨b :: mid, post, q, rfl, forall_mem_cons.mpr ⟨hbefore.2, hmid⟩, hpost,
        ⟨rfl, hne, hsize, hsegMid⟩, hsegPost, heq⟩
    · rename_i hafter
      refine ⟨[], b :: l, b.addr, rfl, by simp, ?_, rfl, hseg', by simp⟩
      simp only [head?_cons, Option.mem_some_iff]
      rintro d rfl
      omega

lemma absorb_seg (hseg : Seg h.mem p (pre ++ a :: b :: post) 0)
    (hroom : Roomy (pre ++ a :: b :: post)) (hapart : (pre ++ a :: b :: post).Pairwise Apart)
    (hwrap : a.size + b.size < two64) :
    Seg (absorb h a.addr b.addr).mem p (pre ++ ⟨a.addr, a.size + b.size⟩ :: post) 0 := by
  have pa := parted_of_apart hroom hapart
  obtain ⟨hbRoom, hpostRoom⟩ := forall_mem_cons.mp pa.roomPost
  obtain ⟨_, hpre, rfl, hane, hasize, hb, hbne, hbsize, hpost⟩ := seg_append.mp hseg
  rw [hb] at hbsize hpost
  have hsum : add64 (h.size a.addr) (h.size b.addr) = a.size + b.size := by
    simp only [Heap.size, hasize, hbsize]
    exact add64_of_lt hwrap
  -- the link word of `b` is not one of the words written
  have hne : b.addr + 8 ≠ a.addr := by
    intro heq
    refine pa.offPost _ (Block.has_words pa.room).1 ⟨b, mem_cons_self, ?_⟩
    exact heq ▸ (Block.has_words hbRoom).2
  have hmem : (absorb h a.addr b.addr).mem =
      update (update h.mem a.addr (a.size + b.size)) (a.addr + 8)
        (h.mem (b.addr + 8)) := by
    simp only [absorb, hsum, Heap.setNext_mem, Heap.setSize_mem, Heap.next, update_of_ne hne]
  rw [hmem]
  refine seg_append.mpr ⟨a.addr, ?_, rfl, hane, ?_, ?_⟩
  · exact hpre.update_words pa.roomPre pa.room fun x hx => pa.offPre x (Or.inl hx)
  · simp
  · rw [update_self]
    refine hpost.update_words hpostRoom pa.room fun x hx hcov => pa.offPost x hx ?_
    exact (covers_cons _ _ _).mpr (Or.inr hcov)

lemma absorb_mem {other : Nat} (ha : 16 ≤ a.size) (hx : ¬ a.Has x) :
    (absorb h a.addr other).mem x = h.mem x := by
  obtain ⟨hx0, hx8⟩ := Block.ne_words ha hx
  simp only [absorb, Heap.setNext_mem, Heap.setSize_mem, update_of_ne hx0, update_of_ne hx8]

lemma shaped_join (ha : Shaped a) (hl : ∀ b ∈ l, Shaped b) : ∀ b ∈ join a l, Shaped b := by
  cases l with
  | nil => exact forall_mem_singleton.mpr ha
  | cons c l =>
    obtain ⟨hc, hl'⟩ := forall_mem_cons.mp hl
    simp only [join]
    split
    · refine forall_mem_cons.mpr ⟨?_, hl'⟩
      have h1 := ha.size
      have h2 := hc.size
      have h3 := ha.room
      exact ⟨ha.addr, by simp only; omega, ha.low, by simp only; omega⟩
    · exact forall_mem_cons.mpr ⟨ha, hl⟩

/-- `b` is in its place between the blocks `pre` and `post` of a free list. It may touch its
neighbours. -/
structure BlockAt (pre : List Block) (b : Block) (post : List Block) : Prop where
  spaced : Spaced (pre ++ post)
  before : ∀ c ∈ pre, c.fin ≤ b.addr
  after : ∀ c ∈ post, b.fin ≤ c.addr
  shaped : ∀ c ∈ pre ++ b :: post, Shaped c
  top : ∀ c ∈ pre ++ b :: post, c.fin ≤ memTop

namespace BlockAt

variable {pre post : List Block} {a b : Block}

lemma pairwise_apart (hp : BlockAt pre b post) : (pre ++ b :: post).Pairwise Apart := by
  obtain ⟨hpre, hpost, hcross⟩ := pairwise_append.mp hp.spaced
  refine pairwise_append.mpr ⟨Spaced.pairwise_apart hpre, pairwise_cons.mpr
    ⟨fun c hc => Or.inl (hp.after c hc), Spaced.pairwise_apart hpost⟩, fun c hc d hd => ?_⟩
  rcases mem_cons.mp hd with rfl | hd
  · exact Or.inl (hp.before c hc)
  · exact Or.inl (hcross c hc d hd).le

lemma parted (hp : BlockAt pre b post) : Parted pre b post :=
  parted_of_apart (roomy_of_shaped hp.shaped) hp.pairwise_apart

lemma same_join (_ : BlockAt pre b post) : Same (pre ++ b :: post) (pre ++ join b post) :=
  Same.append (Same.join b post)

section
variable (hp : BlockAt pre b post)
include hp

lemma shaped_join : ∀ c ∈ pre ++ join b post, Shaped c := by
  obtain ⟨hpre, hrest⟩ := forall_mem_append.mp hp.shaped
  obtain ⟨hb, hpost⟩ := forall_mem_cons.mp hrest
  exact forall_mem_append.mpr ⟨hpre, Mm.shaped_join hb hpost⟩

lemma top_join : ∀ c ∈ pre ++ join b post, c.fin ≤ memTop := by
  intro c hc
  have hpos : 0 < c.size := by have := (hp.shaped_join c hc).room; omega
  exact fin_le_of_covers hpos (fun x hx => (hp.same_join.covers x).mpr ⟨c, hc, hx⟩) hp.top

lemma le_of_mem_join : ∀ c ∈ join b post, b.addr ≤ c.addr := by
  obtain ⟨n, o, heq, hsub, -⟩ := join_eq_cons b post
  intro c hc
  rw [heq] at hc
  rcases mem_cons.mp hc with rfl | hc
  · exact le_rfl
  · have := hp.after c (hsub hc)
    simp only [Block.fin] at this
    omega

lemma spaced_join (hgap : ∀ c ∈ pre, c.fin < b.addr) : Spaced (pre ++ join b post) := by
  obtain ⟨hpre, hpost, -⟩ := pairwise_append.mp hp.spaced
  refine pairwise_append.mpr ⟨hpre, Spaced.join hpost hp.after, fun c hc d hd => ?_⟩
  exact lt_of_lt_of_le (hgap c hc) (hp.le_of_mem_join d hd)

end

lemma prev (hp : BlockAt (pre ++ [a]) b post) : BlockAt pre a (join b post) := by
  obtain ⟨hpre, hpost, hcross⟩ := pairwise_append.mp hp.spaced
  obtain ⟨hpre', -, hpa⟩ := pairwise_append.mp hpre
  have hab : a.fin ≤ b.addr := hp.before a (by simp)
  have hsplit : pre ++ a :: join b post = pre ++ [a] ++ join b post := by simp
  refine ⟨?_, fun c hc => (hpa c hc a (by simp)).le,
    fun c hc => hab.trans (hp.le_of_mem_join c hc), ?_, ?_⟩
  · refine pairwise_append.mpr ⟨hpre', Spaced.join hpost hp.after, fun c hc d hd => ?_⟩
    have hca := hpa c hc a (by simp)
    have hbd := hp.le_of_mem_join d hd
    simp only [Block.fin] at *
    omega
  · rw [hsplit]
    exact hp.shaped_join
  · rw [hsplit]
    exact hp.top_join

end BlockAt

lemma forall_mem_middle {P : Block → Prop} (h : ∀ c ∈ pre ++ post, P c) (hb : P b) :
    ∀ c ∈ pre ++ b :: post, P c := by
  obtain ⟨hpre, hpost⟩ := forall_mem_append.mp h
  exact forall_mem_append.mpr ⟨hpre, forall_mem_cons.mpr ⟨hb, hpost⟩⟩

lemma placed_of_apart (hf : h.FreeIs (pre ++ post)) (hb : Shaped b) (htop : b.fin ≤ memTop)
    (hapart : ∀ c ∈ pre ++ post, Apart b c) (hpre : ∀ c ∈ pre, c.addr < b.addr)
    (hpost : ∀ c ∈ post.head?, b.addr ≤ c.addr) : BlockAt pre b post := by
  have hroom := hb.room
  refine ⟨hf.spaced, ?_, ?_, forall_mem_middle hf.shaped hb, forall_mem_middle hf.top htop⟩
  · intro c hc
    have h1 := hapart c (mem_append_left _ hc)
    have h2 := hpre c hc
    simp only [Apart, Block.fin] at *
    omega
  · cases post with
    | nil => simp
    | cons d post =>
      have h1 := hapart d (mem_append_right _ mem_cons_self)
      have h2 := hpost d rfl
      have h3 := (hf.shaped d (mem_append_right _ mem_cons_self)).room
      have hd : b.fin ≤ d.addr := by
        simp only [Apart, Block.fin] at *
        omega
      intro c hc
      rcases mem_cons.mp hc with rfl | hc
      · exact hd
      · have h4 := (pairwise_cons.mp (pairwise_append.mp hf.spaced).2.1).1 c hc
        simp only [Block.fin] at *
        omega

def firstAddr : List Block → Nat
  | [] => 0
  | b :: _ => b.addr

lemma coalesceNext_spec (hp : BlockAt pre b post)
    (hseg : Seg h.mem h.freeList (pre ++ b :: post) 0) :
    let h' := coalesceNext h b.addr (firstAddr post)
    Seg h'.mem h'.freeList (pre ++ join b post) 0 ∧
      (∀ x, ¬ b.Has x → h'.mem x = h.mem x) ∧ SameBounds h h' := by
  intro h'
  have hbTop := hp.top b (by simp)
  have hmemTop : memTop = 2 ^ 32 := by decide
  obtain ⟨_, -, rfl, -, hsize, hpost⟩ := seg_append.mp hseg
  have hend : add64 b.addr (h.size b.addr) = b.fin := by
    simp only [Heap.size, hsize]
    exact add64_of_lt (by simp only [two64, Block.fin] at *; omega)
  cases post with
  | nil =>
    have hEq : h' = h := by simp [h', coalesceNext, firstAddr]
    rw [hEq]
    exact ⟨hseg, fun _ _ => rfl, rfl, rfl⟩
  | cons c post =>
    have hcTop := hp.top c (by simp)
    have hcne : c.addr ≠ 0 := by have := (hp.shaped c (by simp)).low; omega
    simp only [h', coalesceNext, firstAddr, hend, join, hcne, ne_eq, not_false_eq_true, true_and]
    split
    · refine ⟨absorb_seg hseg (roomy_of_shaped hp.shaped) hp.pairwise_apart ?_,
        fun x hx => absorb_mem hp.parted.room hx, rfl, rfl⟩
      simp only [two64, Block.fin] at *
      omega
    · exact ⟨hseg, fun _ _ => rfl, rfl, rfl⟩

lemma coalescePrev_next {blk : Nat} (hblk : blk ≠ 0) :
    coalescePrev h (.next p) blk = coalesceNext h p blk := by
  simp [coalescePrev, coalesceNext, hblk]

lemma linkIn_spec (hp : BlockAt pre b post) (segPre : Seg h.mem h.freeList pre q)
    (segPost : Seg h.mem q post 0) (hsize : h.mem b.addr = b.size) :
    let h' := (h.setNext b.addr q).setLink (linkOf pre) b.addr
    Seg h'.mem h'.freeList (pre ++ b :: post) 0 ∧
      (∀ x, ¬ Covers (pre ++ [b]) x → h'.mem x = h.mem x) ∧ SameBounds h h' := by
  intro h'
  have pa := hp.parted
  have hlow := (hp.shaped b (by simp)).low
  have hhas8 := (Block.has_words pa.room).2
  have seg1 : Seg (h.setNext b.addr q).mem b.addr (b :: post) 0 := by
    refine ⟨rfl, by omega, ?_, ?_⟩
    · rw [Heap.setNext_mem, update_of_ne (by omega)]
      exact hsize
    · rw [Heap.setNext_mem, update_self]
      exact segPost.update pa.roomPost (pa.offPost _ hhas8)
  have base : SameBounds h (h.setNext b.addr q) := ⟨rfl, rfl⟩
  refine ⟨?_, fun x hx => ?_, base.setLink _ _⟩
  · refine Heap.setLink_append (segPre.update pa.roomPre (pa.offPre _ (Or.inl hhas8))) pa.roomPre
      pa.apartPre seg1 (forall_mem_cons.mpr ⟨pa.room, pa.roomPost⟩) fun x hx => ?_
    exact pa.offPre x ((covers_cons _ _ _).mp hx)
  · simp only [covers_append, covers_cons, covers_nil, or_false, not_or] at hx
    rw [Heap.setLink_mem pa.roomPre hx.1, Heap.setNext_mem,
      update_of_ne (Block.ne_words pa.room hx.2).2]

/-- Inserting a block that is on no list: the list covers that block as well, and nothing
outside of it and of the list has been written. -/
lemma insertFree_spec (hf : h.FreeIs fl) (hb : Shaped b) (htop : b.fin ≤ memTop)
    (hapart : ∀ c ∈ fl, Apart b c) (hsize : h.mem b.addr = b.size) :
    ∃ h' fl', insertFree h b.addr = some h' ∧ h'.FreeIs fl' ∧ Same (b :: fl) fl' ∧
      (∀ x, ¬ Covers (b :: fl) x → h'.mem x = h.mem x) ∧ SameBounds h h' := by
  obtain ⟨pre, post, q, rfl, hpre, hpost, segPre, segPost, hplace⟩ :=
    findPlace_spec b.addr [] hf.rep hf.length_lt
  rw [nil_append, linkOf_nil] at hplace
  have hp := placed_of_apart hf hb htop hapart hpre hpost
  have hq : q = firstAddr post := by
    cases post with
    | nil => exact segPost
    | cons c post => exact segPost.1
  obtain ⟨seg2, off2, bounds2⟩ := linkIn_spec hp segPre segPost hsize
  set h2 := (h.setNext b.addr q).setLink (linkOf pre) b.addr
  obtain ⟨seg3, off3, bounds3⟩ := coalesceNext_spec hp seg2
  set h3 := coalesceNext h2 b.addr (firstAddr post)
  have hdo : insertFree h b.addr = some (coalescePrev h3 (linkOf pre) b.addr) := by
    simp only [insertFree, hplace, h3, h2, ← hq]
    rfl
  have hsame3 : Same (b :: (pre ++ post)) (pre ++ join b post) :=
    (Same.of_perm perm_middle.symm).trans hp.same_join
  have hbounds3 : SameBounds h h3 := ⟨bounds3.1.trans bounds2.1, bounds3.2.trans bounds2.2⟩
  have hframe3 : ∀ x, ¬ Covers (b :: (pre ++ post)) x → h3.mem x = h.mem x := by
    intro x hx
    simp only [covers_cons, covers_append, not_or] at hx
    rw [off3 x hx.1, off2 x (by simp [hx.1, hx.2.1])]
  rcases eq_nil_or_concat' pre with rfl | ⟨pre, a, rfl⟩
  · -- the block became the first of the list
    exact ⟨h3, join b post, hdo, ⟨seg3, hp.spaced_join (by simp), hp.shaped_join, hp.top_join⟩,
      hsame3, hframe3, hbounds3⟩
  · -- the block before it may have to swallow what is now the block behind it
    have hsplit : pre ++ [a] ++ join b post = pre ++ a :: join b post := by simp
    rw [hsplit] at seg3 hsame3
    have hfirst : b.addr = firstAddr (join b post) := by
      obtain ⟨n, o, heq, -, -⟩ := join_eq_cons b post
      rw [heq]
      rfl
    have hne : b.addr ≠ 0 := by have := hb.low; omega
    have hdo' : insertFree h b.addr =
        some (coalesceNext h3 a.addr (firstAddr (join b post))) := by
      rw [hdo, linkOf_snoc, coalescePrev_next hne, ← hfirst]
    obtain ⟨seg4, off4, bounds4⟩ := coalesceNext_spec hp.prev seg3
    have hgap : ∀ c ∈ pre, c.fin < a.addr := fun c hc =>
      (pairwise_append.mp (pairwise_append.mp hp.spaced).1).2.2 c hc a (by simp)
    refine ⟨_, _, hdo', ⟨seg4, hp.prev.spaced_join hgap, hp.prev.shaped_join, hp.prev.top_join⟩,
      hsame3.trans hp.prev.same_join, fun x hx => ?_, bounds4.1.trans hbounds3.1,
      bounds4.2.trans hbounds3.2⟩
    have hxa : ¬ a.Has x := fun hxa => hx (by simp [hxa])
    exact (off4 x hxa).trans (hframe3 x hx)

end MicroOs.Mm
