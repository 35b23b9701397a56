import MicroOs.Mm.HeapSystem
import MicroOs.Mm.Proofs.HeapList

/-!
# The invariant of the heap

Free list, live blocks, blocks held by calls in progress and lost blocks tile the pages that the
heap has taken. Every step of every task replaces a part of this tiling by blocks that cover the same
addresses, or adds one page to it.
-/

namespace MicroOs.Mm
open Lib List

variable {b : Block} {c : HeapCall} {fl fl' l : List Block} {h h' : Heap} {m m' : Memory}
  {needed : Nat} {rest : List HeapCall} {s : HeapSys}

/-- Disjoint, well-shaped blocks that fill the pages exactly. -/
structure Tiles (l : List Block) (pages : Finset Nat) : Prop where
  apart : l.Pairwise Apart
  shaped : ∀ b ∈ l, Shaped b
  inside : ∀ x, Covers l x → x / pageSize ∈ pages
  bytes : bytes l = pageSize * pages.card

namespace Tiles

variable {l l' o : List Block} {pages : Finset Nat} {b : Block}

lemma perm (h : Tiles l pages) (hp : l.Perm l') : Tiles l' pages where
  apart := (hp.pairwise_iff Apart.symm).mp h.apart
  shaped := fun b hb => h.shaped b (hp.mem_iff.mpr hb)
  inside := fun x hx => h.inside x (((Same.of_perm hp).covers x).mpr hx)
  bytes := (Same.of_perm hp).bytes ▸ h.bytes

lemma replace (h : Tiles (l ++ o) pages) (hsame : Same l l') (hapart : l'.Pairwise Apart)
    (hshaped : ∀ b ∈ l', Shaped b) : Tiles (l' ++ o) pages where
  apart := by
    refine pairwise_apart_replace h.apart hapart (fun x => (hsame.covers x).mpr) ?_ ?_
    · intro b hb
      have := (hshaped b hb).room
      omega
    · intro b hb
      have := (h.shaped b (mem_append_right _ hb)).room
      omega
  shaped := by
    exact forall_mem_append.mpr ⟨hshaped, (forall_mem_append.mp h.shaped).2⟩
  inside := fun x hx => h.inside x ((hsame.append_right.covers x).mpr hx)
  bytes := hsame.append_right.bytes ▸ h.bytes

lemma addPage (h : Tiles l pages) {a : Nat} (ha : a % pageSize = 0) (hpos : 0 < a)
    (hnew : a / pageSize ∉ pages) : Tiles (⟨a, pageSize⟩ :: l) (insert (a / pageSize) pages) where
  apart := by
    refine pairwise_cons.mpr ⟨fun c hc => ?_, h.apart⟩
    have hroom := (h.shaped c hc).room
    refine apart_of_not_has (by simp [pageSize]) (by omega) fun x hx hcx => ?_
    have hpage : x / pageSize = a / pageSize := by
      simp only [Block.Has, Block.fin, pageSize] at *
      omega
    exact hnew (hpage ▸ h.inside x ⟨c, hc, hcx⟩)
  shaped := by
    refine forall_mem_cons.mpr ⟨?_, h.shaped⟩
    simp only [pageSize] at *
    constructor <;> simp only <;> omega
  inside := by
    intro x hx
    rcases (covers_cons _ _ _).mp hx with hx | hx
    · refine Finset.mem_insert.mpr (Or.inl ?_)
      simp only [Block.Has, Block.fin, pageSize] at *
      omega
    · exact Finset.mem_insert_of_mem (h.inside x hx)
  bytes := by
    rw [bytes_cons, h.bytes, Finset.card_insert_of_notMem hnew]
    ring

lemma off (h : Tiles (l ++ o) pages) (hb : b ∈ o) {x : Nat} (hx : b.Has x) : ¬ Covers l x := by
  rintro ⟨c, hc, hcx⟩
  exact ((pairwise_append.mp h.apart).2.2 c hc b hb).not_has hcx hx

lemma fin_le (h : Tiles l pages) (hpages : ∀ p ∈ pages, p < pmmMaxPage) (hb : b ∈ l) :
    b.fin ≤ memTop := by
  have hroom := (h.shaped b hb).room
  have hlast := h.inside (b.fin - 1) ⟨b, hb, by simp only [Block.Has, Block.fin]; omega⟩
  have hpage := hpages _ hlast
  have hmax : pmmMaxPage = 1048576 := by decide
  have htop : memTop = 1048576 * 4096 := by decide
  simp only [pageSize] at hpage
  omega

end Tiles

def HasHeader (m : Memory) (b : Block) : Prop :=
  m b.addr = b.size ∧ m (b.addr + 8) = not64 b.size

def HeapCall.Ok (m : Memory) : HeapCall → Prop
  | .growing needed => needed % 16 = 0 ∧ 16 ≤ needed
  | .collecting needed _ got => needed % 16 = 0 ∧ 16 ≤ needed ∧ 0 < got
  | .grown needed _ got => needed % 16 = 0 ∧ 16 ≤ needed ∧ 0 < got
  | .freeing b => m b.addr = b.size

/-- The invariant of the heap, with `fl` the blocks of the free list. -/
structure HeapSys.Inv (s : HeapSys) (fl : List Block) : Prop where
  free : s.heap.FreeIs fl
  tiles : Tiles (fl ++ s.owned) s.pages
  headers : ∀ b ∈ s.live, HasHeader s.heap.mem b
  calls : ∀ c ∈ s.calls, c.Ok s.heap.mem
  low : ∀ p ∈ s.pages, p < pmmMaxPage

lemma neededSize_ok (size : Nat) : neededSize size % 16 = 0 ∧ 16 ≤ neededSize size := by
  have hmod : add64 (add64 size 15 / 16 * 16) headerSize % 16 = 0 := by
    simp only [headerSize, add64, two64]
    omega
  simp only [neededSize]
  split
  · decide
  · simp only [minBlock] at *
    omega

lemma HasHeader.frame (h : HasHeader m b) (hb : Shaped b) (hoff : ∀ x, b.Has x → ¬ Covers l x)
    (hframe : ∀ x, ¬ Covers l x → m' x = m x) : HasHeader m' b := by
  obtain ⟨h0, h8⟩ := Block.has_words hb.room
  exact ⟨(hframe _ (hoff _ h0)).trans h.1, (hframe _ (hoff _ h8)).trans h.2⟩

lemma HeapCall.Ok.frame (h : c.Ok m) (hb : ∀ b ∈ c.blocks, Shaped b)
    (hoff : ∀ b ∈ c.blocks, ∀ x, b.Has x → ¬ Covers l x) (hframe : ∀ x, ¬ Covers l x → m' x = m x) :
    c.Ok m' := by
  cases c with
  | freeing b =>
    have hmem : b ∈ (HeapCall.freeing b).blocks := mem_singleton_self b
    exact (hframe _ (hoff b hmem _ (Block.has_words (hb b hmem).room).1)).trans h
  | growing _ | collecting _ _ _ | grown _ _ _ => exact h

section Frame

variable {l o : List Block} {pages : Finset Nat} {m m' : Memory}

lemma Tiles.frame_headers (ht : Tiles (l ++ o) pages) (hframe : ∀ x, ¬ Covers l x → m' x = m x)
    {live : List Block} (hsub : ∀ b ∈ live, b ∈ o) (hh : ∀ b ∈ live, HasHeader m b) :
    ∀ b ∈ live, HasHeader m' b := fun b hb =>
  (hh b hb).frame (ht.shaped b (mem_append_right _ (hsub b hb)))
    (fun _ hx => ht.off (hsub b hb) hx) hframe

lemma Tiles.frame_calls (ht : Tiles (l ++ o) pages) (hframe : ∀ x, ¬ Covers l x → m' x = m x)
    {calls : List HeapCall} (hsub : ∀ c ∈ calls, ∀ b ∈ c.blocks, b ∈ o)
    (hok : ∀ c ∈ calls, c.Ok m) :
    ∀ c ∈ calls, c.Ok m' := fun c hc =>
  (hok c hc).frame (fun b hb => ht.shaped b (mem_append_right _ (hsub c hc b hb)))
    (fun b hb _ hx => ht.off (hsub c hc b hb) hx) hframe

end Frame

lemma HeapSys.mem_owned_of_call (hc : c ∈ s.calls) (hb : b ∈ c.blocks) : b ∈ s.owned := by
  simp only [HeapSys.owned, HeapSys.inFlight, mem_append, mem_flatMap]
  exact Or.inl (Or.inr ⟨c, hc, hb⟩)

lemma HeapSys.mem_owned_of_live (hb : b ∈ s.live) : b ∈ s.owned := by
  simp [HeapSys.owned, hb]

lemma HeapSys.perm_of_call (hpick : s.calls.Perm (c :: rest)) (fl : List Block) :
    (fl ++ s.owned).Perm ((c.blocks ++ fl) ++ { s with calls := rest }.owned) := by
  have hflat := hpick.flatMap_right HeapCall.blocks
  refine perm_iff_count.mpr fun b => ?_
  have hcount := hflat.count_eq b
  simp only [flatMap_cons, HeapSys.owned, HeapSys.inFlight, count_append] at *
  omega

lemma HeapSys.perm_of_live {rest : List Block} (hpick : s.live.Perm (b :: rest))
    (fl : List Block) :
    (fl ++ s.owned).Perm (b :: (fl ++ { s with live := rest }.owned)) := by
  refine perm_iff_count.mpr fun c => ?_
  have hcount := hpick.count_eq c
  simp only [HeapSys.owned, HeapSys.inFlight, count_append, count_cons] at *
  omega

lemma HeapSys.Inv.take (hinv : s.Inv fl) (htook : Took s.heap h' fl needed b fl') :
    { s with heap := h', live := b :: s.live }.Inv fl' := by
  have hapart : (b :: fl').Pairwise Apart :=
    pairwise_cons.mpr ⟨htook.apart, htook.free.spaced.pairwise_apart⟩
  have hshaped := forall_mem_cons.mpr ⟨htook.shaped, htook.free.shaped⟩
  refine ⟨htook.free, ?_, forall_mem_cons.mpr ⟨⟨htook.size, htook.canary⟩, ?_⟩, ?_, hinv.low⟩
  · refine (hinv.tiles.replace htook.same hapart hshaped).perm ?_
    exact (HeapSys.perm_of_live (s := { s with live := b :: s.live }) (.refl _) fl').symm
  · exact hinv.tiles.frame_headers htook.frame (fun _ => HeapSys.mem_owned_of_live) hinv.headers
  · exact hinv.tiles.frame_calls htook.frame
      (fun c hc b hb => HeapSys.mem_owned_of_call (s := s) hc hb) hinv.calls

lemma HeapSys.Inv.insert (hinv : s.Inv fl) (hpick : s.calls.Perm (c :: rest))
    (hblocks : c.blocks = [b]) (hfree : h'.FreeIs fl') (hsame : Same (b :: fl) fl')
    (hframe : ∀ x, ¬ Covers (b :: fl) x → h'.mem x = s.heap.mem x) :
    { s with heap := h', calls := rest }.Inv fl' := by
  have ht := hinv.tiles.perm (HeapSys.perm_of_call hpick fl)
  rw [hblocks] at ht
  have hsub : ∀ c' ∈ rest, c' ∈ s.calls := fun c' hc' =>
    hpick.mem_iff.mpr (mem_cons_of_mem _ hc')
  refine ⟨hfree, ?_, ?_, ?_, hinv.low⟩
  · exact ht.replace hsame hfree.spaced.pairwise_apart hfree.shaped
  · exact ht.frame_headers hframe (fun b hb => HeapSys.mem_owned_of_live
      (s := { s with calls := rest }) hb) hinv.headers
  · exact ht.frame_calls hframe (fun c hc b hb => HeapSys.mem_owned_of_call
      (s := { s with calls := rest }) hc hb) fun c' hc' => hinv.calls c' (hsub c' hc')

lemma HeapSys.Inv.of_call (hinv : s.Inv fl) (hc : c ∈ s.calls) (hb : b ∈ c.blocks) :
    Shaped b ∧ b.fin ≤ memTop ∧ ∀ d ∈ fl, Apart b d := by
  have hmem := HeapSys.mem_owned_of_call hc hb
  refine ⟨hinv.tiles.shaped b (mem_append_right _ hmem),
    hinv.tiles.fin_le hinv.low (mem_append_right _ hmem), fun d hd => ?_⟩
  exact ((pairwise_append.mp hinv.tiles.apart).2.2 d hd b hmem).symm

def Heap.InBounds (h : Heap) (b : Block) : Prop := h.heapStart ≤ b.addr ∧ b.fin ≤ h.heapEnd

instance (h : Heap) (b : Block) : Decidable (h.InBounds b) := inferInstanceAs (Decidable (_ ∧ _))

/-- On a live block the checks of `kfree` come down to the bounds, and the write before the
lock changes nothing. -/
lemma kfreeCheck_live (hh : HasHeader h.mem b) (hb : Shaped b) (htop : b.fin ≤ memTop) :
    kfreeCheck h (b.addr + headerSize) = if h.InBounds b then some (b.addr, h) else none := by
  have hmemTop : memTop = 2 ^ 32 := by decide
  have hlow := hb.low
  have hblk : sub64 (b.addr + headerSize) headerSize = b.addr := by
    simp only [Block.fin] at htop
    rw [sub64_of_le (Nat.le_add_left _ _) (by simp only [two64, headerSize]; omega)]
    omega
  have hend : add64 b.addr b.size = b.fin :=
    add64_of_lt (by simp only [two64, Block.fin] at *; omega)
  have hself : h.setSize b.addr b.size = h := by
    simp only [Heap.setSize, ← hh.1, Function.update_eq_self]
  have hptr : b.addr + headerSize ≠ 0 := by omega
  simp only [kfreeCheck, hptr, if_false, hblk, Heap.size, Heap.next, hh.1, hh.2, ne_eq,
    not_true_eq_false, hend, hself]
  by_cases hin : h.InBounds b
  · rw [if_pos hin, if_neg (by simp only [Heap.InBounds] at hin; omega)]
  · rw [if_neg hin, if_pos (by simp only [Heap.InBounds] at hin; omega)]

def HeapSys.freeing (s : HeapSys) : List Block :=
  s.calls.flatMap fun c => match c with
    | .freeing b => [b]
    | _ => []

/-- Every block that is free, live or being freed lies between the bounds. -/
def HeapSys.Bounded (s : HeapSys) (fl : List Block) : Prop :=
  ∀ b ∈ fl ++ s.live ++ s.freeing, s.heap.InBounds b

lemma HeapSys.mem_freeing : b ∈ s.freeing ↔ .freeing b ∈ s.calls := by
  simp only [HeapSys.freeing, mem_flatMap]
  constructor
  · rintro ⟨c, hc, hb⟩
    cases c <;> simp_all
  · intro hc
    exact ⟨_, hc, by simp⟩

lemma inBounds_of_covers (hpos : 0 < b.size) (hcov : ∀ x, b.Has x → Covers l x)
    (hl : ∀ c ∈ l, h.InBounds c) : h.InBounds b := by
  obtain ⟨c, hc, hcx⟩ := hcov b.addr (by simp only [Block.Has, Block.fin]; omega)
  obtain ⟨d, hd, hdx⟩ := hcov (b.fin - 1) (by simp only [Block.Has, Block.fin]; omega)
  have h1 := hl c hc
  have h2 := hl d hd
  simp only [Heap.InBounds, Block.Has, Block.fin] at *
  omega

lemma SameBounds.inBounds (hs : SameBounds h h') : h'.InBounds b ↔ h.InBounds b := by
  simp only [Heap.InBounds, hs.1, hs.2]

lemma Heap.inBounds_widen {base newEnd : Nat} (hb : h.InBounds b) :
    (h.widen base newEnd).InBounds b := by
  simp only [Heap.InBounds, Heap.widen] at *
  split <;> split <;> omega

/-- The second critical section of `kmalloc`: the collected region goes to the free list and one
more attempt is made. -/
lemma kmallocGrown_spec (got : Nat) (hf : h.FreeIs fl) (hb : Shaped b) (htop : b.fin ≤ memTop)
    (hapart : ∀ c ∈ fl, Apart b c) (hsize : b.size = got * pageSize) (hn : needed % 16 = 0)
    (hn16 : 16 ≤ needed) :
    ∃ h2 fl2, h2.FreeIs fl2 ∧ Same (b :: fl) fl2 ∧
      (∀ x, ¬ Covers (b :: fl) x → h2.mem x = h.mem x) ∧ SameBounds (h.widen b.addr b.fin) h2 ∧
      (kmallocGrown h needed b.addr got = some (0, h2) ∨
        ∃ b' fl' h', kmallocGrown h needed b.addr got = some (b'.addr + headerSize, h') ∧
          Took h2 h' fl2 needed b' fl') := by
  have hhas := (Block.has_words hb.room).1
  have hoff : ¬ Covers fl b.addr := by
    rintro ⟨c, hc, hcx⟩
    exact (hapart c hc).not_has hhas hcx
  set h1 := (h.widen b.addr (b.addr + got * pageSize)).setSize b.addr (got * pageSize) with hh1
  have hf1 : h1.FreeIs fl :=
    ⟨hf.rep.update (roomy_of_shaped hf.shaped) hoff, hf.spaced, hf.shaped, hf.top⟩
  have hword : h1.mem b.addr = b.size := by simp [hh1, hsize]
  obtain ⟨h2, fl2, hdo, hf2, hsame, hframe, hbounds⟩ := insertFree_spec hf1 hb htop hapart hword
  have hgrown : kmallocGrown h needed b.addr got = kmallocAttempt h2 needed := by
    simp only [kmallocGrown, ← hh1, hdo]
    rfl
  refine ⟨h2, fl2, hf2, hsame, fun x hx => ?_, ?_, ?_⟩
  · obtain ⟨hxb, -⟩ := Block.ne_words hb.room fun hxb : b.Has x => hx (by simp [hxb])
    rw [hframe x hx, hh1, Heap.setSize_mem, Function.update_of_ne hxb]
    rfl
  · rw [show b.fin = b.addr + got * pageSize by rw [Block.fin, hsize]]
    exact hbounds
  · rw [hgrown]
    exact (kmallocAttempt_spec hf2 hn hn16).imp_left And.left

end MicroOs.Mm
