import MicroOs.Mm.Proofs.HeapInvariant

/-!
# Runs of the heap

One lemma for each kind of step says that the step keeps the invariant, and that it keeps all
blocks between the bounds if they were there before. The results about whole runs follow.
-/

namespace MicroOs.Mm
open Lib List

variable {a base got n needed ptr : Nat} {answer : Nat → Nat} {b : Block} {c : HeapCall}
  {fl' : List Block} {h h' : Heap} {rest : List HeapCall}
variable {s t : HeapSys} {fl : List Block}

def KeepsInv (s : HeapSys) (fl : List Block) (t : HeapSys) : Prop :=
  ∃ fl', t.Inv fl' ∧ (s.Bounded fl → t.Bounded fl')

lemma Took.bounded (htook : Took s.heap h' fl needed b fl') (hb : s.Bounded fl) :
    { s with heap := h', live := b :: s.live }.Bounded fl' := by
  have hshaped := forall_mem_cons.mpr ⟨htook.shaped, htook.free.shaped⟩
  have hcover : ∀ c ∈ b :: fl', s.heap.InBounds c := by
    intro c hc
    have hpos : 0 < c.size := by have := (hshaped c hc).room; omega
    refine inBounds_of_covers hpos (fun x hx => (htook.same.covers x).mpr ⟨c, hc, hx⟩) fun d hd => ?_
    exact hb d (by simp [hd])
  intro c hc
  refine htook.bounds.inBounds.mpr ?_
  simp only [mem_append, mem_cons, HeapSys.mem_freeing] at hc
  rcases hc with (hc | rfl | hc) | hc
  · exact hcover c (mem_cons_of_mem _ hc)
  · exact hcover c mem_cons_self
  · exact hb c (by simp [hc])
  · exact hb c (by simp [HeapSys.mem_freeing, hc])

lemma Took.blockOf (htook : Took h h' fl needed b fl') : h'.blockOf (b.addr + headerSize) = b := by
  simp only [Heap.blockOf, Nat.add_sub_cancel, Heap.size, htook.size]

lemma keepsInv_take (hinv : s.Inv fl) (hn : needed % 16 = 0 ∧ 16 ≤ needed)
    (hdo : kmallocAttempt s.heap needed = some (ptr, h')) (hptr : ptr ≠ 0) :
    KeepsInv s fl { s with heap := h', live := h'.blockOf ptr :: s.live } := by
  rcases kmallocAttempt_spec hinv.free hn.1 hn.2 with ⟨heq, -⟩ | ⟨b, fl', h'', heq, htook⟩
  · rw [heq] at hdo
    exact absurd (Prod.mk.inj (Option.some.inj hdo)).1.symm hptr
  · rw [heq] at hdo
    obtain ⟨rfl, rfl⟩ := Prod.mk.inj (Option.some.inj hdo)
    rw [htook.blockOf]
    exact ⟨fl', hinv.take htook, htook.bounded⟩

lemma bounded_insert (hpick : s.calls.Perm (c :: rest)) (hfree : h'.FreeIs fl')
    (hsame : Same (b :: fl) fl') (hold : ∀ d, s.heap.InBounds d → h'.InBounds d)
    (hb : h'.InBounds b) (hbound : s.Bounded fl) :
    { s with heap := h', calls := rest }.Bounded fl' := by
  intro d hd
  simp only [mem_append, HeapSys.mem_freeing] at hd
  rcases hd with (hd | hd) | hd
  · have hpos : 0 < d.size := by have := (hfree.shaped d hd).room; omega
    refine inBounds_of_covers hpos (fun x hx => (hsame.covers x).mpr ⟨d, hd, hx⟩) fun e he => ?_
    rcases mem_cons.mp he with rfl | he
    · exact hb
    · exact hold e (hbound e (by simp [he]))
  · exact hold d (hbound d (by simp [hd]))
  · refine hold d (hbound d ?_)
    simp [HeapSys.mem_freeing, hpick.mem_iff, hd]

lemma keepsInv_kfreeLocked (hinv : s.Inv fl) (hpick : s.calls.Perm (.freeing b :: rest))
    (hdo : insertFree s.heap b.addr = some h') :
    KeepsInv s fl { s with heap := h', calls := rest } := by
  have hcall : HeapCall.freeing b ∈ s.calls := hpick.mem_iff.mpr mem_cons_self
  obtain ⟨hshaped, htop, hapart⟩ := hinv.of_call (b := b) hcall (by simp [HeapCall.blocks])
  have hsize : s.heap.mem b.addr = b.size := hinv.calls _ hcall
  obtain ⟨h'', fl', heq, hfree, hsame, hframe, hbounds⟩ :=
    insertFree_spec hinv.free hshaped htop hapart hsize
  obtain rfl : h'' = h' := Option.mem_unique heq hdo
  refine ⟨fl', hinv.insert hpick rfl hfree hsame hframe, fun hb => ?_⟩
  refine bounded_insert hpick hfree hsame (fun d => hbounds.inBounds.mpr)
    (hbounds.inBounds.mpr (hb b ?_)) hb
  simp [HeapSys.mem_freeing, hcall]

lemma inBounds_widen_self : (h.widen b.addr b.fin).InBounds b := by
  simp only [Heap.InBounds, Heap.widen]
  split <;> split <;> omega

lemma keepsInv_grow (hinv : s.Inv fl) (hpick : s.calls.Perm (.grown needed base got :: rest))
    (hdo : kmallocGrown s.heap needed base got = some (ptr, h')) :
    (ptr = 0 → KeepsInv s fl { s with heap := h', calls := rest }) ∧
      (ptr ≠ 0 → KeepsInv s fl
        { s with heap := h', live := h'.blockOf ptr :: s.live, calls := rest }) := by
  have hcall : HeapCall.grown needed base got ∈ s.calls := hpick.mem_iff.mpr mem_cons_self
  obtain ⟨hn, hn16, -⟩ := hinv.calls _ hcall
  set b : Block := ⟨base, got * pageSize⟩
  obtain ⟨hshaped, htop, hapart⟩ := hinv.of_call (b := b) hcall (by simp [HeapCall.blocks, b])
  obtain ⟨h2, fl2, hfree, hsame, hframe, hbounds, hres⟩ :=
    kmallocGrown_spec got hinv.free hshaped htop hapart rfl hn hn16
  have hinv2 : { s with heap := h2, calls := rest }.Inv fl2 :=
    hinv.insert hpick rfl hfree hsame hframe
  have hbounded2 : s.Bounded fl → { s with heap := h2, calls := rest }.Bounded fl2 :=
    bounded_insert hpick hfree hsame
      (fun d hd => hbounds.inBounds.mpr (Heap.inBounds_widen hd))
      (hbounds.inBounds.mpr inBounds_widen_self)
  rcases hres with heq | ⟨b', fl', h'', heq, htook⟩
  · obtain ⟨rfl, rfl⟩ := Prod.mk.inj (Option.mem_unique heq hdo)
    exact ⟨fun _ => ⟨fl2, hinv2, hbounded2⟩, fun hne => absurd rfl hne⟩
  · obtain ⟨rfl, rfl⟩ := Prod.mk.inj (Option.mem_unique heq hdo)
    refine ⟨fun h0 => absurd h0 (by simp [headerSize]), fun _ => ?_⟩
    rw [htook.blockOf]
    exact ⟨fl', hinv2.take htook, fun hb => htook.bounded (hbounded2 hb)⟩

lemma keepsInv_recall {calls : List HeapCall} (hinv : s.Inv fl)
    (hperm : (calls.flatMap HeapCall.blocks).Perm s.inFlight) (hok : ∀ c ∈ calls, c.Ok s.heap.mem)
    (hfreeing : ∀ b, .freeing b ∈ calls → .freeing b ∈ s.calls) :
    KeepsInv s fl { s with calls } := by
  refine ⟨fl, ⟨hinv.free, hinv.tiles.perm ?_, hinv.headers, hok, hinv.low⟩, fun hb b hmem => ?_⟩
  · refine Perm.append_left fl ?_
    simp only [HeapSys.owned, HeapSys.inFlight] at *
    exact (hperm.symm.append_left s.live).append_right s.lost
  · simp only [mem_append, HeapSys.mem_freeing] at hmem
    refine hb b ?_
    simp only [mem_append, HeapSys.mem_freeing]
    exact hmem.imp_right (hfreeing b)

lemma keepsInv_swap {c' : HeapCall} (hinv : s.Inv fl) (hpick : s.calls.Perm (c :: rest))
    (hblocks : c'.blocks = c.blocks) (hok : c'.Ok s.heap.mem) (hc' : ∀ b, c' ≠ .freeing b) :
    KeepsInv s fl { s with calls := c' :: rest } := by
  refine keepsInv_recall hinv ?_ ?_ ?_
  · rw [flatMap_cons, hblocks, ← flatMap_cons]
    exact (hpick.flatMap_right HeapCall.blocks).symm
  · exact forall_mem_cons.mpr
      ⟨hok, fun d hd => hinv.calls d (hpick.mem_iff.mpr (mem_cons_of_mem _ hd))⟩
  · intro b hb
    rcases mem_cons.mp hb with hb | hb
    · exact absurd hb.symm (hc' b)
    · exact hpick.mem_iff.mpr (mem_cons_of_mem _ hb)

lemma PageAnswer.page {pages : Finset Nat} (h : PageAnswer pages a) (ha : a ≠ 0) :
    a % pageSize = 0 ∧ 0 < a ∧ a / pageSize < pmmMaxPage ∧ a / pageSize ∉ pages :=
  h.resolve_left ha

lemma keepsInv_collect {p : Nat}
    (hinv : s.Inv fl) (hpick : s.calls.Perm (c :: rest))
    (hok : (HeapCall.collecting needed base got).Ok s.heap.mem) (hp : p < pmmMaxPage)
    (ht : Tiles ([⟨base, got * pageSize⟩] ++ (fl ++ { s with calls := rest }.owned))
      (insert p s.pages)) :
    KeepsInv s fl { s with calls := .collecting needed base got :: rest, pages := insert p s.pages } := by
  have hrest : ∀ d ∈ rest, d ∈ s.calls := fun d hd => hpick.mem_iff.mpr (mem_cons_of_mem _ hd)
  refine ⟨fl, ⟨hinv.free, ht.perm ?_, hinv.headers, ?_, ?_⟩, fun hb b hmem => hb b ?_⟩
  · exact (HeapSys.perm_of_call (s := { s with calls := .collecting needed base got :: rest })
      (.refl _) fl).symm
  · exact forall_mem_cons.mpr ⟨hok, fun d hd => hinv.calls d (hrest d hd)⟩
  · exact Finset.forall_mem_insert _ _ _ |>.mpr ⟨hp, hinv.low⟩
  · simp only [mem_append, HeapSys.mem_freeing, mem_cons, reduceCtorEq, false_or] at hmem ⊢
    exact hmem.imp_right (hrest _)

lemma keepsInv_firstPage (hinv : s.Inv fl) (hpick : s.calls.Perm (.growing needed :: rest))
    (hans : PageAnswer s.pages a) (ha : a ≠ 0) :
    KeepsInv s fl
      { s with calls := .collecting needed a 1 :: rest, pages := insert (a / pageSize) s.pages } := by
  obtain ⟨haligned, hpos, hlow, hnew⟩ := hans.page ha
  obtain ⟨hn, hn16⟩ := hinv.calls _ (hpick.mem_iff.mpr mem_cons_self)
  refine keepsInv_collect hinv hpick ⟨hn, hn16, Nat.one_pos⟩ hlow ?_
  rw [Nat.one_mul]
  exact (hinv.tiles.perm (HeapSys.perm_of_call hpick fl)).addPage haligned hpos hnew

lemma keepsInv_nextPage (hinv : s.Inv fl)
    (hpick : s.calls.Perm (.collecting needed base got :: rest))
    (hans : PageAnswer s.pages (base + got * pageSize)) (ha : base + got * pageSize ≠ 0) :
    KeepsInv s fl
      { s with calls := .collecting needed base (got + 1) :: rest
               pages := insert ((base + got * pageSize) / pageSize) s.pages } := by
  obtain ⟨haligned, hpos, hlow, hnew⟩ := hans.page ha
  obtain ⟨hn, hn16, hgot⟩ := hinv.calls _ (hpick.mem_iff.mpr mem_cons_self)
  refine keepsInv_collect hinv hpick ⟨hn, hn16, Nat.succ_pos _⟩ hlow ?_
  set old : Block := ⟨base, got * pageSize⟩ with hold
  set page : Block := ⟨base + got * pageSize, pageSize⟩ with hpage
  set whole : Block := ⟨base, (got + 1) * pageSize⟩ with hwhole
  -- the new page is added to the tiling and merged with the region it continues
  have htiles : Tiles ([old, page] ++ (fl ++ { s with calls := rest }.owned))
      (insert ((base + got * pageSize) / pageSize) s.pages) := by
    refine ((hinv.tiles.perm (HeapSys.perm_of_call hpick fl)).addPage haligned hpos hnew).perm ?_
    exact Perm.swap _ _ _
  have hsame : Same [old, page] [whole] := by
    have hmerge := Same.merge (a := old) (b := page) rfl []
    have : old.size + page.size = (got + 1) * pageSize := by simp only [hold, hpage]; ring
    rwa [this] at hmerge
  refine htiles.replace hsame (pairwise_singleton _ _) (forall_mem_singleton.mpr ?_)
  have h1 := htiles.shaped old (by simp)
  refine ⟨h1.addr, ?_, h1.low, ?_⟩ <;> simp only [hwhole, pageSize] <;> omega

lemma HeapSys.Inv.kfreeCheck (hinv : s.Inv fl) (hb : b ∈ s.live) :
    kfreeCheck s.heap (b.addr + headerSize) =
      if s.heap.InBounds b then some (b.addr, s.heap) else none := by
  have hmem := mem_append_right fl (HeapSys.mem_owned_of_live hb)
  exact kfreeCheck_live (hinv.headers b hb) (hinv.tiles.shaped b hmem)
    (hinv.tiles.fin_le hinv.low hmem)

lemma keepsInv_kfreeReject {rest : List Block} (hinv : s.Inv fl)
    (hpick : s.live.Perm (b :: rest)) :
    KeepsInv s fl { s with live := rest, lost := b :: s.lost } := by
  refine ⟨fl, ⟨hinv.free, (hinv.tiles.perm (HeapSys.perm_of_live hpick fl)).perm ?_, ?_,
    hinv.calls, hinv.low⟩, ?_⟩
  · refine perm_iff_count.mpr fun c => ?_
    simp only [HeapSys.owned, HeapSys.inFlight, count_append, count_cons]
    omega
  · exact fun c hc => hinv.headers c (hpick.mem_iff.mpr (mem_cons_of_mem _ hc))
  · intro hb c hc
    refine hb c ?_
    simp only [mem_append, HeapSys.mem_freeing, hpick.mem_iff, mem_cons] at *
    grind

lemma keepsInv_kfreeAccept {rest : List Block} {blk : Nat} (hinv : s.Inv fl)
    (hpick : s.live.Perm (b :: rest))
    (hdo : kfreeCheck s.heap (b.addr + headerSize) = some (blk, h')) :
    KeepsInv s fl
      { s with heap := h', live := rest, calls := .freeing ⟨blk, h'.size blk⟩ :: s.calls } := by
  have hlive : b ∈ s.live := hpick.mem_iff.mpr mem_cons_self
  rw [hinv.kfreeCheck hlive] at hdo
  split at hdo
  · rename_i hin
    obtain ⟨rfl, rfl⟩ := Prod.mk.inj (Option.some.inj hdo)
    have hblock : (⟨b.addr, s.heap.size b.addr⟩ : Block) = b := by
      rw [Heap.size, (hinv.headers b hlive).1]
    rw [hblock]
    refine ⟨fl, ⟨hinv.free, (hinv.tiles.perm (HeapSys.perm_of_live hpick fl)).perm ?_, ?_, ?_,
      hinv.low⟩, ?_⟩
    · refine perm_iff_count.mpr fun c => ?_
      simp only [HeapCall.blocks, HeapSys.owned, HeapSys.inFlight, flatMap_cons,
        count_append, count_cons, count_nil]
      omega
    · exact fun c hc => hinv.headers c (hpick.mem_iff.mpr (mem_cons_of_mem _ hc))
    · exact forall_mem_cons.mpr ⟨(hinv.headers b hlive).1, hinv.calls⟩
    · intro hb c hc
      simp only [mem_append, HeapSys.mem_freeing, mem_cons, HeapCall.freeing.injEq] at hc
      rcases hc with (hc | hc) | rfl | hc
      · exact hb c (by simp [hc])
      · exact hb c (by simp [hpick.mem_iff, hc])
      · exact hin
      · exact hb c (by simp [HeapSys.mem_freeing, hc])
  · cases hdo

lemma keepsInv_store {mem' : Memory} (hinv : s.Inv fl)
    (hstore : ∀ x, mem' x ≠ s.heap.mem x →
      (∃ b ∈ s.live, b.addr + headerSize ≤ x ∧ x < b.fin) ∨ x / pageSize ∉ s.pages) :
    KeepsInv s fl { s with heap := { s.heap with mem := mem' } } := by
  -- a word of the heap changes only inside the payload of a live block
  have hsame : ∀ x, Covers (fl ++ s.owned) x →
      (∀ b ∈ s.live, b.Has x → x < b.addr + headerSize) → mem' x = s.heap.mem x := by
    intro x hx hpayload
    by_contra hne
    rcases hstore x hne with ⟨b, hb, hlo, hhi⟩ | hout
    · have := hpayload b hb ⟨by omega, hhi⟩
      omega
    · exact hout (hinv.tiles.inside x hx)
  -- two blocks that share an address are the same block
  have hunique : ∀ b ∈ s.live, ∀ c ∈ fl ++ s.owned, ∀ x, b.Has x → c.Has x → b = c := by
    intro b hb c hc x hbx hcx
    by_contra hne
    have hapart := hinv.tiles.apart.forall
      (mem_append_right _ (HeapSys.mem_owned_of_live hb)) hc hne
    exact hapart.not_has hbx hcx
  have hheader : ∀ c ∈ fl ++ s.owned, ∀ x, c.addr ≤ x → x < c.addr + headerSize →
      mem' x = s.heap.mem x := by
    intro c hc x hlo hhi
    have hroom := (hinv.tiles.shaped c hc).room
    have hcx : c.Has x := by simp only [Block.Has, Block.fin, headerSize] at *; omega
    refine hsame x ⟨c, hc, hcx⟩ fun b hb hbx => ?_
    rw [hunique b hb c hc x hbx hcx]
    exact hhi
  refine ⟨fl, ⟨⟨?_, hinv.free.spaced, hinv.free.shaped, hinv.free.top⟩, hinv.tiles, ?_, ?_,
    hinv.low⟩, fun hb => hb⟩
  · refine hinv.free.rep.frame (roomy_of_shaped hinv.free.shaped) fun x hx => ?_
    refine hsame x ((covers_append _ _ _).mpr (Or.inl hx)) fun b hb hbx => ?_
    exact absurd hx (hinv.tiles.off (HeapSys.mem_owned_of_live hb) hbx)
  · intro b hb
    have hmem := mem_append_right fl (HeapSys.mem_owned_of_live hb)
    obtain ⟨h0, h8⟩ := hinv.headers b hb
    exact ⟨(hheader b hmem _ le_rfl (by simp [headerSize])).trans h0,
      (hheader b hmem _ (by omega) (by simp [headerSize])).trans h8⟩
  · intro c hc
    cases c with
    | freeing b =>
      have hmem := mem_append_right fl
        (HeapSys.mem_owned_of_call hc (b := b) (by simp [HeapCall.blocks]))
      exact (hheader b hmem _ le_rfl (by simp [headerSize])).trans (hinv.calls _ hc)
    | growing _ | collecting _ _ _ | grown _ _ _ => exact hinv.calls _ hc

lemma HeapStep.keepsInv {e : HeapEvent} (hstep : HeapStep s e t) (hinv : s.Inv fl) :
    KeepsInv s fl t := by
  cases hstep with
  | kmallocZero => exact ⟨fl, hinv, id⟩
  | kmallocHit size ptr h' hne hdo hptr =>
    exact keepsInv_take hinv (neededSize_ok size) hdo hptr
  | kmallocMiss size h' hne hdo =>
    obtain ⟨hn, hn16⟩ := neededSize_ok size
    rcases kmallocAttempt_spec hinv.free hn hn16 with ⟨heq, -⟩ | ⟨b, fl', h'', heq, -⟩
    · obtain ⟨-, rfl⟩ := Prod.mk.inj (Option.mem_unique heq hdo)
      exact keepsInv_recall hinv (Perm.refl _)
        (forall_mem_cons.mpr ⟨⟨hn, hn16⟩, hinv.calls⟩) (by simp)
    · have := (Prod.mk.inj (Option.mem_unique heq hdo)).1
      simp [headerSize] at this
  | noPage needed rest hpick =>
    refine keepsInv_recall hinv ?_ (fun c hc => ?_) fun b hb => ?_
    · exact (hpick.flatMap_right HeapCall.blocks).symm
    · exact hinv.calls c (hpick.mem_iff.mpr (mem_cons_of_mem _ hc))
    · exact hpick.mem_iff.mpr (mem_cons_of_mem _ hb)
  | firstPage needed a rest hpick hans ha => exact keepsInv_firstPage hinv hpick hans ha
  | nextPage needed base got a rest hpick hmore hans ha heq =>
    subst heq
    exact keepsInv_nextPage hinv hpick hans ha
  | otherPage needed base got a rest hpick hmore hans hother =>
    have hok := hinv.calls _ (hpick.mem_iff.mpr mem_cons_self)
    exact keepsInv_swap hinv hpick rfl hok (by simp)
  | leaveLoop needed base got rest hpick hdone =>
    have hok := hinv.calls _ (hpick.mem_iff.mpr mem_cons_self)
    exact keepsInv_swap hinv hpick rfl hok (by simp)
  | growHit needed base got ptr rest h' hpick hdo hptr =>
    exact (keepsInv_grow hinv hpick hdo).2 hptr
  | growMiss needed base got rest h' hpick hdo => exact (keepsInv_grow hinv hpick hdo).1 rfl
  | kfreeReject b rest hpick hdo => exact keepsInv_kfreeReject hinv hpick
  | kfreeAccept b rest blk h' hpick hdo => exact keepsInv_kfreeAccept hinv hpick hdo
  | kfreeLocked b rest h' hpick hdo => exact keepsInv_kfreeLocked hinv hpick hdo
  | store mem' hstore => exact keepsInv_store hinv hstore

/-- The three outcomes of `heap_init`: no page at all, a run of pages that breaks off, and
`HEAP_PAGES` pages in a row. The bounds are set in the last case only. -/
lemma heapInit_cases (answer : Nat → Nat) (h : Heap) :
    (answer 0 = 0 ∧ heapInit answer h = (h, 0)) ∨
    (answer 0 ≠ 0 ∧ ∃ n, 0 < n ∧ n < heapPages ∧ (∀ j < n, answer j = answer 0 + j * pageSize) ∧
      answer n ≠ answer 0 + n * pageSize ∧
      heapInit answer h = (h.singleBlock (answer 0) (n * pageSize), n)) ∨
    (answer 0 ≠ 0 ∧ (∀ j < heapPages, answer j = answer 0 + j * pageSize) ∧
      heapInit answer h =
        ({ h.singleBlock (answer 0) (heapPages * pageSize) with
            heapStart := answer 0, heapEnd := answer 0 + heapPages * pageSize }, heapPages)) := by
  by_cases hbase : answer 0 = 0
  · exact Or.inl ⟨hbase, by simp [heapInit, hbase]⟩
  right
  simp only [heapInit, if_neg hbase]
  cases hfind : (range' 1 (heapPages - 1)).find? fun i => answer i ≠ answer 0 + i * pageSize with
  | some n =>
    obtain ⟨hne, hmem, hbefore⟩ := find?_range'_eq_some.mp hfind
    simp only [mem_range'_1, heapPages] at hmem
    refine Or.inl ⟨hbase, n, by omega, by simp only [heapPages]; omega, fun j hj => ?_,
      by simpa using hne, rfl⟩
    rcases Nat.eq_zero_or_pos j with rfl | hpos
    · simp
    · simpa using hbefore j hpos hj
  | none =>
    refine Or.inr ⟨hbase, fun j hj => ?_, rfl⟩
    rcases Nat.eq_zero_or_pos j with rfl | hpos
    · simp
    · have hnot := find?_eq_none.mp hfind j
        (by simp only [mem_range'_1, heapPages] at *; omega)
      simpa using hnot

lemma tiles_run (hbase : base % pageSize = 0) (hpos : 0 < base) (hn : 0 < n) :
    Tiles [⟨base, n * pageSize⟩] ((Finset.range n).image (base / pageSize + ·)) where
  apart := pairwise_singleton _ _
  shaped := by
    intro b hb
    obtain rfl := mem_singleton.mp hb
    simp only [pageSize] at *
    constructor <;> simp only <;> omega
  inside := by
    intro x hx
    simp only [covers_cons, covers_nil, or_false, Block.Has, Block.fin, pageSize] at *
    refine Finset.mem_image.mpr ⟨x / 4096 - base / 4096, ?_, ?_⟩
    · simp only [Finset.mem_range]
      omega
    · omega
  bytes := by
    rw [Finset.card_image_of_injective _ (fun a b h => by simpa using h), Finset.card_range]
    simp only [bytes_cons, bytes_nil]
    ring

lemma inv_singleBlock (start stop : Nat) {mem : Memory} (hans : InitAnswers answer)
    (hbase : answer 0 ≠ 0) (hn : 0 < n) (hrun : ∀ j < n, answer j = answer 0 + j * pageSize) :
    let h0 : Heap := { mem, freeList := 0, heapStart := start, heapEnd := stop }
    HeapSys.Inv
      { heap := h0.singleBlock (answer 0) (n * pageSize)
        pages := (Finset.range n).image (answer 0 / pageSize + ·)
        live := [], calls := [], lost := [] } [⟨answer 0, n * pageSize⟩] := by
  intro h0
  obtain ⟨haligned, -⟩ := (hans 0).resolve_left hbase
  have htiles := tiles_run haligned (Nat.pos_of_ne_zero hbase) hn
  have hlow : ∀ p ∈ (Finset.range n).image (answer 0 / pageSize + ·), p < pmmMaxPage := by
    intro p hp
    obtain ⟨j, hj, rfl⟩ := Finset.mem_image.mp hp
    have hj' := hrun j (Finset.mem_range.mp hj)
    obtain ⟨-, hjlow⟩ := (hans j).resolve_left (by omega)
    rw [hj', Nat.add_mul_div_right _ _ (by decide)] at hjlow
    exact hjlow
  refine ⟨⟨?_, pairwise_singleton _ _, htiles.shaped, fun b hb => htiles.fin_le hlow hb⟩, ?_,
    by simp, by simp, hlow⟩
  · refine ⟨rfl, hbase, ?_, ?_⟩
    · simp [Heap.singleBlock, Heap.setSize, Heap.setNext]
    · simp [Heap.singleBlock, Heap.setSize, Heap.setNext, Seg]
  · simpa [HeapSys.owned, HeapSys.inFlight] using htiles

lemma heapBoot_inv (mem : Memory) (hans : InitAnswers answer) :
    ∃ fl, (heapBoot answer mem).Inv fl ∧
      ((answer 0 = 0 ∨ ∀ j < heapPages, answer j = answer 0 + j * pageSize) →
        (heapBoot answer mem).Bounded fl) := by
  rcases heapInit_cases answer { mem, freeList := 0, heapStart := 0, heapEnd := 0 } with
    ⟨hbase, heq⟩ | ⟨hbase, n, hn, hlt, hrun, hbreak, heq⟩ | ⟨hbase, hrun, heq⟩
  · refine ⟨[], ?_, fun _ => by simp [HeapSys.Bounded, heapBoot, HeapSys.freeing]⟩
    simp only [heapBoot, heq]
    refine ⟨⟨rfl, Pairwise.nil, by simp, by simp⟩, ?_, by simp, by simp, by simp⟩
    exact ⟨Pairwise.nil, by simp [HeapSys.owned, HeapSys.inFlight],
      by simp [HeapSys.owned, HeapSys.inFlight], by simp [HeapSys.owned, HeapSys.inFlight]⟩
  · refine ⟨[⟨answer 0, n * pageSize⟩], ?_, fun hfull => ?_⟩
    · simp only [heapBoot, heq]
      exact inv_singleBlock 0 0 hans hbase hn hrun
    · exact absurd (hfull.resolve_left hbase n hlt) hbreak
  · refine ⟨[⟨answer 0, heapPages * pageSize⟩], ?_, fun _ b hb => ?_⟩
    · simp only [heapBoot, heq]
      exact inv_singleBlock (answer 0) (answer 0 + heapPages * pageSize) hans hbase (by decide) hrun
    · simp only [heapBoot, heq, HeapSys.freeing, flatMap_nil, append_nil, mem_singleton] at hb ⊢
      subst hb
      exact ⟨le_rfl, le_rfl⟩

end MicroOs.Mm
