import MicroOs.Lib.Blocks

/-!
# Linked blocks in memory

A memory is the value of the word at each address. A linked block holds its size in the word
at its start and the address of the next block in the word after it, eight addresses on.
`Seg m p l q` says that following the links from `p` leads through the blocks `l` to `q`.
-/

namespace MicroOs.Lib

abbrev Memory := Nat → Nat

/-- The links from `p` lead through the blocks `l`, in order, to `q`. -/
def Seg (m : Memory) : Nat → List Block → Nat → Prop
  | p, [], q => p = q
  | p, b :: l, q => p = b.addr ∧ p ≠ 0 ∧ m p = b.size ∧ Seg m (m (p + 8)) l q

/-- The blocks are large enough for their two words. -/
def Roomy (l : List Block) : Prop := ∀ b ∈ l, 16 ≤ b.size

lemma Roomy.append {l o : List Block} (h : Roomy l) (h' : Roomy o) : Roomy (l ++ o) := by
  intro b hb
  exact (List.mem_append.mp hb).elim (h b) (h' b)

/-- Follow the links from `p`, through at most `fuel` blocks. -/
def blocksAt (m : Memory) : Nat → Nat → List Block
  | 0, _ => []
  | fuel + 1, p => if p = 0 then [] else ⟨p, m p⟩ :: blocksAt m fuel (m (p + 8))

variable {m m' : Memory} {p q r x : Nat} {l o : List Block} {b : Block}

lemma Block.has_words (room : 16 ≤ b.size) : b.Has b.addr ∧ b.Has (b.addr + 8) := by
  simp only [Block.Has, Block.fin]
  omega

lemma Block.ne_words (room : 16 ≤ b.size) (hx : ¬ b.Has x) : x ≠ b.addr ∧ x ≠ b.addr + 8 := by
  simp only [Block.Has, Block.fin] at hx
  omega

lemma seg_append : Seg m p (l ++ o) q ↔ ∃ r, Seg m p l r ∧ Seg m r o q := by
  induction l generalizing p with
  | nil => simp [Seg]
  | cons b l ih => simp only [List.cons_append, Seg, ih]; grind

lemma Seg.frame (h : Seg m p l q) (hroom : Roomy l) (hm : ∀ x, Covers l x → m' x = m x) :
    Seg m' p l q := by
  induction l generalizing p with
  | nil => exact h
  | cons b l ih =>
    obtain ⟨rfl, hne, hsize, hrest⟩ := h
    have hb : 16 ≤ b.size := hroom b List.mem_cons_self
    have hword := fun {x} hx => hm x ((covers_cons b l x).mpr (Or.inl hx))
    obtain ⟨h0, h8⟩ := Block.has_words hb
    refine ⟨rfl, hne, (hword h0).trans hsize, ?_⟩
    rw [hword h8]
    exact ih hrest (fun c hc => hroom c (List.mem_cons_of_mem _ hc))
      fun x hx => hm x ((covers_cons b l x).mpr (Or.inr hx))

lemma Seg.update (h : Seg m p l q) (hroom : Roomy l) {v : Nat} (hx : ¬ Covers l x) :
    Seg (Function.update m x v) p l q := by
  refine h.frame hroom fun y hy => Function.update_of_ne ?_ _ _
  rintro rfl
  exact hx hy

lemma Seg.update_words (h : Seg m p l q) (hroom : Roomy l) (room : 16 ≤ b.size)
    (hb : ∀ x, b.Has x → ¬ Covers l x) {v w : Nat} :
    Seg (Function.update (Function.update m b.addr v) (b.addr + 8) w) p l q := by
  obtain ⟨h0, h8⟩ := Block.has_words room
  exact (h.update hroom (hb _ h0)).update hroom (hb _ h8)

lemma Seg.relink {a : Block} (h : Seg m p (l ++ [a]) q) (hroom : Roomy (l ++ [a]))
    (hapart : (l ++ [a]).Pairwise Apart) (r : Nat) :
    Seg (Function.update m (a.addr + 8) r) p (l ++ [a]) r := by
  obtain ⟨-, -, hla⟩ := List.pairwise_append.mp hapart
  have ha : 16 ≤ a.size := hroom a (by simp)
  obtain ⟨s, hl, rfl, hne, hsize, -⟩ := seg_append.mp h
  refine seg_append.mpr ⟨_, hl.update (fun b hb => hroom b (by simp [hb])) ?_, rfl, hne, ?_, ?_⟩
  · rintro ⟨b, hb, hbx⟩
    exact (hla b hb a (by simp)).not_has hbx (Block.has_words ha).2
  · rw [Function.update_of_ne (by omega)]
    exact hsize
  · simp [Seg]

/-- A list of disjoint blocks with room for their words, one of them singled out. -/
structure Parted (pre : List Block) (c : Block) (post : List Block) : Prop where
  roomPre : Roomy pre
  room : 16 ≤ c.size
  roomPost : Roomy post
  apartPre : pre.Pairwise Apart
  offPre : ∀ x, c.Has x ∨ Covers post x → ¬ Covers pre x
  offPost : ∀ x, c.Has x → ¬ Covers post x

lemma parted_of_apart (hroom : Roomy (l ++ b :: o)) (h : (l ++ b :: o).Pairwise Apart) :
    Parted l b o := by
  obtain ⟨roomPre, roomRest⟩ := List.forall_mem_append.mp hroom
  obtain ⟨room, roomPost⟩ := List.forall_mem_cons.mp roomRest
  obtain ⟨apartPre, apartRest, cross⟩ := List.pairwise_append.mp h
  refine ⟨roomPre, room, roomPost, apartPre, ?_, ?_⟩
  · rintro x hx ⟨a, ha, hax⟩
    obtain ⟨d, hd, hdx⟩ := (covers_cons b o x).mpr hx
    exact (cross a ha d hd).not_has hax hdx
  · rintro x hx ⟨d, hd, hdx⟩
    exact ((List.pairwise_cons.mp apartRest).1 d hd).not_has hx hdx

lemma Seg.blocksAt (h : Seg m p l 0) {fuel : Nat} (hfuel : l.length ≤ fuel) :
    blocksAt m fuel p = l := by
  induction l generalizing p fuel with
  | nil =>
    obtain rfl : p = 0 := h
    cases fuel <;> simp [Lib.blocksAt]
  | cons b l ih =>
    obtain ⟨rfl, hne, hsize, hrest⟩ := h
    cases fuel with
    | zero => simp at hfuel
    | succ fuel =>
      simp only [Lib.blocksAt, if_neg hne, hsize]
      rw [ih hrest (by simpa using hfuel)]

end MicroOs.Lib
