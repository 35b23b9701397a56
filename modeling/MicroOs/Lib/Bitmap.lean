import MicroOs.Lib.PackedBytes

/-!
# Bitmaps stored as 64-bit words

Bit `p` of a bitmap is bit `p % 64` of word `p / 64`. The set of the bits that are
on in a range is a finite set of numbers; the lemmas here say how that set moves
when one bit or one whole word is written.
-/

namespace MicroOs.Lib

variable {hi lo n : Nat} {on : Bool}

/-- The words of a bitmap, by word index. -/
abbrev Words := Nat → BitVec 64

def bitAt (w : Words) (p : Nat) : Bool := (w (p / 64)).getLsbD (p % 64)

/-- The bits that are on among `lo, ..., hi - 1`. -/
def bitsIn (w : Words) (lo hi : Nat) : Finset Nat :=
  (Finset.Ico lo hi).filter fun p => bitAt w p

@[simp] lemma mem_bitsIn {w : Words} {p : Nat} :
    p ∈ bitsIn w lo hi ↔ (lo ≤ p ∧ p < hi) ∧ bitAt w p = true := by
  simp [bitsIn]

section
variable (w : Words)

lemma bitAt_update (i : Nat) (v : BitVec 64) (p : Nat) :
    bitAt (Function.update w i v) p = if p / 64 = i then v.getLsbD (p % 64) else bitAt w p := by
  unfold bitAt
  by_cases h : p / 64 = i
  · subst h; simp
  · simp [h]

lemma word_eq_of_bits {w v : Words} {i : Nat} (same : ∀ p, p / 64 = i → bitAt v p = bitAt w p) :
    v i = w i := by
  apply BitVec.eq_of_getLsbD_eq
  intro j hj
  have bit := same (64 * i + j) (by omega)
  have place : (64 * i + j) / 64 = i ∧ (64 * i + j) % 64 = j := by omega
  unfold bitAt at bit
  rwa [place.1, place.2] at bit

lemma getLsbD_one_shift {j k : Nat} (hj : j < 64) : (1#64 <<< k).getLsbD j = decide (j = k) := by
  simp only [BitVec.getLsbD_shiftLeft, BitVec.getLsbD_one, hj]
  by_cases h : j = k
  · subst h; simp
  · simp [h]; omega

lemma bitAt_or_bit (p q : Nat) :
    bitAt (Function.update w (p / 64) (w (p / 64) ||| (1#64 <<< (p % 64)))) q =
      (decide (q = p) || bitAt w q) := by
  rw [bitAt_update]
  have hq : q % 64 < 64 := Nat.mod_lt _ (by decide)
  by_cases hword : q / 64 = p / 64
  · have heq : q % 64 = p % 64 ↔ q = p := by omega
    rw [if_pos hword, ← hword, BitVec.getLsbD_or, getLsbD_one_shift hq, Bool.or_comm]
    simp only [heq, bitAt]
  · have heq : q ≠ p := by rintro rfl; exact hword rfl
    simp [hword, heq]

lemma bitAt_and_not_bit (p q : Nat) :
    bitAt (Function.update w (p / 64) (w (p / 64) &&& ~~~(1#64 <<< (p % 64)))) q =
      (!decide (q = p) && bitAt w q) := by
  rw [bitAt_update]
  have hq : q % 64 < 64 := Nat.mod_lt _ (by decide)
  by_cases hword : q / 64 = p / 64
  · have heq : q % 64 = p % 64 ↔ q = p := by omega
    rw [if_pos hword, ← hword, BitVec.getLsbD_and, BitVec.getLsbD_not, getLsbD_one_shift hq,
      Bool.and_comm]
    simp only [heq, hq, bitAt, decide_true, Bool.true_and]
  · have heq : q ≠ p := by rintro rfl; exact hword rfl
    simp [hword, heq]

lemma bitsIn_card_le (lo hi : Nat) : (bitsIn w lo hi).card ≤ hi - lo := by
  calc (bitsIn w lo hi).card ≤ (Finset.Ico lo hi).card := Finset.card_filter_le _ _
    _ = hi - lo := Nat.card_Ico lo hi

lemma bitsIn_word_card (i : Nat) :
    (bitsIn w (64 * i) (64 * i + 64)).card = bitCount 64 (w i).toNat := by
  unfold bitCount
  apply Finset.card_bij (fun p _ => p - 64 * i)
  · intro p hp
    simp only [mem_bitsIn] at hp
    obtain ⟨⟨h1, h2⟩, h3⟩ := hp
    have hdiv : p / 64 = i := by omega
    have hmod : p % 64 = p - 64 * i := by omega
    simp only [bitAt, hdiv, hmod, BitVec.getLsbD] at h3
    simp only [Finset.mem_filter, Finset.mem_range]
    exact ⟨by omega, h3⟩
  · intro p hp q hq heq
    simp only [mem_bitsIn] at hp hq
    omega
  · intro j hj
    simp only [Finset.mem_filter, Finset.mem_range] at hj
    refine ⟨64 * i + j, ?_, by omega⟩
    have hdiv : (64 * i + j) / 64 = i := by omega
    have hmod : (64 * i + j) % 64 = j := by omega
    simp only [mem_bitsIn, bitAt, hdiv, hmod, BitVec.getLsbD]
    exact ⟨⟨by omega, by omega⟩, hj.2⟩

/-- How many bits of the range differ from `on`: what writing `on` there changes. -/
def changed (on : Bool) (w : Words) (lo hi : Nat) : Nat :=
  ((Finset.Ico lo hi).filter fun p => bitAt w p ≠ on).card

lemma changed_self (on : Bool) (w : Words) (h : hi ≤ lo) : changed on w lo hi = 0 := by
  simp [changed, Finset.Ico_eq_empty_of_le h]

lemma changed_one (on : Bool) (w : Words) (p : Nat) :
    changed on w p (p + 1) = if bitAt w p = on then 0 else 1 := by
  simp only [changed, Nat.Ico_succ_singleton, Finset.filter_singleton]
  by_cases h : bitAt w p = on <;> simp [h]

lemma changed_split (on : Bool) (w : Words) {mid : Nat} (h1 : lo ≤ mid) (h2 : mid ≤ hi) :
    changed on w lo hi = changed on w lo mid + changed on w mid hi := by
  unfold changed
  rw [← Finset.card_union_of_disjoint]
  · congr 1
    ext p
    simp only [Finset.mem_filter, Finset.mem_Ico, Finset.mem_union]
    grind
  · rw [Finset.disjoint_left]
    intro p hp hq
    simp only [Finset.mem_filter, Finset.mem_Ico] at hp hq
    omega

lemma changed_congr {w v : Words} (h : ∀ p, lo ≤ p → p < hi → bitAt w p = bitAt v p) :
    changed on w lo hi = changed on v lo hi := by
  unfold changed
  congr 1
  apply Finset.filter_congr
  intro p hp
  obtain ⟨h1, h2⟩ := Finset.mem_Ico.mp hp
  rw [h p h1 h2]

lemma changed_false (lo hi : Nat) : changed false w lo hi = (bitsIn w lo hi).card := by
  simp [changed, bitsIn]

lemma changed_true (lo hi : Nat) : changed true w lo hi + (bitsIn w lo hi).card = hi - lo := by
  unfold changed bitsIn
  rw [Nat.add_comm, Finset.card_filter_add_card_filter_not, Nat.card_Ico]

end

lemma bitsIn_card_on {w v : Words} (hn : hi ≤ n)
    (bits : ∀ p, bitAt v p = if lo ≤ p ∧ p < hi then true else bitAt w p) :
    (bitsIn v 0 n).card = (bitsIn w 0 n).card + changed true w lo hi := by
  unfold changed
  rw [← Finset.card_union_of_disjoint]
  · congr 1
    ext p
    simp only [mem_bitsIn, Finset.mem_filter, Finset.mem_Ico, Finset.mem_union, bits]
    grind
  · rw [Finset.disjoint_left]
    intro p hp hq
    simp only [mem_bitsIn, Finset.mem_filter] at hp hq
    exact hq.2 hp.2

lemma bitsIn_card_off {w v : Words} (hn : hi ≤ n)
    (bits : ∀ p, bitAt v p = if lo ≤ p ∧ p < hi then false else bitAt w p) :
    (bitsIn v 0 n).card + changed false w lo hi = (bitsIn w 0 n).card := by
  rw [changed_false, ← Finset.card_union_of_disjoint]
  · congr 1
    ext p
    simp only [mem_bitsIn, Finset.mem_union, bits]
    grind
  · rw [Finset.disjoint_left]
    intro p hp hq
    simp only [mem_bitsIn, bits] at hp hq
    simp [hq.1] at hp

/-- The state of a loop that has written `on` to the bits from `lo` up to its cursor:
`r` holds the words, the cursor and the count of bits that changed. -/
structure Wrote (on : Bool) (w : Words) (lo count : Nat) (r : Words × Nat × Nat) : Prop where
  le : lo ≤ r.2.1
  bits : ∀ p, bitAt r.1 p = if lo ≤ p ∧ p < r.2.1 then on else bitAt w p
  counted : r.2.2 = count + changed on w lo r.2.1

lemma Wrote.refl (on : Bool) (w : Words) (lo count : Nat) :
    Wrote on w lo count (w, lo, count) where
  le := Nat.le_refl _
  bits := by intro p; rw [if_neg (by simp only; omega)]
  counted := by simp [changed_self on w (Nat.le_refl lo)]

lemma Wrote.trans {w : Words} {count : Nat} {r t : Words × Nat × Nat} (h1 : Wrote on w lo count r)
    (h2 : Wrote on r.1 r.2.1 r.2.2 t) : Wrote on w lo count t where
  le := Nat.le_trans h1.le h2.le
  bits := by
    intro p
    have l1 := h1.le
    have l2 := h2.le
    rw [h2.bits, h1.bits]
    split
    · rw [if_pos (by omega)]
    · split
      · rw [if_pos (by omega)]
      · rw [if_neg (by omega)]
  counted := by
    have rest : changed on r.1 r.2.1 t.2.1 = changed on w r.2.1 t.2.1 := by
      apply changed_congr
      intro p hp _
      rw [h1.bits, if_neg (by omega)]
    rw [h2.counted, h1.counted, rest, changed_split on w h1.le h2.le, Nat.add_assoc]

end MicroOs.Lib
