import Mathlib

/-!
# Words as packed bytes

Counting the set bits of a word "in parallel" works on all its bytes at once. Here a word is the
packing of a list of bytes, least significant first, and each parallel step is shown to act on every
byte separately.
-/

namespace MicroOs.Lib
open List

/-- The number whose base-256 digits are `bs`, least significant first. -/
def pack : List Nat → Nat
  | [] => 0
  | b :: bs => b + 256 * pack bs

/-- The lowest `n` bytes of `x`, least significant first. -/
def unpack : Nat → Nat → List Nat
  | 0, _ => []
  | n + 1, x => x % 256 :: unpack n (x / 256)

lemma unpack_length (n x : Nat) : (unpack n x).length = n := by
  induction n generalizing x with
  | zero => rfl
  | succ n ih => simp [unpack, ih]

lemma unpack_lt (n x : Nat) : ∀ b ∈ unpack n x, b < 256 := by
  induction n generalizing x with
  | zero => simp [unpack]
  | succ n ih =>
    intro b hb
    rcases mem_cons.mp hb with rfl | hb
    · exact Nat.mod_lt _ (by decide)
    · exact ih _ b hb

lemma pack_unpack {n x : Nat} (hx : x < 256 ^ n) : pack (unpack n x) = x := by
  induction n generalizing x with
  | zero => simp at hx; simp [unpack, pack, hx]
  | succ n ih =>
    have hq : x / 256 < 256 ^ n := by
      rw [Nat.div_lt_iff_lt_mul (by decide)]
      rwa [Nat.pow_succ] at hx
    simp only [unpack, pack, ih hq]
    omega

lemma pack_lt : ∀ bs : List Nat, (∀ b ∈ bs, b < 256) → pack bs < 256 ^ bs.length
  | [], _ => by simp [pack]
  | b :: bs, h => by
    have ih := pack_lt bs (fun c hc => h c (mem_cons_of_mem _ hc))
    have hb := h b (by simp)
    simp only [pack, length_cons, Nat.pow_succ]
    omega

lemma two_mul_pack_lt :
    ∀ bs : List Nat, (∀ b ∈ bs, b < 128) → 2 * pack bs < 256 ^ bs.length
  | [], _ => by simp [pack]
  | b :: bs, h => by
    have ih := two_mul_pack_lt bs (fun c hc => h c (mem_cons_of_mem _ hc))
    have hb := h b (by simp)
    simp only [pack, length_cons, Nat.pow_succ]
    omega

lemma byte_and {a m : Nat} (ha : a < 256) (hm : m < 256) (c k : Nat) :
    (a + 256 * c) &&& (m + 256 * k) = (a &&& m) + 256 * (c &&& k) := by
  have ham : a &&& m < 2 ^ 8 := lt_of_le_of_lt Nat.and_le_left ha
  apply Nat.eq_of_testBit_eq
  intro i
  have split : ∀ {u : Nat} (v : Nat), u < 2 ^ 8 →
      (u + 256 * v).testBit i = if i < 8 then u.testBit i else v.testBit (i - 8) := by
    intro u v hu
    rw [Nat.add_comm, show (256 : Nat) = 2 ^ 8 from rfl, Nat.testBit_two_pow_mul_add _ hu]
  rw [Nat.testBit_and, split c ha, split k hm, split (c &&& k) ham]
  by_cases hi : i < 8 <;> simp [hi, Nat.testBit_and]

lemma pack_and_replicate {m : Nat} (hm : m < 256) :
    ∀ bs : List Nat, (∀ b ∈ bs, b < 256) →
      pack bs &&& pack (replicate bs.length m) = pack (bs.map (· &&& m))
  | [], _ => by simp [pack]
  | b :: bs, h => by
    have ih := pack_and_replicate hm bs (fun c hc => h c (mem_cons_of_mem _ hc))
    simp only [length_cons, replicate_succ, pack, map_cons]
    rw [byte_and (h b (by simp)) hm, ih]

/-- Shifting right by `k` under a repeated mask of at most `8 - k` bits shifts every byte:
the bits a byte receives from its upper neighbour are masked away. -/
lemma pack_shift_and_replicate {k m : Nat} (hk : k ≤ 8) (hm : m < 2 ^ (8 - k)) :
    ∀ bs : List Nat, (∀ b ∈ bs, b < 256) →
      (pack bs / 2 ^ k) &&& pack (replicate bs.length m) =
        pack (bs.map fun b => (b / 2 ^ k) &&& m)
  | [], _ => by simp [pack]
  | b :: bs, h => by
    have ih := pack_shift_and_replicate hk hm bs (fun c hc => h c (mem_cons_of_mem _ hc))
    have hb : b < 256 := h b (by simp)
    simp only [length_cons, replicate_succ, pack, map_cons]
    -- split the upper bytes into the part that stays above and the part that drops into `b`
    have hpow : 2 ^ (8 - k) * 2 ^ k = 256 := by
      rw [← Nat.pow_add, Nat.sub_add_cancel hk]
    have hpos : 0 < 2 ^ k := Nat.two_pow_pos k
    have hsplit : (b + 256 * pack bs) / 2 ^ k =
        (b / 2 ^ k + 2 ^ (8 - k) * (pack bs % 2 ^ k)) + 256 * (pack bs / 2 ^ k) := by
      have e : b + 256 * pack bs = b + 2 ^ k * (2 ^ (8 - k) * pack bs) := by
        rw [← hpow]; ring
      rw [e, Nat.add_mul_div_left _ _ hpos, ← hpow]
      conv_lhs => rw [← Nat.div_add_mod (pack bs) (2 ^ k)]
      ring
    have hlow : b / 2 ^ k < 2 ^ (8 - k) := by
      rw [Nat.div_lt_iff_lt_mul hpos, hpow]; exact hb
    have hmid : b / 2 ^ k + 2 ^ (8 - k) * (pack bs % 2 ^ k) < 256 := by
      have hr : pack bs % 2 ^ k < 2 ^ k := Nat.mod_lt _ hpos
      calc b / 2 ^ k + 2 ^ (8 - k) * (pack bs % 2 ^ k)
          < 2 ^ (8 - k) + 2 ^ (8 - k) * (pack bs % 2 ^ k) := by omega
        _ = 2 ^ (8 - k) * (pack bs % 2 ^ k + 1) := by ring
        _ ≤ 2 ^ (8 - k) * 2 ^ k := Nat.mul_le_mul_left _ hr
        _ = 256 := hpow
    have hm' : m < 256 := lt_of_lt_of_le hm (hpow ▸ Nat.le_mul_of_pos_right _ hpos)
    have hdrop : (b / 2 ^ k + 2 ^ (8 - k) * (pack bs % 2 ^ k)) &&& m = (b / 2 ^ k) &&& m := by
      apply Nat.eq_of_testBit_eq
      intro i
      rw [Nat.testBit_and, Nat.testBit_and, Nat.add_comm, Nat.testBit_two_pow_mul_add _ hlow]
      by_cases hi : i < 8 - k
      · rw [if_pos hi]
      · have hzero : m.testBit i = false :=
          Nat.testBit_lt_two_pow (lt_of_lt_of_le hm (Nat.pow_le_pow_right (by decide) (by omega)))
        rw [hzero, Bool.and_false, Bool.and_false]
    rw [hsplit, byte_and hmid hm', hdrop, ih]

lemma pack_add (f g : Nat → Nat) :
    ∀ bs : List Nat, pack (bs.map f) + pack (bs.map g) = pack (bs.map fun b => f b + g b)
  | [] => rfl
  | b :: bs => by
    have ih := pack_add f g bs
    simp only [map_cons, pack]
    omega

lemma pack_sub (f : Nat → Nat) :
    ∀ bs : List Nat, (∀ b ∈ bs, f b ≤ b) →
      pack bs - pack (bs.map f) = pack (bs.map fun b => b - f b) ∧ pack (bs.map f) ≤ pack bs
  | [], _ => ⟨rfl, Nat.le_refl _⟩
  | b :: bs, h => by
    have ih := pack_sub f bs (fun c hc => h c (mem_cons_of_mem _ hc))
    have hb := h b (by simp)
    simp only [map_cons, pack]
    omega

/-- Adding the high half of every byte to its low half: as long as both halves are small,
what a byte receives from its upper neighbour stays above its low half. -/
lemma pack_fold_halves :
    ∀ bs : List Nat, (∀ b ∈ bs, b % 16 ≤ 7 ∧ b / 16 ≤ 7) →
      (pack bs + pack bs / 16) &&& pack (replicate bs.length 15) =
        pack (bs.map fun b => (b + b / 16) % 16)
  | [], _ => by simp [pack]
  | b :: bs, h => by
    have ih := pack_fold_halves bs (fun c hc => h c (mem_cons_of_mem _ hc))
    obtain ⟨hlo, hhi⟩ := h b (by simp)
    have hnext : pack bs % 16 ≤ 7 := by
      cases bs with
      | nil => simp [pack]
      | cons c cs =>
        have := (h c (by simp)).1
        simp only [pack]
        omega
    simp only [length_cons, replicate_succ, pack, map_cons]
    have hsplit : b + 256 * pack bs + (b + 256 * pack bs) / 16 =
        (b + b / 16 + 16 * (pack bs % 16)) + 256 * (pack bs + pack bs / 16) := by omega
    have hbound : b + b / 16 + 16 * (pack bs % 16) < 256 := by omega
    have hdrop : (b + b / 16 + 16 * (pack bs % 16)) &&& 15 = (b + b / 16) % 16 := by
      rw [show (15 : Nat) = 2 ^ 4 - 1 from rfl, Nat.and_two_pow_sub_one_eq_mod]
      omega
    rw [hsplit, byte_and hbound (by decide), hdrop, ih]

/-- The number of set bits among the lowest `n` bits of `x`. -/
def bitCount (n x : Nat) : Nat :=
  ((Finset.range n).filter fun i => x.testBit i).card

lemma bitCount_succ (n x : Nat) : bitCount (n + 1) x = bitCount n x + (x.testBit n).toNat := by
  unfold bitCount
  rw [Finset.range_add_one, Finset.filter_insert]
  cases h : x.testBit n <;> simp

lemma bitCount_byte {b : Nat} (hb : b < 256) (n y : Nat) :
    bitCount (8 + n) (b + 256 * y) = bitCount 8 b + bitCount n y := by
  have split : ∀ i, (b + 256 * y).testBit i = if i < 8 then b.testBit i else y.testBit (i - 8) := by
    intro i
    rw [Nat.add_comm, show (256 : Nat) = 2 ^ 8 from rfl, Nat.testBit_two_pow_mul_add _ hb]
  induction n with
  | zero =>
    unfold bitCount
    simp only [Nat.add_zero, Finset.range_zero, Finset.filter_empty, Finset.card_empty]
    congr 1
    apply Finset.filter_congr
    intro i hi
    rw [split, if_pos (Finset.mem_range.mp hi)]
  | succ n ih =>
    rw [← Nat.add_assoc, bitCount_succ (8 + n), bitCount_succ n, ih, split, if_neg (by omega),
      Nat.add_sub_cancel_left, Nat.add_assoc]

lemma bitCount_pack :
    ∀ bs : List Nat, (∀ b ∈ bs, b < 256) →
      bitCount (8 * bs.length) (pack bs) = (bs.map (bitCount 8)).sum
  | [], _ => by simp [bitCount]
  | b :: bs, h => by
    have ih := bitCount_pack bs (fun c hc => h c (mem_cons_of_mem _ hc))
    simp only [length_cons, map_cons, sum_cons, pack]
    rw [show 8 * (bs.length + 1) = 8 + 8 * bs.length by ring, bitCount_byte (h b (by simp)), ih]

end MicroOs.Lib
