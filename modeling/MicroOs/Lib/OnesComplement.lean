import MicroOs.Lib.LittleEndian

/-!
# One's complement sums

Addition with end-around carry keeps a number modulo `m` between 1 and `m`, and zero apart. A sum to
which the complement of its own value is added is `m`, which is why data with its checksum stored in
it sums to all ones.
-/

namespace MicroOs.Lib

/-- The value of `n` when carries out of the top are added back at the bottom; `m` is all ones. -/
def endAround (m n : Nat) : Nat := if n = 0 then 0 else (n - 1) % m + 1

section

variable {m n : Nat}

lemma endAround_of_le (small : n ≤ m) : endAround m n = n := by
  unfold endAround
  split
  case isTrue zero => rw [zero]
  case isFalse positive =>
    rw [Nat.mod_eq_of_lt (by omega)]
    omega

lemma endAround_le (ones : 0 < m) : endAround m n ≤ m := by
  unfold endAround
  have := Nat.mod_lt (n - 1) ones
  split <;> omega

lemma exists_eq_mul_add_endAround (m n : Nat) : ∃ k, n = m * k + endAround m n := by
  unfold endAround
  split
  case isTrue zero => exact ⟨0, by omega⟩
  case isFalse positive =>
    refine ⟨(n - 1) / m, ?_⟩
    have parts := Nat.div_add_mod (n - 1) m
    omega

lemma endAround_mul_add {k : Nat} (positive : 0 < n) : endAround m (m * k + n) = endAround m n := by
  unfold endAround
  rw [if_neg (by omega), if_neg (by omega)]
  have back : m * k + n - 1 = n - 1 + m * k := by omega
  rw [back, Nat.add_mul_mod_self_left]

lemma endAround_carry (m n : Nat) : endAround m (n % (m + 1) + n / (m + 1)) = endAround m n := by
  have parts := Nat.div_add_mod n (m + 1)
  rw [Nat.add_mul, Nat.one_mul] at parts
  rcases Nat.eq_zero_or_pos (n % (m + 1) + n / (m + 1)) with zero | positive
  · have whole : n = 0 := by
      obtain ⟨low, high⟩ := Nat.add_eq_zero_iff.mp zero
      rw [low, high] at parts
      omega
    rw [whole, Nat.zero_mod, Nat.zero_div]
  · have split : n = m * (n / (m + 1)) + (n % (m + 1) + n / (m + 1)) := by omega
    rw [← endAround_mul_add (m := m) (k := n / (m + 1)) positive, ← split]

lemma endAround_complement (ones : 0 < m) : endAround m (n + (m - endAround m n)) = m := by
  obtain ⟨k, parts⟩ := exists_eq_mul_add_endAround m n
  have bound := endAround_le (m := m) (n := n) ones
  have sum : n + (m - endAround m n) = m * k + m := by omega
  rw [sum, endAround_mul_add ones, endAround_of_le (Nat.le_refl m)]

lemma endAround_eq_zero : endAround m n = 0 ↔ n = 0 := by
  unfold endAround
  split <;> omega

lemma endAround_endAround_add (m a b : Nat) :
    endAround m (endAround m a + b) = endAround m (a + b) := by
  obtain ⟨k, parts⟩ := exists_eq_mul_add_endAround m a
  rcases Nat.eq_zero_or_pos (endAround m a + b) with zero | positive
  · have none : a = 0 := endAround_eq_zero (m := m).mp (by omega)
    rw [none, endAround_of_le (Nat.zero_le m)]
  · have sum : a + b = m * k + (endAround m a + b) := by omega
    rw [sum, endAround_mul_add positive]

/-- Addition with end-around carry. -/
def onesAdd (m x y : Nat) : Nat := if x + y ≤ m then x + y else x + y - m

lemma onesAdd_eq {x y : Nat} (hx : x ≤ m) (hy : y ≤ m) : onesAdd m x y = endAround m (x + y) := by
  unfold onesAdd
  split
  case isTrue fits => exact (endAround_of_le fits).symm
  case isFalse carry =>
    have sum : x + y = m * 1 + (x + y - m) := by omega
    rw [sum, endAround_mul_add (by omega), endAround_of_le (by omega)]
    omega

def onesSum (m : Nat) (words : List Nat) : Nat := words.foldl (onesAdd m) 0

lemma foldl_onesAdd {words : List Nat} {a : Nat} (ha : a ≤ m) (hw : ∀ w ∈ words, w ≤ m) :
    words.foldl (onesAdd m) a = endAround m (a + words.sum) := by
  induction words generalizing a with
  | nil => exact (endAround_of_le ha).symm
  | cons w words ih =>
    obtain ⟨small, rest⟩ := List.forall_mem_cons.mp hw
    have value := onesAdd_eq ha small
    have bound : onesAdd m a w ≤ m := by
      unfold onesAdd
      split <;> omega
    rw [List.foldl_cons, ih bound rest, value, endAround_endAround_add, List.sum_cons,
      Nat.add_assoc]

lemma onesSum_eq {words : List Nat} (hw : ∀ w ∈ words, w ≤ m) :
    onesSum m words = endAround m words.sum := by
  rw [onesSum, foldl_onesAdd (Nat.zero_le m) hw, Nat.zero_add]

end

/-- The sum of the 16-bit words of `len` bytes from `i` on, the last byte alone if `len` is odd. -/
def wordSum (p : Nat → BitVec 8) (i : Nat) : Nat → Nat
  | 0 => 0
  | 1 => (p i).toNat
  | len + 2 => (le16 p i).toNat + wordSum p (i + 2) len

section
variable (p : Nat → BitVec 8)

lemma wordSum_le (i len : Nat) : wordSum p i len ≤ 65535 * ((len + 1) / 2) := by
  induction len using Nat.twoStepInduction generalizing i with
  | zero => exact Nat.le_refl _
  | one =>
    have := (p i).isLt
    rw [wordSum]
    omega
  | more len ih _ =>
    have word := (le16 p i).isLt
    have rest := ih (i + 2)
    rw [wordSum]
    omega

lemma wordSum_congr {p q : Nat → BitVec 8} {i len : Nat}
    (same : ∀ k, i ≤ k → k < i + len → p k = q k) : wordSum p i len = wordSum q i len := by
  induction len using Nat.twoStepInduction generalizing i with
  | zero => rfl
  | one => rw [wordSum, wordSum, same i (Nat.le_refl i) (by omega)]
  | more len ih _ =>
    rw [wordSum, wordSum, le16_congr (same i (by omega) (by omega))
      (same (i + 1) (by omega) (by omega)), ih fun k low high => same k (by omega) (by omega)]

lemma wordSum_put16 {p : Nat → BitVec 8} {i len k : Nat} (v : BitVec 16)
    (inside : 2 * k + 2 ≤ len) (zero : le16 p (i + 2 * k) = 0#16) :
    wordSum (put16 p (i + 2 * k) v) i len = wordSum p i len + v.toNat := by
  induction len using Nat.twoStepInduction generalizing i k with
  | zero => omega
  | one => omega
  | more len ih _ =>
    rw [wordSum, wordSum]
    cases k with
    | zero =>
      have rest : wordSum (put16 p (i + 2 * 0) v) (i + 2) len = wordSum p (i + 2) len :=
        wordSum_congr fun k low high => put16_of_apart _ _ (by omega)
      have word : le16 (put16 p (i + 2 * 0) v) i = v := le16_put16 p i v
      have nothing : le16 p i = 0#16 := zero
      rw [rest, word, nothing]
      show v.toNat + _ = 0 + _ + _
      omega
    | succ k =>
      have next : i + 2 * (k + 1) = i + 2 + 2 * k := by omega
      rw [next] at zero ⊢
      rw [ih (by omega) zero, le16_congr (put16_of_apart _ _ (by omega))
        (put16_of_apart _ _ (by omega))]
      omega

/-! ## Byte order

A sum of words with their bytes swapped is 256 times the sum, up to a multiple of all ones, and so
its value has the bytes swapped too. -/

/-- The 16-bit words of `len` bytes from `i` on, high byte first, an odd last byte padded with a zero
byte. -/
def bigEndianWords (p : Nat → BitVec 8) (i : Nat) : Nat → List Nat
  | 0 => []
  | 1 => [256 * (p i).toNat]
  | len + 2 => (256 * (p i).toNat + (p (i + 1)).toNat) :: bigEndianWords p (i + 2) len

lemma bigEndianWords_le (i len : Nat) : ∀ w ∈ bigEndianWords p i len, w ≤ 65535 := by
  induction len using Nat.twoStepInduction generalizing i with
  | zero => simp [bigEndianWords]
  | one =>
    have := (p i).isLt
    simp only [bigEndianWords, List.mem_singleton, forall_eq]
    omega
  | more len ih _ =>
    have high := (p i).isLt
    have low := (p (i + 1)).isLt
    exact List.forall_mem_cons.mpr ⟨by omega, ih (i + 2)⟩

lemma le16_toNat (i : Nat) : (le16 p i).toNat = 256 * (p (i + 1)).toNat + (p i).toNat := by
  have low := (p i).isLt
  rw [le16, BitVec.toNat_append, Nat.shiftLeft_eq, Nat.mul_comm, ← Nat.two_pow_add_eq_or_of_lt low]

lemma bigEndianWords_sum (i len : Nat) :
    (∃ k, 256 * wordSum p i len = 65535 * k + (bigEndianWords p i len).sum) ∧
      wordSum p i len ≤ 256 * (bigEndianWords p i len).sum := by
  induction len using Nat.twoStepInduction generalizing i with
  | zero => exact ⟨⟨0, rfl⟩, Nat.zero_le _⟩
  | one =>
    simp only [wordSum, bigEndianWords, List.sum_singleton]
    exact ⟨⟨0, by omega⟩, by omega⟩
  | more len ih _ =>
    obtain ⟨⟨k, sum⟩, bound⟩ := ih (i + 2)
    rw [wordSum, bigEndianWords, List.sum_cons, le16_toNat]
    exact ⟨⟨k + (p (i + 1)).toNat, by omega⟩, by omega⟩

lemma endAround_mul_256 (n : Nat) : endAround 65535 (256 * n) =
    256 * (endAround 65535 n % 256) + endAround 65535 n / 256 := by
  rcases Nat.eq_zero_or_pos n with rfl | positive
  · rfl
  · obtain ⟨k, parts⟩ := exists_eq_mul_add_endAround 65535 n
    have bound := endAround_le (m := 65535) (n := n) (by omega)
    have some : endAround 65535 n ≠ 0 := fun zero => by
      have := endAround_eq_zero.mp zero
      omega
    generalize endAround 65535 n = e at parts bound some
    have swapped : 256 * n = 65535 * (256 * k + e / 256) + (256 * (e % 256) + e / 256) := by omega
    rw [swapped, endAround_mul_add (by omega), endAround_of_le (by omega)]

lemma onesSum_bigEndianWords (i len : Nat) :
    onesSum 65535 (bigEndianWords p i len) =
      256 * (endAround 65535 (wordSum p i len) % 256) + endAround 65535 (wordSum p i len) / 256 := by
  obtain ⟨⟨k, sum⟩, bound⟩ := bigEndianWords_sum p i len
  rw [onesSum_eq (bigEndianWords_le p i len), ← endAround_mul_256]
  rcases Nat.eq_zero_or_pos (bigEndianWords p i len).sum with zero | positive
  · have none : wordSum p i len = 0 := by omega
    rw [zero, none]
  · rw [sum, endAround_mul_add positive]

end

end MicroOs.Lib
