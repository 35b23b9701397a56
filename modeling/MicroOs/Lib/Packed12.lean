import MicroOs.Lib.LittleEndian

/-!
# Tables of 12-bit entries

Two entries of a table share three bytes: the entry `c` is made of the half bytes `3 * c`,
`3 * c + 1` and `3 * c + 2` of the table. A reader takes the 16-bit number at byte `3 * c / 2` and
drops the four bits that belong to a neighbour.
-/

namespace MicroOs.Lib

/-- The half byte `k` of the memory from address `a` on; the low half of a byte comes first. -/
def nibble (mem : Nat → BitVec 8) (a k : Nat) : BitVec 4 :=
  if k % 2 = 0 then (mem (a + k / 2)).setWidth 4 else (mem (a + k / 2) >>> 4).setWidth 4

def entry12 (mem : Nat → BitVec 8) (a c : Nat) : BitVec 12 :=
  let word := le16 mem (a + c * 3 / 2)
  if c % 2 = 0 then word.setWidth 12 else (word >>> 4).setWidth 12

lemma low_of_high_kept (x y : BitVec 8) :
    ((x &&& 0xF0#8) ||| (y &&& 0x0F#8)).setWidth 4 = y.setWidth 4 := by
  apply BitVec.eq_of_getLsbD_eq
  intro i hi
  interval_cases i <;> simp

lemma high_of_high_kept (x y : BitVec 8) :
    (((x &&& 0xF0#8) ||| (y &&& 0x0F#8)) >>> 4).setWidth 4 = (x >>> 4).setWidth 4 := by
  apply BitVec.eq_of_getLsbD_eq
  intro i hi
  interval_cases i <;> simp

lemma low_of_low_kept (x y : BitVec 8) :
    ((x &&& 0x0F#8) ||| ((y &&& 0x0F#8) <<< 4)).setWidth 4 = x.setWidth 4 := by
  apply BitVec.eq_of_getLsbD_eq
  intro i hi
  interval_cases i <;> simp

lemma high_of_low_kept (x y : BitVec 8) :
    (((x &&& 0x0F#8) ||| ((y &&& 0x0F#8) <<< 4)) >>> 4).setWidth 4 = y.setWidth 4 := by
  apply BitVec.eq_of_getLsbD_eq
  intro i hi
  interval_cases i <;> simp

lemma setWidth_append_bytes (x y : BitVec 8) :
    (x ++ y).setWidth 12 = x.setWidth 4 ++ (y >>> 4).setWidth 4 ++ y.setWidth 4 := by
  apply BitVec.eq_of_getLsbD_eq
  intro i hi
  simp only [BitVec.getLsbD_setWidth, BitVec.getLsbD_ushiftRight, BitVec.getLsbD_append]
  interval_cases i <;> simp

lemma shift_append_bytes (x y : BitVec 8) :
    ((x ++ y) >>> 4).setWidth 12 =
      (x >>> 4).setWidth 4 ++ x.setWidth 4 ++ (y >>> 4).setWidth 4 := by
  apply BitVec.eq_of_getLsbD_eq
  intro i hi
  simp only [BitVec.getLsbD_setWidth, BitVec.getLsbD_ushiftRight, BitVec.getLsbD_append]
  interval_cases i <;> simp

variable {mem mem' : Nat → BitVec 8} {a c : Nat}

lemma entry12_eq_nibbles (mem : Nat → BitVec 8) (a c : Nat) :
    entry12 mem a c =
      nibble mem a (3 * c + 2) ++ nibble mem a (3 * c + 1) ++ nibble mem a (3 * c) := by
  unfold entry12 nibble le16
  rcases Nat.mod_two_eq_zero_or_one c with even | odd
  · have low : 3 * c / 2 = c * 3 / 2 := by omega
    have mid : (3 * c + 1) / 2 = c * 3 / 2 := by omega
    have high : (3 * c + 2) / 2 = c * 3 / 2 + 1 := by omega
    rw [if_pos even, if_pos (show (3 * c + 2) % 2 = 0 by omega),
      if_neg (show ¬ (3 * c + 1) % 2 = 0 by omega), if_pos (show 3 * c % 2 = 0 by omega),
      low, mid, high]
    exact setWidth_append_bytes _ _
  · have low : 3 * c / 2 = c * 3 / 2 := by omega
    have mid : (3 * c + 1) / 2 = c * 3 / 2 + 1 := by omega
    have high : (3 * c + 2) / 2 = c * 3 / 2 + 1 := by omega
    rw [if_neg (by omega), if_neg (show ¬ (3 * c + 2) % 2 = 0 by omega),
      if_pos (show (3 * c + 1) % 2 = 0 by omega), if_neg (show ¬ 3 * c % 2 = 0 by omega),
      low, mid, high]
    exact shift_append_bytes _ _

lemma entry12_congr (same : ∀ k, 3 * c ≤ k → k < 3 * c + 3 → nibble mem a k = nibble mem' a k) :
    entry12 mem a c = entry12 mem' a c := by
  rw [entry12_eq_nibbles, entry12_eq_nibbles, same _ (by omega) (by omega),
    same _ (by omega) (by omega), same _ (by omega) (by omega)]

lemma entry12_congr_bytes (low : mem (a + c * 3 / 2) = mem' (a + c * 3 / 2))
    (high : mem (a + c * 3 / 2 + 1) = mem' (a + c * 3 / 2 + 1)) :
    entry12 mem a c = entry12 mem' a c := by
  unfold entry12
  rw [le16_congr low high]

end MicroOs.Lib
