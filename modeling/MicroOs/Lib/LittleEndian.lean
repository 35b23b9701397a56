import Mathlib

/-!
# Little-endian fields of a byte memory

Reading and writing 16-bit and 32-bit numbers at an address of a memory of bytes, and the loop that
writes one 16-bit number after the other.
-/

namespace MicroOs.Lib
open List
open Function (update update_of_ne update_self)

/-- The 16-bit number at `a`, low byte first. -/
def le16 (mem : Nat → BitVec 8) (a : Nat) : BitVec 16 := mem (a + 1) ++ mem a

/-- The 32-bit number at `a`, low byte first. -/
def le32 (mem : Nat → BitVec 8) (a : Nat) : BitVec 32 := le16 mem (a + 2) ++ le16 mem a

def put16 (mem : Nat → BitVec 8) (a : Nat) (v : BitVec 16) : Nat → BitVec 8 :=
  update (update mem a (v.setWidth 8)) (a + 1) ((v >>> 8).setWidth 8)

def put32 (mem : Nat → BitVec 8) (a : Nat) (v : BitVec 32) : Nat → BitVec 8 :=
  put16 (put16 mem a (v.setWidth 16)) (a + 2) ((v >>> 16).setWidth 16)

/-- The loop that writes `v 0, …, v (n - 1)` from address `a` on. -/
def putRun (mem : Nat → BitVec 8) (a : Nat) (v : Nat → BitVec 16) : Nat → Nat → BitVec 8
  | 0 => mem
  | n + 1 => put16 (putRun mem a v n) (a + 2 * n) (v n)

lemma setWidth_append_low {w : Nat} (v : BitVec w) (n k : Nat) :
    (v >>> k).setWidth n ++ v.setWidth k = v.setWidth (n + k) := by
  apply BitVec.eq_of_getLsbD_eq
  intro i hi
  rw [BitVec.getLsbD_append, BitVec.getLsbD_setWidth, BitVec.getLsbD_setWidth,
    BitVec.getLsbD_setWidth, BitVec.getLsbD_ushiftRight]
  by_cases low : i < k
  · simp [low, hi]
  · have high : i - k < n := by omega
    have back : k + (i - k) = i := by omega
    simp [low, high, back, hi]

lemma append_halves (w : Nat) (v : BitVec (w + w)) : (v >>> w).setWidth w ++ v.setWidth w = v := by
  rw [setWidth_append_low, BitVec.setWidth_eq]

section

variable {mem mem' : Nat → BitVec 8} {a p : Nat}

lemma le16_congr (low : mem a = mem' a) (high : mem (a + 1) = mem' (a + 1)) :
    le16 mem a = le16 mem' a := by
  unfold le16
  rw [low, high]

section
variable (mem)

lemma le16_put16 (a : Nat) (v : BitVec 16) : le16 (put16 mem a v) a = v := by
  unfold le16 put16
  rw [update_self, update_of_ne (by omega), update_self]
  exact append_halves 8 v

lemma put16_of_apart (v : BitVec 16) (apart : p < a ∨ a + 2 ≤ p) : put16 mem a v p = mem p := by
  unfold put16
  rw [update_of_ne (by omega), update_of_ne (by omega)]

lemma le32_put32 (a : Nat) (v : BitVec 32) : le32 (put32 mem a v) a = v := by
  unfold le32 put32
  rw [le16_put16]
  have kept : ∀ w, le16 (put16 (put16 mem a (v.setWidth 16)) (a + 2) w) a = v.setWidth 16 := by
    intro w
    rw [le16_congr (put16_of_apart _ _ (by omega)) (put16_of_apart _ _ (by omega)), le16_put16]
  rw [kept]
  exact append_halves 16 v

lemma put32_of_apart (v : BitVec 32) (apart : p < a ∨ a + 4 ≤ p) : put32 mem a v p = mem p := by
  unfold put32
  rw [put16_of_apart _ _ (by omega), put16_of_apart _ _ (by omega)]

lemma le16_put16_of_apart (v : BitVec 16) (apart : p + 2 ≤ a ∨ a + 2 ≤ p) :
    le16 (put16 mem a v) p = le16 mem p :=
  le16_congr (put16_of_apart _ _ (by omega)) (put16_of_apart _ _ (by omega))

lemma le16_put32_of_apart (v : BitVec 32) (apart : p + 2 ≤ a ∨ a + 4 ≤ p) :
    le16 (put32 mem a v) p = le16 mem p :=
  le16_congr (put32_of_apart _ _ (by omega)) (put32_of_apart _ _ (by omega))

lemma le16_update_of_apart (v : BitVec 8) (apart : a < p ∨ p + 2 ≤ a) :
    le16 (update mem a v) p = le16 mem p :=
  le16_congr (update_of_ne (by omega) _ _) (update_of_ne (by omega) _ _)

lemma putRun_of_apart (v : Nat → BitVec 16) {n : Nat}
    (apart : p < a ∨ a + 2 * n ≤ p) : putRun mem a v n p = mem p := by
  induction n with
  | zero => rfl
  | succ n ih => rw [putRun, put16_of_apart _ _ (by omega), ih (by omega)]

lemma le16_putRun (a : Nat) (v : Nat → BitVec 16) {n i : Nat}
    (inside : i < n) : le16 (putRun mem a v n) (a + 2 * i) = v i := by
  induction n with
  | zero => omega
  | succ n ih =>
    rw [putRun]
    by_cases last : i = n
    · subst last
      exact le16_put16 _ _ _
    · rw [le16_congr (put16_of_apart _ _ (by omega)) (put16_of_apart _ _ (by omega))]
      exact ih (by omega)

end

end

/-- The memory that holds a list from address 0 on. -/
def bytesOf (l : List (BitVec 8)) : Nat → BitVec 8 := fun i => l.getD i 0#8

section

variable {l x y : List (BitVec 8)} {i : Nat}

lemma bytesOf_append_of_lt (y : List (BitVec 8)) (inside : i < x.length) :
    bytesOf (x ++ y) i = bytesOf x i :=
  getD_append x y 0#8 i inside

lemma bytesOf_append_add (x y : List (BitVec 8)) (i : Nat) :
    bytesOf (x ++ y) (x.length + i) = bytesOf y i := by
  unfold bytesOf
  rw [getD_append_right x y 0#8 _ (Nat.le_add_right _ _), Nat.add_sub_cancel_left]

lemma bytesOf_set (v : BitVec 8) (inside : i < l.length) :
    bytesOf (l.set i v) = update (bytesOf l) i v := by
  funext k
  unfold bytesOf
  rw [getD_eq_getElem?_getD, getElem?_set]
  by_cases here : i = k
  · subst here
    rw [if_pos rfl, if_pos inside, update_self]
    rfl
  · rw [if_neg here, update_of_ne (Ne.symm here), getD_eq_getElem?_getD]

lemma bytesOf_put16 (x y : List (BitVec 8)) (v : BitVec 16) (a b : BitVec 8) :
    bytesOf (x ++ [v.setWidth 8, (v >>> 8).setWidth 8] ++ y) =
      put16 (bytesOf (x ++ [a, b] ++ y)) x.length v := by
  have low : (x ++ [a, b] ++ y).set x.length (v.setWidth 8) = x ++ [v.setWidth 8, b] ++ y := by
    rw [append_assoc, set_append_right _ _ (Nat.le_refl _), Nat.sub_self, append_assoc]
    rfl
  have high : (x ++ [v.setWidth 8, b] ++ y).set (x.length + 1) ((v >>> 8).setWidth 8) =
      x ++ [v.setWidth 8, (v >>> 8).setWidth 8] ++ y := by
    rw [append_assoc, set_append_right _ _ (Nat.le_add_right _ _),
      Nat.add_sub_cancel_left, append_assoc]
    rfl
  have room : ∀ c d : BitVec 8, x.length + 1 < (x ++ [c, d] ++ y).length := by
    intro c d
    simp only [length_append, length_cons, length_nil]
    omega
  rw [← high, bytesOf_set _ (room _ _), ← low, bytesOf_set _ (Nat.lt_of_succ_lt (room _ _))]
  rfl

end

end MicroOs.Lib
