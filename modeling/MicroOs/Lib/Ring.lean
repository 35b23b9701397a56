import Mathlib

/-!
# Rings with free-running counters

A writer puts its `k`th value into the cell `k % n` of a ring of `n` cells, a reader takes its `k`th
value from there. The values written so far are a list; the ring still holds the values from some
index on.
-/

namespace MicroOs.Lib

variable {α : Type} {ring : Nat → α} {n first : Nat} {log : List α} {v : α}

/-- The ring holds the values of `log` from index `first` on. -/
def Holds (ring : Nat → α) (n : Nat) (log : List α) (first : Nat) : Prop :=
  ∀ k v, first ≤ k → log[k]? = some v → ring (k % n) = v

lemma Holds.mono (holds : Holds ring n log first) {later : Nat} (le : first ≤ later) :
    Holds ring n log later :=
  fun k v start at_k => holds k v (Nat.le_trans le start) at_k

lemma holds_nil (ring : Nat → α) (n first : Nat) : Holds ring n [] first := by
  intro k v _ at_k
  simp at at_k

lemma Holds.spoil (holds : Holds ring n log first) (room : log.length < first + n) (v : α) :
    Holds (Function.update ring (log.length % n) v) n log first := by
  intro k w start at_k
  have before : k < log.length := List.getElem?_eq_some_iff.mp at_k |>.1
  have other : k % n ≠ log.length % n := by
    intro same
    have multiple : n ∣ log.length - k := (Nat.modEq_iff_dvd' (Nat.le_of_lt before)).mp same
    have := Nat.le_of_dvd (by omega) multiple
    omega
  rw [Function.update_of_ne other]
  exact holds k w start at_k

lemma getElem?_concat_cases {k : Nat} {w : α} (at_k : (log ++ [v])[k]? = some w) :
    log[k]? = some w ∨ k = log.length ∧ w = v := by
  rcases Nat.lt_or_ge k log.length with before | after
  · rw [List.getElem?_append_left before] at at_k
    exact .inl at_k
  · rw [List.getElem?_append_right after, List.getElem?_singleton] at at_k
    split at at_k
    · next last => exact .inr ⟨by omega, (Option.some.inj at_k).symm⟩
    · cases at_k

lemma Holds.put (holds : Holds ring n log first) (room : log.length < first + n) (v : α) :
    Holds (Function.update ring (log.length % n) v) n (log ++ [v]) first := by
  intro k w start at_k
  rcases getElem?_concat_cases at_k with old | ⟨rfl, rfl⟩
  · exact holds.spoil room v k w start old
  · exact Function.update_self _ _ _

lemma Holds.read (holds : Holds ring n log first) {k : Nat} (start : first ≤ k)
    (unread : k < log.length) : log.take k ++ [ring (k % n)] = log.take (k + 1) := by
  have at_k := List.getElem?_eq_getElem unread
  rw [holds k _ start at_k, List.take_append_getElem unread]

lemma ofNat_succ {w : Nat} (k : Nat) : BitVec.ofNat w k + 1#w = BitVec.ofNat w (k + 1) := by
  apply BitVec.eq_of_toNat_eq
  simp

lemma ofNat_mod_toNat {w : Nat} {size : BitVec w} (divides : size.toNat ∣ 2 ^ w) (k : Nat) :
    (BitVec.ofNat w k % size).toNat = k % size.toNat := by
  rw [BitVec.toNat_umod, BitVec.toNat_ofNat, Nat.mod_mod_of_dvd _ divides]

end MicroOs.Lib
