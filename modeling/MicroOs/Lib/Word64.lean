import Mathlib

/-!
# 64-bit arithmetic on natural numbers

`uint64_t` addition and subtraction, for operands below `2 ^ 64`.
-/

namespace MicroOs.Lib

/-- The number of 64-bit values. -/
def two64 : Nat := 2 ^ 64

/-- `a + b` in `uint64_t`. -/
def add64 (a b : Nat) : Nat := (a + b) % two64

/-- `a - b` in `uint64_t`. -/
def sub64 (a b : Nat) : Nat := (a + (two64 - b % two64)) % two64

/-- `~a` in `uint64_t`. -/
def not64 (a : Nat) : Nat := two64 - 1 - a % two64

lemma add64_of_lt {a b : Nat} (h : a + b < two64) : add64 a b = a + b :=
  Nat.mod_eq_of_lt h

lemma sub64_of_le {a b : Nat} (h : b ≤ a) (ha : a < two64) : sub64 a b = a - b := by
  unfold sub64
  rw [Nat.mod_eq_of_lt (by omega : b < two64), show a + (two64 - b) = a - b + two64 by omega,
    Nat.add_mod_right, Nat.mod_eq_of_lt (by omega)]

end MicroOs.Lib
