import Mathlib

/-!
# Round-robin choice by priority

A scan that starts after the slot `cur` and wraps around visits the slots in the order of
`oneRound n cur`. A choice by priority makes one such scan per level, starting with level 0. The
specification does not mention the scan: no other candidate comes before the slot found, by level
first and by the turn in the scan second.
-/

namespace MicroOs.Lib
open List

variable {p : Nat → Bool} {slot : Nat}

/-- The slots in the order of a scan that starts after `cur` and ends with `cur`. -/
def oneRound (n cur : Nat) : List Nat := (range' 1 n).map fun i => (cur + i) % n

/-- The position of a slot in that order. -/
def turn (n cur slot : Nat) : Nat := if cur < slot then slot - cur - 1 else slot + n - cur - 1

/-- Scan each level below `levels` for a candidate. -/
def pickByLevel (n cur levels : Nat) (ready : Nat → Bool) (level : Nat → Nat) : Option Nat :=
  (range levels).findSome? fun l =>
    (oneRound n cur).find? fun slot => ready slot ∧ level slot = l

def Precedes (n cur : Nat) (level : Nat → Nat) (a b : Nat) : Prop :=
  level a < level b ∨ level a = level b ∧ turn n cur a ≤ turn n cur b

variable {n cur levels : Nat} {ready : Nat → Bool} {level : Nat → Nat}

lemma turn_lt (hcur : cur < n) (hslot : slot < n) : turn n cur slot < n := by
  unfold turn
  split <;> omega

lemma turn_injective (hcur : cur < n) {a b : Nat} (ha : a < n) (hb : b < n)
    (same : turn n cur a = turn n cur b) : a = b := by
  unfold turn at same
  split at same <;> split at same <;> omega

lemma length_oneRound : (oneRound n cur).length = n := by
  simp [oneRound]

section
variable (hcur : cur < n)
include hcur

lemma getElem_oneRound_turn (hslot : slot < n) :
    (oneRound n cur)[turn n cur slot]? = some slot := by
  have bound := turn_lt hcur hslot
  rw [List.getElem?_eq_getElem (by rwa [length_oneRound])]
  simp only [oneRound, getElem_map, getElem_range', Nat.one_mul, Option.some.injEq]
  unfold turn
  split
  · rw [show cur + (1 + (slot - cur - 1)) = slot by omega]
    exact Nat.mod_eq_of_lt hslot
  · rw [show cur + (1 + (slot + n - cur - 1)) = slot + n by omega, Nat.add_mod_right]
    exact Nat.mod_eq_of_lt hslot

lemma find_oneRound_spec (found : (oneRound n cur).find? p = some slot) :
    slot < n ∧ p slot = true ∧ ∀ j < n, p j = true → turn n cur slot ≤ turn n cur j := by
  obtain ⟨holds, k, hk, at_k, earlier⟩ := find?_eq_some_iff_getElem.mp found
  have slot_lt : slot < n := by
    have member : slot ∈ oneRound n cur := mem_of_find?_eq_some found
    obtain ⟨i, -, rfl⟩ := mem_map.mp member
    exact Nat.mod_lt _ (by omega)
  refine ⟨slot_lt, holds, fun j hj hp => ?_⟩
  -- were the turn of `j` smaller, the scan would have stopped there
  by_contra later
  have k_eq : k = turn n cur slot := by
    simp only [oneRound, getElem_map, getElem_range'] at at_k
    rw [length_oneRound] at hk
    unfold turn
    by_cases wraps : cur + (1 + 1 * k) < n
    · rw [Nat.mod_eq_of_lt wraps] at at_k
      split <;> omega
    · rw [Nat.mod_eq_sub_mod (by omega), Nat.mod_eq_of_lt (by omega)] at at_k
      split <;> omega
  have skipped := earlier (turn n cur j) (by omega)
  have at_j := getElem_oneRound_turn hcur hj
  rw [List.getElem?_eq_getElem (by rw [length_oneRound]; exact turn_lt hcur hj),
    Option.some.injEq] at at_j
  rw [at_j, hp] at skipped
  cases skipped

lemma find_oneRound_eq_none : (oneRound n cur).find? p = none ↔ ∀ j < n, p j = false := by
  rw [find?_eq_none]
  constructor
  · intro none j hj
    have member := mem_of_getElem? (getElem_oneRound_turn hcur hj)
    simpa using none j member
  · intro none x hx
    obtain ⟨i, -, rfl⟩ := mem_map.mp hx
    simp [none _ (Nat.mod_lt (cur + i) (show n > 0 by omega))]

lemma pickByLevel_eq_none :
    pickByLevel n cur levels ready level = none ↔
      ∀ j < n, ready j = true → levels ≤ level j := by
  unfold pickByLevel
  simp only [findSome?_eq_none_iff, find_oneRound_eq_none hcur, mem_range,
    decide_eq_false_iff_not, not_and]
  constructor
  · intro none j hj hready
    by_contra small
    exact none (level j) (by omega) j hj hready rfl
  · intro none l hl j hj hready same
    have := none j hj hready
    omega

lemma pickByLevel_spec (found : pickByLevel n cur levels ready level = some slot) :
    slot < n ∧ ready slot = true ∧
      ∀ j < n, ready j = true → level j < levels → Precedes n cur level slot j := by
  induction levels with
  | zero => cases found
  | succ top ih =>
    unfold pickByLevel at found ih
    rw [range_succ, findSome?_append] at found
    cases below : (range top).findSome? fun l =>
        (oneRound n cur).find? fun slot => ready slot ∧ level slot = l with
    | some chosen =>
      rw [below] at found
      obtain rfl : chosen = slot := by simpa using found
      obtain ⟨slot_lt, is_ready, first⟩ := ih below
      refine ⟨slot_lt, is_ready, fun j hj hready _ => ?_⟩
      by_cases hlevel : level j < top
      · exact first j hj hready hlevel
      · -- the chosen slot has a level below `top`, otherwise no scan below would have found it
        obtain ⟨l, hl, hfind⟩ := exists_of_findSome?_eq_some below
        have := (find_oneRound_spec hcur hfind).2.1
        simp only [decide_eq_true_eq, mem_range] at this hl
        exact .inl (by omega)
    | none =>
      rw [below] at found
      have above := (pickByLevel_eq_none hcur).mp below
      have hfind : ((oneRound n cur).find? fun slot => ready slot ∧ level slot = top) =
          some slot := by
        simpa using found
      obtain ⟨slot_lt, holds, first⟩ := find_oneRound_spec hcur hfind
      simp only [decide_eq_true_eq] at holds first
      refine ⟨slot_lt, holds.1, fun j hj hready hlevel => .inr ?_⟩
      have hlevel' : level j = top := by
        have := above j hj hready
        omega
      exact ⟨by omega, first j hj ⟨hready, hlevel'⟩⟩

lemma pickByLevel_eq_some_iff (levels_ok : ∀ j < n, ready j = true → level j < levels) :
    pickByLevel n cur levels ready level = some slot ↔
      slot < n ∧ ready slot = true ∧ ∀ j < n, ready j = true → Precedes n cur level slot j := by
  constructor
  · intro found
    obtain ⟨slot_lt, is_ready, first⟩ := pickByLevel_spec hcur found
    exact ⟨slot_lt, is_ready, fun j hj hready => first j hj hready (levels_ok j hj hready)⟩
  · rintro ⟨slot_lt, is_ready, first⟩
    cases chosen : pickByLevel n cur levels ready level with
    | none =>
      have above := (pickByLevel_eq_none hcur).mp chosen slot slot_lt is_ready
      have := levels_ok slot slot_lt is_ready
      omega
    | some other =>
      obtain ⟨other_lt, other_ready, other_first⟩ := pickByLevel_spec hcur chosen
      have there := first other other_lt other_ready
      have back := other_first slot slot_lt is_ready (levels_ok slot slot_lt is_ready)
      unfold Precedes at there back
      rw [turn_injective hcur other_lt slot_lt (by omega)]

end

/-- The position of a slot in the order that starts with `goal` and wraps around at `limit`. -/
def pastGoal (limit goal slot : Nat) : Nat := if slot < goal then slot + limit else slot

lemma pastGoal_lt {limit goal : Nat} (hcur : cur < n) (hgoal : goal < n) (hn : n ≤ limit)
    (before : turn n cur slot < turn n cur goal) :
    pastGoal limit goal cur < pastGoal limit goal slot := by
  unfold turn at before
  unfold pastGoal
  split at before <;> split at before <;> split <;> split <;> omega

end MicroOs.Lib
