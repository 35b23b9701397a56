import Mathlib

/-!
# The longest list that several lists begin with
-/

namespace MicroOs.Lib
open List

variable {α : Type} [DecidableEq α]

/-- The longest list that both begin with. -/
def meet : List α → List α → List α
  | a :: as, b :: bs => if a = b then a :: meet as bs else []
  | _, _ => []

lemma isPrefix_meet_iff {p a b : List α} : p <+: meet a b ↔ p <+: a ∧ p <+: b := by
  induction p generalizing a b with
  | nil => simp
  | cons c p ih =>
    cases a with
    | nil => simp [meet]
    | cons x a =>
      cases b with
      | nil => simp [meet]
      | cons y b =>
        unfold meet
        split
        case isTrue same =>
          subst same
          simp only [cons_prefix_cons, ih]
          tauto
        case isFalse other =>
          simp only [prefix_nil, cons_prefix_cons, reduceCtorEq, false_iff]
          rintro ⟨⟨rfl, -⟩, rfl, -⟩
          exact other rfl

lemma meet_eq_take {a b : List α} {k : Nat} (same : a.take k = b.take k)
    (differ : k = a.length ∨ k = b.length ∨ (k < a.length ∧ k < b.length ∧ a[k]? ≠ b[k]?)) :
    meet a b = a.take k := by
  induction k generalizing a b with
  | zero =>
    cases a with
    | nil => rfl
    | cons x a =>
      cases b with
      | nil => rfl
      | cons y b =>
        simp only [length_cons, getElem?_cons_zero, ne_eq, Option.some.injEq] at differ
        rcases differ with short | short | ⟨-, -, other⟩
        · omega
        · omega
        · simp [meet, other]
  | succ k ih =>
    cases a with
    | nil => rfl
    | cons x a =>
      cases b with
      | nil => simp at same
      | cons y b =>
        simp only [take_succ_cons, cons.injEq] at same
        obtain ⟨rfl, rest⟩ := same
        simp only [length_cons, Nat.add_right_cancel_iff, Nat.add_lt_add_iff_right,
          getElem?_cons_succ] at differ
        simp [meet, ih rest differ]

/-- The longest list that all begin with. -/
def stem : List (List α) → List α
  | [] => []
  | a :: as => as.foldl meet a

lemma isPrefix_foldl_meet_iff {p a : List α} {as : List (List α)} :
    p <+: as.foldl meet a ↔ p <+: a ∧ ∀ b ∈ as, p <+: b := by
  induction as generalizing a with
  | nil => simp
  | cons b as ih =>
    rw [foldl_cons, ih, isPrefix_meet_iff, forall_mem_cons, and_assoc]

lemma isPrefix_stem_iff {p : List α} {as : List (List α)} (filled : as ≠ []) :
    p <+: stem as ↔ ∀ b ∈ as, p <+: b := by
  cases as with
  | nil => exact absurd rfl filled
  | cons a as => rw [stem, isPrefix_foldl_meet_iff, forall_mem_cons]

end MicroOs.Lib
