import Mathlib

/-!
# Computations with fuel

A loop that need not end is a function of its fuel: the number of turns after which it gives up
with `none`. It returns a result if it gives that result with all fuel from some amount on.
-/

namespace MicroOs.Lib

variable {α β : Type} {call call' : Nat → Option α} {result result' : α}

/-- With enough fuel the call gives the result. -/
def Returns (call : Nat → Option α) (result : α) : Prop :=
  ∃ enough, ∀ fuel, enough ≤ fuel → call fuel = some result

namespace Returns

lemma unique (one : Returns call result) (other : Returns call result') : result = result' := by
  obtain ⟨enough, gives⟩ := one
  obtain ⟨enough', gives'⟩ := other
  have here := gives (max enough enough') (Nat.le_max_left _ _)
  have there := gives' (max enough enough') (Nat.le_max_right _ _)
  exact Option.mem_unique here there

lemma const (result : α) : Returns (fun _ => some result) result :=
  ⟨0, fun _ _ => rfl⟩

lemma of_succ (gives : Returns (fun fuel => call (fuel + 1)) result) : Returns call result := by
  obtain ⟨enough, gives⟩ := gives
  refine ⟨enough + 1, fun fuel le => ?_⟩
  obtain ⟨fuel, rfl⟩ : ∃ less, fuel = less + 1 := ⟨fuel - 1, by omega⟩
  exact gives fuel (by omega)

lemma of_turn (gives : ∀ fuel, call (fuel + 1) = some result) : Returns call result :=
  of_succ ⟨0, fun fuel _ => gives fuel⟩

lemma of_next (goes : ∀ fuel, call (fuel + 1) = call' fuel) (later : Returns call' result) :
    Returns call result := by
  obtain ⟨enough, gives⟩ := later
  exact of_succ ⟨enough, fun fuel le => (goes fuel).trans (gives fuel le)⟩

lemma bind {next : Nat → α → Option β} {last : β} (first : Returns call result)
    (second : Returns (fun fuel => next fuel result) last) :
    Returns (fun fuel => (call fuel).bind (next fuel)) last := by
  obtain ⟨enough, gives⟩ := first
  obtain ⟨enough', gives'⟩ := second
  refine ⟨max enough enough', fun fuel le => ?_⟩
  have here := gives fuel (Nat.le_trans (Nat.le_max_left _ _) le)
  have there := gives' fuel (Nat.le_trans (Nat.le_max_right _ _) le)
  show (call fuel).bind (next fuel) = some last
  rw [here]
  exact there

lemma map {f : α → β} (gives : Returns call result) :
    Returns (fun fuel => (call fuel).map f) (f result) := by
  obtain ⟨enough, gives⟩ := gives
  exact ⟨enough, fun fuel le => congrArg (Option.map f) (gives fuel le)⟩

end Returns

end MicroOs.Lib
