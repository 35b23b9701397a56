import MicroOs.Lib.ByteFile

/-!
# Lists written over a memory

A patch is an address and the list to be written from there on. Patches that do not overlap can all
be read back after the last of them.
-/

namespace MicroOs.Lib

variable {α : Type}

/-- The list of `p` over the memory, from its address on. -/
def patch (mem : Nat → α) (p : Nat × List α) : Nat → α := fun b =>
  if p.1 ≤ b then p.2[b - p.1]?.getD (mem b) else mem b

def patched (mem : Nat → α) (ps : List (Nat × List α)) : Nat → α := ps.foldl patch mem

def PatchApart (p q : Nat × List α) : Prop :=
  p.1 + p.2.length ≤ q.1 ∨ q.1 + q.2.length ≤ p.1

variable {mem : Nat → α} {p : Nat × List α} {ps : List (Nat × List α)} {a b n : Nat}

lemma patch_of_apart (apart : b < p.1 ∨ p.1 + p.2.length ≤ b) : patch mem p b = mem b := by
  unfold patch
  split
  · rw [List.getElem?_eq_none (by omega), Option.getD_none]
  · rfl

lemma patched_of_apart (apart : ∀ p ∈ ps, b < p.1 ∨ p.1 + p.2.length ≤ b) :
    patched mem ps b = mem b := by
  induction ps generalizing mem with
  | nil => rfl
  | cons p ps ih =>
    have rest : patched (patch mem p) ps b = patch mem p b :=
      ih fun q member => apart q (List.mem_cons_of_mem p member)
    exact rest.trans (patch_of_apart (apart p List.mem_cons_self))

lemma window_patch (mem : Nat → α) (p : Nat × List α) :
    window (patch mem p) p.1 p.2.length = p.2 := by
  apply List.ext_getElem?
  intro i
  rcases Nat.lt_or_ge i p.2.length with inside | outside
  · rw [getElem?_window _ _ inside, patch, if_pos (Nat.le_add_right _ _), Nat.add_sub_cancel_left,
      List.getElem?_eq_getElem inside, Option.getD_some]
  · rw [getElem?_window_of_ge _ _ outside, List.getElem?_eq_none outside]

lemma window_patched (apart : ps.Pairwise PatchApart) (member : p ∈ ps) :
    window (patched mem ps) p.1 p.2.length = p.2 := by
  induction ps generalizing mem with
  | nil => cases member
  | cons q ps ih =>
    obtain ⟨first, rest⟩ := List.pairwise_cons.mp apart
    rcases List.mem_cons.mp member with rfl | later
    · refine Eq.trans (window_congr fun k inside => ?_) (window_patch mem p)
      change patched (patch mem p) ps _ = _
      refine patched_of_apart fun r later => ?_
      have apart := first r later
      unfold PatchApart at apart
      omega
    · exact ih rest later

end MicroOs.Lib
