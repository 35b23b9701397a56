import Mathlib

/-!
# Holding resources

Holders, each with at most one key of a table, and the keys in use. A key is claimed by a holder
when it is not in use, passed on from holder to holder, and released. A holder may also go away
without releasing its key, which then stays in use.
-/

namespace MicroOs.Lib
open Function (update update_of_ne update_self)

variable {η κ : Type}

/-- A key that is held is in use, and has one holder. -/
structure Holding (used : κ → Prop) (holds : η → Option κ) : Prop where
  used_of_holds : ∀ {h : η} {k : κ}, holds h = some k → used k
  unique : ∀ {h h' : η} {k : κ}, holds h = some k → holds h' = some k → h = h'

section Steps

variable {used used' : κ → Prop} {holds : η → Option κ} {h h' : η} {k : κ}

lemma Holding.empty : Holding used (fun _ : η => none) where
  used_of_holds holds := by cases holds
  unique holds := by cases holds

section
variable (H : Holding used holds)
include H

lemma Holding.not_held_of_own (own : holds h = some k) (other : h' ≠ h) : holds h' ≠ some k :=
  fun theirs => other (H.unique theirs own)

lemma Holding.not_held_of_free (free : ¬ used k) (h' : η) : holds h' ≠ some k :=
  fun theirs => free (H.used_of_holds theirs)

variable [DecidableEq η]

lemma Holding.drop (h : η)
    (kept : ∀ h' k, h' ≠ h → holds h' = some k → used' k) :
    Holding used' (update holds h none) := by
  have other {h' : η} {k : κ} (held : update holds h none h' = some k) :
      h' ≠ h ∧ holds h' = some k := by
    by_cases same : h' = h
    · rw [same, update_self] at held
      cases held
    · rw [update_of_ne same] at held
      exact ⟨same, held⟩
  constructor
  · intro h' k held
    exact kept h' k (other held).1 (other held).2
  · intro h₁ h₂ k held₁ held₂
    exact H.unique (other held₁).2 (other held₂).2

lemma Holding.give (nobody : ∀ h', h' ≠ h → holds h' ≠ some k)
    (used_k : used' k) (kept : ∀ h' k', h' ≠ h → holds h' = some k' → used' k') :
    Holding used' (update holds h (some k)) := by
  have cases {h' : η} {k' : κ} (held : update holds h (some k) h' = some k') :
      h' = h ∧ k' = k ∨ h' ≠ h ∧ holds h' = some k' := by
    by_cases same : h' = h
    · rw [same, update_self] at held
      exact .inl ⟨same, (Option.some.inj held).symm⟩
    · rw [update_of_ne same] at held
      exact .inr ⟨same, held⟩
  constructor
  · intro h' k' held
    rcases cases held with ⟨-, rfl⟩ | ⟨other, held⟩
    · exact used_k
    · exact kept h' k' other held
  · intro h₁ h₂ k' held₁ held₂
    rcases cases held₁ with ⟨isHolder, isKey⟩ | ⟨other₁, theirs₁⟩
    · rcases cases held₂ with ⟨same, -⟩ | ⟨other₂, theirs₂⟩
      · rw [isHolder, same]
      · exact absurd (isKey ▸ theirs₂) (nobody h₂ other₂)
    · rcases cases held₂ with ⟨-, isKey⟩ | ⟨-, theirs₂⟩
      · exact absurd (isKey ▸ theirs₁) (nobody h₁ other₁)
      · exact H.unique theirs₁ theirs₂

lemma Holding.hand (other : h' ≠ h) : Holding used (update (update holds h' (holds h)) h none) := by
  have dropped : Holding used (update holds h none) :=
    H.drop h (fun _ _ _ held => H.used_of_holds held)
  rw [Function.update_comm other]
  cases own : holds h with
  | none => exact dropped.drop h' fun _ _ _ held => dropped.used_of_holds held
  | some k =>
    refine dropped.give (fun h₂ _ held => ?_) (H.used_of_holds own)
      (fun _ _ _ held => dropped.used_of_holds held)
    by_cases same : h₂ = h
    · rw [same, update_self] at held
      cases held
    · rw [update_of_ne same] at held
      exact H.not_held_of_own own same held

end

end Steps

lemma exists_free_key {used : κ → Prop} {holds : η → Option κ} {holders : Finset η}
    {keys : Finset κ} (held : ∀ k ∈ keys, used k → ∃ h ∈ holders, holds h = some k)
    (fewer : holders.card < keys.card) : ∃ k ∈ keys, ¬ used k := by
  classical
  by_contra none
  simp only [not_exists, not_and, not_not] at none
  -- the holders reach every key, so there are as many of them
  have covers : keys.map ⟨some, Option.some_injective κ⟩ ⊆ holders.image holds := by
    intro key member
    obtain ⟨k, hk, rfl⟩ := Finset.mem_map.mp member
    obtain ⟨h, hh, holds⟩ := held k hk (none k hk)
    exact Finset.mem_image.mpr ⟨h, hh, holds⟩
  have := Finset.card_le_card covers
  rw [Finset.card_map] at this
  exact absurd (Nat.le_trans this Finset.card_image_le) (Nat.not_le_of_lt fewer)

end MicroOs.Lib
