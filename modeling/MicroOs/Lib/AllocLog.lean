import Mathlib

/-!
# Allocation logs and their owners

A log records what has been allocated and freed, the last event first. It is matched when nothing
is allocated that is live and nothing freed that is not. Owners, each holding one address or `null`,
account for a log when the live addresses are exactly those held, each by one owner.
-/

namespace MicroOs.Lib
open Function (update update_of_ne update_self)

inductive AllocEvent (α : Type) where
  | alloc (address : α)
  | free (address : α)
  deriving DecidableEq, Repr

variable {α ι : Type} [DecidableEq α]

/-- The addresses that have been allocated and not been freed. -/
def live : List (AllocEvent α) → List α
  | [] => []
  | .alloc a :: log => a :: live log
  | .free a :: log => (live log).erase a

/-- Every allocation is of an address that was not live, every release of one that was. -/
def Matched : List (AllocEvent α) → Prop
  | [] => True
  | .alloc a :: log => a ∉ live log ∧ Matched log
  | .free a :: log => a ∈ live log ∧ Matched log

/-- The owners hold exactly the live addresses, each once. -/
structure Owns (own : ι → α) (null : α) (log : List (AllocEvent α)) : Prop where
  matched : Matched log
  live_iff : ∀ a, a ∈ live log ↔ a ≠ null ∧ ∃ i, own i = a
  inj : ∀ i j, own i = own j → own i ≠ null → i = j

variable {own : ι → α} {null : α} {log : List (AllocEvent α)}

lemma Matched.nodup (h : Matched log) : (live log).Nodup := by
  induction log with
  | nil => exact List.nodup_nil
  | cons event log ih =>
    cases event with
    | alloc a => exact List.nodup_cons.mpr ⟨h.1, ih h.2⟩
    | free a => exact (ih h.2).erase a

section
variable (h : Owns own null log)
include h

lemma Owns.existsUnique {a : α} (ha : a ∈ live log) : ∃! i, own i = a := by
  obtain ⟨nonnull, i, hi⟩ := (h.live_iff a).mp ha
  refine ⟨i, hi, fun j hj => h.inj j i (hj.trans hi.symm) ?_⟩
  exact fun isNull => nonnull (hj.symm.trans isNull)

lemma Owns.mem_live {i : ι} (nonnull : own i ≠ null) : own i ∈ live log :=
  (h.live_iff _).mpr ⟨nonnull, i, rfl⟩

omit h in
lemma Owns.empty : Owns (fun _ : ι => null) null [] :=
  ⟨trivial, fun _ => ⟨nofun, fun ⟨nonnull, _, isNull⟩ => absurd isNull.symm nonnull⟩,
    fun _ _ _ nonnull => absurd rfl nonnull⟩

variable [DecidableEq ι]

lemma Owns.alloc {i : ι} {a : α} (empty : own i = null)
    (nonnull : a ≠ null) (fresh : a ∉ live log) : Owns (update own i a) null (.alloc a :: log) := by
  have others (j : ι) (hj : own j = a) : False := fresh ((h.live_iff a).mpr ⟨nonnull, j, hj⟩)
  refine ⟨⟨fresh, h.matched⟩, fun b => ?_, fun j l same notNull => ?_⟩
  · simp only [live, List.mem_cons, h.live_iff]
    constructor
    · rintro (rfl | ⟨bNonnull, j, rfl⟩)
      · exact ⟨nonnull, i, update_self ..⟩
      · refine ⟨bNonnull, j, update_of_ne ?_ ..⟩
        rintro rfl
        exact bNonnull empty
    · rintro ⟨bNonnull, j, hj⟩
      by_cases hji : j = i
      · subst hji
        rw [update_self] at hj
        exact .inl hj.symm
      · rw [update_of_ne hji] at hj
        exact .inr ⟨bNonnull, j, hj⟩
  · by_cases hji : j = i
    · by_cases hli : l = i
      · rw [hji, hli]
      · rw [hji, update_self, update_of_ne hli] at same
        exact (others l same.symm).elim
    · by_cases hli : l = i
      · rw [hli, update_self, update_of_ne hji] at same
        exact (others j same).elim
      · rw [update_of_ne hji, update_of_ne hli] at same
        rw [update_of_ne hji] at notNull
        exact h.inj j l same notNull

lemma Owns.free {i : ι} (nonnull : own i ≠ null) :
    Owns (update own i null) null (.free (own i) :: log) := by
  refine ⟨⟨h.mem_live nonnull, h.matched⟩, fun b => ?_, fun j l same notNull => ?_⟩
  · simp only [live, h.matched.nodup.mem_erase_iff, h.live_iff]
    constructor
    · rintro ⟨other, bNonnull, j, rfl⟩
      refine ⟨bNonnull, j, update_of_ne ?_ ..⟩
      rintro rfl
      exact other rfl
    · rintro ⟨bNonnull, j, hj⟩
      by_cases hji : j = i
      · subst hji
        rw [update_self] at hj
        exact absurd hj.symm bNonnull
      · rw [update_of_ne hji] at hj
        refine ⟨fun same => hji ?_, bNonnull, j, hj⟩
        exact h.inj j i (hj.trans same) (fun isNull => bNonnull (hj.symm.trans isNull))
  · by_cases hji : j = i
    · rw [hji, update_self] at notNull
      exact absurd rfl notNull
    · by_cases hli : l = i
      · rw [hli, update_self] at same
        exact absurd same notNull
      · rw [update_of_ne hji, update_of_ne hli] at same
        rw [update_of_ne hji] at notNull
        exact h.inj j l same notNull

lemma Owns.frees (owners : List ι) (nodup : owners.Nodup) :
    Owns (fun j => if j ∈ owners then null else own j) null
      (((owners.filter fun j => own j ≠ null).map fun j => AllocEvent.free (own j)).reverse ++
        log) := by
  induction owners generalizing own log with
  | nil => simpa using h
  | cons i owners ih =>
    have ⟨notIn, nodup'⟩ := List.nodup_cons.mp nodup
    -- after the first owner the others are as before
    have rest (own' : ι → α) (same : ∀ j ∈ owners, own' j = own j) :
        ((owners.filter fun j => own' j ≠ null).map fun j => AllocEvent.free (own' j)) =
          (owners.filter fun j => own j ≠ null).map fun j => AllocEvent.free (own j) := by
      have filtered : (owners.filter fun j => own' j ≠ null) =
          owners.filter fun j => own j ≠ null :=
        List.filter_congr fun j hj => by rw [same j hj]
      rw [filtered]
      exact List.map_congr_left fun j hj => by rw [same j (List.mem_of_mem_filter hj)]
    by_cases nonnull : own i = null
    · have tail := ih h nodup'
      have sameOwn : (fun j => if j ∈ i :: owners then null else own j) =
          fun j => if j ∈ owners then null else own j := by
        funext j
        by_cases hj : j = i
        · simp [hj, notIn, nonnull]
        · simp [hj]
      rw [sameOwn]
      simpa [nonnull] using tail
    · have tail := ih (h.free nonnull) nodup'
      have unchanged (j : ι) (hj : j ∈ owners) : update own i null j = own j := by
        refine update_of_ne ?_ ..
        rintro rfl
        exact notIn hj
      rw [rest _ unchanged] at tail
      have sameOwn : (fun j => if j ∈ i :: owners then null else own j) =
          fun j => if j ∈ owners then null else update own i null j := by
        funext j
        by_cases hj : j = i
        · simp [hj, notIn]
        · simp [hj]
      rw [sameOwn]
      simpa [nonnull] using tail

end

end MicroOs.Lib
