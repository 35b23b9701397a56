import Mathlib

/-!
# Trees of tables

Tables are found by address and hold entries by index; an entry may lead to a table one level
down. A lookup follows a path of indices and reads one entry at each level, until an entry leads
nowhere or the path ends: `trail` is the list of the slots it reads. The place of a table is the
path that leads to it (`home`); `Placed` says that entries respect places. Roots may share tables.
-/

namespace MicroOs.Lib
open List

variable {A I E : Type*}

/-- The slots a lookup of `path` reads, from the table `a` on. -/
def trail (next : E → Option A) (table : A → I → E) : A → List I → List (A × I)
  | _, [] => []
  | a, i :: path => (a, i) :: match next (table a i) with
    | none => []
    | some b => trail next table b path

def trailEntries (next : E → Option A) (table : A → I → E) (a : A) (path : List I) : List E :=
  (trail next table a path).map fun slot => table slot.1 slot.2

variable {next : E → Option A} {table table' : A → I → E} {a b : A} {i : I} {path : List I}

@[simp] lemma trail_nil : trail next table a [] = [] := rfl

lemma trail_cons_none (h : next (table a i) = none) :
    trail next table a (i :: path) = [(a, i)] := by
  simp [trail, h]

lemma trail_cons_some (h : next (table a i) = some b) :
    trail next table a (i :: path) = (a, i) :: trail next table b path := by
  simp [trail, h]

/-- A lookup takes the same way when the entries it passes, the one at the end of the path apart,
lead where they led before. -/
lemma trail_eq_of_next
    (same : ∀ slot ∈ (trail next table a path).take (path.length - 1),
      next (table' slot.1 slot.2) = next (table slot.1 slot.2)) :
    trail next table' a path = trail next table a path := by
  induction path generalizing a with
  | nil => rfl
  | cons i path ih =>
    cases path with
    | nil => cases h : next (table a i) <;> cases h' : next (table' a i) <;> simp [trail, h, h']
    | cons j path =>
      have first : next (table' a i) = next (table a i) := by
        apply same (a, i)
        simp [trail]
      cases h : next (table a i) with
      | none => rw [trail_cons_none h, trail_cons_none (first.trans h)]
      | some b =>
        rw [trail_cons_some h, trail_cons_some (first.trans h), ih]
        intro slot hslot
        apply same slot
        rw [trail_cons_some h]
        exact mem_cons_of_mem _ hslot

lemma trailEntries_eq
    (same : ∀ slot ∈ trail next table a path, table' slot.1 slot.2 = table slot.1 slot.2) :
    trailEntries next table' a path = trailEntries next table a path := by
  have way : trail next table' a path = trail next table a path := by
    apply trail_eq_of_next
    intro slot hslot
    rw [same slot (mem_of_mem_take hslot)]
  unfold trailEntries
  rw [way]
  exact map_congr_left same

lemma trailEntries_of_same_table (same : table a = table b) :
    trailEntries next table a path = trailEntries next table b path := by
  cases path with
  | nil => rfl
  | cons i path =>
    have entry : table a i = table b i := congrFun same i
    unfold trailEntries
    cases lead : next (table a i) with
    | none =>
      rw [trail_cons_none lead, trail_cons_none (by rw [← entry, lead]), map_singleton,
        map_singleton, entry]
    | some c =>
      rw [trail_cons_some lead, trail_cons_some (by rw [← entry, lead]), map_cons, map_cons, entry]

/-- Entries of tables above the lowest level lead to tables at the place below them. -/
structure Placed (next : E → Option A) (table : A → I → E) (tables : A → Prop)
    (home : A → List I) (height : Nat) : Prop where
  child : ∀ a, tables a → (home a).length + 1 < height → ∀ i b, next (table a i) = some b →
    tables b ∧ home b = home a ++ [i]

variable {tables : A → Prop} {home : A → List I} {height : Nat}

section
variable (placed : Placed next table tables home height) (ha : tables a) (full : (home a ++ path).length = height)
include placed ha full

lemma Placed.mem_trail :
    ∀ slot ∈ trail next table a path,
      tables slot.1 ∧ home slot.1 ++ [slot.2] <+: home a ++ path := by
  induction path generalizing a with
  | nil => simp
  | cons i path ih =>
    intro slot hslot
    have here : home a ++ [i] <+: home a ++ i :: path := by simp
    cases h : next (table a i) with
    | none =>
      rw [trail_cons_none h] at hslot
      obtain rfl := mem_singleton.mp hslot
      exact ⟨ha, here⟩
    | some b =>
      rw [trail_cons_some h] at hslot
      rcases mem_cons.mp hslot with rfl | hslot
      · exact ⟨ha, here⟩
      · cases path with
        | nil => simp at hslot
        | cons j path =>
          simp only [length_append, length_cons] at full
          obtain ⟨hb, place⟩ := placed.child a ha (by omega) i b h
          have below := ih hb (by simp [place]; omega) slot hslot
          rw [place, append_assoc] at below
          exact below

lemma Placed.mem_take_trail :
    ∀ slot ∈ (trail next table a path).take (path.length - 1),
      (home slot.1).length + 1 < height := by
  induction path generalizing a with
  | nil => simp
  | cons i path ih =>
    intro slot hslot
    cases path with
    | nil => simp at hslot
    | cons j path =>
      simp only [length_append, length_cons] at full
      cases h : next (table a i) with
      | none =>
        rw [trail_cons_none h] at hslot
        obtain rfl := mem_singleton.mp (mem_of_mem_take hslot)
        show (home a).length + 1 < height
        omega
      | some b =>
        rw [trail_cons_some h] at hslot
        rcases mem_cons.mp hslot with rfl | hslot
        · show (home a).length + 1 < height
          omega
        · obtain ⟨hb, place⟩ := placed.child a ha (by omega) i b h
          exact ih hb (by simp [place]; omega) slot hslot

lemma Placed.getLast_trail {slot : A × I} (last : (trail next table a path).getLast? = some slot) :
    next (table slot.1 slot.2) = none ∨ (home slot.1).length + 1 = height := by
  induction path generalizing a with
  | nil => simp at last
  | cons i path ih =>
    cases h : next (table a i) with
    | none =>
      rw [trail_cons_none h, getLast?_singleton, Option.some.injEq] at last
      subst last
      exact .inl h
    | some b =>
      rw [trail_cons_some h] at last
      cases path with
      | nil =>
        rw [trail_nil, getLast?_singleton, Option.some.injEq] at last
        subst last
        right
        simpa using full
      | cons j path =>
        simp only [length_append, length_cons] at full
        obtain ⟨hb, place⟩ := placed.child a ha (by omega) i b h
        apply ih hb (by simp [place]; omega)
        cases hrest : trail next table b (j :: path) with
        | nil => simp [trail] at hrest
        | cons first rest => rwa [hrest, getLast?_cons_cons] at last

lemma Placed.trail_eq_of_lowest
    (same : ∀ b i, (home b).length + 1 < height → tables b → table' b i = table b i) :
    trail next table' a path = trail next table a path := by
  apply trail_eq_of_next
  intro slot hslot
  have inside := (placed.mem_trail ha full slot (mem_of_mem_take hslot)).1
  rw [same slot.1 slot.2 (placed.mem_take_trail ha full slot hslot) inside]

/-- An empty table `page`, not a table before, is put into a slot that led nowhere. Only a lookup
that reads the slot is affected: it ended there and now ends one level below. -/
lemma Placed.trail_link {t page : A} {k : I} (deep : (home t).length + 1 < height)
    (leads : next (table t k) = none) (linked : next (table' t k) = some page)
    (empty : ∀ j, next (table' page j) = none)
    (same : ∀ b j, tables b → (b, j) ≠ (t, k) → table' b j = table b j) :
    ((t, k) ∉ trail next table a path ∧ trail next table' a path = trail next table a path) ∨
    ∃ front j, trail next table a path = front ++ [(t, k)] ∧
      trail next table' a path = front ++ [(t, k), (page, j)] := by
  induction path generalizing a with
  | nil => simp
  | cons i path ih =>
    by_cases hslot : (a, i) = (t, k)
    · -- the lookup comes to the slot, where it used to end
      obtain ⟨rfl, rfl⟩ := Prod.mk.injEq .. ▸ hslot
      right
      cases path with
      | nil =>
        simp only [length_append, length_singleton] at full
        omega
      | cons j path =>
        refine ⟨[], j, by rw [trail_cons_none leads]; rfl, ?_⟩
        rw [trail_cons_some linked, trail_cons_none (empty j)]
        rfl
    · have here := same a i ha hslot
      have apart : (t, k) ∉ [(a, i)] := fun h => hslot (mem_singleton.mp h).symm
      cases h : next (table a i) with
      | none =>
        left
        have h' : next (table' a i) = none := by rw [here, h]
        rw [trail_cons_none h, trail_cons_none h']
        exact ⟨apart, rfl⟩
      | some b =>
        have h' : next (table' a i) = some b := by rw [here, h]
        rw [trail_cons_some h, trail_cons_some h']
        cases path with
        | nil => exact .inl ⟨apart, rfl⟩
        | cons j path =>
          simp only [length_append, length_cons] at full
          obtain ⟨hb, place⟩ := placed.child a ha (by omega) i b h
          rcases ih hb (by simp [place]; omega) with ⟨miss, way⟩ | ⟨front, j, was, now⟩
          · refine .inl ⟨?_, by rw [way]⟩
            intro h
            rcases mem_cons.mp h with h | h
            · exact hslot h.symm
            · exact miss h
          · exact .inr ⟨(a, i) :: front, j, by rw [was]; rfl, by rw [now]; rfl⟩

end

/-- When tables reached through the first indices in `own` belong to whoever their parent belongs
to, a lookup along such a path meets only tables of its root. -/
lemma Placed.owner_trail (placed : Placed next table tables home height) {own : I → Prop}
    {owner : A → A}
    (keeps : ∀ a, tables a → (home a).length + 1 < height → ∀ i b, next (table a i) = some b →
      (∀ j ∈ (home b).head?, own j) → owner b = owner a)
    (ha : tables a) (full : (home a ++ path).length = height)
    (first : ∀ j ∈ (home a ++ path).head?, own j) :
    ∀ slot ∈ trail next table a path, owner slot.1 = owner a := by
  induction path generalizing a with
  | nil => simp
  | cons i path ih =>
    intro slot hslot
    cases h : next (table a i) with
    | none =>
      rw [trail_cons_none h] at hslot
      obtain rfl := mem_singleton.mp hslot
      rfl
    | some b =>
      rw [trail_cons_some h] at hslot
      rcases mem_cons.mp hslot with rfl | hslot
      · rfl
      · cases path with
        | nil => simp at hslot
        | cons j path =>
          simp only [length_append, length_cons] at full
          obtain ⟨hb, place⟩ := placed.child a ha (by omega) i b h
          have owned : ∀ j ∈ (home b).head?, own j := by
            intro j hj
            apply first j
            rw [place] at hj
            cases hhome : home a <;> simp_all
          rw [ih hb (by simp [place]; omega) ?_ slot hslot]
          · exact keeps a ha (by omega) i b h owned
          · intro j hj
            apply first j
            rw [place] at hj
            simpa using hj

end MicroOs.Lib
