import Mathlib

/-!
# Pictures painted cell by cell over a memory

A picture is a list of cells. Each cell has a place in the memory, or none where the picture is cut
off, and a value, or none where it is transparent. `overlay` also keeps what it reads at each cell
before it writes there, so that painting what was kept takes the picture away again.
-/

namespace MicroOs.Lib
open List
open Function (update update_of_ne update_self)

section Paint
variable {ι α : Type} (place : ι → Option Nat) (value : ι → Option α)

def paintCell (mem : Nat → α) (c : ι) : Nat → α :=
  match place c, value c with
  | some a, some v => update mem a v
  | _, _ => mem

def paintCells (cells : List ι) (mem : Nat → α) : Nat → α :=
  cells.foldl (paintCell place value) mem

variable {place value} {cells : List ι} {mem : Nat → α} {c : ι} {a : Nat}

/-- No two of the cells have one place. -/
def PlacedApart (place : ι → Option Nat) (cells : List ι) : Prop :=
  ∀ c ∈ cells, ∀ d ∈ cells, ∀ a, place c = some a → place d = some a → c = d

lemma paintCell_of_place (here : place c = some a) :
    paintCell place value mem c a = (value c).getD (mem a) := by
  unfold paintCell
  rw [here]
  cases value c with
  | none => rfl
  | some v => exact update_self a v mem

lemma paintCell_of_ne (elsewhere : place c ≠ some a) : paintCell place value mem c a = mem a := by
  unfold paintCell
  cases placed : place c with
  | none => rfl
  | some b =>
    cases value c with
    | none => rfl
    | some v =>
      have other : a ≠ b := fun same => elsewhere (placed.trans (congrArg some same.symm))
      exact update_of_ne other v mem

lemma paintCells_of_forall_ne (elsewhere : ∀ c ∈ cells, place c ≠ some a) :
    paintCells place value cells mem a = mem a := by
  induction cells generalizing mem with
  | nil => rfl
  | cons d cells ih =>
    have rest : paintCells place value cells (paintCell place value mem d) a =
        paintCell place value mem d a :=
      ih fun c member => elsewhere c (mem_cons_of_mem d member)
    exact rest.trans (paintCell_of_ne (elsewhere d mem_cons_self))

lemma paintCells_of_mem (apart : PlacedApart place cells) (member : c ∈ cells)
    (here : place c = some a) : paintCells place value cells mem a = (value c).getD (mem a) := by
  induction cells generalizing mem with
  | nil => cases member
  | cons d cells ih =>
    have tail : PlacedApart place cells := fun c hc d hd =>
      apart c (mem_cons_of_mem _ hc) d (mem_cons_of_mem _ hd)
    change paintCells place value cells (paintCell place value mem d) a = _
    by_cases same : d = c
    · subst same
      by_cases again : d ∈ cells
      · -- Painting the cell a second time with the same value changes nothing.
        rw [ih tail again, paintCell_of_place here]
        cases value d <;> rfl
      · rw [paintCells_of_forall_ne, paintCell_of_place here]
        intro e later placed
        have first : e = d := apart e (mem_cons_of_mem _ later) d mem_cons_self a placed here
        exact again (first ▸ later)
    · have later : c ∈ cells := (mem_cons.mp member).resolve_left (Ne.symm same)
      rw [ih tail later, paintCell_of_ne]
      exact fun placed => same (apart d mem_cons_self c member a placed here)

lemma paintCells_comm {κ : Type} {place' : κ → Option Nat} {value' : κ → Option α}
    {cells' : List κ} (apart : PlacedApart place cells) (apart' : PlacedApart place' cells')
    (disjoint : ∀ c ∈ cells, ∀ d ∈ cells', ∀ a, place c = some a → place' d ≠ some a) :
    paintCells place value cells (paintCells place' value' cells' mem) =
      paintCells place' value' cells' (paintCells place value cells mem) := by
  funext a
  by_cases first : ∃ c ∈ cells, place c = some a
  · obtain ⟨c, member, here⟩ := first
    have outside : ∀ d ∈ cells', place' d ≠ some a := fun d hd => disjoint c member d hd a here
    rw [paintCells_of_mem apart member here, paintCells_of_forall_ne outside,
      paintCells_of_forall_ne outside, paintCells_of_mem apart member here]
  · have outside : ∀ c ∈ cells, place c ≠ some a := fun c hc here => first ⟨c, hc, here⟩
    rw [paintCells_of_forall_ne outside]
    by_cases second : ∃ d ∈ cells', place' d = some a
    · obtain ⟨d, member, here⟩ := second
      rw [paintCells_of_mem apart' member here, paintCells_of_mem apart' member here,
        paintCells_of_forall_ne outside]
    · have outside' : ∀ d ∈ cells', place' d ≠ some a := fun d hd here => second ⟨d, hd, here⟩
      rw [paintCells_of_forall_ne outside', paintCells_of_forall_ne outside',
        paintCells_of_forall_ne outside]

end Paint

section Overlay
variable {ι α : Type} [DecidableEq ι] (place : ι → Option Nat) (value : ι → Option α) (blank : α)

/-- One cell is kept, then painted; where it has no place, `blank` is kept. -/
def overlayCell (st : (Nat → α) × (ι → α)) (c : ι) : (Nat → α) × (ι → α) :=
  match place c with
  | none => (st.1, update st.2 c blank)
  | some a => (paintCell place value st.1 c, update st.2 c (st.1 a))

def overlay (cells : List ι) (st : (Nat → α) × (ι → α)) : (Nat → α) × (ι → α) :=
  cells.foldl (overlayCell place value blank) st

variable {place value blank} {cells : List ι} {mem : Nat → α} {kept : ι → α} {c : ι} {a : Nat}

section
variable (st : (Nat → α) × (ι → α))

lemma overlayCell_fst : (overlayCell place value blank st c).1 = paintCell place value st.1 c := by
  unfold overlayCell
  split
  · rename_i cut
    unfold paintCell
    rw [cut]
  · rfl

lemma overlay_fst : (overlay place value blank cells st).1 = paintCells place value cells st.1 := by
  induction cells generalizing st with
  | nil => rfl
  | cons d cells ih =>
    refine (ih (overlayCell place value blank st d)).trans ?_
    rw [overlayCell_fst]
    rfl

lemma overlay_snd_of_not_mem (absent : c ∉ cells) :
    (overlay place value blank cells st).2 c = st.2 c := by
  induction cells generalizing st with
  | nil => rfl
  | cons d cells ih =>
    obtain ⟨other, rest⟩ := ne_and_not_mem_of_not_mem_cons absent
    refine (ih (overlayCell place value blank st d) rest).trans ?_
    unfold overlayCell
    split <;> exact update_of_ne other _ _

end

lemma overlay_snd (apart : PlacedApart place cells) (nodup : cells.Nodup) (member : c ∈ cells)
    (here : place c = some a) (st : (Nat → α) × (ι → α)) :
    (overlay place value blank cells st).2 c = st.1 a := by
  induction cells generalizing st with
  | nil => cases member
  | cons d cells ih =>
    obtain ⟨once, rest⟩ := nodup_cons.mp nodup
    change (overlay place value blank cells (overlayCell place value blank st d)).2 c = _
    by_cases same : c = d
    · subst same
      rw [overlay_snd_of_not_mem _ once, overlayCell, here]
      exact update_self c (st.1 a) st.2
    · have later : c ∈ cells := (mem_cons.mp member).resolve_left same
      have tail : PlacedApart place cells := fun c hc d hd =>
        apart c (mem_cons_of_mem _ hc) d (mem_cons_of_mem _ hd)
      rw [ih tail rest later, overlayCell_fst, paintCell_of_ne]
      exact fun placed => same (apart c member d mem_cons_self a here placed)

omit [DecidableEq ι] in
lemma paintCells_kept (apart : PlacedApart place cells) {back : ι → Option α}
    (keeps : ∀ c ∈ cells, ∀ a, place c = some a → kept c = mem a)
    (covers : ∀ c ∈ cells, value c ≠ none → back c = some (kept c))
    (only : ∀ c ∈ cells, back c = none ∨ back c = some (kept c)) :
    paintCells place back cells (paintCells place value cells mem) = mem := by
  funext a
  by_cases inside : ∃ c ∈ cells, place c = some a
  · obtain ⟨c, member, here⟩ := inside
    rw [paintCells_of_mem apart member here, paintCells_of_mem apart member here]
    rcases only c member with transparent | restored
    · have clear : value c = none := by
        by_contra painted
        rw [covers c member painted] at transparent
        cases transparent
      rw [transparent, clear]
      rfl
    · rw [restored]
      exact keeps c member a here
  · have outside : ∀ c ∈ cells, place c ≠ some a := fun c hc here => inside ⟨c, hc, here⟩
    rw [paintCells_of_forall_ne outside, paintCells_of_forall_ne outside]

end Overlay

section Grid

/-- The cells of a picture, row by row; a cell is its row and its column in the picture. -/
def gridCells (height width : Nat) : List (Nat × Nat) :=
  range height ×ˢ range width

lemma mem_gridCells {height width : Nat} {c : Nat × Nat} :
    c ∈ gridCells height width ↔ c.1 < height ∧ c.2 < width := by
  unfold gridCells
  rw [show c = (c.1, c.2) from rfl, mem_product, mem_range, mem_range]

lemma nodup_gridCells (height width : Nat) : (gridCells height width).Nodup :=
  Nodup.product nodup_range nodup_range

lemma row_col_unique {stride x y x' y' : Nat} (inRow : x < stride) (inRow' : x' < stride)
    (same : y * stride + x = y' * stride + x') : x = x' ∧ y = y' := by
  have positive : 0 < stride := Nat.lt_of_le_of_lt (Nat.zero_le x) inRow
  have row := congrArg (· / stride) same
  have col := congrArg (· % stride) same
  simp only [Nat.mul_comm _ stride, Nat.mul_add_div positive, Nat.div_eq_of_lt inRow,
    Nat.div_eq_of_lt inRow', Nat.add_zero] at row
  simp only [Nat.mul_comm _ stride, Nat.mul_add_mod, Nat.mod_eq_of_lt inRow,
    Nat.mod_eq_of_lt inRow'] at col
  exact ⟨col, row⟩

end Grid

end MicroOs.Lib
