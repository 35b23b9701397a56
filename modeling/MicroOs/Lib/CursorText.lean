import MicroOs.Lib.ByteFile

/-!
# A text with a cursor

An abstract text is what is before its cursor and what is after it. `Shows` says that a memory holds
the text from address 0 on, with the cursor at `pos`; one lemma for each operation says which memory
shows the text after it.
-/

namespace MicroOs.Lib
open List

structure CursorText (α : Type) where
  before : List α
  after : List α
  deriving DecidableEq, Repr

namespace CursorText

variable {α : Type}

def text (t : CursorText α) : List α := t.before ++ t.after

def empty : CursorText α := ⟨[], []⟩

def insert (t : CursorText α) (w : List α) : CursorText α := ⟨t.before ++ w, t.after⟩

def backspace (t : CursorText α) : CursorText α := ⟨t.before.dropLast, t.after⟩

def delete (t : CursorText α) : CursorText α := ⟨t.before, t.after.tail⟩

def left (t : CursorText α) : CursorText α :=
  ⟨t.before.dropLast, t.before.getLast?.toList ++ t.after⟩

def right (t : CursorText α) : CursorText α :=
  ⟨t.before ++ t.after.head?.toList, t.after.tail⟩

def home (t : CursorText α) : CursorText α := ⟨[], t.text⟩

def toEnd (t : CursorText α) : CursorText α := ⟨t.text, []⟩

section
variable (t : CursorText α)

@[simp] lemma insert_nil : t.insert [] = t := by
  simp [insert]

lemma insert_insert (v w : List α) : (t.insert v).insert w = t.insert (v ++ w) := by
  simp [insert]

@[simp] lemma length_insert (w : List α) : (t.insert w).text.length = t.text.length + w.length := by
  simp [insert, text]
  omega

lemma backspace_of_nil {t : CursorText α} (start : t.before = []) : t.backspace = t := by
  obtain ⟨before, after⟩ := t
  subst start
  rfl

lemma delete_of_nil {t : CursorText α} (stop : t.after = []) : t.delete = t := by
  obtain ⟨before, after⟩ := t
  subst stop
  rfl

lemma left_of_nil {t : CursorText α} (start : t.before = []) : t.left = t := by
  obtain ⟨before, after⟩ := t
  subst start
  rfl

lemma right_of_nil {t : CursorText α} (stop : t.after = []) : t.right = t := by
  obtain ⟨before, after⟩ := t
  subst stop
  simp [right]

@[simp] lemma text_left : t.left.text = t.text := by
  obtain ⟨before, after⟩ := t
  rcases eq_nil_or_concat' before with rfl | ⟨before, c, rfl⟩
  · rfl
  · simp [left, text]

@[simp] lemma text_right : t.right.text = t.text := by
  obtain ⟨before, after⟩ := t
  cases after <;> simp [right, text]

@[simp] lemma text_home : t.home.text = t.text := rfl

@[simp] lemma text_toEnd : t.toEnd.text = t.text :=
  append_nil _

lemma text_backspace_subset : t.backspace.text ⊆ t.text := by
  intro c member
  rcases mem_append.mp member with member | member
  · exact mem_append_left _ ((dropLast_sublist _).subset member)
  · exact mem_append_right _ member

lemma text_delete_subset : t.delete.text ⊆ t.text := by
  intro c member
  rcases mem_append.mp member with member | member
  · exact mem_append_left _ member
  · exact mem_append_right _ (mem_of_mem_tail member)

end

/-- The memory holds the text, of length `len`, and the cursor is at `pos`. -/
structure Shows (mem : Nat → α) (pos len : Nat) (t : CursorText α) : Prop where
  le : pos ≤ len
  before : window mem 0 pos = t.before
  after : window mem pos (len - pos) = t.after

variable {mem mem' : Nat → α} {pos len : Nat} {t : CursorText α}

section
variable (held : Shows mem pos len t)
include held

lemma Shows.length_before : t.before.length = pos := by
  rw [← held.before, length_window]

lemma Shows.length_after : t.after.length = len - pos := by
  rw [← held.after, length_window]

lemma Shows.length_text : t.text.length = len := by
  rw [text, length_append, held.length_before, held.length_after]
  exact Nat.add_sub_cancel' held.le

lemma Shows.text : window mem 0 len = t.text := by
  rw [CursorText.text, ← held.before, ← held.after]
  have whole := window_append mem 0 pos (len - pos)
  rw [Nat.add_sub_cancel' held.le, Nat.zero_add] at whole
  exact whole.symm

end

lemma Shows.before_nil (held : Shows mem 0 len t) : t.before = [] := held.before.symm

lemma Shows.after_nil (held : Shows mem pos len t) (stop : len ≤ pos) : t.after = [] := by
  rw [← held.after, Nat.sub_eq_zero_of_le stop]
  rfl

lemma shows_empty (mem : Nat → α) : Shows mem 0 0 empty := ⟨Nat.le_refl _, rfl, rfl⟩

lemma Shows.congr (held : Shows mem pos len t) (same : ∀ i, i < len → mem' i = mem i) :
    Shows mem' pos len t where
  le := held.le
  before := by
    rw [← held.before]
    exact window_congr fun k inside => same _ (by have := held.le; omega)
  after := by
    rw [← held.after]
    exact window_congr fun k inside => same _ (by omega)

lemma Shows.insert {v : α} (held : Shows mem pos len t) (low : ∀ i, i < pos → mem' i = mem i)
    (here : mem' pos = v) (high : ∀ i, pos ≤ i → i < len → mem' (i + 1) = mem i) :
    Shows mem' (pos + 1) (len + 1) (t.insert [v]) where
  le := Nat.succ_le_succ held.le
  before := by
    rw [window_succ, Nat.zero_add, here, CursorText.insert, ← held.before]
    congr 1
    exact window_congr fun k inside => low _ (by omega)
  after := by
    rw [Nat.succ_sub_succ, CursorText.insert, ← held.after]
    apply window_moved
    intro k inside
    rw [Nat.add_right_comm]
    exact high _ (Nat.le_add_right _ _) (by omega)

lemma Shows.backspace (held : Shows mem (pos + 1) len t) (low : ∀ i, i < pos → mem' i = mem i)
    (high : ∀ i, pos < i → i < len → mem' (i - 1) = mem i) :
    Shows mem' pos (len - 1) t.backspace where
  le := by
    have := held.le
    omega
  before := by
    have before := held.before
    rw [window_succ] at before
    rw [CursorText.backspace, ← before, dropLast_concat]
    exact window_congr fun k inside => low _ (by omega)
  after := by
    rw [CursorText.backspace, ← held.after, Nat.sub_sub, Nat.add_comm 1 pos]
    apply window_moved
    intro k inside
    rw [← high (pos + 1 + k) (by omega) (by omega)]
    congr 1
    omega

section
variable (held : Shows mem pos len t)
include held

lemma Shows.delete (inside : pos < len) (low : ∀ i, i < pos → mem' i = mem i)
    (high : ∀ i, pos ≤ i → i + 1 < len → mem' i = mem (i + 1)) :
    Shows mem' pos (len - 1) t.delete where
  le := Nat.le_sub_one_of_lt inside
  before := by
    rw [CursorText.delete, ← held.before]
    exact window_congr fun k below => low _ (by omega)
  after := by
    have after := held.after
    obtain ⟨n, count⟩ : ∃ n, len - pos = n + 1 := ⟨len - pos - 1, by omega⟩
    rw [count, window_cons] at after
    rw [CursorText.delete, ← after, tail_cons, show len - 1 - pos = n by omega]
    apply window_moved
    intro k below
    rw [high (pos + k) (Nat.le_add_right _ _) (by omega)]
    congr 1
    omega

lemma Shows.left : Shows mem (pos - 1) len t.left := by
  cases pos with
  | zero => rwa [left_of_nil held.before_nil]
  | succ pos =>
    have le := held.le
    have before := held.before
    rw [window_succ] at before
    refine ⟨Nat.le_of_succ_le le, ?_, ?_⟩
    · rw [CursorText.left, ← before, dropLast_concat]
      rfl
    · rw [CursorText.left, ← before, ← held.after, getLast?_concat, Nat.add_sub_cancel,
        show len - pos = len - (pos + 1) + 1 by omega, window_cons, Nat.zero_add]
      rfl

lemma Shows.right : Shows mem (if pos < len then pos + 1 else pos) len t.right := by
  split
  case isTrue inside =>
    have after := held.after
    rw [show len - pos = len - (pos + 1) + 1 by omega, window_cons] at after
    refine ⟨inside, ?_, ?_⟩
    · rw [window_succ, CursorText.right, ← after, ← held.before, Nat.zero_add]
      rfl
    · rw [CursorText.right, ← after]
      rfl
  case isFalse stop => rwa [right_of_nil (held.after_nil (Nat.le_of_not_lt stop))]

lemma Shows.home : Shows mem 0 len t.home where
  le := Nat.zero_le _
  before := rfl
  after := held.text

lemma Shows.toEnd : Shows mem len len t.toEnd where
  le := Nat.le_refl _
  before := held.text
  after := by
    rw [Nat.sub_self]
    rfl

end

end CursorText

end MicroOs.Lib
