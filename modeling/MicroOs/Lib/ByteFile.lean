import Mathlib

/-!
# Byte strings with cursors

Files are lists, each descriptor has a file and a position in it. A write puts bytes over the file
from that position on, up to a limit for the length; a read returns the bytes from there on. Both
move this cursor only. Reading on from the start gives the file. The last section is about lists
that lie in a memory.
-/

namespace MicroOs.Lib
open List
open Function (update update_eq_self)

variable {a k n o : Nat}
variable {α φ δ : Type}

/-- `c` with `b` over it from position `o` on. -/
def splice (c : List α) (o : Nat) (b : List α) : List α :=
  c.take o ++ b ++ c.drop (o + b.length)

lemma length_splice {c : List α} {b : List α} (inside : o ≤ c.length) :
    (splice c o b).length = max c.length (o + b.length) := by
  simp only [splice, length_append, length_take, length_drop]
  omega

lemma getElem?_splice_of_lt {old : List α} {b : List α} (inside : o ≤ old.length)
    (before : k < o) : (splice old o b)[k]? = old[k]? := by
  rw [splice, append_assoc, getElem?_append_left, getElem?_take_of_lt before]
  rw [length_take]
  omega

lemma getElem?_splice_mid {old : List α} {b : List α} (inside : o ≤ old.length) (start : o ≤ k)
    (fin : k < o + b.length) : (splice old o b)[k]? = b[k - o]? := by
  have taken : (old.take o).length = o := length_take_of_le inside
  rw [splice, append_assoc, getElem?_append_right (by omega),
    getElem?_append_left (by omega), taken]

lemma getElem?_splice_of_ge {old : List α} {b : List α} (inside : o ≤ old.length)
    (after : o + b.length ≤ k) : (splice old o b)[k]? = old[k]? := by
  have taken : (old.take o ++ b).length = o + b.length := by
    rw [length_append, length_take_of_le inside]
  rw [splice, getElem?_append_right (by omega), taken, getElem?_drop]
  congr 1
  omega

lemma splice_nil (c : List α) (o : Nat) : splice c o [] = c := by
  rw [splice, append_nil, length_nil, Nat.add_zero, take_append_drop]

/-- The contents of the files, and the file and position of each open descriptor. -/
structure ByteFiles (α φ δ : Type) where
  content : φ → List α
  cursor : δ → Option (φ × Nat)

namespace ByteFiles

variable [DecidableEq φ] [DecidableEq δ]

/-- Puts the bytes at the descriptor's position and moves it behind them. -/
def put (a : ByteFiles α φ δ) (d : δ) (b : List α) : ByteFiles α φ δ :=
  match a.cursor d with
  | none => a
  | some (f, o) =>
    { content := update a.content f (splice (a.content f) o b)
      cursor := update a.cursor d (some (f, o + b.length)) }

def seek (a : ByteFiles α φ δ) (d : δ) (n : Nat) : ByteFiles α φ δ :=
  match a.cursor d with
  | none => a
  | some (f, o) => { a with cursor := update a.cursor d (some (f, o + n)) }

/-- The `n` bytes from the descriptor's position on, or fewer at the end of the file. -/
def get (a : ByteFiles α φ δ) (d : δ) (n : Nat) : List α :=
  match a.cursor d with
  | none => []
  | some (f, o) => ((a.content f).drop o).take n

lemma put_of_cursor {a : ByteFiles α φ δ} {d : δ} {f : φ} (at_o : a.cursor d = some (f, o))
    (b : List α) :
    a.put d b = { content := update a.content f (splice (a.content f) o b)
                  cursor := update a.cursor d (some (f, o + b.length)) } := by
  rw [put, at_o]

lemma put_nil (a : ByteFiles α φ δ) (d : δ) : a.put d [] = a := by
  cases at_o : a.cursor d with
  | none => rw [put, at_o]
  | some place =>
    obtain ⟨f, o⟩ := place
    rw [put_of_cursor at_o, splice_nil, update_eq_self, length_nil, Nat.add_zero,
      ← at_o, update_eq_self]

end ByteFiles

/-- The pieces of these sizes from position `o` on. -/
def pieces (c : List α) : Nat → List Nat → List (List α)
  | _, [] => []
  | o, n :: ns => (c.drop o).take n :: pieces c (o + ((c.drop o).take n).length) ns

lemma flatten_pieces (c : List α) (o : Nat) (ns : List Nat) :
    (pieces c o ns).flatten = (c.drop o).take ns.sum := by
  induction ns generalizing o with
  | nil => simp [pieces]
  | cons n ns ih =>
    rw [pieces, flatten_cons, ih, sum_cons, ← drop_drop]
    generalize c.drop o = rest
    have skipped : rest.drop (rest.take n).length = rest.drop n := by
      rw [length_take]
      rcases Nat.le_total n rest.length with le | ge
      · rw [Nat.min_eq_left le]
      · rw [Nat.min_eq_right ge, drop_of_length_le (Nat.le_refl _), drop_of_length_le ge]
    rw [skipped, take_add]

/-- The `n` values from address `a` on. -/
def window (mem : Nat → α) (a n : Nat) : List α := (range n).map fun k => mem (a + k)

section
variable (mem : Nat → α)

@[simp] lemma length_window (a n : Nat) : (window mem a n).length = n := by
  simp [window]

lemma getElem?_window (a : Nat) (inside : k < n) : (window mem a n)[k]? = some (mem (a + k)) := by
  rw [window, getElem?_map, getElem?_range inside, Option.map_some]

lemma getElem?_window_of_ge (a : Nat) (outside : n ≤ k) : (window mem a n)[k]? = none :=
  getElem?_eq_none (by rwa [length_window])

lemma window_moved {mem mem' : Nat → α} {b : Nat}
    (same : ∀ k, k < n → mem' (b + k) = mem (a + k)) : window mem' b n = window mem a n :=
  map_congr_left fun k inside => same k (mem_range.mp inside)

lemma window_congr {mem mem' : Nat → α} (same : ∀ k, k < n → mem' (a + k) = mem (a + k)) :
    window mem' a n = window mem a n :=
  window_moved same

lemma eq_of_window_eq {mem mem' : Nat → α} {b : Nat} (same : window mem a n = window mem' b n)
    (inside : k < n) : mem (a + k) = mem' (b + k) := by
  have here := congrArg (·[k]?) same
  simpa only [getElem?_window _ _ inside, Option.some.injEq] using here

lemma window_append (a m n : Nat) :
    window mem a m ++ window mem (a + m) n = window mem a (m + n) := by
  simp only [window, range_add, map_append, map_map, Function.comp_def, Nat.add_assoc]

lemma window_succ (a n : Nat) : window mem a (n + 1) = window mem a n ++ [mem (a + n)] := by
  rw [← window_append]
  rfl

lemma window_cons (a n : Nat) : window mem a (n + 1) = mem a :: window mem (a + 1) n := by
  rw [Nat.add_comm n 1, ← window_append]
  rfl

lemma take_drop_window (a n o k : Nat) :
    ((window mem a n).drop o).take k = window mem (a + o) (min k (n - o)) := by
  apply ext_getElem?
  intro i
  rw [getElem?_take]
  split
  case isFalse big => rw [getElem?_window_of_ge _ _ (by omega)]
  case isTrue small =>
    rw [getElem?_drop]
    rcases Nat.lt_or_ge i (n - o) with inside | outside
    · rw [getElem?_window _ _ (by omega), getElem?_window _ _ (by omega), Nat.add_assoc]
    · rw [getElem?_window_of_ge _ _ (by omega), getElem?_window_of_ge _ _ (by omega)]

end

/-- The `k` values of `src` copied to address `a`. -/
def copied (mem : Nat → α) (a : Nat) (src : Nat → α) (k : Nat) : Nat → α :=
  fun b => if a ≤ b ∧ b < a + k then src (b - a) else mem b

lemma window_copied (mem src : Nat → α) (inside : o ≤ n) :
    window (copied mem (a + o) src k) a (max n (o + k)) =
      splice (window mem a n) o (window src 0 k) := by
  have length : o ≤ (window mem a n).length := by rwa [length_window]
  apply ext_getElem?
  intro i
  rcases Nat.lt_or_ge i o with before | start
  · rw [getElem?_splice_of_lt length before, getElem?_window _ _ (by omega),
      getElem?_window _ _ (by omega), copied, if_neg (by omega)]
  rcases Nat.lt_or_ge i (o + k) with within | after
  · rw [getElem?_splice_mid length start (by rwa [length_window]), getElem?_window _ _ (by omega),
      getElem?_window _ _ (by omega), copied, if_pos (by omega)]
    congr 2
    omega
  · rw [getElem?_splice_of_ge length (by rwa [length_window])]
    rcases Nat.lt_or_ge i n with old | beyond
    · rw [getElem?_window _ _ (by omega), getElem?_window _ _ old, copied, if_neg (by omega)]
    · rw [getElem?_window_of_ge _ _ (by omega), getElem?_window_of_ge _ _ beyond]

lemma window_copied_of_apart (mem src : Nat → α) {b : Nat} (apart : a + n ≤ b ∨ b + k ≤ a) :
    window (copied mem b src k) a n = window mem a n := by
  apply window_congr
  intro i inside
  exact if_neg (by omega)

end MicroOs.Lib
