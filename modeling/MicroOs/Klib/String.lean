import MicroOs.Lib.ByteFile

/-!
# Memory and string functions (`string.c`)

Memory is a function from addresses to bytes. A C string is the list of its bytes before the
terminating zero.
-/

namespace MicroOs.Klib
open Lib
open Function (update update_of_ne update_self)

section Memmove
variable {α : Type}

/-- `while (n--) *d++ = *s++;` -/
def copyUp (mem : Nat → α) (d s : Nat) : Nat → Nat → α
  | 0 => mem
  | n + 1 => copyUp (update mem d (mem s)) (d + 1) (s + 1) n

/-- `d += n; s += n; while (n--) *--d = *--s;` -/
def copyDown (mem : Nat → α) (d s : Nat) : Nat → Nat → α
  | 0 => mem
  | n + 1 => copyDown (update mem (d + n) (mem (s + n))) d s n

/-- `memmove` (`string.c:29-45`). -/
def memmove (mem : Nat → α) (dst src n : Nat) : Nat → α :=
  if dst < src then copyUp mem dst src n else copyDown mem dst src n

lemma copied_zero (mem : Nat → α) (d : Nat) (f : Nat → α) : copied mem d f 0 = mem := by
  funext i
  rw [copied, if_neg (by omega)]

lemma copied_succ (mem : Nat → α) (d : Nat) (f : Nat → α) (n : Nat) :
    copied (update mem d (f 0)) (d + 1) (fun k => f (k + 1)) n = copied mem d f (n + 1) := by
  funext i
  rw [copied, copied]
  by_cases here : i = d
  · subst here
    rw [if_neg (by omega), if_pos (by omega), update_self, Nat.sub_self]
  · by_cases within : d ≤ i ∧ i < d + (n + 1)
    · rw [if_pos (by omega), if_pos within]
      congr 1
      omega
    · rw [if_neg (by omega), if_neg within, update_of_ne here]

/-- Upwards, a byte is read before it is overwritten if the destination is not above the source. -/
lemma copyUp_eq_copied (mem : Nat → α) {d s : Nat} (below : d ≤ s) (n : Nat) :
    copyUp mem d s n = copied mem d (fun k => mem (s + k)) n := by
  induction n generalizing mem d s with
  | zero => exact (copied_zero ..).symm
  | succ n ih =>
    rw [copyUp, ih _ (Nat.succ_le_succ below), ← copied_succ]
    congr 1
    funext k
    rw [update_of_ne (by omega)]
    congr 1
    omega

lemma copyDown_eq_copied (mem : Nat → α) {d s : Nat} (above : s ≤ d) (n : Nat) :
    copyDown mem d s n = copied mem d (fun k => mem (s + k)) n := by
  induction n generalizing mem with
  | zero => exact (copied_zero ..).symm
  | succ n ih =>
    funext i
    rw [copyDown, ih, copied, copied]
    by_cases last : i = d + n
    · subst last
      rw [if_neg (by omega), if_pos (by omega), update_self, Nat.add_sub_cancel_left]
    · by_cases within : d ≤ i ∧ i < d + n
      · rw [if_pos within, if_pos (by omega), update_of_ne (by omega)]
      · rw [if_neg within, if_neg (by omega), update_of_ne last]

/-- `memcpy` (`string.c:19-27`). -/
def memcpy (mem : Nat → α) (dst src n : Nat) : Nat → α := copyUp mem dst src n

lemma memmove_eq_copied (mem : Nat → α) (dst src n : Nat) :
    memmove mem dst src n = copied mem dst (fun k => mem (src + k)) n := by
  unfold memmove
  split
  case isTrue below => exact copyUp_eq_copied mem (Nat.le_of_lt below) n
  case isFalse above => exact copyDown_eq_copied mem (Nat.le_of_not_lt above) n

/-- However the ranges overlap, `memmove` moves the bytes and changes no other byte; so does `memcpy`
to a lower address. -/
theorem memmove_moves (mem : Nat → α) (dst src n : Nat) :
    (∀ i < n, memmove mem dst src n (dst + i) = mem (src + i)) ∧
    (∀ p, p < dst ∨ dst + n ≤ p → memmove mem dst src n p = mem p) ∧
    (dst < src → memcpy mem dst src n = memmove mem dst src n) := by
  rw [memmove_eq_copied]
  refine ⟨fun i inside => ?_, fun p outside => ?_, fun below => ?_⟩
  · rw [copied, if_pos (by omega), Nat.add_sub_cancel_left]
  · rw [copied, if_neg (by omega)]
  · exact copyUp_eq_copied mem (Nat.le_of_lt below) n

end Memmove

section Strncpy
variable (mem : Nat → BitVec 8) (dst : Nat) (src : List (BitVec 8)) (n : Nat)

/-- `while (n && (*d++ = *src++)) n--;`, with `d` and `n` afterwards. -/
def strncpyText (mem : Nat → BitVec 8) (d : Nat) :
    List (BitVec 8) → Nat → (Nat → BitVec 8) × Nat × Nat
  | _, 0 => (mem, d, 0)
  | src, n + 1 =>
    if src.headD 0 = 0 then (update mem d 0, d + 1, n + 1)
    else strncpyText (update mem d (src.headD 0)) (d + 1) src.tail n

/-- `while (n--) *d++ = '\0';`, with `d` afterwards. -/
def strncpyPad (mem : Nat → BitVec 8) (d : Nat) : Nat → (Nat → BitVec 8) × Nat
  | 0 => (mem, d)
  | n + 1 => strncpyPad (update mem d 0) (d + 1) n

/-- `strncpy` (`string.c:100-109`): the memory, and where the last write ends. -/
def strncpy : (Nat → BitVec 8) × Nat :=
  let copy := strncpyText mem dst src n
  strncpyPad copy.1 copy.2.1 copy.2.2

lemma strncpyPad_eq : strncpyPad mem dst n = (copied mem dst (fun _ => 0) n, dst + n) := by
  induction n generalizing mem dst with
  | zero => rw [copied_zero]; rfl
  | succ n ih => rw [strncpyPad, ih, ← copied_succ, Nat.add_right_comm]; rfl

/-- The text before the first zero. -/
def cString (src : List (BitVec 8)) : List (BitVec 8) := src.takeWhile (· ≠ 0)

/-- Behind a text shorter than `n` one zero more is written. -/
lemma strncpy_eq : strncpy mem dst src n =
    let written := n + if (cString src).length < n then 1 else 0
    (copied mem dst (fun k => (cString src).getD k 0) written, dst + written) := by
  induction n generalizing mem dst src with
  | zero => simp [strncpy, strncpyText, strncpyPad, copied_zero]
  | succ n ih =>
    by_cases stop : src.headD 0 = 0
    · have empty : cString src = [] := by
        cases src with
        | nil => rfl
        | cons c src => exact List.takeWhile_cons_of_neg (by simpa using stop)
      simp only [strncpy, strncpyText, if_pos stop, strncpyPad_eq, empty, List.length_nil,
        if_pos (Nat.succ_pos n)]
      exact Prod.ext (copied_succ mem dst (fun _ => 0) (n + 1)) (by dsimp only; omega)
    · cases src with
      | nil => exact absurd rfl stop
      | cons c src =>
        have text : cString (c :: src) = c :: cString src :=
          List.takeWhile_cons_of_pos (by simpa using stop)
        have rest : strncpy mem dst (c :: src) (n + 1) =
            strncpy (update mem dst c) (dst + 1) src n := by
          simp only [strncpy, strncpyText, if_neg stop]
          rfl
        rw [rest, ih, text]
        simp only [List.length_cons, Nat.add_lt_add_iff_right, Nat.add_right_comm n 1]
        exact Prod.ext (copied_succ mem dst (fun k => (c :: cString src).getD k 0) _)
          (by dsimp only; omega)

/-- `strncpy` writes the `n` bytes of the destination, text and zeros, and nothing else if and only if
the text has at least `n` bytes. -/
theorem strncpy_writes_iff :
    strncpy mem dst src n = (copied mem dst (fun k => (cString src).getD k 0) n, dst + n) ↔
      n ≤ (cString src).length := by
  rw [strncpy_eq]
  by_cases short : (cString src).length < n
  · refine iff_of_false (fun same => ?_) (Nat.not_le.mpr short)
    have ends := congrArg Prod.snd same
    simp [short] at ends
  · exact iff_of_true (by simp [short]) (Nat.le_of_not_lt short)

/-- Two bytes are asked for, and the third one is overwritten. -/
theorem strncpy_writes_behind :
    (strncpy (fun _ => 0xAA#8) 0 [0x61#8] 2).1 2 = 0#8 := by
  decide

end Strncpy

/-- `strncmp` (`string.c:80-89`); behind its last byte a string reads as zero. -/
def strncmp : List (BitVec 8) → List (BitVec 8) → Nat → Int
  | _, _, 0 => 0
  | a, b, n + 1 =>
    if a.headD 0 ≠ 0 ∧ a.headD 0 = b.headD 0 then strncmp a.tail b.tail n
    else (a.headD 0).toNat - (b.headD 0).toNat

lemma strncmp_eq_zero_iff {a b : List (BitVec 8)} (zero_a : 0 ∉ a) (zero_b : 0 ∉ b) (n : Nat) :
    strncmp a b n = 0 ↔ a.take n = b.take n := by
  induction n generalizing a b with
  | zero => simp [strncmp]
  | succ n ih =>
    have same : ∀ c d : BitVec 8, (c.toNat : Int) - d.toNat = 0 ↔ c = d := by
      intro c d
      rw [← BitVec.toNat_inj]
      omega
    unfold strncmp
    cases a with
    | nil =>
      rw [if_neg (by simp), same]
      cases b with
      | nil => simp
      | cons d b =>
        have nonzero : d ≠ 0 := fun zero => zero_b (zero ▸ List.mem_cons_self)
        simpa using Ne.symm nonzero
    | cons c a =>
      have nonzero : c ≠ 0 := fun zero => zero_a (zero ▸ List.mem_cons_self)
      have rest_a : 0 ∉ a := fun zero => zero_a (List.mem_cons_of_mem _ zero)
      cases b with
      | nil =>
        rw [if_neg (fun equal => nonzero equal.2), same]
        simpa using nonzero
      | cons d b =>
        have rest_b : 0 ∉ b := fun zero => zero_b (List.mem_cons_of_mem _ zero)
        by_cases equal : c = d
        · rw [if_pos ⟨nonzero, equal⟩, List.tail_cons, List.tail_cons, ih rest_a rest_b]
          simp [equal]
        · rw [if_neg (fun both => equal both.2), same]
          simp [equal]

end MicroOs.Klib
