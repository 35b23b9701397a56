import MicroOs.Drivers.Keyboard

/-!
# The keyboard buffer is a bounded queue

The ring from `kbd_read` to `kbd_write` is the queue of pending keys. A push appends to it unless it
has 255 keys, and the reader takes keys from its front. A flush removes what was there when it read
`kbd_write`; what is pushed before its store stays.
-/

namespace MicroOs.Drivers
open Lib List

namespace Keyboard

def count (k : Keyboard) : Nat := (k.write.toNat + kbdBufferSize - k.read.toNat) % kbdBufferSize

/-- The keys in the ring, the oldest first. -/
def pending (k : Keyboard) : List (BitVec 16) :=
  (range k.count).map fun i => k.buffer ((k.read.toNat + i) % kbdBufferSize)

structure InRange (k : Keyboard) : Prop where
  read : k.read.toNat < kbdBufferSize
  write : k.write.toNat < kbdBufferSize

variable {k : Keyboard} {c : BitVec 16}

@[simp] lemma length_pending (k : Keyboard) : k.pending.length = k.count := by
  simp [pending]

lemma toNat_nextIndex (i : BitVec 32) : (nextIndex i).toNat = (i.toNat + 1) % kbdBufferSize := by
  unfold kbdBufferSize
  rw [nextIndex, BitVec.toNat_umod, BitVec.toNat_add]
  show (i.toNat + 1) % 2 ^ 32 % 256 = _
  omega

lemma toNat_nextIndex_lt (i : BitVec 32) : (nextIndex i).toNat < kbdBufferSize := by
  rw [toNat_nextIndex]
  exact Nat.mod_lt _ (by decide)

section
variable (range : k.InRange)
include range

lemma nextIndex_eq_iff : nextIndex k.write = k.read ↔ k.count = kbdBufferSize - 1 := by
  have read := range.read
  have write := range.write
  rw [← BitVec.toNat_inj, toNat_nextIndex]
  unfold count
  simp only [kbdBufferSize] at *
  omega

lemma count_eq_zero_iff : k.count = 0 ↔ k.read = k.write := by
  have read := range.read
  have write := range.write
  rw [← BitVec.toNat_inj]
  unfold count
  simp only [kbdBufferSize] at *
  omega

lemma hasKey_iff : k.hasKey = true ↔ k.pending ≠ [] := by
  rw [ne_eq, ← length_eq_zero_iff, length_pending, count_eq_zero_iff range]
  simp [hasKey]

lemma push_inRange (c : BitVec 16) : (k.push c).InRange := by
  unfold push
  split
  · exact range
  · exact ⟨range.read, toNat_nextIndex_lt _⟩

lemma push_full (full : k.count = kbdBufferSize - 1) (c : BitVec 16) : k.push c = k :=
  if_pos ((nextIndex_eq_iff range).mpr full)

lemma pending_push (room : k.count ≠ kbdBufferSize - 1) (c : BitVec 16) :
    (k.push c).pending = k.pending ++ [c] ∧ (k.push c).write ≠ k.write := by
  have read := range.read
  have write := range.write
  have index := toNat_nextIndex k.write
  have pushed : k.push c = { k with
      buffer := Function.update k.buffer k.write.toNat c, write := nextIndex k.write } :=
    if_neg fun full => room ((nextIndex_eq_iff range).mp full)
  have longer : (k.push c).count = k.count + 1 := by
    rw [pushed]
    unfold count at room ⊢
    simp only [index]
    simp only [kbdBufferSize] at *
    omega
  constructor
  · unfold pending
    rw [longer, range_succ, map_append, pushed]
    congr 1
    · apply map_congr_left
      intro i inside
      have inside := mem_range.mp inside
      apply Function.update_of_ne
      unfold count at inside
      simp only [kbdBufferSize] at *
      omega
    · have last : (k.read.toNat + k.count) % kbdBufferSize = k.write.toNat := by
        unfold count
        simp only [kbdBufferSize] at *
        omega
      simp [last]
  · rw [pushed, ne_eq, ← BitVec.toNat_inj, index]
    simp only [kbdBufferSize] at *
    omega

lemma pending_read {r : BitVec 32} {n : Nat} (le : n ≤ k.count)
    (moved : r.toNat = (k.read.toNat + n) % kbdBufferSize) :
    ({ k with read := r } : Keyboard).pending = k.pending.drop n := by
  have read := range.read
  have write := range.write
  have fewer : ({ k with read := r } : Keyboard).count = k.count - n := by
    unfold count at le ⊢
    simp only [moved]
    simp only [kbdBufferSize] at *
    omega
  obtain ⟨m, count⟩ := Nat.exists_eq_add_of_le le
  unfold pending
  rw [fewer, count, Nat.add_sub_cancel_left, range_add, map_append, drop_left' (by simp), map_map]
  apply map_congr_left
  intro i _
  simp only [Function.comp, moved]
  congr 1
  simp only [kbdBufferSize]
  omega

end

structure SameRing (k k' : Keyboard) : Prop where
  buffer : k'.buffer = k.buffer
  read : k'.read = k.read
  write : k'.write = k.write

lemma SameRing.push {k' : Keyboard} (same : SameRing k k') (c : BitVec 16) :
    SameRing (k.push c) (k'.push c) := by
  unfold Keyboard.push
  rw [same.buffer, same.read, same.write]
  split
  · exact same
  · exact ⟨rfl, rfl, rfl⟩

lemma setWidth_ne_zero {c : BitVec 8} (nonzero : c ≠ 0) : c.setWidth 16 ≠ 0 := by
  intro zero
  have low := congrArg BitVec.toNat zero
  rw [BitVec.toNat_setWidth, Nat.mod_eq_of_lt (Nat.lt_trans c.isLt (by decide))] at low
  exact nonzero (BitVec.eq_of_toNat_eq low)

lemma fold_case_ne_zero {c : BitVec 8} (nonzero : c ≠ 0) (shift : Bool) :
    (if shift then toLower c else toUpper c) ≠ 0 := by
  unfold toLower toUpper isUpper isLower
  have positive : c.toNat ≠ 0 := fun zero => nonzero (BitVec.eq_of_toNat_eq zero)
  split
  · split
    · simp_all
      bv_omega
    · exact nonzero
  · split
    · simp_all
      bv_omega
    · exact nonzero

lemma control_ne_zero {c : BitVec 8} {first : BitVec 16} (low : first.toNat ≤ c.toNat) :
    c.setWidth 16 - first + 1 ≠ 0 := by
  have := c.isLt
  intro zero
  have nat := congrArg BitVec.toNat zero
  rw [BitVec.toNat_add, BitVec.toNat_sub, BitVec.toNat_setWidth] at nat
  simp only [BitVec.ofNat_eq_ofNat, BitVec.toNat_ofNat] at nat
  omega

lemma charKey_ne_zero {code : BitVec 8} {key : BitVec 16} (found : k.charKey code = some key) :
    key ≠ 0 := by
  unfold charKey at found
  generalize (if k.shiftHeld then scancodeMapShift else scancodeMap).getD code.toNat 0 = c at found
  by_cases zero : c = 0
  · simp only [zero, if_true] at found
    cases found
  · have nonzero : (if (k.capsOn && isLetter c) = true then
        if k.shiftHeld then toLower c else toUpper c else c) ≠ 0 := by
      split
      · exact fold_case_ne_zero zero _
      · exact zero
    simp only [if_neg zero] at found
    generalize (if (k.capsOn && isLetter c) = true then
        if k.shiftHeld then toLower c else toUpper c else c) = d at found nonzero
    split at found
    case isTrue lower =>
      obtain rfl := Option.some.inj found
      apply control_ne_zero
      simp only [isLower, Bool.and_eq_true, decide_eq_true_eq] at lower
      exact lower.2.1
    case isFalse =>
      split at found
      case isTrue upper =>
        obtain rfl := Option.some.inj found
        apply control_ne_zero
        simp only [isUpper, Bool.and_eq_true, decide_eq_true_eq] at upper
        exact upper.2.1
      case isFalse =>
        obtain rfl := Option.some.inj found
        exact setWidth_ne_zero nonzero

lemma extendedKey_ne_zero (code : BitVec 8) : extendedKey code ≠ some 0 := by
  revert code
  decide +kernel

lemma numpadKey_ne_zero (code : BitVec 8) : numpadKey code ≠ some 0 := by
  revert code
  decide +kernel

/-- At most one push, and not of zero. -/
def PushesOne (k k' : Keyboard) : Prop := SameRing k k' ∨ ∃ c ≠ 0, SameRing (k.push c) k'

lemma handleExtended_pushes (k : Keyboard) (release : Bool) (code : BitVec 8) :
    PushesOne k (k.handleExtended release code) := by
  unfold handleExtended
  simp only
  split
  · left
    split <;> split <;> exact ⟨rfl, rfl, rfl⟩
  · split
    · exact .inl ⟨rfl, rfl, rfl⟩
    · split
      · exact .inl ⟨rfl, rfl, rfl⟩
      · split
        case h_1 key found =>
          refine .inr ⟨key, fun zero => extendedKey_ne_zero code (zero ▸ found), ?_⟩
          have same : SameRing k { k with extended := false } := ⟨rfl, rfl, rfl⟩
          exact same.push key
        case h_2 => exact .inl ⟨rfl, rfl, rfl⟩

lemma handlePlain_pushes (k : Keyboard) (release : Bool) (code : BitVec 8) :
    PushesOne k (k.handlePlain release code) := by
  unfold handlePlain
  iterate 6
    split
    · exact .inl ⟨rfl, rfl, rfl⟩
  split
  case isTrue nonzero => exact .inr ⟨_, nonzero, ⟨rfl, rfl, rfl⟩⟩
  case isFalse =>
    simp only
    split
    case h_1 key found =>
      refine .inr ⟨key, ?_, ⟨rfl, rfl, rfl⟩⟩
      rintro rfl
      split at found
      · cases pad : numpadKey code with
        | none =>
          rw [pad] at found
          exact charKey_ne_zero found rfl
        | some key =>
          rw [pad] at found
          exact numpadKey_ne_zero code (pad.trans found)
      · exact charKey_ne_zero found rfl
    case h_2 => exact .inl ⟨rfl, rfl, rfl⟩

/-- What the handler does to the ring: it pushes at most one key, and that is not zero. -/
theorem handler_pushes (k : Keyboard) (sc : BitVec 8) : PushesOne k (k.handler sc) := by
  unfold handler
  split
  · exact .inl ⟨rfl, rfl, rfl⟩
  · simp only
    split
    · exact handleExtended_pushes _ _ _
    · exact handlePlain_pushes _ _ _

end Keyboard

/-- The keys that have been returned and those that are pending are the accepted pushes. -/
structure KeyboardSys.Inv (s : KeyboardSys) : Prop where
  range : s.kbd.InRange
  queue : s.returned ++ s.kbd.pending = s.accepted
  fetch : s.pc = .fetch → s.kbd.pending ≠ []
  advance : ∀ c, s.pc = .advance c → s.kbd.pending.head? = some c
  flush : ∀ w, s.pc = .flush w → ∃ n ≤ s.kbd.count,
    w.toNat = (s.kbd.read.toNat + n) % kbdBufferSize ∧ s.since = s.kbd.pending.drop n

namespace KeyboardSys

variable {s : KeyboardSys}

lemma accepts_iff (inv : s.Inv) (c : BitVec 16) :
    s.accepts c = true ↔ s.kbd.count ≠ kbdBufferSize - 1 := by
  unfold accepts
  by_cases full : s.kbd.count = kbdBufferSize - 1
  · simp [Keyboard.push_full inv.range full, full]
  · simp [(Keyboard.pending_push inv.range full c).2, full]

lemma pending_push (inv : s.Inv) (c : BitVec 16) :
    (s.kbd.push c).pending = s.kbd.pending ++ if s.accepts c then [c] else [] := by
  by_cases full : s.kbd.count = kbdBufferSize - 1
  · rw [if_neg (by rw [accepts_iff inv]; exact not_not_intro full),
      Keyboard.push_full inv.range full, append_nil]
  · rw [if_pos ((accepts_iff inv c).mpr full), (Keyboard.pending_push inv.range full c).1]

lemma head?_pending {k : Keyboard} (range : k.InRange) (filled : k.pending ≠ []) :
    k.pending.head? = some (k.buffer k.read.toNat) := by
  have read := range.read
  have positive : k.count ≠ 0 := by
    intro zero
    exact filled (length_eq_zero_iff.mp ((Keyboard.length_pending k).trans zero))
  obtain ⟨n, count⟩ := Nat.exists_eq_succ_of_ne_zero positive
  rw [Keyboard.pending, count, range_succ_eq_map, map_cons, head?_cons, Nat.add_zero,
    Nat.mod_eq_of_lt read]

lemma push_read (k : Keyboard) (c : BitVec 16) : (k.push c).read = k.read := by
  unfold Keyboard.push
  split <;> rfl

lemma Inv.push (inv : s.Inv) (c : BitVec 16) : (s.next (.push c)).Inv := by
  have pending := pending_push inv c
  refine ⟨Keyboard.push_inRange inv.range c, ?_, ?_, ?_, ?_⟩
  · simp only [next]
    rw [pending, ← append_assoc, inv.queue]
  · intro here
    simp only [next]
    rw [pending]
    exact append_ne_nil_of_left_ne_nil (inv.fetch here) _
  · intro d here
    simp only [next]
    rw [pending, head?_append, inv.advance d here]
    rfl
  · intro w here
    obtain ⟨n, le, index, since⟩ := inv.flush w here
    refine ⟨n, ?_, ?_, ?_⟩
    · rw [← Keyboard.length_pending] at le ⊢
      simp only [next]
      rw [pending, length_append]
      exact Nat.le_add_right_of_le le
    · simp only [next]
      rw [push_read]
      exact index
    · simp only [next]
      rw [pending, since, drop_append_of_le_length (by rwa [Keyboard.length_pending])]

lemma Inv.step {e : KeyboardEvent} {t : KeyboardSys} (inv : s.Inv) (step : KeyboardStep s e t) :
    t.Inv := by
  obtain ⟨allowed, rfl⟩ := step
  cases e with
  | push c => exact inv.push c
  | hasKey => exact inv
  | getchar => exact ⟨inv.range, inv.queue, nofun, nofun, nofun⟩
  | test =>
    refine ⟨inv.range, inv.queue, fun here => ?_, fun c here => ?_, fun w here => ?_⟩
    · apply (Keyboard.hasKey_iff inv.range).mp
      simp only [next] at here
      split at here
      · cases here
      · simpa [Keyboard.hasKey]
    · simp only [next] at here
      split at here <;> cases here
    · simp only [next] at here
      split at here <;> cases here
  | fetch =>
    refine ⟨inv.range, inv.queue, nofun, fun c here => ?_, nofun⟩
    obtain rfl := ReaderPc.advance.inj here
    exact head?_pending inv.range (inv.fetch allowed)
  | advance =>
    obtain ⟨c, here⟩ := allowed
    have first := inv.advance c here
    obtain ⟨rest, pending⟩ := head?_eq_some_iff.mp first
    have shorter : ({ s.kbd with read := Keyboard.nextIndex s.kbd.read } : Keyboard).pending = rest := by
      rw [Keyboard.pending_read inv.range ?_ (Keyboard.toNat_nextIndex _), pending]
      · rfl
      · rw [← Keyboard.length_pending, pending]
        exact Nat.le_add_left _ _
    simp only [next, here]
    refine ⟨⟨Keyboard.toNat_nextIndex_lt _, inv.range.write⟩, ?_, nofun, nofun, nofun⟩
    rw [shorter, append_assoc, singleton_append, ← pending]
    exact inv.queue
  | flushLoad =>
    refine ⟨inv.range, inv.queue, nofun, nofun, fun w here => ?_⟩
    obtain rfl := ReaderPc.flush.inj here
    refine ⟨s.kbd.count, Nat.le_refl _, ?_, ?_⟩
    · have read := inv.range.read
      have write := inv.range.write
      simp only [next]
      unfold Keyboard.count
      simp only [kbdBufferSize] at *
      omega
    · exact (drop_eq_nil_of_le (Nat.le_of_eq (Keyboard.length_pending _))).symm
  | flushStore =>
    obtain ⟨w, here⟩ := allowed
    obtain ⟨n, le, index, since⟩ := inv.flush w here
    simp only [next, here]
    refine ⟨⟨?_, inv.range.write⟩, ?_, nofun, nofun, nofun⟩
    · show w.toNat < _
      rw [index]
      exact Nat.mod_lt _ (by decide)
    · rw [nil_append, Keyboard.pending_read inv.range le index]
      exact since.symm

lemma Inv.start {kbd : Keyboard} (empty : kbd.read = 0 ∧ kbd.write = 0) : (start kbd).Inv := by
  obtain ⟨read, write⟩ := empty
  have range : kbd.InRange := by
    constructor
    · rw [read]
      decide
    · rw [write]
      decide
  have none : kbd.pending = [] := by
    rw [← length_eq_zero_iff, Keyboard.length_pending, Keyboard.count_eq_zero_iff range, read,
      write]
  exact ⟨range, none, nofun, nofun, nofun⟩

end KeyboardSys

/-- What a step does, for a queue of at most 255 keys: a push is accepted unless it is full,
`keyboard_has_key` says whether it is empty, and `keyboard_getchar` returns the oldest key. -/
def KeyboardSys.Fifo (st : StepOf KeyboardSys KeyboardEvent) : Prop :=
  match st.event with
  | .push c =>
    if st.pre.kbd.pending.length = 255 then
      st.post.kbd.pending = st.pre.kbd.pending ∧ st.post.accepted = st.pre.accepted
    else st.post.kbd.pending = st.pre.kbd.pending ++ [c] ∧ st.post.accepted = st.pre.accepted ++ [c]
  | .hasKey => st.pre.kbd.hasKey = true ↔ st.pre.kbd.pending ≠ []
  | .advance => ∃ c, st.pre.kbd.pending = c :: st.post.kbd.pending ∧
      st.post.returned = st.pre.returned ++ [c]
  | _ => True

lemma KeyboardSys.Inv.fifo {s t : KeyboardSys} {e : KeyboardEvent} (inv : s.Inv)
    (step : KeyboardStep s e t) : KeyboardSys.Fifo ⟨s, e, t⟩ := by
  have after := inv.step step
  obtain ⟨allowed, rfl⟩ := step
  cases e with
  | push c =>
    have pending := pending_push inv c
    have accepts := accepts_iff inv c
    simp only [Fifo, next, Keyboard.length_pending]
    split
    case isTrue full =>
      rw [pending, if_neg (by rw [accepts]; exact not_not_intro full), append_nil, append_nil]
      exact ⟨rfl, rfl⟩
    case isFalse room =>
      rw [pending, if_pos (accepts.mpr room)]
      exact ⟨rfl, rfl⟩
  | hasKey => exact Keyboard.hasKey_iff inv.range
  | advance =>
    obtain ⟨c, here⟩ := allowed
    have queue := after.queue
    simp only [Fifo]
    simp only [next, here] at queue ⊢
    rw [← inv.queue, append_assoc, append_cancel_left_eq] at queue
    exact ⟨c, queue.symm, rfl⟩
  | _ => trivial

/-- The buffer is a queue, over any run: what has been returned since the last flush and what is
pending are together the pushes accepted since then, in order. -/
theorem keyboard_is_fifo (buffer : Nat → BitVec 16)
    {trace : List (StepOf KeyboardSys KeyboardEvent)} {t : KeyboardSys}
    (run : Run KeyboardStep (KeyboardSys.start (Keyboard.init buffer)) trace t) :
    t.returned ++ t.kbd.pending = t.accepted ∧
      (t.kbd.read.toNat < 256 ∧ t.kbd.write.toNat < 256) ∧ ∀ st ∈ trace, KeyboardSys.Fifo st := by
  have start : (KeyboardSys.start (Keyboard.init buffer)).Inv := .start ⟨rfl, rfl⟩
  have invariant := fun {trace t} (run : Run KeyboardStep _ trace t) =>
    run.invariant KeyboardSys.Inv start fun _ _ _ inv step => inv.step step
  refine ⟨(invariant run).queue, ⟨(invariant run).range.read, (invariant run).range.write⟩, ?_⟩
  intro st member
  obtain ⟨before, after, rfl⟩ := append_of_mem member
  exact (invariant run.before).fifo (run.step_of_mem st member)

/-- Two keys, a flush that a third one interrupts, and a key that is read. -/
def flushInterrupted : List KeyboardEvent :=
  [.push 0x61, .push 0x62, .flushLoad, .push 0x63, .flushStore, .push 0x64, .hasKey, .getchar, .test,
    .fetch, .push 0x65, .advance]

theorem keyboard_is_fifo_interrupted :
    let steps := stepsFrom KeyboardSys.next (KeyboardSys.start (Keyboard.init fun _ => 0))
      flushInterrupted
    let t := flushInterrupted.foldl KeyboardSys.next (KeyboardSys.start (Keyboard.init fun _ => 0))
    (t.returned = [0x63] ∧ t.kbd.pending = [0x64, 0x65]) ∧
      t.returned ++ t.kbd.pending = t.accepted ∧ ∀ st ∈ steps, KeyboardSys.Fifo st := by
  have run : Run KeyboardStep _ _ _ :=
    Executes.run (show Executes KeyboardSys.Allowed KeyboardSys.next
      (KeyboardSys.start (Keyboard.init fun _ => 0)) flushInterrupted by
        refine ⟨trivial, trivial, rfl, trivial, ⟨_, rfl⟩, trivial, rfl, rfl, rfl, ?_, trivial, ?_, trivial⟩
        · show _ = ReaderPc.fetch
          decide +kernel
        · exact ⟨_, rfl⟩)
      fun s e allowed => ⟨allowed, rfl⟩
  obtain ⟨queue, -, fifo⟩ := keyboard_is_fifo (fun _ => 0) run
  exact ⟨by decide +kernel, queue, fifo⟩

end MicroOs.Drivers
