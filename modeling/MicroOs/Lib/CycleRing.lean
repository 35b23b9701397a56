import MicroOs.Lib.Ring
import MicroOs.Lib.Transition

/-!
# Rings with a cycle bit

A producer and a consumer share a ring of `size` cells and a link cell behind them. There are no
shared indices: the producer publishes a cell by setting its cycle bit to the parity of its lap, and
the consumer compares the bit with the parity of its own. The producer may write the cell it is about
to publish in any number of steps. At the end of a lap it updates the bit of the link cell.
-/

namespace MicroOs.Lib
open List
open Function (update update_of_ne)

/-- A ring with its producer and its consumer. -/
structure CycleRing (α : Type) where
  body : Nat → α
  /-- The cycle bits; `bit size` is the one of the link. -/
  bit : Nat → Bool
  enq : Nat
  cycle : Bool
  /-- The producer is writing the cell `enq`. -/
  writing : Bool
  deq : Nat
  state : Bool
  pushed : List α
  taken : List α

inductive CycleEvent (α : Type) where
  | start
  | write (v : α)
  | publish (v : α)
  | wrap
  | take
  | jump

namespace CycleRing

variable {α : Type}

/-- The steps of the two sides. The producer starts a push only if at most `limit` values are then
not consumed. -/
inductive Step (size limit : Nat) : CycleRing α → CycleEvent α → CycleRing α → Prop
  | start {r : CycleRing α} (idle : r.writing = false) (inside : r.enq < size)
      (room : r.pushed.length < r.taken.length + limit) :
      Step size limit r .start { r with writing := true }
  | write {r : CycleRing α} (writing : r.writing = true) (v : α) :
      Step size limit r (.write v) { r with body := update r.body r.enq v }
  | publish {r : CycleRing α} (writing : r.writing = true) (v : α) :
      Step size limit r (.publish v)
        { r with
          body := update r.body r.enq v
          bit := update r.bit r.enq r.cycle
          enq := r.enq + 1
          writing := false
          pushed := r.pushed ++ [v] }
  | wrap {r : CycleRing α} (atEnd : r.enq = size) :
      Step size limit r .wrap
        { r with bit := update r.bit size r.cycle, enq := 0, cycle := !r.cycle }
  | take {r : CycleRing α} (inside : r.deq < size) (owned : r.bit r.deq = r.state) :
      Step size limit r .take { r with taken := r.taken ++ [r.body r.deq], deq := r.deq + 1 }
  | jump {r : CycleRing α} (atEnd : r.deq = size) (owned : r.bit size = r.state) :
      Step size limit r .jump { r with deq := 0, state := !r.state }

def Consumes : CycleEvent α → Prop
  | .take | .jump => True
  | _ => False

/-- Nothing has been pushed, all cells have bit 0, and the link has bit 1. -/
structure Empty (size : Nat) (r : CycleRing α) : Prop where
  bits : ∀ i < size, r.bit i = false
  link : r.bit size = true
  enq : r.enq = 0
  cycle : r.cycle = true
  idle : r.writing = false
  deq : r.deq = 0
  state : r.state = true
  pushed : r.pushed = []
  taken : r.taken = []

def lapBit (lap : Nat) : Bool := lap % 2 = 0

@[simp] lemma lapBit_succ (lap : Nat) : lapBit (lap + 1) = !lapBit lap := by
  unfold lapBit
  rcases Nat.mod_two_eq_zero_or_one lap with even | odd
  · have next : (lap + 1) % 2 = 1 := by omega
    simp [even, next]
  · have next : (lap + 1) % 2 = 0 := by omega
    simp [odd, next]

/-- The bit of the link while the producer is in a lap: the bit of the lap before. -/
def linkBit : Nat → Bool
  | 0 => true
  | lap + 1 => lapBit lap

/-- The producer is in lap `lap`, the consumer in lap `seen`. -/
structure Inv (size limit : Nat) (r : CycleRing α) (lap seen : Nat) : Prop where
  produced : r.pushed.length = lap * size + r.enq
  inside : r.enq ≤ size
  cycle : r.cycle = lapBit lap
  bits : ∀ i < size, r.bit i = if i < r.enq then r.cycle else !r.cycle
  link : r.bit size = linkBit lap
  writing : r.writing = true → r.enq < size ∧ r.pushed.length < r.taken.length + limit
  consumed : r.taken.length = seen * size + r.deq
  within : r.deq ≤ size
  state : r.state = lapBit seen
  room : r.pushed.length ≤ r.taken.length + limit
  taken : r.taken <+: r.pushed
  bodies : Holds r.body size r.pushed r.taken.length

variable {size limit lap seen : Nat} {r : CycleRing α}

lemma Empty.inv (empty : r.Empty size) : r.Inv size limit 0 0 where
  produced := by rw [empty.pushed, empty.enq, Nat.zero_mul]; rfl
  inside := by rw [empty.enq]; exact Nat.zero_le _
  cycle := empty.cycle
  bits i small := by rw [empty.bits i small, empty.enq, if_neg (Nat.not_lt_zero _), empty.cycle]; rfl
  link := empty.link
  writing busy := by rw [empty.idle] at busy; cases busy
  consumed := by rw [empty.taken, empty.deq, Nat.zero_mul]; rfl
  within := by rw [empty.deq]; exact Nat.zero_le _
  state := empty.state
  room := by rw [empty.pushed]; exact Nat.zero_le _
  taken := by rw [empty.taken]; exact nil_prefix
  bodies := by rw [empty.pushed]; exact holds_nil _ _ _

section
variable (inv : r.Inv size limit lap seen)
include inv

lemma Inv.behind : r.taken.length ≤ r.pushed.length :=
  inv.taken.length_le

/-- How far the two sides are apart. In the third case the consumer has started a lap while the link
still had its first bit; in the last one it stands at the link, a whole lap behind. -/
lemma Inv.laps (positive : 0 < size) (fits : limit ≤ size) :
    (lap = seen ∧ r.deq ≤ r.enq) ∨ (lap = seen + 1 ∧ r.enq ≤ r.deq) ∨
      (seen = lap + 1 ∧ r.enq = size ∧ r.deq = 0) ∨
      (lap = seen + 2 ∧ r.enq = 0 ∧ r.deq = size ∧
        r.pushed.length = r.taken.length + size) := by
  have behind := inv.behind
  have room := inv.room
  have inside := inv.inside
  have within := inv.within
  rw [inv.produced, inv.consumed] at behind room ⊢
  have ahead : seen ≤ lap + 1 := by
    by_contra far
    have product := Nat.mul_le_mul_right size (show lap + 2 ≤ seen by omega)
    rw [Nat.add_mul] at product
    omega
  have near : lap ≤ seen + 2 := by
    by_contra far
    have product := Nat.mul_le_mul_right size (show seen + 3 ≤ lap by omega)
    rw [Nat.add_mul] at product
    omega
  have laps : seen = lap + 1 ∨ lap = seen ∨ lap = seen + 1 ∨ lap = seen + 2 := by omega
  rcases laps with rfl | rfl | rfl | rfl
  · rw [Nat.add_mul] at behind room
    omega
  · omega
  · rw [Nat.add_mul] at behind room
    omega
  · rw [Nat.add_mul] at behind room ⊢
    omega

lemma Inv.owned_iff (positive : 0 < size) (fits : limit ≤ size) (inside : r.deq < size) :
    r.bit r.deq = r.state ↔ r.taken.length < r.pushed.length := by
  have behind := inv.behind
  rw [inv.bits r.deq inside, inv.cycle, inv.state]
  rw [inv.produced, inv.consumed] at behind ⊢
  rcases inv.laps positive fits with ⟨rfl, le⟩ | ⟨rfl, le⟩ | ⟨rfl, full, first⟩ | ⟨-, -, atLink, -⟩
  · by_cases waiting : r.deq < r.enq
    · simp [waiting]
    · simp [waiting]
  · rw [if_neg (by omega), Nat.add_mul]
    simp only [lapBit_succ, Bool.not_not, true_iff]
    omega
  · rw [if_pos (by omega), Nat.add_mul]
    refine iff_of_false ?_ (by omega)
    simp
  · omega

lemma Inv.taken_cell (inside : r.deq < size) : r.taken.length % size = r.deq := by
  rw [inv.consumed, Nat.mul_add_mod', Nat.mod_eq_of_lt inside]

lemma Inv.pushed_cell (inside : r.enq < size) : r.pushed.length % size = r.enq := by
  rw [inv.produced, Nat.mul_add_mod', Nat.mod_eq_of_lt inside]

end

section

variable (inv : r.Inv size limit lap seen) (positive : 0 < size) (fits : limit ≤ size)
include inv

lemma Inv.publish (writing : r.writing = true) (fits : limit ≤ size) (v : α) :
    Inv size limit
      { r with
        body := update r.body r.enq v
        bit := update r.bit r.enq r.cycle
        enq := r.enq + 1
        writing := false
        pushed := r.pushed ++ [v] } lap seen := by
  obtain ⟨inside, room⟩ := inv.writing writing
  have cell := inv.pushed_cell inside
  have bodies := inv.bodies.put (Nat.lt_of_lt_of_le room (by omega)) v
  rw [cell] at bodies
  refine { inv with
    produced := ?_, inside := inside, bits := ?_, link := ?_,
    writing := fun busy => absurd busy Bool.false_ne_true,
    room := ?_, taken := ?_, bodies := bodies }
  · simp only [length_append, length_singleton, inv.produced]
    omega
  · intro i small
    by_cases here : i = r.enq
    · subst here
      simp
    · have old := inv.bits i small
      simp only [update_of_ne here, old]
      by_cases less : i < r.enq
      · simp [less, Nat.lt_succ_of_lt less]
      · simp [less, show ¬i < r.enq + 1 by omega]
  · simp only [update_of_ne (Nat.ne_of_gt inside), inv.link]
  · simp only [length_append, length_singleton]
    omega
  · exact inv.taken.trans (prefix_append _ _)

lemma Inv.wrap (atEnd : r.enq = size) :
    Inv size limit
      { r with bit := update r.bit size r.cycle, enq := 0, cycle := !r.cycle }
      (lap + 1) seen := by
  refine { inv with
    produced := ?_, inside := Nat.zero_le _, cycle := ?_, bits := ?_, link := ?_, writing := ?_ }
  · simp only [inv.produced, atEnd, Nat.add_mul]
    omega
  · simp only [inv.cycle, lapBit_succ]
  · intro i small
    have old := inv.bits i small
    rw [if_pos (by omega)] at old
    simp [update_of_ne (Nat.ne_of_lt small), old]
  · simp [inv.cycle, linkBit]
  · intro writing
    have := (inv.writing writing).1
    omega

lemma Inv.jump (atEnd : r.deq = size) :
    Inv size limit { r with deq := 0, state := !r.state } lap (seen + 1) := by
  refine { inv with consumed := ?_, within := Nat.zero_le _, state := ?_ }
  · simp only [inv.consumed, atEnd, Nat.add_mul]
    omega
  · simp only [inv.state, lapBit_succ]

include positive fits

lemma Inv.take (inside : r.deq < size) (owned : r.bit r.deq = r.state) :
    Inv size limit { r with taken := r.taken ++ [r.body r.deq], deq := r.deq + 1 } lap seen := by
  have unread := (inv.owned_iff positive fits inside).mp owned
  have cell := inv.taken_cell inside
  have read := inv.bodies.read (Nat.le_refl _) unread
  rw [cell, ← prefix_iff_eq_take.mp inv.taken] at read
  refine { inv with
    writing := ?_, consumed := ?_, within := inside, room := ?_, taken := ?_, bodies := ?_ }
  · intro writing
    obtain ⟨small, room⟩ := inv.writing writing
    refine ⟨small, ?_⟩
    simp only [length_append, length_singleton]
    omega
  · simp only [length_append, length_singleton, inv.consumed]
    omega
  · have room := inv.room
    simp only [length_append, length_singleton]
    omega
  · show r.taken ++ [r.body r.deq] <+: r.pushed
    rw [read]
    exact take_prefix _ _
  · apply inv.bodies.mono
    simp

lemma Inv.step {e : CycleEvent α} {r' : CycleRing α} (step : Step size limit r e r') :
    ∃ lap' seen', r'.Inv size limit lap' seen' := by
  cases step with
  | start idle inside room => exact ⟨lap, seen, { inv with writing := fun _ => ⟨inside, room⟩ }⟩
  | write writing v =>
    obtain ⟨inside, room⟩ := inv.writing writing
    have spoiled := inv.bodies.spoil (Nat.lt_of_lt_of_le room (by omega)) v
    rw [inv.pushed_cell inside] at spoiled
    exact ⟨lap, seen, { inv with bodies := spoiled }⟩
  | publish writing v => exact ⟨lap, seen, inv.publish writing fits v⟩
  | wrap atEnd => exact ⟨lap + 1, seen, inv.wrap atEnd⟩
  | take inside owned => exact ⟨lap, seen, inv.take positive fits inside owned⟩
  | jump atEnd owned =>
    -- the bit of the link does not matter for what has been taken
    exact ⟨lap, seen + 1, inv.jump atEnd⟩

lemma Inv.link_owned (atEnd : r.deq = size) (unread : r.taken.length < r.pushed.length)
    (less : r.pushed.length < r.taken.length + size) : r.bit size = r.state := by
  have produced := inv.produced
  have consumed := inv.consumed
  have inside := inv.inside
  rw [inv.link, inv.state]
  rcases inv.laps positive fits with ⟨rfl, le⟩ | ⟨rfl, le⟩ | ⟨-, -, first⟩ | ⟨-, -, -, full⟩
  · omega
  · rfl
  · omega
  · omega

end

lemma Inv.next (inv : r.Inv size limit lap seen) (positive : 0 < size) (fits : limit < size)
    (unread : r.taken.length < r.pushed.length) :
    ∃ trace r' seen', Run (Step size limit) r trace r' ∧ (∀ st ∈ trace, Consumes st.event) ∧
      r'.Inv size limit lap seen' ∧ r'.pushed = r.pushed ∧
      r'.taken.length = r.taken.length + 1 := by
  have within := inv.within
  have room := inv.room
  have takes : ∀ {r₁ : CycleRing α} {seen₁ : Nat}, r₁.Inv size limit lap seen₁ →
      r₁.taken.length < r₁.pushed.length → r₁.deq < size →
      ∃ r₂, Step size limit r₁ .take r₂ ∧ r₂.Inv size limit lap seen₁ ∧ r₂.pushed = r₁.pushed ∧
        r₂.taken.length = r₁.taken.length + 1 := by
    intro r₁ seen₁ inv₁ unread₁ inside
    have owned := (inv₁.owned_iff positive (Nat.le_of_lt fits) inside).mpr unread₁
    exact ⟨_, .take inside owned, inv₁.take positive (Nat.le_of_lt fits) inside owned, rfl, by simp⟩
  rcases Nat.lt_or_eq_of_le within with inside | atEnd
  · obtain ⟨r₂, step, inv₂, same, more⟩ := takes inv unread inside
    refine ⟨_, r₂, seen, Run.nil.snoc step, ?_, inv₂, same, more⟩
    simp [Consumes]
  · have owned := inv.link_owned positive (Nat.le_of_lt fits) atEnd unread (by omega)
    have jump : Step size limit r .jump { r with deq := 0, state := !r.state } := .jump atEnd owned
    have jumped := inv.jump atEnd
    obtain ⟨r₂, step, inv₂, same, more⟩ := takes jumped unread positive
    refine ⟨_, r₂, seen + 1, (Run.nil.snoc jump).snoc step, ?_, inv₂, same, more⟩
    simp [Consumes]

lemma Inv.drain (inv : r.Inv size limit lap seen) (positive : 0 < size) (fits : limit < size) :
    ∃ trace r', Run (Step size limit) r trace r' ∧ (∀ st ∈ trace, Consumes st.event) ∧
      r'.taken = r.pushed ∧ r'.pushed = r.pushed := by
  induction left : r.pushed.length - r.taken.length generalizing r seen with
  | zero =>
    have all : r.taken = r.pushed := inv.taken.eq_of_length_le (by omega)
    exact ⟨[], r, .nil, by simp, all, rfl⟩
  | succ left ih =>
    obtain ⟨first, r₁, seen₁, run₁, consumes₁, inv₁, same₁, more⟩ :=
      inv.next positive fits (by omega)
    obtain ⟨rest, r₂, run₂, consumes₂, all, same₂⟩ := ih inv₁ (by rw [same₁]; omega)
    refine ⟨first ++ rest, r₂, run₁.append run₂, ?_, all.trans same₁, same₂.trans same₁⟩
    intro st member
    rcases mem_append.mp member with early | late
    · exact consumes₁ st early
    · exact consumes₂ st late

/-! ## Without a link

A ring whose producer and consumer go from the last cell to the first by themselves. -/

/-- The cycle bits of the cells after `p` values. -/
def LapBits (size : Nat) (bit : Nat → Bool) (p : Nat) : Prop :=
  ∀ i < size, bit i = if i < p % size then lapBit (p / size) else !lapBit (p / size)

variable {bit : Nat → Bool} {p : Nat}

lemma lap_succ (positive : 0 < size) (p : Nat) :
    (p % size + 1 < size ∧ (p + 1) % size = p % size + 1 ∧ (p + 1) / size = p / size) ∨
      (p % size + 1 = size ∧ (p + 1) % size = 0 ∧ (p + 1) / size = p / size + 1) := by
  have below := Nat.mod_lt p positive
  have split := Nat.div_add_mod p size
  rcases Nat.lt_or_ge (p % size + 1) size with inside | full
  · left
    have whole : p + 1 = size * (p / size) + (p % size + 1) := by omega
    refine ⟨inside, ?_, ?_⟩
    · rw [whole, Nat.mul_add_mod, Nat.mod_eq_of_lt inside]
    · rw [whole, Nat.mul_add_div positive, Nat.div_eq_of_lt inside, Nat.add_zero]
  · right
    have whole : p + 1 = size * (p / size + 1) := by
      rw [Nat.mul_add]
      omega
    refine ⟨by omega, ?_, ?_⟩
    · rw [whole, Nat.mul_mod_right]
    · rw [whole, Nat.mul_div_cancel_left _ positive]

lemma lapBits_zero (none : ∀ i < size, bit i = false) : LapBits size bit 0 := by
  intro i inside
  rw [none i inside, Nat.zero_mod, if_neg (Nat.not_lt_zero _), Nat.zero_div]
  rfl

lemma LapBits.put (bits : LapBits size bit p) (positive : 0 < size) :
    LapBits size (update bit (p % size) (lapBit (p / size))) (p + 1) := by
  intro i inside
  by_cases here : i = p % size
  · subst here
    rw [Function.update_self]
    rcases lap_succ positive p with ⟨-, place, lap⟩ | ⟨-, place, lap⟩
    · rw [place, lap, if_pos (Nat.lt_succ_self _)]
    · rw [place, lap, if_neg (Nat.not_lt_zero _), lapBit_succ, Bool.not_not]
  · rw [update_of_ne here, bits i inside]
    rcases lap_succ positive p with ⟨-, place, lap⟩ | ⟨full, place, lap⟩
    · rw [place, lap]
      by_cases low : i < p % size
      · rw [if_pos low, if_pos (by omega)]
      · rw [if_neg low, if_neg (by omega)]
    · rw [place, lap, if_pos (by omega), if_neg (Nat.not_lt_zero _), lapBit_succ, Bool.not_not]

lemma LapBits.owned_iff (bits : LapBits size bit p) (positive : 0 < size) {k : Nat}
    (behind : k ≤ p) (room : p ≤ k + size) : bit (k % size) = lapBit (k / size) ↔ k < p := by
  have below := Nat.mod_lt k positive
  have below' := Nat.mod_lt p positive
  have split := Nat.div_add_mod k size
  have split' := Nat.div_add_mod p size
  rw [bits _ below]
  have near : p / size = k / size ∨ p / size = k / size + 1 := by
    have low := Nat.div_le_div_right (c := size) behind
    have high := Nat.div_le_div_right (c := size) room
    rw [Nat.add_div_right k positive] at high
    omega
  rcases near with same | next
  · rw [same] at split' ⊢
    by_cases waiting : k % size < p % size
    · simp only [waiting, if_true, true_iff]
      omega
    · simp only [waiting, if_false, Bool.not_eq_eq_eq_not, Bool.eq_not_self, false_iff]
      omega
  · rw [next, Nat.mul_add, Nat.mul_one] at split'
    rw [next, if_neg (by omega), lapBit_succ, Bool.not_not]
    simp only [true_iff]
    omega

end CycleRing

end MicroOs.Lib
