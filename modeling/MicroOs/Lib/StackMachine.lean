import MicroOs.Lib.Word64

/-!
# A machine with registers and a stack

Straight-line code over a set of registers, one of them the stack pointer, and a memory of 64-bit
words by address. Accesses that overlap without being equal are not modelled: all addresses in use
are multiples of 8.
-/

namespace MicroOs.Lib
open List
open Function (update update_of_ne update_self)

section Memory

variable {mem mem' : Nat → Nat} {a b w : Nat} {ws vs : List Nat}

/-- The words are in memory from `a` on. -/
def WordsAt (mem : Nat → Nat) (a : Nat) : List Nat → Prop
  | [] => True
  | w :: ws => mem a = w ∧ WordsAt mem (a + 8) ws

def writeWords (mem : Nat → Nat) (a : Nat) : List Nat → Nat → Nat
  | [] => mem
  | w :: ws => writeWords (update mem a w) (a + 8) ws

lemma wordsAt_append :
    WordsAt mem a (ws ++ vs) ↔ WordsAt mem a ws ∧ WordsAt mem (a + 8 * ws.length) vs := by
  induction ws generalizing a with
  | nil => simp [WordsAt]
  | cons w ws ih =>
    have address : a + 8 * (w :: ws).length = a + 8 + 8 * ws.length := by
      rw [length_cons]
      omega
    rw [cons_append, WordsAt, WordsAt, ih, address, and_assoc]

lemma WordsAt.congr (words : WordsAt mem a ws)
    (same : ∀ b, a ≤ b → b < a + 8 * ws.length → mem' b = mem b) : WordsAt mem' a ws := by
  induction ws generalizing a with
  | nil => trivial
  | cons w ws ih =>
    rw [length_cons] at same
    refine ⟨(same a (Nat.le_refl a) (by omega)).trans words.1, ih words.2 fun b le lt => ?_⟩
    exact same b (by omega) (by omega)

lemma writeWords_of_outside (outside : b < a ∨ a + 8 * ws.length ≤ b) :
    writeWords mem a ws b = mem b := by
  induction ws generalizing mem a with
  | nil => rfl
  | cons w ws ih =>
    rw [length_cons] at outside
    have other : b ≠ a := by omega
    rw [writeWords, ih (by omega), update_of_ne other]

lemma wordsAt_writeWords (mem : Nat → Nat) (a : Nat) (ws : List Nat) :
    WordsAt (writeWords mem a ws) a ws := by
  induction ws generalizing mem a with
  | nil => trivial
  | cons w ws ih =>
    refine ⟨?_, ih _ _⟩
    rw [writeWords, writeWords_of_outside (.inl (by omega)), update_self]

lemma writeWords_concat (mem : Nat → Nat) (a : Nat) (ws : List Nat) (w : Nat) :
    writeWords mem a (ws ++ [w]) =
      writeWords (update mem (a + 8 * ws.length) w) a ws := by
  induction ws generalizing mem a with
  | nil => rfl
  | cons v ws ih =>
    have address : a + 8 * (v :: ws).length = a + 8 + 8 * ws.length := by
      rw [length_cons]
      omega
    have other : a ≠ a + 8 + 8 * ws.length := by omega
    rw [cons_append, writeWords, writeWords, ih, address, Function.update_comm other]

end Memory

/-- The addresses from `lo` up to, not including, `hi`. -/
structure Area where
  lo : Nat
  hi : Nat
  deriving DecidableEq, Repr

def Area.Has (area : Area) (a : Nat) : Prop := area.lo ≤ a ∧ a < area.hi

def Area.Apart (area other : Area) : Prop := area.hi ≤ other.lo ∨ other.hi ≤ area.lo

lemma Area.Apart.symm {area other : Area} (apart : area.Apart other) : other.Apart area :=
  Or.symm apart

lemma Area.Apart.not_has {area other : Area} (apart : area.Apart other) {a : Nat}
    (has : area.Has a) : ¬ other.Has a := by
  rcases apart with below | above
  · exact fun has' => absurd (Nat.lt_of_lt_of_le has.2 below) (Nat.not_lt.mpr has'.1)
  · exact fun has' => absurd (Nat.lt_of_lt_of_le has'.2 above) (Nat.not_lt.mpr has.1)

structure Machine (R : Type) where
  reg : R → Nat
  mem : Nat → Nat

inductive Instr (R : Type) where
  | push (r : R)
  | pop (r : R)
  | store (addr src : R)
  | load (dst addr : R)
  deriving DecidableEq, Repr

variable {R : Type} [DecidableEq R] {sp : R} {m : Machine R} {rs : List R} {ws : List Nat}

/-- The effect of an instruction. The stack grows downwards. -/
def Instr.exec (sp : R) (m : Machine R) : Instr R → Machine R
  | .push r =>
      { reg := update m.reg sp (sub64 (m.reg sp) 8)
        mem := update m.mem (sub64 (m.reg sp) 8) (m.reg r) }
  | .pop r =>
      { m with
        reg := update (update m.reg sp (add64 (m.reg sp) 8)) r
          (m.mem (m.reg sp)) }
  | .store addr src => { m with mem := update m.mem (m.reg addr) (m.reg src) }
  | .load dst addr => { m with reg := update m.reg dst (m.mem (m.reg addr)) }

def exec (sp : R) (code : List (Instr R)) (m : Machine R) : Machine R :=
  code.foldl (Instr.exec sp) m

lemma exec_append (sp : R) (code later : List (Instr R)) (m : Machine R) :
    exec sp (code ++ later) m = exec sp later (exec sp code m) :=
  foldl_append

lemma exec_pushes (notSp : sp ∉ rs) (room : 8 * rs.length ≤ m.reg sp) (lt : m.reg sp < two64) :
    exec sp (rs.map .push) m =
      { reg := update m.reg sp (m.reg sp - 8 * rs.length)
        mem := writeWords m.mem (m.reg sp - 8 * rs.length) (rs.reverse.map m.reg) } := by
  induction rs generalizing m with
  | nil => simp [exec, writeWords]
  | cons r rs ih =>
    rw [length_cons] at room ⊢
    have ⟨notFirst, notRest⟩ : sp ≠ r ∧ sp ∉ rs := by simpa using notSp
    have first : Instr.exec sp m (.push r) =
        { reg := update m.reg sp (m.reg sp - 8)
          mem := update m.mem (m.reg sp - 8) (m.reg r) } := by
      rw [Instr.exec, sub64_of_le (by omega) lt]
    have sameRest : rs.reverse.map (update m.reg sp (m.reg sp - 8)) =
        rs.reverse.map m.reg := by
      refine map_congr_left fun r' member => update_of_ne ?_ ..
      rintro rfl
      exact notRest (mem_reverse.mp member)
    have bottom : m.reg sp - 8 - 8 * rs.length = m.reg sp - 8 * (rs.length + 1) := by omega
    have top : m.reg sp - 8 * (rs.length + 1) + 8 * rs.length = m.reg sp - 8 := by omega
    rw [map_cons, exec, foldl_cons, ← exec, first,
      ih notRest (by simp only [update_self]; omega)
        (by simp only [update_self]; omega)]
    simp only [update_self, Function.update_idem, sameRest, bottom, reverse_cons,
      map_append, map_cons, map_nil, writeWords_concat, length_map,
      length_reverse, top]

lemma exec_pops (nodup : rs.Nodup) (notSp : sp ∉ rs) (words : WordsAt m.mem (m.reg sp) ws)
    (length : ws.length = rs.length) (lt : m.reg sp + 8 * rs.length < two64) :
    (exec sp (rs.map .pop) m).mem = m.mem ∧
      (exec sp (rs.map .pop) m).reg sp = m.reg sp + 8 * rs.length ∧
      rs.map (exec sp (rs.map .pop) m).reg = ws ∧
      ∀ r ∉ rs, r ≠ sp → (exec sp (rs.map .pop) m).reg r = m.reg r := by
  induction rs generalizing m ws with
  | nil => simp [exec, length_eq_zero_iff.mp length]
  | cons r rs ih =>
    obtain ⟨w, ws, rfl⟩ := exists_cons_of_length_eq_add_one length
    rw [length_cons] at lt
    have ⟨notFirst, notRest⟩ : sp ≠ r ∧ sp ∉ rs := by simpa using notSp
    have ⟨notAgain, nodup⟩ := nodup_cons.mp nodup
    obtain ⟨word, words⟩ := words
    have next : add64 (m.reg sp) 8 = m.reg sp + 8 := add64_of_lt (by omega)
    -- the machine after the first instruction
    obtain ⟨m', hm'⟩ : ∃ m', m' = Instr.exec sp m (.pop r) := ⟨_, rfl⟩
    have run : exec sp ((r :: rs).map .pop) m = exec sp (rs.map .pop) m' := by
      rw [hm']
      rfl
    have sameMem : m'.mem = m.mem := by rw [hm']; rfl
    have pointer : m'.reg sp = m.reg sp + 8 := by
      simp only [hm', Instr.exec, update_of_ne notFirst, update_self, next]
    have loaded : m'.reg r = w := by
      simp only [hm', Instr.exec, update_self, word]
    have others (r' : R) (notR : r' ≠ r) (notSp : r' ≠ sp) : m'.reg r' = m.reg r' := by
      simp only [hm', Instr.exec, update_of_ne notR, update_of_ne notSp]
    obtain ⟨mem, pointer', rest, unchanged⟩ := ih nodup notRest
      (by rwa [sameMem, pointer]) (by simpa using length) (by rw [pointer]; omega)
    rw [run]
    refine ⟨mem.trans sameMem, ?_, ?_, fun r' notMember notSp => ?_⟩
    · rw [pointer', pointer, length_cons]
      omega
    · rw [map_cons, rest, unchanged r notAgain notFirst.symm, loaded]
    · have ⟨notR, notRest⟩ : r' ≠ r ∧ r' ∉ rs := by simpa using notMember
      rw [unchanged r' notRest notSp, others r' notR notSp]

end MicroOs.Lib
