import MicroOs.Drivers.Xhci
import MicroOs.Lib.CycleRing

/-!
# TRBs are taken in order

The rings of the driver are rings with a cycle bit: each store of a push is a step of the producer
of such a ring, and the controller is its consumer.
-/

namespace MicroOs.Drivers
open Lib
open Function (update update_comm update_idem update_of_ne update_self)

lemma ringPush_eq_stores (size : Nat) (r : TrbRing) (t : XhciTrb) :
    (fun x => store size x.1 x.2)^[5] (r, startPush r t) = (ringPush size r t, .idle) := by
  simp only [Function.iterate_succ, Function.iterate_zero, Function.comp_apply, id_eq, startPush,
    store, update_self, update_idem, ringPush]
  by_cases last : r.enq + 1 ≥ size - 1
  · simp [last]
  · simp [last]

lemma toggle_getLsbD {cycle : BitVec 32} : (cycle ^^^ 1).getLsbD 0 = !cycle.getLsbD 0 := by
  simp

/-- A push is going on in front of its control word. -/
def PushPc.writing : PushPc → Bool
  | .paramLo _ | .paramHi _ | .status _ | .control _ => true
  | _ => false

/-- The ring behind a system; the Link TRB is not one of its values. -/
def RingSys.abs (size : Nat) (s : RingSys) : CycleRing XhciTrb where
  body := update s.ring.trb (size - 1) ⟨0, 0, 0, 0⟩
  bit i := (s.ring.trb i).cycleBit
  enq := s.ring.enq
  cycle := s.ring.cycle.getLsbD 0
  writing := s.pc.writing
  deq := s.deq
  state := s.state
  pushed := s.pushed
  taken := s.taken

def Written (size : Nat) (r : TrbRing) : PushPc → Prop
  | .idle => r.enq < size - 1
  | .paramLo t => r.enq < size - 1 ∧ t.cycleBit = r.cycle.getLsbD 0
  | .paramHi t =>
    r.enq < size - 1 ∧ t.cycleBit = r.cycle.getLsbD 0 ∧ (r.trb r.enq).paramLo = t.paramLo
  | .status t =>
    r.enq < size - 1 ∧ t.cycleBit = r.cycle.getLsbD 0 ∧ (r.trb r.enq).paramLo = t.paramLo ∧
      (r.trb r.enq).paramHi = t.paramHi
  | .control t =>
    r.enq < size - 1 ∧ t.cycleBit = r.cycle.getLsbD 0 ∧ (r.trb r.enq).paramLo = t.paramLo ∧
      (r.trb r.enq).paramHi = t.paramHi ∧ (r.trb r.enq).status = t.status
  | .link => r.enq = size - 1

variable {size limit : Nat} {s s' : RingSys} {e : RingEvent}

lemma abs_bit_of_control {r : TrbRing} {v : XhciTrb} (same : v.control = (r.trb r.enq).control) :
    (fun i => (update r.trb r.enq v i).cycleBit) = fun i => (r.trb i).cycleBit := by
  funext i
  by_cases here : i = r.enq
  · subst here
    rw [update_self, XhciTrb.cycleBit, same]
    rfl
  · rw [update_of_ne here]

lemma abs_write {pc : PushPc} {v : XhciTrb} (inside : s.ring.enq < size - 1)
    (same : v.control = (s.ring.trb s.ring.enq).control) (busy : s.pc.writing = true)
    (more : pc.writing = true) :
    CycleRing.Step (size - 1) limit (s.abs size) (.write v)
      (RingSys.abs size { s with
        ring := { s.ring with trb := update s.ring.trb s.ring.enq v }, pc := pc }) := by
  have step : CycleRing.Step (size - 1) limit (s.abs size) (.write v)
      { s.abs size with body := update (s.abs size).body s.ring.enq v } := .write busy v
  convert step using 1
  simp only [RingSys.abs, abs_bit_of_control same, more, busy, update_comm (Nat.ne_of_lt inside)]

lemma abs_publish {t : XhciTrb} {pc : PushPc} (inside : s.ring.enq < size - 1)
    (cycle : t.cycleBit = s.ring.cycle.getLsbD 0) (busy : s.pc.writing = true)
    (done : pc.writing = false) :
    CycleRing.Step (size - 1) limit (s.abs size) (.publish t)
      (RingSys.abs size { s with
        ring := { s.ring with trb := update s.ring.trb s.ring.enq t, enq := s.ring.enq + 1 }
        pc := pc
        pushed := s.pushed ++ [t] }) := by
  have bits : (fun i => (update s.ring.trb s.ring.enq t i).cycleBit) =
      update (s.abs size).bit s.ring.enq (s.ring.cycle.getLsbD 0) := by
    rw [← cycle]
    exact Function.comp_update XhciTrb.cycleBit s.ring.trb s.ring.enq t
  have step : CycleRing.Step (size - 1) limit (s.abs size) (.publish t) _ := .publish busy t
  convert step using 1
  simp only [RingSys.abs, done, update_comm (Nat.ne_of_lt inside)]
  simp only [bits, RingSys.abs]

lemma abs_wrap {link : XhciTrb} (atEnd : s.ring.enq = size - 1) (last : s.pc = .link)
    (cycle : link.cycleBit = s.ring.cycle.getLsbD 0) :
    CycleRing.Step (size - 1) limit (s.abs size) .wrap
      (RingSys.abs size { s with
        ring := ⟨update s.ring.trb (size - 1) link, 0, s.ring.cycle ^^^ 1⟩
        pc := .idle }) := by
  have bits : (fun i => (update s.ring.trb (size - 1) link i).cycleBit) =
      update (s.abs size).bit (size - 1) (s.ring.cycle.getLsbD 0) := by
    rw [← cycle]
    exact Function.comp_update XhciTrb.cycleBit s.ring.trb (size - 1) link
  have step : CycleRing.Step (size - 1) limit (s.abs size) .wrap _ := .wrap atEnd
  convert step using 1
  simp only [RingSys.abs, update_idem, toggle_getLsbD, last, PushPc.writing]
  simp only [bits, RingSys.abs]

lemma store_abs (positive : 0 < size - 1) (written : Written size s.ring s.pc)
    (busy : s.pc ≠ .idle) :
    Written size (s.next size .store).ring (s.next size .store).pc ∧
      ∃ e, CycleRing.Step (size - 1) limit (s.abs size) e ((s.next size .store).abs size) := by
  obtain ⟨ring, pc, deq, state, pushed, taken⟩ := s
  cases pc with
  | idle => exact absurd rfl busy
  | paramLo t =>
    obtain ⟨inside, cycle⟩ := written
    exact ⟨⟨inside, cycle, by simp [RingSys.next, store]⟩, _, abs_write inside rfl rfl rfl⟩
  | paramHi t =>
    obtain ⟨inside, cycle, lo⟩ := written
    refine ⟨⟨inside, cycle, ?_, ?_⟩, _, abs_write inside rfl rfl rfl⟩
    · simpa [RingSys.next, store] using lo
    · simp [RingSys.next, store]
  | status t =>
    obtain ⟨inside, cycle, lo, hi⟩ := written
    refine ⟨⟨inside, cycle, ?_, ?_, ?_⟩, _, abs_write inside rfl rfl rfl⟩
    · simpa [RingSys.next, store] using lo
    · simpa [RingSys.next, store] using hi
    · simp [RingSys.next, store]
  | control t =>
    obtain ⟨inside, cycle, lo, hi, status⟩ := written
    have whole : { ring.trb ring.enq with control := t.control } = t := XhciTrb.ext lo hi status rfl
    simp only [RingSys.next, store, whole]
    by_cases last : ring.enq + 1 ≥ size - 1
    · rw [if_pos last]
      have atEnd : ring.enq + 1 = size - 1 := Nat.le_antisymm inside last
      exact ⟨atEnd, _, abs_publish inside cycle rfl rfl⟩
    · rw [if_neg last]
      exact ⟨Nat.lt_of_not_le last, _, abs_publish inside cycle rfl rfl⟩
  | link => exact ⟨positive, _, abs_wrap written rfl setCycle_getLsbD⟩

lemma step_abs (positive : 0 < size - 1) (written : Written size s.ring s.pc)
    (step : RingStep size limit s e s') :
    Written size s'.ring s'.pc ∧
      ∃ e', CycleRing.Step (size - 1) limit (s.abs size) e' (s'.abs size) := by
  obtain ⟨allowed, rfl⟩ := step
  cases e with
  | push t =>
    obtain ⟨idle, room⟩ := allowed
    rw [idle] at written
    have begun : CycleRing.Step (size - 1) limit (s.abs size) .start
        { s.abs size with writing := true } :=
      .start (by rw [RingSys.abs, idle]; rfl) written room
    exact ⟨⟨written, setCycle_getLsbD⟩, _, begun⟩
  | store => exact store_abs positive written allowed
  | take =>
    obtain ⟨inside, owned⟩ := allowed
    have taken : CycleRing.Step (size - 1) limit (s.abs size) .take _ := .take inside owned
    refine ⟨written, .take, ?_⟩
    convert taken using 1
    simp [RingSys.abs, RingSys.next, update_of_ne (Nat.ne_of_lt inside)]
  | jump =>
    obtain ⟨atEnd, owned⟩ := allowed
    exact ⟨written, .jump, .jump atEnd owned⟩

lemma consumes_abs {r : CycleRing XhciTrb} {e' : CycleEvent XhciTrb}
    (step : CycleRing.Step (size - 1) limit (s.abs size) e' r) (consumes : CycleRing.Consumes e') :
    ∃ e s', RingStep size limit s e s' ∧ e.Consumes ∧ s'.abs size = r := by
  cases step with
  | start | write | publish | wrap => exact absurd consumes id
  | take inside owned =>
    refine ⟨.take, _, ⟨⟨inside, owned⟩, rfl⟩, trivial, ?_⟩
    have cell : (s.abs size).body s.deq = s.ring.trb s.deq := update_of_ne (Nat.ne_of_lt inside) _ _
    show _ = { s.abs size with taken := s.taken ++ [(s.abs size).body s.deq], deq := s.deq + 1 }
    rw [cell]
    rfl
  | jump atEnd owned => exact ⟨.jump, _, ⟨⟨atEnd, owned⟩, rfl⟩, trivial, rfl⟩

lemma consumes_run_abs {r r' : CycleRing XhciTrb}
    {trace : List (StepOf (CycleRing XhciTrb) (CycleEvent XhciTrb))}
    (run : Run (CycleRing.Step (size - 1) limit) r trace r')
    (consumes : ∀ st ∈ trace, CycleRing.Consumes st.event) (start : s.abs size = r) :
    ∃ more s', Run (RingStep size limit) s more s' ∧ (∀ st ∈ more, st.event.Consumes) ∧
      s'.abs size = r' := by
  induction run with
  | nil => exact ⟨[], s, .nil, by simp, start⟩
  | @snoc trace u v e' run step ih =>
    obtain ⟨more, s₁, run₁, consumes₁, rfl⟩ :=
      ih fun st member => consumes st (List.mem_append_left _ member)
    have last : CycleRing.Consumes e' :=
      consumes ⟨s₁.abs size, e', v⟩ (List.mem_append_right _ (List.mem_singleton_self _))
    obtain ⟨e, s₂, step₂, consumes₂, same⟩ := consumes_abs step last
    refine ⟨_, s₂, run₁.snoc step₂, ?_, same⟩
    intro st member
    rcases List.mem_append.mp member with early | late
    · exact consumes₁ st early
    · rw [List.mem_singleton] at late
      rw [late]
      exact consumes₂

lemma ringInit_empty (base : BitVec 64) :
    ((RingSys.start (ringInit size base)).abs size).Empty (size - 1) := by
  constructor
  case bits =>
    intro i small
    simp [RingSys.abs, RingSys.start, ringInit, update_of_ne (Nat.ne_of_lt small), XhciTrb.cycleBit]
  case link => simp [RingSys.abs, RingSys.start, ringInit, XhciTrb.cycleBit]
  case cycle => simp [RingSys.abs, RingSys.start, ringInit]
  all_goals rfl

lemma run_abs {trace : List (StepOf RingSys RingEvent)} {base : BitVec 64}
    (positive : 0 < size - 1) (fits : limit ≤ size - 1)
    (run : Run (RingStep size limit) (.start (ringInit size base)) trace s) :
    Written size s.ring s.pc ∧ ∃ lap seen, (s.abs size).Inv (size - 1) limit lap seen := by
  apply run.invariant fun s =>
    Written size s.ring s.pc ∧ ∃ lap seen, (s.abs size).Inv (size - 1) limit lap seen
  · exact ⟨positive, 0, 0, (ringInit_empty base).inv⟩
  · rintro a e b ⟨written, lap, seen, inv⟩ step
    obtain ⟨written', e', step'⟩ := step_abs positive written step
    exact ⟨written', inv.step positive fits step'⟩

structure Delivers (size : Nat) (ring : TrbRing) : Prop where
  /-- With at most `size - 1` TRBs not consumed, what is taken is the beginning of what is pushed. -/
  inOrder : ∀ trace s, Run (RingStep size (size - 1)) (.start ring) trace s → s.taken <+: s.pushed
  /-- With at most `size - 2` of them, the controller alone can then take all the rest. -/
  everything : ∀ trace s, Run (RingStep size (size - 2)) (.start ring) trace s →
    ∃ more s', Run (RingStep size (size - 2)) s more s' ∧ (∀ st ∈ more, st.event.Consumes) ∧
      s'.taken = s.pushed

lemma ringInit_delivers (large : 2 ≤ size - 1) (base : BitVec 64) :
    Delivers size (ringInit size base) where
  inOrder := by
    intro trace s run
    obtain ⟨-, lap, seen, inv⟩ := run_abs (by omega) (Nat.le_refl _) run
    exact inv.taken
  everything := by
    intro trace s run
    obtain ⟨-, lap, seen, inv⟩ := run_abs (by omega) (by omega) run
    obtain ⟨consumed, r, run', consumes, all, -⟩ := inv.drain (by omega) (by omega)
    obtain ⟨more, s', run'', consumes', rfl⟩ := consumes_run_abs run' consumes rfl
    exact ⟨more, s', run'', consumes', all⟩

/-- The command ring and every EP0 ring deliver. -/
theorem rings_deliver (base : BitVec 64) :
    Delivers cmdRingSize (cmdRingInit base) ∧ Delivers ep0RingSize (ep0RingAlloc base) :=
  ⟨ringInit_delivers (by decide) base, ringInit_delivers (by decide) base⟩

def pushes (n : Nat) : List RingEvent :=
  (List.replicate n [.push ⟨0, 0, 0, 0⟩, .store, .store, .store, .store]).flatten

/-- One lap, all of it taken, and another lap before the controller has followed the Link TRB. -/
def twoLaps : List RingEvent :=
  pushes 31 ++ [.store] ++ List.replicate 31 .take ++ pushes 31 ++ [.store]

/-- With `size - 1` TRBs not consumed the controller can be stuck at the Link TRB of an EP0 ring,
which has the cycle bit of the second lap by then. -/
theorem controller_stuck_at_link :
    ∃ trace s, Run (RingStep ep0RingSize (ep0RingSize - 1)) (.start (ep0RingAlloc 0x200000)) trace s ∧
      s.pc = .idle ∧ s.taken.length = 31 ∧ s.pushed.length = 62 ∧
      ∀ e, e ≠ .store → ¬ s.Allowed ep0RingSize (ep0RingSize - 1) e := by
  have runs : Executes (RingSys.Allowed ep0RingSize (ep0RingSize - 1)) (RingSys.next ep0RingSize)
      (.start (ep0RingAlloc 0x200000)) twoLaps := by
    decide +kernel
  refine ⟨_, _, runs.run fun _ _ allowed => ⟨allowed, rfl⟩, by decide +kernel, by decide +kernel,
    by decide +kernel, ?_⟩
  intro e store
  cases e with
  | push t =>
    intro allowed
    exact absurd allowed.2 (by decide +kernel)
  | store => exact absurd rfl store
  | take | jump => decide +kernel

end MicroOs.Drivers
