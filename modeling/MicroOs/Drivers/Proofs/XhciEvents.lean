import MicroOs.Drivers.XhciEvents
import MicroOs.Lib.CycleRing

/-!
# Which event a call takes

The event ring is a queue: the driver polls the events in the order in which they were written. A
call tells the events of its own request from others by their type only, so it takes its own as long
as no event of an earlier request of the same kind is still to come.
-/

namespace MicroOs.Drivers
open Lib Lib.CycleRing List

variable {e : XhciEvent} {o : Origin} {s' t : XhciSys}

/-- The cycle bit of a lap, as the driver has it. -/
def lapWord (lap : Nat) : BitVec 32 := if lapBit lap then 1 else 0

lemma lapWord_xor (lap : Nat) : lapWord lap ^^^ 1 = lapWord (lap + 1) := by
  unfold lapWord
  rw [lapBit_succ]
  cases lapBit lap <;> decide

lemma and_one_eq_lapWord_iff (w : BitVec 32) (lap : Nat) :
    w &&& 1 = lapWord lap ↔ w.getLsbD 0 = lapBit lap := by
  have bit : w &&& 1 = (BitVec.ofBool (w.getLsbD 0)).setWidth 32 :=
    BitVec.and_one_eq_setWidth_ofBool_getLsbD
  rw [bit, lapWord]
  cases w.getLsbD 0 <;> cases lapBit lap <;> decide

lemma getLsbD_lapWord (lap : Nat) : (lapWord lap).getLsbD 0 = lapBit lap := by
  unfold lapWord
  cases lapBit lap <;> decide

lemma type_setCycle (t : XhciTrb) (lap : Nat) :
    ({ t with control := setCycle t.control (lapWord lap) } : XhciTrb).type = t.type := by
  have low : lapWord lap >>> 10 = 0#32 := by
    unfold lapWord
    cases lapBit lap <;> decide
  have mask : (~~~1#32) >>> 10 &&& 0x3F#32 = 0x3F#32 := by decide
  unfold XhciTrb.type setCycle
  simp only [BitVec.ofNat_eq_ofNat, BitVec.ushiftRight_or_distrib, BitVec.ushiftRight_and_distrib,
    low, BitVec.or_zero, BitVec.and_assoc, mask]

namespace XhciSys

variable {s : XhciSys}

/-- The ring is a queue of the events that have not been polled. -/
structure Queue (s : XhciSys) : Prop where
  deq : s.ring.deq = s.polled % evtRingSize
  cycle : s.ring.cycle = lapWord (s.polled / evtRingSize)
  enq : s.enq = s.produced.length % evtRingSize
  pcs : s.pcs = lapWord (s.produced.length / evtRingSize)
  bits : LapBits evtRingSize (fun i => (s.ring.trb i).cycleBit) s.produced.length
  cells : Holds s.ring.trb evtRingSize (s.produced.map Prod.snd) s.polled
  behind : s.polled ≤ s.produced.length
  room : s.produced.length ≤ s.polled + evtRingSize

lemma Queue.start : start.Queue where
  deq := rfl
  cycle := rfl
  enq := rfl
  pcs := rfl
  bits := lapBits_zero fun _ _ => by simp [XhciSys.start, evtRingInit, XhciTrb.cycleBit]
  cells := holds_nil _ _ _
  behind := Nat.le_refl _
  room := Nat.zero_le _

lemma Queue.pollPass (queue : s.Queue) :
    (s.polled = s.produced.length ∧ s.ring.pollPass = none) ∨
      ∃ o t ring, s.produced[s.polled]? = some (o, t) ∧ s.ring.pollPass = some (t, ring) ∧
        ring.trb = s.ring.trb ∧ ring.deq = (s.polled + 1) % evtRingSize ∧
        ring.cycle = lapWord ((s.polled + 1) / evtRingSize) := by
  have positive : 0 < evtRingSize := by decide
  have owned := queue.bits.owned_iff positive queue.behind queue.room
  have test : (s.ring.trb s.ring.deq).control &&& 1 = s.ring.cycle ↔
      s.polled < s.produced.length := by
    rw [queue.cycle, and_one_eq_lapWord_iff, queue.deq]
    exact owned
  unfold EvtRing.pollPass
  by_cases waiting : s.polled < s.produced.length
  · right
    obtain ⟨⟨o, t⟩, next⟩ : ∃ e, s.produced[s.polled]? = some e :=
      ⟨_, List.getElem?_eq_getElem waiting⟩
    have cell : s.ring.trb s.ring.deq = t := by
      rw [queue.deq]
      apply queue.cells s.polled t (Nat.le_refl _)
      rw [getElem?_map, next]
      rfl
    rw [cell] at test
    simp only [cell, if_pos (test.mpr waiting)]
    refine ⟨o, t, _, next, rfl, ?_⟩
    have lap := lap_succ positive s.polled
    rw [queue.deq, queue.cycle]
    rcases lap with ⟨inside, place, lap⟩ | ⟨full, place, lap⟩
    · rw [if_neg (by omega), place, lap]
      exact ⟨rfl, rfl, rfl⟩
    · rw [if_pos (by omega), place, lap, ← lapWord_xor]
      exact ⟨rfl, rfl, rfl⟩
  · left
    exact ⟨Nat.le_antisymm queue.behind (Nat.le_of_not_lt waiting), if_neg (fun hit =>
      waiting (test.mp hit))⟩

lemma Queue.produce (queue : s.Queue) (o : Origin) (t : XhciTrb)
    (room : s.produced.length < s.polled + evtRingSize) : (s.next (.produce o t)).Queue := by
  have positive : 0 < evtRingSize := by decide
  have lap := lap_succ positive s.produced.length
  have length : (s.next (.produce o t)).produced.length = s.produced.length + 1 := by
    simp [next]
  refine ⟨queue.deq, queue.cycle, ?_, ?_, ?_, ?_, ?_, ?_⟩
  · rw [length]
    simp only [next, queue.enq]
    rcases lap with ⟨inside, place, -⟩ | ⟨full, place, -⟩
    · rw [if_neg (by omega), place]
    · rw [if_pos (by omega), place]
  · rw [length]
    simp only [next, queue.enq, queue.pcs]
    rcases lap with ⟨inside, -, lap⟩ | ⟨full, -, lap⟩
    · rw [if_neg (by omega), lap]
    · rw [if_pos (by omega), lap, lapWord_xor]
  · rw [length]
    have bits := queue.bits.put positive
    have same : (fun i => ((s.next (.produce o t)).ring.trb i).cycleBit) =
        Function.update (fun i => (s.ring.trb i).cycleBit) (s.produced.length % evtRingSize)
          (lapBit (s.produced.length / evtRingSize)) := by
      funext i
      simp only [next, queue.enq]
      by_cases here : i = s.produced.length % evtRingSize
      · rw [here, Function.update_self, Function.update_self, XhciTrb.cycleBit,
          setCycle_getLsbD, queue.pcs, getLsbD_lapWord]
      · rw [Function.update_of_ne here, Function.update_of_ne here]
    rw [same]
    exact bits
  · have cells := queue.cells.put (by simpa using room)
      { t with control := setCycle t.control s.pcs }
    simpa [next, queue.enq] using cells
  · rw [length]
    exact Nat.le_succ_of_le queue.behind
  · rw [length]
    exact room

lemma Queue.step (queue : s.Queue) (step : XhciStep s e t) : t.Queue := by
  obtain ⟨allowed, rfl⟩ := step
  cases e with
  | cmdSend | getDescriptor _ | timeout => exact { queue with }
  | produce o t => exact queue.produce o t allowed.2.2.2
  | pass =>
    simp only [next]
    rcases queue.pollPass with ⟨-, none⟩ | ⟨o, t, ring, event, found, trb, deq, cycle⟩
    · rw [none]
      exact queue
    · rw [found]
      have waiting := (List.getElem?_eq_some_iff.mp event).1
      refine ⟨deq, cycle, queue.enq, queue.pcs, ?_, ?_, waiting, ?_⟩
      · simp only [trb]
        exact queue.bits
      · simp only [trb]
        exact queue.cells.mono (Nat.le_succ _)
      · exact Nat.le_trans queue.room (by simp only; omega)

/-- The `i`th event is about `o`. -/
def About (s : XhciSys) (i : Nat) (o : Origin) : Prop := (s.produced[i]?).map Prod.fst = some o

def Polled (s : XhciSys) (o : Origin) : Prop := ∃ i < s.polled, s.About i o

/-- Every request that has been pushed before is reported, and the report has been polled, when a call
begins. -/
def Settled (s : XhciSys) (e : XhciEvent) (_ : XhciSys) : Prop :=
  match e with
  | .cmdSend => ∀ m < s.commands, s.Polled (.command m)
  | .getDescriptor _ => ∀ m < s.transfers, s.Polled (.transfer m)
  | _ => True

instance (s : XhciSys) (i : Nat) (o : Origin) : Decidable (s.About i o) :=
  inferInstanceAs (Decidable (_ = _))

instance (s : XhciSys) (o : Origin) : Decidable (s.Polled o) :=
  inferInstanceAs (Decidable (∃ i < s.polled, _))

instance (s : XhciSys) (e : XhciEvent) (t : XhciSys) : Decidable (Settled s e t) :=
  match e with
  | .cmdSend => inferInstanceAs (Decidable (∀ m < s.commands, _))
  | .getDescriptor _ => inferInstanceAs (Decidable (∀ m < s.transfers, _))
  | .pass | .timeout | .produce _ _ => inferInstanceAs (Decidable True)

structure Reports (s : XhciSys) : Prop where
  fits : ∀ e ∈ s.produced, e.1.Fits e.2
  pushed : ∀ e ∈ s.produced, s.Pushed e.1
  once : ∀ i j o, o ≠ .other → s.About i o → s.About j o → i = j

/-- What the calls wait for: the last request, with all earlier ones reported. -/
structure Waits (s : XhciSys) : Prop where
  command : ∀ n k, s.pc = .cmdSend n k → n + 1 = s.commands ∧ ∀ m < n, s.Polled (.command m)
  transfer : ∀ n w, s.pc = .getDescriptor n w → n + 1 = s.transfers ∧ ∀ m < n, s.Polled (.transfer m)

lemma about_append {o' : Origin} {t : XhciTrb} {i : Nat}
    (more : s'.produced = s.produced ++ [(o', t)]) :
    s'.About i o ↔ s.About i o ∨ i = s.produced.length ∧ o = o' := by
  unfold About
  rw [more]
  rcases Nat.lt_trichotomy i s.produced.length with before | rfl | after
  · rw [getElem?_append_left before]
    simp [Nat.ne_of_lt before]
  · simp [eq_comm]
  · rw [getElem?_eq_none (by simp; omega), getElem?_eq_none (by omega)]
    simp [Nat.ne_of_gt after]

lemma Polled.mono (polled : s.Polled o) (produced : s.produced <+: s'.produced)
    (le : s.polled ≤ s'.polled) : s'.Polled o := by
  obtain ⟨i, inside, about⟩ := polled
  refine ⟨i, Nat.lt_of_lt_of_le inside le, ?_⟩
  unfold About at about ⊢
  obtain ⟨e, at_i, same⟩ := Option.map_eq_some_iff.mp about
  obtain ⟨rest, whole⟩ := produced
  rw [← whole, getElem?_append_left (List.getElem?_eq_some_iff.mp at_i).1]
  exact about

lemma next_produced (s : XhciSys) (e : XhciEvent) :
    s.produced <+: (s.next e).produced ∧ s.polled ≤ (s.next e).polled := by
  cases e with
  | produce o t => exact ⟨prefix_append _ _, Nat.le_refl _⟩
  | pass =>
    simp only [next]
    split
    · exact ⟨prefix_rfl, Nat.le_refl _⟩
    · exact ⟨prefix_rfl, Nat.le_succ _⟩
  | _ => exact ⟨prefix_rfl, Nat.le_refl _⟩

lemma next_same_log (quiet : ∀ o t, e ≠ .produce o t) :
    (s.next e).produced = s.produced ∧ s.commands ≤ (s.next e).commands ∧
      s.transfers ≤ (s.next e).transfers := by
  cases e with
  | produce o t => exact absurd rfl (quiet o t)
  | cmdSend => exact ⟨rfl, Nat.le_succ _, Nat.le_refl _⟩
  | getDescriptor w => exact ⟨rfl, Nat.le_refl _, Nat.le_succ _⟩
  | timeout => exact ⟨rfl, Nat.le_refl _, Nat.le_refl _⟩
  | pass =>
    simp only [next]
    split <;> exact ⟨rfl, Nat.le_refl _, Nat.le_refl _⟩

lemma Reports.quiet (reports : s.Reports) (quiet : ∀ o t, e ≠ .produce o t) :
    (s.next e).Reports := by
  obtain ⟨same, commands, transfers⟩ := next_same_log (s := s) quiet
  refine ⟨by rw [same]; exact reports.fits, ?_, ?_⟩
  · rw [same]
    intro event member
    have pushed := reports.pushed event member
    generalize event.1 = o at pushed
    cases o with
    | command n => exact Nat.lt_of_lt_of_le pushed commands
    | transfer n => exact Nat.lt_of_lt_of_le pushed transfers
    | other => trivial
  · unfold About
    rw [same]
    exact reports.once

lemma Reports.produce {t : XhciTrb} (reports : s.Reports) (queue : s.Queue)
    (allowed : s.Allowed (.produce o t)) : (s.next (.produce o t)).Reports := by
  obtain ⟨fits, pushed, fresh, -⟩ := allowed
  have more : (s.next (.produce o t)).produced =
      s.produced ++ [(o, { t with control := setCycle t.control s.pcs })] := rfl
  refine ⟨?_, ?_, ?_⟩
  · rw [more, forall_mem_append, forall_mem_singleton]
    refine ⟨reports.fits, ?_⟩
    have type := type_setCycle t (s.produced.length / evtRingSize)
    rw [← queue.pcs] at type
    cases o with
    | command _ | transfer _ => exact type.trans fits
    | other => exact ⟨fun same => fits.1 (type ▸ same), fun same => fits.2 (type ▸ same)⟩
  · rw [more, forall_mem_append, forall_mem_singleton]
    have same : ∀ o', (s.next (.produce o t)).Pushed o' ↔ s.Pushed o' := by
      intro o'
      cases o' <;> rfl
    exact ⟨fun e member => (same _).mpr (reports.pushed e member), (same _).mpr pushed⟩
  · intro i j o' real first second
    rw [about_append more] at first second
    have unseen : o' = o → ∀ i, ¬s.About i o' := by
      rintro rfl i about
      obtain ⟨e, at_i, same⟩ := Option.map_eq_some_iff.mp about
      exact fresh.resolve_left real e (mem_of_getElem? at_i) same
    rcases first with old | ⟨rfl, new⟩
    · rcases second with old' | ⟨rfl, new⟩
      · exact reports.once i j o' real old old'
      · exact absurd old (unseen new i)
    · rcases second with old' | ⟨rfl, -⟩
      · exact absurd old' (unseen new j)
      · rfl

lemma Reports.step (reports : s.Reports) (queue : s.Queue) (step : XhciStep s e t) : t.Reports := by
  obtain ⟨allowed, rfl⟩ := step
  cases e with
  | produce o t => exact reports.produce queue allowed
  | _ => exact reports.quiet nofun

lemma receive_pc {pc : CallPc} {t : XhciTrb} :
    (∀ n k, (pc.receive t).1 = .cmdSend n k → ∃ k', pc = .cmdSend n k') ∧
      ∀ n w, (pc.receive t).1 ≠ .getDescriptor n w := by
  cases pc with
  | idle => exact ⟨nofun, nofun⟩
  | cmdSend n attempts =>
    simp only [CallPc.receive]
    split
    · exact ⟨nofun, nofun⟩
    · split
      · refine ⟨fun n' k same => ?_, nofun⟩
        cases same
        exact ⟨attempts, rfl⟩
      · exact ⟨nofun, nofun⟩
  | getDescriptor n w =>
    simp only [CallPc.receive]
    split
    · exact ⟨nofun, nofun⟩
    · split <;> exact ⟨nofun, nofun⟩

lemma Waits.step (waits : s.Waits) (step : XhciStep s e t) (settled : Settled s e t) : t.Waits := by
  obtain ⟨allowed, rfl⟩ := step
  obtain ⟨produced, polled⟩ := next_produced s e
  have later : ∀ o, s.Polled o → (s.next e).Polled o := fun o done => done.mono produced polled
  cases e with
  | cmdSend =>
    refine ⟨fun n k here => ?_, nofun⟩
    cases here
    exact ⟨rfl, fun m small => later _ (settled m small)⟩
  | getDescriptor w =>
    refine ⟨nofun, fun n k here => ?_⟩
    cases here
    exact ⟨rfl, fun m small => later _ (settled m small)⟩
  | timeout => exact ⟨nofun, nofun⟩
  | produce o t =>
    refine ⟨fun n k here => ?_, fun n w here => ?_⟩
    · exact (waits.command n k here).imp_right fun all m small => later _ (all m small)
    · exact (waits.transfer n w here).imp_right fun all m small => later _ (all m small)
  | pass =>
    cases found : s.ring.pollPass with
    | none =>
      simp only [next, found]
      exact waits
    | some event =>
      obtain ⟨t, ring⟩ := event
      have pc : (s.next .pass).pc = (s.pc.receive t).1 ∧
          (s.next .pass).commands = s.commands := by
        simp [next, found]
      refine ⟨fun n k here => ?_, fun n w here => ?_⟩
      · rw [pc.1] at here
        obtain ⟨k', before⟩ := receive_pc.1 n k here
        rw [pc.2]
        exact (waits.command n k' before).imp_right fun all m small => later _ (all m small)
      · rw [pc.1] at here
        exact absurd here (receive_pc.2 n w)

/-- What a call returns, if not -1, is from the event about its own request. -/
def Own (st : StepOf XhciSys XhciEvent) : Prop :=
  ∀ v, st.pre.returns st.event = some v → v ≠ -1 →
    (∀ n k, st.pre.pc = .cmdSend n k →
      ∃ t, (.command n, t) ∈ st.pre.produced ∧ v = t.code) ∧
    ∀ n w, st.pre.pc = .getDescriptor n w →
      ∃ t, (.transfer n, t) ∈ st.pre.produced ∧ v = (w : Int) - t.residual

lemma own_event {t : XhciTrb} (reports : s.Reports) (waits : s.Waits)
    (next : s.produced[s.polled]? = some (o, t)) :
    (∀ n k, s.pc = .cmdSend n k → t.type = trbCmdComplete → o = .command n) ∧
      ∀ n w, s.pc = .getDescriptor n w → t.type = trbXferEvent → o = .transfer n := by
  have member := mem_of_getElem? next
  have fits := reports.fits _ member
  have pushed := reports.pushed _ member
  have about : s.About s.polled o := by
    unfold About
    rw [next]
    rfl
  have unpolled : o ≠ .other → ¬s.Polled o := by
    rintro real ⟨i, before, seen⟩
    exact Nat.ne_of_lt before (reports.once i s.polled o real seen about)
  constructor
  · intro n k here type
    obtain ⟨last, earlier⟩ := waits.command n k here
    cases o with
    | command m =>
      rcases Nat.lt_or_eq_of_le (Nat.le_of_lt_succ (last ▸ pushed : m < n + 1)) with less | rfl
      · exact absurd (earlier m less) (unpolled nofun)
      · rfl
    | transfer m => exact absurd (fits.symm.trans type) (by decide)
    | other => exact absurd type fits.1
  · intro n w here type
    obtain ⟨last, earlier⟩ := waits.transfer n w here
    cases o with
    | command m => exact absurd (fits.symm.trans type) (by decide)
    | transfer m =>
      rcases Nat.lt_or_eq_of_le (Nat.le_of_lt_succ (last ▸ pushed : m < n + 1)) with less | rfl
      · exact absurd (earlier m less) (unpolled nofun)
      · rfl
    | other => exact absurd type fits.2

lemma own_step (queue : s.Queue) (reports : s.Reports) (waits : s.Waits) : Own ⟨s, e, s'⟩ := by
  intro v returned real
  cases e with
  | timeout => exact absurd (Option.some.inj returned).symm real
  | pass =>
    simp only [returns] at returned
    rcases queue.pollPass with ⟨-, none⟩ | ⟨o, t, ring, event, found, -⟩
    · rw [none] at returned
      cases returned
    · rw [found] at returned
      simp only at returned
      have member := mem_of_getElem? event
      obtain ⟨command, transfer⟩ := own_event reports waits event
      constructor
      · intro n k here
        simp only at here
        rw [here, CallPc.receive] at returned
        split at returned
        case isTrue type =>
          refine ⟨t, command n k here type ▸ member, (Option.some.inj returned).symm⟩
        case isFalse =>
          split at returned
          · cases returned
          · exact absurd (Option.some.inj returned).symm real
      · intro n w here
        simp only at here
        rw [here, CallPc.receive] at returned
        split at returned
        case isTrue => exact absurd (Option.some.inj returned).symm real
        case isFalse type =>
          split at returned
          · exact absurd (Option.some.inj returned).symm real
          · exact ⟨t, transfer n w here (not_not.mp type) ▸ member, (Option.some.inj returned).symm⟩
  | _ => cases returned

def Sound (s : XhciSys) : Prop := s.Queue ∧ s.Reports ∧ s.Waits

lemma Sound.start : start.Sound :=
  ⟨.start, ⟨nofun, nofun, nofun⟩, ⟨nofun, nofun⟩⟩

lemma Sound.step (sound : s.Sound) (step : XhciStep s e t) (settled : Settled s e t) : t.Sound :=
  ⟨sound.1.step step, sound.2.1.step sound.1 step, sound.2.2.step step settled⟩

end XhciSys

/-- When each call begins after the reports of all earlier requests of its kind have been polled,
what a call returns is from the event about its own request. -/
theorem calls_take_own_events {trace : List (StepOf XhciSys XhciEvent)} {t : XhciSys}
    (run : Run XhciStep XhciSys.start trace t)
    (settled : ∀ st ∈ trace, XhciSys.Settled st.pre st.event st.post) :
    ∀ st ∈ trace, XhciSys.Own st := by
  intro st member
  obtain ⟨before, after, rfl⟩ := append_of_mem member
  have sound : st.pre.Sound :=
    run.before.invariant_of .start (fun _ _ _ sound step settled => sound.step step settled)
      fun st member => settled st (mem_append_left _ member)
  exact XhciSys.own_step sound.1 sound.2.1 sound.2.2

def completionEvent (code : BitVec 32) : XhciTrb := ⟨0, 0, code <<< 24, trbType trbCmdComplete⟩

/-- A command that is completed while it is waited for, after a change of a port. -/
def promptCommand : List XhciEvent :=
  [.cmdSend, .produce .other ⟨0, 0, 0, trbType 34⟩, .pass, .produce (.command 0) (completionEvent 1), .pass]

/-- A command whose completion comes after the timeout, while the next command is waited for. -/
def lateCompletion : List XhciEvent :=
  [.cmdSend, .timeout, .cmdSend, .produce (.command 0) (completionEvent 5), .pass]

lemma run_of_events {events : List XhciEvent}
    (executes : Executes XhciSys.Allowed XhciSys.next .start events) :
    Run XhciStep .start (stepsFrom XhciSys.next .start events)
      (events.foldl XhciSys.next .start) :=
  executes.run fun _ _ allowed => ⟨allowed, rfl⟩

theorem calls_take_own_events_prompt :
    (∀ st ∈ stepsFrom XhciSys.next .start promptCommand,
      XhciSys.Settled st.pre st.event st.post) ∧
    (∃ st ∈ stepsFrom XhciSys.next .start promptCommand, st.pre.returns st.event = some 1) ∧
    ∀ st ∈ stepsFrom XhciSys.next .start promptCommand, XhciSys.Own st := by
  have settled : ∀ st ∈ stepsFrom XhciSys.next .start promptCommand,
      XhciSys.Settled st.pre st.event st.post := by decide +kernel
  exact ⟨settled, by decide +kernel,
    calls_take_own_events (run_of_events (by decide +kernel)) settled⟩

/-- The second call returns the code of the first command, and nothing has been reported about its
own. -/
theorem late_completion_taken :
    Run XhciStep .start (stepsFrom XhciSys.next .start lateCompletion)
        (lateCompletion.foldl XhciSys.next .start) ∧
      ∃ st ∈ stepsFrom XhciSys.next .start lateCompletion,
        st.pre.pc = .cmdSend 1 0 ∧ st.pre.returns st.event = some 5 ∧
          ∀ e ∈ st.pre.produced, e.1 ≠ .command 1 :=
  ⟨run_of_events (by decide +kernel), by decide +kernel⟩

end MicroOs.Drivers
