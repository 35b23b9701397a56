import MicroOs.Net.VirtioNet

/-!
# Agreement of driver and device

The driver indexes the rings modulo its own size, at most 128, the device modulo the size that it
reports. If these are equal, a ring position is written again only after the other side has read it.
-/

namespace MicroOs.Net
open Lib List
open Function (update update_of_ne update_self)
open BitVec (ofNat toNat_ofNat)

variable {alloc : BitVec 64} {e : NetEvent} {q q' : Virtqueue} {rxSize size txSize : BitVec 16}
  {s t : NetDev}

lemma Virtqueue.bufferFor_ne_zero (q : Virtqueue) (di : Nat) : q.bufferFor di 1#64 ≠ 0#64 := by
  unfold Virtqueue.bufferFor
  split
  · decide
  · assumption

structure Publishes (q q' : Virtqueue) (di : BitVec 16) : Prop where
  availRing : q'.availRing = update q.availRing (q.availIdx % q.size).toNat di
  availIdx : q'.availIdx = q.availIdx + 1#16
  usedRing : q'.usedRing = q.usedRing
  usedIdx : q'.usedIdx = q.usedIdx
  size : q'.size = q.size

lemma rxFillTurn_publishes {i : BitVec 16} (turn : q.rxFillTurn i alloc = some q') :
    Publishes q q' i ∧ q'.lastUsed = q.lastUsed := by
  simp only [Virtqueue.rxFillTurn] at turn
  split at turn
  · cases turn
  · obtain rfl := Option.some.inj turn
    exact ⟨⟨rfl, rfl, rfl, rfl, rfl⟩, rfl⟩

lemma virtioNetTx_publishes {next next' len : BitVec 16} {frame : Nat → Byte}
    (sent : q.virtioNetTx next frame len alloc = some (q', next')) :
    Publishes q q' (next % q.size) ∧ next' = next + 1#16 := by
  simp only [Virtqueue.virtioNetTx] at sent
  split at sent
  · cases sent
  · obtain ⟨rfl, rfl⟩ := Prod.mk.inj (Option.some.inj sent)
    exact ⟨⟨rfl, rfl, rfl, rfl, rfl⟩, rfl⟩

lemma requeue_publishes (q : Virtqueue) (di : BitVec 32) :
    Publishes q (q.requeue di) (di.setWidth 16) ∧ (q.requeue di).lastUsed = q.lastUsed + 1#16 :=
  ⟨⟨rfl, rfl, rfl, rfl, rfl⟩, rfl⟩

lemma lt_of_ofNat_ne {k n : Nat} (le : k ≤ n) (ne : ofNat 16 k ≠ ofNat 16 n) : k < n := by
  rcases Nat.lt_or_eq_of_le le with less | rfl
  · exact less
  · exact absurd rfl ne

/-- Driver and device use one size, their indices of the available ring count what has passed, and
what the device has read is what was published first. -/
structure AvailOk (l : Link) : Prop where
  same : l.devSize = l.vq.size
  availIdx : l.vq.availIdx = ofNat 16 l.published.length
  devAvail : l.devAvail = ofNat 16 l.taken.length
  taken : l.taken = l.published.take l.taken.length

namespace AvailOk

variable {l : Link} {vq : Virtqueue} {di : BitVec 16}

lemma taken_le (ok : AvailOk l) : l.taken.length ≤ l.published.length := by
  rw [ok.taken]
  exact length_take_le' _ _

lemma agree (ok : AvailOk l) : l.taken <+: l.published := by
  rw [ok.taken]
  exact take_prefix _ _

lemma publish (ok : AvailOk l) (publishes : Publishes l.vq vq di) :
    AvailOk (l.publish vq di) where
  same := ok.same.trans publishes.size.symm
  availIdx := by
    show vq.availIdx = ofNat 16 (l.published ++ [di]).length
    rw [publishes.availIdx, ok.availIdx, ofNat_succ, length_append, length_singleton]
  devAvail := ok.devAvail
  taken := by
    show l.taken = (l.published ++ [di]).take l.taken.length
    rw [take_append_of_le_length ok.taken_le]
    exact ok.taken

lemma take (ok : AvailOk l) (ready : l.devAvail ≠ l.vq.availIdx)
    (read : ∀ di, l.published[l.taken.length]? = some di →
      l.vq.availRing (l.devAvail % l.devSize).toNat = di) : AvailOk l.take := by
  rw [ok.devAvail, ok.availIdx] at ready
  have unread : l.taken.length < l.published.length := lt_of_ofNat_ne ok.taken_le ready
  refine ⟨ok.same, ok.availIdx, ?_, ?_⟩
  · show l.devAvail + 1#16 = ofNat 16 (l.taken ++ [_]).length
    rw [ok.devAvail, ofNat_succ, length_append, length_singleton]
  · show l.taken ++ [l.vq.availRing (l.devAvail % l.devSize).toNat] =
      l.published.take (l.taken ++ [l.vq.availRing (l.devAvail % l.devSize).toNat]).length
    rw [length_append, length_singleton, read _ (List.getElem?_eq_getElem unread),
      take_succ_eq_append_getElem unread, ← ok.taken]

end AvailOk

/-- `done` counts the used elements that have been dealt with. Each of them was followed by at most
one publication, so there are never more than the filled descriptors between the two sides. -/
structure RxOk (l : Link) (filled : BitVec 16) (polls : List (BitVec 32)) (done : Nat) : Prop
    extends AvailOk l where
  divides : l.vq.size.toNat ∣ 2 ^ 16
  usedIdx : l.vq.usedIdx = ofNat 16 l.returned.length
  returned_le : l.returned.length ≤ l.taken.length
  avail : Holds l.vq.availRing l.vq.size.toNat l.published l.taken.length
  used : Holds l.vq.usedRing l.vq.size.toNat l.returned done
  lastUsed : l.vq.lastUsed = ofNat 16 done
  seen : l.seen = l.returned.take (done + polls.length)
  seen_le : done + polls.length ≤ l.returned.length
  single : polls.length ≤ 1
  published_le : l.published.length ≤ filled.toNat + done
  filled_le : filled ≤ l.vq.size

namespace RxOk

variable {l : Link} {filled : BitVec 16} {polls : List (BitVec 32)} {done : Nat} {vq : Virtqueue}
  {di : BitVec 16}

lemma publish (ok : RxOk l filled polls done) {filled' : BitVec 16} {polls' : List (BitVec 32)}
    {done' : Nat} (publishes : Publishes l.vq vq di)
    (lastUsed : vq.lastUsed = ofNat 16 done') (later : done ≤ done')
    (same : done' + polls'.length = done + polls.length) (single : polls'.length ≤ 1)
    (counted : l.published.length < filled'.toNat + done') (filled_le : filled' ≤ l.vq.size) :
    RxOk (l.publish vq di) filled' polls' done' := by
  have returned := ok.returned_le
  have seen := ok.seen_le
  have bound : filled'.toNat ≤ l.vq.size.toNat := filled_le
  have room : l.published.length < l.taken.length + l.vq.size.toNat := by omega
  refine ⟨ok.toAvailOk.publish publishes, ?_, publishes.usedIdx.trans ok.usedIdx, ok.returned_le, ?_,
    ?_, lastUsed, ?_, ?_, single, ?_, ?_⟩
  · show vq.size.toNat ∣ 2 ^ 16
    rw [publishes.size]
    exact ok.divides
  · show Holds vq.availRing vq.size.toNat (l.published ++ [di]) l.taken.length
    rw [publishes.size, publishes.availRing, ok.availIdx, ofNat_mod_toNat ok.divides]
    exact ok.avail.put room di
  · show Holds vq.usedRing vq.size.toNat l.returned done'
    rw [publishes.usedRing, publishes.size]
    exact ok.used.mono later
  · rw [same]
    exact ok.seen
  · rw [same]
    exact ok.seen_le
  · show (l.published ++ [di]).length ≤ _
    rw [length_append]
    exact counted
  · show filled' ≤ vq.size
    rw [publishes.size]
    exact filled_le

lemma fill (ok : RxOk l filled polls done) (less : filled < l.vq.size)
    (publishes : Publishes l.vq vq di) (lastUsed : vq.lastUsed = l.vq.lastUsed) :
    RxOk (l.publish vq di) (filled + 1#16) polls done := by
  have bound : filled.toNat < l.vq.size.toNat := less
  have next : (filled + 1#16).toNat = filled.toNat + 1 := by
    have := l.vq.size.isLt
    rw [BitVec.toNat_add, toNat_ofNat]
    omega
  refine ok.publish publishes (lastUsed.trans ok.lastUsed) (Nat.le_refl _) rfl ok.single ?_ ?_
  · have published := ok.published_le
    omega
  · rw [BitVec.le_def, next]
    exact bound

lemma requeue {id : BitVec 32} (ok : RxOk l filled [id] done) (publishes : Publishes l.vq vq di)
    (lastUsed : vq.lastUsed = l.vq.lastUsed + 1#16) :
    RxOk (l.publish vq di) filled [] (done + 1) := by
  refine ok.publish publishes ?_ (Nat.le_succ _) rfl (Nat.zero_le _)
    (Nat.lt_succ_of_le ok.published_le) ok.filled_le
  rw [lastUsed, ok.lastUsed, ofNat_succ]

section
variable (ok : RxOk l filled [] done) (ready : l.vq.lastUsed ≠ l.vq.usedIdx)
include ok ready

lemma read :
    l.seen ++ [l.vq.usedElem] = l.returned.take (done + 1) ∧ done + 1 ≤ l.returned.length := by
  rw [ok.lastUsed, ok.usedIdx] at ready
  have unread : done < l.returned.length := lt_of_ofNat_ne ok.seen_le ready
  refine ⟨?_, unread⟩
  rw [Virtqueue.usedElem, ok.lastUsed, ofNat_mod_toNat ok.divides,
    ← ok.used.read (Nat.le_refl _) unread]
  exact congrArg (· ++ _) ok.seen

lemma callback (id : BitVec 32) :
    RxOk { l with seen := l.seen ++ [l.vq.usedElem] } filled [id] done := by
  obtain ⟨seen, le⟩ := ok.read ready
  exact ⟨⟨ok.same, ok.availIdx, ok.devAvail, ok.taken⟩, ok.divides, ok.usedIdx, ok.returned_le,
    ok.avail, ok.used, ok.lastUsed, seen, le, Nat.le_refl _, ok.published_le, ok.filled_le⟩

lemma skip :
    RxOk { l with seen := l.seen ++ [l.vq.usedElem], vq := l.vq.advance } filled [] (done + 1) := by
  obtain ⟨seen, le⟩ := ok.read ready
  refine ⟨⟨ok.same, ok.availIdx, ok.devAvail, ok.taken⟩, ok.divides, ok.usedIdx, ok.returned_le,
    ok.avail, ok.used.mono (Nat.le_succ _), ?_, seen, le, Nat.zero_le _,
    Nat.le_succ_of_le ok.published_le, ok.filled_le⟩
  show l.vq.lastUsed + 1#16 = _
  rw [ok.lastUsed, ofNat_succ]

end

lemma take (ok : RxOk l filled polls done) (ready : l.devAvail ≠ l.vq.availIdx) :
    RxOk l.take filled polls done := by
  have later : l.taken.length ≤ l.take.taken.length := by
    show l.taken.length ≤ (l.taken ++ [_]).length
    rw [length_append]
    exact Nat.le_add_right _ _
  refine ⟨ok.toAvailOk.take ready fun di at_k => ?_, ok.divides, ok.usedIdx,
    Nat.le_trans ok.returned_le later, ok.avail.mono later, ok.used, ok.lastUsed, ok.seen,
    ok.seen_le, ok.single, ok.published_le, ok.filled_le⟩
  rw [ok.devAvail, ok.same, ofNat_mod_toNat ok.divides]
  exact ok.avail _ di (Nat.le_refl _) at_k

lemma give (ok : RxOk l filled polls done) (elem : VirtqUsedElem) (data : Nat → Byte)
    (owned : l.returned.length < l.taken.length) : RxOk (l.give elem data) filled polls done := by
  have taken := ok.taken_le
  have published := ok.published_le
  have bound : filled.toNat ≤ l.vq.size.toNat := ok.filled_le
  have longer : (l.returned ++ [elem]).length = l.returned.length + 1 := length_append
  refine ⟨⟨ok.same, ok.availIdx, ok.devAvail, ok.taken⟩, ok.divides, ?_, ?_, ok.avail, ?_,
    ok.lastUsed, ?_, ?_, ok.single, ok.published_le, ok.filled_le⟩
  · show l.vq.usedIdx + 1#16 = ofNat 16 (l.returned ++ [elem]).length
    rw [ok.usedIdx, ofNat_succ, longer]
  · exact longer.trans_le owned
  · show Holds (update l.vq.usedRing (l.vq.usedIdx % l.devSize).toNat elem)
      l.vq.size.toNat (l.returned ++ [elem]) done
    rw [ok.usedIdx, ok.same, ofNat_mod_toNat ok.divides]
    exact ok.used.put (by omega) elem
  · show l.seen = (l.returned ++ [elem]).take (done + polls.length)
    rw [take_append_of_le_length ok.seen_le]
    exact ok.seen
  · exact Nat.le_trans ok.seen_le (longer ▸ Nat.le_succ _)

end RxOk

/-- Position `p` of the available ring holds descriptor `p` once it has been written. -/
structure TxLog (l : Link) (next : BitVec 16) : Prop extends AvailOk l where
  next : next = ofNat 16 l.published.length
  published : ∀ k di, l.published[k]? = some di →
    di = ofNat 16 k % l.vq.size ∧ l.vq.availRing di.toNat = di

namespace TxLog

variable {l : Link} {next : BitVec 16} {vq : Virtqueue}

lemma publish (log : TxLog l next) (publishes : Publishes l.vq vq (next % l.vq.size)) :
    TxLog (l.publish vq (next % l.vq.size)) (next + 1#16) := by
  refine ⟨log.toAvailOk.publish publishes, ?_, fun k di at_k => ?_⟩
  · show next + 1#16 = ofNat 16 (l.published ++ [_]).length
    rw [length_append, length_singleton, log.next, ofNat_succ]
  · show di = ofNat 16 k % vq.size ∧ vq.availRing di.toNat = di
    rw [publishes.size, publishes.availRing, log.availIdx, ← log.next]
    rcases getElem?_concat_cases at_k with old | ⟨rfl, rfl⟩
    · obtain ⟨value, holds⟩ := log.published k di old
      refine ⟨value, ?_⟩
      by_cases here : di = next % l.vq.size
      · rw [here, update_self]
      · rw [update_of_ne (mt BitVec.eq_of_toNat_eq here), holds]
    · exact ⟨by rw [← log.next], update_self _ _ _⟩

lemma take (log : TxLog l next) (ready : l.devAvail ≠ l.vq.availIdx) : TxLog l.take next := by
  refine ⟨log.toAvailOk.take ready fun di at_k => ?_, log.next, log.published⟩
  obtain ⟨value, holds⟩ := log.published _ di at_k
  rw [log.devAvail, log.same, ← value]
  exact holds

lemma give (log : TxLog l next) (elem : VirtqUsedElem) (data : Nat → Byte) :
    TxLog (l.give elem data) next :=
  ⟨⟨log.same, log.availIdx, log.devAvail, log.taken⟩, log.next, log.published⟩

end TxLog

namespace NetDev

inductive Moves (s : NetDev) : NetEvent → NetDev → Prop where
  | noMemory (alloc : BitVec 64) : Moves s (.fill alloc) { s with initialised := true }
  | fill (alloc : BitVec 64) (vq : Virtqueue) (less : s.fillNext < s.rx.vq.size)
      (turn : s.rx.vq.rxFillTurn s.fillNext alloc = some vq) : Moves s (.fill alloc)
        { s with rx := s.rx.publish vq s.fillNext, fillNext := s.fillNext + 1#16 }
  | filled : Moves s .filled { s with initialised := true }
  | skip (ready : s.rx.vq.lastUsed ≠ s.rx.vq.usedIdx) : Moves s .pollRead { s with
      rx := { s.rx with seen := s.rx.seen ++ [s.rx.vq.usedElem], vq := s.rx.vq.advance } }
  | callback (ready : s.rx.vq.lastUsed ≠ s.rx.vq.usedIdx) : Moves s .pollRead { s with
      rx := { s.rx with seen := s.rx.seen ++ [s.rx.vq.usedElem] }
      polls := s.rx.vq.usedElem.id :: s.polls }
  | requeue (di : BitVec 32) (polls : List (BitVec 32)) (running : s.polls = di :: polls) :
      Moves s .pollRequeue
        { s with rx := s.rx.publish (s.rx.vq.requeue di) (di.setWidth 16), polls }
  | unsent (frame : Nat → Byte) (len : BitVec 16) (alloc : BitVec 64)
      (failed : ¬(s.initialised = true ∧
        (s.tx.vq.virtioNetTx s.txNextDesc frame len alloc).isSome = true)) :
      Moves s (.tx frame len alloc) s
  | sent (frame : Nat → Byte) (len : BitVec 16) (alloc : BitVec 64) (vq : Virtqueue)
      (on : s.initialised = true) (sent : s.tx.vq.virtioNetTx s.txNextDesc frame len alloc =
        some (vq, s.txNextDesc + 1#16)) : Moves s (.tx frame len alloc) { s with
          tx := s.tx.publish vq (s.txNextDesc % s.tx.vq.size), txNextDesc := s.txNextDesc + 1#16 }
  | takeRx (ready : s.rx.devAvail ≠ s.rx.vq.availIdx) : Moves s .takeRx { s with rx := s.rx.take }
  | takeTx (ready : s.tx.devAvail ≠ s.tx.vq.availIdx) : Moves s .takeTx { s with tx := s.tx.take }
  | giveRx (elem : VirtqUsedElem) (data : Nat → Byte)
      (owned : s.rx.returned.length < s.rx.taken.length) :
      Moves s (.giveRx elem data) { s with rx := s.rx.give elem data }
  | giveTx (elem : VirtqUsedElem) (data : Nat → Byte) :
      Moves s (.giveTx elem data) { s with tx := s.tx.give elem data }

lemma Step.moves (step : s.Step e t) : Moves s e t := by
  unfold Step at step
  cases e with
  | tx frame len alloc =>
    simp only [after] at step
    split at step
    · next off =>
      cases step
      refine .unsent frame len alloc fun ⟨on, _⟩ => ?_
      rw [on] at off
      cases off
    · next on =>
      cases sent : s.tx.vq.virtioNetTx s.txNextDesc frame len alloc with
      | none =>
        rw [sent] at step
        cases step
        refine .unsent frame len alloc fun ⟨_, worked⟩ => ?_
        rw [sent] at worked
        cases worked
      | some result =>
        obtain ⟨vq, next⟩ := result
        obtain rfl := (virtioNetTx_publishes sent).2
        rw [sent] at step
        cases step
        exact .sent frame len alloc vq (by simpa using on) sent
  | fill alloc =>
    simp only [after] at step
    split at step
    · cases step
    · next more =>
      split at step
      · cases step
        exact .noMemory alloc
      · next vq turn =>
        cases step
        exact .fill alloc vq (BitVec.not_le.mp (not_or.mp more).2) turn
  | pollRead =>
    simp only [after] at step
    split at step
    · cases step
    · next more =>
      split at step <;> cases step
      · exact .skip (not_or.mp more).2
      · exact .callback (not_or.mp more).2
  | filled | pollRequeue | takeRx | takeTx | giveRx _ _ | giveTx _ _ =>
    simp only [after] at step
    split at step <;> cases step
    constructor <;> assumption

/-- Driver and device agree: what the device has read was published in this order, and what the
driver has read was written in this order. -/
def Agree (s : NetDev) : Prop :=
  s.rx.taken <+: s.rx.published ∧ s.tx.taken <+: s.tx.published ∧ s.rx.seen <+: s.rx.returned

/-- A step in which `virtio_net_rx_poll` is not called from its own callback. -/
def StepApart (s : NetDev) (e : NetEvent) (t : NetDev) : Prop :=
  s.Step e t ∧ (e = .pollRead → s.polls = [])

structure Inv (s : NetDev) : Prop where
  rx : ∃ done, RxOk s.rx s.fillNext s.polls done
  tx : TxLog s.tx s.txNextDesc

lemma Inv.agree (inv : Inv s) : s.Agree := by
  obtain ⟨done, rx⟩ := inv.rx
  refine ⟨rx.agree, inv.tx.agree, ?_⟩
  rw [rx.seen]
  exact take_prefix _ _

lemma txLog_step (log : TxLog s.tx s.txNextDesc) (step : s.Step e t) : TxLog t.tx t.txNextDesc := by
  cases step.moves with
  | sent frame len alloc vq _ sent => exact log.publish (virtioNetTx_publishes sent).1
  | takeTx ready => exact log.take ready
  | giveTx elem data => exact log.give elem data
  | _ => exact log

lemma Inv.step (inv : Inv s) (step : s.StepApart e t) : Inv t := by
  obtain ⟨stepped, apart⟩ := step
  obtain ⟨⟨done, rx⟩, tx⟩ := inv
  refine ⟨?_, txLog_step tx stepped⟩
  cases stepped.moves with
  | fill alloc vq less turn =>
    obtain ⟨publishes, lastUsed⟩ := rxFillTurn_publishes turn
    exact ⟨done, rx.fill less publishes lastUsed⟩
  | skip ready =>
    rw [apart rfl] at rx
    exact ⟨done + 1, apart rfl ▸ rx.skip ready⟩
  | callback ready =>
    rw [apart rfl] at rx
    exact ⟨done, apart rfl ▸ rx.callback ready _⟩
  | requeue id polls running =>
    have single := rx.single
    rw [running, length_cons] at single
    obtain rfl : polls = [] := eq_nil_of_length_eq_zero (by omega)
    rw [running] at rx
    obtain ⟨publishes, lastUsed⟩ := requeue_publishes s.rx.vq id
    exact ⟨done + 1, rx.requeue publishes lastUsed⟩
  | takeRx ready => exact ⟨done, rx.take ready⟩
  | giveRx elem data owned => exact ⟨done, rx.give elem data owned⟩
  | _ => exact ⟨done, rx⟩

def IsPowerOfTwo (size : BitVec 16) : Prop := ∃ k, size.toNat = 2 ^ k

lemma cappedSize_of_le (small : size ≤ virtqMaxSize) : cappedSize size = size :=
  if_neg (BitVec.not_lt.mpr small)

lemma IsPowerOfTwo.divides (power : IsPowerOfTwo size) : size.toNat ∣ 2 ^ 16 := by
  obtain ⟨k, pow⟩ := power
  rw [pow]
  apply Nat.pow_dvd_pow
  have bound := size.isLt
  rw [pow] at bound
  exact Nat.le_of_lt ((Nat.pow_lt_pow_iff_right (by decide)).mp bound)

lemma availOk_init (small : size ≤ virtqMaxSize) : AvailOk (Link.init size) :=
  ⟨(cappedSize_of_le small).symm, rfl, rfl, rfl⟩

lemma txLog_init (small : txSize ≤ virtqMaxSize) :
    TxLog (init rxSize txSize).tx (init rxSize txSize).txNextDesc :=
  ⟨availOk_init small, rfl, fun k di none => absurd none (by simp [init, Link.init])⟩

lemma inv_init (power : IsPowerOfTwo rxSize) (rx_small : rxSize ≤ virtqMaxSize)
    (tx_small : txSize ≤ virtqMaxSize) : Inv (init rxSize txSize) := by
  have divides : (cappedSize rxSize).toNat ∣ 2 ^ 16 := by
    rw [cappedSize_of_le rx_small]
    exact power.divides
  exact ⟨⟨0, availOk_init rx_small, divides, rfl, Nat.le_refl _, holds_nil _ _ _, holds_nil _ _ _,
    rfl, rfl, Nat.le_refl _, Nat.zero_le _, Nat.le_refl _, Nat.zero_le _⟩, txLog_init tx_small⟩

lemma inv_of_reachable (power : IsPowerOfTwo rxSize) (rx_small : rxSize ≤ virtqMaxSize)
    (tx_small : txSize ≤ virtqMaxSize) (reachable : Reachable (Booted rxSize txSize) StepApart t) :
    Inv t := by
  apply reachable.invariant Inv
  · rintro s rfl
    exact inv_init power rx_small tx_small
  · intro s e t inv step
    exact inv.step step

lemma two_fifty_six_le (power : IsPowerOfTwo size) (large : virtqMaxSize < size) :
    256 ≤ size.toNat := by
  obtain ⟨k, pow⟩ := power
  have more : 128 < size.toNat := large
  rw [pow] at more ⊢
  have exponent : 7 < k := (Nat.pow_lt_pow_iff_right (by decide)).mp (show 2 ^ 7 < 2 ^ k from more)
  exact Nat.pow_le_pow_right (show 0 < 2 by decide) exponent

lemma ofNat_mod_128 (k : Nat) : (ofNat 16 k % 128#16).toNat = k % 128 :=
  ofNat_mod_toNat (by decide) k

lemma cappedSize_of_lt (large : virtqMaxSize < size) :
    cappedSize size = 128#16 := if_pos large

lemma last_eq_of_isPrefix {α : Type} {xs ys : List α} {a b : α} (length : xs.length = ys.length)
    (isPrefix : xs ++ [a] <+: ys ++ [b]) : a = b := by
  have same := isPrefix.eq_of_length (by simp [length])
  exact singleton_inj.mp (append_inj_right same length)

section

variable {rxSize txSize : BitVec 16} {s : NetDev} {n : Nat}

/-- `n` descriptors have been published and taken. -/
structure LinkRun (devSize : BitVec 16) (n : Nat) (l : Link) : Prop where
  size : l.vq.size = 128#16
  devSize : l.devSize = devSize
  availIdx : l.vq.availIdx = ofNat 16 n
  devAvail : l.devAvail = ofNat 16 n
  unused : ∀ j, 128 ≤ j → l.vq.availRing j = 0#16
  published : l.published.length = n
  taken : l.taken.length = n

section

variable {l : Link} {devSize di : BitVec 16} {vq : Virtqueue}

lemma LinkRun.init (large : virtqMaxSize < devSize) : LinkRun devSize 0 (Link.init devSize) :=
  ⟨cappedSize_of_lt large, rfl, rfl, rfl, fun _ _ => rfl, rfl, rfl⟩

section
variable (run : LinkRun devSize n l)
include run

lemma LinkRun.ready (few : n < 130) (publishes : Publishes l.vq vq di) :
    l.devAvail ≠ vq.availIdx := by
  rw [publishes.availIdx, run.availIdx, run.devAvail, ofNat_succ]
  intro same
  have values := congrArg BitVec.toNat same
  simp only [toNat_ofNat] at values
  omega

lemma LinkRun.cell (publishes : Publishes l.vq vq di) {j : Nat} (beyond : 128 ≤ j) :
    vq.availRing j = 0#16 := by
  have other : j ≠ (l.vq.availIdx % l.vq.size).toNat := by
    rw [run.availIdx, run.size, ofNat_mod_128]
    omega
  rw [publishes.availRing, update_of_ne other, run.unused j beyond]

lemma LinkRun.index (few : n < 130) (large : 256 ≤ devSize.toNat) :
    (l.devAvail % l.devSize).toNat = n := by
  rw [run.devAvail, run.devSize, BitVec.toNat_umod, toNat_ofNat,
    Nat.mod_eq_of_lt (show n < 2 ^ 16 by omega), Nat.mod_eq_of_lt (by omega)]

lemma LinkRun.next (publishes : Publishes l.vq vq di) :
    LinkRun devSize (n + 1) (l.publish vq di).take := by
  refine ⟨publishes.size.trans run.size, run.devSize, ?_, ?_, fun j => run.cell publishes, ?_, ?_⟩
  · exact publishes.availIdx.trans (by rw [run.availIdx, ofNat_succ])
  · show l.devAvail + 1#16 = _
    rw [run.devAvail, ofNat_succ]
  · show (l.published ++ [di]).length = _
    rw [length_append, run.published]
    rfl
  · show (l.taken ++ [_]).length = _
    rw [length_append, run.taken]
    rfl

end

end

structure TxRun (txSize : BitVec 16) (n : Nat) (s : NetDev) : Prop where
  initialised : s.initialised = true
  link : LinkRun txSize n s.tx
  next : s.txNextDesc = ofNat 16 n

lemma virtioNetTx_isSome (q : Virtqueue) (next : BitVec 16) :
    ∃ q' next', q.virtioNetTx next (fun _ => 0#8) 0#16 1#64 = some (q', next') := by
  have buffer : q.bufferFor (next % q.size).toNat 1#64 ≠ 0#64 := q.bufferFor_ne_zero _
  have fits : ¬(1518#16 < 0#16 ∨ q.bufferFor (next % q.size).toNat 1#64 = 0#64) :=
    not_or.mpr ⟨by decide, buffer⟩
  simp only [Virtqueue.virtioNetTx]
  rw [if_neg fits]
  exact ⟨_, _, rfl⟩

lemma TxRun.sendTake (run : TxRun txSize n s) (few : n < 130) (large : 256 ≤ txSize.toNat)
    (reachable : Reachable (Booted rxSize txSize) StepApart s) :
    ∃ t, Reachable (Booted rxSize txSize) StepApart t ∧ TxRun txSize (n + 1) t ∧
      t.tx.published = s.tx.published ++ [ofNat 16 (n % 128)] ∧
      (128 ≤ n → t.tx.taken = s.tx.taken ++ [0#16]) := by
  obtain ⟨vq, next, sent⟩ := virtioNetTx_isSome s.tx.vq s.txNextDesc
  obtain ⟨publishes, rfl⟩ := virtioNetTx_publishes sent
  have sending : s.StepApart (.tx (fun _ => 0#8) 0#16 1#64)
      { s with tx := s.tx.publish vq (s.txNextDesc % s.tx.vq.size)
               txNextDesc := s.txNextDesc + 1#16 } := by
    refine ⟨?_, by simp⟩
    simp [Step, after, run.initialised, sent]
  have taking : NetDev.StepApart
      { s with tx := s.tx.publish vq (s.txNextDesc % s.tx.vq.size)
               txNextDesc := s.txNextDesc + 1#16 } .takeTx
      { s with tx := (s.tx.publish vq (s.txNextDesc % s.tx.vq.size)).take
               txNextDesc := s.txNextDesc + 1#16 } :=
    ⟨if_neg (run.link.ready few publishes), by simp⟩
  refine ⟨_, (reachable.next sending).next taking, ⟨run.initialised, run.link.next publishes, ?_⟩, ?_, fun beyond => ?_⟩
  · show s.txNextDesc + 1#16 = _
    rw [run.next, ofNat_succ]
  · show s.tx.published ++ [s.txNextDesc % s.tx.vq.size] = _
    have cell : s.txNextDesc % s.tx.vq.size = ofNat 16 (n % 128) := by
      rw [run.next, run.link.size]
      apply BitVec.eq_of_toNat_eq
      rw [ofNat_mod_128, toNat_ofNat]
      omega
    rw [cell]
  · show s.tx.taken ++ [vq.availRing (s.tx.devAvail % s.tx.devSize).toNat] = _
    rw [run.link.index few large, run.link.cell publishes beyond]

lemma exists_txRun (large : virtqMaxSize < txSize) (power : IsPowerOfTwo txSize) (few : n ≤ 130) :
    ∃ s, Reachable (Booted rxSize txSize) StepApart s ∧ TxRun txSize n s := by
  induction n with
  | zero =>
    -- `rx_fill` gets no memory, or has nothing to fill
    have run : TxRun txSize 0 { init rxSize txSize with initialised := true } :=
      ⟨rfl, .init large, rfl⟩
    have start : Reachable (Booted rxSize txSize) StepApart (init rxSize txSize) := .start rfl
    refine ⟨_, ?_, run⟩
    by_cases empty : cappedSize rxSize ≤ 0#16
    · have step : (init rxSize txSize).StepApart .filled
          { init rxSize txSize with initialised := true } := by
        refine ⟨?_, by simp⟩
        show (if false = true ∨ 0#16 < cappedSize rxSize then none else some _) = some _
        rw [if_neg (by simpa using empty)]
      exact start.next step
    · have step : (init rxSize txSize).StepApart (.fill 0#64)
          { init rxSize txSize with initialised := true } := by
        refine ⟨?_, by simp⟩
        show (if false = true ∨ cappedSize rxSize ≤ 0#16 then none else some _) = some _
        rw [if_neg (by simpa using empty)]
      exact start.next step
  | succ n ih =>
    obtain ⟨s, reachable, run⟩ := ih (by omega)
    obtain ⟨t, reached, next, -, -⟩ :=
      run.sendTake (by omega) (two_fifty_six_le power large) reachable
    exact ⟨t, reached, next⟩

lemma disagree_tx (large : virtqMaxSize < txSize) (power : IsPowerOfTwo txSize) :
    ∃ t, Reachable (Booted rxSize txSize) StepApart t ∧ ¬t.Agree := by
  obtain ⟨s, reachable, run⟩ : ∃ s, Reachable (Booted rxSize txSize) StepApart s ∧
      TxRun txSize 129 s := exists_txRun large power (by decide)
  obtain ⟨t, reached, -, published, taken⟩ :=
    run.sendTake (by decide) (two_fifty_six_le power large) reachable
  refine ⟨t, reached, fun agree => ?_⟩
  have isPrefix := agree.2.1
  rw [published, taken (by decide)] at isPrefix
  exact absurd (last_eq_of_isPrefix (run.link.taken.trans run.link.published.symm) isPrefix)
    (by decide)

/-- `rx_fill` has made `n` turns, and the device has taken each descriptor at once. -/
structure RxRun (rxSize : BitVec 16) (n : Nat) (s : NetDev) : Prop where
  initialised : s.initialised = false
  fillNext : s.fillNext = ofNat 16 n
  link : LinkRun rxSize n s.rx
  usedIdx : s.rx.vq.usedIdx = 0#16
  lastUsed : s.rx.vq.lastUsed = 0#16
  returned : s.rx.returned = []
  polls : s.polls = []

lemma rxFillTurn_isSome (q : Virtqueue) (i : BitVec 16) : ∃ q', q.rxFillTurn i 1#64 = some q' := by
  simp only [Virtqueue.rxFillTurn]
  rw [if_neg (q.bufferFor_ne_zero _)]
  exact ⟨_, rfl⟩

lemma exists_rxRun (large : virtqMaxSize < rxSize) (few : n ≤ 128) :
    ∃ s, Reachable (Booted rxSize txSize) StepApart s ∧ RxRun rxSize n s := by
  induction n with
  | zero =>
    exact ⟨init rxSize txSize, .start rfl, rfl, rfl, .init large, rfl, rfl, rfl, rfl⟩
  | succ n ih =>
    obtain ⟨s, reachable, run⟩ := ih (by omega)
    obtain ⟨vq, turn⟩ := rxFillTurn_isSome s.rx.vq s.fillNext
    obtain ⟨publishes, lastUsed⟩ := rxFillTurn_publishes turn
    have more : ¬s.rx.vq.size ≤ s.fillNext := by
      rw [run.link.size, run.fillNext, BitVec.le_def, toNat_ofNat, toNat_ofNat]
      omega
    have filling : s.StepApart (.fill 1#64)
        { s with rx := s.rx.publish vq s.fillNext, fillNext := s.fillNext + 1#16 } := by
      refine ⟨?_, by simp⟩
      simp only [Step, after]
      rw [if_neg (by simp [run.initialised, more]), turn]
    have taking : NetDev.StepApart
        { s with rx := s.rx.publish vq s.fillNext, fillNext := s.fillNext + 1#16 } .takeRx
        { s with rx := (s.rx.publish vq s.fillNext).take, fillNext := s.fillNext + 1#16 } :=
      ⟨if_neg (run.link.ready (by omega) publishes), by simp⟩
    refine ⟨_, (reachable.next filling).next taking, run.initialised, ?_, run.link.next publishes,
      publishes.usedIdx.trans run.usedIdx, lastUsed.trans run.lastUsed, run.returned, run.polls⟩
    show s.fillNext + 1#16 = _
    rw [run.fillNext, ofNat_succ]

lemma disagree_rx (large : virtqMaxSize < rxSize) (power : IsPowerOfTwo rxSize) :
    ∃ t, Reachable (Booted rxSize txSize) StepApart t ∧ ¬t.Agree := by
  obtain ⟨s, reachable, run⟩ : ∃ s, Reachable (Booted rxSize txSize) StepApart s ∧
      RxRun rxSize 128 s := exists_rxRun large (Nat.le_refl _)
  have filling : s.StepApart .filled { s with initialised := true } := by
    refine ⟨?_, by simp⟩
    simp [Step, after, run.initialised, run.fillNext, run.link.size]
  let rx := s.rx.give ⟨5#32, 0#32⟩ (fun _ => 0#8)
  have giving : NetDev.StepApart { s with initialised := true }
      (.giveRx ⟨5#32, 0#32⟩ fun _ => 0#8) { s with initialised := true, rx } := by
    refine ⟨if_pos ?_, by simp⟩
    rw [run.returned, run.link.taken]
    decide
  have elem : rx.vq.usedElem = ⟨5#32, 0#32⟩ := by
    show update s.rx.vq.usedRing (s.rx.vq.usedIdx % s.rx.devSize).toNat _
      (s.rx.vq.lastUsed % s.rx.vq.size).toNat = _
    rw [run.usedIdx, run.lastUsed, BitVec.zero_umod, BitVec.zero_umod]
    exact update_self _ _ _
  let seen : Link := { rx with seen := rx.seen ++ [⟨5#32, 0#32⟩] }
  have reading : NetDev.StepApart { s with initialised := true, rx } .pollRead
      { s with initialised := true, rx := seen, polls := [5#32] } := by
    refine ⟨?_, fun _ => run.polls⟩
    have ready : ¬((!true) = true ∨ rx.vq.lastUsed = rx.vq.usedIdx) := by
      show ¬((!true) = true ∨ s.rx.vq.lastUsed = s.rx.vq.usedIdx + 1#16)
      rw [run.usedIdx, run.lastUsed]
      decide
    have known : ¬rx.vq.size.setWidth 32 ≤ rx.vq.usedElem.id := by
      rw [elem, show rx.vq.size = 128#16 from run.link.size]
      decide
    simp only [Step, after]
    rw [if_neg ready, if_neg known, run.polls, elem]
  have given : LinkRun rxSize 128 seen :=
    ⟨run.link.size, run.link.devSize, run.link.availIdx, run.link.devAvail, run.link.unused,
      run.link.published, run.link.taken⟩
  let back := seen.publish (seen.vq.requeue 5#32) 5#16
  have requeueing : NetDev.StepApart { s with initialised := true, rx := seen, polls := [5#32] }
      .pollRequeue { s with initialised := true, rx := back, polls := [] } :=
    ⟨rfl, by simp⟩
  have taking : NetDev.StepApart { s with initialised := true, rx := back, polls := [] } .takeRx
      { s with initialised := true, rx := back.take, polls := [] } := by
    refine ⟨if_neg ?_, by simp⟩
    exact given.ready (by decide) (requeue_publishes seen.vq 5#32).1
  refine ⟨_, ((((reachable.next filling).next giving).next reading).next requeueing).next taking,
    fun agree => ?_⟩
  have isPrefix : s.rx.taken ++ [back.vq.availRing (s.rx.devAvail % s.rx.devSize).toNat] <+:
      s.rx.published ++ [5#16] := agree.1
  have cell : back.vq.availRing 128 = 0#16 :=
    given.cell (requeue_publishes seen.vq 5#32).1 (Nat.le_refl _)
  rw [run.link.index (by decide) (two_fifty_six_le power large), cell] at isPrefix
  exact absurd (last_eq_of_isPrefix (run.link.taken.trans run.link.published.symm) isPrefix)
    (by decide)

/-- For queue sizes that are powers of two, driver and device agree in every state of every run in
which `virtio_net_rx_poll` does not call itself, exactly if neither queue is larger than 128. -/
theorem rings_agree_iff (rx_power : IsPowerOfTwo rxSize) (tx_power : IsPowerOfTwo txSize) :
    (∀ t, Reachable (Booted rxSize txSize) StepApart t → t.Agree) ↔
      rxSize ≤ virtqMaxSize ∧ txSize ≤ virtqMaxSize := by
  constructor
  · intro agree
    constructor
    · by_contra large
      obtain ⟨t, reached, disagree⟩ : ∃ t, Reachable (Booted rxSize txSize) StepApart t ∧
          ¬t.Agree := disagree_rx (BitVec.not_le.mp large) rx_power
      exact disagree (agree t reached)
    · by_contra large
      obtain ⟨t, reached, disagree⟩ : ∃ t, Reachable (Booted rxSize txSize) StepApart t ∧
          ¬t.Agree := disagree_tx (BitVec.not_le.mp large) tx_power
      exact disagree (agree t reached)
  · intro small t reached
    exact (inv_of_reachable rx_power small.1 small.2 reached).agree

end

theorem rings_agree_iff_64 :
    IsPowerOfTwo 64#16 ∧ IsPowerOfTwo 128#16 ∧
      ∀ t, Reachable (Booted 64#16 128#16) StepApart t → t.Agree :=
  ⟨⟨6, rfl⟩, ⟨7, rfl⟩, (rings_agree_iff ⟨6, rfl⟩ ⟨7, rfl⟩).mpr ⟨by decide, by decide⟩⟩

theorem rings_of_256_disagree : ∃ t, Reachable (Booted 256#16 256#16) StepApart t ∧ ¬t.Agree :=
  disagree_tx (by decide) ⟨8, rfl⟩

end NetDev

end MicroOs.Net
