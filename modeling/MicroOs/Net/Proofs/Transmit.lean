import MicroOs.Net.Proofs.Virtqueue

/-!
# Frames on their way out

`virtio_net_tx` takes the descriptor of its counter modulo the size of the queue and does not look
at the used ring. Position `k` of the available ring always holds descriptor `k`, so a frame stays in
its buffer until the counter comes round. Whether the device is done by then is up to the device.
-/

namespace MicroOs.Net
open Lib List
open Function (update update_of_ne update_self)

/-- The device has been given the `k`th published descriptor and has not returned it: it has
returned the descriptor no more often than it was published before. -/
def Link.Held (l : Link) (k : Nat) : Prop :=
  ∃ di, l.published[k]? = some di ∧
    l.returned.countP (fun elem => elem.id = di.setWidth 32) ≤ (l.published.take k).count di

/-- Descriptor `di` describes a buffer with the header and the bytes of `frame`. -/
structure Virtqueue.Carries (q : Virtqueue) (di : BitVec 16) (frame : List Byte) : Prop where
  desc : q.desc di.toNat =
    ⟨q.buffers di.toNat, 10#32 + BitVec.ofNat 32 frame.length, 0#16, 0#16⟩
  header : window (q.data di.toNat) 0 virtioNetHdrSize = replicate virtioNetHdrSize 0#8
  bytes : window (q.data di.toNat) virtioNetHdrSize frame.length = frame

section

variable {l : Link} {k : Nat}

lemma Link.Held.lt (held : l.Held k) : k < l.published.length := by
  obtain ⟨di, at_k, -⟩ := held
  exact (List.getElem?_eq_some_iff.mp at_k).1

lemma held_publish {vq : Virtqueue} {di : BitVec 16} (old : k < l.published.length) :
    (l.publish vq di).Held k ↔ l.Held k := by
  show (∃ w, (l.published ++ [di])[k]? = some w ∧ _ ≤ ((l.published ++ [di]).take k).count w) ↔ _
  rw [getElem?_append_left old, take_append_of_le_length (Nat.le_of_lt old)]
  exact Iff.rfl

lemma Link.Held.of_give {elem : VirtqUsedElem} {data : Nat → Byte}
    (held : (l.give elem data).Held k) : l.Held k := by
  obtain ⟨di, at_k, few⟩ := held
  refine ⟨di, at_k, Nat.le_trans ?_ few⟩
  show _ ≤ (l.returned ++ [elem]).countP _
  rw [countP_append]
  exact Nat.le_add_right _ _

end

namespace NetDev

/-- A step in which the device, when it returns a transmit descriptor, has left the buffer as it is
and returns one that it has read. -/
def TxStep (s : NetDev) (e : NetEvent) (t : NetDev) : Prop :=
  s.Step e t ∧ ∀ elem data, e = .giveTx elem data →
    data = s.tx.vq.data elem.id.toNat ∧
      s.tx.returned.countP (fun old => old.id = elem.id) <
        s.tx.taken.countP fun di => di.setWidth 32 = elem.id

/-- The frame of a call of `virtio_net_tx` that returns 0. -/
def sentBy (st : StepOf NetDev NetEvent) : Option (List Byte) :=
  match st.event with
  | .tx frame len alloc =>
    if st.pre.initialised ∧
        (st.pre.tx.vq.virtioNetTx st.pre.txNextDesc frame len alloc).isSome then
      some (window frame 0 len.toNat)
    else none
  | _ => none

def sentFrames (trace : List (StepOf NetDev NetEvent)) : List (List Byte) := trace.filterMap sentBy

/-- The device reads the descriptors as published, and behind every one that it holds it finds the
frame that was sent with it. -/
structure FramesIntact (s : NetDev) (frames : List (List Byte)) : Prop where
  length : frames.length = s.tx.published.length
  taken : s.tx.taken <+: s.tx.published
  carries : ∀ k di frame, s.tx.Held k → s.tx.published[k]? = some di → frames[k]? = some frame →
    s.tx.vq.Carries di frame

/-- The step changes no descriptor and no buffer that the device holds. -/
def Untouched (st : StepOf NetDev NetEvent) : Prop :=
  ∀ k di, st.pre.tx.Held k → st.pre.tx.published[k]? = some di →
    st.post.tx.vq.desc di.toNat = st.pre.tx.vq.desc di.toNat ∧
      st.post.tx.vq.data di.toNat = st.pre.tx.vq.data di.toNat

/-- If the step sends a frame, the device does not hold the descriptor whose turn it is. -/
def FreeSlot (st : StepOf NetDev NetEvent) : Prop :=
  (sentBy st).isSome → ∀ k, st.pre.tx.Held k →
    st.pre.tx.published[k]? ≠ some (st.pre.txNextDesc % st.pre.tx.vq.size)

lemma virtioNetTx_eq_some {q q' : Virtqueue} {next next' len : BitVec 16} {frame : Nat → Byte}
    {alloc : BitVec 64} (sent : q.virtioNetTx next frame len alloc = some (q', next')) :
    q'.Carries (next % q.size) (window frame 0 len.toNat) ∧
      ∀ i, i ≠ (next % q.size).toNat → q'.desc i = q.desc i ∧ q'.data i = q.data i ∧
        q'.buffers i = q.buffers i := by
  simp only [Virtqueue.virtioNetTx] at sent
  split at sent
  · cases sent
  obtain ⟨rfl, rfl⟩ := Prod.mk.inj (Option.some.inj sent)
  refine ⟨⟨?_, ?_, ?_⟩, ?_⟩
  · rw [length_window, BitVec.ofNat_toNat]
    show update q.desc _ _ _ = ⟨update q.buffers _ _ _, _, _, _⟩
    rw [update_self, update_self]
  · show window (update q.data _ _ _) 0 virtioNetHdrSize = _
    rw [update_self]
    apply ext_getElem?
    intro k
    rcases Nat.lt_or_ge k virtioNetHdrSize with inside | outside
    · rw [getElem?_window _ _ inside, getElem?_replicate_of_lt inside, copied,
        if_neg (by omega), copied, if_pos (by omega)]
    · rw [getElem?_window_of_ge _ _ outside, getElem?_eq_none (by simpa using outside)]
  · show window (update q.data _ _ _) virtioNetHdrSize _ = _
    rw [update_self, length_window]
    apply ext_getElem?
    intro k
    rcases Nat.lt_or_ge k len.toNat with inside | outside
    · rw [getElem?_window _ _ inside, getElem?_window _ _ inside, copied, if_pos (by omega)]
      congr 2
      omega
    · rw [getElem?_window_of_ge _ _ outside, getElem?_window_of_ge _ _ outside]
  · intro i other
    exact ⟨update_of_ne other _ _, update_of_ne other _ _, update_of_ne other _ _⟩

section

variable {s t : NetDev} {e : NetEvent}

/-- The step sends nothing, and leaves the device no more than it had. -/
structure Kept (l l' : Link) : Prop where
  published : l'.published = l.published
  desc : l'.vq.desc = l.vq.desc
  buffers : l'.vq.buffers = l.vq.buffers
  data : l'.vq.data = l.vq.data
  held : ∀ k, l'.Held k → l.Held k

lemma step_tx_cases (step : s.TxStep e t) :
    (∃ frame len alloc vq,
      s.tx.vq.virtioNetTx s.txNextDesc frame len alloc = some (vq, s.txNextDesc + 1#16) ∧
      sentBy ⟨s, e, t⟩ = some (window frame 0 len.toNat) ∧
      t.tx = s.tx.publish vq (s.txNextDesc % s.tx.vq.size)) ∨
    (sentBy ⟨s, e, t⟩ = none ∧ Kept s.tx t.tx) := by
  obtain ⟨step, honest⟩ := step
  cases step.moves with
  | sent frame len alloc vq on sent =>
    refine .inl ⟨frame, len, alloc, vq, sent, if_pos ⟨on, ?_⟩, rfl⟩
    rw [sent]
    rfl
  | unsent frame len alloc failed => exact .inr ⟨if_neg failed, rfl, rfl, rfl, rfl, fun _ => id⟩
  | giveTx elem data =>
    obtain ⟨rfl, -⟩ := honest elem data rfl
    exact .inr ⟨rfl, rfl, rfl, rfl, Function.update_eq_self _ _, fun _ => Link.Held.of_give⟩
  | _ => exact .inr ⟨rfl, rfl, rfl, rfl, rfl, fun _ => id⟩

lemma untouched_step (step : s.TxStep e t) (free : FreeSlot ⟨s, e, t⟩) : Untouched ⟨s, e, t⟩ := by
  intro k di held at_k
  show t.tx.vq.desc di.toNat = s.tx.vq.desc di.toNat ∧ t.tx.vq.data di.toNat = s.tx.vq.data di.toNat
  rcases step_tx_cases step with ⟨frame, len, alloc, vq, sent, sentBy, tx⟩ | ⟨-, kept⟩
  · have other : di ≠ s.txNextDesc % s.tx.vq.size := by
      intro same
      exact free (by rw [sentBy]; rfl) k held (by rw [← same]; exact at_k)
    obtain ⟨desc, data, -⟩ := (virtioNetTx_eq_some sent).2 _ (mt BitVec.eq_of_toNat_eq other)
    rw [tx]
    exact ⟨desc, data⟩
  · rw [kept.desc, kept.data]
    exact ⟨rfl, rfl⟩

lemma carries_step {frames : List (List Byte)} (intact : s.FramesIntact frames)
    (step : s.TxStep e t) (free : FreeSlot ⟨s, e, t⟩) :
    ∀ k di frame, t.tx.Held k → t.tx.published[k]? = some di →
      (frames ++ (sentBy ⟨s, e, t⟩).toList)[k]? = some frame → t.tx.vq.Carries di frame := by
  intro k di frame held at_k frame_k
  rcases step_tx_cases step with ⟨bytes, len, alloc, vq, sent, sentBy, tx⟩ | ⟨sentBy, kept⟩
  · obtain ⟨new, others⟩ := virtioNetTx_eq_some sent
    rw [sentBy] at frame_k
    rw [tx] at held at_k ⊢
    have at_k : (s.tx.published ++ [s.txNextDesc % s.tx.vq.size])[k]? = some di := at_k
    have frame_k : (frames ++ [window bytes 0 len.toNat])[k]? = some frame := frame_k
    have bound : k < (s.tx.published ++ [s.txNextDesc % s.tx.vq.size]).length := held.lt
    rw [length_append, length_singleton] at bound
    rcases Nat.lt_or_eq_of_le (Nat.le_of_lt_succ bound) with old | last
    · rw [getElem?_append_left old] at at_k
      rw [getElem?_append_left (by rw [intact.length]; exact old)] at frame_k
      have held := (held_publish old).mp held
      have carried := intact.carries k di frame held at_k frame_k
      have other : di ≠ s.txNextDesc % s.tx.vq.size := by
        intro same
        exact free (by rw [sentBy]; rfl) k held (by rw [← same]; exact at_k)
      obtain ⟨desc, data, buffers⟩ := others _ (mt BitVec.eq_of_toNat_eq other)
      show vq.Carries di frame
      exact ⟨by rw [desc, buffers]; exact carried.desc, by rw [data]; exact carried.header,
        by rw [data]; exact carried.bytes⟩
    · subst last
      rw [getElem?_concat_length, Option.some.injEq] at at_k
      rw [← intact.length, getElem?_concat_length, Option.some.injEq] at frame_k
      rw [← at_k, ← frame_k]
      exact new
  · rw [sentBy, Option.toList_none, append_nil] at frame_k
    rw [kept.published] at at_k
    have carried := intact.carries k di frame (kept.held k held) at_k frame_k
    exact ⟨by rw [kept.desc, kept.buffers]; exact carried.desc,
      by rw [kept.data]; exact carried.header, by rw [kept.data]; exact carried.bytes⟩

lemma framesIntact_step {frames : List (List Byte)} (log : TxLog s.tx s.txNextDesc)
    (intact : s.FramesIntact frames) (step : s.TxStep e t) (free : FreeSlot ⟨s, e, t⟩) :
    t.FramesIntact (frames ++ (sentBy ⟨s, e, t⟩).toList) := by
  refine ⟨?_, ?_, carries_step intact step free⟩
  · rcases step_tx_cases step with ⟨bytes, len, alloc, vq, -, sentBy, tx⟩ | ⟨sentBy, kept⟩
    · rw [sentBy, tx]
      show (frames ++ [_]).length = (s.tx.published ++ [_]).length
      rw [length_append, length_append, intact.length]
      rfl
    · rw [sentBy, kept.published, Option.toList_none, append_nil]
      exact intact.length
  · exact (txLog_step log step.1).agree

end

section

variable {rxSize txSize : BitVec 16} {trace : List (StepOf NetDev NetEvent)} {t : NetDev}

lemma txLog_of_run (small : txSize ≤ virtqMaxSize)
    (run : Run TxStep (init rxSize txSize) trace t) :
    TxLog t.tx t.txNextDesc := by
  induction run with
  | nil => exact txLog_init small
  | snoc _ step ih => exact txLog_step ih step.1

/-- If the queue has at most 128 entries and `virtio_net_tx` never comes round to a descriptor that
the device still holds, the device finds behind the `k`th published descriptor the `k`th frame for
as long as it holds it. -/
theorem tx_frames_intact (small : txSize ≤ virtqMaxSize)
    (run : Run TxStep (init rxSize txSize) trace t) (free : ∀ st ∈ trace, FreeSlot st) :
    t.FramesIntact (sentFrames trace) ∧ ∀ st ∈ trace, Untouched st := by
  constructor
  · induction run with
    | nil => exact ⟨rfl, prefix_rfl, fun k di frame held => absurd held.lt (Nat.not_lt_zero k)⟩
    | @snoc trace s t e run step ih =>
      have intact := ih fun st member => free st (mem_append_left _ member)
      have last := free _ (mem_append_right _ mem_cons_self)
      have frames : sentFrames (trace ++ [⟨s, e, t⟩]) =
          sentFrames trace ++ (sentBy ⟨s, e, t⟩).toList := by
        rw [sentFrames, filterMap_append, filterMap_cons]
        cases sentBy ⟨s, e, t⟩ <;> rfl
      rw [frames]
      exact framesIntact_step (txLog_of_run small run) intact step last
  · intro st member
    exact untouched_step (run.step_of_mem st member) (free st member)

end

/-- `rx_fill` gets no memory; then frames of one byte are sent. -/
def sends (bytes : List Byte) : List NetEvent :=
  .fill 0#64 :: bytes.map fun b => .tx (fun _ => b) 1#16 0x1000#64

def can (s : NetDev) (e : NetEvent) : Prop :=
  (s.after e).isSome = true ∧ ∀ elem data, e ≠ .giveTx elem data

def next (s : NetDev) (e : NetEvent) : NetDev := (s.after e).getD s

lemma txStep_of_can {s : NetDev} {e : NetEvent} (possible : s.can e) : s.TxStep e (s.next e) := by
  refine ⟨?_, fun elem data same => absurd same (possible.2 elem data)⟩
  obtain ⟨t, made⟩ := Option.isSome_iff_exists.mp possible.1
  rw [Step, next, made]
  rfl

theorem tx_frames_intact_two :
    ∃ trace t, Run TxStep (init 2#16 2#16) trace t ∧ sentFrames trace = [[1#8], [2#8]] ∧
      t.FramesIntact (sentFrames trace) := by
  have possible : Executes can next (init 2#16 2#16) (sends [1#8, 2#8]) :=
    ⟨⟨by decide, by simp⟩, ⟨by decide, by simp⟩, ⟨by decide, by simp⟩, trivial⟩
  have run := possible.run fun a e => txStep_of_can
  refine ⟨_, _, run, rfl, (tx_frames_intact (by decide) run ?_).1⟩
  intro st member
  simp only [sends, stepsFrom, map_cons, map_nil, mem_cons, not_mem_nil, or_false] at member
  rcases member with rfl | rfl | rfl
  · intro sent
    cases sent
  · intro _ k held
    exact absurd held.lt (Nat.not_lt_zero k)
  · intro _ k held
    obtain rfl : k = 0 := Nat.lt_one_iff.mp held.lt
    decide

/-- Three frames in a queue of two entries, before the device has done anything: it will find the
third frame where the first was published. -/
theorem third_frame_overwrites_first :
    ∃ trace t, Run TxStep (init 2#16 2#16) trace t ∧ sentFrames trace = [[1#8], [2#8], [3#8]] ∧
      ¬t.FramesIntact (sentFrames trace) := by
  have possible : Executes can next (init 2#16 2#16) (sends [1#8, 2#8, 3#8]) :=
    ⟨⟨by decide, by simp⟩, ⟨by decide, by simp⟩, ⟨by decide, by simp⟩, ⟨by decide, by simp⟩,
      trivial⟩
  refine ⟨_, _, possible.run fun a e => txStep_of_can, rfl, fun intact => ?_⟩
  have carried := intact.carries 0 0#16 [1#8] ⟨0#16, rfl, by decide⟩ rfl rfl
  exact absurd carried.bytes (by decide)

end NetDev

end MicroOs.Net
