import MicroOs.Lib.Transition

/-!
# TRB rings of the xHCI driver (`drivers/xhci.c`)

The command ring and the EP0 ring of each slot: arrays of TRBs whose last one is a Link TRB back to
the beginning. Every store of a push to the ring is a step of its own, so that the controller may
look at the ring between any two of them.
-/

namespace MicroOs.Drivers
open Lib
open Function (update)

/-- `XhciTrb`. -/
@[ext] structure XhciTrb where
  paramLo : BitVec 32
  paramHi : BitVec 32
  status : BitVec 32
  control : BitVec 32
  deriving DecidableEq

/-- `TRB_LINK`. -/
def trbLink : BitVec 32 := 6

/-- `TRB_TYPE`. -/
def trbType (t : BitVec 32) : BitVec 32 := t <<< 10

/-- `CMD_RING_SIZE`. -/
def cmdRingSize : Nat := 64

/-- `EP0_RING_SIZE`. -/
def ep0RingSize : Nat := 32

/-- A ring with the driver's variables: `cmd_ring`, `cmd_enq` and `cmd_cycle`, or the fields `ep0_ring`,
`ep0_enq` and `ep0_cycle` of a slot. -/
structure TrbRing where
  trb : Nat → XhciTrb
  enq : Nat
  cycle : BitVec 32

/-- A ring of `size` zeroed TRBs at `base` with a Link TRB at its end. -/
def ringInit (size : Nat) (base : BitVec 64) : TrbRing where
  trb := update (fun _ => ⟨0, 0, 0, 0⟩) (size - 1)
    { paramLo := base.setWidth 32
      paramHi := (base >>> 32).setWidth 32
      status := 0
      control := trbType trbLink ||| (1 <<< 1) ||| 1 }
  enq := 0
  cycle := 1

/-- `cmd_ring_init` (`xhci.c:127-142`). -/
def cmdRingInit : BitVec 64 → TrbRing := ringInit cmdRingSize

/-- `ep0_ring_alloc` (`xhci.c:209-222`) with the start values of `ep0_enq` and `ep0_cycle`
(`xhci.c:301-304`). -/
def ep0RingAlloc : BitVec 64 → TrbRing := ringInit ep0RingSize

/-- `(control & ~1u) | cycle`. -/
def setCycle (control cycle : BitVec 32) : BitVec 32 := control &&& ~~~1 ||| cycle

lemma setCycle_getLsbD {control cycle : BitVec 32} :
    (setCycle control cycle).getLsbD 0 = cycle.getLsbD 0 := by
  simp [setCycle]

/-- A push to a ring of `size` TRBs. -/
def ringPush (size : Nat) (r : TrbRing) (trb : XhciTrb) : TrbRing :=
  let entry := { trb with control := setCycle trb.control r.cycle }
  let ring := update r.trb r.enq entry
  if r.enq + 1 ≥ size - 1 then
    let link := { ring (size - 1) with control := setCycle (ring (size - 1)).control r.cycle }
    { trb := update ring (size - 1) link, enq := 0, cycle := r.cycle ^^^ 1 }
  else { trb := ring, enq := r.enq + 1, cycle := r.cycle }

/-- `cmd_ring_push` (`xhci.c:144-161`). -/
def cmdRingPush : TrbRing → XhciTrb → TrbRing := ringPush cmdRingSize

/-- `ep0_push` (`xhci.c:224-241`). -/
def ep0Push : TrbRing → XhciTrb → TrbRing := ringPush ep0RingSize

/-- The next store of a push. -/
inductive PushPc where
  | idle
  | paramLo (trb : XhciTrb)
  | paramHi (trb : XhciTrb)
  | status (trb : XhciTrb)
  | control (trb : XhciTrb)
  | link
  deriving DecidableEq

/-- The call of a push: `trb->control` gets the cycle bit. -/
def startPush (r : TrbRing) (trb : XhciTrb) : PushPc :=
  .paramLo { trb with control := setCycle trb.control r.cycle }

/-- One store, and what is left to do after it. -/
def store (size : Nat) (r : TrbRing) : PushPc → TrbRing × PushPc
  | .idle => (r, .idle)
  | .paramLo t =>
    ({ r with trb := update r.trb r.enq { r.trb r.enq with paramLo := t.paramLo } },
      .paramHi t)
  | .paramHi t =>
    ({ r with trb := update r.trb r.enq { r.trb r.enq with paramHi := t.paramHi } },
      .status t)
  | .status t =>
    ({ r with trb := update r.trb r.enq { r.trb r.enq with status := t.status } },
      .control t)
  | .control t =>
    ({ r with
        trb := update r.trb r.enq { r.trb r.enq with control := t.control }
        enq := r.enq + 1 },
      if r.enq + 1 ≥ size - 1 then .link else .idle)
  | .link =>
    let link := { r.trb (size - 1) with control := setCycle (r.trb (size - 1)).control r.cycle }
    ({ trb := update r.trb (size - 1) link, enq := 0, cycle := r.cycle ^^^ 1 }, .idle)

/-- The cycle bit of a TRB. -/
def XhciTrb.cycleBit (t : XhciTrb) : Bool := t.control.getLsbD 0

/-- A ring, a push that may be going on, and the controller: the index it looks at and its cycle
state. -/
structure RingSys where
  ring : TrbRing
  pc : PushPc
  deq : Nat
  state : Bool
  pushed : List XhciTrb
  taken : List XhciTrb

inductive RingEvent where
  | push (trb : XhciTrb)
  | store
  | take
  | jump
  deriving DecidableEq

namespace RingSys

def start (ring : TrbRing) : RingSys := ⟨ring, .idle, 0, true, [], []⟩

/-- A push may begin if at most `limit` TRBs are then not consumed. The controller takes a TRB whose
cycle bit is its cycle state, and follows the Link TRB if its cycle bit is. -/
def Allowed (size limit : Nat) (s : RingSys) : RingEvent → Prop
  | .push _ => s.pc = .idle ∧ s.pushed.length < s.taken.length + limit
  | .store => s.pc ≠ .idle
  | .take => s.deq < size - 1 ∧ (s.ring.trb s.deq).cycleBit = s.state
  | .jump => s.deq = size - 1 ∧ (s.ring.trb (size - 1)).cycleBit = s.state

instance (size limit : Nat) (s : RingSys) (e : RingEvent) : Decidable (s.Allowed size limit e) :=
  match e with
  | .push _ => inferInstanceAs (Decidable (_ ∧ _))
  | .store => inferInstanceAs (Decidable (_ ≠ _))
  | .take => inferInstanceAs (Decidable (_ ∧ _))
  | .jump => inferInstanceAs (Decidable (_ ∧ _))

/-- A TRB has been pushed when its control word is there. -/
def next (size : Nat) (s : RingSys) : RingEvent → RingSys
  | .push t => { s with pc := startPush s.ring t }
  | .store =>
    { s with
      ring := (store size s.ring s.pc).1
      pc := (store size s.ring s.pc).2
      pushed := match s.pc with
        | .control t => s.pushed ++ [t]
        | _ => s.pushed }
  | .take => { s with taken := s.taken ++ [s.ring.trb s.deq], deq := s.deq + 1 }
  | .jump => { s with deq := 0, state := !s.state }

end RingSys

/-- One step of the driver or of the controller. -/
def RingStep (size limit : Nat) (s : RingSys) (e : RingEvent) (s' : RingSys) : Prop :=
  s.Allowed size limit e ∧ s' = s.next size e

/-- The controller's steps. -/
def RingEvent.Consumes : RingEvent → Prop
  | .take | .jump => True
  | _ => False

end MicroOs.Drivers
