import MicroOs.Drivers.Xhci

/-!
# Events of the xHCI driver (`drivers/xhci.c`)

The controller writes events into the event ring; `cmd_send` and `get_descriptor` poll them. Commands
and transfers are numbered in the order in which they are pushed, and each event is recorded with its
request; the driver sees only the TRB. The rings that carry the requests are in `Xhci`.
-/

namespace MicroOs.Drivers
open Lib

/-- `EVT_RING_SIZE`. -/
def evtRingSize : Nat := 64

/-- `TRB_XFER_EVENT`. -/
def trbXferEvent : BitVec 32 := 32

/-- `TRB_CMD_COMPLETE`. -/
def trbCmdComplete : BitVec 32 := 33

namespace XhciTrb

/-- `(evt->control >> 10) & 0x3F`. -/
def type (t : XhciTrb) : BitVec 32 := t.control >>> 10 &&& 0x3F

/-- `(evt->status >> 24) & 0xFF`. -/
def code (t : XhciTrb) : Nat := (t.status >>> 24 &&& 0xFF).toNat

/-- `evt->status & 0xFFFFFF`. -/
def residual (t : XhciTrb) : Nat := (t.status &&& 0xFFFFFF).toNat

end XhciTrb

/-- `evt_ring`, `evt_deq` and `evt_cycle`. -/
structure EvtRing where
  trb : Nat → XhciTrb
  deq : Nat
  cycle : BitVec 32

/-- `evt_ring_init` (`xhci.c:169-182`). -/
def evtRingInit : EvtRing := ⟨fun _ => ⟨0, 0, 0, 0⟩, 0, 1⟩

/-- One pass of the loop of `evt_ring_poll` (`xhci.c:188-203`). -/
def EvtRing.pollPass (r : EvtRing) : Option (XhciTrb × EvtRing) :=
  let trb := r.trb r.deq
  if trb.control &&& 1 = r.cycle then
    some (trb,
      if r.deq + 1 ≥ evtRingSize then { r with deq := 0, cycle := r.cycle ^^^ 1 }
      else { r with deq := r.deq + 1 })
  else none

/-- The call that is going on, with the number of its request: `cmd_send` after some attempts, or
`get_descriptor`. -/
inductive CallPc where
  | idle
  | cmdSend (n attempts : Nat)
  | getDescriptor (n wLength : Nat)
  deriving DecidableEq

/-- What a call does with an event: the value it returns, or another attempt
(`xhci.c:252-264` and `393-407`). -/
def CallPc.receive (t : XhciTrb) : CallPc → CallPc × Option Int
  | .idle => (.idle, none)
  | .cmdSend n attempts =>
    if t.type = trbCmdComplete then (.idle, some t.code)
    else if attempts + 1 < 5 then (.cmdSend n (attempts + 1), none)
    else (.idle, some (-1))
  | .getDescriptor _ wLength =>
    if t.type ≠ trbXferEvent then (.idle, some (-1))
    else if t.code ≠ 1 ∧ t.code ≠ 13 then (.idle, some (-1))
    else (.idle, some ((wLength : Int) - t.residual))

/-- What an event is about. -/
inductive Origin where
  | command (n : Nat)
  | transfer (n : Nat)
  | other
  deriving DecidableEq

/-- The type of an event says what kind of thing it is about. -/
def Origin.Fits (t : XhciTrb) : Origin → Prop
  | .command _ => t.type = trbCmdComplete
  | .transfer _ => t.type = trbXferEvent
  | .other => t.type ≠ trbCmdComplete ∧ t.type ≠ trbXferEvent

instance (t : XhciTrb) (o : Origin) : Decidable (o.Fits t) :=
  match o with
  | .command _ => inferInstanceAs (Decidable (_ = _))
  | .transfer _ => inferInstanceAs (Decidable (_ = _))
  | .other => inferInstanceAs (Decidable (_ ∧ _))

/-- The driver and the controller. -/
structure XhciSys where
  ring : EvtRing
  /-- The controller's place in the event ring, and its cycle state. -/
  enq : Nat
  pcs : BitVec 32
  pc : CallPc
  commands : Nat
  transfers : Nat
  /-- The events that have been written, and how many of them have been polled. -/
  produced : List (Origin × XhciTrb)
  polled : Nat

inductive XhciEvent where
  | cmdSend
  | getDescriptor (wLength : Nat)
  | pass
  | timeout
  | produce (o : Origin) (t : XhciTrb)
  deriving DecidableEq

namespace XhciSys

def start : XhciSys := ⟨evtRingInit, 0, 1, .idle, 0, 0, [], 0⟩

/-- The request has been pushed. -/
def Pushed (s : XhciSys) : Origin → Prop
  | .command n => n < s.commands
  | .transfer n => n < s.transfers
  | .other => True

instance (s : XhciSys) (o : Origin) : Decidable (s.Pushed o) :=
  match o with
  | .command _ => inferInstanceAs (Decidable (_ < _))
  | .transfer _ => inferInstanceAs (Decidable (_ < _))
  | .other => inferInstanceAs (Decidable True)

/-- The driver makes one call after another. The controller reports the requests pushed, in any
order and each at most once, and anything else any number of times, while there is room in the ring.
-/
def Allowed (s : XhciSys) : XhciEvent → Prop
  | .cmdSend | .getDescriptor _ => s.pc = .idle
  | .pass | .timeout => s.pc ≠ .idle
  | .produce o t => o.Fits t ∧ s.Pushed o ∧ (o = .other ∨ ∀ e ∈ s.produced, e.1 ≠ o) ∧
      s.produced.length < s.polled + evtRingSize

instance (s : XhciSys) (e : XhciEvent) : Decidable (s.Allowed e) :=
  match e with
  | .cmdSend | .getDescriptor _ => inferInstanceAs (Decidable (_ = _))
  | .pass | .timeout => inferInstanceAs (Decidable (_ ≠ _))
  | .produce _ _ => inferInstanceAs (Decidable (_ ∧ _))

def next (s : XhciSys) : XhciEvent → XhciSys
  | .cmdSend => { s with pc := .cmdSend s.commands 0, commands := s.commands + 1 }
  | .getDescriptor wLength =>
    { s with pc := .getDescriptor s.transfers wLength, transfers := s.transfers + 1 }
  | .pass =>
    match s.ring.pollPass with
    | none => s
    | some (t, ring) => { s with ring := ring, pc := (s.pc.receive t).1, polled := s.polled + 1 }
  | .timeout => { s with pc := .idle }
  | .produce o t =>
    let t := { t with control := setCycle t.control s.pcs }
    { s with
      ring := { s.ring with trb := Function.update s.ring.trb s.enq t }
      enq := if s.enq + 1 ≥ evtRingSize then 0 else s.enq + 1
      pcs := if s.enq + 1 ≥ evtRingSize then s.pcs ^^^ 1 else s.pcs
      produced := s.produced ++ [(o, t)] }

/-- What the call returns in a step. -/
def returns (s : XhciSys) : XhciEvent → Option Int
  | .pass =>
    match s.ring.pollPass with
    | none => none
    | some (t, _) => (s.pc.receive t).2
  | .timeout => some (-1)
  | _ => none

end XhciSys

/-- One step of the driver or of the controller. -/
def XhciStep (s : XhciSys) (e : XhciEvent) (t : XhciSys) : Prop := s.Allowed e ∧ t = s.next e

end MicroOs.Drivers
