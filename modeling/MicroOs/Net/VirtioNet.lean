import MicroOs.Lib.ByteFile
import MicroOs.Lib.Ring
import MicroOs.Lib.Transition

/-!
# The virtio network driver and its device

Model of `kernel/drivers/virtio_net.c`. A virtqueue is the memory that driver and device share,
with the driver's own fields. The answer of `kmalloc` is an argument, 0 for `NULL`; `data` are the
bytes of the packet buffers by descriptor. The device works between any two steps of the driver, and
indexes the rings modulo the size that it reports.
-/

namespace MicroOs.Net
open Lib
open Function (update)

abbrev Byte := BitVec 8

/-- `VIRTQ_SIZE` (`virtio_net.h:68`). -/
def virtqMaxSize : BitVec 16 := 128#16
/-- `VIRTIO_NET_HDR_SIZE`. -/
def virtioNetHdrSize : Nat := 10
/-- `PKT_BUF_SIZE` (`virtio_net.c:39`). -/
def pktBufSize : BitVec 32 := 1528#32
/-- `VIRTQ_DESC_F_WRITE`. -/
def virtqDescFWrite : BitVec 16 := 2#16

/-- `struct virtq_desc` (`virtio_net.h:34-39`). -/
structure VirtqDesc where
  addr : BitVec 64
  len : BitVec 32
  flags : BitVec 16
  next : BitVec 16
  deriving DecidableEq, Repr

/-- `struct virtq_used_elem` (`virtio_net.h:47-50`). -/
structure VirtqUsedElem where
  id : BitVec 32
  len : BitVec 32
  deriving DecidableEq, Repr

/-- `Virtqueue` (`virtio_net.c:26-34`) with the tables and rings that it points to. -/
structure Virtqueue where
  desc : Nat → VirtqDesc
  availIdx : BitVec 16
  availRing : Nat → BitVec 16
  usedIdx : BitVec 16
  usedRing : Nat → VirtqUsedElem
  size : BitVec 16
  lastUsed : BitVec 16
  buffers : Nat → BitVec 64
  data : Nat → Nat → Byte

/-- The size that the driver uses (`virtio_net.c:69`). -/
def cappedSize (devSize : BitVec 16) : BitVec 16 :=
  if virtqMaxSize < devSize then virtqMaxSize else devSize

/-- The queue after `virtq_init` (`virtio_net.c:58-108`), on cleared pages. -/
def virtqInit (devSize : BitVec 16) : Virtqueue where
  desc _ := ⟨0#64, 0#32, 0#16, 0#16⟩
  availIdx := 0#16
  availRing _ := 0#16
  usedIdx := 0#16
  usedRing _ := ⟨0#32, 0#32⟩
  size := cappedSize devSize
  lastUsed := 0#16
  buffers _ := 0#64
  data _ _ := 0#8

namespace Virtqueue

/-- Make a descriptor available (`virtio_net.c:126-127`, `221-222`, `261-262`). -/
def publish (q : Virtqueue) (di : BitVec 16) : Virtqueue :=
  { q with
    availRing := update q.availRing (q.availIdx % q.size).toNat di
    availIdx := q.availIdx + 1#16 }

/-- The buffer of a descriptor, allocated if it has none (`virtio_net.c:116-119`, `208-209`). -/
def bufferFor (q : Virtqueue) (di : Nat) (alloc : BitVec 64) : BitVec 64 :=
  if q.buffers di = 0#64 then alloc else q.buffers di

/-- One turn of the loop of `rx_fill` (`virtio_net.c:115-128`); `none` where it breaks. -/
def rxFillTurn (q : Virtqueue) (i : BitVec 16) (alloc : BitVec 64) : Option Virtqueue :=
  let buffer := q.bufferFor i.toNat alloc
  if buffer = 0#64 then none
  else some ({ q with
    buffers := update q.buffers i.toNat buffer
    desc := update q.desc i.toNat ⟨buffer, pktBufSize, virtqDescFWrite, 0#16⟩ }.publish i)

/-- `virtio_net_tx` (`virtio_net.c:198-231`), with `tx_next_desc`; `none` where it returns -1. -/
def virtioNetTx (q : Virtqueue) (txNextDesc : BitVec 16) (frame : Nat → Byte) (len : BitVec 16)
    (alloc : BitVec 64) : Option (Virtqueue × BitVec 16) :=
  let di := txNextDesc % q.size
  let buffer := q.bufferFor di.toNat alloc
  if 1518#16 < len ∨ buffer = 0#64 then none
  else
    let header := copied (q.data di.toNat) 0 (fun _ => 0#8) virtioNetHdrSize
    some ({ q with
      buffers := update q.buffers di.toNat buffer
      data := update q.data di.toNat (copied header virtioNetHdrSize frame len.toNat)
      desc := update q.desc di.toNat
        ⟨buffer, 10#32 + len.setWidth 32, 0#16, 0#16⟩ }.publish di, txNextDesc + 1#16)

/-- The used element that `virtio_net_rx_poll` reads next (`virtio_net.c:245-247`). -/
def usedElem (q : Virtqueue) : VirtqUsedElem := q.usedRing (q.lastUsed % q.size).toNat

/-- `rxq.last_used++`. -/
def advance (q : Virtqueue) : Virtqueue := { q with lastUsed := q.lastUsed + 1#16 }

/-- Put a descriptor back (`virtio_net.c:257-264`). -/
def requeue (q : Virtqueue) (di : BitVec 32) : Virtqueue :=
  let desc := { q.desc di.toNat with
    addr := q.buffers di.toNat, len := pktBufSize, flags := virtqDescFWrite }
  ({ q with desc := update q.desc di.toNat desc }.publish (di.setWidth 16)).advance

end Virtqueue

/-- A queue with its device, and what has passed between them: the descriptors published and read,
the used elements written and read. -/
structure Link where
  vq : Virtqueue
  /-- What the device reports in `VIRTIO_QUEUE_SIZE`. -/
  devSize : BitVec 16
  /-- The device's own index into the available ring. -/
  devAvail : BitVec 16
  published : List (BitVec 16)
  taken : List (BitVec 16)
  returned : List VirtqUsedElem
  seen : List VirtqUsedElem

namespace Link

def init (devSize : BitVec 16) : Link := ⟨virtqInit devSize, devSize, 0#16, [], [], [], []⟩

/-- The driver has changed the queue and published a descriptor. -/
def publish (l : Link) (vq : Virtqueue) (di : BitVec 16) : Link :=
  { l with vq, published := l.published ++ [di] }

/-- The device reads the next available descriptor. -/
def take (l : Link) : Link :=
  { l with
    devAvail := l.devAvail + 1#16
    taken := l.taken ++ [l.vq.availRing (l.devAvail % l.devSize).toNat] }

/-- The device writes a used element, after data into the buffer of the descriptor. -/
def give (l : Link) (elem : VirtqUsedElem) (data : Nat → Byte) : Link :=
  { l with
    vq := { l.vq with
      data := update l.vq.data elem.id.toNat data
      usedRing := update l.vq.usedRing (l.vq.usedIdx % l.devSize).toNat elem
      usedIdx := l.vq.usedIdx + 1#16 }
    returned := l.returned ++ [elem] }

end Link

/-- Both queues, the loop counter of `rx_fill`, the flag `initialised`, `tx_next_desc`, and the
descriptors whose callbacks run, the innermost call of `virtio_net_rx_poll` first. -/
structure NetDev where
  rx : Link
  tx : Link
  fillNext : BitVec 16
  initialised : Bool
  txNextDesc : BitVec 16
  polls : List (BitVec 32)

inductive NetEvent where
  /-- A turn of the loop of `rx_fill`. -/
  | fill (alloc : BitVec 64)
  /-- The end of that loop, and of `virtio_net_init`. -/
  | filled
  /-- `virtio_net_rx_poll` reads a used element and calls back. -/
  | pollRead
  /-- The callback returns, and the descriptor is put back. -/
  | pollRequeue
  | tx (frame : Nat → Byte) (len : BitVec 16) (alloc : BitVec 64)
  | takeRx
  | takeTx
  | giveRx (elem : VirtqUsedElem) (data : Nat → Byte)
  | giveTx (elem : VirtqUsedElem) (data : Nat → Byte)

namespace NetDev

def init (rxSize txSize : BitVec 16) : NetDev :=
  ⟨Link.init rxSize, Link.init txSize, 0#16, false, 0#16, []⟩

/-- A step, or `none`. The device takes a descriptor when its index differs from that of the driver,
and returns no more descriptors than it has taken. -/
def after (s : NetDev) : NetEvent → Option NetDev
  | .fill alloc =>
    if s.initialised ∨ s.rx.vq.size ≤ s.fillNext then none
    else match s.rx.vq.rxFillTurn s.fillNext alloc with
      | none => some { s with initialised := true }
      | some vq => some { s with
          rx := s.rx.publish vq s.fillNext
          fillNext := s.fillNext + 1#16 }
  | .filled =>
    if s.initialised ∨ s.fillNext < s.rx.vq.size then none else some { s with initialised := true }
  | .pollRead =>
    if !s.initialised ∨ s.rx.vq.lastUsed = s.rx.vq.usedIdx then none
    else
      let elem := s.rx.vq.usedElem
      let rx := { s.rx with seen := s.rx.seen ++ [elem] }
      if s.rx.vq.size.setWidth 32 ≤ elem.id then
        some { s with rx := { rx with vq := rx.vq.advance } }
      else some { s with rx, polls := elem.id :: s.polls }
  | .pollRequeue =>
    match s.polls with
    | [] => none
    | di :: polls => some { s with
        rx := s.rx.publish (s.rx.vq.requeue di) (di.setWidth 16)
        polls }
  | .tx frame len alloc =>
    if !s.initialised then some s
    else match s.tx.vq.virtioNetTx s.txNextDesc frame len alloc with
      | none => some s
      | some (vq, txNextDesc) => some { s with
          tx := s.tx.publish vq (s.txNextDesc % s.tx.vq.size)
          txNextDesc }
  | .takeRx => if s.rx.devAvail = s.rx.vq.availIdx then none else some { s with rx := s.rx.take }
  | .takeTx => if s.tx.devAvail = s.tx.vq.availIdx then none else some { s with tx := s.tx.take }
  | .giveRx elem data =>
    if s.rx.returned.length < s.rx.taken.length then some { s with rx := s.rx.give elem data }
    else none
  | .giveTx elem data =>
    if s.tx.returned.length < s.tx.taken.length then some { s with tx := s.tx.give elem data }
    else none

def Step (s : NetDev) (e : NetEvent) (t : NetDev) : Prop := s.after e = some t

/-- The state after `virtq_init` of both queues. -/
def Booted (rxSize txSize : BitVec 16) (s : NetDev) : Prop := s = init rxSize txSize

end NetDev

end MicroOs.Net
