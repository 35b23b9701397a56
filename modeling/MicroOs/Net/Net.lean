import MicroOs.Lib.LittleEndian
import MicroOs.Net.VirtioNet

/-!
# The network stack

Model of `kernel/net/net.c` and of `virtio_net_rx_poll`, which call each other: `net_rx` is the
callback of the poll, and polls while it waits for an ARP reply. A frame is its bytes by offset, with
a length. The frames passed to `virtio_net_tx` are a list. `clock n` is what the `n`th call of
`timer_ticks` returns. Loops and calls that need not end have fuel; `none` means that it ran out.
-/

namespace MicroOs.Net
open Lib

/-- `ARP_CACHE_SIZE` (`net.c:22`). -/
def arpCacheSize : Nat := 16
/-- `ETHERTYPE_IPV4`. -/
def ethertypeIpv4 : BitVec 16 := 0x0800#16
/-- `ETHERTYPE_ARP`. -/
def ethertypeArp : BitVec 16 := 0x0806#16
/-- `IP_PROTO_ICMP`. -/
def ipProtoIcmp : Byte := 1#8
/-- `ICMP_ECHO_REPLY`. -/
def icmpEchoReply : Byte := 0#8
/-- `ICMP_ECHO_REQUEST`. -/
def icmpEchoRequest : Byte := 8#8
/-- The IP address 255.255.255.255. -/
def bcastIp : List Byte := List.replicate 4 0xFF#8
/-- The Ethernet address of all hosts. -/
def bcastMac : List Byte := List.replicate 6 0xFF#8

/-- `struct arp_entry` (`net.c:24-28`). -/
structure ArpEntry where
  ip : List Byte
  mac : List Byte
  valid : Bool
  deriving DecidableEq, Repr

abbrev ArpCache := Nat → ArpEntry

/-- The state of the stack, with the receive queue; the used elements whose frames were handed to
`net_rx` and the descriptors put back, in order. -/
structure NetState where
  netUp : Bool
  initialised : Bool
  rxq : Virtqueue
  ourMac : List Byte
  ourIp : List Byte
  arpCache : ArpCache
  pingPending : Bool
  pingSentTick : BitVec 64
  pingSeq : BitVec 16
  pingResult : Int
  ticksRead : Nat
  sent : List (List Byte)
  handed : List VirtqUsedElem
  requeued : List (BitVec 32)

/-- `arp_lookup` (`net.c:32-39`), as an index. -/
def arpLookup (cache : ArpCache) (ip : List Byte) : Option Nat :=
  (List.range arpCacheSize).find? fun i => (cache i).valid ∧ (cache i).ip = ip

/-- `arp_insert` (`net.c:41-62`). -/
def arpInsert (cache : ArpCache) (ip mac : List Byte) : ArpCache :=
  match arpLookup cache ip with
  | some i => Function.update cache i { cache i with mac }
  | none =>
    match (List.range arpCacheSize).find? fun i => !(cache i).valid with
    | some i => Function.update cache i ⟨ip, mac, true⟩
    | none => Function.update cache 0 { cache 0 with ip, mac }

/-- The loop of `ip_checksum` (`net.c:71-76`) from offset `i` on. -/
def checksumLoop (p : Nat → Byte) (i : Nat) (sum : BitVec 32) : Nat → BitVec 32
  | 0 => sum
  | 1 => sum + (p i).setWidth 32
  | len + 2 => checksumLoop p (i + 2) (sum + (le16 p i).setWidth 32) len

/-- A turn of the loop that adds the carries (`net.c:77-78`). -/
def foldCarry (sum : BitVec 32) : BitVec 32 :=
  if sum >>> 16 ≠ 0#32 then (sum &&& 0xFFFF#32) + (sum >>> 16) else sum

/-- `ip_checksum` (`net.c:66-80`); the carries are gone after two turns (`foldCarry_foldCarry`). -/
def ipChecksum (p : Nat → Byte) (len : Nat) : BitVec 16 :=
  ~~~(foldCarry (foldCarry (checksumLoop p 0 0#32 len))).setWidth 16

lemma foldCarry_toNat (v : BitVec 32) : (foldCarry v).toNat =
    if v.toNat / 65536 = 0 then v.toNat else v.toNat % 65536 + v.toNat / 65536 := by
  have mask : (v &&& 0xFFFF#32).toNat = v.toNat % 65536 := by
    rw [BitVec.toNat_and]
    exact Nat.and_two_pow_sub_one_eq_mod v.toNat 16
  have shift : (v >>> 16).toNat = v.toNat / 65536 := by
    rw [BitVec.toNat_ushiftRight, Nat.shiftRight_eq_div_pow]
  have zero : v >>> 16 = 0#32 ↔ v.toNat / 65536 = 0 := by
    rw [← shift]
    exact BitVec.toNat_inj.symm
  have bound := v.isLt
  unfold foldCarry
  by_cases none : v >>> 16 = 0#32
  · rw [if_neg (not_not_intro none), if_pos (zero.mp none)]
  · rw [if_pos none, if_neg (mt zero.mpr none), BitVec.toNat_add, mask, shift]
    omega

lemma foldCarry_foldCarry (sum : BitVec 32) : foldCarry (foldCarry sum) >>> 16 = 0#32 := by
  apply BitVec.eq_of_toNat_eq
  rw [BitVec.toNat_ushiftRight, Nat.shiftRight_eq_div_pow, foldCarry_toNat (foldCarry sum),
    foldCarry_toNat sum]
  have bound := sum.isLt
  show _ = 0
  split
  · omega
  · split <;> omega

/-- A 16-bit number in network byte order, the high byte first (`ntohs`). -/
def be16At (p : Nat → Byte) (i : Nat) : BitVec 16 := p i ++ p (i + 1)

/-- The bytes of a number in network byte order (`htons`). -/
def be16 (v : BitVec 16) : List Byte := [(v >>> 8).setWidth 8, v.setWidth 8]

/-- The bytes of a number as they lie in memory. -/
def memory16 (v : BitVec 16) : List Byte := [v.setWidth 8, (v >>> 8).setWidth 8]

namespace NetState

/-- `send_frame` (`net.c:84-99`). -/
def sendFrame (s : NetState) (dstMac : List Byte) (ethertype : BitVec 16) (payload : List Byte) :
    NetState :=
  if 1518 < (14 + payload.length) % 2 ^ 16 then s
  else { s with sent := s.sent ++ [dstMac ++ s.ourMac ++ be16 ethertype ++ payload] }

/-- The packets of `arp_send_reply` and `arp_send_request` (`net.c:106-115`, `122-131`). -/
def arpPkt (s : NetState) (op : BitVec 16) (targetMac targetIp : List Byte) : List Byte :=
  be16 1#16 ++ be16 0x0800#16 ++ [6#8, 4#8] ++ be16 op ++ s.ourMac ++ s.ourIp ++ targetMac ++
    targetIp

/-- `arp_send_reply` (`net.c:103-116`). -/
def arpSendReply (s : NetState) (dstMac dstIp : List Byte) : NetState :=
  s.sendFrame dstMac ethertypeArp (s.arpPkt 2#16 dstMac dstIp)

/-- `arp_send_request` (`net.c:118-134`). -/
def arpSendRequest (s : NetState) (targetIp : List Byte) : NetState :=
  s.sendFrame bcastMac ethertypeArp (s.arpPkt 1#16 (List.replicate 6 0xFF#8) targetIp)

/-- `handle_arp` (`net.c:136-152`). -/
def handleArp (s : NetState) (data : Nat → Byte) (len : Nat) : NetState :=
  if len < 28 then s
  else
    let senderMac := window data 8 6
    let senderIp := window data 14 4
    let learned := { s with arpCache := arpInsert s.arpCache senderIp senderMac }
    if be16At data 6 = 1#16 ∧ window data 24 4 = s.ourIp then
      learned.arpSendReply senderMac senderIp
    else learned

/-- The packet that `send_ipv4` builds (`net.c:199-214`). -/
def ipv4Pkt (s : NetState) (dstIp : List Byte) (protocol : Byte) (payload : List Byte) :
    List Byte :=
  let before := [0x45#8, 0#8] ++ be16 (BitVec.ofNat 16 (20 + payload.length)) ++
    List.replicate 4 0#8 ++ [64#8, protocol]
  let addresses := s.ourIp ++ dstIp
  let header := before ++ [0#8, 0#8] ++ addresses
  before ++ memory16 (ipChecksum (fun i => header.getD i 0#8) 20) ++ addresses ++ payload

end NetState

section

variable (clock : Nat → BitVec 64) (fuel : Nat) (poll : NetState → Option NetState)

/-- A call of `timer_ticks`. -/
def timerTicks (s : NetState) : BitVec 64 × NetState :=
  (clock s.ticksRead, { s with ticksRead := s.ticksRead + 1 })

/-- The loop that polls for a reply (`net.c:177-185`): the address found, or `none` when the time
is over. -/
def arpWait (ip : List Byte) (deadline : BitVec 64) :
    Nat → NetState → Option (Option (List Byte) × NetState)
  | 0, _ => none
  | fuel + 1, s =>
    let (now, s) := timerTicks clock s
    if now < deadline then
      match poll s with
      | none => none
      | some s =>
        match arpLookup s.arpCache ip with
        | some i => some (some (s.arpCache i).mac, s)
        | none => arpWait ip deadline fuel s
    else some (none, s)

/-- The retries (`net.c:174-186`). -/
def arpRetry (ip : List Byte) : Nat → NetState → Option (Option (List Byte) × NetState)
  | 0, s => some (none, s)
  | retries + 1, s =>
    let (now, s) := timerTicks clock (s.arpSendRequest ip)
    match arpWait clock poll ip (now + 100#64) fuel s with
    | none => none
    | some (some mac, s) => some (some mac, s)
    | some (none, s) => arpRetry ip retries s

/-- `arp_resolve` (`net.c:156-188`). -/
def arpResolve (ip : List Byte) (s : NetState) : Option (Option (List Byte) × NetState) :=
  if ip = bcastIp then some (some bcastMac, s)
  else match arpLookup s.arpCache ip with
    | some i => some (some (s.arpCache i).mac, s)
    | none => arpRetry clock fuel poll ip 3 s

/-- `send_ipv4` (`net.c:192-217`). -/
def sendIpv4 (dstIp : List Byte) (protocol : Byte) (payload : List Byte) (s : NetState) :
    Option NetState :=
  match arpResolve clock fuel poll dstIp s with
  | none => none
  | some (none, s) => some s
  | some (some mac, s) => some (s.sendFrame mac ethertypeIpv4 (s.ipv4Pkt dstIp protocol payload))

/-- `send_frame` by lengths (`net.c:87-98`): where its writes to `frame` end, and the length that it
transmits; `none` is -1. -/
def sendFrameLen (len : BitVec 16) : Option (Nat × BitVec 16) :=
  if 1518#16 < 14#16 + len then none else some (14 + len.toNat, 14#16 + len)

/-- `send_ipv4` to a resolved address (`net.c:199-216`): where its writes to `pkt` end, with
`total_len`, and its `send_frame`. -/
def sendIpv4Len (len : BitVec 16) : (Nat × BitVec 16) × Option (Nat × BitVec 16) :=
  ((20 + len.toNat, 20#16 + len), sendFrameLen (20#16 + len))

/-- The reply to an echo request (`net.c:244-249`). -/
def echoReply (icmp : List Byte) : List Byte :=
  let cleared := ((icmp.set 0 icmpEchoReply).set 2 0#8).set 3 0#8
  let sum := ipChecksum (fun i => cleared.getD i 0#8) icmp.length
  (cleared.set 2 (sum.setWidth 8)).set 3 ((sum >>> 8).setWidth 8)

/-- `handle_icmp` (`net.c:230-258`). -/
def handleIcmp (data : Nat → Byte) (ipLen : Nat) (s : NetState) : Option NetState :=
  let icmpLen := ipLen - 20
  if ipLen < 20 + 8 then some s
  else if ipChecksum (fun i => data (20 + i)) icmpLen ≠ 0#16 then some s
  else if data 20 = icmpEchoRequest ∧ data 21 = 0#8 then
    if 1500 - 20 < icmpLen then some s
    else
      sendIpv4 clock fuel poll (window data 12 4) ipProtoIcmp (echoReply (window data 20 icmpLen)) s
  else if data 20 = icmpEchoReply ∧ s.pingPending then
    if be16At data 26 = s.pingSeq then
      let (now, s) := timerTicks clock s
      some { s with
        pingResult := ((now - s.pingSentTick).setWidth 32).toInt
        pingPending := false }
    else some s
  else some s

/-- `handle_ipv4` (`net.c:260-280`). -/
def handleIpv4 (data : Nat → Byte) (len : Nat) (s : NetState) : Option NetState :=
  if len < 20 then some s
  else if window data 16 4 ≠ s.ourIp ∧ window data 16 4 ≠ bcastIp then some s
  else if ipChecksum data 20 ≠ 0#16 then some s
  else if data 9 = ipProtoIcmp then
    handleIcmp clock fuel poll data (min (be16At data 2).toNat len) s
  else some s

/-- `net_rx` (`net.c:284-298`). -/
def netRx (frame : Nat → Byte) (len : Nat) (s : NetState) : Option NetState :=
  if len < 14 then some s
  else if be16At frame 12 = ethertypeArp then
    some (s.handleArp (fun i => frame (14 + i)) (len - 14))
  else if be16At frame 12 = ethertypeIpv4 then
    handleIpv4 clock fuel poll (fun i => frame (14 + i)) (len - 14) s
  else some s

end

/-- The frame behind a used element (`virtio_net.c:252-253`). -/
def rxFrame (q : Virtqueue) (elem : VirtqUsedElem) : Nat → Byte :=
  fun i => q.data elem.id.toNat (virtioNetHdrSize + i)

/-- The length passed with it. -/
def rxLen (elem : VirtqUsedElem) : Nat := ((elem.len - 10#32).setWidth 16).toNat

/-- The test before the callback (`virtio_net.c:251`). -/
def hasFrame (q : Virtqueue) (elem : VirtqUsedElem) : Bool :=
  10#32 < elem.len ∧ q.buffers elem.id.toNat ≠ 0#64

/-- Put the descriptor of a used element back (`virtio_net.c:257-264`). -/
def NetState.putBack (s : NetState) (elem : VirtqUsedElem) : NetState :=
  { s with rxq := s.rxq.requeue elem.id, requeued := s.requeued ++ [elem.id] }

/-- The loop of `virtio_net_rx_poll` (`virtio_net.c:243-266`): the state and the count. -/
def pollLoop (cb : (Nat → Byte) → Nat → NetState → Option NetState) :
    Nat → Nat → NetState → Option (NetState × Nat)
  | 0, _, _ => none
  | fuel + 1, count, s =>
    if s.rxq.lastUsed = s.rxq.usedIdx then some (s, count)
    else
      let elem := s.rxq.usedElem
      if s.rxq.size.setWidth 32 ≤ elem.id then
        pollLoop cb fuel count { s with rxq := s.rxq.advance }
      else
        let called :=
          if hasFrame s.rxq elem then
            cb (rxFrame s.rxq elem) (rxLen elem) { s with handed := s.handed ++ [elem] }
          else some s
        match called with
        | none => none
        | some s => pollLoop cb fuel (count + 1) (s.putBack elem)

/-- `virtio_net_rx_poll(net_rx)` (`virtio_net.c:235-271`). -/
def virtioNetRxPoll (clock : Nat → BitVec 64) : Nat → NetState → Option (NetState × Nat)
  | 0, _ => none
  | fuel + 1, s =>
    if !s.initialised then some (s, 0)
    else
      let nested := fun s => (virtioNetRxPoll clock fuel s).map Prod.fst
      pollLoop (netRx clock fuel nested) (fuel + 1) 0 s

/-- `net_init` (`net.c:300-311`); `mac` is what `virtio_net_get_mac` stores. -/
def netInit (ip mac : List Byte) (s : NetState) : NetState :=
  { s with
    ourIp := ip
    ourMac := mac
    arpCache := fun _ => ⟨List.replicate 4 0#8, List.replicate 6 0#8, false⟩
    pingPending := false
    pingSeq := 0#16
    netUp := true }

/-- The identifier of every ping (`net.c:327`). -/
def pingIdent : BitVec 16 := 0x1234#16

/-- The echo request of `net_ping` (`net.c:323-329`). -/
def pingRequest (seq : BitVec 16) : List Byte :=
  let before := [icmpEchoRequest, 0#8]
  let after := be16 pingIdent ++ be16 seq
  let cleared := before ++ [0#8, 0#8] ++ after
  before ++ memory16 (ipChecksum (fun i => cleared.getD i 0#8) 8) ++ after

section

variable (clock : Nat → BitVec 64) (fuel : Nat) (poll : NetState → Option NetState)

/-- What `net_ping` notes about the ping (`net.c:318-321`). -/
def pingStart (s : NetState) : NetState :=
  let (now, s) := timerTicks clock
    { s with pingSeq := s.pingSeq + 1#16, pingPending := true, pingResult := -1 }
  { s with pingSentTick := now }

/-- `net_ping` (`net.c:313-332`). What it returns besides -1 is the result of `virtio_net_tx`; here
it is whether the request was passed on. -/
def netPing (dstIp : List Byte) (s : NetState) : Option (Bool × NetState) :=
  if !s.netUp then some (false, s)
  else
    let s := pingStart clock s
    let icmp := pingRequest s.pingSeq
    match arpResolve clock fuel poll dstIp s with
    | none => none
    | some (none, s) => some (false, s)
    | some (some mac, s) =>
      some (true, s.sendFrame mac ethertypeIpv4 (s.ipv4Pkt dstIp ipProtoIcmp icmp))

/-- The loop of `net_ping_check` (`net.c:341-342`). -/
def pingWait (deadline : BitVec 64) : Nat → NetState → Option NetState
  | 0, _ => none
  | fuel + 1, s =>
    if !s.pingPending then some s
    else
      let (now, s) := timerTicks clock s
      if now < deadline then
        match poll s with
        | none => none
        | some s => pingWait deadline fuel s
      else some s

/-- `net_ping_check` (`net.c:334-345`). -/
def netPingCheck (s : NetState) : Option (Int × NetState) :=
  if !s.netUp then some (-1, s)
  else
    let (now, s) := timerTicks clock s
    (pingWait clock poll (now + 300#64) fuel s).map fun s => (s.pingResult, s)

end

end MicroOs.Net
