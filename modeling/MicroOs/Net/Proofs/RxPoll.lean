import MicroOs.Net.Net

/-!
# Polling the receive queue

`virtio_net_rx_poll` moves past a used element only after its callback. An echo request from a sender
that is not in the ARP cache makes the callback poll again, which finds the same frame, and so on as
long as the clock does not jump. Every other frame is dealt with at once.
-/

namespace MicroOs.Net
open Lib List

variable {frame : Nat → Byte} {len : Nat} {poll : NetState → Option NetState} {q : Virtqueue}
  {s : NetState}

def payload (frame : Nat → Byte) : Nat → Byte := fun i => frame (14 + i)

/-- The length of the IPv4 packet in a frame (`net.c:276-277`). -/
def ipLength (frame : Nat → Byte) (len : Nat) : Nat :=
  min (be16At (payload frame) 2).toNat (len - 14)

def source (frame : Nat → Byte) : List Byte := window (payload frame) 12 4

/-- An echo request that `net_rx` answers. -/
structure IsEchoRequest (ourIp : List Byte) (frame : Nat → Byte) (len : Nat) : Prop where
  ethernet : 14 ≤ len
  ipv4 : be16At frame 12 = ethertypeIpv4
  header : 20 ≤ len - 14
  destination : window (payload frame) 16 4 = ourIp ∨ window (payload frame) 16 4 = bcastIp
  checksum : ipChecksum (payload frame) 20 = 0#16
  protocol : payload frame 9 = ipProtoIcmp
  long : 28 ≤ ipLength frame len
  icmpChecksum : ipChecksum (fun i => payload frame (20 + i)) (ipLength frame len - 20) = 0#16
  type : payload frame 20 = icmpEchoRequest
  code : payload frame 21 = 0#8
  short : ipLength frame len - 20 ≤ 1480

/-- An ICMP message that passes the checks of `net_rx`. -/
structure IsIcmp (ourIp : List Byte) (frame : Nat → Byte) (len : Nat) : Prop where
  ethernet : 14 ≤ len
  ipv4 : be16At frame 12 = ethertypeIpv4
  header : 20 ≤ len - 14
  destination : window (payload frame) 16 4 = ourIp ∨ window (payload frame) 16 4 = bcastIp
  checksum : ipChecksum (payload frame) 20 = 0#16
  protocol : payload frame 9 = ipProtoIcmp
  long : 28 ≤ ipLength frame len
  icmpChecksum : ipChecksum (fun i => payload frame (20 + i)) (ipLength frame len - 20) = 0#16

lemma IsEchoRequest.isIcmp {ourIp : List Byte} (echo : IsEchoRequest ourIp frame len) :
    IsIcmp ourIp frame len :=
  ⟨echo.ethernet, echo.ipv4, echo.header, echo.destination, echo.checksum, echo.protocol, echo.long,
    echo.icmpChecksum⟩

/-- An echo reply that ends the ping in progress. -/
structure NetState.IsPingReply (s : NetState) (frame : Nat → Byte) (len : Nat) : Prop where
  icmp : IsIcmp s.ourIp frame len
  type : payload frame 20 = icmpEchoReply
  pending : s.pingPending
  seq : be16At (payload frame) 26 = s.pingSeq

/-- The state after it (`net.c:253-255`). -/
def pingDone (clock : Nat → BitVec 64) (s : NetState) : NetState :=
  { s with
    ticksRead := s.ticksRead + 1
    pingResult := ((clock s.ticksRead - s.pingSentTick).setWidth 32).toInt
    pingPending := false }

/-- `net_rx` waits for an ARP reply before it can answer. -/
def Waits (ourIp : List Byte) (cache : ArpCache) (frame : Nat → Byte) (len : Nat) : Prop :=
  IsEchoRequest ourIp frame len ∧ source frame ≠ bcastIp ∧ arpLookup cache (source frame) = none

def cacheAfter (cache : ArpCache) (frame : Nat → Byte) (len : Nat) : ArpCache :=
  if 14 ≤ len ∧ be16At frame 12 = ethertypeArp ∧ 28 ≤ len - 14 then
    arpInsert cache (window (payload frame) 14 4) (window (payload frame) 8 6)
  else cache

structure Quiet (s t : NetState) : Prop where
  initialised : t.initialised = s.initialised
  rxq : t.rxq = s.rxq
  ourIp : t.ourIp = s.ourIp
  handed : t.handed = s.handed
  requeued : t.requeued = s.requeued

section
variable (s : NetState)

lemma Quiet.refl : Quiet s s := ⟨rfl, rfl, rfl, rfl, rfl⟩

lemma sendFrame_quiet (dstMac : List Byte) (ethertype : BitVec 16)
    (bytes : List Byte) :
    Quiet s (s.sendFrame dstMac ethertype bytes) ∧
      (s.sendFrame dstMac ethertype bytes).arpCache = s.arpCache := by
  unfold NetState.sendFrame
  split
  · exact ⟨Quiet.refl s, rfl⟩
  · exact ⟨⟨rfl, rfl, rfl, rfl, rfl⟩, rfl⟩

lemma arpSendRequest_quiet (ip : List Byte) :
    Quiet s (s.arpSendRequest ip) ∧ (s.arpSendRequest ip).arpCache = s.arpCache :=
  sendFrame_quiet s bcastMac ethertypeArp (s.arpPkt 1#16 (replicate 6 0xFF#8) ip)

lemma ne_arp_of_ipv4 (ipv4 : be16At frame 12 = ethertypeIpv4) : be16At frame 12 ≠ ethertypeArp := by
  rw [ipv4]
  decide

lemma cacheAfter_of_ne_arp (other : be16At frame 12 ≠ ethertypeArp) (cache : ArpCache) :
    cacheAfter cache frame len = cache :=
  if_neg fun learned => other learned.2.1

lemma handleArp_quiet (frame : Nat → Byte) (ethernet : 14 ≤ len)
    (arp : be16At frame 12 = ethertypeArp) :
    Quiet s (s.handleArp (payload frame) (len - 14)) ∧
      (s.handleArp (payload frame) (len - 14)).arpCache = cacheAfter s.arpCache frame len := by
  by_cases short : len - 14 < 28
  · have same : cacheAfter s.arpCache frame len = s.arpCache := if_neg (by omega)
    rw [NetState.handleArp, if_pos short, same]
    exact ⟨Quiet.refl s, rfl⟩
  · have learned : cacheAfter s.arpCache frame len =
        arpInsert s.arpCache (window (payload frame) 14 4) (window (payload frame) 8 6) :=
      if_pos ⟨ethernet, arp, by omega⟩
    rw [NetState.handleArp, if_neg short, learned]
    split
    · obtain ⟨quiet, cache⟩ := sendFrame_quiet
        { s with arpCache := arpInsert s.arpCache (window (payload frame) 14 4)
                  (window (payload frame) 8 6) } (window (payload frame) 8 6) ethertypeArp
        (NetState.arpPkt s 2#16 (window (payload frame) 8 6) (window (payload frame) 14 4))
      exact ⟨⟨quiet.initialised, quiet.rxq, quiet.ourIp, quiet.handed, quiet.requeued⟩, cache⟩
    · exact ⟨⟨rfl, rfl, rfl, rfl, rfl⟩, rfl⟩

end

section

variable (clock : Nat → BitVec 64) (fuel : Nat) (poll : NetState → Option NetState) {s : NetState}
  {frame : Nat → Byte} {len : Nat}

lemma netRx_of_icmp (icmp : IsIcmp s.ourIp frame len) :
    netRx clock fuel poll frame len s =
      if payload frame 20 = icmpEchoRequest ∧ payload frame 21 = 0#8 then
        if 1480 < ipLength frame len - 20 then some s
        else sendIpv4 clock fuel poll (source frame) ipProtoIcmp
          (echoReply (window (payload frame) 20 (ipLength frame len - 20))) s
      else if payload frame 20 = icmpEchoReply ∧ s.pingPending then
        if be16At (payload frame) 26 = s.pingSeq then some (pingDone clock s) else some s
      else some s := by
  unfold netRx
  rw [if_neg (Nat.not_lt.mpr icmp.ethernet), if_neg (ne_arp_of_ipv4 icmp.ipv4), if_pos icmp.ipv4]
  show handleIpv4 clock fuel poll (payload frame) (len - 14) s = _
  unfold handleIpv4
  rw [if_neg (Nat.not_lt.mpr icmp.header), if_neg (by
    rintro ⟨other, unicast⟩
    exact icmp.destination.elim other unicast), if_neg (not_not_intro icmp.checksum),
    if_pos icmp.protocol]
  show handleIcmp clock fuel poll (payload frame) (ipLength frame len) s = _
  unfold handleIcmp
  rw [if_neg (Nat.not_lt.mpr icmp.long), if_neg (not_not_intro icmp.icmpChecksum)]
  rfl

lemma netRx_of_echo (echo : IsEchoRequest s.ourIp frame len) :
    netRx clock fuel poll frame len s = sendIpv4 clock fuel poll (source frame) ipProtoIcmp
      (echoReply (window (payload frame) 20 (ipLength frame len - 20))) s := by
  rw [netRx_of_icmp clock fuel poll echo.isIcmp, if_pos ⟨echo.type, echo.code⟩,
    if_neg (Nat.not_lt.mpr echo.short)]

lemma netRx_of_pingReply (reply : s.IsPingReply frame len) :
    netRx clock fuel poll frame len s = some (pingDone clock s) := by
  have not_request : payload frame 20 ≠ icmpEchoRequest := by
    rw [reply.type]
    decide
  rw [netRx_of_icmp clock fuel poll reply.icmp, if_neg fun request => not_request request.1,
    if_pos ⟨reply.type, reply.pending⟩, if_pos reply.seq]

lemma netRx_of_ipv4 (ipv4 : be16At frame 12 = ethertypeIpv4)
    (not_echo : ¬IsEchoRequest s.ourIp frame len) (not_reply : ¬s.IsPingReply frame len) :
    netRx clock fuel poll frame len s = some s := by
  by_cases icmp : IsIcmp s.ourIp frame len
  · rw [netRx_of_icmp clock fuel poll icmp]
    by_cases request : payload frame 20 = icmpEchoRequest ∧ payload frame 21 = 0#8
    · rw [if_pos request]
      refine if_pos (Nat.lt_of_not_le fun short => not_echo ?_)
      exact ⟨icmp.ethernet, icmp.ipv4, icmp.header, icmp.destination, icmp.checksum, icmp.protocol,
        icmp.long, icmp.icmpChecksum, request.1, request.2, short⟩
    rw [if_neg request]
    by_cases answer : payload frame 20 = icmpEchoReply ∧ s.pingPending
    · rw [if_pos answer]
      exact if_neg fun seq => not_reply ⟨icmp, answer.1, answer.2, seq⟩
    · rw [if_neg answer]
  -- One of the tests before the ICMP message fails.
  unfold netRx
  by_cases runt : len < 14
  · exact if_pos runt
  rw [if_neg runt, if_neg (ne_arp_of_ipv4 ipv4), if_pos ipv4]
  show handleIpv4 clock fuel poll (payload frame) (len - 14) s = _
  unfold handleIpv4
  by_cases short : len - 14 < 20
  · exact if_pos short
  rw [if_neg short]
  by_cases foreign : window (payload frame) 16 4 ≠ s.ourIp ∧ window (payload frame) 16 4 ≠ bcastIp
  · exact if_pos foreign
  rw [if_neg foreign]
  by_cases sum : ipChecksum (payload frame) 20 ≠ 0#16
  · exact if_pos sum
  rw [if_neg sum]
  by_cases protocol : payload frame 9 = ipProtoIcmp
  case neg => exact if_neg protocol
  rw [if_pos protocol]
  show handleIcmp clock fuel poll (payload frame) (ipLength frame len) s = _
  unfold handleIcmp
  by_cases long : ipLength frame len < 20 + 8
  · exact if_pos long
  rw [if_neg long]
  refine if_pos fun icmpSum => icmp ?_
  have destination : window (payload frame) 16 4 = s.ourIp ∨
      window (payload frame) 16 4 = bcastIp := by
    by_contra neither
    exact foreign (not_or.mp neither)
  exact ⟨Nat.le_of_not_lt runt, ipv4, Nat.le_of_not_lt short, destination, not_not.mp sum, protocol,
    Nat.le_of_not_lt long, icmpSum⟩

lemma netRx_of_not_echo (other : ¬IsEchoRequest s.ourIp frame len) :
    ∃ t, (∀ fuel poll, netRx clock fuel poll frame len s = some t) ∧ Quiet s t ∧
      t.arpCache = cacheAfter s.arpCache frame len := by
  by_cases ipv4 : be16At frame 12 = ethertypeIpv4
  · rw [cacheAfter_of_ne_arp (ne_arp_of_ipv4 ipv4)]
    by_cases reply : s.IsPingReply frame len
    · exact ⟨pingDone clock s, fun fuel poll => netRx_of_pingReply clock fuel poll reply,
        ⟨rfl, rfl, rfl, rfl, rfl⟩, rfl⟩
    · exact ⟨s, fun fuel poll => netRx_of_ipv4 clock fuel poll ipv4 other reply, Quiet.refl s, rfl⟩
  unfold netRx
  by_cases runt : len < 14
  · have same : cacheAfter s.arpCache frame len = s.arpCache := if_neg (by omega)
    exact ⟨s, fun fuel poll => if_pos runt, Quiet.refl s, same.symm⟩
  by_cases arp : be16At frame 12 = ethertypeArp
  · obtain ⟨quiet, cache⟩ := handleArp_quiet s frame (Nat.le_of_not_lt runt) arp
    refine ⟨_, fun fuel poll => ?_, quiet, cache⟩
    rw [if_neg runt, if_pos arp]
    rfl
  · exact ⟨s, fun fuel poll => by rw [if_neg runt, if_neg arp, if_neg ipv4], Quiet.refl s,
      (cacheAfter_of_ne_arp arp _).symm⟩

lemma netRx_of_not_waits (calm : ¬Waits s.ourIp s.arpCache frame len) :
    ∃ t, (∀ fuel poll, netRx clock fuel poll frame len s = some t) ∧ Quiet s t ∧
      t.arpCache = cacheAfter s.arpCache frame len := by
  by_cases echo : IsEchoRequest s.ourIp frame len
  case neg => exact netRx_of_not_echo clock echo
  simp only [netRx_of_echo clock _ _ echo, cacheAfter_of_ne_arp (ne_arp_of_ipv4 echo.ipv4)]
  unfold sendIpv4 arpResolve
  by_cases everyone : source frame = bcastIp
  · obtain ⟨quiet, cache⟩ := sendFrame_quiet s bcastMac ethertypeIpv4
      (s.ipv4Pkt (source frame) ipProtoIcmp
        (echoReply (window (payload frame) 20 (ipLength frame len - 20))))
    exact ⟨_, fun fuel poll => by rw [if_pos everyone], quiet, cache⟩
  · cases known : arpLookup s.arpCache (source frame) with
    | none => exact absurd ⟨echo, everyone, known⟩ calm
    | some i =>
      obtain ⟨quiet, cache⟩ := sendFrame_quiet s (s.arpCache i).mac ethertypeIpv4
        (s.ipv4Pkt (source frame) ipProtoIcmp
          (echoReply (window (payload frame) 20 (ipLength frame len - 20))))
      exact ⟨_, fun fuel poll => by rw [if_neg everyone], quiet, cache⟩

end

/-- Between two readings of the clock less than a second passes. -/
def Steady (clock : Nat → BitVec 64) : Prop := ∀ n, clock (n + 1) < clock n + 100#64

lemma arpWait_of_stuck {clock : Nat → BitVec 64} (ip : List Byte) {deadline : BitVec 64}
    (ahead : clock s.ticksRead < deadline)
    (stuck : poll { s with ticksRead := s.ticksRead + 1 } = none) (fuel : Nat) :
    arpWait clock poll ip deadline fuel s = none := by
  cases fuel with
  | zero => rfl
  | succ fuel =>
    rw [arpWait]
    simp only [timerTicks, if_pos ahead, stuck]

/-- While the clock is steady, a frame that waits polls at least once more, in a state with the same
queue and the same cache. -/
lemma netRx_of_waits {clock : Nat → BitVec 64} (steady : Steady clock)
    (waits : Waits s.ourIp s.arpCache frame len) (fuel : Nat)
    (stuck : ∀ t, Quiet s t → t.arpCache = s.arpCache → poll t = none) :
    netRx clock fuel poll frame len s = none := by
  obtain ⟨echo, unicast, unknown⟩ := waits
  have waiting : arpRetry clock fuel poll (source frame) 3 s = none := by
    obtain ⟨quiet, cache⟩ := arpSendRequest_quiet s (source frame)
    rw [arpRetry]
    generalize s.arpSendRequest (source frame) = r at quiet cache ⊢
    have polled : poll { r with ticksRead := r.ticksRead + 1 + 1 } = none :=
      stuck _ ⟨quiet.initialised, quiet.rxq, quiet.ourIp, quiet.handed, quiet.requeued⟩ cache
    have waited : arpWait clock poll (source frame) (clock r.ticksRead + 100#64) fuel
        { r with ticksRead := r.ticksRead + 1 } = none :=
      arpWait_of_stuck (source frame) (steady r.ticksRead) polled fuel
    simp only [timerTicks, waited]
  rw [netRx_of_echo _ _ _ echo, sendIpv4, arpResolve, if_neg unicast, unknown]
  simp only [waiting]

/-- The used elements that the device has published and the driver has not dealt with. -/
def pending (q : Virtqueue) : List VirtqUsedElem :=
  (range (q.usedIdx - q.lastUsed).toNat).map fun i =>
    q.usedRing ((q.lastUsed + BitVec.ofNat 16 i) % q.size).toNat

lemma length_pending (q : Virtqueue) : (pending q).length = (q.usedIdx - q.lastUsed).toNat := by
  rw [pending, length_map, length_range]

lemma pending_eq_nil (none : pending q = []) : q.lastUsed = q.usedIdx := by
  have length := length_pending q
  rw [none, length_nil] at length
  bv_omega

lemma pending_of_ne (more : q.lastUsed ≠ q.usedIdx) :
    pending q = q.usedElem :: pending q.advance := by
  have count : (q.usedIdx - q.lastUsed).toNat = (q.usedIdx - (q.lastUsed + 1#16)).toNat + 1 := by
    bv_omega
  unfold pending
  rw [count, range_succ_eq_map, map_cons, map_map]
  congr 1
  · rw [BitVec.add_zero]
    rfl
  · apply map_congr_left
    intro i _
    have index : q.lastUsed + BitVec.ofNat 16 (i + 1) = q.lastUsed + 1#16 + BitVec.ofNat 16 i := by
      rw [BitVec.add_assoc, BitVec.add_comm 1#16, ofNat_succ]
    show q.usedRing ((q.lastUsed + BitVec.ofNat 16 (i + 1)) % q.size).toNat = _
    rw [index]
    rfl

lemma pending_eq_cons {e : VirtqUsedElem} {es : List VirtqUsedElem} (more : pending q = e :: es) :
    q.lastUsed ≠ q.usedIdx ∧ q.usedElem = e ∧ pending q.advance = es := by
  have unequal : q.lastUsed ≠ q.usedIdx := by
    intro same
    have length := length_pending q
    rw [more, same, BitVec.sub_self] at length
    simp at length
  rw [pending_of_ne unequal] at more
  exact ⟨unequal, (cons.inj more).1, (cons.inj more).2⟩

/-- No frame waits, each looked at with the cache that the frames before it leave. -/
def NoWait (ourIp : List Byte) (frameOf : VirtqUsedElem → Nat → Byte) (has : VirtqUsedElem → Bool) :
    ArpCache → List VirtqUsedElem → Prop
  | _, [] => True
  | cache, e :: es =>
    if has e then
      ¬Waits ourIp cache (frameOf e) (rxLen e) ∧
        NoWait ourIp frameOf has (cacheAfter cache (frameOf e) (rxLen e)) es
    else NoWait ourIp frameOf has cache es

def NetState.NoWait (s : NetState) : Prop :=
  Net.NoWait s.ourIp (rxFrame s.rxq) (hasFrame s.rxq) s.arpCache (pending s.rxq)

/-- The descriptor ids of the pending elements are below the queue size. -/
def ValidIds (q : Virtqueue) : Prop := ∀ e ∈ pending q, e.id < q.size.setWidth 32

section

variable {s t : NetState} {e : VirtqUsedElem} {es : List VirtqUsedElem}

lemma pollLoop_turn (cb : (Nat → Byte) → Nat → NetState → Option NetState) (fuel count : Nat)
    (more : pending s.rxq = e :: es) (valid : ValidIds s.rxq) :
    pollLoop cb (fuel + 1) count s =
      match (if hasFrame s.rxq e then
          cb (rxFrame s.rxq e) (rxLen e) { s with handed := s.handed ++ [e] } else some s) with
      | none => none
      | some t => pollLoop cb fuel (count + 1) (t.putBack e) := by
  obtain ⟨unequal, rfl, -⟩ := pending_eq_cons more
  have known : ¬s.rxq.size.setWidth 32 ≤ s.rxq.usedElem.id :=
    BitVec.not_le.mpr (valid _ (by rw [more]; exact mem_cons_self))
  rw [pollLoop, if_neg unequal]
  exact if_neg known

section
variable (more : pending s.rxq = e :: es)
include more

lemma pending_putBack (same : t.rxq = s.rxq) : pending (t.putBack e).rxq = es := by
  show pending (t.rxq.requeue e.id) = es
  rw [same]
  exact (pending_eq_cons more).2.2

lemma validIds_putBack (valid : ValidIds s.rxq)
    (same : t.rxq = s.rxq) : ValidIds (t.putBack e).rxq := by
  intro d member
  rw [pending_putBack more same] at member
  show d.id < t.rxq.size.setWidth 32
  rw [same]
  exact valid d (by rw [more]; exact mem_cons_of_mem _ member)

lemma noWait_putBack (same : t.rxq = s.rxq)
    (ourIp : t.ourIp = s.ourIp) :
    (t.putBack e).NoWait ↔
      Net.NoWait s.ourIp (rxFrame s.rxq) (hasFrame s.rxq) t.arpCache es := by
  rw [NetState.NoWait, pending_putBack more same]
  show Net.NoWait t.ourIp (rxFrame t.rxq) (hasFrame t.rxq) t.arpCache es ↔ _
  rw [same, ourIp]

end

end

/-- Without a frame that waits the loop ends, whatever the callback would do to poll again. -/
lemma pollLoop_of_noWait (clock : Nat → BitVec 64) (valid : ValidIds s.rxq) (calm : s.NoWait)
    (count : Nat) :
    ∃ t n, (∀ fuel f poll, pollLoop (netRx clock f poll) fuel count s =
        if (pending s.rxq).length < fuel then some (t, n) else none) ∧
      t.handed = s.handed ++ (pending s.rxq).filter (hasFrame s.rxq) ∧
      t.requeued = s.requeued ++ (pending s.rxq).map VirtqUsedElem.id ∧
      t.rxq.lastUsed = s.rxq.usedIdx := by
  generalize elements : pending s.rxq = es
  induction es generalizing s count with
  | nil =>
    have done := pending_eq_nil elements
    refine ⟨s, count, ?_, by simp, by simp, done⟩
    intro fuel f poll
    cases fuel with
    | zero => rfl
    | succ fuel => rw [pollLoop, if_pos done, length_nil, if_pos (Nat.zero_lt_succ _)]
  | cons e es ih =>
    -- the state that the callback leaves, and the turn that it belongs to
    have turn : ∃ u : NetState, u.rxq = s.rxq ∧
        u.handed = s.handed ++ [e].filter (hasFrame s.rxq) ∧ u.requeued = s.requeued ∧
        (u.putBack e).NoWait ∧
        ∀ fuel f poll, pollLoop (netRx clock f poll) (fuel + 1) count s =
          pollLoop (netRx clock f poll) fuel (count + 1) (u.putBack e) := by
      rw [NetState.NoWait, elements, Net.NoWait] at calm
      by_cases has : hasFrame s.rxq e
      · rw [if_pos has] at calm
        obtain ⟨u, called, quiet, cache⟩ :=
          netRx_of_not_waits clock (s := { s with handed := s.handed ++ [e] }) calm.1
        refine ⟨u, quiet.rxq, ?_, quiet.requeued, ?_, ?_⟩
        · rw [quiet.handed, filter_cons_of_pos has, filter_nil]
        · rw [noWait_putBack elements quiet.rxq quiet.ourIp, cache]
          exact calm.2
        · intro fuel f poll
          rw [pollLoop_turn _ _ _ elements valid, if_pos has, called f poll]
      · rw [if_neg has] at calm
        refine ⟨s, rfl, ?_, rfl, ?_, ?_⟩
        · rw [filter_cons_of_neg has, filter_nil, append_nil]
        · exact (noWait_putBack elements rfl rfl).mpr calm
        · intro fuel f poll
          rw [pollLoop_turn _ _ _ elements valid, if_neg has]
    obtain ⟨u, queue, handed, requeued, calm', step⟩ := turn
    obtain ⟨t, n, ran, handed', requeued', done⟩ := ih (validIds_putBack elements valid queue) calm'
      (count + 1) (pending_putBack elements queue)
    have same_has : hasFrame (u.putBack e).rxq = hasFrame s.rxq := by
      show hasFrame u.rxq = _
      rw [queue]
    refine ⟨t, n, ?_, ?_, ?_, ?_⟩
    · intro fuel f poll
      cases fuel with
      | zero => rfl
      | succ fuel =>
        rw [step, ran]
        simp only [length_cons, Nat.add_lt_add_iff_right]
    · rw [handed', same_has]
      show u.handed ++ _ = _
      rw [handed, append_assoc, ← filter_append, singleton_append]
    · rw [requeued']
      show (u.requeued ++ [e.id]) ++ _ = _
      rw [requeued, append_assoc, singleton_append, map_cons]
    · rw [done]
      show u.rxq.usedIdx = _
      rw [queue]

/-- With a frame that waits the loop does not end, if a poll in such a state does not. -/
lemma pollLoop_of_wait {clock : Nat → BitVec 64} (steady : Steady clock)
    (stuck : ∀ t : NetState, t.initialised → ValidIds t.rxq → ¬t.NoWait → poll t = none)
    (initialised : s.initialised) (valid : ValidIds s.rxq) (wait : ¬s.NoWait) (f fuel count : Nat) :
    pollLoop (netRx clock f poll) fuel count s = none := by
  induction fuel generalizing s count with
  | zero => rfl
  | succ fuel ih =>
    cases elements : pending s.rxq with
    | nil =>
      refine absurd ?_ wait
      rw [NetState.NoWait, elements]
      trivial
    | cons e es =>
      rw [pollLoop_turn _ _ _ elements valid]
      by_cases has : hasFrame s.rxq e
      · rw [if_pos has]
        by_cases waits : Waits s.ourIp s.arpCache (rxFrame s.rxq e) (rxLen e)
        · -- the nested poll starts with the same queue and the same cache
          rw [netRx_of_waits steady (s := { s with handed := s.handed ++ [e] }) waits]
          intro t quiet cache
          have queue : t.rxq = s.rxq := quiet.rxq
          have ourIp : t.ourIp = s.ourIp := quiet.ourIp
          have known : t.arpCache = s.arpCache := cache
          apply stuck t (quiet.initialised.trans initialised)
          · rw [queue]
            exact valid
          · rw [NetState.NoWait, queue, ourIp, known]
            exact wait
        · obtain ⟨u, called, quiet, cache⟩ :=
            netRx_of_not_waits clock (s := { s with handed := s.handed ++ [e] }) waits
          rw [called f poll]
          have still : (u.putBack e).initialised := quiet.initialised.trans initialised
          apply ih still (validIds_putBack elements valid quiet.rxq)
          rw [noWait_putBack elements quiet.rxq quiet.ourIp, cache]
          rw [NetState.NoWait, elements, Net.NoWait, if_pos has] at wait
          exact fun rest => wait ⟨waits, rest⟩
      · rw [if_neg has]
        have still : (s.putBack e).initialised := initialised
        apply ih still (validIds_putBack elements valid rfl)
        rw [noWait_putBack elements rfl rfl]
        rwa [NetState.NoWait, elements, Net.NoWait, if_neg has] at wait

lemma virtioNetRxPoll_of_wait {clock : Nat → BitVec 64} (steady : Steady clock) (fuel : Nat)
    (initialised : s.initialised) (valid : ValidIds s.rxq) (wait : ¬s.NoWait) :
    virtioNetRxPoll clock fuel s = none := by
  induction fuel generalizing s with
  | zero => rfl
  | succ fuel ih =>
    rw [virtioNetRxPoll, if_neg (by simp [initialised])]
    apply pollLoop_of_wait steady _ initialised valid wait
    intro t initialised' valid' wait'
    rw [ih initialised' valid' wait']
    rfl

/-- Whatever the clock does, the call returns, has handed every pending element to `net_rx` and put
back its descriptor exactly once and in order, and has nothing left to do. -/
def DealsWithAll (s : NetState) : Prop :=
  ∀ clock, ∃ fuel t n, virtioNetRxPoll clock fuel s = some (t, n) ∧
    t.handed = s.handed ++ pending s.rxq ∧
    t.requeued = s.requeued ++ (pending s.rxq).map VirtqUsedElem.id ∧
    t.rxq.lastUsed = s.rxq.usedIdx

/-- `virtio_net_rx_poll(net_rx)` deals with all pending elements exactly if each of them has a frame
and no frame makes `net_rx` wait for an ARP reply. -/
theorem rx_poll_deals_iff (s : NetState) (initialised : s.initialised) (valid : ValidIds s.rxq) :
    DealsWithAll s ↔ (∀ e ∈ pending s.rxq, hasFrame s.rxq e) ∧ s.NoWait := by
  have start : ∀ clock fuel, virtioNetRxPoll clock (fuel + 1) s =
      pollLoop (netRx clock fuel fun t => (virtioNetRxPoll clock fuel t).map Prod.fst)
        (fuel + 1) 0 s := by
    intro clock fuel
    rw [virtioNetRxPoll, if_neg (by simp [initialised])]
  constructor
  · intro deals
    obtain ⟨fuel, t, n, returned, handed, -, -⟩ := deals fun _ => 0#64
    have calm : s.NoWait := by
      by_contra wait
      have steady : Steady fun _ => 0#64 := fun _ => (by decide : 0#64 < 0#64 + 100#64)
      rw [virtioNetRxPoll_of_wait steady fuel initialised valid wait] at returned
      cases returned
    refine ⟨?_, calm⟩
    obtain ⟨u, n', ran, handed', -, -⟩ := pollLoop_of_noWait (fun _ => 0#64) valid calm 0
    cases fuel with
    | zero => cases returned
    | succ fuel =>
      rw [start, ran] at returned
      split at returned
      · obtain ⟨rfl, -⟩ := Prod.mk.inj (Option.some.inj returned)
        rw [handed'] at handed
        exact filter_eq_self.mp (append_cancel_left handed)
      · cases returned
  · rintro ⟨all, calm⟩ clock
    obtain ⟨t, n, ran, handed, requeued, done⟩ := pollLoop_of_noWait clock valid calm 0
    refine ⟨(pending s.rxq).length + 1, t, n, ?_, ?_, requeued, done⟩
    · rw [start, ran, if_pos (Nat.lt_succ_self _)]
    · rw [handed, filter_eq_self.mpr all]

/-- A freshly configured host, 10.0.2.15, for which the device has published one frame of 42
bytes. -/
def arrived (frame : List Byte) : NetState where
  netUp := true
  initialised := true
  rxq := { virtqInit 128#16 with
    usedIdx := 1#16
    usedRing := fun _ => ⟨0#32, 52#32⟩
    buffers := fun _ => 0x1000#64
    data := fun _ i => (replicate 10 0#8 ++ frame).getD i 0#8 }
  ourMac := [0x52#8, 0x54#8, 0#8, 0x12#8, 0x34#8, 0x56#8]
  ourIp := [10#8, 0#8, 2#8, 15#8]
  arpCache _ := ⟨[], [], false⟩
  pingPending := false
  pingSentTick := 0#64
  pingSeq := 0#16
  pingResult := -1
  ticksRead := 0
  sent := []
  handed := []
  requeued := []

def arpReplyFrame : List Byte :=
  [0x52#8, 0x54#8, 0#8, 0x12#8, 0x34#8, 0x56#8, 0x52#8, 0x55#8, 10#8, 0#8, 2#8, 2#8, 8#8, 6#8,
    0#8, 1#8, 8#8, 0#8, 6#8, 4#8, 0#8, 2#8, 0x52#8, 0x55#8, 10#8, 0#8, 2#8, 2#8, 10#8, 0#8, 2#8,
    2#8, 0x52#8, 0x54#8, 0#8, 0x12#8, 0x34#8, 0x56#8, 10#8, 0#8, 2#8, 15#8]

def echoRequestFrame : List Byte :=
  [0x52#8, 0x54#8, 0#8, 0x12#8, 0x34#8, 0x56#8, 0x52#8, 0x55#8, 10#8, 0#8, 2#8, 2#8, 8#8, 0#8,
    0x45#8, 0#8, 0#8, 28#8, 0#8, 0#8, 0#8, 0#8, 64#8, 1#8, 0x62#8, 0xD1#8, 10#8, 0#8, 2#8, 2#8,
    10#8, 0#8, 2#8, 15#8, 8#8, 0#8, 0xE5#8, 0xCA#8, 0x12#8, 0x34#8, 0#8, 1#8]

lemma pending_arrived (frame : List Byte) : pending (arrived frame).rxq = [⟨0#32, 52#32⟩] := by
  have one : ((arrived frame).rxq.usedIdx - (arrived frame).rxq.lastUsed).toNat = 1 := by
    show (1#16 - 0#16).toNat = 1
    decide
  rw [pending, one]
  rfl

lemma validIds_arrived (frame : List Byte) : ValidIds (arrived frame).rxq := by
  intro e member
  rw [pending_arrived, mem_singleton] at member
  subst member
  show 0#32 < BitVec.setWidth 32 (cappedSize 128#16)
  decide

lemma hasFrame_arrived (frame : List Byte) : hasFrame (arrived frame).rxq ⟨0#32, 52#32⟩ = true := by
  show decide (10#32 < 52#32 ∧ 0x1000#64 ≠ 0#64) = true
  decide

theorem rx_poll_deals_iff_arp_reply : DealsWithAll (arrived arpReplyFrame) := by
  apply (rx_poll_deals_iff (arrived arpReplyFrame) rfl (validIds_arrived _)).mpr
  constructor
  · intro e member
    rw [pending_arrived, mem_singleton] at member
    rw [member, hasFrame_arrived]
  · rw [NetState.NoWait, pending_arrived, Net.NoWait, if_pos (hasFrame_arrived _)]
    refine ⟨?_, trivial⟩
    intro waits
    exact absurd waits.1.ipv4 (by decide)

lemma waits_echoRequest :
    Waits (arrived echoRequestFrame).ourIp (arrived echoRequestFrame).arpCache
      (rxFrame (arrived echoRequestFrame).rxq ⟨0#32, 52#32⟩) (rxLen ⟨0#32, 52#32⟩) :=
  ⟨by constructor <;> decide, by decide, by decide⟩

/-- One echo request from a sender that is not in the cache: the poll does not return, whatever the
clock does short of a jump by a second between two readings. -/
theorem echo_request_never_returns :
    ¬∃ clock fuel t n, Steady clock ∧
      virtioNetRxPoll clock fuel (arrived echoRequestFrame) = some (t, n) := by
  rintro ⟨clock, fuel, t, n, steady, returned⟩
  have wait : ¬(arrived echoRequestFrame).NoWait := by
    rw [NetState.NoWait, pending_arrived, Net.NoWait, if_pos (hasFrame_arrived _)]
    exact fun calm => calm.1 waits_echoRequest
  rw [virtioNetRxPoll_of_wait steady fuel rfl (validIds_arrived _) wait] at returned
  cases returned

end MicroOs.Net
