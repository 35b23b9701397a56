import MicroOs.Net.Proofs.Checksum
import MicroOs.Net.Proofs.RxPoll

/-!
# Answers to echo requests

What `net_rx` does with an IPv4 frame whose sender is in the ARP cache. An echo request is answered
with one frame; every other frame that is not the reply to a ping leaves the state as it is.
-/

namespace MicroOs.Net
open Lib List
open Function (update update_of_ne)

/-- The addresses are as long as the arrays that hold them. -/
structure NetState.Sized (s : NetState) : Prop where
  ourMac : s.ourMac.length = 6
  ourIp : s.ourIp.length = 4
  mac : ∀ i, (s.arpCache i).mac.length = 6

lemma netInit_sized {ip mac : List Byte} (ip_length : ip.length = 4) (mac_length : mac.length = 6)
    (s : NetState) : (netInit ip mac s).Sized where
  ourMac := mac_length
  ourIp := ip_length
  mac _ := length_replicate

lemma arpInsert_mac_length {cache : ArpCache} {ip mac : List Byte}
    (sized : ∀ i, (cache i).mac.length = 6) (length : mac.length = 6) (i : Nat) :
    (arpInsert cache ip mac i).mac.length = 6 := by
  have stored : ∀ (k : Nat) (e : ArpEntry), e.mac.length = 6 →
      (update cache k e i).mac.length = 6 := by
    intro k e new
    by_cases here : i = k
    · subst here
      rwa [Function.update_self]
    · rw [update_of_ne here]
      exact sized i
  unfold arpInsert
  cases arpLookup cache ip with
  | some k =>
    apply stored
    exact length
  | none =>
    cases (range arpCacheSize).find? fun i => !(cache i).valid with
    | some k =>
      apply stored
      exact length
    | none =>
      apply stored
      exact length

/-- The slot is in use for `ip`. -/
abbrev ArpCache.Has (cache : ArpCache) (ip : List Byte) (i : Nat) : Prop :=
  (cache i).valid = true ∧ (cache i).ip = ip

/-- The hardware address that the cache has for `ip`. -/
def ArpCache.macOf (cache : ArpCache) (ip : List Byte) : Option (List Byte) :=
  (arpLookup cache ip).map fun i => (cache i).mac

def ArpCache.insertAll : ArpCache → List (List Byte × List Byte) → ArpCache :=
  foldl fun cache e => arpInsert cache e.1 e.2

/-- The insertion of `ip` takes slot 0 from `x`. -/
structure ArpCache.Evicts (cache : ArpCache) (ip x : List Byte) : Prop where
  missing : arpLookup cache ip = none
  full : ∀ i < arpCacheSize, (cache i).valid = true
  first : (cache 0).ip = x

section
variable {cache : ArpCache} {ip mac x : List Byte} {i k : Nat}

lemma arpLookup_eq_some : arpLookup cache ip = some i ↔
    cache.Has ip i ∧ i < arpCacheSize ∧ ∀ j < i, ¬cache.Has ip j := by
  simp [arpLookup, find?_range_eq_some, ArpCache.Has, imp_iff_not_or]

lemma macOf_update_self (inside : k < arpCacheSize) (first : ∀ j < k, ¬cache.Has ip j) :
    ArpCache.macOf (update cache k ⟨ip, mac, true⟩) ip = some mac := by
  have found : arpLookup (update cache k ⟨ip, mac, true⟩) ip = some k := by
    refine arpLookup_eq_some.mpr ⟨by simp [ArpCache.Has], inside, fun j before => ?_⟩
    rw [ArpCache.Has, update_of_ne before.ne]
    exact first j before
  simp [ArpCache.macOf, found]

lemma macOf_update_of_ne (other : x ≠ ip) (absent : ¬cache.Has x k) :
    ArpCache.macOf (update cache k ⟨ip, mac, true⟩) x = cache.macOf x := by
  have same (j : Nat) : ArpCache.Has (update cache k ⟨ip, mac, true⟩) x j ↔ cache.Has x j := by
    by_cases here : j = k
    · subst here
      simp [absent, other.symm]
    · rw [ArpCache.Has, update_of_ne here]
  have lookup : arpLookup (update cache k ⟨ip, mac, true⟩) x = arpLookup cache x := by
    simp only [arpLookup, same]
  unfold ArpCache.macOf
  rw [lookup]
  refine Option.map_congr fun j found => ?_
  have there := (arpLookup_eq_some.mp found).1
  rw [update_of_ne (by rintro rfl; exact absent there)]

lemma macOf_arpInsert (cache : ArpCache) (ip mac : List Byte) :
    ArpCache.macOf (arpInsert cache ip mac) ip = some mac ∧ ∀ x, x ≠ ip → ¬cache.Evicts ip x →
      ArpCache.macOf (arpInsert cache ip mac) x = cache.macOf x := by
  unfold arpInsert
  cases known : arpLookup cache ip with
  | some k =>
    obtain ⟨⟨valid, rfl⟩, inside, first⟩ := arpLookup_eq_some.mp known
    simp only [valid]
    refine ⟨macOf_update_self inside first, fun x other _ => macOf_update_of_ne other ?_⟩
    exact fun there => other there.2.symm
  | none =>
    cases free : (range arpCacheSize).find? fun i => !(cache i).valid with
    | some k =>
      have unused : (cache k).valid = false := by simpa using find?_some free
      have inside := mem_range.mp (mem_of_find?_eq_some free)
      refine ⟨macOf_update_self inside fun j before => ?_, fun x other _ => ?_⟩
      · simpa using find?_eq_none.mp known j (mem_range.mpr (before.trans inside))
      · exact macOf_update_of_ne other (by simp [unused])
    | none =>
      have full : ∀ i < arpCacheSize, (cache i).valid = true := by simpa using free
      simp only [full 0 (by decide)]
      refine ⟨macOf_update_self (by decide) nofun, fun x other kept => ?_⟩
      exact macOf_update_of_ne other fun there => kept ⟨known, full, there.2⟩

/-- A host is found with the hardware address of its latest insertion, whatever is inserted for
others, until a full cache gives its slot away. -/
theorem arp_finds_latest (cache : ArpCache) (later : List (List Byte × List Byte))
    (others : ∀ e ∈ later, e.1 ≠ ip) (kept : ∀ before e after, later = before ++ e :: after →
      ¬((arpInsert cache ip mac).insertAll before).Evicts e.1 ip) :
    ((arpInsert cache ip mac).insertAll later).macOf ip = some mac := by
  induction later using reverseRecOn with
  | nil => exact (macOf_arpInsert cache ip mac).1
  | append_singleton before e ih =>
    have step := (macOf_arpInsert ((arpInsert cache ip mac).insertAll before) e.1 e.2).2 ip
      (others e (by simp)).symm (kept before e [] rfl)
    rw [ArpCache.insertAll, foldl_concat]
    refine step.trans (ih (fun e mem => others e (mem_append_left _ mem)) ?_)
    exact fun front f rest split => kept front f (rest ++ [e]) (by simp [split])

theorem arp_finds_latest_two :
    ((arpInsert (fun _ => ⟨[], [], false⟩) [1#8] [2#8]).insertAll [([3#8], [4#8])]).macOf [1#8] =
      some [2#8] := by
  refine arp_finds_latest _ _ (by decide) fun before e after split evicts => ?_
  cases before with
  | nil => exact absurd (evicts.full 15 (by decide)) (by decide)
  | cons _ before => simp at split

end

lemma sendFrame_sized {s : NetState} (sized : s.Sized) (dstMac : List Byte)
    (ethertype : BitVec 16) (bytes : List Byte) : (s.sendFrame dstMac ethertype bytes).Sized := by
  unfold NetState.sendFrame
  split
  · exact sized
  · exact ⟨sized.ourMac, sized.ourIp, sized.mac⟩

lemma handleArp_sized {s : NetState} (sized : s.Sized) (data : Nat → Byte) (len : Nat) :
    (s.handleArp data len).Sized := by
  have learned : ({ s with arpCache := arpInsert s.arpCache (window data 14 4) (window data 8 6) } :
      NetState).Sized :=
    ⟨sized.ourMac, sized.ourIp, arpInsert_mac_length sized.mac (length_window _ _ _)⟩
  unfold NetState.handleArp
  split
  · exact sized
  · split
    · exact sendFrame_sized learned _ _ _
    · exact learned

section

variable {s : NetState} {dstIp mac icmp bytes : List Byte} {protocol : Byte}

def ipv4Before (protocol : Byte) (bytes : List Byte) : List Byte :=
  [0x45#8, 0#8] ++ be16 (BitVec.ofNat 16 (20 + bytes.length)) ++ replicate 4 0#8 ++
    [64#8, protocol]

def ipv4Header (s : NetState) (dstIp : List Byte) (protocol : Byte) (bytes : List Byte)
    (sum : BitVec 16) : List Byte :=
  ipv4Before protocol bytes ++ memory16 sum ++ (s.ourIp ++ dstIp)

lemma ipv4Pkt_eq (s : NetState) (dstIp : List Byte) (protocol : Byte) (bytes : List Byte) :
    s.ipv4Pkt dstIp protocol bytes =
      ipv4Header s dstIp protocol bytes
        (ipChecksum (bytesOf (ipv4Header s dstIp protocol bytes 0#16)) 20) ++ bytes := rfl

section
variable (sized : s.Sized) (ip : dstIp.length = 4)
include sized ip

lemma length_ipv4Header (sum : BitVec 16) :
    (ipv4Header s dstIp protocol bytes sum).length = 20 := by
  unfold ipv4Header
  rw [length_append, length_append, length_append, sized.ourIp, ip]
  rfl

lemma length_ipv4Pkt : (s.ipv4Pkt dstIp protocol bytes).length = 20 + bytes.length := by
  rw [ipv4Pkt_eq, length_append, length_ipv4Header sized ip]

lemma ipv4Pkt_checksum : ipChecksum (bytesOf (s.ipv4Pkt dstIp protocol bytes)) 20 = 0#16 := by
  have stored : bytesOf (ipv4Header s dstIp protocol bytes
        (ipChecksum (bytesOf (ipv4Header s dstIp protocol bytes 0#16)) 20)) =
      put16 (bytesOf (ipv4Header s dstIp protocol bytes 0#16)) (2 * 5)
        (ipChecksum (bytesOf (ipv4Header s dstIp protocol bytes 0#16)) 20) :=
    bytesOf_put16 (ipv4Before protocol bytes) (s.ourIp ++ dstIp) _ _ _
  rw [ipv4Pkt_eq, ipChecksum_congr (by omega) fun k inside =>
    bytesOf_append_of_lt _ (by rwa [length_ipv4Header sized ip]), stored]
  exact ipChecksum_stored (by omega) (by omega) (append_halves 8 0#16)

end

lemma window_bytesOf (x y z : List Byte) :
    window (bytesOf (x ++ (y ++ z))) x.length y.length = y := by
  apply ext_getElem?
  intro k
  rcases Nat.lt_or_ge k y.length with inside | outside
  · rw [getElem?_window _ _ inside, bytesOf_append_add, bytesOf_append_of_lt _ inside, bytesOf,
      getD_eq_getElem _ _ inside, List.getElem?_eq_getElem inside]
  · rw [getElem?_window_of_ge _ _ outside, getElem?_eq_none outside]

lemma ipv4Pkt_src (sized : s.Sized) :
    window (bytesOf (s.ipv4Pkt dstIp protocol bytes)) 12 4 = s.ourIp := by
  have part := window_bytesOf (ipv4Before protocol bytes ++
    memory16 (ipChecksum (bytesOf (ipv4Header s dstIp protocol bytes 0#16)) 20)) s.ourIp
    (dstIp ++ bytes)
  rw [sized.ourIp] at part
  rw [ipv4Pkt_eq, ipv4Header, append_assoc, append_assoc s.ourIp]
  exact part

lemma ipv4Pkt_dst (sized : s.Sized) (ip : dstIp.length = 4) :
    window (bytesOf (s.ipv4Pkt dstIp protocol bytes)) 16 4 = dstIp := by
  have part := window_bytesOf (ipv4Before protocol bytes ++
    memory16 (ipChecksum (bytesOf (ipv4Header s dstIp protocol bytes 0#16)) 20) ++ s.ourIp) dstIp
    bytes
  rw [ip, length_append, sized.ourIp] at part
  rw [ipv4Pkt_eq, ipv4Header, ← append_assoc, append_assoc _ dstIp]
  exact part

lemma ipv4Pkt_totalLen (s : NetState) (dstIp : List Byte) (protocol : Byte) (bytes : List Byte) :
    be16At (bytesOf (s.ipv4Pkt dstIp protocol bytes)) 2 = BitVec.ofNat 16 (20 + bytes.length) :=
  append_halves 8 _

lemma ipv4Pkt_rest (sized : s.Sized) (ip : dstIp.length = 4) (i : Nat) :
    bytesOf (s.ipv4Pkt dstIp protocol bytes) (20 + i) = bytesOf bytes i := by
  have part := bytesOf_append_add (ipv4Header s dstIp protocol bytes
    (ipChecksum (bytesOf (ipv4Header s dstIp protocol bytes 0#16)) 20)) bytes i
  rw [length_ipv4Header sized ip] at part
  exact part

lemma bytesOf_echoReply (long : 8 ≤ icmp.length) :
    bytesOf (echoReply icmp) =
      put16 (bytesOf (((icmp.set 0 icmpEchoReply).set 2 0#8).set 3 0#8)) 2
        (ipChecksum (bytesOf (((icmp.set 0 icmpEchoReply).set 2 0#8).set 3 0#8)) icmp.length) := by
  unfold echoReply
  rw [bytesOf_set _ (by simp only [length_set]; omega),
    bytesOf_set _ (by simp only [length_set]; omega)]
  rfl

lemma length_echoReply (icmp : List Byte) : (echoReply icmp).length = icmp.length := by
  simp only [echoReply, length_set]

section
variable (long : 8 ≤ icmp.length)
include long

lemma bytesOf_cleared :
    bytesOf (((icmp.set 0 icmpEchoReply).set 2 0#8).set 3 0#8) =
      update (update (update (bytesOf icmp) 0 icmpEchoReply) 2 0#8)
        3 0#8 := by
  rw [bytesOf_set _ (by simp only [length_set]; omega),
    bytesOf_set _ (by simp only [length_set]; omega), bytesOf_set _ (by omega)]

lemma echoReply_checksum (short : icmp.length ≤ 65535) :
    ipChecksum (bytesOf (echoReply icmp)) icmp.length = 0#16 := by
  rw [bytesOf_echoReply long]
  refine ipChecksum_stored (k := 1) short (by omega) ?_
  rw [bytesOf_cleared long]
  exact append_halves 8 0#16

lemma echoReply_type : bytesOf (echoReply icmp) 0 = icmpEchoReply := by
  rw [bytesOf_echoReply long, put16_of_apart _ _ (by omega), bytesOf_cleared long]
  rfl

lemma echoReply_rest {k : Nat} (type : k ≠ 0) (low : k ≠ 2) (high : k ≠ 3) :
    bytesOf (echoReply icmp) k = bytesOf icmp k := by
  rw [bytesOf_echoReply long, put16_of_apart _ _ (by omega), bytesOf_cleared long,
    update_of_ne high, update_of_ne low, update_of_ne type]

end

end

/-- `reply` answers the echo request `frame` and goes to the Ethernet address `mac`. -/
structure NetState.Answers (s : NetState) (mac : List Byte) (frame : Nat → Byte) (len : Nat)
    (reply : List Byte) : Prop where
  length : reply.length = 14 + ipLength frame len
  dstMac : window (bytesOf reply) 0 6 = mac
  srcMac : window (bytesOf reply) 6 6 = s.ourMac
  ethertype : be16At (bytesOf reply) 12 = ethertypeIpv4
  src : source (bytesOf reply) = s.ourIp
  dst : window (payload (bytesOf reply)) 16 4 = source frame
  totalLen : (be16At (payload (bytesOf reply)) 2).toNat = ipLength frame len
  protocol : payload (bytesOf reply) 9 = ipProtoIcmp
  checksum : ipChecksum (payload (bytesOf reply)) 20 = 0#16
  type : payload (bytesOf reply) 20 = icmpEchoReply
  icmp : ∀ k, 20 ≤ k → k < ipLength frame len → k ≠ 20 → k ≠ 22 → k ≠ 23 →
    payload (bytesOf reply) k = payload frame k
  icmpChecksum :
    ipChecksum (fun i => payload (bytesOf reply) (20 + i)) (ipLength frame len - 20) = 0#16

section

variable {s : NetState} {mac : List Byte} {frame : Nat → Byte} {len : Nat}

lemma sendFrame_of_short (s : NetState) (mac : List Byte) (ethertype : BitVec 16)
    {bytes : List Byte} (short : bytes.length ≤ 1504) :
    s.sendFrame mac ethertype bytes =
      { s with sent := s.sent ++ [mac ++ s.ourMac ++ be16 ethertype ++ bytes] } := by
  unfold NetState.sendFrame
  rw [if_neg (by omega)]

lemma length_source (frame : Nat → Byte) : (source frame).length = 4 := length_window _ _ _

lemma sent_header (sized : s.Sized) (length : mac.length = 6) (type : BitVec 16)
    (pkt : List Byte) :
    window (bytesOf (mac ++ s.ourMac ++ be16 type ++ pkt)) 0 6 = mac ∧
      window (bytesOf (mac ++ s.ourMac ++ be16 type ++ pkt)) 6 6 = s.ourMac ∧
      be16At (bytesOf (mac ++ s.ourMac ++ be16 type ++ pkt)) 12 = type ∧
      payload (bytesOf (mac ++ s.ourMac ++ be16 type ++ pkt)) = bytesOf pkt := by
  have first := window_bytesOf [] mac (s.ourMac ++ (be16 type ++ pkt))
  have second := window_bytesOf mac s.ourMac (be16 type ++ pkt)
  have at12 := bytesOf_append_add (mac ++ s.ourMac) (be16 type ++ pkt)
  have rest := bytesOf_append_add (mac ++ s.ourMac ++ be16 type) pkt
  simp only [length_append, length, sized.ourMac] at first second at12 rest
  rw [append_assoc (mac ++ s.ourMac)] at rest ⊢
  refine ⟨?_, ?_, ?_, funext rest⟩
  · rw [append_assoc]
    exact first
  · rw [append_assoc]
    exact second
  · rw [be16At, at12 0, at12 1]
    exact append_halves 8 type

lemma answers_of_echo (sized : s.Sized) (length : mac.length = 6)
    (echo : IsEchoRequest s.ourIp frame len) :
    s.Answers mac frame len (mac ++ s.ourMac ++ be16 ethertypeIpv4 ++
      s.ipv4Pkt (source frame) ipProtoIcmp
        (echoReply (window (payload frame) 20 (ipLength frame len - 20)))) := by
  have ip := length_source frame
  have long := echo.long
  have short := echo.short
  have icmpLength : (window (payload frame) 20 (ipLength frame len - 20)).length =
      ipLength frame len - 20 := length_window _ _ _
  have eight : 8 ≤ (window (payload frame) 20 (ipLength frame len - 20)).length := by omega
  have copied : ∀ k, k < ipLength frame len - 20 →
      bytesOf (window (payload frame) 20 (ipLength frame len - 20)) k = payload frame (20 + k) := by
    intro k inside
    rw [bytesOf, getD_eq_getElem?_getD, getElem?_window _ _ inside]
    rfl
  generalize window (payload frame) 20 (ipLength frame len - 20) = icmp at icmpLength eight copied
  have whole : 20 + (echoReply icmp).length = ipLength frame len := by
    rw [length_echoReply]
    omega
  have below := (be16At (payload frame) 2).isLt
  have size : (mac ++ s.ourMac ++ be16 ethertypeIpv4 ++
      s.ipv4Pkt (source frame) ipProtoIcmp (echoReply icmp)).length = 14 + ipLength frame len := by
    rw [length_append, length_append, length_append, length, sized.ourMac,
      length_ipv4Pkt sized ip, whole]
    rfl
  obtain ⟨dstMac, srcMac, ethertype, carried⟩ := sent_header sized length ethertypeIpv4
    (s.ipv4Pkt (source frame) ipProtoIcmp (echoReply icmp))
  generalize mac ++ s.ourMac ++ be16 ethertypeIpv4 ++ _ = sent at *
  refine ⟨size, dstMac, srcMac, ethertype, ?src, ?dst, ?totalLen, ?protocol, ?checksum, ?type,
    ?icmp, ?icmpChecksum⟩
  case src =>
    rw [source, carried]
    exact ipv4Pkt_src sized
  case dst =>
    rw [carried]
    exact ipv4Pkt_dst sized ip
  case totalLen =>
    rw [carried, ipv4Pkt_totalLen, whole, BitVec.toNat_ofNat]
    exact Nat.mod_eq_of_lt (Nat.lt_of_le_of_lt (Nat.min_le_left _ _) below)
  case protocol =>
    rw [carried]
    rfl
  case checksum =>
    rw [carried]
    exact ipv4Pkt_checksum sized ip
  case type =>
    rw [carried]
    exact (ipv4Pkt_rest sized ip 0).trans (echoReply_type eight)
  case icmp =>
    intro k low high type sumLow sumHigh
    obtain ⟨j, rfl⟩ := Nat.exists_eq_add_of_le low
    rw [carried, ipv4Pkt_rest sized ip, echoReply_rest eight (by omega) (by omega) (by omega),
      copied j (by omega)]
  case icmpChecksum =>
    have rest : (fun i => payload (bytesOf sent) (20 + i)) = bytesOf (echoReply icmp) := by
      rw [carried]
      exact funext (ipv4Pkt_rest sized ip)
    rw [rest, ← icmpLength]
    exact echoReply_checksum eight (by omega)

/-- An echo request from a host in the ARP cache is answered with one frame; an IPv4 frame that is
neither an echo request nor the reply to the ping in progress is dropped. -/
theorem netRx_answers_echo (clock : Nat → BitVec 64) (fuel : Nat)
    (poll : NetState → Option NetState) (sized : s.Sized) :
    (∀ i, arpLookup s.arpCache (source frame) = some i → source frame ≠ bcastIp →
      IsEchoRequest s.ourIp frame len →
        ∃ reply, netRx clock fuel poll frame len s = some { s with sent := s.sent ++ [reply] } ∧
          s.Answers (s.arpCache i).mac frame len reply) ∧
    (be16At frame 12 = ethertypeIpv4 → ¬IsEchoRequest s.ourIp frame len →
      ¬s.IsPingReply frame len → netRx clock fuel poll frame len s = some s) := by
  constructor
  · intro i known unicast echo
    refine ⟨_, ?_, answers_of_echo sized (sized.mac i) echo⟩
    have short : (s.ipv4Pkt (source frame) ipProtoIcmp
        (echoReply (window (payload frame) 20 (ipLength frame len - 20)))).length ≤ 1504 := by
      have fits := echo.short
      rw [length_ipv4Pkt sized (length_source frame), length_echoReply, length_window]
      omega
    rw [netRx_of_echo clock fuel poll echo, sendIpv4, arpResolve, if_neg unicast, known]
    simp only [sendFrame_of_short s _ _ short]
  · exact netRx_of_ipv4 clock fuel poll

def acquainted : NetState :=
  (netInit (arrived []).ourIp (arrived []).ourMac (arrived [])).handleArp
    (payload (bytesOf arpReplyFrame)) 28

theorem netRx_answers_echo_acquainted :
    ∃ reply, netRx (fun _ => 0#64) 0 (fun _ => none) (bytesOf echoRequestFrame) 42 acquainted =
        some { acquainted with sent := acquainted.sent ++ [reply] } ∧
      acquainted.Answers (acquainted.arpCache 0).mac (bytesOf echoRequestFrame) 42 reply := by
  have sized : acquainted.Sized := handleArp_sized (netInit_sized rfl rfl _) _ _
  apply (netRx_answers_echo (fun _ => 0#64) 0 (fun _ => none) sized).1
  · decide +kernel
  · decide
  · constructor <;> decide

end

/-- `sendFrame` drops the frames for which the code returns -1. -/
lemma sendFrameLen_eq_none_iff (n : Nat) :
    sendFrameLen (.ofNat 16 n) = none ↔ 1518 < (14 + n) % 2 ^ 16 := by
  rw [sendFrameLen, ite_eq_left_iff]
  simp only [reduceCtorEq, imp_false, not_not]
  bv_omega

/-- The writes stay in the buffer, and the length is the exact sum. -/
def ExactIn (buffer sum : Nat) (r : Nat × BitVec 16) : Prop := r.1 ≤ buffer ∧ r.2.toNat = sum

/-- `send_frame` is exact unless 14 more wrap around, `send_ipv4` if and only if the packet fits. -/
theorem send_lengths_exact_iff (len : BitVec 16) :
    ((∀ r ∈ sendFrameLen len, ExactIn 1518 (14 + len.toNat) r) ↔ len < 65522#16) ∧
    ((ExactIn 1500 (20 + len.toNat) (sendIpv4Len len).1 ∧
      ∀ r ∈ (sendIpv4Len len).2, ExactIn 1518 (34 + len.toNat) r) ↔ len ≤ 1480#16) := by
  simp only [sendIpv4Len, sendFrameLen, ExactIn]
  constructor
  · split <;> simp <;> bv_omega
  · split <;> simp <;> bv_omega

theorem long_payloads_overflow :
    (∃ r ∈ sendFrameLen 65535#16, 1518 < r.1) ∧ 1500 < (sendIpv4Len 1481#16).1.1 := by
  decide

end MicroOs.Net
