import MicroOs.Net.Proofs.Echo

/-!
# What ends a ping

`net_ping` notes a sequence number and waits for an echo reply that carries it; `handle_icmp` looks
at neither the source nor the identifier of a reply. The frames handled after `net_ping` are the
events of a transition system; every call of `net_rx`, `virtio_net_rx_poll`, `net_ping` and
`net_ping_check` is a run of it.
-/

namespace MicroOs.Net
open Lib List

variable {deadline : BitVec 64} {ip : List Byte} {mac : Option (List Byte)} {n : Nat} {u : NetState}

abbrev Frame := (Nat → Byte) × Nat

structure PingSame (s t : NetState) : Prop where
  ourIp : t.ourIp = s.ourIp
  pingPending : t.pingPending = s.pingPending
  pingSentTick : t.pingSentTick = s.pingSentTick
  pingSeq : t.pingSeq = s.pingSeq
  pingResult : t.pingResult = s.pingResult

lemma PingSame.refl (s : NetState) : PingSame s s := ⟨rfl, rfl, rfl, rfl, rfl⟩

lemma sendFrame_pingSame (s : NetState) (mac : List Byte) (ethertype : BitVec 16)
    (bytes : List Byte) : PingSame s (s.sendFrame mac ethertype bytes) := by
  unfold NetState.sendFrame
  split
  · exact PingSame.refl s
  · exact ⟨rfl, rfl, rfl, rfl, rfl⟩

lemma handleArp_pingSame (s : NetState) (data : Nat → Byte) (len : Nat) :
    PingSame s (s.handleArp data len) := by
  unfold NetState.handleArp
  split
  · exact PingSame.refl s
  · split
    · have sent := sendFrame_pingSame
        { s with arpCache := arpInsert s.arpCache (window data 14 4) (window data 8 6) }
        (window data 8 6) ethertypeArp (NetState.arpPkt s 2#16 (window data 8 6) (window data 14 4))
      exact ⟨sent.ourIp, sent.pingPending, sent.pingSentTick, sent.pingSeq, sent.pingResult⟩
    · exact ⟨rfl, rfl, rfl, rfl, rfl⟩

section

variable (clock : Nat → BitVec 64) {s t : NetState} {frame : Nat → Byte} {len : Nat}

lemma netRx_pingSame (fuel : Nat) (poll : NetState → Option NetState)
    (calm : ¬Waits s.ourIp s.arpCache frame len) (not_reply : ¬s.IsPingReply frame len)
    (handled : netRx clock fuel poll frame len s = some t) : PingSame s t := by
  by_cases ipv4 : be16At frame 12 = ethertypeIpv4
  · by_cases echo : IsEchoRequest s.ourIp frame len
    · rw [netRx_of_echo clock fuel poll echo, sendIpv4, arpResolve] at handled
      by_cases everyone : source frame = bcastIp
      · rw [if_pos everyone] at handled
        cases handled
        exact sendFrame_pingSame _ _ _ _
      · cases known : arpLookup s.arpCache (source frame) with
        | none => exact absurd ⟨echo, everyone, known⟩ calm
        | some i =>
          rw [if_neg everyone, known] at handled
          cases handled
          exact sendFrame_pingSame _ _ _ _
    · rw [netRx_of_ipv4 clock fuel poll ipv4 echo not_reply] at handled
      cases handled
      exact PingSame.refl s
  · unfold netRx at handled
    rw [if_neg ipv4] at handled
    split at handled
    · cases handled
      exact PingSame.refl s
    · split at handled
      · cases handled
        exact handleArp_pingSame _ _ _
      · cases handled
        exact PingSame.refl s

/-- One step while a ping is in progress: a frame is handled, a frame is taken up that has to wait
for ARP, or something happens that is not about the ping. -/
inductive PingStep : NetState → Option Frame → NetState → Prop
  | frame {s t : NetState} {frame : Nat → Byte} {len : Nat}
      (calm : ¬Waits s.ourIp s.arpCache frame len)
      (handled : ∀ fuel poll, netRx clock fuel poll frame len s = some t) :
      PingStep s (some (frame, len)) t
  | waits {s : NetState} {frame : Nat → Byte} {len : Nat}
      (waits : Waits s.ourIp s.arpCache frame len) : PingStep s (some (frame, len)) s
  | other {s t : NetState} (same : PingSame s t) : PingStep s none t

def Leads (s t : NetState) : Prop := ∃ trace, Run (PingStep clock) s trace t

lemma Leads.refl (s : NetState) : Leads clock s s := ⟨[], .nil⟩

variable {clock}

lemma Leads.step {e : Option Frame} (run : Leads clock s t) (step : PingStep clock t e u) :
    Leads clock s u := by
  obtain ⟨trace, run⟩ := run
  exact ⟨_, run.snoc step⟩

lemma Leads.trans (first : Leads clock s t) (second : Leads clock t u) : Leads clock s u := by
  obtain ⟨_, first⟩ := first
  obtain ⟨_, second⟩ := second
  exact ⟨_, first.append second⟩

lemma Leads.other (same : PingSame s t) :
    Leads clock s t := (Leads.refl clock s).step (.other same)

lemma timerTicks_leads (clock : Nat → BitVec 64) (s : NetState) :
    Leads clock s (timerTicks clock s).2 := .other ⟨rfl, rfl, rfl, rfl, rfl⟩

variable {poll : NetState → Option NetState} {fuel : Nat}

section
variable (polls : ∀ s t, poll s = some t → Leads clock s t)
include polls

lemma arpWait_leads (waited : arpWait clock poll ip deadline fuel s = some (mac, t)) :
    Leads clock s t := by
  induction fuel generalizing s with
  | zero => cases waited
  | succ fuel ih =>
    have ticked := timerTicks_leads clock s
    simp only [arpWait] at waited
    generalize timerTicks clock s = r at ticked waited
    split at waited
    · cases polled : poll r.2 with
      | none =>
        rw [polled] at waited
        cases waited
      | some u =>
        have reached := ticked.trans (polls _ _ polled)
        rw [polled] at waited
        cases found : arpLookup u.arpCache ip with
        | none =>
          simp only [found] at waited
          exact reached.trans (ih waited)
        | some i =>
          simp only [found] at waited
          cases waited
          exact reached
    · cases waited
      exact ticked

lemma arpRetry_leads {retries : Nat}
    (retried : arpRetry clock fuel poll ip retries s = some (mac, t)) : Leads clock s t := by
  induction retries generalizing s with
  | zero =>
    cases retried
    exact Leads.refl clock _
  | succ retries ih =>
    simp only [arpRetry] at retried
    have asked : Leads clock s (s.arpSendRequest ip) := .other (sendFrame_pingSame _ _ _ _)
    have ticked := asked.trans (timerTicks_leads clock _)
    generalize timerTicks clock (s.arpSendRequest ip) = r at ticked retried
    cases waited : arpWait clock poll ip (r.1 + 100#64) fuel r.2 with
    | none =>
      rw [waited] at retried
      cases retried
    | some result =>
      obtain ⟨found, u⟩ := result
      have reached := ticked.trans (arpWait_leads polls waited)
      rw [waited] at retried
      cases found with
      | none => exact reached.trans (ih retried)
      | some mac =>
        cases retried
        exact reached

lemma arpResolve_leads (resolved : arpResolve clock fuel poll ip s = some (mac, t)) :
    Leads clock s t := by
  unfold arpResolve at resolved
  split at resolved
  · cases resolved
    exact Leads.refl clock _
  · split at resolved
    · cases resolved
      exact Leads.refl clock _
    · exact arpRetry_leads polls resolved

lemma sendIpv4_leads {bytes : List Byte} {protocol : Byte}
    (sent : sendIpv4 clock fuel poll ip protocol bytes s = some t) : Leads clock s t := by
  unfold sendIpv4 at sent
  split at sent
  · cases sent
  · next resolved =>
    cases sent
    exact arpResolve_leads polls resolved
  · next resolved =>
    cases sent
    exact (arpResolve_leads polls resolved).trans (.other (sendFrame_pingSame _ _ _ _))

lemma netRx_leads (handled : netRx clock fuel poll frame len s = some t) : Leads clock s t := by
  by_cases waits : Waits s.ourIp s.arpCache frame len
  · rw [netRx_of_echo clock fuel poll waits.1] at handled
    exact ((Leads.refl clock s).step (.waits waits)).trans (sendIpv4_leads polls handled)
  · obtain ⟨u, always, -, -⟩ := netRx_of_not_waits clock waits
    obtain rfl : u = t := Option.mem_unique (always fuel poll) handled
    exact (Leads.refl clock s).step (.frame waits always)

lemma netPing_leads {dst : List Byte} {b : Bool} (up : s.netUp = true)
    (pinged : netPing clock fuel poll dst s = some (b, t)) : Leads clock (pingStart clock s) t := by
  simp only [netPing, up, Bool.not_true, Bool.false_eq_true, if_false] at pinged
  split at pinged
  · cases pinged
  · next resolved =>
    cases pinged
    exact arpResolve_leads polls resolved
  · next resolved =>
    cases pinged
    exact (arpResolve_leads polls resolved).trans (.other (sendFrame_pingSame _ _ _ _))

lemma pingWait_leads (waited : pingWait clock poll deadline fuel s = some t) : Leads clock s t := by
  induction fuel generalizing s with
  | zero => cases waited
  | succ fuel ih =>
    have ticked := timerTicks_leads clock s
    simp only [pingWait] at waited
    generalize timerTicks clock s = r at ticked waited
    split at waited
    · cases waited
      exact Leads.refl clock _
    · split at waited
      · split at waited
        · cases waited
        · next polled => exact (ticked.trans (polls _ _ polled)).trans (ih waited)
      · cases waited
        exact ticked

lemma netPingCheck_leads {n : Int} (checked : netPingCheck clock fuel poll s = some (n, t)) :
    Leads clock s t := by
  unfold netPingCheck at checked
  split at checked
  · cases checked
    exact Leads.refl clock _
  · obtain ⟨u, waited, same⟩ := Option.map_eq_some_iff.mp checked
    cases same
    exact (timerTicks_leads clock s).trans (pingWait_leads polls waited)

end

lemma pollLoop_leads {cb : (Nat → Byte) → Nat → NetState → Option NetState} {count : Nat}
    (calls : ∀ frame len s t, cb frame len s = some t → Leads clock s t)
    (looped : pollLoop cb fuel count s = some (t, n)) : Leads clock s t := by
  induction fuel generalizing s count with
  | zero => cases looped
  | succ fuel ih =>
    simp only [pollLoop] at looped
    split at looped
    · cases looped
      exact Leads.refl clock _
    · split at looped
      · have skipped : Leads clock s { s with rxq := s.rxq.advance } :=
          .other ⟨rfl, rfl, rfl, rfl, rfl⟩
        exact skipped.trans (ih looped)
      · split at looped
        · cases looped
        · next u called =>
          have reached : Leads clock s u := by
            split at called
            · have noted : Leads clock s { s with handed := s.handed ++ [s.rxq.usedElem] } :=
                .other ⟨rfl, rfl, rfl, rfl, rfl⟩
              exact noted.trans (calls _ _ _ _ called)
            · cases called
              exact Leads.refl clock _
          have back : Leads clock u (u.putBack s.rxq.usedElem) := .other ⟨rfl, rfl, rfl, rfl, rfl⟩
          exact (reached.trans back).trans (ih looped)

/-- A poll that returns is a run of the system, with the polls inside it. -/
theorem virtioNetRxPoll_leads (polled : virtioNetRxPoll clock fuel s = some (t, n)) :
    Leads clock s t := by
  induction fuel generalizing s t n with
  | zero => cases polled
  | succ fuel ih =>
    simp only [virtioNetRxPoll] at polled
    split at polled
    · cases polled
      exact Leads.refl clock _
    · refine pollLoop_leads (fun frame len a b handled => netRx_leads ?_ handled) polled
      intro a b nested
      obtain ⟨result, found, rfl⟩ := Option.map_eq_some_iff.mp nested
      exact ih found

end

theorem virtioNetRxPoll_leads_arrived :
    ∃ r, virtioNetRxPoll (fun _ => 0#64) 2 (arrived arpReplyFrame) = some r ∧
      Leads (fun _ => 0#64) (arrived arpReplyFrame) r.1 := by
  have returns : (virtioNetRxPoll (fun _ => 0#64) 2 (arrived arpReplyFrame)).isSome := by
    decide +kernel
  obtain ⟨r, polled⟩ := Option.isSome_iff_exists.mp returns
  exact ⟨r, polled, virtioNetRxPoll_leads polled⟩

/-- An echo reply to us with the sequence number `seq`. -/
structure IsReply (ourIp : List Byte) (seq : BitVec 16) (f : Frame) : Prop where
  icmp : IsIcmp ourIp f.1 f.2
  type : payload f.1 20 = icmpEchoReply
  seq : be16At (payload f.1) 26 = seq

/-- It comes from `dst` and carries the identifier that `net_ping` sends. -/
structure IsGenuine (dst : List Byte) (f : Frame) : Prop where
  source : source f.1 = dst
  ident : be16At (payload f.1) 24 = pingIdent

def Marks (st : StepOf NetState (Option Frame)) : Prop :=
  st.post.pingPending ≠ st.pre.pingPending ∨ st.post.pingResult ≠ st.pre.pingResult

/-- Only replies of `dst` to the ping in progress mark it as answered. -/
def AnsweredOnlyBy (dst : List Byte) (trace : List (StepOf NetState (Option Frame))) : Prop :=
  ∀ st ∈ trace, Marks st →
    ∃ f, st.event = some f ∧ IsReply st.pre.ourIp st.pre.pingSeq f ∧ IsGenuine dst f

def framesOf (trace : List (StepOf NetState (Option Frame))) : List Frame :=
  trace.filterMap StepOf.event

section

variable {clock : Nat → BitVec 64} {s t u : NetState} {e : Option Frame}

/-- What a step does to the ping: a reply with its number ends it, nothing else touches it. -/
lemma PingStep.cases (step : PingStep clock s e t) :
    (∃ f, e = some f ∧ s.pingPending = true ∧ IsReply s.ourIp s.pingSeq f ∧ t = pingDone clock s) ∨
      ((s.pingPending = true → ∀ f, e = some f → ¬IsReply s.ourIp s.pingSeq f) ∧
        PingSame s t) := by
  cases step with
  | @frame _ frame len calm handled =>
    by_cases reply : s.IsPingReply frame len
    · have ended := netRx_of_pingReply clock 0 (fun _ => none) reply
      obtain rfl : t = pingDone clock s := Option.mem_unique (handled 0 _) ended
      exact .inl ⟨(frame, len), rfl, reply.pending, ⟨reply.icmp, reply.type, reply.seq⟩, rfl⟩
    · refine .inr ⟨?_, netRx_pingSame clock 0 (fun _ => none) calm reply (handled 0 _)⟩
      intro pending f same answer
      cases same
      exact reply ⟨answer.icmp, answer.type, pending, answer.seq⟩
  | waits waits =>
    refine .inr ⟨?_, PingSame.refl s⟩
    intro _ f same answer
    cases same
    exact absurd (waits.1.type.symm.trans answer.type) (by decide)
  | other same => exact .inr ⟨fun _ f none => absurd none (by simp), same⟩

lemma PingStep.keeps (step : PingStep clock s e t) : t.ourIp = s.ourIp ∧ t.pingSeq = s.pingSeq := by
  rcases step.cases with ⟨f, -, -, -, rfl⟩ | ⟨-, same⟩
  · exact ⟨rfl, rfl⟩
  · exact ⟨same.ourIp, same.pingSeq⟩

lemma keeps_of_run {trace : List (StepOf NetState (Option Frame))}
    (run : Run (PingStep clock) s trace t) : t.ourIp = s.ourIp ∧ t.pingSeq = s.pingSeq := by
  induction run with
  | nil => exact ⟨rfl, rfl⟩
  | snoc _ step ih => exact ⟨step.keeps.1.trans ih.1, step.keeps.2.trans ih.2⟩

lemma marks_iff (step : PingStep clock s e t) :
    Marks ⟨s, e, t⟩ ↔ s.pingPending = true ∧ ∃ f, e = some f ∧ IsReply s.ourIp s.pingSeq f := by
  rcases step.cases with ⟨f, rfl, pending, reply, rfl⟩ | ⟨none, same⟩
  · refine iff_of_true (.inl ?_) ⟨pending, f, rfl, reply⟩
    show false ≠ s.pingPending
    rw [pending]
    decide
  · refine iff_of_false ?_ fun ⟨pending, f, event, reply⟩ => none pending f event reply
    rintro (changed | changed)
    · exact changed same.pingPending
    · exact changed same.pingResult

lemma pending_iff_of_run {trace : List (StepOf NetState (Option Frame))}
    (run : Run (PingStep clock) s trace t) (start : s.pingPending = true) :
    t.pingPending = true ↔ ∀ f ∈ framesOf trace, ¬IsReply s.ourIp s.pingSeq f := by
  induction run with
  | nil => exact iff_of_true start (by simp [framesOf])
  | @snoc trace t u e run step ih =>
    obtain ⟨ip, seq⟩ := keeps_of_run run
    have frames : framesOf (trace ++ [⟨t, e, u⟩]) = framesOf trace ++ e.toList := by
      rw [framesOf, filterMap_append]
      cases e <;> rfl
    rw [frames, forall_mem_append, ← ih]
    rcases step.cases with ⟨f, rfl, pending, reply, rfl⟩ | ⟨none, same⟩
    · rw [ip, seq] at reply
      refine iff_of_false (by show ¬false = true; decide) fun both => ?_
      exact both.2 f (by simp) reply
    · rw [same.pingPending]
      refine ⟨fun pending => ⟨pending, fun f member reply => ?_⟩, fun both => both.1⟩
      rw [← ip, ← seq] at reply
      exact none pending f (by simpa using member) reply

lemma pingStart_fields (clock : Nat → BitVec 64) (s : NetState) :
    (pingStart clock s).pingPending = true ∧ (pingStart clock s).ourIp = s.ourIp ∧
      (pingStart clock s).pingSeq = s.pingSeq + 1#16 := ⟨rfl, rfl, rfl⟩

/-- After `net_ping(dst)`, only replies of `dst` mark the ping as answered if and only if the first
reply with its sequence number, if one comes, is genuine. -/
theorem ping_answered_iff {trace : List (StepOf NetState (Option Frame))} {dst : List Byte}
    (run : Run (PingStep clock) (pingStart clock s) trace t) :
    AnsweredOnlyBy dst trace ↔
      ∀ before f after, framesOf trace = before ++ f :: after →
        (∀ g ∈ before, ¬IsReply s.ourIp (s.pingSeq + 1#16) g) →
        IsReply s.ourIp (s.pingSeq + 1#16) f → IsGenuine dst f := by
  obtain ⟨started, ip, seq⟩ := pingStart_fields clock s
  constructor
  · intro only before f after split earlier reply
    obtain ⟨first, rest, rfl, rfl, others⟩ := filterMap_eq_append_iff.mp split
    obtain ⟨silent, st, later, rfl, quiet, event, -⟩ := filterMap_eq_cons_iff.mp others
    rw [← append_assoc] at run only
    have upto := run.before
    have none : ∀ g ∈ framesOf (first ++ silent), ¬IsReply s.ourIp (s.pingSeq + 1#16) g := by
      rw [framesOf, filterMap_append, filterMap_eq_nil_iff.mpr quiet, append_nil]
      exact earlier
    rw [← ip, ← seq] at none reply
    have pending := (pending_iff_of_run upto started).mpr none
    have keeps := keeps_of_run upto
    rw [← keeps.1, ← keeps.2] at reply
    have member : st ∈ first ++ silent ++ st :: later := mem_append_right _ mem_cons_self
    have marks : Marks st := (marks_iff (run.step_of_mem st member)).mpr ⟨pending, f, event, reply⟩
    obtain ⟨g, same, -, genuine⟩ := only st member marks
    obtain rfl : f = g := Option.mem_unique event same
    exact genuine
  · intro first st member marks
    obtain ⟨before, after, rfl⟩ := append_of_mem member
    have upto := run.before
    obtain ⟨pending, f, event, reply⟩ := (marks_iff (run.step_of_mem st member)).mp marks
    have none := (pending_iff_of_run upto started).mp pending
    have keeps := keeps_of_run upto
    refine ⟨f, event, reply, first (framesOf before) f (framesOf after) ?_ ?_ ?_⟩
    · rw [framesOf, filterMap_append, filterMap_cons, event]
      rfl
    · rwa [ip, seq] at none
    · rwa [keeps.1, keeps.2, ip, seq] at reply

end

def echoReplyFrame : List Byte :=
  [0x52#8, 0x54#8, 0#8, 0x12#8, 0x34#8, 0x56#8, 0x52#8, 0x55#8, 10#8, 0#8, 2#8, 2#8, 8#8, 0#8,
    0x45#8, 0#8, 0#8, 28#8, 0#8, 0#8, 0#8, 0#8, 64#8, 1#8, 0x62#8, 0xD1#8, 10#8, 0#8, 2#8, 2#8,
    10#8, 0#8, 2#8, 15#8, 0#8, 0#8, 0xED#8, 0xCA#8, 0x12#8, 0x34#8, 0#8, 1#8]

def forgedReplyFrame : List Byte :=
  [0x52#8, 0x54#8, 0#8, 0x12#8, 0x34#8, 0x56#8, 0x52#8, 0x55#8, 10#8, 0#8, 2#8, 99#8, 8#8, 0#8,
    0x45#8, 0#8, 0#8, 28#8, 0#8, 0#8, 0#8, 0#8, 64#8, 1#8, 0x62#8, 0x70#8, 10#8, 0#8, 2#8, 99#8,
    10#8, 0#8, 2#8, 15#8, 0#8, 0#8, 0x41#8, 0x0F#8, 0xBE#8, 0xEF#8, 0#8, 1#8]

lemma run_of_reply (frame : List Byte)
    (reply : (pingStart (fun _ => 0#64) acquainted).IsPingReply (bytesOf frame) 42) :
    Run (PingStep fun _ => 0#64) (pingStart (fun _ => 0#64) acquainted)
      [⟨pingStart (fun _ => 0#64) acquainted, some (bytesOf frame, 42),
        pingDone (fun _ => 0#64) (pingStart (fun _ => 0#64) acquainted)⟩]
      (pingDone (fun _ => 0#64) (pingStart (fun _ => 0#64) acquainted)) := by
  refine Run.nil.snoc (.frame ?_ fun fuel poll => netRx_of_pingReply _ fuel poll reply)
  intro waits
  exact absurd (waits.1.type.symm.trans reply.type) (by decide)

theorem ping_answered_iff_genuine :
    ∃ trace t, Run (PingStep fun _ => 0#64) (pingStart (fun _ => 0#64) acquainted) trace t ∧
      t.pingPending = false ∧ AnsweredOnlyBy [10#8, 0#8, 2#8, 2#8] trace := by
  have run := run_of_reply echoReplyFrame
    ⟨by constructor <;> decide, by decide, rfl, by decide⟩
  refine ⟨_, _, run, rfl, (ping_answered_iff run).mpr ?_⟩
  intro before f after split _ _
  have one : f ∈ [(bytesOf echoReplyFrame, 42)] := by
    have member : f ∈ before ++ f :: after := mem_append_right _ mem_cons_self
    rwa [← split] at member
  rw [mem_singleton.mp one]
  exact ⟨by decide, by decide⟩

theorem forged_reply_ends_ping :
    ∃ trace t, Run (PingStep fun _ => 0#64) (pingStart (fun _ => 0#64) acquainted) trace t ∧
      t.pingPending = false ∧ ¬AnsweredOnlyBy [10#8, 0#8, 2#8, 2#8] trace := by
  have run := run_of_reply forgedReplyFrame
    ⟨by constructor <;> decide, by decide, rfl, by decide⟩
  refine ⟨_, _, run, rfl, fun only => ?_⟩
  obtain ⟨f, same, -, genuine⟩ := only _ mem_cons_self (.inl (by decide))
  cases same
  exact absurd genuine.source (by decide)

end MicroOs.Net
