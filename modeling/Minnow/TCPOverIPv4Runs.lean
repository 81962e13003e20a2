import Minnow.TCPOverIPv4
import Minnow.Transition

/-!
An adapter over the datagrams that reach it. While it listens it stays as it is until
the SYN of its connection arrives; after that it returns the segments of the connection
and of no other.
-/

namespace Minnow
open Transition
namespace TCPOverIPv4Adapter

def setListening (a : TCPOverIPv4Adapter) (l : Bool) : TCPOverIPv4Adapter :=
  { a with listening := l }

/-- A call that throws leaves the adapter as it was. -/
def step (a : TCPOverIPv4Adapter) (ipDgram : InternetDatagram) : TCPOverIPv4Adapter :=
  match a.unwrapTcpInIp ipDgram with
  | .ok (a, _) => a
  | .error _ => a

/-- The segment that a call returns, if it does. -/
def returned (a : TCPOverIPv4Adapter) (ipDgram : InternetDatagram) : Option TCPSegment :=
  match a.unwrapTcpInIp ipDgram with
  | .ok (_, tcpSeg) => tcpSeg
  | .error _ => none

/-- The segment of a TCP datagram whose payload `parse` accepts. -/
def segmentOf (ipDgram : InternetDatagram) : Option TCPSegment :=
  if ipDgram.header.proto = IPv4Header.PROTO_TCP then
    match parse (TCPSegment.parse {} ipDgram.header.pseudoChecksum) ipDgram.payload with
    | .ok tcpSeg => tcpSeg
    | .error _ => none
  else none

/-- The datagram carries a segment that starts a connection to a local port. -/
structure Opens (port : UInt16) (ipDgram : InternetDatagram) (tcpSeg : TCPSegment) : Prop where
  segment : segmentOf ipDgram = some tcpSeg
  port : tcpSeg.udinfo.dstPort = port
  syn : tcpSeg.senderMessage.syn = true
  reset : tcpSeg.reset = false

/-- The datagram carries a segment between the two ends of the configuration. -/
structure Matches (config : FdAdapterConfig) (ipDgram : InternetDatagram)
    (tcpSeg : TCPSegment) : Prop where
  segment : segmentOf ipDgram = some tcpSeg
  dst : ipDgram.header.dst = config.source.ipv4Numeric
  src : ipDgram.header.src = config.destination.ipv4Numeric
  dstPort : tcpSeg.udinfo.dstPort = config.source.port
  srcPort : tcpSeg.udinfo.srcPort = config.destination.port

/-- The configuration between the two ends of a segment. -/
def endsOf (ipDgram : InternetDatagram) (tcpSeg : TCPSegment) : FdAdapterConfig where
  source := ⟨⟨ipDgram.header.dst⟩, tcpSeg.udinfo.dstPort⟩
  destination := ⟨⟨ipDgram.header.src⟩, tcpSeg.udinfo.srcPort⟩

theorem segmentOf_eq_some {ipDgram : InternetDatagram} {tcpSeg : TCPSegment} :
    segmentOf ipDgram = some tcpSeg ↔ ipDgram.header.proto = IPv4Header.PROTO_TCP ∧
      parse (TCPSegment.parse {} ipDgram.header.pseudoChecksum) ipDgram.payload =
        .ok (some tcpSeg) := by
  unfold segmentOf
  cases parse (TCPSegment.parse {} ipDgram.header.pseudoChecksum) ipDgram.payload with
  | error e => simp
  | ok parsed => by_cases hproto : ipDgram.header.proto = IPv4Header.PROTO_TCP <;> simp [hproto]

/-- The datagram passes every check, and leaves the adapter as `a'`. -/
structure Accepts (a : TCPOverIPv4Adapter) (ipDgram : InternetDatagram) (tcpSeg : TCPSegment)
    (a' : TCPOverIPv4Adapter) : Prop where
  dst : a.listening = true ∨ ipDgram.header.dst = a.config.source.ipv4Numeric
  src : a.listening = true ∨ ipDgram.header.src = a.config.destination.ipv4Numeric
  segment : segmentOf ipDgram = some tcpSeg
  dstPort : tcpSeg.udinfo.dstPort = a.config.source.port
  adopted : a.adopt ipDgram.header tcpSeg = some a'
  srcPort : tcpSeg.udinfo.srcPort = a'.config.destination.port

theorem unwrap_of_accepts {a a' : TCPOverIPv4Adapter} {ipDgram : InternetDatagram}
    {tcpSeg : TCPSegment} (h : Accepts a ipDgram tcpSeg a') :
    a.unwrapTcpInIp ipDgram = .ok (a', some tcpSeg) := by
  obtain ⟨hproto, hparse⟩ := segmentOf_eq_some.mp h.segment
  have hdst : (!a.listening && ipDgram.header.dst != a.config.source.ipv4Numeric) = false := by
    simpa [or_iff_not_imp_left] using h.dst
  have hsrc : (!a.listening && ipDgram.header.src != a.config.destination.ipv4Numeric) =
      false := by
    simpa [or_iff_not_imp_left] using h.src
  simp only [unwrapTcpInIp, hdst, hsrc, hproto, hparse, h.dstPort, h.adopted, h.srcPort,
    bne_self_eq_false, Bool.false_eq_true, if_false]

theorem adopt_connected {a : TCPOverIPv4Adapter} (hconnected : a.listening = false)
    (header : IPv4Header) (tcpSeg : TCPSegment) : a.adopt header tcpSeg = some a := by
  simp only [adopt, hconnected, Bool.false_eq_true, if_false]

/-- A listening adapter adopts what starts a connection. -/
theorem adopt_listening {a a' : TCPOverIPv4Adapter} (hlistening : a.listening = true)
    {header : IPv4Header} {tcpSeg : TCPSegment} : a.adopt header tcpSeg = some a' ↔
      (tcpSeg.senderMessage.syn = true ∧ tcpSeg.reset = false) ∧
        ⟨⟨⟨⟨header.dst⟩, a.config.source.port⟩, ⟨⟨header.src⟩, tcpSeg.udinfo.srcPort⟩⟩, false⟩ =
          a' := by
  simp only [adopt, hlistening, if_true]
  cases tcpSeg.senderMessage.syn <;> cases tcpSeg.reset <;> simp

/-- A datagram that does not pass changes nothing and returns nothing. -/
theorem unwrap_of_rejects {a : TCPOverIPv4Adapter} {ipDgram : InternetDatagram}
    (h : ∀ tcpSeg a', ¬ Accepts a ipDgram tcpSeg a') :
    a.step ipDgram = a ∧ a.returned ipDgram = none := by
  have hquiet : (∃ e, a.unwrapTcpInIp ipDgram = .error e) ∨
      a.unwrapTcpInIp ipDgram = .ok (a, none) := by
    rw [unwrapTcpInIp]
    split
    · exact Or.inr rfl
    next hdst =>
    split
    · exact Or.inr rfl
    next hsrc =>
    split
    · exact Or.inr rfl
    next hproto =>
    split
    · exact Or.inl ⟨_, rfl⟩
    · exact Or.inr rfl
    next tcpSeg hparse =>
    split
    · exact Or.inr rfl
    next hdstPort =>
    split
    · exact Or.inr rfl
    next a' hadopt =>
    simp only [Bool.and_eq_true, Bool.not_eq_true', bne_iff_ne, not_and, Decidable.not_not]
      at hdst hsrc hproto hdstPort
    have hsrcPort : tcpSeg.udinfo.srcPort ≠ a'.config.destination.port := by
      intro hsrcPort
      refine h tcpSeg a' ⟨?_, ?_, segmentOf_eq_some.mpr ⟨hproto, hparse⟩, hdstPort, hadopt,
        hsrcPort⟩
      · exact (Bool.eq_false_or_eq_true a.listening).imp id hdst
      · exact (Bool.eq_false_or_eq_true a.listening).imp id hsrc
    -- a listening adapter has just taken the port of the segment for its peer's
    cases hlistening : a.listening with
    | true =>
        obtain ⟨-, rfl⟩ := (adopt_listening hlistening).mp hadopt
        exact absurd rfl hsrcPort
    | false =>
        rw [adopt_connected hlistening, Option.some.injEq] at hadopt
        subst hadopt
        exact Or.inr (by rw [if_pos (bne_iff_ne.mpr hsrcPort)])
  cases hquiet with
  | inl herror =>
      obtain ⟨e, herror⟩ := herror
      simp only [step, returned, herror, and_self]
  | inr hok => simp only [step, returned, hok, and_self]

/-- What a listening adapter does with the datagram that opens its connection. -/
theorem unwrap_opens {a : TCPOverIPv4Adapter} (hlistening : a.listening = true)
    {ipDgram : InternetDatagram} {tcpSeg : TCPSegment}
    (h : Opens a.config.source.port ipDgram tcpSeg) :
    a.unwrapTcpInIp ipDgram = .ok (⟨endsOf ipDgram tcpSeg, false⟩, some tcpSeg) := by
  refine unwrap_of_accepts ⟨Or.inl hlistening, Or.inl hlistening, h.segment, h.port, ?_, rfl⟩
  rw [adopt_listening hlistening, endsOf, h.port]
  exact ⟨⟨h.syn, h.reset⟩, rfl⟩

/-- Any other datagram leaves a listening adapter as it is. -/
theorem unwrap_stray {a : TCPOverIPv4Adapter} (hlistening : a.listening = true)
    {ipDgram : InternetDatagram} (h : ∀ tcpSeg, ¬ Opens a.config.source.port ipDgram tcpSeg) :
    a.step ipDgram = a ∧ a.returned ipDgram = none := by
  refine unwrap_of_rejects fun tcpSeg a' haccepts => h tcpSeg ?_
  obtain ⟨⟨hsyn, hreset⟩, -⟩ := (adopt_listening hlistening).mp haccepts.adopted
  exact ⟨haccepts.segment, haccepts.dstPort, hsyn, hreset⟩

/-- An adapter that does not listen accepts what matches, and stays as it is. -/
theorem accepts_connected {a a' : TCPOverIPv4Adapter} (hconnected : a.listening = false)
    {ipDgram : InternetDatagram} {tcpSeg : TCPSegment} :
    Accepts a ipDgram tcpSeg a' ↔ a' = a ∧ Matches a.config ipDgram tcpSeg := by
  have hopen : ¬ a.listening = true := by simp [hconnected]
  constructor
  · intro h
    have hsame := h.adopted
    rw [adopt_connected hconnected, Option.some.injEq] at hsame
    subst hsame
    exact ⟨rfl, h.segment, h.dst.resolve_left hopen, h.src.resolve_left hopen, h.dstPort,
      h.srcPort⟩
  · intro h
    obtain ⟨rfl, hmatches⟩ := h
    exact ⟨Or.inr hmatches.dst, Or.inr hmatches.src, hmatches.segment, hmatches.dstPort,
      adopt_connected hconnected _ _, hmatches.srcPort⟩

/-- An adapter that does not listen never changes, and returns what matches. -/
theorem unwrap_connected {a : TCPOverIPv4Adapter} (hconnected : a.listening = false)
    (ipDgram : InternetDatagram) : a.step ipDgram = a ∧
      ∀ tcpSeg, a.returned ipDgram = some tcpSeg ↔ Matches a.config ipDgram tcpSeg := by
  by_cases h : ∃ tcpSeg, Matches a.config ipDgram tcpSeg
  · obtain ⟨tcpSeg, hmatches⟩ := h
    have hunwrap := unwrap_of_accepts ((accepts_connected hconnected).mpr ⟨rfl, hmatches⟩)
    refine ⟨by simp only [step, hunwrap], fun seg => ?_⟩
    simp only [returned, hunwrap]
    constructor
    · intro hseg
      rwa [← Option.some.inj hseg]
    · intro hseg
      exact hmatches.segment.symm.trans hseg.segment
  · obtain ⟨hsame, hnone⟩ := unwrap_of_rejects fun tcpSeg a' haccepts =>
      h ⟨tcpSeg, ((accepts_connected hconnected).mp haccepts).2⟩
    refine ⟨hsame, fun seg => ?_⟩
    rw [hnone]
    exact ⟨nofun, fun hmatches => absurd ⟨seg, hmatches⟩ h⟩

theorem unchanged_of_returned_none {a : TCPOverIPv4Adapter} {ipDgram : InternetDatagram}
    (h : a.returned ipDgram = none) : a.step ipDgram = a := by
  cases hlistening : a.listening with
  | false => exact (unwrap_connected hlistening ipDgram).1
  | true =>
      by_cases hopens : ∃ tcpSeg, Opens a.config.source.port ipDgram tcpSeg
      · obtain ⟨tcpSeg, hopens⟩ := hopens
        simp [returned, unwrap_opens hlistening hopens] at h
      · exact (unwrap_stray hlistening (not_exists.mp hopens)).1

theorem stray_run {a : TCPOverIPv4Adapter} (hlistening : a.listening = true)
    {stray : List InternetDatagram}
    (h : ∀ d ∈ stray, ∀ tcpSeg, ¬ Opens a.config.source.port d tcpSeg) :
    run step a stray = a ∧ ∀ d ∈ stray, a.returned d = none := by
  induction stray with
  | nil => exact ⟨rfl, by simp⟩
  | cons d stray ih =>
      obtain ⟨hsame, hnone⟩ := unwrap_stray hlistening (h d List.mem_cons_self)
      obtain ⟨hrun, hall⟩ := ih fun e he => h e (List.mem_cons_of_mem d he)
      refine ⟨by rw [run, hsame, hrun], ?_⟩
      exact List.forall_mem_cons.mpr ⟨hnone, hall⟩

theorem connected_run {a : TCPOverIPv4Adapter} (hconnected : a.listening = false)
    (later : List InternetDatagram) : run step a later = a := by
  induction later with
  | nil => rfl
  | cons d later ih => rw [run, (unwrap_connected hconnected d).1, ih]

/-- An adapter put into listening state stays as it is, and returns nothing, until the
first segment that opens a connection to its port. It returns that segment and takes its
two ends as the configuration, for good; from then on it returns exactly the segments
between these two ends. No call that returns nothing changes it. -/
theorem connection_filtering (a : TCPOverIPv4Adapter) (stray : List InternetDatagram)
    (hstray : ∀ d ∈ stray, ∀ tcpSeg, ¬ Opens a.config.source.port d tcpSeg) :
    let listener := a.setListening true
    run step listener stray = listener ∧
      (∀ d ∈ stray, listener.returned d = none) ∧
      (∀ first tcpSeg, Opens a.config.source.port first tcpSeg →
        listener.returned first = some tcpSeg ∧
        listener.step first = ⟨endsOf first tcpSeg, false⟩ ∧
        ∀ later, run step listener (stray ++ first :: later) = ⟨endsOf first tcpSeg, false⟩ ∧
          ∀ d seg, (run step listener (stray ++ first :: later)).returned d = some seg ↔
            Matches (endsOf first tcpSeg) d seg) ∧
      ∀ received d, (run step listener received).returned d = none →
        (run step listener received).step d = run step listener received := by
  intro listener
  have hlistening : listener.listening = true := rfl
  obtain ⟨hrun, hnone⟩ := stray_run (a := listener) rfl hstray
  refine ⟨hrun, hnone, ?_, fun received d => unchanged_of_returned_none⟩
  intro first tcpSeg hopens
  have hunwrap : listener.unwrapTcpInIp first =
      .ok (⟨endsOf first tcpSeg, false⟩, some tcpSeg) := unwrap_opens hlistening hopens
  have hstep : listener.step first = ⟨endsOf first tcpSeg, false⟩ := by
    simp only [step, hunwrap]
  refine ⟨by simp only [returned, hunwrap], hstep, fun later => ?_⟩
  have hlater : run step listener (stray ++ first :: later) = ⟨endsOf first tcpSeg, false⟩ := by
    rw [run_append, hrun, run, hstep]
    exact connected_run rfl later
  rw [hlater]
  exact ⟨rfl, (unwrap_connected rfl · |>.2)⟩

/-- A datagram of another protocol and a SYN from 10.0.0.2, port 9, to port 80. -/
theorem connection_filtering_syn :
    let syn : TCPSegment := TCPSegment.computeChecksum
      { senderMessage := { seqno := ⟨5⟩, syn := true }, udinfo := { srcPort := 9, dstPort := 80 } }
      (IPv4Header.pseudoChecksum { src := 0x0a000002, dst := 0x0a000001, len := 40 })
    let first : InternetDatagram :=
      { header := { src := 0x0a000002, dst := 0x0a000001, len := 40 }
        payload := (syn.serialize {}).takeOutput }
    let other : InternetDatagram := { header := { proto := 17, len := 20 } }
    let listener := setListening { config := { source := ⟨⟨0⟩, 80⟩ } } true
    listener.returned first = some syn ∧
      (run step listener ([other] ++ first :: [other])).config =
        { source := ⟨⟨0x0a000001⟩, 80⟩, destination := ⟨⟨0x0a000002⟩, 9⟩ } := by
  intro syn first other listener
  have hopens : Opens 80 first syn := ⟨by decide +kernel, rfl, rfl, rfl⟩
  have hother : segmentOf other = none := by decide +kernel
  have hstray : ∀ d ∈ [other], ∀ tcpSeg, ¬ Opens listener.config.source.port d tcpSeg := by
    intro d hd tcpSeg h
    rw [List.mem_singleton.mp hd] at h
    exact absurd (hother.symm.trans h.segment) (Option.some_ne_none _).symm
  obtain ⟨-, -, hfirst, -⟩ := connection_filtering { config := { source := ⟨⟨0⟩, 80⟩ } }
    [other] hstray
  obtain ⟨hreturned, -, hlater⟩ := hfirst first syn hopens
  refine ⟨hreturned, ?_⟩
  have hend := (hlater [other]).1
  rw [hend]
  rfl

end TCPOverIPv4Adapter
end Minnow
