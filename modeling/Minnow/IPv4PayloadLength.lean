import Minnow.IPv4Accepted
import Minnow.TCPOverIPv4Runs
import Minnow.TCPSegmentWire

/-!
The length that an IPv4 header announces and the payload that is delivered. The parser reads
the one and takes all that is left for the other; nothing compares them.
-/

namespace Minnow
namespace TCPOverIPv4Adapter

/-- A segment that is handed over has been parsed from the payload. -/
theorem unwrapTcpInIp_parse {a a' : TCPOverIPv4Adapter} {ipDgram : InternetDatagram}
    {seg : TCPSegment} (h : a.unwrapTcpInIp ipDgram = .ok (a', some seg)) :
    parse (TCPSegment.parse {} ipDgram.header.pseudoChecksum) ipDgram.payload =
      .ok (some seg) := by
  by_cases haccepts : ∃ tcpSeg a', Accepts a ipDgram tcpSeg a'
  · obtain ⟨tcpSeg, b, haccepts⟩ := haccepts
    rw [unwrap_of_accepts haccepts] at h
    cases h
    exact (segmentOf_eq_some.mp haccepts.segment).2
  · simp only [not_exists] at haccepts
    have hnone := (unwrap_of_rejects haccepts).2
    simp [returned, h] at hnone

end TCPOverIPv4Adapter

namespace IPv4Datagram
open IPv4Header

/-- An accepted datagram has the payload that its header announces, and what is handed to
the connection lies within its announced end. -/
structure CarriesAnnounced (input : List Bytes) (d : IPv4Datagram) : Prop where
  fits : 4 * d.header.hlen.toNat ≤ d.header.len.toNat
  payload : d.payload.flatten.length = d.header.len.toNat - 4 * d.header.hlen.toNat
  whole : d.header.len.toNat ≤ input.flatten.length
  segment : ∀ (a a' : TCPOverIPv4Adapter) (seg : TCPSegment),
    a.unwrapTcpInIp d = .ok (a', some seg) →
      seg.senderMessage.payload <:+ input.flatten.take d.header.len.toNat

/-- What becomes of a datagram: its payload is all that is left behind the header. -/
theorem parse_spec {input : List Bytes} (hfilled : HeaderFilled input) (d₀ : IPv4Datagram) :
    (¬ Readable input.flatten ∧ Minnow.parse d₀.parse input = .ok none) ∨
    (Readable input.flatten ∧ ∃ d, Minnow.parse d₀.parse input = .ok (some d) ∧
      d.header.len.toNat = word 2 input.flatten ∧
      4 * d.header.hlen.toNat = headerLength input.flatten ∧
      d.payload.flatten = input.flatten.drop (headerLength input.flatten)) := by
  have hrun {h : IPv4Header} {p : Parser}
      (hheader : d₀.header.parse (Parser.ofBuffers input) = .ok (h, p)) :
      ∃ payload p', d₀.parse (Parser.ofBuffers input) = .ok ({ header := h, payload }, p') ∧
        Parser.allRemaining p = .ok (payload, p') ∧ p'.error = p.error := by
    obtain ⟨payload, p', hpayload⟩ := Parser.allRemaining_ok p
    refine ⟨payload, p', ?_, hpayload, Parser.allRemaining_error hpayload⟩
    rw [parse, ParserM.bind_of_ok hheader, ParserM.bind_of_ok hpayload]
    rfl
  cases Nat.lt_or_ge input.flatten.length 20 with
  | inl hshort =>
      left
      refine ⟨fun hreadable => Nat.not_le_of_lt hshort hreadable.1, ?_⟩
      obtain ⟨h, p, hheader, herror⟩ := parse_short hshort d₀.header
      obtain ⟨payload, p', hdgram, -, hsame⟩ := hrun hheader
      rw [Minnow.parse, hdgram]
      simp only [hsame, herror, if_true]
  | inr hlong =>
      obtain ⟨r, more, hraw⟩ := RawHeader.exists_of_length hlong
      obtain ⟨cksum, p, hheader, hreadable, hskipped⟩ :=
        parse_whole (Parser.ahead_ofBuffers hraw (hfilled hlong)) d₀.header
      rw [← hraw] at hreadable hskipped
      obtain ⟨payload, p', hdgram, hpayload, hsame⟩ := hrun hheader
      cases herror : p.error with
      | true =>
          left
          refine ⟨fun h => ?_, ?_⟩
          · rw [hreadable.mpr h] at herror
            cases herror
          · rw [Minnow.parse, hdgram]
            simp only [hsame, herror, if_true]
      | false =>
          right
          have hp := hskipped herror
          refine ⟨hreadable.mp herror, _, parse_eq_some.mpr ⟨p', hdgram, hsame.trans herror⟩,
            ?_, ?_, ?_⟩
          · rw [hraw, RawHeader.len_bytes]
            rfl
          · rw [hraw, headerLength, RawHeader.hlenOf_bytes]
          · rw [← hp.rest]
            exact Parser.allRemaining_rest hp.sound hpayload

/-- A readable datagram carries what it announces exactly if the announced length is the
number of bytes that have come and the header lies within them. -/
theorem carriesAnnounced_iff {input : List Bytes} (hfilled : HeaderFilled input)
    (d₀ : IPv4Datagram) :
    (∀ d, Minnow.parse d₀.parse input = .ok (some d) → CarriesAnnounced input d) ↔
      (Readable input.flatten → word 2 input.flatten = input.flatten.length ∧
        headerLength input.flatten ≤ input.flatten.length) := by
  cases parse_spec hfilled d₀ with
  | inl hrefused =>
      obtain ⟨hunreadable, hnone⟩ := hrefused
      constructor
      · intro _ hreadable
        exact absurd hreadable hunreadable
      · intro _ d hd
        rw [hnone] at hd
        cases hd
  | inr haccepted =>
      obtain ⟨hreadable, d, hd, hlen, hhlen, hpayload⟩ := haccepted
      have hlength := congrArg List.length hpayload
      rw [List.length_drop] at hlength
      constructor
      · intro h _
        obtain ⟨hfits, hcarried, hwhole, -⟩ := h d hd
        omega
      · intro h d' hd'
        obtain ⟨hsame, hwithin⟩ := h hreadable
        rw [hd, Except.ok.injEq, Option.some.injEq] at hd'
        subst hd'
        refine ⟨by omega, by omega, by omega, ?_⟩
        intro a a' seg hunwrap
        have hsuffix := TCPSegment.parse_payload (TCPOverIPv4Adapter.unwrapTcpInIp_parse hunwrap)
        rw [hpayload] at hsuffix
        rw [hlen, hsame, List.take_length]
        exact hsuffix.trans (List.drop_suffix _ _)

/-- A SYN of twenty bytes in the two buffers of a read, without a payload. -/
theorem carriesAnnounced_syn :
    let input := TCPOverIPv4Adapter.tunBuffers [0x45, 0, 0, 40, 0, 0, 0x40, 0, 64, 6, 0x26, 0xce,
      10, 0, 0, 1, 10, 0, 0, 2, 0, 9, 0, 80, 0, 0, 0, 7, 0, 0, 0, 0, 0x50, 2, 3, 0xe8, 0x97, 0x98,
      0, 0]
    ∃ d, Minnow.parse (IPv4Datagram.parse {}) input = .ok (some d) ∧ CarriesAnnounced input d := by
  intro input
  have hcarries := (carriesAnnounced_iff (show HeaderFilled input from fun _ => by decide) {}).mpr
    fun _ => by decide
  have hparse : Minnow.parse (IPv4Datagram.parse {}) input = .ok (some
      { header := { len := 40, ttl := 64, cksum := 0x26ce, src := 0x0a000001, dst := 0x0a000002 }
        payload := [input.flatten.drop 20] }) := by
    decide +kernel
  exact ⟨_, hparse, hcarries _ hparse⟩

/-- The same SYN padded to the least length of a frame: the six zeros that follow it leave
its checksum valid and are handed to the connection. -/
theorem padding_delivered :
    let input : List Bytes := [[0x45, 0, 0, 40, 0, 0, 0x40, 0, 64, 6, 0x26, 0xce, 10, 0, 0, 1, 10,
      0, 0, 2, 0, 9, 0, 80, 0, 0, 0, 7, 0, 0, 0, 0, 0x50, 2, 3, 0xe8, 0x97, 0x98, 0, 0, 0, 0, 0,
      0, 0, 0]]
    let a : TCPOverIPv4Adapter :=
      { config := { source := ⟨⟨0x0a000002⟩, 80⟩, destination := ⟨⟨0x0a000001⟩, 9⟩ } }
    ∃ d seg, Minnow.parse (IPv4Datagram.parse {}) input = .ok (some d) ∧
      d.header.len = 40 ∧ d.payload.flatten.length = 26 ∧
      a.unwrapTcpInIp d = .ok (a, some seg) ∧
      seg.senderMessage.payload = [0, 0, 0, 0, 0, 0] ∧ ¬ CarriesAnnounced input d := by
  intro input a
  have hparse : Minnow.parse (IPv4Datagram.parse {}) input = .ok (some
      { header := { len := 40, ttl := 64, cksum := 0x26ce, src := 0x0a000001, dst := 0x0a000002 }
        payload := [input.flatten.drop 20] }) := by
    decide +kernel
  have hunwrap : a.unwrapTcpInIp
      { header := { len := 40, ttl := 64, cksum := 0x26ce, src := 0x0a000001, dst := 0x0a000002 }
        payload := [input.flatten.drop 20] } = .ok (a, some
      { senderMessage := { seqno := ⟨7⟩, syn := true, payload := [0, 0, 0, 0, 0, 0] }
        receiverMessage := { windowSize := 1000 }
        udinfo := { srcPort := 9, dstPort := 80, cksum := 0x9798 } }) := by
    decide +kernel
  refine ⟨_, _, hparse, rfl, rfl, hunwrap, rfl, ?_⟩
  intro hcarries
  exact absurd hcarries.payload (by decide)

end IPv4Datagram
end Minnow
