import Minnow.EthernetWire
import Minnow.IPv4Wire
import Minnow.TCPOverIPv4
import Minnow.TCPSegmentWire

/-!
A TCP segment from one adapter to the other. Whatever the buffers its bytes arrive in, as
long as no empty one stands before the end of the TCP header, the peer with the mirrored
configuration unwraps the segment that was sent.
-/

namespace Minnow

theorem IPv4Header.pseudoChecksum_le (h : IPv4Header) : h.pseudoChecksum.toNat ≤ 327930 := by
  have hadd (a b : UInt32) : (a + b).toNat ≤ a.toNat + b.toNat := by
    rw [UInt32.toNat_add]
    exact Nat.mod_le _ _
  have hhalves (address : UInt32) :
      (address >>> 16).toNat + address.toUInt16.toUInt32.toNat ≤ 131070 := by
    have haddress := address.toNat_lt
    have hlow := address.toUInt16.toNat_lt
    rw [UInt32.toNat_shiftRight, UInt16.toNat_toUInt32]
    simp only [UInt32.reduceToNat, Nat.reduceMod, Nat.shiftRight_eq_div_pow]
    omega
  have hproto : h.proto.toUInt32.toNat ≤ 255 := Nat.le_of_lt_succ h.proto.toNat_lt
  have hlength : h.payloadLength.toUInt32.toNat ≤ 65535 :=
    Nat.le_of_lt_succ h.payloadLength.toNat_lt
  calc h.pseudoChecksum.toNat
      ≤ ((h.src >>> 16) + h.src.toUInt16.toUInt32 +
          ((h.dst >>> 16) + h.dst.toUInt16.toUInt32) + h.proto.toUInt32).toNat +
        h.payloadLength.toUInt32.toNat := hadd _ _
    _ ≤ ((h.src >>> 16) + h.src.toUInt16.toUInt32 +
          ((h.dst >>> 16) + h.dst.toUInt16.toUInt32)).toNat + h.proto.toUInt32.toNat +
        h.payloadLength.toUInt32.toNat := Nat.add_le_add_right (hadd _ _) _
    _ ≤ 131070 + 131070 + 255 + 65535 := by
        have hsum := hadd ((h.src >>> 16) + h.src.toUInt16.toUInt32)
          ((h.dst >>> 16) + h.dst.toUInt16.toUInt32)
        have hsrc := (hadd _ _).trans (hhalves h.src)
        have hdst := (hadd _ _).trans (hhalves h.dst)
        omega

namespace TCPOverIPv4Adapter

/-- Each adapter has for its source what the other has for its destination. -/
structure Mirrored (a peer : TCPOverIPv4Adapter) : Prop where
  source : peer.config.source = a.config.destination
  destination : peer.config.destination = a.config.source

/-- A datagram as `wrap_tcp_in_ip` builds it around the segment. -/
structure Wraps (a : TCPOverIPv4Adapter) (sent : TCPSegment) (dgram : InternetDatagram) :
    Prop where
  src : dgram.header.src = a.config.source.ipv4Numeric
  dst : dgram.header.dst = a.config.destination.ipv4Numeric
  proto : dgram.header.proto = IPv4Header.PROTO_TCP
  srcPort : sent.udinfo.srcPort = a.config.source.port
  dstPort : sent.udinfo.dstPort = a.config.destination.port
  hlen : dgram.header.hlen = 5
  fits : dgram.header.Fits
  headerCksum : dgram.header.computeChecksum = .ok dgram.header
  cksum : (InternetChecksum.add { sum := dgram.header.pseudoChecksum }
    (sent.bytes ++ sent.senderMessage.payload)).value = 0
  payload : dgram.payload.flatten = sent.bytes ++ sent.senderMessage.payload

theorem Wraps.long {a : TCPOverIPv4Adapter} {sent : TCPSegment} {dgram : InternetDatagram}
    (hwraps : Wraps a sent dgram) :
    40 ≤ (dgram.header.bytes ++ dgram.payload.flatten).length := by
  rw [hwraps.payload]
  simp
  omega

theorem wrapTcpInIp_wraps (a : TCPOverIPv4Adapter) {seg : TCPSegment}
    (hsize : seg.senderMessage.payload.length ≤ 65495) :
    ∃ sent dgram, a.wrapTcpInIp seg = .ok (sent, dgram) ∧ Wraps a sent dgram ∧
      sent.senderMessage = seg.senderMessage ∧ sent.receiverMessage = seg.receiverMessage ∧
      sent.reset = seg.reset := by
  obtain ⟨header, hheader⟩ : ∃ header : IPv4Header, header = {
      src := a.config.source.ipv4Numeric
      dst := a.config.destination.ipv4Numeric
      len := UInt16.ofNat ((5 : UInt8).toNat * 4 + 20 + seg.senderMessage.payload.length) } :=
    ⟨_, rfl⟩
  obtain ⟨ported, hported⟩ : ∃ ported : TCPSegment, ported = { seg with
      udinfo := { seg.udinfo with
        srcPort := a.config.source.port, dstPort := a.config.destination.port } } := ⟨_, rfl⟩
  obtain ⟨cksum, hcksum⟩ := IPv4Header.computeChecksum_ok (h := header) (by rw [hheader])
  have hwrap : a.wrapTcpInIp seg = .ok (ported.computeChecksum header.pseudoChecksum,
      { header := { header with cksum }
        payload := ((ported.computeChecksum header.pseudoChecksum).serialize {}).takeOutput }) := by
    rw [hported, hheader] at *
    simp only [wrapTcpInIp, hcksum]
  have hpseudo := header.pseudoChecksum_le
  have hsum : header.pseudoChecksum.toNat +
      255 * 2 ^ 8 * (20 + ported.senderMessage.payload.length) < 2 ^ 32 := by
    rw [hported]
    dsimp only
    omega
  refine ⟨_, _, hwrap, ⟨?_, ?_, ?_, ?_, ?_, ?_, ?_, ?_, ?_, ?_⟩, ?_, ?_, ?_⟩
  · rw [hheader]
  · rw [hheader]
  · rw [hheader]; rfl
  · rw [hported]; rfl
  · rw [hported]; rfl
  · rw [hheader]
  · rw [hheader]
    exact ⟨rfl, ⟨Nat.le_refl 5, (by decide : (5 : UInt8).toNat < 16)⟩,
      (by decide : (0 : UInt16).toNat < 2 ^ 13)⟩
  · exact (IPv4Header.computeChecksum_computed hcksum).1
  · exact TCPSegment.computeChecksum_verifies hsum
  · exact TCPSegment.serialize_flatten _
  · rw [hported]; rfl
  · rw [hported]; rfl
  · rw [hported]; rfl

/-- The peer unwraps the segment of a datagram that the adapter has wrapped. -/
theorem unwrapTcpInIp_wraps {a peer : TCPOverIPv4Adapter} (hmirrored : Mirrored a peer)
    (hlistening : peer.listening = false) {sent : TCPSegment} {dgram : InternetDatagram}
    (hwraps : Wraps a sent dgram) {payload : List Bytes}
    (hpayload : payload.flatten = dgram.payload.flatten) (hfilled : Views.Filled 20 payload) :
    peer.unwrapTcpInIp { header := dgram.header, payload } = .ok (peer, some sent) := by
  have hparse : parse (TCPSegment.parse {} dgram.header.pseudoChecksum) payload =
      .ok (some sent) :=
    TCPSegment.parse_wire hwraps.cksum (hpayload.trans hwraps.payload) hfilled {}
  have hadopt : peer.adopt dgram.header sent = some peer := by
    rw [adopt, hlistening]
    rfl
  rw [unwrapTcpInIp, hlistening]
  simp only [hwraps.src, hwraps.dst, hwraps.proto, hmirrored.source, hmirrored.destination,
    hparse, hadopt, hwraps.srcPort, hwraps.dstPort, bne_self_eq_false, Bool.and_false,
    Bool.false_eq_true, if_false]

/-- The bytes of the datagram, in buffers that leave nothing empty before the end of the TCP
header, are read back as the segment. -/
theorem parse_unwrap_wraps {a peer : TCPOverIPv4Adapter} (hmirrored : Mirrored a peer)
    (hlistening : peer.listening = false) {sent : TCPSegment} {dgram : InternetDatagram}
    (hwraps : Wraps a sent dgram) {input : List Bytes}
    (hinput : input.flatten = dgram.header.bytes ++ dgram.payload.flatten)
    (hfilled : Views.Filled 40 input) :
    ∃ received, parse (IPv4Datagram.parse {}) input = .ok (some received) ∧
      received.header = dgram.header ∧
      peer.unwrapTcpInIp received = .ok (peer, some sent) := by
  obtain ⟨payload, hparse, hpayload, hviews⟩ := IPv4Datagram.parse_wire hwraps.fits
    hwraps.headerCksum (n := 20) hinput hfilled {}
  rw [hwraps.hlen] at hpayload hviews
  exact ⟨_, hparse, rfl, unwrapTcpInIp_wraps hmirrored hlistening hwraps hpayload hviews⟩

/-- The bytes that a TUN device delivers are read into these buffers. -/
theorem read_tun (fd : FDWrapper) {bytes : Bytes}
    (h : bytes.length ≤ IPv4Header.LENGTH + FileDescriptor.kReadBufferSize) :
    FileDescriptor.readBuffers fd (.filled bytes) [resize [] IPv4Header.LENGTH, []] =
      .ok (FileDescriptor.registerRead fd, tunBuffers bytes) := by
  have hsizes : (FileDescriptor.growLast [resize [] IPv4Header.LENGTH, []]).map List.length =
      [IPv4Header.LENGTH, FileDescriptor.kReadBufferSize] := by
    simp [FileDescriptor.growLast]
  have hrest : (bytes.drop IPv4Header.LENGTH).length ≤ FileDescriptor.kReadBufferSize := by
    rw [List.length_drop]
    omega
  rw [FileDescriptor.readBuffers_ok fd (by simp) (by
    rw [FileDescriptor.totalSize, hsizes]
    exact h), hsizes, pieces, pieces, pieces, List.take_of_length_le hrest]
  rfl

theorem tunBuffers_spec {bytes : Bytes} (h : 40 ≤ bytes.length) :
    (tunBuffers bytes).flatten = bytes ∧ Views.Filled 40 (tunBuffers bytes) := by
  have hflatten : (tunBuffers bytes).flatten = bytes := by simp [tunBuffers]
  refine ⟨hflatten, Views.filled_of_nonempty ?_ (by rw [hflatten]; exact h)⟩
  intro view hview
  apply List.ne_nil_of_length_pos
  simp only [tunBuffers, IPv4Header.LENGTH, List.mem_cons, List.not_mem_nil, or_false] at hview
  cases hview with
  | inl hheader =>
      rw [hheader, List.length_take]
      omega
  | inr hrest =>
      rw [hrest, List.length_drop]
      omega

theorem parse_tunBuffers {a peer : TCPOverIPv4Adapter} (hmirrored : Mirrored a peer)
    (hlistening : peer.listening = false) {sent : TCPSegment} {dgram : InternetDatagram}
    (hwraps : Wraps a sent dgram) {bytes : Bytes}
    (hbytes : bytes = dgram.header.bytes ++ dgram.payload.flatten) :
    ∃ received, parse (IPv4Datagram.parse {}) (tunBuffers bytes) = .ok (some received) ∧
      received.header = dgram.header ∧
      peer.unwrapTcpInIp received = .ok (peer, some sent) := by
  rw [hbytes]
  obtain ⟨hflatten, hfilled⟩ := tunBuffers_spec hwraps.long
  exact parse_unwrap_wraps hmirrored hlistening hwraps hflatten hfilled

end TCPOverIPv4Adapter

namespace TCPOverIPv4OverEthernetAdapter
open TCPOverIPv4Adapter

/-- The bytes that a TAP device delivers are read into these buffers. -/
theorem read_tap (fd : FDWrapper) {bytes : Bytes} (h : bytes.length ≤
      EthernetHeader.LENGTH + IPv4Header.LENGTH + FileDescriptor.kReadBufferSize) :
    FileDescriptor.readBuffers fd (.filled bytes)
        [resize [] EthernetHeader.LENGTH, resize [] IPv4Header.LENGTH, []] =
      .ok (FileDescriptor.registerRead fd, tapBuffers bytes) := by
  have hsizes : (FileDescriptor.growLast
      [resize [] EthernetHeader.LENGTH, resize [] IPv4Header.LENGTH, []]).map List.length =
      [EthernetHeader.LENGTH, IPv4Header.LENGTH, FileDescriptor.kReadBufferSize] := by
    simp [FileDescriptor.growLast]
  have hrest : ((bytes.drop EthernetHeader.LENGTH).drop IPv4Header.LENGTH).length ≤
      FileDescriptor.kReadBufferSize := by
    rw [List.length_drop, List.length_drop]
    omega
  rw [FileDescriptor.readBuffers_ok fd (by simp) (by
    rw [FileDescriptor.totalSize, hsizes, List.sum_cons, List.sum_cons, List.sum_singleton]
    omega), hsizes, pieces, pieces, pieces, pieces, List.take_of_length_le hrest]
  rfl

theorem tapBuffers_spec {bytes : Bytes} (h : 54 ≤ bytes.length) :
    (tapBuffers bytes).flatten = bytes ∧ Views.Filled 54 (tapBuffers bytes) := by
  have hflatten : (tapBuffers bytes).flatten = bytes := by simp [tapBuffers]
  refine ⟨hflatten, Views.filled_of_nonempty ?_ (by rw [hflatten]; exact h)⟩
  intro view hview
  apply List.ne_nil_of_length_pos
  simp only [tapBuffers, IPv4Header.LENGTH, EthernetHeader.LENGTH, List.mem_cons,
    List.not_mem_nil, or_false] at hview
  rcases hview with rfl | rfl | rfl
  · rw [List.length_take]; omega
  · rw [List.length_take, List.length_drop]; omega
  · rw [List.length_drop, List.length_drop]; omega

/-- The frame around a datagram, in the buffers of a read, is read back with the datagram's
bytes in its payload. -/
theorem parse_tapBuffers (frame : EthernetFrame) (h : 40 ≤ frame.payload.flatten.length) :
    ∃ payload, parse emptyFrame.parse (tapBuffers frame.serialize.flatten) =
        .ok (some { header := frame.header, payload }) ∧
      payload.flatten = frame.payload.flatten ∧ Views.Filled 40 payload := by
  rw [frame.serialize_flatten]
  have hlength : 54 ≤ (frame.header.bytes ++ frame.payload.flatten).length := by
    rw [List.length_append, EthernetHeader.length_bytes]
    omega
  obtain ⟨hflatten, hfilled⟩ := tapBuffers_spec hlength
  exact EthernetFrame.parse_wire hflatten (n := 40) hfilled emptyFrame

/-- So the frame around a wrapped datagram brings the segment to the peer. -/
theorem parse_tapBuffers_wraps {a peer : TCPOverIPv4Adapter} (hmirrored : Mirrored a peer)
    (hlistening : peer.listening = false) {sent : TCPSegment} {dgram : InternetDatagram}
    (hwraps : Wraps a sent dgram) {buffers : List Bytes}
    (hbuffers : buffers.flatten = dgram.header.bytes ++ dgram.payload.flatten)
    (header : EthernetHeader) :
    ∃ payload received, parse emptyFrame.parse
        (tapBuffers (EthernetFrame.serialize { header, payload := buffers }).flatten) =
          .ok (some { header, payload }) ∧
      parse (IPv4Datagram.parse {}) payload = .ok (some received) ∧
      received.header = dgram.header ∧
      peer.unwrapTcpInIp received = .ok (peer, some sent) := by
  have hlength : 40 ≤ buffers.flatten.length := hbuffers ▸ hwraps.long
  obtain ⟨payload, hparse, hpayload, hfilled⟩ :=
    parse_tapBuffers { header, payload := buffers } hlength
  obtain ⟨received, hreceived, hheader, hunwrap⟩ := parse_unwrap_wraps hmirrored hlistening
    hwraps (hpayload.trans hbuffers) hfilled
  exact ⟨payload, received, hparse, hreceived, hheader, hunwrap⟩

/-- The read takes in a frame whole when its buffers have room for the datagram. -/
theorem held_frame (header : EthernetHeader) {buffers : List Bytes}
    (hroom : buffers.flatten.length ≤ IPv4Header.LENGTH + FileDescriptor.kReadBufferSize) :
    (EthernetFrame.serialize { header, payload := buffers }).flatten.take
        (EthernetHeader.LENGTH + IPv4Header.LENGTH + FileDescriptor.kReadBufferSize) =
      (EthernetFrame.serialize { header, payload := buffers }).flatten := by
  apply List.take_of_length_le
  rw [EthernetFrame.serialize_flatten, List.length_append, EthernetHeader.length_bytes,
    Nat.add_assoc]
  exact Nat.add_le_add_left hroom EthernetHeader.LENGTH

/-- The whole stack carries a segment over. The adapter's datagram has both its checksums
right and, split as a read from a TUN device or in a frame as a read from a TAP device, gives
the mirrored peer the segment that was sent: that of the user under the ports and the
checksum. So does the read itself, when the buffers have room for the datagram. -/
theorem segment_round_trip {a peer : TCPOverIPv4Adapter} (hmirrored : Mirrored a peer)
    (hlistening : a.listening = false ∧ peer.listening = false) (seg : TCPSegment)
    (hsize : seg.senderMessage.payload.length ≤ 65495) :
    ∃ sent dgram buffers, a.wrapTcpInIp seg = .ok (sent, dgram) ∧
      dgram.serialize = .ok buffers ∧
      dgram.header.computeChecksum = .ok dgram.header ∧
      (InternetChecksum.add { sum := dgram.header.pseudoChecksum }
        dgram.payload.flatten).value = 0 ∧
      (∃ received,
        parse (IPv4Datagram.parse {}) (tunBuffers buffers.flatten) = .ok (some received) ∧
        received.header = dgram.header ∧
        peer.unwrapTcpInIp received = .ok (peer, some sent)) ∧
      (∀ header, ∃ frame received,
        parse emptyFrame.parse
          (tapBuffers (EthernetFrame.serialize { header, payload := buffers }).flatten) =
            .ok (some frame) ∧ frame.header = header ∧
        parse (IPv4Datagram.parse {}) frame.payload = .ok (some received) ∧
        received.header = dgram.header ∧
        peer.unwrapTcpInIp received = .ok (peer, some sent)) ∧
      (buffers.flatten.length ≤ IPv4Header.LENGTH + FileDescriptor.kReadBufferSize →
        peer.readTun buffers.flatten = .ok (peer, some sent) ∧
        ∀ (interface : NetworkInterface) header, header.dst = interface.ethernetAddress →
          header.type = EthernetHeader.TYPE_IPv4 →
          read ⟨peer, interface⟩
              (EthernetFrame.serialize { header, payload := buffers }).flatten =
            .ok (⟨peer, (sendPending interface).1⟩, (sendPending interface).2, some sent)) ∧
      sent.senderMessage = seg.senderMessage ∧ sent.receiverMessage = seg.receiverMessage ∧
      sent.reset = seg.reset := by
  obtain ⟨sent, dgram, hwrap, hwraps, hsame⟩ := wrapTcpInIp_wraps a hsize
  obtain ⟨more, hserialize, hmore⟩ := IPv4Datagram.serialize_eq hwraps.fits.ver
  have hflatten : (dgram.header.bytes :: more).flatten =
      dgram.header.bytes ++ dgram.payload.flatten := by rw [List.flatten_cons, hmore]
  obtain ⟨received, hreceived, hheader, hunwrap⟩ :=
    parse_tunBuffers hmirrored hlistening.2 hwraps hflatten
  have hframe := parse_tapBuffers_wraps hmirrored hlistening.2 hwraps hflatten
  refine ⟨sent, dgram, _, hwrap, hserialize, hwraps.headerCksum, ?_,
    ⟨received, hreceived, hheader, hunwrap⟩, ?_, ?_, hsame⟩
  · rw [hwraps.payload]
    exact hwraps.cksum
  · intro header
    obtain ⟨payload, received, hparse, hreceived, hheader, hunwrap⟩ := hframe header
    exact ⟨_, received, hparse, rfl, hreceived, hheader, hunwrap⟩
  · intro hroom
    constructor
    · rw [readTun, List.take_of_length_le hroom]
      simp only [hreceived]
      exact hunwrap
    · intro interface header hdst htype
      obtain ⟨payload, received, hparse, hreceived, -, hunwrap⟩ := hframe header
      have hrecv : interface.recvFrame { header, payload } =
          .ok (interface, some received) := by
        simp only [NetworkInterface.recvFrame, NetworkInterface.datagramFor, htype, if_true,
          hreceived, hdst]
      simp only [read, held_frame header hroom, hparse, hrecv, hunwrap]

theorem segment_round_trip_syn :
    let a : TCPOverIPv4Adapter := { config := ⟨⟨⟨0x0a000001⟩, 1234⟩, ⟨⟨0x0a000002⟩, 80⟩⟩ }
    let peer : TCPOverIPv4Adapter := { config := ⟨⟨⟨0x0a000002⟩, 80⟩, ⟨⟨0x0a000001⟩, 1234⟩⟩ }
    let seg : TCPSegment := { senderMessage := { seqno := ⟨7⟩, syn := true, payload := [104] } }
    ∃ sent dgram buffers, a.wrapTcpInIp seg = .ok (sent, dgram) ∧
      dgram.serialize = .ok buffers ∧
      (∃ received,
        parse (IPv4Datagram.parse {}) (tunBuffers buffers.flatten) = .ok (some received) ∧
        peer.unwrapTcpInIp received = .ok (peer, some sent)) ∧
      sent.senderMessage = seg.senderMessage := by
  intro a peer seg
  have hmirrored : Mirrored a peer := ⟨rfl, rfl⟩
  obtain ⟨sent, dgram, buffers, hwrap, hserialize, -, -, hread, -, -, hsame, -⟩ :=
    segment_round_trip hmirrored ⟨rfl, rfl⟩ seg (by decide)
  obtain ⟨received, hparse, -, hunwrap⟩ := hread
  exact ⟨sent, dgram, buffers, hwrap, hserialize, ⟨received, hparse, hunwrap⟩, hsame⟩

end TCPOverIPv4OverEthernetAdapter
end Minnow
