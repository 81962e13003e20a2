import Minnow.AdapterCarriers
import Minnow.NetworkInterfaceSends

/-!
The adapter over a TAP device keeps the promise too. Frames that wait for an Ethernet address,
or to be written, carry the segments that their datagrams do; frames with ARP messages carry
none.
-/

namespace Minnow
open Throwing

namespace TCPOverIPv4OverTapFdAdapter
open TCPOverIPv4Adapter NetworkInterface
open TCPOverIPv4OverEthernetAdapter (tapBuffers emptyFrame read_tap parse_tapBuffers)

/-- The bytes are those of a frame around a datagram that carries the segment. -/
def Carries (bytes : Bytes) (seg : TCPSegment) : Prop :=
  ∃ frame ipDgram, parse emptyFrame.parse (tapBuffers bytes) = .ok (some frame) ∧
    frame.header.type = EthernetHeader.TYPE_IPv4 ∧
    parse (IPv4Datagram.parse {}) frame.payload = .ok (some ipDgram) ∧
    segmentOf ipDgram = some seg

/-- Whoever the frame is sent to, it carries segments of `S` only. -/
def Bears (S : TCPSegment → Prop) (frame : EthernetFrame) : Prop :=
  ∀ dst seg, Carries (EthernetFrame.serialize
    { frame with header := { frame.header with dst } }).flatten seg → S seg.bare

variable {S T : TCPSegment → Prop}

theorem Bears.mono (hmono : ∀ seg, S seg → T seg) {frame : EthernetFrame} (h : Bears S frame) :
    Bears T frame := fun dst seg hseg => hmono _ (h dst seg hseg)

theorem Bears.sent {frame : EthernetFrame} (h : Bears S frame) {seg : TCPSegment}
    (hseg : Carries frame.serialize.flatten seg) : S seg.bare := h frame.header.dst seg hseg

/-- The header of a frame is read back, whatever its payload. -/
theorem parse_tapBuffers_header {frame read : EthernetFrame}
    (h : parse emptyFrame.parse (tapBuffers frame.serialize.flatten) = .ok (some read)) :
    read.header = frame.header := by
  have hinput : (tapBuffers frame.serialize.flatten).flatten =
      frame.header.bytes ++ frame.payload.flatten := by
    rw [← frame.serialize_flatten]
    simp [tapBuffers]
  have hfilled : Views.Filled (14 + 0) (tapBuffers frame.serialize.flatten) := by
    refine Views.filled_of_le_head _ ?_
    rw [frame.serialize_flatten, List.length_take, List.length_append,
      EthernetHeader.length_bytes]
    exact Nat.le_min.mpr ⟨Nat.le_refl _, Nat.le_add_right _ _⟩
  obtain ⟨payload, hparse, -⟩ := EthernetFrame.parse_wire hinput hfilled emptyFrame
  rw [hparse] at h
  cases h
  rfl

/-- A frame of another type carries nothing. -/
theorem bears_of_type {frame : EthernetFrame} {type : UInt16} (htype : frame.header.type = type)
    (h : type ≠ EthernetHeader.TYPE_IPv4) : Bears S frame := by
  rintro dst seg ⟨read, ipDgram, hparse, hread, -⟩
  rw [parse_tapBuffers_header hparse] at hread
  exact absurd (htype.symm.trans hread) h

theorem type_arp_ne : EthernetHeader.TYPE_ARP ≠ EthernetHeader.TYPE_IPv4 := by decide

/-- A frame around a wrapped datagram carries the segment in it. -/
theorem bears_wraps {a : TCPOverIPv4Adapter} {sent : TCPSegment} {dgram : InternetDatagram}
    (hwraps : Wraps a sent dgram) {buffers : List Bytes}
    (hbuffers : buffers.flatten = dgram.header.bytes ++ dgram.payload.flatten)
    (hsent : S sent.bare) (header : EthernetHeader) : Bears S { header, payload := buffers } := by
  rintro dst seg ⟨read, ipDgram, hparse, -, hdgram, hsegment⟩
  obtain ⟨payload, hread, hpayload, hfilled⟩ := parse_tapBuffers
    { header := { header with dst }, payload := buffers } (hbuffers ▸ hwraps.long)
  rw [hread] at hparse
  cases hparse
  have hsame := parse_wraps hwraps (hpayload.trans hbuffers) hfilled hdgram
  obtain rfl := Option.some.inj (hsame.symm.trans hsegment)
  exact hsent

/-- What the interface holds back carries segments of `S` only. -/
abbrev Holds (S : TCPSegment → Prop) (n : NetworkInterface) : Prop :=
  Sends (fun _ _ => True) (Bears S) n

variable {n n' : NetworkInterface}

theorem announces_bears (n : NetworkInterface) : Announces (Bears S) n :=
  fun _ _ _ _ _ _ => bears_of_type rfl type_arp_ne

theorem Holds.recvFrame (h : Holds S n) {frame : EthernetFrame}
    {ipDgram : Option InternetDatagram} (hrecv : n.recvFrame frame = .ok (n', ipDgram)) :
    Holds S n' ∧ ∀ d ∈ ipDgram, frame.header.type = EthernetHeader.TYPE_IPv4 ∧
      parse (IPv4Datagram.parse {}) frame.payload = .ok (some d) := by
  obtain ⟨hholds, -, hdgram⟩ := Sends.recvFrame h (announces_bears n) (fun _ _ => trivial) hrecv
  exact ⟨hholds, fun d hd => ⟨(hdgram d hd).1, (hdgram d hd).2.2⟩⟩

theorem Holds.sendDatagram (h : Holds S n) {a : TCPOverIPv4Adapter} {sent : TCPSegment}
    {dgram : InternetDatagram} (hwraps : Wraps a sent dgram) (hsent : S sent.bare)
    {nextHop : Address} (hsend : n.sendDatagram dgram nextHop = .ok n') : Holds S n' := by
  obtain ⟨more, hserialize, hmore⟩ := IPv4Datagram.serialize_eq hwraps.fits.ver
  have hbytes : (dgram.header.bytes :: more).flatten =
      dgram.header.bytes ++ dgram.payload.flatten := by rw [List.flatten_cons, hmore]
  refine (Sends.sendDatagram h (announces_bears n) (fun _ => trivial) ?_ hsend).1
  intro payload dst hpayload _
  rw [hserialize, Except.ok.injEq] at hpayload
  rw [← hpayload]
  exact bears_wraps hwraps hbytes hsent _

variable {answers : DeviceAnswers} {a a' : TCPOverIPv4OverTapFdAdapter}

def Keeps (S : TCPSegment → Prop) (a : TCPOverIPv4OverTapFdAdapter) : Prop :=
  a.tap.fd.Lasting ∧ (∀ d ∈ a.tap.written, ∀ seg, Carries d seg → S seg.bare) ∧
    Holds S a.interface

theorem writeFrames_keeps {refused : Nat → Option Errno} {k : Nat} {frames : List EthernetFrame}
    {tap tap' : Device} (hfd : tap.fd.Lasting)
    (hwritten : ∀ d ∈ tap.written, ∀ seg, Carries d seg → S seg.bare)
    (hframes : ∀ frame ∈ frames, Bears S frame)
    (hwrite : writeFrames refused k frames tap = .ok tap') :
    tap'.fd.Lasting ∧ ∀ d ∈ tap'.written, ∀ seg, Carries d seg → S seg.bare := by
  induction frames generalizing k tap with
  | nil =>
      cases hwrite
      exact ⟨hfd, hwritten⟩
  | cons frame frames ih =>
      obtain ⟨hframe, hrest⟩ := List.forall_mem_cons.mp hframes
      obtain ⟨tap₁, hfirst, hwrite⟩ := bind_eq_ok.mp hwrite
      obtain ⟨hfd₁, hgrown⟩ := Device.write_ok hfd hfirst
      refine ih hfd₁ ?_ hrest hwrite
      rw [hgrown]
      refine List.forall_mem_append.mpr ⟨hwritten, List.forall_mem_singleton.mpr ?_⟩
      exact fun seg hseg => hframe.sent hseg

/-- What the interface has ready is written. -/
theorem Keeps.sendPending (h : Keeps S a) (hsend : sendPending answers a = .ok a') :
    Keeps S a' := by
  obtain ⟨hfd, hwritten, hholds⟩ := h
  obtain ⟨tap, hwrite, hsend⟩ := bind_eq_ok.mp hsend
  cases hsend
  obtain ⟨hfd', hwritten'⟩ := writeFrames_keeps hfd hwritten hholds.ready hwrite
  exact ⟨hfd', hwritten', ⟨hholds.table, fun _ hframe => absurd hframe List.not_mem_nil,
    hholds.waiting⟩⟩

theorem keeps_read {seg : Option TCPSegment} (h : Keeps S a)
    (hread : read answers a = .ok (a', seg)) :
    Keeps S a' ∧ ∀ s ∈ seg, ∃ d ∈ answers.offered, Carries d s := by
  obtain ⟨hfd, hwritten, hholds⟩ := h
  obtain ⟨⟨tap, strs⟩, htap, hread⟩ := bind_eq_ok.mp hread
  obtain ⟨⟨fd, strs⟩, hbuffers, htap⟩ := bind_eq_ok.mp htap
  cases htap
  obtain ⟨hfd', bytes, hfilled, hfilledOk, hfits⟩ :=
    Descriptor.readBuffers_lasting hfd (by simp) hbuffers
  have hstrs : strs = tapBuffers bytes := by
    rw [hfilled, read_tap _ (by simpa [FileDescriptor.growLast, FileDescriptor.totalSize,
      Nat.add_assoc] using hfits)] at hfilledOk
    cases hfilledOk
    rfl
  obtain ⟨parsed, hparse, hread⟩ := bind_eq_ok.mp hread
  rw [thrown_eq_ok, hstrs] at hparse
  cases parsed with
  | none =>
      cases hread
      exact ⟨⟨hfd', hwritten, hholds⟩, fun s hs => by cases hs⟩
  | some frame =>
      obtain ⟨⟨interface, ipDgram⟩, hrecv, hread⟩ := bind_eq_ok.mp hread
      obtain ⟨a₁, hsend, hread⟩ := bind_eq_ok.mp hread
      rw [thrown_eq_ok] at hrecv
      obtain ⟨hholds', hdgram⟩ := hholds.recvFrame hrecv
      have hbefore : Keeps S { a with tap := { a.tap with fd }, interface } :=
        ⟨hfd', hwritten, hholds'⟩
      have hafter := hbefore.sendPending hsend
      cases ipDgram with
      | none =>
          cases hread
          exact ⟨hafter, fun s hs => by cases hs⟩
      | some ipDgram =>
          obtain ⟨⟨adapter, tcpSeg⟩, hunwrap, hread⟩ := bind_eq_ok.mp hread
          cases hread
          rw [thrown_eq_ok] at hunwrap
          refine ⟨hafter, fun s hs => ?_⟩
          cases hs
          obtain ⟨htype, hpayload⟩ := hdgram ipDgram rfl
          exact ⟨bytes, DeviceAnswers.mem_offered.mpr hfilled, frame, ipDgram, hparse, htype,
            hpayload, segmentOf_of_unwrap hunwrap⟩

theorem keeps_write {seg : TCPSegment} (h : Keeps S a) (hseg : S seg.bare)
    (hsize : seg.senderMessage.payload.length ≤ TCPConfig.maxPayloadSize)
    (hwrite : write answers seg a = .ok a') : Keeps S a' := by
  obtain ⟨hfd, hwritten, hholds⟩ := h
  obtain ⟨sent, dgram, hwrap, hwraps, hsame⟩ := wrapTcpInIp_wraps a.toTCPOverIPv4Adapter
    (hsize.trans (by decide : TCPConfig.maxPayloadSize ≤ 65495))
  obtain ⟨wrapped, hwrapped, hwrite⟩ := bind_eq_ok.mp hwrite
  rw [thrown_eq_ok, hwrap] at hwrapped
  cases hwrapped
  obtain ⟨interface, hsend, hwrite⟩ := bind_eq_ok.mp hwrite
  rw [thrown_eq_ok] at hsend
  have hsent : S sent.bare := bare_eq hsame ▸ hseg
  have hbefore : Keeps S { a with interface } :=
    ⟨hfd, hwritten, hholds.sendDatagram hwraps hsent hsend⟩
  exact hbefore.sendPending hwrite

theorem keeps_tick {ms : Nat} (h : Keeps S a) (htick : tick answers ms a = .ok a') :
    Keeps S a' := by
  have hbefore : Keeps S { a with interface := a.interface.tick ms } :=
    ⟨h.1, h.2.1, h.2.2.tick ms⟩
  exact hbefore.sendPending htick

def carrier : adapter.Carrier where
  offered := DeviceAnswers.offered
  carried := Carries
  written a := a.tap.written
  Keeps := Keeps
  lasting h := h.1
  mono hmono h := ⟨h.1, fun d hd seg hseg => hmono _ (h.2.1 d hd seg hseg),
    h.2.2.mono fun _ hframe => hframe.mono hmono⟩
  sent h hd hseg := h.2.1 _ hd _ hseg
  read := keeps_read
  write := keeps_write
  tick := keeps_tick
  configure h := h
  setListening h := h

/-- An adapter made over a device to which nothing has been written. -/
def New (a : TCPOverIPv4OverTapFdAdapter) : Prop :=
  ∃ answers tap ethAddress ipAddress nextHop, tap.fd.Lasting ∧ tap.written = [] ∧
    ofTap answers tap ethAddress ipAddress nextHop = .ok a

/-- A new adapter has sent no segment: the frame that it has written is empty. -/
theorem keeps_ofTap {tap : Device} {ethAddress : EthernetAddress} {ipAddress nextHop : Address}
    (hfd : tap.fd.Lasting) (hnew : tap.written = [])
    (h : ofTap answers tap ethAddress ipAddress nextHop = .ok a) : Keeps S a := by
  obtain ⟨tap', hwrite, h⟩ := bind_eq_ok.mp h
  cases h
  obtain ⟨hfd', hgrown⟩ := Device.write_ok hfd hwrite
  refine ⟨hfd', ?_, sends_start ethAddress ipAddress⟩
  rw [hgrown, hnew]
  refine List.forall_mem_singleton.mpr fun seg hseg => ?_
  exact (bears_of_type rfl (by decide) : Bears S emptyFrame).sent hseg

end TCPOverIPv4OverTapFdAdapter
end Minnow
