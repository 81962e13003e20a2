import Minnow.DatagramAdapter
import Minnow.TCPOverIPv4Wire
import Minnow.TCPSender

/-!
What an adapter promises to the socket: a segment that it reads is in the datagram that its
device has delivered, and what it writes or holds back carries the segments it has been given
and no others. The adapters of the repository keep that promise.
-/

namespace Minnow
open Throwing

/-- A segment without the ports and the checksum, which the adapters set. -/
def TCPSegment.bare (seg : TCPSegment) : TCPSegment := { seg with udinfo := {} }

namespace Descriptor

/-- The descriptor has not ended, and waits for its calls. -/
structure Lasting (fd : Descriptor) : Prop where
  eof : fd.eof = false
  closed : fd.closed = false
  blocking : fd.nonBlocking = false

theorem write_lasting {fd fd' : Descriptor} {outcome : CountOutcome} {buffers : List Bytes}
    {count : Nat} (h : fd.Lasting) (hwrite : fd.write outcome buffers = .ok (fd', count)) :
    fd'.Lasting := by
  obtain ⟨rfl, -⟩ := write_ok.mp hwrite
  exact ⟨h.eof, h.closed, h.blocking⟩

/-- A vectored read never sees the end. -/
theorem readBuffers_lasting {fd fd' : Descriptor} {outcome : Outcome}
    {buffers buffers' : List Bytes} (h : fd.Lasting) (hne : buffers ≠ [])
    (hread : fd.readBuffers outcome buffers = .ok (fd', buffers')) :
    fd'.Lasting ∧ ∃ bytes, outcome = .filled bytes ∧
      FileDescriptor.readBuffers fd.toFDWrapper outcome buffers =
        .ok (FileDescriptor.registerRead fd.toFDWrapper, buffers') ∧
      bytes.length ≤ FileDescriptor.totalSize (FileDescriptor.growLast buffers) := by
  have hsome : buffers.isEmpty = false := by simpa using hne
  cases outcome with
  | failed errno =>
      simp [readBuffers, FileDescriptor.readBuffers, FileDescriptor.tryAgain, h.blocking, hsome]
        at hread
  | filled bytes =>
      by_cases hfits : bytes.length ≤
          FileDescriptor.totalSize (FileDescriptor.growLast buffers)
      · have hok := FileDescriptor.readBuffers_ok fd.toFDWrapper hne hfits
        rw [readBuffers, hok] at hread
        cases hread
        exact ⟨⟨h.eof, h.closed, h.blocking⟩, bytes, rfl, hok, hfits⟩
      · simp [readBuffers, FileDescriptor.readBuffers, hsome, Nat.not_le.mp hfits] at hread

end Descriptor

/-- What the device delivers. -/
def DeviceAnswers.offered (answers : DeviceAnswers) : Option Bytes :=
  match answers.read with
  | .filled d => some d
  | .failed _ => none

theorem DeviceAnswers.mem_offered {answers : DeviceAnswers} {d : Bytes} :
    d ∈ answers.offered ↔ answers.read = .filled d := by
  rw [offered]
  cases answers.read <;> simp

/-- A write that returns has taken the datagram whole. -/
theorem Device.write_ok {d d' : Device} {refused : Option Errno} {buffers : List Bytes}
    (h : d.fd.Lasting) (hwrite : d.write refused buffers = .ok d') :
    d'.fd.Lasting ∧ d'.written = d.written ++ [buffers.flatten] := by
  obtain ⟨⟨fd, count⟩, hfd, hwrite⟩ := bind_eq_ok.mp hwrite
  cases hwrite
  refine ⟨Descriptor.write_lasting h hfd, ?_⟩
  obtain ⟨-, hcount, hsome, -⟩ := Descriptor.write_ok.mp hfd
  have hall : count = FileDescriptor.totalSize buffers := by
    cases refused with
    | some errno =>
        simp [Descriptor.checkSystemCall, FileDescriptor.tryAgain, h.blocking] at hcount
    | none => exact (Except.ok.inj hcount).symm
  rw [hall, FileDescriptor.totalSize, ← List.length_flatten, List.take_length]

/-- What the socket relies on. `Keeps S` says of an adapter that what it has written, and what
it holds back, carries segments of `S` only. -/
structure Adapter.Carrier {α β : Type} (a : Adapter α β) where
  offered : β → Option Bytes
  carried : Bytes → TCPSegment → Prop
  written : α → List Bytes
  Keeps : (TCPSegment → Prop) → α → Prop
  lasting : ∀ {S x}, Keeps S x → (a.fd x).Lasting
  mono : ∀ {S T : TCPSegment → Prop} {x}, (∀ seg, S seg → T seg) → Keeps S x → Keeps T x
  sent : ∀ {S x d seg}, Keeps S x → d ∈ written x → carried d seg → S seg.bare
  read : ∀ {S b x x' seg}, Keeps S x → a.read b x = .ok (x', seg) →
    Keeps S x' ∧ ∀ s ∈ seg, ∃ d ∈ offered b, carried d s
  write : ∀ {S b seg x x'}, Keeps S x → S seg.bare →
    seg.senderMessage.payload.length ≤ TCPConfig.maxPayloadSize →
    a.write b seg x = .ok x' → Keeps S x'
  tick : ∀ {S b ms x x'}, Keeps S x → a.tick b ms x = .ok x' → Keeps S x'
  configure : ∀ {S config lossRates x}, Keeps S x → Keeps S (a.configure config lossRates x)
  setListening : ∀ {S l x}, Keeps S x → Keeps S (a.setListening l x)

namespace TCPOverIPv4Adapter

/-- A datagram that an adapter returns a segment of carries it. -/
theorem segmentOf_of_unwrap {a a' : TCPOverIPv4Adapter} {ipDgram : InternetDatagram}
    {tcpSeg : TCPSegment} (h : a.unwrapTcpInIp ipDgram = .ok (a', some tcpSeg)) :
    segmentOf ipDgram = some tcpSeg := by
  have hreturned : a.returned ipDgram = some tcpSeg := by simp only [returned, h]
  by_cases haccepts : ∃ seg a', Accepts a ipDgram seg a'
  · obtain ⟨seg, a'', haccepts⟩ := haccepts
    rw [unwrap_of_accepts haccepts] at h
    cases h
    exact haccepts.segment
  · have hnone := (unwrap_of_rejects fun seg a' hseg => haccepts ⟨seg, a', hseg⟩).2
    rw [hreturned] at hnone
    cases hnone

/-- A wrapped datagram carries the segment in it, however its payload is split. -/
theorem segmentOf_wraps {a : TCPOverIPv4Adapter} {sent : TCPSegment} {dgram : InternetDatagram}
    (hwraps : Wraps a sent dgram) {payload : List Bytes}
    (hpayload : payload.flatten = dgram.payload.flatten) (hfilled : Views.Filled 20 payload) :
    segmentOf { header := dgram.header, payload } = some sent :=
  segmentOf_eq_some.mpr ⟨hwraps.proto,
    TCPSegment.parse_wire hwraps.cksum (hpayload.trans hwraps.payload) hfilled {}⟩

theorem bare_eq {sent seg : TCPSegment} (h : sent.senderMessage = seg.senderMessage ∧
    sent.receiverMessage = seg.receiverMessage ∧ sent.reset = seg.reset) :
    sent.bare = seg.bare := by
  obtain ⟨hsender, hreceiver, hreset⟩ := h
  rw [TCPSegment.bare, TCPSegment.bare, hsender, hreceiver, hreset]

/-- Buffers that hold the bytes of a wrapped datagram are read as that datagram. -/
theorem parse_wraps {a : TCPOverIPv4Adapter} {sent : TCPSegment} {dgram : InternetDatagram}
    (hwraps : Wraps a sent dgram) {input : List Bytes}
    (hinput : input.flatten = dgram.header.bytes ++ dgram.payload.flatten)
    (hfilled : Views.Filled 40 input) {ipDgram : InternetDatagram}
    (hparse : parse (IPv4Datagram.parse {}) input = .ok (some ipDgram)) :
    segmentOf ipDgram = some sent := by
  obtain ⟨payload, hwire, hpayload, hviews⟩ := IPv4Datagram.parse_wire hwraps.fits
    hwraps.headerCksum (n := 20) hinput hfilled {}
  rw [hwraps.hlen] at hpayload hviews
  rw [hwire] at hparse
  cases hparse
  exact segmentOf_wraps hwraps hpayload hviews

end TCPOverIPv4Adapter

namespace TCPOverIPv4OverTunFdAdapter
open TCPOverIPv4Adapter

/-- The bytes are those of a datagram that carries the segment. -/
def Carries (bytes : Bytes) (seg : TCPSegment) : Prop :=
  ∃ ipDgram, parse (IPv4Datagram.parse {}) (tunBuffers bytes) = .ok (some ipDgram) ∧
    segmentOf ipDgram = some seg

def Keeps (S : TCPSegment → Prop) (a : TCPOverIPv4OverTunFdAdapter) : Prop :=
  a.tun.fd.Lasting ∧ ∀ d ∈ a.tun.written, ∀ seg, Carries d seg → S seg.bare

variable {S : TCPSegment → Prop} {answers : DeviceAnswers} {a a' : TCPOverIPv4OverTunFdAdapter}

theorem keeps_read {seg : Option TCPSegment} (h : Keeps S a)
    (hread : read answers a = .ok (a', seg)) :
    Keeps S a' ∧ ∀ s ∈ seg, ∃ d ∈ answers.offered, Carries d s := by
  obtain ⟨hfd, hwritten⟩ := h
  obtain ⟨⟨tun, strs⟩, htun, hread⟩ := bind_eq_ok.mp hread
  obtain ⟨⟨fd, strs⟩, hbuffers, htun⟩ := bind_eq_ok.mp htun
  cases htun
  obtain ⟨hfd', bytes, hfilled, hfilledOk, hfits⟩ :=
    Descriptor.readBuffers_lasting hfd (by simp) hbuffers
  have hstrs : strs = tunBuffers bytes := by
    rw [hfilled, read_tun _ (by simpa [FileDescriptor.growLast, FileDescriptor.totalSize]
      using hfits)] at hfilledOk
    cases hfilledOk
    rfl
  obtain ⟨parsed, hparse, hread⟩ := bind_eq_ok.mp hread
  rw [thrown_eq_ok, hstrs] at hparse
  cases parsed with
  | none =>
      cases hread
      exact ⟨⟨hfd', hwritten⟩, fun s hs => by cases hs⟩
  | some ipDgram =>
      obtain ⟨⟨adapter, tcpSeg⟩, hunwrap, hread⟩ := bind_eq_ok.mp hread
      cases hread
      rw [thrown_eq_ok] at hunwrap
      refine ⟨⟨hfd', hwritten⟩, fun s hs => ?_⟩
      cases hs
      exact ⟨bytes, DeviceAnswers.mem_offered.mpr hfilled, ipDgram, hparse,
        segmentOf_of_unwrap hunwrap⟩

theorem keeps_write {seg : TCPSegment} (h : Keeps S a) (hseg : S seg.bare)
    (hsize : seg.senderMessage.payload.length ≤ TCPConfig.maxPayloadSize)
    (hwrite : write answers seg a = .ok a') : Keeps S a' := by
  obtain ⟨hfd, hwritten⟩ := h
  obtain ⟨sent, dgram, hwrap, hwraps, hsame⟩ := wrapTcpInIp_wraps a.toTCPOverIPv4Adapter
    (hsize.trans (by decide : TCPConfig.maxPayloadSize ≤ 65495))
  obtain ⟨more, hserialize, hmore⟩ := IPv4Datagram.serialize_eq hwraps.fits.ver
  obtain ⟨wrapped, hwrapped, hwrite⟩ := bind_eq_ok.mp hwrite
  rw [thrown_eq_ok, hwrap] at hwrapped
  cases hwrapped
  obtain ⟨buffers, hbuffers, hwrite⟩ := bind_eq_ok.mp hwrite
  rw [thrown_eq_ok, hserialize] at hbuffers
  cases hbuffers
  obtain ⟨tun, htun, hwrite⟩ := bind_eq_ok.mp hwrite
  cases hwrite
  obtain ⟨hfd', hgrown⟩ := Device.write_ok hfd htun
  refine ⟨hfd', fun d hd s hs => ?_⟩
  rw [hgrown, List.mem_append, List.mem_singleton] at hd
  cases hd with
  | inl hold => exact hwritten d hold s hs
  | inr hnew =>
      obtain ⟨ipDgram, hparse, hsegment⟩ := hs
      have hbytes : d = dgram.header.bytes ++ dgram.payload.flatten := by
        rw [hnew, List.flatten_cons, hmore]
      obtain ⟨hflatten, hfilled⟩ := tunBuffers_spec (hbytes ▸ hwraps.long)
      have hsent := parse_wraps hwraps (hflatten.trans hbytes) hfilled hparse
      obtain rfl := Option.some.inj (hsent.symm.trans hsegment)
      rw [bare_eq hsame]
      exact hseg

def carrier : adapter.Carrier where
  offered := DeviceAnswers.offered
  carried := Carries
  written a := a.tun.written
  Keeps := Keeps
  lasting h := h.1
  mono hmono h := ⟨h.1, fun d hd seg hseg => hmono _ (h.2 d hd seg hseg)⟩
  sent h hd hseg := h.2 _ hd _ hseg
  read := keeps_read
  write := keeps_write
  tick h htick := by
    cases htick
    exact h
  configure h := h
  setListening h := h

end TCPOverIPv4OverTunFdAdapter

namespace LossyFdAdapter

variable {α β : Type} {a : Adapter α β}

/-- An adapter that drops segments carries no others. -/
def carrier (k : a.Carrier) : (lossy a).Carrier where
  offered := k.offered
  carried := k.carried
  written l := k.written l.adapter
  Keeps S l := k.Keeps S l.adapter
  lasting := k.lasting
  mono := k.mono
  sent := k.sent
  read h hread := by
    obtain ⟨⟨adapter, ret⟩, hinner, hread⟩ := bind_eq_ok.mp hread
    cases hread
    obtain ⟨hkeeps, hseg⟩ := k.read h hinner
    refine ⟨hkeeps, fun s hs => hseg s ?_⟩
    split at hs
    · cases hs
    · exact hs
  write h hseg hsize hwrite := by
    change LossyFdAdapter.write a _ _ _ = _ at hwrite
    rw [LossyFdAdapter.write] at hwrite
    dsimp only at hwrite
    split at hwrite
    · cases hwrite
      exact h
    · obtain ⟨adapter, hinner, hwrite⟩ := bind_eq_ok.mp hwrite
      cases hwrite
      exact k.write h hseg hsize hinner
  tick h htick := by
    obtain ⟨adapter, hinner, htick⟩ := bind_eq_ok.mp htick
    cases htick
    exact k.tick h hinner
  configure := k.configure
  setListening := k.setListening

end LossyFdAdapter
end Minnow
