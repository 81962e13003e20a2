import Minnow.FileDescriptor
import Minnow.NetworkInterface
import Minnow.TCPSegment

/-!
The adapters that carry TCP segments in IPv4 datagrams, over a TUN device or in the
Ethernet frames of a TAP device. A read takes the bytes of one datagram or frame, as many
as its buffers hold, and splits them into the buffers as the vectored read of the source.
-/

namespace Minnow

/-- An address with its port. -/
structure SocketAddress extends Address where
  port : UInt16
  deriving Repr, DecidableEq

structure FdAdapterConfig where
  source : SocketAddress := ⟨⟨0⟩, 0⟩
  destination : SocketAddress := ⟨⟨0⟩, 0⟩
  deriving Repr, DecidableEq

structure TCPOverIPv4Adapter where
  config : FdAdapterConfig := {}
  listening : Bool := false
  deriving Repr, DecidableEq

namespace TCPOverIPv4Adapter

/-- A listening adapter takes a SYN for the start of its connection and adopts the
addresses it came with; another segment is not for it. -/
def adopt (a : TCPOverIPv4Adapter) (header : IPv4Header) (tcpSeg : TCPSegment) :
    Option TCPOverIPv4Adapter :=
  if a.listening then
    if tcpSeg.senderMessage.syn && !tcpSeg.reset then
      some {
        config := {
          source := ⟨⟨header.dst⟩, a.config.source.port⟩
          destination := ⟨⟨header.src⟩, tcpSeg.udinfo.srcPort⟩ }
        listening := false }
    else none
  else some a

def unwrapTcpInIp (a : TCPOverIPv4Adapter) (ipDgram : InternetDatagram) :
    Except String (TCPOverIPv4Adapter × Option TCPSegment) :=
  if !a.listening && ipDgram.header.dst != a.config.source.ipv4Numeric then .ok (a, none)
  else if !a.listening && ipDgram.header.src != a.config.destination.ipv4Numeric then
    .ok (a, none)
  else if ipDgram.header.proto != IPv4Header.PROTO_TCP then .ok (a, none)
  else
    match parse (TCPSegment.parse {} ipDgram.header.pseudoChecksum) ipDgram.payload with
    | .error e => .error e
    | .ok none => .ok (a, none)
    | .ok (some tcpSeg) =>
        if tcpSeg.udinfo.dstPort != a.config.source.port then .ok (a, none)
        else
          match a.adopt ipDgram.header tcpSeg with
          | none => .ok (a, none)
          | some a =>
              if tcpSeg.udinfo.srcPort != a.config.destination.port then .ok (a, none)
              else .ok (a, some tcpSeg)

/-- The segment as it is sent, with its ports and checksum, and the datagram around it. -/
def wrapTcpInIp (a : TCPOverIPv4Adapter) (seg : TCPSegment) :
    Except String (TCPSegment × InternetDatagram) :=
  let seg := { seg with udinfo := { seg.udinfo with
    srcPort := a.config.source.port, dstPort := a.config.destination.port } }
  let header : IPv4Header :=
    { src := a.config.source.ipv4Numeric, dst := a.config.destination.ipv4Numeric }
  let header := { header with
    len := UInt16.ofNat (header.hlen.toNat * 4 + 20 + seg.senderMessage.payload.length) }
  let seg := seg.computeChecksum header.pseudoChecksum
  match header.computeChecksum with
  | .error e => .error e
  | .ok header => .ok (seg, { header, payload := (seg.serialize {}).takeOutput })

/-- The buffers that the bytes read from a TUN device fill. -/
def tunBuffers (bytes : Bytes) : List Bytes :=
  [bytes.take IPv4Header.LENGTH, bytes.drop IPv4Header.LENGTH]

/-- The read of the adapter over a TUN device, which loses what the buffers cannot hold. -/
def readTun (a : TCPOverIPv4Adapter) (bytes : Bytes) :
    Except String (TCPOverIPv4Adapter × Option TCPSegment) :=
  let held := bytes.take (IPv4Header.LENGTH + FileDescriptor.kReadBufferSize)
  match parse (IPv4Datagram.parse {}) (tunBuffers held) with
  | .error e => .error e
  | .ok none => .ok (a, none)
  | .ok (some ipDgram) => a.unwrapTcpInIp ipDgram

end TCPOverIPv4Adapter

structure TCPOverIPv4OverEthernetAdapter extends TCPOverIPv4Adapter where
  interface : NetworkInterface

namespace TCPOverIPv4OverEthernetAdapter

/-- The interface without the frames it has ready, which are written to the device. -/
def sendPending (n : NetworkInterface) : NetworkInterface × List EthernetFrame :=
  ({ n with readyToSend := [] }, n.readyToSend)

/-- The buffers that the bytes read from a TAP device fill. -/
def tapBuffers (bytes : Bytes) : List Bytes :=
  [bytes.take EthernetHeader.LENGTH,
    (bytes.drop EthernetHeader.LENGTH).take IPv4Header.LENGTH,
    (bytes.drop EthernetHeader.LENGTH).drop IPv4Header.LENGTH]

def emptyFrame : EthernetFrame :=
  { header := ⟨Vector.replicate 6 0, Vector.replicate 6 0, 0⟩ }

/-- A read from the device: the adapter after it, the frames it has written and the segment
it has found. -/
def read (a : TCPOverIPv4OverEthernetAdapter) (bytes : Bytes) :
    Except String (TCPOverIPv4OverEthernetAdapter × List EthernetFrame × Option TCPSegment) :=
  let held := bytes.take
    (EthernetHeader.LENGTH + IPv4Header.LENGTH + FileDescriptor.kReadBufferSize)
  match parse emptyFrame.parse (tapBuffers held) with
  | .error e => .error e
  | .ok none => .ok (a, [], none)
  | .ok (some frame) =>
      match a.interface.recvFrame frame with
      | .error e => .error e
      | .ok (interface, ipDgram) =>
          let sent := sendPending interface
          match ipDgram with
          | none => .ok ({ a with interface := sent.1 }, sent.2, none)
          | some ipDgram =>
              match a.unwrapTcpInIp ipDgram with
              | .error e => .error e
              | .ok (adapter, tcpSeg) => .ok (⟨adapter, sent.1⟩, sent.2, tcpSeg)

end TCPOverIPv4OverEthernetAdapter
end Minnow
