import Minnow.IPv4
import Minnow.TCPMessages

/-!
The TCP segment: the two messages of the peers and a reset flag, under one header.
-/

namespace Minnow

/-- The part of a TCP header that a UDP header has as well. -/
structure UserDatagramInfo where
  srcPort : UInt16 := 0
  dstPort : UInt16 := 0
  cksum : UInt16 := 0
  deriving Repr, DecidableEq

structure TCPSegment where
  senderMessage : TCPSenderMessage := {}
  receiverMessage : TCPReceiverMessage := {}
  reset : Bool := false
  udinfo : UserDatagramInfo := {}
  deriving Repr, DecidableEq

/-- What `all_remaining` gives as one buffer. -/
def Parser.allRemainingBuffer : ParserM Bytes := do
  let concat ← Parser.allRemaining
  return concat.flatten

namespace TCPSegment

/-- The least length of a header, in words of 32 bits. -/
def headerMinLen : UInt32 := 5

/-- The checksum over what a copy of the parser has left. -/
def checksumOf (datagramLayerPseudoChecksum : UInt32) : ParserM UInt16 := do
  let parser2 ← get
  let (allRemaining, _) ← Parser.allRemainingBuffer parser2
  return (InternetChecksum.add { sum := datagramLayerPseudoChecksum } allRemaining).value

/-- The fields of the header in their order, with the data offset. -/
def readFields (s : TCPSegment) : ParserM (TCPSegment × UInt8) := do
  let srcPort ← Parser.integer s.udinfo.srcPort
  let dstPort ← Parser.integer s.udinfo.dstPort
  let seqno ← Parser.integer (0 : UInt32)
  let ackno ← Parser.integer seqno
  let octet ← Parser.integer (0 : UInt8)
  let dataOffset := octet >>> 4
  let flags ← Parser.integer octet
  let windowSize ← Parser.integer s.receiverMessage.windowSize
  let cksum ← Parser.integer s.udinfo.cksum
  let _urgent ← Parser.integer (0 : UInt16)
  return ({
    senderMessage := { s.senderMessage with
      seqno := ⟨seqno⟩, syn := flags &&& 0b00000010 != 0, fin := flags &&& 0b00000001 != 0 }
    receiverMessage := {
      ackno := if flags &&& 0b00010000 != 0 then some ⟨ackno⟩ else none
      windowSize }
    reset := flags &&& 0b00000100 != 0
    udinfo := { srcPort, dstPort, cksum } }, dataOffset)

def parse (s : TCPSegment) (datagramLayerPseudoChecksum : UInt32) : ParserM TCPSegment := do
  if (← checksumOf datagramLayerPseudoChecksum) != 0 then
    Parser.setError
    return s
  let (s, dataOffset) ← s.readFields
  Parser.setErrorIf (dataOffset.toUInt32 < headerMinLen)
  -- the difference is unsigned: a short offset removes whatever is left
  modify fun p => p.removePrefix (dataOffset.toUInt32 * 4 - headerMinLen * 4).toNat
  let payload ← Parser.allRemainingBuffer
  return { s with senderMessage := { s.senderMessage with payload } }

def flags (s : TCPSegment) : UInt8 :=
  ((if s.receiverMessage.ackno.isSome then (0b00010000 : UInt32) else 0) |||
    (if s.reset then 0b00000100 else 0) ||| (if s.senderMessage.syn then 0b00000010 else 0) |||
    (if s.senderMessage.fin then 0b00000001 else 0)).toUInt8

def serialize (s : TCPSegment) (serializer : Serializer) : Serializer :=
  (((((((((serializer.integer s.udinfo.srcPort).integer s.udinfo.dstPort).integer
    s.senderMessage.seqno.rawValue).integer
    (s.receiverMessage.ackno.getD ⟨0⟩).rawValue).integer (headerMinLen <<< 4).toUInt8).integer
    s.flags).integer s.receiverMessage.windowSize).integer s.udinfo.cksum).integer
    (0 : UInt16)).appendBuffer s.senderMessage.payload

def computeChecksum (s : TCPSegment) (datagramLayerPseudoChecksum : UInt32) : TCPSegment :=
  let s := { s with udinfo := { s.udinfo with cksum := 0 } }
  let check : InternetChecksum := { sum := datagramLayerPseudoChecksum }
  { s with udinfo := { s.udinfo with
      cksum := (check.addBuffers (s.serialize {}).takeOutput).value } }

end TCPSegment
end Minnow
