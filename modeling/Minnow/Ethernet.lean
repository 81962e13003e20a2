import Minnow.Parser

/-!
Ethernet addresses, frames and the ARP messages that frames carry.
-/

namespace Minnow

abbrev EthernetAddress := Vector UInt8 6

def ETHERNET_BROADCAST : EthernetAddress := Vector.replicate 6 0xff

structure EthernetHeader where
  dst : EthernetAddress
  src : EthernetAddress
  type : UInt16
  deriving Repr, DecidableEq

namespace EthernetHeader

def TYPE_IPv4 : UInt16 := 0x800

def TYPE_ARP : UInt16 := 0x806

def LENGTH : Nat := 14

def parse (h : EthernetHeader) : ParserM EthernetHeader := do
  let dst ← h.dst.mapM Parser.integer
  let src ← h.src.mapM Parser.integer
  let type ← Parser.integer h.type
  return { dst, src, type }

def serialize (h : EthernetHeader) (serializer : Serializer) : Serializer :=
  (h.src.toList.foldl Serializer.integer
    (h.dst.toList.foldl Serializer.integer serializer)).integer h.type

end EthernetHeader

structure EthernetFrame where
  header : EthernetHeader
  payload : List Bytes := []
  deriving Repr, DecidableEq

namespace EthernetFrame

def parse (frame : EthernetFrame) : ParserM EthernetFrame := do
  let header ← frame.header.parse
  let payload ← Parser.allRemaining
  return { header, payload }

def serialize (frame : EthernetFrame) : List Bytes :=
  ((frame.header.serialize {}).appendBuffers frame.payload).takeOutput

end EthernetFrame

structure ARPMessage where
  hardwareType : UInt16 := 1
  protocolType : UInt16 := EthernetHeader.TYPE_IPv4
  hardwareAddressSize : UInt8 := 6
  protocolAddressSize : UInt8 := 4
  opcode : UInt16 := 0
  senderEthernetAddress : EthernetAddress := Vector.replicate 6 0
  senderIpAddress : UInt32 := 0
  targetEthernetAddress : EthernetAddress := Vector.replicate 6 0
  targetIpAddress : UInt32 := 0
  deriving Repr, DecidableEq

namespace ARPMessage

def TYPE_ETHERNET : UInt16 := 1

def OPCODE_REQUEST : UInt16 := 1

def OPCODE_REPLY : UInt16 := 2

def supported (m : ARPMessage) : Bool :=
  m.hardwareType == TYPE_ETHERNET && m.protocolType == EthernetHeader.TYPE_IPv4 &&
    m.hardwareAddressSize == 6 && m.protocolAddressSize == 4 &&
    (m.opcode == OPCODE_REQUEST || m.opcode == OPCODE_REPLY)

def parse (m : ARPMessage) : ParserM ARPMessage := do
  let hardwareType ← Parser.integer m.hardwareType
  let protocolType ← Parser.integer m.protocolType
  let hardwareAddressSize ← Parser.integer m.hardwareAddressSize
  let protocolAddressSize ← Parser.integer m.protocolAddressSize
  let opcode ← Parser.integer m.opcode
  let m := { m with
    hardwareType, protocolType, hardwareAddressSize, protocolAddressSize, opcode }
  if !m.supported then
    Parser.setError
    return m
  let senderEthernetAddress ← m.senderEthernetAddress.mapM Parser.integer
  let senderIpAddress ← Parser.integer m.senderIpAddress
  let targetEthernetAddress ← m.targetEthernetAddress.mapM Parser.integer
  let targetIpAddress ← Parser.integer m.targetIpAddress
  return { m with
    senderEthernetAddress, senderIpAddress, targetEthernetAddress, targetIpAddress }

def serialize (m : ARPMessage) : Except String (List Bytes) :=
  if !m.supported then
    .error ("ARPMessage: unsupported field combination " ++
      "(must be Ethernet/IP, and request or reply)")
  else
    let s : Serializer := (((((({} : Serializer).integer m.hardwareType).integer
      m.protocolType).integer m.hardwareAddressSize).integer
      m.protocolAddressSize).integer m.opcode)
    let s := (m.senderEthernetAddress.toList.foldl Serializer.integer s).integer
      m.senderIpAddress
    let s := (m.targetEthernetAddress.toList.foldl Serializer.integer s).integer
      m.targetIpAddress
    .ok s.takeOutput

end ARPMessage
end Minnow
