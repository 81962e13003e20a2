import Minnow.Ethernet
import Minnow.IPv4
import Minnow.WrappingIntegers
import Mathlib.Logic.Function.Basic

/-!
The NetworkInterface. Its ARP table keeps learned addresses and pending requests in one
map: a pending request is an entry with the broadcast address. The map is a function
here, since no operation depends on the order of its entries.
-/

namespace Minnow

/-- An IPv4 socket address, of which the interface uses the number. -/
structure Address where
  ipv4Numeric : UInt32
  deriving Repr, DecidableEq

structure NetworkInterface where
  ethernetAddress : EthernetAddress
  ipAddress : Address
  arpTable : UInt32 → Option (EthernetAddress × Nat) := fun _ => none
  readyToSend : List EthernetFrame := []
  unknownEthAddr : List (UInt32 × EthernetFrame) := []

namespace NetworkInterface

def frame (n : NetworkInterface) (dst : EthernetAddress) (type : UInt16)
    (payload : List Bytes) : EthernetFrame :=
  { header := { dst, src := n.ethernetAddress, type }, payload }

/-- A request for the address is pending and less than five seconds old. -/
def requested (n : NetworkInterface) (ip : UInt32) : Bool :=
  match n.arpTable ip with
  | some (address, time) => address == ETHERNET_BROADCAST && decide (time < 5000)
  | none => false

/-- The known Ethernet address of an IP address. -/
def known (n : NetworkInterface) (ip : UInt32) : Option EthernetAddress :=
  match n.arpTable ip with
  | some (address, _) => if address ≠ ETHERNET_BROADCAST then some address else none
  | none => none

def arpRequest (n : NetworkInterface) (nextHop : Address) : ARPMessage :=
  { opcode := ARPMessage.OPCODE_REQUEST
    senderEthernetAddress := n.ethernetAddress
    senderIpAddress := n.ipAddress.ipv4Numeric
    targetIpAddress := nextHop.ipv4Numeric }

def sendDatagram (n : NetworkInterface) (dgram : InternetDatagram) (nextHop : Address) :
    Except String NetworkInterface :=
  if n.requested nextHop.ipv4Numeric then .ok n
  else
    match dgram.serialize with
    | .error e => .error e
    | .ok payload =>
        match n.known nextHop.ipv4Numeric with
        | some address =>
            .ok { n with readyToSend := n.readyToSend ++
                [n.frame address EthernetHeader.TYPE_IPv4 payload] }
        | none =>
            match (n.arpRequest nextHop).serialize with
            | .error e => .error e
            | .ok request =>
                .ok { n with
                  arpTable := Function.update n.arpTable nextHop.ipv4Numeric
                    (some (ETHERNET_BROADCAST, 0))
                  unknownEthAddr := n.unknownEthAddr ++ [(nextHop.ipv4Numeric,
                    n.frame ETHERNET_BROADCAST EthernetHeader.TYPE_IPv4 payload)]
                  readyToSend := n.readyToSend ++
                    [n.frame ETHERNET_BROADCAST EthernetHeader.TYPE_ARP request] }

/-- The datagram of a frame that `recv_frame` returns at once. -/
def datagramFor (n : NetworkInterface) (frame : EthernetFrame) :
    Except String (Option InternetDatagram) :=
  if frame.header.type = EthernetHeader.TYPE_IPv4 then
    match parse (IPv4Datagram.parse {}) frame.payload with
    | .error e => .error e
    | .ok ipmsg => .ok (if frame.header.dst = n.ethernetAddress then ipmsg else none)
  else .ok none

/-- The ARP message of a frame. -/
def arpOf (frame : EthernetFrame) : Except String (Option ARPMessage) :=
  if frame.header.type = EthernetHeader.TYPE_ARP then
    parse (ARPMessage.parse {}) frame.payload
  else .ok none

def arpReply (n : NetworkInterface) (arpmsg : ARPMessage) : ARPMessage :=
  { opcode := ARPMessage.OPCODE_REPLY
    senderEthernetAddress := n.ethernetAddress
    senderIpAddress := n.ipAddress.ipv4Numeric
    targetEthernetAddress := arpmsg.senderEthernetAddress
    targetIpAddress := arpmsg.senderIpAddress }

/-- Learn the mapping of an ARP message and answer it if it asks for us. -/
def learn (n : NetworkInterface) (arpmsg : ARPMessage) : Except String NetworkInterface :=
  let n := { n with
    arpTable := Function.update n.arpTable arpmsg.senderIpAddress
      (some (arpmsg.senderEthernetAddress, 0)) }
  if arpmsg.opcode = ARPMessage.OPCODE_REQUEST ∧
      arpmsg.targetIpAddress = n.ipAddress.ipv4Numeric then
    match (n.arpReply arpmsg).serialize with
    | .error e => .error e
    | .ok reply =>
        .ok { n with readyToSend := n.readyToSend ++
            [n.frame arpmsg.senderEthernetAddress EthernetHeader.TYPE_ARP reply] }
  else .ok n

/-- The loop over the waiting datagrams: those sent, with the IP address they waited
for, and those that stay. -/
def drainLoop (arpTable : UInt32 → Option (EthernetAddress × Nat)) :
    List (UInt32 × EthernetFrame) →
      List (UInt32 × EthernetFrame) × List (UInt32 × EthernetFrame)
  | [] => ([], [])
  | (ip, ef) :: rest =>
      let done := drainLoop arpTable rest
      match arpTable ip with
      | some (address, _) =>
          ((ip, { ef with header := { ef.header with dst := address } }) :: done.1, done.2)
      | none => (done.1, (ip, ef) :: done.2)

/-- Send every waiting datagram whose IP address has an entry. -/
def drain (n : NetworkInterface) : NetworkInterface :=
  let done := drainLoop n.arpTable n.unknownEthAddr
  { n with
    readyToSend := n.readyToSend ++ done.1.map Prod.snd
    unknownEthAddr := done.2 }

def recvFrame (n : NetworkInterface) (frame : EthernetFrame) :
    Except String (NetworkInterface × Option InternetDatagram) :=
  match n.datagramFor frame with
  | .error e => .error e
  | .ok (some ipmsg) => .ok (n, some ipmsg)
  | .ok none =>
      match arpOf frame with
      | .error e => .error e
      | .ok none => .ok (n.drain, none)
      | .ok (some arpmsg) =>
          match n.learn arpmsg with
          | .error e => .error e
          | .ok n => .ok (n.drain, none)

/-- The age of a mapping after the tick, unless it has expired. -/
def ageBy (msSinceLastTick : Nat) (mapping : EthernetAddress × Nat) :
    Option (EthernetAddress × Nat) :=
  let time := u64 (mapping.2 + msSinceLastTick)
  if 30000 < time then none else some (mapping.1, time)

def tick (n : NetworkInterface) (msSinceLastTick : Nat) : NetworkInterface :=
  { n with arpTable := fun ip => (n.arpTable ip).bind (ageBy msSinceLastTick) }

def maybeSend (n : NetworkInterface) : NetworkInterface × Option EthernetFrame :=
  match n.readyToSend with
  | [] => (n, none)
  | ef :: rest => ({ n with readyToSend := rest }, some ef)

end NetworkInterface
end Minnow
