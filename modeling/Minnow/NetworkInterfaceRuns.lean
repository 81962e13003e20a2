import Minnow.NetworkInterface
import Minnow.Transition

/-!
Runs of a NetworkInterface. The history keeps the datagrams handed over and the IPv4
frames sent, each with its next hop, and what the ARP messages have taught. Two lemmas
say what a send and a receive change; everything about runs is derived from them.
-/

namespace Minnow
open Transition
namespace NetworkInterface

inductive Input where
  | sendDatagram (dgram : InternetDatagram) (nextHop : Address)
  | recvFrame (frame : EthernetFrame)
  | tick (ms : Nat)
  | maybeSend

/-- A call that throws leaves the interface as it was. -/
def step (n : NetworkInterface) : Input → NetworkInterface
  | .sendDatagram dgram nextHop =>
      match n.sendDatagram dgram nextHop with
      | .ok n => n
      | .error _ => n
  | .recvFrame frame =>
      match n.recvFrame frame with
      | .ok (n, _) => n
      | .error _ => n
  | .tick ms => n.tick ms
  | .maybeSend => n.maybeSend.1

/-- The frames a step puts into `ready_to_send_`. -/
def queued (n : NetworkInterface) (input : Input) : List EthernetFrame :=
  (n.step input).readyToSend.drop n.readyToSend.length

def isIPv4 (ef : EthernetFrame) : Bool := ef.header.type == EthernetHeader.TYPE_IPv4

/-- The IPv4 frames among them with the next hops of their datagrams. -/
def emitted (n : NetworkInterface) : Input → List (UInt32 × EthernetFrame)
  | .sendDatagram dgram nextHop =>
      ((n.queued (.sendDatagram dgram nextHop)).filter isIPv4).map
        fun ef => (nextHop.ipv4Numeric, ef)
  | .recvFrame frame =>
      match n.recvFrame frame with
      | .ok (n', none) => (drainLoop n'.arpTable n.unknownEthAddr).1
      | _ => []
  | _ => []

def acceptedArp (frame : EthernetFrame) : Option ARPMessage :=
  match arpOf frame with
  | .ok arpmsg => arpmsg
  | .error _ => none

/-- `resolved` tells whether an ARP message has written the entry of an address last;
`learned` is the last address an ARP message gave and the time since. -/
structure History where
  handed : List (UInt32 × InternetDatagram) := []
  queued : List EthernetFrame := []
  sent : List (UInt32 × EthernetFrame) := []
  resolved : UInt32 → Bool := fun _ => false
  learned : UInt32 → Option (EthernetAddress × Nat) := fun _ => none

def note (n : NetworkInterface) (input : Input) (h : History) : History :=
  let h := { h with
    queued := h.queued ++ n.queued input
    sent := h.sent ++ n.emitted input }
  match input with
  | .sendDatagram dgram nextHop =>
      match n.sendDatagram dgram nextHop with
      | .error _ => h
      | .ok _ =>
          { h with
            handed := h.handed ++ [(nextHop.ipv4Numeric, dgram)]
            resolved :=
              if n.requested nextHop.ipv4Numeric || (n.known nextHop.ipv4Numeric).isSome
              then h.resolved
              else Function.update h.resolved nextHop.ipv4Numeric false }
  | .recvFrame frame =>
      match acceptedArp frame with
      | none => h
      | some arpmsg =>
          { h with
            resolved := Function.update h.resolved arpmsg.senderIpAddress true
            learned := Function.update h.learned arpmsg.senderIpAddress
              (some (arpmsg.senderEthernetAddress, 0)) }
  | .tick ms =>
      { h with learned := fun ip => (h.learned ip).map fun m => (m.1, m.2 + ms) }
  | .maybeSend => h

def start (ethernetAddress : EthernetAddress) (ipAddress : Address) : NetworkInterface :=
  { ethernetAddress, ipAddress }

def runFrom (ethernetAddress : EthernetAddress) (ipAddress : Address)
    (inputs : List Input) : NetworkInterface × History :=
  run (observe step note) (start ethernetAddress ipAddress, {}) inputs

@[simp] theorem note_queued (n : NetworkInterface) (input : Input) (h : History) :
    (note n input h).queued = h.queued ++ n.queued input := by
  cases input <;> simp only [note] <;> split <;> rfl

@[simp] theorem note_sent (n : NetworkInterface) (input : Input) (h : History) :
    (note n input h).sent = h.sent ++ n.emitted input := by
  cases input <;> simp only [note] <;> split <;> rfl

theorem arpRequest_ok (n : NetworkInterface) (nextHop : Address) :
    ∃ request, (n.arpRequest nextHop).serialize = .ok request := ⟨_, rfl⟩

theorem arpReply_ok (n : NetworkInterface) (arpmsg : ARPMessage) :
    ∃ reply, (n.arpReply arpmsg).serialize = .ok reply := ⟨_, rfl⟩

/-- The four ways a send ends. -/
theorem sendDatagram_cases (n : NetworkInterface) (dgram : InternetDatagram)
    (nextHop : Address) :
    (n.requested nextHop.ipv4Numeric = true ∧ n.sendDatagram dgram nextHop = .ok n) ∨
    (n.requested nextHop.ipv4Numeric = false ∧ ∃ e, n.sendDatagram dgram nextHop = .error e) ∨
    (n.requested nextHop.ipv4Numeric = false ∧ ∃ payload, dgram.serialize = .ok payload ∧
      ∃ address, n.known nextHop.ipv4Numeric = some address ∧
        n.sendDatagram dgram nextHop = .ok { n with readyToSend := n.readyToSend ++
          [n.frame address EthernetHeader.TYPE_IPv4 payload] }) ∨
    (n.requested nextHop.ipv4Numeric = false ∧ ∃ payload, dgram.serialize = .ok payload ∧
      n.known nextHop.ipv4Numeric = none ∧ ∃ request,
        (n.arpRequest nextHop).serialize = .ok request ∧
        n.sendDatagram dgram nextHop = .ok { n with
          arpTable := Function.update n.arpTable nextHop.ipv4Numeric
            (some (ETHERNET_BROADCAST, 0))
          unknownEthAddr := n.unknownEthAddr ++ [(nextHop.ipv4Numeric,
            n.frame ETHERNET_BROADCAST EthernetHeader.TYPE_IPv4 payload)]
          readyToSend := n.readyToSend ++
            [n.frame ETHERNET_BROADCAST EthernetHeader.TYPE_ARP request] }) := by
  cases hreq : n.requested nextHop.ipv4Numeric with
  | true => exact Or.inl ⟨rfl, by simp only [sendDatagram, hreq, if_true]⟩
  | false =>
      right
      cases hser : dgram.serialize with
      | error e =>
          exact Or.inl ⟨rfl, e, by
            simp only [sendDatagram, hreq, Bool.false_eq_true, if_false, hser]⟩
      | ok payload =>
          right
          cases hknown : n.known nextHop.ipv4Numeric with
          | some address =>
              exact Or.inl ⟨rfl, payload, rfl, address, rfl, by
                simp only [sendDatagram, hreq, Bool.false_eq_true, if_false, hser, hknown]⟩
          | none =>
              obtain ⟨request, hrequest⟩ := arpRequest_ok n nextHop
              exact Or.inr ⟨rfl, payload, rfl, rfl, request, hrequest, by
                simp only [sendDatagram, hreq, Bool.false_eq_true, if_false, hser, hknown,
                  hrequest]⟩

/-- The table after the ARP message of a frame, if it has one. -/
def tableAfter (n : NetworkInterface) (frame : EthernetFrame) :
    UInt32 → Option (EthernetAddress × Nat) :=
  match acceptedArp frame with
  | none => n.arpTable
  | some arpmsg => Function.update n.arpTable arpmsg.senderIpAddress
      (some (arpmsg.senderEthernetAddress, 0))

/-- The frame carries an ARP reply of this interface. -/
def IsReply (n : NetworkInterface) (ef : EthernetFrame) : Prop :=
  ∃ arpmsg dst reply, (n.arpReply arpmsg).serialize = .ok reply ∧
    ef = n.frame dst EthernetHeader.TYPE_ARP reply

theorem IsReply.not_ipv4 {n : NetworkInterface} {ef : EthernetFrame} (h : n.IsReply ef) :
    isIPv4 ef = false := by
  obtain ⟨arpmsg, dst, reply, -, rfl⟩ := h
  rfl

/-- A frame that carries no datagram for this interface is learned from, answered if it
asks for its address, and releases what waits for an address with an entry. -/
theorem recvFrame_learns {n : NetworkInterface} {frame : EthernetFrame}
    (hdgram : n.datagramFor frame = .ok none) (harp : arpOf frame = .ok (acceptedArp frame)) :
    ∃ answers, (∀ ef ∈ answers, n.IsReply ef) ∧
      n.recvFrame frame = .ok (drain { n with
        arpTable := n.tableAfter frame
        readyToSend := n.readyToSend ++ answers }, none) ∧
      (answers = [] ↔ ∀ arpmsg ∈ acceptedArp frame,
        ¬ (arpmsg.opcode = ARPMessage.OPCODE_REQUEST ∧
          arpmsg.targetIpAddress = n.ipAddress.ipv4Numeric)) := by
  cases hmsg : acceptedArp frame with
  | none =>
      rw [hmsg] at harp
      refine ⟨[], by simp, ?_, by simp⟩
      simp only [recvFrame, hdgram, harp, tableAfter, hmsg, List.append_nil]
  | some arpmsg =>
      rw [hmsg] at harp
      obtain ⟨reply, hreply⟩ := arpReply_ok { n with arpTable := n.tableAfter frame } arpmsg
      simp only [tableAfter, hmsg] at hreply
      by_cases hasks : arpmsg.opcode = ARPMessage.OPCODE_REQUEST ∧
          arpmsg.targetIpAddress = n.ipAddress.ipv4Numeric
      · refine ⟨[n.frame arpmsg.senderEthernetAddress EthernetHeader.TYPE_ARP reply],
          ?_, ?_, ?_⟩
        · intro ef hef
          exact ⟨arpmsg, _, reply, hreply, List.mem_singleton.mp hef⟩
        · simp only [recvFrame, hdgram, harp, learn, hasks, and_self, if_true, hreply,
            tableAfter, hmsg]
          rfl
        · exact ⟨fun h => absurd h (List.cons_ne_nil _ _), fun h => absurd hasks (h arpmsg rfl)⟩
      · refine ⟨[], by simp, ?_, fun _ m hm => Option.some.inj hm ▸ hasks, fun _ => rfl⟩
        simp only [recvFrame, hdgram, harp, learn, hasks, if_false, tableAfter, hmsg,
          List.append_nil]

/-- What a receive changes: nothing, or it learns, answers and drains. -/
theorem recvFrame_cases (n : NetworkInterface) (frame : EthernetFrame) :
    (¬ (n.datagramFor frame = .ok none ∧ (arpOf frame).isOk = true) ∧
      n.step (.recvFrame frame) = n ∧ n.emitted (.recvFrame frame) = [] ∧
      acceptedArp frame = none) ∨
    (n.datagramFor frame = .ok none ∧ (arpOf frame).isOk = true ∧ ∃ answers,
      (∀ ef ∈ answers, n.IsReply ef) ∧
      n.step (.recvFrame frame) = drain { n with
        arpTable := n.tableAfter frame
        readyToSend := n.readyToSend ++ answers } ∧
      n.emitted (.recvFrame frame) =
        (drainLoop (n.tableAfter frame) n.unknownEthAddr).1) := by
  have hnoArp : ∀ r, n.datagramFor frame = r → r ≠ .ok none → acceptedArp frame = none := by
    intro r hr hne
    rw [acceptedArp, arpOf, if_neg]
    intro htype
    apply hne
    rw [← hr, datagramFor, if_neg]
    rw [htype]
    decide
  cases hdgram : n.datagramFor frame with
  | error e =>
      left
      refine ⟨by simp, ?_, ?_, hnoArp _ hdgram (by simp)⟩ <;>
        simp only [step, emitted, recvFrame, hdgram]
  | ok ipmsg =>
      cases ipmsg with
      | some ipmsg =>
          left
          refine ⟨by simp, ?_, ?_, hnoArp _ hdgram (by simp)⟩ <;>
            simp only [step, emitted, recvFrame, hdgram]
      | none =>
          cases harp : arpOf frame with
          | error e =>
              left
              refine ⟨by simp [Except.isOk, Except.toBool], ?_, ?_, ?_⟩ <;>
                simp only [step, emitted, recvFrame, hdgram, harp, acceptedArp]
          | ok arpmsg =>
              right
              have haccepted : arpOf frame = .ok (acceptedArp frame) := by
                rw [acceptedArp, harp]
              obtain ⟨answers, hreplies, hrecv, -⟩ := recvFrame_learns hdgram haccepted
              refine ⟨rfl, rfl, answers, hreplies, ?_, ?_⟩
              · simp only [step, hrecv]
              · simp only [emitted, hrecv]
                rfl

end NetworkInterface
end Minnow
