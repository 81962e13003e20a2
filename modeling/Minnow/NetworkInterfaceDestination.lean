import Minnow.IPv4Wire
import Minnow.NetworkInterfaceQueue

/-!
Frames for somebody else. The interface compares the destination of a frame only before
it passes a datagram up, so a frame with another destination is still learned from,
answered, and followed by a look at the waiting datagrams.
-/

namespace Minnow

namespace ARPMessage

theorem runs_parse (m : ARPMessage) : Parser.Runs m.parse := by
  refine (Parser.runs_integer _).bind fun hardwareType =>
    (Parser.runs_integer _).bind fun protocolType =>
    (Parser.runs_integer _).bind fun hardwareAddressSize =>
    (Parser.runs_integer _).bind fun protocolAddressSize =>
    (Parser.runs_integer _).bind fun opcode => ?_
  dsimp only
  split
  · exact Parser.runs_setError.bind fun _ => Parser.runs_pure _
  · exact (Parser.runs_mapM_vector Parser.runs_integer _).bind fun _ =>
      (Parser.runs_integer _).bind fun _ =>
      (Parser.runs_mapM_vector Parser.runs_integer _).bind fun _ =>
      (Parser.runs_integer _).bind fun _ => Parser.runs_pure _

theorem parse_ok (m : ARPMessage) (input : List Bytes) :
    ∃ r, Minnow.parse m.parse input = .ok r := by
  obtain ⟨m', p, hrun, -⟩ := m.runs_parse _ (Parser.sound_ofBuffers input)
  exact ⟨_, by rw [Minnow.parse, hrun]⟩

end ARPMessage

namespace NetworkInterface
open Transition

theorem arpOf_ok (frame : EthernetFrame) : arpOf frame = .ok (acceptedArp frame) := by
  rw [acceptedArp]
  cases harp : arpOf frame with
  | ok arpmsg => rfl
  | error e =>
      rw [arpOf] at harp
      split at harp
      · obtain ⟨r, hr⟩ := ARPMessage.parse_ok {} frame.payload
        rw [hr] at harp
        cases harp
      · cases harp

theorem datagramFor_foreign {n : NetworkInterface} {frame : EthernetFrame}
    (hdst : frame.header.dst ≠ n.ethernetAddress) : n.datagramFor frame = .ok none := by
  obtain ⟨r, hr⟩ := IPv4Datagram.parse_ok {} frame.payload
  rw [datagramFor, hr]
  simp only [if_neg hdst, ite_self]

/-- The message asks for the address of this interface. -/
def asks (n : NetworkInterface) (arpmsg : ARPMessage) : Prop :=
  arpmsg.opcode = ARPMessage.OPCODE_REQUEST ∧
    arpmsg.targetIpAddress = n.ipAddress.ipv4Numeric

theorem recvFrame_foreign {n : NetworkInterface} {frame : EthernetFrame}
    (hdst : frame.header.dst ≠ n.ethernetAddress) :
    ∃ answers, n.recvFrame frame = .ok (drain { n with
        arpTable := n.tableAfter frame
        readyToSend := n.readyToSend ++ answers }, none) ∧
      (answers = [] ↔ ∀ arpmsg ∈ acceptedArp frame, ¬ n.asks arpmsg) := by
  obtain ⟨answers, -, hrecv, hasks⟩ :=
    recvFrame_learns (datagramFor_foreign hdst) (arpOf_ok frame)
  exact ⟨answers, hrecv, hasks⟩

/-- Nothing waits for an address that has an entry. -/
theorem drainLoop_eq_nil {table : UInt32 → Option (EthernetAddress × Nat)}
    {waiting : List (UInt32 × EthernetFrame)} :
    (drainLoop table waiting).1 = [] ↔ ∀ e ∈ waiting, table e.1 = none := by
  induction waiting with
  | nil => simp [drainLoop]
  | cons e rest ih =>
      obtain ⟨ip, ef⟩ := e
      cases htable : table ip <;> simp [drainLoop, htable, ih]

/-- The ARP table, the frames to send and the waiting datagrams are the same. -/
structure Unchanged (n n' : NetworkInterface) : Prop where
  arpTable : n'.arpTable = n.arpTable
  readyToSend : n'.readyToSend = n.readyToSend
  unknownEthAddr : n'.unknownEthAddr = n.unknownEthAddr

/-- A frame that has nothing to do here: what its ARP message says is known and just
learned, it does not ask for this interface, and no datagram waits for an address with an
entry. -/
structure Idle (n : NetworkInterface) (frame : EthernetFrame) : Prop where
  learned : ∀ arpmsg ∈ acceptedArp frame,
    n.arpTable arpmsg.senderIpAddress = some (arpmsg.senderEthernetAddress, 0)
  asks : ∀ arpmsg ∈ acceptedArp frame, ¬ n.asks arpmsg
  waiting : ∀ e ∈ n.unknownEthAddr, n.arpTable e.1 = none

theorem tableAfter_eq_iff {n : NetworkInterface} {frame : EthernetFrame} :
    n.tableAfter frame = n.arpTable ↔ ∀ arpmsg ∈ acceptedArp frame,
      n.arpTable arpmsg.senderIpAddress = some (arpmsg.senderEthernetAddress, 0) := by
  rw [tableAfter]
  cases acceptedArp frame with
  | none => simp
  | some arpmsg =>
      rw [Function.update_eq_self_iff]
      simp [eq_comm]

theorem unchanged_drain_iff {n : NetworkInterface} {frame : EthernetFrame}
    {answers : List EthernetFrame}
    (hanswers : answers = [] ↔ ∀ arpmsg ∈ acceptedArp frame, ¬ n.asks arpmsg) :
    Unchanged n (drain { n with
      arpTable := n.tableAfter frame
      readyToSend := n.readyToSend ++ answers }) ↔ Idle n frame := by
  constructor
  · rintro ⟨htable, hready, -⟩
    change n.tableAfter frame = n.arpTable at htable
    change n.readyToSend ++ answers ++
      (drainLoop (n.tableAfter frame) n.unknownEthAddr).1.map Prod.snd = n.readyToSend at hready
    rw [List.append_assoc, List.append_right_eq_self, List.append_eq_nil_iff, List.map_eq_nil_iff,
      htable, drainLoop_eq_nil] at hready
    exact ⟨tableAfter_eq_iff.mp htable, hanswers.mp hready.1, hready.2⟩
  · rintro ⟨hlearned, hasks, hwaiting⟩
    have htable := tableAfter_eq_iff.mpr hlearned
    rw [hanswers.mpr hasks, htable, List.append_nil]
    refine ⟨rfl, ?_, ?_⟩
    · change n.readyToSend ++ (drainLoop n.arpTable n.unknownEthAddr).1.map Prod.snd =
        n.readyToSend
      rw [drainLoop_eq_nil.mpr hwaiting, List.map_nil, List.append_nil]
    · change (drainLoop n.arpTable n.unknownEthAddr).2 = n.unknownEthAddr
      rw [drainLoop_rest, List.filter_eq_self]
      intro e he
      rw [hwaiting e he]
      rfl

/-- A reply to another host is learned from. -/
theorem overheard_reply_learned :
    let c := (runFrom #v[2, 0, 0, 0, 0, 1] ⟨1⟩ []).1
    let overheard : EthernetFrame :=
      { header := ⟨#v[2, 0, 0, 0, 0, 3], #v[2, 0, 0, 0, 0, 2], EthernetHeader.TYPE_ARP⟩
        payload := [[0, 1, 8, 0, 6, 4, 0, 2, 2, 0, 0, 0, 0, 2, 0, 0, 0, 7, 2, 0, 0, 0, 0, 3,
          0, 0, 0, 1]] }
    overheard.header.dst ≠ c.ethernetAddress ∧ overheard.header.dst ≠ ETHERNET_BROADCAST ∧
      ∃ n', c.recvFrame overheard = .ok (n', none) ∧ ¬ Unchanged c n' := by
  intro c overheard
  have hdst : overheard.header.dst ≠ c.ethernetAddress := by decide
  obtain ⟨answers, hok, hanswers⟩ := recvFrame_foreign hdst
  refine ⟨hdst, by decide, _, hok, fun hsame => ?_⟩
  rw [unchanged_drain_iff hanswers] at hsame
  have haccepted : (acceptedArp overheard).isSome = true := by decide +kernel
  obtain ⟨arpmsg, harp⟩ := Option.isSome_iff_exists.mp haccepted
  exact absurd (hsame.learned arpmsg harp) (by simp [c, runFrom, start, Transition.run])

theorem step_ethernetAddress (n : NetworkInterface) (input : Input) :
    (n.step input).ethernetAddress = n.ethernetAddress := by
  cases input with
  | sendDatagram dgram nextHop =>
      rw [step]
      rcases n.sendDatagram_cases dgram nextHop with ⟨-, hok⟩ | ⟨-, e, hbad⟩ |
        ⟨-, payload, -, address, -, hok⟩ | ⟨-, payload, -, -, request, -, hok⟩
      · rw [hok]
      · rw [hbad]
      · rw [hok]
      · rw [hok]
  | recvFrame frame =>
      cases n.recvFrame_cases frame with
      | inl hplain =>
          obtain ⟨-, hsame, -⟩ := hplain
          rw [hsame]
      | inr hdrains =>
          obtain ⟨-, -, answers, -, hstep, -⟩ := hdrains
          rw [hstep]
          rfl
  | tick ms => rfl
  | maybeSend =>
      rw [step, maybeSend]
      split <;> rfl

/-- A frame for another Ethernet address is taken in without error and without a datagram.
It is ignored exactly when it finds nothing to do. -/
theorem foreign_frame_ignored_iff (ethernetAddress : EthernetAddress) (ipAddress : Address)
    (inputs : List Input) {frame : EthernetFrame}
    (hforeign : frame.header.dst ≠ ethernetAddress ∧ frame.header.dst ≠ ETHERNET_BROADCAST) :
    let n := (runFrom ethernetAddress ipAddress inputs).1
    ∃ n', n.recvFrame frame = .ok (n', none) ∧ (Unchanged n n' ↔ Idle n frame) := by
  intro n
  have haddress : n.ethernetAddress = ethernetAddress := by
    refine run_invariant_always (observe step note) (s := (start ethernetAddress ipAddress, {}))
      (P := fun c => c.1.ethernetAddress = ethernetAddress) rfl ?_ inputs
    intro c input hc
    rw [observe_fst, step_ethernetAddress, hc]
  obtain ⟨answers, hok, hanswers⟩ := recvFrame_foreign (haddress.symm ▸ hforeign.1)
  exact ⟨_, hok, unchanged_drain_iff hanswers⟩

/-- The same reply again, while a datagram waits whose request has expired, is ignored. -/
theorem stray_frame_ignored :
    let dgram : InternetDatagram := { header := { len := 20, dst := 8 } }
    let overheard : EthernetFrame :=
      { header := ⟨#v[2, 0, 0, 0, 0, 3], #v[2, 0, 0, 0, 0, 2], EthernetHeader.TYPE_ARP⟩
        payload := [[0, 1, 8, 0, 6, 4, 0, 2, 2, 0, 0, 0, 0, 2, 0, 0, 0, 7, 2, 0, 0, 0, 0, 3,
          0, 0, 0, 1]] }
    let n := (runFrom #v[2, 0, 0, 0, 0, 1] ⟨1⟩
      [.sendDatagram dgram ⟨9⟩, .tick 30001, .recvFrame overheard]).1
    n.arpTable 7 = some (#v[2, 0, 0, 0, 0, 2], 0) ∧ n.unknownEthAddr.map Prod.fst = [9] ∧
      n.readyToSend.length = 1 ∧
      ∃ n', n.recvFrame overheard = .ok (n', none) ∧ Unchanged n n' := by
  intro dgram overheard n
  have htable : n.arpTable 7 = some (#v[2, 0, 0, 0, 0, 2], 0) := by decide +kernel
  have hwaits : n.unknownEthAddr.map Prod.fst = [9] := by decide +kernel
  have hready : n.readyToSend.length = 1 := by decide +kernel
  have hexpired : n.arpTable 9 = none := by decide +kernel
  have hforeign : overheard.header.dst ≠ #v[2, 0, 0, 0, 0, 1] ∧
      overheard.header.dst ≠ ETHERNET_BROADCAST := by decide
  obtain ⟨n', hok, hiff⟩ : ∃ n', n.recvFrame overheard = .ok (n', none) ∧
      (Unchanged n n' ↔ Idle n overheard) :=
    foreign_frame_ignored_iff #v[2, 0, 0, 0, 0, 1] ⟨1⟩ _ hforeign
  clear_value n
  obtain ⟨arpmsg, harp, hip, haddress, hreply⟩ : ∃ arpmsg, acceptedArp overheard = some arpmsg ∧
      arpmsg.senderIpAddress = 7 ∧ arpmsg.senderEthernetAddress = #v[2, 0, 0, 0, 0, 2] ∧
      arpmsg.opcode = ARPMessage.OPCODE_REPLY :=
    ⟨(acceptedArp overheard).get (by decide +kernel), (Option.some_get _).symm,
      by decide +kernel, by decide +kernel, by decide +kernel⟩
  refine ⟨htable, hwaits, hready, n', hok, hiff.mpr ⟨?_, ?_, ?_⟩⟩
  · rintro _ hm
    obtain rfl := Option.some.inj (harp.symm.trans hm)
    rw [hip, haddress]
    exact htable
  · rintro _ hm ⟨hop, -⟩
    obtain rfl := Option.some.inj (harp.symm.trans hm)
    exact absurd (hreply.symm.trans hop) (by decide)
  · intro e he
    have hnine : e.1 = 9 := by
      have hmem := List.mem_map_of_mem (f := Prod.fst) he
      rwa [hwaits, List.mem_singleton] at hmem
    rw [hnine]
    exact hexpired

end NetworkInterface
end Minnow
