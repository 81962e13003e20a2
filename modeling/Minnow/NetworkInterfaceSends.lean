import Minnow.NetworkInterfaceLearned

/-!
What a NetworkInterface sends, in terms of what it is given. What holds of the datagrams handed
over, and of the addresses told by ARP messages, holds of its frames and of its ARP table.
-/

namespace Minnow
namespace NetworkInterface

/-- The table maps addresses as `Maps` allows, and the frames ready, and those waiting once they
go to such an address, are in `P`. -/
structure Sends (Maps : UInt32 → EthernetAddress → Prop) (P : EthernetFrame → Prop)
    (n : NetworkInterface) : Prop where
  table : ∀ ip, ∀ mapping ∈ n.arpTable ip, Maps ip mapping.1
  ready : ∀ frame ∈ n.readyToSend, P frame
  waiting : ∀ entry ∈ n.unknownEthAddr, ∀ dst, Maps entry.1 dst →
    P { entry.2 with header := { entry.2.header with dst } }

/-- The ARP messages of the interface may be sent. -/
def Announces (P : EthernetFrame → Prop) (n : NetworkInterface) : Prop :=
  ∀ dst (arpmsg : ARPMessage) payload, arpmsg.senderEthernetAddress = n.ethernetAddress →
    arpmsg.senderIpAddress = n.ipAddress.ipv4Numeric → arpmsg.serialize = .ok payload →
    P (n.frame dst EthernetHeader.TYPE_ARP payload)

/-- The addresses of an interface stay what they are. -/
def SameAddresses (n n' : NetworkInterface) : Prop :=
  n'.ethernetAddress = n.ethernetAddress ∧ n'.ipAddress = n.ipAddress

variable {Maps : UInt32 → EthernetAddress → Prop} {P Q : EthernetFrame → Prop}
  {n n' : NetworkInterface}

theorem SameAddresses.announces (h : SameAddresses n n') (hannounces : Announces P n) :
    Announces P n' := by
  intro dst arpmsg payload heth hip hpayload
  rw [h.1] at heth
  rw [h.2] at hip
  rw [frame, h.1]
  exact hannounces dst arpmsg payload heth hip hpayload

theorem sends_start (ethernetAddress : EthernetAddress) (ipAddress : Address) :
    Sends Maps P { ethernetAddress, ipAddress } where
  table := fun _ _ h => by cases h
  ready := fun _ h => absurd h List.not_mem_nil
  waiting := fun _ h => absurd h List.not_mem_nil

theorem Sends.mono (h : Sends Maps P n) (hmono : ∀ frame, P frame → Q frame) : Sends Maps Q n where
  table := h.table
  ready := fun frame hframe => hmono _ (h.ready frame hframe)
  waiting := fun entry hentry dst hdst => hmono _ (h.waiting entry hentry dst hdst)

theorem Sends.tick (h : Sends Maps P n) (ms : Nat) : Sends Maps P (n.tick ms) where
  table := by
    intro ip mapping hmapping
    obtain ⟨old, hold, haged⟩ := Option.bind_eq_some_iff.mp hmapping
    simp only [ageBy] at haged
    split at haged
    · cases haged
    · cases haged
      exact h.table ip old hold
  ready := h.ready
  waiting := h.waiting

theorem Sends.maybeSend (h : Sends Maps P n) :
    Sends Maps P n.maybeSend.1 ∧ SameAddresses n n.maybeSend.1 ∧
      ∀ frame ∈ n.maybeSend.2, P frame := by
  rw [NetworkInterface.maybeSend]
  split
  · exact ⟨h, ⟨rfl, rfl⟩, fun frame hframe => by cases hframe⟩
  · next ef rest hready =>
      have hall := h.ready
      rw [hready] at hall
      refine ⟨⟨h.table, fun frame hframe => hall frame (List.mem_cons_of_mem _ hframe), h.waiting⟩,
        ⟨rfl, rfl⟩, fun frame hframe => ?_⟩
      cases hframe
      exact hall _ List.mem_cons_self

/-- A frame joins those that are ready. -/
theorem Sends.add (h : Sends Maps P n) {frame : EthernetFrame} (hframe : P frame) :
    Sends Maps P { n with readyToSend := n.readyToSend ++ [frame] } :=
  ⟨h.table, List.forall_mem_append.mpr ⟨h.ready, List.forall_mem_singleton.mpr hframe⟩, h.waiting⟩

/-- A mapping joins the table. -/
theorem Sends.map (h : Sends Maps P n) {ip : UInt32} {address : EthernetAddress}
    (hmaps : Maps ip address) :
    Sends Maps P { n with arpTable := Function.update n.arpTable ip (some (address, 0)) } where
  table := by
    intro other mapping hmapping
    dsimp only at hmapping
    by_cases hip : other = ip
    · subst hip
      rw [Function.update_self, Option.mem_some_iff] at hmapping
      rw [← hmapping]
      exact hmaps
    · rw [Function.update_of_ne hip] at hmapping
      exact h.table other mapping hmapping
  ready := h.ready
  waiting := h.waiting

theorem Sends.drain (h : Sends Maps P n) : Sends Maps P n.drain := by
  refine ⟨h.table, fun frame hframe => ?_, fun entry hentry => ?_⟩
  · cases List.mem_append.mp hframe with
    | inl hready => exact h.ready frame hready
    | inr hdrained =>
        obtain ⟨⟨ip, sent⟩, hmem, rfl⟩ := List.mem_map.mp hdrained
        obtain ⟨waiting, address, time, hwaiting, hmapping, rfl⟩ := mem_drainLoop.mp hmem
        exact h.waiting _ hwaiting address (h.table ip _ hmapping)
  · simp only [NetworkInterface.drain, drainLoop_rest] at hentry
    exact h.waiting entry (List.mem_filter.mp hentry).1

theorem Sends.learn (h : Sends Maps P n) (hannounces : Announces P n) {arpmsg : ARPMessage}
    (hmaps : Maps arpmsg.senderIpAddress arpmsg.senderEthernetAddress)
    (hlearn : n.learn arpmsg = .ok n') : Sends Maps P n' ∧ SameAddresses n n' := by
  rw [NetworkInterface.learn] at hlearn
  dsimp only at hlearn
  split at hlearn
  · split at hlearn
    · cases hlearn
    · next hreply =>
        cases hlearn
        exact ⟨(h.map hmaps).add (hannounces _ _ _ rfl rfl hreply), ⟨rfl, rfl⟩⟩
  · cases hlearn
    exact ⟨h.map hmaps, ⟨rfl, rfl⟩⟩

/-- A frame whose ARP message is true is received. -/
theorem Sends.recvFrame (h : Sends Maps P n) (hannounces : Announces P n) {frame : EthernetFrame}
    (htrue : ∀ arpmsg, arpOf frame = .ok (some arpmsg) →
      Maps arpmsg.senderIpAddress arpmsg.senderEthernetAddress)
    {ipDgram : Option InternetDatagram} (hrecv : n.recvFrame frame = .ok (n', ipDgram)) :
    Sends Maps P n' ∧ SameAddresses n n' ∧ ∀ d ∈ ipDgram,
      frame.header.type = EthernetHeader.TYPE_IPv4 ∧ frame.header.dst = n.ethernetAddress ∧
        parse (IPv4Datagram.parse {}) frame.payload = .ok (some d) := by
  rw [NetworkInterface.recvFrame] at hrecv
  split at hrecv
  · cases hrecv
  · next ipmsg hdatagram =>
      cases hrecv
      refine ⟨h, ⟨rfl, rfl⟩, fun d hd => ?_⟩
      cases hd
      rw [datagramFor] at hdatagram
      split at hdatagram
      · next htype =>
          split at hdatagram
          · cases hdatagram
          · next hparse =>
              rw [Except.ok.injEq, Option.ite_none_right_eq_some] at hdatagram
              exact ⟨htype, hdatagram.1, by rw [hparse, hdatagram.2]⟩
      · cases hdatagram
  · split at hrecv
    · cases hrecv
    · cases hrecv
      exact ⟨h.drain, ⟨rfl, rfl⟩, fun d hd => by cases hd⟩
    · next arpmsg harp =>
        split at hrecv
        · cases hrecv
        · next hlearn =>
            cases hrecv
            obtain ⟨hlearned, hsame⟩ := h.learn hannounces (htrue arpmsg harp) hlearn
            exact ⟨hlearned.drain, hsame, fun d hd => by cases hd⟩

/-- A datagram is handed over whose frames may be sent where the table says. -/
theorem Sends.sendDatagram (h : Sends Maps P n) (hannounces : Announces P n)
    (hbroadcast : ∀ ip, Maps ip ETHERNET_BROADCAST) {dgram : InternetDatagram} {nextHop : Address}
    (hframes : ∀ payload dst, dgram.serialize = .ok payload → Maps nextHop.ipv4Numeric dst →
      P (n.frame dst EthernetHeader.TYPE_IPv4 payload))
    (hsend : n.sendDatagram dgram nextHop = .ok n') :
    Sends Maps P n' ∧ SameAddresses n n' := by
  rcases n.sendDatagram_cases dgram nextHop with ⟨-, hok⟩ | ⟨-, e, hbad⟩ |
    ⟨-, payload, hpayload, address, hknown, hok⟩ |
    ⟨-, payload, hpayload, -, request, hrequest, hok⟩
  · rw [hsend, Except.ok.injEq] at hok
    subst hok
    exact ⟨h, ⟨rfl, rfl⟩⟩
  · rw [hbad] at hsend
    cases hsend
  · rw [hsend, Except.ok.injEq] at hok
    subst hok
    obtain ⟨time, hmapping, -⟩ := known_eq_some hknown
    exact ⟨h.add (hframes payload address hpayload (h.table _ _ hmapping)), ⟨rfl, rfl⟩⟩
  · rw [hsend, Except.ok.injEq] at hok
    subst hok
    have hadded := (h.map (hbroadcast nextHop.ipv4Numeric)).add
      (hannounces ETHERNET_BROADCAST _ _ rfl rfl hrequest)
    refine ⟨⟨hadded.table, hadded.ready, ?_⟩, ⟨rfl, rfl⟩⟩
    refine List.forall_mem_append.mpr ⟨h.waiting, List.forall_mem_singleton.mpr ?_⟩
    exact fun dst hdst => hframes payload dst hpayload hdst

end NetworkInterface
end Minnow
