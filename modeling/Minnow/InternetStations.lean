import Minnow.EthernetWire
import Minnow.NetworkInterfaceSends
import Minnow.RouterForwarding
import Minnow.Throwing

/-!
Interfaces and routers among others. An interface sends truthful frames as long as the frames it
receives are truthful: ARP messages tell who owns an address, and datagrams go to the owner of
their next hop. A datagram stays what it was, but for its TTL and checksum.
-/

namespace Minnow
open Throwing NetworkInterface Router

/-- A datagram that a host may send: one without options, with its checksum. -/
structure Sendable (dgram : InternetDatagram) : Prop where
  fits : dgram.header.Fits
  plain : dgram.header.hlen = 5
  checksum : dgram.header.computeChecksum = .ok dgram.header

/-- The same header and the same bytes, however they are split. -/
structure Same (d d' : InternetDatagram) : Prop where
  header : d'.header = d.header
  payload : d'.payload.flatten = d.payload.flatten

/-- The datagram `o` after `hops` routers have forwarded it. -/
structure Came (hops : Nat) (o d : InternetDatagram) : Prop where
  ttl : d.header.ttl.toNat + hops = o.header.ttl.toNat
  alive : hops = 0 ∨ 0 < d.header.ttl.toNat
  header : ∃ ttl cksum, d.header = { o.header with ttl, cksum }
  payload : d.payload.flatten = o.payload.flatten

variable {d d' o : InternetDatagram} {hops : Nat}

theorem came_refl (d : InternetDatagram) : Came 0 d d :=
  ⟨rfl, Or.inl rfl, ⟨_, _, rfl⟩, rfl⟩

theorem Came.same (h : Came hops o d) (hsame : Same d d') : Came hops o d' := by
  obtain ⟨httl, halive, hheader, hpayload⟩ := h
  rw [← hsame.header] at httl halive hheader
  exact ⟨httl, halive, hheader, hsame.payload.trans hpayload⟩

theorem Sendable.same (h : Sendable d) (hsame : Same d d') : Sendable d' := by
  obtain ⟨hfits, hplain, hchecksum⟩ := h
  rw [← hsame.header] at hfits hplain hchecksum
  exact ⟨hfits, hplain, hchecksum⟩

/-- A datagram without options is read back. -/
theorem Sendable.parse_eq (h : Sendable d) {payload : List Bytes}
    (hserialize : d.serialize = .ok payload) :
    ∃ d', parse (IPv4Datagram.parse {}) payload = .ok (some d') ∧ Same d d' := by
  obtain ⟨more, hbytes, hmore⟩ := IPv4Datagram.serialize_eq h.fits.ver
  rw [hserialize, Except.ok.injEq] at hbytes
  subst hbytes
  have hinput : (d.header.bytes :: more).flatten = d.header.bytes ++ d.payload.flatten := by
    rw [List.flatten_cons, hmore]
  obtain ⟨rest, hparse, hrest, -⟩ := IPv4Datagram.parse_wire h.fits h.checksum (n := 0) hinput
    (Views.filled_of_le_head more (by simp)) {}
  refine ⟨_, hparse, rfl, ?_⟩
  rw [hrest, h.plain]
  rfl

/-- What a router makes of a datagram that has come through routers. -/
theorem forward_came {table : List Entry} {call : SendCall} (hd : Sendable d)
    (hcame : Came hops o d) (hforward : forward table d = .ok (some call)) :
    Sendable call.dgram ∧ Came (hops + 1) o call.dgram := by
  obtain ⟨hpayload, hfits, hchecksum, cksum, hheader⟩ := forward_fits hd.fits hforward
  have hlive : d.header.ttl ≠ 0 ∧ d.header.ttl - 1 ≠ 0 := by
    rw [forward] at hforward
    split at hforward
    · cases hforward
    · next hlive => exact not_or.mp hlive
  have hpos : 1 ≤ d.header.ttl := by
    rw [UInt8.le_iff_toNat_le]
    exact Nat.one_le_iff_ne_zero.mpr fun hzero => hlive.1 (UInt8.toNat_inj.mp hzero)
  have hleft : (d.header.ttl - 1).toNat = d.header.ttl.toNat - 1 := UInt8.toNat_sub_of_le _ _ hpos
  have hnext : (d.header.ttl - 1).toNat ≠ 0 := fun hzero => hlive.2 (UInt8.toNat_inj.mp hzero)
  have hbefore := hcame.ttl
  obtain ⟨ttl, cksum', horigin⟩ := hcame.header
  refine ⟨⟨hfits, ?_, hchecksum⟩, ⟨?_, ?_, ?_, ?_⟩⟩
  · rw [hheader]
    exact hd.plain
  · rw [hheader]
    dsimp only
    omega
  · right
    rw [hheader]
    exact Nat.pos_of_ne_zero hnext
  · refine ⟨d.header.ttl - 1, cksum, ?_⟩
    rw [hheader, horigin]
  · rw [hpayload]
    exact hcame.payload

namespace Internet

/-- Who may have an address: whoever owns it, or all when it is the broadcast address. -/
def Maps (Owns : UInt32 → EthernetAddress → Prop) (ip : UInt32) (address : EthernetAddress) :
    Prop := address = ETHERNET_BROADCAST ∨ Owns ip address

/-- An IPv4 frame has a datagram that has been handed over, for the owner of its destination; an
ARP frame tells the truth. -/
structure Truthful (Owns : UInt32 → EthernetAddress → Prop)
    (Handed : InternetDatagram → Address → Prop) (frame : EthernetFrame) : Prop where
  datagram : frame.header.type = EthernetHeader.TYPE_IPv4 → ∀ d,
    parse (IPv4Datagram.parse {}) frame.payload = .ok (some d) → ∃ d' nextHop,
      Handed d' nextHop ∧ Same d' d ∧ Maps Owns nextHop.ipv4Numeric frame.header.dst
  arp : ∀ arpmsg, arpOf frame = .ok (some arpmsg) →
    Owns arpmsg.senderIpAddress arpmsg.senderEthernetAddress

/-- An interface that sends truthful frames. -/
structure Station (Owns : UInt32 → EthernetAddress → Prop)
    (Handed : InternetDatagram → Address → Prop) (n : NetworkInterface) : Prop where
  sends : Sends (Maps Owns) (Truthful Owns Handed) n
  own : Owns n.ipAddress.ipv4Numeric n.ethernetAddress

variable {Owns : UInt32 → EthernetAddress → Prop}
  {Handed More : InternetDatagram → Address → Prop} {n n' : NetworkInterface}

theorem Truthful.mono {frame : EthernetFrame} (h : Truthful Owns Handed frame)
    (hmono : ∀ d nextHop, Handed d nextHop → More d nextHop) : Truthful Owns More frame := by
  refine ⟨fun htype d hd => ?_, h.arp⟩
  obtain ⟨d', nextHop, hhanded, hsame⟩ := h.datagram htype d hd
  exact ⟨d', nextHop, hmono _ _ hhanded, hsame⟩

theorem Station.mono (h : Station Owns Handed n)
    (hmono : ∀ d nextHop, Handed d nextHop → More d nextHop) : Station Owns More n :=
  ⟨h.sends.mono fun _ hframe => hframe.mono hmono, h.own⟩

theorem Station.same (h : Station Owns Handed n)
    (hsends : Sends (Maps Owns) (Truthful Owns Handed) n' ∧ SameAddresses n n') :
    Station Owns Handed n' := by
  refine ⟨hsends.1, ?_⟩
  rw [hsends.2.1, hsends.2.2]
  exact h.own

theorem arpOf_arp (n : NetworkInterface) (dst : EthernetAddress) (payload : List Bytes) :
    arpOf (n.frame dst EthernetHeader.TYPE_ARP payload) = parse (ARPMessage.parse {}) payload :=
  if_pos rfl

theorem arpOf_ipv4 (n : NetworkInterface) (dst : EthernetAddress) (payload : List Bytes) :
    arpOf (n.frame dst EthernetHeader.TYPE_IPv4 payload) = .ok none :=
  if_neg (by decide : EthernetHeader.TYPE_IPv4 ≠ EthernetHeader.TYPE_ARP)

theorem serialize_supported {arpmsg : ARPMessage} {payload : List Bytes}
    (h : arpmsg.serialize = .ok payload) :
    parse (ARPMessage.parse {}) payload = .ok (some arpmsg) := by
  have hsupported : arpmsg.supported = true := by
    rw [ARPMessage.serialize, guard_eq_ok, Bool.not_eq_true', Bool.not_eq_false] at h
    exact h.1
  rw [ARPMessage.serialize_eq hsupported, Except.ok.injEq] at h
  rw [← h]
  exact ARPMessage.parse_wire hsupported {}

/-- The ARP messages of an interface tell the truth. -/
theorem announces_truthful (hown : Owns n.ipAddress.ipv4Numeric n.ethernetAddress) :
    Announces (Truthful Owns Handed) n := by
  intro dst arpmsg payload heth hip hpayload
  refine ⟨fun htype => ?_, fun told htold => ?_⟩
  · exact absurd htype (by decide : EthernetHeader.TYPE_ARP ≠ EthernetHeader.TYPE_IPv4)
  rw [arpOf_arp, serialize_supported hpayload] at htold
  cases htold
  rw [heth, hip]
  exact hown

theorem truthful_frame {dgram : InternetDatagram} {nextHop : Address} (hd : Sendable dgram)
    (hhanded : Handed dgram nextHop) {payload : List Bytes}
    (hpayload : dgram.serialize = .ok payload) {dst : EthernetAddress}
    (hdst : Maps Owns nextHop.ipv4Numeric dst) :
    Truthful Owns Handed (n.frame dst EthernetHeader.TYPE_IPv4 payload) := by
  refine ⟨fun _ d hparse => ?_, fun arpmsg harp => ?_⟩
  · obtain ⟨d', hread, hsame⟩ := hd.parse_eq hpayload
    rw [NetworkInterface.frame, hread] at hparse
    cases hparse
    exact ⟨dgram, nextHop, hhanded, hsame, hdst⟩
  · rw [arpOf_ipv4] at harp
    cases harp

theorem Station.tick (h : Station Owns Handed n) (ms : Nat) : Station Owns Handed (n.tick ms) :=
  h.same ⟨h.sends.tick ms, rfl, rfl⟩

theorem Station.maybeSend (h : Station Owns Handed n) :
    Station Owns Handed n.maybeSend.1 ∧ SameAddresses n n.maybeSend.1 ∧
      ∀ frame ∈ n.maybeSend.2, Truthful Owns Handed frame := by
  obtain ⟨hsends, hsame, hframe⟩ := h.sends.maybeSend
  exact ⟨h.same ⟨hsends, hsame⟩, hsame, hframe⟩

theorem Station.sendDatagram (h : Station Owns Handed n) {dgram : InternetDatagram}
    {nextHop : Address} (hd : Sendable dgram) (hhanded : Handed dgram nextHop)
    (hsend : n.sendDatagram dgram nextHop = .ok n') :
    Station Owns Handed n' ∧ SameAddresses n n' := by
  have hsends := h.sends.sendDatagram (announces_truthful h.own) (fun _ => Or.inl rfl)
    (fun payload dst hpayload hdst => truthful_frame hd hhanded hpayload hdst) hsend
  exact ⟨h.same hsends, hsends.2⟩

/-- A datagram that an interface takes from a truthful frame has been handed over, for an owner of
its Ethernet address. -/
theorem Station.recvFrame (h : Station Owns Handed n) {frame : EthernetFrame}
    (htrue : Truthful Owns Handed frame) {ipDgram : Option InternetDatagram}
    (hrecv : n.recvFrame frame = .ok (n', ipDgram)) :
    Station Owns Handed n' ∧ SameAddresses n n' ∧ ∀ d ∈ ipDgram, ∃ d' nextHop,
      Handed d' nextHop ∧ Same d' d ∧ Maps Owns nextHop.ipv4Numeric n.ethernetAddress := by
  obtain ⟨hsends, hsame, hdgram⟩ := h.sends.recvFrame (announces_truthful h.own)
    (fun arpmsg harp => Or.inr (htrue.arp arpmsg harp)) hrecv
  refine ⟨h.same ⟨hsends, hsame⟩, hsame, fun d hd => ?_⟩
  obtain ⟨htype, hdst, hparse⟩ := hdgram d hd
  obtain ⟨d', nextHop, hhanded, hd', hmaps⟩ := htrue.datagram htype d hparse
  exact ⟨d', nextHop, hhanded, hd', hdst ▸ hmaps⟩

/-- An interface of a router, as it has become of one that was there at the start, with datagrams
that the router may forward. -/
structure Holds (Owns : UInt32 → EthernetAddress → Prop)
    (Handed : InternetDatagram → Address → Prop) (Fit : InternetDatagram → Prop)
    (r₀ : Router) (itf : AsyncNetworkInterface) : Prop where
  station : Station Owns Handed itf.toNetworkInterface
  waiting : ∀ d ∈ itf.datagramsIn, Fit d
  home : ∃ itf₀ ∈ r₀.interfaces, SameAddresses itf₀.toNetworkInterface itf.toNetworkInterface

/-- The same of all interfaces of a router, whose table stays. -/
structure Routes (Owns : UInt32 → EthernetAddress → Prop)
    (Handed : InternetDatagram → Address → Prop) (Fit : InternetDatagram → Prop)
    (r₀ r : Router) : Prop where
  interfaces : ∀ itf ∈ r.interfaces, Holds Owns Handed Fit r₀ itf
  table : r.routingTable = r₀.routingTable

variable {Fit Fitter : InternetDatagram → Prop} {r₀ r r' : Router}
  {itf itf' : AsyncNetworkInterface}

theorem Holds.become (h : Holds Owns Handed Fit r₀ itf)
    (hstation : Station Owns Handed itf'.toNetworkInterface)
    (hsame : SameAddresses itf.toNetworkInterface itf'.toNetworkInterface)
    (hwaiting : ∀ d ∈ itf'.datagramsIn, Fit d) : Holds Owns Handed Fit r₀ itf' := by
  obtain ⟨itf₀, hmem, heth, hip⟩ := h.home
  exact ⟨hstation, hwaiting, itf₀, hmem, hsame.1.trans heth, hsame.2.trans hip⟩

theorem Routes.mono (h : Routes Owns Handed Fit r₀ r)
    (hmono : ∀ d nextHop, Handed d nextHop → More d nextHop) (hfit : ∀ d, Fit d → Fitter d) :
    Routes Owns More Fitter r₀ r where
  interfaces := fun itf hitf =>
    have hholds := h.interfaces itf hitf
    ⟨hholds.station.mono hmono, fun d hd => hfit d (hholds.waiting d hd), hholds.home⟩
  table := h.table

theorem Routes.set (h : Routes Owns Handed Fit r₀ r) {i : Nat} {itf : AsyncNetworkInterface}
    (hitf : Holds Owns Handed Fit r₀ itf) :
    Routes Owns Handed Fit r₀ { r with interfaces := r.interfaces.set i itf } := by
  refine ⟨fun other hother => ?_, h.table⟩
  cases List.mem_or_eq_of_mem_set hother with
  | inl hmem => exact h.interfaces other hmem
  | inr heq => exact heq ▸ hitf

theorem Routes.perform (h : Routes Owns Handed Fit r₀ r) {call : SendCall}
    (hd : Sendable call.dgram) (hhanded : Handed call.dgram call.nextHop)
    (hperform : r.perform call = .ok r') : Routes Owns Handed Fit r₀ r' := by
  rw [Router.perform] at hperform
  split at hperform
  · cases hperform
  · next itf hitf =>
      split at hperform
      · cases hperform
      · next n hsend =>
          cases hperform
          have hholds := h.interfaces itf (List.mem_of_getElem? hitf)
          obtain ⟨hstation, hsame⟩ := hholds.station.sendDatagram hd hhanded hsend
          exact h.set (hholds.become hstation hsame hholds.waiting)

/-- What a router forwards of the datagrams in its queues may be handed over. -/
def Forwards (Handed : InternetDatagram → Address → Prop) (Fit : InternetDatagram → Prop)
    (r₀ : Router) : Prop :=
  ∀ d call, Fit d → forward r₀.routingTable d = .ok (some call) →
    Sendable call.dgram ∧ Handed call.dgram call.nextHop

theorem Routes.routeFrom (h : Routes Owns Handed Fit r₀ r) (hforwards : Forwards Handed Fit r₀)
    {i : Nat} {calls : List SendCall} (hroute : r.routeFrom i = .ok (r', calls)) :
    Routes Owns Handed Fit r₀ r' := by
  rw [Router.routeFrom] at hroute
  split at hroute
  · cases hroute
    exact h
  · next itf hitf =>
      have hholds := h.interfaces itf (List.mem_of_getElem? hitf)
      have hpop : Holds Owns Handed Fit r₀ itf.popDatagram :=
        hholds.become hholds.station ⟨rfl, rfl⟩ fun d hd =>
          hholds.waiting d (List.mem_of_mem_tail hd)
      have hpopped := h.set (i := i) hpop
      dsimp only [AsyncNetworkInterface.maybeReceive] at hroute
      split at hroute
      · cases hroute
        exact hpopped
      · next datagram hhead =>
          have hd := hholds.waiting datagram (List.mem_of_mem_head? hhead)
          split at hroute
          · cases hroute
          · cases hroute
            exact hpopped
          · next call hforward =>
              split at hroute
              · cases hroute
              · next hperform =>
                  cases hroute
                  rw [h.table] at hforward
                  obtain ⟨hsendable, hhanded⟩ := hforwards datagram call hd hforward
                  exact hpopped.perform hsendable hhanded hperform

theorem Routes.routeLoop (h : Routes Owns Handed Fit r₀ r) (hforwards : Forwards Handed Fit r₀)
    {i turns : Nat} {calls : List SendCall} (hroute : r.routeLoop i turns = .ok (r', calls)) :
    Routes Owns Handed Fit r₀ r' := by
  induction turns generalizing r i calls with
  | zero =>
      cases hroute
      exact h
  | succ turns ih =>
      rw [Router.routeLoop] at hroute
      split at hroute
      · cases hroute
      · next hfirst =>
          split at hroute
          · cases hroute
          · next hmore =>
              cases hroute
              exact ih (h.routeFrom hforwards hfirst) hmore

theorem recvFrame_eq_ok {frame : EthernetFrame} (h : itf.recvFrame frame = .ok itf') :
    ∃ ipDgram, itf.toNetworkInterface.recvFrame frame = .ok (itf'.toNetworkInterface, ipDgram) ∧
      itf'.datagramsIn = itf.datagramsIn ++ ipDgram.toList := by
  rw [AsyncNetworkInterface.recvFrame] at h
  split at h
  · cases h
  · next hrecv =>
      cases h
      exact ⟨none, hrecv, (List.append_nil _).symm⟩
  · next d hrecv =>
      cases h
      exact ⟨some d, hrecv, rfl⟩

end Internet
end Minnow
