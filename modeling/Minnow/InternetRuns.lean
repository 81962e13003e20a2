import Minnow.Internet
import Minnow.InternetStations

/-!
Runs of an internet. ARP tables map IP addresses to the Ethernet addresses of the interfaces that
have them, whatever the network does; so datagrams take the routes that the routers' tables give,
and come to the interface they have been handed over for last.
-/

namespace Minnow
open Throwing NetworkInterface Router

namespace Internet

variable {H R : Type} {x₀ : Internet H R} {path : List R} {nextHop : Address}
  {sent more : List (InternetDatagram × Address)} {d : InternetDatagram}
  {itf itf' : AsyncNetworkInterface}

/-- A datagram handed to an interface for a next hop: by a host that sends it, or by a router that
forwards what one of its interfaces has been handed it for. The path has the routers it has come
through, the last one first. -/
inductive Routed (x₀ : Internet H R) (sent : List (InternetDatagram × Address)) :
    List R → InternetDatagram → Address → Prop
  | sent {dgram : InternetDatagram} {nextHop : Address} (mem : (dgram, nextHop) ∈ sent) :
      Routed x₀ sent [] dgram nextHop
  | forwarded {path : List R} {d d' : InternetDatagram} {itf : AsyncNetworkInterface} {r : R}
      {call : SendCall} (before : Routed x₀ sent path d itf.ipAddress) (same : Same d d')
      (mem : itf ∈ (x₀.router r).interfaces)
      (forward : forward (x₀.router r).routingTable d' = .ok (some call)) :
      Routed x₀ sent (r :: path) call.dgram call.nextHop

theorem Routed.mono (h : Routed x₀ sent path d nextHop) (hmono : ∀ p ∈ sent, p ∈ more) :
    Routed x₀ more path d nextHop := by
  induction h with
  | sent mem => exact .sent (hmono _ mem)
  | forwarded _ same mem forward ih => exact .forwarded ih same mem forward

/-- What has been routed is a datagram that a host has sent, with a TTL that counts the routers. -/
theorem Routed.came (h : Routed x₀ sent path d nextHop) (hsent : ∀ p ∈ sent, Sendable p.1) :
    Sendable d ∧ ∃ p ∈ sent, Came path.length p.1 d := by
  induction h with
  | sent mem => exact ⟨hsent _ mem, _, mem, came_refl _⟩
  | forwarded _ same _ forward ih =>
      obtain ⟨hd, p, hp, hcame⟩ := ih
      obtain ⟨hcall, hnext⟩ := forward_came (hd.same same) (hcame.same same) forward
      exact ⟨hcall, p, hp, hnext⟩

/-- Some interface has these addresses. -/
def Has (x : Internet H R) (ip : UInt32) (address : EthernetAddress) : Prop :=
  (∃ h, (x.host h).ipAddress = ⟨ip⟩ ∧ (x.host h).ethernetAddress = address) ∨
    ∃ r, ∃ itf ∈ (x.router r).interfaces, itf.ipAddress = ⟨ip⟩ ∧ itf.ethernetAddress = address

/-- An interface that has not been used. -/
def Unused (n : NetworkInterface) : Prop :=
  n = { ethernetAddress := n.ethernetAddress, ipAddress := n.ipAddress }

/-- An internet before anything has happened, whose interfaces have Ethernet addresses of
their own. -/
structure Configured (x : Internet H R) : Prop where
  hosts : ∀ h, Unused (x.host h)
  interfaces : ∀ r, ∀ itf ∈ (x.router r).interfaces,
    Unused itf.toNetworkInterface ∧ itf.datagramsIn = []
  frames : x.frames = []
  sent : x.sent = []
  received : x.received = []
  unicast : ∀ ip address, x.Has ip address → address ≠ ETHERNET_BROADCAST
  unique : ∀ ip ip' address, x.Has ip address → x.Has ip' address → ip = ip'

/-- What interfaces may have been handed. -/
def Handed (x₀ : Internet H R) (sent : List (InternetDatagram × Address))
    (d : InternetDatagram) (nextHop : Address) : Prop :=
  ∃ path, Routed x₀ sent path d nextHop

/-- What may have come for an address. -/
def Comes (x₀ : Internet H R) (sent : List (InternetDatagram × Address)) (dst : Address)
    (d : InternetDatagram) : Prop :=
  ∃ path d', Routed x₀ sent path d' dst ∧ Same d' d

/-- What may have come to a router. -/
def Passes (x₀ : Internet H R) (sent : List (InternetDatagram × Address)) (r : R)
    (d : InternetDatagram) : Prop :=
  ∃ itf ∈ (x₀.router r).interfaces, Comes x₀ sent itf.ipAddress d

/-- What holds of an internet throughout its runs from `x₀`. -/
structure Sound (x₀ x : Internet H R) : Prop where
  hosts : ∀ h, Station x₀.Has (x₀.Handed x.sent) (x.host h) ∧
    SameAddresses (x₀.host h) (x.host h)
  routers : ∀ r, Routes x₀.Has (x₀.Handed x.sent) (x₀.Passes x.sent r) (x₀.router r) (x.router r)
  frames : ∀ frame ∈ x.frames, Truthful x₀.Has (x₀.Handed x.sent) frame
  sent : ∀ p ∈ x.sent, Sendable p.1
  received : ∀ p ∈ x.received, x₀.Comes x.sent (x₀.host p.1).ipAddress p.2

variable {x x' : Internet H R}

theorem Handed.mono (hmono : ∀ p ∈ sent, p ∈ more) (d : InternetDatagram) (nextHop : Address)
    (h : x₀.Handed sent d nextHop) : x₀.Handed more d nextHop := by
  obtain ⟨path, hrouted⟩ := h
  exact ⟨path, hrouted.mono hmono⟩

theorem Comes.mono {dst : Address} (hmono : ∀ p ∈ sent, p ∈ more) (h : x₀.Comes sent dst d) :
    x₀.Comes more dst d := by
  obtain ⟨path, d', hrouted, hsame⟩ := h
  exact ⟨path, d', hrouted.mono hmono, hsame⟩

theorem Passes.mono {r : R} (hmono : ∀ p ∈ sent, p ∈ more) (h : x₀.Passes sent r d) :
    x₀.Passes more r d := by
  obtain ⟨itf, hitf, hcomes⟩ := h
  exact ⟨itf, hitf, hcomes.mono hmono⟩

/-- A host sends one more datagram. -/
theorem Sound.send (h : Sound x₀ x) {dgram : InternetDatagram} (hd : Sendable dgram)
    (nextHop : Address) : Sound x₀ { x with sent := x.sent ++ [(dgram, nextHop)] } := by
  have hmono : ∀ p ∈ x.sent, p ∈ x.sent ++ [(dgram, nextHop)] := fun p hp =>
    List.mem_append_left _ hp
  exact {
    hosts := fun host => ⟨(h.hosts host).1.mono (Handed.mono hmono), (h.hosts host).2⟩
    routers := fun r => (h.routers r).mono (Handed.mono hmono) fun d hd => hd.mono hmono
    frames := fun frame hframe => (h.frames frame hframe).mono (Handed.mono hmono)
    sent := List.forall_mem_append.mpr ⟨h.sent, List.forall_mem_singleton.mpr hd⟩
    received := fun p hp => (h.received p hp).mono hmono }

theorem Sound.setHost [DecidableEq H] (h : Sound x₀ x) {host : H} {n : NetworkInterface}
    (hstation : Station x₀.Has (x₀.Handed x.sent) n) (hsame : SameAddresses (x.host host) n) :
    Sound x₀ (x.setHost host n) where
  hosts := by
    obtain ⟨-, heth, hip⟩ := h.hosts host
    refine (Function.forall_update_iff x.host fun host n =>
      Station x₀.Has (x₀.Handed x.sent) n ∧ SameAddresses (x₀.host host) n).mpr ?_
    exact ⟨⟨hstation, hsame.1.trans heth, hsame.2.trans hip⟩, fun other _ => h.hosts other⟩
  routers := h.routers
  frames := h.frames
  sent := h.sent
  received := h.received

theorem Sound.setRouter [DecidableEq R] (h : Sound x₀ x) {r : R} {router : Router}
    (hrouter : Routes x₀.Has (x₀.Handed x.sent) (x₀.Passes x.sent r) (x₀.router r) router) :
    Sound x₀ (x.setRouter r router) where
  hosts := h.hosts
  routers := by
    refine (Function.forall_update_iff x.router fun r router =>
      Routes x₀.Has (x₀.Handed x.sent) (x₀.Passes x.sent r) (x₀.router r) router).mpr ?_
    exact ⟨hrouter, fun other _ => h.routers other⟩
  frames := h.frames
  sent := h.sent
  received := h.received

/-- An interface of a router that has become another. -/
theorem Sound.setInterface [DecidableEq R] (h : Sound x₀ x) {r : R} {i : Nat}
    (hitf : (x.router r).interfaces[i]? = some itf)
    (hstation : Station x₀.Has (x₀.Handed x.sent) itf'.toNetworkInterface)
    (hsame : SameAddresses itf.toNetworkInterface itf'.toNetworkInterface)
    (hwaiting : ∀ d ∈ itf'.datagramsIn, x₀.Passes x.sent r d) :
    Sound x₀ (x.setInterface r i itf') := by
  have hrouter := h.routers r
  have hholds := hrouter.interfaces itf (List.mem_of_getElem? hitf)
  exact h.setRouter (hrouter.set (hholds.become hstation hsame hwaiting))

/-- Truthful frames join those that have been sent. -/
theorem Sound.add (h : Sound x₀ x) {frames : List EthernetFrame}
    (hframes : ∀ frame ∈ frames, Truthful x₀.Has (x₀.Handed x.sent) frame) :
    Sound x₀ { x with frames := x.frames ++ frames } :=
  { h with frames := List.forall_mem_append.mpr ⟨h.frames, hframes⟩ }

/-- The owner of an Ethernet address has been handed what has come to it. -/
theorem Configured.comes (hconf : Configured x₀) {ip : UInt32} {address : EthernetAddress}
    (hown : x₀.Has ip address) {d d' : InternetDatagram} {nextHop : Address}
    (hhanded : x₀.Handed sent d' nextHop) (hsame : Same d' d)
    (hmaps : Maps x₀.Has nextHop.ipv4Numeric address) : x₀.Comes sent ⟨ip⟩ d := by
  obtain ⟨path, hrouted⟩ := hhanded
  have hip : nextHop.ipv4Numeric = ip := by
    cases hmaps with
    | inl hbroadcast => exact absurd hbroadcast (hconf.unicast _ _ hown)
    | inr howner => exact hconf.unique _ _ _ howner hown
  exact ⟨path, d', hip ▸ hrouted, hsame⟩

/-- What the router forwards has been routed. -/
theorem Sound.forwards (h : Sound x₀ x) (r : R) :
    Forwards (x₀.Handed x.sent) (x₀.Passes x.sent r) (x₀.router r) := by
  rintro d call ⟨itf, hitf, path, d', hrouted, hsame⟩ hforward
  have hcall := Routed.forwarded hrouted hsame hitf hforward
  exact ⟨(hcall.came h.sent).1, r :: path, hcall⟩

/-- What arrives at an interface has come for its address. -/
theorem Configured.arrives (hconf : Configured x₀) (h : Sound x₀ x) {n n₀ n' : NetworkInterface}
    (hstation : Station x₀.Has (x₀.Handed x.sent) n) (hsame : SameAddresses n₀ n)
    (hown : x₀.Has n₀.ipAddress.ipv4Numeric n₀.ethernetAddress) {frame : EthernetFrame}
    (hframe : frame ∈ x.frames) {ipDgram : Option InternetDatagram}
    (hrecv : n.recvFrame frame = .ok (n', ipDgram)) :
    Station x₀.Has (x₀.Handed x.sent) n' ∧ SameAddresses n n' ∧
      ∀ d ∈ ipDgram, x₀.Comes x.sent n₀.ipAddress d := by
  obtain ⟨hstation', hsame', hdgram⟩ := hstation.recvFrame (h.frames frame hframe) hrecv
  refine ⟨hstation', hsame', fun d hd => ?_⟩
  obtain ⟨d', nextHop, hhanded, hd', hmaps⟩ := hdgram d hd
  rw [hsame.1] at hmaps
  exact hconf.comes hown hhanded hd' hmaps

theorem has_host (x : Internet H R) (host : H) :
    x.Has (x.host host).ipAddress.ipv4Numeric (x.host host).ethernetAddress :=
  Or.inl ⟨host, rfl, rfl⟩

theorem has_router (x : Internet H R) {r : R} (h : itf ∈ (x.router r).interfaces) :
    x.Has itf.ipAddress.ipv4Numeric itf.ethernetAddress :=
  Or.inr ⟨r, itf, h, rfl, rfl⟩

theorem Unused.station {n : NetworkInterface} (h : Unused n)
    (hown : x₀.Has n.ipAddress.ipv4Numeric n.ethernetAddress) :
    Station x₀.Has (x₀.Handed sent) n := by
  refine ⟨?_, hown⟩
  rw [h]
  exact sends_start _ _

theorem Configured.sound (h : Configured x₀) : Sound x₀ x₀ where
  hosts := fun host => ⟨(h.hosts host).station (has_host x₀ host), rfl, rfl⟩
  routers := fun r => by
    refine ⟨fun itf hitf => ?_, rfl⟩
    obtain ⟨hunused, hqueue⟩ := h.interfaces r itf hitf
    refine ⟨hunused.station (has_router x₀ hitf), ?_, itf, hitf, rfl, rfl⟩
    rw [hqueue]
    exact fun d hd => absurd hd List.not_mem_nil
  frames := fun frame hframe => by
    rw [h.frames] at hframe
    exact absurd hframe List.not_mem_nil
  sent := fun p hp => by
    rw [h.sent] at hp
    exact absurd hp List.not_mem_nil
  received := fun p hp => by
    rw [h.received] at hp
    exact absurd hp List.not_mem_nil

variable [DecidableEq H] [DecidableEq R]

/-- What one step preserves. -/
theorem Sound.step (hconf : Configured x₀) (h : Sound x₀ x) {input : Input H R}
    (hinput : ∀ host dgram nextHop, input = .sendDatagram host dgram nextHop → Sendable dgram)
    (hstep : x.step input = .ok x') : Sound x₀ x' := by
  cases input with
  | sendDatagram host dgram nextHop =>
      obtain ⟨n, hn, hx'⟩ := bind_eq_ok.mp hstep
      cases hx'
      have hd := hinput host dgram nextHop rfl
      have hsent := h.send hd nextHop
      have hhanded : x₀.Handed (x.sent ++ [(dgram, nextHop)]) dgram nextHop :=
        ⟨[], .sent (List.mem_append_right _ List.mem_cons_self)⟩
      obtain ⟨hstation, hsame⟩ := (hsent.hosts host).1.sendDatagram hd hhanded hn
      exact hsent.setHost hstation hsame
  | recvFrame host k =>
      rw [Internet.step] at hstep
      split at hstep
      · cases hstep
        exact h
      · next frame hframe =>
          obtain ⟨⟨n, ipDgram⟩, hrecv, hx'⟩ := bind_eq_ok.mp hstep
          cases hx'
          obtain ⟨hstation, hsame, hdgram⟩ := hconf.arrives h (h.hosts host).1 (h.hosts host).2
            (has_host x₀ host) (List.mem_of_getElem? hframe) hrecv
          have hset := h.setHost hstation hsame
          refine { hset with received := List.forall_mem_append.mpr ⟨hset.received, ?_⟩ }
          intro p hp
          obtain ⟨d, hd, rfl⟩ := List.mem_map.mp hp
          exact hdgram d (Option.mem_toList.mp hd)
  | tick host ms =>
      cases hstep
      exact h.setHost ((h.hosts host).1.tick ms) ⟨rfl, rfl⟩
  | maybeSend host =>
      obtain ⟨hstation, hsame, hframe⟩ := (h.hosts host).1.maybeSend
      cases hstep
      exact (h.setHost hstation hsame).add fun frame hmem =>
        hframe frame (Option.mem_toList.mp hmem)
  | route r =>
      obtain ⟨⟨router, calls⟩, hroute, hx'⟩ := bind_eq_ok.mp hstep
      cases hx'
      exact h.setRouter ((h.routers r).routeLoop (h.forwards r) hroute)
  | routerRecvFrame r i k =>
      rw [Internet.step] at hstep
      split at hstep
      · next itf frame hitf hframe =>
          obtain ⟨itf', hrecv, hx'⟩ := bind_eq_ok.mp hstep
          cases hx'
          have hholds := (h.routers r).interfaces itf (List.mem_of_getElem? hitf)
          obtain ⟨itf₀, hmem, hsame₀⟩ := hholds.home
          obtain ⟨ipDgram, hipDgram, hqueue⟩ := recvFrame_eq_ok hrecv
          obtain ⟨hstation, hsame, hdgram⟩ := hconf.arrives h hholds.station hsame₀
            (has_router x₀ hmem) (List.mem_of_getElem? hframe) hipDgram
          refine h.setInterface hitf hstation hsame ?_
          rw [hqueue]
          refine List.forall_mem_append.mpr ⟨hholds.waiting, fun d hd => ?_⟩
          exact ⟨itf₀, hmem, hdgram d (Option.mem_toList.mp hd)⟩
      · cases hstep
        exact h
  | routerTick r i ms =>
      rw [Internet.step] at hstep
      split at hstep
      · next itf hitf =>
          cases hstep
          have hholds := (h.routers r).interfaces itf (List.mem_of_getElem? hitf)
          exact h.setInterface hitf (hholds.station.tick ms) ⟨rfl, rfl⟩ hholds.waiting
      · cases hstep
        exact h
  | routerMaybeSend r i =>
      rw [Internet.step] at hstep
      split at hstep
      · next itf hitf =>
          cases hstep
          have hholds := (h.routers r).interfaces itf (List.mem_of_getElem? hitf)
          obtain ⟨hstation, hsame, hframe⟩ := hholds.station.maybeSend
          refine (h.setInterface hitf ?_ ?_ ?_).add fun frame hmem =>
            hframe frame (Option.mem_toList.mp hmem)
          · exact hstation
          · exact hsame
          · exact hholds.waiting
      · cases hstep
        exact h

/-- The hosts' programs send datagrams without options. -/
def Send (inputs : List (Input H R)) : Prop :=
  ∀ host dgram nextHop, .sendDatagram host dgram nextHop ∈ inputs → Sendable dgram

theorem sound_run (hconf : Configured x₀) {inputs : List (Input H R)} (hinputs : Send inputs)
    (hrun : attempt Internet.step x₀ inputs = .ok x) : Sound x₀ x := by
  refine attempt_invariant hconf.sound (fun x input hinput x' hx hstep => ?_) hrun
  refine hx.step hconf (fun host dgram nextHop heq => ?_) hstep
  exact hinputs host dgram nextHop (heq ▸ hinput)

/-- A datagram that a host receives has been sent by a host, and has come to it by the routes that
the routers' tables give, the same but for the TTL and the checksum. -/
theorem comes_along_routes (hconf : Configured x₀) {inputs : List (Input H R)}
    (hinputs : Send inputs) (hrun : attempt Internet.step x₀ inputs = .ok x) :
    ∀ p ∈ x.received, ∃ path d, Routed x₀ x.sent path d (x₀.host p.1).ipAddress ∧ Same d p.2 ∧
      ∃ q ∈ x.sent, Came path.length q.1 p.2 := by
  intro p hp
  have hsound := sound_run hconf hinputs hrun
  obtain ⟨path, d, hrouted, hsame⟩ := hsound.received p hp
  obtain ⟨-, q, hq, hcame⟩ := hrouted.came hsound.sent
  exact ⟨path, d, hrouted, hsame, q, hq, hcame.same hsame⟩

/-- Two hosts on two networks, and a router between them. -/
def twoNetworks : Internet Bool Unit where
  host
    | false => { ethernetAddress := #v[2, 0, 0, 0, 0, 1], ipAddress := ⟨0x0a000001⟩ }
    | true => { ethernetAddress := #v[2, 0, 0, 0, 0, 2], ipAddress := ⟨0x0a000102⟩ }
  router := fun _ => {
    interfaces := [
      .ofInterface { ethernetAddress := #v[2, 0, 0, 0, 0, 3], ipAddress := ⟨0x0a0000fe⟩ },
      .ofInterface { ethernetAddress := #v[2, 0, 0, 0, 0, 4], ipAddress := ⟨0x0a0001fe⟩ }]
    routingTable := [⟨0x0a000000, 24, none, 0⟩, ⟨0x0a000100, 24, none, 1⟩] }

def twoAddresses : List (EthernetAddress × UInt32) :=
  [(#v[2, 0, 0, 0, 0, 1], 0x0a000001), (#v[2, 0, 0, 0, 0, 2], 0x0a000102),
    (#v[2, 0, 0, 0, 0, 3], 0x0a0000fe), (#v[2, 0, 0, 0, 0, 4], 0x0a0001fe)]

theorem has_twoNetworks {ip : UInt32} {address : EthernetAddress}
    (h : twoNetworks.Has ip address) : (address, ip) ∈ twoAddresses := by
  rcases h with ⟨host, hip, rfl⟩ | ⟨r, itf, hitf, hip, rfl⟩
  · cases host with
    | false =>
        cases hip
        decide
    | true =>
        cases hip
        decide
  · rcases List.mem_pair.mp hitf with rfl | rfl
    · cases hip
      decide
    · cases hip
      decide

theorem configured_twoNetworks : Configured twoNetworks where
  hosts := fun host => by
    cases host with
    | false => rfl
    | true => rfl
  interfaces := fun r itf hitf => by
    rcases List.mem_pair.mp hitf with rfl | rfl
    · exact ⟨rfl, rfl⟩
    · exact ⟨rfl, rfl⟩
  frames := rfl
  sent := rfl
  received := rfl
  unicast := fun ip address h =>
    (by decide : ∀ p ∈ twoAddresses, p.1 ≠ ETHERNET_BROADCAST) _ (has_twoNetworks h)
  unique := fun ip ip' address h h' =>
    (by decide : ∀ p ∈ twoAddresses, ∀ q ∈ twoAddresses, p.1 = q.1 → p.2 = q.2) _
      (has_twoNetworks h) _ (has_twoNetworks h') rfl

def hello : InternetDatagram where
  header := { len := 25, ttl := 64, cksum := 9693, src := 0x0a000001, dst := 0x0a000102 }
  payload := [[104, 101, 108, 108, 111]]

/-- The ARP exchanges of the first host and of the router, and the datagram's way. -/
def across : List (Input Bool Unit) :=
  [.sendDatagram false hello ⟨0x0a0000fe⟩, .maybeSend false, .routerRecvFrame () 0 0,
    .routerMaybeSend () 0, .recvFrame false 1, .maybeSend false, .routerRecvFrame () 0 2, .route (),
    .routerMaybeSend () 1, .recvFrame true 3, .maybeSend true, .routerRecvFrame () 1 4,
    .routerMaybeSend () 1, .recvFrame true 5]

theorem send_across : Send across := by
  intro host dgram nextHop hmem
  obtain ⟨-, rfl, -⟩ : host = false ∧ dgram = hello ∧ nextHop = ⟨0x0a0000fe⟩ := by
    simpa [across] using hmem
  exact ⟨⟨rfl, by decide, by decide⟩, rfl, by decide +kernel⟩

theorem comes_along_routes_of_two_networks :
    ∃ x, attempt Internet.step twoNetworks across = .ok x ∧
      x.received.map (fun p => (p.1, p.2.header.ttl, p.2.payload.flatten)) =
        [(true, 63, [104, 101, 108, 108, 111])] ∧
      ∀ p ∈ x.received, ∃ path d,
        Routed twoNetworks x.sent path d (twoNetworks.host p.1).ipAddress ∧ Same d p.2 ∧
          ∃ q ∈ x.sent, Came path.length q.1 p.2 := by
  have hrun : (attempt Internet.step twoNetworks across).toOption.map (fun x =>
      x.received.map fun p => (p.1, p.2.header.ttl, p.2.payload.flatten)) =
        some [(true, 63, [104, 101, 108, 108, 111])] := by decide +kernel
  cases hx : attempt Internet.step twoNetworks across with
  | error _ =>
      rw [hx] at hrun
      cases hrun
  | ok x =>
      rw [hx, Except.toOption, Option.map_some, Option.some.injEq] at hrun
      exact ⟨x, rfl, hrun, comes_along_routes configured_twoNetworks send_across hx⟩

/-- An ARP table gives an IP address the Ethernet address of an interface that has it, or the
broadcast address of a request; and a datagram in a frame for an interface has come for it. -/
theorem addresses_are_true (hconf : Configured x₀) {inputs : List (Input H R)}
    (hinputs : Send inputs) (hrun : attempt Internet.step x₀ inputs = .ok x) :
    (∀ host ip, ∀ mapping ∈ (x.host host).arpTable ip, Maps x₀.Has ip mapping.1) ∧
      (∀ r, ∀ itf ∈ (x.router r).interfaces, ∀ ip, ∀ mapping ∈ itf.arpTable ip,
        Maps x₀.Has ip mapping.1) ∧
      ∀ frame ∈ x.frames, ∀ ip d, x₀.Has ip frame.header.dst →
        frame.header.type = EthernetHeader.TYPE_IPv4 →
        parse (IPv4Datagram.parse {}) frame.payload = .ok (some d) → x₀.Comes x.sent ⟨ip⟩ d := by
  have hsound := sound_run hconf hinputs hrun
  refine ⟨fun host => (hsound.hosts host).1.sends.table, fun r itf hitf =>
    ((hsound.routers r).interfaces itf hitf).station.sends.table, ?_⟩
  intro frame hframe ip d hown htype hd
  obtain ⟨d', nextHop, hhanded, hsame, hmaps⟩ := (hsound.frames frame hframe).datagram htype d hd
  exact hconf.comes hown hhanded hsame hmaps

theorem addresses_are_true_of_two_networks :
    ∃ x, attempt Internet.step twoNetworks across = .ok x ∧
      ((x.host false).arpTable 0x0a0000fe).map Prod.fst = some #v[2, 0, 0, 0, 0, 3] ∧
      (∀ host ip, ∀ mapping ∈ (x.host host).arpTable ip, Maps twoNetworks.Has ip mapping.1) ∧
      (∀ r, ∀ itf ∈ (x.router r).interfaces, ∀ ip, ∀ mapping ∈ itf.arpTable ip,
        Maps twoNetworks.Has ip mapping.1) ∧
      ∀ frame ∈ x.frames, ∀ ip d, twoNetworks.Has ip frame.header.dst →
        frame.header.type = EthernetHeader.TYPE_IPv4 →
        parse (IPv4Datagram.parse {}) frame.payload = .ok (some d) →
        twoNetworks.Comes x.sent ⟨ip⟩ d := by
  have hrun : (attempt Internet.step twoNetworks across).toOption.map (fun x =>
      ((x.host false).arpTable 0x0a0000fe).map Prod.fst) =
        some (some #v[2, 0, 0, 0, 0, 3]) := by decide +kernel
  cases hx : attempt Internet.step twoNetworks across with
  | error _ =>
      rw [hx] at hrun
      cases hrun
  | ok x =>
      rw [hx, Except.toOption, Option.map_some, Option.some.injEq] at hrun
      exact ⟨x, rfl, hrun, addresses_are_true configured_twoNetworks send_across hx⟩

end Internet
end Minnow
