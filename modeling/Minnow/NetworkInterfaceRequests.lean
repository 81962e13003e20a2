import Minnow.EthernetWire
import Minnow.NetworkInterfaceCache

/-!
The ARP requests of an interface and the times at which they are queued. Nothing records
these times in the source: after a request the table keeps an entry for its address, which
is not older than the request, until thirty seconds later.
-/

namespace Minnow
open Transition
namespace NetworkInterface

/-- The IP address that a frame asks for, if it carries an ARP request. -/
def requestTarget (ef : EthernetFrame) : Option UInt32 :=
  (acceptedArp ef).bind fun arpmsg =>
    if arpmsg.opcode = ARPMessage.OPCODE_REQUEST then some arpmsg.targetIpAddress else none

theorem requestTarget_ipv4 {ef : EthernetFrame} (h : isIPv4 ef = true) :
    requestTarget ef = none := by
  have htype : ef.header.type ≠ EthernetHeader.TYPE_ARP := by
    rw [eq_of_beq h]
    decide
  rw [requestTarget, acceptedArp, arpOf, if_neg htype]
  rfl

/-- A frame says what the message in it says. -/
theorem acceptedArp_frame (n : NetworkInterface) (dst : EthernetAddress) {m : ARPMessage}
    (hm : m.supported = true) {payload : List Bytes} (h : m.serialize = .ok payload) :
    acceptedArp (n.frame dst EthernetHeader.TYPE_ARP payload) = some m := by
  rw [ARPMessage.serialize_eq hm, Except.ok.injEq] at h
  subst h
  have harp : arpOf (n.frame dst EthernetHeader.TYPE_ARP [m.bytes]) = .ok (some m) := by
    simp only [arpOf, frame, if_true]
    exact ARPMessage.parse_wire hm {}
  rw [acceptedArp, harp]

theorem requestTarget_request (n : NetworkInterface) (nextHop : Address) {payload : List Bytes}
    (h : (n.arpRequest nextHop).serialize = .ok payload) :
    requestTarget (n.frame ETHERNET_BROADCAST EthernetHeader.TYPE_ARP payload) =
      some nextHop.ipv4Numeric := by
  rw [requestTarget, acceptedArp_frame n _ rfl h]
  rfl

theorem IsReply.requestTarget {n : NetworkInterface} {ef : EthernetFrame}
    (h : n.IsReply ef) : requestTarget ef = none := by
  obtain ⟨arpmsg, dst, reply, hreply, rfl⟩ := h
  rw [NetworkInterface.requestTarget, acceptedArp_frame n _ rfl hreply]
  rfl

/-- The addresses that the frames of a step ask for. -/
def requestsOf (n : NetworkInterface) (input : Input) : List UInt32 :=
  (n.queued input).filterMap requestTarget

/-- The requests so far, each with the time that had passed when it was queued. -/
structure RequestLog where
  time : Nat := 0
  requests : List (Nat × UInt32) := []

def noteRequests (n : NetworkInterface) (input : Input) (log : RequestLog) : RequestLog where
  time := log.time + elapsed [input]
  requests := log.requests ++ (n.requestsOf input).map fun ip => (log.time, ip)

def loggedRun (ethernetAddress : EthernetAddress) (ipAddress : Address)
    (inputs : List Input) : NetworkInterface × RequestLog :=
  run (observe step noteRequests) (start ethernetAddress ipAddress, {}) inputs

theorem requestsOf_tick (n : NetworkInterface) (ms : Nat) : n.requestsOf (.tick ms) = [] := by
  simp [requestsOf, queued, step, tick]

theorem requestsOf_maybeSend (n : NetworkInterface) : n.requestsOf .maybeSend = [] := by
  cases hready : n.readyToSend <;>
    simp [requestsOf, queued, step, maybeSend, hready, List.drop_of_length_le]

/-- A receive answers and forwards, but it asks for nothing. -/
theorem requestsOf_recv {n : NetworkInterface} (h : ∀ e ∈ n.unknownEthAddr, isIPv4 e.2 = true)
    (frame : EthernetFrame) : n.requestsOf (.recvFrame frame) = [] := by
  rw [requestsOf, List.filterMap_eq_nil_iff]
  intro ef hef
  cases recvFrame_cases n frame with
  | inl hsame => simp [queued, hsame.2.1] at hef
  | inr hlearns =>
      obtain ⟨-, -, answers, hanswers, hstep, -⟩ := hlearns
      simp only [queued, hstep, drain, List.append_assoc, List.drop_left] at hef
      cases List.mem_append.mp hef with
      | inl hanswer => exact (hanswers ef hanswer).requestTarget
      | inr hdrained =>
          obtain ⟨⟨ip, ef'⟩, hmem, rfl⟩ := List.mem_map.mp hdrained
          obtain ⟨ef₀, address, time, hwaiting, -, rfl⟩ := mem_drainLoop.mp hmem
          exact requestTarget_ipv4 (h (ip, ef₀) hwaiting)

/-- A send asks for nothing and leaves the table alone, or it asks for a next hop that
has no entry or a pending one at least five seconds old, and makes it pending. -/
theorem requestsOf_send (n : NetworkInterface) (dgram : InternetDatagram)
    (nextHop : Address) :
    n.requestsOf (.sendDatagram dgram nextHop) = [] ∧
        (n.step (.sendDatagram dgram nextHop)).arpTable = n.arpTable ∨
      n.requestsOf (.sendDatagram dgram nextHop) = [nextHop.ipv4Numeric] ∧
        (∀ m ∈ n.arpTable nextHop.ipv4Numeric, 5000 ≤ m.2) ∧
        (n.step (.sendDatagram dgram nextHop)).arpTable =
          Function.update n.arpTable nextHop.ipv4Numeric (some (ETHERNET_BROADCAST, 0)) := by
  have hipv4 (address : EthernetAddress) (payload : List Bytes) :
      requestTarget (n.frame address EthernetHeader.TYPE_IPv4 payload) = none :=
    requestTarget_ipv4 rfl
  cases hreq : n.requested nextHop.ipv4Numeric with
  | true =>
      have hsend : n.sendDatagram dgram nextHop = .ok n := by
        simp only [sendDatagram, hreq, if_true]
      exact Or.inl (by simp [requestsOf, queued, step, hsend])
  | false =>
      rcases sendDatagram_cases n dgram nextHop with
        ⟨htrue, -⟩ | ⟨-, e, hsend⟩ | ⟨-, payload, -, address, -, hsend⟩ |
          ⟨-, payload, -, hunknown, request, hrequest, hsend⟩
      · rw [hreq] at htrue
        cases htrue
      · exact Or.inl (by simp [requestsOf, queued, step, hsend])
      · exact Or.inl (by simp [requestsOf, queued, step, hsend, hipv4])
      · right
        refine ⟨?_, ?_, by rw [step, hsend]⟩
        · simp [requestsOf, queued, step, hsend, requestTarget_request n nextHop hrequest]
        · -- the entry is pending, since the address is unknown, and no longer recent
          intro m hm
          rw [Option.mem_def] at hm
          have hbroadcast : m.1 = ETHERNET_BROADCAST := by simpa [known, hm] using hunknown
          simpa [requested, hm, hbroadcast] using hreq

/-- After a request its address has an entry that is not older than the request, unless
thirty seconds have passed. -/
structure Limited (n : NetworkInterface) (log : RequestLog) : Prop where
  types : ∀ e ∈ n.unknownEthAddr, isIPv4 e.2 = true
  spaced : log.requests.Pairwise fun earlier later =>
    earlier.2 = later.2 → earlier.1 + 5000 ≤ later.1
  past : ∀ r ∈ log.requests, r.1 ≤ log.time
  present : ∀ r ∈ log.requests, n.arpTable r.2 = none → r.1 + 30000 < log.time
  younger : ∀ r ∈ log.requests, ∀ m ∈ n.arpTable r.2, r.1 + m.2 ≤ log.time

theorem limited_start (ethernetAddress : EthernetAddress) (ipAddress : Address) :
    Limited (start ethernetAddress ipAddress) {} := by
  constructor <;> simp [start]

/-- A step that asks for nothing and takes no time, and leaves every entry as it is or
renews it. -/
theorem Limited.renewed {n : NetworkInterface} {log : RequestLog} (h : Limited n log)
    {input : Input} (hidle : n.requestsOf input = []) (hinstant : elapsed [input] = 0)
    (htable : ∀ ip, (n.step input).arpTable ip = n.arpTable ip ∨
      ∃ address, (n.step input).arpTable ip = some (address, 0)) :
    Limited (n.step input) (noteRequests n input log) := by
  have hlog : noteRequests n input log = log := by
    simp only [noteRequests, hidle, hinstant, List.map_nil, List.append_nil, Nat.add_zero]
  rw [hlog]
  refine ⟨types_step h.types input, h.spaced, h.past, ?_, ?_⟩
  · intro r hr hnone
    cases htable r.2 with
    | inl hsame => exact h.present r hr (hsame.symm.trans hnone)
    | inr hnew =>
        obtain ⟨address, hnew⟩ := hnew
        simp [hnew] at hnone
  · intro r hr m hm
    cases htable r.2 with
    | inl hsame => exact h.younger r hr m (hsame ▸ hm)
    | inr hnew =>
        obtain ⟨address, hnew⟩ := hnew
        obtain rfl := Option.some.inj (hnew.symm.trans hm)
        exact h.past r hr

theorem limited_send {n : NetworkInterface} {log : RequestLog} (h : Limited n log)
    (dgram : InternetDatagram) (nextHop : Address) :
    Limited (n.step (.sendDatagram dgram nextHop))
      (noteRequests n (.sendDatagram dgram nextHop) log) := by
  cases requestsOf_send n dgram nextHop with
  | inl hidle => exact h.renewed hidle.1 rfl fun ip => Or.inl (congrFun hidle.2 ip)
  | inr hasks =>
      obtain ⟨hrequests, hstale, htable⟩ := hasks
      have hlog : noteRequests n (.sendDatagram dgram nextHop) log =
          ⟨log.time, log.requests ++ [(log.time, nextHop.ipv4Numeric)]⟩ := by
        simp only [noteRequests, hrequests]
        rfl
      -- an earlier request for the address has left an entry that is now stale, or none
      have hlate : ∀ r ∈ log.requests, r.2 = nextHop.ipv4Numeric → r.1 + 5000 ≤ log.time := by
        intro r hr hip
        cases hentry : n.arpTable nextHop.ipv4Numeric with
        | none =>
            have := h.present r hr (hip ▸ hentry)
            omega
        | some m =>
            have hyounger := h.younger r hr m (hip ▸ hentry)
            have := hstale m hentry
            omega
      have hentries : ∀ r ∈ log.requests ++ [(log.time, nextHop.ipv4Numeric)],
          r.1 ≤ log.time := by
        intro r hr
        cases List.mem_append.mp hr with
        | inl hr => exact h.past r hr
        | inr hr => rw [List.mem_singleton.mp hr]
      rw [hlog]
      refine ⟨types_step h.types _, ?_, hentries, ?_, ?_⟩
      · refine List.pairwise_append.mpr ⟨h.spaced, List.pairwise_singleton _ _, ?_⟩
        intro r hr new hnew hip
        rw [List.mem_singleton.mp hnew] at hip ⊢
        exact hlate r hr hip
      · intro r hr hnone
        rw [htable] at hnone
        by_cases hip : r.2 = nextHop.ipv4Numeric
        · rw [hip, Function.update_self] at hnone
          cases hnone
        · rw [Function.update_of_ne hip] at hnone
          cases List.mem_append.mp hr with
          | inl hr => exact h.present r hr hnone
          | inr hr => exact absurd (congrArg Prod.snd (List.mem_singleton.mp hr)) hip
      · intro r hr m hm
        rw [htable] at hm
        by_cases hip : r.2 = nextHop.ipv4Numeric
        · rw [hip, Function.update_self] at hm
          obtain rfl := Option.some.inj hm
          exact hentries r hr
        · rw [Function.update_of_ne hip] at hm
          cases List.mem_append.mp hr with
          | inl hr => exact h.younger r hr m hm
          | inr hr => exact absurd (congrArg Prod.snd (List.mem_singleton.mp hr)) hip

theorem limited_tick {n : NetworkInterface} {log : RequestLog} (h : Limited n log) {ms : Nat}
    (hfit : log.time + ms < 2 ^ 64) :
    Limited (n.step (.tick ms)) (noteRequests n (.tick ms) log) := by
  have hlog : noteRequests n (.tick ms) log = ⟨log.time + ms, log.requests⟩ := by
    simp [noteRequests, requestsOf_tick, elapsed]
  rw [hlog]
  have hage : ∀ r ∈ log.requests, ∀ m ∈ n.arpTable r.2, u64 (m.2 + ms) = m.2 + ms := by
    intro r hr m hm
    have := h.younger r hr m hm
    exact u64_of_lt (by omega)
  refine ⟨h.types, h.spaced, fun r hr => (h.past r hr).trans (Nat.le_add_right _ _), ?_, ?_⟩
  · intro r hr hnone
    simp only [step, tick] at hnone
    cases hentry : n.arpTable r.2 with
    | none =>
        have := h.present r hr hentry
        simp only
        omega
    | some m =>
        have hyounger := h.younger r hr m hentry
        rw [hentry, Option.bind_some, ageBy, hage r hr m hentry] at hnone
        by_cases hold : 30000 < m.2 + ms
        · simp only
          omega
        · simp [hold] at hnone
  · intro r hr m hm
    obtain ⟨m₀, hm₀, haged⟩ := Option.bind_eq_some_iff.mp hm
    have hyounger := h.younger r hr m₀ hm₀
    rw [ageBy, hage r hr m₀ hm₀] at haged
    by_cases hold : 30000 < m₀.2 + ms
    · simp [hold] at haged
    · simp only [hold, if_false, Option.some.injEq] at haged
      rw [← haged]
      simp only
      omega

/-- Whatever is sent, received or expires, as long as less than `2 ^ 64` milliseconds
pass. -/
theorem limited_step {n : NetworkInterface} {log : RequestLog} (h : Limited n log)
    {input : Input} (hfit : log.time + elapsed [input] < 2 ^ 64) :
    Limited (n.step input) (noteRequests n input log) := by
  cases input with
  | sendDatagram dgram nextHop => exact limited_send h dgram nextHop
  | tick ms => exact limited_tick h hfit
  | maybeSend =>
      refine h.renewed (requestsOf_maybeSend n) rfl fun ip => Or.inl ?_
      simp only [step, maybeSend]
      split <;> rfl
  | recvFrame frame =>
      refine h.renewed (requestsOf_recv h.types frame) rfl fun ip => ?_
      rw [recv_table]
      cases tableAfter_cases n frame {} ip with
      | inl hkept =>
          obtain ⟨-, htable, -⟩ := hkept
          exact Or.inl htable
      | inr hnoted =>
          obtain ⟨arpmsg, -, -, htable, -⟩ := hnoted
          exact Or.inr ⟨_, htable⟩

theorem limited_run {c : NetworkInterface × RequestLog} (h : Limited c.1 c.2)
    {inputs : List Input} (htime : c.2.time + elapsed inputs < 2 ^ 64) :
    let d := run (observe step noteRequests) c inputs
    Limited d.1 d.2 ∧ d.2.time = c.2.time + elapsed inputs := by
  induction inputs generalizing c with
  | nil => exact ⟨h, rfl⟩
  | cons input inputs ih =>
      have hsum := elapsed_cons input inputs
      have hnext : c.2.time + elapsed [input] + elapsed inputs < 2 ^ 64 := by omega
      obtain ⟨hlimited, htotal⟩ := ih (c := observe step noteRequests c input)
        (limited_step h (by omega)) hnext
      refine ⟨hlimited, htotal.trans ?_⟩
      rw [hsum, ← Nat.add_assoc]
      rfl

/-- In every run of less than `2 ^ 64` milliseconds, two requests for one IP address are
at least five seconds apart. -/
theorem arp_requests_rate_limited (ethernetAddress : EthernetAddress) (ipAddress : Address)
    {inputs : List Input} (htime : elapsed inputs < 2 ^ 64) :
    let log := (loggedRun ethernetAddress ipAddress inputs).2
    log.time = elapsed inputs ∧
      log.requests.Pairwise fun earlier later =>
        earlier.2 = later.2 → earlier.1 + 5000 ≤ later.1 := by
  have hstart := limited_start ethernetAddress ipAddress
  have hfit : ({} : RequestLog).time + elapsed inputs < 2 ^ 64 := by simpa using htime
  obtain ⟨hlimited, htotal⟩ := limited_run (c := (start ethernetAddress ipAddress, {}))
    hstart hfit
  refine ⟨?_, hlimited.spaced⟩
  rw [loggedRun, htotal]
  exact Nat.zero_add _

/-- Two datagrams for one address at once and a third after five seconds make two
requests. -/
theorem arp_requests_rate_limited_pending :
    let dgram : InternetDatagram := { header := { len := 20, dst := 8 } }
    let inputs : List Input := [.sendDatagram dgram ⟨7⟩, .tick 4999, .sendDatagram dgram ⟨7⟩,
      .tick 1, .sendDatagram dgram ⟨7⟩]
    let log := (loggedRun #v[2, 0, 0, 0, 0, 1] ⟨1⟩ inputs).2
    log.requests = [(0, 7), (5000, 7)] ∧ log.time = 5000 ∧
      log.requests.Pairwise fun earlier later =>
        earlier.2 = later.2 → earlier.1 + 5000 ≤ later.1 :=
  ⟨by decide +kernel, arp_requests_rate_limited _ _ (by decide)⟩

end NetworkInterface
end Minnow
