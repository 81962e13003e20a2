import Minnow.RouterMatch

/-!
What a call of `route` leaves waiting. The loop asks each interface for one datagram, so
it takes the front of every queue and leaves the rest.
-/

namespace Minnow
namespace Router

/-- All queues end up empty, and the calls of `send_datagram` are those for the waiting
datagrams, each of them handled once, those of one interface in the order of arrival. -/
structure Drains (r r' : Router) (calls : List SendCall) : Prop where
  empty : ∀ queue ∈ r'.queues, queue = []
  handled : ∃ handled : List (Nat × InternetDatagram),
    (∀ i, (handled.filter (·.1 == i)).map Prod.snd = (r.queues[i]?).getD []) ∧
      calls = handled.filterMap fun p => forwardCall r.routingTable p.2

/-- The queues one after another, each entry with the number of its queue. -/
def tagged {α : Type} : Nat → List (List α) → List (Nat × α)
  | _, [] => []
  | i, queue :: queues => queue.map (i, ·) ++ tagged (i + 1) queues

theorem tagged_snd {α : Type} (i : Nat) (queues : List (List α)) :
    (tagged i queues).map Prod.snd = queues.flatten := by
  induction queues generalizing i with
  | nil => rfl
  | cons queue queues ih => simp [tagged, ih]

theorem tagged_filter {α : Type} (i : Nat) (queues : List (List α)) (j : Nat) :
    ((tagged i queues).filter (·.1 == j)).map Prod.snd =
      if i ≤ j then (queues[j - i]?).getD [] else [] := by
  induction queues generalizing i with
  | nil => simp [tagged]
  | cons queue queues ih =>
      rw [tagged, List.filter_append, List.map_append, ih]
      rcases Nat.lt_trichotomy i j with hlt | rfl | hgt
      · have hskip : (queue.map (i, ·)).filter (·.1 == j) = [] := by
          simp [List.filter_eq_nil_iff]
          omega
        rw [hskip, if_pos (by omega), if_pos (by omega), List.map_nil, List.nil_append,
          show j - i = j - (i + 1) + 1 by omega, List.getElem?_cons_succ]
      · have hkeep : (queue.map (i, ·)).filter (·.1 == i) = queue.map (i, ·) := by
          simp [List.filter_eq_self]
        rw [hkeep, if_neg (by omega), if_pos (Nat.le_refl i), Nat.sub_self,
          List.getElem?_cons_zero, List.append_nil, List.map_map]
        simp
      · have hskip : (queue.map (i, ·)).filter (·.1 == j) = [] := by
          simp [List.filter_eq_nil_iff]
          omega
        rw [hskip, if_neg (by omega), if_neg (by omega)]
        rfl

theorem filterMap_head_of_short {α : Type} {queues : List (List α)}
    (h : ∀ queue ∈ queues, queue.length ≤ 1) : queues.filterMap List.head? = queues.flatten := by
  induction queues with
  | nil => rfl
  | cons queue queues ih =>
      have hrest := ih fun q hq => h q (List.mem_cons_of_mem _ hq)
      have hqueue := h queue List.mem_cons_self
      match queue, hqueue with
      | [], _ => exact hrest
      | [d], _ => exact congrArg (d :: ·) hrest
      | _ :: _ :: _, hlong => simp at hlong

/-- A datagram is dropped exactly when its TTL is used up or nothing matches. -/
theorem forwardCall_eq_none {table : List Entry} {d : InternetDatagram}
    (hver : d.header.ver = 4) :
    forwardCall table d = none ↔ d.header.ttl ≤ 1 ∨
      ∀ e ∈ table, dstPrefix d.header.dst e.prefixLength ≠ e.routePrefix := by
  by_cases httl : d.header.ttl ≤ 1
  · rw [forwardCall, forward_expired table httl]
    exact ⟨fun _ => Or.inl httl, fun _ => rfl⟩
  · obtain ⟨cksum, hok⟩ := forward_live table hver (UInt8.not_le.mp httl)
    have hnone : matchLoop d.header.dst none table = none ↔
        ∀ e ∈ table, dstPrefix d.header.dst e.prefixLength ≠ e.routePrefix := by
      rw [matchLoop_eq]
      exact List.argmax_eq_none.trans (by simp [List.filter_eq_nil_iff])
    simp only [forwardCall, hok, Option.map_eq_none_iff, hnone, httl, false_or]

/-- What is sent on is the datagram, with its TTL counted down and a new checksum. -/
theorem forwardCall_eq_some {table : List Entry} {d : InternetDatagram}
    (hver : d.header.ver = 4) {call : SendCall} (h : forwardCall table d = some call) :
    ∃ cksum, call.dgram =
      { d with header := { d.header with ttl := d.header.ttl - 1, cksum } } := by
  by_cases httl : d.header.ttl ≤ 1
  · rw [forwardCall, forward_expired table httl] at h
    cases h
  · obtain ⟨cksum, hok⟩ := forward_live table hver (UInt8.not_le.mp httl)
    rw [forwardCall, hok] at h
    obtain ⟨c, -, rfl⟩ := Option.map_eq_some_iff.mp h
    exact ⟨cksum, rfl⟩

theorem route_ok {r : Router}
    (hnum : ∀ e ∈ r.routingTable, e.interfaceNum < r.interfaces.length) :
    ∃ r', r.route = .ok (r', r.consumed.filterMap (forwardCall r.routingTable)) ∧
      r'.queues = r.queues.map List.tail := by
  obtain ⟨r', hroute, hqueues⟩ := routeLoop_ok hnum 0 r.interfaces.length (by simp [queues])
  rw [List.drop_zero] at hroute hqueues
  exact ⟨r', hroute, by rw [hqueues, List.take_zero, List.nil_append]⟩

/-- The second of two datagrams waiting in one interface is left there. -/
theorem second_datagram_left_waiting :
    let n : NetworkInterface := { ethernetAddress := #v[2, 0, 0, 0, 0, 1], ipAddress := ⟨1⟩ }
    let d : InternetDatagram := { header := { len := 20, dst := 0x0a000001 } }
    let r : Router := ⟨[⟨n, [d, d], by decide⟩], [⟨0, 0, some ⟨7⟩, 0⟩]⟩
    ∀ r' calls, r.route = .ok (r', calls) → ¬ Drains r r' calls := by
  intro n d r r' calls hroute hdrains
  obtain ⟨r₁, hok, hqueues⟩ := route_ok (r := r) (by decide)
  rw [hroute, Except.ok.injEq, Prod.mk.injEq] at hok
  have hleft : [d] ∈ r'.queues := by
    rw [hok.1, hqueues]
    exact List.mem_singleton.mpr rfl
  exact absurd (hdrains.empty [d] hleft) (List.cons_ne_nil d [])

/-- A call of `route` takes one datagram from every queue. It drains the router exactly
when no queue holds more than one. -/
theorem route_drains_iff {r : Router}
    (hnum : ∀ e ∈ r.routingTable, e.interfaceNum < r.interfaces.length) :
    ∃ r' calls, r.route = .ok (r', calls) ∧
      r'.queues = r.queues.map List.tail ∧
      (Drains r r' calls ↔ ∀ queue ∈ r.queues, queue.length ≤ 1) ∧
      ∀ d ∈ r.queues.flatten,
        (forwardCall r.routingTable d = none ↔ d.header.ttl ≤ 1 ∨
          ∀ e ∈ r.routingTable, dstPrefix d.header.dst e.prefixLength ≠ e.routePrefix) ∧
        ∀ call, forwardCall r.routingTable d = some call → ∃ cksum, call.dgram =
          { d with header := { d.header with ttl := d.header.ttl - 1, cksum } } := by
  obtain ⟨r', hroute, hqueues⟩ := route_ok hnum
  refine ⟨r', _, hroute, hqueues, ⟨?_, ?_⟩, ?_⟩
  · intro hdrains queue hqueue
    have := hdrains.empty queue.tail (hqueues ▸ List.mem_map_of_mem hqueue)
    have hlen := congrArg List.length this
    rw [List.length_tail, List.length_nil] at hlen
    omega
  · intro hshort
    refine ⟨?_, tagged 0 r.queues, ?_, ?_⟩
    · intro queue hqueue
      rw [hqueues] at hqueue
      obtain ⟨q, hq, rfl⟩ := List.mem_map.mp hqueue
      apply List.eq_nil_of_length_eq_zero
      have := hshort q hq
      rw [List.length_tail]
      omega
    · intro i
      rw [tagged_filter, if_pos (Nat.zero_le i), Nat.sub_zero]
    · rw [consumed, filterMap_head_of_short hshort, ← tagged_snd 0 r.queues,
        List.filterMap_map]
      rfl
  · intro d hd
    obtain ⟨queue, hqueue, hmem⟩ := List.mem_flatten.mp hd
    obtain ⟨itf, -, rfl⟩ := List.mem_map.mp hqueue
    have hver := itf.received d hmem
    exact ⟨forwardCall_eq_none hver, fun call hcall => forwardCall_eq_some hver hcall⟩

/-- Two interfaces with a datagram each, one of them with nowhere to go. -/
theorem route_drains_single :
    let n : NetworkInterface := { ethernetAddress := #v[2, 0, 0, 0, 0, 1], ipAddress := ⟨1⟩ }
    let d : InternetDatagram := { header := { len := 20, dst := 0x0a000001 } }
    let e : InternetDatagram := { header := { len := 20, dst := 0x0b000001 } }
    let r : Router :=
      ⟨[⟨n, [d], by decide⟩, ⟨n, [e], by decide⟩], [⟨0x0a000000, 8, some ⟨7⟩, 1⟩]⟩
    ∃ r' calls, r.route = .ok (r', calls) ∧ Drains r r' calls := by
  intro n d e r
  obtain ⟨r', calls, hroute, -, hdrains, -⟩ := route_drains_iff (r := r) (by decide)
  exact ⟨r', calls, hroute, hdrains.mpr (by decide)⟩

end Router
end Minnow
