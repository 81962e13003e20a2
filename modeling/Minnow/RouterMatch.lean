import Minnow.Router

/-!
Longest-prefix match. The loop over the table picks, among the entries equal to the
masked destination, the first of greatest length; these are the entries that cover the
destination and have no bits below their prefix.
-/

namespace Minnow
namespace Router

/-- The first `prefix_length` bits of the entry and of the destination agree. -/
def Entry.covers (dst : UInt32) (e : Entry) : Bool :=
  e.routePrefix.toNat / 2 ^ (32 - e.prefixLength.toNat) ==
    dst.toNat / 2 ^ (32 - e.prefixLength.toNat)

/-- The entry has no bits below its prefix. -/
def Entry.clean (e : Entry) : Bool :=
  e.routePrefix.toNat % 2 ^ (32 - e.prefixLength.toNat) == 0

/-- The earliest entry of greatest prefix length among those with `p`. -/
def longest (p : Entry → Bool) (table : List Entry) : Option Entry :=
  (table.filter p).argmax fun e => e.prefixLength.toNat

theorem dstPrefix_toNat (dst : UInt32) {len : UInt8} (hlen : len ≤ 32) :
    (dstPrefix dst len).toNat =
      dst.toNat / 2 ^ (32 - len.toNat) * 2 ^ (32 - len.toNat) := by
  have hdst := dst.toNat_lt
  have hle : len.toNat ≤ 32 := hlen
  rw [dstPrefix]
  split
  · next hzero =>
      subst hzero
      simp only [UInt32.toNat_zero, UInt8.toNat_zero, Nat.sub_zero]
      omega
  · next hne =>
      have hpos : len.toNat ≠ 0 := fun h => hne (UInt8.toNat_inj.mp h)
      have hshift : ((32 : UInt32) - len.toUInt32).toNat = 32 - len.toNat := by
        rw [UInt32.toNat_sub_of_le]
        · simp
        · rw [UInt32.le_iff_toNat_le]
          simpa using hle
      have hmod : (32 - len.toNat) % 32 = 32 - len.toNat := Nat.mod_eq_of_lt (by omega)
      have hmul := Nat.div_mul_le_self dst.toNat (2 ^ (32 - len.toNat))
      simp only [UInt32.toNat_shiftLeft, UInt32.toNat_shiftRight, hshift, hmod,
        Nat.shiftRight_eq_div_pow, Nat.shiftLeft_eq]
      exact Nat.mod_eq_of_lt (by omega)

theorem dstPrefix_eq_iff {dst : UInt32} {e : Entry} (hlen : e.prefixLength ≤ 32) :
    dstPrefix dst e.prefixLength = e.routePrefix ↔ e.covers dst = true ∧ e.clean = true := by
  have hpos : 0 < 2 ^ (32 - e.prefixLength.toNat) := Nat.two_pow_pos _
  have hsplit := Nat.div_add_mod' e.routePrefix.toNat (2 ^ (32 - e.prefixLength.toNat))
  rw [← UInt32.toNat_inj, dstPrefix_toNat dst hlen, Entry.covers, Entry.clean, beq_iff_eq,
    beq_iff_eq]
  constructor
  · intro h
    rw [← h, Nat.mul_div_cancel _ hpos, Nat.mul_mod_left]
    exact ⟨rfl, rfl⟩
  · rintro ⟨hcovers, hclean⟩
    rw [← hcovers, ← hsplit, hclean, Nat.add_zero, Nat.mul_div_cancel _ hpos]

/-- The loop folds the entries it matches. -/
theorem matchLoop_eq (dst : UInt32) (best : Option Entry) (table : List Entry) :
    matchLoop dst best table =
      (table.filter fun e => dstPrefix dst e.prefixLength = e.routePrefix).foldl
        (List.argAux fun b c => c.prefixLength.toNat < b.prefixLength.toNat) best := by
  induction table generalizing best with
  | nil => rfl
  | cons e rest ih =>
      unfold matchLoop
      by_cases hmatch : dstPrefix dst e.prefixLength = e.routePrefix
      · rw [if_pos hmatch, List.filter_cons_of_pos (by simpa using hmatch), List.foldl_cons]
        cases best with
        | none => exact ih (some e)
        | some b =>
            simp only [List.argAux, UInt8.lt_iff_toNat_lt]
            split <;> exact ih _
      · rw [if_neg hmatch, List.filter_cons_of_neg (by simpa using hmatch)]
        exact ih best

theorem mem_of_matchLoop {dst : UInt32} {table : List Entry} {e : Entry}
    (h : matchLoop dst none table = some e) : e ∈ table := by
  rw [matchLoop_eq] at h
  exact (List.mem_filter.mp (List.argmax_mem h)).1

theorem matchLoop_eq_longest (dst : UInt32) {table : List Entry}
    (hlen : ∀ e ∈ table, e.prefixLength ≤ 32) :
    matchLoop dst none table = longest (fun e => e.covers dst && e.clean) table := by
  rw [matchLoop_eq, longest, List.argmax]
  congr 1
  apply List.filter_congr
  intro e he
  rw [Bool.eq_iff_iff, decide_eq_true_iff, Bool.and_eq_true]
  exact dstPrefix_eq_iff (hlen e he)

theorem longest_eq_none {p : Entry → Bool} {table : List Entry} :
    longest p table = none ↔ ∀ e ∈ table, p e = false := by
  rw [longest, List.argmax_eq_none, List.filter_eq_nil_iff]
  simp

/-- What `route` is to do with a consumed datagram: the call it makes. -/
structure LongestPrefixMatch (table : List Entry) (d : InternetDatagram)
    (call : Option SendCall) : Prop where
  expired : d.header.ttl ≤ 1 → call = none
  unmatched : (∀ e ∈ table, e.covers d.header.dst = false) → call = none
  matched : 1 < d.header.ttl → ∀ e, longest (Entry.covers d.header.dst) table = some e →
    ∃ cksum, call = some {
      interfaceNum := e.interfaceNum
      dgram := { d with header := { d.header with ttl := d.header.ttl - 1, cksum } }
      nextHop := e.nextHop.getD ⟨d.header.dst⟩ }

/-- Among the entries that cover the destination, the longest one with no bits below its
prefix leads where the longest one leads. -/
def CleanLeadsThere (table : List Entry) (d : InternetDatagram) : Prop :=
  1 < d.header.ttl → ∀ e, longest (Entry.covers d.header.dst) table = some e →
    ∃ c, longest (fun e => e.covers d.header.dst && e.clean) table = some c ∧
      c.interfaceNum = e.interfaceNum ∧
      c.nextHop.getD ⟨d.header.dst⟩ = e.nextHop.getD ⟨d.header.dst⟩

/-- The call made for a datagram. -/
def forwardCall (table : List Entry) (d : InternetDatagram) : Option SendCall :=
  match forward table d with
  | .ok call => call
  | .error _ => none

theorem forward_expired (table : List Entry) {d : InternetDatagram} (httl : d.header.ttl ≤ 1) :
    forward table d = .ok none := by
  apply if_pos
  have hle : d.header.ttl.toNat ≤ 1 := httl
  cases Nat.le_one_iff_eq_zero_or_eq_one.mp hle with
  | inl h => exact Or.inl (UInt8.toNat_inj.mp h)
  | inr h =>
      right
      rw [show d.header.ttl = 1 from UInt8.toNat_inj.mp h]
      rfl

theorem forward_live (table : List Entry) {d : InternetDatagram} (hver : d.header.ver = 4)
    (httl : 1 < d.header.ttl) :
    ∃ cksum, forward table d = .ok
      ((matchLoop d.header.dst none table).map fun c => {
        interfaceNum := c.interfaceNum
        dgram := { d with header := { d.header with ttl := d.header.ttl - 1, cksum } }
        nextHop := c.nextHop.getD ⟨d.header.dst⟩ }) := by
  obtain ⟨cksum, hcksum⟩ := IPv4Header.computeChecksum_ok
    (h := { d.header with ttl := d.header.ttl - 1 }) hver
  refine ⟨cksum, ?_⟩
  have hlt : 1 < d.header.ttl.toNat := httl
  have hlive : ¬ (d.header.ttl = 0 ∨ d.header.ttl - 1 = 0) := by
    rintro (h | h)
    · rw [h] at hlt
      exact absurd hlt (by decide)
    · have hone : d.header.ttl = 1 := by rw [← UInt8.sub_add_cancel d.header.ttl 1, h]; rfl
      rw [hone] at hlt
      exact absurd hlt (by decide)
  rw [forward, if_neg hlive]
  dsimp only
  cases matchLoop d.header.dst none table with
  | none => rfl
  | some c => simp only [hcksum]; rfl

theorem forward_ok (table : List Entry) {d : InternetDatagram} (hver : d.header.ver = 4) :
    forward table d = .ok (forwardCall table d) := by
  by_cases httl : d.header.ttl ≤ 1
  · rw [forwardCall, forward_expired table httl]
  · obtain ⟨cksum, hok⟩ := forward_live table hver (UInt8.not_le.mp httl)
    rw [forwardCall, hok]

/-- A datagram is forwarded by longest-prefix match exactly when the longest clean entry
leads where the longest entry leads. -/
theorem forwardCall_iff {table : List Entry} (hlen : ∀ e ∈ table, e.prefixLength ≤ 32)
    {d : InternetDatagram} (hver : d.header.ver = 4) :
    LongestPrefixMatch table d (forwardCall table d) ↔ CleanLeadsThere table d := by
  by_cases httl : d.header.ttl ≤ 1
  · have hdead : ¬ 1 < d.header.ttl := UInt8.not_lt.mpr httl
    rw [forwardCall, forward_expired table httl]
    exact ⟨fun _ h => absurd h hdead, fun _ => ⟨fun _ => rfl, fun _ => rfl,
      fun h => absurd h hdead⟩⟩
  · have hlive : 1 < d.header.ttl := UInt8.not_le.mp httl
    obtain ⟨cksum, hok⟩ := forward_live table hver hlive
    rw [forwardCall, hok, matchLoop_eq_longest d.header.dst hlen]
    constructor
    · intro h _ e he
      obtain ⟨cksum', hcall⟩ := h.matched hlive e he
      obtain ⟨c, hc, hsame⟩ := Option.map_eq_some_iff.mp hcall
      rw [SendCall.mk.injEq] at hsame
      exact ⟨c, hc, hsame.1, hsame.2.2⟩
    · intro h
      refine ⟨fun hdead => absurd hdead httl, fun hnone => ?_, fun _ e he => ?_⟩
      · have : longest (fun e => e.covers d.header.dst && e.clean) table = none := by
          rw [longest_eq_none]
          intro e he
          rw [hnone e he, Bool.false_and]
        simp only [this, Option.map_none]
      · obtain ⟨c, hc, hnum, hhop⟩ := h hlive e he
        refine ⟨cksum, ?_⟩
        simp only [hc, Option.map_some, hnum, hhop]

/-- A call that `forward` has decided on, for an entry that names an interface, goes
through. -/
theorem forwardCall_valid {table : List Entry} {interfaces : Nat}
    (hnum : ∀ e ∈ table, e.interfaceNum < interfaces) {d : InternetDatagram}
    (hver : d.header.ver = 4) {call : SendCall}
    (hcall : forwardCall table d = some call) :
    call.interfaceNum < interfaces ∧ call.dgram.header.ver = 4 := by
  by_cases httl : d.header.ttl ≤ 1
  · rw [forwardCall, forward_expired table httl] at hcall
    cases hcall
  · obtain ⟨cksum, hok⟩ := forward_live table hver (UInt8.not_le.mp httl)
    rw [forwardCall, hok] at hcall
    obtain ⟨c, hc, rfl⟩ := Option.map_eq_some_iff.mp hcall
    exact ⟨hnum c (mem_of_matchLoop hc), hver⟩

def queues (r : Router) : List (List InternetDatagram) :=
  r.interfaces.map AsyncNetworkInterface.datagramsIn

/-- The datagrams that `route` takes, one from the front of each queue. -/
def consumed (r : Router) : List InternetDatagram := r.queues.filterMap List.head?

theorem sendDatagram_ok (n : NetworkInterface) {dgram : InternetDatagram}
    (hver : dgram.header.ver = 4) (nextHop : Address) :
    ∃ n', n.sendDatagram dgram nextHop = .ok n' := by
  obtain ⟨payload, hpayload⟩ := IPv4Datagram.serialize_ok hver
  rw [NetworkInterface.sendDatagram]
  split
  · exact ⟨_, rfl⟩
  · rw [hpayload]
    dsimp only
    split
    · exact ⟨_, rfl⟩
    · exact ⟨_, rfl⟩

theorem perform_ok (r : Router) {call : SendCall}
    (hnum : call.interfaceNum < r.interfaces.length) (hver : call.dgram.header.ver = 4) :
    ∃ r', r.perform call = .ok r' ∧ r'.routingTable = r.routingTable ∧
      r'.queues = r.queues := by
  obtain ⟨n, hsend⟩ := sendDatagram_ok (r.interfaces[call.interfaceNum]).toNetworkInterface
    hver call.nextHop
  have hperform : r.perform call = .ok { r with
      interfaces := r.interfaces.set call.interfaceNum
        { r.interfaces[call.interfaceNum] with toNetworkInterface := n } } := by
    simp only [perform, List.getElem?_eq_getElem hnum, hsend]
  refine ⟨_, hperform, rfl, ?_⟩
  simp only [queues, List.map_set]
  apply List.ext_getElem (by simp)
  intro j _ _
  rw [List.getElem_set]
  split
  · next h => simp [h]
  · rfl

theorem routeFrom_ok {r : Router}
    (hnum : ∀ e ∈ r.routingTable, e.interfaceNum < r.interfaces.length) {i : Nat}
    (hi : i < r.queues.length) :
    ∃ r', r.routeFrom i = .ok (r', (r.queues[i].head?.bind
        (forwardCall r.routingTable)).toList) ∧
      r'.routingTable = r.routingTable ∧ r'.queues = r.queues.set i r.queues[i].tail := by
  have hi' : i < r.interfaces.length := by rwa [queues, List.length_map] at hi
  have hqueue : r.queues[i] = (r.interfaces[i]).datagramsIn := by simp [queues]
  have hpop : (r.interfaces.set i (r.interfaces[i]).popDatagram).map
      AsyncNetworkInterface.datagramsIn = r.queues.set i r.queues[i].tail := by
    rw [hqueue, List.map_set]
    rfl
  simp only [routeFrom, List.getElem?_eq_getElem hi', AsyncNetworkInterface.maybeReceive]
  cases hhead : (r.interfaces[i]).datagramsIn.head? with
  | none =>
      rw [hqueue, hhead]
      rw [hqueue] at hpop
      exact ⟨_, rfl, rfl, hpop⟩
  | some d =>
      have hver := (r.interfaces[i]).received d (List.mem_of_mem_head? hhead)
      rw [hqueue, hhead, Option.bind_some]
      rw [hqueue] at hpop
      simp only [forward_ok r.routingTable hver]
      cases hcall : forwardCall r.routingTable d with
      | none => exact ⟨_, rfl, rfl, hpop⟩
      | some call =>
          obtain ⟨hvalid, hcallVer⟩ := forwardCall_valid hnum hver hcall
          obtain ⟨r', hperform, htable, hqueues⟩ := perform_ok
            { r with interfaces := r.interfaces.set i (r.interfaces[i]).popDatagram }
            (by rwa [List.length_set]) hcallVer
          refine ⟨r', ?_, htable, hqueues.trans hpop⟩
          simp only [hperform]
          rfl

/-- The loop takes the front of every queue from the `i`-th on. -/
theorem routeLoop_ok {r : Router}
    (hnum : ∀ e ∈ r.routingTable, e.interfaceNum < r.interfaces.length) (i turns : Nat)
    (hturns : i + turns = r.queues.length) :
    ∃ r', r.routeLoop i turns = .ok (r', ((r.queues.drop i).filterMap List.head?).filterMap
        (forwardCall r.routingTable)) ∧
      r'.queues = r.queues.take i ++ (r.queues.drop i).map List.tail := by
  induction turns generalizing r i with
  | zero =>
      rw [List.drop_of_length_le (by omega), List.take_of_length_le (by omega)]
      exact ⟨r, rfl, by simp⟩
  | succ turns ih =>
      have hi : i < r.queues.length := by omega
      obtain ⟨r₁, hfrom, htable, hqueues⟩ := routeFrom_ok hnum hi
      have hsize : r₁.queues.length = r.queues.length := by rw [hqueues, List.length_set]
      have hinterfaces : r₁.interfaces.length = r.interfaces.length := by
        simpa [queues] using hsize
      obtain ⟨r', hrest, hleft⟩ := ih (r := r₁)
        (by rw [htable, hinterfaces]; exact hnum) (i + 1) (by omega)
      rw [htable, hqueues, List.drop_set_of_lt (Nat.lt_succ_self i)] at hrest
      rw [hqueues, List.drop_set_of_lt (Nat.lt_succ_self i)] at hleft
      have hsplit : r'.queues = r.queues.take i ++ (r.queues.drop i).map List.tail := by
        rw [hleft, List.take_add_one, List.take_set_of_le (Nat.le_refl i),
          List.getElem?_set_self hi, Option.toList_some, List.append_assoc,
          List.singleton_append, List.drop_eq_getElem_cons hi, List.map_cons]
      refine ⟨r', ?_, hsplit⟩
      rw [routeLoop, hfrom]
      simp only [hrest]
      rw [List.drop_eq_getElem_cons hi]
      cases hhead : r.queues[i].head? with
      | none =>
          simp only [List.filterMap_cons, hhead, Option.bind_none, Option.toList_none,
            List.nil_append]
      | some d =>
          cases hcall : forwardCall r.routingTable d <;>
            simp only [List.filterMap_cons, hhead, hcall, Option.bind_some, Option.toList_none,
              Option.toList_some, List.nil_append, List.singleton_append]

/-- An entry with bits below its prefix never matches: the datagram is dropped. -/
theorem unclean_entry_ignored :
    let n : NetworkInterface := { ethernetAddress := #v[2, 0, 0, 0, 0, 1], ipAddress := ⟨1⟩ }
    let d : InternetDatagram := { header := { len := 20, dst := 0x801e0102 } }
    let r : Router := ⟨[⟨n, [d], by decide⟩], [⟨0x801e4cff, 16, some ⟨0x801e0001⟩, 0⟩]⟩
    r.route.map Prod.snd = .ok [] ∧ d ∈ r.consumed ∧
      ¬ LongestPrefixMatch r.routingTable d none := by
  intro n d r
  refine ⟨by decide +kernel, List.mem_singleton.mpr rfl, fun h => ?_⟩
  obtain ⟨cksum, hcall⟩ := h.matched (by decide) ⟨0x801e4cff, 16, some ⟨0x801e0001⟩, 0⟩
    (by decide +kernel)
  cases hcall

/-- `route` gives each consumed datagram to at most one `send_datagram`, in the order of
the interfaces, and does so by longest-prefix match exactly when the longest clean entry
leads where the longest entry leads. -/
theorem route_longest_prefix_iff {r : Router}
    (hlen : ∀ e ∈ r.routingTable, e.prefixLength ≤ 32)
    (hnum : ∀ e ∈ r.routingTable, e.interfaceNum < r.interfaces.length) :
    (∃ r', r.route = .ok (r', r.consumed.filterMap (forwardCall r.routingTable))) ∧
      ∀ d ∈ r.consumed, LongestPrefixMatch r.routingTable d (forwardCall r.routingTable d) ↔
        CleanLeadsThere r.routingTable d := by
  constructor
  · obtain ⟨r', hroute, -⟩ := routeLoop_ok hnum 0 r.interfaces.length (by simp [queues])
    exact ⟨r', by rwa [List.drop_zero] at hroute⟩
  · intro d hd
    obtain ⟨queue, hqueue, hhead⟩ := List.mem_filterMap.mp hd
    obtain ⟨itf, -, rfl⟩ := List.mem_map.mp hqueue
    exact forwardCall_iff hlen (itf.received d (List.mem_of_mem_head? hhead))

theorem route_longest_prefix_default :
    let n : NetworkInterface := { ethernetAddress := #v[2, 0, 0, 0, 0, 1], ipAddress := ⟨1⟩ }
    let d : InternetDatagram := { header := { len := 20, dst := 0x0a000001 } }
    let itf : AsyncNetworkInterface := ⟨n, [d], by decide⟩
    let r : Router := ⟨[itf], [⟨0, 0, some ⟨7⟩, 0⟩, ⟨0x0a000000, 8, none, 0⟩]⟩
    LongestPrefixMatch r.routingTable d (forwardCall r.routingTable d) := by
  intro n d itf r
  refine ((route_longest_prefix_iff (r := r) (by decide) (by decide)).2 d
    (List.mem_singleton.mpr rfl)).mpr ?_
  intro _ e he
  exact ⟨e, by rw [← he]; decide +kernel, rfl, rfl⟩

end Router
end Minnow
