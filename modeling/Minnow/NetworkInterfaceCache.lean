import Minnow.NetworkInterfaceLearned

/-!
The ARP table against its history: an address is mapped exactly as long as the last ARP
message about it is no older than thirty seconds. Each operation touches the entries of
one IP address, or all of them one by one.
-/

namespace Minnow
open Transition
namespace NetworkInterface

/-- The loop of `tick` over the entries of the table, with its erasures. -/
def tickLoop (msSinceLastTick : Nat) :
    List (UInt32 × EthernetAddress × Nat) → List (UInt32 × EthernetAddress × Nat)
  | [] => []
  | (ip, mapping) :: rest =>
      match ageBy msSinceLastTick mapping with
      | none => tickLoop msSinceLastTick rest
      | some mapping => (ip, mapping) :: tickLoop msSinceLastTick rest

theorem lookup_tickLoop_eq_none {ms : Nat} {entries : List (UInt32 × EthernetAddress × Nat)}
    {ip : UInt32} (h : ip ∉ entries.map Prod.fst) : (tickLoop ms entries).lookup ip = none := by
  induction entries with
  | nil => rfl
  | cons entry rest ih =>
      obtain ⟨hne, hrest⟩ := not_or.mp (List.mem_cons.not.mp h)
      rw [tickLoop]
      split
      · exact ih hrest
      · rw [List.lookup_cons, beq_eq_false_iff_ne.mpr hne]
        exact ih hrest

/-- Whatever the order of the entries, the loop ages each mapping by itself. -/
theorem tick_eq_tickLoop {n : NetworkInterface} {entries : List (UInt32 × EthernetAddress × Nat)}
    (hkeys : (entries.map Prod.fst).Nodup) (htable : n.arpTable = fun ip => entries.lookup ip)
    (ms : Nat) : (n.tick ms).arpTable = fun ip => (tickLoop ms entries).lookup ip := by
  funext ip
  simp only [tick, htable]
  clear htable
  induction entries with
  | nil => rfl
  | cons entry rest ih =>
      obtain ⟨key, mapping⟩ := entry
      obtain ⟨hkey, hrest⟩ := List.nodup_cons.mp hkeys
      rw [tickLoop, List.lookup_cons]
      by_cases hip : ip = key
      · subst hip
        rw [beq_self_eq_true, Option.bind_some]
        cases ageBy ms mapping with
        | none => exact (lookup_tickLoop_eq_none hkey).symm
        | some mapping => rw [List.lookup_cons, beq_self_eq_true]
      · rw [beq_eq_false_iff_ne.mpr hip, ih hrest]
        cases ageBy ms mapping with
        | none => rfl
        | some mapping => rw [List.lookup_cons, beq_eq_false_iff_ne.mpr hip]

/-- What the history has learned in the last thirty seconds is in the table. -/
def Retained (n : NetworkInterface) (h : History) : Prop :=
  ∀ ip, ∀ m ∈ h.learned ip, m.2 ≤ 30000 → n.arpTable ip = some m

/-- A send changes the table at most by a pending entry for a next hop it does not know. -/
theorem send_table (n : NetworkInterface) (dgram : InternetDatagram) (nextHop : Address) :
    (n.step (.sendDatagram dgram nextHop)).arpTable = n.arpTable ∨
      n.known nextHop.ipv4Numeric = none ∧ (n.step (.sendDatagram dgram nextHop)).arpTable =
        Function.update n.arpTable nextHop.ipv4Numeric (some (ETHERNET_BROADCAST, 0)) := by
  rcases sendDatagram_cases n dgram nextHop with
    ⟨-, hsend⟩ | ⟨-, e, hsend⟩ | ⟨-, payload, -, address, -, hsend⟩ |
      ⟨-, payload, -, hunknown, request, -, hsend⟩
  · exact Or.inl (by rw [step, hsend])
  · exact Or.inl (by rw [step, hsend])
  · exact Or.inl (by rw [step, hsend])
  · exact Or.inr ⟨hunknown, by rw [step, hsend]⟩

/-- A live mapping survives every send. -/
theorem live_after_send {n : NetworkInterface} {ip : UInt32} {m : EthernetAddress × Nat}
    (hentry : n.arpTable ip = some m) (hlive : m.1 ≠ ETHERNET_BROADCAST)
    (dgram : InternetDatagram) (nextHop : Address) :
    (n.step (.sendDatagram dgram nextHop)).arpTable ip = some m := by
  cases send_table n dgram nextHop with
  | inl htable =>
      rw [htable]
      exact hentry
  | inr hasked =>
      obtain ⟨hunknown, htable⟩ := hasked
      have hother : ip ≠ nextHop.ipv4Numeric := by
        rintro rfl
        simp [known, hentry, hlive] at hunknown
      rw [htable, Function.update_of_ne hother]
      exact hentry

theorem send_other (n : NetworkInterface) (dgram : InternetDatagram) {nextHop : Address}
    {ip : UInt32} (hip : ip ≠ nextHop.ipv4Numeric) :
    (n.step (.sendDatagram dgram nextHop)).arpTable ip = n.arpTable ip := by
  cases send_table n dgram nextHop with
  | inl htable =>
      rw [htable]
  | inr hasked =>
      obtain ⟨-, htable⟩ := hasked
      rw [htable, Function.update_of_ne hip]

theorem recv_table (n : NetworkInterface) (frame : EthernetFrame) :
    (n.step (.recvFrame frame)).arpTable = n.tableAfter frame := by
  cases recvFrame_cases n frame with
  | inl hplain =>
      obtain ⟨-, hstep, -, hnone⟩ := hplain
      rw [hstep, tableAfter, hnone]
  | inr hdrains =>
      obtain ⟨-, -, answers, -, hstep, -⟩ := hdrains
      rw [hstep, drain]

theorem recv_other (n : NetworkInterface) {frame : EthernetFrame} {ip : UInt32}
    (hip : ∀ arpmsg ∈ acceptedArp frame, arpmsg.senderIpAddress ≠ ip) :
    (n.step (.recvFrame frame)).arpTable ip = n.arpTable ip := by
  rw [recv_table]
  cases tableAfter_cases n frame {} ip with
  | inl hkept =>
      obtain ⟨-, htable, -⟩ := hkept
      exact htable
  | inr hnoted =>
      obtain ⟨arpmsg, harp, hsame, -⟩ := hnoted
      exact absurd hsame (hip arpmsg harp)

theorem retained_step {c : NetworkInterface × History} (hm : Mapped c.1 c.2)
    (hr : Retained c.1 c.2) {input : Input} (hregular : Regular c input) :
    Retained (c.1.step input) (note c.1 input c.2) := by
  cases input with
  | sendDatagram dgram nextHop =>
      have hlearned : (note c.1 (.sendDatagram dgram nextHop) c.2).learned = c.2.learned := by
        simp only [note]
        split <;> rfl
      intro ip m hmem hage
      rw [hlearned] at hmem
      exact live_after_send (hr ip m hmem hage) (hm.unicast ip m hmem) dgram nextHop
  | recvFrame frame =>
      intro ip m hmem hage
      rw [recv_table]
      cases tableAfter_cases c.1 frame c.2 ip with
      | inl hkept =>
          obtain ⟨-, htable, hlearned⟩ := hkept
          rw [htable]
          exact hr ip m (hlearned ▸ hmem) hage
      | inr hnoted =>
          obtain ⟨arpmsg, -, -, htable, hlearned⟩ := hnoted
          rw [htable]
          exact hlearned.symm.trans hmem
  | tick ms =>
      intro ip m hmem hage
      obtain ⟨m₀, hm₀, rfl⟩ := Option.map_eq_some_iff.mp hmem
      have hentry := hr ip m₀ hm₀ (by simp only at hage; omega)
      have hfits := hregular ip m₀ hentry
      simp only at hage
      simp only [step, tick, hentry, Option.bind_some, ageBy, u64_of_lt hfits,
        if_neg (Nat.not_lt.mpr hage)]
  | maybeSend =>
      simp only [step, maybeSend]
      split <;> exact hr

/-- The time that passes in a run. -/
def elapsed : List Input → Nat
  | [] => 0
  | .tick ms :: inputs => ms + elapsed inputs
  | _ :: inputs => elapsed inputs

theorem elapsed_cons (input : Input) (inputs : List Input) :
    elapsed (input :: inputs) = elapsed [input] + elapsed inputs := by
  cases input <;> simp [elapsed]

/-- No entry is older than the run. -/
def NotOlder (n : NetworkInterface) (time : Nat) : Prop :=
  ∀ ip, ∀ m ∈ n.arpTable ip, m.2 ≤ time

theorem notOlder_step {n : NetworkInterface} {time : Nat} (h : NotOlder n time)
    (input : Input) : NotOlder (n.step input) (time + elapsed [input]) := by
  intro ip m hmem
  cases input with
  | sendDatagram dgram nextHop =>
      cases send_table n dgram nextHop with
      | inl htable =>
          rw [htable] at hmem
          exact h ip m hmem
      | inr hasked =>
          obtain ⟨-, htable⟩ := hasked
          rw [htable] at hmem
          by_cases hip : ip = nextHop.ipv4Numeric
          · rw [hip, Function.update_self, Option.mem_def, Option.some.injEq] at hmem
            rw [← hmem]
            exact Nat.zero_le _
          · rw [Function.update_of_ne hip] at hmem
            exact h ip m hmem
  | recvFrame frame =>
      rw [recv_table] at hmem
      cases tableAfter_cases n frame {} ip with
      | inl hkept =>
          obtain ⟨-, htable, -⟩ := hkept
          exact h ip m (htable ▸ hmem)
      | inr hnoted =>
          obtain ⟨arpmsg, -, -, htable, -⟩ := hnoted
          obtain rfl := Option.some.inj (htable.symm.trans hmem)
          exact Nat.zero_le _
  | tick ms =>
      obtain ⟨m₀, hm₀, hage⟩ := Option.bind_eq_some_iff.mp hmem
      have hle := h ip m₀ hm₀
      have hu64 := u64_le (m₀.2 + ms)
      rw [ageBy] at hage
      split at hage
      · cases hage
      · rw [Option.some.injEq] at hage
        rw [← hage]
        simp only [elapsed]
        omega
  | maybeSend =>
      simp only [step, maybeSend] at hmem
      split at hmem <;> exact h ip m hmem

theorem notOlder_run {c : NetworkInterface × History} {time : Nat} (h : NotOlder c.1 time)
    (inputs : List Input) :
    NotOlder (run (observe step note) c inputs).1 (time + elapsed inputs) := by
  induction inputs generalizing c time with
  | nil => exact h
  | cons input inputs ih =>
      rw [elapsed_cons, ← Nat.add_assoc]
      exact ih (notOlder_step (n := c.1) h input)

/-- A run of less than `2 ^ 64` milliseconds without broadcast senders is regular. -/
theorem regular_of_elapsed {c : NetworkInterface × History} {time : Nat}
    (hage : NotOlder c.1 time) {inputs : List Input}
    (hunicast : ∀ frame, .recvFrame frame ∈ inputs → ∀ arpmsg ∈ acceptedArp frame,
      arpmsg.senderEthernetAddress ≠ ETHERNET_BROADCAST)
    (htime : time + elapsed inputs < 2 ^ 64) :
    Along (observe step note) Regular c inputs := by
  induction inputs generalizing c time with
  | nil => trivial
  | cons input inputs ih =>
      have hsum := elapsed_cons input inputs
      refine ⟨?_, ih (notOlder_step hage input) ?_ (by omega)⟩
      · cases input with
        | recvFrame frame => exact hunicast frame List.mem_cons_self
        | tick ms =>
            intro ip m hmem
            have := hage ip m hmem
            simp only [elapsed] at htime
            omega
        | sendDatagram dgram nextHop => trivial
        | maybeSend => trivial
      · exact fun frame hframe => hunicast frame (List.mem_cons_of_mem _ hframe)

theorem mapped_run (ethernetAddress : EthernetAddress) (ipAddress : Address)
    {inputs : List Input}
    (hregular : Along (observe step note) Regular (start ethernetAddress ipAddress, {})
      inputs) :
    Mapped (runFrom ethernetAddress ipAddress inputs).1
        (runFrom ethernetAddress ipAddress inputs).2 ∧
      Retained (runFrom ethernetAddress ipAddress inputs).1
        (runFrom ethernetAddress ipAddress inputs).2 := by
  apply run_invariant _ (P := fun c : NetworkInterface × History =>
    Mapped c.1 c.2 ∧ Retained c.1 c.2) _ _ hregular
  · refine ⟨⟨?_, ?_, ?_⟩, ?_⟩ <;> simp [start, Retained]
  · rintro c input ⟨hm, hr⟩ hreg
    exact ⟨mapped_step hm hreg, retained_step hm hr hreg⟩

/-- In a run of less than `2 ^ 64` milliseconds without broadcast senders the table holds
a mapping exactly if the last ARP message about the address gave it at most thirty
seconds ago, and a datagram is then sent to it at once. An operation on one IP address
leaves the others alone, and a send replaces no live mapping. -/
theorem arp_table_is_history (ethernetAddress : EthernetAddress) (ipAddress : Address)
    {inputs : List Input}
    (hunicast : ∀ frame, .recvFrame frame ∈ inputs → ∀ arpmsg ∈ acceptedArp frame,
      arpmsg.senderEthernetAddress ≠ ETHERNET_BROADCAST)
    (htime : elapsed inputs < 2 ^ 64) :
    let n := (runFrom ethernetAddress ipAddress inputs).1
    let h := (runFrom ethernetAddress ipAddress inputs).2
    (∀ ip m, n.arpTable ip = some m ∧ m.1 ≠ ETHERNET_BROADCAST ↔
        h.learned ip = some m ∧ m.2 ≤ 30000) ∧
      (∀ ip m, h.learned ip = some m → m.2 ≤ 30000 → ∀ dgram payload,
        dgram.serialize = .ok payload → n.sendDatagram dgram ⟨ip⟩ = .ok { n with
          readyToSend := n.readyToSend ++ [n.frame m.1 EthernetHeader.TYPE_IPv4 payload] }) ∧
      (∀ dgram nextHop ip, ip ≠ nextHop.ipv4Numeric →
        (n.step (.sendDatagram dgram nextHop)).arpTable ip = n.arpTable ip) ∧
      (∀ frame ip, (∀ arpmsg ∈ acceptedArp frame, arpmsg.senderIpAddress ≠ ip) →
        (n.step (.recvFrame frame)).arpTable ip = n.arpTable ip) ∧
      (∀ ms, elapsed inputs + ms < 2 ^ 64 → ∀ ip, (n.step (.tick ms)).arpTable ip =
        (n.arpTable ip).bind fun m =>
          if 30000 < m.2 + ms then none else some (m.1, m.2 + ms)) ∧
      ∀ ip m, n.arpTable ip = some m → m.1 ≠ ETHERNET_BROADCAST → ∀ dgram nextHop,
        (n.step (.sendDatagram dgram nextHop)).arpTable ip = some m := by
  intro n h
  have hfresh : NotOlder (start ethernetAddress ipAddress) 0 := by
    intro ip m hmem
    cases hmem
  obtain ⟨hm, hr⟩ : Mapped n h ∧ Retained n h := mapped_run ethernetAddress ipAddress
    (regular_of_elapsed hfresh hunicast (by omega))
  refine ⟨?_, ?_, fun dgram nextHop ip hip => send_other n dgram hip,
    fun frame ip hip => recv_other n hip, ?_,
    fun ip m hentry hlive => live_after_send hentry hlive⟩
  · intro ip m
    constructor
    · rintro ⟨hentry, hlive⟩
      exact hm.learned ip m hentry hlive
    · rintro ⟨hlearned, hage⟩
      exact ⟨hr ip m hlearned hage, hm.unicast ip m hlearned⟩
  · intro ip m hlearned hage dgram payload hpayload
    have hentry := hr ip m hlearned hage
    have hlive := hm.unicast ip m hlearned
    have hknown : n.known ip = some m.1 := by simp [known, hentry, hlive]
    have hrequested : n.requested ip = false := by simp [requested, hentry, hlive]
    simp only [sendDatagram, hrequested, Bool.false_eq_true, if_false, hpayload, hknown]
  · intro ms hms ip
    have hage : NotOlder n (0 + elapsed inputs) := notOlder_run hfresh inputs
    simp only [step, tick]
    cases hentry : n.arpTable ip with
    | none => rfl
    | some m =>
        have hle := hage ip m hentry
        rw [Option.bind_some, Option.bind_some, ageBy, u64_of_lt (by omega)]

/-- A reply, a tick that keeps its mapping and another that lets it expire. -/
theorem arp_table_is_history_expiring :
    let reply : EthernetFrame :=
      { header := ⟨#v[2, 0, 0, 0, 0, 1], #v[2, 0, 0, 0, 0, 2], EthernetHeader.TYPE_ARP⟩
        payload := [[0, 1, 8, 0, 6, 4, 0, 2, 2, 0, 0, 0, 0, 2, 0, 0, 0, 7, 2, 0, 0, 0, 0, 1,
          0, 0, 0, 1]] }
    let inputs : List Input := [.recvFrame reply, .tick 30000]
    (runFrom #v[2, 0, 0, 0, 0, 1] ⟨1⟩ inputs).1.arpTable 7 =
        some (#v[2, 0, 0, 0, 0, 2], 30000) ∧
      (((runFrom #v[2, 0, 0, 0, 0, 1] ⟨1⟩ inputs).1.step (.tick 1)).arpTable 7).isNone := by
  intro reply inputs
  have hunicast : ∀ frame, .recvFrame frame ∈ inputs → ∀ arpmsg ∈ acceptedArp frame,
      arpmsg.senderEthernetAddress ≠ ETHERNET_BROADCAST := by
    intro frame hframe arpmsg harp
    have hreply : frame = reply := by simpa [inputs] using hframe
    subst hreply
    have hall : (acceptedArp reply).all (fun m => m.senderEthernetAddress ≠ ETHERNET_BROADCAST) =
        true := by decide +kernel
    rw [harp] at hall
    simpa using hall
  obtain ⟨hmapped, -, -, -, htick, -⟩ := arp_table_is_history #v[2, 0, 0, 0, 0, 1] ⟨1⟩
    hunicast (by decide)
  have hlearned : (runFrom #v[2, 0, 0, 0, 0, 1] ⟨1⟩ inputs).2.learned 7 =
      some (#v[2, 0, 0, 0, 0, 2], 30000) := by decide +kernel
  have hentry := ((hmapped 7 _).mpr ⟨hlearned, Nat.le_refl _⟩).1
  refine ⟨hentry, ?_⟩
  rw [htick 1 (by decide) 7, hentry]
  rfl

end NetworkInterface
end Minnow
