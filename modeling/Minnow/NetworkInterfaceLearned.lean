import Minnow.NetworkInterfaceQueue

/-!
Where the IPv4 frames go. An entry that is not a pending request is the last address an
ARP message gave and not older than thirty seconds; a receive that drains a datagram
whose request is still pending sends it to the broadcast address.
-/

namespace Minnow
open Transition
namespace NetworkInterface

/-- The last address an ARP message has given for `ip`, at most thirty seconds ago. -/
def LearnedAddress (h : History) (ip : UInt32) (address : EthernetAddress) : Prop :=
  ∃ time ≤ 30000, h.learned ip = some (address, time)

/-- The IPv4 frames of a step go to learned addresses, and a datagram stops waiting only
when its next hop has one. -/
structure ToLearned (c : NetworkInterface × History) (input : Input) : Prop where
  frames : (c.1.queued input).filter isIPv4 = (c.1.emitted input).map Prod.snd
  learned : ∀ e ∈ c.1.emitted input,
    LearnedAddress (note c.1 input c.2) e.1 e.2.header.dst ∧ e.2.header.dst ≠ ETHERNET_BROADCAST
  waiting : ∀ e ∈ c.1.unknownEthAddr, e ∈ (c.1.step input).unknownEthAddr ∨
    ∃ address, LearnedAddress (note c.1 input c.2) e.1 address

/-- No ARP message names the broadcast address as its sender, and no tick takes an age
beyond 64 bits. -/
def Regular (c : NetworkInterface × History) : Input → Prop
  | .recvFrame frame => ∀ arpmsg ∈ acceptedArp frame,
      arpmsg.senderEthernetAddress ≠ ETHERNET_BROADCAST
  | .tick ms => ∀ ip, ∀ m ∈ c.1.arpTable ip, m.2 + ms < 2 ^ 64
  | _ => True

/-- A frame that is not a datagram for this interface finds no datagram waiting for a
pending request other than the one its ARP message answers. -/
def DrainsResolved (c : NetworkInterface × History) : Input → Prop
  | .recvFrame frame => c.1.datagramFor frame = .ok none → ∀ arpmsg, arpOf frame = .ok arpmsg →
      ∀ e ∈ c.1.unknownEthAddr, (∀ m ∈ arpmsg, m.senderIpAddress ≠ e.1) →
        ∀ m ∈ c.1.arpTable e.1, m.1 ≠ ETHERNET_BROADCAST
  | _ => True

/-- The entries that are not pending requests are what the history has learned. -/
structure Mapped (n : NetworkInterface) (h : History) : Prop where
  types : ∀ e ∈ n.unknownEthAddr, isIPv4 e.2 = true
  unicast : ∀ ip, ∀ m ∈ h.learned ip, m.1 ≠ ETHERNET_BROADCAST
  learned : ∀ ip, ∀ m ∈ n.arpTable ip, m.1 ≠ ETHERNET_BROADCAST →
    h.learned ip = some m ∧ m.2 ≤ 30000

theorem known_eq_some {n : NetworkInterface} {ip : UInt32} {address : EthernetAddress}
    (h : n.known ip = some address) :
    ∃ time, n.arpTable ip = some (address, time) ∧ address ≠ ETHERNET_BROADCAST := by
  cases htable : n.arpTable ip with
  | none => simp [known, htable] at h
  | some m =>
      by_cases hb : m.1 = ETHERNET_BROADCAST
      · simp [known, htable, hb] at h
      · obtain rfl : m.1 = address := by simpa [known, htable, hb] using h
        exact ⟨m.2, rfl, hb⟩

theorem note_recv_learned (n : NetworkInterface) (frame : EthernetFrame) (h : History) :
    (note n (.recvFrame frame) h).learned =
      match acceptedArp frame with
      | none => h.learned
      | some arpmsg => Function.update h.learned arpmsg.senderIpAddress
          (some (arpmsg.senderEthernetAddress, 0)) := by
  simp only [note]
  cases acceptedArp frame <;> rfl

/-- For an IP address a frame writes the same into the table and the history, or leaves
both as they are. -/
theorem tableAfter_cases (n : NetworkInterface) (frame : EthernetFrame) (h : History)
    (ip : UInt32) :
    ((∀ arpmsg ∈ acceptedArp frame, arpmsg.senderIpAddress ≠ ip) ∧
      n.tableAfter frame ip = n.arpTable ip ∧
      (note n (.recvFrame frame) h).learned ip = h.learned ip) ∨
    ∃ arpmsg ∈ acceptedArp frame, arpmsg.senderIpAddress = ip ∧
      n.tableAfter frame ip = some (arpmsg.senderEthernetAddress, 0) ∧
      (note n (.recvFrame frame) h).learned ip = some (arpmsg.senderEthernetAddress, 0) := by
  rw [note_recv_learned, tableAfter]
  cases acceptedArp frame with
  | none => exact Or.inl ⟨by simp, rfl, rfl⟩
  | some arpmsg =>
      by_cases hip : arpmsg.senderIpAddress = ip
      · subst hip
        exact Or.inr ⟨arpmsg, rfl, rfl, Function.update_self .., Function.update_self ..⟩
      · have hother : ip ≠ arpmsg.senderIpAddress := fun h => hip h.symm
        exact Or.inl ⟨fun m hm => Option.some.inj hm ▸ hip, Function.update_of_ne hother _ _,
          Function.update_of_ne hother _ _⟩

/-- After the ARP message of a frame the table still agrees with the history. -/
theorem Mapped.tableAfter {n : NetworkInterface} {h : History} (hm : Mapped n h)
    (frame : EthernetFrame) :
    ∀ ip, ∀ m ∈ n.tableAfter frame ip, m.1 ≠ ETHERNET_BROADCAST →
      (note n (.recvFrame frame) h).learned ip = some m ∧ m.2 ≤ 30000 := by
  intro ip m hmem hne
  cases tableAfter_cases n frame h ip with
  | inl hkept =>
      obtain ⟨-, htable, hlearned⟩ := hkept
      rw [hlearned]
      exact hm.learned ip m (htable ▸ hmem) hne
  | inr hnoted =>
      obtain ⟨arpmsg, -, -, htable, hlearned⟩ := hnoted
      obtain rfl := Option.some.inj (htable.symm.trans hmem)
      exact ⟨hlearned, Nat.zero_le _⟩

theorem mapped_recv {n : NetworkInterface} {h : History} (hm : Mapped n h)
    {frame : EthernetFrame}
    (hregular : ∀ arpmsg ∈ acceptedArp frame,
      arpmsg.senderEthernetAddress ≠ ETHERNET_BROADCAST) :
    Mapped (n.step (.recvFrame frame)) (note n (.recvFrame frame) h) := by
  refine ⟨types_step hm.types _, ?_, ?_⟩
  · intro ip m hmem
    cases tableAfter_cases n frame h ip with
    | inl hkept =>
        obtain ⟨-, -, hlearned⟩ := hkept
        exact hm.unicast ip m (hlearned ▸ hmem)
    | inr hnoted =>
        obtain ⟨arpmsg, harp, -, -, hlearned⟩ := hnoted
        obtain rfl := Option.some.inj (hlearned.symm.trans hmem)
        exact hregular arpmsg harp
  · cases recvFrame_cases n frame with
    | inl hplain =>
        obtain ⟨-, hstep, -, hnone⟩ := hplain
        rw [hstep, note_recv_learned, hnone]
        exact hm.learned
    | inr hdrains =>
        obtain ⟨-, -, answers, -, hstep, -⟩ := hdrains
        rw [hstep]
        exact hm.tableAfter frame

theorem mapped_tick {n : NetworkInterface} {h : History} (hm : Mapped n h) {ms : Nat}
    (hregular : ∀ ip, ∀ m ∈ n.arpTable ip, m.2 + ms < 2 ^ 64) :
    Mapped (n.step (.tick ms)) (note n (.tick ms) h) := by
  refine ⟨hm.types, ?_, ?_⟩
  · intro ip m hmem
    obtain ⟨m₀, hm₀, rfl⟩ := Option.map_eq_some_iff.mp hmem
    exact hm.unicast ip m₀ hm₀
  · intro ip m hmem hne
    obtain ⟨m₀, hm₀, hage⟩ := Option.bind_eq_some_iff.mp hmem
    rw [ageBy, u64_of_lt (hregular ip m₀ hm₀)] at hage
    by_cases hold : 30000 < m₀.2 + ms
    · simp [hold] at hage
    · simp only [hold, if_false, Option.some.injEq] at hage
      rw [← hage] at hne ⊢
      refine ⟨?_, Nat.not_lt.mp hold⟩
      simp only [note, (hm.learned ip m₀ hm₀ hne).1, Option.map_some]

theorem mapped_send {n : NetworkInterface} {h : History} (hm : Mapped n h)
    (dgram : InternetDatagram) (nextHop : Address) :
    Mapped (n.step (.sendDatagram dgram nextHop))
      (note n (.sendDatagram dgram nextHop) h) := by
  have hlearned : (note n (.sendDatagram dgram nextHop) h).learned = h.learned := by
    simp only [note]
    split <;> rfl
  rcases sendDatagram_cases n dgram nextHop with
    ⟨-, hsend⟩ | ⟨-, e, hsend⟩ | ⟨-, payload, -, address, -, hsend⟩ |
      ⟨-, payload, -, -, request, -, hsend⟩ <;>
    refine ⟨types_step hm.types _, by rw [hlearned]; exact hm.unicast, ?_⟩ <;>
      simp only [step, hsend, hlearned]
  · exact hm.learned
  · exact hm.learned
  · exact hm.learned
  · intro ip m hmem hne
    by_cases hip : ip = nextHop.ipv4Numeric
    · rw [hip, Function.update_self, Option.mem_def, Option.some.injEq] at hmem
      exact absurd (congrArg Prod.fst hmem).symm hne
    · rw [Function.update_of_ne hip] at hmem
      exact hm.learned ip m hmem hne

theorem mapped_step {c : NetworkInterface × History} (hm : Mapped c.1 c.2) {input : Input}
    (hregular : Regular c input) : Mapped (c.1.step input) (note c.1 input c.2) := by
  cases input with
  | sendDatagram dgram nextHop => exact mapped_send hm dgram nextHop
  | recvFrame frame => exact mapped_recv hm hregular
  | tick ms => exact mapped_tick hm hregular
  | maybeSend =>
      simp only [step, maybeSend]
      split <;> exact ⟨hm.types, hm.unicast, hm.learned⟩

/-- A step that sends nothing and lets everything wait. -/
theorem toLearned_idle {c : NetworkInterface × History} (hm : Mapped c.1 c.2) {input : Input}
    (hemitted : c.1.emitted input = [])
    (hwaiting : ∀ e ∈ c.1.unknownEthAddr, e ∈ (c.1.step input).unknownEthAddr) :
    ToLearned c input :=
  ⟨(queued_filter hm.types input).symm, by simp [hemitted], fun e he => Or.inl (hwaiting e he)⟩

theorem toLearned_send {c : NetworkInterface × History} (hm : Mapped c.1 c.2)
    (dgram : InternetDatagram) (nextHop : Address) :
    ToLearned c (.sendDatagram dgram nextHop) := by
  rcases sendDatagram_cases c.1 dgram nextHop with
    ⟨-, hsend⟩ | ⟨-, e, hsend⟩ | ⟨-, payload, -, address, hknown, hsend⟩ |
      ⟨-, payload, -, -, request, -, hsend⟩
  · apply toLearned_idle hm <;> simp [emitted, queued, step, hsend]
  · apply toLearned_idle hm <;> simp [emitted, queued, step, hsend]
  · obtain ⟨time, htable, hne⟩ := known_eq_some hknown
    obtain ⟨hlearned, htime⟩ := hm.learned _ _ htable hne
    refine ⟨(queued_filter hm.types _).symm, ?_, ?_⟩
    · intro e he
      simp only [emitted, queued, step, hsend, List.drop_left] at he
      obtain ⟨ef, hef, rfl⟩ := List.mem_map.mp he
      rw [List.mem_singleton.mp (List.mem_filter.mp hef).1]
      refine ⟨⟨time, htime, ?_⟩, hne⟩
      simp only [note, hsend]
      exact hlearned
    · intro e he
      left
      simpa only [step, hsend] using he
  · have hnone : [c.1.frame ETHERNET_BROADCAST EthernetHeader.TYPE_ARP request].filter
        isIPv4 = [] := rfl
    apply toLearned_idle hm
    · simp only [emitted, queued, step, hsend, List.drop_left, hnone, List.map_nil]
    · intro e he
      simp only [step, hsend]
      exact List.mem_append_left _ he

/-- No datagram waits for a next hop whose entry is a pending request after the message. -/
def DrainsUnicast (c : NetworkInterface × History) (frame : EthernetFrame) : Prop :=
  ∀ e ∈ c.1.unknownEthAddr, ∀ m ∈ c.1.tableAfter frame e.1, m.1 ≠ ETHERNET_BROADCAST

/-- Of the pending requests the message resolves only its sender's. -/
theorem drainsUnicast_iff {c : NetworkInterface × History} {frame : EthernetFrame}
    (hregular : Regular c (.recvFrame frame)) (hdgram : c.1.datagramFor frame = .ok none)
    (hok : (arpOf frame).isOk = true) :
    DrainsUnicast c frame ↔ DrainsResolved c (.recvFrame frame) := by
  obtain ⟨arpmsg, harp⟩ : ∃ arpmsg, arpOf frame = .ok arpmsg := by
    cases h : arpOf frame with
    | error _ => rw [h] at hok; exact absurd hok Bool.false_ne_true
    | ok arpmsg => exact ⟨arpmsg, rfl⟩
  have haccepted : acceptedArp frame = arpmsg := by rw [acceptedArp, harp]
  constructor
  · rintro hunicast - arpmsg' harp' e he hother m hmem
    cases tableAfter_cases c.1 frame c.2 e.1 with
    | inl hkept =>
        obtain ⟨-, htable, -⟩ := hkept
        exact hunicast e he m (htable.trans hmem)
    | inr hnoted =>
        obtain ⟨sender, hsender, hip, -⟩ := hnoted
        obtain rfl := Except.ok.inj (harp.symm.trans harp')
        exact absurd hip (hother sender (haccepted.symm.trans hsender))
  · intro hdrains e he m hmem
    cases tableAfter_cases c.1 frame c.2 e.1 with
    | inl hkept =>
        obtain ⟨hother, htable, -⟩ := hkept
        exact hdrains hdgram arpmsg harp e he
          (fun sender hsender => hother sender (haccepted.trans hsender)) m (htable ▸ hmem)
    | inr hnoted =>
        obtain ⟨sender, hsender, -, htable, -⟩ := hnoted
        obtain rfl := Option.some.inj (htable.symm.trans hmem)
        exact hregular sender hsender

/-- What the drain sends goes where the table says, and the rest goes on waiting. -/
theorem toLearned_drain {c : NetworkInterface × History} (hm : Mapped c.1 c.2)
    {frame : EthernetFrame} (hunicast : DrainsUnicast c frame)
    (hemitted : c.1.emitted (.recvFrame frame) =
      (drainLoop (c.1.tableAfter frame) c.1.unknownEthAddr).1)
    (hrest : (c.1.step (.recvFrame frame)).unknownEthAddr =
      c.1.unknownEthAddr.filter fun e => (c.1.tableAfter frame e.1).isNone) :
    ToLearned c (.recvFrame frame) := by
  have hlearned : ∀ e ∈ c.1.unknownEthAddr, ∀ address time,
      c.1.tableAfter frame e.1 = some (address, time) →
      LearnedAddress (note c.1 (.recvFrame frame) c.2) e.1 address ∧
        address ≠ ETHERNET_BROADCAST := by
    intro e he address time htable
    have hne := hunicast e he _ htable
    obtain ⟨hlearned, htime⟩ := hm.tableAfter frame e.1 _ htable hne
    exact ⟨⟨time, htime, hlearned⟩, hne⟩
  refine ⟨(queued_filter hm.types _).symm, ?_, ?_⟩
  · rintro ⟨ip, ef⟩ he
    rw [hemitted] at he
    obtain ⟨ef₀, address, time, hmem, htable, rfl⟩ := mem_drainLoop.mp he
    exact hlearned (ip, ef₀) hmem address time htable
  · intro e he
    cases htable : c.1.tableAfter frame e.1 with
    | none =>
        left
        rw [hrest]
        exact List.mem_filter.mpr ⟨he, by rw [htable]; rfl⟩
    | some m => exact Or.inr ⟨m.1, (hlearned e he m.1 m.2 htable).1⟩

/-- A receive sends to learned addresses exactly when it drains nothing that waits for a
pending request. -/
theorem toLearned_recv_iff {c : NetworkInterface × History} (hm : Mapped c.1 c.2)
    {frame : EthernetFrame} (hregular : Regular c (.recvFrame frame)) :
    ToLearned c (.recvFrame frame) ↔ DrainsResolved c (.recvFrame frame) := by
  cases recvFrame_cases c.1 frame with
  | inl hplain =>
      obtain ⟨hnot, hstep, hemitted, -⟩ := hplain
      have hidle : ToLearned c (.recvFrame frame) :=
        toLearned_idle hm hemitted (by rw [hstep]; exact fun e he => he)
      refine ⟨fun _ hdgram arpmsg harp => ?_, fun _ => hidle⟩
      exact absurd ⟨hdgram, by rw [harp]; rfl⟩ hnot
  | inr hdrains =>
      obtain ⟨hdgram, hok, answers, -, hstep, hemitted⟩ := hdrains
      rw [← drainsUnicast_iff hregular hdgram hok]
      constructor
      · intro hgood e he m hmem hbroadcast
        have hsent : (e.1, { e.2 with header := { e.2.header with dst := m.1 } }) ∈
            c.1.emitted (.recvFrame frame) := by
          rw [hemitted]
          exact mem_drainLoop.mpr ⟨e.2, m.1, m.2, he, hmem, rfl⟩
        exact (hgood.learned _ hsent).2 hbroadcast
      · intro hunicast
        refine toLearned_drain hm hunicast hemitted ?_
        rw [hstep]
        simp only [drain, drainLoop_rest]

theorem toLearned_iff {c : NetworkInterface × History} (hm : Mapped c.1 c.2) {input : Input}
    (hregular : Regular c input) : ToLearned c input ↔ DrainsResolved c input := by
  cases input with
  | recvFrame frame => exact toLearned_recv_iff hm hregular
  | sendDatagram dgram nextHop => exact ⟨fun _ => trivial, fun _ => toLearned_send hm _ _⟩
  | tick ms =>
      exact ⟨fun _ => trivial, fun _ => toLearned_idle hm rfl fun e he => he⟩
  | maybeSend =>
      refine ⟨fun _ => trivial, fun _ => toLearned_idle hm rfl fun e he => ?_⟩
      simp only [step, maybeSend]
      split <;> exact he

/-- A frame of an unknown type releases a waiting datagram to the broadcast address. -/
theorem broadcast_while_pending :
    let dgram : InternetDatagram := { header := { len := 20, dst := 8 } }
    let stray : EthernetFrame := { header := ⟨#v[2, 0, 0, 0, 0, 9], #v[2, 0, 0, 0, 0, 2], 0⟩ }
    let c := start #v[2, 0, 0, 0, 0, 1] ⟨1⟩
    Along (observe step note) Regular (c, {}) [.sendDatagram dgram ⟨7⟩, .recvFrame stray] ∧
      ¬ Along (observe step note) ToLearned (c, {})
        [.sendDatagram dgram ⟨7⟩, .recvFrame stray] := by
  refine ⟨⟨trivial, by rintro _ ⟨⟩, trivial⟩, ?_⟩
  rintro ⟨-, h, -⟩
  exact (h.learned (7, _) (List.mem_singleton.mpr rfl)).2 rfl

/-- In the runs without broadcast senders and overflowing ages, every IPv4 frame goes to
the address learned for its next hop exactly when no receive drains a datagram that
waits for a pending request. -/
theorem sent_to_learned_iff (ethernetAddress : EthernetAddress) (ipAddress : Address)
    {inputs : List Input}
    (hregular : Along (observe step note) Regular (start ethernetAddress ipAddress, {})
      inputs) :
    Along (observe step note) ToLearned (start ethernetAddress ipAddress, {}) inputs ↔
      Along (observe step note) DrainsResolved (start ethernetAddress ipAddress, {}) inputs := by
  apply along_iff_along (P := fun c => Mapped c.1 c.2) _ hregular
  · exact fun c input hm hreg _ => mapped_step hm hreg
  · exact fun c input hm hreg => toLearned_iff hm hreg
  · refine ⟨?_, ?_, ?_⟩ <;> simp [start]

theorem sent_to_learned_after_reply :
    let dgram : InternetDatagram := { header := { len := 20, dst := 8 } }
    let reply : EthernetFrame :=
      { header := ⟨#v[2, 0, 0, 0, 0, 1], #v[2, 0, 0, 0, 0, 2], EthernetHeader.TYPE_ARP⟩
        payload := [[0, 1, 8, 0, 6, 4, 0, 2, 2, 0, 0, 0, 0, 2, 0, 0, 0, 7, 2, 0, 0, 0, 0, 1,
          0, 0, 0, 1]] }
    Along (observe step note) ToLearned (start #v[2, 0, 0, 0, 0, 1] ⟨1⟩, {})
      [.tick 10, .sendDatagram dgram ⟨7⟩, .recvFrame reply] := by
  intro dgram reply
  have hsender : ∃ arpmsg, acceptedArp reply = some arpmsg ∧ arpmsg.senderIpAddress = 7 ∧
      arpmsg.senderEthernetAddress ≠ ETHERNET_BROADCAST :=
    ⟨(acceptedArp reply).get (by decide +kernel), (Option.some_get _).symm,
      by decide +kernel, by decide +kernel⟩
  obtain ⟨arpmsg, harp, hip, haddress⟩ := hsender
  refine (sent_to_learned_iff #v[2, 0, 0, 0, 0, 1] ⟨1⟩ ?_).mpr ?_
  · refine ⟨by rintro ip m ⟨⟩, trivial, ?_, trivial⟩
    intro arpmsg' harp'
    rw [harp, Option.mem_def, Option.some.injEq] at harp'
    rw [← harp']
    exact haddress
  · refine ⟨trivial, trivial, ?_, trivial⟩
    intro _ arpmsg' harp' e he hother
    rw [acceptedArp, harp'] at harp
    have hwaits : e.1 = 7 := by rw [List.mem_singleton.mp he]
    exact absurd (hip.trans hwaits.symm) (hother arpmsg harp)

end NetworkInterface
end Minnow
