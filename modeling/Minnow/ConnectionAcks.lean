import Minnow.Connection

/-!
What the sender may forget. An acknowledgment in flight never exceeds what the inbound
stream holds, plus one for the SYN and one for its end; so as long as the inbound
stream is not closed short of its end, a removed segment has been delivered.
-/

namespace Minnow
open Transition Spans Histories TCPSenderMessage
namespace Connection

/-- The segments created that are no longer outstanding. -/
def removed (c : Connection) (h : History) : List TCPSenderMessage :=
  h.sent.created.take (h.sent.created.length - c.source.sender.outstanding.length)

/-- What has been removed has been delivered, and a removed FIN tells that the stream is
complete. -/
structure Sound (c : Connection) (h : History) : Prop where
  payloads : payloads (removed c h) <+: h.delivered
  fin : (∃ m ∈ removed c h, m.fin = true) →
    c.inbound.isClosed = true ∧ h.delivered = h.written ∧ c.source.outbound.isClosed = true

/-- The segment delivered does not leave the end accepted and the known indices short of
it. -/
def NeverShort (c : Connection × History) : Input → Prop
  | .deliverSegment k => ∀ m ∈ c.1.segments[k]?, ∀ isn ∈ (c.1.receiver.synchronize m).isn,
      ¬ c.1.reassembler.StopsShort (TCPReceiver.firstIndex m isn c.1.inbound) m.payload m.fin
        c.1.inbound c.2.written.length
  | _ => True

theorem removed_eq {c : Connection} {h : History} {gone : List TCPSenderMessage}
    (hgone : h.sent.created = gone ++ c.source.sender.outstanding) : removed c h = gone := by
  rw [removed, hgone, List.length_append, Nat.add_sub_cancel, List.take_left]

theorem Connected.created_eq {isn : Wrap32} {initialRTOms : Nat} {c : Connection}
    {h : History} (hc : Connected isn initialRTOms c h) :
    h.sent.created = removed c h ++ c.source.sender.outstanding := by
  obtain ⟨gone, hgone⟩ := hc.segmented.sent.outstanding
  rw [removed_eq hgone.symm, hgone]

theorem Connected.follows {isn : Wrap32} {initialRTOms : Nat} {c : Connection}
    {h : History} (hc : Connected isn initialRTOms c h) :
    Each (TCPSender.Follows isn) h.sent.created := by
  have := hc.segmented.sent.follows
  rwa [hc.segmented.isn] at this

theorem Connected.seqLen_le {isn : Wrap32} {initialRTOms : Nat} {c : Connection}
    {h : History} (hc : Connected isn initialRTOms c h) :
    seqLen h.sent.created ≤ h.written.length + 2 := by
  by_cases hnil : h.sent.created = []
  · simp [hnil]
  · have hlen := TCPSender.seqLen_of_follows hc.follows hnil
    have hle := hc.payloads_written.length_le
    have hfin := Bool.toNat_le (h.sent.created.any (·.fin))
    omega

/-- Once a FIN has been created, the outbound stream is closed and all of it has been
sent. -/
theorem Connected.finished {isn : Wrap32} {initialRTOms : Nat} {c : Connection}
    {h : History} (hc : Connected isn initialRTOms c h) {m : TCPSenderMessage}
    (hm : m ∈ h.sent.created) (hfin : m.fin = true) :
    c.source.outbound.isClosed = true ∧ payloads h.sent.created = h.written := by
  obtain ⟨hclosed, hempty⟩ :=
    hc.segmented.sent.finished (hc.segmented.sent.fin.mpr ⟨m, hm, hfin⟩)
  refine ⟨hclosed, ?_⟩
  rw [hc.segmented.payloads, ← hc.written, hempty, List.append_nil]

/-- A removed FIN leaves nothing outstanding. -/
theorem Connected.all_removed {isn : Wrap32} {initialRTOms : Nat} {c : Connection}
    {h : History} (hc : Connected isn initialRTOms c h) {m : TCPSenderMessage}
    (hm : m ∈ removed c h) (hfin : m.fin = true) : removed c h = h.sent.created := by
  have hcreated := hc.created_eq
  cases hout : c.source.sender.outstanding with
  | nil => rw [hcreated, hout, List.append_nil]
  | cons front rest =>
      rw [hout] at hcreated
      have := (hc.follows _ front rest hcreated).unfinished m hm
      exact absurd hfin (by simp [this])

/-- The invariant behind `Sound`. -/
structure Acknowledging (isn : Wrap32) (initialRTOms : Nat) (c : Connection) (h : History) :
    Prop where
  connected : Connected isn initialRTOms c h
  acks : ∀ msg ∈ c.acks, ∀ ackno ∈ msg.ackno, ∃ a, ackno = Wrap32.wrap a isn ∧
    a ≤ c.inbound.bytesPushed + 1 + c.inbound.isClosed.toNat
  ending : c.reassembler.shouldClose = true → c.source.outbound.isClosed = true
  complete : c.inbound.isClosed = true →
    h.delivered = h.written ∧ c.source.outbound.isClosed = true
  sound : Sound c h

theorem acknowledging_start (isn : Wrap32) (initialRTOms outCapacity inCapacity : Nat) :
    Acknowledging isn initialRTOms (start isn initialRTOms outCapacity inCapacity) {} := by
  refine ⟨connected_start isn initialRTOms outCapacity inCapacity, ?_, ?_, ?_, ?_, ?_⟩ <;>
    simp [start, removed]

/-- A step that changes neither what is acknowledged nor what is removed. -/
theorem Acknowledging.keep {isn : Wrap32} {initialRTOms : Nat} {c c' : Connection}
    {h h' : History} (hc : Acknowledging isn initialRTOms c h)
    (hc' : Connected isn initialRTOms c' h') (hacks : ∀ msg ∈ c'.acks, msg ∈ c.acks)
    (hpushed : c'.inbound.bytesPushed = c.inbound.bytesPushed)
    (hin : c'.inbound.isClosed = c.inbound.isClosed)
    (hflag : c'.reassembler.shouldClose = c.reassembler.shouldClose)
    (hremoved : removed c' h' = removed c h) (hdelivered : h'.delivered = h.delivered)
    (hout : c.source.outbound.isClosed = true →
      c'.source.outbound.isClosed = true ∧ h'.written = h.written) :
    Acknowledging isn initialRTOms c' h' := by
  refine ⟨hc', ?_, ?_, ?_, ?_, ?_⟩
  · rw [hpushed, hin]
    exact fun msg hmsg => hc.acks msg (hacks msg hmsg)
  · rw [hflag]
    exact fun hshould => (hout (hc.ending hshould)).1
  · rw [hin, hdelivered]
    intro hclosed
    obtain ⟨hall, hend⟩ := hc.complete hclosed
    exact ⟨hall.trans (hout hend).2.symm, (hout hend).1⟩
  · rw [hremoved, hdelivered]
    exact hc.sound.payloads
  · rw [hremoved, hin, hdelivered]
    intro hfin
    obtain ⟨hclosed, hall, hend⟩ := hc.sound.fin hfin
    exact ⟨hclosed, hall.trans (hout hend).2.symm, (hout hend).1⟩

theorem acknowledging_deliver {isn : Wrap32} {initialRTOms : Nat} {c : Connection}
    {h : History} (hc : Acknowledging isn initialRTOms c h)
    (hbound : h.written.length < 2 ^ 31 - 2) {m : TCPSenderMessage}
    (hm : m ∈ h.sent.created)
    (hshort : ∀ isn ∈ (c.receiver.synchronize m).isn,
      ¬ c.reassembler.StopsShort (TCPReceiver.firstIndex m isn c.inbound) m.payload m.fin
        c.inbound h.written.length) :
    Acknowledging isn initialRTOms (c.deliver m)
      { h with delivered := h.delivered ++
          ByteStream.appended c.inbound (c.deliver m).inbound } := by
  have hconn := connected_deliver hc.connected hbound hm
  cases deliver_cases hc.connected hbound hm with
  | inl hsame =>
      obtain ⟨hreassembler, hinbound⟩ := hsame
      have hnone : ByteStream.appended c.inbound (c.deliver m).inbound = [] := by
        rw [hinbound, ByteStream.appended, List.drop_length]
      rw [hnone, List.append_nil] at hconn ⊢
      exact hc.keep hconn (fun _ => id) (by rw [hinbound]) (by rw [hinbound])
        (by rw [hreassembler]) rfl rfl (fun hend => ⟨hend, rfl⟩)
  | inr hgrew =>
      obtain ⟨hisn, new, hins, -⟩ := hgrew
      rw [hins.grows.appended_eq] at hconn ⊢
      have hnot := hshort isn hisn
      rw [Reassembler.stopsShort_iff hins] at hnot
      have hending : (c.deliver m).reassembler.shouldClose = true →
          c.source.outbound.isClosed = true := by
        rw [hins.shouldClose, Bool.or_eq_true, Bool.and_eq_true]
        rintro (hshould | ⟨hfin, -⟩)
        · exact hc.ending hshould
        · exact (hc.connected.finished hm hfin).1
      have hcomplete : (c.deliver m).inbound.isClosed = true →
          h.delivered ++ new = h.written ∧ c.source.outbound.isClosed = true := by
        rw [hins.closed, Bool.or_eq_true]
        rintro (hwas | hnow)
        · obtain ⟨hall, hend⟩ := hc.complete hwas
          refine ⟨?_, hend⟩
          have := hconn.delivered.length_le
          apply hconn.delivered.eq_of_length_le
          rw [← hall, List.length_append]
          exact Nat.le_add_right _ _
        · simp only [Bool.and_eq_true, decide_eq_true_eq, beq_iff_eq] at hnow
          refine ⟨?_, hending hnow.1.2⟩
          apply hconn.delivered.eq_of_length_le
          rw [hconn.counted]
          exact Nat.not_lt.mp fun hlt => hnot ⟨hnow.1.1, hnow.1.2, hnow.2, hlt⟩
      have hkept : c.inbound.isClosed = true → (c.deliver m).inbound.isClosed = true := by
        intro hwas
        rw [hins.closed, hwas, Bool.true_or]
      refine ⟨hconn, ?_, hending, hcomplete, ?_, ?_⟩
      · intro msg hmsg ackno hackno
        obtain ⟨a, ha, hle⟩ := hc.acks msg hmsg ackno hackno
        refine ⟨a, ha, hle.trans ?_⟩
        have hmono := Bool.toNat_le_toNat hkept
        have := hins.grows.pushed
        omega
      · exact hc.sound.payloads.trans (List.prefix_append _ _)
      · intro hfin
        have hclosed := hkept (hc.sound.fin hfin).1
        exact ⟨hclosed, hcomplete hclosed⟩

/-- An ackno in flight unwraps to what it was made from. -/
theorem Acknowledging.acceptedAckno {isn : Wrap32} {initialRTOms : Nat} {c : Connection}
    {h : History} (hc : Acknowledging isn initialRTOms c h)
    (hbound : h.written.length < 2 ^ 31 - 2) {msg : TCPReceiverMessage}
    (hmsg : msg ∈ c.acks) {a : Nat} (ha : c.source.sender.acceptedAckno msg = some a) :
    a ≤ c.inbound.bytesPushed + 1 + c.inbound.isClosed.toNat := by
  cases hackno : msg.ackno with
  | none => simp [TCPSender.acceptedAckno, hackno] at ha
  | some ackno =>
      obtain ⟨b, hb, hle⟩ := hc.acks msg hmsg ackno hackno
      have hpushed : c.inbound.bytesPushed ≤ h.written.length := by
        rw [← hc.connected.counted]
        exact hc.connected.delivered.length_le
      have hclosed := Bool.toNat_le c.inbound.isClosed
      have hsent : c.source.sender.seqnumsSent ≤ h.written.length + 2 := by
        rw [hc.connected.segmented.sent.sent]
        exact (u64_le _).trans hc.connected.seqLen_le
      have hunwrap : ackno.unwrap c.source.sender.isn c.source.sender.seqnumsSent = b := by
        rw [hb, hc.connected.segmented.isn]
        exact Wrap32.unwrap_wrap isn (by omega) (by omega) (by omega)
      simp only [TCPSender.acceptedAckno, hackno, hunwrap] at ha
      split at ha
      · simp at ha
      · rw [← Option.some.inj ha]
        exact hle

/-- An acknowledgment has segments removed from the front. -/
theorem Connected.removed_receive {isn : Wrap32} {initialRTOms : Nat} {c : Connection}
    {h : History} (hc : Connected isn initialRTOms c h) {msg : TCPReceiverMessage}
    {gone : List TCPSenderMessage}
    (hr : TCPSender.Received c.source.sender msg (c.source.sender.receive msg) gone) :
    removed { c with source := c.source.step (.receive msg) } h = removed c h ++ gone := by
  apply removed_eq
  rw [List.append_assoc]
  exact hc.created_eq.trans (congrArg _ hr.outstanding)

theorem sound_receive {isn : Wrap32} {initialRTOms : Nat} {c : Connection} {h : History}
    (hc : Acknowledging isn initialRTOms c h) (hbound : h.written.length < 2 ^ 31 - 2)
    {msg : TCPReceiverMessage} (hmsg : msg ∈ c.acks)
    (hc' : Connected isn initialRTOms { c with source := c.source.step (.receive msg) } h) :
    Sound { c with source := c.source.step (.receive msg) } h := by
  obtain ⟨gone, hr⟩ := TCPSender.receive_spec c.source.sender msg
  have hcreated := hc.connected.created_eq
  have hremoved := hc.connected.removed_receive hr
  cases List.eq_nil_or_concat gone with
  | inl hnil =>
      subst hnil
      rw [List.append_nil] at hremoved
      exact ⟨by rw [hremoved]; exact hc.sound.payloads, by rw [hremoved]; exact hc.sound.fin⟩
  | inr hlast =>
      obtain ⟨pre, m, rfl⟩ := hlast
      rw [List.concat_eq_append] at hr hremoved
      obtain ⟨a, ha, hle⟩ := hr.acknowledged m (by simp)
      have hack := hc.acceptedAckno hbound hmsg ha
      have hsent := hc.connected.segmented.sent
      have hlen := hc.connected.seqLen_le
      rw [hcreated] at hsent hlen
      have hend := hsent.tracked.segmentEnd_eq pre (m := m) (by omega)
        (by rw [hr.outstanding, List.append_assoc]; rfl)
      have hfollows := hc'.follows
      rw [hc'.created_eq] at hfollows
      have hseq := TCPSender.seqLen_of_follows hfollows.of_append (by rw [hremoved]; simp)
      have hsplit : seqLen (removed { c with source := c.source.step (.receive msg) } h) =
          seqLen (removed c h ++ pre) + m.sequenceLength := by
        rw [hremoved]
        simp [Nat.add_assoc]
      have hpayloads : payloads (removed { c with source := c.source.step (.receive msg) } h)
          <+: h.written := by
        refine List.IsPrefix.trans ?_ hc'.payloads_written
        rw [hc'.created_eq, payloads_append]
        exact List.prefix_append _ _
      by_cases hclosed : c.inbound.isClosed = true
      · obtain ⟨hall, hout⟩ := hc.complete hclosed
        exact ⟨by rw [hall]; exact hpayloads, fun _ => ⟨hclosed, hall, hout⟩⟩
      · rw [Bool.eq_false_iff.mpr hclosed, Bool.toNat_false, ← hc.connected.counted] at hack
        refine ⟨List.prefix_of_prefix_length_le hpayloads hc.connected.delivered (by omega), ?_⟩
        rintro ⟨q, hq, hfin⟩
        exfalso
        have hany : (removed { c with source := c.source.step (.receive msg) } h).any (·.fin)
            = true := List.any_eq_true.mpr ⟨q, hq, hfin⟩
        have hall := hc'.all_removed hq hfin
        rw [hany, Bool.toNat_true, hall,
          (hc'.finished (by rw [← hall]; exact hq) hfin).2] at hseq
        have := hc.connected.delivered.length_le
        rw [hall] at hsplit
        omega

/-- An acknowledgment names the first index the receiver has not got. -/
theorem Acknowledging.send_ackno {isn : Wrap32} {initialRTOms : Nat} {c : Connection}
    {h : History} (hc : Acknowledging isn initialRTOms c h) {ackno : Wrap32}
    (hackno : ackno ∈ (c.receiver.send c.inbound).ackno) : ∃ a, ackno = Wrap32.wrap a isn ∧
      a ≤ c.inbound.bytesPushed + 1 + c.inbound.isClosed.toNat := by
  rw [TCPReceiver.send] at hackno
  cases hisn : c.receiver.isn with
  | none => simp [hisn] at hackno
  | some z =>
      obtain rfl := hc.connected.synchronized z hisn
      simp only [hisn, Option.mem_def, Option.some.injEq] at hackno
      exact ⟨_, hackno.symm, Nat.le_refl _⟩

/-- A tick sends again what is outstanding and removes nothing. -/
theorem removed_tick (c : Connection) (ms : Nat) (h : History) :
    removed (c.step (.tick ms)) (note c (.tick ms) h) = removed c h := by
  simp only [removed, step, note, SenderSide.step]
  by_cases hre : c.source.sender.Retransmits ms
  · obtain ⟨front, rest, -, -, hstate⟩ := TCPSender.tick_retransmits hre
    rw [hstate]
  · rw [TCPSender.tick_quiet hre]

/-- Only an acknowledgment has a segment removed. -/
theorem Connected.removed_step {isn : Wrap32} {initialRTOms : Nat} {c : Connection}
    {h : History} (hc : Connected isn initialRTOms c h) {input : Input}
    (hinput : ∀ k, input ≠ .deliverAck k) :
    removed (c.step input) (note c input h) = removed c h := by
  cases input with
  | write data =>
      simp only [removed, step, note, SenderSide.step]
      split <;> rfl
  | push =>
      obtain ⟨new, -, hp, -, -, hnote⟩ := SenderSide.step_push hc.segmented.sent
      apply removed_eq
      simp only [step, note]
      rw [hnote, hp.outstanding, ← List.append_assoc, ← hc.created_eq]
  | tick ms => exact removed_tick c ms h
  | transmit =>
      simp only [removed, step, note, SenderSide.step, TCPSender.maybeSend]
      split <;> rfl
  | deliverSegment k =>
      cases deliverSegment_cases c k h with
      | inl hidle => rw [hidle.1, hidle.2]
      | inr hdelivers =>
          obtain ⟨m, -, hstep, hnote⟩ := hdelivers
          rw [hstep, hnote]
          rfl
  | deliverAck k => exact absurd rfl (hinput k)
  | read len =>
      cases read_cases hc.wf.stream len h with
      | inl hidle => rw [hidle.1, hidle.2]
      | inr hreads =>
          obtain ⟨inbound, -, hstep, hnote⟩ := hreads
          rw [hstep, hnote]
          rfl
  | _ => rfl

theorem acknowledging_step {isn : Wrap32} {initialRTOms : Nat} {c : Connection × History}
    (hc : Acknowledging isn initialRTOms c.1 c.2) (hbound : c.2.written.length < 2 ^ 31 - 2)
    {input : Input} (hshort : NeverShort c input) :
    Acknowledging isn initialRTOms (c.1.step input) (note c.1 input c.2) := by
  have hconn := connected_step hc.connected hbound input
  cases input with
  | write data =>
      refine hc.keep hconn (fun _ => id) rfl rfl rfl (hc.connected.removed_step (by simp)) rfl
        fun hend => ?_
      simp only [step, note, SenderSide.step, hend, if_true, ByteStream.appended,
        List.drop_length, List.append_nil, and_self]
  | close =>
      exact hc.keep hconn (fun _ => id) rfl rfl rfl rfl rfl fun _ => ⟨rfl, rfl⟩
  | push =>
      obtain ⟨new, -, hp, -⟩ := SenderSide.step_push hc.connected.segmented.sent
      exact hc.keep hconn (fun _ => id) rfl rfl rfl (hc.connected.removed_step (by simp)) rfl
        fun hend => ⟨hp.shrinks.closed.trans hend, rfl⟩
  | tick ms =>
      exact hc.keep hconn (fun _ => id) rfl rfl rfl (hc.connected.removed_step (by simp)) rfl
        fun hend => ⟨hend, rfl⟩
  | transmit =>
      exact hc.keep hconn (fun _ => id) rfl rfl rfl (hc.connected.removed_step (by simp)) rfl
        fun hend => ⟨hend, rfl⟩
  | deliverSegment k =>
      cases deliverSegment_cases c.1 k c.2 with
      | inl hidle =>
          obtain ⟨hstep, hnote⟩ := hidle
          rw [hstep, hnote]
          exact hc
      | inr hdelivers =>
          obtain ⟨m, hk, hstep, hnote⟩ := hdelivers
          rw [hstep, hnote]
          exact acknowledging_deliver hc hbound
            (hc.connected.inFlight m (List.mem_of_getElem? hk)) (hshort m hk)
  | dropSegment k =>
      exact hc.keep hconn (fun _ => id) rfl rfl rfl rfl rfl fun hend => ⟨hend, rfl⟩
  | acknowledge =>
      refine ⟨hconn, ?_, hc.ending, hc.complete, ⟨hc.sound.payloads, hc.sound.fin⟩⟩
      intro msg hmsg ackno hackno
      cases List.mem_append.mp hmsg with
      | inl hmsg => exact hc.acks msg hmsg ackno hackno
      | inr hmsg =>
          rw [List.mem_singleton.mp hmsg] at hackno
          exact hc.send_ackno hackno
  | deliverAck k =>
      cases deliverAck_cases c.1 k with
      | inl hstep =>
          rw [hstep]
          exact hc
      | inr hdelivers =>
          obtain ⟨msg, hmsg, hstep⟩ := hdelivers
          rw [hstep] at hconn ⊢
          exact { hc with
            connected := hconn
            sound := sound_receive hc hbound hmsg hconn }
  | dropAck k =>
      exact hc.keep hconn (fun _ hmsg => List.mem_of_mem_eraseIdx hmsg) rfl rfl rfl rfl rfl
        fun hend => ⟨hend, rfl⟩
  | read len =>
      cases read_cases hc.connected.wf.stream len c.2 with
      | inl hidle =>
          obtain ⟨hstep, hnote⟩ := hidle
          rw [hstep, hnote]
          exact hc
      | inr hreads =>
          obtain ⟨inbound, hs, hstep, hnote⟩ := hreads
          rw [hstep, hnote] at hconn ⊢
          exact hc.keep hconn (fun _ => id) hs.pushed hs.closed rfl rfl rfl
            fun hend => ⟨hend, rfl⟩

/-- A FIN without payload that overtakes the byte before it makes the receiver
acknowledge that byte. -/
theorem removed_before_delivery :
    let inputs := [.write [10], .push, .transmit, .deliverSegment 0, .acknowledge,
      .deliverAck 0, .push, .close, .push, .transmit, .transmit, .deliverSegment 2,
      .acknowledge, .deliverAck 1]
    let c := runFrom ⟨0⟩ 1000 8 8 inputs
    c.2.written.length < 2 ^ 31 - 2 ∧ ¬ Sound c.1 c.2 := by
  refine ⟨by decide +kernel, fun h => ?_⟩
  exact absurd h.payloads (by decide +kernel)

/-- In every run that writes fewer than `2 ^ 31 - 2` bytes and in which no delivery
leaves the end accepted and the known indices short of it, the sender removes only what
has been delivered. -/
theorem removed_only_delivered (isn : Wrap32) (initialRTOms outCapacity inCapacity : Nat)
    {inputs : List Input}
    (hbound : (runFrom isn initialRTOms outCapacity inCapacity inputs).2.written.length
      < 2 ^ 31 - 2)
    (hshort : Along (observe step note) NeverShort
      (start isn initialRTOms outCapacity inCapacity, {}) inputs) :
    Sound (runFrom isn initialRTOms outCapacity inCapacity inputs).1
      (runFrom isn initialRTOms outCapacity inCapacity inputs).2 := by
  refine (run_invariant (observe step note)
    (P := fun c => c.2.written.length < 2 ^ 31 - 2 → Acknowledging isn initialRTOms c.1 c.2)
    (fun _ => acknowledging_start isn initialRTOms outCapacity inCapacity) ?_ hshort
      hbound).sound
  intro c input hc hok hlt
  have hbefore := (written_step_le c.1 input c.2).trans_lt hlt
  exact acknowledging_step (hc hbefore) hbefore hok

theorem removed_only_delivered_with_data :
    let inputs := [.write [10], .push, .transmit, .deliverSegment 0, .acknowledge,
      .deliverAck 0, .close, .push, .transmit, .deliverSegment 1, .acknowledge, .deliverAck 1]
    let c := runFrom ⟨0⟩ 1000 8 8 inputs
    Sound c.1 c.2 := by
  refine removed_only_delivered ⟨0⟩ 1000 8 8 (by decide +kernel)
    ⟨trivial, trivial, trivial, ?_, trivial, trivial, trivial, trivial, trivial, ?_, trivial,
      trivial, trivial⟩
  · rintro m ⟨⟩ isn ⟨⟩ ⟨-, hend, -⟩
    exact absurd hend (by decide +kernel)
  · rintro m ⟨⟩ isn ⟨⟩ ⟨-, -, n, hlt, hn⟩
    have hfirst := (hn 0).mp (Or.inr (by decide +kernel))
    change n < 1 at hlt
    omega

end Connection
end Minnow
