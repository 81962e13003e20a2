import Minnow.ConnectionSent

/-!
What a connection recovers from. However much has been lost, a connection whose receiver has not
accepted the end ahead of bytes before it can be completed: the oldest segment is retransmitted
and acknowledged, until nothing is outstanding.
-/

namespace Minnow
open Transition Histories TCPSenderMessage
namespace Connection

variable {isn : Wrap32} {initialRTOms capacity : Nat} {c : Connection} {h : History}

theorem announced_step (hc : Announced isn initialRTOms c h)
    (hbound : h.written.length < 2 ^ 31 - 2) (input : Input) :
    Announced isn initialRTOms (c.step input) (note c input h) := by
  have hconnected := connected_step hc.connected hbound input
  cases input with
  | write data =>
      refine hc.sends hconnected ?_ rfl rfl rfl List.prefix_rfl
      simp only [note, List.length_append, hc.total]
      exact written_eq_pushed hc.connected.segmented.sent data
  | push =>
      obtain ⟨new, -, hp, -⟩ := SenderSide.step_push hc.connected.segmented.sent
      exact hc.sends hconnected (hc.total.trans hp.shrinks.pushed.symm) rfl rfl rfl
        (SenderSide.created_grows c.source .push h.sent)
  | deliverSegment k =>
      cases deliverSegment_cases c k h with
      | inl hidle =>
          rw [hidle.1, hidle.2]
          exact hc
      | inr hdelivers =>
          obtain ⟨m, hk, hstep, hnote⟩ := hdelivers
          rw [hstep, hnote]
          exact announced_deliver hc hbound (hc.connected.inFlight m (List.mem_of_getElem? hk))
  | deliverAck k =>
      cases deliverAck_cases c k with
      | inl hstep =>
          rw [hstep]
          exact hc
      | inr hdelivers =>
          obtain ⟨msg, -, hstep⟩ := hdelivers
          rw [hstep] at hconnected ⊢
          exact hc.sends hconnected hc.total rfl rfl rfl List.prefix_rfl
  | read len => exact announced_read hc hbound len
  | _ => exact hc.sends hconnected hc.total rfl rfl rfl List.prefix_rfl

/-- The invariant of the runs that can be resumed. -/
structure Resumable (isn : Wrap32) (initialRTOms capacity : Nat) (c : Connection)
    (h : History) : Prop where
  announced : Announced isn initialRTOms c h
  acknowledging : Acknowledging isn initialRTOms c h
  heard : ∀ msg ∈ c.acks, msg.ackno.isSome = true → c.receiver.isn.isSome = true
  opened : removed c h ≠ [] → c.receiver.isn.isSome = true
  rto : c.source.sender.timer.rto < 2 ^ 64
  capacity : c.inbound.capacity = capacity

theorem Resumable.connected (hc : Resumable isn initialRTOms capacity c h) :
    Connected isn initialRTOms c h := hc.announced.connected

theorem resumable_start (isn : Wrap32) {initialRTOms : Nat} (outCapacity inCapacity : Nat)
    (hrto : initialRTOms < 2 ^ 64) : Resumable isn initialRTOms inCapacity
      (start isn initialRTOms outCapacity inCapacity) {} where
  announced := announced_start isn initialRTOms outCapacity inCapacity
  acknowledging := acknowledging_start isn initialRTOms outCapacity inCapacity
  heard := fun _ hmsg => absurd hmsg List.not_mem_nil
  opened := fun hremoved => absurd rfl hremoved
  rto := hrto
  capacity := rfl

/-- A step that leaves the receiving side as it is, and removes nothing. -/
theorem Resumable.keep (hc : Resumable isn initialRTOms capacity c h) {c' : Connection}
    {h' : History} (hannounced : Announced isn initialRTOms c' h')
    (hacknowledging : Acknowledging isn initialRTOms c' h') (hacks : ∀ msg ∈ c'.acks, msg ∈ c.acks)
    (hremoved : removed c' h' = removed c h) (hreceiver : c'.receiver = c.receiver)
    (hrto : c'.source.sender.timer.rto < 2 ^ 64)
    (hcapacity : c'.inbound.capacity = c.inbound.capacity) :
    Resumable isn initialRTOms capacity c' h' where
  announced := hannounced
  acknowledging := hacknowledging
  heard := by
    rw [hreceiver]
    exact fun msg hmsg => hc.heard msg (hacks msg hmsg)
  opened := by
    rw [hreceiver, hremoved]
    exact hc.opened
  rto := hrto
  capacity := hcapacity.trans hc.capacity

/-- The retransmission timeout fits its type. -/
theorem rto_step {s : SenderSide} {created : SenderSide.History}
    (hs : SenderSide.Segmented isn initialRTOms s created) (hinitial : initialRTOms < 2 ^ 64)
    (hrto : s.sender.timer.rto < 2 ^ 64) (input : SenderSide.Input) :
    (s.step input).sender.timer.rto < 2 ^ 64 := by
  cases input with
  | write data =>
      rw [SenderSide.step]
      split <;> exact hrto
  | close => exact hrto
  | push =>
      obtain ⟨new, -, hp, -⟩ := SenderSide.step_push hs.sent
      rw [hp.timer]
      exact hrto
  | receive msg =>
      obtain ⟨gone, hr⟩ := TCPSender.receive_spec s.sender msg
      rw [SenderSide.step, hr.state]
      dsimp only
      split
      · rw [hs.initialRTOms]
        exact hinitial
      · exact hrto
  | tick ms =>
      by_cases hre : s.sender.Retransmits ms
      · obtain ⟨front, rest, -, -, hstate⟩ := TCPSender.tick_retransmits hre
        rw [SenderSide.step, hstate]
        dsimp only
        split
        · exact u64_lt _
        · exact hrto
      · rw [SenderSide.step, TCPSender.tick_quiet hre]
        exact hrto
  | maybeSend =>
      rw [SenderSide.step, TCPSender.maybeSend]
      split <;> exact hrto

theorem synchronize_isSome {r : TCPReceiver} (m : TCPSenderMessage) (hr : r.isn.isSome = true) :
    (r.synchronize m).isn.isSome = true := by
  rw [TCPReceiver.synchronize]
  split
  · rfl
  · exact hr

theorem resumable_step (hc : Resumable isn initialRTOms capacity c h)
    (hinitial : initialRTOms < 2 ^ 64) (hbound : h.written.length < 2 ^ 31 - 2) {input : Input}
    (hshort : NeverShort (c, h) input) :
    Resumable isn initialRTOms capacity (c.step input) (note c input h) := by
  have hannounced := announced_step hc.announced hbound input
  have hacknowledging := acknowledging_step (c := (c, h)) hc.acknowledging hbound hshort
  have hsender := rto_step hc.connected.segmented hinitial hc.rto
  have hremoved := @Connected.removed_step _ _ _ _ hc.connected input
  have hkeep := @Resumable.keep _ _ _ _ _ hc _ _ hannounced hacknowledging
  cases input with
  | write data => exact hkeep (fun _ => id) (hremoved (by simp)) rfl (hsender (.write data)) rfl
  | close => exact hkeep (fun _ => id) (hremoved (by simp)) rfl hc.rto rfl
  | push => exact hkeep (fun _ => id) (hremoved (by simp)) rfl (hsender .push) rfl
  | tick ms => exact hkeep (fun _ => id) (hremoved (by simp)) rfl (hsender (.tick ms)) rfl
  | transmit => exact hkeep (fun _ => id) (hremoved (by simp)) rfl (hsender .maybeSend) rfl
  | dropSegment k => exact hkeep (fun _ => id) (hremoved (by simp)) rfl hc.rto rfl
  | dropAck k =>
      exact hkeep (fun _ hmsg => List.mem_of_mem_eraseIdx hmsg) (hremoved (by simp)) rfl hc.rto rfl
  | read len =>
      have hcapacity : (c.step (.read len)).inbound.capacity = c.inbound.capacity ∧
          (c.step (.read len)).acks = c.acks ∧ (c.step (.read len)).receiver = c.receiver ∧
          (c.step (.read len)).source = c.source := by
        cases read_cases hc.connected.wf.stream len h with
        | inl hidle =>
            rw [hidle.1]
            exact ⟨rfl, rfl, rfl, rfl⟩
        | inr hreads =>
            obtain ⟨inbound, hs, hstep, -⟩ := hreads
            rw [hstep]
            exact ⟨hs.capacity, rfl, rfl, rfl⟩
      obtain ⟨hcapacity, hacks, hreceiver, hsource⟩ := hcapacity
      refine hkeep (fun msg hmsg => hacks ▸ hmsg) (hremoved (by simp)) hreceiver ?_ hcapacity
      rw [hsource]
      exact hc.rto
  | acknowledge =>
      refine ⟨hannounced, hacknowledging, ?_, hc.opened, hc.rto, hc.capacity⟩
      intro msg hmsg hackno
      cases List.mem_append.mp hmsg with
      | inl hold => exact hc.heard msg hold hackno
      | inr hnew =>
          rw [List.mem_singleton.mp hnew, TCPReceiver.send] at hackno
          cases hisn : c.receiver.isn with
          | none => simp [hisn] at hackno
          | some z => exact congrArg Option.isSome hisn
  | deliverSegment k =>
      cases deliverSegment_cases c k h with
      | inl hidle =>
          rw [hidle.1, hidle.2]
          exact hc
      | inr hdelivers =>
          obtain ⟨m, hk, hstep, hnote⟩ := hdelivers
          rw [hstep, hnote] at hannounced hacknowledging hremoved ⊢
          have hisn (hr : c.receiver.isn.isSome = true) :
              (c.deliver m).receiver.isn.isSome = true := by
            rw [deliver_receiver]
            exact synchronize_isSome m hr
          refine ⟨hannounced, hacknowledging, fun msg hmsg hackno => ?_, ?_, hc.rto, ?_⟩
          · exact hisn (hc.heard msg hmsg hackno)
          · rw [hremoved (by simp)]
            exact fun hne => hisn (hc.opened hne)
          · have hm := hc.connected.inFlight m (List.mem_of_getElem? hk)
            cases deliver_cases hc.connected hbound hm with
            | inl hsame =>
                rw [hsame.2]
                exact hc.capacity
            | inr hinserted =>
                obtain ⟨-, new, hins, -⟩ := hinserted
                exact hins.grows.capacity.trans hc.capacity
  | deliverAck k =>
      cases deliverAck_cases c k with
      | inl hidle =>
          rw [hidle]
          exact hc
      | inr hdelivers =>
          obtain ⟨msg, hmsg, hstep⟩ := hdelivers
          rw [hstep] at hannounced hacknowledging ⊢
          refine ⟨hannounced, hacknowledging, hc.heard, ?_, hsender (.receive msg), hc.capacity⟩
          obtain ⟨gone, hr⟩ := TCPSender.receive_spec c.source.sender msg
          change removed { c with source := c.source.step (.receive msg) } h ≠ [] → _
          rw [hc.connected.removed_receive hr]
          cases gone with
          | nil =>
              rw [List.append_nil]
              exact hc.opened
          | cons front rest =>
              intro _
              obtain ⟨a, ha, -⟩ := hr.acknowledged front List.mem_cons_self
              refine hc.heard msg hmsg ?_
              cases hackno : msg.ackno with
              | none => simp [TCPSender.acceptedAckno, hackno] at ha
              | some ackno => rfl

/-- The receiver has accepted no end that it has not reached. -/
def Reached (c : Connection) : Prop :=
  c.reassembler.shouldClose = true → c.inbound.isClosed = true

theorem Resumable.synchronized (hc : Resumable isn initialRTOms capacity c h)
    {front : TCPSenderMessage} {rest : List TCPSenderMessage}
    (hfront : c.source.sender.outstanding = front :: rest) :
    (c.receiver.synchronize front).isn = some isn := by
  have hcreated := hc.connected.created_eq
  rw [hfront] at hcreated
  have hm : front ∈ h.sent.created := by
    rw [hcreated]
    exact List.mem_append_right _ List.mem_cons_self
  have hsome : (c.receiver.synchronize front).isn.isSome = true := by
    by_cases hremoved : removed c h = []
    · have hsyn := (hc.connected.follows _ front rest hcreated).syn.mpr hremoved
      rw [TCPReceiver.synchronize, if_pos hsyn]
      rfl
    · exact synchronize_isSome front (hc.opened hremoved)
  obtain ⟨z, hz⟩ := Option.isSome_iff_exists.mp hsome
  rw [hz, hc.connected.synchronize hm z hz]

/-- Where the oldest segment outstanding starts, all before it has been delivered. -/
theorem Resumable.front_starts (hc : Resumable isn initialRTOms capacity c h)
    {front : TCPSenderMessage} {rest : List TCPSenderMessage}
    (hfront : c.source.sender.outstanding = front :: rest) :
    seqLen (removed c h) = (payloads (removed c h)).length + (!front.syn).toNat ∧
      (payloads (removed c h)).length ≤ c.inbound.bytesPushed := by
  have hcreated := hc.connected.created_eq
  rw [hfront] at hcreated
  have hfollows := hc.connected.follows _ front rest hcreated
  constructor
  · by_cases hremoved : removed c h = []
    · rw [hfollows.syn.mpr hremoved, hremoved]
      rfl
    · have hopen : (removed c h).any (·.fin) = false := by simpa using hfollows.unfinished
      have hbefore : Each (TCPSender.Follows isn) (removed c h) := by
        have := hc.connected.follows
        rw [hcreated] at this
        exact this.of_append
      rw [TCPSender.seqLen_of_follows hbefore hremoved, hopen,
        Bool.eq_false_iff.mpr (mt hfollows.syn.mp hremoved)]
      simp only [Bool.not_false, Bool.toNat_true, Bool.toNat_false]
      omega
  · rw [← hc.connected.counted]
    exact hc.acknowledging.sound.payloads.length_le

/-- What the arrival of the oldest segment outstanding leaves: all of it has been delivered, and
no end has been accepted ahead of the bytes before it. -/
structure Arrived (isn : Wrap32) (front : TCPSenderMessage) (c : Connection) (h : History)
    (d : Connection) : Prop where
  inTime : ¬ c.reassembler.StopsShort (TCPReceiver.firstIndex front isn c.inbound) front.payload
    front.fin c.inbound h.written.length
  pushed : (payloads (removed c h)).length + front.payload.length ≤ d.inbound.bytesPushed
  closed : front.fin = true → d.inbound.isClosed = true
  reached : Reached d

/-- With an end that is in order, the oldest segment outstanding is the last one. -/
theorem Connected.total_of_fin (hc : Connected isn initialRTOms c h) {front : TCPSenderMessage}
    {rest : List TCPSenderMessage} (hfront : c.source.sender.outstanding = front :: rest)
    (hfin : front.fin = true) :
    h.written.length = (payloads (removed c h)).length + front.payload.length := by
  have hcreated := hc.created_eq
  rw [hfront] at hcreated
  have hm : front ∈ h.sent.created := by
    rw [hcreated]
    exact List.mem_append_right _ List.mem_cons_self
  have hrest : rest = [] := by
    cases rest with
    | nil => rfl
    | cons next rest =>
        have hnext := hc.follows (removed c h ++ [front]) next rest (by simp [hcreated])
        have hopen := hnext.unfinished front (by simp)
        rw [hfin] at hopen
        cases hopen
  rw [← (hc.finished hm hfin).2, hcreated, hrest]
  simp

/-- A receiver that has been read has all its room. -/
theorem Resumable.limit_eq (hc : Resumable isn initialRTOms capacity c h)
    (hbound : h.written.length < 2 ^ 31 - 2) (hcapacity : capacity + 2 ^ 31 ≤ 2 ^ 64)
    (hread : c.inbound.contents = []) :
    Reassembler.limit c.inbound = c.inbound.bytesPushed + capacity := by
  have hwf := hc.connected.wf.stream
  have hbuffered := hwf.buffered
  have hcounted := hwf.counted
  have hpushed := hc.connected.delivered.length_le
  rw [hc.connected.counted] at hpushed
  rw [hread, List.length_nil] at hbuffered
  rw [Reassembler.limit, ByteStream.pushed_add_available hwf, hc.capacity, u64_of_lt (by omega)]
  omega

theorem Resumable.front_index (hc : Resumable isn initialRTOms capacity c h)
    (hbound : h.written.length < 2 ^ 31 - 2) {front : TCPSenderMessage}
    {rest : List TCPSenderMessage} (hfront : c.source.sender.outstanding = front :: rest) :
    TCPReceiver.firstIndex front isn c.inbound = (payloads (removed c h)).length ∧
      (payloads (removed c h)).length + front.payload.length ≤ h.written.length := by
  have hcreated := hc.connected.created_eq
  rw [hfront] at hcreated
  have hstarts := (hc.front_starts hfront).1
  have hf := (hc.connected.faithful_at hcreated).mono hc.connected.payloads_written
  have hindex : seqLen (removed c h) - 1 = (payloads (removed c h)).length := by
    cases hsyn : front.syn with
    | false =>
        rw [hstarts, hsyn]
        rfl
    | true =>
        have hzero := hf.syn.mp hsyn
        rw [hstarts, hsyn] at hzero ⊢
        simp only [Bool.not_true, Bool.toNat_false] at hzero ⊢
        omega
  have hwithin := hf.within
  rw [hindex] at hwithin
  exact ⟨(hc.connected.firstIndex_eq hbound hf).trans hindex, hwithin⟩

/-- The whole of a segment that fits into the room of a receiver that has been read is delivered
when nothing before it is missing. -/
theorem Resumable.front_arrives (hc : Resumable isn initialRTOms capacity c h)
    (hbound : h.written.length < 2 ^ 31 - 2) (hroom : TCPConfig.maxPayloadSize ≤ capacity)
    (hcapacity : capacity + 2 ^ 31 ≤ 2 ^ 64) (hread : c.inbound.contents = [])
    (hreached : Reached c) {front : TCPSenderMessage} {rest : List TCPSenderMessage}
    (hfront : c.source.sender.outstanding = front :: rest) :
    Arrived isn front c h (c.deliver front) := by
  have hcreated := hc.connected.created_eq
  rw [hfront] at hcreated
  have hm : front ∈ h.sent.created := by
    rw [hcreated]
    exact List.mem_append_right _ List.mem_cons_self
  have hpayload := (hc.connected.follows _ front rest hcreated).payload
  have hbefore := (hc.front_starts hfront).2
  obtain ⟨hindex, hwithin⟩ := hc.front_index hbound hfront
  have hlimit := hc.limit_eq hbound hcapacity hread
  have hnow : TCPReceiver.firstIndex front isn c.inbound < Reassembler.limit c.inbound := by
    rw [hindex, hlimit]
    have : 0 < TCPConfig.maxPayloadSize := by decide
    omega
  obtain ⟨new, hins⟩ := hc.connected.inserted (hc.synchronized hfront) (m := front) (by omega)
  have hd := announced_deliver hc.announced hbound hm
  have hgrown : c.inbound.bytesPushed ≤ (c.deliver front).inbound.bytesPushed := by
    rw [hins.grows.pushed]
    exact Nat.le_add_right _ _
  have hall : (c.deliver front).inbound.bytesPushed ≤ h.written.length := by
    rw [← hd.connected.counted]
    exact hd.connected.delivered.length_le
  have hpushed : (payloads (removed c h)).length + front.payload.length ≤
      (c.deliver front).inbound.bytesPushed := by
    by_contra hless
    refine (Reassembler.isLeast_unknown hins.wf).1 ((hins.known _).mpr (Or.inr ?_))
    rw [hindex, hlimit]
    omega
  have hended : front.fin = true → (c.deliver front).inbound.bytesPushed = h.written.length := by
    intro hfin
    have htotal := hc.connected.total_of_fin hfront hfin
    omega
  have hclosed : front.fin = true → (c.deliver front).inbound.isClosed = true := by
    intro hfin
    have hnone := (Reassembler.nothing_pending_iff hins.wf (h.written.length + 1)).mpr
      ⟨h.written.length, Nat.lt_succ_self _, fun j => ⟨fun hj => ?_, fun hj => Or.inl ?_⟩⟩
    · rw [hins.closed, hins.shouldClose, hfin]
      simp [hnow, hnone.1]
    · exact (hd.known j hj).trans_le hd.connected.payloads_written.length_le
    · rwa [hended hfin]
  refine ⟨?_, hpushed, hclosed, ?_⟩
  · rw [Reassembler.stopsShort_iff hins]
    rintro ⟨-, hshould, -, hless⟩
    rw [hins.shouldClose, Bool.or_eq_true, Bool.and_eq_true] at hshould
    cases hshould with
    | inl hwas =>
        have hdone := (hc.acknowledging.complete (hreached hwas)).1
        rw [← hdone, hc.connected.counted] at hless
        omega
    | inr hfin => exact hless.ne (hended hfin.1)
  · intro hshould
    rw [hins.shouldClose, Bool.or_eq_true, Bool.and_eq_true] at hshould
    cases hshould with
    | inl hwas => rw [hins.closed, hreached hwas, Bool.true_or]
    | inr hfin => exact hclosed hfin.1

theorem Resumable.arrived_end (hc : Resumable isn initialRTOms capacity c h)
    {front : TCPSenderMessage} {rest : List TCPSenderMessage}
    (hfront : c.source.sender.outstanding = front :: rest) {d : Connection}
    (harrived : Arrived isn front c h d) :
    seqLen (removed c h) + front.sequenceLength ≤
      d.inbound.bytesPushed + 1 + d.inbound.isClosed.toNat := by
  have hpushed := harrived.pushed
  have hfin := Bool.toNat_le_toNat harrived.closed
  rw [(hc.front_starts hfront).1, sequenceLength]
  cases front.syn with
  | false =>
      simp only [Bool.not_false, Bool.toNat_true, Bool.toNat_false]
      omega
  | true =>
      simp only [Bool.not_true, Bool.toNat_true, Bool.toNat_false]
      omega

/-- The acknowledgment of the oldest segment outstanding has it removed. -/
theorem Resumable.front_acknowledged (hc : Resumable isn initialRTOms capacity c h)
    (hbound : h.written.length < 2 ^ 31 - 2) {front : TCPSenderMessage}
    {rest : List TCPSenderMessage} (hfront : c.source.sender.outstanding = front :: rest)
    (hisn : c.receiver.isn.isSome = true)
    (hend : seqLen (removed c h) + front.sequenceLength ≤
      c.inbound.bytesPushed + 1 + c.inbound.isClosed.toNat) :
    seqLen (removed c h) < seqLen (removed
      { c with source := c.source.step (.receive (c.receiver.send c.inbound)) } h) := by
  have hcreated := hc.connected.created_eq
  have hfollows := hc.connected.follows
  rw [hcreated, hfront] at hfollows
  have hnonempty := (hfollows _ front rest rfl).nonempty
  rw [hc.announced.total] at hbound
  have hle := hc.announced.ackno_le hbound hisn
  obtain ⟨hsent, hsmall⟩ := hc.announced.sent_eq hbound
  obtain ⟨gone, hr⟩ := TCPSender.receive_spec c.source.sender (c.receiver.send c.inbound)
  rw [hc.connected.removed_receive hr, seqLen_append]
  have haccepted : c.source.sender.acceptedAckno (c.receiver.send c.inbound) =
      some (c.inbound.bytesPushed + 1 + c.inbound.isClosed.toNat) := by
    obtain ⟨z, hz⟩ := Option.isSome_iff_exists.mp hisn
    obtain rfl := hc.connected.synchronized z hz
    have hunwrap : (Wrap32.wrap (c.inbound.bytesPushed + 1 + c.inbound.isClosed.toNat) z).unwrap
        c.source.sender.isn c.source.sender.seqnumsSent =
          c.inbound.bytesPushed + 1 + c.inbound.isClosed.toNat := by
      rw [hc.connected.segmented.isn]
      exact Wrap32.unwrap_wrap z (by omega) (by omega) (by omega)
    simp only [TCPSender.acceptedAckno, TCPReceiver.send, hz, hunwrap]
    rw [if_neg (Nat.not_lt.mpr hle)]
  cases gone with
  | nil =>
      have hout := hr.outstanding
      rw [List.nil_append, hfront] at hout
      have hkept := hr.kept front rest _ hout.symm haccepted
      have htracked := hc.connected.segmented.sent.tracked
      rw [hcreated] at htracked
      have hstop := htracked.segmentEnd_eq [] (by
        rw [← hcreated, ← hsent]
        omega) hfront
      rw [List.append_nil] at hstop
      omega
  | cons m gone =>
      have hout := hr.outstanding
      rw [hfront, List.cons_append] at hout
      obtain ⟨rfl, -⟩ := List.cons.inj hout
      rw [seqLen_cons]
      omega

/-- The moves of a connection that nobody writes to. -/
def Unattended : Input → Prop
  | .write _ => False
  | .close => False
  | .tick ms => ms < 2 ^ 64
  | _ => True

/-- Steps that leave nothing short, of a connection that nobody writes to. -/
def Recovering (s : Connection × History) (input : Input) : Prop :=
  Unattended input ∧ NeverShort s input

/-- What holds between the rounds of a recovery. -/
structure Resting (isn : Wrap32) (initialRTOms capacity : Nat) (written : Bytes)
    (s : Connection × History) : Prop where
  resumable : Resumable isn initialRTOms capacity s.1 s.2
  reached : Reached s.1
  written : s.2.written = written

/-- The steps that bring nothing to either side. -/
def Quiet : Input → Prop
  | .push => True
  | .tick ms => ms < 2 ^ 64
  | .transmit => True
  | .acknowledge => True
  | .read _ => True
  | _ => False

variable {written : Bytes} {s t : Connection × History}

theorem Resting.quiet (hs : Resting isn initialRTOms capacity written s)
    (hinitial : initialRTOms < 2 ^ 64) (hbound : written.length < 2 ^ 31 - 2) {input : Input}
    (hquiet : Quiet input) :
    Resting isn initialRTOms capacity written (observe step note s input) ∧
      Recovering s input ∧
      removed (s.1.step input) (note s.1 input s.2) = removed s.1 s.2 := by
  rw [← hs.written] at hbound
  have hshort : NeverShort s input := by
    cases input with
    | deliverSegment k => exact hquiet.elim
    | _ => trivial
  have hstep := resumable_step hs.resumable hinitial hbound hshort
  have hremoved := @Connected.removed_step _ _ _ _ hs.resumable.connected input
  cases input with
  | push => exact ⟨⟨hstep, hs.reached, hs.written⟩, ⟨trivial, hshort⟩, hremoved (by simp)⟩
  | tick ms => exact ⟨⟨hstep, hs.reached, hs.written⟩, ⟨hquiet, hshort⟩, hremoved (by simp)⟩
  | transmit => exact ⟨⟨hstep, hs.reached, hs.written⟩, ⟨trivial, hshort⟩, hremoved (by simp)⟩
  | acknowledge => exact ⟨⟨hstep, hs.reached, hs.written⟩, ⟨trivial, hshort⟩, hremoved (by simp)⟩
  | read len =>
      refine ⟨⟨hstep, ?_, hs.written⟩, ⟨trivial, hshort⟩, hremoved (by simp)⟩
      cases read_cases hs.resumable.connected.wf.stream len s.2 with
      | inl hidle =>
          rw [observe_fst, hidle.1]
          exact hs.reached
      | inr hreads =>
          obtain ⟨inbound, hshrinks, hread, -⟩ := hreads
          rw [observe_fst, hread]
          exact fun hshould => hshrinks.closed.trans (hs.reached hshould)
  | _ => exact hquiet.elim

theorem Resting.quietly (hs : Resting isn initialRTOms capacity written s)
    (hinitial : initialRTOms < 2 ^ 64) (hbound : written.length < 2 ^ 31 - 2)
    (h : Leads (observe step note) (fun _ input => Quiet input) s t) :
    Resting isn initialRTOms capacity written t ∧
      Leads (observe step note) Recovering s t ∧ removed t.1 t.2 = removed s.1 s.2 := by
  refine h.invariant (P := fun t => Resting isn initialRTOms capacity written t ∧
    Leads (observe step note) Recovering s t ∧ removed t.1 t.2 = removed s.1 s.2)
    ⟨hs, Leads.refl s, rfl⟩ ?_
  rintro u input ⟨hu, hleads, hremoved⟩ hquiet
  obtain ⟨hnext, hok, hkept⟩ := hu.quiet hinitial hbound hquiet
  exact ⟨hnext, hleads.snoc hok, hkept.trans hremoved⟩

/-- The application reads all that there is. -/
theorem leads_read (hwf : s.1.inbound.WF) :
    ∃ t, Leads (observe step note) (fun _ input => Quiet input) s t ∧
      t.1.inbound.contents = [] ∧ t.1.source = s.1.source := by
  have hquiet : Quiet (.read s.1.inbound.bytesBuffered) := trivial
  refine ⟨_, (Leads.refl s).snoc hquiet, ?_⟩
  obtain ⟨inbound, hpop, hshrinks⟩ := ByteStream.pop_ok hwf (Nat.le_refl _)
  rw [observe_fst, step, hpop]
  exact ⟨by rw [hshrinks.contents, hwf.buffered, List.drop_length], rfl⟩

/-- All that is ready goes out. -/
theorem leads_transmitted (ready : List TCPSenderMessage)
    (hready : s.1.source.sender.readyToSend = ready) :
    ∃ t, Leads (observe step note) (fun _ input => Quiet input) s t ∧
      t.1.inbound = s.1.inbound ∧
      t.1.source.sender.outstanding = s.1.source.sender.outstanding ∧
      t.1.segments = s.1.segments ++ ready := by
  induction ready generalizing s with
  | nil => exact ⟨s, Leads.refl s, rfl, rfl, (List.append_nil _).symm⟩
  | cons m ready ih =>
      have hsend : s.1.source.sender.maybeSend =
          ({ s.1.source.sender with readyToSend := ready }, some m) := by
        rw [TCPSender.maybeSend, hready]
      have hstep : (observe step note s .transmit).1 = { s.1 with
          source := { s.1.source with sender := { s.1.source.sender with readyToSend := ready } }
          segments := s.1.segments ++ [m] } := by
        simp only [observe_fst, step, SenderSide.step, hsend, Option.toList_some]
      obtain ⟨t, hleads, hinbound, hout, hsegments⟩ := ih (s := observe step note s .transmit)
        (by rw [hstep])
      rw [hstep] at hinbound hout hsegments
      have hquiet : Quiet .transmit := trivial
      refine ⟨t, ((Leads.refl s).snoc hquiet).trans hleads, hinbound, hout, ?_⟩
      rw [hsegments, List.append_assoc, List.singleton_append]

/-- The timer can be let expire. -/
theorem tick_expires {sender : TCPSender} {front : TCPSenderMessage}
    {rest : List TCPSenderMessage} (hfront : sender.outstanding = front :: rest)
    (hrto : sender.timer.rto < 2 ^ 64) :
    ∃ ms < 2 ^ 64, (sender.tick ms).readyToSend = sender.readyToSend ++ [front] ∧
      (sender.tick ms).outstanding = front :: rest := by
  refine ⟨u64 (sender.timer.rto + (2 ^ 64 - u64 sender.timer.timePassage)),
    u64_lt _, ?_⟩
  have hexpired : (sender.timer.tick
      (u64 (sender.timer.rto + (2 ^ 64 - u64 sender.timer.timePassage)))).isExpired = true := by
    rw [RTOTimer.isExpired, decide_eq_true_eq, RTOTimer.tick]
    simp only [u64]
    omega
  simp only [TCPSender.tick, hfront, hexpired, if_true, and_self]

/-- The oldest segment outstanding goes out again, to a receiver that has been read. -/
theorem Resting.front_sent (hs : Resting isn initialRTOms capacity written s)
    {front : TCPSenderMessage} {rest : List TCPSenderMessage}
    (hfront : s.1.source.sender.outstanding = front :: rest) :
    ∃ t, Leads (observe step note) (fun _ input => Quiet input) s t ∧
      t.1.inbound.contents = [] ∧ t.1.source.sender.outstanding = front :: rest ∧
      front ∈ t.1.segments := by
  obtain ⟨u, hread, hempty, hsource⟩ := leads_read hs.resumable.connected.wf.stream
  rw [← hsource] at hfront
  have hrto := hs.resumable.rto
  rw [← hsource] at hrto
  obtain ⟨ms, hquiet, hready, hout⟩ := tick_expires hfront hrto
  obtain ⟨t, hleads, hinbound, hkept, hsegments⟩ :=
    leads_transmitted (s := observe step note u (.tick ms)) _ hready
  refine ⟨t, (hread.snoc (i := .tick ms) hquiet).trans hleads, ?_, hkept.trans hout, ?_⟩
  · rw [hinbound]
    exact hempty
  · rw [hsegments]
    simp

/-- The acknowledgment sent last comes to the sender. -/
theorem Resting.acknowledged (hs : Resting isn initialRTOms capacity written s)
    (hinitial : initialRTOms < 2 ^ 64) (hbound : written.length < 2 ^ 31 - 2)
    {front : TCPSenderMessage} {rest : List TCPSenderMessage}
    (hfront : s.1.source.sender.outstanding = front :: rest)
    (hisn : s.1.receiver.isn.isSome = true)
    (hend : seqLen (removed s.1 s.2) + front.sequenceLength ≤
      s.1.inbound.bytesPushed + 1 + s.1.inbound.isClosed.toNat) :
    ∃ t, Leads (observe step note) Recovering s t ∧
      Resting isn initialRTOms capacity written t ∧
      seqLen (removed s.1 s.2) < seqLen (removed t.1 t.2) := by
  have hquiet : Quiet .acknowledge := trivial
  obtain ⟨hu, hok, hkept⟩ := hs.quiet hinitial hbound hquiet
  have hlast : Recovering (observe step note s .acknowledge) (.deliverAck s.1.acks.length) :=
    ⟨trivial, trivial⟩
  have hstep : (s.1.step .acknowledge).step (.deliverAck s.1.acks.length) =
      { s.1.step .acknowledge with
        source := s.1.source.step (.receive (s.1.receiver.send s.1.inbound)) } := by
    simp only [step, List.getElem?_concat_length]
  have hwritten : s.2.written.length < 2 ^ 31 - 2 := hs.written ▸ hbound
  refine ⟨_, ((Leads.refl s).snoc hok).snoc hlast,
    ⟨resumable_step hu.resumable hinitial hwritten hlast.2, ?_, hs.written⟩, ?_⟩
  · rw [observe_fst, observe_fst, hstep]
    exact hs.reached
  · rw [observe_fst, observe_fst, hstep]
    exact hs.resumable.front_acknowledged hwritten hfront hisn hend

/-- A round: the oldest segment outstanding is sent again, delivered and acknowledged. -/
theorem Resting.round (hs : Resting isn initialRTOms capacity written s)
    (hinitial : initialRTOms < 2 ^ 64) (hbound : written.length < 2 ^ 31 - 2)
    (hroom : TCPConfig.maxPayloadSize ≤ capacity) (hcapacity : capacity + 2 ^ 31 ≤ 2 ^ 64)
    {front : TCPSenderMessage} {rest : List TCPSenderMessage}
    (hfront : s.1.source.sender.outstanding = front :: rest) :
    ∃ t, Leads (observe step note) Recovering s t ∧
      Resting isn initialRTOms capacity written t ∧
      seqLen (removed s.1 s.2) < seqLen (removed t.1 t.2) := by
  obtain ⟨⟨c, h⟩, hsent, hread, hout, hmem⟩ := hs.front_sent hfront
  obtain ⟨hc, hleads, hremoved⟩ := hs.quietly hinitial hbound hsent
  have hwritten : h.written.length < 2 ^ 31 - 2 := hc.written ▸ hbound
  obtain ⟨k, hk⟩ := List.getElem?_of_mem hmem
  have harrived := hc.resumable.front_arrives hwritten hroom hcapacity hread hc.reached hout
  have hshort : NeverShort (c, h) (.deliverSegment k) := by
    intro m hm z hz
    rw [hk, Option.mem_some_iff] at hm
    subst hm
    obtain rfl := hc.resumable.connected.synchronize
      (hc.resumable.connected.inFlight front hmem) z hz
    exact harrived.inTime
  have hok : Recovering (c, h) (.deliverSegment k) := ⟨trivial, hshort⟩
  have hdelivered := resumable_step hc.resumable hinitial hwritten hshort
  have hstep : c.step (.deliverSegment k) = c.deliver front := by simp only [step, hk]
  have hd : Resting isn initialRTOms capacity written
      (observe step note (c, h) (.deliverSegment k)) := by
    refine ⟨hdelivered, ?_, hc.written⟩
    rw [observe_fst, hstep]
    exact harrived.reached
  have hsame : removed (c.step (.deliverSegment k)) (note c (.deliverSegment k) h) = removed c h :=
    hc.resumable.connected.removed_step (by simp)
  have hstill : (observe step note (c, h) (.deliverSegment k)).1.source.sender.outstanding =
      front :: rest := by
    rw [observe_fst, hstep]
    exact hout
  obtain ⟨t, hacknowledged, ht, hgone⟩ := hd.acknowledged hinitial hbound hstill
    (by rw [observe_fst, hstep, deliver_receiver, hc.resumable.synchronized hout]; rfl)
    (by rw [observe_fst, observe_snd, hsame, hstep]; exact hc.resumable.arrived_end hout harrived)
  refine ⟨t, (hleads.snoc hok).trans hacknowledged, ht, ?_⟩
  rw [observe_fst, observe_snd, hsame] at hgone
  exact hremoved ▸ hgone

/-- All that has been written has been sent, read and acknowledged, and the end too. -/
structure Completed (c : Connection) (h : History) : Prop where
  acknowledged : c.source.sender.outstanding = []
  read : h.consumed = h.written
  finished : c.source.outbound.isClosed = true → c.inbound.isFinished = true

/-- Once nothing is left to send and nothing outstanding, only reading is left to do. -/
theorem Resting.finishes (hs : Resting isn initialRTOms capacity written s)
    (hinitial : initialRTOms < 2 ^ 64) (hbound : written.length < 2 ^ 31 - 2)
    (hout : s.1.source.sender.outstanding = []) (hempty : s.1.source.outbound.contents = [])
    (hfin : s.1.source.outbound.isClosed = true → s.1.source.sender.fin = true) :
    ∃ t, Leads (observe step note) Recovering s t ∧
      Resting isn initialRTOms capacity written t ∧ Completed t.1 t.2 := by
  obtain ⟨t, hread, hnone, hsource⟩ := leads_read hs.resumable.connected.wf.stream
  obtain ⟨ht, hleads, hremoved⟩ := hs.quietly hinitial hbound hread
  have hconnected := ht.resumable.connected
  rw [← hsource] at hout hempty hfin
  have hcreated := hconnected.created_eq
  rw [hout, List.append_nil] at hcreated
  have hpayloads : payloads (removed t.1 t.2) = t.2.written := by
    rw [← hcreated, hconnected.segmented.payloads, ← hconnected.written, hempty, List.append_nil]
  have hsound := ht.resumable.acknowledging.sound
  have hdelivered : t.2.delivered = t.2.written :=
    hconnected.delivered.eq_of_length_le (hpayloads ▸ hsound.payloads.length_le)
  refine ⟨t, hleads, ht, hout, ?_, fun hclosed => ?_⟩
  · rw [← hdelivered, ← hconnected.consumed, hnone, List.append_nil]
  · obtain ⟨m, hm, hended⟩ := hconnected.segmented.sent.fin.mp (hfin hclosed)
    rw [hcreated] at hm
    exact (ByteStream.isFinished_iff hconnected.wf.stream).mpr
      ⟨(hsound.fin ⟨m, hm, hended⟩).1, hnone⟩

/-- Rounds, as many as there are sequence numbers to be acknowledged. -/
theorem Resting.completes (rounds : Nat) (hs : Resting isn initialRTOms capacity written s)
    (hinitial : initialRTOms < 2 ^ 64) (hbound : written.length < 2 ^ 31 - 2)
    (hroom : TCPConfig.maxPayloadSize ≤ capacity) (hcapacity : capacity + 2 ^ 31 ≤ 2 ^ 64)
    (hrounds : written.length + 2 < seqLen (removed s.1 s.2) + rounds) :
    ∃ t, Leads (observe step note) Recovering s t ∧
      Resting isn initialRTOms capacity written t ∧ Completed t.1 t.2 := by
  induction rounds generalizing s with
  | zero =>
      have hcreated := congrArg seqLen hs.resumable.connected.created_eq
      have hle := hs.resumable.connected.seqLen_le
      rw [hcreated, seqLen_append, hs.written] at hle
      omega
  | succ rounds ih =>
      have hquiet : Quiet .push := trivial
      obtain ⟨hpushed, hok, hkept⟩ := hs.quiet hinitial hbound hquiet
      obtain ⟨new, -, hp, hsent, hfilled, -⟩ :=
        SenderSide.step_push hs.resumable.connected.segmented.sent
      cases hout : (s.1.source.step .push).sender.outstanding with
      | nil =>
          have hwin := TCPSender.availableWinSz_eq s.1.source.sender
          have hflight := hsent.inFlight
          rw [hout, seqLen_nil] at hflight
          cases hfilled with
          | inl hfull => omega
          | inr hdrained =>
              obtain ⟨t, hleads, ht⟩ := hpushed.finishes hinitial hbound hout hdrained.1 hdrained.2
              exact ⟨t, ((Leads.refl s).snoc hok).trans hleads, ht⟩
      | cons front rest =>
          obtain ⟨u, hround, hu, hmore⟩ := hpushed.round hinitial hbound hroom hcapacity hout
          rw [observe_fst, observe_snd, hkept] at hmore
          obtain ⟨t, hleads, ht⟩ := ih hu (by omega)
          exact ⟨t, (((Leads.refl s).snoc hok).trans hround).trans hleads, ht⟩

/-- The connection after all that was in flight has been lost. -/
def lost (c : Connection) : Connection := { c with segments := [], acks := [] }

theorem Resumable.lost (hc : Resumable isn initialRTOms capacity c h) :
    Resumable isn initialRTOms capacity c.lost h := by
  have hconnected : Connected isn initialRTOms c.lost h :=
    { hc.connected with inFlight := fun _ hm => absurd hm List.not_mem_nil }
  exact {
    announced := { hc.announced with connected := hconnected }
    acknowledging := { hc.acknowledging with
      connected := hconnected
      acks := fun _ hmsg => absurd hmsg List.not_mem_nil
      sound := ⟨hc.acknowledging.sound.payloads, hc.acknowledging.sound.fin⟩ }
    heard := fun _ hmsg => absurd hmsg List.not_mem_nil
    opened := hc.opened
    rto := hc.rto
    capacity := hc.capacity }

theorem resumable_run (isn : Wrap32) {initialRTOms : Nat} (outCapacity inCapacity : Nat)
    {inputs : List Input} (hinitial : initialRTOms < 2 ^ 64)
    (hbound : (runFrom isn initialRTOms outCapacity inCapacity inputs).2.written.length
      < 2 ^ 31 - 2)
    (hshort : Along (observe step note) NeverShort
      (start isn initialRTOms outCapacity inCapacity, {}) inputs) :
    Resumable isn initialRTOms inCapacity
      (runFrom isn initialRTOms outCapacity inCapacity inputs).1
      (runFrom isn initialRTOms outCapacity inCapacity inputs).2 := by
  refine run_invariant (observe step note)
    (P := fun s => s.2.written.length < 2 ^ 31 - 2 →
      Resumable isn initialRTOms inCapacity s.1 s.2)
    (fun _ => resumable_start isn outCapacity inCapacity hinitial) ?_ hshort hbound
  intro s input hs hok hlt
  have hbefore := (written_step_le s.1 input s.2).trans_lt hlt
  exact resumable_step (hs hbefore) hinitial hbefore hok

/-- However much a run has lost, and if all that is in flight is lost too, the connection can be
completed with nobody writing to it: the bytes written so far are all delivered, read and
acknowledged, and the end too if the stream has been closed. The receiver has room for a segment,
and has accepted no end ahead of bytes before it. -/
theorem completes_after_loss (isn : Wrap32) {initialRTOms : Nat} (outCapacity : Nat)
    {inCapacity : Nat} {inputs : List Input} (hinitial : initialRTOms < 2 ^ 64)
    (hroom : TCPConfig.maxPayloadSize ≤ inCapacity) (hcapacity : inCapacity + 2 ^ 31 ≤ 2 ^ 64)
    (hbound : (runFrom isn initialRTOms outCapacity inCapacity inputs).2.written.length
      < 2 ^ 31 - 2)
    (hshort : Along (observe step note) NeverShort
      (start isn initialRTOms outCapacity inCapacity, {}) inputs)
    (hreached : Reached (runFrom isn initialRTOms outCapacity inCapacity inputs).1) :
    let s := runFrom isn initialRTOms outCapacity inCapacity inputs
    ∃ t, Leads (observe step note) Recovering (s.1.lost, s.2) t ∧ t.2.written = s.2.written ∧
      Completed t.1 t.2 := by
  intro s
  have hresumable := resumable_run isn outCapacity inCapacity hinitial hbound hshort
  have hs : Resting isn initialRTOms inCapacity s.2.written (s.1.lost, s.2) :=
    ⟨hresumable.lost, hreached, rfl⟩
  obtain ⟨t, hleads, ht, hdone⟩ := hs.completes (s.2.written.length + 3) hinitial hbound hroom
    hcapacity (by omega)
  exact ⟨t, hleads, ht.written, hdone⟩

/-- The only segment with the bytes is lost, together with the end. -/
theorem completes_after_loss_of_bytes :
    let inputs := [.write [10, 20], .push, .transmit, .deliverSegment 0, .acknowledge,
      .deliverAck 0, .close, .push, .transmit]
    let s := runFrom ⟨0⟩ 1000 8 1000 inputs
    s.1.inbound.bytesPushed = 0 ∧ s.1.source.outbound.isClosed = true ∧
      ∃ t, Leads (observe step note) Recovering (s.1.lost, s.2) t ∧ t.2.written = s.2.written ∧
        Completed t.1 t.2 := by
  intro inputs s
  refine ⟨by decide +kernel, by decide +kernel, completes_after_loss ⟨0⟩ 8 (by decide) (by decide)
    (by decide) (by decide +kernel) ?_ ?_⟩
  · refine ⟨trivial, trivial, trivial, ?_, trivial, trivial, trivial, trivial, trivial, trivial⟩
    rintro m ⟨⟩ isn ⟨⟩ ⟨-, hend, -⟩
    exact absurd hend (by decide +kernel)
  · exact fun hshould => absurd hshould (by decide +kernel)

end Connection
end Minnow
