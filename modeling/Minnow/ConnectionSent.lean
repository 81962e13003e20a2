import Minnow.ConnectionAcks

/-!
What the receiving side knows has been sent. It knows only indices of bytes that segments
carry, has seen a SYN only after a segment has been created and the end only after a FIN;
so its ackno never exceeds the sequence numbers sent.
-/

namespace Minnow
open Transition Histories TCPSenderMessage

namespace SenderSide

/-- The bytes that an input puts into the outbound stream. -/
def entered (c : SenderSide) (input : Input) : Bytes :=
  match input with
  | .write data => ByteStream.appended c.outbound (c.step (.write data)).outbound
  | _ => []

def enteredBy : SenderSide → List Input → Bytes
  | _, [] => []
  | c, input :: inputs => c.entered input ++ enteredBy (c.step input) inputs

end SenderSide

namespace Connection

structure Announced (isn : Wrap32) (initialRTOms : Nat) (c : Connection) (h : History) :
    Prop where
  connected : Connected isn initialRTOms c h
  total : h.written.length = c.source.outbound.bytesPushed
  known : ∀ j, c.reassembler.Known c.inbound j → j < (payloads h.sent.created).length
  opened : c.receiver.isn.isSome = true → h.sent.created ≠ []
  ending : c.reassembler.shouldClose = true ∨ c.inbound.isClosed = true →
    ∃ m ∈ h.sent.created, m.fin = true

variable {isn : Wrap32} {initialRTOms : Nat} {c : Connection} {h : History}

theorem announced_start (isn : Wrap32) (initialRTOms outCapacity inCapacity : Nat) :
    Announced isn initialRTOms (start isn initialRTOms outCapacity inCapacity) {} := by
  refine ⟨connected_start isn initialRTOms outCapacity inCapacity, rfl, ?_, nofun, nofun⟩
  intro j hj
  cases hj with
  | inl hpushed => exact absurd hpushed (Nat.not_lt_zero j)
  | inr hstored => exact absurd hstored (by simp [start])

/-- What a step adds to a history: segments, and bytes written and consumed. -/
structure Gains (h h' : History) (written consumed : Bytes) : Prop where
  created : h.sent.created <+: h'.sent.created
  written : h'.written = h.written ++ written
  consumed : h'.consumed = h.consumed ++ consumed

theorem Gains.refl (h : History) : Gains h h [] [] :=
  ⟨List.prefix_rfl, (List.append_nil _).symm, (List.append_nil _).symm⟩

theorem Gains.trans {h h' h'' : History} {written written' consumed consumed' : Bytes}
    (hgains : Gains h h' written consumed) (hmore : Gains h' h'' written' consumed') :
    Gains h h'' (written ++ written') (consumed ++ consumed') where
  created := hgains.created.trans hmore.created
  written := by rw [hmore.written, hgains.written, List.append_assoc]
  consumed := by rw [hmore.consumed, hgains.consumed, List.append_assoc]

theorem Announced.sent_eq (hc : Announced isn initialRTOms c h)
    (hbound : c.source.outbound.bytesPushed < 2 ^ 31 - 2) :
    c.source.sender.seqnumsSent = seqLen h.sent.created ∧
      c.source.sender.seqnumsSent < 2 ^ 31 := by
  have hlen := hc.connected.seqLen_le
  have hsent := hc.connected.segmented.sent.sent
  rw [hc.total] at hlen
  rw [u64_of_lt (by omega)] at hsent
  exact ⟨hsent, by omega⟩

/-- The ackno counts the SYN, the bytes pushed and the end, all of which have been sent. -/
theorem Announced.ackno_le (hc : Announced isn initialRTOms c h)
    (hbound : c.source.outbound.bytesPushed < 2 ^ 31 - 2)
    (hopen : c.receiver.isn.isSome = true) :
    c.inbound.bytesPushed + 1 + c.inbound.isClosed.toNat ≤ c.source.sender.seqnumsSent := by
  have hlen := TCPSender.seqLen_of_follows hc.connected.follows (hc.opened hopen)
  have hpushed : c.inbound.bytesPushed ≤ (payloads h.sent.created).length := by
    cases Nat.eq_zero_or_pos c.inbound.bytesPushed with
    | inl hzero =>
        rw [hzero]
        exact Nat.zero_le _
    | inr hpos =>
        have := hc.known (c.inbound.bytesPushed - 1) (Or.inl (by omega))
        omega
  have hend : c.inbound.isClosed.toNat ≤ (h.sent.created.any (·.fin)).toNat := by
    apply Bool.toNat_le_toNat
    intro hclosed
    exact List.any_eq_true.mpr (hc.ending (Or.inr hclosed))
  rw [(hc.sent_eq hbound).1]
  omega

/-- A step after which more may have been sent and the receiving side is the same. -/
theorem Announced.sends {c' : Connection} {h' : History} (hc : Announced isn initialRTOms c h)
    (hc' : Connected isn initialRTOms c' h')
    (htotal : h'.written.length = c'.source.outbound.bytesPushed)
    (hreceiver : c'.receiver = c.receiver) (hreassembler : c'.reassembler = c.reassembler)
    (hinbound : c'.inbound = c.inbound) (hmore : h.sent.created <+: h'.sent.created) :
    Announced isn initialRTOms c' h' := by
  obtain ⟨more, hmore⟩ := hmore
  refine ⟨hc', htotal, ?_, ?_, ?_⟩
  · rw [hreassembler, hinbound, ← hmore, payloads_append, List.length_append]
    intro j hj
    exact Nat.lt_add_right _ (hc.known j hj)
  · rw [hreceiver, ← hmore]
    intro hopen
    exact List.append_ne_nil_of_left_ne_nil (hc.opened hopen) more
  · rw [hreassembler, hinbound, ← hmore]
    intro hend
    obtain ⟨m, hm, hfin⟩ := hc.ending hend
    exact ⟨m, List.mem_append_left more hm, hfin⟩

theorem written_eq_pushed {s : SenderSide} {h : SenderSide.History}
    (hs : TCPSender.Sent s.sender s.outbound h.created) (data : Bytes) :
    s.outbound.bytesPushed +
        (ByteStream.appended s.outbound (s.step (.write data)).outbound).length =
      (s.step (.write data)).outbound.bytesPushed := by
  rw [SenderSide.step]
  split
  · simp [ByteStream.appended]
  · have hgrows := ByteStream.push_grows hs.stream data
    rw [hgrows.appended_eq, hgrows.pushed]

theorem Announced.source (hc : Announced isn initialRTOms c h) (input : SenderSide.Input) :
    ∃ h', Announced isn initialRTOms { c with source := c.source.step input } h' ∧
      Gains h h' (c.source.entered input) [] := by
  cases input with
  | write data =>
      refine ⟨note c (.write data) h, ?_, List.prefix_rfl, rfl, (List.append_nil _).symm⟩
      refine hc.sends (hc.connected.source_write data) ?_ rfl rfl rfl List.prefix_rfl
      simp only [note, List.length_append, hc.total]
      exact written_eq_pushed hc.connected.segmented.sent data
  | push =>
      obtain ⟨new, -, hp, -⟩ := SenderSide.step_push hc.connected.segmented.sent
      have hmore := SenderSide.created_grows c.source .push h.sent
      refine ⟨{ h with sent := SenderSide.note c.source .push h.sent }, ?_, hmore,
        (List.append_nil _).symm, (List.append_nil _).symm⟩
      refine hc.sends (hc.connected.source_same .push (by simp) hc.connected.inFlight) ?_ rfl rfl
        rfl hmore
      exact hc.total.trans hp.shrinks.pushed.symm
  | close =>
      exact ⟨h, hc.sends (hc.connected.source_same .close (by simp) hc.connected.inFlight)
        hc.total rfl rfl rfl List.prefix_rfl, Gains.refl h⟩
  | receive msg =>
      exact ⟨h, hc.sends (hc.connected.source_same (.receive msg) (by simp) hc.connected.inFlight)
        hc.total rfl rfl rfl List.prefix_rfl, Gains.refl h⟩
  | tick ms =>
      exact ⟨h, hc.sends (hc.connected.source_same (.tick ms) (by simp) hc.connected.inFlight)
        hc.total rfl rfl rfl List.prefix_rfl, Gains.refl h⟩
  | maybeSend =>
      exact ⟨h, hc.sends (hc.connected.source_same .maybeSend (by simp) hc.connected.inFlight)
        hc.total rfl rfl rfl List.prefix_rfl, Gains.refl h⟩

theorem Announced.source_run (hc : Announced isn initialRTOms c h)
    (inputs : List SenderSide.Input) :
    ∃ h', Announced isn initialRTOms { c with source := run SenderSide.step c.source inputs } h' ∧
      Gains h h' (c.source.enteredBy inputs) [] := by
  induction inputs generalizing c h with
  | nil => exact ⟨h, hc, Gains.refl h⟩
  | cons input inputs ih =>
      obtain ⟨h₁, hc₁, hgains⟩ := hc.source input
      obtain ⟨h', hc', hmore⟩ := ih hc₁
      exact ⟨h', hc', hgains.trans hmore⟩

/-- A delivery that tells nothing that has not been sent. -/
theorem Announced.delivered_by (hc : Announced isn initialRTOms c h) {m : TCPSenderMessage}
    (hsync : ∀ z ∈ (c.receiver.synchronize m).isn, z = isn)
    (hdelivers : Delivers isn h.written c m)
    (hopened : m.syn = true → h.sent.created ≠ [])
    (hbytes : ∀ j, TCPReceiver.firstIndex m isn c.inbound ≤ j →
      j < TCPReceiver.firstIndex m isn c.inbound + m.payload.length →
      j < (payloads h.sent.created).length)
    (hfin : m.fin = true → ∃ m ∈ h.sent.created, m.fin = true) :
    Announced isn initialRTOms (c.deliver m) { h with
      delivered := h.delivered ++ ByteStream.appended c.inbound (c.deliver m).inbound } := by
  have hopen : (c.deliver m).receiver.isn.isSome = true → h.sent.created ≠ [] := by
    rw [deliver_receiver, TCPReceiver.synchronize]
    split
    · next hsyn => exact fun _ => hopened hsyn
    · exact hc.opened
  refine ⟨hc.connected.delivered_by hsync hdelivers, hc.total, ?_, hopen, ?_⟩
  · cases hdelivers with
    | inl hsame =>
        rw [hsame.1, hsame.2]
        exact hc.known
    | inr hinserted =>
        obtain ⟨-, new, hins, -⟩ := hinserted
        intro j hj
        cases (hins.known j).mp hj with
        | inl hold => exact hc.known j hold
        | inr hnew => exact hbytes j hnew.1 hnew.2.1
  · cases hdelivers with
    | inl hsame =>
        rw [hsame.1, hsame.2]
        exact hc.ending
    | inr hinserted =>
        obtain ⟨-, new, hins, -⟩ := hinserted
        have hshould : (c.deliver m).reassembler.shouldClose = true →
            ∃ m ∈ h.sent.created, m.fin = true := by
          rw [hins.shouldClose, Bool.or_eq_true, Bool.and_eq_true]
          intro hshould
          cases hshould with
          | inl hwas => exact hc.ending (Or.inl hwas)
          | inr hnow => exact hfin hnow.1
        intro hend
        cases hend with
        | inl hflag => exact hshould hflag
        | inr hclosed =>
            rw [hins.closed, Bool.or_eq_true] at hclosed
            cases hclosed with
            | inl hwas => exact hc.ending (Or.inr hwas)
            | inr hnow =>
                simp only [Bool.and_eq_true] at hnow
                exact hshould hnow.1.2

theorem announced_deliver (hc : Announced isn initialRTOms c h)
    (hbound : h.written.length < 2 ^ 31 - 2) {m : TCPSenderMessage} (hm : m ∈ h.sent.created) :
    Announced isn initialRTOms (c.deliver m) { h with
      delivered := h.delivered ++ ByteStream.appended c.inbound (c.deliver m).inbound } := by
  obtain ⟨n, hf⟩ := hc.connected.faithful_sent hm
  have hindex := hc.connected.firstIndex_eq hbound (hf.mono hc.connected.payloads_written)
  have hwithin := hf.within
  refine hc.delivered_by (hc.connected.synchronize hm) (deliver_cases hc.connected hbound hm)
    (fun _ => List.ne_nil_of_mem hm) ?_ fun hfin => ⟨m, hm, hfin⟩
  intro j _ hj
  rw [hindex] at hj
  omega

/-- A delivery changes only what has been delivered. -/
theorem gains_deliver (h : History) (delivered : Bytes) :
    Gains h { h with delivered } [] [] :=
  ⟨List.prefix_rfl, (List.append_nil _).symm, (List.append_nil _).symm⟩

theorem Announced.deliver (hc : Announced isn initialRTOms c h)
    (hbound : c.source.outbound.bytesPushed < 2 ^ 31 - 2) {m : TCPSenderMessage}
    (hm : m ∈ h.sent.created) :
    ∃ h', Announced isn initialRTOms (c.deliver m) h' ∧ Gains h h' [] [] := by
  rw [← hc.total] at hbound
  exact ⟨_, announced_deliver hc hbound hm, gains_deliver h _⟩

/-- A segment without sequence numbers tells nothing. -/
theorem Announced.deliver_empty (hc : Announced isn initialRTOms c h) {m : TCPSenderMessage}
    (hzero : m.sequenceLength = 0) :
    ∃ h', Announced isn initialRTOms (c.deliver m) h' ∧ Gains h h' [] [] := by
  obtain ⟨hsyn, hpayload, hfin⟩ := sequenceLength_eq_zero.mp hzero
  have hsame : c.receiver.synchronize m = c.receiver := by
    rw [TCPReceiver.synchronize, hsyn, if_neg Bool.false_ne_true]
  have hsync : ∀ z ∈ (c.receiver.synchronize m).isn, z = isn := by
    rw [hsame]
    exact hc.connected.synchronized
  have hindex : TCPReceiver.firstIndex m isn c.inbound < 2 ^ 64 := by
    rw [TCPReceiver.firstIndex, hsyn, if_neg Bool.false_ne_true]
    exact u64_lt _
  refine ⟨_, hc.delivered_by hsync (hc.connected.delivers hsync ?_ ?_) ?_ ?_ ?_,
    gains_deliver h _⟩
  · rw [hpayload]
    exact List.nil_prefix
  · rw [hpayload]
    exact hindex
  · intro hopened
    rw [hsyn] at hopened
    cases hopened
  · intro j hle hlt
    rw [hpayload] at hlt
    exact absurd hlt (Nat.not_lt.mpr hle)
  · intro hended
    rw [hfin] at hended
    cases hended

theorem announced_read (hc : Announced isn initialRTOms c h)
    (hbound : h.written.length < 2 ^ 31 - 2) (len : Nat) :
    Announced isn initialRTOms (c.step (.read len)) (note c (.read len) h) := by
  have hconnected := connected_step hc.connected hbound (.read len)
  cases read_cases hc.connected.wf.stream len h with
  | inl hsame =>
      rw [hsame.1, hsame.2]
      exact hc
  | inr htaken =>
      obtain ⟨inbound, hs, hstep, hnote⟩ := htaken
      rw [hstep, hnote] at hconnected ⊢
      refine ⟨hconnected, hc.total, ?_, hc.opened, ?_⟩
      · intro j hj
        refine hc.known j ?_
        simpa only [Reassembler.Known, hs.pushed] using hj
      · rw [hs.closed]
        exact hc.ending

theorem Announced.read (hc : Announced isn initialRTOms c h)
    (hbound : c.source.outbound.bytesPushed < 2 ^ 31 - 2) (len : Nat) :
    ∃ h', Announced isn initialRTOms (c.step (.read len)) h' ∧
      Gains h h' [] (ByteStream.removed c.inbound (c.step (.read len)).inbound) := by
  rw [← hc.total] at hbound
  exact ⟨note c (.read len) h, announced_read hc hbound len, List.prefix_rfl,
    (List.append_nil _).symm, rfl⟩

end Connection
end Minnow
