import Minnow.ReassemblerInsert
import Minnow.TCPPeer
import Minnow.TCPSenderOutstanding

/-!
When a TCPPeer stops. It is inactive as soon as the outbound stream is finished, the
inbound one is closed and nothing is in flight; whether the FIN has been sent is not
asked. A push always leaves that right, a close or a receive without one may not. Whether
a receive closes the inbound stream is read off the indices known before it, as long as
they are 64-bit numbers.
-/

namespace Minnow
open Transition Histories TCPSenderMessage

theorem ByteStream.finished_of_push {s : ByteStream} {data : Bytes}
    (h : (s.push data).isFinished = true) : s.isFinished = true := by
  rw [push] at h
  split at h
  · exact h
  · simp only [isFinished, Bool.and_eq_true, beq_iff_eq] at h ⊢
    exact ⟨h.1, by omega⟩

namespace Reassembler

theorem flushLoop_hasError (nodes : List Substring) (nbytes : Nat) (output : ByteStream) :
    (flushLoop nodes nbytes output).2.2.hasError = output.hasError := by
  induction nodes generalizing nbytes output with
  | nil => rfl
  | cons it rest ih =>
      rw [flushLoop]
      split
      · rw [ih, ByteStream.push_hasError]
      · exact ih nbytes output

theorem insert_hasError (r : Reassembler) (firstIndex : Nat) (data : Bytes)
    (isLastSubstring : Bool) (output : ByteStream) :
    (r.insert firstIndex data isLastSubstring output).2.hasError = output.hasError := by
  have hnext (data : Bytes) : (pushNext firstIndex data output).2.hasError = output.hasError := by
    rw [pushNext]
    split
    · exact ByteStream.push_hasError _ _
    · rfl
  rw [insert]
  split
  · rfl
  · dsimp only
    split
    · exact (flushLoop_hasError _ _ _).trans (hnext _)
    · exact (flushLoop_hasError _ _ _).trans (hnext _)

end Reassembler

theorem TCPReceiver.receive_hasError (r : TCPReceiver) (message : TCPSenderMessage)
    (reassembler : Reassembler) (inboundStream : ByteStream) :
    (r.receive message reassembler inboundStream).2.2.hasError = inboundStream.hasError := by
  rw [receive]
  split
  · rfl
  · exact Reassembler.insert_hasError _ _ _ _ _

/-- An index that is accepted is not far beyond the stream. -/
theorem TCPReceiver.firstIndex_lt {message : TCPSenderMessage} {isn : Wrap32}
    {inboundStream : ByteStream} (hpushed : inboundStream.bytesPushed < 2 ^ 63)
    (hlimit : firstIndex message isn inboundStream < Reassembler.limit inboundStream) :
    firstIndex message isn inboundStream < inboundStream.bytesPushed + 2 ^ 32 := by
  have hlimit' : Reassembler.limit inboundStream < 2 ^ 64 := u64_lt _
  have hoff : message.seqno.offset isn inboundStream.bytesPushed < 2 ^ 32 := UInt32.toNat_lt _
  have hnear : message.seqno.unwrap isn inboundStream.bytesPushed <
      inboundStream.bytesPushed + 2 ^ 32 := by
    rcases Wrap32.unwrap_cases message.seqno isn
      (by omega : inboundStream.bytesPushed + 2 ^ 32 ≤ 2 ^ 64) with ⟨-, h⟩ | ⟨-, -, h⟩ <;> omega
  rw [firstIndex] at hlimit ⊢
  cases hsyn : message.syn with
  | true =>
      rw [if_pos rfl]
      omega
  | false =>
      -- the number of the SYN itself gives the index 2^64 - 1, which is refused
      simp only [hsyn, Bool.false_eq_true, if_false, u64] at hlimit ⊢
      omega

namespace TCPSender

/-- The message acknowledges all that is outstanding. -/
def Acknowledged (s : TCPSender) (msg : TCPReceiverMessage) : Prop :=
  ∀ m ∈ s.outstanding, ∃ absoluteAckno, s.acceptedAckno msg = some absoluteAckno ∧
    s.segmentEnd m ≤ absoluteAckno

theorem Tracked.pos {s : TCPSender} {created : List TCPSenderMessage} (hs : Tracked s created)
    {m : TCPSenderMessage} (hm : m ∈ s.outstanding) : 0 < m.sequenceLength := by
  obtain ⟨pre, post, hsplit⟩ := List.append_of_mem (hs.outstanding.subset hm)
  exact (hs.numbered pre m post hsplit).2

theorem Tracked.inFlight_eq_zero {s : TCPSender} {created : List TCPSenderMessage}
    (hs : Tracked s created) : s.seqnumsInFlight = 0 ↔ s.outstanding = [] := by
  rw [hs.inFlight]
  cases hout : s.outstanding with
  | nil => simp
  | cons front rest =>
      have hpos := hs.pos (hout ▸ List.mem_cons_self : front ∈ s.outstanding)
      simp only [seqLen_cons, reduceCtorEq, iff_false]
      omega

theorem receive_inFlight_eq_zero {s : TCPSender} {created : List TCPSenderMessage}
    (hs : Tracked s created) (msg : TCPReceiverMessage) :
    (s.receive msg).seqnumsInFlight = 0 ↔ s.Acknowledged msg := by
  obtain ⟨gone, hr⟩ := receive_spec s msg
  rw [(hr.tracked hs).1.inFlight_eq_zero]
  constructor
  · intro hnil m hm
    rw [hr.outstanding, hnil, List.append_nil] at hm
    exact hr.acknowledged m hm
  · intro hall
    cases hout : (s.receive msg).outstanding with
    | nil => rfl
    | cons front rest =>
        have hmem : front ∈ s.outstanding := by
          rw [hr.outstanding, hout]
          exact List.mem_append_right _ List.mem_cons_self
        obtain ⟨a, ha, hend⟩ := hall front hmem
        exact absurd (hr.kept front rest a hout ha) (Nat.not_lt.mpr hend)

end TCPSender

namespace TCPPeer
open TCPSender

/-- What the socket's rules do to a peer. A `close` comes with a push when the end of the
application's data is read, and alone when that rule is cancelled. -/
inductive Input where
  | receive (seg : TCPSegment)
  | write (data : Bytes)
  | close (pushes : Bool)
  | push
  | maybeSend
  | tick (ms : Nat)
  | pop (len : Nat)

/-- A call that throws leaves the peer as it was. -/
def pushed (p : TCPPeer) : TCPPeer :=
  match p.push with
  | .ok p => p
  | .error _ => p

def closed (p : TCPPeer) : TCPPeer := { p with outboundStream := p.outboundStream.close }

def step (p : TCPPeer) : Input → TCPPeer
  | .receive seg => p.receive seg
  | .write data => { p with outboundStream := p.outboundStream.push data }
  | .close pushes => if pushes then p.closed.pushed else p.closed
  | .push => p.pushed
  | .maybeSend =>
      match p.maybeSend with
      | .ok (p, _) => p
      | .error _ => p
  | .tick ms => p.tick ms
  | .pop len =>
      match p.inboundStream.pop len with
      | .ok inboundStream => { p with inboundStream }
      | .error _ => p

/-- A peer that is not active, and not because of an error, has finished its direction. -/
def FinishesFirst (p : TCPPeer) : Prop :=
  p.active = false → p.inboundStream.hasError = false →
    p.inboundStream.isClosed = true ∧ p.sender.fin = true ∧
      p.sender.sequenceNumbersInFlight = 0

/-- The inbound stream is closed when the receiver has taken the segment. -/
def closedBy (p : TCPPeer) (seg : TCPSegment) : Bool :=
  (p.receiver.receive seg.senderMessage p.reassembler p.inboundStream).2.2.isClosed

/-- The inbound stream is closed, or the segment is accepted, with it the end of the stream
has been accepted, and the indices known by then have no gap. -/
def Closes (p : TCPPeer) (seg : TCPSegment) : Prop :=
  p.inboundStream.isClosed = true ∨
    ∃ isn, (p.receiver.synchronize seg.senderMessage).isn = some isn ∧
      let firstIndex := TCPReceiver.firstIndex seg.senderMessage isn p.inboundStream
      firstIndex < Reassembler.limit p.inboundStream ∧
        (p.reassembler.shouldClose || seg.senderMessage.fin) = true ∧
        ∃ m, ∀ j, (p.reassembler.Known p.inboundStream j ∨
          firstIndex ≤ j ∧ j < firstIndex + seg.senderMessage.payload.length ∧
            j < Reassembler.limit p.inboundStream) ↔ j < m

/-- Nothing is left for which the peer would be driven on while its FIN is still to be
sent: not by a close without a push, and not by a segment that acknowledges all that is
in flight, when it leaves the inbound stream closed. -/
def Driven (closes : TCPPeer → TCPSegment → Prop) (p : TCPPeer) : Input → Prop
  | .close false => ¬ (p.inboundStream.hasError = false ∧ p.outboundStream.bytesBuffered = 0 ∧
      p.inboundStream.isClosed = true ∧ p.sender.sequenceNumbersInFlight = 0 ∧
      p.sender.fin = false)
  | .receive seg => ¬ (seg.reset = false ∧ p.inboundStream.hasError = false ∧
      p.outboundStream.isFinished = true ∧ closes p seg ∧
      p.sender.Acknowledged seg.receiverMessage ∧ p.sender.fin = false)
  | _ => True

/-- The indices of a segment are 64-bit numbers. -/
def Indexed (p : TCPPeer) : Input → Prop
  | .receive seg => p.inboundStream.bytesPushed + seg.senderMessage.payload.length < 2 ^ 63
  | _ => True

/-- The receiver keeps the Reassembler in order, and closes the stream as `Closes` says. -/
theorem received_spec {p : TCPPeer} (hwf : p.reassembler.WF p.inboundStream) {seg : TCPSegment}
    (hindexed : Indexed p (.receive seg)) :
    let done := p.receiver.receive seg.senderMessage p.reassembler p.inboundStream
    done.2.1.WF done.2.2 ∧ (p.closedBy seg = true ↔ p.Closes seg) := by
  rw [closedBy, Closes, TCPReceiver.receive]
  cases (p.receiver.synchronize seg.senderMessage).isn with
  | none => exact ⟨hwf, by simp⟩
  | some isn =>
      obtain ⟨new, hins⟩ := Reassembler.insert_spec hwf
        (TCPReceiver.firstIndex seg.senderMessage isn p.inboundStream) seg.senderMessage.payload
        seg.senderMessage.fin fun hlimit => by
          change _ + _ < _ at hindexed
          have hnear := TCPReceiver.firstIndex_lt (by omega) hlimit
          omega
      refine ⟨hins.wf, ?_⟩
      simpa only [Option.some.injEq, exists_eq_left'] using hins.closed_iff

theorem driven_iff {p : TCPPeer} (hwf : p.reassembler.WF p.inboundStream) {input : Input}
    (hindexed : Indexed p input) :
    Driven (fun p seg => p.closedBy seg = true) p input ↔ Driven Closes p input := by
  cases input with
  | receive seg => rw [Driven, Driven, (received_spec hwf hindexed).2]
  | close pushes => cases pushes <;> exact Iff.rfl
  | _ => exact Iff.rfl

theorem finishesFirst_iff {p : TCPPeer} : FinishesFirst p ↔
    ¬ (p.inboundStream.hasError = false ∧ p.outboundStream.isFinished = true ∧
      p.inboundStream.isClosed = true ∧ p.sender.seqnumsInFlight = 0 ∧ p.sender.fin = false) := by
  rw [FinishesFirst, active, sequenceNumbersInFlight]
  cases p.inboundStream.hasError <;> cases p.outboundStream.isFinished <;>
    cases p.inboundStream.isClosed <;> cases p.sender.fin <;> simp

/-- The sender keeps count and the outbound stream is in order. -/
structure Kept (p : TCPPeer) : Prop where
  stream : p.outboundStream.WF
  tracked : ∃ created, Tracked p.sender created

theorem kept_start (cfg : TCPConfig) (random : Wrap32) : Kept (ofConfig cfg random) :=
  ⟨ByteStream.wf_new _, [], tracked_new _ _⟩

/-- A push leaves the receiving side alone. -/
theorem pushed_inbound (p : TCPPeer) : p.pushed.reassembler = p.reassembler ∧
    p.pushed.inboundStream = p.inboundStream := by
  rw [pushed, push]
  cases p.sender.push p.outboundStream <;> exact ⟨rfl, rfl⟩

/-- A push does not throw, and after it the FIN has been sent if the stream is finished
and nothing is in flight. -/
theorem pushed_spec {p : TCPPeer} (h : Kept p) :
    p.push = .ok p.pushed ∧ Kept p.pushed ∧ FinishesFirst p.pushed := by
  obtain ⟨created, ht⟩ := h.tracked
  obtain ⟨sender, outboundStream, hok, hwf, htracked, hfilled⟩ := push_rule (s := p.sender)
    (P := fun t _ => ∃ created, Tracked t created)
    (fun ⟨created, ht⟩ hroom hturn hne =>
      ⟨_, hturn.tracked ht hroom p.sender.availableWinSz_le hne⟩)
    (fun h _ => h) h.stream ⟨created, ht⟩
  have hpush : p.push = .ok { p with sender, outboundStream } := by
    simp only [push, hok]
  have hpushed : p.pushed = { p with sender, outboundStream } := by
    simp only [pushed, hpush]
  rw [hpushed, finishesFirst_iff]
  refine ⟨hpush, ⟨hwf, htracked⟩, ?_⟩
  rintro ⟨-, hfinished, -, hzero, hfin⟩
  obtain ⟨hclosed, -⟩ := (ByteStream.isFinished_iff hwf).mp hfinished
  cases hfilled with
  | inl hfull =>
      have hwin := availableWinSz_eq p.sender
      change sender.seqnumsInFlight = 0 at hzero
      omega
  | inr hended =>
      obtain ⟨-, hdone⟩ := hended
      exact Bool.noConfusion (hfin.symm.trans (hdone hclosed))

theorem maybeSend_cases (p : TCPPeer) (h : Kept p) :
    ∃ q : TCPPeer, (q = p ∨ q = p.pushed) ∧
      p.step .maybeSend = { q with sender := q.sender.maybeSend.1, needSend := false } := by
  by_cases hackno : (p.receiver.send p.inboundStream).ackno.isSome
  · refine ⟨p.pushed, Or.inr rfl, ?_⟩
    simp only [step, maybeSend, hackno, if_true, (pushed_spec h).1]
  · refine ⟨p, Or.inl rfl, ?_⟩
    simp only [step, maybeSend, hackno, Bool.false_eq_true, if_false]

theorem kept_step {p : TCPPeer} (h : Kept p) (input : Input) : Kept (p.step input) := by
  obtain ⟨created, ht⟩ := h.tracked
  cases input with
  | receive seg =>
      rw [step, receive]
      split
      · exact ⟨h.stream, created, ht⟩
      · obtain ⟨gone, hr⟩ := receive_spec p.sender seg.receiverMessage
        exact ⟨h.stream, created, (hr.tracked ht).1⟩
  | write data => exact ⟨(ByteStream.push_grows h.stream data).wf, created, ht⟩
  | close pushes =>
      have hclosed : Kept p.closed := ⟨ByteStream.close_wf h.stream, created, ht⟩
      cases pushes with
      | false => exact hclosed
      | true => exact (pushed_spec hclosed).2.1
  | push => exact (pushed_spec h).2.1
  | maybeSend =>
      obtain ⟨q, hq, hstep⟩ := p.maybeSend_cases h
      have hkept : Kept q := by
        cases hq with
        | inl hsame =>
            rw [hsame]
            exact h
        | inr hpushed =>
            rw [hpushed]
            exact (pushed_spec h).2.1
      obtain ⟨created', ht'⟩ := hkept.tracked
      rw [hstep]
      exact ⟨hkept.stream, created', (maybeSend_counters q.sender).tracked created' ht'⟩
  | tick ms => exact ⟨h.stream, created, (tick_counters p.sender ms).tracked created ht⟩
  | pop len =>
      rw [step]
      split <;> exact ⟨h.stream, created, ht⟩

/-- The Reassembler stays in order. -/
theorem ordered_step {p : TCPPeer} (h : Kept p) (hwf : p.reassembler.WF p.inboundStream)
    {input : Input} (hindexed : Indexed p input) :
    (p.step input).reassembler.WF (p.step input).inboundStream := by
  have hpushed (q : TCPPeer) (hq : q.reassembler.WF q.inboundStream) :
      q.pushed.reassembler.WF q.pushed.inboundStream := by
    rw [q.pushed_inbound.1, q.pushed_inbound.2]
    exact hq
  cases input with
  | receive seg =>
      rw [step, receive]
      split
      · exact ⟨ByteStream.setError_wf hwf.stream, hwf.separated, hwf.counted, hwf.bounded⟩
      · exact (received_spec hwf hindexed).1
  | close pushes =>
      cases pushes with
      | false => exact hwf
      | true => exact hpushed p.closed hwf
  | push => exact hpushed p hwf
  | maybeSend =>
      obtain ⟨q, hq, hstep⟩ := p.maybeSend_cases h
      rw [hstep]
      cases hq with
      | inl hsame => exact hsame ▸ hwf
      | inr hafter => exact hafter ▸ hpushed p hwf
  | pop len =>
      rw [step]
      by_cases hlen : len ≤ p.inboundStream.bytesBuffered
      · obtain ⟨inboundStream, hpop, hshrinks⟩ := ByteStream.pop_ok hwf.stream hlen
        simp only [hpop]
        exact hwf.shrinks hshrinks
      · simp only [ByteStream.pop_error (Nat.not_le.mp hlen)]
        exact hwf
  | write _ | tick _ => exact hwf

/-- A receive stops the peer early exactly when nothing is left in flight and the inbound
stream is closed while the FIN of a finished stream is still to be sent. -/
theorem finishesFirst_receive_iff {p : TCPPeer} (h : Kept p) (seg : TCPSegment) :
    FinishesFirst (p.step (.receive seg)) ↔
      Driven (fun p seg => p.closedBy seg = true) p (.receive seg) := by
  obtain ⟨created, ht⟩ := h.tracked
  obtain ⟨gone, hr⟩ := receive_spec p.sender seg.receiverMessage
  have hfin : (p.sender.receive seg.receiverMessage).fin = p.sender.fin := by rw [hr.state]
  rw [finishesFirst_iff, Driven, step, receive]
  by_cases herror : (seg.reset || p.inboundStream.hasError) = true
  · rw [if_pos herror]
    rw [Bool.or_eq_true] at herror
    refine ⟨fun _ hbad => ?_, fun _ hbad => absurd hbad.1 (by simp [ByteStream.setError])⟩
    cases herror with
    | inl hreset => exact absurd hbad.1 (by simp [hreset])
    | inr herror => exact absurd hbad.2.1 (by simp [herror])
  · rw [if_neg herror]
    simp only [Bool.or_eq_true, not_or, Bool.not_eq_true] at herror
    simp only [TCPReceiver.receive_hasError, herror, hfin, receive_inFlight_eq_zero ht, closedBy,
      true_and]

/-- The other steps keep what the peer has finished. -/
theorem finishesFirst_step_iff {p : TCPPeer} (h : Kept p) (hfirst : FinishesFirst p)
    (input : Input) : FinishesFirst (p.step input) ↔
      Driven (fun p seg => p.closedBy seg = true) p input := by
  cases input with
  | receive seg => exact finishesFirst_receive_iff h seg
  | write data =>
      refine iff_of_true ?_ trivial
      rw [finishesFirst_iff] at hfirst ⊢
      rintro ⟨herror, hfinished, hrest⟩
      exact hfirst ⟨herror, ByteStream.finished_of_push hfinished, hrest⟩
  | close pushes =>
      have hclosed : Kept p.closed := ⟨ByteStream.close_wf h.stream, h.tracked⟩
      cases pushes with
      | false =>
          rw [finishesFirst_iff, Driven]
          simp only [step, closed, ByteStream.isFinished, ByteStream.close,
            sequenceNumbersInFlight, Bool.false_eq_true, if_false, Bool.true_and, beq_iff_eq]
      | true => exact iff_of_true (pushed_spec hclosed).2.2 trivial
  | push => exact iff_of_true (pushed_spec h).2.2 trivial
  | maybeSend =>
      refine iff_of_true ?_ trivial
      obtain ⟨q, hq, hstep⟩ := p.maybeSend_cases h
      have hq' : FinishesFirst q := by
        cases hq with
        | inl hsame =>
            rw [hsame]
            exact hfirst
        | inr hpushed =>
            rw [hpushed]
            exact (pushed_spec h).2.2
      have hsame := maybeSend_counters q.sender
      rw [hstep, finishesFirst_iff]
      simp only [hsame.fin, hsame.inFlight]
      exact finishesFirst_iff.mp hq'
  | tick ms =>
      refine iff_of_true ?_ trivial
      have hsame := tick_counters p.sender ms
      rw [step, tick, finishesFirst_iff]
      simp only [hsame.fin, hsame.inFlight]
      exact finishesFirst_iff.mp hfirst
  | pop len =>
      refine iff_of_true ?_ trivial
      rw [step]
      split
      · next inboundStream hpop =>
          obtain ⟨herror, hclosed⟩ := ByteStream.pop_flags hpop
          rw [finishesFirst_iff]
          simp only [herror, hclosed]
          exact finishesFirst_iff.mp hfirst
      · exact hfirst

/-- The peer closes its stream after everything sent has been acknowledged and the other
side has finished; its rule is cancelled, so no push follows. -/
theorem inactive_before_fin :
    let inputs : List Input :=
      [.push,
        .receive { senderMessage := { seqno := ⟨100⟩, syn := true, fin := true }
                   receiverMessage := { ackno := some ⟨1⟩, windowSize := 1000 } },
        .close false]
    let p := run step (ofConfig { fixedIsn := some ⟨0⟩ } ⟨0⟩) inputs
    p.active = false ∧ p.inboundStream.hasError = false ∧ p.sender.fin = false := by
  decide

/-- In every run the peer is inactive only with its direction finished, exactly when each
step leaves something for which it is driven on. With 64-bit indices, that a segment
closes the inbound stream is a condition on the indices known before it. -/
theorem finishes_first_iff_driven (cfg : TCPConfig) (random : Wrap32) (inputs : List Input) :
    let p := ofConfig cfg random
    ((∀ pre, pre <+: inputs → FinishesFirst (run step p pre)) ↔
      Along step (Driven fun p seg => p.closedBy seg = true) p inputs) ∧
    (Along step Indexed p inputs →
      ((∀ pre, pre <+: inputs → FinishesFirst (run step p pre)) ↔
        Along step (Driven Closes) p inputs)) := by
  intro p
  have hstart : FinishesFirst p := by
    rw [finishesFirst_iff]
    rintro ⟨-, hfinished, -⟩
    cases hfinished
  have hiff : (∀ pre, pre <+: inputs → FinishesFirst (run step p pre)) ↔
      Along step (Driven fun p seg => p.closedBy seg = true) p inputs :=
    throughout_iff_along (P := fun p => Kept p ∧ FinishesFirst p)
      ⟨kept_start cfg random, hstart⟩ hstart (along_true p inputs)
      (fun p input hp _ hok =>
        ⟨kept_step hp.1 input, (finishesFirst_step_iff hp.1 hp.2 input).mpr hok⟩)
      (fun p input hp _ => finishesFirst_step_iff hp.1 hp.2 input)
  refine ⟨hiff, fun hindexed => hiff.trans ?_⟩
  exact along_iff_along (P := fun p => Kept p ∧ p.reassembler.WF p.inboundStream)
    ⟨kept_start cfg random, Reassembler.wf_new (ByteStream.wf_new _)⟩ hindexed
    (fun p input hp hi _ => ⟨kept_step hp.1 input, ordered_step hp.1 hp.2 hi⟩)
    (fun p input hp hi => driven_iff hp.2 hi)

/-- The other side finishes first; the FIN of this side is sent and acknowledged. -/
theorem finishes_first_in_turn :
    let p := ofConfig { fixedIsn := some ⟨0⟩ } ⟨0⟩
    let inputs : List Input :=
      [.push,
        .receive { senderMessage := { seqno := ⟨100⟩, syn := true, payload := [97], fin := true }
                   receiverMessage := { ackno := some ⟨1⟩, windowSize := 1000 } },
        .write [98], .close true,
        .receive { senderMessage := { seqno := ⟨103⟩ }
                   receiverMessage := { ackno := some ⟨3⟩, windowSize := 1000 } }]
    Along step (Driven Closes) p inputs ∧ (run step p inputs).active = false := by
  intro p inputs
  have hfirst : ∀ pre ∈ inputs.inits, FinishesFirst (run step p pre) := by
    simp only [FinishesFirst]
    decide
  refine ⟨((finishes_first_iff_driven { fixedIsn := some ⟨0⟩ } ⟨0⟩ inputs).2 ?_).mp ?_, by decide⟩
  · exact ⟨trivial, by change _ + _ < _; decide, trivial, trivial, by change _ + _ < _; decide,
      trivial⟩
  · exact fun pre hpre => hfirst pre ((List.mem_inits _ _).mpr hpre)

end TCPPeer
end Minnow
