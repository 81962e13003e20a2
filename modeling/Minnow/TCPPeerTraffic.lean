import Minnow.TCPConversationStreams
import Minnow.TCPReceiverRuns
import Minnow.MinnowSocket

/-!
What goes through a TCPPeer that a socket drives: the bytes of its streams, and the segments
it hands out. Taking segments until there is none leaves nothing ready behind.
-/

namespace Minnow
open Throwing Transition TCPSenderMessage

namespace TCPSender

/-- No more segments than these can be taken from the sender. -/
def room (s : TCPSender) : Nat :=
  s.readyToSend.length + (s.availableWinSz - s.seqnumsInFlight)

/-- A push makes ready what it takes from the window. -/
theorem push_room {s s' : TCPSender} {outbound outbound' : ByteStream} (hwf : outbound.WF)
    (h : s.push outbound = .ok (s', outbound')) : s'.room ≤ s.room := by
  have hrule := push_rule (s := s) (P := fun t _ => t.availableWinSz = s.availableWinSz ∧
      t.room ≤ s.room) (fun {t t' outbound outbound' m} ht hroom hturn hne => by
    obtain ⟨hwin, hle⟩ := ht
    have hfits := hturn.fits hroom
    have hwin' : (t'.enqueue m).availableWinSz = t.availableWinSz := by rw [hturn.state]; rfl
    have hready : (t'.enqueue m).readyToSend.length = t.readyToSend.length + 1 := by
      rw [hturn.state]
      simp [enqueue]
    have hflight : (t'.enqueue m).seqnumsInFlight = t.seqnumsInFlight + m.sequenceLength := by
      rw [hturn.state]
      rfl
    refine ⟨hwin'.trans hwin, ?_⟩
    rw [room] at hle ⊢
    rw [hwin', hready, hflight, hwin]
    omega) (fun ht _ => ht) hwf ⟨rfl, Nat.le_refl _⟩
  obtain ⟨t, o, hok, -, ⟨-, hle⟩, -⟩ := hrule
  rw [hok] at h
  cases h
  exact hle

end TCPSender

namespace SenderSide

/-- The sender has kept count, and the stream is in order. -/
def InOrder (c : SenderSide) : Prop := ∃ created, TCPSender.Sent c.sender c.outbound created

variable {c : SenderSide}

theorem InOrder.step (h : c.InOrder) (input : Input) : (c.step input).InOrder := by
  obtain ⟨created, hsent⟩ := h
  have hstart : Segmented c.sender.isn c.sender.initialRTOms c
      { created, popped := payloads created } := ⟨rfl, rfl, hsent, rfl⟩
  exact ⟨_, (segmented_step hstart input).sent⟩

theorem InOrder.run (h : c.InOrder) (inputs : List Input) :
    (Transition.run SenderSide.step c inputs).InOrder :=
  run_invariant_always SenderSide.step h (fun _ input hc => hc.step input) inputs

theorem InOrder.step_pushed (h : c.InOrder) (input : Input) :
    (c.step input).outbound.bytesPushed =
      c.outbound.bytesPushed + (c.entered input).length := by
  obtain ⟨created, hsent⟩ := h
  cases input with
  | write data =>
      have hwritten := Connection.written_eq_pushed (h := { created, popped := [] }) hsent data
      exact hwritten.symm
  | push =>
      rw [SenderSide.step]
      split
      · next hpush => exact (TCPSender.pushLoop_reads hpush).pushed
      · rfl
  | _ => rfl

theorem InOrder.run_pushed (h : c.InOrder) (inputs : List Input) :
    (Transition.run SenderSide.step c inputs).outbound.bytesPushed =
      c.outbound.bytesPushed + (c.enteredBy inputs).length := by
  induction inputs generalizing c with
  | nil => rfl
  | cons input inputs ih =>
      rw [Transition.run, ih (h.step input), h.step_pushed, enteredBy, List.length_append,
        Nat.add_assoc]

end SenderSide

namespace TCPPeer
open TCPSender

structure Traffic extends Streams where
  emitted : List Emission := []
  deriving Repr, DecidableEq

def Traffic.segments (t : Traffic) : List TCPSegment := t.emitted.map (·.segment)

/-- The segments that a step hands out. -/
def handed (p : TCPPeer) : Input → List Emission
  | .maybeSend => p.emission
  | _ => []

def noteTraffic (p : TCPPeer) (input : Input) (t : Traffic) : Traffic where
  toStreams := p.note input t.toStreams
  emitted := t.emitted ++ p.handed input

def drive : TCPPeer × Traffic → Input → TCPPeer × Traffic := observe step noteTraffic

/-- Segments come from those offered, and nothing is written to a closed stream. -/
def Permitted (offered : TCPSegment → Prop) (c : TCPPeer × Traffic) : Input → Prop
  | .receive seg => offered seg
  | .write _ => c.1.outboundStream.isClosed = false
  | _ => True

/-- The sender and the outbound stream are in order. -/
def Sending (p : TCPPeer) : Prop := p.source.InOrder

variable {p q : TCPPeer} {t : Traffic} {offered : TCPSegment → Prop}

theorem sending_start (cfg : TCPConfig) (random : Wrap32) : Sending (ofConfig cfg random) :=
  ⟨[], sent_new _ _ _⟩

theorem Sending.step (h : Sending p) {input : Input}
    (hopen : ∀ data, input = .write data → p.outboundStream.isClosed = false) :
    Sending (p.step input) := by
  obtain ⟨inputs, hsource, -⟩ := p.step_source hopen
  rw [Sending, hsource]
  exact h.run inputs

/-- What has been written is counted. -/
theorem Sending.step_pushed (h : Sending p) {input : Input}
    (hopen : ∀ data, input = .write data → p.outboundStream.isClosed = false) :
    (p.step input).outboundStream.bytesPushed =
      p.outboundStream.bytesPushed + (p.entered input).length := by
  obtain ⟨inputs, hsource, hentered⟩ := p.step_source hopen
  have hpushed := h.run_pushed inputs
  rw [← hsource, hentered] at hpushed
  exact hpushed

theorem Sending.leads (h : Sending p) {c : TCPPeer × Traffic}
    (hleads : Leads drive (Permitted offered) (p, t) c) : Sending c.1 :=
  hleads.invariant (P := fun c => Sending c.1) h fun c input hc hok => hc.step fun data hdata => by
    subst hdata
    exact hok

/-- All that has been written has entered the outbound stream. -/
def Counted (c : TCPPeer × Traffic) : Prop :=
  c.2.written.length = c.1.outboundStream.bytesPushed

theorem Counted.leads {c : TCPPeer × Traffic} (hcounted : Counted (p, t)) (h : Sending p)
    (hleads : Leads drive (Permitted offered) (p, t) c) : Counted c := by
  refine (hleads.invariant (P := fun c => Sending c.1 ∧ Counted c) ⟨h, hcounted⟩ ?_).2
  rintro c input ⟨hc, hcounted⟩ hok
  have hopen : ∀ data, input = .write data → c.1.outboundStream.isClosed = false :=
    fun data hdata => by
      subst hdata
      exact hok
  refine ⟨hc.step hopen, ?_⟩
  have hmore : (drive c input).2.written = c.2.written ++ c.1.entered input := rfl
  have hpushed : (drive c input).1.outboundStream.bytesPushed = _ := hc.step_pushed hopen
  rw [Counted, hmore, hpushed, List.length_append, hcounted]

theorem Sending.push_ok (h : Sending p) : p.push = .ok p.pushed := by
  obtain ⟨created, hsent⟩ := h
  exact (pushed_spec ⟨hsent.stream, created, hsent.tracked⟩).1

theorem Sending.pushed_closed (h : Sending p) :
    p.pushed.outboundStream.isClosed = p.outboundStream.isClosed := by
  obtain ⟨created, hsent⟩ := h
  obtain ⟨new, -, hpushed, -⟩ := SenderSide.step_push (c := p.source)
    (h := { created, popped := [] }) hsent
  have hsame := congrArg (fun c : SenderSide => c.outbound.isClosed) p.source_pushed
  exact hsame.trans hpushed.shrinks.closed

/-- What may still be handed out. -/
def room (p : TCPPeer) : Nat := p.sender.room + p.needSend.toNat

theorem pushed_room (h : Sending p) : p.pushed.room ≤ p.room := by
  have hpush := h.push_ok
  obtain ⟨created, hsent⟩ := h
  rw [push] at hpush
  split at hpush
  · cases hpush
  · next sender outboundStream hok =>
      have hle := TCPSender.push_room hsent.stream hok
      rw [room, room, ← Except.ok.inj hpush]
      exact Nat.add_le_add_right hle _

/-- Nothing is ready to be handed out. -/
def Idle (p : TCPPeer) : Prop := p.sender.readyToSend = [] ∧ p.needSend = false

/-- What a `maybeSend` does: it takes a segment, or there is none. -/
structure Takes (p q : TCPPeer) (seg : Option TCPSegment) : Prop where
  step : p.step .maybeSend = q
  emission : p.emission.map (·.segment) = seg.toList
  some : seg.isSome = true → q.room < p.room
  none : seg = none → Idle q
  inbound : q.inboundStream = p.inboundStream
  closed : q.outboundStream.isClosed = p.outboundStream.isClosed

theorem maybeSend_ok (h : Sending p) : ∃ q seg, p.maybeSend = .ok (q, seg) ∧ Takes p q seg := by
  obtain ⟨r, hroom, hinbound, hclosed, hok⟩ : ∃ r : TCPPeer, r.room ≤ p.room ∧
      r.inboundStream = p.inboundStream ∧
      r.outboundStream.isClosed = p.outboundStream.isClosed ∧
      (if (p.receiver.send p.inboundStream).ackno.isSome then p.push else .ok p) = .ok r := by
    by_cases hackno : (p.receiver.send p.inboundStream).ackno.isSome = true
    · refine ⟨p.pushed, pushed_room h, p.pushed_inbound.2, h.pushed_closed, ?_⟩
      rw [if_pos hackno, h.push_ok]
    · exact ⟨p, Nat.le_refl _, rfl, rfl, if_neg hackno⟩
  have hmaybe : p.maybeSend = .ok ({ r with sender := r.sender.maybeSend.1, needSend := false },
      (r.sender.maybeSend.2.or
        (if r.needSend then some r.sender.sendEmptyMessage else none)).map fun senderMessage => {
          senderMessage
          receiverMessage := p.receiver.send p.inboundStream
          reset := r.outboundStream.hasError || r.inboundStream.hasError }) := by
    simp only [maybeSend, hok]
  refine ⟨_, _, hmaybe, by simp only [step, hmaybe], ?_, ?_, ?_, hinbound, hclosed⟩
  · simp only [emission, hmaybe]
    cases r.sender.maybeSend.2.or
      (if r.needSend then some r.sender.sendEmptyMessage else none) <;> rfl
  · intro hsome
    refine Nat.lt_of_lt_of_le ?_ hroom
    simp only [room, TCPSender.room, TCPSender.maybeSend] at hsome ⊢
    cases hready : r.sender.readyToSend with
    | nil =>
        have hneed : r.needSend = true := by simpa [hready] using hsome
        simp [hready, hneed, TCPSender.availableWinSz]
    | cons m rest =>
        simp only [TCPSender.availableWinSz, List.length_cons, Bool.toNat_false]
        omega
  · intro hnone
    simp only [Idle, TCPSender.maybeSend] at hnone ⊢
    cases hready : r.sender.readyToSend with
    | nil => simp [hready]
    | cons m rest => simp [hready] at hnone

theorem drive_maybeSend (p : TCPPeer) (t : Traffic) : drive (p, t) .maybeSend =
    (p.step .maybeSend, { t with emitted := t.emitted ++ p.emission }) := by
  simp [drive, observe, noteTraffic, note, entered, left, handed]

/-- Enough turns collect all that there is. -/
structure Collects (offered : TCPSegment → Prop) (p : TCPPeer) (t : Traffic) (q : TCPPeer)
    (segs : List TCPSegment) (u : Traffic) : Prop where
  leads : Leads drive (Permitted offered) (p, t) (q, u)
  streams : u.toStreams = t.toStreams
  segments : u.segments = t.segments ++ segs
  idle : Idle q
  inbound : q.inboundStream = p.inboundStream
  closed : q.outboundStream.isClosed = p.outboundStream.isClosed

theorem collectLoop_ok (h : Sending p) {turns : Nat} (hturns : p.room < turns) (t : Traffic)
    (offered : TCPSegment → Prop) : ∃ q segs u,
      MinnowSocket.collectLoop turns p = .ok (q, segs) ∧ Collects offered p t q segs u := by
  induction turns generalizing p t with
  | zero => exact absurd hturns (Nat.not_lt_zero _)
  | succ turns ih =>
      obtain ⟨q, seg, hmaybe, htakes⟩ := maybeSend_ok h
      have hfirst : Leads drive (Permitted offered) (p, t)
          (q, { t with emitted := t.emitted ++ p.emission }) := by
        have hnone : Leads drive (Permitted offered) (p, t) (p, t) := .refl _
        have hstep := hnone.snoc (i := .maybeSend) trivial
        rwa [drive_maybeSend, htakes.step] at hstep
      have hthrown : thrown p.maybeSend = .ok (q, seg) := thrown_eq_ok.mpr hmaybe
      cases seg with
      | none =>
          refine ⟨q, [], _, ?_, hfirst, rfl, ?_, htakes.none rfl, htakes.inbound, htakes.closed⟩
          · rw [MinnowSocket.collectLoop, hthrown]
            rfl
          · rw [Traffic.segments, List.map_append, htakes.emission]
            rfl
      | some seg =>
          have hroom := htakes.some rfl
          have hleft : q.room < turns := by omega
          have hq : Sending q := h.leads hfirst
          obtain ⟨q', segs, u, hok, hrest⟩ := ih hq hleft
            { t with emitted := t.emitted ++ p.emission }
          refine ⟨q', seg :: segs, u, ?_, hfirst.trans hrest.leads, hrest.streams, ?_, hrest.idle,
            hrest.inbound.trans htakes.inbound, hrest.closed.trans htakes.closed⟩
          · rw [MinnowSocket.collectLoop, hthrown]
            simp only [ok_bind, hok, pure_eq_ok]
          · rw [hrest.segments, Traffic.segments, List.map_append, htakes.emission,
              List.append_assoc]
            rfl

/-- The turns that the socket makes are enough. -/
theorem room_lt_collectTurns (p : TCPPeer) : p.room < MinnowSocket.collectTurns p := by
  have hneed := Bool.toNat_le p.needSend
  simp only [room, TCPSender.room, MinnowSocket.collectTurns]
  omega

/-- No segment carries more than a datagram has room for. -/
def Small (t : Traffic) : Prop :=
  ∀ seg ∈ t.segments, seg.senderMessage.payload.length ≤ TCPConfig.maxPayloadSize

theorem emission_small (h : Sending p) : ∀ e ∈ p.emission,
    e.segment.senderMessage.payload.length ≤ TCPConfig.maxPayloadSize := by
  intro e he
  cases p.emission_cases with
  | inl hquiet =>
      rw [hquiet.2] at he
      cases he
  | inr hsent =>
      obtain ⟨q, hsent⟩ := hsent
      obtain ⟨created, hq⟩ : Sending q := by
        cases hsent.pushes with
        | inl hsame => rwa [hsame]
        | inr hpushed =>
            rw [hpushed]
            change Sending (p.step .push)
            exact h.step fun data hdata => by cases hdata
      cases hsent.message e he with
      | inl hm =>
          obtain ⟨pre, post, -, hfollows⟩ :=
            hq.follows.of_mem (hq.ready _ (TCPSender.mem_of_maybeSend hm))
          exact hfollows.payload
      | inr hempty =>
          rw [hempty]
          exact Nat.zero_le _

theorem Small.leads {c : TCPPeer × Traffic} (hsmall : Small t) (h : Sending p)
    (hleads : Leads drive (Permitted offered) (p, t) c) : Small c.2 := by
  refine (hleads.invariant (P := fun c => Sending c.1 ∧ Small c.2) ⟨h, hsmall⟩ ?_).2
  rintro c input ⟨hc, hsmall⟩ hok
  refine ⟨hc.step fun data hdata => by subst hdata; exact hok, fun seg hseg => ?_⟩
  obtain ⟨e, he, rfl⟩ := List.mem_map.mp hseg
  cases List.mem_append.mp he with
  | inl hold => exact hsmall _ (List.mem_map_of_mem hold)
  | inr hnew =>
      cases input with
      | maybeSend => exact emission_small hc e hnew
      | _ => cases hnew

/-- An inbound stream that will get no more bytes. -/
def Over (s : ByteStream) : Prop := s.isClosed = true ∨ s.hasError = true

theorem inbound_outward {input : Input} (h : Outward input) :
    (p.step input).inboundStream = p.inboundStream :=
  congrArg (fun c : Connection => c.inbound) (direction_outward p p h)

theorem advances_step (h : p.inboundStream.WF) (input : Input) :
    ReceiverSide.Advances p.inboundStream (p.step input).inboundStream := by
  let side : ReceiverSide := ⟨p.receiver, p.reassembler, p.inboundStream⟩
  cases input with
  | receive seg =>
      rw [step, receive]
      split
      · exact ⟨Nat.le_refl _, Nat.le_refl _, rfl, id, ByteStream.setError_wf h⟩
      · exact ReceiverSide.advances_step (c := side) h (.receive seg.senderMessage)
  | pop len =>
      have hside := ReceiverSide.advances_step (c := side) h (.pop len)
      simp only [ReceiverSide.step, side] at hside
      rw [step]
      cases hpop : p.inboundStream.pop len with
      | ok inbound => simpa only [hpop] using hside
      | error e => exact ReceiverSide.Advances.refl h
  | _ =>
      rw [inbound_outward (by trivial)]
      exact ReceiverSide.Advances.refl h

theorem hasError_step (h : p.inboundStream.hasError = true) (input : Input) :
    (p.step input).inboundStream.hasError = true := by
  cases input with
  | receive seg =>
      rw [step, receive, if_pos (by rw [h, Bool.or_true])]
      rfl
  | pop len =>
      rw [step]
      split
      · next hpop => exact (ByteStream.pop_reads hpop).hasError.trans h
      · exact h
  | _ =>
      rw [inbound_outward (by trivial)]
      exact h

theorem over_step (hwf : p.inboundStream.WF) (h : Over p.inboundStream) (input : Input) :
    Over (p.step input).inboundStream :=
  h.imp (advances_step hwf input).closed fun herror => hasError_step herror input

end TCPPeer
end Minnow
