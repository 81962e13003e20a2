import Minnow.ConnectionSent
import Minnow.TCPPeerRuns

/-!
A TCPPeer as the sending side of one direction and the receiving side of the other. What
its steps do to the one are inputs of a SenderSide, and to the other deliveries and reads.
-/

namespace Minnow
open Transition TCPSenderMessage

namespace ByteStream

/-- Reading changes neither what has been pushed nor the error flag. -/
structure Reads (s s' : ByteStream) : Prop where
  pushed : s'.bytesPushed = s.bytesPushed
  hasError : s'.hasError = s.hasError

theorem Reads.refl (s : ByteStream) : Reads s s := ⟨rfl, rfl⟩

theorem Reads.trans {s t u : ByteStream} (h : Reads s t) (k : Reads t u) : Reads s u :=
  ⟨k.pushed.trans h.pushed, k.hasError.trans h.hasError⟩

theorem pop_reads {s s' : ByteStream} {len : Nat} (h : s.pop len = .ok s') : Reads s s' := by
  simp only [pop] at h
  split at h
  · cases h
  · cases h
    exact ⟨rfl, rfl⟩

theorem readLoop_reads {fuel : Nat} {s : ByteStream} {len : Nat} {out : Bytes}
    {r : ByteStream × Bytes} (h : readLoop fuel s len out = .ok r) : Reads s r.1 := by
  induction fuel generalizing s out with
  | zero =>
      cases h
      exact Reads.refl s
  | succ fuel ih =>
      simp only [readLoop] at h
      split at h
      · split at h
        · cases h
        · split at h
          · cases h
          · next hpop => exact (pop_reads hpop).trans (ih h)
      · cases h
        exact Reads.refl s

end ByteStream

namespace TCPSender

theorem nextSegment_reads {s : TCPSender} {availableWinSz : Nat} {outbound : ByteStream}
    {r : TCPSender × TCPSenderMessage × ByteStream}
    (h : s.nextSegment availableWinSz outbound = .ok r) : outbound.Reads r.2.2 := by
  simp only [nextSegment] at h
  split at h
  · cases h
  · next hread =>
      cases h
      exact ByteStream.readLoop_reads hread

theorem pushLoop_reads {availableWinSz turns : Nat} {s : TCPSender} {outbound : ByteStream}
    {r : TCPSender × ByteStream} (h : pushLoop availableWinSz turns s outbound = .ok r) :
    outbound.Reads r.2 := by
  induction turns generalizing s outbound with
  | zero =>
      cases h
      exact ByteStream.Reads.refl outbound
  | succ turns ih =>
      simp only [pushLoop] at h
      split at h
      · split at h
        · cases h
        · next hnext =>
            have hreads := nextSegment_reads hnext
            split at h
            · cases h
              exact hreads
            · split at h
              · cases h
                exact hreads
              · exact hreads.trans (ih h)
      · cases h
        exact ByteStream.Reads.refl outbound

end TCPSender

namespace SenderSide

theorem step_hasError (c : SenderSide) (input : Input) :
    (c.step input).outbound.hasError = c.outbound.hasError := by
  cases input with
  | write data =>
      rw [step]
      split
      · rfl
      · exact ByteStream.push_hasError _ _
  | push =>
      rw [step]
      split
      · next hpush => exact (TCPSender.pushLoop_reads hpush).hasError
      · rfl
  | _ => rfl

theorem step_pushed_le (c : SenderSide) (input : Input) :
    c.outbound.bytesPushed ≤ (c.step input).outbound.bytesPushed := by
  cases input with
  | write data =>
      rw [step]
      split
      · exact Nat.le_refl _
      · rw [ByteStream.push]
        split
        · exact Nat.le_refl _
        · exact Nat.le_add_right _ _
  | push =>
      rw [step]
      split
      · next hpush => exact Nat.le_of_eq (TCPSender.pushLoop_reads hpush).pushed.symm
      · exact Nat.le_refl _
  | _ => exact Nat.le_refl _

theorem run_hasError (c : SenderSide) (inputs : List Input) :
    (run step c inputs).outbound.hasError = c.outbound.hasError := by
  induction inputs generalizing c with
  | nil => rfl
  | cons input inputs ih => exact (ih _).trans (step_hasError c input)

theorem run_pushed_le (c : SenderSide) (inputs : List Input) :
    c.outbound.bytesPushed ≤ (run step c inputs).outbound.bytesPushed := by
  induction inputs generalizing c with
  | nil => exact Nat.le_refl _
  | cons input inputs ih => exact (step_pushed_le c input).trans (ih _)

end SenderSide

namespace TCPPeer

def source (p : TCPPeer) : SenderSide := ⟨p.sender, p.outboundStream⟩

/-- What `p` sends and `q` receives. -/
def direction (p q : TCPPeer) : Connection where
  source := p.source
  receiver := q.receiver
  reassembler := q.reassembler
  inbound := q.inboundStream

theorem source_pushed (p : TCPPeer) : p.pushed.source = p.source.step .push := by
  simp only [pushed, push, source, SenderSide.step]
  cases p.sender.push p.outboundStream <;> rfl

theorem direction_pushed (p q : TCPPeer) : direction q p.pushed = direction q p := by
  simp only [pushed, push]
  cases p.sender.push p.outboundStream <;> rfl

/-- A segment handed out, with the sequence numbers its peer had sent by then. -/
structure Emission where
  segment : TCPSegment
  sent : Nat
  deriving Repr, DecidableEq

def emission (p : TCPPeer) : List Emission :=
  match p.maybeSend with
  | .ok (q, some segment) => [⟨segment, q.sender.seqnumsSent⟩]
  | _ => []

theorem maybeSend_seqnumsSent (s : TCPSender) : s.maybeSend.1.seqnumsSent = s.seqnumsSent := by
  rw [TCPSender.maybeSend]
  split <;> rfl

/-- A `maybeSend` that takes its message from `q`: one that is ready there, or an empty one. -/
structure SendsFrom (p q : TCPPeer) : Prop where
  pushes : q = p ∨ q = p.pushed
  state : p.step .maybeSend = { q with sender := q.sender.maybeSend.1, needSend := false }
  reset : ∀ e ∈ p.emission,
    e.segment.reset = (q.outboundStream.hasError || q.inboundStream.hasError)
  sent : ∀ e ∈ p.emission, e.sent = q.sender.seqnumsSent
  message : ∀ e ∈ p.emission, e.segment.senderMessage ∈ q.sender.maybeSend.2.toList ∨
    e.segment.senderMessage = q.sender.sendEmptyMessage

theorem sendsFrom_of_ok {p q : TCPPeer} (hq : q = p ∨ q = p.pushed)
    (hok : (if (p.receiver.send p.inboundStream).ackno.isSome then p.push else .ok p) = .ok q) :
    SendsFrom p q := by
  have hemission : ∀ e ∈ p.emission, ∃ m ∈ q.sender.maybeSend.2.or
      (if q.needSend then some q.sender.sendEmptyMessage else none),
      e = ⟨{ senderMessage := m, receiverMessage := p.receiver.send p.inboundStream
             reset := q.outboundStream.hasError || q.inboundStream.hasError },
        q.sender.maybeSend.1.seqnumsSent⟩ := by
    intro e he
    simp only [emission, maybeSend, hok] at he
    cases hmessage : q.sender.maybeSend.2.or
        (if q.needSend then some q.sender.sendEmptyMessage else none) with
    | none => simp [hmessage] at he
    | some m =>
        simp only [hmessage, Option.map_some, List.mem_singleton] at he
        exact ⟨m, rfl, he⟩
  refine ⟨hq, by simp only [step, maybeSend, hok], fun e he => ?_, fun e he => ?_, fun e he => ?_⟩
  · obtain ⟨m, -, rfl⟩ := hemission e he
    rfl
  · obtain ⟨m, -, rfl⟩ := hemission e he
    exact maybeSend_seqnumsSent q.sender
  · obtain ⟨m, hm, rfl⟩ := hemission e he
    cases hready : q.sender.maybeSend.2 with
    | some ready =>
        rw [hready, Option.some_or, Option.mem_some] at hm
        exact Or.inl (by rw [hm]; exact List.mem_singleton_self m)
    | none =>
        rw [hready, Option.none_or] at hm
        split at hm
        · exact Or.inr (Option.mem_some.mp hm).symm
        · cases hm

theorem SendsFrom.source {p q : TCPPeer} (h : SendsFrom p q) :
    (p.step .maybeSend).source = q.source.step .maybeSend := by
  rw [h.state]
  rfl

/-- Nothing happens if the push throws. -/
theorem emission_cases (p : TCPPeer) :
    (p.step .maybeSend = p ∧ p.emission = []) ∨ ∃ q, SendsFrom p q := by
  by_cases hackno : (p.receiver.send p.inboundStream).ackno.isSome = true
  · cases hpush : p.push with
    | error e =>
        left
        simp only [step, emission, maybeSend, hackno, if_true, hpush, and_self]
    | ok q =>
        right
        exact ⟨q, sendsFrom_of_ok (Or.inr (by simp only [pushed, hpush]))
          (by rw [if_pos hackno, hpush])⟩
  · right
    exact ⟨p, sendsFrom_of_ok (Or.inl rfl) (if_neg hackno)⟩

theorem emission_sent (p : TCPPeer) :
    ∀ e ∈ p.emission, e.sent = (p.step .maybeSend).sender.seqnumsSent := by
  intro e he
  cases emission_cases p with
  | inl hquiet =>
      rw [hquiet.2] at he
      cases he
  | inr hsent =>
      obtain ⟨q, hsent⟩ := hsent
      rw [hsent.state, hsent.sent e he]
      exact (maybeSend_seqnumsSent q.sender).symm

/-- The bytes that an input puts into the outbound stream. -/
def entered (p : TCPPeer) (input : Input) : Bytes :=
  match input with
  | .write data => ByteStream.appended p.outboundStream (p.step (.write data)).outboundStream
  | _ => []

/-- The bytes that an input takes from the inbound stream. -/
def left (p : TCPPeer) (input : Input) : Bytes :=
  match input with
  | .pop len => ByteStream.removed p.inboundStream (p.step (.pop len)).inboundStream
  | _ => []

/-- What a step does to the sending side. -/
theorem step_source (p : TCPPeer) {input : Input}
    (hopen : ∀ data, input = .write data → p.outboundStream.isClosed = false) :
    ∃ inputs, (p.step input).source = run SenderSide.step p.source inputs ∧
      p.source.enteredBy inputs = p.entered input := by
  cases input with
  | receive seg =>
      rw [step, receive]
      split
      · exact ⟨[], rfl, rfl⟩
      · exact ⟨[.receive seg.receiverMessage], rfl, rfl⟩
  | write data =>
      have hwrite : (p.step (.write data)).source = p.source.step (.write data) := by
        simp only [SenderSide.step, source, hopen data rfl, Bool.false_eq_true, if_false, step]
      refine ⟨[.write data], hwrite, ?_⟩
      rw [SenderSide.enteredBy, SenderSide.enteredBy, List.append_nil, SenderSide.entered, ← hwrite]
      rfl
  | close pushes =>
      cases pushes with
      | false => exact ⟨[.close], rfl, rfl⟩
      | true => exact ⟨[.close, .push], source_pushed p.closed, rfl⟩
  | push => exact ⟨[.push], source_pushed p, rfl⟩
  | maybeSend =>
      cases emission_cases p with
      | inl hquiet => exact ⟨[], congrArg source hquiet.1, rfl⟩
      | inr hsent =>
          obtain ⟨q, hsent⟩ := hsent
          have hsource := hsent.source
          cases hsent.pushes with
          | inl hsame => exact ⟨[.maybeSend], by rw [hsource, hsame]; rfl, rfl⟩
          | inr hpushed =>
              exact ⟨[.push, .maybeSend], by rw [hsource, hpushed, source_pushed]; rfl, rfl⟩
  | tick ms => exact ⟨[.tick ms], rfl, rfl⟩
  | pop len =>
      refine ⟨[], ?_, rfl⟩
      rw [step]
      split <;> rfl

/-- The inputs that are neither a segment nor a read. -/
def Outward : Input → Prop
  | .receive _ => False
  | .pop _ => False
  | _ => True

/-- They leave the receiving side as it is. -/
theorem direction_outward (p q : TCPPeer) {input : Input} (h : Outward input) :
    direction q (p.step input) = direction q p := by
  cases input with
  | receive seg => exact h.elim
  | pop len => exact h.elim
  | write data => rfl
  | close pushes =>
      cases pushes with
      | false => rfl
      | true => exact direction_pushed p.closed q
  | push => exact direction_pushed p q
  | maybeSend =>
      cases emission_cases p with
      | inl hquiet => rw [hquiet.1]
      | inr hsent =>
          obtain ⟨r, hsent⟩ := hsent
          rw [hsent.state]
          cases hsent.pushes with
          | inl hsame => rw [hsame]; rfl
          | inr hpushed => rw [hpushed]; exact direction_pushed p q
  | tick ms => rfl

theorem left_outward {p : TCPPeer} {input : Input} (h : Outward input) : p.left input = [] := by
  cases input with
  | pop len => exact h.elim
  | _ => rfl

theorem outward_hasError {p : TCPPeer} {input : Input} (h : Outward input) :
    (p.step input).inboundStream.hasError = p.inboundStream.hasError :=
  congrArg (fun c : Connection => c.inbound.hasError) (direction_outward p p h)

theorem direction_receive (p q : TCPPeer) {seg : TCPSegment} (hreset : seg.reset = false)
    (herror : p.inboundStream.hasError = false) :
    direction q (p.receive seg) = (direction q p).deliver seg.senderMessage := by
  rw [receive, if_neg (by simp [hreset, herror])]
  rfl

theorem direction_pop (p q : TCPPeer) (len : Nat) :
    direction q (p.step (.pop len)) = (direction q p).step (.read len) := by
  simp only [step, Connection.step, direction]
  cases p.inboundStream.pop len <;> rfl

/-- Without resets no error comes up. -/
theorem step_hasError {p : TCPPeer} {input : Input}
    (hreset : ∀ seg, input = .receive seg → seg.reset = false)
    (herror : p.inboundStream.hasError = false) :
    (p.step input).inboundStream.hasError = false := by
  cases input with
  | receive seg =>
      rw [step, receive, if_neg (by simp [hreset seg rfl, herror])]
      exact (TCPReceiver.receive_hasError _ _ _ _).trans herror
  | pop len =>
      rw [step]
      split
      · next hpop => exact (ByteStream.pop_reads hpop).hasError.trans herror
      · exact herror
  | _ => exact Eq.trans (outward_hasError (by trivial)) herror

end TCPPeer
end Minnow
