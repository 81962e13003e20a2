import Minnow.Connection
import Minnow.TCPSenderWindow

/-!
Flow control over a network that delays, repeats and reorders acknowledgments. The
history keeps the furthest right edge that a received message has advertised; the sender
itself remembers the last window only and adds it to what is outstanding.
-/

namespace Minnow
open Transition Histories TCPSenderMessage

namespace TCPSender

/-- The right edge of a message: its ackno, zero if there is none, plus its window, in
which a zero counts as one. A message whose ackno is beyond the next sequence number is
not counted. -/
def rightEdge (s : TCPSender) (msg : TCPReceiverMessage) : Option Nat :=
  let absoluteAckno := msg.ackno.elim 0 fun ackno => ackno.unwrap s.isn s.seqnumsSent
  if s.seqnumsSent < absoluteAckno then none
  else some (absoluteAckno + max 1 msg.windowSize.toNat)

end TCPSender

/-- The last absolute sequence numbers of segments that start at `first`. -/
def lastSeqnos (first : Nat) : List TCPSenderMessage → List Nat
  | [] => []
  | m :: ms => (first + m.sequenceLength - 1) :: lastSeqnos (first + m.sequenceLength) ms

/-- The last of the segments reaches furthest. -/
theorem lastSeqnos_lt_iff {first edge : Nat} {ms : List TCPSenderMessage}
    (hpos : ∀ m ∈ ms, 0 < m.sequenceLength) (hfirst : first ≤ edge) :
    (∀ n ∈ lastSeqnos first ms, n < edge) ↔ first + seqLen ms ≤ edge := by
  induction ms generalizing first with
  | nil => simpa [lastSeqnos] using hfirst
  | cons m ms ih =>
      have hm := hpos m List.mem_cons_self
      have hms := fun q hq => hpos q (List.mem_cons_of_mem m hq)
      rw [lastSeqnos, List.forall_mem_cons, seqLen_cons, ← Nat.add_assoc]
      constructor
      · rintro ⟨hlast, hrest⟩
        exact (ih hms (by omega)).mp hrest
      · intro h
        exact ⟨by omega, (ih hms (by omega)).mpr h⟩

namespace Connection

/-- The segments created and the furthest right edge received. -/
structure Advertised where
  sent : SenderSide.History := {}
  edge : Nat := 1

def noteAdvertised (c : Connection) (input : Input) (h : Advertised) : Advertised :=
  match input with
  | .push => { h with sent := SenderSide.note c.source .push h.sent }
  | .deliverAck k =>
      match c.acks[k]? with
      | some msg => { h with edge := max h.edge ((c.source.sender.rightEdge msg).getD 0) }
      | none => h
  | _ => h

/-- The segments that a push creates. -/
def pushed (c : Connection) : List TCPSenderMessage :=
  (c.step .push).source.sender.outstanding.drop c.source.sender.outstanding.length

/-- No segment that a push creates reaches the furthest right edge. -/
def PushesWithin (x : Connection × Advertised) : Input → Prop
  | .push => ∀ n ∈ lastSeqnos (seqLen x.2.sent.created) x.1.pushed, n < x.2.edge
  | _ => True

/-- When push is called, the window is full, or the last window does not reach beyond the
furthest edge from the first number outstanding, or there is too little to send. -/
def WindowAdmits (x : Connection × Advertised) : Input → Prop
  | .push =>
      let s := x.1.source.sender
      s.availableWinSz ≤ s.seqnumsInFlight ∨
        seqLen x.2.sent.created - s.seqnumsInFlight + s.availableWinSz ≤ x.2.edge ∨
        seqLen x.2.sent.created + s.pending x.1.source.outbound ≤ x.2.edge
  | _ => True

/-- The sender is accounted for, and has not been beyond the furthest edge. -/
def Bounded (isn : Wrap32) (initialRTOms : Nat) (x : Connection × Advertised) : Prop :=
  SenderSide.Segmented isn initialRTOms x.1.source x.2.sent ∧
    seqLen x.2.sent.created ≤ x.2.edge

theorem push_created {isn : Wrap32} {initialRTOms : Nat} {x : Connection × Advertised}
    (hs : SenderSide.Segmented isn initialRTOms x.1.source x.2.sent) :
    (noteAdvertised x.1 .push x.2).sent.created = x.2.sent.created ++ x.1.pushed ∧
      (∀ m ∈ x.1.pushed, 0 < m.sequenceLength) ∧
      seqLen x.1.pushed =
        min (x.1.source.sender.availableWinSz - x.1.source.sender.seqnumsInFlight)
          (x.1.source.sender.pending x.1.source.outbound) := by
  obtain ⟨new, hok, hp, hsent, hfilled, hnote⟩ := SenderSide.step_push hs.sent
  have hnew : x.1.pushed = new := by
    simp only [pushed, step, hp.outstanding, List.drop_left]
  rw [hnew]
  refine ⟨?_, ?_, TCPSender.push_amount hs.sent hok hp hsent hfilled⟩
  · simp only [noteAdvertised, hnote]
  · intro m hm
    obtain ⟨pre, post, -, hfollows⟩ := hsent.follows.of_mem (List.mem_append_right _ hm)
    exact hfollows.nonempty

theorem pushesWithin_iff {isn : Wrap32} {initialRTOms : Nat} {x : Connection × Advertised}
    (hx : Bounded isn initialRTOms x) (input : Input) :
    PushesWithin x input ↔ WindowAdmits x input := by
  cases input with
  | push =>
      obtain ⟨-, hpos, hamount⟩ := push_created hx.1
      have hbound := hx.2
      have hflight := hx.1.sent.inFlight
      have hle : seqLen x.1.source.sender.outstanding ≤ seqLen x.2.sent.created := by
        obtain ⟨gone, hgone⟩ := hx.1.sent.outstanding
        rw [← hgone, seqLen_append]
        exact Nat.le_add_left _ _
      rw [PushesWithin, WindowAdmits, lastSeqnos_lt_iff hpos hbound, hamount]
      omega
  | _ => exact Iff.rfl

theorem bounded_push {isn : Wrap32} {initialRTOms : Nat} {x : Connection × Advertised}
    (hx : Bounded isn initialRTOms x) (hwithin : PushesWithin x .push) :
    Bounded isn initialRTOms (x.1.step .push, noteAdvertised x.1 .push x.2) := by
  obtain ⟨hcreated, hpos, -⟩ := push_created hx.1
  refine ⟨SenderSide.segmented_step hx.1 .push, ?_⟩
  rw [hcreated, seqLen_append]
  exact (lastSeqnos_lt_iff hpos hx.2).mp hwithin

theorem bounded_step {isn : Wrap32} {initialRTOms : Nat} {x : Connection × Advertised}
    (hx : Bounded isn initialRTOms x) {input : Input} (hadmits : WindowAdmits x input) :
    Bounded isn initialRTOms (observe step noteAdvertised x input) := by
  obtain ⟨hs, hle⟩ := hx
  cases input with
  | push => exact bounded_push ⟨hs, hle⟩ ((pushesWithin_iff ⟨hs, hle⟩ .push).mpr hadmits)
  | write data => exact ⟨SenderSide.segmented_step hs (.write data), hle⟩
  | close => exact ⟨SenderSide.segmented_step hs .close, hle⟩
  | tick ms => exact ⟨SenderSide.segmented_step hs (.tick ms), hle⟩
  | transmit => exact ⟨SenderSide.segmented_step hs .maybeSend, hle⟩
  | deliverAck k =>
      cases hack : x.1.acks[k]? with
      | none =>
          simp only [observe, step, noteAdvertised, hack]
          exact ⟨hs, hle⟩
      | some msg =>
          simp only [observe, step, noteAdvertised, hack]
          exact ⟨SenderSide.segmented_step hs (.receive msg), hle.trans (Nat.le_max_left _ _)⟩
  | deliverSegment k =>
      simp only [observe, step, noteAdvertised]
      split <;> exact ⟨hs, hle⟩
  | dropSegment k => exact ⟨hs, hle⟩
  | acknowledge => exact ⟨hs, hle⟩
  | dropAck k => exact ⟨hs, hle⟩
  | read len =>
      simp only [observe, step, noteAdvertised]
      split <;> exact ⟨hs, hle⟩

/-- An acknowledgment delivered a second time, after a newer one has closed the window,
opens it again: four bytes are sent past the edge. -/
theorem pushes_past_furthest_edge :
    ¬ Along (observe step noteAdvertised) PushesWithin (start ⟨0⟩ 1000 8 4, {})
      [.write [1, 2, 3, 4, 5, 6, 7, 8], .push, .transmit, .deliverSegment 0, .acknowledge,
        .deliverAck 0, .push, .transmit, .deliverSegment 1, .acknowledge, .deliverAck 1,
        .deliverAck 0, .push] := by
  rintro ⟨-, -, -, -, -, -, -, -, -, -, -, -, h, -⟩
  exact absurd (h 8 (by decide)) (by decide)

/-- In every run of a connection, whatever the network does to the acknowledgments, no
push creates a segment beyond the furthest edge advertised exactly when no push is called
while the last window, laid on what is outstanding, and the data to send both reach
beyond it. -/
theorem pushes_within_iff (isn : Wrap32) (initialRTOms outCapacity inCapacity : Nat)
    (inputs : List Input) :
    Along (observe step noteAdvertised) PushesWithin
        (start isn initialRTOms outCapacity inCapacity, {}) inputs ↔
      Along (observe step noteAdvertised) WindowAdmits
        (start isn initialRTOms outCapacity inCapacity, {}) inputs := by
  apply along_iff_along (P := Bounded isn initialRTOms) _ (along_true _ inputs)
  · exact fun x input hx _ hadmits => bounded_step hx hadmits
  · exact fun x input hx _ => pushesWithin_iff hx input
  · exact ⟨SenderSide.segmented_start isn initialRTOms outCapacity, Nat.zero_le _⟩

end Connection
end Minnow
