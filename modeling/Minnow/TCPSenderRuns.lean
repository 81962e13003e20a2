import Minnow.TCPSenderSent
import Minnow.Transition

/-!
Runs of a TCPSender with its outbound stream. The history keeps the segments in the
order in which `push` created them and the bytes popped from the stream.
-/

namespace Minnow
open Transition Histories TCPSenderMessage TCPSender

structure SenderSide where
  sender : TCPSender
  outbound : ByteStream
  deriving Repr, DecidableEq

namespace SenderSide

inductive Input where
  | write (data : Bytes)
  | close
  | push
  | receive (msg : TCPReceiverMessage)
  | tick (ms : Nat)
  | maybeSend

/-- Nothing is written after the stream has been closed. -/
def step (c : SenderSide) : Input → SenderSide
  | .write data =>
      if c.outbound.isClosed then c else { c with outbound := c.outbound.push data }
  | .close => { c with outbound := c.outbound.close }
  | .push =>
      match c.sender.push c.outbound with
      | .ok (sender, outbound) => ⟨sender, outbound⟩
      | .error _ => c
  | .receive msg => { c with sender := c.sender.receive msg }
  | .tick ms => { c with sender := c.sender.tick ms }
  | .maybeSend => { c with sender := c.sender.maybeSend.1 }

/-- The segments `push` created and the bytes it popped. -/
structure History where
  created : List TCPSenderMessage := []
  popped : Bytes := []

def note (c : SenderSide) (input : Input) (h : History) : History :=
  match input with
  | .push =>
      { created := h.created ++
          (c.step .push).sender.outstanding.drop c.sender.outstanding.length
        popped := h.popped ++ ByteStream.removed c.outbound (c.step .push).outbound }
  | _ => h

def start (isn : Wrap32) (initialRTOms capacity : Nat) : SenderSide :=
  ⟨{ isn, initialRTOms }, { capacity }⟩

/-- What holds of a sender started with `isn` and `initialRTOms`. -/
structure Segmented (isn : Wrap32) (initialRTOms : Nat) (c : SenderSide) (h : History) :
    Prop where
  isn : c.sender.isn = isn
  initialRTOms : c.sender.initialRTOms = initialRTOms
  sent : Sent c.sender c.outbound h.created
  payloads : payloads h.created = h.popped

theorem segmented_start (isn : Wrap32) (initialRTOms capacity : Nat) :
    Segmented isn initialRTOms (start isn initialRTOms capacity) {} :=
  ⟨rfl, rfl, sent_new isn initialRTOms capacity, rfl⟩

/-- The push of a run: it does not throw, and it adds its segments to the history. -/
theorem step_push {c : SenderSide} {h : History}
    (hs : Sent c.sender c.outbound h.created) :
    ∃ new, c.sender.push c.outbound = .ok ((c.step .push).sender, (c.step .push).outbound) ∧
      Pushed c.sender c.outbound (c.step .push).sender (c.step .push).outbound new ∧
      Sent (c.step .push).sender (c.step .push).outbound (h.created ++ new) ∧
      Filled c.sender.availableWinSz (c.step .push).sender (c.step .push).outbound ∧
      note c .push h =
        { created := h.created ++ new, popped := h.popped ++ TCPSenderMessage.payloads new } := by
  obtain ⟨s', outbound', new, hok, hp, hsent, hfilled⟩ := push_spec hs
  have hstep : c.step .push = ⟨s', outbound'⟩ := by simp only [step, hok]
  refine ⟨new, ?_⟩
  simp only [hstep, note]
  refine ⟨hok, hp, hsent, hfilled, ?_⟩
  rw [hp.outstanding, List.drop_left, hp.shrinks.removed_eq,
    ← List.prefix_iff_eq_take.mp hp.payloads]

theorem segmented_step {isn : Wrap32} {initialRTOms : Nat} {c : SenderSide} {h : History}
    (hc : Segmented isn initialRTOms c h) (input : Input) :
    Segmented isn initialRTOms (c.step input) (note c input h) := by
  cases input with
  | write data =>
      simp only [step, note]
      split
      · exact hc
      · next hopen =>
          exact { hc with sent := hc.sent.write (Bool.eq_false_iff.mpr hopen) data }
  | close => exact { hc with sent := hc.sent.close }
  | push =>
      obtain ⟨new, -, hp, hsent, -, hnote⟩ := step_push hc.sent
      rw [hnote]
      exact ⟨hp.isn.trans hc.isn, hp.initialRTOms.trans hc.initialRTOms, hsent, by
        rw [payloads_append, hc.payloads]⟩
  | receive msg =>
      obtain ⟨gone, hr⟩ := receive_spec c.sender msg
      have hsent := hr.sent hc.sent
      simp only [step, note]
      refine ⟨?_, ?_, hsent, hc.payloads⟩
      · rw [hr.state]; exact hc.isn
      · rw [hr.state]; exact hc.initialRTOms
  | tick ms =>
      refine ⟨?_, ?_, hc.sent.tick ms, hc.payloads⟩ <;> simp only [step, TCPSender.tick]
      · have := hc.isn
        split <;> (try split) <;> exact this
      · have := hc.initialRTOms
        split <;> (try split) <;> exact this
  | maybeSend =>
      refine ⟨?_, ?_, hc.sent.maybeSend, hc.payloads⟩ <;> simp only [step, TCPSender.maybeSend]
      · have := hc.isn
        split <;> exact this
      · have := hc.initialRTOms
        split <;> exact this

theorem created_grows (c : SenderSide) (input : Input) (h : History) :
    h.created <+: (note c input h).created := by
  cases input with
  | push => exact List.prefix_append _ _
  | _ => exact List.prefix_rfl

theorem step_write {c : SenderSide} {h : History} (hs : Sent c.sender c.outbound h.created)
    (data : Bytes) :
    (c.step (.write data)).outbound.contents = c.outbound.contents ++
      ByteStream.appended c.outbound (c.step (.write data)).outbound := by
  simp only [step]
  split
  · simp [ByteStream.appended]
  · have := ByteStream.push_grows hs.stream data
    rw [this.appended_eq]
    exact this.contents

/-- What leaves the outbound stream outside of writes is popped by a push. -/
theorem popped_append_contents {c : SenderSide} {h : History}
    (hs : Sent c.sender c.outbound h.created) {input : Input}
    (hinput : ∀ data, input ≠ .write data) :
    (note c input h).popped ++ (c.step input).outbound.contents =
      h.popped ++ c.outbound.contents := by
  cases input with
  | write data => exact absurd rfl (hinput data)
  | push =>
      obtain ⟨new, -, hp, -, -, hnote⟩ := step_push hs
      obtain ⟨rest, hrest⟩ := hp.payloads
      rw [hnote, hp.shrinks.contents, ← hrest, List.drop_left, List.append_assoc]
  | _ => rfl

def runFrom (isn : Wrap32) (initialRTOms capacity : Nat) (inputs : List Input) :
    SenderSide × History :=
  run (observe step note) (start isn initialRTOms capacity, {}) inputs

theorem segmented_run (isn : Wrap32) (initialRTOms capacity : Nat) (inputs : List Input) :
    Segmented isn initialRTOms (runFrom isn initialRTOms capacity inputs).1
      (runFrom isn initialRTOms capacity inputs).2 :=
  run_invariant_always _ (P := fun c : SenderSide × History => Segmented isn initialRTOms c.1 c.2)
    (segmented_start isn initialRTOms capacity) (fun _ input hc => segmented_step hc input) inputs

/-- After every run the segments created number the stream from the initial sequence
number on without gap or overlap, and a push stops only at a full window or with
nothing left to send. -/
theorem push_segments_exactly (isn : Wrap32) (initialRTOms capacity : Nat)
    (inputs : List Input) :
    let c := runFrom isn initialRTOms capacity inputs
    let d := runFrom isn initialRTOms capacity (inputs ++ [.push])
    Each (Follows isn) c.2.created ∧
      payloads c.2.created = c.2.popped ∧
      (∀ pre m post, c.2.created = pre ++ m :: post → m.fin = true →
        post = [] ∧ c.1.outbound.isClosed = true ∧ c.1.outbound.bytesBuffered = 0) ∧
      c.1.sender.push c.1.outbound = .ok (d.1.sender, d.1.outbound) ∧
      (max 1 d.1.sender.windowSize.toNat ≤ d.1.sender.sequenceNumbersInFlight ∨
        d.1.outbound.bytesBuffered = 0 ∧
          (d.1.outbound.isClosed = true → ∃ m ∈ d.2.created, m.fin = true)) := by
  intro c d
  have hc : Segmented isn initialRTOms c.1 c.2 := segmented_run isn initialRTOms capacity inputs
  have hd : d = observe step note c .push := run_append _ inputs [.push]
  have hfollows : Each (Follows isn) c.2.created := by
    have := hc.sent.follows
    rwa [hc.isn] at this
  refine ⟨hfollows, hc.payloads, ?_, ?_⟩
  · intro pre m post hsplit hfin
    have hsent : c.1.sender.fin = true :=
      hc.sent.fin.mpr ⟨m, by simp [hsplit], hfin⟩
    obtain ⟨hclosed, hempty⟩ := hc.sent.finished hsent
    refine ⟨?_, hclosed, by rw [hc.sent.stream.buffered, hempty]; rfl⟩
    cases post with
    | nil => rfl
    | cons q post =>
        have := (hfollows (pre ++ [m]) q post (by simp [hsplit])).unfinished m (by simp)
        exact absurd hfin (by simp [this])
  · obtain ⟨new, hok, hp, hsent, hfilled, hnote⟩ := step_push hc.sent
    rw [hd, observe_fst, observe_snd, hnote]
    refine ⟨hok, ?_⟩
    rw [hp.windowSize, ← availableWinSz_eq]
    cases hfilled with
    | inl hfull =>
        exact Or.inl hfull
    | inr hdrained =>
        obtain ⟨hempty, hfin⟩ := hdrained
        exact Or.inr ⟨by rw [hsent.stream.buffered, hempty]; rfl,
          fun hclosed => hsent.fin.mp (hfin hclosed)⟩

/-- The messages handed out for transmission on an input. -/
def emitted (c : SenderSide) : Input → List TCPSenderMessage
  | .maybeSend => c.sender.maybeSend.2.toList
  | _ => []

/-- The messages a run hands out, in order. -/
def emissions (c : SenderSide) (inputs : List Input) : List TCPSenderMessage :=
  (run (observe step fun c input sent => sent ++ c.emitted input) (c, []) inputs).2

/-- An ackno beyond the last sequence number sent is ignored, but the window that came
with it is kept. -/
theorem receive_beyond (s : TCPSender) {msg : TCPReceiverMessage} {ackno : Wrap32}
    (hackno : msg.ackno = some ackno) (beyond : s.seqnumsSent < ackno.unwrap s.isn s.seqnumsSent) :
    s.receive msg = { s with windowSize := msg.windowSize } := by
  simp only [TCPSender.receive, hackno, if_pos beyond]

/-- A message with an ackno beyond the last sequence number sent has no effect, neither
on the state nor on what any continuation sends, exactly if it announces the window
that the sender already has. -/
theorem impossible_ackno_no_effect_iff (c : SenderSide) {msg : TCPReceiverMessage}
    {ackno : Wrap32} (hackno : msg.ackno = some ackno)
    (beyond : c.sender.seqnumsSent < ackno.unwrap c.sender.isn c.sender.seqnumsSent) :
    (c.step (.receive msg) = c ∧
      ∀ inputs, emissions (c.step (.receive msg)) inputs = emissions c inputs) ↔
      msg.windowSize = c.sender.windowSize := by
  have hreceive := receive_beyond c.sender hackno beyond
  constructor
  · intro h
    have hwindow := congrArg (fun d : SenderSide => d.sender.windowSize) h.1
    simp only [step, hreceive] at hwindow
    exact hwindow
  · intro hwindow
    have hsame : c.step (.receive msg) = c := by
      simp only [step, hreceive, hwindow]
    exact ⟨hsame, fun inputs => by rw [hsame]⟩

theorem impossible_ackno_no_effect_same_window :
    let c := (runFrom ⟨0⟩ 1000 4 [.push, .maybeSend]).1
    let msg : TCPReceiverMessage := { ackno := some ⟨2⟩, windowSize := 1 }
    c.step (.receive msg) = c := by
  intro c msg
  have hackno : msg.ackno = some ⟨2⟩ := rfl
  exact ((impossible_ackno_no_effect_iff c hackno (by decide)).mpr (by decide)).1

/-- With only the SYN sent, an ackno of two opens the window of one: a byte is sent that
would have waited for the SYN to be acknowledged. -/
theorem impossible_ackno_opens_window :
    let c := (runFrom ⟨0⟩ 1000 4 [.push, .maybeSend]).1
    let msg : TCPReceiverMessage := { ackno := some ⟨2⟩, windowSize := 1000 }
    let inputs : List Input := [.write [97], .push, .maybeSend]
    c.sender.seqnumsSent < Wrap32.unwrap ⟨2⟩ c.sender.isn c.sender.seqnumsSent ∧
      c.step (.receive msg) ≠ c ∧
      emissions c inputs = [] ∧
      emissions (c.step (.receive msg)) inputs = [{ seqno := ⟨1⟩, payload := [97] }] := by
  decide

end SenderSide
end Minnow
