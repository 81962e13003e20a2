import Minnow.ReassemblerInsert
import Minnow.TCPReceiver
import Minnow.Transition

/-!
Runs of a TCPReceiver with its Reassembler and inbound stream. The messages are
arbitrary: any numbers, flags and payload, whether or not they agree with each other.
-/

namespace Minnow
open Transition

structure ReceiverSide where
  receiver : TCPReceiver := {}
  reassembler : Reassembler := {}
  inbound : ByteStream
  deriving Repr, DecidableEq

namespace ReceiverSide

inductive Input where
  | receive (message : TCPSenderMessage)
  | pop (len : Nat)

/-- A pop that throws leaves the stream as it was. -/
def step (c : ReceiverSide) : Input → ReceiverSide
  | .receive message =>
      let done := c.receiver.receive message c.reassembler c.inbound
      ⟨done.1, done.2.1, done.2.2⟩
  | .pop len =>
      match c.inbound.pop len with
      | .ok inbound => { c with inbound }
      | .error _ => c

def start (capacity : Nat) : ReceiverSide := { inbound := { capacity } }

/-- The message `send` reports. -/
def send (c : ReceiverSide) : TCPReceiverMessage := c.receiver.send c.inbound

/-- The absolute number whose wrap `send` reports. -/
def absoluteSeqno (c : ReceiverSide) : Nat :=
  c.inbound.bytesPushed + 1 + c.inbound.isClosed.toNat

/-- The absolute number of the first sequence number beyond the window reported. -/
def rightEdge (c : ReceiverSide) : Nat := c.absoluteSeqno + c.send.windowSize.toNat

theorem step_receiver (c : ReceiverSide) (message : TCPSenderMessage) :
    (c.step (.receive message)).receiver = c.receiver.synchronize message := by
  simp only [step, TCPReceiver.receive]
  cases (c.receiver.synchronize message).isn <;> rfl

@[simp] theorem step_pop_receiver (c : ReceiverSide) (len : Nat) :
    (c.step (.pop len)).receiver = c.receiver := by
  simp only [step]
  cases c.inbound.pop len <;> rfl

theorem send_ackno (c : ReceiverSide) :
    c.send.ackno = c.receiver.isn.map (Wrap32.wrap c.absoluteSeqno) := by
  unfold send TCPReceiver.send
  cases c.receiver.isn <;> rfl

theorem send_windowSize (c : ReceiverSide) :
    c.send.windowSize.toNat = min c.inbound.availableCapacity 65535 := by
  have hwindow : c.send.windowSize = if c.inbound.availableCapacity < 65535
      then UInt16.ofNat c.inbound.availableCapacity else 65535 := by
    unfold send TCPReceiver.send
    cases c.receiver.isn <;> rfl
  rw [hwindow]
  split
  · rw [UInt16.toNat_ofNat_of_lt' (by simp [UInt16.size]; omega)]
    omega
  · simp only [UInt16.reduceToNat]
    omega

/-- How the inbound stream of a receiver changes over time. -/
structure Advances (s t : ByteStream) : Prop where
  pushed : s.bytesPushed ≤ t.bytesPushed
  popped : s.bytesPopped ≤ t.bytesPopped
  capacity : t.capacity = s.capacity
  closed : s.isClosed = true → t.isClosed = true
  wf : t.WF

theorem Advances.refl {s : ByteStream} (h : s.WF) : Advances s s :=
  ⟨Nat.le_refl _, Nat.le_refl _, rfl, id, h⟩

theorem Advances.trans {s t u : ByteStream} (h : Advances s t) (k : Advances t u) :
    Advances s u :=
  ⟨h.pushed.trans k.pushed, h.popped.trans k.popped, k.capacity.trans h.capacity,
    k.closed ∘ h.closed, k.wf⟩

theorem advances_of_grows {s t : ByteStream} {new : Bytes} (h : s.Grows t new)
    (hclosed : s.isClosed = true → t.isClosed = true) : Advances s t := by
  have hpushed := h.pushed
  have hpopped := h.popped
  exact ⟨by omega, by omega, h.capacity, hclosed, h.wf⟩

theorem advances_of_shrinks {s t : ByteStream} {n : Nat} (h : s.Shrinks t n) :
    Advances s t := by
  have hpushed := h.pushed
  have hpopped := h.popped
  exact ⟨by omega, by omega, h.capacity, fun hclosed => h.closed.trans hclosed, h.wf⟩

theorem advances_step {c : ReceiverSide} (h : c.inbound.WF) (input : Input) :
    Advances c.inbound (c.step input).inbound := by
  cases input with
  | receive message =>
      simp only [step, TCPReceiver.receive]
      cases (c.receiver.synchronize message).isn with
      | none => exact Advances.refl h
      | some isn =>
          obtain ⟨new, hgrows, hclosed⟩ := Reassembler.insert_grows c.reassembler
            (TCPReceiver.firstIndex message isn c.inbound) message.payload message.fin h
          exact advances_of_grows hgrows hclosed
  | pop len =>
      simp only [step]
      by_cases hlen : len ≤ c.inbound.bytesBuffered
      · obtain ⟨inbound, hpop, hshrinks⟩ := ByteStream.pop_ok h hlen
        simp only [hpop]
        exact advances_of_shrinks hshrinks
      · simp only [ByteStream.pop_error (Nat.not_le.mp hlen)]
        exact Advances.refl h

theorem advances_run {c : ReceiverSide} (h : c.inbound.WF) (inputs : List Input) :
    Advances c.inbound (run step c inputs).inbound := by
  induction inputs generalizing c with
  | nil => exact Advances.refl h
  | cons input inputs ih =>
      have hstep := advances_step h input
      exact hstep.trans (ih hstep.wf)

/-- While the stream advances neither number reported goes back, whether or not the free
space exceeds what a window can say. -/
theorem Advances.edges {c d : ReceiverSide} (h : Advances c.inbound d.inbound)
    (hwf : c.inbound.WF) :
    c.absoluteSeqno ≤ d.absoluteSeqno ∧ c.rightEdge ≤ d.rightEdge := by
  have hpushed := h.pushed
  have hpopped := h.popped
  have hcapacity := h.capacity
  have hc := ByteStream.pushed_add_available hwf
  have hd := ByteStream.pushed_add_available h.wf
  have hclosed : c.inbound.isClosed.toNat ≤ d.inbound.isClosed.toNat := by
    cases hc : c.inbound.isClosed with
    | false => exact Nat.zero_le _
    | true => rw [h.closed hc]
  simp only [rightEdge, send_windowSize, absoluteSeqno]
  omega

/-- Every SYN carries the sequence number `z`. -/
def SynAt (z : Wrap32) : Input → Prop
  | .receive message => message.syn = true → message.seqno = z
  | .pop _ => True

theorem synchronize_of_synAt {z : Wrap32} {message : TCPSenderMessage}
    (h : SynAt z (.receive message)) {r : TCPReceiver} :
    r.synchronize message = if message.syn then { isn := some z } else r := by
  unfold TCPReceiver.synchronize
  cases hsyn : message.syn with
  | false => rfl
  | true => rw [h hsyn]

theorem isn_step {z : Wrap32} {c : ReceiverSide} {input : Input} (h : SynAt z input)
    (hisn : c.receiver.isn = some z) : (c.step input).receiver.isn = some z := by
  cases input with
  | receive message =>
      rw [step_receiver, synchronize_of_synAt h]
      split
      · rfl
      · exact hisn
  | pop len => rwa [step_pop_receiver]

theorem isn_run {z : Wrap32} {c : ReceiverSide} {inputs : List Input}
    (h : ∀ input ∈ inputs, SynAt z input) (hisn : c.receiver.isn = some z) :
    (run step c inputs).receiver.isn = some z := by
  have hall : Along step (fun _ input => SynAt z input) c inputs := along_of_forall c h
  exact run_invariant step (P := fun c => c.receiver.isn = some z) hisn
    (fun _ _ hisn hinput => isn_step hinput hisn) hall

/-- Once a SYN has arrived the zero point is its sequence number. -/
theorem isn_after_syn {z : Wrap32} {c : ReceiverSide} {inputs : List Input}
    (h : ∀ input ∈ inputs, SynAt z input) {message : TCPSenderMessage}
    (hmem : .receive message ∈ inputs) (hsyn : message.syn = true) :
    (run step c inputs).receiver.isn = some z := by
  obtain ⟨before, after, rfl⟩ := List.append_of_mem hmem
  rw [run_append]
  have hstep : ((run step c before).step (.receive message)).receiver.isn = some z := by
    rw [step_receiver, synchronize_of_synAt (h _ hmem), hsyn]
    rfl
  exact isn_run (c := (run step c before).step (.receive message))
    (fun input hinput => h input (by simp [hinput])) hstep

/-- When all SYN messages carry one sequence number, whatever else arrives and is read,
from the first SYN on every `send` reports the wrap of an absolute number, and neither
that number nor the right edge of the window is less than at an earlier `send`. -/
theorem ackno_and_right_edge_never_back (capacity : Nat) {z : Wrap32} {inputs : List Input}
    (hsyn : ∀ input ∈ inputs, SynAt z input)
    (hbound : (run step (start capacity) inputs).inbound.bytesPopped + capacity < 2 ^ 63)
    {earlier later : List Input} (hearlier : earlier <+: later) (hlater : later <+: inputs)
    {syn : TCPSenderMessage} (hmem : .receive syn ∈ earlier) (hset : syn.syn = true) :
    let c := run step (start capacity) earlier
    let d := run step (start capacity) later
    c.send.ackno = some (Wrap32.wrap c.absoluteSeqno z) ∧
      d.send.ackno = some (Wrap32.wrap d.absoluteSeqno z) ∧
      c.absoluteSeqno ≤ d.absoluteSeqno ∧
      c.absoluteSeqno + c.send.windowSize.toNat ≤ d.absoluteSeqno + d.send.windowSize.toNat ∧
      d.absoluteSeqno < 2 ^ 64 := by
  intro c d
  have hstart : (start capacity).inbound.WF := ByteStream.wf_new capacity
  have hc : Advances (start capacity).inbound c.inbound := advances_run hstart earlier
  obtain ⟨between, rfl⟩ := hearlier
  obtain ⟨rest, rfl⟩ := hlater
  have hcd : Advances c.inbound d.inbound := by
    have : d = run step c between := run_append _ earlier between
    rw [this]
    exact advances_run hc.wf between
  have hend : Advances d.inbound
      (run step (start capacity) (earlier ++ between ++ rest)).inbound := by
    rw [run_append]
    exact advances_run hcd.wf rest
  have hcisn : c.receiver.isn = some z :=
    isn_after_syn (fun input hinput => hsyn input (by simp [hinput])) hmem hset
  have hdisn : d.receiver.isn = some z :=
    isn_after_syn (fun input hinput => hsyn input (List.mem_append_left _ hinput))
      (List.mem_append_left _ hmem) hset
  obtain ⟨hack, hedge⟩ := hcd.edges hc.wf
  refine ⟨by rw [send_ackno, hcisn]; rfl, by rw [send_ackno, hdisn]; rfl, hack, hedge, ?_⟩
  -- the bound on what has been read keeps the 64-bit sums of `send` exact
  have hpopped := hend.popped
  have hpushed := ByteStream.pushed_add_available hcd.wf
  have hcapacity : d.inbound.capacity = capacity := hcd.capacity.trans hc.capacity
  have hbool := Bool.toNat_le d.inbound.isClosed
  simp only [absoluteSeqno]
  omega

/-- A SYN and a byte in a stream with more room than a window can say, then a read. -/
theorem ackno_and_right_edge_never_back_clamped :
    let syn : TCPSenderMessage := { seqno := ⟨7⟩, syn := true, payload := [97] }
    let c := run step (start 70000) [.receive syn]
    let d := run step (start 70000) [.receive syn, .pop 1]
    c.send.windowSize = 65535 ∧ c.inbound.availableCapacity = 69999 ∧
      c.absoluteSeqno + c.send.windowSize.toNat ≤
        d.absoluteSeqno + d.send.windowSize.toNat := by
  intro syn c d
  have hsyn : ∀ input ∈ [.receive syn, .pop 1], SynAt ⟨7⟩ input := by
    simp [SynAt, syn]
  have hmem : .receive syn ∈ [Input.receive syn] := List.mem_singleton_self _
  have hset : syn.syn = true := rfl
  have hnever := ackno_and_right_edge_never_back 70000 hsyn (by decide) ⟨[.pop 1], rfl⟩
    List.prefix_rfl hmem hset
  exact ⟨by decide, by decide, hnever.2.2.2.1⟩

/-- The stream index at which the payload of a message is inserted, if it is. -/
def landing (c : ReceiverSide) (message : TCPSenderMessage) : Option Nat :=
  (c.receiver.synchronize message).isn.map fun isn =>
    TCPReceiver.firstIndex message isn c.inbound

theorem step_lands {c : ReceiverSide} {message : TCPSenderMessage} {i : Nat}
    (h : c.landing message = some i) :
    (c.step (.receive message)).reassembler =
        (c.reassembler.insert i message.payload message.fin c.inbound).1 ∧
      (c.step (.receive message)).inbound =
        (c.reassembler.insert i message.payload message.fin c.inbound).2 := by
  obtain ⟨isn, hisn, rfl⟩ := Option.map_eq_some_iff.mp h
  simp only [step, TCPReceiver.receive, hisn, and_self]

/-- The numbering of a receiver starts at `z`. -/
structure NumberedFrom (z : Wrap32) (c : ReceiverSide) : Prop where
  isn : c.receiver.isn = some z
  ackno : c.send.ackno = some (Wrap32.wrap c.absoluteSeqno z)

/-- What an input that arrives after the SYN numbered `z` must do: a payload with a SYN
numbered otherwise is not written at the start of the stream, any other lands where the
numbering from `z` puts it. -/
def LandsFrom (z : Wrap32) (c : ReceiverSide) : Input → Prop
  | .receive message =>
      (message.syn = true → message.seqno ≠ z → message.payload ≠ [] →
        c.landing message ≠ some 0) ∧
      ((message.syn = true → message.seqno = z) →
        c.landing message = some (TCPReceiver.firstIndex message z c.inbound))
  | .pop _ => True

theorem numberedFrom_of_isn {z : Wrap32} {c : ReceiverSide}
    (h : c.receiver.isn = some z) : NumberedFrom z c :=
  ⟨h, by rw [send_ackno, h]; rfl⟩

theorem landsFrom_of_synAt {z : Wrap32} {c : ReceiverSide} {input : Input}
    (h : c.receiver.isn = some z) (hinput : SynAt z input) : LandsFrom z c input := by
  cases input with
  | pop len => trivial
  | receive message =>
      have hisn : (c.receiver.synchronize message).isn = some z := by
        rw [← step_receiver]
        exact isn_step hinput h
      refine ⟨fun hsyn hforeign => absurd (hinput hsyn) hforeign, fun _ => ?_⟩
      rw [landing, hisn]
      rfl

/-- A SYN makes its own number the zero point. -/
theorem synAt_of_isn {z : Wrap32} {c : ReceiverSide} {input : Input}
    (h : (c.step input).receiver.isn = some z) : SynAt z input := by
  cases input with
  | pop len => trivial
  | receive message =>
      intro hsyn
      rw [step_receiver, TCPReceiver.synchronize, if_pos hsyn] at h
      exact Option.some.inj h

/-- After a SYN the numbering stays the one it started, throughout what follows, exactly
if every later SYN carries the same sequence number. -/
theorem zero_point_fixed_iff (capacity : Nat) (before : List Input)
    {first : TCPSenderMessage} (hsyn : first.syn = true) (inputs : List Input) :
    let c := run step (start capacity) (before ++ [.receive first])
    ((∀ pre, pre <+: inputs → NumberedFrom first.seqno (run step c pre)) ∧
      Along step (LandsFrom first.seqno) c inputs) ↔
      ∀ input ∈ inputs, SynAt first.seqno input := by
  intro c
  have hc : c.receiver.isn = some first.seqno := by
    have hlast : c = (run step (start capacity) before).step (.receive first) :=
      run_append _ before [.receive first]
    rw [hlast, step_receiver, TCPReceiver.synchronize, if_pos hsyn]
  constructor
  · rintro ⟨hnumbered, -⟩ input hmem
    obtain ⟨pre, post, rfl⟩ := List.append_of_mem hmem
    have hafter := (hnumbered (pre ++ [input]) ⟨post, by simp⟩).isn
    rw [run_append] at hafter
    exact synAt_of_isn hafter
  · intro h
    have hall : Along step (fun _ input => SynAt first.seqno input) c inputs :=
      along_of_forall c h
    refine ⟨?_, along_of_invariant (P := fun c => c.receiver.isn = some first.seqno) hc
      (fun _ _ hisn hinput => isn_step hinput hisn)
      (fun _ _ hisn hinput => landsFrom_of_synAt hisn hinput) hall⟩
    rintro pre ⟨post, rfl⟩
    exact numberedFrom_of_isn
      (isn_run (fun input hinput => h input (List.mem_append_left _ hinput)) hc)

theorem zero_point_fixed_repeated :
    let syn : TCPSenderMessage := { seqno := ⟨7⟩, syn := true, payload := [97] }
    let c := run step (start 10) ([] ++ [.receive syn])
    NumberedFrom ⟨7⟩ (run step c [.receive syn]) := by
  intro syn c
  have hsyn : syn.syn = true := rfl
  have hfixed := (zero_point_fixed_iff 10 [] hsyn [.receive syn]).mpr (by simp [SynAt])
  exact hfixed.1 _ List.prefix_rfl

/-- A SYN with another number and three bytes, after a SYN and one byte: the ackno jumps
to the other numbering, two of its bytes become bytes of the stream, and the byte that
was to follow lands elsewhere. -/
theorem foreign_syn_renumbers :
    let c := run step (start 10)
      ([] ++ [.receive { seqno := ⟨0⟩, syn := true, payload := [97] }])
    let foreign : TCPSenderMessage := { seqno := ⟨1000⟩, syn := true, payload := [120, 121, 122] }
    let d := c.step (.receive foreign)
    let next : TCPSenderMessage := { seqno := ⟨2⟩, payload := [98] }
    c.send.ackno = some ⟨2⟩ ∧ d.send.ackno = some ⟨1004⟩ ∧ ¬ NumberedFrom ⟨0⟩ d ∧
      c.landing foreign = some 0 ∧ d.inbound.contents = [97, 121, 122] ∧
      c.landing next = some 1 ∧ d.landing next ≠ some 1 := by
  refine ⟨by decide, by decide, ?_, by decide, by decide, by decide, by decide⟩
  intro h
  exact absurd h.isn (by decide)

end ReceiverSide
end Minnow
