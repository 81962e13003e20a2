import Minnow.TCPConversation

/-!
What the applications of two peers give and get. In each direction what has come out of the
inbound stream, with what is still in it, is what has gone into the outbound stream of the
other peer, up to some byte.
-/

namespace Minnow
open Transition Connection

namespace TCPPeer

/-- The bytes that have gone into a peer's outbound stream, and those taken from its inbound
one. -/
structure Streams where
  written : Bytes := []
  consumed : Bytes := []
  deriving Repr, DecidableEq

def note (p : TCPPeer) (input : Input) (h : Streams) : Streams where
  written := h.written ++ p.entered input
  consumed := h.consumed ++ p.left input

end TCPPeer

namespace Conversation

def note (s : Conversation) (input : Side × Input) (h : Side → TCPPeer.Streams) :
    Side → TCPPeer.Streams :=
  match s.inputOf input.1 input.2 with
  | some act => Function.update h input.1 ((s.peer input.1).note act (h input.1))
  | none => h

def runFrom (cfg : Side → TCPConfig) (random : Side → Wrap32) (inputs : List (Side × Input)) :
    Conversation × (Side → TCPPeer.Streams) :=
  run (observe step note) (start cfg random, fun _ => {}) inputs

/-- The invariant, with what the applications have given and got. -/
def Flowing (isn : Side → Wrap32) (initialRTOms : Side → Nat)
    (c : Conversation × (Side → TCPPeer.Streams)) : Prop :=
  ∃ history, ConversingWith isn initialRTOms c.1 history ∧ ∀ d,
    (history d).written = (c.2 d).written ∧ (history d).consumed = (c.2 d.other).consumed

variable {isn : Side → Wrap32} {initialRTOms : Side → Nat}
  {c : Conversation × (Side → TCPPeer.Streams)}

theorem flowing_start (cfg : Side → TCPConfig) (random : Side → Wrap32) :
    Flowing (fun d => (cfg d).fixedIsn.getD (random d)) (fun d => (cfg d).rtTimeout.toNat)
      (start cfg random, fun _ => {}) := by
  refine ⟨fun _ => {}, ⟨fun _ => rfl, fun _ => rfl, fun d => ⟨?_, ?_⟩⟩, fun _ => ⟨rfl, rfl⟩⟩
  · exact announced_start _ _ (cfg d).sendCapacity (cfg d.other).recvCapacity
  · exact fun e he => absurd he List.not_mem_nil

theorem flowing_step (h : Flowing isn initialRTOms c) (hwithin : c.1.Within)
    (input : Side × Input) : Flowing isn initialRTOms (observe step note c input) := by
  obtain ⟨s, streams⟩ := c
  obtain ⟨d, input⟩ := input
  obtain ⟨history, hs, hstreams⟩ := h
  obtain ⟨history', hs', hcases⟩ := conversingWith_step hs hwithin d input
  refine ⟨history', hs', ?_⟩
  cases hcases with
  | inl hidle =>
      obtain ⟨hnone, rfl⟩ := hidle
      simp only [observe_snd, note, hnone]
      exact hstreams
  | inr hacts =>
      obtain ⟨act, hact, hgains⟩ := hacts
      simp only [observe_snd, note, hact]
      intro e
      by_cases he : e = d
      · subst he
        rw [Function.update_self, Function.update_of_ne e.other_ne, hgains.sends.written,
          hgains.sends.consumed, (hstreams e).1, (hstreams e).2, List.append_nil]
        exact ⟨rfl, rfl⟩
      · obtain rfl := Side.eq_other he
        rw [Side.other_other, Function.update_self, Function.update_of_ne d.other_ne,
          hgains.receives.written, hgains.receives.consumed, (hstreams d.other).1,
          (hstreams d.other).2, Side.other_other, List.append_nil]
        exact ⟨rfl, rfl⟩

theorem flowing_run (cfg : Side → TCPConfig) (random : Side → Wrap32)
    {inputs : List (Side × Input)} (hwithin : (runFrom cfg random inputs).1.Within) :
    Flowing (fun d => (cfg d).fixedIsn.getD (random d)) (fun d => (cfg d).rtTimeout.toNat)
      (runFrom cfg random inputs) := by
  refine run_invariant_always (observe step note) (P := fun c => c.1.Within → Flowing _ _ c)
    (fun _ => flowing_start cfg random) ?_ inputs hwithin
  intro c input hc hlater
  have hbefore : c.1.Within := fun e => (step_pushed_le c.1 input e).trans_lt (hlater e)
  exact flowing_step (hc hbefore) hbefore input

theorem Flowing.prefix_written (h : Flowing isn initialRTOms c) (d : Side) :
    (c.2 d.other).consumed ++ (c.1.peer d.other).inboundStream.contents <+: (c.2 d).written := by
  obtain ⟨history, hs, hstreams⟩ := h
  have hconnected := (hs.tells d).announced.connected
  have hdelivered := hconnected.delivered
  rw [← hconnected.consumed, (hstreams d).1, (hstreams d).2] at hdelivered
  exact hdelivered

/-- What the application has taken out of an inbound stream has been popped there. -/
theorem Flowing.popped (h : Flowing isn initialRTOms c) (d : Side) :
    (c.2 d.other).consumed.length = (c.1.peer d.other).inboundStream.bytesPopped := by
  obtain ⟨history, hs, hstreams⟩ := h
  have hconnected := (hs.tells d).announced.connected
  have hcounted := hconnected.counted
  rw [← hconnected.consumed, (hstreams d).2, List.length_append, hconnected.wf.stream.counted,
    hconnected.wf.stream.buffered] at hcounted
  exact Nat.add_right_cancel hcounted

/-- An inbound stream is closed only when the outbound stream of the other peer is finished. -/
theorem Flowing.finished (h : Flowing isn initialRTOms c) {d : Side}
    (hclosed : (c.1.peer d.other).inboundStream.isClosed = true) :
    (c.1.peer d).outboundStream.isFinished = true := by
  obtain ⟨history, hs, -⟩ := h
  have hannounced := (hs.tells d).announced
  have hsent := hannounced.connected.segmented.sent
  obtain ⟨m, hm, hfin⟩ := hannounced.ending (Or.inr hclosed)
  exact (ByteStream.isFinished_iff hsent.stream).mpr
    (hsent.finished (hsent.fin.mpr ⟨m, hm, hfin⟩))

/-- Whatever the network does with the segments, in both directions at once: what the
application on one side has read, with what it can still read, is the beginning of what the
application on the other side has written. -/
theorem both_directions_in_order (cfg : Side → TCPConfig) (random : Side → Wrap32)
    {inputs : List (Side × Input)} (hwithin : (runFrom cfg random inputs).1.Within) :
    let c := runFrom cfg random inputs
    ∀ d, (c.2 d.other).consumed ++ (c.1.peer d.other).inboundStream.contents <+:
      (c.2 d).written :=
  (flowing_run cfg random hwithin).prefix_written

/-- A byte each way, one of the segments delivered twice. -/
theorem both_directions_in_order_bytes :
    let c := runFrom (fun _ => { sendCapacity := 8, recvCapacity := 8 }) (fun _ => ⟨7⟩)
      [(.left, .push), (.left, .maybeSend), (.right, .deliver 0), (.right, .maybeSend),
        (.left, .deliver 0), (.left, .write [10]), (.left, .maybeSend), (.right, .deliver 1),
        (.right, .write [20]), (.right, .maybeSend), (.left, .deliver 1), (.right, .deliver 1),
        (.right, .pop 1)]
    (c.2 .right).consumed = [10] ∧ (c.1.peer .left).inboundStream.contents = [20] ∧
      ∀ d, (c.2 d.other).consumed ++ (c.1.peer d.other).inboundStream.contents <+:
        (c.2 d).written := by
  intro c
  have hwithin : c.1.Within := fun d => by cases d <;> decide +kernel
  exact ⟨by decide +kernel, by decide +kernel, both_directions_in_order _ _ hwithin⟩

end Conversation
end Minnow
