import Minnow.ByteStream
import Minnow.Transition

/-!
Runs of a ByteStream under its writer, its reader and the `read` helper. Here the two
operations that can throw are embedded with the state a throw leaves behind, which a
run goes on from. The history keeps what fitted of each push and what has been removed.
-/

namespace Minnow
open Transition
namespace ByteStream

/-- A method of the stream: what it returns or throws, with the state it leaves. -/
abbrev Method := EStateM String ByteStream

namespace Reader

/-- `ByteStream.pop` statement by statement. -/
def pop (len : Nat) : Method Unit := do
  if (← get).bytesBuffered < len then
    throw "pop: len is greater than bytes buffered."
  modify fun s => { s with bytesPopped := s.bytesPopped + len }
  modify fun s => { s with bytesBuffered := s.bytesBuffered - len }
  let left := popChunks len (← get).buffer
  modify fun s => { s with buffer := left.2 }
  if 0 < left.1 then
    modify fun s => { s with buffer := eraseFront left.1 s.buffer }

/-- The loop of `ByteStream.read`, with the state it leaves. -/
def readLoop : Nat → Nat → Bytes → Method Bytes
  | 0, _, out => pure out
  | turns + 1, len, out => do
      let s ← get
      if s.bytesBuffered ≠ 0 ∧ out.length < len then
        let view := s.peek
        if view.isEmpty then throw "Reader::peek() returned empty string_view"
        let view := view.take (len - out.length)
        pop view.length
        readLoop turns len (out ++ view)
      else pure out

def read (len : Nat) : Method Bytes := readLoop len len []

/-- A throwing `pop` has changed nothing. -/
theorem pop_run (s : ByteStream) (len : Nat) :
    (pop len).run s =
      match s.pop len with
      | .ok s' => .ok () s'
      | .error e => .error e s := by
  by_cases hlen : s.bytesBuffered < len
  · simp [pop, ByteStream.pop, hlen]
  · by_cases hleft : 0 < (popChunks len s.buffer).1 <;>
      simp [pop, ByteStream.pop, hlen, hleft]

theorem readLoop_run {turns len : Nat} {s s' : ByteStream} {out data : Bytes}
    (h : ByteStream.readLoop turns s len out = .ok (s', data)) :
    (readLoop turns len out).run s = .ok data s' := by
  induction turns generalizing s out with
  | zero =>
      cases h
      rfl
  | succ turns ih =>
      rw [ByteStream.readLoop] at h
      simp only [readLoop, EStateM.run_bind, EStateM.run_get]
      by_cases hturn : s.bytesBuffered ≠ 0 ∧ out.length < len
      · rw [if_pos hturn] at h ⊢
        simp only at h
        split at h
        · cases h
        · next hview =>
            split at h
            · cases h
            · next t hpop =>
                simp only [hview, Bool.false_eq_true, if_false, EStateM.run_bind, pop_run, hpop]
                exact ih h
      · rw [if_neg hturn] at h ⊢
        cases h
        rfl

end Reader

inductive Input where
  | push (data : Bytes)
  | pop (len : Nat)
  | read (len : Nat)
  | close
  | setError

/-- The state a method leaves, whether it returns or throws. -/
def leave {α : Type} (m : Method α) (s : ByteStream) : ByteStream :=
  match m.run s with
  | .ok _ s' => s'
  | .error _ s' => s'

def step (s : ByteStream) : Input → ByteStream
  | .push data => s.push data
  | .pop len => leave (Reader.pop len) s
  | .read len => leave (Reader.read len) s
  | .close => s.close
  | .setError => s.setError

/-- What the pushes handed over, what of it fitted when it was pushed, and what has
been removed. -/
structure History where
  pushed : List Bytes := []
  fitted : List Bytes := []
  removed : Bytes := []

def note (s : ByteStream) (input : Input) (h : History) : History :=
  match input with
  | .push data =>
      { h with
        pushed := h.pushed ++ [data]
        fitted := h.fitted ++ [data.take (s.capacity - s.contents.length)] }
  | .pop _ | .read _ => { h with removed := h.removed ++ removed s (s.step input) }
  | _ => h

def runFrom (capacity : Nat) (inputs : List Input) : ByteStream × History :=
  run (observe step note) ({ capacity }, {}) inputs

/-- What holds of a stream of `capacity` bytes in every run. -/
structure Bounded (capacity : Nat) (s : ByteStream) (h : History) : Prop where
  wf : s.WF
  capacity : s.capacity = capacity
  fifo : h.removed ++ s.contents = h.fitted.flatten
  pushed : s.bytesPushed = h.fitted.flatten.length
  popped : s.bytesPopped = h.removed.length
  within : h.fitted.flatten.length ≤ h.pushed.flatten.length

/-- An input that removes the first `n` bytes. -/
theorem Bounded.shrinks {capacity n : Nat} {s s' : ByteStream} {h : History}
    (hs : Bounded capacity s h) (hshrink : Shrinks s s' n) (hn : n ≤ s.contents.length) :
    Bounded capacity s' { h with removed := h.removed ++ removed s s' } := by
  refine ⟨hshrink.wf, hshrink.capacity.trans hs.capacity, ?_,
    hshrink.pushed.trans hs.pushed, ?_, hs.within⟩
  · rw [hshrink.removed_eq, hshrink.contents, List.append_assoc, List.take_append_drop]
    exact hs.fifo
  · rw [hshrink.removed_eq, hshrink.popped, List.length_append, List.length_take,
      Nat.min_eq_left hn, hs.popped]

theorem leave_pop {s : ByteStream} (h : s.WF) (len : Nat) :
    ∃ n ≤ s.contents.length, Shrinks s (leave (Reader.pop len) s) n := by
  cases Nat.lt_or_ge s.bytesBuffered len with
  | inl hlt =>
      refine ⟨0, Nat.zero_le _, ?_⟩
      rw [leave, Reader.pop_run, pop_error hlt]
      exact Shrinks.refl h
  | inr hle =>
      obtain ⟨s', hpop, hshrink⟩ := pop_ok h hle
      refine ⟨len, h.buffered ▸ hle, ?_⟩
      rw [leave, Reader.pop_run, hpop]
      exact hshrink

theorem leave_read {s : ByteStream} (h : s.WF) (len : Nat) :
    ∃ n ≤ s.contents.length, Shrinks s (leave (Reader.read len) s) n := by
  obtain ⟨s', hread, hshrink⟩ := read_ok h len
  refine ⟨_, Nat.min_le_right len _, ?_⟩
  rw [leave, Reader.read, Reader.readLoop_run hread]
  exact hshrink

theorem bounded_step {capacity : Nat} {s : ByteStream} {h : History}
    (hs : Bounded capacity s h) (input : Input) :
    Bounded capacity (s.step input) (note s input h) := by
  cases input with
  | push data =>
      have hgrow := push_grows hs.wf data
      have hfit : s.availableCapacity = s.capacity - s.contents.length := by
        rw [availableCapacity, hs.wf.buffered]
      rw [hfit] at hgrow
      refine ⟨hgrow.wf, hgrow.capacity.trans hs.capacity, ?_, ?_,
        hgrow.popped.trans hs.popped, ?_⟩ <;>
        simp only [note, step, List.flatten_append, List.flatten_singleton, List.length_append]
      · rw [hgrow.contents, ← List.append_assoc, hs.fifo]
      · rw [hgrow.pushed, hs.pushed]
      · exact Nat.add_le_add hs.within (List.length_take_le' _ _)
  | pop len =>
      obtain ⟨n, hn, hshrink⟩ := leave_pop hs.wf len
      exact hs.shrinks hshrink hn
  | read len =>
      obtain ⟨n, hn, hshrink⟩ := leave_read hs.wf len
      exact hs.shrinks hshrink hn
  | close => exact { hs with wf := close_wf hs.wf }
  | setError => exact { hs with wf := setError_wf hs.wf }

end ByteStream
end Minnow
