import Minnow.ReassemblerRuns

/-!
The representation of a Reassembler under arbitrary calls. `insert` is followed once more
with every subtraction from the byte counter and every push to the stream checked; calls
that disagree about an index are no fault, since the order of the pieces does not depend
on what is in them.
-/

namespace Minnow
open Spans Transition
namespace Reassembler
namespace Checked

inductive Fault where
  | underflow (nbytes amount : Nat)
  | refused (output : ByteStream) (data : Bytes)

/-- A subtraction from the byte counter. -/
def subtract (nbytes amount : Nat) : Except Fault Nat :=
  if amount ≤ nbytes then .ok (nbytes - amount) else .error (.underflow nbytes amount)

/-- A push, which must write all of `data`. -/
def push (output : ByteStream) (data : Bytes) : Except Fault ByteStream :=
  if (output.push data).bytesPushed = output.bytesPushed + data.length
  then .ok (output.push data) else .error (.refused output data)

def trimLoop (prev : Option Substring) :
    List Substring → Nat → Except Fault (List Substring × Nat)
  | [], nbytes => .ok ([], nbytes)
  | it :: rest, nbytes =>
      match trim prev it with
      | (none, overlapped) => do
          let nbytes ← subtract nbytes overlapped
          trimLoop prev rest nbytes
      | (some it, overlapped) => do
          let nbytes ← subtract nbytes overlapped
          let done ← trimLoop (some it) rest nbytes
          return (it :: done.1, done.2)

def insertLoop (firstIndex : Nat) (data : Bytes) (prev : Option Substring) :
    List Substring → Nat → Except Fault (List Substring × Nat)
  | [], nbytes => .ok ([], nbytes)
  | it :: rest, nbytes =>
      if data ≠ [] ∧ firstIndex ≤ it.starti then
        trimLoop prev (⟨firstIndex, data⟩ :: it :: rest) (nbytes + data.length)
      else
        match trim prev it with
        | (none, overlapped) => do
            let nbytes ← subtract nbytes overlapped
            insertLoop firstIndex data prev rest nbytes
        | (some it, overlapped) => do
            let nbytes ← subtract nbytes overlapped
            let done ← insertLoop firstIndex data (some it) rest nbytes
            return (it :: done.1, done.2)

def place (firstIndex : Nat) (data : Bytes) (substrs : List Substring) (nbytes : Nat) :
    Except Fault (List Substring × Nat) :=
  if data ≠ [] ∧ substrs = [] then
    insertLoop firstIndex [] none [⟨firstIndex, data⟩] (nbytes + data.length)
  else if data ≠ [] ∧ (substrs.getLast?.map Span.starti).getD 0 < firstIndex then
    insertLoop firstIndex [] none (substrs ++ [⟨firstIndex, data⟩]) (nbytes + data.length)
  else insertLoop firstIndex data none substrs nbytes

def flushLoop : List Substring → Nat → ByteStream →
    Except Fault (List Substring × Nat × ByteStream)
  | [], nbytes, output => .ok ([], nbytes, output)
  | it :: rest, nbytes, output =>
      if it.starti ≤ output.bytesPushed then do
        let nbytes ← subtract nbytes it.data.length
        let output ← push output (it.data.drop (output.bytesPushed - it.starti))
        flushLoop rest nbytes output
      else do
        let done ← flushLoop rest nbytes output
        return (it :: done.1, done.2)

def pushNext (firstIndex : Nat) (data : Bytes) (output : ByteStream) :
    Except Fault (Bytes × ByteStream) :=
  if firstIndex ≤ output.bytesPushed ∧ output.bytesPushed < u64 (firstIndex + data.length)
  then do
    let output ← push output (data.drop (output.bytesPushed - firstIndex))
    return ([], output)
  else return (data, output)

/-- `Reassembler.insert`, checked. -/
def insert (r : Reassembler) (firstIndex : Nat) (data : Bytes) (isLastSubstring : Bool)
    (output : ByteStream) : Except Fault (Reassembler × ByteStream) :=
  if limit output ≤ firstIndex then return (r, output)
  else do
    let shouldClose := r.shouldClose || isLastSubstring
    let next ← pushNext firstIndex (clip firstIndex data output) output
    let placed ← place firstIndex next.1 r.substrs r.nbytesSubstrs
    let flushed ← flushLoop placed.1 placed.2 next.2
    return (⟨flushed.1, flushed.2.1, shouldClose⟩,
      if shouldClose && flushed.2.1 == 0 then flushed.2.2.close else flushed.2.2)

theorem subtract_ok {nbytes amount : Nat} (h : amount ≤ nbytes) :
    subtract nbytes amount = .ok (nbytes - amount) := if_pos h

theorem push_ok {output : ByteStream} {data : Bytes}
    (h : output.Grows (output.push data) data) : push output data = .ok (output.push data) :=
  if_pos h.pushed

theorem trim_le (prev : Option Substring) (it : Substring) :
    (trim prev it).2 ≤ it.data.length := by
  cases prev with
  | none => exact Nat.zero_le _
  | some p =>
      rw [trim]
      split
      · exact Nat.min_le_right _ _
      · exact Nat.zero_le _

/-- What a node loses to its predecessor, the counter can lose. -/
theorem trim_within {prev : Option Substring} {it : Substring} {left : Option Substring}
    {overlapped nbytes : Nat} {rest : List Substring} (htrim : trim prev it = (left, overlapped))
    (h : size (it :: rest) ≤ nbytes) :
    overlapped ≤ nbytes ∧ size rest ≤ nbytes - overlapped := by
  have hle := trim_le prev it
  rw [htrim] at hle
  rw [size_cons] at h
  omega

theorem trimLoop_ok (prev : Option Substring) (nodes : List Substring) {nbytes : Nat}
    (h : size nodes ≤ nbytes) :
    trimLoop prev nodes nbytes = .ok (Reassembler.trimLoop prev nodes nbytes) := by
  induction nodes generalizing prev nbytes with
  | nil => rfl
  | cons it rest ih =>
      rw [trimLoop, Reassembler.trimLoop]
      cases htrim : trim prev it with
      | mk left overlapped =>
          obtain ⟨hle, hrest⟩ := trim_within htrim h
          cases left with
          | none =>
              simp only [subtract_ok hle]
              exact ih prev hrest
          | some it' =>
              simp only [subtract_ok hle, bind, Except.bind, ih (some it') hrest]
              rfl

theorem insertLoop_ok (firstIndex : Nat) (data : Bytes) (prev : Option Substring)
    (nodes : List Substring) {nbytes : Nat} (h : size nodes ≤ nbytes) :
    insertLoop firstIndex data prev nodes nbytes =
      .ok (Reassembler.insertLoop firstIndex data prev nodes nbytes) := by
  induction nodes generalizing prev nbytes with
  | nil => rfl
  | cons it rest ih =>
      rw [insertLoop, Reassembler.insertLoop]
      split
      · apply trimLoop_ok
        rw [size_cons, Nat.add_comm]
        exact Nat.add_le_add_right h _
      · cases htrim : trim prev it with
        | mk left overlapped =>
            obtain ⟨hle, hrest⟩ := trim_within htrim h
            cases left with
            | none =>
                simp only [subtract_ok hle]
                exact ih prev hrest
            | some it' =>
                simp only [subtract_ok hle, bind, Except.bind, ih (some it') hrest]
                rfl

theorem place_ok (firstIndex : Nat) (data : Bytes) {nodes : List Substring} {nbytes : Nat}
    (h : size nodes ≤ nbytes) :
    place firstIndex data nodes nbytes = .ok (Reassembler.place firstIndex data nodes nbytes) := by
  rw [place, Reassembler.place]
  split
  · apply insertLoop_ok
    rw [size_cons, size_nil]
    exact Nat.le_add_left _ _
  · split
    · apply insertLoop_ok
      rw [size_append, size_cons, size_nil]
      exact Nat.add_le_add_right h _
    · exact insertLoop_ok firstIndex data none nodes h

theorem flushLoop_ok (nodes : List Substring) {nbytes : Nat} (h : size nodes ≤ nbytes)
    {output : ByteStream} (hout : output.WF)
    (hstop : ∀ p ∈ nodes, p.stop ≤ output.bytesPopped + output.capacity) :
    flushLoop nodes nbytes output = .ok (Reassembler.flushLoop nodes nbytes output) := by
  induction nodes generalizing nbytes output with
  | nil => rfl
  | cons it rest ih =>
      rw [size_cons] at h
      have hrest : ∀ p ∈ rest, p.stop ≤ output.bytesPopped + output.capacity :=
        fun p hp => hstop p (List.mem_cons_of_mem _ hp)
      rw [flushLoop, Reassembler.flushLoop]
      split
      · next hle =>
          have hpush := push_node hout it hle (hstop it List.mem_cons_self)
          simp only [subtract_ok (Nat.le_of_add_right_le h), push_ok hpush, bind, Except.bind]
          apply ih (by omega) hpush.wf
          rw [hpush.popped, hpush.capacity]
          exact hrest
      · simp only [bind, Except.bind, ih (by omega : size rest ≤ nbytes) hout hrest]
        rfl

theorem pushNext_ok {output : ByteStream} (h : output.WF) {firstIndex : Nat} {data : Bytes}
    (hfit : firstIndex + data.length ≤ output.bytesPopped + output.capacity) :
    pushNext firstIndex data output = .ok (Reassembler.pushNext firstIndex data output) := by
  rw [pushNext, Reassembler.pushNext]
  split
  · next hnext =>
      rw [push_ok (push_node h ⟨firstIndex, data⟩ hnext.1 hfit)]
      rfl
  · rfl

/-- No check fails, and so the checks change nothing. -/
theorem insert_ok {r : Reassembler} {output : ByteStream} (h : WF r output) (firstIndex : Nat)
    (data : Bytes) (isLast : Bool) (hsum : firstIndex + data.length < 2 ^ 64) :
    insert r firstIndex data isLast output = .ok (r.insert firstIndex data isLast output) := by
  by_cases hlimit : limit output ≤ firstIndex
  · rw [insert, Reassembler.insert, if_pos hlimit, if_pos hlimit]
    rfl
  · have hlt : firstIndex < limit output := Nat.not_le.mp hlimit
    have hfit := clip_within h.stream hlt hsum
    have hlen := clip_length hlt hsum
    have hend : firstIndex + (clip firstIndex data output).length < 2 ^ 64 := by omega
    obtain ⟨first, hnext⟩ := pushNext_spec h.stream hend hfit
    obtain ⟨hplaced, hcount⟩ := place_spec firstIndex
      (Reassembler.pushNext firstIndex (clip firstIndex data output) output).1
      (separated_mono h.separated (Nat.zero_le _))
    rw [← h.counted] at hplaced hcount
    have hbound := hplaced.bounded h.bounded
      ((Nat.add_le_add_left hnext.initial.length_le _).trans hfit)
    have hstop := fun p hp =>
      stop_le_of_covers hbound hp (separated_data_ne hplaced.separated p hp)
    rw [← hnext.grows.popped, ← hnext.grows.capacity] at hstop
    rw [insert, Reassembler.insert, if_neg hlimit, if_neg hlimit]
    simp only [bind, Except.bind, pushNext_ok h.stream hfit, place_ok firstIndex _ h.counted.ge,
      flushLoop_ok _ hcount.ge hnext.grows.wf hstop]
    rfl

end Checked
end Reassembler

namespace Assembly

/-- The pieces in their list, the counter and the room they have. -/
structure InOrder (capacity : Nat) (a : Assembly) : Prop where
  ordered : a.reassembler.substrs.Pairwise fun p q => p.starti < q.starti
  nonempty : ∀ p ∈ a.reassembler.substrs, p.data ≠ []
  disjoint : a.reassembler.substrs.Pairwise fun p q => ∀ j, ¬ (p.Holds j ∧ q.Holds j)
  ahead : ∀ p ∈ a.reassembler.substrs, a.output.bytesPushed < p.starti
  within : ∀ p ∈ a.reassembler.substrs, p.stop ≤ a.output.bytesPopped + capacity
  counted : a.reassembler.nbytesSubstrs = size a.reassembler.substrs
  room : a.reassembler.bytesPending + a.output.bytesBuffered ≤ capacity

/-- Neither index of the call is beyond 64 bits. -/
def NoOverflow (a : Assembly) : Call → Prop
  | .insert firstIndex data _ =>
      a.bound < 2 ^ 64 ∧ firstIndex + data.length < 2 ^ 64
  | .pop _ => True

/-- The counter never goes below zero and every push is accepted in full. -/
def Accounted (a : Assembly) : Call → Prop
  | .insert firstIndex data isLast =>
      Reassembler.Checked.insert a.reassembler firstIndex data isLast a.output =
        .ok (a.reassembler.insert firstIndex data isLast a.output)
  | .pop _ => True

instance (a : Assembly) : DecidablePred (NoOverflow a)
  | .insert _ _ _ => inferInstanceAs (Decidable (_ ∧ _))
  | .pop _ => inferInstanceAs (Decidable True)

/-- What a run keeps. -/
structure Sound (capacity : Nat) (a : Assembly) : Prop where
  wf : a.reassembler.WF a.output
  capacity : a.output.capacity = capacity

theorem sound_start (capacity : Nat) : Sound capacity ⟨{}, { capacity }⟩ :=
  ⟨Reassembler.wf_new (ByteStream.wf_new capacity), rfl⟩

theorem sound_step {capacity : Nat} {a : Assembly} {call : Call} (h : Sound capacity a)
    (hcall : NoOverflow a call) : Sound capacity (a.step call) := by
  cases call with
  | pop len =>
      obtain ⟨n, hshrink, hsame⟩ := step_pop h.wf.stream len
      exact ⟨hsame ▸ h.wf.shrinks hshrink, hshrink.capacity.trans h.capacity⟩
  | insert firstIndex data isLast =>
      obtain ⟨new, hins⟩ := Reassembler.insert_spec h.wf firstIndex data isLast fun _ => hcall.2
      exact ⟨hins.wf, hins.grows.capacity.trans h.capacity⟩

theorem Sound.accounted {capacity : Nat} {a : Assembly} {call : Call} (h : Sound capacity a)
    (hcall : NoOverflow a call) : Accounted a call := by
  cases call with
  | pop len => trivial
  | insert firstIndex data isLast =>
      exact Reassembler.Checked.insert_ok h.wf firstIndex data isLast hcall.2

theorem Sound.within {capacity : Nat} {a : Assembly} (h : Sound capacity a) :
    ∀ p ∈ a.reassembler.substrs, p.stop ≤ a.output.bytesPopped + capacity := by
  intro p hp
  rw [← h.capacity]
  exact stop_le_of_covers h.wf.bounded hp (separated_data_ne h.wf.separated p hp)

/-- The pieces lie between what is buffered and the capacity. -/
theorem Sound.room {capacity : Nat} {a : Assembly} (h : Sound capacity a) :
    a.reassembler.bytesPending + a.output.bytesBuffered ≤ capacity := by
  have hbuffered := h.wf.stream.bounded
  have hcounted := h.wf.stream.counted
  have hcapacity := h.capacity
  have hsep := h.wf.separated
  have hwithin := h.within
  rw [Reassembler.bytesPending, h.wf.counted]
  cases hsubstrs : a.reassembler.substrs with
  | nil =>
      rw [size_nil]
      omega
  | cons p rest =>
      rw [hsubstrs] at hsep hwithin
      have hstart := starti_lt_stop hsep.2.1
      have hstop := hwithin p List.mem_cons_self
      have hahead := hsep.1
      have hsize := separated_size_le hsep (by omega) hwithin
      omega

theorem Sound.inOrder {capacity : Nat} {a : Assembly} (h : Sound capacity a) :
    InOrder capacity a := by
  have hnonempty := separated_data_ne h.wf.separated
  have hpairwise := separated_pairwise h.wf.separated
  refine ⟨?_, hnonempty, ?_, separated_le h.wf.separated, h.within, h.wf.counted, h.room⟩
  · refine hpairwise.imp_of_mem fun {p q} hp _ hpq => ?_
    exact (starti_lt_stop (hnonempty p hp)).trans_le hpq
  · refine hpairwise.imp fun {p q} hpq j hj => ?_
    exact Nat.lt_irrefl j (hj.1.2.trans_le (hpq.trans hj.2.1))

/-- For any calls whose indices are 64-bit numbers, whatever they say about an index: after
each of them the pieces are in order, and none of them takes more from the counter than is
there or pushes what the stream does not accept. -/
theorem substrs_in_order (capacity : Nat) {calls : List Call}
    (hfit : Along step NoOverflow ⟨{}, { capacity }⟩ calls) :
    (∀ pre, pre <+: calls → InOrder capacity (run step ⟨{}, { capacity }⟩ pre)) ∧
      Along step Accounted ⟨{}, { capacity }⟩ calls := by
  constructor
  · rintro pre ⟨rest, rfl⟩
    have hpre := ((along_append _ _ _).mp hfit).1
    exact (run_invariant step (sound_start capacity) (fun _ _ => sound_step) hpre).inOrder
  · exact along_of_invariant (sound_start capacity) (fun _ _ => sound_step)
      (fun _ _ => Sound.accounted) hfit

/-- The calls disagree about index 2. -/
theorem substrs_in_order_disagreeing :
    let calls := [.insert 1 [20, 30] false, .insert 2 [99, 40] true, .insert 0 [10] false, .pop 2]
    (∀ pre, pre <+: calls → InOrder 4 (run step ⟨{}, { capacity := 4 }⟩ pre)) ∧
      Along step Accounted ⟨{}, { capacity := 4 }⟩ calls :=
  substrs_in_order 4 (by decide)

end Assembly
end Minnow
