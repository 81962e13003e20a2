import Minnow.ReassemblerTrim
import Mathlib.Order.Bounds.Basic

/-!
What one `insert` does, for arbitrary data: the list stays separated, the counter
stays its size, and the known indices grow by exactly the indices of the call that
lie below the limit. Agreement with a stream `S` is carried along as a property of
the individual pieces, so inconsistent input needs no second proof.
-/

namespace Minnow
open Spans
namespace Reassembler

theorem insertLoop_nil (nodes : List Substring) (firstIndex : Nat)
    (prev : Option Substring) (nbytes : Nat) :
    insertLoop firstIndex [] prev nodes nbytes = trimLoop prev nodes nbytes := by
  induction nodes generalizing prev nbytes with
  | nil => rfl
  | cons it rest ih =>
      simp only [insertLoop, trimLoop, ne_eq, not_true_eq_false, false_and, if_false]
      split <;> simp_all

/-- Searching the place of a new node leaves the nodes before it alone. -/
theorem insertLoop_inserts (prev : Option Substring) (nodes : List Substring)
    {firstIndex : Nat} {data : Bytes} (hdata : data ≠ []) (h : Separated (prevStop prev) nodes)
    (hplace : ∃ p ∈ nodes, firstIndex ≤ p.starti) (nbytes : Nat) :
    ∃ front back, nodes = front ++ back ∧ (∀ p ∈ front, p.starti ≤ firstIndex) ∧
      (∀ p ∈ back, firstIndex ≤ p.starti) ∧
      insertLoop firstIndex data prev nodes nbytes =
        trimLoop prev (front ++ ⟨firstIndex, data⟩ :: back) (nbytes + data.length) := by
  induction nodes generalizing prev with
  | nil => simp at hplace
  | cons it rest ih =>
      by_cases hle : firstIndex ≤ it.starti
      · refine ⟨[], it :: rest, rfl, by simp, ?_, ?_⟩
        · intro p hp
          cases List.mem_cons.mp hp with
          | inl hhead =>
              subst hhead
              exact hle
          | inr hp =>
              have := separated_le h.2.2 p hp
              have := starti_lt_stop h.2.1
              omega
        · simp only [insertLoop, hdata, hle, ne_eq, not_false_eq_true, and_self, if_true,
            List.nil_append]
      · have hrest : ∃ p ∈ rest, firstIndex ≤ p.starti := by
          obtain ⟨p, hp, hlep⟩ := hplace
          cases List.mem_cons.mp hp with
          | inl hhead =>
              subst hhead
              exact absurd hlep hle
          | inr hp => exact ⟨p, hp, hlep⟩
        obtain ⟨front, back, rfl, hfront, hback, heq⟩ :=
          ih (some it) h.2.2 hrest
        refine ⟨it :: front, back, rfl, ?_, hback, ?_⟩
        · intro p hp
          cases List.mem_cons.mp hp with
          | inl hhead =>
              subst hhead
              exact (Nat.not_le.mp hle).le
          | inr hp => exact hfront p hp
        · simp only [insertLoop, hdata, hle, ne_eq, not_false_eq_true, and_false, if_false,
            trim_of_le h.1, Nat.sub_zero, heq, List.cons_append, trimLoop]

/-- The list after the edge cases and the first pass. -/
structure Placed (firstIndex : Nat) (data : Bytes) (nodes left : List Substring) : Prop where
  separated : Separated 0 left
  covers : ∀ j, Covers left j ↔
    Covers nodes j ∨ firstIndex ≤ j ∧ j < firstIndex + data.length
  slices : ∀ S, (∀ p ∈ nodes, p.SliceOf S) → data <+: S.drop firstIndex →
    ∀ p ∈ left, p.SliceOf S

theorem Placed.bounded {firstIndex hi : Nat} {data : Bytes} {nodes left : List Substring}
    (h : Placed firstIndex data nodes left) (hnodes : ∀ j, Covers nodes j → j < hi)
    (hdata : firstIndex + data.length ≤ hi) (j : Nat) (hj : Covers left j) : j < hi := by
  cases (h.covers j).mp hj with
  | inl hj => exact hnodes j hj
  | inr hj => exact hj.2.trans_le hdata

/-- All three ways of placing new data amount to one node put in its place. -/
theorem placed_of_split {firstIndex : Nat} {data : Bytes} (hdata : data ≠ [])
    (front back : List Substring) (h : Separated 0 (front ++ back))
    (hfront : ∀ p ∈ front, p.starti ≤ firstIndex)
    (hback : ∀ p ∈ back, firstIndex ≤ p.starti)
    {done : List Substring × Nat}
    (hdone : done = trimLoop none (front ++ ⟨firstIndex, data⟩ :: back)
      (size (front ++ back) + data.length)) :
    Placed firstIndex data (front ++ back) done.1 ∧ done.2 = size done.1 := by
  have hsize : size (front ++ (⟨firstIndex, data⟩ : Substring) :: back) =
      size (front ++ back) + data.length := by
    simp only [size_append, size_cons]
    omega
  obtain ⟨⟨hsep, hcov, hsl⟩, hcount⟩ := trimLoop_inserted none front (by simp)
    hdata h hfront hback hsize.le
  rw [← hdone, hsize] at hcount
  subst hdone
  refine ⟨⟨hsep, ?_, ?_⟩, by omega⟩
  · intro j
    rw [hcov, covers_append, covers_cons, covers_append]
    simp only [prevStop, Nat.zero_le, and_true, Span.Holds, Span.stop]
    rw [or_assoc, or_comm (a := firstIndex ≤ j ∧ _)]
  · intro S hS hpre
    apply hsl S
    intro p hp
    cases List.mem_append.mp hp with
    | inl hp => exact hS p (List.mem_append_left _ hp)
    | inr hp =>
        cases List.mem_cons.mp hp with
        | inl hhead =>
            subst hhead
            exact hpre
        | inr hp => exact hS p (List.mem_append_right _ hp)

theorem place_spec (firstIndex : Nat) (data : Bytes) {nodes : List Substring}
    (h : Separated 0 nodes) :
    Placed firstIndex data nodes (place firstIndex data nodes (size nodes)).1 ∧
      (place firstIndex data nodes (size nodes)).2 =
        size (place firstIndex data nodes (size nodes)).1 := by
  by_cases hdata : data = []
  · subst hdata
    have hsame : place firstIndex [] nodes (size nodes) = (nodes, size nodes) := by
      simp only [place, ne_eq, not_true_eq_false, false_and, if_false, insertLoop_nil]
      exact trimLoop_separated none nodes h _
    rw [hsame]
    refine ⟨⟨h, fun j => ?_, fun S hS _ => hS⟩, rfl⟩
    simp only [List.length_nil, Nat.add_zero]
    exact ⟨Or.inl, fun hj => hj.elim id fun hj => absurd hj.2 (Nat.not_lt.mpr hj.1)⟩
  · by_cases hempty : nodes = []
    · subst hempty
      exact placed_of_split hdata [] [] trivial (by simp) (by simp)
        (by simp [place, hdata, insertLoop_nil])
    · by_cases hlast : (nodes.getLast?.map Span.starti).getD 0 < firstIndex
      · have hfront : ∀ p ∈ nodes, p.starti ≤ firstIndex := by
          intro p hp
          rw [List.getLast?_eq_some_getLast hempty] at hlast
          have hsplit := List.dropLast_append_getLast hempty
          rw [← hsplit] at hp h
          cases List.mem_append.mp hp with
          | inl hp =>
              have hbound : p.starti ≤ (nodes.getLast hempty).starti :=
                separated_starts h p hp _ (by simp)
              exact hbound.trans (Nat.le_of_lt (by simpa using hlast))
          | inr hp =>
              rw [List.mem_singleton.mp hp]
              exact Nat.le_of_lt (by simpa using hlast)
        have hdone : place firstIndex data nodes (size nodes) = trimLoop none
            (nodes ++ [⟨firstIndex, data⟩]) (size (nodes ++ []) + data.length) := by
          simp [place, hdata, hempty, hlast, insertLoop_nil]
        simpa using placed_of_split hdata nodes [] (by simpa using h) hfront (by simp) hdone
      · have hplace : ∃ p ∈ nodes, firstIndex ≤ p.starti := by
          refine ⟨nodes.getLast hempty, List.getLast_mem hempty, ?_⟩
          rw [List.getLast?_eq_some_getLast hempty] at hlast
          simpa using hlast
        obtain ⟨front, back, rfl, hfront, hback, heq⟩ := insertLoop_inserts none nodes
          hdata h hplace (size nodes)
        apply placed_of_split hdata front back h hfront hback
        simp only [place, hempty, and_false, if_false, hlast, heq]

theorem flushLoop_ahead (nodes : List Substring) {lo : Nat} (h : Separated lo nodes)
    {output : ByteStream} (hlo : output.bytesPushed < lo) (nbytes : Nat) :
    flushLoop nodes nbytes output = (nodes, nbytes, output) := by
  induction nodes generalizing lo with
  | nil => rfl
  | cons it rest ih =>
      have hahead : ¬ it.starti ≤ output.bytesPushed := by have := h.1; omega
      have hrest : output.bytesPushed < it.stop := by
        have := starti_lt_stop h.2.1; omega
      simp only [flushLoop, hahead, if_false, ih h.2.2 hrest]

/-- The outcome of the second pass. -/
structure Flushed (output output' : ByteStream) (nodes left : List Substring)
    (new : Bytes) : Prop where
  grows : output.Grows output' new
  closed : output'.isClosed = output.isClosed
  separated : Separated (output'.bytesPushed + 1) left
  known : ∀ j, j < output'.bytesPushed ∨ Covers left j ↔
    j < output.bytesPushed ∨ Covers nodes j
  slices : ∀ S, (∀ p ∈ nodes, p.SliceOf S) →
    (∀ p ∈ left, p.SliceOf S) ∧ new <+: S.drop output.bytesPushed

/-- A push of bytes that end within the capacity is accepted in full. -/
theorem push_within {output : ByteStream} (h : output.WF) (data : Bytes)
    (hfit : data = [] ∨
      output.bytesPushed + data.length ≤ output.bytesPopped + output.capacity) :
    output.Grows (output.push data) data := by
  have hlen : data.length ≤ output.availableCapacity := by
    have := ByteStream.pushed_add_available h
    cases hfit with
    | inl hnil =>
        subst hnil
        exact Nat.zero_le _
    | inr hfit => omega
  have := ByteStream.push_grows h data
  rwa [List.take_of_length_le hlen] at this

/-- The part of a node that the stream has reached is accepted in full. -/
theorem push_node {output : ByteStream} (h : output.WF) (it : Substring)
    (hle : it.starti ≤ output.bytesPushed)
    (hstop : it.stop ≤ output.bytesPopped + output.capacity) :
    output.Grows (output.push (it.data.drop (output.bytesPushed - it.starti)))
      (it.data.drop (output.bytesPushed - it.starti)) := by
  have hend : it.stop = it.starti + it.data.length := rfl
  apply push_within h
  by_cases hstale : it.stop ≤ output.bytesPushed
  · left
    rw [List.drop_eq_nil_iff]
    omega
  · right
    rw [List.length_drop]
    omega

/-- A node that the stream has reached is pushed, and the rest is flushed after it. -/
theorem Flushed.cons {output output' : ByteStream} {it : Substring} {rest left : List Substring}
    {new : Bytes} (hle : it.starti ≤ output.bytesPushed)
    (hpush : output.Grows (output.push (it.data.drop (output.bytesPushed - it.starti)))
      (it.data.drop (output.bytesPushed - it.starti)))
    (h : Flushed (output.push (it.data.drop (output.bytesPushed - it.starti))) output' rest left
      new) :
    Flushed output output' (it :: rest) left
      (it.data.drop (output.bytesPushed - it.starti) ++ new) := by
  have hend : it.stop = it.starti + it.data.length := rfl
  have hpushed := hpush.pushed
  rw [List.length_drop] at hpushed
  refine ⟨hpush.trans h.grows, h.closed.trans (ByteStream.push_isClosed _ _), h.separated, ?_, ?_⟩
  · intro j
    rw [h.known, covers_cons, hpushed, Span.Holds]
    constructor
    · rintro (hj | hj)
      · omega
      · exact Or.inr (Or.inr hj)
    · rintro (hj | hj | hj)
      · omega
      · omega
      · exact Or.inr hj
  · intro S hS
    obtain ⟨hleft, hnew⟩ := h.slices S fun p hp => hS p (List.mem_cons_of_mem _ hp)
    have hfirst := sliceOf_drop (hS it List.mem_cons_self) (output.bytesPushed - it.starti)
    rw [Span.SliceOf, Nat.add_sub_cancel' hle] at hfirst
    refine ⟨hleft, prefix_extend hfirst ?_⟩
    rw [List.drop_drop, ← hpush.pushed]
    exact hnew

theorem flushLoop_spec (nodes : List Substring) {lo : Nat} (h : Separated lo nodes)
    {output : ByteStream} (hout : output.WF)
    (hbound : ∀ j, Covers nodes j → j < output.bytesPopped + output.capacity) :
    ∃ new, Flushed output (flushLoop nodes (size nodes) output).2.2 nodes
        (flushLoop nodes (size nodes) output).1 new ∧
      (flushLoop nodes (size nodes) output).2.1 =
        size (flushLoop nodes (size nodes) output).1 := by
  induction nodes generalizing lo output with
  | nil =>
      exact ⟨[], ⟨ByteStream.Grows.refl hout, rfl, trivial, fun j => Iff.rfl, by simp [flushLoop]⟩,
        rfl⟩
  | cons it rest ih =>
      by_cases hle : it.starti ≤ output.bytesPushed
      · have hstop := stop_le_of_covers hbound List.mem_cons_self h.2.1
        have hpush := push_node hout it hle hstop
        have hrest : ∀ j, Covers rest j → j < output.bytesPopped + output.capacity :=
          fun j hj => hbound j ((covers_cons it rest j).mpr (Or.inr hj))
        rw [← hpush.popped, ← hpush.capacity] at hrest
        obtain ⟨new, hflushed, hcount⟩ := ih h.2.2 hpush.wf hrest
        have hstep : flushLoop (it :: rest) (size (it :: rest)) output =
            flushLoop rest (size rest)
              (output.push (it.data.drop (output.bytesPushed - it.starti))) := by
          simp only [flushLoop, hle, if_true, size_cons, Nat.add_sub_cancel_left]
        rw [hstep]
        exact ⟨_, hflushed.cons hle hpush, hcount⟩
      · have hahead : Separated (output.bytesPushed + 1) (it :: rest) :=
          ⟨by omega, h.2⟩
        rw [flushLoop_ahead (it :: rest) hahead (Nat.lt_succ_self _)]
        refine ⟨[], ⟨ByteStream.Grows.refl hout, rfl, hahead, fun j => Iff.rfl, fun S hS => ?_⟩,
          rfl⟩
        exact ⟨hS, List.nil_prefix⟩

/-- The invariant between calls. -/
structure WF (r : Reassembler) (output : ByteStream) : Prop where
  stream : output.WF
  separated : Separated (output.bytesPushed + 1) r.substrs
  counted : r.nbytesSubstrs = size r.substrs
  bounded : ∀ j, Covers r.substrs j → j < output.bytesPopped + output.capacity

/-- Index `j` has been written to the stream or is stored. -/
def Known (r : Reassembler) (output : ByteStream) (j : Nat) : Prop :=
  j < output.bytesPushed ∨ Covers r.substrs j

theorem wf_new {output : ByteStream} (h : output.WF) : WF {} output :=
  ⟨h, trivial, rfl, by simp⟩

/-- Reading from the output leaves the Reassembler in order. -/
theorem WF.shrinks {r : Reassembler} {output output' : ByteStream} (h : WF r output)
    {n : Nat} (hs : output.Shrinks output' n) : WF r output' := by
  refine ⟨hs.wf, ?_, h.counted, fun j hj => ?_⟩
  · rw [hs.pushed]; exact h.separated
  · have := h.bounded j hj
    rw [hs.popped, hs.capacity]
    omega

theorem limit_le {output : ByteStream} (h : output.WF) :
    limit output ≤ output.bytesPopped + output.capacity := by
  rw [limit, ByteStream.pushed_add_available h]
  exact u64_le _

theorem clip_length {firstIndex : Nat} {data : Bytes} {output : ByteStream}
    (hlimit : firstIndex < limit output) (hsum : firstIndex + data.length < 2 ^ 64) :
    (clip firstIndex data output).length = min data.length (limit output - firstIndex) := by
  rw [clip, u64_of_lt hsum]
  split
  · rw [List.length_take, Nat.min_comm]
  · omega

theorem clip_initial (firstIndex : Nat) (data : Bytes) (output : ByteStream) :
    clip firstIndex data output <+: data := by
  unfold clip
  split
  · exact List.take_prefix _ _
  · exact List.prefix_rfl

theorem clip_within {firstIndex : Nat} {data : Bytes} {output : ByteStream} (h : output.WF)
    (hlimit : firstIndex < limit output) (hsum : firstIndex + data.length < 2 ^ 64) :
    firstIndex + (clip firstIndex data output).length ≤
      output.bytesPopped + output.capacity := by
  have hlen := clip_length hlimit hsum
  have hle := limit_le h
  omega

/-- The outcome of pushing the next bytes at once. -/
structure PushedNext (firstIndex : Nat) (data : Bytes) (output : ByteStream)
    (stored : Bytes) (output' : ByteStream) (new : Bytes) : Prop where
  grows : output.Grows output' new
  closed : output'.isClosed = output.isClosed
  initial : stored <+: data
  known : ∀ j, j < output'.bytesPushed ∨
      firstIndex ≤ j ∧ j < firstIndex + stored.length ↔
    j < output.bytesPushed ∨ firstIndex ≤ j ∧ j < firstIndex + data.length
  slices : ∀ S : Bytes, data <+: S.drop firstIndex → new <+: S.drop output.bytesPushed

theorem pushNext_spec {output : ByteStream} (h : output.WF) {firstIndex : Nat}
    {data : Bytes} (hsum : firstIndex + data.length < 2 ^ 64)
    (hfit : firstIndex + data.length ≤ output.bytesPopped + output.capacity) :
    ∃ new, PushedNext firstIndex data output (pushNext firstIndex data output).1
      (pushNext firstIndex data output).2 new := by
  by_cases hnext : firstIndex ≤ output.bytesPushed ∧
      output.bytesPushed < firstIndex + data.length
  · have hpush := push_node h ⟨firstIndex, data⟩ hnext.1 hfit
    have hpushed := hpush.pushed
    rw [List.length_drop] at hpushed
    simp only [pushNext, u64_of_lt hsum, hnext, and_self, if_true]
    refine ⟨_, hpush, ByteStream.push_isClosed _ _, List.nil_prefix, ?_, ?_⟩
    · intro j
      rw [hpushed]
      simp only [List.length_nil]
      omega
    · intro S hS
      have := sliceOf_drop (p := ⟨firstIndex, data⟩) hS (output.bytesPushed - firstIndex)
      rwa [Span.SliceOf, Nat.add_sub_cancel' hnext.1] at this
  · simp only [pushNext, u64_of_lt hsum, hnext, if_false]
    exact ⟨[], ByteStream.Grows.refl h, rfl, List.prefix_rfl, fun j => Iff.rfl,
      fun S _ => List.nil_prefix⟩

/-- What the phases between clipping and closing do with data that fits. -/
structure Absorbed (r : Reassembler) (firstIndex : Nat) (data : Bytes) (output : ByteStream)
    (r' : Reassembler) (output' : ByteStream) (new : Bytes) : Prop where
  wf : WF r' output'
  grows : output.Grows output' new
  closed : output'.isClosed = output.isClosed
  known : ∀ j, Known r' output' j ↔
    Known r output j ∨ firstIndex ≤ j ∧ j < firstIndex + data.length
  slices : ∀ S, (∀ p ∈ r.substrs, p.SliceOf S) → data <+: S.drop firstIndex →
    (∀ p ∈ r'.substrs, p.SliceOf S) ∧ new <+: S.drop output.bytesPushed

theorem absorbed_of_phases {r : Reassembler} {output : ByteStream} (h : WF r output)
    {firstIndex : Nat} {data stored : Bytes} {output₁ : ByteStream} {first : Bytes}
    (hnext : PushedNext firstIndex data output stored output₁ first)
    (hfit : firstIndex + data.length ≤ output.bytesPopped + output.capacity)
    {placed : List Substring × Nat} {flushed : List Substring × Nat × ByteStream}
    (hplace : place firstIndex stored r.substrs r.nbytesSubstrs = placed)
    (hflush : flushLoop placed.1 placed.2 output₁ = flushed) (shouldClose : Bool) :
    ∃ new, Absorbed r firstIndex data output ⟨flushed.1, flushed.2.1, shouldClose⟩
      flushed.2.2 new := by
  obtain ⟨hplaced, hcount⟩ := place_spec firstIndex stored
    (separated_mono h.separated (Nat.zero_le _))
  rw [← h.counted, hplace] at hplaced hcount
  have hknown : ∀ j, j < output₁.bytesPushed ∨ Covers placed.1 j ↔
      Known r output j ∨ firstIndex ≤ j ∧ j < firstIndex + data.length := by
    intro j
    rw [hplaced.covers, or_left_comm, hnext.known, Known, or_left_comm, or_assoc]
  have hbound : ∀ j, Covers placed.1 j → j < output.bytesPopped + output.capacity :=
    hplaced.bounded h.bounded ((Nat.add_le_add_left hnext.initial.length_le _).trans hfit)
  obtain ⟨more, hmore, hsize⟩ := flushLoop_spec placed.1 hplaced.separated hnext.grows.wf (by
    rw [hnext.grows.popped, hnext.grows.capacity]; exact hbound)
  rw [← hcount, hflush] at hmore hsize
  have hgrows := hnext.grows.trans hmore.grows
  refine ⟨_, ⟨hgrows.wf, hmore.separated, hsize, ?_⟩, hgrows,
    hmore.closed.trans hnext.closed, fun j => (hmore.known j).trans (hknown j), ?_⟩
  · intro j hj
    rw [hgrows.popped, hgrows.capacity]
    rcases (hknown j).mp ((hmore.known j).mp (Or.inr hj)) with (hj | hj) | hj
    · have := h.stream.counted
      have := h.stream.bounded
      omega
    · exact h.bounded j hj
    · omega
  · intro S hS hdata
    obtain ⟨hleft, hnew⟩ := hmore.slices S
      (hplaced.slices S hS (hnext.initial.trans hdata))
    refine ⟨hleft, prefix_extend (hnext.slices S hdata) ?_⟩
    rwa [List.drop_drop, ← hnext.grows.pushed]

/-- Everything an `insert` does. -/
structure Inserted (r : Reassembler) (firstIndex : Nat) (data : Bytes) (isLast : Bool)
    (output : ByteStream) (r' : Reassembler) (output' : ByteStream) (new : Bytes) : Prop where
  wf : WF r' output'
  grows : output.Grows output' new
  known : ∀ j, Known r' output' j ↔ Known r output j ∨
    firstIndex ≤ j ∧ j < firstIndex + data.length ∧ j < limit output
  shouldClose : r'.shouldClose =
    (r.shouldClose || isLast && decide (firstIndex < limit output))
  closed : output'.isClosed =
    (output.isClosed ||
      decide (firstIndex < limit output) && r'.shouldClose && r'.nbytesSubstrs == 0)
  slices : ∀ S, (∀ p ∈ r.substrs, p.SliceOf S) → data <+: S.drop firstIndex →
    (∀ p ∈ r'.substrs, p.SliceOf S) ∧ new <+: S.drop output.bytesPushed

theorem insert_spec {r : Reassembler} {output : ByteStream} (h : WF r output)
    (firstIndex : Nat) (data : Bytes) (isLast : Bool)
    (hsum : firstIndex < limit output → firstIndex + data.length < 2 ^ 64) :
    ∃ new, Inserted r firstIndex data isLast output
      (r.insert firstIndex data isLast output).1
      (r.insert firstIndex data isLast output).2 new := by
  by_cases hlimit : limit output ≤ firstIndex
  · have hnot : ¬ firstIndex < limit output := Nat.not_lt.mpr hlimit
    simp only [insert, hlimit, if_true]
    refine ⟨[], h, ByteStream.Grows.refl h.stream, ?_, by simp [hnot], by simp [hnot],
      fun S hS _ => ⟨hS, List.nil_prefix⟩⟩
    intro j
    exact ⟨Or.inl, fun hj => hj.elim id fun hj => absurd (hj.1.trans_lt hj.2.2) hnot⟩
  · have hlt : firstIndex < limit output := Nat.not_le.mp hlimit
    have hsum := hsum hlt
    have hlen := clip_length hlt hsum
    have hfit := clip_within h.stream hlt hsum
    simp only [insert, hlimit, if_false]
    have hend : firstIndex + (clip firstIndex data output).length < 2 ^ 64 := by omega
    obtain ⟨first, hnext⟩ := pushNext_spec h.stream hend hfit
    generalize hplace : place firstIndex
      (pushNext firstIndex (clip firstIndex data output) output).1
      r.substrs r.nbytesSubstrs = placed
    generalize hflush : flushLoop placed.1 placed.2
      (pushNext firstIndex (clip firstIndex data output) output).2 = flushed
    obtain ⟨new, ⟨hwf, hgrows, hclosed, hknown, hslices⟩⟩ := absorbed_of_phases h hnext
      hfit hplace hflush (r.shouldClose || isLast)
    have hindices : ∀ j, (firstIndex ≤ j ∧ j < firstIndex + (clip firstIndex data output).length)
        ↔ (firstIndex ≤ j ∧ j < firstIndex + data.length ∧ j < limit output) := by
      intro j
      rw [hlen]
      omega
    simp only [hindices] at hknown
    have hslices' := fun S hS hdata =>
      hslices S hS ((clip_initial firstIndex data output).trans hdata)
    cases hclose : (r.shouldClose || isLast) && flushed.2.1 == 0
    · refine ⟨new, hwf, hgrows, hknown, by simp [hlt], ?_, hslices'⟩
      simpa [hlt, hclose] using hclosed
    · have hdone := ByteStream.close_grows hgrows.wf
      have hgrows' := hgrows.trans hdone
      rw [List.append_nil] at hgrows'
      refine ⟨new, ⟨hgrows'.wf, hwf.separated, hwf.counted, hwf.bounded⟩, hgrows', hknown,
        by simp [hlt], ?_, hslices'⟩
      simp [hlt, hclose, ByteStream.close]

/-- The second pass only pushes, whatever the list holds. -/
theorem flushLoop_grows (nodes : List Substring) (nbytes : Nat) {output : ByteStream}
    (h : output.WF) : ∃ new, output.Grows (flushLoop nodes nbytes output).2.2 new ∧
      (flushLoop nodes nbytes output).2.2.isClosed = output.isClosed := by
  induction nodes generalizing nbytes output with
  | nil => exact ⟨[], ByteStream.Grows.refl h, rfl⟩
  | cons it rest ih =>
      unfold flushLoop
      by_cases hle : it.starti ≤ output.bytesPushed
      · rw [if_pos hle]
        have hpush := ByteStream.push_grows h (it.data.drop (output.bytesPushed - it.starti))
        obtain ⟨new, hgrows, hclosed⟩ := ih (nbytes - it.data.length) hpush.wf
        exact ⟨_, hpush.trans hgrows, by rw [hclosed, ByteStream.push_isClosed]⟩
      · rw [if_neg hle]
        exact ih nbytes h

theorem pushNext_grows (firstIndex : Nat) (data : Bytes) {output : ByteStream}
    (h : output.WF) : ∃ new, output.Grows (pushNext firstIndex data output).2 new ∧
      (pushNext firstIndex data output).2.isClosed = output.isClosed := by
  unfold pushNext
  split
  · exact ⟨_, ByteStream.push_grows h _, ByteStream.push_isClosed _ _⟩
  · exact ⟨[], ByteStream.Grows.refl h, rfl⟩

/-- Whatever is inserted and wherever, the stream only grows, and it stays closed. -/
theorem insert_grows (r : Reassembler) (firstIndex : Nat) (data : Bytes) (isLast : Bool)
    {output : ByteStream} (h : output.WF) :
    ∃ new, output.Grows (r.insert firstIndex data isLast output).2 new ∧
      (output.isClosed = true → (r.insert firstIndex data isLast output).2.isClosed = true) := by
  by_cases hlimit : limit output ≤ firstIndex
  · simp only [insert, hlimit, if_true]
    exact ⟨[], ByteStream.Grows.refl h, id⟩
  · simp only [insert, hlimit, if_false]
    obtain ⟨first, hfirst, hopen⟩ := pushNext_grows firstIndex (clip firstIndex data output) h
    generalize place firstIndex (pushNext firstIndex (clip firstIndex data output) output).1
      r.substrs r.nbytesSubstrs = placed
    obtain ⟨more, hmore, hstill⟩ := flushLoop_grows placed.1 placed.2 hfirst.wf
    have hgrows := hfirst.trans hmore
    generalize flushLoop placed.1 placed.2
      (pushNext firstIndex (clip firstIndex data output) output).2 = flushed at *
    cases (r.shouldClose || isLast) && flushed.2.1 == 0 with
    | false => exact ⟨_, hgrows, fun hclosed => hstill.trans (hopen.trans hclosed)⟩
    | true => exact ⟨_, hgrows.trans (ByteStream.close_grows hgrows.wf), fun _ => rfl⟩

/-- The frontier of the stream is the least index not known. -/
theorem isLeast_unknown {r : Reassembler} {output : ByteStream} (h : WF r output) :
    IsLeast {j | ¬ Known r output j} output.bytesPushed := by
  constructor
  · rintro (hlt | hcov)
    · exact Nat.lt_irrefl _ hlt
    · exact Nat.not_succ_le_self _ (covers_ge h.separated hcov)
  · intro j hj
    exact Nat.not_lt.mp fun hlt => hj (Or.inl hlt)

/-- Nothing is stored exactly when the known indices have no gap. -/
theorem nothing_pending_iff {r : Reassembler} {output : ByteStream} (h : WF r output)
    (total : Nat) : r.nbytesSubstrs = 0 ∧ output.bytesPushed < total ↔
      ∃ m, m < total ∧ ∀ j, Known r output j ↔ j < m := by
  constructor
  · rintro ⟨hzero, hlt⟩
    have hnil := eq_nil_of_size h.separated (h.counted ▸ hzero)
    exact ⟨_, hlt, fun j => by simp [Known, hnil]⟩
  · rintro ⟨m, hlt, hknown⟩
    have hunknown := (isLeast_unknown h).1
    have hm : output.bytesPushed = m := by
      apply Nat.le_antisymm
      · exact (isLeast_unknown h).2 (fun hk => Nat.lt_irrefl _ ((hknown m).mp hk))
      · exact Nat.not_lt.mp fun hk => hunknown ((hknown _).mpr hk)
    refine ⟨?_, hm ▸ hlt⟩
    rw [h.counted]
    cases hl : r.substrs with
    | nil => rfl
    | cons p l =>
        have hsep := h.separated
        rw [hl] at hsep
        have hp : Known r output p.starti :=
          Or.inr ⟨p, by simp [hl], Nat.le_refl _, starti_lt_stop hsep.2.1⟩
        have := (hknown _).mp hp
        have := hsep.1
        omega

/-- A call leaves the stream closed if it was closed, or if the call is accepted, the end
is accepted by now and the indices known with this call have no gap. -/
theorem Inserted.closed_iff {r r' : Reassembler} {output output' : ByteStream}
    {firstIndex : Nat} {data : Bytes} {isLast : Bool} {new : Bytes}
    (h : Inserted r firstIndex data isLast output r' output' new) :
    output'.isClosed = true ↔ output.isClosed = true ∨
      firstIndex < limit output ∧ (r.shouldClose || isLast) = true ∧
        ∃ m, ∀ j, (Known r output j ∨
          firstIndex ≤ j ∧ j < firstIndex + data.length ∧ j < limit output) ↔ j < m := by
  rw [h.closed, h.shouldClose]
  simp only [Bool.or_eq_true, Bool.and_eq_true, decide_eq_true_eq, beq_iff_eq]
  apply or_congr_right
  constructor
  · rintro ⟨⟨hlt, hend⟩, hzero⟩
    obtain ⟨m, -, hm⟩ := (nothing_pending_iff h.wf (output'.bytesPushed + 1)).mp
      ⟨hzero, Nat.lt_succ_self _⟩
    exact ⟨hlt, hend.imp_right And.left, m, fun j => (h.known j).symm.trans (hm j)⟩
  · rintro ⟨hlt, hend, m, hm⟩
    have hpending := (nothing_pending_iff h.wf (m + 1)).mpr
      ⟨m, Nat.lt_succ_self m, fun j => (h.known j).trans (hm j)⟩
    exact ⟨⟨hlt, hend.imp_right fun h => ⟨h, hlt⟩⟩, hpending.1⟩

/-- The call is accepted, the end of the stream has been accepted by now, and yet
the indices known with this call are a gapless part of the `total` that stops short
of its end. This happens when the last substring is empty and overtakes the bytes
before it, or when its tail is clipped. -/
def StopsShort (r : Reassembler) (firstIndex : Nat) (data : Bytes) (isLast : Bool)
    (output : ByteStream) (total : Nat) : Prop :=
  firstIndex < limit output ∧ (r.shouldClose || isLast) = true ∧
    ∃ m, m < total ∧ ∀ j, (Known r output j ∨
      firstIndex ≤ j ∧ j < firstIndex + data.length ∧ j < limit output) ↔ j < m

theorem stopsShort_iff {r r' : Reassembler} {output output' : ByteStream}
    {firstIndex : Nat} {data : Bytes} {isLast : Bool} {new : Bytes}
    (h : Inserted r firstIndex data isLast output r' output' new) (total : Nat) :
    StopsShort r firstIndex data isLast output total ↔ firstIndex < limit output ∧
      r'.shouldClose = true ∧ r'.nbytesSubstrs = 0 ∧ output'.bytesPushed < total := by
  rw [nothing_pending_iff h.wf]
  simp only [h.known, h.shouldClose, StopsShort]
  constructor
  · rintro ⟨hlt, hend, hshort⟩
    exact ⟨hlt, by simpa [hlt] using hend, hshort⟩
  · rintro ⟨hlt, hend, hshort⟩
    exact ⟨hlt, by simpa [hlt] using hend, hshort⟩

end Reassembler
end Minnow
