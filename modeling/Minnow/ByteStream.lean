import Mathlib.Data.List.Basic
import Mathlib.Data.List.Infix

/-!
The in-memory byte stream: a queue of non-empty chunks with three counters kept
beside it. Counters are naturals; each counts bytes that the stream has carried.
The queue is read through `contents`, the concatenation of its chunks: a push
appends to it, a pop drops from its front, and `read` returns its first bytes.
-/

namespace Minnow

abbrev Bytes := List UInt8

structure ByteStream where
  capacity : Nat
  buffer : List Bytes := []
  bytesPushed : Nat := 0
  bytesPopped : Nat := 0
  bytesBuffered : Nat := 0
  isClosed : Bool := false
  hasError : Bool := false
  deriving Repr, DecidableEq

namespace ByteStream

def availableCapacity (s : ByteStream) : Nat := s.capacity - s.bytesBuffered

def push (s : ByteStream) (data : Bytes) : ByteStream :=
  if data.isEmpty || s.availableCapacity == 0 then s
  else
    let data :=
      if s.availableCapacity < data.length then data.take s.availableCapacity else data
    { s with
      bytesPushed := s.bytesPushed + data.length
      bytesBuffered := s.bytesBuffered + data.length
      buffer := s.buffer ++ [data] }

def close (s : ByteStream) : ByteStream := { s with isClosed := true }

def setError (s : ByteStream) : ByteStream := { s with hasError := true }

/-- The view of the front chunk. The source evaluates `front()` unguarded; on an
empty queue, where that is undefined, the view is empty here. -/
def peek (s : ByteStream) : Bytes := s.buffer.headD []

def isFinished (s : ByteStream) : Bool := s.isClosed && s.bytesBuffered == 0

/-- The loop of `pop` over whole chunks: the length left and the queue left. The
loop test reads `front()` before it asks for emptiness; the exit on an empty
queue is the one the test takes whatever that read returns. -/
def popChunks : Nat → List Bytes → Nat × List Bytes
  | len, [] => (len, [])
  | len, front :: rest =>
      if front.length ≤ len then popChunks (len - front.length) rest
      else (len, front :: rest)

/-- The partial erase at the end of `pop`. -/
def eraseFront (len : Nat) : List Bytes → List Bytes
  | [] => []
  | front :: rest => front.drop len :: rest

def pop (s : ByteStream) (len : Nat) : Except String ByteStream :=
  if s.bytesBuffered < len then .error "pop: len is greater than bytes buffered."
  else
    let left := popChunks len s.buffer
    .ok { s with
      bytesPopped := s.bytesPopped + len
      bytesBuffered := s.bytesBuffered - len
      buffer := if 0 < left.1 then eraseFront left.1 left.2 else left.2 }

/-- The loop of the `read` helper. Every turn that does not leave the loop adds a
byte to `out`, so `len` turns are enough for its condition to fail. -/
def readLoop : Nat → ByteStream → Nat → Bytes → Except String (ByteStream × Bytes)
  | 0, s, _, out => .ok (s, out)
  | fuel + 1, s, len, out =>
      if s.bytesBuffered ≠ 0 ∧ out.length < len then
        let view := s.peek
        if view.isEmpty then .error "Reader::peek() returned empty string_view"
        else
          let view := view.take (len - out.length)
          match s.pop view.length with
          | .error e => .error e
          | .ok s => readLoop fuel s len (out ++ view)
      else .ok (s, out)

def read (s : ByteStream) (len : Nat) : Except String (ByteStream × Bytes) :=
  readLoop len s len []

/-- The bytes pushed and not yet popped, in order. -/
def contents (s : ByteStream) : Bytes := s.buffer.flatten

/-- What an operation that only pushes has appended. -/
def appended (s s' : ByteStream) : Bytes := s'.contents.drop s.contents.length

/-- What an operation that only pops has removed. -/
def removed (s s' : ByteStream) : Bytes :=
  s.contents.take (s.contents.length - s'.contents.length)

/-- The invariant of a stream: the counters describe the queue and no chunk is
empty. -/
structure WF (s : ByteStream) : Prop where
  buffered : s.bytesBuffered = s.contents.length
  chunks : ∀ c ∈ s.buffer, c ≠ []
  bounded : s.bytesBuffered ≤ s.capacity
  counted : s.bytesPushed = s.bytesPopped + s.bytesBuffered

theorem wf_new (capacity : Nat) : WF { capacity } := by
  constructor <;> simp [contents]

/-- `s'` is `s` after `new` has been appended to the queue. -/
structure Grows (s s' : ByteStream) (new : Bytes) : Prop where
  contents : s'.contents = s.contents ++ new
  pushed : s'.bytesPushed = s.bytesPushed + new.length
  popped : s'.bytesPopped = s.bytesPopped
  capacity : s'.capacity = s.capacity
  wf : s'.WF

/-- `s'` is `s` after its first `n` bytes have been removed. -/
structure Shrinks (s s' : ByteStream) (n : Nat) : Prop where
  contents : s'.contents = s.contents.drop n
  pushed : s'.bytesPushed = s.bytesPushed
  popped : s'.bytesPopped = s.bytesPopped + n
  capacity : s'.capacity = s.capacity
  closed : s'.isClosed = s.isClosed
  wf : s'.WF

theorem Grows.refl {s : ByteStream} (h : s.WF) : Grows s s [] :=
  ⟨by simp, rfl, rfl, rfl, h⟩

theorem Grows.trans {s t u : ByteStream} {new more : Bytes}
    (h : Grows s t new) (k : Grows t u more) : Grows s u (new ++ more) := by
  refine ⟨?_, ?_, k.popped.trans h.popped, k.capacity.trans h.capacity, k.wf⟩
  · rw [k.contents, h.contents, List.append_assoc]
  · rw [k.pushed, h.pushed, List.length_append, Nat.add_assoc]

theorem Grows.appended_eq {s s' : ByteStream} {new : Bytes} (h : Grows s s' new) :
    appended s s' = new := by
  rw [appended, h.contents, List.drop_left]

theorem Shrinks.removed_eq {s s' : ByteStream} {n : Nat} (h : Shrinks s s' n) :
    removed s s' = s.contents.take n := by
  rw [removed, h.contents, List.length_drop]
  cases Nat.le_total n s.contents.length with
  | inl hle => rw [Nat.sub_sub_self hle]
  | inr hle => rw [List.take_of_length_le (by omega), List.take_of_length_le hle]

theorem Shrinks.refl {s : ByteStream} (h : s.WF) : Shrinks s s 0 :=
  ⟨rfl, rfl, rfl, rfl, rfl, h⟩

theorem Shrinks.trans {s t u : ByteStream} {m n : Nat}
    (h : Shrinks s t m) (k : Shrinks t u n) : Shrinks s u (m + n) := by
  refine ⟨?_, k.pushed.trans h.pushed, ?_, k.capacity.trans h.capacity,
    k.closed.trans h.closed, k.wf⟩
  · rw [k.contents, h.contents, List.drop_drop]
  · rw [k.popped, h.popped, Nat.add_assoc]

theorem close_wf {s : ByteStream} (h : s.WF) : s.close.WF :=
  ⟨h.buffered, h.chunks, h.bounded, h.counted⟩

theorem close_grows {s : ByteStream} (h : s.WF) : Grows s s.close [] :=
  ⟨by simp [close, ByteStream.contents], rfl, rfl, rfl, close_wf h⟩

theorem setError_wf {s : ByteStream} (h : s.WF) : s.setError.WF :=
  ⟨h.buffered, h.chunks, h.bounded, h.counted⟩

theorem isFinished_iff {s : ByteStream} (h : s.WF) :
    s.isFinished = true ↔ s.isClosed = true ∧ s.contents = [] := by
  simp [isFinished, h.buffered]

/-- Of a stream in order, the first index that can not be accepted. -/
theorem pushed_add_available {s : ByteStream} (h : s.WF) :
    s.bytesPushed + s.availableCapacity = s.bytesPopped + s.capacity := by
  have := h.bounded
  have := h.counted
  rw [availableCapacity]
  omega

/-- A push takes the longest prefix that fits. -/
theorem push_grows {s : ByteStream} (h : s.WF) (data : Bytes) :
    Grows s (s.push data) (data.take s.availableCapacity) := by
  unfold push
  by_cases hskip : (data.isEmpty || s.availableCapacity == 0) = true
  · have hnone : data.take s.availableCapacity = [] := by
      simpa [List.take_eq_nil_iff, or_comm] using hskip
    rw [if_pos hskip, hnone]
    exact Grows.refl h
  · have htake : (if s.availableCapacity < data.length
        then data.take s.availableCapacity else data) = data.take s.availableCapacity := by
      split
      · rfl
      · rw [List.take_of_length_le (by omega)]
    have hlen : (data.take s.availableCapacity).length ≤ s.capacity - s.bytesBuffered :=
      List.length_take_le _ _
    rw [if_neg hskip]
    simp only [htake]
    refine ⟨by simp [ByteStream.contents], rfl, rfl, rfl, ?_, ?_, ?_, ?_⟩
    · simp [ByteStream.contents, h.buffered]
    · intro c hc
      cases List.mem_append.mp hc with
      | inl hc => exact h.chunks c hc
      | inr hc =>
          rw [List.mem_singleton.mp hc]
          simpa [List.take_eq_nil_iff, or_comm] using hskip
    · have := h.bounded
      simp only
      omega
    · have := h.counted
      simp only
      omega

@[simp] theorem push_isClosed (s : ByteStream) (data : Bytes) :
    (s.push data).isClosed = s.isClosed := by
  unfold push
  split <;> rfl

theorem push_hasError (s : ByteStream) (data : Bytes) :
    (s.push data).hasError = s.hasError := by
  rw [push]
  split <;> rfl

theorem popChunks_spec (len : Nat) (chunks : List Bytes) :
    (popChunks len chunks).2.flatten.drop (popChunks len chunks).1 =
        chunks.flatten.drop len ∧
      (∀ c ∈ (popChunks len chunks).2, c ∈ chunks) ∧
      ∀ front rest, (popChunks len chunks).2 = front :: rest →
        (popChunks len chunks).1 < front.length := by
  induction chunks generalizing len with
  | nil => simp [popChunks]
  | cons front rest ih =>
      by_cases hle : front.length ≤ len
      · obtain ⟨hdrop, hmem, hfront⟩ := ih (len - front.length)
        simp only [popChunks, hle, if_true]
        refine ⟨?_, fun c hc => List.mem_cons_of_mem _ (hmem c hc), hfront⟩
        rw [hdrop, List.flatten_cons, List.drop_append, List.drop_of_length_le hle,
          List.nil_append]
      · simp only [popChunks, hle, if_false]
        refine ⟨True.intro, fun c hc => hc, ?_⟩
        rintro f r ⟨rfl, rfl⟩
        omega

theorem eraseFront_flatten (len : Nat) (chunks : List Bytes)
    (h : ∀ front rest, chunks = front :: rest → len < front.length) :
    (eraseFront len chunks).flatten = chunks.flatten.drop len := by
  cases chunks with
  | nil => simp [eraseFront]
  | cons front rest =>
      have hlt := h front rest rfl
      rw [eraseFront, List.flatten_cons, List.flatten_cons,
        List.drop_append_of_le_length (by omega)]

/-- A pop within bounds succeeds and removes exactly the bytes asked for. -/
theorem pop_ok {s : ByteStream} (h : s.WF) {len : Nat} (hlen : len ≤ s.bytesBuffered) :
    ∃ s', s.pop len = .ok s' ∧ Shrinks s s' len := by
  obtain ⟨hdrop, hmem, hfront⟩ := popChunks_spec len s.buffer
  have hcontents : (if 0 < (popChunks len s.buffer).1
      then eraseFront (popChunks len s.buffer).1 (popChunks len s.buffer).2
      else (popChunks len s.buffer).2).flatten = s.contents.drop len := by
    rw [contents, ← hdrop]
    split
    · exact eraseFront_flatten _ _ hfront
    · rw [show (popChunks len s.buffer).1 = 0 by omega, List.drop_zero]
  have hpop : s.pop len = .ok { s with
      bytesPopped := s.bytesPopped + len
      bytesBuffered := s.bytesBuffered - len
      buffer := if 0 < (popChunks len s.buffer).1
        then eraseFront (popChunks len s.buffer).1 (popChunks len s.buffer).2
        else (popChunks len s.buffer).2 } := by
    rw [pop, if_neg (by omega)]
  refine ⟨_, hpop, hcontents, rfl, rfl, rfl, rfl, ?_, ?_, ?_, ?_⟩
  · simp only [contents] at hcontents ⊢
    rw [hcontents, h.buffered, List.length_drop, contents]
  · intro c hc
    simp only at hc
    split at hc
    · cases hrest : (popChunks len s.buffer).2 with
      | nil => simp [hrest, eraseFront] at hc
      | cons front rest =>
          rw [hrest, eraseFront] at hc
          cases List.mem_cons.mp hc with
          | inl hhead =>
              subst hhead
              have := hfront front rest hrest
              simpa using this
          | inr hc => exact h.chunks c (hmem c (by simp [hrest, hc]))
    · exact h.chunks c (hmem c hc)
  · have := h.bounded
    simp only
    omega
  · have := h.counted
    simp only
    omega

theorem pop_flags {s s' : ByteStream} {len : Nat} (h : s.pop len = .ok s') :
    s'.hasError = s.hasError ∧ s'.isClosed = s.isClosed := by
  simp only [pop] at h
  split at h
  · cases h
  · cases h
    exact ⟨rfl, rfl⟩

theorem pop_error {s : ByteStream} {len : Nat} (hlen : s.bytesBuffered < len) :
    s.pop len = .error "pop: len is greater than bytes buffered." :=
  if_pos hlen

theorem peek_spec {s : ByteStream} (h : s.WF) (hne : s.bytesBuffered ≠ 0) :
    s.peek ≠ [] ∧ s.peek <+: s.contents := by
  cases hb : s.buffer with
  | nil => simp [h.buffered, contents, hb] at hne
  | cons front rest =>
      have hfront : front ≠ [] := h.chunks front (by simp [hb])
      simp [peek, contents, hb, hfront]

theorem readLoop_ok (fuel : Nat) {s : ByteStream} (h : s.WF) {len : Nat} (out : Bytes)
    (hout : out.length ≤ len) (hfuel : len ≤ out.length + fuel) :
    ∃ s', readLoop fuel s len out = .ok (s', out ++ s.contents.take (len - out.length)) ∧
      Shrinks s s' (min (len - out.length) s.contents.length) := by
  induction fuel generalizing s out with
  | zero =>
      have hz : len - out.length = 0 := by omega
      refine ⟨s, by simp [readLoop, hz], ?_⟩
      simpa [hz] using Shrinks.refl h
  | succ fuel ih =>
      by_cases hturn : s.bytesBuffered ≠ 0 ∧ out.length < len
      · obtain ⟨hne, hpre⟩ := peek_spec h hturn.1
        obtain ⟨rest, hrest⟩ := hpre
        have hpos : 0 < s.peek.length := List.length_pos_iff.mpr hne
        have hview : (s.peek.take (len - out.length)).length ≤ s.bytesBuffered := by
          rw [h.buffered, ← hrest, List.length_take, List.length_append]
          omega
        obtain ⟨t, hpop, hshrink⟩ := pop_ok h hview
        have hviewLen : (s.peek.take (len - out.length)).length =
            min (len - out.length) s.peek.length := List.length_take
        obtain ⟨u, hread, hmore⟩ := ih hshrink.wf (out ++ s.peek.take (len - out.length))
          (by simp only [List.length_append, hviewLen]; omega)
          (by simp only [List.length_append, hviewLen]; omega)
        have hstep : readLoop (fuel + 1) s len out =
            readLoop fuel t len (out ++ s.peek.take (len - out.length)) := by
          rw [readLoop, if_pos hturn]
          simp only [List.isEmpty_iff, hne, if_false, hpop]
        have hleft : len - (out ++ s.peek.take (len - out.length)).length =
            (len - out.length) - (s.peek.take (len - out.length)).length := by
          rw [List.length_append]; omega
        refine ⟨u, ?_, ?_⟩
        · rw [hstep, hread, hleft, hshrink.contents, List.append_assoc]
          congr 3
          rw [hviewLen, ← hrest]
          cases Nat.le_total (len - out.length) s.peek.length with
          | inl hle =>
              rw [Nat.min_eq_left hle, Nat.sub_self, List.take_zero, List.append_nil,
                List.take_append_of_le_length hle]
          | inr hle =>
              rw [Nat.min_eq_right hle, List.drop_left, List.take_of_length_le hle,
                List.take_append, List.take_of_length_le hle]
        · have hsum := hshrink.trans hmore
          rw [hleft, hshrink.contents, List.length_drop] at hsum
          have hlen : s.contents.length = s.peek.length + rest.length := by
            rw [← hrest, List.length_append]
          convert hsum using 1
          omega
      · have hexit : readLoop (fuel + 1) s len out = .ok (s, out) := by
          rw [readLoop, if_neg hturn]
        have hnone : min (len - out.length) s.contents.length = 0 := by
          rw [← h.buffered]; omega
        refine ⟨s, ?_, by rw [hnone]; exact Shrinks.refl h⟩
        have : s.contents.take (len - out.length) = [] := by
          rw [List.take_eq_nil_iff, ← List.length_eq_zero_iff]; omega
        rw [hexit, this, List.append_nil]

/-- `read` never throws on a well-formed stream; it returns and removes the first
`len` bytes, or all of them when there are fewer. -/
theorem read_ok {s : ByteStream} (h : s.WF) (len : Nat) :
    ∃ s', s.read len = .ok (s', s.contents.take len) ∧
      Shrinks s s' (min len s.contents.length) := by
  simpa [read] using readLoop_ok len h [] (Nat.zero_le len) (by simp)

end ByteStream
end Minnow
