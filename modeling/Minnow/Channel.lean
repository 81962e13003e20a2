import Minnow.ByteStream
import Minnow.FileDescriptorWrite

/-!
Descriptors that byte streams are read from and written to, each with the bytes that the
kernel has delivered and taken. The rules that copy a descriptor into a stream, and a stream
into a descriptor, are the same in every program of the repository.
-/

namespace Minnow
open Throwing

/-- What a function throws that throws texts only. -/
def thrown {α : Type} : Except String α → Except Exception α
  | .ok a => .ok a
  | .error what => .error (.runtimeError what)

@[simp] theorem thrown_eq_ok {α : Type} {x : Except String α} {a : α} :
    thrown x = .ok a ↔ x = .ok a := by
  cases x <;> simp [thrown]

/-- The call does not ask to be made again. -/
def Outcome.Ready (outcome : Outcome) : Prop :=
  outcome ≠ .failed .EAGAIN ∧ outcome ≠ .failed .EINPROGRESS

instance (outcome : Outcome) : Decidable outcome.Ready := inferInstanceAs (Decidable (_ ∧ _))

/-- A descriptor, what has come and gone through it, and whether its writing side has been
shut down. -/
structure Channel where
  fd : Descriptor := {}
  received : Bytes := []
  sent : Bytes := []
  shutdown : Bool := false
  deriving Repr, DecidableEq

namespace Channel

def read (c : Channel) (outcome : Outcome) (buffer : Bytes) :
    Except Exception (Channel × Bytes) := do
  let (fd, buffer) ← c.fd.read outcome buffer
  return ({ c with fd, received := c.received ++ outcome.delivered }, buffer)

/-- The kernel takes the bytes at the front of what it is given. -/
def write (c : Channel) (outcome : CountOutcome) (buffer : Bytes) :
    Except Exception (Channel × Nat) := do
  let (fd, bytesWritten) ← c.fd.write outcome [buffer]
  return ({ c with fd, sent := c.sent ++ buffer.take bytesWritten }, bytesWritten)

/-- `Socket::shutdown( SHUT_WR )`, which counts as a write. -/
def shutdownWrite (c : Channel) (outcome : CountOutcome) : Except Exception Channel := do
  let _ ← c.fd.checkSystemCall "shutdown" outcome
  return { c with fd := c.fd.registerWrite, shutdown := true }

def close (c : Channel) (outcome : CountOutcome) : Except Exception Channel := do
  let fd ← c.fd.close outcome
  return { c with fd }

/-- Read what a stream has room for, push it, and close the stream at the end. -/
def readInto (c : Channel) (outcome : Outcome) (stream : ByteStream) :
    Except Exception (Channel × ByteStream) := do
  let (c, data) ← c.read outcome (resize [] stream.availableCapacity)
  let stream := stream.push data
  return (c, if c.fd.eof then stream.close else stream)

/-- Write the front of a stream, and pop what has been written. -/
def writeFrom (c : Channel) (outcome : CountOutcome) (stream : ByteStream) :
    Except Exception (Channel × ByteStream) := do
  if stream.bytesBuffered ≠ 0 then
    let (c, bytesWritten) ← c.write outcome stream.peek
    let stream ← thrown (stream.pop bytesWritten)
    return (c, stream)
  else return (c, stream)

/-- `c'` is `c` after `data` has been read from it, into a stream that has room for it. -/
structure Gives (c c' : Channel) (data : Bytes) : Prop where
  received : c'.received = c.received ++ data
  sent : c'.sent = c.sent
  shutdown : c'.shutdown = c.shutdown
  eof : c'.fd.eof = (c.fd.eof || data == [])
  closed : c'.fd.closed = c.fd.closed

/-- `c'` is `c` after it has taken the first `n` bytes of a stream. -/
structure Takes (c c' : Channel) (data : Bytes) : Prop where
  received : c'.received = c.received
  sent : c'.sent = c.sent ++ data
  shutdown : c'.shutdown = c.shutdown
  eof : c'.fd.eof = c.fd.eof
  closed : c'.fd.closed = c.fd.closed

theorem Takes.refl (c : Channel) : Takes c c [] :=
  ⟨rfl, (List.append_nil _).symm, rfl, rfl, rfl⟩

variable {c c' : Channel} {s s' : ByteStream}

/-- A read that does not ask to be made again fills the buffer with what it delivers, or
throws. -/
theorem read_ok {outcome : Outcome} {buffer buffer' : Bytes} (hbuffer : buffer ≠ [])
    (hready : outcome.Ready) (h : c.read outcome buffer = .ok (c', buffer')) :
    outcome = .filled buffer' ∧ Gives c c' buffer' ∧ buffer'.length ≤ buffer.length := by
  obtain ⟨⟨fd, filled⟩, hread, h⟩ := bind_eq_ok.mp h
  cases h
  cases outcome with
  | failed errno =>
      have hagain : FileDescriptor.tryAgain c.fd.toFDWrapper errno = false := by
        cases errno with
        | EAGAIN => exact absurd rfl hready.1
        | EINPROGRESS => exact absurd rfl hready.2
        | other code => simp [FileDescriptor.tryAgain]
      simp [Descriptor.read, FileDescriptor.read, hagain] at hread
  | filled bytes =>
      by_cases hle : bytes.length ≤ buffer.length
      · rw [c.fd.read_filled hbuffer hle] at hread
        cases hread
        exact ⟨rfl, ⟨rfl, rfl, rfl, rfl, rfl⟩, hle⟩
      · have hgrow : FileDescriptor.grow buffer = buffer := by
          rw [FileDescriptor.grow, if_neg (by rwa [List.isEmpty_iff])]
        simp [Descriptor.read, FileDescriptor.read, hgrow, Nat.not_le.mp hle] at hread

theorem buffer_ne_nil (hroom : 0 < s.availableCapacity) : resize [] s.availableCapacity ≠ [] := by
  rw [← List.length_pos_iff, length_resize]
  exact hroom

/-- `readInto` without a buffer, where what is delivered fits. -/
def pushInto (c : Channel) (outcome : Outcome) (stream : ByteStream) :
    Except Exception (Channel × ByteStream) :=
  match outcome with
  | .failed _ => c.readInto outcome stream
  | .filled bytes =>
      if 0 < stream.availableCapacity ∧ bytes.length ≤ stream.availableCapacity then
        let fd := { c.fd with readCount := c.fd.readCount + 1, eof := c.fd.eof || bytes == [] }
        let stream := stream.push bytes
        .ok ({ c with fd, received := c.received ++ bytes },
          if fd.eof then stream.close else stream)
      else c.readInto outcome stream

theorem readInto_eq : readInto = pushInto := by
  funext c outcome s
  cases outcome with
  | failed errno => rfl
  | filled bytes =>
      rw [pushInto]
      split
      · next hfits =>
          have hle : bytes.length ≤ (resize [] s.availableCapacity).length := by
            rw [length_resize]
            exact hfits.2
          rw [readInto, read, c.fd.read_filled (buffer_ne_nil hfits.1) hle]
          rfl
      · rfl

/-- What is read into a stream with room is all pushed. -/
theorem readInto_push {outcome : Outcome} (hroom : 0 < s.availableCapacity)
    (hready : outcome.Ready) (h : c.readInto outcome s = .ok (c', s')) :
    ∃ data, outcome = .filled data ∧ Gives c c' data ∧ data.length ≤ s.availableCapacity ∧
      s' = if c'.fd.eof then (s.push data).close else s.push data := by
  obtain ⟨⟨c₁, data⟩, hread, h⟩ := bind_eq_ok.mp h
  cases h
  obtain ⟨hfilled, hgives, hle⟩ := read_ok (buffer_ne_nil hroom) hready hread
  rw [length_resize] at hle
  exact ⟨data, hfilled, hgives, hle, rfl⟩

theorem readInto_ok {outcome : Outcome} (hs : s.WF) (hroom : 0 < s.availableCapacity)
    (hready : outcome.Ready) (h : c.readInto outcome s = .ok (c', s')) :
    ∃ data, Gives c c' data ∧ ByteStream.Grows s s' data ∧ s'.hasError = s.hasError ∧
      s'.isClosed = (s.isClosed || c'.fd.eof) := by
  obtain ⟨data, -, hgives, hle, rfl⟩ := readInto_push hroom hready h
  have hgrows := ByteStream.push_grows hs data
  rw [List.take_of_length_le hle] at hgrows
  refine ⟨data, hgives, ?_⟩
  cases heof : c'.fd.eof with
  | true =>
      have hclose := hgrows.trans (ByteStream.close_grows hgrows.wf)
      rw [List.append_nil] at hclose
      exact ⟨hclose, ByteStream.push_hasError s data, (Bool.or_true _).symm⟩
  | false =>
      refine ⟨hgrows, ByteStream.push_hasError s data, ?_⟩
      rw [Bool.or_false]
      exact ByteStream.push_isClosed s data

/-- Nothing is popped from a stream that holds nothing. -/
theorem pop_zero (hs : s.WF) (hnil : s.contents = []) : s.pop 0 = .ok s := by
  have hbuffer : s.buffer = [] := List.eq_nil_iff_forall_not_mem.mpr fun chunk hchunk =>
    hs.chunks chunk hchunk (List.flatten_eq_nil_iff.mp hnil chunk hchunk)
  rw [ByteStream.pop, if_neg (Nat.not_lt_zero _), hbuffer]
  cases s
  subst hbuffer
  rfl

theorem write_ok {outcome : CountOutcome} {buffer : Bytes} {n : Nat}
    (h : c.write outcome buffer = .ok (c', n)) :
    Takes c c' (buffer.take n) ∧ n ≤ buffer.length := by
  obtain ⟨⟨fd, count⟩, hwrite, h⟩ := bind_eq_ok.mp h
  cases h
  obtain ⟨rfl, -, -, hfits⟩ := Descriptor.write_ok.mp hwrite
  simp only [FileDescriptor.totalSize, List.map_cons, List.map_nil, List.sum_cons, List.sum_nil,
    Nat.add_zero] at hfits
  exact ⟨⟨rfl, rfl, rfl, rfl, rfl⟩, hfits⟩

/-- What is written from a stream is what is popped. -/
theorem writeFrom_pop {outcome : CountOutcome} (hs : s.WF)
    (h : c.writeFrom outcome s = .ok (c', s')) : ∃ n ≤ s.contents.length,
      Takes c c' (s.contents.take n) ∧ s.pop n = .ok s' := by
  rw [writeFrom] at h
  split at h
  · next hne =>
      obtain ⟨-, rest, hrest⟩ := ByteStream.peek_spec hs hne
      obtain ⟨⟨c₁, n⟩, hwrite, h⟩ := bind_eq_ok.mp h
      obtain ⟨hwrites, hle⟩ := write_ok hwrite
      obtain ⟨s₁, hpop, h⟩ := bind_eq_ok.mp h
      cases h
      rw [thrown_eq_ok] at hpop
      have hlen : n ≤ s.contents.length := by
        rw [← hrest, List.length_append]
        omega
      have htake : s.peek.take n = s.contents.take n := by
        rw [← hrest, List.take_append_of_le_length hle]
      rw [htake] at hwrites
      exact ⟨n, hlen, hwrites, hpop⟩
  · next hzero =>
      cases h
      have hnil : s.contents = [] := by
        rw [← List.length_eq_zero_iff, ← hs.buffered]
        exact not_not.mp hzero
      exact ⟨0, Nat.zero_le _, Takes.refl c, pop_zero hs hnil⟩

theorem writeFrom_ok {outcome : CountOutcome} (hs : s.WF)
    (h : c.writeFrom outcome s = .ok (c', s')) : ∃ n,
      Takes c c' (s.contents.take n) ∧ ByteStream.Shrinks s s' n ∧ s'.hasError = s.hasError := by
  obtain ⟨n, hlen, htakes, hpop⟩ := writeFrom_pop hs h
  obtain ⟨s₁, hpop', hshrinks⟩ := ByteStream.pop_ok hs (hs.buffered ▸ hlen)
  obtain rfl := Except.ok.inj (hpop'.symm.trans hpop)
  exact ⟨n, htakes, hshrinks, (ByteStream.pop_flags hpop).1⟩

theorem shutdownWrite_ok {outcome : CountOutcome} (h : c.shutdownWrite outcome = .ok c') :
    c' = { c with fd := c.fd.registerWrite, shutdown := true } := by
  obtain ⟨count, -, h⟩ := bind_eq_ok.mp h
  cases h
  rfl

theorem close_ok {outcome : CountOutcome} (h : c.close outcome = .ok c') :
    c' = { c with fd := { c.fd with eof := true, closed := true } } := by
  obtain ⟨fd, hclose, h⟩ := bind_eq_ok.mp h
  obtain ⟨count, -, hclose⟩ := bind_eq_ok.mp hclose
  cases hclose
  cases h
  rfl

end Channel
end Minnow
