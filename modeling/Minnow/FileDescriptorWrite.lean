import Minnow.FileDescriptor
import Minnow.Throwing

/-!
Writing to a file descriptor and closing it. The handle of the reads is extended by the
fields that only these change; a system call that returns a count is given by its outcome.
-/

namespace Minnow
open Throwing

/-- What a function of a descriptor or of the event loop throws. -/
inductive Exception where
  | unixError (attempt : String) (errno : Errno)
  | runtimeError (what : String)
  | outOfRange (what : String)
  deriving Repr, DecidableEq

/-- What `read` throws. -/
def ReadError.exception : ReadError → Exception
  | .unixError attempt errno => .unixError attempt errno
  | .runtimeError what => .runtimeError what

/-- A system call that returns a count fails, or returns it. -/
inductive CountOutcome where
  | failed (errno : Errno)
  | returned (count : Nat)
  deriving Repr, DecidableEq

/-- The shared handle with what a write and a close change of it. -/
structure Descriptor extends FDWrapper where
  closed : Bool := false
  writeCount : UInt32 := 0
  deriving Repr, DecidableEq

namespace Descriptor

/-- `CheckSystemCall`: on a non-blocking descriptor a call that would have to wait counts
as one that returned zero. -/
def checkSystemCall (fd : Descriptor) (attempt : String) (outcome : CountOutcome) :
    Except Exception Nat :=
  match outcome with
  | .returned count => .ok count
  | .failed errno =>
      if FileDescriptor.tryAgain fd.toFDWrapper errno then .ok 0
      else .error (.unixError attempt errno)

def registerWrite (fd : Descriptor) : Descriptor := { fd with writeCount := fd.writeCount + 1 }

def read (fd : Descriptor) (outcome : Outcome) (buffer : Bytes) :
    Except Exception (Descriptor × Bytes) :=
  match FileDescriptor.read fd.toFDWrapper outcome buffer with
  | .error e => .error e.exception
  | .ok (handle, buffer) => .ok ({ fd with toFDWrapper := handle }, buffer)

def readBuffers (fd : Descriptor) (outcome : Outcome) (buffers : List Bytes) :
    Except Exception (Descriptor × List Bytes) :=
  match FileDescriptor.readBuffers fd.toFDWrapper outcome buffers with
  | .error e => .error e.exception
  | .ok (handle, buffers) => .ok ({ fd with toFDWrapper := handle }, buffers)

/-- `FileDescriptor::write( const vector<string_view>& )`, which the other two overloads
call. -/
def write (fd : Descriptor) (outcome : CountOutcome) (buffers : List Bytes) :
    Except Exception (Descriptor × Nat) := do
  let totalSize := FileDescriptor.totalSize buffers
  let bytesWritten ← fd.checkSystemCall "writev" outcome
  let fd := fd.registerWrite
  if bytesWritten = 0 ∧ totalSize ≠ 0 then
    throw (.runtimeError "write returned 0 given non-empty input buffer")
  if totalSize < bytesWritten then
    throw (.runtimeError "write wrote more than length of input buffer")
  return (fd, bytesWritten)

/-- The call returns a negative number or none that matters. -/
def close (fd : Descriptor) (outcome : CountOutcome) : Except Exception Descriptor := do
  let _ ← fd.checkSystemCall "close" outcome
  return { fd with eof := true, closed := true }

/-- A read that delivers no more than there is room for. -/
theorem read_filled (fd : Descriptor) {bytes buffer : Bytes} (hbuffer : buffer ≠ [])
    (hle : bytes.length ≤ buffer.length) : fd.read (.filled bytes) buffer =
      .ok ({ fd with readCount := fd.readCount + 1, eof := fd.eof || bytes == [] }, bytes) := by
  have hgrow : FileDescriptor.grow buffer = buffer := by
    rw [FileDescriptor.grow, if_neg (by rwa [List.isEmpty_iff])]
  have hbytes : resize (fill buffer bytes) bytes.length = bytes := by
    rw [resize_of_le (by rwa [length_fill]), fill_of_le hle, List.take_left]
  simp only [read, FileDescriptor.read, hgrow, length_fill, Nat.not_lt.mpr hle, if_false, hbytes]
  cases bytes <;> simp [FileDescriptor.registerRead]

/-- The count that a call comes to, if it does not throw. -/
theorem checkSystemCall_ok {fd : Descriptor} {attempt : String} {outcome : CountOutcome}
    {count : Nat} : fd.checkSystemCall attempt outcome = .ok count ↔
      outcome = .returned count ∨ count = 0 ∧
        ∃ errno, outcome = .failed errno ∧ FileDescriptor.tryAgain fd.toFDWrapper errno = true := by
  cases outcome with
  | returned n => simp [checkSystemCall]
  | failed errno =>
      rw [checkSystemCall]
      by_cases hagain : FileDescriptor.tryAgain fd.toFDWrapper errno = true
      · rw [if_pos hagain, Except.ok.injEq]
        constructor
        · rintro rfl
          exact Or.inr ⟨rfl, errno, rfl, hagain⟩
        · rintro (hcount | ⟨rfl, -⟩)
          · cases hcount
          · rfl
      · rw [if_neg hagain]
        constructor
        · intro h
          cases h
        · rintro (hcount | ⟨-, errno', herr, hagain'⟩)
          · cases hcount
          · cases herr
            exact absurd hagain' hagain

/-- A write that returns has written something, unless there was nothing to write, and no
more than it was given; it has been counted. -/
theorem write_ok {fd fd' : Descriptor} {outcome : CountOutcome} {buffers : List Bytes}
    {count : Nat} : fd.write outcome buffers = .ok (fd', count) ↔
      fd' = fd.registerWrite ∧ fd.checkSystemCall "writev" outcome = .ok count ∧
        (count = 0 → FileDescriptor.totalSize buffers = 0) ∧
        count ≤ FileDescriptor.totalSize buffers := by
  simp only [write, bind_eq_ok, throw_eq_error, error_bind, guard_eq_ok, pure_eq_ok,
    Except.ok.injEq, Prod.mk.injEq]
  constructor
  · rintro ⟨n, hcall, hsome, hfits, rfl, rfl⟩
    exact ⟨rfl, hcall, by omega, by omega⟩
  · rintro ⟨rfl, hcall, hsome, hfits⟩
    exact ⟨count, hcall, by omega, by omega, rfl, rfl⟩

end Descriptor
end Minnow
