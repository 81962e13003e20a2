import Minnow.ByteStream
import Mathlib.Algebra.Ring.Nat

/-!
The two reads of a file descriptor. A system call is given by its outcome: an error
number, or the bytes the kernel delivers, which lie at the front of the buffers when the
call returns. The buffers are grown before the call and cut to the count after it, except
on the exit for a descriptor that has nothing to read at the moment.
-/

namespace Minnow

inductive Errno where
  | EAGAIN
  | EINPROGRESS
  | other (code : Nat)
  deriving Repr, DecidableEq

/-- What `read` or `readv` does: it fails, or returns the number of the bytes it has put
into the buffers. -/
inductive Outcome where
  | failed (errno : Errno)
  | filled (bytes : Bytes)
  deriving Repr, DecidableEq

namespace Outcome

/-- The bytes the call delivers. -/
def delivered : Outcome → Bytes
  | .failed _ => []
  | .filled bytes => bytes

/-- The call fills no more than it was given. -/
def Within (size : Nat) (outcome : Outcome) : Prop := outcome.delivered.length ≤ size

instance (size : Nat) (outcome : Outcome) : Decidable (Within size outcome) :=
  inferInstanceAs (Decidable (_ ≤ _))

end Outcome

inductive ReadError where
  | unixError (attempt : String) (errno : Errno)
  | runtimeError (what : String)
  deriving Repr, DecidableEq

/-- `string::resize`. -/
def resize (buffer : Bytes) (n : Nat) : Bytes :=
  buffer.take n ++ List.replicate (n - buffer.length) 0

/-- The memory of a buffer after `bytes` have been put at its front. -/
def fill (buffer bytes : Bytes) : Bytes := bytes.take buffer.length ++ buffer.drop bytes.length

/-- `readv` fills each buffer before it goes on to the next. -/
def scatter : List Bytes → Bytes → List Bytes
  | [], _ => []
  | buf :: buffers, bytes => fill buf bytes :: scatter buffers (bytes.drop buf.length)

/-- The handle that all copies of a descriptor share. -/
structure FDWrapper where
  eof : Bool := false
  nonBlocking : Bool := false
  readCount : UInt32 := 0
  deriving Repr, DecidableEq

namespace FileDescriptor

/-- The room in the last buffer of a read. -/
def kReadBufferSize : Nat := 16384

def registerRead (fd : FDWrapper) : FDWrapper := { fd with readCount := fd.readCount + 1 }

/-- A failed call may be no failure. -/
def tryAgain (fd : FDWrapper) (errno : Errno) : Bool :=
  fd.nonBlocking && (errno == .EAGAIN || errno == .EINPROGRESS)

/-- The buffer that is handed to `read`. -/
def grow (buffer : Bytes) : Bytes :=
  if buffer.isEmpty then resize [] kReadBufferSize else buffer

/-- `FileDescriptor::read( string& )`. -/
def read (fd : FDWrapper) (outcome : Outcome) (buffer : Bytes) :
    Except ReadError (FDWrapper × Bytes) :=
  let buffer := grow buffer
  match outcome with
  | .failed errno =>
      if tryAgain fd errno then .ok (fd, buffer) else .error (.unixError "read" errno)
  | .filled bytes =>
      let buffer := fill buffer bytes
      let fd := registerRead fd
      let fd := if bytes.length == 0 then { fd with eof := true } else fd
      if buffer.length < bytes.length then .error (.runtimeError "read() read more than requested")
      else .ok (fd, resize buffer bytes.length)

/-- The buffers that are handed to `readv`: the last one is made anew. -/
def growLast : List Bytes → List Bytes
  | [] => []
  | [_] => [resize [] kReadBufferSize]
  | buf :: buffers => buf :: growLast buffers

def totalSize (buffers : List Bytes) : Nat := (buffers.map List.length).sum

/-- The loop that cuts the buffers to the count. -/
def trimLoop : Nat → List Bytes → List Bytes
  | _, [] => []
  | remaining, buf :: buffers =>
      if buf.length ≤ remaining then buf :: trimLoop (remaining - buf.length) buffers
      else resize buf remaining :: trimLoop 0 buffers

/-- `FileDescriptor::read( vector<string>& )`. -/
def readBuffers (fd : FDWrapper) (outcome : Outcome) (buffers : List Bytes) :
    Except ReadError (FDWrapper × List Bytes) :=
  if buffers.isEmpty then .ok (fd, buffers)
  else
    let buffers := growLast buffers
    let totalSize := totalSize buffers
    match outcome with
    | .failed errno =>
        if tryAgain fd errno then .ok (fd, buffers) else .error (.unixError "read" errno)
    | .filled bytes =>
        let buffers := scatter buffers bytes
        let fd := registerRead fd
        if totalSize < bytes.length then .error (.runtimeError "read() read more than requested")
        else .ok (fd, trimLoop bytes.length buffers)

end FileDescriptor

theorem resize_of_le {buffer : Bytes} {n : Nat} (h : n ≤ buffer.length) :
    resize buffer n = buffer.take n := by
  rw [resize, Nat.sub_eq_zero_of_le h, List.replicate_zero, List.append_nil]

@[simp] theorem length_resize (buffer : Bytes) (n : Nat) : (resize buffer n).length = n := by
  rw [resize, List.length_append, List.length_take, List.length_replicate]
  omega

@[simp] theorem length_fill (buffer bytes : Bytes) :
    (fill buffer bytes).length = buffer.length := by
  rw [fill, List.length_append, List.length_take, List.length_drop]
  omega

theorem fill_of_le {buffer bytes : Bytes} (h : bytes.length ≤ buffer.length) :
    fill buffer bytes = bytes ++ buffer.drop bytes.length := by
  rw [fill, List.take_of_length_le h]

theorem fill_of_ge {buffer bytes : Bytes} (h : buffer.length ≤ bytes.length) :
    fill buffer bytes = bytes.take buffer.length := by
  rw [fill, List.drop_of_length_le h, List.append_nil]

/-- The bytes cut into pieces of the given sizes, as far as they go. -/
def pieces : List Nat → Bytes → List Bytes
  | [], _ => []
  | size :: sizes, bytes => bytes.take size :: pieces sizes (bytes.drop size)

theorem pieces_nil (sizes : List Nat) : ∀ piece ∈ pieces sizes [], piece = [] := by
  induction sizes with
  | nil => simp [pieces]
  | cons size sizes ih =>
      rw [pieces, List.take_nil, List.drop_nil]
      exact List.forall_mem_cons.mpr ⟨rfl, ih⟩

theorem length_pieces (sizes : List Nat) (bytes : Bytes) :
    (pieces sizes bytes).length = sizes.length := by
  induction sizes generalizing bytes with
  | nil => rfl
  | cons size sizes ih => rw [pieces, List.length_cons, ih, List.length_cons]

theorem pieces_flatten {sizes : List Nat} {bytes : Bytes} (h : bytes.length ≤ sizes.sum) :
    (pieces sizes bytes).flatten = bytes := by
  induction sizes generalizing bytes with
  | nil => exact (List.length_eq_zero_iff.mp (Nat.le_zero.mp h)).symm
  | cons size sizes ih =>
      rw [List.sum_cons] at h
      rw [pieces, List.flatten_cons, ih (by rw [List.length_drop]; omega), List.take_append_drop]

namespace FileDescriptor

/-- A buffer that holds anything comes after full ones only. -/
def FilledInOrder (sizes : List Nat) (buffers : List Bytes) : Prop :=
  buffers.length = sizes.length ∧
    (buffers.zip sizes).Pairwise fun p q => q.1 ≠ [] → p.1.length = p.2

theorem pieces_in_order (sizes : List Nat) (bytes : Bytes) :
    FilledInOrder sizes (pieces sizes bytes) := by
  refine ⟨length_pieces sizes bytes, ?_⟩
  induction sizes generalizing bytes with
  | nil => exact List.Pairwise.nil
  | cons size sizes ih =>
      refine List.pairwise_cons.mpr ⟨fun q hq hne => ?_, ih _⟩
      have hmem := (List.of_mem_zip hq).1
      cases Nat.le_total size bytes.length with
      | inl hle => exact List.length_take_of_le hle
      | inr hle =>
          rw [List.drop_of_length_le hle] at hmem
          exact absurd (pieces_nil sizes q.1 hmem) hne

/-- What the call has put into the buffers is cut to the bytes it delivered. -/
theorem trimLoop_scatter (buffers : List Bytes) (bytes : Bytes) :
    trimLoop bytes.length (scatter buffers bytes) = pieces (buffers.map List.length) bytes := by
  induction buffers generalizing bytes with
  | nil => rfl
  | cons buf buffers ih =>
      have hrest := ih (bytes.drop buf.length)
      rw [List.length_drop] at hrest
      rw [scatter, trimLoop, length_fill, List.map_cons, pieces]
      split
      · next hle => rw [fill_of_ge hle, hrest]
      · next hgt =>
          have hle : bytes.length ≤ buf.length := by omega
          rw [Nat.sub_eq_zero_of_le hle] at hrest
          rw [hrest, resize_of_le (by rwa [length_fill]), fill_of_le hle, List.take_left,
            List.take_of_length_le hle]

/-- The call found nothing to read and would have had to wait. -/
def WouldBlock (fd : FDWrapper) (outcome : Outcome) : Prop :=
  ∃ errno, outcome = .failed errno ∧ tryAgain fd errno = true

/-- When `read` returns, the buffer is what the call delivered. -/
def Delivers (fd : FDWrapper) (outcome : Outcome) (buffer : Bytes) : Prop :=
  ∀ fd' buffer', read fd outcome buffer = .ok (fd', buffer') → buffer' = outcome.delivered

/-- When `read` returns, the buffers together are what the call delivered, each one filled
before the next. -/
def DeliversInOrder (fd : FDWrapper) (outcome : Outcome) (buffers : List Bytes) : Prop :=
  ∀ fd' buffers', readBuffers fd outcome buffers = .ok (fd', buffers') →
    buffers'.flatten = outcome.delivered ∧
      FilledInOrder ((growLast buffers).map List.length) buffers'

theorem grow_ne_nil (buffer : Bytes) : grow buffer ≠ [] := by
  rw [grow]
  split
  · intro h
    exact absurd (congrArg List.length h) (by rw [length_resize]; decide)
  · next hne =>
      intro h
      exact hne (List.isEmpty_iff.mpr h)

theorem growLast_flatten_ne_nil {buffers : List Bytes} (h : buffers ≠ []) :
    (growLast buffers).flatten ≠ [] := by
  induction buffers using growLast.induct with
  | case1 => exact absurd rfl h
  | case2 buf =>
      intro hnil
      rw [growLast, List.flatten_singleton] at hnil
      exact absurd (congrArg List.length hnil) (by rw [length_resize]; decide)
  | case3 buf buffers hmore ih =>
      rw [growLast.eq_3 buf buffers hmore, List.flatten_cons]
      intro hnil
      exact ih hmore (List.append_eq_nil_iff.mp hnil).2

theorem read_filled {fd fd' : FDWrapper} {bytes buffer buffer' : Bytes}
    (hsize : bytes.length ≤ (grow buffer).length)
    (h : read fd (.filled bytes) buffer = .ok (fd', buffer')) : buffer' = bytes := by
  simp only [read, length_fill, Nat.not_lt.mpr hsize, if_false, Except.ok.injEq,
    Prod.mk.injEq] at h
  rw [← h.2, resize_of_le (by rw [length_fill]; exact hsize), fill_of_le hsize, List.take_left]

/-- On the exit for an empty descriptor `read` leaves the buffer as it grew it. -/
theorem delivers_iff {fd : FDWrapper} {outcome : Outcome} {buffer : Bytes}
    (hsize : outcome.Within (grow buffer).length) :
    Delivers fd outcome buffer ↔ ¬ WouldBlock fd outcome := by
  constructor
  · rintro h ⟨errno, rfl, hagain⟩
    have hread : read fd (.failed errno) buffer = .ok (fd, grow buffer) := if_pos hagain
    exact grow_ne_nil buffer (h _ _ hread)
  · intro hnot fd' buffer' h
    cases outcome with
    | failed errno =>
        have hagain : ¬ tryAgain fd errno = true := fun hagain => hnot ⟨errno, rfl, hagain⟩
        rw [read] at h
        simp only [hagain] at h
        cases h
    | filled bytes => exact read_filled hsize h

/-- A call that delivers `bytes` leaves them cut to the sizes of the buffers. -/
theorem readBuffers_ok (fd : FDWrapper) {bytes : Bytes} {buffers : List Bytes}
    (hne : buffers ≠ []) (hsize : bytes.length ≤ totalSize (growLast buffers)) :
    readBuffers fd (.filled bytes) buffers =
      .ok (registerRead fd, pieces ((growLast buffers).map List.length) bytes) := by
  rw [readBuffers, if_neg (by rwa [List.isEmpty_iff]), ← trimLoop_scatter]
  exact if_neg (Nat.not_lt.mpr hsize)

theorem readBuffers_filled {fd fd' : FDWrapper} {bytes : Bytes} {buffers buffers' : List Bytes}
    (hsize : bytes.length ≤ totalSize (growLast buffers))
    (h : readBuffers fd (.filled bytes) buffers = .ok (fd', buffers')) :
    buffers'.flatten = bytes ∧ FilledInOrder ((growLast buffers).map List.length) buffers' := by
  by_cases hempty : buffers = []
  · subst hempty
    cases h
    exact ⟨(List.length_eq_zero_iff.mp (Nat.le_zero.mp hsize)).symm, rfl, List.Pairwise.nil⟩
  · rw [readBuffers_ok fd hempty hsize, Except.ok.injEq, Prod.mk.injEq] at h
    rw [← h.2]
    exact ⟨pieces_flatten hsize, pieces_in_order _ bytes⟩

/-- An empty list of buffers is the only one that this exit leaves right: no call is made. -/
theorem deliversInOrder_iff {fd : FDWrapper} {outcome : Outcome} {buffers : List Bytes}
    (hsize : outcome.Within (totalSize (growLast buffers))) :
    DeliversInOrder fd outcome buffers ↔ buffers = [] ∨ ¬ WouldBlock fd outcome := by
  constructor
  · intro h
    by_cases hempty : buffers = []
    · exact Or.inl hempty
    · right
      rintro ⟨errno, rfl, hagain⟩
      have hread : readBuffers fd (.failed errno) buffers = .ok (fd, growLast buffers) := by
        rw [readBuffers, if_neg (by rwa [List.isEmpty_iff])]
        exact if_pos hagain
      exact growLast_flatten_ne_nil hempty (h _ _ hread).1
  · intro hor fd' buffers' h
    cases outcome with
    | filled bytes => exact readBuffers_filled hsize h
    | failed errno =>
        rw [readBuffers] at h
        split at h
        · next hempty =>
            rw [List.isEmpty_iff] at hempty
            subst hempty
            cases h
            exact ⟨rfl, rfl, List.Pairwise.nil⟩
        · next hne =>
            have hagain : ¬ tryAgain fd errno = true := by
              cases hor with
              | inl hempty => exact absurd (List.isEmpty_iff.mpr hempty) hne
              | inr hnot => exact fun hagain => hnot ⟨errno, rfl, hagain⟩
            simp only [hagain] at h
            cases h

/-- Whatever the system call does within the buffers it is given, both reads deliver exactly
its bytes, except when it found nothing to read on a non-blocking descriptor. -/
theorem reads_deliver_iff (fd : FDWrapper) {one many : Outcome} {buffer : Bytes}
    {buffers : List Bytes} (hone : one.Within (grow buffer).length)
    (hmany : many.Within (totalSize (growLast buffers))) :
    (Delivers fd one buffer ↔ ¬ WouldBlock fd one) ∧
      (DeliversInOrder fd many buffers ↔ buffers = [] ∨ ¬ WouldBlock fd many) :=
  ⟨delivers_iff hone, deliversInOrder_iff hmany⟩

theorem reads_deliver_short :
    Delivers {} (.filled [1, 2]) [0, 0, 0] ∧
      DeliversInOrder {} (.filled [1, 2, 3]) [[0, 0], []] := by
  have hone : Outcome.Within (grow [0, 0, 0]).length (.filled [1, 2]) := by decide
  have hmany : Outcome.Within (totalSize (growLast [[0, 0], []])) (.filled [1, 2, 3]) := by
    change 3 ≤ totalSize [[0, 0], resize [] kReadBufferSize]
    simp [totalSize, kReadBufferSize]
  have hfilled (bytes : Bytes) : ¬ WouldBlock {} (.filled bytes) := by
    rintro ⟨errno, hfailed, -⟩
    cases hfailed
  obtain ⟨hread, hreadBuffers⟩ := reads_deliver_iff {} hone hmany
  exact ⟨hread.mpr (hfilled _), hreadBuffers.mpr (Or.inr (hfilled _))⟩

/-- Three zeros stay where nothing was read. -/
theorem zeros_left :
    let fd : FDWrapper := { nonBlocking := true }
    Outcome.Within (grow [0, 0, 0]).length (.failed .EAGAIN) ∧
      ¬ Delivers fd (.failed .EAGAIN) [0, 0, 0] := by
  refine ⟨by decide, ?_⟩
  intro hdelivers
  exact absurd (hdelivers _ _ rfl) (by decide)

end FileDescriptor
end Minnow
