import Minnow.ByteStream
import Minnow.WrappingIntegers
import Minnow.Spans

/-!
The Reassembler: an ordered list of substrings that arrived ahead of the stream,
the number of bytes in it and a sticky flag for the end of the stream. `insert`
is followed phase by phase; the two passes over the list thread the list position
(`prev` is the node before the iterator, `none` at the front, where the source's
`std::prev( begin() )` is `end()`) and the byte counter. A string that has been
moved from is empty.
-/

namespace Minnow
open Spans

abbrev Substring := Span UInt8

structure Reassembler where
  substrs : List Substring := []
  nbytesSubstrs : Nat := 0
  shouldClose : Bool := false
  deriving Repr, DecidableEq

namespace Reassembler

/-- The overlap test of one node against its predecessor: what is left of the node
(`none` when it is erased) and how many of its bytes overlapped. -/
def trim (prev : Option Substring) (it : Substring) : Option Substring × Nat :=
  match prev with
  | none => (some it, 0)
  | some prev =>
      if prev.starti ≤ it.starti ∧ it.starti < prev.starti + prev.data.length then
        let nbytesOverlapped :=
          min (prev.starti + prev.data.length - it.starti) it.data.length
        let data := it.data.drop nbytesOverlapped
        (if data.isEmpty then none else some ⟨it.starti + nbytesOverlapped, data⟩,
          nbytesOverlapped)
      else (some it, 0)

/-- The first pass once `data` has been moved into the list. -/
def trimLoop (prev : Option Substring) : List Substring → Nat → List Substring × Nat
  | [], nbytes => ([], nbytes)
  | it :: rest, nbytes =>
      match trim prev it with
      | (none, overlapped) => trimLoop prev rest (nbytes - overlapped)
      | (some it, overlapped) =>
          let done := trimLoop (some it) rest (nbytes - overlapped)
          (it :: done.1, done.2)

/-- The first pass while `data` may still have to be inserted. The turn that inserts
continues at the new node, and from there on nothing is left to insert. -/
def insertLoop (firstIndex : Nat) (data : Bytes) (prev : Option Substring) :
    List Substring → Nat → List Substring × Nat
  | [], nbytes => ([], nbytes)
  | it :: rest, nbytes =>
      if data ≠ [] ∧ firstIndex ≤ it.starti then
        trimLoop prev (⟨firstIndex, data⟩ :: it :: rest) (nbytes + data.length)
      else
        match trim prev it with
        | (none, overlapped) => insertLoop firstIndex data prev rest (nbytes - overlapped)
        | (some it, overlapped) =>
            let done := insertLoop firstIndex data (some it) rest (nbytes - overlapped)
            (it :: done.1, done.2)

/-- The two edge cases and the first pass. -/
def place (firstIndex : Nat) (data : Bytes) (substrs : List Substring) (nbytes : Nat) :
    List Substring × Nat :=
  if data ≠ [] ∧ substrs = [] then
    insertLoop firstIndex [] none [⟨firstIndex, data⟩] (nbytes + data.length)
  else if data ≠ [] ∧ (substrs.getLast?.map Span.starti).getD 0 < firstIndex then
    insertLoop firstIndex [] none (substrs ++ [⟨firstIndex, data⟩]) (nbytes + data.length)
  else insertLoop firstIndex data none substrs nbytes

/-- The second pass: push every node the stream has reached. -/
def flushLoop : List Substring → Nat → ByteStream → List Substring × Nat × ByteStream
  | [], nbytes, output => ([], nbytes, output)
  | it :: rest, nbytes, output =>
      if it.starti ≤ output.bytesPushed then
        flushLoop rest (nbytes - it.data.length)
          (output.push (it.data.drop (output.bytesPushed - it.starti)))
      else
        let done := flushLoop rest nbytes output
        (it :: done.1, done.2)

/-- The first index that `insert` refuses, as it computes it. -/
def limit (output : ByteStream) : Nat :=
  u64 (output.bytesPushed + output.availableCapacity)

/-- The data without its tail out of range. -/
def clip (firstIndex : Nat) (data : Bytes) (output : ByteStream) : Bytes :=
  if limit output < u64 (firstIndex + data.length)
  then data.take (limit output - firstIndex) else data

/-- Bytes that are the next bytes go to the stream at once; what is left to store. -/
def pushNext (firstIndex : Nat) (data : Bytes) (output : ByteStream) : Bytes × ByteStream :=
  if firstIndex ≤ output.bytesPushed ∧ output.bytesPushed < u64 (firstIndex + data.length)
  then ([], output.push (data.drop (output.bytesPushed - firstIndex)))
  else (data, output)

def insert (r : Reassembler) (firstIndex : Nat) (data : Bytes) (isLastSubstring : Bool)
    (output : ByteStream) : Reassembler × ByteStream :=
  if limit output ≤ firstIndex then (r, output)
  else
    let shouldClose := r.shouldClose || isLastSubstring
    let next := pushNext firstIndex (clip firstIndex data output) output
    let placed := place firstIndex next.1 r.substrs r.nbytesSubstrs
    let flushed := flushLoop placed.1 placed.2 next.2
    (⟨flushed.1, flushed.2.1, shouldClose⟩,
      if shouldClose && flushed.2.1 == 0 then flushed.2.2.close else flushed.2.2)

def bytesPending (r : Reassembler) : Nat := r.nbytesSubstrs

end Reassembler
end Minnow
