import Minnow.ByteStreamClosed

/-!
The evaluations of `buffer_.front()` inside `pop`. The loop test reads the front before
it asks for emptiness, so a pop of everything buffered ends with a read of the front of an
empty queue; every smaller pop stays on chunks that exist.
-/

namespace Minnow
open Transition
namespace ByteStream

/-- `popChunks` with the queues of which `front()` is evaluated, in order: once for the test
and, in a turn of the loop, once more for the size that is subtracted. -/
def popChunksFronts : Nat → List Bytes → (Nat × List Bytes) × List (List Bytes)
  | len, [] => ((len, []), [[]])
  | len, front :: rest =>
      if front.length ≤ len then
        let done := popChunksFronts (len - front.length) rest
        (done.1, (front :: rest) :: (front :: rest) :: done.2)
      else ((len, front :: rest), [front :: rest])

/-- `pop` with the queues of which `front()` is evaluated, in order. -/
def popFronts (s : ByteStream) (len : Nat) : Except String (ByteStream × List (List Bytes)) :=
  if s.bytesBuffered < len then .error "pop: len is greater than bytes buffered."
  else
    let loop := popChunksFronts len s.buffer
    let left := loop.1
    .ok ({ s with
      bytesPopped := s.bytesPopped + len
      bytesBuffered := s.bytesBuffered - len
      buffer := if 0 < left.1 then eraseFront left.1 left.2 else left.2 },
      loop.2 ++ if 0 < left.1 then [left.2] else [])

theorem popChunksFronts_fst (len : Nat) (chunks : List Bytes) :
    (popChunksFronts len chunks).1 = popChunks len chunks := by
  induction chunks generalizing len with
  | nil => rfl
  | cons front rest ih =>
      rw [popChunksFronts, popChunks]
      split
      · exact ih _
      · rfl

/-- Watching the fronts changes nothing. -/
theorem popFronts_fst (s : ByteStream) (len : Nat) :
    (s.popFronts len).map Prod.fst = s.pop len := by
  rw [popFronts, pop]
  split
  · rfl
  · simp only [Except.map, popChunksFronts_fst]

/-- The loop ends at a queue of which it has read the front. -/
theorem left_mem_fronts (len : Nat) (chunks : List Bytes) :
    (popChunksFronts len chunks).1.2 ∈ (popChunksFronts len chunks).2 := by
  induction chunks generalizing len with
  | nil => exact List.mem_singleton_self _
  | cons front rest ih =>
      rw [popChunksFronts]
      split
      · exact List.mem_cons_of_mem _ (List.mem_cons_of_mem _ (ih _))
      · exact List.mem_singleton_self _

/-- The loop runs out of chunks exactly if it is asked for all their bytes. -/
theorem loop_fronts_iff (len : Nat) (chunks : List Bytes) :
    (∀ queue ∈ (popChunksFronts len chunks).2, queue ≠ []) ↔ len < chunks.flatten.length := by
  induction chunks generalizing len with
  | nil => simp [popChunksFronts]
  | cons front rest ih =>
      rw [popChunksFronts, List.flatten_cons, List.length_append]
      split
      · next hle =>
          have hrest := ih (len - front.length)
          simp only [List.mem_cons, forall_eq_or_imp, ne_eq, reduceCtorEq, not_false_eq_true,
            true_and]
          rw [hrest]
          omega
      · next hgt =>
          simp only [List.mem_singleton, forall_eq, ne_eq, reduceCtorEq, not_false_eq_true,
            true_iff]
          omega

/-- Every front that `pop` takes is of a queue with a chunk in it. -/
def FrontsExist (s : ByteStream) (len : Nat) : Prop :=
  ∀ s' fronts, s.popFronts len = .ok (s', fronts) → ∀ queue ∈ fronts, queue ≠ []

theorem frontsExist_iff {s : ByteStream} (h : s.WF) {len : Nat} (hlen : len ≤ s.bytesBuffered) :
    FrontsExist s len ↔ len < s.bytesBuffered := by
  rw [h.buffered, contents, ← loop_fronts_iff]
  have hwithin : ¬ s.bytesBuffered < len := Nat.not_lt.mpr hlen
  constructor
  · intro hexist queue hqueue
    refine hexist _ _ (if_neg hwithin) queue ?_
    exact List.mem_append_left _ hqueue
  · intro hloop s' fronts hok queue hqueue
    rw [popFronts, if_neg hwithin, Except.ok.injEq, Prod.mk.injEq] at hok
    rw [← hok.2] at hqueue
    cases List.mem_append.mp hqueue with
    | inl hqueue => exact hloop queue hqueue
    | inr hqueue =>
        split at hqueue
        · rw [List.mem_singleton.mp hqueue]
          exact hloop _ (left_mem_fronts len s.buffer)
        · cases hqueue

/-- In every reachable state a pop within bounds takes only fronts that exist exactly if it
leaves something buffered. -/
theorem fronts_exist_iff (capacity : Nat) (inputs : List Input) {len : Nat}
    (hlen : len ≤ (run step { capacity } inputs).bytesBuffered) :
    FrontsExist (run step { capacity } inputs) len ↔
      len < (run step { capacity } inputs).bytesBuffered :=
  frontsExist_iff (wf_run (wf_new capacity) inputs) hlen

theorem fronts_exist_partial :
    FrontsExist (run step { capacity := 4 } [.push [1, 2], .push [3]]) 2 :=
  (fronts_exist_iff 4 [.push [1, 2], .push [3]] (by decide)).mpr (by decide)

/-- A pop of the only chunk goes on to take the front of nothing. -/
theorem front_of_nothing :
    let s := run step { capacity := 1 } [.push [7]]
    1 ≤ s.bytesBuffered ∧ ¬ FrontsExist s 1 := by
  refine ⟨by decide, ?_⟩
  intro hexist
  exact hexist _ _ rfl [] (by decide) rfl

end ByteStream
end Minnow
