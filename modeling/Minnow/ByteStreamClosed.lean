import Minnow.ByteStreamRuns

/-!
A stream after `close`. The closed flag is set once and `push` never looks at it, so
closing is final exactly in the runs whose pushes have nothing to write or no room for it.
-/

namespace Minnow
open Transition
namespace ByteStream

/-- The input writes to the stream. -/
def Writes (s : ByteStream) : Input → Prop
  | .push data => data ≠ [] ∧ 0 < s.availableCapacity
  | _ => False

/-- No byte can be taken from the stream. -/
def Exhausted (s : ByteStream) : Prop :=
  (∀ len, 0 < len → (Reader.pop len).run s =
    .error "pop: len is greater than bytes buffered." s) ∧
  ∀ len, (Reader.read len).run s = .ok [] s

/-- From `s` on nothing more is written, and a stream that has been read to its end stays
so. -/
structure Final (s : ByteStream) (inputs : List Input) : Prop where
  pushed : ∀ pre, pre <+: inputs → (run step s pre).bytesPushed = s.bytesPushed
  finished : ∀ pre post, pre ++ post <+: inputs → (run step s pre).isFinished = true →
    (run step s (pre ++ post)).isFinished = true ∧ Exhausted (run step s (pre ++ post))

theorem exhausted_of_finished {s : ByteStream} (h : s.isFinished = true) : Exhausted s := by
  have hzero : s.bytesBuffered = 0 := by
    rw [isFinished, Bool.and_eq_true, beq_iff_eq] at h
    exact h.2
  refine ⟨fun len hlen => ?_, fun len => ?_⟩
  · rw [Reader.pop_run, pop_error (by omega)]
  · apply Reader.readLoop_run
    cases len with
    | zero => rfl
    | succ len => rw [ByteStream.readLoop, if_neg (fun h => h.1 hzero)]

/-- What one input can do to the counters and the closed flag. -/
structure Moves (s s' : ByteStream) (input : Input) : Prop where
  wf : s'.WF
  pushed : s'.bytesPushed = s.bytesPushed ↔ ¬ Writes s input
  popped : s.bytesPopped ≤ s'.bytesPopped
  closed : s.isClosed = true → s'.isClosed = true

theorem moves_of_shrinks {s s' : ByteStream} {n : Nat} (h : Shrinks s s' n) {input : Input}
    (hidle : ¬ Writes s input) : Moves s s' input :=
  ⟨h.wf, iff_of_true h.pushed hidle, h.popped ▸ Nat.le_add_right _ _, h.closed.trans⟩

theorem moves_push {s : ByteStream} (h : s.WF) (data : Bytes) :
    Moves s (s.push data) (.push data) := by
  have hgrow := push_grows h data
  refine ⟨hgrow.wf, ?_, hgrow.popped.ge, (push_isClosed s data).trans⟩
  rw [hgrow.pushed, Nat.add_eq_left, List.length_eq_zero_iff, List.take_eq_nil_iff, Writes,
    not_and_or, not_not, Nat.pos_iff_ne_zero, not_not]
  exact or_comm

theorem moves_step {s : ByteStream} (h : s.WF) (input : Input) :
    Moves s (s.step input) input := by
  cases input with
  | push data => exact moves_push h data
  | pop len =>
      obtain ⟨n, -, hshrink⟩ := leave_pop h len
      exact moves_of_shrinks hshrink id
  | read len =>
      obtain ⟨n, -, hshrink⟩ := leave_read h len
      exact moves_of_shrinks hshrink id
  | close => exact ⟨close_wf h, iff_of_true rfl id, Nat.le_refl _, fun _ => rfl⟩
  | setError => exact ⟨setError_wf h, iff_of_true rfl id, Nat.le_refl _, id⟩

/-- Everything pushed has been popped already, so nothing is left for a later input. -/
theorem finished_step {s : ByteStream} {input : Input} (h : s.WF ∧ s.isFinished = true)
    (hidle : ¬ Writes s input) : (s.step input).WF ∧ (s.step input).isFinished = true := by
  have hmoves := moves_step h.1 input
  have hpushed := hmoves.pushed.mpr hidle
  have hpopped := hmoves.popped
  have hbefore := h.1.counted
  have hafter := hmoves.wf.counted
  have hfinished := h.2
  rw [isFinished, Bool.and_eq_true, beq_iff_eq] at hfinished
  refine ⟨hmoves.wf, ?_⟩
  rw [isFinished, Bool.and_eq_true, beq_iff_eq]
  exact ⟨hmoves.closed hfinished.1, by omega⟩

theorem wf_run {s : ByteStream} (h : s.WF) (inputs : List Input) : (run step s inputs).WF :=
  run_invariant_always step h (fun _ input hs => (moves_step hs input).wf) inputs

theorem pushed_iff {s : ByteStream} (h : s.WF) (inputs : List Input) :
    (∀ pre, pre <+: inputs → (run step s pre).bytesPushed = s.bytesPushed) ↔
      Along step (fun t input => ¬ Writes t input) s inputs := by
  refine throughout_iff_along (P := fun t : ByteStream => t.WF ∧ t.bytesPushed = s.bytesPushed)
    (Q := fun t : ByteStream => t.bytesPushed = s.bytesPushed) ⟨h, rfl⟩ rfl
    (along_true s inputs) ?_ ?_
  · rintro t input ⟨hwf, hsame⟩ - hidle
    have hmoves := moves_step hwf input
    exact ⟨hmoves.wf, (hmoves.pushed.mpr hidle).trans hsame⟩
  · rintro t input ⟨hwf, hsame⟩ -
    rw [← hsame]
    exact (moves_step hwf input).pushed

theorem final_iff {s : ByteStream} (h : s.WF) (inputs : List Input) :
    Final s inputs ↔ Along step (fun t input => ¬ Writes t input) s inputs := by
  constructor
  · intro hfinal
    exact (pushed_iff h inputs).mp hfinal.pushed
  · intro hidle
    refine ⟨(pushed_iff h inputs).mpr hidle, ?_⟩
    rintro pre post ⟨rest, rfl⟩ hfinished
    rw [along_append, along_append] at hidle
    rw [run_append]
    have hrest : (run step (run step s pre) post).WF ∧
        (run step (run step s pre) post).isFinished = true :=
      run_invariant step (P := fun t => t.WF ∧ t.isFinished = true)
        ⟨wf_run h pre, hfinished⟩ (fun _ _ => finished_step) hidle.1.2
    exact ⟨hrest.2, exhausted_of_finished hrest.2⟩

/-- From a stream that has just been closed, nothing more is written and its end stays
the end exactly if no later push writes. -/
theorem closing_final_iff (capacity : Nat) (before after : List Input) :
    let closed := (run step { capacity } before).close
    Final closed after ↔ Along step (fun t input => ¬ Writes t input) closed after :=
  final_iff (close_wf (wf_run (wf_new capacity) before)) after

/-- A push after the end is written and can be read. -/
theorem push_after_close :
    let closed := (run step { capacity := 1 } []).close
    closed.isFinished = true ∧ ¬ Final closed [.push [7]] := by
  refine ⟨rfl, ?_⟩
  intro hfinal
  exact absurd (hfinal.pushed [.push [7]] (List.prefix_refl _)) (by decide)

end ByteStream
end Minnow
