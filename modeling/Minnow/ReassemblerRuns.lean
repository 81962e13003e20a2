import Minnow.ReassemblerInsert
import Minnow.Transition

/-!
Runs of a Reassembler with its output stream, and the set of known indices as
their specification. An index is accepted by a call that covers it while it lies
below the first unacceptable index; the history keeps the accepted indices, the
bytes pushed to the output and whether the end of the stream has been accepted.
-/

namespace Minnow
open Spans Transition

structure Assembly where
  reassembler : Reassembler := {}
  output : ByteStream

namespace Assembly

inductive Call where
  | insert (firstIndex : Nat) (data : Bytes) (isLastSubstring : Bool)
  | pop (len : Nat)

/-- A pop that throws leaves the stream as it was. -/
def step (a : Assembly) : Call → Assembly
  | .insert firstIndex data isLast =>
      let done := a.reassembler.insert firstIndex data isLast a.output
      ⟨done.1, done.2⟩
  | .pop len =>
      match a.output.pop len with
      | .ok output => { a with output }
      | .error _ => a

/-- The first unacceptable index. -/
def bound (a : Assembly) : Nat := a.output.bytesPopped + a.output.capacity

/-- The specification state of a run. -/
structure History where
  accepted : Finset Nat := ∅
  pushed : Bytes := []
  endAccepted : Bool := false

def note (a : Assembly) (call : Call) (h : History) : History :=
  match call with
  | .insert firstIndex data isLast =>
      { accepted := h.accepted ∪
          (Finset.Ico firstIndex (firstIndex + data.length)).filter (· < a.bound)
        pushed := h.pushed ++ ByteStream.appended a.output (a.step call).output
        endAccepted := h.endAccepted || isLast && decide (firstIndex < a.bound) }
  | .pop _ => h

/-- A run from an empty Reassembler and stream. -/
def runFrom (capacity : Nat) (calls : List Call) : Assembly × History :=
  run (observe step note) (⟨{}, { capacity }⟩, {}) calls

/-- The data of the call is the part of `S` at its index. -/
def OfStream (S : Bytes) : Call → Prop
  | .insert firstIndex data _ =>
      firstIndex + data.length ≤ S.length ∧ data <+: S.drop firstIndex
  | .pop _ => True

/-- The flag of the call says whether its data reaches the end of `S`. -/
def FlagsEnd (S : Bytes) : Call → Prop
  | .insert firstIndex data isLast =>
      isLast = true ↔ firstIndex + data.length = S.length
  | .pop _ => True

/-- The first unacceptable index is a 64-bit number. -/
def BoundFits (c : Assembly × History) (_ : Call) : Prop := c.1.bound < 2 ^ 64

/-- The list and the stream represent the specification state. -/
structure Represents (S : Bytes) (a : Assembly) (h : History) : Prop where
  wf : a.reassembler.WF a.output
  accepted : ∀ j, j ∈ h.accepted ↔ a.reassembler.Known a.output j
  within : ∀ j ∈ h.accepted, j < S.length
  pushed : h.pushed <+: S
  counted : h.pushed.length = a.output.bytesPushed
  slices : ∀ p ∈ a.reassembler.substrs, p.SliceOf S

theorem represents_new (S : Bytes) (capacity : Nat) :
    Represents S ⟨{}, { capacity }⟩ {} := by
  refine ⟨Reassembler.wf_new (ByteStream.wf_new capacity), ?_, by simp,
    List.nil_prefix, rfl, by simp⟩
  intro j
  simp [Reassembler.Known]

theorem limit_eq {a : Assembly} (h : a.output.WF) (hfit : a.bound < 2 ^ 64) :
    Reassembler.limit a.output = a.bound := by
  rw [Reassembler.limit, ByteStream.pushed_add_available h]
  exact u64_of_lt hfit

theorem step_pop {a : Assembly} (h : a.output.WF) (len : Nat) :
    ∃ n, a.output.Shrinks (a.step (.pop len)).output n ∧
      (a.step (.pop len)).reassembler = a.reassembler := by
  by_cases hlen : len ≤ a.output.bytesBuffered
  · obtain ⟨output, hpop, hs⟩ := ByteStream.pop_ok h hlen
    refine ⟨len, ?_, ?_⟩ <;> simp only [step, hpop]
    exact hs
  · refine ⟨0, ?_, ?_⟩ <;> simp only [step, ByteStream.pop_error (Nat.not_le.mp hlen)]
    exact ByteStream.Shrinks.refl h

theorem represents_step {S : Bytes} (hS : S.length < 2 ^ 64) {a : Assembly} {h : History}
    (hr : Represents S a h) {call : Call} (hcall : OfStream S call)
    (hfit : a.bound < 2 ^ 64) : Represents S (a.step call) (note a call h) := by
  cases call with
  | pop len =>
      obtain ⟨n, hs, hsame⟩ := step_pop hr.wf.stream len
      refine ⟨?_, ?_, hr.within, hr.pushed, ?_, ?_⟩
      · rw [hsame]; exact hr.wf.shrinks hs
      · intro j
        rw [hsame, Reassembler.Known, hs.pushed]
        exact hr.accepted j
      · rw [hs.pushed]; exact hr.counted
      · rw [hsame]; exact hr.slices
  | insert firstIndex data isLast =>
      obtain ⟨new, hins⟩ := Reassembler.insert_spec hr.wf firstIndex data isLast
        (fun _ => by have := hcall.1; omega)
      have hlimit := limit_eq hr.wf.stream hfit
      obtain ⟨hleft, hnew⟩ := hins.slices S hr.slices hcall.2
      have hnote : (note a (.insert firstIndex data isLast) h).pushed = h.pushed ++ new := by
        simp only [note, step, hins.grows.appended_eq]
      refine ⟨hins.wf, ?_, ?_, ?_, ?_, hleft⟩
      · intro j
        rw [show (a.step (.insert firstIndex data isLast)).reassembler.Known
          (a.step (.insert firstIndex data isLast)).output j ↔ _ from hins.known j, hlimit]
        simp only [note, Finset.mem_union, Finset.mem_filter, Finset.mem_Ico, hr.accepted,
          and_assoc]
      · intro j hj
        simp only [note, Finset.mem_union, Finset.mem_filter, Finset.mem_Ico] at hj
        cases hj with
        | inl hj => exact hr.within j hj
        | inr hj =>
            have := hcall.1
            omega
      · rw [hnote]
        exact prefix_extend hr.pushed (by rwa [hr.counted])
      · rw [hnote, List.length_append, hr.counted]
        exact hins.grows.pushed.symm

theorem represents_run {S : Bytes} (hS : S.length < 2 ^ 64) {capacity : Nat}
    {calls : List Call} (hcalls : ∀ call ∈ calls, OfStream S call)
    (hfit : Along (observe step note) BoundFits (⟨{}, { capacity }⟩, {}) calls) :
    Represents S (runFrom capacity calls).1 (runFrom capacity calls).2 :=
  run_invariant _ (P := fun c => Represents S c.1 c.2) (represents_new S capacity)
    (fun _ _ hr hok => represents_step hS hr hok.2 hok.1)
    (along_and hfit (along_of_forall _ hcalls))

/-- After every run the bytes pushed are `S` up to the least index not accepted, and
the pending bytes are as many as the accepted indices beyond it. -/
theorem insert_refines_accepted_indices {S : Bytes} (hS : S.length < 2 ^ 64)
    {capacity : Nat} {calls : List Call} (hcalls : ∀ call ∈ calls, OfStream S call)
    (hfit : Along (observe step note) BoundFits (⟨{}, { capacity }⟩, {}) calls) :
    ∃ m, IsLeast {j | j ∉ (runFrom capacity calls).2.accepted} m ∧
      (runFrom capacity calls).2.pushed = S.take m ∧
      (runFrom capacity calls).1.reassembler.bytesPending =
        ((runFrom capacity calls).2.accepted.filter (m < ·)).card := by
  have hr := represents_run hS hcalls hfit
  generalize runFrom capacity calls = c at hr ⊢
  refine ⟨c.1.output.bytesPushed, ?_, ?_, ?_⟩
  · simpa only [hr.accepted] using Reassembler.isLeast_unknown hr.wf
  · rw [← hr.counted]
    exact List.prefix_iff_eq_take.mp hr.pushed
  · rw [Reassembler.bytesPending, hr.wf.counted]
    symm
    apply card_of_covers hr.wf.separated
    intro j
    rw [Finset.mem_filter, hr.accepted, Reassembler.Known]
    constructor
    · rintro ⟨hj | hj, hlt⟩
      · exact absurd hj (Nat.not_lt.mpr hlt.le)
      · exact hj
    · intro hj
      exact ⟨Or.inr hj, covers_ge hr.wf.separated hj⟩

instance (c : Assembly × History) (call : Call) : Decidable (BoundFits c call) :=
  inferInstanceAs (Decidable (_ < _))

instance (S : Bytes) : DecidablePred (OfStream S)
  | .insert _ _ _ => inferInstanceAs (Decidable (_ ∧ _))
  | .pop _ => inferInstanceAs (Decidable True)

instance (S : Bytes) : DecidablePred (FlagsEnd S)
  | .insert _ _ _ => inferInstanceAs (Decidable (_ ↔ _))
  | .pop _ => inferInstanceAs (Decidable True)

theorem insert_refines_accepted_indices_gap :
    let calls := [.insert 2 [30] false, .insert 0 [10] false, .pop 1]
    ∃ m, IsLeast {j | j ∉ (runFrom 4 calls).2.accepted} m ∧
      (runFrom 4 calls).2.pushed = [10, 20, 30].take m ∧
      (runFrom 4 calls).1.reassembler.bytesPending =
        ((runFrom 4 calls).2.accepted.filter (m < ·)).card :=
  insert_refines_accepted_indices (S := [10, 20, 30]) (by decide) (by decide) (by decide)

/-- The output is closed exactly when all of `S` has been pushed and its end has been
accepted. -/
def ClosedExactly (S : Bytes) (c : Assembly × History) : Prop :=
  c.1.output.isClosed = true ↔
    c.1.output.bytesPushed = S.length ∧ c.2.endAccepted = true

/-- The call leaves the end accepted but the known indices short of it. -/
def StopsShort (S : Bytes) (a : Assembly) : Call → Prop
  | .insert firstIndex data isLast =>
      a.reassembler.StopsShort firstIndex data isLast a.output S.length
  | .pop _ => False

/-- An empty last substring that overtakes the whole stream closes the output. -/
theorem closed_before_first_byte :
    let calls := [.insert 2 [] true]
    (∀ call ∈ calls, OfStream [10, 20] call ∧ FlagsEnd [10, 20] call) ∧
      ¬ ClosedExactly [10, 20] (runFrom 4 calls) := by
  refine ⟨by decide, ?_⟩
  intro h
  exact absurd (h.mp rfl).1 (by decide)

/-- The part of the run state on which the closing test depends. -/
structure Closing (S : Bytes) (c : Assembly × History) : Prop where
  represents : Represents S c.1 c.2
  flag : c.1.reassembler.shouldClose = c.2.endAccepted
  exactly : ClosedExactly S c

theorem pushed_le {S : Bytes} {a : Assembly} {h : History} (hr : Represents S a h) :
    a.output.bytesPushed ≤ S.length := by
  rw [← hr.counted]
  exact hr.pushed.length_le

theorem pending_of_all {S : Bytes} {a : Assembly} {h : History} (hr : Represents S a h)
    (hall : a.output.bytesPushed = S.length) : a.reassembler.nbytesSubstrs = 0 := by
  rw [hr.wf.counted]
  cases hl : a.reassembler.substrs with
  | nil => rfl
  | cons p l =>
      have hsep := hr.wf.separated
      rw [hl] at hsep
      have hp : a.reassembler.Known a.output p.starti :=
        Or.inr ⟨p, by simp [hl], Nat.le_refl _, starti_lt_stop hsep.2.1⟩
      have := hr.within _ ((hr.accepted _).mpr hp)
      have := hsep.1
      omega

theorem closedExactly_step {S : Bytes} (hS : S.length < 2 ^ 64) {c : Assembly × History}
    (hc : Closing S c) {call : Call} (hcall : OfStream S call) (hfit : BoundFits c call) :
    (observe step note c call).1.reassembler.shouldClose =
        (observe step note c call).2.endAccepted ∧
      (ClosedExactly S (observe step note c call) ↔ ¬ StopsShort S c.1 call) := by
  have hr' := represents_step hS hc.represents hcall hfit
  cases call with
  | pop len =>
      obtain ⟨n, hs, hsame⟩ := step_pop hc.represents.wf.stream len
      simp only [observe_fst, observe_snd, ClosedExactly, hsame, hs.pushed, hs.closed,
        StopsShort, note, not_false_eq_true, iff_true]
      exact ⟨hc.flag, hc.exactly⟩
  | insert firstIndex data isLast =>
      obtain ⟨new, hins⟩ := Reassembler.insert_spec hc.represents.wf firstIndex data isLast
        (fun _ => by have := hcall.1; omega)
      have hflag : (observe step note c (.insert firstIndex data isLast)).1.reassembler.shouldClose
          = (observe step note c (.insert firstIndex data isLast)).2.endAccepted := by
        have := hins.shouldClose
        rwa [hc.flag, limit_eq hc.represents.wf.stream hfit] at this
      refine ⟨hflag, ?_⟩
      have hle := pushed_le hr'
      have hpend := pending_of_all hr'
      have hgrow := hins.grows.pushed
      have hclosed := hins.closed
      have hkeep := hins.shouldClose
      simp only [StopsShort, Reassembler.stopsShort_iff hins]
      simp only [observe_fst, observe_snd, ClosedExactly] at hle hpend hflag ⊢
      rw [← hflag]
      simp only [step] at hle hpend ⊢
      by_cases hlt : firstIndex < Reassembler.limit c.1.output
      · have hold := hc.exactly
        rw [ClosedExactly, ← hc.flag] at hold
        by_cases hwas : c.1.output.isClosed = true
        · obtain ⟨hall, hend⟩ := hold.mp hwas
          have hall' : (c.1.reassembler.insert firstIndex data isLast c.1.output).2.bytesPushed
              = S.length := by omega
          rw [hclosed, hwas, hkeep, hend, hall']
          simp
        · rw [hclosed, Bool.eq_false_iff.mpr hwas]
          simp only [hlt, decide_true, Bool.false_or, Bool.true_and, Bool.and_eq_true,
            beq_iff_eq, true_and]
          constructor
          · rintro h ⟨hend, hzero, hshort⟩
            exact absurd (h.mp ⟨hend, hzero⟩).1 hshort.ne
          · intro h
            constructor
            · rintro ⟨hend, hzero⟩
              refine ⟨?_, hend⟩
              by_contra hne
              exact h ⟨hend, hzero, Nat.lt_of_le_of_ne hle hne⟩
            · rintro ⟨hall, hend⟩
              exact ⟨hend, hpend hall⟩
      · have hsame : c.1.reassembler.insert firstIndex data isLast c.1.output =
            (c.1.reassembler, c.1.output) := by
          rw [Reassembler.insert, if_pos (Nat.not_lt.mp hlt)]
        simp only [hsame, hlt, false_and, not_false_eq_true, iff_true]
        have := hc.exactly
        rwa [ClosedExactly, ← hc.flag] at this

/-- While the first unacceptable index is a 64-bit number, the output is closed
exactly when it should be, after every call, in exactly the runs in which no call
leaves the end accepted and the known indices short of it. -/
theorem closed_exactly_iff_never_short {S : Bytes} (hS : S.length < 2 ^ 64)
    {capacity : Nat} {calls : List Call}
    (hcalls : ∀ call ∈ calls, OfStream S call)
    (hfit : Along (observe step note) BoundFits (⟨{}, { capacity }⟩, {}) calls) :
    (∀ pre, pre <+: calls → ClosedExactly S (runFrom capacity pre)) ↔
      Along (observe step note) (fun c call => ¬ StopsShort S c.1 call)
        (⟨{}, { capacity }⟩, {}) calls := by
  have hside := along_and hfit (along_of_forall _ hcalls)
  refine throughout_iff_along (P := Closing S) ?_ (by simp [ClosedExactly]) hside ?_ ?_
  · exact ⟨represents_new S capacity, rfl, by simp [ClosedExactly]⟩
  · intro c call hc hside hok
    obtain ⟨hflag, hexact⟩ := closedExactly_step hS hc hside.2 hside.1
    exact ⟨represents_step hS hc.represents hside.2 hside.1, hflag, hexact.mpr hok⟩
  · intro c call hc hside
    exact (closedExactly_step hS hc hside.2 hside.1).2

theorem closed_exactly_in_order :
    let calls := [.insert 1 [20] true, .insert 0 [10] false, .pop 2]
    ∀ pre, pre <+: calls → ClosedExactly [10, 20] (runFrom 4 pre) := by
  apply (closed_exactly_iff_never_short (S := [10, 20]) (by decide) (by decide)
    (by decide)).mpr
  refine ⟨?_, ?_, id, trivial⟩
  · rintro ⟨-, -, m, -, hm⟩
    have h₁ := (hm 1).mp (Or.inr (by decide))
    have h₀ := (hm 0).mpr (by omega)
    simp [Reassembler.Known] at h₀
  · rintro ⟨-, -, m, hlt, hm⟩
    have h₁ := (hm 1).mp (Or.inl (Or.inr ⟨⟨1, [20]⟩, by decide, by decide, by decide⟩))
    change m < 2 at hlt
    omega

end Assembly
end Minnow
