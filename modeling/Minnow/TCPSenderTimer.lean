import Minnow.TCPSenderRuns

/-!
The retransmission timer of a TCPSender over its runs. The history counts the time
since the outstanding queue last became non-empty, lost a segment or had its first
segment retransmitted. The counter of the timer stays below it unless a push finds
the timer already running for nothing.
-/

namespace Minnow
open Transition TCPSenderMessage
namespace TCPSender

/-- A push with an open window has something to send. -/
def hasSegment (s : TCPSender) (outbound : ByteStream) : Bool :=
  !s.syn || outbound.bytesBuffered != 0 || outbound.isFinished && !s.fin

theorem push_without_segment {s s' : TCPSender} {outbound outbound' : ByteStream}
    (hwf : outbound.WF) (hnone : s.hasSegment outbound = false)
    (hpush : s.push outbound = .ok (s', outbound')) : s'.outstanding = s.outstanding := by
  simp only [hasSegment, Bool.or_eq_false_iff, Bool.not_eq_false', bne_eq_false_iff_eq,
    hwf.buffered, List.length_eq_zero_iff] at hnone
  obtain ⟨⟨hsyn, hempty⟩, hfin⟩ := hnone
  have hfin' : outbound.isClosed = true → s.fin = true := by
    intro hclosed
    rw [(ByteStream.isFinished_iff hwf).mpr ⟨hclosed, hempty⟩] at hfin
    simpa using hfin
  obtain ⟨t, o, hok, -, ⟨hsame, -⟩, -⟩ := push_rule (s := s)
    (P := fun t o => t.outstanding = s.outstanding ∧ t.syn = true ∧ o.contents = [] ∧
      (o.isClosed = true → t.fin = true))
    (by
      rintro t t' o o' m ⟨-, htsyn, hto, htfin⟩ - hturn hne
      exfalso
      have hpayload : m.payload = [] := by rw [hturn.payload, hto, List.take_nil]
      have hmfin : m.fin = false := by
        cases hm : m.fin with
        | false => rfl
        | true =>
            have hf := hturn.fin
            rw [hm] at hf
            simp only [Bool.true_eq, Bool.and_eq_true, Bool.not_eq_true'] at hf
            have hclosed := ((ByteStream.isFinished_iff hturn.shrinks.wf).mp hf.1.1).1
            rw [hturn.shrinks.closed] at hclosed
            exact absurd (htfin hclosed) (by simp [hf.2])
      exact hne (by simp [sequenceLength, hturn.syn, htsyn, hpayload, hmfin]))
    (by
      rintro t o o' ⟨hout, htsyn, hto, htfin⟩ hidle
      refine ⟨hout, htsyn, by rw [hidle.contents, hto, List.drop_nil], ?_⟩
      rwa [hidle.closed])
    hwf ⟨rfl, hsyn, hempty, hfin'⟩
  rw [hpush] at hok
  obtain ⟨rfl, rfl⟩ := Prod.mk.inj (Except.ok.inj hok)
  exact hsame

end TCPSender

open TCPSender

namespace SenderSide.Timing

/-- The time since the last of the three events. -/
def note (c : SenderSide) (input : Input) (elapsed : Nat) : Nat :=
  match input with
  | .push =>
      if c.sender.outstanding = [] ∧ (c.step .push).sender.outstanding ≠ [] then 0
      else elapsed
  | .receive msg =>
      if (c.sender.receive msg).outstanding.length < c.sender.outstanding.length then 0
      else elapsed
  | .tick ms => if c.sender.Retransmits ms then 0 else elapsed + ms
  | _ => elapsed

/-- A tick retransmits only when the timeout in force has passed. -/
def NotEarly (c : SenderSide × Nat) : Input → Prop
  | .tick ms => c.1.sender.Retransmits ms → c.1.sender.timer.rto ≤ c.2 + ms
  | _ => True

/-- A push that sends into an empty outstanding queue finds the timer at zero. -/
def StartsFresh (c : SenderSide × Nat) : Input → Prop
  | .push => c.1.sender.outstanding = [] → c.1.sender.hasSegment c.1.outbound = true →
      c.1.sender.timer.timePassage = 0
  | _ => True

/-- While something is outstanding the timer has counted no more than the history. -/
structure Timed (isn : Wrap32) (initialRTOms : Nat) (c : SenderSide × Nat) : Prop where
  segmented : ∃ h, Segmented isn initialRTOms c.1 h
  timer : c.1.sender.outstanding ≠ [] → c.1.sender.timer.timePassage ≤ c.2

theorem timed_push {isn : Wrap32} {initialRTOms : Nat} {c : SenderSide × Nat}
    (hc : Timed isn initialRTOms c) (hfresh : StartsFresh c .push)
    (hne : (c.1.step .push).sender.outstanding ≠ []) :
    (c.1.step .push).sender.timer.timePassage ≤ note c.1 .push c.2 := by
  obtain ⟨h, hseg⟩ := hc.segmented
  obtain ⟨new, hok, hp, -, -, -⟩ := step_push hseg.sent
  rw [hp.timer]
  by_cases hempty : c.1.sender.outstanding = []
  · have hsends : c.1.sender.hasSegment c.1.outbound = true := by
      by_contra hnone
      have := push_without_segment hseg.sent.stream (Bool.eq_false_iff.mpr hnone) hok
      exact hne (this.trans hempty)
    rw [hfresh hempty hsends]
    exact Nat.zero_le _
  · simp only [note, hempty, false_and, if_false]
    exact hc.timer hempty

theorem timed_step {isn : Wrap32} {initialRTOms : Nat} {c : SenderSide × Nat}
    (hc : Timed isn initialRTOms c) {input : Input} (hfresh : StartsFresh c input) :
    Timed isn initialRTOms (observe step note c input) := by
  obtain ⟨h, hseg⟩ := hc.segmented
  refine ⟨⟨_, segmented_step hseg input⟩, ?_⟩
  simp only [observe_fst, observe_snd]
  cases input with
  | push => exact timed_push hc hfresh
  | write data =>
      simp only [step, note]
      split <;> exact hc.timer
  | close => exact hc.timer
  | maybeSend =>
      simp only [step, note, TCPSender.maybeSend]
      split <;> exact hc.timer
  | receive msg =>
      obtain ⟨gone, hr⟩ := receive_spec c.1.sender msg
      have hout := hr.outstanding
      have htimer : (c.1.sender.receive msg).timer.timePassage =
          if gone = [] then c.1.sender.timer.timePassage else 0 := by rw [hr.state]
      simp only [step, note, htimer]
      intro hne
      cases gone with
      | cons front rest => simp [hout]
      | nil =>
          rw [List.nil_append] at hout
          rw [← hout] at hne
          simpa [← hout] using hc.timer hne
  | tick ms =>
      by_cases hre : c.1.sender.Retransmits ms
      · obtain ⟨front, rest, -, -, hstate⟩ := tick_retransmits hre
        simp only [step, note, hre, if_true, hstate]
        exact fun _ => Nat.le_refl _
      · simp only [step, note, hre, if_false, tick_quiet hre, RTOTimer.tick]
        intro hne
        exact (u64_le _).trans (Nat.add_le_add_right (hc.timer hne) ms)

theorem notEarly_of_timed {isn : Wrap32} {initialRTOms : Nat} {c : SenderSide × Nat}
    (hc : Timed isn initialRTOms c) (input : Input) : NotEarly c input := by
  cases input with
  | tick ms =>
      intro hre
      obtain ⟨front, rest, hout, hexpired, -⟩ := tick_retransmits hre
      have := hc.timer (by rw [hout]; exact List.cons_ne_nil _ _)
      exact hexpired.trans ((u64_le _).trans (Nat.add_le_add_right this ms))
  | _ => trivial

/-- The time before the first segment is charged to it. -/
theorem early_after_idle_time :
    ¬ Along (observe step note) NotEarly (start ⟨0⟩ 1000 64, 0)
      [.tick 999, .push, .tick 1] := by
  rintro ⟨-, -, h, -⟩
  exact absurd (h (by decide)) (by decide)

/-- In every run in which a push that sends into an empty outstanding queue finds the
timer at zero, no tick retransmits early. -/
theorem never_early_of_fresh_starts (isn : Wrap32) (initialRTOms capacity : Nat)
    {inputs : List Input}
    (hfresh : Along (observe step note) StartsFresh (start isn initialRTOms capacity, 0)
      inputs) :
    Along (observe step note) NotEarly (start isn initialRTOms capacity, 0) inputs :=
  along_of_invariant (P := Timed isn initialRTOms)
    ⟨⟨{}, segmented_start isn initialRTOms capacity⟩, fun hne => absurd rfl hne⟩
    (fun _ _ hc hok => timed_step hc hok) (fun _ input hc _ => notEarly_of_timed hc input)
    hfresh

instance (c : SenderSide × Nat) : DecidablePred (StartsFresh c)
  | .push => inferInstanceAs (Decidable (_ → _ → _))
  | .write _ | .close | .receive _ | .tick _ | .maybeSend =>
      inferInstanceAs (Decidable True)

theorem never_early_when_pushed_at_once :
    Along (observe step note) NotEarly (start ⟨0⟩ 1000 64, 0)
      [.push, .tick 400, .tick 600, .receive ⟨some ⟨1⟩, 10⟩, .write [7], .push, .tick 1000] :=
  never_early_of_fresh_starts ⟨0⟩ 1000 64 (by decide)

end SenderSide.Timing
end Minnow
