import Minnow.TCPSenderRuns

/-!
The back-off of a TCPSender over its runs. The history keeps the largest ackno
accepted, and counts the retransmissions since the last one that was new, and those
of them made with an open window.
-/

namespace Minnow
open Transition TCPSenderMessage TCPSender
namespace SenderSide

structure Backoff where
  maxAckno : Nat := 0
  retransmitted : Nat := 0
  doublings : Nat := 0

namespace Backoff

def note (c : SenderSide) (input : Input) (b : Backoff) : Backoff :=
  match input with
  | .receive msg =>
      match c.sender.acceptedAckno msg with
      | some absoluteAckno =>
          if b.maxAckno < absoluteAckno then { maxAckno := absoluteAckno } else b
      | none => b
  | .tick ms =>
      if c.sender.Retransmits ms then
        { b with
          retransmitted := b.retransmitted + 1
          doublings := if c.sender.windowSize ≠ 0 then b.doublings + 1 else b.doublings }
      else b
  | _ => b

def runFrom (isn : Wrap32) (initialRTOms capacity : Nat) (inputs : List Input) :
    SenderSide × Backoff :=
  run (observe step note) (start isn initialRTOms capacity, {}) inputs

/-- The counters of the sender are those of the history. -/
def Exact (c : SenderSide × Backoff) : Prop :=
  c.1.sender.consecutiveRetransmissions = c.2.retransmitted ∧
    c.1.sender.timer.rto = c.1.sender.initialRTOms * 2 ^ c.2.doublings

/-- The message carries no new ackno. -/
def NothingNew (c : SenderSide × Backoff) (msg : TCPReceiverMessage) : Prop :=
  ∀ absoluteAckno ∈ c.1.sender.acceptedAckno msg, absoluteAckno ≤ c.2.maxAckno

/-- A receive of nothing new leaves the back-off and the timer alone. -/
def Undisturbed (c : SenderSide × Backoff) : Input → Prop
  | .receive msg => NothingNew c msg →
      (c.1.sender.receive msg).retransmissions = c.1.sender.retransmissions ∧
        (c.1.sender.receive msg).timer = c.1.sender.timer
  | _ => True

/-- An accepted ackno that is not new arrives only while nothing is backed off. -/
def OldOnlyAtRest (c : SenderSide × Backoff) : Input → Prop
  | .receive msg => ∀ absoluteAckno ∈ c.1.sender.acceptedAckno msg,
      absoluteAckno ≤ c.2.maxAckno → c.1.sender.retransmissions = 0
  | _ => True

/-- The sequence numbers sent stay well below `2 ^ 64`, and so does the timeout after
the step. -/
def Fits (c : SenderSide × Backoff) (input : Input) : Prop :=
  c.1.sender.seqnumsSent + 2 ^ 32 ≤ 2 ^ 64 ∧
    c.1.sender.initialRTOms * 2 ^ (note c.1 input c.2).doublings < 2 ^ 64

/-- What connects the largest ackno accepted to the outstanding queue: every segment
on it ends beyond. -/
structure Tracked (isn : Wrap32) (initialRTOms : Nat) (c : SenderSide) (b : Backoff)
    (h : History) : Prop where
  segmented : Segmented isn initialRTOms c h
  unwrapped : c.sender.seqnumsSent = seqLen h.created
  below : b.maxAckno ≤ c.sender.seqnumsSent
  ahead : ∀ gone front rest, h.created = gone ++ c.sender.outstanding →
    c.sender.outstanding = front :: rest → b.maxAckno < seqLen gone + front.sequenceLength
  doublings : b.doublings ≤ b.retransmitted

theorem tracked_start (isn : Wrap32) (initialRTOms capacity : Nat) :
    Tracked isn initialRTOms (start isn initialRTOms capacity) {} {} := by
  refine ⟨segmented_start isn initialRTOms capacity, rfl, Nat.le_refl _, ?_, Nat.le_refl _⟩
  intro gone front rest _ hout
  exact absurd hout (List.cons_ne_nil _ _).symm

/-- A step that leaves the queue, the segments and the largest ackno as they are. -/
theorem Tracked.same {isn : Wrap32} {initialRTOms : Nat} {c c' : SenderSide}
    {b b' : Backoff} {h : History} (hc : Tracked isn initialRTOms c b h)
    (hseg : Segmented isn initialRTOms c' h)
    (hout : c'.sender.outstanding = c.sender.outstanding)
    (hsent : c'.sender.seqnumsSent = c.sender.seqnumsSent)
    (hmax : b'.maxAckno = b.maxAckno) (hdoublings : b'.doublings ≤ b'.retransmitted) :
    Tracked isn initialRTOms c' b' h := by
  refine ⟨hseg, hsent.trans hc.unwrapped, ?_, ?_, hdoublings⟩
  · rw [hmax, hsent]
    exact hc.below
  · rw [hmax, hout]
    exact hc.ahead

/-- Where `receive` takes the outstanding segments to end. -/
theorem Tracked.segmentEnd_eq {isn : Wrap32} {initialRTOms : Nat} {c : SenderSide}
    {b : Backoff} {h : History} (hc : Tracked isn initialRTOms c b h)
    (hfit : c.sender.seqnumsSent + 2 ^ 32 ≤ 2 ^ 64) :
    ∃ earlier, h.created = earlier ++ c.sender.outstanding ∧
      ∀ pre m post, c.sender.outstanding = pre ++ m :: post →
        c.sender.segmentEnd m = seqLen (earlier ++ pre) + m.sequenceLength := by
  obtain ⟨earlier, hearlier⟩ := hc.segmented.sent.outstanding
  refine ⟨earlier, hearlier.symm, fun pre m post hout => ?_⟩
  have hsent := hc.segmented.sent
  rw [← hearlier] at hsent
  exact hsent.tracked.segmentEnd_eq pre (by rw [hearlier, ← hc.unwrapped]; exact hfit) hout

/-- The ackno of a message with nothing new ends before every outstanding segment. -/
theorem Tracked.nothing_gone {isn : Wrap32} {initialRTOms : Nat} {c : SenderSide}
    {b : Backoff} {h : History} (hc : Tracked isn initialRTOms c b h)
    (hfit : c.sender.seqnumsSent + 2 ^ 32 ≤ 2 ^ 64) {msg : TCPReceiverMessage}
    (hold : NothingNew (c, b) msg) {s' : TCPSender} {gone : List TCPSenderMessage}
    (hr : Received c.sender msg s' gone) : gone = [] := by
  cases gone with
  | nil => rfl
  | cons front rest =>
      obtain ⟨before, hbefore, hends⟩ := hc.segmentEnd_eq hfit
      obtain ⟨absoluteAckno, hsome, hle⟩ := hr.acknowledged front (by simp)
      have hout : c.sender.outstanding = front :: (rest ++ s'.outstanding) := hr.outstanding
      have hend := hends [] front _ hout
      have hahead := hc.ahead before front _ hbefore hout
      have : absoluteAckno ≤ b.maxAckno := hold absoluteAckno hsome
      rw [List.append_nil] at hend
      omega

theorem tracked_push {isn : Wrap32} {initialRTOms : Nat} {c : SenderSide}
    {b : Backoff} {h : History} (hc : Tracked isn initialRTOms c b h)
    (hfit : c.sender.seqnumsSent + 2 ^ 32 ≤ 2 ^ 64) :
    Tracked isn initialRTOms (c.step .push) b (SenderSide.note c .push h) := by
  obtain ⟨new, -, hp, hsent, -, hnote⟩ := step_push hc.segmented.sent
  have hseg := segmented_step hc.segmented .push
  rw [hnote] at hseg ⊢
  have hnew : seqLen (h.created ++ new) < 2 ^ 64 := by
    have h₁ := hsent.inFlight
    have h₂ := hsent.bounded
    have h₃ := hc.unwrapped
    rw [hp.outstanding, seqLen_append] at h₁
    rw [seqLen_append]
    omega
  have hcount : (c.step .push).sender.seqnumsSent = seqLen (h.created ++ new) := by
    rw [hsent.sent, u64_of_lt hnew]
  refine ⟨hseg, hcount, ?_, ?_, hc.doublings⟩
  · rw [hcount, seqLen_append, ← hc.unwrapped]
    exact hc.below.trans (Nat.le_add_right _ _)
  · intro gone front rest hgone hout
    simp only at hgone
    rw [hp.outstanding, ← List.append_assoc, List.append_cancel_right_eq] at hgone
    rw [hp.outstanding] at hout
    cases hold : c.sender.outstanding with
    | nil =>
        rw [hold, List.append_nil] at hgone
        rw [hold, List.nil_append] at hout
        have hpos := (hsent.follows h.created front rest (by simp [hout])).nonempty
        have := hc.below
        rw [hc.unwrapped, hgone] at this
        omega
    | cons first others =>
        rw [hold, List.cons_append, List.cons.injEq] at hout
        rw [← hout.1]
        exact hc.ahead gone first others hgone hold

theorem tracked_receive {isn : Wrap32} {initialRTOms : Nat} {c : SenderSide}
    {b : Backoff} {h : History} (hc : Tracked isn initialRTOms c b h)
    (hfit : c.sender.seqnumsSent + 2 ^ 32 ≤ 2 ^ 64) (msg : TCPReceiverMessage) :
    Tracked isn initialRTOms (c.step (.receive msg)) (note c (.receive msg) b) h := by
  have hseg := segmented_step hc.segmented (.receive msg)
  obtain ⟨gone, hr⟩ := receive_spec c.sender msg
  have hsent : (c.step (.receive msg)).sender.seqnumsSent = c.sender.seqnumsSent := by
    simp only [step]
    rw [hr.state]
  by_cases hnew : ∃ absoluteAckno ∈ c.sender.acceptedAckno msg, b.maxAckno < absoluteAckno
  · obtain ⟨absoluteAckno, hsome, hlt⟩ := hnew
    rw [Option.mem_def] at hsome
    have hnote : note c (.receive msg) b = { maxAckno := absoluteAckno } := by
      simp only [note, hsome, hlt, if_true]
    rw [hnote]
    have hle : absoluteAckno ≤ (c.step (.receive msg)).sender.seqnumsSent := by
      rw [hsent]
      exact acceptedAckno_le hsome
    refine ⟨hseg, hsent.trans hc.unwrapped, hle, ?_, Nat.le_refl _⟩
    intro before front rest hbefore hout
    obtain ⟨earlier, hearlier, hends⟩ := hc.segmentEnd_eq hfit
    have hbefore' : before = earlier ++ gone := by
      simp only [step] at hbefore
      rw [hearlier, hr.outstanding, ← List.append_assoc, List.append_cancel_right_eq] at hbefore
      exact hbefore.symm
    rw [hbefore', ← hends gone front rest (by rw [hr.outstanding]; exact congrArg _ hout)]
    exact hr.kept front rest absoluteAckno hout hsome
  · have hold : NothingNew (c, b) msg := by
      intro absoluteAckno hmem
      exact Nat.not_lt.mp fun hlt => hnew ⟨absoluteAckno, hmem, hlt⟩
    have hnote : note c (.receive msg) b = b := by
      simp only [note]
      split
      · next absoluteAckno hsome =>
          rw [if_neg (Nat.not_lt.mpr (hold absoluteAckno hsome))]
      · rfl
    have hgone := hc.nothing_gone hfit hold hr
    rw [hnote]
    refine hc.same hseg ?_ hsent rfl hc.doublings
    have := hr.outstanding
    rw [hgone, List.nil_append] at this
    exact this.symm

theorem tracked_step {isn : Wrap32} {initialRTOms : Nat} {c : SenderSide}
    {b : Backoff} {h : History} (hc : Tracked isn initialRTOms c b h)
    (hfit : c.sender.seqnumsSent + 2 ^ 32 ≤ 2 ^ 64) (input : Input) :
    Tracked isn initialRTOms (c.step input) (note c input b)
      (SenderSide.note c input h) := by
  have hseg := segmented_step hc.segmented input
  cases input with
  | push => exact tracked_push hc hfit
  | receive msg => exact tracked_receive hc hfit msg
  | write data =>
      refine hc.same hseg ?_ ?_ rfl hc.doublings <;> simp only [step] <;> split <;> rfl
  | close => exact hc.same hseg rfl rfl rfl hc.doublings
  | maybeSend =>
      refine hc.same hseg ?_ ?_ rfl hc.doublings <;>
        simp only [step, TCPSender.maybeSend] <;> split <;> rfl
  | tick ms =>
      have hd := hc.doublings
      by_cases hre : c.sender.Retransmits ms
      · obtain ⟨front, rest, -, -, hstate⟩ := tick_retransmits hre
        refine hc.same hseg ?_ ?_ ?_ ?_
        · simp only [step, hstate]
        · simp only [step, hstate]
        · simp only [note, hre, if_true]
        · simp only [note, hre, if_true]
          split <;> omega
      · refine hc.same hseg ?_ ?_ ?_ ?_
        · simp only [step, tick_quiet hre]
        · simp only [step, tick_quiet hre]
        · simp only [note, hre, if_false]
        · simpa only [note, hre, if_false] using hd

/-- A tick doubles the timeout with the count, so exact counters stay exact. -/
theorem exact_tick {c : SenderSide × Backoff} (hexact : Exact c) {ms : Nat}
    (hfit : Fits c (.tick ms)) : Exact (observe step note c (.tick ms)) := by
  obtain ⟨hcount, hrto⟩ := hexact
  by_cases hre : c.1.sender.Retransmits ms
  · obtain ⟨front, rest, -, -, hstate⟩ := tick_retransmits hre
    have hbound := hfit.2
    simp only [Exact, observe_fst, observe_snd, note, hre, if_true, step, hstate,
      consecutiveRetransmissions] at hcount hbound ⊢
    refine ⟨by rw [hcount], ?_⟩
    by_cases hwin : c.1.sender.windowSize = 0
    · simpa [hwin] using hrto
    · simp only [hwin, ne_eq, not_false_eq_true, if_true] at hbound ⊢
      rw [hrto, Nat.pow_succ, ← Nat.mul_assoc] at *
      exact u64_of_lt hbound
  · simp only [Exact, observe_fst, observe_snd, note, hre, if_false, step, tick_quiet hre]
    exact ⟨hcount, hrto⟩

/-- A receive resets the count and the timeout, for an ackno that is not new as well. -/
theorem exact_receive_iff {isn : Wrap32} {initialRTOms : Nat} {c : SenderSide × Backoff}
    {h : History} (hc : Tracked isn initialRTOms c.1 c.2 h) (hexact : Exact c)
    (msg : TCPReceiverMessage) :
    Exact (observe step note c (.receive msg)) ↔ OldOnlyAtRest c (.receive msg) := by
  obtain ⟨gone, hr⟩ := receive_spec c.1.sender msg
  obtain ⟨hcount, hrto⟩ := hexact
  have hd := hc.doublings
  have hretrans : (c.1.sender.receive msg).retransmissions =
      if (c.1.sender.acceptedAckno msg).isSome then 0
      else c.1.sender.retransmissions := by rw [hr.state]
  have hrto' : (c.1.sender.receive msg).timer.rto =
      if (c.1.sender.acceptedAckno msg).isSome then c.1.sender.initialRTOms
      else c.1.sender.timer.rto := by rw [hr.state]
  have hinit : (c.1.sender.receive msg).initialRTOms = c.1.sender.initialRTOms := by
    rw [hr.state]
  simp only [Exact, observe_fst, observe_snd, note, step, OldOnlyAtRest,
    consecutiveRetransmissions, hretrans, hrto', hinit] at hcount hrto ⊢
  cases hackno : c.1.sender.acceptedAckno msg with
  | none => simpa using ⟨hcount, hrto⟩
  | some absoluteAckno =>
      by_cases hnew : c.2.maxAckno < absoluteAckno
      · simp [hnew, Nat.not_le.mpr hnew]
      · simp only [Option.isSome_some, if_true, hnew, if_false, Option.mem_def,
          Option.some.injEq, forall_eq', Nat.not_lt.mp hnew, forall_const]
        constructor
        · rintro ⟨hzero, -⟩
          omega
        · intro hzero
          have : c.2.doublings = 0 := by omega
          simp [this, ← hcount, hzero]

/-- From exact counters a step leads to exact counters unless it receives an old ackno
while something is backed off. -/
theorem exact_step {isn : Wrap32} {initialRTOms : Nat} {c : SenderSide × Backoff}
    {h : History} (hc : Tracked isn initialRTOms c.1 c.2 h) (hexact : Exact c)
    {input : Input} (hfit : Fits c input) :
    Exact (observe step note c input) ↔ OldOnlyAtRest c input := by
  cases input with
  | write data =>
      simp only [OldOnlyAtRest, iff_true, Exact, observe_fst, observe_snd, note, step]
      split <;> exact hexact
  | close => exact ⟨fun _ => trivial, fun _ => hexact⟩
  | push =>
      obtain ⟨new, -, hp, -, -, -⟩ := step_push hc.segmented.sent
      simp only [OldOnlyAtRest, iff_true, Exact, observe_fst, observe_snd, note,
        consecutiveRetransmissions, hp.retransmissions, hp.timer, hp.initialRTOms]
      exact hexact
  | maybeSend =>
      simp only [OldOnlyAtRest, iff_true, Exact, observe_fst, observe_snd, note, step,
        TCPSender.maybeSend]
      split <;> exact hexact
  | tick ms => exact iff_of_true (exact_tick hexact hfit) trivial
  | receive msg => exact exact_receive_iff hc hexact msg

theorem undisturbed_of_rest {isn : Wrap32} {initialRTOms : Nat}
    {c : SenderSide × Backoff} {h : History}
    (hc : Tracked isn initialRTOms c.1 c.2 h) (hexact : Exact c) {input : Input}
    (hfit : Fits c input) (hrest : OldOnlyAtRest c input) : Undisturbed c input := by
  cases input with
  | receive msg =>
      intro hold
      obtain ⟨gone, hr⟩ := receive_spec c.1.sender msg
      have hgone := hc.nothing_gone hfit.1 hold hr
      rw [hr.state]
      cases hackno : c.1.sender.acceptedAckno msg with
      | none => simp [hgone]
      | some absoluteAckno =>
          have hzero := hrest absoluteAckno hackno (hold absoluteAckno hackno)
          obtain ⟨hcount, hrto⟩ := hexact
          have hd := hc.doublings
          rw [consecutiveRetransmissions, hzero] at hcount
          have : c.2.doublings = 0 := by omega
          rw [this, Nat.pow_zero, Nat.mul_one] at hrto
          simp [hgone, hzero, ← hrto]
  | _ => trivial

/-- A duplicate ackno after a retransmission undoes the back-off. -/
theorem undone_by_duplicate :
    let inputs := [.push, .receive ⟨some ⟨1⟩, 10⟩, .write [7], .push, .tick 1000,
      .receive ⟨some ⟨1⟩, 10⟩]
    ¬ Exact (runFrom ⟨0⟩ 1000 64 inputs) := by
  intro inputs h
  exact absurd h.1 (by decide)

/-- While its sequence numbers and timeouts fit, a sender keeps the back-off exact
throughout, and undisturbed by acknos that are not new, in exactly the runs in which
such an ackno is accepted only while nothing is backed off. -/
theorem backoff_exact_iff_old_only_at_rest (isn : Wrap32) (initialRTOms capacity : Nat)
    {inputs : List Input}
    (hfit : Along (observe step note) Fits (start isn initialRTOms capacity, {}) inputs) :
    (∀ pre, pre <+: inputs → Exact (runFrom isn initialRTOms capacity pre)) ∧
        Along (observe step note) Undisturbed (start isn initialRTOms capacity, {}) inputs ↔
      Along (observe step note) OldOnlyAtRest (start isn initialRTOms capacity, {})
        inputs := by
  have hstart : ∃ h, Tracked isn initialRTOms (start isn initialRTOms capacity) {} h :=
    ⟨{}, tracked_start isn initialRTOms capacity⟩
  have hexact : Exact (start isn initialRTOms capacity, {}) :=
    ⟨rfl, (Nat.mul_one initialRTOms).symm⟩
  have hiff : (∀ pre, pre <+: inputs → Exact (runFrom isn initialRTOms capacity pre)) ↔
      Along (observe step note) OldOnlyAtRest (start isn initialRTOms capacity, {})
        inputs := by
    apply throughout_iff_along (P := fun c => (∃ h, Tracked isn initialRTOms c.1 c.2 h) ∧ Exact c)
      ⟨hstart, hexact⟩ hexact hfit
    · rintro c input ⟨⟨h, hc⟩, he⟩ hside hok
      exact ⟨⟨_, tracked_step hc hside.1 input⟩, (exact_step hc he hside).mpr hok⟩
    · rintro c input ⟨⟨h, hc⟩, he⟩ hside
      exact exact_step hc he hside
  constructor
  · rintro ⟨hall, -⟩
    exact hiff.mp hall
  · intro hrest
    refine ⟨hiff.mpr hrest, ?_⟩
    refine along_of_invariant
      (P := fun c => (∃ h, Tracked isn initialRTOms c.1 c.2 h) ∧ Exact c)
      ⟨hstart, hexact⟩ ?_ ?_ (along_and hfit hrest)
    · rintro c input ⟨⟨h, hc⟩, he⟩ ⟨hside, hok⟩
      exact ⟨⟨_, tracked_step hc hside.1 input⟩, (exact_step hc he hside).mpr hok⟩
    · rintro c input ⟨⟨h, hc⟩, he⟩ ⟨hside, hok⟩
      exact undisturbed_of_rest hc he hside hok

instance (c : SenderSide × Backoff) (input : Input) : Decidable (Fits c input) :=
  inferInstanceAs (Decidable (_ ∧ _))

instance (c : SenderSide × Backoff) : DecidablePred (OldOnlyAtRest c)
  | .receive _ => inferInstanceAs (Decidable (∀ _ ∈ _, _ → _))
  | .write _ | .close | .push | .tick _ | .maybeSend => inferInstanceAs (Decidable True)

theorem backoff_exact_after_new_ackno :
    let inputs := [.push, .tick 1000, .receive ⟨some ⟨1⟩, 10⟩, .receive ⟨some ⟨1⟩, 5⟩]
    (∀ pre, pre <+: inputs → Exact (runFrom ⟨0⟩ 1000 64 pre)) ∧
      Along (observe step note) Undisturbed (start ⟨0⟩ 1000 64, {}) inputs :=
  (backoff_exact_iff_old_only_at_rest ⟨0⟩ 1000 64 (by decide)).mpr (by decide)

end Backoff
end SenderSide
end Minnow
