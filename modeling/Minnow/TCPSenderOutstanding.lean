import Minnow.TCPSenderSent
import Minnow.Transition

/-!
Runs of a TCPSender alone. Each push reads from a stream of its own choice, so nothing
is assumed about what is written between pushes or when the stream is closed.
-/

namespace Minnow
open Transition Histories TCPSenderMessage
namespace TCPSender

inductive Input where
  | push (outbound : { s : ByteStream // s.WF })
  | receive (msg : TCPReceiverMessage)
  | tick (ms : Nat)
  | maybeSend

def step (s : TCPSender) : Input → TCPSender
  | .push outbound =>
      match s.push outbound with
      | .ok (s', _) => s'
      | .error _ => s
  | .receive msg => s.receive msg
  | .tick ms => s.tick ms
  | .maybeSend => s.maybeSend.1

/-- The segments in the order in which `push` queued them. -/
def note (s : TCPSender) (input : Input) (created : List TCPSenderMessage) :
    List TCPSenderMessage :=
  match input with
  | .push _ => created ++ (s.step input).outstanding.drop s.outstanding.length
  | _ => created

def runFrom (isn : Wrap32) (initialRTOms : Nat) (inputs : List Input) :
    TCPSender × List TCPSenderMessage :=
  run (observe step note) ({ isn, initialRTOms }, []) inputs

theorem push_tracked {s : TCPSender} {created : List TCPSenderMessage} (hs : Tracked s created)
    {outbound : ByteStream} (hwf : outbound.WF) :
    ∃ s' outbound' new, s.push outbound = .ok (s', outbound') ∧ s'.isn = s.isn ∧
      s'.outstanding = s.outstanding ++ new ∧ Tracked s' (created ++ new) := by
  have hrule := push_rule (s := s) (P := fun t _ => ∃ new, t.isn = s.isn ∧
      t.outstanding = s.outstanding ++ new ∧ Tracked t (created ++ new))
    (by
      rintro t t' o o' m ⟨new, hisn, hout, ht⟩ hroom hturn hne
      have htracked := hturn.tracked ht hroom s.availableWinSz_le hne
      refine ⟨new ++ [m], ?_, ?_, by rwa [← List.append_assoc]⟩
      · rw [hturn.state]; exact hisn
      · rw [hturn.state]; simp [enqueue, hout])
    (fun h _ => h) hwf ⟨[], rfl, by simp, by simpa using hs⟩
  obtain ⟨s', outbound', hok, -, ⟨new, hisn, hout, ht⟩, -⟩ := hrule
  exact ⟨s', outbound', new, hok, hisn, hout, ht⟩

/-- The counters and the queue of `s'` are those of `s`. -/
structure SameCounters (s s' : TCPSender) : Prop where
  isn : s'.isn = s.isn
  fin : s'.fin = s.fin
  inFlight : s'.seqnumsInFlight = s.seqnumsInFlight
  tracked : ∀ created, Tracked s created → Tracked s' created

theorem tick_counters (s : TCPSender) (ms : Nat) : SameCounters s (s.tick ms) := by
  by_cases h : s.Retransmits ms
  · obtain ⟨front, rest, -, -, hstate⟩ := tick_retransmits h
    rw [hstate]
    exact ⟨rfl, rfl, rfl, fun _ h => { h with }⟩
  · rw [tick_quiet h]
    exact ⟨rfl, rfl, rfl, fun _ h => { h with }⟩

theorem maybeSend_counters (s : TCPSender) : SameCounters s s.maybeSend.1 := by
  cases hready : s.readyToSend with
  | nil =>
      have hsame : s.maybeSend.1 = s := by simp only [maybeSend, hready]
      rw [hsame]
      exact ⟨rfl, rfl, rfl, fun _ h => h⟩
  | cons senderMsg rest =>
      have hpop : s.maybeSend.1 = { s with readyToSend := rest } := by
        simp only [maybeSend, hready]
      rw [hpop]
      exact ⟨rfl, rfl, rfl, fun _ h => { h with }⟩

theorem tracked_step {isn : Wrap32} {s : TCPSender} {created : List TCPSenderMessage}
    (hs : Tracked s created ∧ s.isn = isn) (input : Input) :
    Tracked (s.step input) (note s input created) ∧ (s.step input).isn = isn := by
  obtain ⟨ht, hisn⟩ := hs
  cases input with
  | push outbound =>
      obtain ⟨s', outbound', new, hok, hisn', hout, ht'⟩ := push_tracked ht outbound.2
      have hstep : s.step (.push outbound) = s' := by simp only [step, hok]
      rw [note, hstep, hout, List.drop_left]
      exact ⟨ht', hisn'.trans hisn⟩
  | receive msg =>
      obtain ⟨gone, hr⟩ := receive_spec s msg
      refine ⟨(hr.tracked ht).1, ?_⟩
      rw [step, hr.state]
      exact hisn
  | tick ms =>
      have hsame := tick_counters s ms
      exact ⟨hsame.tracked created ht, hsame.isn.trans hisn⟩
  | maybeSend =>
      have hsame := maybeSend_counters s
      exact ⟨hsame.tracked created ht, hsame.isn.trans hisn⟩

theorem tracked_run (isn : Wrap32) (initialRTOms : Nat) (inputs : List Input) :
    Tracked (runFrom isn initialRTOms inputs).1 (runFrom isn initialRTOms inputs).2 ∧
      (runFrom isn initialRTOms inputs).1.isn = isn :=
  run_invariant_always _
    (P := fun c : TCPSender × List TCPSenderMessage => Tracked c.1 c.2 ∧ c.1.isn = isn)
    ⟨tracked_new isn initialRTOms, rfl⟩ (fun _ input hc => tracked_step hc input) inputs

/-- The segments occupy the absolute numbers from `first` to `last`, each one starting
where the one before it ends. The numbers are those `receive` computes. -/
def Consecutive (s : TCPSender) (first last : Nat) : List TCPSenderMessage → Prop
  | [] => first = last
  | m :: rest =>
      0 < m.sequenceLength ∧ m.seqno.unwrap s.isn s.seqnumsSent = first ∧
        s.segmentEnd m = first + m.sequenceLength ∧
        Consecutive s (first + m.sequenceLength) last rest

theorem consecutive_of_splits {s : TCPSender} {first : Nat} {ms : List TCPSenderMessage}
    (h : ∀ pre m post, ms = pre ++ m :: post → 0 < m.sequenceLength ∧
      m.seqno.unwrap s.isn s.seqnumsSent = first + seqLen pre ∧
      s.segmentEnd m = first + seqLen pre + m.sequenceLength) :
    Consecutive s first (first + seqLen ms) ms := by
  induction ms generalizing first with
  | nil => rfl
  | cons m rest ih =>
      obtain ⟨hpos, hstart, hend⟩ := h [] m rest rfl
      refine ⟨hpos, hstart, hend, ?_⟩
      rw [seqLen_cons, ← Nat.add_assoc]
      apply ih
      intro pre q post hsplit
      have := h (m :: pre) q post (by rw [hsplit]; rfl)
      rwa [seqLen_cons, ← Nat.add_assoc] at this

theorem Tracked.consecutive {s : TCPSender} {created : List TCPSenderMessage}
    (hs : Tracked s created) (hfit : seqLen created + 2 ^ 32 ≤ 2 ^ 64) :
    s.seqnumsSent = seqLen created ∧ s.seqnumsInFlight ≤ s.seqnumsSent ∧
      Consecutive s (s.seqnumsSent - s.seqnumsInFlight) s.seqnumsSent s.outstanding := by
  obtain ⟨gone, hgone⟩ := hs.outstanding
  subst hgone
  have hflight := hs.inFlight
  have hsent : s.seqnumsSent = seqLen (gone ++ s.outstanding) := by
    rw [hs.sent, u64_of_lt (by omega)]
  have hlen : seqLen (gone ++ s.outstanding) = seqLen gone + seqLen s.outstanding :=
    seqLen_append _ _
  have hsplits : ∀ pre m post, s.outstanding = pre ++ m :: post → 0 < m.sequenceLength ∧
      m.seqno.unwrap s.isn s.seqnumsSent = seqLen gone + seqLen pre ∧
      s.segmentEnd m = seqLen gone + seqLen pre + m.sequenceLength := by
    intro pre m post hout
    rw [← seqLen_append]
    refine ⟨?_, hs.unwrap_seqno pre hfit hout, hs.segmentEnd_eq pre hfit hout⟩
    exact (hs.numbered (gone ++ pre) m post (by rw [hout, List.append_assoc])).2
  refine ⟨hsent, by omega, ?_⟩
  have hconsecutive := consecutive_of_splits hsplits
  rwa [← hlen, ← hsent, show seqLen gone = s.seqnumsSent - s.seqnumsInFlight by omega]
    at hconsecutive

/-- In consecutive segments the ends grow. -/
theorem Consecutive.lt_segmentEnd {s : TCPSender} {first last a : Nat}
    {ms : List TCPSenderMessage} (h : Consecutive s first last ms)
    (hfront : ∀ front rest, ms = front :: rest → a < s.segmentEnd front) :
    ∀ m ∈ ms, a < s.segmentEnd m := by
  induction ms generalizing first with
  | nil => simp
  | cons front rest ih =>
      obtain ⟨-, -, hend, hrest⟩ := h
      have hlt := hfront front rest rfl
      intro m hm
      cases List.mem_cons.mp hm with
      | inl hhead =>
          subst hhead
          exact hlt
      | inr hm =>
          refine ih hrest ?_ m hm
          rintro next rest' rfl
          obtain ⟨-, -, hnext, -⟩ := hrest
          omega

theorem Consecutive.drop {s : TCPSender} {first last : Nat} {ms ns : List TCPSenderMessage}
    (h : Consecutive s first last (ms ++ ns)) : Consecutive s (first + seqLen ms) last ns := by
  induction ms generalizing first with
  | nil => exact h
  | cons m ms ih =>
      rw [seqLen_cons, ← Nat.add_assoc]
      exact ih h.2.2.2

/-- While fewer than `2 ^ 63` sequence numbers have been sent, the outstanding segments
occupy the flight, the last sequence numbers sent, one after another. An ackno stands
for the number nearest to the last one sent; unless that is beyond it, `receive` removes
the segments that end at or before it, from the front, and no others. -/
theorem outstanding_segments_occupy_flight (isn : Wrap32) (initialRTOms : Nat)
    (inputs : List Input) (hsmall : seqLen (runFrom isn initialRTOms inputs).2 < 2 ^ 63) :
    let s := (runFrom isn initialRTOms inputs).1
    s.seqnumsSent = seqLen (runFrom isn initialRTOms inputs).2 ∧
      s.seqnumsInFlight = seqLen s.outstanding ∧
      s.seqnumsInFlight ≤ s.seqnumsSent ∧
      s.seqnumsInFlight ≤ 65535 ∧
      Consecutive s (s.seqnumsSent - s.seqnumsInFlight) s.seqnumsSent s.outstanding ∧
      ∀ msg ackno, msg.ackno = some ackno →
        let absoluteAckno := ackno.unwrap s.isn s.seqnumsSent
        Wrap32.wrap absoluteAckno isn = ackno ∧
          (∀ n, Wrap32.wrap n isn = ackno →
            Nat.dist absoluteAckno s.seqnumsSent ≤ Nat.dist n s.seqnumsSent) ∧
          (absoluteAckno ≤ s.seqnumsSent → ∃ gone,
            s.outstanding = gone ++ (s.receive msg).outstanding ∧
              (∀ m ∈ gone, s.segmentEnd m ≤ absoluteAckno) ∧
              (∀ m ∈ (s.receive msg).outstanding, absoluteAckno < s.segmentEnd m) ∧
              s.seqnumsInFlight = (s.receive msg).seqnumsInFlight + seqLen gone) := by
  intro s
  obtain ⟨ht, hisn⟩ : Tracked s (runFrom isn initialRTOms inputs).2 ∧ s.isn = isn :=
    tracked_run isn initialRTOms inputs
  obtain ⟨hsent, hle, hconsecutive⟩ := ht.consecutive (by omega)
  refine ⟨hsent, ht.inFlight, hle, ht.bounded, hconsecutive, ?_⟩
  intro msg ackno hackno absoluteAckno
  obtain ⟨hwrap, hnearest⟩ := Wrap32.unwrap_nearest ackno s.isn (c := s.seqnumsSent) (by omega)
  rw [hisn] at hwrap hnearest
  refine ⟨by rwa [← hisn] at hwrap ⊢, by rwa [← hisn] at hnearest ⊢, fun hacc => ?_⟩
  have hsome : s.acceptedAckno msg = some absoluteAckno := by
    simp only [acceptedAckno, hackno, if_neg (Nat.not_lt.mpr hacc), absoluteAckno]
  obtain ⟨gone, hr⟩ := receive_spec s msg
  refine ⟨gone, hr.outstanding, ?_, ?_, (hr.tracked ht).2⟩
  · intro m hm
    obtain ⟨a, ha, hend⟩ := hr.acknowledged m hm
    rw [hsome, Option.some.injEq] at ha
    rwa [ha]
  · rw [hr.outstanding] at hconsecutive
    exact hconsecutive.drop.lt_segmentEnd fun front rest hfront =>
      hr.kept front rest absoluteAckno hfront hsome

/-- A SYN and two bytes on either side of the wrap of the sequence numbers. -/
theorem outstanding_segments_occupy_flight_wrapping :
    let inputs : List Input :=
      [.push ⟨{ capacity := 4 }, ByteStream.wf_new 4⟩,
        .receive { ackno := none, windowSize := 4 },
        .push ⟨ByteStream.push { capacity := 4 } [104, 105],
          (ByteStream.push_grows (ByteStream.wf_new 4) [104, 105]).wf⟩]
    let s := (runFrom ⟨0xffffffff⟩ 1000 inputs).1
    seqLen (runFrom ⟨0xffffffff⟩ 1000 inputs).2 = 3 ∧
      Consecutive s (s.seqnumsSent - s.seqnumsInFlight) s.seqnumsSent s.outstanding :=
  ⟨by decide, (outstanding_segments_occupy_flight _ _ _ (by decide)).2.2.2.2.1⟩

end TCPSender
end Minnow
