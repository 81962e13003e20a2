import Minnow.TCPConversation

/-!
When a pure acknowledgment is answered. A keep-alive is taken for one by its sequence
number, one less than the ackno of the peer it reaches; that ackno counts only what has
been sent, so the peer that handed the acknowledgment out has sent more since.
-/

namespace Minnow
open Transition TCPSenderMessage Connection
open TCPPeer (Emission)

/-- The ackno as an absolute sequence number. -/
def TCPPeer.absoluteAckno (p : TCPPeer) : Nat :=
  p.inboundStream.bytesPushed + 1 + p.inboundStream.isClosed.toNat

namespace Conversation

/-- A segment without sequence numbers. -/
def Pure (e : Emission) : Prop := e.segment.senderMessage.sequenceLength = 0

/-- The delivery to side `d` makes its peer reply. -/
def Answers (s : Conversation) (d : Side) (e : Emission) : Prop :=
  (s.peer d).needSend = false ∧ ((s.peer d).receive e.segment).needSend = true

variable {isn : Side → Wrap32} {initialRTOms : Side → Nat} {s t : Conversation}

theorem Conversing.isn_eq (hs : Conversing isn initialRTOms s) (d : Side) :
    (s.peer d).sender.isn = isn d := by
  obtain ⟨h, hc, -⟩ := hs.carries d
  exact hc.connected.segmented.isn

theorem Conversing.ackno_le (hs : Conversing isn initialRTOms s) (hwithin : s.Within) (d : Side)
    {ackno : Wrap32}
    (hackno : ((s.peer d).receiver.send (s.peer d).inboundStream).ackno = some ackno) :
    ackno = Wrap32.wrap (s.peer d).absoluteAckno (isn d.other) ∧
      (s.peer d).absoluteAckno ≤ (s.peer d.other).sender.seqnumsSent := by
  obtain ⟨h, hc, -⟩ := hs.carries d.other
  rw [direction, Side.other_other] at hc
  rw [TCPReceiver.send] at hackno
  cases hisn : (s.peer d).receiver.isn with
  | none => simp [hisn] at hackno
  | some z =>
      obtain rfl := hc.connected.synchronized z hisn
      simp only [hisn, Option.some.injEq] at hackno
      refine ⟨hackno.symm, hc.ackno_le (hwithin d.other) ?_⟩
      exact Option.isSome_of_eq_some hisn

/-- What an answered acknowledgment tells: its peer has come further since. -/
theorem Conversing.sent_lt (hs : Conversing isn initialRTOms s) (hwithin : s.Within) {d : Side}
    {e : Emission} (he : e ∈ s.emitted d.other) (hpure : Pure e) (hanswers : s.Answers d e) :
    e.sent < (s.peer d.other).sender.seqnumsSent := by
  obtain ⟨hquiet, hneed⟩ := hanswers
  obtain ⟨h, hc, honest⟩ := hs.carries d.other
  have hhonest := honest e he
  have hempty : e.segment.senderMessage = { seqno := Wrap32.wrap e.sent (isn d.other) } := by
    cases hhonest.message with
    | inl hm =>
        obtain ⟨pre, post, -, hfollows⟩ := hc.connected.segmented.sent.follows.of_mem hm
        have hpos := hfollows.nonempty
        rw [Pure] at hpure
        omega
    | inr hempty => exact hempty
  have hackno : ((s.peer d).receiver.send (s.peer d).inboundStream).ackno =
      some (Wrap32.wrap (e.sent + 1) (isn d.other)) := by
    rw [TCPPeer.receive, if_neg (by simp [hhonest.reset, hs.inbound d])] at hneed
    rw [Pure] at hpure
    simp only [hquiet, hpure, Nat.lt_irrefl, decide_false, Bool.or_self, Bool.false_or,
      beq_iff_eq] at hneed
    rw [hneed, hempty, Wrap32.wrap_succ]
  obtain ⟨hsame, hle⟩ := hs.ackno_le hwithin d hackno
  obtain ⟨hsent, hlt⟩ := hc.sent_eq (hwithin d.other)
  have hcame := hhonest.sent
  rw [← hsent] at hcame
  change e.sent ≤ (s.peer d.other).sender.seqnumsSent at hcame
  change (s.peer d.other).sender.seqnumsSent < 2 ^ 31 at hlt
  rw [Wrap32.wrap_eq_iff] at hsame
  omega

theorem Conversing.sent_le (hs : Conversing isn initialRTOms s) (hwithin : s.Within) {d : Side}
    {input : TCPPeer.Input}
    (hopen : ∀ data, input = .write data → (s.peer d).outboundStream.isClosed = false)
    (hafter : (s.act d input).Within) (e : Side) :
    (s.peer e).sender.seqnumsSent ≤ ((s.act d input).peer e).sender.seqnumsSent := by
  by_cases he : e = d
  · subst he
    obtain ⟨inputs, hsource, -⟩ := (s.peer e).step_source hopen
    obtain ⟨h, hc, -⟩ := hs.carries e
    obtain ⟨h', hc', ⟨more, hmore⟩, -⟩ := hc.source_run inputs
    have hbound := hafter e
    rw [act_self] at hbound ⊢
    have hsent := (hc.sent_eq (hwithin e)).1
    have hsent' := (hc'.sent_eq (congrArg (fun c : SenderSide => c.outbound.bytesPushed)
      hsource ▸ hbound)).1
    have hsame := congrArg (fun c : SenderSide => c.sender.seqnumsSent) hsource
    rw [← hmore, seqLen_append] at hsent'
    change (s.peer e).sender.seqnumsSent = _ at hsent
    change ((s.peer e).step input).sender.seqnumsSent = _ at hsame
    rw [hsent, hsame]
    exact Nat.le.intro hsent'.symm
  · rw [Side.eq_other he, act_other]

/-- What has been handed out between two states of a run, each after what its peer had
sent in the first of them. -/
structure Later (s t : Conversation) : Prop where
  emitted : ∀ d, ∃ new, t.emitted d = s.emitted d ++ new ∧
    ∀ e ∈ new, (s.peer d).sender.seqnumsSent ≤ e.sent
  sent : ∀ d, (s.peer d).sender.seqnumsSent ≤ (t.peer d).sender.seqnumsSent

theorem Later.refl (s : Conversation) : Later s s :=
  ⟨fun _ => ⟨[], (List.append_nil _).symm, nofun⟩, fun _ => Nat.le_refl _⟩

theorem Later.trans {u : Conversation} (h : Later s t) (k : Later t u) : Later s u := by
  refine ⟨fun d => ?_, fun d => (h.sent d).trans (k.sent d)⟩
  obtain ⟨new, hnew, hsent⟩ := h.emitted d
  obtain ⟨more, hmore, hlater⟩ := k.emitted d
  refine ⟨new ++ more, by rw [hmore, hnew, List.append_assoc], fun e he => ?_⟩
  cases List.mem_append.mp he with
  | inl hold => exact hsent e hold
  | inr hlast => exact (h.sent d).trans (hlater e hlast)

theorem Conversing.later_step (hs : Conversing isn initialRTOms s) (hwithin : s.Within)
    (input : Side × Input) (hafter : (s.step input).Within) : Later s (s.step input) := by
  obtain ⟨d, input⟩ := input
  cases s.step_cases d input with
  | inl hsame =>
      rw [hsame]
      exact Later.refl s
  | inr hacts =>
      obtain ⟨act, hopen, hpeer, hemitted⟩ := hacts
      have hacted : (s.act d act).Within := fun e => by
        rw [← hpeer]
        exact hafter e
      have hsent (e : Side) :
          (s.peer e).sender.seqnumsSent ≤ ((s.step (d, input)).peer e).sender.seqnumsSent := by
        rw [hpeer]
        exact hs.sent_le hwithin hopen hacted e
      refine ⟨fun e => ?_, hsent⟩
      obtain ⟨new, hnew, hmarked⟩ := hemitted e
      exact ⟨new, hnew, fun x hx => (hsent e).trans (Nat.le_of_eq (hmarked x hx).symm)⟩

theorem run_pushed_le (s : Conversation) (inputs : List (Side × Input)) (e : Side) :
    (s.peer e).outboundStream.bytesPushed ≤
      ((run step s inputs).peer e).outboundStream.bytesPushed := by
  induction inputs generalizing s with
  | nil => exact Nat.le_refl _
  | cons input inputs ih => exact (step_pushed_le s input e).trans (ih _)

theorem Conversing.later_run (hs : Conversing isn initialRTOms s) {inputs : List (Side × Input)}
    (hafter : (run step s inputs).Within) : Later s (run step s inputs) := by
  induction inputs generalizing s with
  | nil => exact Later.refl s
  | cons input inputs ih =>
      have hnext : (s.step input).Within := fun e => (run_pushed_le _ inputs e).trans_lt (hafter e)
      have hwithin : s.Within := fun e => (step_pushed_le s input e).trans_lt (hnext e)
      exact (hs.later_step hwithin input hnext).trans (ih (conversing_step hs hwithin input) hafter)

/-- In every run: an ackno counts at most what the other peer has sent; a pure
acknowledgment is answered only if its peer has sent more since; and so none that is
handed out while its peer sends nothing new is ever answered. -/
theorem no_acknowledgment_storm (cfg : Side → TCPConfig) (random : Side → Wrap32)
    {inputs : List (Side × Input)} (hwithin : (run step (start cfg random) inputs).Within) :
    let s := run step (start cfg random) inputs
    (∀ d ackno, ((s.peer d).receiver.send (s.peer d).inboundStream).ackno = some ackno →
      ackno = Wrap32.wrap (s.peer d).absoluteAckno (s.peer d.other).sender.isn ∧
        (s.peer d).absoluteAckno ≤ (s.peer d.other).sender.seqnumsSent) ∧
    (∀ d, ∀ e ∈ s.emitted d.other, Pure e → s.Answers d e →
      e.sent < (s.peer d.other).sender.seqnumsSent) ∧
    ∀ pre more, inputs = pre ++ more →
      let earlier := run step (start cfg random) pre
      ∀ d, (s.peer d.other).sender.seqnumsSent = (earlier.peer d.other).sender.seqnumsSent →
        ∀ e ∈ (s.emitted d.other).drop (earlier.emitted d.other).length, Pure e →
          ¬ s.Answers d e := by
  intro s
  have hs := conversing_run cfg random hwithin
  refine ⟨fun d ackno hackno => ?_, fun d e he => hs.sent_lt hwithin he, ?_⟩
  · rw [hs.isn_eq]
    exact hs.ackno_le hwithin d hackno
  · intro pre more hsplit earlier d hidle e he hpure hanswers
    have hrun : s = run step earlier more := by
      rw [← run_append, ← hsplit]
    have hbefore : earlier.Within := fun e =>
      (run_pushed_le earlier more e).trans_lt (hrun ▸ hwithin e)
    have hlater : Later earlier s := by
      rw [hrun]
      exact (conversing_run cfg random hbefore).later_run (hrun ▸ hwithin)
    obtain ⟨new, hnew, hsent⟩ := hlater.emitted d.other
    rw [hnew, List.drop_left] at he
    have hlt := hs.sent_lt hwithin (hnew ▸ List.mem_append_right _ he) hpure hanswers
    have hle := hsent e he
    change e.sent < (s.peer d.other).sender.seqnumsSent at hlt
    omega

/-- An acknowledgment of the SYN that is delayed behind the first byte looks like a
keep-alive: it is answered, and its peer has sent the byte since. -/
theorem no_acknowledgment_storm_delayed :
    let s := run step (start (fun _ => { sendCapacity := 8, recvCapacity := 8 }) fun _ => ⟨7⟩)
      [(.left, .push), (.left, .maybeSend), (.right, .deliver 0), (.right, .maybeSend),
        (.left, .deliver 0), (.left, .maybeSend), (.left, .write [10]), (.left, .push),
        (.left, .maybeSend), (.right, .deliver 2), (.right, .maybeSend)]
    ∃ e ∈ s.emitted .left, Pure e ∧ s.Answers .right e ∧
      e.sent < (s.peer .left).sender.seqnumsSent := by
  intro s
  have hwithin : s.Within := fun d => by cases d <;> decide +kernel
  have hmem : (⟨⟨{ seqno := ⟨8⟩ }, { ackno := some ⟨8⟩, windowSize := 8 }, false, {}⟩, 1⟩ :
      Emission) ∈ s.emitted .left := by
    decide +kernel
  have hanswers : s.Answers .right
      ⟨⟨{ seqno := ⟨8⟩ }, { ackno := some ⟨8⟩, windowSize := 8 }, false, {}⟩, 1⟩ :=
    And.intro (by decide +kernel) (by decide +kernel)
  exact ⟨_, hmem, rfl, hanswers,
    (no_acknowledgment_storm _ _ hwithin).2.1 .right _ hmem rfl hanswers⟩

end Conversation
end Minnow
