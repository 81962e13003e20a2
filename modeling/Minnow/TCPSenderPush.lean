import Minnow.TCPSender

/-!
One turn of `push` as a set of equations, and the rule for its loop: what the turns
preserve holds when the loop ends, and the loop ends only with a full window or with
nothing left to send.
-/

namespace Minnow
open TCPSenderMessage
namespace TCPSender

/-- A turn of the loop, on a well-formed stream. -/
structure Turn (s : TCPSender) (availableWinSz : Nat) (outbound : ByteStream)
    (s' : TCPSender) (m : TCPSenderMessage) (outbound' : ByteStream) : Prop where
  seqno : m.seqno = Wrap32.wrap s.seqnumsSent s.isn
  syn : m.syn = !s.syn
  payload : m.payload = outbound.contents.take
    (min TCPConfig.maxPayloadSize (availableWinSz - (s.seqnumsInFlight + m.syn.toNat)))
  shrinks : outbound.Shrinks outbound' m.payload.length
  fin : m.fin = (outbound'.isFinished &&
    decide (s.seqnumsInFlight + m.syn.toNat + m.payload.length < availableWinSz) && !s.fin)
  state : s' = { s with
    syn := true
    fin := s.fin || m.fin
    seqnumsInFlight := s.seqnumsInFlight + m.sequenceLength }

/-- The segment of a turn fits into the window. -/
theorem Turn.fits {s s' : TCPSender} {availableWinSz : Nat} {outbound outbound' : ByteStream}
    {m : TCPSenderMessage} (h : Turn s availableWinSz outbound s' m outbound')
    (hroom : s.seqnumsInFlight < availableWinSz) :
    s.seqnumsInFlight + m.sequenceLength ≤ availableWinSz := by
  have hpayload : m.payload.length ≤ availableWinSz - (s.seqnumsInFlight + m.syn.toNat) := by
    rw [h.payload]
    exact (List.length_take_le _ _).trans (Nat.min_le_right _ _)
  have hsyn := Bool.toNat_le m.syn
  rw [sequenceLength]
  cases hfin : m.fin with
  | false => simp only [Bool.toNat_false]; omega
  | true =>
      have hroom' := h.fin
      rw [hfin] at hroom'
      simp only [Bool.true_eq, Bool.and_eq_true, decide_eq_true_eq] at hroom'
      simp only [Bool.toNat_true]
      omega

theorem nextSegment_ok (s : TCPSender) (availableWinSz : Nat) {outbound : ByteStream}
    (h : outbound.WF) :
    ∃ s' m outbound', s.nextSegment availableWinSz outbound = .ok (s', m, outbound') ∧
      Turn s availableWinSz outbound s' m outbound' := by
  obtain ⟨outbound', hread, hshrink⟩ := ByteStream.read_ok h
    (min TCPConfig.maxPayloadSize (availableWinSz - (s.seqnumsInFlight + (!s.syn).toNat)))
  rw [← List.length_take] at hshrink
  obtain ⟨payload, hpayload⟩ : ∃ payload, payload = outbound.contents.take
    (min TCPConfig.maxPayloadSize (availableWinSz - (s.seqnumsInFlight + (!s.syn).toNat))) :=
    ⟨_, rfl⟩
  rw [← hpayload] at hread hshrink
  obtain ⟨fin, hfin⟩ : ∃ fin, fin = (outbound'.isFinished &&
    decide (s.seqnumsInFlight + (!s.syn).toNat + payload.length < availableWinSz) && !s.fin) :=
    ⟨_, rfl⟩
  refine ⟨_, ⟨Wrap32.wrap s.seqnumsSent s.isn, !s.syn, payload, fin⟩, outbound', ?_,
    rfl, rfl, hpayload, hshrink, hfin, rfl⟩
  cases hsyn : s.syn with
  | false =>
      simp only [hsyn, Bool.not_false, Bool.toNat_true] at hread hfin
      simp only [nextSegment, hsyn, Bool.not_false, if_true, hread, ← hfin]
      cases fin <;> simp [sequenceLength, Nat.add_assoc]
  | true =>
      simp only [hsyn, Bool.not_true, Bool.toNat_false, Nat.add_zero] at hread hfin
      simp only [nextSegment, hsyn, Bool.not_true, Bool.false_eq_true, if_false, hread, ← hfin]
      cases s
      subst hsyn
      cases fin <;> simp [sequenceLength, Nat.add_assoc]

/-- Why the loop may stop: the window is full, or the stream is empty and its FIN, if
it is closed, has been sent. -/
def Filled (availableWinSz : Nat) (s : TCPSender) (outbound : ByteStream) : Prop :=
  availableWinSz ≤ s.seqnumsInFlight ∨
    outbound.contents = [] ∧ (outbound.isClosed = true → s.fin = true)

/-- A turn that uses no sequence number changes nothing and finds nothing to send. -/
theorem Turn.idle {s s' : TCPSender} {availableWinSz : Nat} {outbound outbound' : ByteStream}
    {m : TCPSenderMessage} (h : Turn s availableWinSz outbound s' m outbound')
    (hroom : s.seqnumsInFlight < availableWinSz) (hzero : m.sequenceLength = 0) :
    s' = s ∧ outbound.Shrinks outbound' 0 ∧ Filled availableWinSz s outbound' := by
  obtain ⟨hsyn, hpayload, hfin⟩ := sequenceLength_eq_zero.mp hzero
  have hs := h.syn
  have hp := h.payload
  have hf := h.fin
  have hshrink := h.shrinks
  rw [hsyn] at hs
  rw [hpayload, hsyn] at hp
  rw [hfin, hsyn, hpayload] at hf
  rw [hpayload, List.length_nil] at hshrink
  have hsyn' : s.syn = true := by simpa using hs
  have hempty : outbound.contents = [] := by
    have := hp.symm
    rw [List.take_eq_nil_iff] at this
    cases this with
    | inl hmin =>
        simp only [TCPConfig.maxPayloadSize, Bool.toNat_false] at hmin
        omega
    | inr hnil => exact hnil
  refine ⟨?_, hshrink, Or.inr ⟨by rw [hshrink.contents, hempty]; rfl, fun hclosed => ?_⟩⟩
  · rw [h.state, hfin, hzero, ← hsyn']
    simp
  · have hfinished : outbound'.isFinished = true :=
      (ByteStream.isFinished_iff hshrink.wf).mpr
        ⟨hclosed, by rw [hshrink.contents, hempty]; rfl⟩
    simpa [hfinished, hroom] using hf

/-- A turn that ends the loop after its segment leaves nothing to send. -/
theorem Turn.last {s s' : TCPSender} {availableWinSz : Nat} {outbound outbound' : ByteStream}
    {m : TCPSenderMessage} (h : Turn s availableWinSz outbound s' m outbound')
    (hlast : (m.fin || outbound'.bytesBuffered == 0) = true) :
    Filled availableWinSz (s'.enqueue m) outbound' := by
  have hwf := h.shrinks.wf
  have hstate : (s'.enqueue m).seqnumsInFlight = s.seqnumsInFlight + m.sequenceLength ∧
      (s'.enqueue m).fin = (s.fin || m.fin) := by
    rw [h.state]; exact ⟨rfl, rfl⟩
  cases hfin : m.fin with
  | true =>
      have hf := h.fin
      rw [hfin] at hf
      simp only [Bool.true_eq, Bool.and_eq_true] at hf
      exact Or.inr ⟨((ByteStream.isFinished_iff hwf).mp hf.1.1).2,
        fun _ => by rw [hstate.2, hfin, Bool.or_true]⟩
  | false =>
      have hempty : outbound'.contents = [] := by
        rw [hfin, Bool.false_or, beq_iff_eq, hwf.buffered] at hlast
        exact List.length_eq_zero_iff.mp hlast
      by_cases hroom : availableWinSz ≤ (s'.enqueue m).seqnumsInFlight
      · exact Or.inl hroom
      · refine Or.inr ⟨hempty, fun hclosed => ?_⟩
        have hf := h.fin
        have hfinished : outbound'.isFinished = true :=
          (ByteStream.isFinished_iff hwf).mpr ⟨hclosed, hempty⟩
        have hlt : s.seqnumsInFlight + m.syn.toNat + m.payload.length < availableWinSz := by
          rw [hstate.1, sequenceLength, hfin, Bool.toNat_false] at hroom
          omega
        rw [hstate.2, hfin, Bool.or_false]
        simpa [hfin, hfinished, hlt] using hf

/-- The rule for the loop of `push`. -/
theorem pushLoop_rule {P : TCPSender → ByteStream → Prop} {availableWinSz : Nat}
    (segment : ∀ {s s' outbound outbound' m}, P s outbound →
      s.seqnumsInFlight < availableWinSz → Turn s availableWinSz outbound s' m outbound' →
      m.sequenceLength ≠ 0 → P (s'.enqueue m) outbound')
    (idle : ∀ {s outbound outbound'}, P s outbound → outbound.Shrinks outbound' 0 →
      P s outbound')
    (turns : Nat) {s : TCPSender} {outbound : ByteStream} (hwf : outbound.WF)
    (h : P s outbound) (hturns : availableWinSz ≤ s.seqnumsInFlight + turns) :
    ∃ s' outbound', pushLoop availableWinSz turns s outbound = .ok (s', outbound') ∧
      outbound'.WF ∧ P s' outbound' ∧ Filled availableWinSz s' outbound' := by
  induction turns generalizing s outbound with
  | zero => exact ⟨s, outbound, rfl, hwf, h, Or.inl hturns⟩
  | succ turns ih =>
      by_cases hroom : s.seqnumsInFlight < availableWinSz
      · obtain ⟨s₁, m, outbound₁, hok, hturn⟩ := nextSegment_ok s availableWinSz hwf
        simp only [pushLoop, hroom, if_true, hok]
        by_cases hzero : m.sequenceLength = 0
        · obtain ⟨rfl, hshrink, hfilled⟩ := hturn.idle hroom hzero
          simp only [hzero, if_true]
          exact ⟨_, outbound₁, rfl, hshrink.wf, idle h hshrink, hfilled⟩
        · have hnext := segment h hroom hturn hzero
          simp only [hzero, if_false]
          by_cases hlast : (m.fin || outbound₁.bytesBuffered == 0) = true
          · simp only [hlast, if_true]
            exact ⟨_, outbound₁, rfl, hturn.shrinks.wf, hnext, hturn.last hlast⟩
          · simp only [hlast, Bool.false_eq_true, if_false]
            apply ih hturn.shrinks.wf hnext
            have : (s₁.enqueue m).seqnumsInFlight = s.seqnumsInFlight + m.sequenceLength := by
              rw [hturn.state]; rfl
            omega
      · refine ⟨s, outbound, ?_, hwf, h, Or.inl (Nat.not_lt.mp hroom)⟩
        simp only [pushLoop, hroom, if_false]

theorem push_rule {P : TCPSender → ByteStream → Prop} {s : TCPSender}
    (segment : ∀ {t t' outbound outbound' m}, P t outbound →
      t.seqnumsInFlight < s.availableWinSz → Turn t s.availableWinSz outbound t' m outbound' →
      m.sequenceLength ≠ 0 → P (t'.enqueue m) outbound')
    (idle : ∀ {t outbound outbound'}, P t outbound → outbound.Shrinks outbound' 0 →
      P t outbound')
    {outbound : ByteStream} (hwf : outbound.WF) (h : P s outbound) :
    ∃ s' outbound', s.push outbound = .ok (s', outbound') ∧
      outbound'.WF ∧ P s' outbound' ∧ Filled s.availableWinSz s' outbound' :=
  pushLoop_rule segment idle _ hwf h (by omega)

end TCPSender
end Minnow
