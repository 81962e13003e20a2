import Minnow.TCPSenderSent

/-!
How much a push sends: what the window has room for or what there is to send, whichever
is less.
-/

namespace Minnow
open Histories TCPSenderMessage
namespace TCPSender

/-- The sequence numbers there is something to send for: the SYN, the bytes buffered and
the FIN. -/
def pending (s : TCPSender) (outbound : ByteStream) : Nat :=
  (!s.syn).toNat + outbound.bytesBuffered + (outbound.isClosed && !s.fin).toNat

/-- A push with room in the window has sent the SYN. -/
theorem push_synchronizes {s s' : TCPSender} {outbound outbound' : ByteStream}
    (hwf : outbound.WF) (hroom : s.seqnumsInFlight < s.availableWinSz)
    (hok : s.push outbound = .ok (s', outbound')) : s'.syn = true := by
  obtain ⟨turns, hturns⟩ : ∃ n, s.availableWinSz - s.seqnumsInFlight = n + 1 :=
    ⟨s.availableWinSz - s.seqnumsInFlight - 1, by omega⟩
  obtain ⟨s₁, m, outbound₁, hnext, hturn⟩ := nextSegment_ok s s.availableWinSz hwf
  have hsyn : (s₁.enqueue m).syn = true := by rw [hturn.state]; rfl
  simp only [push, hturns, pushLoop, hroom, if_true, hnext] at hok
  split at hok
  · cases hok
    rw [hturn.state]
  · next hne =>
      split at hok
      · cases hok
        exact hsyn
      · have hflight : (s₁.enqueue m).seqnumsInFlight = s.seqnumsInFlight + m.sequenceLength := by
          rw [hturn.state]; rfl
        have hwindow : s.availableWinSz ≤ (s₁.enqueue m).seqnumsInFlight + turns := by omega
        obtain ⟨t, o, hloop, -, ht, -⟩ := pushLoop_rule (P := fun t _ => t.syn = true)
          (fun _ _ hturn _ => by rw [hturn.state]; rfl) (fun h _ => h) turns hturn.shrinks.wf
          hsyn hwindow
        rw [hloop] at hok
        cases hok
        exact ht

/-- A push fills the window at most up to its size. -/
theorem push_inFlight_le {s s' : TCPSender} {outbound outbound' : ByteStream}
    (hwf : outbound.WF) (hok : s.push outbound = .ok (s', outbound')) :
    s'.seqnumsInFlight ≤ max s.seqnumsInFlight s.availableWinSz := by
  obtain ⟨t, o, hpush, -, ht, -⟩ := push_rule (s := s)
    (P := fun t _ => t.seqnumsInFlight ≤ max s.seqnumsInFlight s.availableWinSz)
    (fun {t t' _ _ m} _ hroom hturn _ => by
      have hfits := hturn.fits hroom
      have hflight : (t'.enqueue m).seqnumsInFlight = t.seqnumsInFlight + m.sequenceLength := by
        rw [hturn.state]; rfl
      omega)
    (fun h _ => h) hwf (Nat.le_max_left _ _)
  rw [hpush] at hok
  cases hok
  exact ht

/-- The sequence numbers used, by the flags of the sender. -/
theorem Sent.seqLen_created {s : TCPSender} {outbound : ByteStream}
    {created : List TCPSenderMessage} (hs : Sent s outbound created) :
    seqLen created = s.syn.toNat + (payloads created).length + s.fin.toNat := by
  cases hsyn : s.syn with
  | false =>
      have hnil : created = [] := by
        by_contra hne
        rw [hs.syn.mpr hne] at hsyn
        cases hsyn
      have hfin : s.fin = false := Bool.eq_false_iff.mpr fun h => by
        obtain ⟨m, hm, -⟩ := hs.fin.mp h
        rw [hnil] at hm
        cases hm
      rw [hnil, hfin]
      rfl
  | true =>
      have hany : created.any (·.fin) = s.fin := by
        rw [Bool.eq_iff_iff, List.any_eq_true]
        exact hs.fin.symm
      rw [seqLen_of_follows hs.follows (hs.syn.mp hsyn), hany]
      rfl

/-- A push sends the FIN only of a closed stream, and then for the first time. -/
theorem push_fin_le {s s' : TCPSender} {outbound outbound' : ByteStream}
    {created : List TCPSenderMessage} (hs' : Sent s' outbound' created)
    (hclosed : outbound'.isClosed = outbound.isClosed) :
    s'.fin.toNat ≤ s.fin.toNat + (outbound.isClosed && !s.fin).toNat := by
  cases hf : s'.fin with
  | false => exact Nat.zero_le _
  | true =>
      rw [← hclosed, (hs'.finished hf).1]
      cases s.fin <;> decide

/-- A FIN is not taken back, and that of a closed stream is sent if `hdone` says so. -/
theorem push_fin_ge {s s' : TCPSender} {outbound outbound' : ByteStream}
    {created new : List TCPSenderMessage} (hs : Sent s outbound created)
    (hs' : Sent s' outbound' (created ++ new))
    (hclosed : outbound'.isClosed = outbound.isClosed)
    (hdone : outbound'.isClosed = true → s'.fin = true) :
    s.fin.toNat + (outbound.isClosed && !s.fin).toNat ≤ s'.fin.toNat := by
  cases hf : s.fin with
  | true =>
      obtain ⟨m, hm, hmfin⟩ := hs.fin.mp hf
      have hkept : s'.fin = true := hs'.fin.mpr ⟨m, List.mem_append_left _ hm, hmfin⟩
      rw [hkept, Bool.not_true, Bool.and_false]
      exact Nat.le_refl _
  | false =>
      cases hc : outbound.isClosed with
      | false => exact Nat.zero_le _
      | true =>
          rw [hdone (hclosed.trans hc)]
          exact Nat.le_refl _

/-- A push uses as many sequence numbers as fit into the window, or all it has a use for. -/
theorem push_amount {s s' : TCPSender} {outbound outbound' : ByteStream}
    {created new : List TCPSenderMessage} (hs : Sent s outbound created)
    (hok : s.push outbound = .ok (s', outbound')) (hp : Pushed s outbound s' outbound' new)
    (hs' : Sent s' outbound' (created ++ new)) (hfilled : Filled s.availableWinSz s' outbound') :
    seqLen new = min (s.availableWinSz - s.seqnumsInFlight) (s.pending outbound) := by
  have hflight : s'.seqnumsInFlight = s.seqnumsInFlight + seqLen new := by
    rw [hs'.inFlight, hs.inFlight, hp.outstanding, seqLen_append]
  have hle := push_inFlight_le hs.stream hok
  by_cases hroom : s.seqnumsInFlight < s.availableWinSz
  · have hsyn := push_synchronizes hs.stream hroom hok
    have hbefore := hs.seqLen_created
    have hafter := hs'.seqLen_created
    have hclosed := hp.shrinks.closed
    have hbuffered := hs.stream.buffered
    obtain ⟨rest, hrest⟩ := hp.payloads
    have hcontents := congrArg List.length hrest
    rw [List.length_append] at hcontents
    rw [hsyn, seqLen_append, payloads_append, List.length_append] at hafter
    have hfin := push_fin_le (s := s) hs' hclosed
    have hsynNat : s.syn.toNat + (!s.syn).toNat = 1 := by cases s.syn <;> rfl
    rw [Bool.toNat_true] at hafter
    rw [pending]
    cases hfilled with
    | inl hfull =>
        omega
    | inr hdrained =>
        obtain ⟨hempty, hdone⟩ := hdrained
        have hall : outbound.contents.length ≤ (payloads new).length := by
          rwa [hp.shrinks.contents, List.drop_eq_nil_iff] at hempty
        have hfin' := push_fin_ge hs hs' hclosed hdone
        omega
  · have hzero : seqLen new = 0 := by omega
    rw [hzero]
    omega

end TCPSender
end Minnow
