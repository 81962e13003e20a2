import Minnow.Histories
import Minnow.TCPSenderPush

/-!
The TCPSender read off the segments it has created. `Sent` fixes every field of the
sender by that list and its outstanding end; each operation is described once by what
it changes, and keeps `Sent`.
-/

namespace Minnow
open Histories TCPSenderMessage
namespace TCPSender

/-- How a segment follows the segments created before it. -/
structure Follows (isn : Wrap32) (pre : List TCPSenderMessage) (m : TCPSenderMessage) :
    Prop where
  seqno : m.seqno = Wrap32.wrap (seqLen pre) isn
  syn : m.syn = true ↔ pre = []
  payload : m.payload.length ≤ TCPConfig.maxPayloadSize
  nonempty : 0 < m.sequenceLength
  unfinished : ∀ q ∈ pre, q.fin = false

/-- A sent segment has a sequence number for each byte, one for the SYN at the start
and one for the FIN, if it is there. -/
theorem seqLen_of_follows {isn : Wrap32} {sent : List TCPSenderMessage}
    (h : Each (Follows isn) sent) (hne : sent ≠ []) :
    seqLen sent = 1 + (payloads sent).length + (sent.any (·.fin)).toNat := by
  induction sent using List.reverseRecOn with
  | nil => exact absurd rfl hne
  | append_singleton sent m ih =>
      obtain ⟨hsent, hm⟩ := each_concat.mp h
      have hopen : sent.any (·.fin) = false := by
        simpa using hm.unfinished
      have hsyn := hm.syn
      simp only [seqLen_append, seqLen_cons, seqLen_nil, payloads_append, payloads_cons,
        payloads_nil, List.append_nil, List.length_append, List.any_append, hopen,
        List.any_cons, List.any_nil, Bool.or_false, Bool.false_or, sequenceLength]
      by_cases hnil : sent = []
      · subst hnil
        rw [hsyn.mpr rfl]
        simp
      · have := ih hsent hnil
        rw [hopen] at this
        rw [Bool.eq_false_iff.mpr (mt hsyn.mp hnil), this]
        simp only [Bool.toNat_false]
        omega

/-- The counters of the sender describe its outstanding queue, the end of what it has
created. -/
structure Tracked (s : TCPSender) (created : List TCPSenderMessage) : Prop where
  numbered : Each (fun pre m => m.seqno = Wrap32.wrap (seqLen pre) s.isn ∧
    0 < m.sequenceLength) created
  outstanding : s.outstanding <:+ created
  sent : s.seqnumsSent = u64 (seqLen created)
  inFlight : s.seqnumsInFlight = seqLen s.outstanding
  bounded : s.seqnumsInFlight ≤ 65535

theorem tracked_new (isn : Wrap32) (initialRTOms : Nat) :
    Tracked { isn, initialRTOms } [] :=
  ⟨each_nil _, List.suffix_rfl, rfl, rfl, Nat.zero_le _⟩

/-- A turn that sends keeps the counters. -/
theorem Turn.tracked {s s' : TCPSender} {availableWinSz : Nat}
    {outbound outbound' : ByteStream} {m : TCPSenderMessage}
    {created : List TCPSenderMessage} (h : Turn s availableWinSz outbound s' m outbound')
    (ht : Tracked s created) (hroom : s.seqnumsInFlight < availableWinSz)
    (hwin : availableWinSz ≤ 65535) (hne : m.sequenceLength ≠ 0) :
    Tracked (s'.enqueue m) (created ++ [m]) := by
  have hfits := h.fits hroom
  have hseqno : m.seqno = Wrap32.wrap (seqLen created) s.isn := by
    rw [h.seqno, ht.sent, Wrap32.wrap_u64]
  rw [h.state]
  refine ⟨each_concat.mpr ⟨ht.numbered, hseqno, Nat.pos_of_ne_zero hne⟩, ?_, ?_, ?_, ?_⟩
  · obtain ⟨pre, hpre⟩ := ht.outstanding
    exact ⟨pre, by simp only [enqueue, ← hpre, List.append_assoc]⟩
  · simp only [enqueue, ht.sent, seqLen_append, seqLen_cons, seqLen_nil, u64]
    omega
  · simp [enqueue, ht.inFlight]
  · simp only [enqueue]
    omega

/-- While the count of sequence numbers has not come near `2 ^ 64`, `receive` unwraps the
number of an outstanding segment to where the segment starts. -/
theorem Tracked.unwrap_seqno {s : TCPSender} {gone : List TCPSenderMessage}
    (pre : List TCPSenderMessage) {post : List TCPSenderMessage} {m : TCPSenderMessage}
    (hs : Tracked s (gone ++ s.outstanding))
    (hfit : seqLen (gone ++ s.outstanding) + 2 ^ 32 ≤ 2 ^ 64)
    (hout : s.outstanding = pre ++ m :: post) :
    m.seqno.unwrap s.isn s.seqnumsSent = seqLen (gone ++ pre) := by
  have hflight := hs.inFlight
  have hbounded := hs.bounded
  have hseqno : m.seqno = Wrap32.wrap (seqLen (gone ++ pre)) s.isn :=
    (hs.numbered (gone ++ pre) m post (by rw [hout, List.append_assoc])).1
  have hsent : s.seqnumsSent = seqLen (gone ++ s.outstanding) := by
    rw [hs.sent, u64_of_lt (by omega)]
  rw [hout] at hflight hsent hfit
  simp only [seqLen_append, seqLen_cons] at hflight hsent hfit
  have hlen : seqLen (gone ++ pre) = seqLen gone + seqLen pre := seqLen_append _ _
  rw [hseqno, Wrap32.unwrap_wrap s.isn]
  all_goals omega

/-- The end it computes is then where the segment ends. -/
theorem Tracked.segmentEnd_eq {s : TCPSender} {gone : List TCPSenderMessage}
    (pre : List TCPSenderMessage) {post : List TCPSenderMessage} {m : TCPSenderMessage}
    (hs : Tracked s (gone ++ s.outstanding))
    (hfit : seqLen (gone ++ s.outstanding) + 2 ^ 32 ≤ 2 ^ 64)
    (hout : s.outstanding = pre ++ m :: post) :
    s.segmentEnd m = seqLen (gone ++ pre) + m.sequenceLength := by
  rw [segmentEnd, hs.unwrap_seqno pre hfit hout, u64_of_lt]
  rw [hout] at hfit
  simp only [seqLen_append, seqLen_cons] at hfit ⊢
  omega

/-- The sender and its stream after `created` has been sent. -/
structure Sent (s : TCPSender) (outbound : ByteStream)
    (created : List TCPSenderMessage) : Prop where
  stream : outbound.WF
  follows : Each (Follows s.isn) created
  outstanding : s.outstanding <:+ created
  ready : ∀ m ∈ s.readyToSend, m ∈ created
  sent : s.seqnumsSent = u64 (seqLen created)
  inFlight : s.seqnumsInFlight = seqLen s.outstanding
  bounded : s.seqnumsInFlight ≤ 65535
  syn : s.syn = true ↔ created ≠ []
  fin : s.fin = true ↔ ∃ m ∈ created, m.fin = true
  finished : s.fin = true → outbound.isClosed = true ∧ outbound.contents = []

theorem Sent.tracked {s : TCPSender} {outbound : ByteStream}
    {created : List TCPSenderMessage} (hs : Sent s outbound created) : Tracked s created :=
  ⟨fun pre m post h => ⟨(hs.follows pre m post h).seqno, (hs.follows pre m post h).nonempty⟩,
    hs.outstanding, hs.sent, hs.inFlight, hs.bounded⟩

theorem sent_new (isn : Wrap32) (initialRTOms capacity : Nat) :
    Sent { isn, initialRTOms } { capacity } [] := by
  refine ⟨ByteStream.wf_new capacity, each_nil _, List.suffix_rfl, ?_, rfl, rfl, ?_,
    ?_, ?_, ?_⟩ <;> simp

/-- After the FIN a turn has nothing left to send. -/
theorem Turn.unfinished {s s' : TCPSender} {availableWinSz : Nat}
    {outbound outbound' : ByteStream} {m : TCPSenderMessage}
    {created : List TCPSenderMessage} (h : Turn s availableWinSz outbound s' m outbound')
    (hs : Sent s outbound created) (hne : m.sequenceLength ≠ 0) : s.fin = false := by
  cases hfin : s.fin with
  | false => rfl
  | true =>
      exfalso
      obtain ⟨q, hq, -⟩ := hs.fin.mp hfin
      have hsyn : m.syn = false := by
        rw [h.syn, hs.syn.mpr (List.ne_nil_of_mem hq)]; rfl
      have hpayload : m.payload = [] := by
        rw [h.payload, (hs.finished hfin).2, List.take_nil]
      have hf : m.fin = false := by
        rw [h.fin, hfin, Bool.not_true, Bool.and_false]
      exact hne (by simp [sequenceLength, hsyn, hpayload, hf])

theorem Turn.follows {s s' : TCPSender} {availableWinSz : Nat}
    {outbound outbound' : ByteStream} {m : TCPSenderMessage}
    {created : List TCPSenderMessage} (h : Turn s availableWinSz outbound s' m outbound')
    (hs : Sent s outbound created) (hne : m.sequenceLength ≠ 0) :
    Follows s.isn created m := by
  have hfin := h.unfinished hs hne
  refine ⟨?_, ?_, ?_, Nat.pos_of_ne_zero hne, ?_⟩
  · rw [h.seqno, hs.sent, Wrap32.wrap_u64]
  · rw [h.syn, Bool.not_eq_true', ← Bool.not_eq_true, hs.syn, not_not]
  · rw [h.payload]
    exact (List.length_take_le _ _).trans (Nat.min_le_left _ _)
  · intro q hq
    have := mt hs.fin.mpr (by simp [hfin])
    simpa using fun hqf => this ⟨q, hq, hqf⟩

/-- A turn that sends keeps the invariant. -/
theorem Turn.sent {s s' : TCPSender} {availableWinSz : Nat}
    {outbound outbound' : ByteStream} {m : TCPSenderMessage}
    {created : List TCPSenderMessage} (h : Turn s availableWinSz outbound s' m outbound')
    (hs : Sent s outbound created) (hroom : s.seqnumsInFlight < availableWinSz)
    (hwin : availableWinSz ≤ 65535) (hne : m.sequenceLength ≠ 0) :
    Sent (s'.enqueue m) outbound' (created ++ [m]) := by
  have hunfin := h.unfinished hs hne
  have hfollows := h.follows hs hne
  have ht := h.tracked hs.tracked hroom hwin hne
  rw [h.state] at ht ⊢
  refine ⟨h.shrinks.wf, each_concat.mpr ⟨hs.follows, hfollows⟩, ht.outstanding, ?_, ht.sent,
    ht.inFlight, ht.bounded, ?_, ?_, ?_⟩
  · intro q hq
    simp only [enqueue, List.mem_append] at hq ⊢
    exact hq.imp_left (hs.ready q)
  · simp [enqueue]
  · simp [enqueue, hunfin, ← hs.fin]
  · simp only [enqueue, hunfin, Bool.false_or]
    intro hfin
    have := h.fin
    rw [hfin] at this
    simp only [Bool.true_eq, Bool.and_eq_true] at this
    exact (ByteStream.isFinished_iff h.shrinks.wf).mp this.1.1

/-- What a push changes: it appends `new` to both queues and takes its payloads from
the stream. -/
structure Pushed (s : TCPSender) (outbound : ByteStream) (s' : TCPSender)
    (outbound' : ByteStream) (new : List TCPSenderMessage) : Prop where
  isn : s'.isn = s.isn
  initialRTOms : s'.initialRTOms = s.initialRTOms
  windowSize : s'.windowSize = s.windowSize
  retransmissions : s'.retransmissions = s.retransmissions
  timer : s'.timer = s.timer
  outstanding : s'.outstanding = s.outstanding ++ new
  readyToSend : s'.readyToSend = s.readyToSend ++ new
  shrinks : outbound.Shrinks outbound' (payloads new).length
  payloads : payloads new <+: outbound.contents

theorem availableWinSz_eq (s : TCPSender) : s.availableWinSz = max 1 s.windowSize.toNat := by
  rw [availableWinSz]
  split
  · next h => rw [h]; rfl
  · next h =>
      have : s.windowSize.toNat ≠ 0 := fun hz => h (UInt16.toNat_inj.mp hz)
      omega

theorem availableWinSz_le (s : TCPSender) : s.availableWinSz ≤ 65535 := by
  have := s.windowSize.toNat_lt
  rw [availableWinSz_eq]
  omega

theorem push_spec {s : TCPSender} {outbound : ByteStream}
    {created : List TCPSenderMessage} (h : Sent s outbound created) :
    ∃ s' outbound' new, s.push outbound = .ok (s', outbound') ∧
      Pushed s outbound s' outbound' new ∧ Sent s' outbound' (created ++ new) ∧
      Filled s.availableWinSz s' outbound' := by
  have hrule := push_rule (s := s) (P := fun t o => ∃ new,
      Pushed s outbound t o new ∧ Sent t o (created ++ new))
    (by
      rintro t t' o o' m ⟨new, hp, ht⟩ hroom hturn hne
      have hsent := hturn.sent ht hroom s.availableWinSz_le hne
      refine ⟨new ++ [m], ⟨?_, ?_, ?_, ?_, ?_, ?_, ?_, ?_, ?_⟩, by rwa [← List.append_assoc]⟩
      · rw [hturn.state]; exact hp.isn
      · rw [hturn.state]; exact hp.initialRTOms
      · rw [hturn.state]; exact hp.windowSize
      · rw [hturn.state]; exact hp.retransmissions
      · rw [hturn.state]; exact hp.timer
      · rw [hturn.state]; simp [enqueue, hp.outstanding]
      · rw [hturn.state]; simp [enqueue, hp.readyToSend]
      · have := hp.shrinks.trans hturn.shrinks
        simpa using this
      · have hrest := hp.shrinks.contents
        obtain ⟨rest, hcut⟩ := hp.payloads
        rw [← hcut, List.drop_left] at hrest
        rw [← hcut, payloads_append]
        apply (List.prefix_append_right_inj _).mpr
        rw [← hrest]
        simpa [hturn.payload] using List.take_prefix _ _)
    (by
      rintro t o o' ⟨new, hp, ht⟩ hidle
      have hsame : o'.contents = o.contents := by rw [hidle.contents, List.drop_zero]
      refine ⟨new, { hp with shrinks := hp.shrinks.trans hidle }, ?_⟩
      exact { ht with
        stream := hidle.wf
        finished := fun hfin => by rw [hidle.closed, hsame]; exact ht.finished hfin })
    h.stream ⟨[], ⟨rfl, rfl, rfl, rfl, rfl, by simp, by simp,
      ByteStream.Shrinks.refl h.stream, by simp⟩, by simpa using h⟩
  obtain ⟨s', outbound', hok, -, ⟨new, hp, hs⟩, hfilled⟩ := hrule
  exact ⟨s', outbound', new, hok, hp, hs, hfilled⟩

/-- The absolute ackno of a message that `receive` acts on. -/
def acceptedAckno (s : TCPSender) (msg : TCPReceiverMessage) : Option Nat :=
  match msg.ackno with
  | none => none
  | some ackno =>
      if s.seqnumsSent < ackno.unwrap s.isn s.seqnumsSent then none
      else some (ackno.unwrap s.isn s.seqnumsSent)

theorem acceptedAckno_le {s : TCPSender} {msg : TCPReceiverMessage} {absoluteAckno : Nat}
    (h : s.acceptedAckno msg = some absoluteAckno) : absoluteAckno ≤ s.seqnumsSent := by
  rw [acceptedAckno] at h
  split at h
  · cases h
  · split at h
    · cases h
    · next hle => exact Option.some.inj h ▸ Nat.not_lt.mp hle

/-- What a receive changes: it removes `gone` from the front of the outstanding queue,
and an accepted ackno resets the back-off. -/
structure Received (s : TCPSender) (msg : TCPReceiverMessage) (s' : TCPSender)
    (gone : List TCPSenderMessage) : Prop where
  outstanding : s.outstanding = gone ++ s'.outstanding
  acknowledged : ∀ m ∈ gone, ∃ absoluteAckno,
    s.acceptedAckno msg = some absoluteAckno ∧ s.segmentEnd m ≤ absoluteAckno
  kept : ∀ front rest absoluteAckno, s'.outstanding = front :: rest →
    s.acceptedAckno msg = some absoluteAckno → absoluteAckno < s.segmentEnd front
  state : s' = { s with
    windowSize := msg.windowSize
    outstanding := s'.outstanding
    seqnumsInFlight := s.seqnumsInFlight - seqLen gone
    retransmissions := if (s.acceptedAckno msg).isSome then 0 else s.retransmissions
    timer :=
      { rto := if (s.acceptedAckno msg).isSome then s.initialRTOms else s.timer.rto
        timePassage := if gone = [] then s.timer.timePassage else 0 } }

theorem removeAcknowledged_spec (absoluteAckno : Nat) (queue : List TCPSenderMessage)
    (s : TCPSender) :
    ∃ gone, queue = gone ++ (removeAcknowledged absoluteAckno queue s).outstanding ∧
      (∀ m ∈ gone, s.segmentEnd m ≤ absoluteAckno) ∧
      (∀ front rest, (removeAcknowledged absoluteAckno queue s).outstanding = front :: rest →
        absoluteAckno < s.segmentEnd front) ∧
      removeAcknowledged absoluteAckno queue s = { s with
        outstanding := (removeAcknowledged absoluteAckno queue s).outstanding
        seqnumsInFlight := s.seqnumsInFlight - seqLen gone
        timer := if gone = [] then s.timer else s.timer.start } := by
  induction queue generalizing s with
  | nil => exact ⟨[], rfl, by simp, by simp [removeAcknowledged], rfl⟩
  | cons front rest ih =>
      by_cases hend : s.segmentEnd front ≤ absoluteAckno
      · obtain ⟨gone, hqueue, hgone, hkept, hstate⟩ := ih { s with
          seqnumsInFlight := s.seqnumsInFlight - front.sequenceLength
          timer := s.timer.start }
        simp only [removeAcknowledged, hend, if_true]
        refine ⟨front :: gone, by rw [List.cons_append, ← hqueue], ?_, hkept, ?_⟩
        · intro m hm
          cases List.mem_cons.mp hm with
          | inl hhead =>
              subst hhead
              exact hend
          | inr hm => exact hgone m hm
        · rw [hstate]
          simp [Nat.sub_sub, RTOTimer.start]
      · simp only [removeAcknowledged, hend, if_false]
        refine ⟨[], rfl, by simp, ?_, rfl⟩
        rintro f r ⟨rfl, rfl⟩
        exact Nat.not_le.mp hend

theorem receive_spec (s : TCPSender) (msg : TCPReceiverMessage) :
    ∃ gone, Received s msg (s.receive msg) gone := by
  cases hackno : msg.ackno with
  | none =>
      have hnone : s.acceptedAckno msg = none := by rw [acceptedAckno, hackno]
      refine ⟨[], ?_, by simp, by simp [hnone], ?_⟩ <;> simp [receive, hackno, hnone]
  | some ackno =>
      by_cases hbeyond : s.seqnumsSent < ackno.unwrap s.isn s.seqnumsSent
      · have hnone : s.acceptedAckno msg = none := by
          simp only [acceptedAckno, hackno, hbeyond, if_true]
        refine ⟨[], ?_, by simp, by simp [hnone], ?_⟩ <;>
          simp [receive, hackno, hbeyond, hnone]
      · have hsome : s.acceptedAckno msg = some (ackno.unwrap s.isn s.seqnumsSent) := by
          simp only [acceptedAckno, hackno, hbeyond, if_false]
        obtain ⟨gone, hqueue, hgone, hkept, hstate⟩ := removeAcknowledged_spec
          (ackno.unwrap s.isn s.seqnumsSent) s.outstanding
          { s with windowSize := msg.windowSize }
        have hreceive : (s.receive msg).outstanding =
            (removeAcknowledged (ackno.unwrap s.isn s.seqnumsSent) s.outstanding
              { s with windowSize := msg.windowSize }).outstanding := by
          simp only [receive, hackno, hbeyond, if_false]
        refine ⟨gone, by rw [hreceive]; exact hqueue, fun m hm => ⟨_, hsome, hgone m hm⟩, ?_, ?_⟩
        · intro front rest absoluteAckno hfront hackno
          rw [hreceive] at hfront
          rw [hsome, Option.some.injEq] at hackno
          rw [← hackno]
          exact hkept front rest hfront
        rw [hreceive, hsome]
        simp only [receive, hackno, hbeyond, if_false]
        rw [hstate]
        by_cases hnil : gone = [] <;> simp [hnil, RTOTimer.setRto, RTOTimer.start]

theorem Received.tracked {s s' : TCPSender} {msg : TCPReceiverMessage}
    {gone created : List TCPSenderMessage} (h : Received s msg s' gone)
    (hs : Tracked s created) :
    Tracked s' created ∧ s.seqnumsInFlight = s'.seqnumsInFlight + seqLen gone := by
  have hflight := hs.inFlight
  have hbounded := hs.bounded
  rw [h.outstanding, seqLen_append] at hflight
  rw [h.state]
  refine ⟨⟨hs.numbered, ?_, hs.sent, ?_, ?_⟩, ?_⟩
  · have hout := hs.outstanding
    rw [h.outstanding] at hout
    exact (List.suffix_append _ _).trans hout
  all_goals
    simp only
    omega

theorem Received.sent {s s' : TCPSender} {msg : TCPReceiverMessage}
    {gone created : List TCPSenderMessage} {outbound : ByteStream}
    (h : Received s msg s' gone) (hs : Sent s outbound created) :
    Sent s' outbound created := by
  have ht := (h.tracked hs.tracked).1
  rw [h.state] at ht ⊢
  exact ⟨hs.stream, hs.follows, ht.outstanding, hs.ready, hs.sent, ht.inFlight, ht.bounded,
    hs.syn, hs.fin, hs.finished⟩

/-- The tick queues a retransmission. -/
def Retransmits (s : TCPSender) (ms : Nat) : Prop :=
  (s.tick ms).readyToSend ≠ s.readyToSend

instance (s : TCPSender) (ms : Nat) : Decidable (s.Retransmits ms) :=
  inferInstanceAs (Decidable (_ ≠ _))

theorem tick_quiet {s : TCPSender} {ms : Nat} (h : ¬ s.Retransmits ms) :
    s.tick ms = { s with timer := s.timer.tick ms } := by
  cases hout : s.outstanding with
  | nil => simp [tick, hout]
  | cons front rest =>
      cases hexp : (s.timer.tick ms).isExpired with
      | false => simp [tick, hout, hexp]
      | true => simp [Retransmits, tick, hout, hexp] at h

/-- A retransmission: the oldest segment is queued, the timer starts again, and the
timeout doubles when the window is open. -/
theorem tick_retransmits {s : TCPSender} {ms : Nat} (h : s.Retransmits ms) :
    ∃ front rest, s.outstanding = front :: rest ∧
      s.timer.rto ≤ u64 (s.timer.timePassage + ms) ∧
      s.tick ms = { s with
        readyToSend := s.readyToSend ++ [front]
        retransmissions := s.retransmissions + 1
        timer :=
          { rto := if s.windowSize ≠ 0 then u64 (s.timer.rto * 2) else s.timer.rto
            timePassage := 0 } } := by
  cases hout : s.outstanding with
  | nil => simp [Retransmits, tick, hout] at h
  | cons front rest =>
      cases hexp : (s.timer.tick ms).isExpired with
      | false => simp [Retransmits, tick, hout, hexp] at h
      | true =>
          refine ⟨front, rest, rfl, ?_, ?_⟩
          · exact of_decide_eq_true hexp
          · simp only [tick, hout, hexp, if_true]
            by_cases hwin : s.windowSize = 0 <;>
              simp [hwin, RTOTimer.start, RTOTimer.doubleRto, RTOTimer.tick]

theorem Sent.tick {s : TCPSender} {outbound : ByteStream}
    {created : List TCPSenderMessage} (hs : Sent s outbound created) (ms : Nat) :
    Sent (s.tick ms) outbound created := by
  by_cases h : s.Retransmits ms
  · obtain ⟨front, rest, hout, -, hstate⟩ := tick_retransmits h
    rw [hstate]
    refine { hs with ready := fun m hm => ?_ }
    cases List.mem_append.mp hm with
    | inl hm => exact hs.ready m hm
    | inr hm =>
        rw [List.mem_singleton.mp hm]
        exact hs.outstanding.subset (by simp [hout])
  · rw [tick_quiet h]
    exact { hs with }

theorem mem_of_maybeSend {s : TCPSender} {m : TCPSenderMessage}
    (h : m ∈ s.maybeSend.2.toList) : m ∈ s.readyToSend := by
  rw [TCPSender.maybeSend] at h
  split at h
  · cases h
  · next senderMsg rest hready =>
      rw [hready, List.mem_singleton.mp h]
      exact List.mem_cons_self

theorem Sent.maybeSend {s : TCPSender} {outbound : ByteStream}
    {created : List TCPSenderMessage} (hs : Sent s outbound created) :
    Sent s.maybeSend.1 outbound created := by
  cases hready : s.readyToSend with
  | nil => simpa only [TCPSender.maybeSend, hready] using hs
  | cons senderMsg rest =>
      simp only [TCPSender.maybeSend, hready]
      exact { hs with
        ready := fun m hm => hs.ready m (by rw [hready]; exact List.mem_cons_of_mem _ hm) }

theorem Sent.write {s : TCPSender} {outbound : ByteStream}
    {created : List TCPSenderMessage} (hs : Sent s outbound created)
    (hopen : outbound.isClosed = false) (data : Bytes) :
    Sent s (outbound.push data) created := by
  refine { hs with
    stream := (ByteStream.push_grows hs.stream data).wf, finished := fun hfin => ?_ }
  exact absurd (hs.finished hfin).1 (by simp [hopen])

theorem Sent.close {s : TCPSender} {outbound : ByteStream}
    {created : List TCPSenderMessage} (hs : Sent s outbound created) :
    Sent s outbound.close created :=
  { hs with
    stream := ByteStream.close_wf hs.stream
    finished := fun hfin => ⟨rfl, (hs.finished hfin).2⟩ }

end TCPSender
end Minnow
