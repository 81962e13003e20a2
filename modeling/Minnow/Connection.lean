import Minnow.ReassemblerInsert
import Minnow.TCPReceiver
import Minnow.TCPSenderRuns

/-!
One direction of a connection: a TCPSender with its outbound stream, a TCPReceiver
with its Reassembler and inbound stream, and the messages in flight between them. A
delivery leaves the message in flight, so that it may be delivered again and in any
order; the network may also drop it. A message in flight is its bytes: copies of a
TCPSenderMessage would share the payload Buffer, which `release` empties.
-/

namespace Minnow
open Transition Spans Histories TCPSenderMessage

structure Connection where
  source : SenderSide
  receiver : TCPReceiver := {}
  reassembler : Reassembler := {}
  inbound : ByteStream
  segments : List TCPSenderMessage := []
  acks : List TCPReceiverMessage := []

namespace Connection

inductive Input where
  | write (data : Bytes)
  | close
  | push
  | tick (ms : Nat)
  | transmit
  | deliverSegment (k : Nat)
  | dropSegment (k : Nat)
  | acknowledge
  | deliverAck (k : Nat)
  | dropAck (k : Nat)
  | read (len : Nat)

def deliver (c : Connection) (m : TCPSenderMessage) : Connection :=
  let done := c.receiver.receive m c.reassembler c.inbound
  { c with receiver := done.1, reassembler := done.2.1, inbound := done.2.2 }

/-- The delivery of a message that is not in flight does nothing. -/
def step (c : Connection) : Input → Connection
  | .write data => { c with source := c.source.step (.write data) }
  | .close => { c with source := c.source.step .close }
  | .push => { c with source := c.source.step .push }
  | .tick ms => { c with source := c.source.step (.tick ms) }
  | .transmit =>
      { c with
        source := c.source.step .maybeSend
        segments := c.segments ++ c.source.sender.maybeSend.2.toList }
  | .deliverSegment k =>
      match c.segments[k]? with
      | some m => c.deliver m
      | none => c
  | .dropSegment k => { c with segments := c.segments.eraseIdx k }
  | .acknowledge => { c with acks := c.acks ++ [c.receiver.send c.inbound] }
  | .deliverAck k =>
      match c.acks[k]? with
      | some msg => { c with source := c.source.step (.receive msg) }
      | none => c
  | .dropAck k => { c with acks := c.acks.eraseIdx k }
  | .read len =>
      match c.inbound.pop len with
      | .ok inbound => { c with inbound }
      | .error _ => c

/-- The segments created, and the bytes that entered the outbound stream, entered the
inbound stream, and left it. -/
structure History where
  sent : SenderSide.History := {}
  written : Bytes := []
  delivered : Bytes := []
  consumed : Bytes := []

def note (c : Connection) (input : Input) (h : History) : History :=
  match input with
  | .write data =>
      { h with written := h.written ++
          ByteStream.appended c.source.outbound (c.step (.write data)).source.outbound }
  | .push => { h with sent := SenderSide.note c.source .push h.sent }
  | .deliverSegment k =>
      { h with delivered := h.delivered ++
          ByteStream.appended c.inbound (c.step (.deliverSegment k)).inbound }
  | .read len =>
      { h with consumed := h.consumed ++
          ByteStream.removed c.inbound (c.step (.read len)).inbound }
  | _ => h

def start (isn : Wrap32) (initialRTOms outCapacity inCapacity : Nat) : Connection :=
  { source := SenderSide.start isn initialRTOms outCapacity
    inbound := { capacity := inCapacity } }

def runFrom (isn : Wrap32) (initialRTOms outCapacity inCapacity : Nat)
    (inputs : List Input) : Connection × History :=
  run (observe step note) (start isn initialRTOms outCapacity inCapacity, {}) inputs

/-- What a segment in flight says about the bytes written: `n` is its absolute sequence
number. -/
structure Faithful (isn : Wrap32) (written : Bytes) (m : TCPSenderMessage) (n : Nat) :
    Prop where
  seqno : m.seqno = Wrap32.wrap n isn
  syn : m.syn = true ↔ n = 0
  payload : m.payload <+: written.drop (n - 1)
  within : n - 1 + m.payload.length ≤ written.length

/-- The invariant of a connection. -/
structure Connected (isn : Wrap32) (initialRTOms : Nat) (c : Connection) (h : History) :
    Prop where
  segmented : SenderSide.Segmented isn initialRTOms c.source h.sent
  written : h.sent.popped ++ c.source.outbound.contents = h.written
  inFlight : ∀ m ∈ c.segments, m ∈ h.sent.created
  synchronized : ∀ z ∈ c.receiver.isn, z = isn
  wf : c.reassembler.WF c.inbound
  slices : ∀ p ∈ c.reassembler.substrs, p.SliceOf h.written
  delivered : h.delivered <+: h.written
  counted : h.delivered.length = c.inbound.bytesPushed
  consumed : h.consumed ++ c.inbound.contents = h.delivered

theorem connected_start (isn : Wrap32) (initialRTOms outCapacity inCapacity : Nat) :
    Connected isn initialRTOms (start isn initialRTOms outCapacity inCapacity) {} :=
  ⟨SenderSide.segmented_start isn initialRTOms outCapacity, rfl, by simp [start],
    by simp [start], Reassembler.wf_new (ByteStream.wf_new inCapacity), by simp [start],
    List.nil_prefix, rfl, rfl⟩

theorem Connected.payloads_written {isn : Wrap32} {initialRTOms : Nat} {c : Connection}
    {h : History} (hc : Connected isn initialRTOms c h) :
    payloads h.sent.created <+: h.written := by
  rw [hc.segmented.payloads, ← hc.written]
  exact List.prefix_append _ _

theorem Faithful.mono {isn : Wrap32} {written written' : Bytes} {m : TCPSenderMessage} {n : Nat}
    (hf : Faithful isn written m n) (hmore : written <+: written') : Faithful isn written' m n :=
  ⟨hf.seqno, hf.syn, hf.payload.trans (hmore.drop _), hf.within.trans hmore.length_le⟩

/-- A segment created says something about the bytes sent. -/
theorem Connected.faithful_at {isn : Wrap32} {initialRTOms : Nat} {c : Connection}
    {h : History} (hc : Connected isn initialRTOms c h) {pre post : List TCPSenderMessage}
    {m : TCPSenderMessage} (hsplit : h.sent.created = pre ++ m :: post) :
    Faithful isn (payloads h.sent.created) m (seqLen pre) := by
  have hfollows := hc.segmented.sent.follows
  rw [hc.segmented.isn] at hfollows
  have hm := hfollows pre m post hsplit
  have hpre : Each (TCPSender.Follows isn) pre := by
    rw [hsplit] at hfollows
    exact hfollows.of_append
  have hlen : (pre = [] → seqLen pre = 0) ∧ (pre ≠ [] → seqLen pre ≠ 0) ∧
      seqLen pre - 1 = (payloads pre).length := by
    by_cases hnil : pre = []
    · simp [hnil]
    · have hopen : pre.any (·.fin) = false := by simpa using hm.unfinished
      have := TCPSender.seqLen_of_follows hpre hnil
      rw [hopen, Bool.toNat_false] at this
      refine ⟨fun h => absurd h hnil, fun _ => by omega, by omega⟩
  rw [hsplit, payloads_append, payloads_cons]
  refine ⟨hm.seqno, ?_, ?_, ?_⟩
  · rw [hm.syn]
    exact ⟨hlen.1, fun hzero => by_contra fun hnil => hlen.2.1 hnil hzero⟩
  · rw [hlen.2.2, List.drop_left]
    exact List.prefix_append _ _
  · rw [hlen.2.2]
    simp only [List.length_append]
    omega

theorem Connected.faithful_sent {isn : Wrap32} {initialRTOms : Nat} {c : Connection}
    {h : History} (hc : Connected isn initialRTOms c h) {m : TCPSenderMessage}
    (hm : m ∈ h.sent.created) : ∃ n, Faithful isn (payloads h.sent.created) m n := by
  obtain ⟨pre, post, hsplit⟩ := List.append_of_mem hm
  exact ⟨_, hc.faithful_at hsplit⟩

theorem Connected.faithful {isn : Wrap32} {initialRTOms : Nat} {c : Connection}
    {h : History} (hc : Connected isn initialRTOms c h) {m : TCPSenderMessage}
    (hm : m ∈ h.sent.created) : ∃ n, Faithful isn h.written m n := by
  obtain ⟨n, hf⟩ := hc.faithful_sent hm
  exact ⟨n, hf.mono hc.payloads_written⟩

/-- A step of the sending side, with whatever it puts in flight. -/
theorem Connected.source {isn : Wrap32} {initialRTOms : Nat} {c : Connection}
    {h h' : History} (hc : Connected isn initialRTOms c h) (input : SenderSide.Input)
    {segments : List TCPSenderMessage}
    (hsent : h'.sent = SenderSide.note c.source input h.sent)
    (hwritten : h'.sent.popped ++ (c.source.step input).outbound.contents = h'.written)
    (hmore : h.written <+: h'.written) (hdelivered : h'.delivered = h.delivered)
    (hconsumed : h'.consumed = h.consumed)
    (hsegments : ∀ m ∈ segments, m ∈ h.sent.created) :
    Connected isn initialRTOms { c with source := c.source.step input, segments } h' := by
  refine ⟨?_, hwritten, ?_, hc.synchronized, hc.wf, ?_, ?_, ?_, ?_⟩
  · rw [hsent]
    exact SenderSide.segmented_step hc.segmented input
  · intro m hm
    rw [hsent]
    exact (SenderSide.created_grows c.source input h.sent).subset (hsegments m hm)
  · intro p hp
    exact sliceOf_mono (hc.slices p hp) hmore
  · rw [hdelivered]
    exact hc.delivered.trans hmore
  · rw [hdelivered]
    exact hc.counted
  · rw [hdelivered, hconsumed]
    exact hc.consumed

/-- A step of the sending side that writes nothing. -/
theorem Connected.source_same {isn : Wrap32} {initialRTOms : Nat} {c : Connection}
    {h : History} (hc : Connected isn initialRTOms c h) (input : SenderSide.Input)
    (hinput : ∀ data, input ≠ .write data) {segments : List TCPSenderMessage}
    (hsegments : ∀ m ∈ segments, m ∈ h.sent.created) :
    Connected isn initialRTOms { c with source := c.source.step input, segments }
      { h with sent := SenderSide.note c.source input h.sent } := by
  refine hc.source input rfl ?_ List.prefix_rfl rfl rfl hsegments
  rw [SenderSide.popped_append_contents hc.segmented.sent hinput]
  exact hc.written

theorem Connected.source_write {isn : Wrap32} {initialRTOms : Nat} {c : Connection}
    {h : History} (hc : Connected isn initialRTOms c h) (data : Bytes) :
    Connected isn initialRTOms (c.step (.write data)) (note c (.write data) h) := by
  refine hc.source (.write data) rfl ?_ (List.prefix_append _ _) rfl rfl hc.inFlight
  rw [SenderSide.step_write hc.segmented.sent, ← List.append_assoc]
  exact congrArg (· ++ _) hc.written

theorem Connected.synchronize {isn : Wrap32} {initialRTOms : Nat} {c : Connection}
    {h : History} (hc : Connected isn initialRTOms c h) {m : TCPSenderMessage}
    (hm : m ∈ h.sent.created) : ∀ z ∈ (c.receiver.synchronize m).isn, z = isn := by
  obtain ⟨n, hf⟩ := hc.faithful hm
  intro z hz
  rw [TCPReceiver.synchronize] at hz
  split at hz
  · next hsyn =>
      rw [Option.mem_def, Option.some.injEq, hf.seqno, hf.syn.mp hsyn] at hz
      rw [← hz]
      exact congrArg Wrap32.mk (UInt32.add_zero _)
  · exact hc.synchronized z hz

theorem deliver_receiver (c : Connection) (m : TCPSenderMessage) :
    (c.deliver m).receiver = c.receiver.synchronize m := by
  simp only [deliver, TCPReceiver.receive]
  split <;> rfl

/-- A segment is inserted where its sequence number says. -/
theorem Connected.firstIndex_eq {isn : Wrap32} {initialRTOms : Nat} {c : Connection}
    {h : History} (hc : Connected isn initialRTOms c h) (hbound : h.written.length < 2 ^ 31 - 2)
    {m : TCPSenderMessage} {n : Nat} (hf : Faithful isn h.written m n) :
    TCPReceiver.firstIndex m isn c.inbound = n - 1 := by
  have hpushed : c.inbound.bytesPushed ≤ h.written.length := by
    rw [← hc.counted]
    exact hc.delivered.length_le
  have hwithin := hf.within
  rw [TCPReceiver.firstIndex]
  by_cases hzero : n = 0
  · simp only [hf.syn.mpr hzero, if_true, hzero]
  · have hsyn : m.syn = false := Bool.eq_false_iff.mpr (mt hf.syn.mp hzero)
    rw [hf.seqno, Wrap32.unwrap_wrap isn (by omega) (by omega) (by omega), hsyn]
    simp only [Bool.false_eq_true, if_false, u64]
    omega

/-- What a delivery may do: nothing, or the payload is inserted where it belongs. -/
def Delivers (isn : Wrap32) (written : Bytes) (c : Connection) (m : TCPSenderMessage) : Prop :=
  (c.deliver m).reassembler = c.reassembler ∧ (c.deliver m).inbound = c.inbound ∨
    (c.receiver.synchronize m).isn = some isn ∧ ∃ new,
      Reassembler.Inserted c.reassembler (TCPReceiver.firstIndex m isn c.inbound) m.payload
        m.fin c.inbound (c.deliver m).reassembler (c.deliver m).inbound new ∧
      m.payload <+: written.drop (TCPReceiver.firstIndex m isn c.inbound)

/-- Once a SYN has arrived a segment is inserted. -/
theorem Connected.inserted {isn : Wrap32} {initialRTOms : Nat} {c : Connection} {h : History}
    (hc : Connected isn initialRTOms c h) {m : TCPSenderMessage}
    (hisn : (c.receiver.synchronize m).isn = some isn)
    (hsum : TCPReceiver.firstIndex m isn c.inbound + m.payload.length < 2 ^ 64) :
    ∃ new, Reassembler.Inserted c.reassembler (TCPReceiver.firstIndex m isn c.inbound) m.payload
      m.fin c.inbound (c.deliver m).reassembler (c.deliver m).inbound new := by
  obtain ⟨new, hins⟩ := Reassembler.insert_spec hc.wf _ m.payload m.fin fun _ => hsum
  exact ⟨new, by simpa only [deliver, TCPReceiver.receive, hisn] using hins⟩

/-- Nothing happens before a SYN has arrived. -/
theorem Connected.delivers {isn : Wrap32} {initialRTOms : Nat} {c : Connection} {h : History}
    (hc : Connected isn initialRTOms c h) {m : TCPSenderMessage}
    (hsync : ∀ z ∈ (c.receiver.synchronize m).isn, z = isn)
    (hpayload : m.payload <+: h.written.drop (TCPReceiver.firstIndex m isn c.inbound))
    (hsum : TCPReceiver.firstIndex m isn c.inbound + m.payload.length < 2 ^ 64) :
    Delivers isn h.written c m := by
  cases hisn : (c.receiver.synchronize m).isn with
  | none =>
      left
      simp only [deliver, TCPReceiver.receive, hisn, and_self]
  | some z =>
      right
      obtain rfl := hsync z hisn
      obtain ⟨new, hins⟩ := hc.inserted hisn hsum
      exact ⟨hisn, new, hins, hpayload⟩

theorem deliver_cases {isn : Wrap32} {initialRTOms : Nat} {c : Connection} {h : History}
    (hc : Connected isn initialRTOms c h) (hbound : h.written.length < 2 ^ 31 - 2)
    {m : TCPSenderMessage} (hm : m ∈ h.sent.created) : Delivers isn h.written c m := by
  obtain ⟨n, hf⟩ := hc.faithful hm
  have hwithin := hf.within
  have hindex := hc.firstIndex_eq hbound hf
  refine hc.delivers (hc.synchronize hm) ?_ ?_
  · rw [hindex]
    exact hf.payload
  · rw [hindex]
    omega

/-- A delivery keeps the invariant. -/
theorem Connected.delivered_by {isn : Wrap32} {initialRTOms : Nat} {c : Connection}
    {h : History} (hc : Connected isn initialRTOms c h) {m : TCPSenderMessage}
    (hsynchronized : ∀ z ∈ (c.receiver.synchronize m).isn, z = isn)
    (hdelivers : Delivers isn h.written c m) :
    Connected isn initialRTOms (c.deliver m)
      { h with delivered := h.delivered ++
          ByteStream.appended c.inbound (c.deliver m).inbound } := by
  have hsync : ∀ z ∈ (c.deliver m).receiver.isn, z = isn := by
    rw [deliver_receiver]
    exact hsynchronized
  cases hdelivers with
  | inl hsame =>
      obtain ⟨hreassembler, hinbound⟩ := hsame
      have hnone : ByteStream.appended c.inbound (c.deliver m).inbound = [] := by
        rw [hinbound, ByteStream.appended, List.drop_length]
      rw [hnone, List.append_nil]
      exact { hc with
        synchronized := hsync
        wf := by rw [hreassembler, hinbound]; exact hc.wf
        slices := by rw [hreassembler]; exact hc.slices
        counted := by rw [hinbound]; exact hc.counted
        consumed := by rw [hinbound]; exact hc.consumed }
  | inr hinserted =>
      obtain ⟨-, new, hins, hpayload⟩ := hinserted
      obtain ⟨hslices, hnew⟩ := hins.slices h.written hc.slices hpayload
      rw [hins.grows.appended_eq]
      exact { hc with
        synchronized := hsync
        wf := hins.wf
        slices := hslices
        delivered := prefix_extend hc.delivered (by rwa [hc.counted])
        counted := by rw [List.length_append, hc.counted, hins.grows.pushed]
        consumed := by rw [hins.grows.contents, ← List.append_assoc, hc.consumed] }

theorem connected_deliver {isn : Wrap32} {initialRTOms : Nat} {c : Connection} {h : History}
    (hc : Connected isn initialRTOms c h) (hbound : h.written.length < 2 ^ 31 - 2)
    {m : TCPSenderMessage} (hm : m ∈ h.sent.created) :
    Connected isn initialRTOms (c.deliver m)
      { h with delivered := h.delivered ++
          ByteStream.appended c.inbound (c.deliver m).inbound } :=
  hc.delivered_by (hc.synchronize hm) (deliver_cases hc hbound hm)

/-- A delivery is that of a segment in flight, or nothing. -/
theorem deliverSegment_cases (c : Connection) (k : Nat) (h : History) :
    c.step (.deliverSegment k) = c ∧ note c (.deliverSegment k) h = h ∨
    ∃ m, c.segments[k]? = some m ∧ c.step (.deliverSegment k) = c.deliver m ∧
      note c (.deliverSegment k) h = { h with
        delivered := h.delivered ++ ByteStream.appended c.inbound (c.deliver m).inbound } := by
  cases hk : c.segments[k]? with
  | none =>
      have hstep : c.step (.deliverSegment k) = c := by simp only [step, hk]
      refine Or.inl ⟨hstep, ?_⟩
      simp only [note, hstep, ByteStream.appended, List.drop_length, List.append_nil]
  | some m =>
      have hstep : c.step (.deliverSegment k) = c.deliver m := by simp only [step, hk]
      exact Or.inr ⟨m, rfl, hstep, by simp only [note, hstep]⟩

theorem deliverAck_cases (c : Connection) (k : Nat) :
    c.step (.deliverAck k) = c ∨
    ∃ msg ∈ c.acks,
      c.step (.deliverAck k) = { c with source := c.source.step (.receive msg) } := by
  cases hk : c.acks[k]? with
  | none => exact Or.inl (by simp only [step, hk])
  | some msg => exact Or.inr ⟨msg, List.mem_of_getElem? hk, by simp only [step, hk]⟩

/-- A read takes bytes that are buffered, or nothing. -/
theorem read_cases {c : Connection} (hwf : c.inbound.WF) (len : Nat) (h : History) :
    c.step (.read len) = c ∧ note c (.read len) h = h ∨
    ∃ inbound, c.inbound.Shrinks inbound len ∧ c.step (.read len) = { c with inbound } ∧
      note c (.read len) h =
        { h with consumed := h.consumed ++ c.inbound.contents.take len } := by
  by_cases hlen : len ≤ c.inbound.bytesBuffered
  · obtain ⟨inbound, hpop, hs⟩ := ByteStream.pop_ok hwf hlen
    have hstep : c.step (.read len) = { c with inbound } := by simp only [step, hpop]
    exact Or.inr ⟨inbound, hs, hstep, by simp only [note, hstep, hs.removed_eq]⟩
  · have hstep : c.step (.read len) = c := by
      simp only [step, ByteStream.pop_error (Nat.not_le.mp hlen)]
    refine Or.inl ⟨hstep, ?_⟩
    simp only [note, hstep, ByteStream.removed, Nat.sub_self, List.take_zero, List.append_nil]

theorem connected_step {isn : Wrap32} {initialRTOms : Nat} {c : Connection} {h : History}
    (hc : Connected isn initialRTOms c h) (hbound : h.written.length < 2 ^ 31 - 2)
    (input : Input) : Connected isn initialRTOms (c.step input) (note c input h) := by
  cases input with
  | write data => exact hc.source_write data
  | close => exact hc.source_same _ (by simp) hc.inFlight
  | push => exact hc.source_same _ (by simp) hc.inFlight
  | tick ms => exact hc.source_same _ (by simp) hc.inFlight
  | transmit =>
      refine hc.source_same .maybeSend (by simp) ?_
      intro m hm
      cases List.mem_append.mp hm with
      | inl hm => exact hc.inFlight m hm
      | inr hm => exact hc.segmented.sent.ready m (TCPSender.mem_of_maybeSend hm)
  | deliverSegment k =>
      cases deliverSegment_cases c k h with
      | inl hidle =>
          obtain ⟨hstep, hnote⟩ := hidle
          rw [hstep, hnote]
          exact hc
      | inr hdelivers =>
          obtain ⟨m, hk, hstep, hnote⟩ := hdelivers
          rw [hstep, hnote]
          exact connected_deliver hc hbound (hc.inFlight m (List.mem_of_getElem? hk))
  | dropSegment k =>
      exact { hc with inFlight := fun m hm => hc.inFlight m (List.mem_of_mem_eraseIdx hm) }
  | acknowledge => exact { hc with }
  | deliverAck k =>
      cases deliverAck_cases c k with
      | inl hstep =>
          rw [hstep]
          exact hc
      | inr hdelivers =>
          obtain ⟨msg, -, hstep⟩ := hdelivers
          rw [hstep]
          exact hc.source_same (.receive msg) (by simp) hc.inFlight
  | dropAck k => exact { hc with }
  | read len =>
      cases read_cases hc.wf.stream len h with
      | inl hidle =>
          obtain ⟨hstep, hnote⟩ := hidle
          rw [hstep, hnote]
          exact hc
      | inr hreads =>
          obtain ⟨inbound, hs, hstep, hnote⟩ := hreads
          rw [hstep, hnote]
          exact { hc with
            wf := hc.wf.shrinks hs
            counted := by rw [hs.pushed]; exact hc.counted
            consumed := by
              rw [hs.contents, List.append_assoc, List.take_append_drop]
              exact hc.consumed }

theorem written_step_le (c : Connection) (input : Input) (h : History) :
    h.written.length ≤ (note c input h).written.length := by
  cases input with
  | write data => simp [note]
  | _ => exact Nat.le_refl _

/-- Every run that writes fewer than `2 ^ 31 - 2` bytes keeps the invariant. -/
theorem connected_run (isn : Wrap32) (initialRTOms outCapacity inCapacity : Nat)
    {inputs : List Input}
    (hbound : (runFrom isn initialRTOms outCapacity inCapacity inputs).2.written.length
      < 2 ^ 31 - 2) :
    Connected isn initialRTOms (runFrom isn initialRTOms outCapacity inCapacity inputs).1
      (runFrom isn initialRTOms outCapacity inCapacity inputs).2 := by
  refine run_invariant_always (observe step note)
    (P := fun c => c.2.written.length < 2 ^ 31 - 2 → Connected isn initialRTOms c.1 c.2)
    (fun _ => connected_start isn initialRTOms outCapacity inCapacity) ?_ inputs hbound
  intro c input hc hlt
  have hbefore := (written_step_le c.1 input c.2).trans_lt hlt
  exact connected_step (hc hbefore) hbefore input

/-- The bytes that entered the inbound stream are a prefix of the bytes written, and the
bytes read followed by those still buffered are that prefix. -/
theorem delivered_is_prefix_of_written (isn : Wrap32)
    (initialRTOms outCapacity inCapacity : Nat) {inputs : List Input}
    (hbound : (runFrom isn initialRTOms outCapacity inCapacity inputs).2.written.length
      < 2 ^ 31 - 2) :
    let c := runFrom isn initialRTOms outCapacity inCapacity inputs
    c.2.delivered <+: c.2.written ∧ c.2.consumed ++ c.1.inbound.contents = c.2.delivered :=
  have hc := connected_run isn initialRTOms outCapacity inCapacity hbound
  ⟨hc.delivered, hc.consumed⟩

/-- Duplicated and reordered segments of a two-byte stream, the first byte read early. -/
theorem delivered_is_prefix_of_written_reordered :
    let inputs := [.write [10], .push, .transmit, .deliverSegment 0, .acknowledge,
      .deliverAck 0, .push, .write [20], .push, .transmit, .transmit, .deliverSegment 2,
      .deliverSegment 1, .deliverSegment 1, .read 1]
    let c := runFrom ⟨4294967295⟩ 1000 8 8 inputs
    c.2.delivered <+: c.2.written ∧ c.2.consumed ++ c.1.inbound.contents = c.2.delivered :=
  delivered_is_prefix_of_written ⟨4294967295⟩ 1000 8 8 (by decide +kernel)

end Connection
end Minnow
