import Minnow.AdapterCarriers
import Minnow.TCPPeerTraffic

/-!
What the rules of a socket do. The bytes that its owner has written and read are those of the
streams of a TCPPeer that is driven by the inputs that a TCPPeer may get, and what the socket
queues and writes to the network are segments that the TCPPeer has handed out.
-/

namespace Minnow
open Throwing Transition TCPPeer
namespace MinnowSocket

variable {α β : Type} {a : Adapter α β}

/-- The segment has been handed out, whatever its ports and checksum were then. -/
def HandedOut (t : Traffic) (seg : TCPSegment) : Prop := ∃ s ∈ t.segments, s.bare = seg

theorem HandedOut.mono {t u : Traffic} {segs : List TCPSegment}
    (h : u.segments = t.segments ++ segs) (seg : TCPSegment) (hseg : HandedOut t seg) :
    HandedOut u seg := by
  obtain ⟨s, hs, hbare⟩ := hseg
  exact ⟨s, h ▸ List.mem_append_left segs hs, hbare⟩

/-- From `begin` on, the socket has driven its TCPPeer with permitted inputs, with the traffic
`t`. -/
structure Drives (k : a.Carrier) (offered : TCPSegment → Prop) (begin : TCPPeer × Traffic)
    (w : MinnowSocket α β) (t : Traffic) : Prop where
  leads : Leads drive (Permitted offered) begin (w.tcp, t)
  sending : Sending w.tcp
  inbound : w.tcp.inboundStream.WF
  small : Small t
  counted : Counted (w.tcp, t)
  received : w.threadData.received = t.written
  sent : w.threadData.sent = t.consumed
  outgoing : w.outgoingSegments ⊆ t.segments
  keeps : k.Keeps (HandedOut t) w.datagramAdapter

variable {k : a.Carrier} {offered : TCPSegment → Prop} {begin : TCPPeer × Traffic}
  {w w' : MinnowSocket α β} {t : Traffic}

/-- A socket that drives a TCPPeer may be looked at from now on. -/
theorem Drives.restart (h : Drives k offered begin w t) (offered' : TCPSegment → Prop) :
    Drives k offered' (w.tcp, t) w t :=
  { h with leads := Leads.refl _ }

/-- The socket gives its TCPPeer an input. -/
theorem Drives.step (h : Drives k offered begin w t) {input : Input}
    (hok : Permitted offered (w.tcp, t) input) (htcp : w'.tcp = w.tcp.step input)
    (hreceived : w'.threadData.received = w.threadData.received ++ w.tcp.entered input)
    (hsent : w'.threadData.sent = w.threadData.sent ++ w.tcp.left input)
    (houtgoing : w'.outgoingSegments = w.outgoingSegments)
    (hadapter : w'.datagramAdapter = w.datagramAdapter) : ∃ u, Drives k offered begin w' u := by
  have hstep : Leads drive (Permitted offered) (w.tcp, t)
      (w.tcp.step input, noteTraffic w.tcp input t) := (Leads.refl _).snoc hok
  have hmore : (noteTraffic w.tcp input t).segments =
      t.segments ++ (w.tcp.handed input).map (·.segment) := List.map_append
  refine ⟨noteTraffic w.tcp input t, ?_, ?_, ?_, h.small.leads h.sending hstep, ?_, ?_, ?_, ?_, ?_⟩
  · rw [htcp]
    exact h.leads.trans hstep
  · rw [htcp]
    exact h.sending.leads hstep
  · rw [htcp]
    exact (advances_step h.inbound input).wf
  · rw [htcp]
    exact h.counted.leads h.sending hstep
  · rw [hreceived, h.received]
    rfl
  · rw [hsent, h.sent]
    rfl
  · rw [houtgoing, hmore]
    exact List.Subset.trans h.outgoing (List.subset_append_left _ _)
  · rw [hadapter]
    exact k.mono (HandedOut.mono hmore) h.keeps

/-- What taking the segments leaves. -/
structure Collected (w w' : MinnowSocket α β) : Prop where
  idle : Idle w'.tcp
  inbound : w'.tcp.inboundStream = w.tcp.inboundStream
  closed : w'.tcp.outboundStream.isClosed = w.tcp.outboundStream.isClosed
  same : w' = { w with tcp := w'.tcp, outgoingSegments := w'.outgoingSegments }

theorem Drives.collect (h : Drives k offered begin w t) (hcollect : w.collectSegments = .ok w') :
    (∃ u, Drives k offered begin w' u) ∧ Collected w w' := by
  obtain ⟨q, segs, u, hok, hcollects⟩ :=
    collectLoop_ok h.sending (room_lt_collectTurns w.tcp) t offered
  simp only [collectSegments, hok, ok_bind, pure_eq_ok] at hcollect
  cases hcollect
  refine ⟨⟨u, ?_, ?_, ?_, ?_, ?_, ?_, ?_, ?_, ?_⟩, hcollects.idle, hcollects.inbound,
    hcollects.closed, rfl⟩
  · exact h.leads.trans hcollects.leads
  · exact h.sending.leads hcollects.leads
  · exact hcollects.inbound ▸ h.inbound
  · exact h.small.leads h.sending hcollects.leads
  · exact h.counted.leads h.sending hcollects.leads
  · rw [hcollects.streams]
    exact h.received
  · rw [hcollects.streams]
    exact h.sent
  · rw [hcollects.segments]
    exact List.append_subset.mpr ⟨List.Subset.trans h.outgoing (List.subset_append_left _ _),
      List.subset_append_right _ _⟩
  · exact k.mono (HandedOut.mono hcollects.segments) h.keeps

/-- How the two directions of a socket end, given the rules that have been cancelled. -/
structure Closing (faulty : Prop) (cancelled : RuleId → Prop) (w : MinnowSocket α β) : Prop where
  ownerOpen : w.threadData.fd.closed = false
  outbound : w.tcp.outboundStream.isClosed = w.outboundShutdown
  outboundEnded : w.outboundShutdown = true ↔ w.threadData.fd.eof = true ∨ cancelled 1
  inbound : w.threadData.shutdown = w.inboundShutdown
  inboundEnded : w.inboundShutdown = true → Over w.tcp.inboundStream
  networkLost : cancelled 0 → faulty
  ownerEnded : cancelled 1 → w.threadData.fd.eof = true ∨ faulty
  readerLost : cancelled 2 → faulty
  networkBlocked : cancelled 3 → faulty

variable {faulty : Prop} {cancelled : RuleId → Prop}

/-- Without a fault the outbound stream is closed only for the owner. -/
theorem Closing.ownerClosed (h : Closing False cancelled w)
    (hclosed : w.tcp.outboundStream.isClosed = true) : w.threadData.fd.eof = true := by
  rw [h.outbound] at hclosed
  exact (h.outboundEnded.mp hclosed).elim id
    fun hcancelled => (h.ownerEnded hcancelled).resolve_right id

/-- What leaves the owner's socket and both shutdowns as they are. -/
theorem Closing.moves (h : Closing faulty cancelled w) (hdata : w'.threadData = w.threadData)
    (hout : w'.outboundShutdown = w.outboundShutdown)
    (hin : w'.inboundShutdown = w.inboundShutdown)
    (hclosed : w'.tcp.outboundStream.isClosed = w.tcp.outboundStream.isClosed)
    (hover : Over w.tcp.inboundStream → Over w'.tcp.inboundStream) :
    Closing faulty cancelled w' where
  ownerOpen := by rw [hdata]; exact h.ownerOpen
  outbound := by rw [hclosed, hout]; exact h.outbound
  outboundEnded := by rw [hout, hdata]; exact h.outboundEnded
  inbound := by rw [hdata, hin]; exact h.inbound
  inboundEnded hshut := hover (h.inboundEnded (hin ▸ hshut))
  networkLost := h.networkLost
  ownerEnded := by rw [hdata]; exact h.ownerEnded
  readerLost := h.readerLost
  networkBlocked := h.networkBlocked

/-- A rule that does nothing when it is cancelled. -/
theorem Closing.cancel (h : Closing faulty cancelled w) {rule : RuleId} (hrule : rule ≠ 1)
    (hwhy : faulty) : Closing faulty (fun r => cancelled r ∨ r = rule) w where
  ownerOpen := h.ownerOpen
  outbound := h.outbound
  outboundEnded := by
    rw [or_iff_left hrule.symm]
    exact h.outboundEnded
  inbound := h.inbound
  inboundEnded := h.inboundEnded
  networkLost _ := hwhy
  ownerEnded _ := Or.inr hwhy
  readerLost _ := hwhy
  networkBlocked _ := hwhy

/-- The invariant of the rules. -/
structure Serving (k : a.Carrier) (offered : TCPSegment → Prop) (begin : TCPPeer × Traffic)
    (faulty : Prop) (cancelled : RuleId → Prop) (w : MinnowSocket α β) : Prop where
  drives : ∃ t, Drives k offered begin w t
  idle : Idle w.tcp
  closing : Closing faulty cancelled w

variable {flags : List RuleId}

theorem Serving.collect (h : ∃ t, Drives k offered begin w t)
    (hclosing : Closing faulty cancelled w) (hcollect : w.collectSegments = .ok w') :
    Serving k offered begin faulty cancelled w' ∧ w'.answers = w.answers := by
  obtain ⟨t, ht⟩ := h
  obtain ⟨hdrives, hcollected⟩ := ht.collect hcollect
  have hsame := hcollected.same
  refine ⟨⟨hdrives, hcollected.idle, ?_⟩, by rw [hsame]⟩
  refine hclosing.moves (by rw [hsame]) (by rw [hsame]) (by rw [hsame]) hcollected.closed ?_
  rw [hcollected.inbound]
  exact id

/-- The socket gives its TCPPeer a segment or a tick. -/
theorem Serving.give (h : Serving k offered begin faulty cancelled w) {input : Input}
    (hinput : (∃ seg, input = .receive seg ∧ offered seg) ∨ ∃ ms, input = .tick ms)
    (hcollect : { w with tcp := w.tcp.step input }.collectSegments = .ok w') :
    Serving k offered begin faulty cancelled w' ∧ w'.answers = w.answers := by
  obtain ⟨⟨t, ht⟩, -, hclosing⟩ := h
  have hok : Permitted offered (w.tcp, t) input ∧ w.tcp.entered input = [] ∧
      w.tcp.left input = [] ∧ (w.tcp.step input).outboundStream = w.tcp.outboundStream := by
    cases hinput with
    | inl hreceive =>
        obtain ⟨seg, rfl, hseg⟩ := hreceive
        refine ⟨hseg, rfl, rfl, ?_⟩
        rw [TCPPeer.step, TCPPeer.receive]
        split <;> rfl
    | inr htick =>
        obtain ⟨ms, rfl⟩ := htick
        exact ⟨trivial, rfl, rfl, rfl⟩
  obtain ⟨hok, hentered, hleft, houtbound⟩ := hok
  refine Serving.collect (w := { w with tcp := w.tcp.step input })
    (ht.step hok rfl ?_ ?_ rfl rfl) ?_ hcollect
  · rw [hentered, List.append_nil]
  · rw [hleft, List.append_nil]
  · exact hclosing.moves rfl rfl rfl (congrArg ByteStream.isClosed houtbound)
      fun hover => over_step ht.inbound hover input

theorem Serving.receiveSegment (h : Serving k offered begin faulty cancelled w)
    (hoffered : ∀ d ∈ k.offered w.answers.adapterRead, ∀ seg, k.carried d seg → offered seg)
    (hcall : (MinnowSocket.receiveSegment a 0).callback w = .ok (w', flags)) :
    Serving k offered begin faulty cancelled w' ∧ w'.answers = w.answers ∧ flags = [] := by
  obtain ⟨⟨datagramAdapter, seg⟩, hread, hcall⟩ := bind_eq_ok.mp hcall
  obtain ⟨t, ht⟩ := h.drives
  obtain ⟨hkeeps, hcarried⟩ := k.read ht.keeps hread
  have hbefore : Serving k offered begin faulty cancelled { w with datagramAdapter } :=
    ⟨⟨t, { ht with keeps := hkeeps }⟩, h.idle, { h.closing with }⟩
  have hacked (w₁ : MinnowSocket α β) (fullyAcked : Bool)
      (hafter : Serving k offered begin faulty cancelled w₁) :
      Serving k offered begin faulty cancelled { w₁ with fullyAcked } := by
    obtain ⟨⟨u, hu⟩, hidle, hclosing⟩ := hafter
    exact ⟨⟨u, { hu with }⟩, hidle, { hclosing with }⟩
  cases seg with
  | none =>
      cases hcall
      exact ⟨hacked _ _ hbefore, rfl, rfl⟩
  | some seg =>
      obtain ⟨d, hd, hseg⟩ := hcarried seg rfl
      obtain ⟨w₁, hreceived, hcall⟩ := bind_eq_ok.mp hcall
      cases hcall
      obtain ⟨hafter, hanswers⟩ :=
        hbefore.give (Or.inl ⟨seg, rfl, hoffered d hd seg hseg⟩) hreceived
      exact ⟨hacked _ _ hafter, hanswers, rfl⟩

/-- The owner's bytes enter the outbound stream. -/
theorem Drives.write (h : Drives k offered begin w t) {threadData : Channel} {data : Bytes}
    (hopen : w.tcp.outboundStream.isClosed = false)
    (hgives : w.threadData.Gives threadData data)
    (hfits : data.length ≤ w.tcp.outboundStream.availableCapacity) :
    ∃ u, Drives k offered begin { w with threadData, tcp := w.tcp.step (.write data) } u := by
  obtain ⟨created, hsent⟩ := h.sending
  have hwf : w.tcp.outboundStream.WF := hsent.stream
  have hgrows := ByteStream.push_grows hwf data
  rw [List.take_of_length_le hfits] at hgrows
  have hentered : w.tcp.entered (.write data) = data := hgrows.appended_eq
  have hok : Permitted offered (w.tcp, t) (.write data) := hopen
  refine h.step hok rfl ?_ ?_ rfl rfl
  · rw [hentered]
    exact hgives.received
  · exact hgives.sent.trans (List.append_nil _).symm

/-- A push comes after the write, or a close with it at the end. -/
theorem Drives.pushes (h : Drives k offered begin w t) (eof : Bool) {tcp : TCPPeer}
    (hpush : (if eof then w.tcp.closed else w.tcp).push = .ok tcp) :
    (∃ u, Drives k offered begin { w with tcp } u) ∧
      tcp.outboundStream.isClosed = (w.tcp.outboundStream.isClosed || eof) ∧
      tcp.inboundStream = w.tcp.inboundStream := by
  have hclosed : Sending (w.tcp.step (.close false)) := h.sending.step fun _ h => by cases h
  obtain ⟨p, input, hp, hsending, hok, hstep, hentered, hleft, hends, hinbound⟩ :
      ∃ (p : TCPPeer) (input : Input), (if eof then w.tcp.closed else w.tcp) = p ∧ Sending p ∧
        Permitted offered (w.tcp, t) input ∧ w.tcp.step input = p.pushed ∧
        w.tcp.entered input = [] ∧ w.tcp.left input = [] ∧
        p.outboundStream.isClosed = (w.tcp.outboundStream.isClosed || eof) ∧
        p.inboundStream = w.tcp.inboundStream := by
    cases eof with
    | true =>
        exact ⟨_, .close true, rfl, hclosed, trivial, rfl, rfl, rfl, (Bool.or_true _).symm, rfl⟩
    | false =>
        exact ⟨_, .push, rfl, h.sending, trivial, rfl, rfl, rfl, (Bool.or_false _).symm, rfl⟩
  rw [hp] at hpush
  have htcp : p.pushed = tcp := by rw [pushed, hpush]
  refine ⟨h.step hok (hstep.trans htcp).symm ?_ ?_ rfl rfl, ?_, ?_⟩
  · rw [hentered, List.append_nil]
  · rw [hleft, List.append_nil]
  · rw [← htcp, hsending.pushed_closed, hends]
  · rw [← htcp, (pushed_inbound _).2, hinbound]

theorem Serving.pushBytes (h : Serving k offered begin faulty cancelled w)
    (hlive : ¬ cancelled 1) (hend : w.threadData.fd.eof = false)
    (hroom : 0 < w.tcp.outboundStream.availableCapacity) (hready : w.answers.threadRead.Ready)
    (hcall : (MinnowSocket.pushBytes 1).callback w = .ok (w', flags)) :
    Serving k offered begin faulty cancelled w' ∧ w'.answers = w.answers ∧ flags = [] := by
  obtain ⟨⟨threadData, outboundStream⟩, hread, hcall⟩ := bind_eq_ok.mp hcall
  obtain ⟨tcp, hpush, hcall⟩ := bind_eq_ok.mp hcall
  obtain ⟨w₁, hcollect, hcall⟩ := bind_eq_ok.mp hcall
  cases hcall
  obtain ⟨⟨t, ht⟩, -, hclosing⟩ := h
  have hshutdown : w.outboundShutdown = false := by
    rw [Bool.eq_false_iff, Ne, hclosing.outboundEnded, hend]
    exact fun hsome => hsome.elim (fun heof => by cases heof) hlive
  have hopen : w.tcp.outboundStream.isClosed = false := hclosing.outbound.trans hshutdown
  obtain ⟨data, -, hgives, hfits, rfl⟩ := Channel.readInto_push hroom hready hread
  obtain ⟨u, hu⟩ := ht.write hopen hgives hfits
  rw [thrown_eq_ok] at hpush
  have hpush : (if threadData.fd.eof then (w.tcp.step (.write data)).closed
      else w.tcp.step (.write data)).push = .ok tcp := by
    rw [← hpush]
    cases threadData.fd.eof <;> rfl
  obtain ⟨⟨v, hv⟩, hends, hinbound⟩ := hu.pushes threadData.fd.eof hpush
  have hends : tcp.outboundStream.isClosed = threadData.fd.eof := by
    rw [hends]
    change ((w.tcp.outboundStream.push data).isClosed || _) = _
    rw [ByteStream.push_isClosed, hopen, Bool.false_or]
  obtain ⟨hserving, hanswers⟩ := Serving.collect
    (w := { w with threadData, tcp, outboundShutdown := w.outboundShutdown || threadData.fd.eof })
    ⟨v, { hv with }⟩ {
      ownerOpen := hgives.closed.trans hclosing.ownerOpen
      outbound := by rw [hends, hshutdown, Bool.false_or]
      outboundEnded := by rw [hshutdown, Bool.false_or, or_iff_left hlive]
      inbound := hgives.shutdown.trans hclosing.inbound
      inboundEnded := fun hshut => hinbound ▸ hclosing.inboundEnded hshut
      networkLost := hclosing.networkLost
      ownerEnded := fun hcancelled => absurd hcancelled hlive
      readerLost := hclosing.readerLost
      networkBlocked := hclosing.networkBlocked } hcollect
  exact ⟨hserving, hanswers, rfl⟩

/-- The rule that reads from the owner is cancelled. -/
theorem Serving.cancelPushBytes (h : Serving k offered begin faulty cancelled w)
    (hwhy : w.threadData.fd.eof = true ∨ faulty)
    (hcall : (MinnowSocket.pushBytes 1).cancel w = .ok (w', flags)) :
    Serving k offered begin faulty (fun r => cancelled r ∨ r = 1) w' ∧ w'.answers = w.answers ∧
      flags = [] := by
  cases hcall
  obtain ⟨⟨t, ht⟩, hidle, hclosing⟩ := h
  have hok : Permitted offered (w.tcp, t) (.close false) := trivial
  refine ⟨⟨ht.step hok rfl (List.append_nil _).symm (List.append_nil _).symm rfl rfl, hidle, ?_⟩,
    rfl, rfl⟩
  exact {
    ownerOpen := hclosing.ownerOpen
    outbound := rfl
    outboundEnded := iff_of_true rfl (Or.inr (Or.inr rfl))
    inbound := hclosing.inbound
    inboundEnded := hclosing.inboundEnded
    networkLost := fun hcancelled => hclosing.networkLost (by simpa using hcancelled)
    ownerEnded := fun _ => hwhy
    readerLost := fun hcancelled => hclosing.readerLost (by simpa using hcancelled)
    networkBlocked := fun hcancelled => hclosing.networkBlocked (by simpa using hcancelled) }

theorem Serving.readBytes (h : Serving k offered begin faulty cancelled w)
    (hcall : (MinnowSocket.readBytes 2).callback w = .ok (w', flags)) :
    Serving k offered begin faulty cancelled w' ∧ w'.answers = w.answers ∧ flags = [] := by
  obtain ⟨⟨threadData, inboundStream⟩, hwrite, hcall⟩ := bind_eq_ok.mp hcall
  obtain ⟨⟨t, ht⟩, hidle, hclosing⟩ := h
  obtain ⟨n, hn, htakes, hpop⟩ := Channel.writeFrom_pop ht.inbound hwrite
  obtain ⟨s, hpop', hshrinks⟩ := ByteStream.pop_ok ht.inbound (ht.inbound.buffered ▸ hn)
  obtain rfl := Except.ok.inj (hpop'.symm.trans hpop)
  have hstep : w.tcp.step (.pop n) = { w.tcp with inboundStream := s } := by
    simp only [TCPPeer.step, hpop]
  have hleft : w.tcp.left (.pop n) = w.tcp.inboundStream.contents.take n := by
    rw [left, hstep]
    exact hshrinks.removed_eq
  have hok : Permitted offered (w.tcp, t) (.pop n) := trivial
  obtain ⟨u, hu⟩ : ∃ u, Drives k offered begin
      { w with threadData, tcp := { w.tcp with inboundStream := s } } u :=
    ht.step hok hstep.symm (htakes.received.trans (List.append_nil _).symm)
      (htakes.sent.trans (congrArg _ hleft.symm)) rfl rfl
  have hended : w.outboundShutdown = true ↔ threadData.fd.eof = true ∨ cancelled 1 := by
    rw [htakes.eof]
    exact hclosing.outboundEnded
  have howner (hcancelled : cancelled 1) : threadData.fd.eof = true ∨ faulty := by
    rw [htakes.eof]
    exact hclosing.ownerEnded hcancelled
  have hopen := htakes.closed.trans hclosing.ownerOpen
  obtain ⟨herror, hends⟩ := ByteStream.pop_flags hpop
  dsimp only at hcall
  split at hcall
  · next hover =>
      obtain ⟨ended, hshut, hcall⟩ := bind_eq_ok.mp hcall
      cases hcall
      obtain rfl := Channel.shutdownWrite_ok hshut
      refine ⟨⟨⟨u, { hu with }⟩, hidle, ?_⟩, rfl, rfl⟩
      refine ⟨hopen, hclosing.outbound, hended, rfl, fun _ => ?_, hclosing.networkLost, howner,
        hclosing.readerLost, hclosing.networkBlocked⟩
      rw [ByteStream.isFinished, Bool.or_eq_true, Bool.and_eq_true] at hover
      exact hover.imp_left And.left
  · cases hcall
    refine ⟨⟨⟨u, hu⟩, hidle, ?_⟩, rfl, rfl⟩
    refine ⟨hopen, hclosing.outbound, hended, htakes.shutdown.trans hclosing.inbound,
      fun hshut => ?_, hclosing.networkLost, howner, hclosing.readerLost, hclosing.networkBlocked⟩
    exact (hclosing.inboundEnded hshut).imp hends.trans herror.trans

/-- The adapter is given segments that have been handed out. -/
theorem writeSegments_keeps {S : TCPSegment → Prop} {answers : Nat → β} {segs : List TCPSegment}
    {j : Nat} {x x' : α} (hx : k.Keeps S x) (hsegs : ∀ seg ∈ segs, S seg.bare ∧
      seg.senderMessage.payload.length ≤ TCPConfig.maxPayloadSize)
    (hwrite : writeSegments a answers j segs x = .ok x') : k.Keeps S x' := by
  induction segs generalizing j x with
  | nil =>
      cases hwrite
      exact hx
  | cons seg segs ih =>
      obtain ⟨hseg, hrest⟩ := List.forall_mem_cons.mp hsegs
      obtain ⟨x₁, hfirst, hwrite⟩ := bind_eq_ok.mp hwrite
      exact ih (k.write hx hseg.1 hseg.2 hfirst) hrest hwrite

theorem Serving.sendSegments (h : Serving k offered begin faulty cancelled w)
    (hcall : (MinnowSocket.sendSegments a 3).callback w = .ok (w', flags)) :
    Serving k offered begin faulty cancelled w' ∧ w'.answers = w.answers ∧ flags = [] := by
  obtain ⟨datagramAdapter, hwrite, hcall⟩ := bind_eq_ok.mp hcall
  cases hcall
  obtain ⟨⟨t, ht⟩, hidle, hclosing⟩ := h
  have hkeeps := writeSegments_keeps ht.keeps (fun seg hseg =>
    ⟨⟨seg, ht.outgoing hseg, rfl⟩, ht.small seg (ht.outgoing hseg)⟩) hwrite
  exact ⟨⟨⟨t, { ht with outgoing := List.nil_subset _, keeps := hkeeps }⟩, hidle,
    { hclosing with }⟩, rfl, rfl⟩

end MinnowSocket
end Minnow
