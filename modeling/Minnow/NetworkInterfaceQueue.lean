import Minnow.NetworkInterfaceRuns

/-!
The datagrams for one next hop: those handed over, those sent and those waiting. A send
adds its datagram at the end unless a request is pending, a receive moves all that wait
for an address or none.
-/

namespace Minnow
open Transition
namespace NetworkInterface

theorem mem_drainLoop {table : UInt32 → Option (EthernetAddress × Nat)}
    {waiting : List (UInt32 × EthernetFrame)} {ip : UInt32} {ef : EthernetFrame} :
    (ip, ef) ∈ (drainLoop table waiting).1 ↔ ∃ ef₀ address time, (ip, ef₀) ∈ waiting ∧
      table ip = some (address, time) ∧
      ef = { ef₀ with header := { ef₀.header with dst := address } } := by
  induction waiting with
  | nil => simp [drainLoop]
  | cons e rest ih =>
      obtain ⟨ip₀, ef₀⟩ := e
      simp only [drainLoop]
      cases htable : table ip₀ with
      | none =>
          simp only [ih, List.mem_cons, Prod.mk.injEq]
          constructor
          · rintro ⟨ef₁, address, time, hmem, hip, hef⟩
            exact ⟨ef₁, address, time, Or.inr hmem, hip, hef⟩
          · rintro ⟨ef₁, address, time, ⟨rfl, rfl⟩ | hmem, hip, hef⟩
            · simp [htable] at hip
            · exact ⟨ef₁, address, time, hmem, hip, hef⟩
      | some m =>
          simp only [ih, List.mem_cons, Prod.mk.injEq]
          constructor
          · rintro (⟨rfl, rfl⟩ | ⟨ef₁, address, time, hmem, hip, hef⟩)
            · exact ⟨ef₀, m.1, m.2, Or.inl ⟨rfl, rfl⟩, htable, rfl⟩
            · exact ⟨ef₁, address, time, Or.inr hmem, hip, hef⟩
          · rintro ⟨ef₁, address, time, ⟨rfl, rfl⟩ | hmem, hip, hef⟩
            · rw [htable, Option.some.injEq] at hip
              exact Or.inl ⟨rfl, by rw [hef, hip]⟩
            · exact Or.inr ⟨ef₁, address, time, hmem, hip, hef⟩

theorem drainLoop_rest (table : UInt32 → Option (EthernetAddress × Nat))
    (waiting : List (UInt32 × EthernetFrame)) :
    (drainLoop table waiting).2 = waiting.filter fun e => (table e.1).isNone := by
  induction waiting with
  | nil => rfl
  | cons e rest ih =>
      obtain ⟨ip, ef⟩ := e
      cases htable : table ip <;> simp [drainLoop, htable, ih]

/-- The payloads of the frames for one next hop. -/
def framesFor (ip : UInt32) (frames : List (UInt32 × EthernetFrame)) : List (List Bytes) :=
  (frames.filter fun e => e.1 == ip).map fun e => e.2.payload

/-- The datagrams for one next hop, serialized. -/
def handedFor (ip : UInt32) (handed : List (UInt32 × InternetDatagram)) :
    List (Except String (List Bytes)) :=
  (handed.filter fun e => e.1 == ip).map fun e => e.2.serialize

theorem handedFor_singleton (ip nextHop : UInt32) {dgram : InternetDatagram}
    {payload : List Bytes} (hser : dgram.serialize = .ok payload) :
    handedFor ip [(nextHop, dgram)] =
      (if nextHop = ip then [payload] else []).map Except.ok := by
  by_cases hip : nextHop = ip <;> simp [handedFor, hip, hser]

@[simp] theorem framesFor_nil (ip : UInt32) : framesFor ip [] = [] := rfl

@[simp] theorem framesFor_cons (ip : UInt32) (e : UInt32 × EthernetFrame)
    (frames : List (UInt32 × EthernetFrame)) :
    framesFor ip (e :: frames) =
      if e.1 = ip then e.2.payload :: framesFor ip frames else framesFor ip frames := by
  by_cases h : e.1 = ip <;> simp [framesFor, h]

@[simp] theorem framesFor_append (ip : UInt32) (frames more : List (UInt32 × EthernetFrame)) :
    framesFor ip (frames ++ more) = framesFor ip frames ++ framesFor ip more := by
  simp [framesFor]

theorem framesFor_eq_nil {ip : UInt32} {frames : List (UInt32 × EthernetFrame)}
    (h : ∀ e ∈ frames, e.1 ≠ ip) : framesFor ip frames = [] := by
  rw [framesFor, List.filter_eq_nil_iff.mpr, List.map_nil]
  simpa using h

/-- Draining moves all the datagrams for an address or none. -/
theorem framesFor_drainLoop (table : UInt32 → Option (EthernetAddress × Nat)) (ip : UInt32)
    (waiting : List (UInt32 × EthernetFrame)) :
    framesFor ip (drainLoop table waiting).1 ++ framesFor ip (drainLoop table waiting).2 =
      framesFor ip waiting := by
  have hsplit : framesFor ip (drainLoop table waiting).1 =
        (if (table ip).isSome then framesFor ip waiting else []) ∧
      framesFor ip (drainLoop table waiting).2 =
        (if (table ip).isSome then [] else framesFor ip waiting) := by
    induction waiting with
    | nil => simp [drainLoop]
    | cons e rest ih =>
        obtain ⟨ip₀, ef⟩ := e
        obtain ⟨hsent, hkept⟩ := ih
        cases htable : table ip₀ <;> by_cases hip : ip₀ = ip <;>
          simp_all [drainLoop]
  rw [hsplit.1, hsplit.2]
  split <;> simp

/-- Everything that is in the queues has been handed over, and no datagram waits for an
address that an ARP message has resolved. -/
structure Queues (n : NetworkInterface) (h : History) : Prop where
  types : ∀ e ∈ n.unknownEthAddr, isIPv4 e.2 = true
  sent : h.sent.map Prod.snd = h.queued.filter isIPv4
  known : ∀ ip, (n.known ip).isSome = true → h.resolved ip = true
  settled : ∀ ip, h.resolved ip = true → (n.arpTable ip).isSome = true →
    ∀ e ∈ n.unknownEthAddr, e.1 ≠ ip

theorem known_isSome {n : NetworkInterface} {ip : UInt32} (h : (n.known ip).isSome = true) :
    (n.arpTable ip).isSome = true := by
  cases htable : n.arpTable ip with
  | none => simp [known, htable] at h
  | some m => rfl

/-- The history of sent datagrams is the history of the frames queued. -/
theorem queued_filter {n : NetworkInterface}
    (h : ∀ e ∈ n.unknownEthAddr, isIPv4 e.2 = true) (input : Input) :
    (n.emitted input).map Prod.snd = (n.queued input).filter isIPv4 := by
  cases input with
  | sendDatagram dgram nextHop => simp [emitted, Function.comp_def]
  | tick ms => simp [emitted, queued, step, tick]
  | maybeSend =>
      cases hready : n.readyToSend <;>
        simp [emitted, queued, step, maybeSend, hready, List.drop_of_length_le]
  | recvFrame frame =>
      cases recvFrame_cases n frame with
      | inl hplain =>
          obtain ⟨-, hstep, hemitted, -⟩ := hplain
          simp [hemitted, queued, hstep]
      | inr hdrains =>
          obtain ⟨-, -, answers, hanswers, hstep, hemitted⟩ := hdrains
          have hdrained : ((drainLoop (n.tableAfter frame) n.unknownEthAddr).1.map
              Prod.snd).filter isIPv4 =
              (drainLoop (n.tableAfter frame) n.unknownEthAddr).1.map Prod.snd := by
            apply List.filter_eq_self.mpr
            intro ef hef
            obtain ⟨⟨ip, ef'⟩, hmem, rfl⟩ := List.mem_map.mp hef
            obtain ⟨ef₀, address, time, hwaiting, -, rfl⟩ := mem_drainLoop.mp hmem
            exact h (ip, ef₀) hwaiting
          have hnone : answers.filter isIPv4 = [] := by
            apply List.filter_eq_nil_iff.mpr
            intro ef hef
            simp [(hanswers ef hef).not_ipv4]
          rw [hemitted, queued, hstep]
          simp only [drain, List.append_assoc, List.drop_left, List.filter_append, hnone,
            hdrained, List.nil_append]

theorem Queues.sent_step {n : NetworkInterface} {h : History} (hq : Queues n h)
    (input : Input) :
    (note n input h).sent.map Prod.snd = (note n input h).queued.filter isIPv4 := by
  rw [note_sent, note_queued, List.map_append, List.filter_append, hq.sent,
    queued_filter hq.types]

/-- A step that leaves the table and the waiting datagrams as they are. -/
theorem Queues.same {n n' : NetworkInterface} {h h' : History} (hq : Queues n h)
    (hsent : h'.sent.map Prod.snd = h'.queued.filter isIPv4)
    (hwaiting : n'.unknownEthAddr = n.unknownEthAddr) (htable : n'.arpTable = n.arpTable)
    (hresolved : h'.resolved = h.resolved) : Queues n' h' := by
  refine ⟨?_, hsent, ?_, ?_⟩
  · rw [hwaiting]
    exact hq.types
  · simp only [NetworkInterface.known, htable, hresolved]
    exact hq.known
  · rw [hwaiting, htable, hresolved]
    exact hq.settled

theorem mem_waiting_after_recv {n : NetworkInterface} {frame : EthernetFrame}
    {e : UInt32 × EthernetFrame} (he : e ∈ (n.step (.recvFrame frame)).unknownEthAddr) :
    e ∈ n.unknownEthAddr := by
  cases recvFrame_cases n frame with
  | inl hplain =>
      obtain ⟨-, hstep, -, -⟩ := hplain
      rwa [hstep] at he
  | inr hdrains =>
      obtain ⟨-, -, answers, -, hstep, -⟩ := hdrains
      rw [hstep] at he
      simp only [drain, drainLoop_rest] at he
      exact (List.mem_filter.mp he).1

/-- What waits are IPv4 frames. -/
theorem types_step {n : NetworkInterface} (h : ∀ e ∈ n.unknownEthAddr, isIPv4 e.2 = true)
    (input : Input) : ∀ e ∈ (n.step input).unknownEthAddr, isIPv4 e.2 = true := by
  cases input with
  | sendDatagram dgram nextHop =>
      rcases sendDatagram_cases n dgram nextHop with
        ⟨-, hsend⟩ | ⟨-, e, hsend⟩ | ⟨-, payload, -, address, -, hsend⟩ |
          ⟨-, payload, -, -, request, -, hsend⟩ <;> simp only [step, hsend]
      · exact h
      · exact h
      · exact h
      · intro e he
        cases List.mem_append.mp he with
        | inl he => exact h e he
        | inr he =>
            rw [List.mem_singleton.mp he]
            rfl
  | recvFrame frame => exact fun e he => h e (mem_waiting_after_recv he)
  | tick ms => exact h
  | maybeSend =>
      simp only [step, maybeSend]
      split <;> exact h

theorem queues_recv {n : NetworkInterface} {h : History} (hq : Queues n h)
    (frame : EthernetFrame) :
    Queues (n.step (.recvFrame frame)) (note n (.recvFrame frame) h) := by
  cases recvFrame_cases n frame with
  | inl hplain =>
      obtain ⟨-, hstep, -, hnone⟩ := hplain
      apply hq.same (hq.sent_step _)
      · rw [hstep]
      · rw [hstep]
      · simp only [note, hnone]
  | inr hdrains =>
      obtain ⟨-, -, answers, -, hstep, -⟩ := hdrains
      refine ⟨types_step hq.types _, hq.sent_step _, ?_, ?_⟩
      · intro ip hknown
        rw [hstep] at hknown
        cases harp : acceptedArp frame with
        | none =>
            simp only [note, harp]
            apply hq.known
            simpa only [known, drain, tableAfter, harp] using hknown
        | some arpmsg =>
            simp only [note, harp]
            by_cases hip : ip = arpmsg.senderIpAddress
            · rw [hip, Function.update_self]
            · rw [Function.update_of_ne hip]
              apply hq.known
              simpa only [known, drain, tableAfter, harp, Function.update_of_ne hip] using hknown
      · rintro ip - hsome e he rfl
        rw [hstep] at hsome he
        simp only [drain, drainLoop_rest] at hsome he
        have := (List.mem_filter.mp he).2
        rw [Option.isNone_iff_eq_none] at this
        simp [this] at hsome

theorem queues_send {n : NetworkInterface} {h : History} (hq : Queues n h)
    (dgram : InternetDatagram) (nextHop : Address) :
    Queues (n.step (.sendDatagram dgram nextHop))
      (note n (.sendDatagram dgram nextHop) h) := by
  have hsent := hq.sent_step (.sendDatagram dgram nextHop)
  rcases sendDatagram_cases n dgram nextHop with
    ⟨hreq, hsend⟩ | ⟨hreq, e, hsend⟩ | ⟨hreq, payload, -, address, hknown, hsend⟩ |
      ⟨hreq, payload, -, hknown, request, -, hsend⟩
  · apply hq.same hsent <;> simp only [step, note, hsend, hreq, Bool.true_or, if_true]
  · apply hq.same hsent <;> simp only [step, note, hsend]
  · apply hq.same hsent <;>
      simp only [step, note, hsend, hknown, Option.isSome_some, Bool.or_true, if_true]
  · refine ⟨types_step hq.types _, hsent, ?_, ?_⟩ <;>
      simp only [step, note, hsend, hreq, hknown, Option.isSome_none, Bool.or_self,
        Bool.false_eq_true, if_false]
    · intro ip hip
      by_cases heq : ip = nextHop.ipv4Numeric
      · simp [known, heq] at hip
      · rw [Function.update_of_ne heq]
        apply hq.known
        simpa only [known, Function.update_of_ne heq] using hip
    · intro ip hresolved hsome e he
      by_cases heq : ip = nextHop.ipv4Numeric
      · rw [heq, Function.update_self] at hresolved
        exact absurd hresolved Bool.false_ne_true
      · rw [Function.update_of_ne heq] at hresolved hsome
        cases List.mem_append.mp he with
        | inl he => exact hq.settled ip hresolved hsome e he
        | inr he =>
            rw [List.mem_singleton.mp he]
            exact fun h => heq h.symm

theorem queues_step {n : NetworkInterface} {h : History} (hq : Queues n h) (input : Input) :
    Queues (n.step input) (note n input h) := by
  cases input with
  | sendDatagram dgram nextHop => exact queues_send hq dgram nextHop
  | recvFrame frame => exact queues_recv hq frame
  | tick ms =>
      refine ⟨hq.types, hq.sent_step _, ?_, ?_⟩
      · intro ip hknown
        apply hq.known
        revert hknown
        simp only [step, tick, known]
        cases n.arpTable ip with
        | none => simp
        | some m =>
            rw [Option.bind_some, ageBy]
            by_cases hold : 30000 < u64 (m.2 + ms) <;> simp [hold]
      · intro ip hresolved hsome
        apply hq.settled ip hresolved
        simp only [step, tick, Option.isSome_bind] at hsome
        cases htable : n.arpTable ip with
        | none => simp [htable] at hsome
        | some m => rfl
  | maybeSend =>
      apply hq.same (hq.sent_step _) _ _ rfl <;> simp only [step, maybeSend] <;> split <;> rfl

/-- No send finds a request for its next hop pending and young. -/
def NotDropped (c : NetworkInterface × History) : Input → Prop
  | .sendDatagram _ nextHop => c.1.requested nextHop.ipv4Numeric = false
  | _ => True

/-- What a step adds, for one next hop, to the datagrams sent or waiting and to those
handed over. -/
def Accounted (ip : UInt32) (n : NetworkInterface) (h : History) (input : Input) : Prop :=
  ∃ new more,
    framesFor ip (note n input h).sent ++ framesFor ip (n.step input).unknownEthAddr =
      framesFor ip h.sent ++ framesFor ip n.unknownEthAddr ++ new ∧
    handedFor ip (note n input h).handed = handedFor ip h.handed ++ more ∧
    (new.map Except.ok).Sublist more ∧
    (NotDropped (n, h) input → new.map Except.ok = more)

theorem accounted_recv (n : NetworkInterface) (h : History) (ip : UInt32)
    (frame : EthernetFrame) : Accounted ip n h (.recvFrame frame) := by
  have hhanded : (note n (.recvFrame frame) h).handed = h.handed := by
    simp only [note]
    split <;> rfl
  refine ⟨[], [], ?_, by rw [hhanded, List.append_nil], by simp⟩
  rw [note_sent, framesFor_append, List.append_nil]
  cases recvFrame_cases n frame with
  | inl hplain =>
      obtain ⟨-, hstep, hemitted, -⟩ := hplain
      rw [hstep, hemitted, framesFor_nil, List.append_nil]
  | inr hdrains =>
      obtain ⟨-, -, answers, -, hstep, hemitted⟩ := hdrains
      rw [hstep, hemitted, List.append_assoc]
      exact congrArg _ (framesFor_drainLoop _ ip _)

/-- A datagram that is sent at once or waits is added on both sides. -/
theorem accounted_payload {n : NetworkInterface} {h : History} {ip : UInt32}
    {dgram : InternetDatagram} {nextHop : Address} {payload : List Bytes}
    (hser : dgram.serialize = .ok payload)
    (hframes : framesFor ip (note n (.sendDatagram dgram nextHop) h).sent ++
        framesFor ip (n.step (.sendDatagram dgram nextHop)).unknownEthAddr =
      framesFor ip h.sent ++ framesFor ip n.unknownEthAddr ++
        if nextHop.ipv4Numeric = ip then [payload] else [])
    (hhanded : (note n (.sendDatagram dgram nextHop) h).handed =
      h.handed ++ [(nextHop.ipv4Numeric, dgram)]) :
    Accounted ip n h (.sendDatagram dgram nextHop) := by
  have hmore := handedFor_singleton ip nextHop.ipv4Numeric hser
  refine ⟨_, handedFor ip [(nextHop.ipv4Numeric, dgram)], hframes, ?_, ?_, fun _ => hmore.symm⟩
  · rw [hhanded]
    simp [handedFor]
  · rw [hmore]

theorem accounted_send {n : NetworkInterface} {h : History} (hq : Queues n h) (ip : UInt32)
    (dgram : InternetDatagram) (nextHop : Address) :
    Accounted ip n h (.sendDatagram dgram nextHop) := by
  rcases sendDatagram_cases n dgram nextHop with
    ⟨hreq, hsend⟩ | ⟨hreq, e, hsend⟩ | ⟨hreq, payload, hser, address, hknown, hsend⟩ |
      ⟨hreq, payload, hser, hknown, request, -, hsend⟩
  · refine ⟨[], handedFor ip [(nextHop.ipv4Numeric, dgram)], ?_, ?_, by simp, ?_⟩
    · simp [note, step, emitted, queued, hsend]
    · simp [note, hsend, handedFor]
    · simp [NotDropped, hreq]
  · refine ⟨[], [], ?_, ?_, by simp⟩
    · simp [note, step, emitted, queued, hsend]
    · simp [note, hsend]
  · have hempty : nextHop.ipv4Numeric = ip → framesFor ip n.unknownEthAddr = [] := by
      rintro rfl
      exact framesFor_eq_nil (hq.settled _ (hq.known _ (by simp [hknown]))
        (known_isSome (by simp [hknown])))
    apply accounted_payload hser
    · simp only [note, step, emitted, queued, hsend, List.drop_left]
      by_cases hip : nextHop.ipv4Numeric = ip
      · simp [hempty hip, isIPv4, frame, hip]
      · simp [isIPv4, frame, hip]
    · simp [note, hsend]
  · have hnone : [n.frame ETHERNET_BROADCAST EthernetHeader.TYPE_ARP request].filter
        isIPv4 = [] := rfl
    apply accounted_payload hser
    · simp only [note, step, emitted, queued, hsend, List.drop_left, hnone]
      simp [frame]
    · simp [note, hsend]

theorem accounted_step {n : NetworkInterface} {h : History} (hq : Queues n h) (ip : UInt32)
    (input : Input) : Accounted ip n h input := by
  cases input with
  | tick ms => exact ⟨[], [], by simp [note, step, tick, emitted], by simp [note], by simp⟩
  | maybeSend =>
      refine ⟨[], [], ?_, by simp [note], by simp⟩
      simp only [note, step, maybeSend, emitted]
      split <;> simp
  | recvFrame frame => exact accounted_recv n h ip frame
  | sendDatagram dgram nextHop => exact accounted_send hq ip dgram nextHop

theorem queues_start (ethernetAddress : EthernetAddress) (ipAddress : Address) :
    Queues (start ethernetAddress ipAddress) {} := by
  refine ⟨?_, rfl, ?_, ?_⟩ <;> simp [start, known]

/-- A datagram sent while a request is pending is lost, although the reply comes. -/
theorem dropped_while_pending :
    let dgram : UInt32 → InternetDatagram := fun dst => { header := { len := 20, dst } }
    let reply : EthernetFrame :=
      { header := ⟨#v[2, 0, 0, 0, 0, 1], #v[2, 0, 0, 0, 0, 2], EthernetHeader.TYPE_ARP⟩
        payload := [[0, 1, 8, 0, 6, 4, 0, 2, 2, 0, 0, 0, 0, 2, 0, 0, 0, 7, 2, 0, 0, 0, 0, 1,
          0, 0, 0, 1]] }
    let c := runFrom #v[2, 0, 0, 0, 0, 1] ⟨1⟩
      [.sendDatagram (dgram 8) ⟨7⟩, .sendDatagram (dgram 9) ⟨7⟩, .recvFrame reply]
    c.2.resolved 7 = true ∧ (c.1.arpTable 7).isSome = true ∧
      (framesFor 7 c.2.sent).map Except.ok ≠ handedFor 7 c.2.handed := by
  decide +kernel

/-- In every run the IPv4 frames for a next hop carry datagrams handed over for it, each
at most once and in order; and when no send finds a young request, a state with a
resolved entry has sent them all. -/
theorem sent_in_order_and_complete (ethernetAddress : EthernetAddress) (ipAddress : Address)
    (inputs : List Input) :
    let c := runFrom ethernetAddress ipAddress inputs
    c.2.sent.map Prod.snd = c.2.queued.filter isIPv4 ∧
      (∀ ip, ((framesFor ip c.2.sent).map Except.ok).Sublist (handedFor ip c.2.handed)) ∧
      (Along (observe step note) NotDropped (start ethernetAddress ipAddress, {}) inputs →
        ∀ ip, c.2.resolved ip = true → (c.1.arpTable ip).isSome = true →
          (framesFor ip c.2.sent).map Except.ok = handedFor ip c.2.handed) := by
  intro c
  have hqueues : Queues c.1 c.2 ∧ ∀ ip, ((framesFor ip c.2.sent ++
      framesFor ip c.1.unknownEthAddr).map Except.ok).Sublist (handedFor ip c.2.handed) := by
    refine run_invariant_always _ (P := fun c : NetworkInterface × History => Queues c.1 c.2 ∧
      ∀ ip, ((framesFor ip c.2.sent ++ framesFor ip c.1.unknownEthAddr).map
        Except.ok).Sublist (handedFor ip c.2.handed))
      ⟨queues_start ethernetAddress ipAddress, fun ip => List.Sublist.refl _⟩ ?_ inputs
    rintro c input ⟨hq, hsub⟩
    refine ⟨queues_step hq input, fun ip => ?_⟩
    obtain ⟨new, more, hnew, hmore, hle, -⟩ := accounted_step hq ip input
    rw [observe_fst, observe_snd, hnew, hmore, List.map_append]
    exact (hsub ip).append hle
  refine ⟨hqueues.1.sent, fun ip => ?_, fun hok ip hresolved hsome => ?_⟩
  · refine List.Sublist.trans ?_ (hqueues.2 ip)
    rw [List.map_append]
    exact List.sublist_append_left _ _
  · have hall : Queues c.1 c.2 ∧ ∀ ip, (framesFor ip c.2.sent ++
        framesFor ip c.1.unknownEthAddr).map Except.ok = handedFor ip c.2.handed := by
      refine run_invariant _ (P := fun c : NetworkInterface × History => Queues c.1 c.2 ∧
        ∀ ip, (framesFor ip c.2.sent ++ framesFor ip c.1.unknownEthAddr).map
          Except.ok = handedFor ip c.2.handed)
        ⟨queues_start ethernetAddress ipAddress, fun ip => rfl⟩ ?_ hok
      rintro c input ⟨hq, heq⟩ hkept
      refine ⟨queues_step hq input, fun ip => ?_⟩
      obtain ⟨new, more, hnew, hmore, -, hsame⟩ := accounted_step hq ip input
      rw [observe_fst, observe_snd, hnew, hmore, List.map_append, heq ip, hsame hkept]
    have hnone := framesFor_eq_nil (hall.1.settled ip hresolved hsome)
    rw [← hall.2 ip, hnone, List.append_nil]

instance (c : NetworkInterface × History) : DecidablePred (NotDropped c)
  | .sendDatagram _ _ => inferInstanceAs (Decidable (_ = _))
  | .recvFrame _ | .tick _ | .maybeSend => inferInstanceAs (Decidable True)

theorem sent_complete_after_reply :
    let dgram : UInt32 → InternetDatagram := fun dst => { header := { len := 20, dst } }
    let reply : EthernetFrame :=
      { header := ⟨#v[2, 0, 0, 0, 0, 1], #v[2, 0, 0, 0, 0, 2], EthernetHeader.TYPE_ARP⟩
        payload := [[0, 1, 8, 0, 6, 4, 0, 2, 2, 0, 0, 0, 0, 2, 0, 0, 0, 7, 2, 0, 0, 0, 0, 1,
          0, 0, 0, 1]] }
    let c := runFrom #v[2, 0, 0, 0, 0, 1] ⟨1⟩
      [.sendDatagram (dgram 8) ⟨7⟩, .recvFrame reply, .sendDatagram (dgram 9) ⟨7⟩]
    (framesFor 7 c.2.sent).map Except.ok = handedFor 7 c.2.handed :=
  (sent_in_order_and_complete #v[2, 0, 0, 0, 0, 1] ⟨1⟩ _).2.2 (by decide +kernel) 7
    (by decide +kernel) (by decide +kernel)

end NetworkInterface
end Minnow
