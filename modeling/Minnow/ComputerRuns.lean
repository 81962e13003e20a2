import Minnow.Computer

/-!
What two copying computers come to. Each program and each thread keeps its own invariant, the
pairs of stream sockets link them, and the conversation of the TCPPeers links the two computers.
-/

namespace Minnow
open Throwing EventLoop

namespace Computer
open Channel (Linked)

variable {α β : Type} {a : Adapter α β} {faulty : Prop} {c c' : Computer α β}

/-- What holds of the program and the pair of stream sockets, whatever the thread does. -/
structure Keeps (faulty : Prop) (c : Computer α β) : Prop where
  copies : StreamCopy.Loops faulty c.copy
  returned : c.returned = true → c.owner.shutdown = true ∨ faulty
  ended : c.ended = true → c.thread.shutdown = true ∨ faulty
  outward : Linked c.thread c.owner c.returned
  inward : Linked c.owner c.thread c.ended

theorem Keeps.copyTurn (h : c.Keeps faulty) {answers : CopyAnswers} {kernel : Kernel}
    (hready : StreamCopy.Readable answers) (hfault : kernel.Faulty → faulty)
    (hturn : c.copyTurn answers kernel = .ok c') : c'.Keeps faulty ∧ c'.socket = c.socket := by
  rw [Computer.copyTurn] at hturn
  split at hturn
  · next hguard =>
      obtain ⟨-, hreturned, hmayRead, hmayWrite⟩ := hguard
      obtain ⟨⟨result, copy⟩, hwait, hturn⟩ := bind_eq_ok.mp hturn
      cases hturn
      obtain ⟨hcopies, hexit⟩ := h.copies.turn hready hfault hwait
      have hexchanges := h.copies.exchanges hready hfault hwait
      have houtward := h.outward
      rw [hreturned] at houtward
      refine ⟨⟨hcopies, fun hdone => ?_, h.ended, (houtward.writes hmayWrite hexchanges).ofShut _,
        h.inward.reads hmayRead hexchanges⟩, rfl⟩
      have hfinished := (hcopies.finished (hexit (of_decide_eq_true hdone))).1
      exact hfinished.imp_left hcopies.copies.shutdown.trans
  · cases hturn
    exact ⟨h, rfl⟩

/-- What a turn of the socket comes to. -/
theorem socketTurn_ok {o : MinnowSocket.Opening} {baseTime : Nat} {turn : MinnowSocket.Turn β}
    (hturn : c.socketTurn a o baseTime turn = .ok c') :
    c' = c ∨ (c.ended = false ∧ turn.abort = false ∧
        c.thread.MayRead c.owner c.returned turn.answers.threadRead ∧
        c.thread.MayWrite turn.answers.threadWrite) ∧
      ∃ socket left opened ended, c' = { c with socket, opened, ended } ∧
        (ended = true → left = true) ∧
        MinnowSocket.tcpTurn a ⟨c.socket.eventLoop, baseTime⟩ turn = .ok (socket, left) := by
  rw [Computer.socketTurn] at hturn
  split at hturn
  · next hguard =>
      obtain ⟨⟨socket, left⟩, hsocket, hturn⟩ := bind_eq_ok.mp hturn
      refine Or.inr ⟨hguard, socket, left, ?_⟩
      dsimp only at hturn
      split at hturn
      · cases hturn
        exact ⟨c.opened, left, rfl, id, hsocket⟩
      · cases hturn
        refine ⟨_, c.ended, rfl, fun hended => ?_, hsocket⟩
        rw [hguard.1] at hended
        cases hended
  · cases hturn
    exact Or.inl rfl

theorem Keeps.socketTurn (h : c.Keeps faulty) {socket : MinnowSocket.Running α β}
    {read : Outcome} {write : CountOutcome} {opened ended : Bool} (hrunning : c.ended = false)
    (hmayRead : c.thread.MayRead c.owner c.returned read)
    (hmayWrite : c.thread.MayWrite write)
    (hexchanges : c.thread.Exchanges socket.socket.threadData read write)
    (hended : ended = true → socket.socket.threadData.shutdown = true ∨ faulty) :
    Keeps faulty { c with socket, opened, ended } := by
  have hinward := h.inward
  rw [hrunning] at hinward
  exact ⟨h.copies, h.returned, hended, h.outward.reads hmayRead hexchanges,
    (hinward.writes hmayWrite hexchanges).ofShut _⟩

/-- The program has written to its output what it has read from the socket, which the thread has
written. -/
theorem Keeps.output_from (h : c.Keeps faulty) : c.output.sent <+: c.thread.sent :=
  (List.prefix_append _ _).trans (h.copies.copies.inward.copied ▸ h.inward.inOrder)

/-- The thread has read what the program has written to the socket, which it has read from its
input. -/
theorem Keeps.input_from (h : c.Keeps faulty) : c.thread.received <+: c.input.received :=
  h.outward.inOrder.trans (h.copies.copies.outward.copied ▸ List.prefix_append _ _)

/-- A program closes its output only when the thread has shut down its end. -/
theorem Keeps.output_closed (h : c.Keeps False) (hclosed : c.output.fd.closed = true) :
    c.thread.shutdown = true ∧ c.output.sent = c.thread.sent := by
  have hinward := h.copies.copies.inward
  have hdone := h.copies.copies.outputOpen.symm.trans hclosed
  obtain ⟨-, hempty, hend⟩ := hinward.finished hdone
  have heof : c.owner.fd.eof = true := hend.elim id
    fun hcancelled => (h.copies.copies.socketEnded hcancelled).resolve_right id
  obtain ⟨hover, hall⟩ := h.inward.ended heof
  have hcopied := hinward.copied
  rw [hempty, List.append_nil] at hcopied
  refine ⟨?_, hcopied.trans hall⟩
  rw [Bool.or_eq_true] at hover
  exact hover.elim id fun hended => (h.ended hended).resolve_right id

/-- The thread sees the end only when the program has seen that of its input. -/
theorem Keeps.input_ended (h : c.Keeps False) (heof : c.thread.fd.eof = true) :
    c.input.fd.eof = true ∧ c.thread.received = c.input.received := by
  obtain ⟨hover, hall⟩ := h.outward.ended heof
  rw [Bool.or_eq_true] at hover
  have hshut : c.owner.shutdown = true :=
    hover.elim id fun hreturned => (h.returned hreturned).resolve_right id
  have houtward := h.copies.copies.outward
  obtain ⟨-, hempty, hend⟩ := houtward.finished (h.copies.copies.shutdown.symm.trans hshut)
  have hcopied := houtward.copied
  rw [hempty, List.append_nil] at hcopied
  exact ⟨hend.elim id fun hcancelled => (h.copies.copies.inputEnded hcancelled).resolve_right id,
    hall.trans hcopied⟩

end Computer

namespace Computers
open MinnowSocket

variable {α β : Type} {a : Adapter α β} {k : a.Carrier} {faulty : Prop} {u : Side → Setup α β}
  {s s' : Side → Computer α β}

/-- The invariant of two computers. -/
structure Working (k : a.Carrier) (faulty : Prop) (u : Side → Setup α β)
    (s : Side → Computer α β) : Prop where
  keeps : ∀ d, (s d).Keeps faulty
  converses : ∃ table, Converses k faulty (fun d => (u d).tcpConfig) (fun d => (u d).random)
    (fun d => (s d).socket) table

theorem Working.update (h : Working k faulty u s) {d : Side} {c : Computer α β}
    (hkeeps : c.Keeps faulty)
    (hconverses : ∃ table, Converses k faulty (fun d => (u d).tcpConfig) (fun d => (u d).random)
      (Function.update (fun d => (s d).socket) d c.socket) table) :
    Working k faulty u (Function.update s d c) := by
  refine ⟨fun e => ?_, ?_⟩
  · by_cases he : e = d
    · subst he
      rw [Function.update_self]
      exact hkeeps
    · rw [Function.update_of_ne he]
      exact h.keeps e
  · have hsockets : (fun e => (Function.update s d c e).socket) =
        Function.update (fun e => (s e).socket) d c.socket :=
      Function.comp_update (fun c : Computer α β => c.socket) s d c
    rw [hsockets]
    exact hconverses

theorem Working.step (h : Working k faulty u s) {input : Input β} (hready : input.Ready)
    (hfault : input.kernel.Faulty → faulty) (hstep : step k u s input = .ok s') :
    Working k faulty u s' := by
  cases input with
  | copy d answers kernel =>
      obtain ⟨c, hturn, hstep⟩ := bind_eq_ok.mp hstep
      cases hstep
      obtain ⟨hkeeps, hsocket⟩ := (h.keeps d).copyTurn hready hfault hturn
      refine h.update hkeeps ?_
      rw [hsocket, Function.update_eq_self]
      exact h.converses
  | socket m =>
      rw [Computers.step] at hstep
      split at hstep
      · next hsent =>
          obtain ⟨c, hturn, hstep⟩ := bind_eq_ok.mp hstep
          cases hstep
          obtain ⟨table, hconverses⟩ := h.converses
          cases Computer.socketTurn_ok hturn with
          | inl hsame =>
              rw [hsame, Function.update_eq_self]
              exact h
          | inr hturns =>
              obtain ⟨⟨hrunning, habort, hmayRead, hmayWrite⟩, socket, left, opened, ended, rfl,
                hleft, hsocket⟩ := hturns
              obtain ⟨hnext, hexchanges, hleaves⟩ :=
                hconverses.turn (r := ⟨(s m.side).socket.eventLoop, m.baseTime⟩) rfl hready hfault
                  hsent hsocket
              refine h.update ((h.keeps m.side).socketTurn hrunning hmayRead hmayWrite hexchanges
                fun hended => ?_) hnext
              obtain ⟨table', hconverses'⟩ := hnext
              have hseated := hconverses'.seated m.side
              rw [Function.update_self] at hseated
              refine hseated.shutdown ((hleaves (hleft hended)).resolve_left fun haborted => ?_)
              rw [habort] at haborted
              cases haborted
      · cases hstep
        exact h

theorem working_start {copy : EventLoop StreamCopy} {e : Side → EventLoop (MinnowSocket α β)}
    (hfresh : ∀ d, Fresh k (u d).threadData (u d).datagramAdapter)
    (hcopy : StreamCopy.eventLoop (StreamCopy.start {}) = .ok copy)
    (hbegin : ∀ d, (u d).begin a = .ok (e d)) :
    Working k faulty u fun d => { copy, socket := ⟨e d, 0⟩ } := by
  have hloops : StreamCopy.Loops faulty copy := StreamCopy.loops_start rfl rfl hcopy
  refine ⟨fun d => ?_, converses_start hfresh hbegin⟩
  have hthread : (e d).memory.world.threadData =
      { fd := { (u d).threadData with nonBlocking := true } } := begin_threadData (hbegin d)
  have howner : copy.memory.world.socket = { fd := { nonBlocking := true } } := by
    rw [StreamCopy.eventLoop_eq] at hcopy
    cases hcopy
    rfl
  refine ⟨hloops, fun h => (by cases h), fun h => (by cases h), ?_, ?_⟩
  · exact Channel.linked_start (congrArg Channel.received hthread)
      ((congrArg (fun c : Channel => c.fd.eof) hthread).trans (hfresh d).unended) _ _
  · exact Channel.linked_start (congrArg Channel.received howner)
      (congrArg (fun c : Channel => c.fd.eof) howner) _ _

theorem working_run {inputs : List (Input β)}
    (hfresh : ∀ d, Fresh k (u d).threadData (u d).datagramAdapter)
    (hready : ∀ i ∈ inputs, i.Ready) (hfault : ∀ i ∈ inputs, i.kernel.Faulty → faulty)
    (hrun : run k u inputs = .ok s) : Working k faulty u s := by
  obtain ⟨copy, hcopy, hrun⟩ := bind_eq_ok.mp hrun
  obtain ⟨left, hleft, hrun⟩ := bind_eq_ok.mp hrun
  obtain ⟨right, hright, hrun⟩ := bind_eq_ok.mp hrun
  refine attempt_invariant (working_start (e := fun d => if d = .left then left else right) hfresh
    hcopy fun d => ?_)
    (fun s i hi s' hs hstep => hs.step (hready i hi) (hfault i hi) hstep) hrun
  cases d with
  | left => exact hleft
  | right => exact hright

/-- From the output of one program back to the input of the other. -/
theorem Working.in_order (h : Working k faulty u s)
    (hwithin : ∀ d, (s d).thread.received.length < 2 ^ 31 - 2) (d : Side) :
    (s d.other).output.sent <+: (s d).input.received := by
  obtain ⟨table, hconverses⟩ := h.converses
  have hsockets : (s d.other).thread.sent <+: (s d).thread.received :=
    (List.prefix_append _ _).trans (hconverses.in_order hwithin d).1
  exact (h.keeps d.other).output_from.trans (hsockets.trans (h.keeps d).input_from)

/-- Two computers that copy over their sockets: whatever the network does with the datagrams, and
however programs and threads take their turns, as long as no read of a stream asks to be made
again, what a program has written to its output is the beginning of what the other has read from
its input. -/
theorem programs_copy_in_order (k : a.Carrier) {inputs : List (Input β)}
    (hfresh : ∀ d, Fresh k (u d).threadData (u d).datagramAdapter)
    (hready : ∀ i ∈ inputs, i.Ready) (hrun : run k u inputs = .ok s)
    (hwithin : ∀ d, (s d).thread.received.length < 2 ^ 31 - 2) (d : Side) :
    (s d.other).output.sent <+: (s d).input.received := by
  have hworking : Working k True u s := working_run hfresh hready (fun _ _ _ => trivial) hrun
  exact hworking.in_order hwithin d

/-- A turn of the program on one side, and one of the thread, in which a descriptor is ready. A
read that is not meant to happen fails. -/
def tunCopy (side : Side) (idx : Nat) (revents : Revents) (input : Outcome := .failed (.other 5))
    (socket : Outcome := .failed (.other 5)) : Input DeviceAnswers :=
  let answers : CopyAnswers := {
    inputRead := input
    socketRead := socket
    socketWrite := .returned 1
    outputWrite := .returned 1 }
  .copy side answers (tunTurn idx revents).kernel

def tunSocket (side : Side) (idx : Nat) (revents : Revents)
    (owner : Outcome := .failed (.other 5)) (device : Outcome := .failed .EAGAIN) :
    Input DeviceAnswers :=
  .socket ⟨side, 0, tunTurn idx revents owner device⟩

/-- The two connect, a byte is copied from left to right, and then the end. -/
def tunInputs : List (Input DeviceAnswers) :=
  let none := Outcome.failed (.other 5)
  let syn := [69, 0, 0, 40, 0, 0, 64, 0, 128, 6, 250, 205, 0, 0, 0, 1, 0, 0, 0, 2, 0, 10, 0, 20,
    0, 0, 0, 7, 0, 0, 0, 0, 80, 2, 0, 8, 175, 179, 0, 0]
  let synAck := [69, 0, 0, 40, 0, 0, 64, 0, 128, 6, 250, 205, 0, 0, 0, 2, 0, 0, 0, 1, 0, 20, 0, 10,
    0, 0, 0, 7, 0, 0, 0, 8, 80, 18, 0, 8, 175, 155, 0, 0]
  let ack := [69, 0, 0, 40, 0, 0, 64, 0, 128, 6, 250, 205, 0, 0, 0, 1, 0, 0, 0, 2, 0, 10, 0, 20,
    0, 0, 0, 8, 0, 0, 0, 8, 80, 16, 0, 8, 175, 156, 0, 0]
  let data := [69, 0, 0, 41, 0, 0, 64, 0, 128, 6, 250, 204, 0, 0, 0, 1, 0, 0, 0, 2, 0, 10, 0, 20,
    0, 0, 0, 8, 0, 0, 0, 8, 80, 16, 0, 8, 170, 155, 0, 0, 5]
  let fin := [69, 0, 0, 40, 0, 0, 64, 0, 128, 6, 250, 205, 0, 0, 0, 1, 0, 0, 0, 2, 0, 10, 0, 20,
    0, 0, 0, 9, 0, 0, 0, 8, 80, 17, 0, 8, 175, 154, 0, 0]
  [tunSocket .left 3 { pollout := true },
    tunSocket .right 0 { pollin := true } none (.filled syn),
    tunSocket .right 3 { pollout := true },
    tunSocket .left 0 { pollin := true } none (.filled synAck),
    tunSocket .left 3 { pollout := true },
    tunSocket .right 0 { pollin := true } none (.filled ack),
    tunCopy .left 0 { pollin := true } (.filled [5]),
    tunCopy .left 1 { pollout := true },
    tunSocket .left 1 { pollin := true } (.filled [5]),
    tunSocket .left 3 { pollout := true },
    tunSocket .right 0 { pollin := true } none (.filled data),
    tunSocket .right 0 { pollin := true } none (.filled data),
    tunSocket .right 2 { pollout := true },
    tunCopy .right 2 { pollin := true } none (.filled [5]),
    tunCopy .right 3 { pollout := true },
    tunCopy .left 0 { pollin := true } (.filled []),
    tunCopy .left 0 { pollout := true },
    tunSocket .left 1 { pollin := true } (.filled []),
    tunSocket .left 2 { pollout := true },
    tunSocket .right 0 { pollin := true } none (.filled fin),
    tunSocket .right 2 { pollout := true },
    tunCopy .right 2 { pollin := true } none (.filled []),
    tunCopy .right 2 { pollout := true }]

theorem tunInputs_ready : ∀ i ∈ tunInputs, i.Ready := by decide

theorem tunInputs_run : ∃ s, run TCPOverIPv4OverTunFdAdapter.carrier tunPair tunInputs = .ok s ∧
    (s .right).output.sent = [5] ∧ (s .right).output.fd.closed = true ∧
    (∀ d, (s d).thread.received.length < 2 ^ 31 - 2) ∧
    (s .right).tcp.inboundStream.bytesPopped = (s .left).tcp.outboundStream.bytesPushed := by
  have hrun : (run TCPOverIPv4OverTunFdAdapter.carrier tunPair tunInputs).toOption.map
      (fun s => ((s .right).output.sent, (s .right).output.fd.closed, (s .left).thread.received,
        (s .right).thread.received, (s .right).tcp.inboundStream.bytesPopped,
        (s .left).tcp.outboundStream.bytesPushed)) = some ([5], true, [5], [], 1, 1) := by
    -- The programs have buffers of a megabyte, which are not made here.
    rw [run, StreamCopy.eventLoop_eq, StreamCopy.rules, StreamCopy.readInput, StreamCopy.readSocket,
      Channel.readInto_eq]
    decide +kernel
  cases hs : run TCPOverIPv4OverTunFdAdapter.carrier tunPair tunInputs with
  | error e =>
      rw [hs] at hrun
      cases hrun
  | ok s =>
      rw [hs, Except.toOption, Option.map_some, Option.some.injEq] at hrun
      simp only [Prod.mk.injEq] at hrun
      obtain ⟨hsent, hclosed, hleft, hright, hpopped, hpushed⟩ := hrun
      refine ⟨s, rfl, hsent, hclosed, fun d => ?_, hpopped.trans hpushed.symm⟩
      cases d with
      | left => rw [hleft]; decide
      | right => rw [hright]; decide

theorem programs_copy_in_order_tun : ∃ s,
    run TCPOverIPv4OverTunFdAdapter.carrier tunPair tunInputs = .ok s ∧
      (s .right).output.sent = [5] ∧
      ∀ d : Side, (s d.other).output.sent <+: (s d).input.received := by
  obtain ⟨s, hrun, hsent, -, hwithin, -⟩ := tunInputs_run
  exact ⟨s, hrun, hsent, programs_copy_in_order TCPOverIPv4OverTunFdAdapter.carrier
    (fun _ => fresh_tun) tunInputs_ready hrun hwithin⟩

/-- Unless the kernel reports an error or a hangup, or a read of a stream asks to be made again,
an output is closed only when the input of the other program has come to its end, and its TCPPeer
has sent all of it; and all of it has come out exactly when the inbound stream has given as many
bytes as the outbound stream has taken. -/
theorem output_closed_at_end (k : a.Carrier) {inputs : List (Input β)}
    (hfresh : ∀ d, Fresh k (u d).threadData (u d).datagramAdapter)
    (hready : ∀ i ∈ inputs, i.Ready) (hfault : ∀ i ∈ inputs, ¬ i.kernel.Faulty)
    (hrun : run k u inputs = .ok s)
    (hwithin : ∀ d, (s d).thread.received.length < 2 ^ 31 - 2) {d : Side}
    (hclosed : (s d.other).output.fd.closed = true) :
    (s d).input.fd.eof = true ∧ (s d).owner.sent = (s d).input.received ∧
      (s d).tcp.outboundStream.isFinished = true ∧
      ((s d.other).output.sent = (s d).input.received ↔
        (s d.other).tcp.inboundStream.bytesPopped = (s d).tcp.outboundStream.bytesPushed) := by
  have hworking : Working k False u s := working_run hfresh hready hfault hrun
  obtain ⟨table, hconverses⟩ := hworking.converses
  obtain ⟨hshut, hout⟩ := (hworking.keeps d.other).output_closed hclosed
  obtain ⟨heof, hfinished⟩ := hconverses.ended hwithin hshut
  obtain ⟨hinput, hin⟩ := (hworking.keeps d).input_ended heof
  obtain ⟨-, hall⟩ := (hworking.keeps d).outward.ended heof
  refine ⟨hinput, hall.symm.trans hin, hfinished, ?_⟩
  obtain ⟨hpushed, hpopped⟩ := hconverses.streams hwithin d
  have hprefix := hworking.in_order hwithin d
  rw [hout, ← hin] at hprefix ⊢
  constructor
  · intro hsame
    exact hpopped.symm.trans ((congrArg List.length hsame).trans hpushed)
  · intro hcounts
    exact hprefix.eq_of_length (hpopped.trans (hcounts.trans hpushed.symm))

theorem tunInputs_quiet : ∀ i ∈ tunInputs, ¬ i.kernel.Faulty := by
  simp only [tunInputs, List.forall_mem_cons, List.not_mem_nil, false_implies, implies_true,
    and_true]
  and_intros <;> exact tunTurn_quiet _ ⟨rfl, rfl⟩ _ _

theorem output_closed_at_end_tun : ∃ s,
    run TCPOverIPv4OverTunFdAdapter.carrier tunPair tunInputs = .ok s ∧
      (s .right).output.fd.closed = true ∧ (s .left).input.fd.eof = true ∧
      (s .right).output.sent = (s .left).input.received := by
  obtain ⟨s, hrun, -, hclosed, hwithin, hcounts⟩ := tunInputs_run
  obtain ⟨heof, -, -, hall⟩ := output_closed_at_end TCPOverIPv4OverTunFdAdapter.carrier
    (fun _ => fresh_tun) tunInputs_ready tunInputs_quiet hrun hwithin (d := .left) hclosed
  exact ⟨s, hrun, hclosed, heof, hall.mpr hcounts⟩

end Computers
end Minnow
