import Minnow.MinnowSocketTurns

/-!
Two sockets over a network. Each takes the turns of its loop whenever it likes, and what its
device delivers is a datagram that the other's has taken, at any time, any number of times and
in any order, or never. What the two do is a conversation of their TCPPeers.
-/

namespace Minnow
open Throwing EventLoop Transition

namespace Conversation
open TCPPeer (Streams Traffic)

/-- The conversation of two peers with their traffic. -/
def table (x : Side → TCPPeer × Traffic) : Conversation × (Side → Streams) :=
  (⟨fun d => (x d).1, fun d => (x d).2.emitted⟩, fun d => (x d).2.toStreams)

variable {x : Side → TCPPeer × Traffic} {d : Side}

/-- What a step is, by the input of the peer that it comes to. -/
theorem step_of_inputOf {s : Conversation} {input : Input} {act : TCPPeer.Input}
    (h : s.inputOf d input = some act) : s.step (d, input) = {
      peer := Function.update s.peer d ((s.peer d).step act)
      emitted := Function.update s.emitted d (s.emitted d ++ (s.peer d).handed act) } := by
  have hquiet : Function.update s.emitted d (s.emitted d ++ []) = s.emitted := by
    rw [List.append_nil, Function.update_eq_self]
  cases input with
  | deliver j =>
      simp only [inputOf, Option.map_eq_some_iff] at h
      obtain ⟨e, he, rfl⟩ := h
      simp only [step, he, Conversation.act, TCPPeer.handed, hquiet]
  | write data =>
      simp only [inputOf, Option.ite_none_left_eq_some, Option.some.injEq] at h
      obtain ⟨hopen, rfl⟩ := h
      simp only [step, hopen, Conversation.act, TCPPeer.handed, hquiet, Bool.false_eq_true,
        if_false]
  | maybeSend =>
      cases h
      rfl
  | _ =>
      cases h
      simp only [step, Conversation.act, TCPPeer.handed, hquiet]

theorem table_act {input : Input} {act : TCPPeer.Input}
    (h : (table x).1.inputOf d input = some act) :
    observe step note (table x) (d, input) =
      table (Function.update x d (TCPPeer.drive (x d) act)) := by
  have hstep := step_of_inputOf h
  have hnote : note (table x).1 (d, input) (table x).2 =
      Function.update (table x).2 d (((table x).1.peer d).note act ((table x).2 d)) := by
    simp only [note, h]
  rw [observe, hstep, hnote]
  have hsame {γ : Type} (f : TCPPeer × Traffic → γ) :
      Function.update (fun e => f (x e)) d (f (TCPPeer.drive (x d) act)) =
        fun e => f (Function.update x d (TCPPeer.drive (x d) act) e) :=
    (Function.comp_update f x d _).symm
  exact congrArg₂ _ (congrArg₂ _ (hsame Prod.fst) (hsame fun c => c.2.emitted))
    (hsame fun c => c.2.toStreams)

/-- What one peer is driven to, when what it receives has been sent, the conversation comes to. -/
theorem table_leads {offered : TCPSegment → Prop} {y : TCPPeer × Traffic}
    (hoffered : ∀ seg, offered seg → ∃ s ∈ (x d.other).2.segments, s.bare = seg.bare)
    (hleads : Leads TCPPeer.drive (TCPPeer.Permitted offered) (x d) y) :
    Leads (observe step note) (fun _ _ => True) (table x) (table (Function.update x d y)) := by
  refine hleads.invariant (P := fun z => Leads (observe step note) (fun _ _ => True) (table x)
    (table (Function.update x d z))) ?_ ?_
  · rw [Function.update_eq_self]
    exact Leads.refl _
  · intro z act hz hok
    have hstep (input : Input) {act' : TCPPeer.Input}
        (hact : (table (Function.update x d z)).1.inputOf d input = some act')
        (hsame : TCPPeer.drive z act' = TCPPeer.drive z act) :
        Leads (observe step note) (fun _ _ => True) (table x)
          (table (Function.update x d (TCPPeer.drive z act))) := by
      have hnext := hz.snoc (i := (d, input)) trivial
      rw [table_act hact, Function.update_self, Function.update_idem, hsame] at hnext
      exact hnext
    cases act with
    | receive seg =>
        obtain ⟨s, hs, hbare⟩ := hoffered seg hok
        obtain ⟨e, he, rfl⟩ := List.mem_map.mp hs
        obtain ⟨j, hj⟩ := List.getElem?_of_mem he
        have hact : (table (Function.update x d z)).1.inputOf d (.deliver j) =
            some (.receive e.segment) := by
          simp only [inputOf, table, Function.update_of_ne d.other_ne, hj, Option.map_some]
        refine hstep (.deliver j) hact ?_
        have hreceive (p : TCPPeer) : p.receive e.segment = p.receive seg := by
          have hsender := congrArg TCPSegment.senderMessage hbare
          have hreceiver := congrArg TCPSegment.receiverMessage hbare
          have hreset := congrArg TCPSegment.reset hbare
          simp only [TCPSegment.bare] at hsender hreceiver hreset
          simp only [TCPPeer.receive, hsender, hreceiver, hreset]
        exact congrArg (fun p => (p, _)) (hreceive z.1)
    | write data =>
        have hopen : (table (Function.update x d z)).1.inputOf d (.write data) =
            some (.write data) := by
          have hclosed : z.1.outboundStream.isClosed = false := hok
          simp only [inputOf, table, Function.update_self, hclosed, Bool.false_eq_true, if_false]
        exact hstep (.write data) hopen rfl
    | close pushes => exact hstep (.close pushes) rfl rfl
    | push => exact hstep .push rfl rfl
    | maybeSend => exact hstep .maybeSend rfl rfl
    | tick ms => exact hstep (.tick ms) rfl rfl
    | pop len => exact hstep (.pop len) rfl rfl

end Conversation

namespace MinnowSocket
open TCPPeer

variable {α β : Type} {a : Adapter α β}

/-- What a socket is made from and opened with. -/
structure Setup (α β : Type) where
  opening : Opening
  threadData : Descriptor := {}
  datagramAdapter : α
  answers : SocketAnswers β
  tcpConfig : TCPConfig
  random : Wrap32
  config : FdAdapterConfig
  lossRates : LossRates

def Setup.begin (u : Setup α β) (a : Adapter α β) :
    Except Exception (EventLoop (MinnowSocket α β)) :=
  u.opening.begin a (start u.threadData u.datagramAdapter u.answers u.tcpConfig u.random) u.config
    u.lossRates

/-- A turn of the socket on one side; the loop that it is of may just have started. -/
structure Move (β : Type) where
  side : Side
  baseTime : Nat
  turn : Turn β

/-- What the device delivers in a turn has been sent by the socket on the other side. -/
def Delivers (k : a.Carrier) (sender : MinnowSocket α β) (answers : SocketAnswers β) : Prop :=
  ∀ d ∈ k.offered answers.adapterRead, d ∈ k.written sender.datagramAdapter

instance (k : a.Carrier) (sender : MinnowSocket α β) (answers : SocketAnswers β) :
    Decidable (Delivers k sender answers) :=
  inferInstanceAs (Decidable (∀ d ∈ k.offered answers.adapterRead, _))

/-- A move happens only if what the device delivers has been sent by the other socket. -/
def pairStep (k : a.Carrier) (s : Side → Running α β) (m : Move β) :
    Except Exception (Side → Running α β) :=
  if Delivers k (s m.side.other).socket m.turn.answers then do
    let (r, _) ← tcpTurn a ⟨(s m.side).eventLoop, m.baseTime⟩ m.turn
    return Function.update s m.side r
  else .ok s

/-- The two sockets are opened, and take their turns in the order given. -/
def pairRun (k : a.Carrier) (u : Side → Setup α β) (moves : List (Move β)) :
    Except Exception (Side → Running α β) := do
  let left ← (u .left).begin a
  let right ← (u .right).begin a
  attempt (pairStep k) (fun d => ⟨if d = .left then left else right, 0⟩) moves

/-- A socket, with the traffic of its TCPPeer. -/
structure Seated (k : a.Carrier) (faulty : Prop) (e : EventLoop (MinnowSocket α β))
    (x : TCPPeer × Traffic) : Prop where
  loops : Loops k (fun _ => False) x faulty e
  drives : Drives k (fun _ => False) x e.memory.world x.2
  tcp : e.memory.world.tcp = x.1

variable {k : a.Carrier} {offered : TCPSegment → Prop} {begin : TCPPeer × Traffic}
  {faulty : Prop} {e e' : EventLoop (MinnowSocket α β)} {x : TCPPeer × Traffic}

/-- After some turns, with the traffic that there has been. -/
theorem seated_of_loops (h : Loops k offered begin faulty e) :
    ∃ x, Leads drive (Permitted offered) begin x ∧ Seated k faulty e x := by
  obtain ⟨⟨t, ht⟩, hidle, hclosing⟩ := h.serving
  have hserving : Serving k (fun _ => False) (e.memory.world.tcp, t) faulty e.memory.cancelled
      e.memory.world := ⟨⟨t, ht.restart _⟩, hidle, hclosing⟩
  exact ⟨_, ht.leads, { h with serving := hserving }, ht.restart _, rfl⟩

theorem Seated.restart (h : Seated k faulty e x) (offered : TCPSegment → Prop) :
    Loops k offered x faulty e := by
  obtain ⟨p, t⟩ := x
  obtain ⟨hloops, hdrives, rfl⟩ := h
  obtain ⟨-, hidle, hclosing⟩ := hloops.serving
  have hserving : Serving k offered (e.memory.world.tcp, t) faulty e.memory.cancelled
      e.memory.world := ⟨⟨t, hdrives.restart offered⟩, hidle, hclosing⟩
  exact { hloops with serving := hserving }

/-- A socket that has nothing left to do has shut down its owner's end. -/
theorem Seated.shutdown (h : Seated k faulty e x)
    (hexit : ∀ rule ∈ e.fdRules, Told rule.id false e.memory.world) :
    e.memory.world.threadData.shutdown = true ∨ faulty := by
  by_cases hfault : faulty
  · exact Or.inr hfault
  · have hnone : faulty = False := eq_false hfault
    rw [hnone] at h
    exact Or.inl (h.loops.finished hexit).shutdown

/-- The two sockets and a conversation of their TCPPeers. -/
structure Converses (k : a.Carrier) (faulty : Prop) (cfg : Side → TCPConfig)
    (random : Side → Wrap32) (s : Side → Running α β) (x : Side → TCPPeer × Traffic) : Prop where
  seated : ∀ d, Seated k faulty (s d).eventLoop (x d)
  leads : Leads (observe Conversation.step Conversation.note) (fun _ _ => True)
    (Conversation.table fun d => (ofConfig (cfg d) (random d), {})) (Conversation.table x)

variable {cfg : Side → TCPConfig} {random : Side → Wrap32} {s s' : Side → Running α β}
  {table : Side → TCPPeer × Traffic}

theorem Converses.tcp (h : Converses k faulty cfg random s table) (d : Side) :
    (s d).socket.tcp = (table d).1 := (h.seated d).tcp

theorem Converses.received (h : Converses k faulty cfg random s table) (d : Side) :
    (s d).socket.threadData.received = (table d).2.written := (h.seated d).drives.received

theorem Converses.sent (h : Converses k faulty cfg random s table) (d : Side) :
    (s d).socket.threadData.sent = (table d).2.consumed := (h.seated d).drives.sent

theorem Converses.counted (h : Converses k faulty cfg random s table) (d : Side) :
    (table d).2.written.length = (table d).1.outboundStream.bytesPushed := by
  rw [← h.tcp]
  exact (h.seated d).drives.counted

theorem Converses.move (h : Converses k faulty cfg random s table) {d : Side} {r : Running α β}
    {y : TCPPeer × Traffic} (hoffered : ∀ seg, offered seg → HandedOut (table d.other).2 seg.bare)
    (hleads : Leads drive (Permitted offered) (table d) y)
    (hseated : Seated k faulty r.eventLoop y) :
    Converses k faulty cfg random (Function.update s d r) (Function.update table d y) := by
  refine ⟨fun e => ?_, h.leads.trans (Conversation.table_leads hoffered hleads)⟩
  by_cases he : e = d
  · subst he
    rw [Function.update_self, Function.update_self]
    exact hseated
  · rw [Function.update_of_ne he, Function.update_of_ne he]
    exact h.seated e

/-- A turn in which the device delivers what the other socket has sent. -/
theorem Converses.turn (h : Converses k faulty cfg random s table) {d : Side} {r r' : Running α β}
    {t : Turn β} {left : Bool} (heq : r.eventLoop = (s d).eventLoop)
    (hready : t.answers.threadRead.Ready) (hfault : t.kernel.Faulty → faulty)
    (hsent : Delivers k (s d.other).socket t.answers)
    (hturn : tcpTurn a r t = .ok (r', left)) :
    (∃ table', Converses k faulty cfg random (Function.update s d r') table') ∧
      r.socket.threadData.Exchanges r'.socket.threadData t.answers.threadRead
        t.answers.threadWrite ∧
      (left = true → t.abort = true ∨
        ∀ rule ∈ r'.eventLoop.fdRules, Told rule.id false r'.socket) := by
  let offered (seg : TCPSegment) : Prop := HandedOut (table d.other).2 seg.bare
  have hanswers : Answers k offered t.answers := by
    refine ⟨hready, fun dgram hdgram seg hseg => ?_⟩
    exact k.sent (h.seated d.other).drives.keeps (hsent dgram hdgram) hseg
  have hloops : Loops k offered (table d) faulty r.eventLoop := by
    rw [heq]
    exact (h.seated d).restart offered
  obtain ⟨hloops', hleaves⟩ := hloops.turn hanswers hfault hturn
  obtain ⟨y, hleads, hseated⟩ := seated_of_loops hloops'
  exact ⟨⟨_, h.move (fun seg hseg => hseg) hleads hseated⟩,
    hloops.exchanges hanswers hfault hturn, hleaves⟩

theorem Converses.step (h : Converses k True cfg random s table) {m : Move β}
    (hready : m.turn.answers.threadRead.Ready) (hstep : pairStep k s m = .ok s') :
    ∃ table', Converses k True cfg random s' table' := by
  rw [pairStep] at hstep
  split at hstep
  · next hsent =>
      obtain ⟨⟨r, ended⟩, hturn, hstep⟩ := bind_eq_ok.mp hstep
      cases hstep
      exact (h.turn (r := ⟨(s m.side).eventLoop, m.baseTime⟩) rfl hready (fun _ => trivial) hsent
        hturn).1
  · cases hstep
    exact ⟨table, h⟩

theorem converses_start {u : Side → Setup α β} {e : Side → EventLoop (MinnowSocket α β)}
    (hfresh : ∀ d, Fresh k (u d).threadData (u d).datagramAdapter)
    (hbegin : ∀ d, (u d).begin a = .ok (e d)) :
    ∃ table, Converses k faulty (fun d => (u d).tcpConfig) (fun d => (u d).random)
      (fun d => ⟨e d, 0⟩) table := by
  have hopened (d : Side) : ∃ x, Leads drive (Permitted fun _ => False)
      (ofConfig (u d).tcpConfig (u d).random, {}) x ∧ Seated k faulty (e d) x :=
    seated_of_loops (loops_begin (hfresh d) (hbegin d))
  choose table hleads hseated using hopened
  refine ⟨table, hseated, ?_⟩
  have hnone (x : Side → TCPPeer × Traffic) (d : Side) (seg : TCPSegment) (h : False) :
      ∃ s ∈ (x d.other).2.segments, s.bare = seg.bare := h.elim
  let x (d : Side) : TCPPeer × Traffic := (ofConfig (u d).tcpConfig (u d).random, {})
  have hleft := Conversation.table_leads (hnone x .left) (hleads .left)
  have hright := Conversation.table_leads (hnone (Function.update x .left (table .left)) .right)
    (hleads .right)
  have hboth : Function.update (Function.update x .left (table .left)) .right (table .right) =
      table := by
    funext d
    cases d <;> rfl
  rw [hboth] at hright
  exact hleft.trans hright

theorem converses_run {u : Side → Setup α β} {moves : List (Move β)}
    (hfresh : ∀ d, Fresh k (u d).threadData (u d).datagramAdapter)
    (hready : ∀ m ∈ moves, m.turn.answers.threadRead.Ready) (hrun : pairRun k u moves = .ok s) :
    ∃ table, Converses k True (fun d => (u d).tcpConfig) (fun d => (u d).random) s table := by
  obtain ⟨left, hleft, hrun⟩ := bind_eq_ok.mp hrun
  obtain ⟨right, hright, hrun⟩ := bind_eq_ok.mp hrun
  refine attempt_invariant
    (P := fun s => ∃ table,
      Converses k True (fun d => (u d).tcpConfig) (fun d => (u d).random) s table)
    ?_ (fun s m hm s' ⟨table, hs⟩ hstep => hs.step (hready m hm) hstep) hrun
  refine converses_start hfresh fun d => ?_
  cases d with
  | left => exact hleft
  | right => exact hright

theorem Converses.flowing (h : Converses k faulty cfg random s table)
    (hwithin : ∀ d, (s d).socket.threadData.received.length < 2 ^ 31 - 2) :
    Conversation.Flowing (fun d => (cfg d).fixedIsn.getD (random d))
      (fun d => (cfg d).rtTimeout.toNat) (Conversation.table table) := by
  obtain ⟨inputs, -, hinputs⟩ := h.leads
  have hrun : Conversation.runFrom cfg random inputs = Conversation.table table := hinputs
  have hbytes : (Conversation.table table).1.Within := by
    intro d
    have hlength := hwithin d
    rw [h.received, h.counted] at hlength
    exact hlength
  rw [← hrun] at hbytes ⊢
  exact Conversation.flowing_run cfg random hbytes

/-- What the owners of two sockets have given and got. -/
theorem Converses.in_order (h : Converses k faulty cfg random s table)
    (hwithin : ∀ d, (s d).socket.threadData.received.length < 2 ^ 31 - 2) (d : Side) :
    (s d.other).socket.threadData.sent ++ (s d.other).socket.tcp.inboundStream.contents <+:
        (s d).socket.threadData.received ∧
      (s d).socket.tcp.inboundStream.hasError = false := by
  have hflowing := h.flowing hwithin
  constructor
  · rw [h.sent, h.received, h.tcp]
    exact hflowing.prefix_written d
  · obtain ⟨history, hs, -⟩ := hflowing
    rw [h.tcp]
    exact hs.inbound d

/-- The streams of the TCPPeers count what the owners have given and got. -/
theorem Converses.streams (h : Converses k faulty cfg random s table)
    (hwithin : ∀ d, (s d).socket.threadData.received.length < 2 ^ 31 - 2) (d : Side) :
    (s d).socket.threadData.received.length = (s d).socket.tcp.outboundStream.bytesPushed ∧
      (s d.other).socket.threadData.sent.length =
        (s d.other).socket.tcp.inboundStream.bytesPopped := by
  rw [h.received, h.sent, h.tcp, h.tcp]
  exact ⟨h.counted d, (h.flowing hwithin).popped d⟩

/-- A socket that shuts down its owner's end has seen the other socket's owner close its own, and
has been sent all that there was to send, unless the kernel has reported an error. -/
theorem Converses.ended (h : Converses k False cfg random s table)
    (hwithin : ∀ d, (s d).socket.threadData.received.length < 2 ^ 31 - 2) {d : Side}
    (hshut : (s d.other).socket.threadData.shutdown = true) :
    (s d).socket.threadData.fd.eof = true ∧ (s d).socket.tcp.outboundStream.isFinished = true := by
  have hclosing := (h.seated d).loops.serving.closing
  have hclosingOther := (h.seated d.other).loops.serving.closing
  have hflowing := h.flowing hwithin
  have hover : (s d.other).socket.tcp.inboundStream.isClosed = true := by
    have hdone := hclosingOther.inbound.symm.trans hshut
    refine (hclosingOther.inboundEnded hdone).resolve_right fun herror => ?_
    have hclean := (h.in_order hwithin d.other).2
    rw [Running.socket, herror] at hclean
    cases hclean
  rw [h.tcp] at hover
  have hfinished := hflowing.finished hover
  have hended : (s d).socket.tcp.outboundStream.isFinished = true := by
    rw [h.tcp]
    exact hfinished
  refine ⟨?_, hended⟩
  rw [ByteStream.isFinished, Bool.and_eq_true] at hended
  exact hclosing.ownerClosed hended.1

/-- Two sockets over a network that delivers whichever of their datagrams it likes, as often and
in whatever order it likes: however the two are opened and take their turns, as long as no read
of an owner's bytes asks to be made again, what the owner on one side has got, with what its
socket still holds for it, is the beginning of what the owner on the other side has written, in
both directions at once; and neither connection is reset. -/
theorem sockets_deliver_in_order (k : a.Carrier) {u : Side → Setup α β} {moves : List (Move β)}
    (hfresh : ∀ d, Fresh k (u d).threadData (u d).datagramAdapter)
    (hready : ∀ m ∈ moves, m.turn.answers.threadRead.Ready) (hrun : pairRun k u moves = .ok s)
    (hwithin : ∀ d, (s d).socket.threadData.received.length < 2 ^ 31 - 2) (d : Side) :
    (s d.other).socket.threadData.sent ++ (s d.other).socket.tcp.inboundStream.contents <+:
        (s d).socket.threadData.received ∧
      (s d).socket.tcp.inboundStream.hasError = false := by
  obtain ⟨table, hconverses⟩ := converses_run hfresh hready hrun
  exact hconverses.in_order hwithin d

/-- Two sockets over Ethernet deliver in order, though each also sends and learns addresses. -/
theorem ethernet_sockets_in_order {u : Side → Setup TCPOverIPv4OverTapFdAdapter DeviceAnswers}
    {s : Side → Running TCPOverIPv4OverTapFdAdapter DeviceAnswers}
    {moves : List (Move DeviceAnswers)}
    (hnew : ∀ d, (u d).threadData = {} ∧ (u d).datagramAdapter.New)
    (hready : ∀ m ∈ moves, m.turn.answers.threadRead.Ready)
    (hrun : pairRun TCPOverIPv4OverTapFdAdapter.carrier u moves = .ok s)
    (hwithin : ∀ d, (s d).socket.threadData.received.length < 2 ^ 31 - 2) (d : Side) :
    (s d.other).socket.threadData.sent <+: (s d).socket.threadData.received := by
  have hfresh (d : Side) : Fresh TCPOverIPv4OverTapFdAdapter.carrier (u d).threadData
      (u d).datagramAdapter := by
    rw [(hnew d).1]
    exact fresh_tap (hnew d).2
  obtain ⟨table, hconverses⟩ := converses_run hfresh hready hrun
  exact (List.prefix_append _ _).trans (hconverses.in_order hwithin d).1

/-- So do two over TUN devices that drop some of what comes and goes. -/
theorem lossy_sockets_in_order
    {u : Side → Setup (LossyFdAdapter TCPOverIPv4OverTunFdAdapter) DeviceAnswers}
    {s : Side → Running (LossyFdAdapter TCPOverIPv4OverTunFdAdapter) DeviceAnswers}
    {moves : List (Move DeviceAnswers)}
    (hnew : ∀ d, (u d).threadData = {} ∧ (u d).datagramAdapter.adapter = {})
    (hready : ∀ m ∈ moves, m.turn.answers.threadRead.Ready)
    (hrun : pairRun (LossyFdAdapter.carrier TCPOverIPv4OverTunFdAdapter.carrier) u moves = .ok s)
    (hwithin : ∀ d, (s d).socket.threadData.received.length < 2 ^ 31 - 2) (d : Side) :
    (s d.other).socket.threadData.sent <+: (s d).socket.threadData.received := by
  have hfresh (d : Side) : Fresh (LossyFdAdapter.carrier TCPOverIPv4OverTunFdAdapter.carrier)
      (u d).threadData (u d).datagramAdapter := by
    refine fresh_lossy ?_
    rw [(hnew d).1, (hnew d).2]
    exact fresh_tun
  obtain ⟨table, hconverses⟩ := converses_run hfresh hready hrun
  exact (List.prefix_append _ _).trans (hconverses.in_order hwithin d).1

/-- A client and a server over TUN devices. -/
def tunPair (d : Side) : Setup TCPOverIPv4OverTunFdAdapter DeviceAnswers where
  opening := if d = .left then .connect else .listenAndAccept
  datagramAdapter := {}
  answers := (tunTurn 0 {}).answers
  tcpConfig := { fixedIsn := some ⟨7⟩, sendCapacity := 8, recvCapacity := 8 }
  random := ⟨0⟩
  config :=
    if d = .left then { source := ⟨⟨1⟩, 10⟩, destination := ⟨⟨2⟩, 20⟩ }
    else { source := ⟨⟨2⟩, 20⟩ }
  lossRates := {}

/-- The client connects and its owner writes a byte; the segment that carries it comes twice. -/
def tunMoves : List (Move DeviceAnswers) :=
  let syn := [69, 0, 0, 40, 0, 0, 64, 0, 128, 6, 250, 205, 0, 0, 0, 1, 0, 0, 0, 2, 0, 10, 0, 20,
    0, 0, 0, 7, 0, 0, 0, 0, 80, 2, 0, 8, 175, 179, 0, 0]
  let synAck := [69, 0, 0, 40, 0, 0, 64, 0, 128, 6, 250, 205, 0, 0, 0, 2, 0, 0, 0, 1, 0, 20, 0, 10,
    0, 0, 0, 7, 0, 0, 0, 8, 80, 18, 0, 8, 175, 155, 0, 0]
  let data := [69, 0, 0, 41, 0, 0, 64, 0, 128, 6, 250, 204, 0, 0, 0, 1, 0, 0, 0, 2, 0, 10, 0, 20,
    0, 0, 0, 8, 0, 0, 0, 8, 80, 16, 0, 8, 170, 155, 0, 0, 5]
  [⟨.left, 0, tunTurn 3 { pollout := true }⟩,
    ⟨.right, 0, tunTurn 0 { pollin := true } (.filled []) (.filled syn)⟩,
    ⟨.right, 0, tunTurn 3 { pollout := true }⟩,
    ⟨.left, 0, tunTurn 0 { pollin := true } (.filled []) (.filled synAck)⟩,
    ⟨.left, 0, tunTurn 1 { pollin := true } (.filled [5])⟩,
    ⟨.left, 0, tunTurn 3 { pollout := true }⟩,
    ⟨.right, 0, tunTurn 0 { pollin := true } (.filled []) (.filled data)⟩,
    ⟨.right, 0, tunTurn 0 { pollin := true } (.filled []) (.filled data)⟩,
    ⟨.right, 0, tunTurn 2 { pollout := true }⟩]

theorem sockets_deliver_in_order_tun : ∃ s,
    pairRun TCPOverIPv4OverTunFdAdapter.carrier tunPair tunMoves = .ok s ∧
      (s .right).socket.threadData.sent = [5] ∧ (s .left).socket.threadData.received = [5] ∧
      ∀ d : Side, (s d.other).socket.threadData.sent <+: (s d).socket.threadData.received := by
  have hrun : (pairRun TCPOverIPv4OverTunFdAdapter.carrier tunPair tunMoves).toOption.map
      (fun s => ((s .right).socket.threadData.sent, (s .left).socket.threadData.received,
        (s .right).socket.threadData.received)) = some ([5], [5], []) := by decide +kernel
  cases hpair : pairRun TCPOverIPv4OverTunFdAdapter.carrier tunPair tunMoves with
  | error e =>
      rw [hpair] at hrun
      cases hrun
  | ok s =>
      rw [hpair, Except.toOption, Option.map_some, Option.some.injEq] at hrun
      simp only [Prod.mk.injEq] at hrun
      obtain ⟨hsent, hleft, hright⟩ := hrun
      have hready : ∀ m ∈ tunMoves, m.turn.answers.threadRead.Ready := by decide
      have hwithin (d : Side) : (s d).socket.threadData.received.length < 2 ^ 31 - 2 := by
        cases d with
        | left => rw [hleft]; decide
        | right => rw [hright]; decide
      refine ⟨s, rfl, hsent, hleft, fun d => ?_⟩
      have hall := sockets_deliver_in_order TCPOverIPv4OverTunFdAdapter.carrier
        (fun _ => fresh_tun) hready hpair hwithin d
      exact (List.prefix_append _ _).trans hall.1

end MinnowSocket
end Minnow
