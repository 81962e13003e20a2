import Minnow.DatagramAdapter
import Minnow.EventLoopRuns
import Minnow.TCPPeer

/-!
The TCPMinnowSocket: a TCPPeer driven by an event loop, between the stream socket that it
shares with its owner and the adapter of the network. What the owner does shows in what the
system calls on that socket answer. A turn of the loop is given by these answers, by those of
`poll` and `getsockopt`, by the clock, and by whether the owner has asked it to abort.
-/

namespace Minnow
open Throwing EventLoop

/-- What the system calls of a turn answer; the adapter may be written to several times. -/
structure SocketAnswers (β : Type) where
  threadRead : Outcome
  threadWrite : CountOutcome
  threadShutdown : CountOutcome
  adapterRead : β
  adapterWrite : Nat → β
  adapterTick : β

/-- The variables of a socket whose TCPPeer has been initialized. -/
structure MinnowSocket (α β : Type) where
  threadData : Channel
  datagramAdapter : α
  tcp : TCPPeer
  outgoingSegments : List TCPSegment := []
  inboundShutdown : Bool := false
  outboundShutdown : Bool := false
  fullyAcked : Bool := false
  answers : SocketAnswers β

namespace MinnowSocket

variable {α β : Type}

/-- The loop of `collect_segments`. Each turn that does not leave it takes a segment. -/
def collectLoop : Nat → TCPPeer → Except Exception (TCPPeer × List TCPSegment)
  | 0, tcp => .ok (tcp, [])
  | turns + 1, tcp => do
      let (tcp, seg) ← thrown tcp.maybeSend
      match seg with
      | none => return (tcp, [])
      | some seg =>
          let (tcp, segs) ← collectLoop turns tcp
          return (tcp, seg :: segs)

/-- More turns than there can be segments to take: those that are ready, one for each sequence
number of the window, and one that is empty. -/
def collectTurns (tcp : TCPPeer) : Nat :=
  tcp.sender.readyToSend.length + tcp.sender.availableWinSz + 2

def collectSegments (w : MinnowSocket α β) : Except Exception (MinnowSocket α β) := do
  let (tcp, segs) ← collectLoop (collectTurns w.tcp) w.tcp
  return { w with tcp, outgoingSegments := w.outgoingSegments ++ segs }

/-- Rule 1: receive a TCP segment from the network. -/
def receiveSegment (a : Adapter α β) (id : RuleId) : FDRule (MinnowSocket α β) where
  id
  categoryId := 0
  fd w := a.fd w.datagramAdapter
  direction := .In
  callback w := do
    let (datagramAdapter, seg) ← a.read w.answers.adapterRead w.datagramAdapter
    let w := { w with datagramAdapter }
    let w ← match seg with
      | some seg => collectSegments { w with tcp := w.tcp.receive seg }
      | none => pure w
    let acked := w.threadData.fd.eof && w.tcp.sender.sequenceNumbersInFlight == 0
    return ({ w with fullyAcked := w.fullyAcked || acked }, [])
  interest w := w.tcp.active
  cancel := FDRule.cancelNothing
  recover := FDRule.neverRecover

/-- Rule 2: push bytes to the TCPPeer. -/
def pushBytes (id : RuleId) : FDRule (MinnowSocket α β) where
  id
  categoryId := 0
  fd w := w.threadData.fd
  direction := .In
  callback w := do
    let (threadData, outboundStream) ←
      w.threadData.readInto w.answers.threadRead w.tcp.outboundStream
    let tcp ← thrown { w.tcp with outboundStream }.push
    let outboundShutdown := w.outboundShutdown || threadData.fd.eof
    return (← collectSegments { w with threadData, tcp, outboundShutdown }, [])
  interest w := w.tcp.active && !w.outboundShutdown &&
    decide (0 < w.tcp.outboundStream.availableCapacity)
  cancel w := .ok ({ w with
    tcp := { w.tcp with outboundStream := w.tcp.outboundStream.close }
    outboundShutdown := true }, [])
  recover := FDRule.neverRecover

/-- Rule 3: read bytes from the inbound stream. -/
def readBytes (id : RuleId) : FDRule (MinnowSocket α β) where
  id
  categoryId := 0
  fd w := w.threadData.fd
  direction := .Out
  callback w := do
    let (threadData, inboundStream) ←
      w.threadData.writeFrom w.answers.threadWrite w.tcp.inboundStream
    let w := { w with threadData, tcp := { w.tcp with inboundStream } }
    if inboundStream.isFinished || inboundStream.hasError then
      let threadData ← threadData.shutdownWrite w.answers.threadShutdown
      return ({ w with threadData, inboundShutdown := true }, [])
    else return (w, [])
  interest w := w.tcp.inboundStream.bytesBuffered != 0 ||
    (w.tcp.inboundStream.isFinished || w.tcp.inboundStream.hasError) && !w.inboundShutdown
  cancel := FDRule.cancelNothing
  recover := FDRule.neverRecover

/-- The loop of rule 4; `k` segments have been written before. -/
def writeSegments (a : Adapter α β) (answers : Nat → β) :
    Nat → List TCPSegment → α → Except Exception α
  | _, [], datagramAdapter => .ok datagramAdapter
  | k, seg :: segs, datagramAdapter => do
      let datagramAdapter ← a.write (answers k) seg datagramAdapter
      writeSegments a answers (k + 1) segs datagramAdapter

/-- Rule 4: send TCP segments. -/
def sendSegments (a : Adapter α β) (id : RuleId) : FDRule (MinnowSocket α β) where
  id
  categoryId := 0
  fd w := a.fd w.datagramAdapter
  direction := .Out
  callback w := do
    let datagramAdapter ←
      writeSegments a w.answers.adapterWrite 0 w.outgoingSegments w.datagramAdapter
    return ({ w with datagramAdapter, outgoingSegments := [] }, [])
  interest w := !w.outgoingSegments.isEmpty
  cancel := FDRule.cancelNothing
  recover := FDRule.neverRecover

/-- A socket with a new TCPPeer; its two stream sockets have been made non-blocking. -/
def start (threadData : Descriptor) (datagramAdapter : α) (answers : SocketAnswers β)
    (config : TCPConfig) (random : Wrap32) : MinnowSocket α β where
  threadData := { fd := { threadData with nonBlocking := true } }
  datagramAdapter
  tcp := TCPPeer.ofConfig config random
  answers

/-- `_initialize_TCP`: the event loop gets its four rules. -/
def initializeTCP (a : Adapter α β) (world : MinnowSocket α β) :
    Except Exception (EventLoop (MinnowSocket α β)) := do
  let e ← (EventLoop.start world).addNamedFDRule "receive TCP segment from the network"
    (receiveSegment a)
  let e ← e.addNamedFDRule "push bytes to TCPPeer" pushBytes
  let e ← e.addNamedFDRule "read bytes from inbound stream" readBytes
  e.addNamedFDRule "send TCP segment" (sendSegments a)

def withWorld (e : EventLoop (MinnowSocket α β)) (world : MinnowSocket α β) :
    EventLoop (MinnowSocket α β) :=
  { e with memory := { e.memory with world } }

/-- What comes of `connect` before its loop. -/
def connect (a : Adapter α β) (world : MinnowSocket α β) (config : FdAdapterConfig)
    (lossRates : LossRates) : Except Exception (EventLoop (MinnowSocket α β)) := do
  let e ← initializeTCP a world
  let w := { world with datagramAdapter := a.configure config lossRates world.datagramAdapter }
  let tcp ← thrown w.tcp.push
  let w ← collectSegments { w with tcp }
  if w.tcp.sender.sequenceNumbersInFlight ≠ 1 then
    throw (.runtimeError
      "After TCPConnection::connect(), expected sequence_numbers_in_flight() == 1")
  return withWorld e w

/-- What comes of `listen_and_accept` before its loop. -/
def listenAndAccept (a : Adapter α β) (world : MinnowSocket α β) (config : FdAdapterConfig)
    (lossRates : LossRates) : Except Exception (EventLoop (MinnowSocket α β)) := do
  let e ← initializeTCP a world
  return withWorld e { world with
    datagramAdapter := a.setListening true (a.configure config lossRates world.datagramAdapter) }

/-- A turn of `_tcp_loop`: what the system calls answer, the time by the clock at its end, and
whether the owner has asked the socket to abort by then. -/
structure Turn (β : Type) where
  answers : SocketAnswers β
  kernel : Kernel
  now : Nat
  abort : Bool

/-- The event loop in the middle of `_tcp_loop`, with the time of the last tick. -/
structure Running (α β : Type) where
  eventLoop : EventLoop (MinnowSocket α β)
  baseTime : Nat

def Running.socket (r : Running α β) : MinnowSocket α β := r.eventLoop.memory.world

/-- The body of `_tcp_loop`, and whether it leaves the loop. -/
def tcpTurn (a : Adapter α β) (r : Running α β) (t : Turn β) :
    Except Exception (Running α β × Bool) := do
  let e := withWorld r.eventLoop { r.socket with answers := t.answers }
  let (ret, e) ← e.waitNextEvent t.kernel
  if ret = .Exit ∨ t.abort then return (⟨e, r.baseTime⟩, true)
  else if e.memory.world.tcp.active then
    let w := e.memory.world
    let w ← collectSegments { w with tcp := w.tcp.tick (t.now - r.baseTime) }
    let datagramAdapter ← a.tick t.answers.adapterTick (t.now - r.baseTime) w.datagramAdapter
    return (⟨withWorld e { w with datagramAdapter }, t.now⟩, false)
  else return (⟨e, r.baseTime⟩, false)

/-- `_tcp_loop` for as many turns as are given; whether it has ended. -/
def tcpLoop (a : Adapter α β) (condition : MinnowSocket α β → Bool) :
    Running α β → List (Turn β) → Except Exception (Running α β × Bool)
  | r, [] => .ok (r, !condition r.socket)
  | r, t :: turns =>
      if condition r.socket then do
        let (r, ended) ← tcpTurn a r t
        if ended then return (r, true) else tcpLoop a condition r turns
      else .ok (r, true)

/-- The condition of the loop of `connect`. -/
def connecting (w : MinnowSocket α β) : Bool := w.tcp.sender.sequenceNumbersInFlight == 1

/-- The condition of the loop of `listen_and_accept`. -/
def accepting (w : MinnowSocket α β) : Bool :=
  !w.tcp.hasAckno || w.tcp.sender.sequenceNumbersInFlight != 0

/-- The loop of `_tcp_main`. -/
def tcpMain (a : Adapter α β) : Running α β → List (Turn β) →
    Except Exception (Running α β × Bool) :=
  tcpLoop a fun _ => true

/-- The function that opens a socket. -/
inductive Opening where
  | connect
  | listenAndAccept
  deriving Repr, DecidableEq

def Opening.begin (o : Opening) (a : Adapter α β) (world : MinnowSocket α β)
    (config : FdAdapterConfig) (lossRates : LossRates) :
    Except Exception (EventLoop (MinnowSocket α β)) :=
  match o with
  | .connect => MinnowSocket.connect a world config lossRates
  | .listenAndAccept => MinnowSocket.listenAndAccept a world config lossRates

def Opening.condition : Opening → MinnowSocket α β → Bool
  | .connect => connecting
  | .listenAndAccept => accepting

/-- A socket from its opening on: the turns of the loop there, and those of its thread. The two
loops start at the times given. -/
def life (a : Adapter α β) (o : Opening) (world : MinnowSocket α β) (config : FdAdapterConfig)
    (lossRates : LossRates) (opened started : Nat) (opening turns : List (Turn β)) :
    Except Exception (Running α β × Bool) := do
  let e ← o.begin a world config lossRates
  let (r, ended) ← tcpLoop a o.condition ⟨e, opened⟩ opening
  if ended then tcpMain a ⟨r.eventLoop, started⟩ turns else return (r, false)

end MinnowSocket
end Minnow
