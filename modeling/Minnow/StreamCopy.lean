import Minnow.Channel
import Minnow.EventLoopInvariants

/-!
The program that copies its standard input to a socket and the socket to its standard output,
through two byte streams and the four rules of an event loop. A turn of the loop is given by
what the system calls of the hooks answer, and by what `poll` and `getsockopt` do.
-/

namespace Minnow
open Throwing EventLoop

/-- What the next system call on each descriptor answers. -/
structure CopyAnswers where
  inputRead : Outcome := .failed .EAGAIN
  socketWrite : CountOutcome := .failed .EAGAIN
  socketShutdown : CountOutcome := .returned 0
  socketRead : Outcome := .failed .EAGAIN
  outputWrite : CountOutcome := .failed .EAGAIN
  outputClose : CountOutcome := .returned 0
  deriving Repr, DecidableEq

/-- The variables of `bidirectional_stream_copy`. -/
structure StreamCopy where
  input : Channel
  output : Channel
  socket : Channel
  outbound : ByteStream
  inbound : ByteStream
  outboundShutdown : Bool := false
  inboundShutdown : Bool := false
  answers : CopyAnswers := {}
  deriving Repr, DecidableEq

namespace StreamCopy

def bufferSize : Nat := 1048576

/-- Read from stdin into the outbound byte stream. -/
def readInput (id : RuleId) : FDRule StreamCopy where
  id
  categoryId := 0
  fd w := w.input.fd
  direction := .In
  callback w := do
    let (input, outbound) ← w.input.readInto w.answers.inputRead w.outbound
    return ({ w with input, outbound }, [])
  interest w := !w.outbound.hasError && decide (0 < w.outbound.availableCapacity) &&
    !w.inbound.hasError
  cancel w := .ok ({ w with outbound := w.outbound.close }, [])
  recover := FDRule.neverRecover

/-- Read from the outbound byte stream into the socket. -/
def writeSocket (id : RuleId) : FDRule StreamCopy where
  id
  categoryId := 0
  fd w := w.socket.fd
  direction := .Out
  callback w := do
    let (socket, outbound) ← w.socket.writeFrom w.answers.socketWrite w.outbound
    if outbound.isFinished then
      let socket ← socket.shutdownWrite w.answers.socketShutdown
      return ({ w with socket, outbound, outboundShutdown := true }, [])
    else return ({ w with socket, outbound }, [])
  interest w := w.outbound.bytesBuffered != 0 || w.outbound.isFinished && !w.outboundShutdown
  cancel w := .ok ({ w with outbound := w.outbound.close }, [])
  recover := FDRule.neverRecover

/-- Read from the socket into the inbound byte stream. -/
def readSocket (id : RuleId) : FDRule StreamCopy where
  id
  categoryId := 0
  fd w := w.socket.fd
  direction := .In
  callback w := do
    let (socket, inbound) ← w.socket.readInto w.answers.socketRead w.inbound
    return ({ w with socket, inbound }, [])
  interest w := !w.inbound.hasError && decide (0 < w.inbound.availableCapacity) &&
    !w.outbound.hasError
  cancel w := .ok ({ w with inbound := w.inbound.close }, [])
  recover := FDRule.neverRecover

/-- Read from the inbound byte stream into stdout. -/
def writeOutput (id : RuleId) : FDRule StreamCopy where
  id
  categoryId := 0
  fd w := w.output.fd
  direction := .Out
  callback w := do
    let (output, inbound) ← w.output.writeFrom w.answers.outputWrite w.inbound
    if inbound.isFinished then
      let output ← output.close w.answers.outputClose
      return ({ w with output, inbound, inboundShutdown := true }, [])
    else return ({ w with output, inbound }, [])
  interest w := w.inbound.bytesBuffered != 0 || w.inbound.isFinished && !w.inboundShutdown
  cancel w := .ok ({ w with inbound := w.inbound.close }, [])
  recover := FDRule.neverRecover

/-- The variables before the first turn; the three descriptors have been made non-blocking. -/
def start (socket : Descriptor) : StreamCopy where
  input := { fd := { nonBlocking := true } }
  output := { fd := { nonBlocking := true } }
  socket := { fd := { socket with nonBlocking := true } }
  outbound := { capacity := bufferSize }
  inbound := { capacity := bufferSize }

/-- The event loop with its four rules. -/
def eventLoop (world : StreamCopy) : Except Exception (EventLoop StreamCopy) := do
  let e ← (EventLoop.start world).addNamedFDRule
    "read from stdin into outbound byte stream" readInput
  let e ← e.addNamedFDRule "read from outbound byte stream into socket" writeSocket
  let e ← e.addNamedFDRule "read from socket into inbound byte stream" readSocket
  e.addNamedFDRule "read from inbound byte stream into stdout" writeOutput

/-- What the system calls of a turn answer. -/
def answered (e : EventLoop StreamCopy) (answers : CopyAnswers) : EventLoop StreamCopy :=
  { e with memory := { e.memory with world := { e.memory.world with answers } } }

/-- The loop until `Exit`, for as many turns as are given; whether it has returned. -/
def loop : EventLoop StreamCopy → List (CopyAnswers × Kernel) →
    Except Exception (EventLoop StreamCopy × Bool)
  | e, [] => .ok (e, false)
  | e, (answers, kernel) :: turns => do
      let (result, e) ← (answered e answers).waitNextEvent kernel
      if result = .Exit then return (e, true) else loop e turns

/-- `bidirectional_stream_copy` over some turns. -/
def bidirectionalStreamCopy (socket : Descriptor) (turns : List (CopyAnswers × Kernel)) :
    Except Exception (EventLoop StreamCopy × Bool) := do
  let e ← eventLoop (start socket)
  loop e turns

end StreamCopy
end Minnow
