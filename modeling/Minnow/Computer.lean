import Minnow.MinnowSocketPairs
import Minnow.StreamCopyTurns

/-!
Two computers that run `bidirectional_stream_copy` over a TCPMinnowSocket each. The copying
program and the thread of the socket take their turns whenever they like, and share a pair of
stream sockets; the devices of the two sockets share a network. A throw ends the run.
-/

namespace Minnow
open Throwing EventLoop

/-- The program and the socket: whether the socket has been opened, which the program waits for,
whether the program's copying has returned, and whether the socket's thread has left its loop. -/
structure Computer (α β : Type) where
  copy : EventLoop StreamCopy
  socket : MinnowSocket.Running α β
  opened : Bool := false
  returned : Bool := false
  ended : Bool := false

namespace Computer

variable {α β : Type}

/-- The program's end of the pair of stream sockets. -/
def owner (c : Computer α β) : Channel := c.copy.memory.world.socket

/-- The thread's end. -/
def thread (c : Computer α β) : Channel := c.socket.socket.threadData

def input (c : Computer α β) : Channel := c.copy.memory.world.input

def output (c : Computer α β) : Channel := c.copy.memory.world.output

def tcp (c : Computer α β) : TCPPeer := c.socket.socket.tcp

/-- A turn of the program's loop happens when the socket has been opened, and with answers that
the pair of stream sockets may give; its thread shuts it down at its end. -/
def copyTurn (c : Computer α β) (answers : CopyAnswers) (kernel : Kernel) :
    Except Exception (Computer α β) :=
  if c.opened ∧ c.returned = false ∧ c.owner.MayRead c.thread c.ended answers.socketRead ∧
      c.owner.MayWrite answers.socketWrite then do
    let (result, copy) ← (StreamCopy.answered c.copy answers).waitNextEvent kernel
    return { c with copy, returned := result = .Exit }
  else .ok c

/-- A turn of the socket, in the loop that opens it or in its thread's; when the program has
returned it shuts down the pair of stream sockets. Nobody aborts the socket. -/
def socketTurn (a : Adapter α β) (o : MinnowSocket.Opening) (c : Computer α β) (baseTime : Nat)
    (turn : MinnowSocket.Turn β) : Except Exception (Computer α β) :=
  if c.ended = false ∧ turn.abort = false ∧
      c.thread.MayRead c.owner c.returned turn.answers.threadRead ∧
      c.thread.MayWrite turn.answers.threadWrite then do
    let (socket, left) ← MinnowSocket.tcpTurn a ⟨c.socket.eventLoop, baseTime⟩ turn
    if c.opened then return { c with socket, ended := left }
    else return { c with socket, opened := left || !o.condition socket.socket }
  else .ok c

end Computer

namespace Computers
open MinnowSocket

variable {α β : Type} {a : Adapter α β}

inductive Input (β : Type) where
  | copy (side : Side) (answers : CopyAnswers) (kernel : Kernel)
  | socket (move : Move β)

def Input.kernel : Input β → Kernel
  | .copy _ _ kernel => kernel
  | .socket move => move.turn.kernel

/-- Reads of streams do not ask to be made again. -/
def Input.Ready : Input β → Prop
  | .copy _ answers _ => StreamCopy.Readable answers
  | .socket move => move.turn.answers.threadRead.Ready

instance : (input : Input β) → Decidable input.Ready
  | .copy _ _ _ => inferInstanceAs (Decidable (_ ∧ _))
  | .socket move => inferInstanceAs (Decidable move.turn.answers.threadRead.Ready)

/-- What a device delivers has been sent by the other socket. -/
def step (k : a.Carrier) (u : Side → Setup α β) (s : Side → Computer α β) :
    Input β → Except Exception (Side → Computer α β)
  | .copy d answers kernel => do
      let c ← (s d).copyTurn answers kernel
      return Function.update s d c
  | .socket m =>
      if Delivers k (s m.side.other).socket.socket m.turn.answers then do
        let c ← (s m.side).socketTurn a (u m.side).opening m.baseTime m.turn
        return Function.update s m.side c
      else .ok s

def run (k : a.Carrier) (u : Side → Setup α β) (inputs : List (Input β)) :
    Except Exception (Side → Computer α β) := do
  let copy ← StreamCopy.eventLoop (StreamCopy.start {})
  let left ← (u .left).begin a
  let right ← (u .right).begin a
  attempt (step k u) (fun d => { copy, socket := ⟨if d = .left then left else right, 0⟩ }) inputs

end Computers
end Minnow
