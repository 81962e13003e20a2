import Minnow.TCPReceiver
import Minnow.TCPSegment
import Minnow.TCPSender

/-!
The TCPPeer: a sender and a receiver with the streams between them and the application.
It is driven from outside and reports by `active` whether it still has to be.
-/

namespace Minnow

structure TCPConfig where
  rtTimeout : UInt16 := 1000
  recvCapacity : Nat := 64000
  sendCapacity : Nat := 64000
  fixedIsn : Option Wrap32 := none
  deriving Repr, DecidableEq

structure TCPPeer where
  sender : TCPSender
  receiver : TCPReceiver := {}
  reassembler : Reassembler := {}
  outboundStream : ByteStream
  inboundStream : ByteStream
  needSend : Bool := false
  deriving Repr, DecidableEq

namespace TCPPeer

/-- A new peer. Without a configured initial sequence number it takes the random one. -/
def ofConfig (cfg : TCPConfig) (random : Wrap32) : TCPPeer :=
  { sender := { isn := cfg.fixedIsn.getD random, initialRTOms := cfg.rtTimeout.toNat }
    outboundStream := { capacity := cfg.sendCapacity }
    inboundStream := { capacity := cfg.recvCapacity } }

def push (p : TCPPeer) : Except String TCPPeer :=
  match p.sender.push p.outboundStream with
  | .error e => .error e
  | .ok (sender, outboundStream) => .ok { p with sender, outboundStream }

def tick (p : TCPPeer) (msSinceLastTick : Nat) : TCPPeer :=
  { p with sender := p.sender.tick msSinceLastTick }

def hasAckno (p : TCPPeer) : Bool := (p.receiver.send p.inboundStream).ackno.isSome

def active (p : TCPPeer) : Bool :=
  if p.inboundStream.hasError then false
  else !p.outboundStream.isFinished || !p.inboundStream.isClosed ||
    p.sender.sequenceNumbersInFlight != 0

def receive (p : TCPPeer) (seg : TCPSegment) : TCPPeer :=
  if seg.reset || p.inboundStream.hasError then
    { p with inboundStream := p.inboundStream.setError }
  else
    let ourAckno := (p.receiver.send p.inboundStream).ackno
    let received := p.receiver.receive seg.senderMessage p.reassembler p.inboundStream
    { p with
      sender := p.sender.receive seg.receiverMessage
      needSend := p.needSend || decide (0 < seg.senderMessage.sequenceLength) ||
        ourAckno == some (seg.senderMessage.seqno + (1 : UInt32))
      receiver := received.1
      reassembler := received.2.1
      inboundStream := received.2.2 }

def maybeSend (p : TCPPeer) : Except String (TCPPeer × Option TCPSegment) :=
  let receiverMsg := p.receiver.send p.inboundStream
  match (if receiverMsg.ackno.isSome then p.push else .ok p) with
  | .error e => .error e
  | .ok p =>
      let sent := p.sender.maybeSend
      let senderMsg := sent.2.or (if p.needSend then some p.sender.sendEmptyMessage else none)
      .ok ({ p with sender := sent.1, needSend := false }, senderMsg.map fun senderMessage => {
        senderMessage
        receiverMessage := receiverMsg
        reset := p.outboundStream.hasError || p.inboundStream.hasError })

end TCPPeer
end Minnow
