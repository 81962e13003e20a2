import Minnow.Reassembler
import Minnow.TCPMessages

/-!
The TCPReceiver: it turns sequence numbers into stream indices relative to the last
SYN it has seen, and reports how far the inbound stream has got.
-/

namespace Minnow

structure TCPReceiver where
  isn : Option Wrap32 := none
  deriving Repr, DecidableEq

namespace TCPReceiver

/-- The stream index at which the payload of a message is inserted. -/
def firstIndex (message : TCPSenderMessage) (isn : Wrap32) (inboundStream : ByteStream) : Nat :=
  let checkpoint := inboundStream.bytesPushed
  let absoluteSeqno := message.seqno.unwrap isn checkpoint
  if message.syn then 0 else u64 (absoluteSeqno + 2 ^ 64 - 1)

/-- The zero point after the SYN flag of a message has been looked at. -/
def synchronize (r : TCPReceiver) (message : TCPSenderMessage) : TCPReceiver :=
  if message.syn then { isn := some message.seqno } else r

def receive (r : TCPReceiver) (message : TCPSenderMessage) (reassembler : Reassembler)
    (inboundStream : ByteStream) : TCPReceiver × Reassembler × ByteStream :=
  match (r.synchronize message).isn with
  | none => (r.synchronize message, reassembler, inboundStream)
  | some isn =>
      (r.synchronize message,
        reassembler.insert (firstIndex message isn inboundStream) message.payload message.fin
          inboundStream)

def send (r : TCPReceiver) (inboundStream : ByteStream) : TCPReceiverMessage :=
  let winSz := inboundStream.availableCapacity
  let windowSize := if winSz < 65535 then UInt16.ofNat winSz else 65535
  match r.isn with
  | none => { windowSize }
  | some isn =>
      let absoluteSeqno := inboundStream.bytesPushed + 1 + inboundStream.isClosed.toNat
      { ackno := some (Wrap32.wrap absoluteSeqno isn), windowSize }

end TCPReceiver
end Minnow
