import Minnow.TCPMessages

/-!
The TCPSender. `push` cuts the outbound stream into segments while the window has
room, `receive` drops acknowledged segments from the front of the outstanding queue,
`tick` retransmits the oldest one. The initial sequence number is a parameter: the
source takes the configured one or draws one at random.
-/

namespace Minnow

namespace TCPConfig

def maxPayloadSize : Nat := 1000

end TCPConfig

structure RTOTimer where
  rto : Nat
  timePassage : Nat := 0
  deriving Repr, DecidableEq

namespace RTOTimer

def start (t : RTOTimer) : RTOTimer := { t with timePassage := 0 }

def setRto (t : RTOTimer) (currentRto : Nat) : RTOTimer := { t with rto := currentRto }

def tick (t : RTOTimer) (ms : Nat) : RTOTimer :=
  { t with timePassage := u64 (t.timePassage + ms) }

def isExpired (t : RTOTimer) : Bool := decide (t.rto ≤ t.timePassage)

def doubleRto (t : RTOTimer) : RTOTimer := { t with rto := u64 (t.rto * 2) }

end RTOTimer

structure TCPSender where
  isn : Wrap32
  initialRTOms : Nat
  syn : Bool := false
  fin : Bool := false
  windowSize : UInt16 := 1
  retransmissions : Nat := 0
  seqnumsSent : Nat := 0
  seqnumsInFlight : Nat := 0
  outstanding : List TCPSenderMessage := []
  readyToSend : List TCPSenderMessage := []
  timer : RTOTimer := { rto := initialRTOms }
  deriving Repr, DecidableEq

namespace TCPSender

def sequenceNumbersInFlight (s : TCPSender) : Nat := s.seqnumsInFlight

def consecutiveRetransmissions (s : TCPSender) : Nat := s.retransmissions

def maybeSend (s : TCPSender) : TCPSender × Option TCPSenderMessage :=
  match s.readyToSend with
  | [] => (s, none)
  | senderMsg :: rest => ({ s with readyToSend := rest }, some senderMsg)

/-- The turn of the loop of `push` up to the test of the segment's length: the sender
with its flags and flight size updated, the segment, and the stream read from. -/
def nextSegment (s : TCPSender) (availableWinSz : Nat) (outboundStream : ByteStream) :
    Except String (TCPSender × TCPSenderMessage × ByteStream) :=
  let syn := !s.syn
  let s := if syn then { s with syn := true, seqnumsInFlight := s.seqnumsInFlight + 1 } else s
  let payloadSize := min TCPConfig.maxPayloadSize (availableWinSz - s.seqnumsInFlight)
  match outboundStream.read payloadSize with
  | .error e => .error e
  | .ok (outboundStream, payload) =>
      let s := { s with seqnumsInFlight := s.seqnumsInFlight + payload.length }
      let fin := outboundStream.isFinished &&
        decide (s.seqnumsInFlight < availableWinSz) && !s.fin
      let s := if fin then { s with fin := true, seqnumsInFlight := s.seqnumsInFlight + 1 } else s
      .ok (s, { seqno := Wrap32.wrap s.seqnumsSent s.isn, syn, payload, fin }, outboundStream)

/-- Queue a new segment. -/
def enqueue (s : TCPSender) (senderMsg : TCPSenderMessage) : TCPSender :=
  { s with
    seqnumsSent := u64 (s.seqnumsSent + senderMsg.sequenceLength)
    outstanding := s.outstanding ++ [senderMsg]
    readyToSend := s.readyToSend ++ [senderMsg] }

/-- The loop of `push`. Every turn that does not leave the loop uses a sequence number
of the window, so as many turns as the window has numbers left are enough. -/
def pushLoop (availableWinSz : Nat) :
    Nat → TCPSender → ByteStream → Except String (TCPSender × ByteStream)
  | 0, s, outboundStream => .ok (s, outboundStream)
  | turns + 1, s, outboundStream =>
      if s.seqnumsInFlight < availableWinSz then
        match s.nextSegment availableWinSz outboundStream with
        | .error e => .error e
        | .ok (s, senderMsg, outboundStream) =>
            if senderMsg.sequenceLength = 0 then .ok (s, outboundStream)
            else if senderMsg.fin || outboundStream.bytesBuffered == 0 then
              .ok (s.enqueue senderMsg, outboundStream)
            else pushLoop availableWinSz turns (s.enqueue senderMsg) outboundStream
      else .ok (s, outboundStream)

/-- The window `push` fills; a zero window counts as one. -/
def availableWinSz (s : TCPSender) : Nat :=
  if s.windowSize = 0 then 1 else s.windowSize.toNat

def push (s : TCPSender) (outboundStream : ByteStream) :
    Except String (TCPSender × ByteStream) :=
  pushLoop s.availableWinSz (s.availableWinSz - s.seqnumsInFlight) s outboundStream

def sendEmptyMessage (s : TCPSender) : TCPSenderMessage :=
  { seqno := s.isn + UInt32.ofNat s.seqnumsSent }

def segmentEnd (s : TCPSender) (m : TCPSenderMessage) : Nat :=
  u64 (m.seqno.unwrap s.isn s.seqnumsSent + m.sequenceLength)

/-- The loop of `receive` over the outstanding queue. -/
def removeAcknowledged (absoluteAckno : Nat) : List TCPSenderMessage → TCPSender → TCPSender
  | [], s => { s with outstanding := [] }
  | front :: rest, s =>
      if s.segmentEnd front ≤ absoluteAckno then
        removeAcknowledged absoluteAckno rest
          { s with
            seqnumsInFlight := s.seqnumsInFlight - front.sequenceLength
            timer := s.timer.start }
      else { s with outstanding := front :: rest }

def receive (s : TCPSender) (msg : TCPReceiverMessage) : TCPSender :=
  let s := { s with windowSize := msg.windowSize }
  match msg.ackno with
  | none => s
  | some ackno =>
      let absoluteAckno := ackno.unwrap s.isn s.seqnumsSent
      if s.seqnumsSent < absoluteAckno then s
      else
        let s := removeAcknowledged absoluteAckno s.outstanding s
        { s with timer := s.timer.setRto s.initialRTOms, retransmissions := 0 }

def tick (s : TCPSender) (msSinceLastTick : Nat) : TCPSender :=
  let s := { s with timer := s.timer.tick msSinceLastTick }
  match s.outstanding with
  | [] => s
  | front :: _ =>
      if s.timer.isExpired then
        let timer := s.timer.start
        { s with
          readyToSend := s.readyToSend ++ [front]
          timer := if s.windowSize ≠ 0 then timer.doubleRto else timer
          retransmissions := s.retransmissions + 1 }
      else s

end TCPSender
end Minnow
