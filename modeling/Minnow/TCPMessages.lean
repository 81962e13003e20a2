import Minnow.ByteStream
import Minnow.WrappingIntegers

/-!
The two messages the peers exchange. They are values here: the payload buffer that
a sender message shares with its copies in the source is copied with the message.
-/

namespace Minnow

structure TCPSenderMessage where
  seqno : Wrap32 := ⟨0⟩
  syn : Bool := false
  payload : Bytes := []
  fin : Bool := false
  deriving Repr, DecidableEq

structure TCPReceiverMessage where
  ackno : Option Wrap32 := none
  windowSize : UInt16 := 0
  deriving Repr, DecidableEq

namespace TCPSenderMessage

def sequenceLength (m : TCPSenderMessage) : Nat :=
  m.syn.toNat + m.payload.length + m.fin.toNat

theorem sequenceLength_eq_zero {m : TCPSenderMessage} :
    m.sequenceLength = 0 ↔ m.syn = false ∧ m.payload = [] ∧ m.fin = false := by
  rw [sequenceLength]
  cases m.syn <;> cases m.fin <;> simp

/-- The sequence numbers a list of segments uses. -/
def seqLen (ms : List TCPSenderMessage) : Nat := (ms.map sequenceLength).sum

/-- The stream bytes a list of segments carries. -/
def payloads (ms : List TCPSenderMessage) : Bytes := (ms.map payload).flatten

@[simp] theorem seqLen_nil : seqLen [] = 0 := rfl

@[simp] theorem seqLen_cons (m : TCPSenderMessage) (ms : List TCPSenderMessage) :
    seqLen (m :: ms) = m.sequenceLength + seqLen ms := by
  simp [seqLen]

@[simp] theorem seqLen_append (ms ns : List TCPSenderMessage) :
    seqLen (ms ++ ns) = seqLen ms + seqLen ns := by
  simp [seqLen]

@[simp] theorem payloads_nil : payloads [] = [] := rfl

@[simp] theorem payloads_cons (m : TCPSenderMessage) (ms : List TCPSenderMessage) :
    payloads (m :: ms) = m.payload ++ payloads ms := by
  simp [payloads]

@[simp] theorem payloads_append (ms ns : List TCPSenderMessage) :
    payloads (ms ++ ns) = payloads ms ++ payloads ns := by
  simp [payloads]

end TCPSenderMessage
end Minnow
