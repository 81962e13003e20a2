import Minnow.Channel
import Minnow.TCPOverIPv4Runs

/-!
The adapters with their devices: over a TUN device, over a TAP device, and the one that drops
segments at random. A device takes a datagram whole or refuses it, and what it has taken is
kept; an adapter is given by the functions that the socket calls.
-/

namespace Minnow
open Throwing

/-- What the system calls of one function of an adapter answer: the read, and each write. -/
structure DeviceAnswers where
  read : Outcome := .failed .EAGAIN
  refused : Nat → Option Errno := fun _ => none

/-- A descriptor that takes datagrams, and those it has taken. -/
structure Device where
  fd : Descriptor := {}
  written : List Bytes := []
  deriving Repr, DecidableEq

namespace Device

def read (d : Device) (outcome : Outcome) (buffers : List Bytes) :
    Except Exception (Device × List Bytes) := do
  let (fd, buffers) ← d.fd.readBuffers outcome buffers
  return ({ d with fd }, buffers)

def write (d : Device) (refused : Option Errno) (buffers : List Bytes) :
    Except Exception Device := do
  let outcome := match refused with
    | some errno => .failed errno
    | none => .returned (FileDescriptor.totalSize buffers)
  let (fd, bytesWritten) ← d.fd.write outcome buffers
  return { fd, written := d.written ++ [buffers.flatten.take bytesWritten] }

end Device

/-- The loss rates of the configuration of an adapter, out of `2 ^ 16`. -/
structure LossRates where
  dn : UInt16 := 0
  up : UInt16 := 0
  deriving Repr, DecidableEq

/-- The functions of an adapter, for the answers `β` that the system calls of one of them get. -/
structure Adapter (α β : Type) where
  fd : α → Descriptor
  lossRates : α → LossRates
  configure : FdAdapterConfig → LossRates → α → α
  setListening : Bool → α → α
  read : β → α → Except Exception (α × Option TCPSegment)
  write : β → TCPSegment → α → Except Exception α
  tick : β → Nat → α → Except Exception α

structure TCPOverIPv4OverTunFdAdapter extends TCPOverIPv4Adapter where
  lossRates : LossRates := {}
  tun : Device := {}
  deriving Repr, DecidableEq

namespace TCPOverIPv4OverTunFdAdapter

def read (answers : DeviceAnswers) (a : TCPOverIPv4OverTunFdAdapter) :
    Except Exception (TCPOverIPv4OverTunFdAdapter × Option TCPSegment) := do
  let (tun, strs) ← a.tun.read answers.read [resize [] IPv4Header.LENGTH, []]
  let a := { a with tun }
  match ← thrown (parse (IPv4Datagram.parse {}) strs) with
  | none => return (a, none)
  | some ipDgram =>
      let (adapter, tcpSeg) ← thrown (a.unwrapTcpInIp ipDgram)
      return ({ a with toTCPOverIPv4Adapter := adapter }, tcpSeg)

def write (answers : DeviceAnswers) (seg : TCPSegment) (a : TCPOverIPv4OverTunFdAdapter) :
    Except Exception TCPOverIPv4OverTunFdAdapter := do
  let (_, ipDgram) ← thrown (a.wrapTcpInIp seg)
  let buffers ← thrown ipDgram.serialize
  let tun ← a.tun.write (answers.refused 0) buffers
  return { a with tun }

def adapter : Adapter TCPOverIPv4OverTunFdAdapter DeviceAnswers where
  fd a := a.tun.fd
  lossRates a := a.lossRates
  configure config lossRates a := { a with config, lossRates }
  setListening l a := { a with listening := l }
  read := read
  write := write
  tick _ _ a := .ok a

end TCPOverIPv4OverTunFdAdapter

/-- The adapter over a TAP device: its interface sends what it has ready after each call. -/
structure TCPOverIPv4OverTapFdAdapter extends TCPOverIPv4OverEthernetAdapter where
  lossRates : LossRates := {}
  tap : Device := {}
  nextHop : Address

namespace TCPOverIPv4OverTapFdAdapter
open TCPOverIPv4OverEthernetAdapter (emptyFrame)

/-- Write the frames to the device; `k` have been written before in this call. -/
def writeFrames (refused : Nat → Option Errno) :
    Nat → List EthernetFrame → Device → Except Exception Device
  | _, [], tap => .ok tap
  | k, frame :: frames, tap => do
      let tap ← tap.write (refused k) frame.serialize
      writeFrames refused (k + 1) frames tap

def sendPending (answers : DeviceAnswers) (a : TCPOverIPv4OverTapFdAdapter) :
    Except Exception TCPOverIPv4OverTapFdAdapter := do
  let (interface, frames) := TCPOverIPv4OverEthernetAdapter.sendPending a.interface
  let tap ← writeFrames answers.refused 0 frames a.tap
  return { a with interface, tap }

/-- A new adapter, which writes an empty frame to its device. -/
def ofTap (answers : DeviceAnswers) (tap : Device) (ethAddress : EthernetAddress)
    (ipAddress nextHop : Address) : Except Exception TCPOverIPv4OverTapFdAdapter := do
  let tap ← tap.write (answers.refused 0) emptyFrame.serialize
  return { tap, nextHop, interface := { ethernetAddress := ethAddress, ipAddress } }

def read (answers : DeviceAnswers) (a : TCPOverIPv4OverTapFdAdapter) :
    Except Exception (TCPOverIPv4OverTapFdAdapter × Option TCPSegment) := do
  let (tap, strs) ← a.tap.read answers.read
    [resize [] EthernetHeader.LENGTH, resize [] IPv4Header.LENGTH, []]
  let a := { a with tap }
  match ← thrown (parse emptyFrame.parse strs) with
  | none => return (a, none)
  | some frame =>
      let (interface, ipDgram) ← thrown (a.interface.recvFrame frame)
      let a ← sendPending answers { a with interface }
      match ipDgram with
      | none => return (a, none)
      | some ipDgram =>
          let (adapter, tcpSeg) ← thrown (a.unwrapTcpInIp ipDgram)
          return ({ a with toTCPOverIPv4Adapter := adapter }, tcpSeg)

def write (answers : DeviceAnswers) (seg : TCPSegment) (a : TCPOverIPv4OverTapFdAdapter) :
    Except Exception TCPOverIPv4OverTapFdAdapter := do
  let (_, ipDgram) ← thrown (a.wrapTcpInIp seg)
  let interface ← thrown (a.interface.sendDatagram ipDgram a.nextHop)
  sendPending answers { a with interface }

def tick (answers : DeviceAnswers) (msSinceLastTick : Nat) (a : TCPOverIPv4OverTapFdAdapter) :
    Except Exception TCPOverIPv4OverTapFdAdapter :=
  sendPending answers { a with interface := a.interface.tick msSinceLastTick }

def adapter : Adapter TCPOverIPv4OverTapFdAdapter DeviceAnswers where
  fd a := a.tap.fd
  lossRates a := a.lossRates
  configure config lossRates a := { a with config, lossRates }
  setListening l a := { a with listening := l }
  read := read
  write := write
  tick := tick

end TCPOverIPv4OverTapFdAdapter

/-- An adapter with the numbers that its random engine has still to give. -/
structure LossyFdAdapter (α : Type) where
  rand : Nat → UInt32
  adapter : α

namespace LossyFdAdapter

variable {α β : Type}

/-- The next number is drawn only when the rate is not zero. -/
def shouldDrop (rate : UInt16) (rand : Nat → UInt32) : Bool × (Nat → UInt32) :=
  if rate ≠ 0 then (decide ((rand 0).toUInt16 < rate), fun k => rand (k + 1)) else (false, rand)

def read (a : Adapter α β) (answers : β) (l : LossyFdAdapter α) :
    Except Exception (LossyFdAdapter α × Option TCPSegment) := do
  let (adapter, ret) ← a.read answers l.adapter
  let (drop, rand) := shouldDrop (a.lossRates adapter).dn l.rand
  return (⟨rand, adapter⟩, if drop then none else ret)

def write (a : Adapter α β) (answers : β) (seg : TCPSegment) (l : LossyFdAdapter α) :
    Except Exception (LossyFdAdapter α) := do
  let (drop, rand) := shouldDrop (a.lossRates l.adapter).up l.rand
  if drop then return { l with rand }
  else
    let adapter ← a.write answers seg l.adapter
    return ⟨rand, adapter⟩

/-- The other functions are those of the adapter underneath. -/
def lossy (a : Adapter α β) : Adapter (LossyFdAdapter α) β where
  fd l := a.fd l.adapter
  lossRates l := a.lossRates l.adapter
  configure config lossRates l := { l with adapter := a.configure config lossRates l.adapter }
  setListening listening l := { l with adapter := a.setListening listening l.adapter }
  read := read a
  write := write a
  tick answers ms l := do
    let adapter ← a.tick answers ms l.adapter
    return { l with adapter }

end LossyFdAdapter
end Minnow
