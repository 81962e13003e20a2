import Minnow.Router
import Minnow.Throwing

/-!
An internet of hosts and routers. The frames that interfaces have sent may reach any interface, at
any time, any number of times or never: whatever links there are, and whatever they lose, repeat
or reorder. What the hosts have sent, with its next hop, and what they have received is noted.
-/

namespace Minnow
open Throwing

structure Internet (H R : Type) where
  host : H → NetworkInterface
  router : R → Router
  frames : List EthernetFrame := []
  sent : List (InternetDatagram × Address) := []
  received : List (H × InternetDatagram) := []

namespace Internet

variable {H R : Type} [DecidableEq H] [DecidableEq R]

/-- The calls of the programs, on the interface of a host, on a router, or on the `i`-th interface
of a router; `k` is the frame that arrives. -/
inductive Input (H R : Type) where
  | sendDatagram (h : H) (dgram : InternetDatagram) (nextHop : Address)
  | recvFrame (h : H) (k : Nat)
  | tick (h : H) (ms : Nat)
  | maybeSend (h : H)
  | route (r : R)
  | routerRecvFrame (r : R) (i k : Nat)
  | routerTick (r : R) (i ms : Nat)
  | routerMaybeSend (r : R) (i : Nat)

def setHost (x : Internet H R) (h : H) (n : NetworkInterface) : Internet H R :=
  { x with host := Function.update x.host h n }

def setRouter (x : Internet H R) (r : R) (router : Router) : Internet H R :=
  { x with router := Function.update x.router r router }

/-- The router after a call on one of its interfaces. -/
def setInterface (x : Internet H R) (r : R) (i : Nat) (itf : AsyncNetworkInterface) :
    Internet H R :=
  x.setRouter r { x.router r with interfaces := (x.router r).interfaces.set i itf }

/-- Nothing happens if the frame or the interface does not exist. -/
def step (x : Internet H R) : Input H R → Except String (Internet H R)
  | .sendDatagram h dgram nextHop => do
      let n ← (x.host h).sendDatagram dgram nextHop
      return { x.setHost h n with sent := x.sent ++ [(dgram, nextHop)] }
  | .recvFrame h k =>
      match x.frames[k]? with
      | none => .ok x
      | some frame => do
          let (n, ipDgram) ← (x.host h).recvFrame frame
          return { x.setHost h n with
            received := x.received ++ ipDgram.toList.map fun dgram => (h, dgram) }
  | .tick h ms => .ok (x.setHost h ((x.host h).tick ms))
  | .maybeSend h =>
      let (n, frame) := (x.host h).maybeSend
      .ok { x.setHost h n with frames := x.frames ++ frame.toList }
  | .route r => do
      let (router, _) ← (x.router r).route
      return x.setRouter r router
  | .routerRecvFrame r i k =>
      match (x.router r).interfaces[i]?, x.frames[k]? with
      | some itf, some frame => do
          let itf ← itf.recvFrame frame
          return x.setInterface r i itf
      | _, _ => .ok x
  | .routerTick r i ms =>
      match (x.router r).interfaces[i]? with
      | some itf =>
          .ok (x.setInterface r i { itf with toNetworkInterface := itf.toNetworkInterface.tick ms })
      | none => .ok x
  | .routerMaybeSend r i =>
      match (x.router r).interfaces[i]? with
      | some itf =>
          let (n, frame) := itf.toNetworkInterface.maybeSend
          .ok { x.setInterface r i { itf with toNetworkInterface := n } with
            frames := x.frames ++ frame.toList }
      | none => .ok x

end Internet
end Minnow
