import Minnow.NetworkInterface
import Mathlib.Data.List.MinMax

/-!
The Router and its asynchronous interfaces. An interface's queue of received datagrams
holds what `parse` has accepted, so its datagrams have version 4. `route` also returns
the calls of `send_datagram` it has made, in order.
-/

namespace Minnow

structure AsyncNetworkInterface extends NetworkInterface where
  datagramsIn : List InternetDatagram := []
  received : ∀ d ∈ datagramsIn, d.header.ver = 4

theorem NetworkInterface.recvFrame_ver {n n' : NetworkInterface} {frame : EthernetFrame}
    {d : InternetDatagram} (h : n.recvFrame frame = .ok (n', some d)) : d.header.ver = 4 := by
  cases hdgram : n.datagramFor frame with
  | error e => simp [recvFrame, hdgram] at h
  | ok ipmsg =>
      cases ipmsg with
      | none =>
          simp only [recvFrame, hdgram] at h
          split at h
          · simp at h
          · simp at h
          · split at h <;> simp at h
      | some ipmsg =>
          simp only [recvFrame, hdgram, Except.ok.injEq, Prod.mk.injEq, Option.some.injEq] at h
          rw [datagramFor] at hdgram
          split at hdgram
          · split at hdgram
            · cases hdgram
            · next hparse =>
                split at hdgram
                · cases hdgram
                  rw [← h.2]
                  exact IPv4Datagram.parse_ver hparse
                · cases hdgram
          · cases hdgram

namespace AsyncNetworkInterface

def ofInterface (interface : NetworkInterface) : AsyncNetworkInterface :=
  { interface with received := by simp }

def recvFrame (itf : AsyncNetworkInterface) (frame : EthernetFrame) :
    Except String AsyncNetworkInterface :=
  match h : itf.toNetworkInterface.recvFrame frame with
  | .error e => .error e
  | .ok (n, none) => .ok { itf with toNetworkInterface := n }
  | .ok (n, some d) =>
      .ok {
        toNetworkInterface := n
        datagramsIn := itf.datagramsIn ++ [d]
        received := by
          intro d' hd'
          cases List.mem_append.mp hd' with
          | inl hd' => exact itf.received d' hd'
          | inr hd' =>
              rw [List.mem_singleton.mp hd']
              exact NetworkInterface.recvFrame_ver h }

/-- The queue without its front. -/
def popDatagram (itf : AsyncNetworkInterface) : AsyncNetworkInterface :=
  { itf with
    datagramsIn := itf.datagramsIn.tail
    received := fun d hd => itf.received d (List.mem_of_mem_tail hd) }

def maybeReceive (itf : AsyncNetworkInterface) :
    AsyncNetworkInterface × Option InternetDatagram :=
  (itf.popDatagram, itf.datagramsIn.head?)

end AsyncNetworkInterface

namespace Router

structure Entry where
  routePrefix : UInt32
  prefixLength : UInt8
  nextHop : Option Address := none
  interfaceNum : Nat
  deriving Repr, DecidableEq

/-- A call of `send_datagram` on an interface. -/
structure SendCall where
  interfaceNum : Nat
  dgram : InternetDatagram
  nextHop : Address
  deriving Repr, DecidableEq

/-- The destination with the bits below the prefix cleared. -/
def dstPrefix (dst : UInt32) (prefixLength : UInt8) : UInt32 :=
  if prefixLength = 0 then 0
  else
    let shift : UInt32 := 32 - prefixLength.toUInt32
    (dst >>> shift) <<< shift

/-- The loop over the routing table. -/
def matchLoop (dst : UInt32) : Option Entry → List Entry → Option Entry
  | matchEntry, [] => matchEntry
  | matchEntry, iter :: rest =>
      if dstPrefix dst iter.prefixLength = iter.routePrefix then
        match matchEntry with
        | none => matchLoop dst (some iter) rest
        | some best =>
            if best.prefixLength < iter.prefixLength then matchLoop dst (some iter) rest
            else matchLoop dst (some best) rest
      else matchLoop dst matchEntry rest

/-- What is done with a datagram: the call of `send_datagram`, if there is one. -/
def forward (routingTable : List Entry) (datagram : InternetDatagram) :
    Except String (Option SendCall) :=
  if datagram.header.ttl = 0 ∨ datagram.header.ttl - 1 = 0 then .ok none
  else
    let header := { datagram.header with ttl := datagram.header.ttl - 1 }
    match matchLoop header.dst none routingTable with
    | none => .ok none
    | some matchEntry =>
        match header.computeChecksum with
        | .error e => .error e
        | .ok header =>
            .ok (some {
              interfaceNum := matchEntry.interfaceNum
              dgram := { datagram with header }
              nextHop := matchEntry.nextHop.getD ⟨header.dst⟩ })

end Router

structure Router where
  interfaces : List AsyncNetworkInterface := []
  routingTable : List Router.Entry := []

namespace Router

def addInterface (r : Router) (itf : AsyncNetworkInterface) : Router × Nat :=
  ({ r with interfaces := r.interfaces ++ [itf] }, r.interfaces.length)

def addRoute (r : Router) (routePrefix : UInt32) (prefixLength : UInt8)
    (nextHop : Option Address) (interfaceNum : Nat) : Router :=
  { r with routingTable := r.routingTable ++
      [{ routePrefix, prefixLength, nextHop, interfaceNum }] }

/-- Calls of `add_route` build the table of their arguments, in order. -/
theorem addRoute_foldl (r : Router) (routes : List Entry) :
    (routes.foldl (fun r e => r.addRoute e.routePrefix e.prefixLength e.nextHop e.interfaceNum)
      r).routingTable = r.routingTable ++ routes := by
  induction routes generalizing r with
  | nil => exact (List.append_nil _).symm
  | cons e routes ih =>
      rw [List.foldl_cons, ih, addRoute, List.append_assoc]
      rfl

/-- The call of `send_datagram` on the interface, which `at` has to find. -/
def perform (r : Router) (call : SendCall) : Except String Router :=
  match r.interfaces[call.interfaceNum]? with
  | none => .error "vector::_M_range_check"
  | some itf =>
      match itf.sendDatagram call.dgram call.nextHop with
      | .error e => .error e
      | .ok n =>
          .ok { r with
            interfaces :=
              r.interfaces.set call.interfaceNum { itf with toNetworkInterface := n } }

/-- The body of the loop of `route` at one interface. -/
def routeFrom (r : Router) (i : Nat) : Except String (Router × List SendCall) :=
  match r.interfaces[i]? with
  | none => .ok (r, [])
  | some itf =>
      let received := itf.maybeReceive
      let r := { r with interfaces := r.interfaces.set i received.1 }
      match received.2 with
      | none => .ok (r, [])
      | some datagram =>
          match forward r.routingTable datagram with
          | .error e => .error e
          | .ok none => .ok (r, [])
          | .ok (some call) =>
              match r.perform call with
              | .error e => .error e
              | .ok r => .ok (r, [call])

/-- The loop of `route` over the interfaces from the `i`-th on, `turns` of them. -/
def routeLoop (r : Router) (i : Nat) : Nat → Except String (Router × List SendCall)
  | 0 => .ok (r, [])
  | turns + 1 =>
      match r.routeFrom i with
      | .error e => .error e
      | .ok (r, calls) =>
          match routeLoop r (i + 1) turns with
          | .error e => .error e
          | .ok (r, more) => .ok (r, calls ++ more)

def route (r : Router) : Except String (Router × List SendCall) :=
  routeLoop r 0 r.interfaces.length

end Router
end Minnow
