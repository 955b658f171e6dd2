import Testbus.Proxy.Endpoint

namespace Testbus.Proxy

open Lib

/-- The credit an endpoint of a transport is created with. -/
def grant : EndpointType → Nat
  | .simplex => defaultCreditSimplex
  | _ => defaultCreditMultiplex

def ioEndpointNew (w : World) (t : Side) (channel : UInt32) (rfd wfd : Fd) (connected : Bool)
    (ep : Addr) : Except Fault World :=
  if ep ∈ w.heap.live then .error (.fatal .allocationFailed)
  else
    let self : Endpoint :=
      { type := (w.xprt t).type, transport := t, channelId := channel, connected := connected,
        rfd := some rfd, wfd := some wfd, rxCredit := grant (w.xprt t).type }
    let w := { w with heap := w.heap.alloc ep self, trace := w.trace ++ [Event.created ep] }
    .ok (w.modifyXprt t fun xprt =>
      if channel > xprt.nextChannelId then { xprt with nextChannelId := channel + 1 } else xprt)

def ioEndpointPipeNew (w : World) (t : Side) (channel : UInt32) (sys : Syscalls) :
    Except Fault (Option Addr × World) :=
  match (w.xprt t).address, sys.opens with
  | some _, none => .ok (none, w)
  | some _, some fd => do
    let w ← ioEndpointNew w t channel fd fd true sys.connectedAddr
    .ok (some sys.connectedAddr, w.modify sys.connectedAddr fun self => { self with type := .multiplex })
  | none, _ => do
    let w ← ioEndpointNew w t channel 0 1 true sys.connectedAddr
    .ok (some sys.connectedAddr, w.modify sys.connectedAddr fun self => { self with type := .multiplex })

def ioEndpointSocketNew (w : World) (t : Side) (channel : UInt32) (sys : Syscalls) :
    Except Fault (Option Addr × World) :=
  match sys.opens with
  | none => .error (.fatal .cannotCreateSocket)
  | some fd => do
    let w ← ioEndpointNew w t channel fd fd false sys.connectedAddr
    .ok (some sys.connectedAddr, w)

def ioEndpointSerialNew (w : World) (t : Side) (channel : UInt32) (sys : Syscalls) :
    Except Fault (Option Addr × World) :=
  match sys.opens with
  | none => .error (.fatal .cannotOpenSerial)
  | some fd => do
    let w ← ioEndpointNew w t channel fd fd true sys.connectedAddr
    .ok (some sys.connectedAddr, w)

/-- `xprt->ops->connector`. -/
def TransportOps.connector (ops : TransportOps) (w : World) (t : Side) (channel : UInt32)
    (sys : Syscalls) : Except Fault (Option Addr × World) :=
  match ops with
  | .unix => ioEndpointSocketNew w t channel sys
  | .serial => ioEndpointSerialNew w t channel sys
  | .stdio => ioEndpointPipeNew w t channel sys

def ioEndpointSocketDelayedConnect (w : World) (ep : Addr) (sys : Syscalls) : Bool × World :=
  if sys.connects then (true, w.modify ep fun self => { self with connected := true })
  else (false, w)

def ioTransportConnectFinish (w : World) (t : Side) (ep : Addr) (sys : Syscalls) :
    Except Fault (Bool × World) := do
  let self ← w.deref ep
  if self.connected then .ok (false, w)
  else match (w.xprt t).ops with
    | .unix =>
      let (success, w) := ioEndpointSocketDelayedConnect w ep sys
      if success then .ok (true, w.modify ep fun self => { self with connected := true })
      else .ok (false, w)
    | _ => .error (.assertion .delayedConnector)

/-- `__io_transport_connect`; with `now` the socket is connected at once. -/
def ioTransportConnectChannel (w : World) (t : Side) (channel : UInt32) (now : Bool)
    (sys : Syscalls) : Except Fault (Option Addr × World) := do
  let (created, w) ← (w.xprt t).ops.connector w t channel sys
  match created with
  | none => .ok (none, w)
  | some ep => do
    let w := w.modify ep fun self => { self with type := (w.xprt t).type }
    let self ← w.deref ep
    if !self.connected && now then do
      let (success, w) ← ioTransportConnectFinish w t ep sys
      if success then .ok (some ep, w)
      else do
        let w ← ioEndpointFree w ep
        .ok (none, w)
    else .ok (some ep, w)

def ioTransportConnect (w : World) (t : Side) (now : Bool) (sys : Syscalls) :
    Except Fault (Option Addr × World) :=
  ioTransportConnectChannel w t channelIdNone now sys

def ioEndpointSocketAccept (w : World) (t : Side) (channel : UInt32) (listenFd : Fd)
    (sys : Syscalls) : Except Fault (Option Addr × World) :=
  if (w.xprt t).listenFd ≠ some listenFd then .error (.assertion .acceptFd)
  else match sys.accepts with
    | none => .ok (none, w)
    | some fd => do
      let w ← ioEndpointNew w t channel fd fd true sys.acceptedAddr
      .ok (some sys.acceptedAddr, w.emit (.accepted channel))

/-- `xprt->ops->acceptor`, which only socket transports have. -/
def TransportOps.acceptor (ops : TransportOps) (w : World) (t : Side) (channel : UInt32)
    (listenFd : Fd) (sys : Syscalls) : Except Fault (Option Addr × World) :=
  match ops with
  | .unix => ioEndpointSocketAccept w t channel listenFd sys
  | _ => .error .nullPointer

def ioTransportAccept (w : World) (t : Side) (listenFd : Fd) (sys : Syscalls) :
    Except Fault (Option Addr × World) := do
  let simplex := (w.xprt t).type = .simplex
  let channel := if simplex then (w.xprt t).nextChannelId else channelIdNone
  let w := if simplex then
      w.modifyXprt t fun xprt => { xprt with nextChannelId := xprt.nextChannelId + 1 }
    else w
  let (accepted, w) ← (w.xprt t).ops.acceptor w t channel listenFd sys
  match accepted with
  | none => .ok (none, w)
  | some ep =>
    let w := w.modify ep fun self => { self with connected := true, type := (w.xprt t).type }
    .ok (some ep, w)

/-- Queue a message on the sink, connecting it first if that was put off, and
charge its credit to the source. -/
def ioEndpointQueueWrite (w : World) (sink : Addr) (mbuf : Mbuf) (sys : Syscalls) : Except Fault World := do
  let self ← w.deref sink
  let w ← if self.connected then .ok w
    else do
      let (success, w) ← ioTransportConnectFinish w self.transport sink sys
      if success then .ok w else .error (.fatal .delayedConnectFailed)
  let w ← match mbuf.source with
    | none => .ok w
    | some source => do
      let origin ← w.deref source
      if mbuf.credit ≤ origin.rxCredit then
        .ok (w.modify source fun origin => { origin with rxCredit := origin.rxCredit - mbuf.credit })
      else .error (.assertion .queueWriteCredit)
  let w := w.modify sink fun self => { self with wqueue := self.wqueue ++ [mbuf] }
  .ok (w.emit (.queued sink mbuf.bytes))

end Testbus.Proxy
