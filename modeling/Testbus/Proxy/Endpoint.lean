import Testbus.Proxy.State

namespace Testbus.Proxy

open Lib

def ioMbufWrap (bp : NiBuffer) (ep : Option Addr) : Mbuf :=
  { source := ep, buffer := bp, credit := bp.count }

/-- The buffer leaves the message and its credit goes back to the source. -/
def ioMbufTakeBuffer (w : World) (mbuf : Mbuf) : Except Fault (NiBuffer × World) :=
  match mbuf.source with
  | none => .ok (mbuf.buffer, w)
  | some source => do
    let _ ← w.deref source
    let w := w.modify source fun ep => { ep with rxCredit := ep.rxCredit + mbuf.credit }
    .ok (mbuf.buffer, w)

def ioMbufFree (w : World) (mbuf : Mbuf) : Except Fault World := do
  let (_, w) ← ioMbufTakeBuffer w mbuf
  .ok w

inductive ListName
  | epList
  | garbageList
  deriving DecidableEq

/-- Append to a list of the endpoint's transport. -/
def ioEndpointLink (w : World) (ep : Addr) (t : Side) : ListName → World
  | .epList => w.modifyXprt t fun xprt => { xprt with epList := xprt.epList ++ [ep] }
  | .garbageList => w.modifyXprt t fun xprt => { xprt with garbageList := xprt.garbageList ++ [ep] }

/-- `prevp` names the one list the endpoint is on, if any. -/
def ioEndpointUnlink (w : World) (ep : Addr) (t : Side) : World :=
  if (w.xprt t).multiplex = some ep then
    w.modifyXprt t fun xprt => { xprt with multiplex := none }
  else
    w.modifyXprt t fun xprt =>
      { xprt with epList := xprt.epList.erase ep, garbageList := xprt.garbageList.erase ep }

def ioEndpointPullup (w : World) (ep : Addr) : Except Fault (Option NiBuffer × World) := do
  let self ← w.deref ep
  match self.wbuf with
  | some bp => if bp.count = 0 then .error (.assertion .pullupCount) else .ok (some bp, w)
  | none =>
    match self.wqueue with
    | [] => .ok (none, w)
    | mbuf :: rest => do
      -- Freeing the message afterwards gives nothing back: its buffer is taken.
      let (bp, w) ← ioMbufTakeBuffer w mbuf
      let w := w.modify ep fun self => { self with wbuf := some bp, wqueue := rest }
      .ok (some bp, w)

def discardQueue (w : World) (ep : Addr) : List Mbuf → Except Fault World
  | [] => .ok w
  | mbuf :: rest => do
    let w := w.modify ep fun self => { self with wqueue := rest }
    let w ← ioMbufFree w mbuf
    discardQueue w ep rest

def ioEndpointWriteQueueDiscard (w : World) (ep : Addr) : Except Fault World := do
  let self ← w.deref ep
  let w := w.modify ep fun self => { self with wbuf := none }
  discardQueue w ep self.wqueue

inductive How
  | rd
  | wr
  | rdwr
  deriving DecidableEq

/-- The read half of `io_endpoint_shutdown`: a descriptor that still serves for
writing stays open. -/
def shutdownRead (w : World) (ep : Addr) : Except Fault World := do
  let self ← w.deref ep
  match self.rfd with
  | none => .ok w
  | some fd =>
    let w := if self.wfd = some fd then w else w.emit (.closed fd)
    .ok (w.modify ep fun self => { self with rfd := none })

/-- The write half: pending writes are discarded. -/
def shutdownWrite (w : World) (ep : Addr) : Except Fault World := do
  let self ← w.deref ep
  match self.wfd with
  | none => .ok w
  | some fd => do
    let (pending, w) ← ioEndpointPullup w ep
    let w ← if pending.isSome then ioEndpointWriteQueueDiscard w ep else .ok w
    let w := if self.rfd = some fd then w else w.emit (.closed fd)
    .ok (w.modify ep fun self => { self with wfd := none })

/-- A socket with both halves shut down moves to the garbage list. -/
def buryDead (w : World) (ep : Addr) : Except Fault World := do
  let self ← w.deref ep
  if self.dead then
    .ok (ioEndpointLink (ioEndpointUnlink w ep self.transport) ep self.transport .garbageList)
  else .ok w

def ioEndpointShutdown (w : World) (ep : Addr) : How → Except Fault World
  | .rd => do
    let w ← shutdownRead w ep
    buryDead w ep
  | .wr => do
    let w ← shutdownWrite w ep
    buryDead w ep
  | .rdwr => do
    let w ← shutdownRead w ep
    let w ← shutdownWrite w ep
    buryDead w ep

def ioEndpointHalfclose (w : World) (ep : Addr) : Except Fault World := do
  let _ ← w.deref ep
  let w := w.modify ep fun self => { self with shutdownWrite := true }
  let (pending, w) ← ioEndpointPullup w ep
  ioEndpointShutdown w ep (if pending.isSome then .rd else .rdwr)

/-- The partner of a pair of sockets that are each other's sink is shut down too. -/
def detachSink (w : World) (ep : Addr) (sink : Addr) : Except Fault World := do
  let other ← w.deref sink
  if other.sink = some ep then do
    let w ← ioEndpointShutdown w sink .rdwr
    .ok (w.modify sink fun other => { other with sink := none })
  else .ok w

def ioEndpointFree (w : World) (ep : Addr) : Except Fault World := do
  let _ ← w.deref ep
  let w := w.modify ep fun self => { self with rbuf := none }
  let w ← ioEndpointWriteQueueDiscard w ep
  let self ← w.deref ep
  let w ← match self.sink with
    | none => .ok w
    | some sink => detachSink w ep sink
  let w := ioEndpointUnlink w ep self.transport
  .ok { w with heap := w.heap.free ep, trace := w.trace ++ [Event.freed ep] }

/-- The pointers `__io_endpoint_list_purge` starts from. -/
inductive PurgeFrom
  | epList
  | garbageList
  | multiplex
  deriving DecidableEq

def PurgeFrom.members (xprt : Transport) : PurgeFrom → List Addr
  | .epList => xprt.epList
  | .garbageList => xprt.garbageList
  | .multiplex => xprt.multiplex.toList

/-- `*pos = cur->next` at the element `cur`. -/
def PurgeFrom.drop (cur : Addr) (xprt : Transport) : PurgeFrom → Transport
  | .epList => { xprt with epList := xprt.epList.erase cur }
  | .garbageList => { xprt with garbageList := xprt.garbageList.erase cur }
  | .multiplex => { xprt with multiplex := none }

/-- Freeing an element never touches the rest of the list it was on, so the
elements met are those the list had at the start. -/
def purgeMembers (w : World) (t : Side) (pos : PurgeFrom) : List Addr → Except Fault World
  | [] => .ok w
  | cur :: rest => do
    let self ← w.deref cur
    if self.dead then do
      let w := w.modifyXprt t fun xprt => pos.drop cur xprt
      let w ← ioEndpointFree w cur
      purgeMembers w t pos rest
    else purgeMembers w t pos rest

def ioEndpointListPurge (w : World) (t : Side) (pos : PurgeFrom) : Except Fault World :=
  purgeMembers w t pos (pos.members (w.xprt t))

end Testbus.Proxy
