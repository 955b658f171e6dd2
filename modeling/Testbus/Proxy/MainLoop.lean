import Testbus.Proxy.Receive

namespace Testbus.Proxy

open Lib

def ioEndpointPollPrepare (w : World) (ep : Addr) : Except Fault World := do
  let self ← w.deref ep
  if self.wfd.isSome then do
    let (pending, w) ← ioEndpointPullup w ep
    if pending.isNone && self.shutdownWrite then ioEndpointShutdown w ep .wr else .ok w
  else .ok w

/-- As in `halfcloseAll`, an endpoint that moves to the garbage list ends the walk. -/
def pollPrepareAll (w : World) (t : Side) : List Addr → Except Fault World
  | [] => .ok w
  | ep :: rest => do
    let w ← ioEndpointPollPrepare w ep
    if ep ∈ (w.xprt t).epList then pollPrepareAll w t rest else .ok w

def ioTransportPollPrepare (w : World) (t : Side) : Except Fault World := do
  let w ← match (w.xprt t).multiplex with
    | none => .ok w
    | some ep => do
      let w ← ioEndpointPollPrepare w ep
      ioEndpointListPurge w t .multiplex
  let w ← pollPrepareAll w t (w.xprt t).epList
  ioEndpointListPurge w t .epList

def ioTransportPurge (w : World) (t : Side) : Except Fault World := do
  let w ← ioEndpointListPurge w t .epList
  let w ← ioEndpointListPurge w t .garbageList
  ioEndpointListPurge w t .multiplex

inductive Handler
  | downstreamAccept
  | endpointDoio
  deriving DecidableEq

/-- `struct pollfd` with the `struct pollinfo` beside it. -/
structure PollInfo where
  handler : Handler
  ep : Option Addr
  fd : Option Fd
  pollin : Bool := false
  pollout : Bool := false
  deriving DecidableEq

/-- Both entries of an endpoint with two descriptors carry `rfd`. -/
def ioEndpointPoll (w : World) (ep : Addr) : Except Fault (List PollInfo) := do
  let self ← w.deref ep
  if self.dead then .ok []
  else if !self.connected then .ok []
  else if self.wbuf.any fun bp => bp.count = 0 then .error (.assertion .pollCount)
  else if self.rfd = self.wfd then
    let pollin := decide (self.rxCredit ≠ 0)
    let pollout := self.wbuf.isSome
    if pollin || pollout then
      .ok [⟨.endpointDoio, some ep, self.rfd, pollin, pollout⟩]
    else .ok []
  else
    let reading := if self.rfd.isSome && decide (self.rxCredit ≠ 0) then
        [⟨.endpointDoio, some ep, self.rfd, true, false⟩] else []
    let writing := if self.wfd.isSome && self.wbuf.any (fun bp => bp.count ≠ 0) then
        [⟨.endpointDoio, some ep, self.rfd, false, true⟩] else []
    .ok (reading ++ writing)

def pollAll (w : World) : List Addr → Except Fault (List PollInfo)
  | [] => .ok []
  | ep :: rest => do
    let first ← ioEndpointPoll w ep
    let others ← pollAll w rest
    .ok (first ++ others)

/-- The second half of `io_transport_poll`: purge, then collect descriptors. -/
def ioTransportPollCollect (w : World) (t : Side) : Except Fault (World × List PollInfo) := do
  let w ← ioTransportPurge w t
  let info ← pollAll w ((w.xprt t).multiplex.toList ++ (w.xprt t).epList)
  .ok (w, info)

/-- Write from `wbuf`; the buffer is freed once it is empty. -/
def transmit (w : World) (ep : Addr) (sys : Syscalls) : Except Fault World := do
  let self ← w.deref ep
  match self.wbuf with
  | none => .error .nullPointer
  | some bp =>
    match sys.write with
    | .wrote count =>
      let ret := min count bp.count
      if ret = 0 then .ok w
      else
        let w := w.emit (.wrote ep (bp.load bp.head ret))
        let bp := (bp.pullHead ret).2
        .ok (w.modify ep fun self => { self with wbuf := if bp.count = 0 then none else some bp })
    | .epipe => ioEndpointShutdown w ep .wr
    | .failed => .ok w

def ioEndpointDoio (w : World) (ep : Addr) (fd : Fd) (revents : Revents) (sys : Syscalls) :
    Except Fault World := do
  let self ← w.deref ep
  let w ← if self.rfd = some fd ∧ revents.pollin = true then
      (w.xprt self.transport).dataAvailable.handler w ep sys
    else .ok w
  let self ← w.deref ep
  let w ← if self.wfd = some fd ∧ revents.pollout = true then transmit w ep sys else .ok w
  let self ← w.deref ep
  if self.wfd = some fd ∧ revents.pollhup = true then ioEndpointShutdown w ep .wr else .ok w

/-- What becomes of an accepted multiplex connection. -/
def acceptMultiplex (w : World) (ep : Addr) (sys : Syscalls) : Except Fault World :=
  if (w.xprt .downstream).multiplex.isSome then .error (.fatal .secondMultiplex)
  else
    let adopt (w : World) := w.modifyXprt .downstream fun xprt => { xprt with multiplex := some ep }
    if (w.xprt .downstream).forkOnAccept then
      match sys.fork with
      | .child => .ok (adopt (w.modifyXprt .downstream fun xprt => { xprt with listenFd := none }))
      | _ => ioEndpointFree w ep
    else .ok (adopt w)

/-- What becomes of an accepted client: announce the channel to the peer, or open
an endpoint of its own on the other transport. -/
def acceptSimplex (w : World) (ep : Addr) (sys : Syscalls) : Except Fault World := do
  let self ← w.deref ep
  let adopt (w : World) (upstream : Addr) :=
    (ioEndpointLink w ep .downstream .epList).modify ep fun self =>
      { self with sink := some upstream }
  match (w.xprt .upstream).multiplex with
  | some upstream => do
    let w ← ioEndpointQueueWrite w upstream (proxyChannelOpenNew self.channelId) sys
    .ok (adopt w upstream)
  | none => do
    let (created, w) ← ioTransportConnect w .upstream false sys
    match created with
    | none => ioEndpointFree w ep
    | some upstream =>
      let w := w.modify upstream fun other => { other with sink := some ep }
      .ok (adopt (ioEndpointLink w upstream .upstream .epList) upstream)

def proxyDownstreamAccept (w : World) (fd : Fd) (revents : Revents) (sys : Syscalls) : Except Fault World :=
  if revents.pollin then do
    let (accepted, w) ← ioTransportAccept w .downstream fd sys
    match accepted with
    | none => .ok w
    | some ep => do
      let self ← w.deref ep
      if self.type = .multiplex then acceptMultiplex w ep sys else acceptSimplex w ep sys
  else .ok w

/-- Where `do_proxy` is in its loop, with the table of descriptors built so far. -/
inductive Phase
  | prepare (t : Side) (info : List PollInfo)
  | collect (t : Side) (info : List PollInfo)
  | poll (info : List PollInfo)
  | dispatch (ready : List (PollInfo × Revents))
  | done

structure State where
  world : World
  phase : Phase

/-- The head of the loop: the listening socket is polled first. -/
def loopTop (w : World) : State :=
  { world := w
    phase := .prepare .upstream (match (w.xprt .downstream).listenFd with
      | none => []
      | some fd => [⟨.downstreamAccept, none, some fd, true, false⟩]) }

/-- `poll` reports what was asked for and hangups, and ignores negative descriptors. -/
def PollInfo.reported (info : PollInfo) (revents : Revents) : Revents :=
  if info.fd.isNone then {}
  else { pollin := info.pollin && revents.pollin, pollout := info.pollout && revents.pollout,
         pollhup := revents.pollhup }

def PollInfo.handle (info : PollInfo) (revents : Revents) (w : World) (sys : Syscalls) : Except Fault World :=
  match info.handler, info.ep, info.fd with
  | .downstreamAccept, _, some fd => proxyDownstreamAccept w fd revents sys
  | .endpointDoio, some ep, some fd =>
    if revents = {} then .ok w else ioEndpointDoio w ep fd revents sys
  | _, _, _ => .ok w

/-- One step of `do_proxy`. -/
def step (s : State) (sys : Syscalls) : Except Fault State :=
  match s.phase with
  | .prepare t info => do
    let w ← ioTransportPollPrepare s.world t
    .ok ⟨w, .collect t info⟩
  | .collect t info => do
    let (w, more) ← ioTransportPollCollect s.world t
    .ok ⟨w, match t with
      | .upstream => .prepare .downstream (info ++ more)
      | .downstream => .poll (info ++ more)⟩
  | .poll [] => .ok ⟨s.world, .done⟩
  | .poll info =>
    match sys.polls with
    | none => .ok (loopTop s.world)
    | some revents => .ok ⟨s.world, .dispatch (info.mapIdx fun i entry =>
        (entry, entry.reported (revents.getD i {})))⟩
  | .dispatch [] => .ok (loopTop s.world)
  | .dispatch ((info, revents) :: rest) => do
    let w ← info.handle revents s.world sys
    .ok ⟨w, .dispatch rest⟩
  | .done => .ok s

/-- The transport specifications of the command line. -/
inductive TransportKind
  | stdio
  | unix (path : String)
  | unixMux (path : String)
  | serial (device : String)
  deriving DecidableEq

def ioTransportInitKind : TransportKind → Transport
  | .stdio => { ops := .stdio, type := .multiplex, address := none }
  | .unix path => { ops := .unix, type := .simplex, address := some path }
  | .unixMux path => { ops := .unix, type := .multiplex, address := some path }
  | .serial device => { ops := .serial, type := .multiplex, address := some device }

/-- `io_transport_init` of the upstream transport: a multiplexing one is connected
at once. -/
def initUpstream (w : World) (sys : Syscalls) : Except Fault World :=
  if (w.xprt .upstream).type = .multiplex then do
    let (created, w) ← ioTransportConnect w .upstream true sys
    match created with
    | none => .error (.fatal .setupFailed)
    | some ep => .ok (w.modifyXprt .upstream fun xprt => { xprt with multiplex := some ep })
  else .ok w

/-- `io_transport_init` of the downstream transport: sockets listen. -/
def initDownstream (w : World) (sys : Syscalls) : Except Fault World :=
  match (w.xprt .downstream).ops, sys.listens with
  | .unix, none => .error (.fatal .listenFailed)
  | .unix, some fd => .ok (w.modifyXprt .downstream fun xprt => { xprt with listenFd := some fd })
  | _, _ => .ok w

def proxySetupRecv (w : World) : World :=
  let set (up down : DataAvailable) (fork : Bool) :=
    (w.modifyXprt .upstream fun xprt => { xprt with dataAvailable := up }).modifyXprt .downstream
      fun xprt => { xprt with dataAvailable := down, forkOnAccept := fork }
  if (w.xprt .upstream).type = (w.xprt .downstream).type then set .recvCopy .recvCopy false
  else if (w.xprt .upstream).type = .simplex then set .recvMux .recvDemux true
  else set .recvDemux .recvMux false

/-- `main`, up to the main loop. -/
def proxyInit (upstream downstream : TransportKind) (sys : Syscalls) : Except Fault State := do
  let w : World :=
    { heap := Store.empty
      xprt := fun
        | .upstream => ioTransportInitKind upstream
        | .downstream => ioTransportInitKind downstream }
  let w ← initUpstream w sys
  let w ← initDownstream w sys
  .ok (loopTop (proxySetupRecv w))

/-- The states of a proxy with the given transports, over every sequence of
answers the system can give it. -/
def Reachable (upstream downstream : TransportKind) (s : State) : Prop :=
  ∃ setup start answers, proxyInit upstream downstream setup = .ok start ∧
    Machine.run step start answers = .ok s

end Testbus.Proxy
