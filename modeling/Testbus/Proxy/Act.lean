import Testbus.Proxy.Effects

/-! The actions a run of the proxy is made of. A result about all runs is proved
for each action once. -/

namespace Testbus.Proxy

open Lib World

/-- What a run may do is limited by permissions: to accept a client, to read from
the peer, to carry out a packet, to release an endpoint and to count a channel. -/
structure Guard where
  accept : World → Syscalls → Prop
  receive : World → Addr → Prop
  frame : World → Addr → NiBuffer → Syscalls → Prop
  release : World → Addr → Prop
  count : World → Prop := fun _ => True

/-- No limits. -/
def Guard.free : Guard where
  accept _ _ := True
  receive _ _ := True
  frame _ _ _ _ := True
  release _ _ := True

/-- A new endpoint as the connectors and acceptors leave it. -/
structure Endpoint.Fresh (born : Endpoint) (xprt : Transport) (t : Side) : Prop where
  type : born.type = xprt.type
  transport : born.transport = t
  sink : born.sink = none
  rfd : born.rfd.isSome
  wfd : born.wfd.isSome
  fds : born.rfd = born.wfd ∨ xprt.ops = .stdio
  rxCredit : born.rxCredit = grant xprt.type
  rbuf : born.rbuf = none
  wbuf : born.wbuf = none
  wqueue : born.wqueue = []
  shutdownWrite : born.shutdownWrite = false
  connected : born.connected = true ∨ xprt.ops = .unix

/-- The bytes of the packet an endpoint is still receiving. -/
def Endpoint.unread (self : Endpoint) : Bytes := (self.rbuf.map NiBuffer.contents).getD []

/-- A packet is complete when its header says it has as many bytes as there are. -/
def packetComplete (bp : NiBuffer) : Bool :=
  dataHeaderSize ≤ bp.count && bp.count = packetSize bp

def packetHeader (bp : NiBuffer) : DataHeader := DataHeader.at bp bp.head

/-- What follows the header of a packet. -/
def packetPayload (bp : NiBuffer) : NiBuffer := (bp.pullHead dataHeaderSize).2

/-- A demultiplexing endpoint holds a complete packet that it may carry out. -/
structure Arrived (G : Guard) (w : World) (source : Addr) (mux : Endpoint) (bp : NiBuffer)
    (sys : Syscalls) : Prop where
  found : w.heap.cells source = some mux
  handler : (w.xprt mux.transport).dataAvailable = .recvDemux
  buffer : mux.rbuf = some bp
  fits : bp.Fits
  complete : packetComplete bp = true
  allowed : G.frame w source bp sys

/-- Updates that neither read nor queue anything. -/
inductive Quiet (w : World) : World → Prop
  | pull {ep : Addr} {self : Endpoint} {mbuf : Mbuf} {rest : List Mbuf}
      (found : w.heap.cells ep = some self)
      (idle : self.wbuf = none) (queue : self.wqueue = mbuf :: rest) : Quiet w (w.pull ep mbuf rest)
  | closeRead {ep : Addr} {self : Endpoint} {fd : Fd}
      (found : w.heap.cells ep = some self) (reading : self.rfd = some fd) :
      Quiet w ((w.shutRead ep self fd).settle ep)
  | closeWrite {ep : Addr} {self : Endpoint} {fd : Fd}
      (found : w.heap.cells ep = some self) (writing : self.wfd = some fd) :
      Quiet w ((w.shutWrite ep self fd).settle ep)
  | rebury {ep : Addr} {self : Endpoint} (found : w.heap.cells ep = some self)
      (dead : self.dead = true) : Quiet w (w.settle ep)

/-- Events that only tell about an address that is not in use, or about a channel
number that was given out. -/
def Event.Administrative (w : World) : Event → Prop
  | .created ep => w.heap.cells ep = none
  | .freed ep => w.heap.cells ep = none
  | .accepted _ => True
  | _ => False

inductive Act (G : Guard) (w : World) : World → Prop
  | quiet {w' : World} (moved : Quiet w w') : Act G w w'
  | mark {ep : Addr} {self : Endpoint} (found : w.heap.cells ep = some self) :
      Act G w (w.modify ep fun self => { self with shutdownWrite := true })
  | connect {ep : Addr} {self : Endpoint} (found : w.heap.cells ep = some self) :
      Act G w (w.modify ep fun self => { self with connected := true })
  | transmit {ep : Addr} {self : Endpoint} {bp : NiBuffer} {n : Nat}
      (found : w.heap.cells ep = some self) (buffer : self.wbuf = some bp)
      (writing : self.wfd.isSome) (positive : 0 < n) (bound : n ≤ bp.count) :
      Act G w ((w.emit (.wrote ep (bp.load bp.head n))).modify ep fun self =>
        { self with wbuf :=
            if (bp.pullHead n).2.count = 0 then none else some (bp.pullHead n).2 })
  /-- `proxy_recv_copy` passes on what it read. -/
  | copied {ep : Addr} {self : Endpoint} {sink : Addr} {other : Endpoint} {bp : NiBuffer}
      (found : w.heap.cells ep = some self) (target : self.sink = some sink)
      (present : w.heap.cells sink = some other)
      (handler : (w.xprt self.transport).dataAvailable = .recvCopy)
      (fits : bp.Fits) (nonempty : bp.contents ≠ []) (funded : bp.count ≤ self.rxCredit) :
      Act G w ((w.emit (.received ep bp.contents)).charge sink (ioMbufWrap bp (some ep)))
  /-- `proxy_recv_mux` puts what it read into a frame. -/
  | framed {ep : Addr} {self : Endpoint} {sink : Addr} {other : Endpoint} {mbuf : Mbuf}
      {bytes : Bytes} (found : w.heap.cells ep = some self) (target : self.sink = some sink)
      (present : w.heap.cells sink = some other)
      (handler : (w.xprt self.transport).dataAvailable = .recvMux)
      (source : mbuf.source = some ep) (credit : mbuf.credit = bytes.length)
      (contents : mbuf.bytes =
        (DataHeader.mk channelData self.channelId (UInt32.ofNat bytes.length)).bytes ++ bytes)
      (fits : mbuf.buffer.Fits) (nonempty : bytes ≠ []) (funded : bytes.length ≤ self.rxCredit) :
      Act G w ((w.emit (.framed ep self.channelId bytes)).charge sink mbuf)
  /-- `proxy_recv_mux` at end of file. -/
  | leave {ep : Addr} {self : Endpoint} {sink : Addr} {other : Endpoint} {fd : Fd}
      (found : w.heap.cells ep = some self) (target : self.sink = some sink)
      (present : w.heap.cells sink = some other)
      (handler : (w.xprt self.transport).dataAvailable = .recvMux) (reading : self.rfd = some fd) :
      Act G w (((w.charge sink (proxyChannelCloseNew self.channelId)).shutRead ep self fd).settle ep)
  /-- `proxy_recv_demux` reads into its packet. -/
  | receive {ep : Addr} {self : Endpoint} {bp : NiBuffer} {bytes : Bytes}
      (found : w.heap.cells ep = some self)
      (handler : (w.xprt self.transport).dataAvailable = .recvDemux)
      (fits : bp.Fits) (contents : bp.contents = self.unread ++ bytes)
      (allowed : G.receive w ep) : Act G w (w.receive ep bp bytes)
  | opened {source : Addr} {self : Endpoint} {bp : NiBuffer} {sys : Syscalls}
      {born : Endpoint} (next : UInt32) (arrived : Arrived G w source self bp sys)
      (cmd : (packetHeader bp).cmd = channelOpen)
      (absent : w.heap.cells sys.connectedAddr = none)
      (fresh : born.Fresh (w.xprt self.transport.other) self.transport.other)
      (channel : born.channelId = (packetHeader bp).channel) (connected : born.connected = true)
      (counted : next = if (packetHeader bp).channel > (w.xprt self.transport.other).nextChannelId
        then (packetHeader bp).channel + 1 else (w.xprt self.transport.other).nextChannelId) :
      Act G w ((((w.emit (.dispatched source bp.contents)).spawn self.transport.other
        sys.connectedAddr { born with rxCredit := defaultCreditSimplex } next
        [.created sys.connectedAddr]).adopt sys.connectedAddr self.transport.other source).clear
        source)
  | ignored {source : Addr} {self : Endpoint} {bp : NiBuffer} {sys : Syscalls}
      (arrived : Arrived G w source self bp sys) (cmd : (packetHeader bp).cmd ≠ channelOpen)
      (nobody : proxyChannelById w self.transport.other (packetHeader bp).channel = none ∨
        ((packetHeader bp).cmd ≠ channelClose ∧ (packetHeader bp).cmd ≠ channelData)) :
      Act G w ((w.emit (.dispatched source bp.contents)).clear source)
  | closing {source : Addr} {self : Endpoint} {bp : NiBuffer} {sys : Syscalls}
      {sink : Addr} (arrived : Arrived G w source self bp sys)
      (cmd : (packetHeader bp).cmd = channelClose)
      (member : proxyChannelById w self.transport.other (packetHeader bp).channel = some sink) :
      Act G w (((w.emit (.dispatched source bp.contents)).modify sink
        fun other => { other with shutdownWrite := true }).clear source)
  | deliver {source : Addr} {self : Endpoint} {bp : NiBuffer} {sys : Syscalls}
      {sink : Addr} (arrived : Arrived G w source self bp sys)
      (cmd : (packetHeader bp).cmd = channelData)
      (member : proxyChannelById w self.transport.other (packetHeader bp).channel = some sink)
      (funded : (packetPayload bp).count ≤ self.rxCredit) :
      Act G w ((((w.emit (.dispatched source bp.contents)).emit
        (.delivered (packetHeader bp).channel sink (packetPayload bp).contents)).charge sink
        (ioMbufWrap (packetPayload bp) (some source))).clear source)
  | administer (t : Side) (next : UInt32) {events : List Event}
      (admin : ∀ event ∈ events, event.Administrative w)
      (counted : t = .downstream → next = (w.xprt t).nextChannelId ∨
        G.count w ∧ next = (w.xprt t).nextChannelId + 1) :
      Act G w ((w.counter t next).note events)
  /-- An accepted client whose channel is announced to the peer. -/
  | announced {self : Endpoint} {sys : Syscalls} {sink : Addr}
      (allowed : G.accept w sys) (absent : w.heap.cells sys.acceptedAddr = none)
      (fresh : self.Fresh (w.xprt .downstream) .downstream)
      (simplex : (w.xprt .downstream).type = .simplex)
      (channel : self.channelId = (w.xprt .downstream).nextChannelId)
      (link : (w.xprt .upstream).multiplex = some sink) (counted : G.count w) :
      Act G w (((w.spawn .downstream sys.acceptedAddr self
        ((w.xprt .downstream).nextChannelId + 1)
        [.created sys.acceptedAddr, .accepted self.channelId]).charge sink
        (proxyChannelOpenNew self.channelId)).adopt sys.acceptedAddr .downstream sink)
  /-- An accepted client with an endpoint of its own on the other transport. -/
  | paired {self other : Endpoint} {sys : Syscalls}
      (allowed : G.accept w sys) (absent : w.heap.cells sys.acceptedAddr = none)
      (fresh : self.Fresh (w.xprt .downstream) .downstream)
      (simplex : (w.xprt .downstream).type = .simplex)
      (channel : self.channelId = (w.xprt .downstream).nextChannelId)
      (alone : (w.xprt .upstream).multiplex = none)
      (vacant : w.heap.cells sys.connectedAddr = none)
      (different : sys.connectedAddr ≠ sys.acceptedAddr)
      (partner : other.Fresh (w.xprt .upstream) .upstream) (silent : other.channelId = 0)
      (counted : G.count w) :
      Act G w ((((w.spawn .downstream sys.acceptedAddr self
        ((w.xprt .downstream).nextChannelId + 1)
        [.created sys.acceptedAddr, .accepted self.channelId]).spawn .upstream sys.connectedAddr
        other (w.xprt .upstream).nextChannelId [.created sys.connectedAddr]).adopt
        sys.connectedAddr .upstream sys.acceptedAddr).adopt sys.acceptedAddr .downstream
        sys.connectedAddr)
  /-- An accepted multiplex connection. -/
  | multiplexed {self : Endpoint} {sys : Syscalls} (listenFd : Option Fd)
      (allowed : G.accept w sys) (absent : w.heap.cells sys.acceptedAddr = none)
      (fresh : self.Fresh (w.xprt .downstream) .downstream)
      (multiplex : (w.xprt .downstream).type = .multiplex) (connected : self.connected = true)
      (vacant : (w.xprt .downstream).multiplex = none)
      (listening : listenFd =
        if (w.xprt .downstream).forkOnAccept then none else (w.xprt .downstream).listenFd) :
      Act G w ((w.spawn .downstream sys.acceptedAddr self (w.xprt .downstream).nextChannelId
        [.created sys.acceptedAddr, .accepted self.channelId]).modifyXprt .downstream
        fun xprt => { xprt with multiplex := some sys.acceptedAddr, listenFd := listenFd })
  | flush {ep : Addr} {self : Endpoint} {t : Side} (found : w.heap.cells ep = some self)
      (dead : self.dead = true) (allowed : G.release w ep) : Act G w (w.flush ep t self.wqueue)
  | detach {ep : Addr} {self : Endpoint} (found : w.heap.cells ep = some self) :
      Act G w (w.modify ep fun self => { self with sink := none })
  | release {ep : Addr} {self : Endpoint} (found : w.heap.cells ep = some self)
      (dead : self.dead = true)
      (empty : self.wbuf = none ∧ self.wqueue = [] ∧ self.rbuf = none)
      (allowed : G.release w ep) : Act G w (w.release ep self.transport)

abbrev Acts (G : Guard) := Relation.ReflTransGen (Act G)

end Testbus.Proxy
