import Testbus.Proxy.Connect

namespace Testbus.Proxy

open Lib

/-- Network byte order of a 32-bit word. -/
def htonl (x : UInt32) : Bytes :=
  [UInt8.ofNat (x.toNat / 2 ^ 24), UInt8.ofNat (x.toNat / 2 ^ 16),
   UInt8.ofNat (x.toNat / 2 ^ 8), UInt8.ofNat x.toNat]

@[simp] theorem length_htonl (x : UInt32) : (htonl x).length = 4 := rfl

def ntohl (bytes : Bytes) : UInt32 :=
  UInt32.ofNat (bytes.foldl (fun acc byte => acc * 256 + byte.toNat) 0)

def channelOpen : UInt32 := 0
def channelClose : UInt32 := 1
def channelData : UInt32 := 2

structure DataHeader where
  cmd : UInt32
  channel : UInt32
  count : UInt32
  deriving DecidableEq

def dataHeaderSize : Nat := 12

def DataHeader.bytes (hdr : DataHeader) : Bytes :=
  htonl hdr.cmd ++ htonl hdr.channel ++ htonl hdr.count

/-- Read the packed header at an offset of the storage. -/
def DataHeader.at (bp : NiBuffer) (offset : Nat) : DataHeader :=
  { cmd := ntohl (bp.load offset 4), channel := ntohl (bp.load (offset + 4) 4),
    count := ntohl (bp.load (offset + 8) 4) }

/-- The size of the packet under construction, in `unsigned int`. -/
def packetSize (bp : NiBuffer) : Nat :=
  ((DataHeader.at bp bp.head).count.toNat + dataHeaderSize) % 2 ^ 32

/-- `FIONREAD` is an `ioctl`; where `fcntl` refuses it, 4096 bytes are assumed. -/
def proxyRecvBufsiz (ep : Endpoint) (sys : Syscalls) : Except Fault Nat :=
  if ep.rxCredit = 0 then .error (.assertion .recvBufsizCredit)
  else .ok (min (sys.fionread.elim 4096 Fin.val) ep.rxCredit)

def proxyChannelById (w : World) (t : Side) (channel : UInt32) : Option Addr :=
  (w.xprt t).epList.find? fun ep => (w.heap.cells ep).any fun self => self.channelId = channel

def proxyCommandNew (cmd channel : UInt32) (count : Nat) : Mbuf :=
  let bp := NiBuffer.new (dataHeaderSize + count)
  let hdr : DataHeader := { cmd := cmd, channel := channel, count := UInt32.ofNat count }
  ioMbufWrap ((bp.pushTail dataHeaderSize).2.store 0 hdr.bytes) none

def proxyChannelOpenNew (channel : UInt32) : Mbuf := proxyCommandNew channelOpen channel 0

def proxyChannelCloseNew (channel : UInt32) : Mbuf := proxyCommandNew channelClose channel 0

/-- Handle one complete packet received on the multiplexing endpoint `source`. -/
def proxyDemuxPacket (w : World) (source : Addr) (bp : NiBuffer) (sys : Syscalls) : Except Fault World := do
  let self ← w.deref source
  let t := self.transport.other
  let w := w.emit (.dispatched source bp.contents)
  match bp.pullHead dataHeaderSize with
  | (none, _) => .error .nullPointer
  | (some offset, bp) =>
    let hdr := DataHeader.at bp offset
    if hdr.cmd = channelOpen then do
      -- A duplicate open is reported and then carried out all the same.
      let (created, w) ← ioTransportConnectChannel w t hdr.channel true sys
      match created with
      | none => .error (.fatal .demuxOpenFailed)
      | some sink =>
        let w := w.modify sink fun self =>
          { self with channelId := hdr.channel, sink := some source, rxCredit := defaultCreditSimplex }
        .ok (ioEndpointLink w sink t .epList)
    else match proxyChannelById w t hdr.channel with
      | none => .ok w
      | some sink =>
        if hdr.cmd = channelClose then ioEndpointHalfclose w sink
        else if hdr.cmd = channelData then
          let w := w.emit (.delivered hdr.channel sink bp.contents)
          ioEndpointQueueWrite w sink (ioMbufWrap bp (some source)) sys
        else .ok w

def proxyRecvCopy (w : World) (ep : Addr) (sys : Syscalls) : Except Fault World := do
  let self ← w.deref ep
  let rcount ← proxyRecvBufsiz self sys
  match self.sink with
  | none => .error (.assertion .recvCopySink)
  | some sink =>
    let bp := NiBuffer.new rcount
    match Syscalls.read sys.reads bp.tailroom with
    | none => .ok w
    | some [] => do
      let _ ← w.deref sink
      let w := w.modify sink fun other => { other with shutdownWrite := true }
      ioEndpointShutdown w ep .rd
    | some bytes =>
      let bp := bp.fill bytes
      let w := w.emit (.received ep bytes)
      ioEndpointQueueWrite w sink (ioMbufWrap bp (some ep)) sys

/-- The header is built in place, in the headroom of the buffer the data was read
into, after the message has been charged with the payload alone. -/
def muxHeader (bp : NiBuffer) (channel : UInt32) : Option NiBuffer :=
  let hdr : DataHeader := { cmd := channelData, channel := channel, count := UInt32.ofNat bp.count }
  match bp.pushHead dataHeaderSize with
  | (none, _) => none
  | (some offset, bp) => some (bp.store offset hdr.bytes)

def proxyRecvMux (w : World) (ep : Addr) (sys : Syscalls) : Except Fault World := do
  let self ← w.deref ep
  let rcount ← proxyRecvBufsiz self sys
  match self.sink with
  | none => .error (.assertion .recvMuxSink)
  | some sink =>
    if self.channelId = 0 then .error (.assertion .recvMuxChannel)
    else
      let bp := (NiBuffer.new (rcount + dataHeaderSize)).reserveHead dataHeaderSize
      match Syscalls.read sys.reads bp.tailroom with
      | none => .ok w
      | some [] => do
        let w ← ioEndpointQueueWrite w sink (proxyChannelCloseNew self.channelId) sys
        ioEndpointShutdown w ep .rd
      | some bytes =>
        let bp := bp.fill bytes
        let mbuf := ioMbufWrap bp (some ep)
        match muxHeader bp self.channelId with
        | none => .error .nullPointer
        | some bp =>
          let w := w.emit (.framed ep self.channelId bytes)
          ioEndpointQueueWrite w sink { mbuf with buffer := bp } sys

/-- How the read loop of `proxy_recv_demux` ends. -/
inductive DemuxEnd
  | budgetSpent
  | packet
  | readError
  | partialPacket
  | endOfFile
  | overrun
  deriving DecidableEq

structure DemuxRead where
  reason : DemuxEnd
  bp : NiBuffer
  received : Bytes

/-- The loop reads at most `rcount` bytes, never past the end of the packet under
construction. Every pass asks the system for one more answer. -/
def proxyRecvDemuxLoop (rcount : Nat) (bp : NiBuffer) (received : Bytes)
    (answers : List (Option Bytes)) : DemuxRead :=
  if rcount = 0 then ⟨.budgetSpent, bp, received⟩
  else
    let avail := bp.count
    let pktsize := packetSize bp
    if dataHeaderSize ≤ avail ∧ avail = pktsize then ⟨.packet, bp, received⟩
    else if dataHeaderSize ≤ avail ∧ ¬ avail < pktsize then ⟨.overrun, bp, received⟩
    else
      let wanted := if avail < dataHeaderSize then dataHeaderSize - avail else pktsize - avail
      let rnext := min wanted rcount
      let bp := bp.ensureTailroom rnext
      match answers with
      | [] => ⟨.readError, bp, received⟩
      | none :: _ => ⟨.readError, bp, received⟩
      | some bytes :: rest =>
        let got := bytes.take rnext
        if got = [] then ⟨if received = [] then .endOfFile else .partialPacket, bp, received⟩
        else proxyRecvDemuxLoop (rcount - got.length) (bp.fill got) (received ++ got) rest

/-- Half-closing an endpoint that has nothing left to write moves it to the end of
the garbage list; its `next` is then empty and the walk over the list is over. -/
def halfcloseAll (w : World) (t : Side) : List Addr → Except Fault World
  | [] => .ok w
  | other :: rest => do
    let w ← ioEndpointHalfclose w other
    if other ∈ (w.xprt t).epList then halfcloseAll w t rest else .ok w

def proxyRecvDemux (w : World) (ep : Addr) (sys : Syscalls) : Except Fault World := do
  let self ← w.deref ep
  let rcount ← proxyRecvBufsiz self sys
  let bp := self.rbuf.getD (NiBuffer.new (4096 + dataHeaderSize))
  let loop := proxyRecvDemuxLoop rcount bp [] sys.reads
  let w := w.modify ep fun self => { self with rbuf := some loop.bp }
  let w := w.emit (.received ep loop.received)
  match loop.reason with
  | .packet => do
    let w ← proxyDemuxPacket w ep loop.bp sys
    .ok (w.modify ep fun self => { self with rbuf := none })
  | .overrun => .error (.assertion .recvDemuxAvail)
  | .endOfFile => do
    let w ← halfcloseAll w self.transport.other (w.xprt self.transport.other).epList
    ioEndpointShutdown w ep .rd
  | _ => .ok w

/-- `xprt->data_available`. -/
def DataAvailable.handler : DataAvailable → World → Addr → Syscalls → Except Fault World
  | .recvCopy => proxyRecvCopy
  | .recvMux => proxyRecvMux
  | .recvDemux => proxyRecvDemux

end Testbus.Proxy
