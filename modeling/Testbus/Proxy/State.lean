import Testbus.Buffer
import Testbus.Lib.Machine
import Testbus.Lib.Store

namespace Testbus.Proxy

open Lib

abbrev Fd := Nat

inductive Side
  | upstream
  | downstream
  deriving DecidableEq

def Side.other : Side → Side
  | .upstream => .downstream
  | .downstream => .upstream

@[simp] theorem Side.other_ne (t : Side) : t.other ≠ t := by cases t <;> decide

/-- The places of an `ni_assert` the proxy can reach. -/
inductive AssertSite
  | recvBufsizCredit
  | queueWriteCredit
  | pullupCount
  | pollCount
  | recvCopySink
  | recvMuxSink
  | recvMuxChannel
  | recvDemuxAvail
  | delayedConnector
  | acceptFd
  deriving DecidableEq

inductive Fatal
  | allocationFailed
  | cannotCreateSocket
  | cannotOpenSerial
  | delayedConnectFailed
  | demuxOpenFailed
  | secondMultiplex
  | listenFailed
  | setupFailed
  deriving DecidableEq

/-- How the process ends other than by leaving its main loop. -/
inductive Fault
  | assertion (site : AssertSite)
  | fatal (reason : Fatal)
  | useAfterFree (addr : Addr)
  | nullPointer
  deriving DecidableEq

/-- `struct io_mbuf` with its buffer still in it, as on a write queue. Once the
buffer is taken the message is only freed, so that state has no value here. The
queue is a list, so there is no `next`. -/
structure Mbuf where
  source : Option Addr
  buffer : NiBuffer
  credit : Nat

def Mbuf.bytes (mbuf : Mbuf) : Bytes := mbuf.buffer.contents

inductive EndpointType
  | none
  | simplex
  | multiplex
  deriving DecidableEq

/-- `struct io_endpoint`. A descriptor of -1 is `none`; the lists an endpoint is
on are lists of addresses in the transport, so `prevp` and `next` are not kept.
Credits are far below the 32 bits they have. -/
structure Endpoint where
  type : EndpointType
  transport : Side
  sink : Option Addr := none
  channelId : UInt32
  rfd : Option Fd
  wfd : Option Fd
  rxCredit : Nat
  rbuf : Option NiBuffer := none
  wbuf : Option NiBuffer := none
  wqueue : List Mbuf := []
  shutdownWrite : Bool := false
  connected : Bool

def channelIdNone : UInt32 := 0
def defaultCreditSimplex : Nat := 8192
def defaultCreditMultiplex : Nat := 16 * defaultCreditSimplex

/-- Both descriptors are closed. -/
def Endpoint.dead (ep : Endpoint) : Bool := ep.rfd.isNone && ep.wfd.isNone

/-- The bytes queued to an endpoint and not yet written. -/
def Endpoint.pending (ep : Endpoint) : Bytes :=
  (ep.wbuf.map NiBuffer.contents).getD [] ++ (ep.wqueue.map Mbuf.bytes).flatten

inductive TransportOps
  | unix
  | serial
  | stdio
  deriving DecidableEq

/-- The three receive handlers a transport's `data_available` can point to. -/
inductive DataAvailable
  | recvCopy
  | recvMux
  | recvDemux
  deriving DecidableEq

structure Transport where
  ops : TransportOps
  type : EndpointType
  address : Option String
  dataAvailable : DataAvailable := .recvCopy
  multiplex : Option Addr := none
  epList : List Addr := []
  garbageList : List Addr := []
  listenFd : Option Fd := none
  forkOnAccept : Bool := false
  nextChannelId : UInt32 := 1

/-- What a run shows to an observer of its calls. -/
inductive Event
  | created (addr : Addr)
  | freed (addr : Addr)
  | closed (fd : Fd)
  | accepted (channel : UInt32)
  | received (addr : Addr) (bytes : Bytes)
  | wrote (addr : Addr) (bytes : Bytes)
  | queued (sink : Addr) (bytes : Bytes)
  | framed (source : Addr) (channel : UInt32) (payload : Bytes)
  | dispatched (source : Addr) (packet : Bytes)
  | delivered (channel : UInt32) (sink : Addr) (payload : Bytes)

/-- The process: its endpoints, its two transports and what it has shown so far. -/
structure World where
  heap : Store Endpoint
  xprt : Side → Transport
  trace : List Event := []

namespace World

def deref (w : World) (addr : Addr) : Except Fault Endpoint :=
  match w.heap.cells addr with
  | some ep => .ok ep
  | none => .error (.useAfterFree addr)

/-- Assign to fields of an endpoint that is known to be live. -/
def modify (w : World) (addr : Addr) (change : Endpoint → Endpoint) : World :=
  { w with heap := w.heap.modify addr change }

def modifyXprt (w : World) (t : Side) (change : Transport → Transport) : World :=
  { w with xprt := Function.update w.xprt t (change (w.xprt t)) }

def emit (w : World) (event : Event) : World := { w with trace := w.trace ++ [event] }

end World

inductive WriteResult
  | wrote (count : Nat)
  | epipe
  | failed
  deriving DecidableEq

inductive Fork
  | child
  | parent
  | failed
  deriving DecidableEq

structure Revents where
  pollin : Bool := false
  pollout : Bool := false
  pollhup : Bool := false
  deriving DecidableEq

/-- The answers of the system to the calls of one step. A `read` that returns
bytes, none of them at end of file, or fails. The allocator gives any address that
is not in use; an answer that is in use stands for a failed allocation. `FIONREAD`
fills in an `int`. -/
structure Syscalls where
  fionread : Option (Fin (2 ^ 31)) := none
  reads : List (Option Bytes) := []
  write : WriteResult := .failed
  listens : Option Fd := none
  accepts : Option Fd := none
  fork : Fork := .child
  opens : Option Fd := none
  connects : Bool := true
  acceptedAddr : Addr := 0
  connectedAddr : Addr := 0
  polls : Option (List Revents) := none

/-- `read(fd, buf, count)` on the first answer that is left. -/
def Syscalls.read (answers : List (Option Bytes)) (count : Nat) : Option Bytes :=
  (answers.head?.join).map (·.take count)

end Testbus.Proxy
