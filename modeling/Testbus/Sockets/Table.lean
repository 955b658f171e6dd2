import Testbus.Lib.Machine
import Testbus.Lib.Store

namespace Testbus.Sockets

open Lib

/-- The `poll` flags. -/
structure Flags where
  input : Bool := false
  output : Bool := false
  error : Bool := false
  hangup : Bool := false
  deriving DecidableEq

/-- `ni_socket_t`. Last are the references that are held outside of this file, and how often the
socket was closed. -/
structure Socket where
  refcount : Nat := 1
  fd : Option Nat
  active : Bool := false
  pollFlags : Flags := {}
  /-- Whether there is a callback. -/
  close : Bool
  receive : Bool := false
  transmit : Bool := false
  checkTimeout : Bool := false
  holders : Nat := 1
  closed : Nat := 0
  deriving DecidableEq

/-- Close with the callback or, if there is none, close the descriptor. -/
def Socket.shut (sock : Socket) : Socket :=
  { sock with
    fd := none
    closed := if sock.close || sock.fd.isSome then sock.closed + 1 else sock.closed }

/-- `struct pollfd`, with the socket that it was filled in for. -/
structure PollFd where
  owner : Addr
  fd : Option Nat
  events : Flags
  revents : Flags := {}
  deriving DecidableEq

inductive Handler
  | error
  | receive
  | transmit
  | hangup
  deriving DecidableEq

def Handler.flag : Handler → Flags → Bool
  | error => Flags.error
  | receive => Flags.input
  | transmit => Flags.output
  | hangup => Flags.hangup

/-- There is no callback for input or output. -/
def Socket.missing (sock : Socket) : Handler → Bool
  | .receive => !sock.receive
  | .transmit => !sock.transmit
  | _ => false

/-- Where a call of `ni_socket_wait` is. -/
inductive Stage
  /-- The timers are called, in front of `poll`. -/
  | arming
  /-- Children are reaped, in front of the loop or after a signal. -/
  | reaping
  | interrupted
  /-- The loop is at a slot. -/
  | slot (i : Nat)
  /-- The next check is that for input, output or a hangup of the socket. -/
  | check (handler : Handler) (i : Nat) (sock : Addr)
  /-- A handler of the socket runs. -/
  | handle (handler : Handler) (i : Nat) (sock : Addr)
  | release (i : Nat) (sock : Addr)
  /-- The loop over the timeouts is at a slot. -/
  | timeouts (i : Nat)
  | timeout (i : Nat)
  /-- The timers are called, at the end. -/
  | timers
  deriving DecidableEq

structure Frame where
  pfd : List PollFd
  stage : Stage
  deriving DecidableEq

/-- A call of a handler, and the events that it is called for. -/
structure Invocation where
  handler : Handler
  sock : Addr
  reported : PollFd
  deriving DecidableEq

/-- `memory` is what `__ni_sockets` points to, as far as it is allocated; what was never written
there is `none`. The calls of `ni_socket_wait` are nested, the innermost first. -/
structure State where
  sockets : Store Socket := .empty
  memory : List (Option (Option Addr)) := []
  count : Nat := 0
  frames : List Frame := []
  invoked : List Invocation := []
  /-- The sockets that were freed, with how often each was closed. -/
  freed : List (Addr × Nat) := []

inductive Fault
  /-- `ni_fatal` or a failed assertion -/
  | fatal
  | nullDereference
  | useAfterFree
  | outOfBounds
  | uninitialised
  /-- Not an operation of a program that keeps to the references that it has. -/
  | disabled
  deriving DecidableEq

namespace State

variable (s : State)

def get (a : Addr) : Except Fault Socket :=
  match s.sockets.cells a with
  | some sock => .ok sock
  | none => .error .useAfterFree

def modify (a : Addr) (change : Socket → Socket) : State :=
  { s with sockets := s.sockets.modify a change }

/-- `__ni_sockets[i]` -/
def slot (i : Nat) : Except Fault (Option Addr) :=
  match s.memory[i]? with
  | none => .error .outOfBounds
  | some none => .error .uninitialised
  | some (some entry) => .ok entry

def setSlot (i : Nat) (entry : Option Addr) : State :=
  { s with memory := s.memory.set i (some entry) }

/-- What `realloc` makes of the table. -/
def realloc (size : Nat) : State :=
  { s with memory := s.memory.take size ++ List.replicate (size - s.memory.length) none }

def activate (a : Addr) : Except Fault State := do
  let sock ← s.get a
  if sock.active then .ok s
  else
    let s := if s.count % 16 = 0 then s.realloc (s.count + 16) else s
    if s.memory.length ≤ s.count then .error .outOfBounds
    else .ok ({ s.setSlot s.count (some a) with count := s.count + 1 }.modify a fun sock =>
      { sock with
        refcount := sock.refcount + 1
        active := true
        pollFlags := if sock.pollFlags = ({} : Flags) then { input := true } else sock.pollFlags })

/-- What `__ni_socket_close` does before it looks at `active`. -/
def shut (a : Addr) : State := s.modify a Socket.shut

/-- `ni_socket_release`. To close a socket that is still active is fatal: deactivating it releases
it once more, or does not find it. -/
def release (a : Addr) : Except Fault State := do
  let sock ← s.get a
  if sock.refcount = 0 then .error .fatal
  else
    let s := s.modify a fun sock => { sock with refcount := sock.refcount - 1 }
    if sock.refcount ≠ 1 then .ok s
    else
      let s := s.shut a
      let sock ← s.get a
      if sock.active then .error .fatal
      else .ok { s with
        sockets := s.sockets.free a
        freed := (a, sock.closed) :: s.freed }

/-- `__ni_socket_deactivate` -/
def deactivateSlot (i : Nat) : Except Fault State := do
  match ← s.slot i with
  | none => .error .nullDereference
  | some a =>
    let _ ← s.get a
    ((s.setSlot i none).modify a fun sock => { sock with active := false }).release a

def deactivate (a : Addr) : Except Fault State := do
  let sock ← s.get a
  if sock.active then
    match (List.range s.count).find? fun i => s.memory[i]? = some (some (some a)) with
    | some i => s.deactivateSlot i
    | none => .ok s
  else .ok s

def close (a : Addr) : Except Fault State := do
  let _ ← s.get a
  let s ← (s.shut a).deactivate a
  s.release a

/-- The first two steps of `ni_socket_wait`: the empty slots go, and the array for `poll` is
filled in. -/
def wait : Except Fault State := do
  let entries ← (List.range s.count).mapM s.slot
  let kept := entries.filterMap id
  let s := { s with
    memory := kept.map (some ∘ some) ++ s.memory.drop kept.length
    count := kept.length }
  let pfd ← kept.mapM fun a => do
    let sock ← s.get a
    .ok { owner := a, fd := sock.fd, events := sock.pollFlags }
  .ok { s with frames := ⟨pfd, .arming⟩ :: s.frames }

/-- Go on in the innermost call. -/
def enter (frame : Frame) (rest : List Frame) (stage : Stage) : State :=
  { s with frames := { frame with stage } :: rest }

/-- Call a handler. -/
def invoke (frame : Frame) (rest : List Frame) (handler : Handler) (i : Nat) (a : Addr)
    (reported : PollFd) : State :=
  { s.enter frame rest (.handle handler i a) with
    invoked := ⟨handler, a, reported⟩ :: s.invoked }

end State

/-- The check behind that for a handler. -/
def Stage.behind (i : Nat) (a : Addr) : Handler → Stage
  | .error => .release i a
  | .receive => .check .transmit i a
  | .transmit => .check .hangup i a
  | .hangup => .release i a

/-- What a program does with a socket, outside of `ni_socket_wait` or in something it calls. -/
inductive Op
  /-- A new socket with a descriptor, and with a `close` callback or without. -/
  | wrap (a : Addr) (fd : Nat) (close : Bool)
  | configure (a : Addr) (receive transmit checkTimeout : Bool) (pollFlags : Flags)
  | activate (a : Addr)
  | deactivate (a : Addr)
  | hold (a : Addr)
  | release (a : Addr)
  | close (a : Addr)
  | wait
  deriving DecidableEq

inductive Polled
  /-- An error, or nothing to wait for. -/
  | failed
  | interrupted
  | ready (revents : List Flags)
  deriving DecidableEq

inductive Input
  | op (op : Op)
  | poll (polled : Polled)
  /-- What `ni_socket_wait` called returns. -/
  | ret
  /-- `ni_socket_wait` goes on. -/
  | next
  deriving DecidableEq

namespace State

variable (s : State)

/-- Whether the program has the control. -/
def calling : Bool :=
  match s.frames with
  | [] => true
  | frame :: _ =>
    match frame.stage with
    | .arming | .reaping | .interrupted | .handle .. | .timeout _ | .timers => true
    | _ => false

/-- Drop a reference that is held outside. -/
def giveUp (a : Addr) (drop : State → Addr → Except Fault State) : Except Fault State :=
  match s.sockets.cells a with
  | none => .error .disabled
  | some sock =>
    if sock.holders = 0 then .error .disabled
    else drop (s.modify a fun sock => { sock with holders := sock.holders - 1 }) a

/-- Use a socket that is there. -/
def use (a : Addr) (operation : Except Fault State) : Except Fault State :=
  if (s.sockets.cells a).isSome then operation else .error .disabled

def perform : Op → Except Fault State
  | .wrap a fd close =>
    if (s.sockets.cells a).isSome then .error .disabled
    else .ok { s with sockets := s.sockets.alloc a { fd := some fd, close } }
  | .configure a receive transmit checkTimeout pollFlags =>
    s.use a (.ok (s.modify a fun sock =>
      { sock with receive, transmit, checkTimeout, pollFlags }))
  | .activate a => s.use a (s.activate a)
  | .deactivate a => s.use a (s.deactivate a)
  | .hold a =>
    s.use a (.ok (s.modify a fun sock =>
      { sock with refcount := sock.refcount + 1, holders := sock.holders + 1 }))
  | .release a => s.giveUp a release
  | .close a => s.giveUp a close
  | .wait => s.wait

/-- The loop at a slot: the socket is held until the loop is done with it. -/
def visit (frame : Frame) (rest : List Frame) (i : Nat) : Except Fault State := do
  match frame.pfd[i]? with
  | none => .ok (s.enter frame rest (.timeouts 0))
  | some reported =>
    match ← s.slot i with
    | none => .ok (s.enter frame rest (.slot (i + 1)))
    | some a =>
      let sock ← s.get a
      let s := s.modify a fun sock => { sock with refcount := sock.refcount + 1 }
      -- goes on without giving the reference back
      if ¬ sock.active then .ok (s.enter frame rest (.slot (i + 1)))
      else if reported.revents.error then
        let s ← s.deactivateSlot i
        .ok (s.invoke frame rest .error i a reported)
      else .ok (s.enter frame rest (.check .receive i a))

/-- The checks for input, output and a hangup. -/
def checkEvent (frame : Frame) (rest : List Frame) (handler : Handler) (i : Nat) (a : Addr) :
    Except Fault State := do
  match frame.pfd[i]? with
  | none => .error .outOfBounds
  | some reported =>
    let sock ← s.get a
    if ¬ handler.flag reported.revents then .ok (s.enter frame rest (.behind i a handler))
    else if sock.missing handler then
      let s ← s.deactivateSlot i
      .ok (s.enter frame rest (.behind i a handler))
    else .ok (s.invoke frame rest handler i a reported)

/-- The loop over the timeouts at a slot. -/
def visitTimeout (frame : Frame) (rest : List Frame) (i : Nat) : Except Fault State := do
  if frame.pfd.length ≤ i then .ok (s.enter frame rest .timers)
  else
    match ← s.slot i with
    | none => .ok (s.enter frame rest (.timeouts (i + 1)))
    | some a =>
      let sock ← s.get a
      .ok (s.enter frame rest (if sock.checkTimeout then .timeout i else .timeouts (i + 1)))

def step : Input → Except Fault State
  | .op op => if s.calling then s.perform op else .error .disabled
  | .poll polled =>
    match s.frames with
    | ⟨pfd, .arming⟩ :: rest =>
      match polled with
      | .failed => .ok { s with frames := rest }
      | .interrupted => .ok (s.enter ⟨pfd, .arming⟩ rest .interrupted)
      | .ready revents =>
        if revents.length ≠ pfd.length then .error .disabled
        else
          let pfd := pfd.zipWith (fun entry revents => { entry with revents }) revents
          .ok { s with frames := ⟨pfd, .reaping⟩ :: rest }
    | _ => .error .disabled
  | .ret =>
    match s.frames with
    | frame :: rest =>
      match frame.stage with
      | .reaping => .ok (s.enter frame rest (.slot 0))
      | .handle handler i a => .ok (s.enter frame rest (.behind i a handler))
      | .timeout i => .ok (s.enter frame rest (.timeouts (i + 1)))
      | .interrupted | .timers => .ok { s with frames := rest }
      | _ => .error .disabled
    | [] => .error .disabled
  | .next =>
    match s.frames with
    | frame :: rest =>
      match frame.stage with
      | .slot i => s.visit frame rest i
      | .check handler i a => s.checkEvent frame rest handler i a
      | .release i a => (s.enter frame rest (.slot (i + 1))).release a
      | .timeouts i => s.visitTimeout frame rest i
      | _ => .error .disabled
    | [] => .error .disabled

end State

end Testbus.Sockets
