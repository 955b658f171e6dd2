import Testbus.Dbus.Records
import Testbus.Lib.Machine

namespace Testbus.Client

open Testbus.Dbus Lib

/-- `struct ni_testbus_waitq`; `addr` is where it lies. -/
structure Waitq where
  addr : Nat
  objectPath : CString
  done : Bool := false
  exitInfo : Option ExitInfo := none
  deriving DecidableEq

def waitqFind (objectPath : CString) (q : List Waitq) : Option Waitq :=
  q.find? fun wq => wq.objectPath = objectPath

def waitqUnlink (addr : Nat) (q : List Waitq) : List Waitq :=
  q.filter fun wq => wq.addr ≠ addr

/-- Note the exit information in the entry at `addr`. -/
def waitqFinish (addr : Nat) (info : ExitInfo) (q : List Waitq) : List Waitq :=
  q.map fun wq => if wq.addr = addr then { wq with exitInfo := some info, done := true } else wq

/-- The call that a client is in. -/
inductive Call
  | idle
  /-- `Host.run` was sent; the master made the process object `made`. -/
  | running (made : Option CString)
  /-- The answer to `Host.run` came, and the process object is being fetched. -/
  | fetching
  /-- A wait found no entry and asks for the properties of the process. -/
  | asking (objectPath : CString) (wq : Nat) (timeout : Bool)
  /-- A wait is in its loop. -/
  | waiting (objectPath : CString) (wq : Nat) (timeout : Bool)
  deriving DecidableEq

/-- Where a wait has its answer from. -/
inductive Source
  | entry
  | property
  | alarm
  deriving DecidableEq

structure Return where
  objectPath : CString
  info : ExitInfo
  source : Source
  deriving DecidableEq

/-- A client and what the master has for it: the process objects with their exit
information, and the signals under way. -/
structure State where
  waitq : List Waitq := []
  spuriousWaitq : Option (List Waitq) := none
  initialized : Bool := false
  next : Nat := 0
  call : Call := .idle
  returned : List Return := []
  processes : CString → Option ExitInfo := fun _ => none
  signals : List (CString × Variant) := []

/-- The `-1` that `how` is before the process has exited. -/
def notExited : ExitMode := 0xffffffff

/-- The property `exit-info` of the process object, which a running process does not have. -/
def State.exited (s : State) (objectPath : CString) : Option ExitInfo :=
  (s.processes objectPath).filter fun info => info.how ≠ notExited

/-- The exit signal of the process is still to be handled by the client. -/
def State.UnderWay (s : State) (objectPath : CString) : Prop :=
  objectPath ∈ s.signals.map Prod.fst

instance (s : State) (objectPath : CString) : Decidable (s.UnderWay objectPath) :=
  inferInstanceAs (Decidable (_ ∈ _))

/-- `__ni_testbus_process_signal`; without its handler a client gets no signals. -/
def processSignal (objectPath : CString) (arg : Variant) (s : State) : State :=
  match s.initialized, arg with
  | true, .dict _ =>
    match waitqFind objectPath s.waitq with
    | some wq => { s with waitq := waitqFinish wq.addr (exitInfoDeserialize arg) s.waitq }
    | none =>
      match s.spuriousWaitq with
      | some spurious =>
        { s with
          spuriousWaitq := some ({ addr := s.next, objectPath := objectPath, done := true,
                                   exitInfo := some (exitInfoDeserialize arg) } :: spurious)
          next := s.next + 1 }
      | none => s
  | _, _ => s

/-- `__ni_testbus_process_wait`, with the address of the entry. -/
def processWait (objectPath : CString) (s : State) : Nat × State :=
  match s.spuriousWaitq.bind (waitqFind objectPath) with
  | some wq =>
    (wq.addr, { s with spuriousWaitq := s.spuriousWaitq.map (waitqUnlink wq.addr)
                       waitq := wq :: s.waitq })
  | none =>
    match waitqFind objectPath s.waitq with
    | some wq => (wq.addr, s)
    | none =>
      (s.next, { s with waitq := { addr := s.next, objectPath := objectPath } :: s.waitq
                        next := s.next + 1 })

/-- What happens: at the master, on the way, in the program of the client, or in its loop. -/
inductive Input
  /-- Some client ran a command, which made a new process object. -/
  | create (objectPath : CString)
  /-- The master handles the `Host.run` of this client. -/
  | schedule (objectPath : CString)
  /-- The agent of a process calls `setExitInfo`, once, when the process has exited. -/
  | exit (objectPath : CString) (info : ExitInfo)
  /-- The client handles one of the signals under way. -/
  | signal (place : Nat)
  | run
  /-- The answer to `Host.run`: the path, or none that can be used. -/
  | reply (usable : Bool)
  | wait (objectPath : CString) (timeout : Bool)
  /-- The client goes on with the call it is in. -/
  | proceed
  | alarm
  deriving DecidableEq

/-- The input cannot come in that state. -/
inductive Fault
  | disabled
  deriving DecidableEq

/-- A wait that is done returns what the entry has, and frees it. -/
def waitReturn (objectPath : CString) (wq : Waitq) (s : State) : State :=
  { s with waitq := waitqUnlink wq.addr s.waitq, call := .idle
           returned := s.returned ++
             [{ objectPath := objectPath, info := wq.exitInfo.getD { how := 0 }
                source := .entry }] }

/-- The client goes on: `Host.run` returns, the properties are there, or the loop looks
at the entry once more. -/
def proceed (s : State) : Except Fault State :=
  match s.call with
  | .fetching => .ok { s with spuriousWaitq := none, call := .idle }
  | .asking objectPath wq timeout =>
    match s.exited objectPath with
    | some info =>
      .ok { s with call := .idle
                   returned := s.returned ++
                     [{ objectPath := objectPath, source := .property
                        info := exitInfoDeserialize (exitInfoSerialize info) }] }
    | none => .ok { s with call := .waiting objectPath wq timeout }
  | .waiting objectPath addr _ =>
    match s.waitq.find? fun wq => wq.addr = addr with
    | some wq => if wq.done then .ok (waitReturn objectPath wq s) else .error .disabled
    | none => .error .disabled
  | _ => .error .disabled

def step (s : State) : Input → Except Fault State
  | .create objectPath =>
    if s.processes objectPath = none then
      .ok { s with processes := Function.update s.processes objectPath (some { how := notExited }) }
    else .error .disabled
  | .schedule objectPath =>
    if s.call = .running none ∧ s.processes objectPath = none then
      .ok { s with processes := Function.update s.processes objectPath (some { how := notExited })
                   call := .running (some objectPath) }
    else .error .disabled
  | .exit objectPath info =>
    if s.processes objectPath = some { how := notExited } ∧ info.how ≠ notExited then
      .ok { s with processes := Function.update s.processes objectPath (some info)
                   signals := s.signals ++ [(objectPath, exitInfoSerialize info)] }
    else .error .disabled
  | .signal place =>
    match s.signals[place]? with
    | some (objectPath, arg) =>
      .ok (processSignal objectPath arg { s with signals := s.signals.eraseIdx place })
    | none => .error .disabled
  | .run =>
    if s.call = .idle then
      .ok { s with initialized := true, spuriousWaitq := some [], call := .running none }
    else .error .disabled
  | .reply usable =>
    match s.call with
    | .running made =>
      match usable, made with
      | true, some objectPath => .ok { (processWait objectPath s).2 with call := .fetching }
      | true, none => .error .disabled
      | false, _ => .ok { s with spuriousWaitq := none, call := .idle }
    | _ => .error .disabled
  | .wait objectPath timeout =>
    if s.call = .idle ∧ s.processes objectPath ≠ none then
      match waitqFind objectPath s.waitq with
      | some wq => .ok { s with call := .waiting objectPath wq.addr timeout }
      | none =>
        let (addr, s) := processWait objectPath { s with initialized := true }
        .ok { s with call := .asking objectPath addr timeout }
    else .error .disabled
  | .proceed => proceed s
  | .alarm =>
    match s.call with
    | .waiting objectPath _ true =>
      .ok { s with call := .idle
                   returned := s.returned ++
                     [{ objectPath := objectPath, info := { how := processTimedOut }
                        source := .alarm }] }
    | _ => .error .disabled

section Queues

variable {q : List Waitq}

theorem waitqFind_some (found : waitqFind objectPath q = some wq) : wq ∈ q ∧ wq.objectPath = objectPath :=
  ⟨List.mem_of_find?_eq_some found, by simpa using List.find?_some found⟩

theorem waitqFind_none (missing : waitqFind objectPath q = none) : ∀ wq ∈ q, wq.objectPath ≠ objectPath := by
  intro wq member same
  have := List.find?_eq_none.mp missing wq member
  simp [same] at this

theorem waitqFind_isSome (member : wq ∈ q) (path : wq.objectPath = objectPath) :
    ∃ first, waitqFind objectPath q = some first := by
  cases found : waitqFind objectPath q with
  | some first => exact ⟨first, rfl⟩
  | none => exact absurd path (waitqFind_none found wq member)

theorem mem_waitqFinish :
    wq ∈ waitqFinish addr info q ↔ ∃ old ∈ q,
      wq = if old.addr = addr then { old with exitInfo := some info, done := true } else old := by
  simp only [waitqFinish, List.mem_map, eq_comm]

@[simp] theorem map_addr_waitqFinish : (waitqFinish addr info q).map Waitq.addr = q.map Waitq.addr := by
  simp only [waitqFinish, List.map_map]
  congr 1
  funext old
  simp only [Function.comp_apply]
  split <;> rfl

@[simp] theorem map_objectPath_waitqFinish : (waitqFinish addr info q).map Waitq.objectPath = q.map Waitq.objectPath := by
  simp only [waitqFinish, List.map_map]
  congr 1
  funext old
  simp only [Function.comp_apply]
  split <;> rfl

theorem mem_waitqUnlink : wq ∈ waitqUnlink addr q ↔ wq ∈ q ∧ wq.addr ≠ addr := by
  simp [waitqUnlink]

/-- Entries of a queue without double addresses are the same when their addresses are. -/
theorem eq_of_addr (nodup : (q.map Waitq.addr).Nodup) (left : first ∈ q)
    (right : second ∈ q) (same : first.addr = second.addr) : first = second :=
  List.inj_on_of_nodup_map nodup left right same

end Queues

end Testbus.Client
