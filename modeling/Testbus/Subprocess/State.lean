import Testbus.Lib.Linked
import Testbus.Lib.Machine

namespace Testbus.Subprocess

open Lib

/-- The status that `waitpid` stores. -/
inductive WaitStatus
  | exited (code : Nat)
  | signaled (signal : Nat) (coreDumped : Bool)
  | other
  deriving DecidableEq

/-- `ni_process_exit_info_t`; `unset` is the `-1` of a new process. -/
inductive ExitInfo
  | unset
  | exited (code : Nat)
  | crashed (signal : Nat) (coreDumped : Bool)
  | transcended
  deriving DecidableEq

def fillExitInfo : WaitStatus → ExitInfo
  | .exited code => .exited code
  | .signaled signal coreDumped => .crashed signal coreDumped
  | .other => .transcended

/-- `ni_process_t`. The callback is set by the owner before the process can be reaped. -/
structure Process where
  next : Option Addr := none
  shellcmd : Bool
  pid : Nat := 0
  status : WaitStatus := .exited 0
  exitInfo : ExitInfo := .unset
  exitCallback : Bool
  deriving DecidableEq

/-- An exit as the callback of the process sees it. -/
structure Report where
  process : Addr
  info : ExitInfo
  deriving DecidableEq

/-- A child as the kernel knows it until it is waited for, with the process it was forked for. -/
structure Child where
  pid : Nat
  owner : Addr
  callback : Bool
  ended : Option WaitStatus := none
  deriving DecidableEq

/-- The report that an exit of the child calls for. -/
def Child.report (child : Child) (status : WaitStatus) : Option Report :=
  if child.callback then some ⟨child.owner, fillExitInfo status⟩ else none

/-- The report of a child that has ended and was not waited for. -/
def Child.due (child : Child) : Option Report :=
  child.ended.bind child.report

/-- `started` and `exits` are the history: the processes that were run asynchronously and are
neither reaped nor freed, and what the exits so far call for. -/
structure State where
  processes : Store Process := .empty
  queue : Option Addr := none
  handlerEstablished : Bool := false
  sigchldReceived : Bool := false
  children : List Child := []
  reaping : Nat := 0
  reports : List Report := []
  started : List Addr := []
  exits : List Report := []

inductive Fault
  | useAfterFree
  | endless
  | nullDereference
  | disabled
  deriving DecidableEq

/-- What the system says to an attempt to start a program. -/
structure Attempt where
  executable : Bool
  fork : Option Nat
  deriving DecidableEq

namespace State

/-- The `next` pointers of the processes. -/
def link (s : State) (a : Addr) : Option (Option Addr) :=
  (s.processes.cells a).map Process.next

/-- The signal of an exit, once there is a handler for it. -/
def sigchld (s : State) : State :=
  { s with sigchldReceived := s.sigchldReceived || s.handlerEstablished }

def addWaitq (s : State) (a : Addr) (pi : Process) : State :=
  let s := { s with handlerEstablished := true }
  if pi.next ≠ none then s
  else { s with
    processes := s.processes.modify a fun pi => { pi with next := s.queue }
    queue := some a }

/-- `fork` returned a number that no child has. -/
def fork (s : State) (a : Addr) (pi : Process) (pid : Nat) : State :=
  { s with
    processes := s.processes.modify a fun pi => { pi with pid }
    children := s.children ++ [{ pid, owner := a, callback := pi.exitCallback }] }

/-- `__ni_process_run`, and whether it returned 0. -/
def runProcess (s : State) (a : Addr) (attempt : Attempt) : Except Fault (State × Bool) :=
  match s.processes.cells a with
  | none => .error .disabled
  | some pi =>
    if pi.pid ≠ 0 then
      if pi.shellcmd then .ok (s, false) else .error .nullDereference
    else if ¬ attempt.executable then .ok (s, false)
    else match attempt.fork with
      | none => .ok (s.addWaitq a pi, false)
      | some pid =>
        if pid = 0 ∨ ∃ child ∈ s.children, child.pid = pid then .error .disabled
        else .ok ((s.addWaitq a pi).fork a pi pid, true)

/-- `ni_process_run`: with a terminal or pipes for the output. -/
def run (s : State) (a : Addr) (opened : Bool) (attempt : Attempt) : Except Fault State :=
  if ¬ opened then .ok s
  else match s.runProcess a attempt with
    | .error fault => .error fault
    | .ok (s, false) => .ok s
    | .ok (s, true) => .ok { s with started := a :: s.started }

/-- The call of the exit callback. -/
def exitCallback (s : State) (a : Addr) (pi : Process) : State :=
  if pi.exitCallback then { s with reports := s.reports ++ [⟨a, pi.exitInfo⟩] } else s

/-- The child that was forked last ends with `status` while the caller waits for it. -/
def waitFor (s : State) (a : Addr) (status : WaitStatus) : State :=
  let s := s.sigchld
  { s with
    processes := s.processes.modify a fun pi => { pi with status, pid := 0 }
    children := s.children.dropLast
    exits := s.exits ++ (s.children.getLast?.bind (·.report status)).toList }

def runAndWait (s : State) (a : Addr) (attempt : Attempt) (status : WaitStatus) : Except Fault State :=
  match s.runProcess a attempt with
  | .error fault => .error fault
  | .ok (s, false) => .ok s
  | .ok (s, true) =>
    let s := s.waitFor a status
    match s.processes.cells a with
    | none => .error .useAfterFree
    | some pi => .ok (s.exitCallback a pi)

/-- `ni_process_free`. A child that is killed ends later. -/
def free (s : State) (a : Addr) : Except Fault State :=
  match s.processes.cells a with
  | none => .error .disabled
  | some _ => .ok { s with processes := s.processes.free a, started := s.started.erase a }

/-- The search of the queue for a child: the process, and the one whose `next` points to it. -/
def find (s : State) (pid : Nat) : Nat → Option Addr → Option Addr →
    Except Fault (Option (Option Addr × Addr))
  | 0, _, _ => .error .endless
  | _ + 1, _, none => .ok none
  | steps + 1, pos, some a =>
    match s.processes.cells a with
    | none => .error .useAfterFree
    | some pi => if pi.pid = pid then .ok (some (pos, a)) else s.find pid steps (some a) pi.next

/-- Take a process off the queue, where `pos` points to it. -/
def unlink (s : State) (pos : Option Addr) (a : Addr) (pi : Process) : State :=
  let s := match pos with
    | none => { s with queue := pi.next }
    | some b => { s with processes := s.processes.modify b fun before => { before with next := pi.next } }
  { s with processes := s.processes.modify a fun pi => { pi with next := none } }

/-- `ni_process_reap`, with what is set before it is called. -/
def reapProcess (s : State) (a : Addr) (pi : Process) (status : WaitStatus) : State :=
  let pi := { pi with status, pid := 0, exitInfo := fillExitInfo status }
  let s := { s with processes := s.processes.modify a fun self =>
    { self with status, pid := 0, exitInfo := fillExitInfo status } }
  s.exitCallback a pi

/-- What the loop of `ni_process_reap_children` does with a child that `waitpid` returned. -/
def reapChild (s : State) (pid : Nat) (status : WaitStatus) : Except Fault State :=
  match s.find pid (s.processes.live.card + 1) none s.queue with
  | .error fault => .error fault
  | .ok none => .ok s
  | .ok (some (pos, a)) =>
    match s.processes.cells a with
    | none => .error .useAfterFree
    | some pi => .ok ((s.unlink pos a pi).reapProcess a pi status)

end State

/-- A call of `ni_process_reap_children` is `enter`, a `reap` for each child that `waitpid` returns
and `done`. What a callback does comes in between, another such call included. -/
inductive Action
  | new (a : Addr) (shellcmd exitCallback : Bool)
  | run (a : Addr) (opened : Bool) (attempt : Attempt)
  | runAndWait (a : Addr) (attempt : Attempt) (status : WaitStatus)
  | free (a : Addr)
  | exits (pid : Nat) (status : WaitStatus)
  | enter
  | reap (pid : Nat)
  | done
  deriving DecidableEq

def step (s : State) : Action → Except Fault State
  | .new a shellcmd exitCallback =>
    if (s.processes.cells a).isSome then .error .disabled
    else .ok { s with processes := s.processes.alloc a { shellcmd, exitCallback } }
  | .run a opened attempt => s.run a opened attempt
  | .runAndWait a attempt status => s.runAndWait a attempt status
  | .free a => s.free a
  | .exits pid status =>
    match s.children.find? (·.pid = pid) with
    | none => .error .disabled
    | some child =>
      if child.ended.isSome then .error .disabled
      else .ok { s.sigchld with
        children := s.children.map fun child =>
          if child.pid = pid then { child with ended := some status } else child
        exits := s.exits ++ (child.report status).toList }
  | .enter =>
    if ¬ s.sigchldReceived then .ok s
    else .ok { s with sigchldReceived := false, reaping := s.reaping + 1 }
  | .reap pid =>
    if s.reaping = 0 then .error .disabled
    else match s.children.find? (·.pid = pid) with
      | some { owner, ended := some status, .. } =>
        { s with
          children := s.children.filter (·.pid ≠ pid)
          started := s.started.erase owner }.reapChild pid status
      | _ => .error .disabled
  | .done =>
    if s.reaping = 0 ∨ ∃ child ∈ s.children, child.ended.isSome then .error .disabled
    else .ok { s with reaping := s.reaping - 1 }

end Testbus.Subprocess
