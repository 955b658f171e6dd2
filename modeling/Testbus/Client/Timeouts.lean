import Testbus.Client.Reboot
import Testbus.Client.Wait
import Testbus.Timing.Frame

namespace Testbus.Client.Timeouts

open Testbus.Dbus Lib
open Testbus.Timing (Timer Timers Clock Action Polled Fires Frame silent)

/-- `ni_testbus_client_timeout_t`; `busyWait` gives what the callback of that name returns the
next time. -/
structure Timeout where
  timeoutMsec : UInt32
  busyWait : Option (Nat → Int) := none
  handle : Option Nat := none
  numBusywaits : Nat := 0

/-- The cached properties of a host that a claim looks at, and whether the master would let the
container have it. -/
structure HostObject where
  path : CString
  ready : Option Variant := none
  capabilities : Option Variant := none
  role : Option Variant := none
  added : Bool := false

def HostObject.isReady (host : HostObject) : Bool :=
  ((host.ready.bind Variant.getBool).getD false)

def HostObject.isInuse (host : HostObject) : Bool :=
  match host.role.bind Variant.getString with
  | some role => role.isSome
  | none => false

def HostObject.hasCapability (host : HostObject) (name : Option CString) : Bool :=
  match host.capabilities with
  | some (.stringArray capabilities) =>
    match name with
    | none => true
    | some name => name = ascii ['a', 'n', 'y'] || name ∈ capabilities
  | _ => false

/-- The first host that can be had. -/
def claimHost (capability : Option CString) : List HostObject → Option CString
  | [] => none
  | host :: rest =>
    if host.isReady && host.hasCapability capability && !host.isInuse && host.added then
      some host.path
    else claimHost capability rest

/-- One look at the generations of all hosts: how many are ready, and how many have none. -/
def lookAll : List Reboot.HostState → List (Option UInt32) → List Reboot.HostState × Nat × Nat
  | [], _ => ([], 0, 0)
  | h :: hosts, answers =>
    let (rest, nready, nfailed) := lookAll hosts answers.tail
    if h.ready then (h :: rest, nready + 1, nfailed)
    else
      match answers.head?.join with
      | some currentGen =>
        if h.hostGen < currentGen then
          ({ h with hostGen := currentGen, ready := true } :: rest, nready + 1, nfailed)
        else (h :: rest, nready, nfailed)
      | none => (h :: rest, nready, nfailed + 1)

inductive Return
  | process (rv : Bool) (exitInfo : ExitInfo)
  | host (path : Option CString)
  | reboot (rv : Bool) (hosts : List Reboot.HostState)

/-- The call that a client is in; `awake` is the part of its loop before `ni_socket_wait`. -/
inductive Call
  | idle
  /-- `ni_testbus_wait_for_process` asks for the properties of the process. -/
  | asking (objectPath : CString) (wq : Nat) (timeoutMs : Int)
  /-- `alarm` sets `timed_out`; the call itself does not keep the handle. -/
  | waiting (objectPath : CString) (wq : Nat) (alarm : Option Nat) (awake : Bool)
  | claiming (capability : Option CString) (timeout : Option Timeout) (awake : Bool)
  | rebooting (hosts : List Reboot.HostState) (timeout : Option Timeout) (awake : Bool)
  | returned (result : Return)
  /-- `ni_fatal` -/
  | exited

/-- The client may call something. -/
def Call.ended : Call → Bool
  | .idle | .returned _ => true
  | _ => false

/-- `before` is the list of timers that the call found. -/
structure State where
  waits : Client.State := {}
  timing : Timing.State
  call : Call := .idle
  before : List Timer := []

def State.initial : State where
  timing := { timers := Timers.empty }

inductive Input
  /-- The program arms or cancels a timer between its calls. -/
  | act (action : Action)
  /-- `ni_testbus_client_host_run`, with the signals that come before the answer. -/
  | run (objectPath : CString) (signals : List (CString × Variant))
  /-- A signal is handled, while an answer is awaited or in `ni_socket_wait`. -/
  | signal (objectPath : CString) (arg : Variant)
  | waitForProcess (objectPath : CString) (timeoutMs : Int)
  | claimHostByCapability (capability : Option CString) (timeout : Option Timeout)
  | hostWaitForReboot (hosts : List Reboot.HostState) (timeout : Option Timeout)
  /-- The properties of the process, which may have exited. -/
  | properties (cachedExitInfo : Option ExitInfo)
  /-- The loop looks at its flag and its entry, and whether the process can be refreshed. -/
  | look (refreshed : Bool)
  /-- The hosts below the host list, if that can be refreshed. -/
  | hosts (answer : Option (List HostObject))
  | generations (answers : List (Option UInt32))
  /-- `ni_socket_wait` -/
  | wait (sockets : List (Option Nat)) (polled : Polled)

variable (clock : Clock)

/-- `ni_socket_wait`, with callbacks and handlers that have no timers of their own. -/
def socketWait (timeout : Int) (sockets : List (Option Nat)) (polled : Polled)
    (timing : Timing.State) : Option (Int × Timing.State) :=
  Timing.Call.wait { timeout, sockets, polled, reaped := [], handled := [] } clock silent
    (timing.timers.list.length + 1) timing

def waitSetup (timeout : Option Timeout) (timing : Timing.State) : Option Timeout × Timing.State :=
  match timeout with
  | none => (none, timing)
  | some timeout => (some { timeout with handle := some timing.fresh },
      timing.act clock (.register timeout.timeoutMsec.toUInt64))

def waitCancel (timeout : Option Timeout) (timing : Timing.State) : Timing.State :=
  match timeout.bind Timeout.handle with
  | none => timing
  | some handle => timing.act clock (.cancel handle)

/-- `__ni_testbus_wait_timeout`, for the timers that fired. -/
def Timeout.expire (timeout : Timeout) (timing : Timing.State) : Timeout :=
  { timeout with handle := timeout.handle.filter fun handle => !timing.hasFired handle }

/-- `ni_testbus_client_timeout_busywait`, when there is something to wait for. -/
def busywait (timeout : Timeout) (sockets : List (Option Nat)) (polled : Polled)
    (timing : Timing.State) : Option (Timeout × Timing.State) := do
  let waitfor := (timeout.busyWait.map (· timeout.numBusywaits)).getD (-1)
  let numBusywaits := if timeout.busyWait.isSome then timeout.numBusywaits + 1
    else timeout.numBusywaits
  let (_, timing) ← socketWait clock waitfor sockets polled timing
  return (({ timeout with numBusywaits } : Timeout).expire timing, timing)

/-- There is a timeout, which has not expired. -/
def pending (timeout : Option Timeout) : Bool := (timeout.bind Timeout.handle).isSome

def State.timedOut (s : State) (alarm : Option Nat) : Bool := alarm.any s.timing.hasFired

/-- The loop of `ni_testbus_wait_for_process` begins. -/
def State.createAlarm (s : State) (objectPath : CString) (wq : Nat) (timeoutMs : Int) : State :=
  if 0 ≤ timeoutMs then
    { s with timing := s.timing.act clock (.register (UInt64.ofInt timeoutMs))
             call := .waiting objectPath wq (some s.timing.fresh) true }
  else { s with call := .waiting objectPath wq none true }

def hostRun (objectPath : CString) (signals : List (CString × Variant)) (waits : Client.State) :
    Client.State :=
  let waits : Client.State := { waits with initialized := true, spuriousWaitq := some [] }
  let waits := signals.foldl (fun waits (path, arg) => processSignal path arg waits) waits
  { (processWait objectPath waits).2 with spuriousWaitq := none }

/-- What the loop of `ni_testbus_wait_for_process` does before it waits. -/
def lookProcess (s : State) (objectPath : CString) (addr : Nat) (alarm : Option Nat)
    (refreshed : Bool) : Except Machine.Disabled State :=
  if s.timedOut alarm then
    .ok { s with call := .returned (.process true { how := processTimedOut }) }
  else
    match s.waits.waitq.find? fun wq => wq.addr = addr with
    | none => .error .disabled
    | some wq =>
      if wq.done then
        .ok { s with waits := { s.waits with waitq := waitqUnlink addr s.waits.waitq }
                     call := .returned (.process refreshed (wq.exitInfo.getD { how := 0 })) }
      else .ok { s with call := .waiting objectPath addr alarm false }

/-- What the loop of `ni_testbus_client_claim_host_by_capability` does before it waits. -/
def lookHosts (s : State) (capability : Option CString) (timeout : Option Timeout)
    (answer : Option (List HostObject)) : State :=
  match answer with
  | none => { s with call := .returned (.host none) }
  | some hosts =>
    match claimHost capability hosts with
    | some path =>
      { s with timing := waitCancel clock timeout s.timing, call := .returned (.host (some path)) }
    | none =>
      if pending timeout then { s with call := .claiming capability timeout false }
      else { s with timing := waitCancel clock timeout s.timing, call := .returned (.host none) }

/-- What the loop of `ni_testbus_client_host_wait_for_reboot` does before it waits. -/
def lookReboot (s : State) (hosts : List Reboot.HostState) (timeout : Option Timeout)
    (answers : List (Option UInt32)) : State :=
  let (hosts, nready, nfailed) := lookAll hosts answers
  let leave (rv : Bool) : State :=
    { s with timing := waitCancel clock timeout s.timing, call := .returned (.reboot rv hosts) }
  if hosts.length ≤ nready then leave true
  else if hosts.length ≤ nfailed + nready then leave false
  else if pending timeout then { s with call := .rebooting hosts timeout false }
  else leave false

def step (s : State) : Input → Except Machine.Disabled State
  | .act action =>
    if s.call.ended then .ok { s with timing := s.timing.act clock action, call := .idle }
    else .error .disabled
  | .run objectPath signals =>
    if s.call.ended then .ok { s with waits := hostRun objectPath signals s.waits }
    else .error .disabled
  | .signal objectPath arg => .ok { s with waits := processSignal objectPath arg s.waits }
  | .waitForProcess objectPath timeoutMs =>
    if s.call.ended then
      let s := { s with before := s.timing.timers.list }
      match waitqFind objectPath s.waits.waitq with
      | some wq => .ok (s.createAlarm clock objectPath wq.addr timeoutMs)
      | none =>
        let (addr, waits) := processWait objectPath { s.waits with initialized := true }
        .ok { s with waits, call := .asking objectPath addr timeoutMs }
    else .error .disabled
  | .claimHostByCapability capability timeout =>
    if s.call.ended then
      let (started, timing) := waitSetup clock timeout s.timing
      .ok { s with before := s.timing.timers.list, timing, call := .claiming capability started true }
    else .error .disabled
  | .hostWaitForReboot hosts timeout =>
    if s.call.ended then
      let (started, timing) := waitSetup clock timeout s.timing
      .ok { s with before := s.timing.timers.list, timing, call := .rebooting hosts started true }
    else .error .disabled
  | .properties cachedExitInfo =>
    match s.call with
    | .asking objectPath addr timeoutMs =>
      match cachedExitInfo with
      | some exitInfo => .ok { s with call := .returned (.process true exitInfo) }
      | none => .ok (s.createAlarm clock objectPath addr timeoutMs)
    | _ => .error .disabled
  | .look refreshed =>
    match s.call with
    | .waiting objectPath addr alarm true => lookProcess s objectPath addr alarm refreshed
    | _ => .error .disabled
  | .hosts answer =>
    match s.call with
    | .claiming capability timeout true => .ok (lookHosts clock s capability timeout answer)
    | _ => .error .disabled
  | .generations answers =>
    match s.call with
    | .rebooting hosts timeout true => .ok (lookReboot clock s hosts timeout answers)
    | _ => .error .disabled
  | .wait sockets polled =>
    match s.call with
    | .waiting objectPath addr alarm false =>
      match socketWait clock (-1) sockets polled s.timing with
      | some (result, timing) =>
        if result < 0 then .ok { s with timing, call := .exited }
        else .ok { s with timing, call := .waiting objectPath addr alarm true }
      | none => .error .disabled
    | .claiming capability (some timeout) false =>
      match busywait clock timeout sockets polled s.timing with
      | some (timeout, timing) => .ok { s with timing, call := .claiming capability (some timeout) true }
      | none => .error .disabled
    | .rebooting hosts (some timeout) false =>
      match busywait clock timeout sockets polled s.timing with
      | some (timeout, timing) => .ok { s with timing, call := .rebooting hosts (some timeout) true }
      | none => .error .disabled
    | _ => .error .disabled

/-- The timer that the call has armed and that has not fired. -/
def State.armed (s : State) : Option Nat :=
  match s.call with
  | .waiting _ _ alarm _ => alarm.filter fun handle => !s.timing.hasFired handle
  | .claiming _ timeout _ | .rebooting _ timeout _ => timeout.bind Timeout.handle
  | _ => none

/-- The call is about to return where it does not cancel its timer, which is still armed: a
process that is waited for has exited, or the host list cannot be refreshed. -/
def State.abandons (s : State) (input : Input) : Bool :=
  match s.call, input with
  | .waiting _ addr _ true, .look _ =>
    s.armed.isSome && (s.waits.waitq.find? fun wq => wq.addr = addr).any Waitq.done
  | .claiming _ _ true, .hosts none => s.armed.isSome
  | _, _ => false

/-- If the step ends a call, the timers are the ones that the call found, apart from those that
fired meanwhile. -/
def State.Returns (s : State) (input : Input) : Prop :=
  s.call.ended = false → ∀ s' result, step clock s input = .ok s' → s'.call = .returned result →
    s'.timing.Restored s'.before

section Run

variable {clock : Clock} {s s' : State} {before : List Timer} {input : Input}

/-- While a call runs, the list of timers is the one that it found, and its own timer. -/
structure Inv (s : State) : Prop where
  sound : s.timing.Sound
  frame : s.call.ended = false → s.call ≠ .exited → Frame s.before s.armed s.timing

theorem Inv.initial : Inv State.initial := ⟨.initial _ rfl, nofun⟩

theorem frame_setup (clock : Clock) (sound : timing.Sound) (timeout : Option Timeout) :
    Frame timing.timers.list ((waitSetup clock timeout timing).1.bind Timeout.handle)
      (waitSetup clock timeout timing).2 := by
  cases timeout with
  | none => exact sound.frame
  | some timeout => exact sound.frame.register clock _

theorem frame_cancel (frame : Frame before (timeout.bind Timeout.handle) timing) :
    Frame before none (waitCancel clock timeout timing) := by
  unfold waitCancel
  split
  · rename_i none'
    rwa [none'] at frame
  · rename_i handle own
    rw [own] at frame
    exact frame.cancel

variable {polled : Polled}

theorem socketWait_fires {waitfor result : Int}
    (waited : socketWait clock waitfor sockets polled timing = some (result, timing')) : Fires timing timing' := by
  obtain ⟨result', after, ran, fires⟩ := Timing.wait_fires clock
    { timeout := waitfor, sockets, polled, reaped := [], handled := [] } rfl rfl
    (Nat.lt_succ_self timing.timers.list.length)
  cases ran.symm.trans waited
  exact fires

theorem frame_busywait (frame : Frame before timeout.handle timing)
    (waited : busywait clock timeout sockets polled timing = some (timeout', timing')) :
    Frame before timeout'.handle timing' := by
  simp only [busywait, Option.bind_eq_bind, Option.bind_eq_some_iff] at waited
  obtain ⟨⟨result, after⟩, waited, same⟩ := waited
  cases same
  exact frame.expire (socketWait_fires waited)

theorem Inv.createAlarm (clock : Clock) (frame : Frame s.before none s.timing)
    (objectPath : CString) (wq : Nat) (timeoutMs : Int) : Inv (s.createAlarm clock objectPath wq timeoutMs) := by
  unfold State.createAlarm
  split
  · have armed := frame.register clock (UInt64.ofInt timeoutMs)
    refine ⟨armed.sound, fun _ _ => ?_⟩
    have unfired : (s.timing.act clock (.register (UInt64.ofInt timeoutMs))).hasFired s.timing.fresh = false := by
      by_contra fired
      obtain ⟨timer, member, same⟩ := List.any_eq_true.mp (Bool.not_eq_false _ ▸ fired)
      have same : timer.handle = s.timing.fresh := by simpa using same
      rw [Timing.firings_act] at member
      exact absurd (frame.sound.fired timer member).1 (by omega)
    simpa [State.armed, Option.filter, unfired] using armed
  · exact ⟨frame.sound, fun _ _ => frame⟩

/-- What ends a call with its timer cancelled. -/
theorem Inv.leave (clock : Clock) (frame : Frame s.before (timeout.bind Timeout.handle) s.timing) (result : Return) :
    Inv { s with timing := waitCancel clock timeout s.timing, call := .returned result } ∧
      (waitCancel clock timeout s.timing).Restored s.before :=
  ⟨⟨(frame_cancel frame).sound, nofun⟩, (frame_cancel frame).restored_iff.mpr rfl⟩

/-- What a step keeps, and when it ends a call as it should. -/
def Kept (s : State) (input : Input) (s' : State) : Prop :=
  Inv s' ∧ (s.call.ended = false → ∀ result, s'.call = .returned result →
    (s'.timing.Restored s'.before ↔ s.abandons input = false))

theorem Kept.running (inv : Inv s') (running : ∀ result, s'.call ≠ .returned result) : Kept s input s' :=
  ⟨inv, fun _ result returned => absurd returned (running result)⟩

theorem Kept.ended (inv : Inv s') (ended : s.call.ended = true) : Kept s input s' :=
  ⟨inv, fun running => by simp [ended] at running⟩

theorem Kept.leave (frame : Frame s.before (timeout.bind Timeout.handle) s.timing) (result : Return)
    (keeps : s.abandons input = false) :
    Kept s input
      { s with timing := waitCancel clock timeout s.timing, call := .returned result } :=
  ⟨(Inv.leave clock frame result).1, fun _ _ _ => iff_of_true (Inv.leave clock frame result).2 keeps⟩

theorem Kept.busywait (frame : Frame s.before s.armed s.timing) (own : s.armed = timeout.handle)
    (waited : Timeouts.busywait clock timeout sockets polled s.timing = some (timeout', timing'))
    (armed : { s with timing := timing', call : State }.armed = timeout'.handle)
    (running : ∀ result, call ≠ .returned result) :
    Kept s input { s with timing := timing', call } := by
  rw [own] at frame
  have later := frame_busywait frame waited
  rw [← armed] at later
  exact .running ⟨later.sound, fun _ _ => later⟩ running

theorem Inv.begin' (inv : Inv s) (waits : Client.State) (objectPath : CString) (wq : Nat)
    (timeoutMs : Int) : Inv ({ s with before := s.timing.timers.list, waits : State }.createAlarm
      clock objectPath wq timeoutMs) :=
  .createAlarm (s := { s with before := s.timing.timers.list, waits }) clock inv.sound.frame _ _ _

theorem properties_kept (inv : Inv s) (call : s.call = .asking objectPath addr timeoutMs)
    (moved : step clock s (.properties cachedExitInfo) = .ok s') : Kept s (.properties cachedExitInfo) s' := by
  have frame := inv.frame (by simp [Call.ended, call]) (by simp [call])
  have own : s.armed = none := by rw [State.armed, call]
  rw [own] at frame
  simp only [step, call] at moved
  split at moved
  · cases moved
    refine ⟨⟨inv.sound, nofun⟩, fun _ _ _ => iff_of_true (frame.restored_iff.mpr rfl) ?_⟩
    simp [State.abandons, call]
  · cases moved
    have begun := Inv.createAlarm clock frame objectPath addr timeoutMs
    refine .running begun fun result => ?_
    unfold State.createAlarm
    split
    · exact nofun
    · exact nofun

theorem look_kept (frame : Frame s.before s.armed s.timing) (call : s.call = .waiting objectPath addr alarm true)
    (moved : lookProcess s objectPath addr alarm refreshed = .ok s') : Kept s (.look refreshed) s' := by
  have own : s.armed = alarm.filter fun handle => !s.timing.hasFired handle := by
    rw [State.armed, call]
  unfold lookProcess at moved
  split at moved
  · rename_i timedOut
    cases moved
    have gone : s.armed = none := by
      rw [own]
      cases alarm with
      | none => rfl
      | some handle =>
        have fired : s.timing.hasFired handle = true := timedOut
        simp [Option.filter, fired]
    exact ⟨⟨frame.sound, nofun⟩, fun _ _ _ =>
      iff_of_true (frame.restored_iff.mpr gone) (by simp [State.abandons, call, gone])⟩
  · split at moved
    · cases moved
    · rename_i wq found
      split at moved
      · rename_i done
        cases moved
        refine ⟨⟨frame.sound, nofun⟩, fun _ _ _ => frame.restored_iff.trans ?_⟩
        simp [State.abandons, call, found, done]
      · cases moved
        refine .running ⟨frame.sound, fun _ _ => ?_⟩ nofun
        rw [own] at frame
        exact frame

theorem hosts_kept (frame : Frame s.before s.armed s.timing) (call : s.call = .claiming capability timeout true) :
    Kept s (.hosts answer) (lookHosts clock s capability timeout answer) := by
  have own : s.armed = timeout.bind Timeout.handle := by rw [State.armed, call]
  unfold lookHosts
  split
  · refine ⟨⟨frame.sound, nofun⟩, fun _ _ _ => frame.restored_iff.trans ?_⟩
    simp [State.abandons, call]
  · have keeps : ∀ hosts, s.abandons (.hosts (some hosts)) = false := by simp [State.abandons, call]
    rw [own] at frame
    split
    · exact .leave frame _ (keeps _)
    · split
      · exact .running ⟨frame.sound, fun _ _ => frame⟩ nofun
      · exact .leave frame _ (keeps _)

theorem reboot_kept (frame : Frame s.before s.armed s.timing) (call : s.call = .rebooting hosts timeout true) :
    Kept s (.generations answers) (lookReboot clock s hosts timeout answers) := by
  have own : s.armed = timeout.bind Timeout.handle := by rw [State.armed, call]
  have keeps : s.abandons (.generations answers) = false := by simp [State.abandons, call]
  rw [own] at frame
  simp only [lookReboot]
  split
  · exact .leave frame _ keeps
  · split
    · exact .leave frame _ keeps
    · split
      · exact .running ⟨frame.sound, fun _ _ => frame⟩ nofun
      · exact .leave frame _ keeps

theorem wait_kept (inv : Inv s)
    (moved : step clock s (.wait sockets polled) = .ok s') : Kept s (.wait sockets polled) s' := by
  unfold step at moved
  dsimp only at moved
  split at moved
  · rename_i objectPath addr alarm call
    have frame := inv.frame (by simp [Call.ended, call]) (by simp [call])
    have own : s.armed = alarm.filter fun handle => !s.timing.hasFired handle := by
      rw [State.armed, call]
    split at moved
    · rename_i result timing waited
      have later := frame.expire (socketWait_fires waited)
      split at moved
      · cases moved
        exact .running ⟨later.sound, fun _ different => absurd rfl different⟩ nofun
      · cases moved
        refine .running ⟨later.sound, fun _ _ => ?_⟩ nofun
        have same : (s.armed.filter fun handle => !timing.hasFired handle) =
            alarm.filter fun handle => !timing.hasFired handle := by
          rw [own, Option.filter_filter]
          congr 1
          funext handle
          cases fired : s.timing.hasFired handle with
          | false => rfl
          | true => rw [(socketWait_fires waited).hasFired fired]; rfl
        rwa [same] at later
    · cases moved
  · rename_i capability timeout call
    have frame := inv.frame (by simp [Call.ended, call]) (by simp [call])
    have own : s.armed = timeout.handle := by rw [State.armed, call]; rfl
    split at moved
    · rename_i timeout' timing waited
      cases moved
      exact .busywait frame own waited rfl nofun
    · cases moved
  · rename_i hosts timeout call
    have frame := inv.frame (by simp [Call.ended, call]) (by simp [call])
    have own : s.armed = timeout.handle := by rw [State.armed, call]; rfl
    split at moved
    · rename_i timeout' timing waited
      cases moved
      exact .busywait frame own waited rfl nofun
    · cases moved
  · cases moved

theorem step_kept (inv : Inv s) (moved : step clock s input = .ok s') : Kept s input s' := by
  have running : ∀ {call}, s.call = call → call.ended = false → call ≠ .exited → Frame s.before s.armed s.timing := by
    rintro call rfl runs alive
    exact inv.frame runs alive
  cases input with
  | act action =>
    simp only [step] at moved
    split at moved
    · rename_i ended
      cases moved
      exact .ended ⟨inv.sound.act action, nofun⟩ ended
    · cases moved
  | run objectPath signals =>
    simp only [step] at moved
    split at moved
    · rename_i ended
      cases moved
      exact .ended ⟨inv.sound, inv.frame⟩ ended
    · cases moved
  | signal objectPath arg =>
    cases moved
    refine ⟨⟨inv.sound, inv.frame⟩, fun runs result returned => ?_⟩
    have ended : s.call.ended = true := by
      rw [show s.call = .returned result from returned]
      rfl
    simp [ended] at runs
  | waitForProcess objectPath timeoutMs =>
    simp only [step] at moved
    split at moved
    · rename_i ended
      split at moved
      · cases moved
        exact .ended (inv.begin' s.waits objectPath _ timeoutMs) ended
      · cases moved
        exact .ended ⟨inv.sound, fun _ _ => inv.sound.frame⟩ ended
    · cases moved
  | claimHostByCapability capability timeout =>
    simp only [step] at moved
    split at moved
    · rename_i ended
      cases moved
      have frame := frame_setup clock inv.sound timeout
      exact .ended ⟨frame.sound, fun _ _ => frame⟩ ended
    · cases moved
  | hostWaitForReboot hosts timeout =>
    simp only [step] at moved
    split at moved
    · rename_i ended
      cases moved
      have frame := frame_setup clock inv.sound timeout
      exact .ended ⟨frame.sound, fun _ _ => frame⟩ ended
    · cases moved
  | properties cachedExitInfo =>
    have asked := moved
    simp only [step] at asked
    split at asked
    · rename_i objectPath addr timeoutMs call
      exact properties_kept inv call moved
    · cases asked
  | look refreshed =>
    simp only [step] at moved
    split at moved
    · rename_i objectPath addr alarm call
      exact look_kept (running call rfl nofun) call moved
    · cases moved
  | hosts answer =>
    simp only [step] at moved
    split at moved
    · rename_i capability timeout call
      cases moved
      exact hosts_kept (running call rfl nofun) call
    · cases moved
  | generations answers =>
    simp only [step] at moved
    split at moved
    · rename_i hosts timeout call
      cases moved
      exact reboot_kept (running call rfl nofun) call
    · cases moved
  | wait sockets polled => exact wait_kept inv moved

/-- A call that is about to leave its timer behind returns. -/
theorem abandons_returns (clock : Clock) (abandons : s.abandons input = true) :
    s.call.ended = false ∧ ∃ s' result, step clock s input = .ok s' ∧ s'.call = .returned result := by
  unfold State.abandons at abandons
  split at abandons
  · rename_i objectPath addr alarm refreshed call
    simp only [State.armed, call, Bool.and_eq_true] at abandons
    obtain ⟨armed, done⟩ := abandons
    obtain ⟨wq, found, done⟩ := (Option.any_eq_true _ _).mp done
    have late : s.timedOut alarm = false := by
      cases alarm with
      | none => rfl
      | some handle => simpa [Option.filter, State.timedOut] using armed
    refine ⟨by rw [call]; rfl, ?_⟩
    simp only [step, call, lookProcess, late, Bool.false_eq_true, if_false, found, done, if_true]
    exact ⟨_, _, rfl, rfl⟩
  · rename_i capability timeout call
    refine ⟨by rw [call]; rfl, ?_⟩
    simp only [step, call, lookHosts]
    exact ⟨_, _, rfl, rfl⟩
  · cases abandons

end Run

/-- In every run, the calls leave the timers as they found them, apart from those that fired, exactly
if no call returns where it does not cancel a timer of its own that is still armed. -/
theorem timers_restored (clock : Clock) (inputs : List Input) :
    Machine.Along (step clock) (State.Returns clock) .initial inputs ↔
      Machine.Along (step clock) (fun s input => s.abandons input = false) .initial inputs := by
  refine Machine.along_congr Inv (fun s input s' inv moved => (step_kept inv moved).1) ?_ Inv.initial
  intro s input inv
  constructor
  · intro returns
    by_contra abandons
    have abandons : s.abandons input = true := by simpa using abandons
    obtain ⟨runs, s', result, moved, returned⟩ := abandons_returns clock abandons
    have keeps := ((step_kept inv moved).2 runs result returned).mp
      (returns runs s' result moved returned)
    simp [abandons] at keeps
  · intro keeps runs s' result moved returned
    exact ((step_kept inv moved).2 runs result returned).mpr keeps

/-- A clock that stands still. -/
def stopped : Clock := ⟨fun _ => 0, fun _ _ _ => Nat.le_refl 0⟩

def processPath : CString := ascii ['p']

/-- A process that runs already exits before a second has passed. -/
def exitsFirst : List Input :=
  [.waitForProcess processPath 1000, .properties none, .look false, .wait [none] .ready,
    .signal processPath (exitInfoSerialize { how := processExited }), .look true]

/-- The timer is still armed when the call has returned. -/
theorem timer_left : ¬ ∀ (clock : Clock) (inputs : List Input) (s : State) (result : Return),
    Machine.run (step clock) .initial inputs = .ok s → s.call = .returned result →
      s.timing.Restored s.before := by
  intro claimed
  obtain ⟨s, ran, view⟩ := Machine.run_view (step stopped) .initial exitsFirst
    (fun s => (s.timing.timers.list.length, s.before, s.call matches .returned _))
    (1, [], true) (by decide +kernel)
  obtain ⟨armed, view⟩ := Prod.mk.inj view
  obtain ⟨none', ended⟩ := Prod.mk.inj view
  cases call : s.call with
  | returned result =>
    have restored := claimed stopped exitsFirst s result ran call
    rw [Timing.State.Restored, none', List.filter_nil] at restored
    simp [restored] at armed
  | _ => simp [call] at ended

end Testbus.Client.Timeouts
