import Testbus.Proxy.Steps

namespace Testbus.Proxy

open Lib World

variable {w w' : World}

def TransportKind.type (kind : TransportKind) : EndpointType := (ioTransportInitKind kind).type

/-- The handlers `proxy_setup_recv` gives the two transports. -/
def receivers (upstream downstream : EndpointType) : Side → DataAvailable
  | .upstream => if upstream = downstream then .recvCopy
      else if upstream = .simplex then .recvMux else .recvDemux
  | .downstream => if upstream = downstream then .recvCopy
      else if upstream = .simplex then .recvDemux else .recvMux

/-- The world at the first head of the main loop: at most the multiplexing endpoint
of the upstream transport is there. -/
structure Started (upstream downstream : TransportKind) (w : World) : Prop where
  epList : ∀ t, (w.xprt t).epList = []
  garbageList : ∀ t, (w.xprt t).garbageList = []
  downLink : (w.xprt .downstream).multiplex = none
  upType : (w.xprt .upstream).type = upstream.type
  downType : (w.xprt .downstream).type = downstream.type
  handlers : ∀ t, (w.xprt t).dataAvailable = receivers upstream.type downstream.type t
  forks : (w.xprt .downstream).forkOnAccept =
    decide (upstream.type = .simplex ∧ downstream.type = .multiplex)
  counter : (w.xprt .downstream).nextChannelId = 1
  endpoints :
    (upstream.type = .simplex ∧ (w.xprt .upstream).multiplex = none ∧
      (∀ a, w.heap.cells a = none) ∧ w.trace = []) ∨
    ∃ ep self, upstream.type = .multiplex ∧ (w.xprt .upstream).multiplex = some ep ∧
      self.Fresh (w.xprt .upstream) .upstream ∧ self.connected = true ∧ self.channelId = 0 ∧
      (∀ a, w.heap.cells a = if a = ep then some self else none) ∧ w.trace = [.created ep]

theorem initUpstream_ok (lists : w.Lists)
    (done : initUpstream w sys = .ok w') : ((w.xprt .upstream).type ≠ .multiplex ∧ w' = w) ∨
    ∃ self next, (w.xprt .upstream).type = .multiplex ∧
      self.Fresh (w.xprt .upstream) .upstream ∧ self.connected = true ∧ self.channelId = 0 ∧
      w' = (w.spawn .upstream sys.connectedAddr self next
        [.created sys.connectedAddr]).modifyXprt .upstream fun xprt =>
          { xprt with multiplex := some sys.connectedAddr } := by
  unfold initUpstream at done
  split at done
  · rename_i multiplex
    obtain ⟨⟨created, middle⟩, connected, rest⟩ := bind_ok.mp done
    obtain ⟨rfl, _⟩ | ⟨self, next, rfl, spawned, now⟩ := connectChannel_ok lists connected
    · cases rest
    · cases rest
      exact .inr ⟨self, next, multiplex, spawned.fresh, now rfl, spawned.channelId, by rw [spawned.result]⟩
  · rename_i other
    cases done
    exact .inl ⟨other, rfl⟩

theorem initDownstream_ok {w : World} (done : initDownstream w sys = .ok w') :
    ∃ listenFd, w' = w.modifyXprt .downstream fun xprt => { xprt with listenFd := listenFd } := by
  unfold initDownstream at done
  split at done
  · cases done
  · rename_i fd _ _
    cases done
    exact ⟨some fd, rfl⟩
  · cases done
    exact ⟨(w'.xprt .downstream).listenFd, by simp [World.modifyXprt]⟩

theorem setup_upstream (w : World) : (proxySetupRecv w).xprt .upstream =
    { w.xprt .upstream with
      dataAvailable := receivers (w.xprt .upstream).type (w.xprt .downstream).type .upstream } := by
  unfold proxySetupRecv receivers
  split
  · rename_i same
    simp [World.modifyXprt, same]
  · rename_i different
    split <;> simp_all [World.modifyXprt]

theorem setup_downstream (w : World) : (proxySetupRecv w).xprt .downstream =
    { w.xprt .downstream with
      dataAvailable := receivers (w.xprt .upstream).type (w.xprt .downstream).type .downstream
      forkOnAccept := decide ((w.xprt .upstream).type ≠ (w.xprt .downstream).type ∧
        (w.xprt .upstream).type = .simplex) } := by
  unfold proxySetupRecv receivers
  split
  · rename_i same
    simp [World.modifyXprt, same]
  · rename_i different
    split <;> simp_all [World.modifyXprt]

theorem setup_heap (w : World) : (proxySetupRecv w).heap = w.heap := by
  unfold proxySetupRecv
  split
  · rfl
  · split <;> rfl

theorem setup_trace (w : World) : (proxySetupRecv w).trace = w.trace := by
  unfold proxySetupRecv
  split
  · rfl
  · split <;> rfl

theorem TransportKind.type_cases (kind : TransportKind) : kind.type = .simplex ∨ kind.type = .multiplex := by
  cases kind <;> simp [TransportKind.type, ioTransportInitKind]

theorem proxyInit_ok (done : proxyInit upstream downstream sys = .ok start) :
    start = loopTop start.world ∧ Started upstream downstream start.world := by
  obtain ⟨first, connected, rest⟩ := bind_ok.mp done
  obtain ⟨second, listening, rest⟩ := bind_ok.mp rest
  cases rest
  refine ⟨rfl, ?_⟩
  obtain ⟨listenFd, rfl⟩ := initDownstream_ok listening
  have blank : ∀ kind : TransportKind, (ioTransportInitKind kind).epList = [] ∧
      (ioTransportInitKind kind).garbageList = [] ∧ (ioTransportInitKind kind).multiplex = none ∧
      (ioTransportInitKind kind).nextChannelId = 1 := by
    intro kind
    cases kind <;> exact ⟨rfl, rfl, rfl, rfl⟩
  have lists : World.Lists
      { heap := Store.empty, xprt := fun
          | .upstream => ioTransportInitKind upstream
          | .downstream => ioTransportInitKind downstream } := by
    constructor
    · intro t ep member; cases t <;> simp [blank] at member
    · intro t ep member; cases t <;> simp [blank] at member
    · intro t ep link; cases t <;> simp [blank] at link
    · intro t; cases t <;> simp [blank]
    · intro t; cases t <;> simp [blank]
  have forks : decide ((ioTransportInitKind upstream).type ≠ (ioTransportInitKind downstream).type ∧
      (ioTransportInitKind upstream).type = .simplex) =
      decide (upstream.type = .simplex ∧ downstream.type = .multiplex) := by
    cases upstream <;> cases downstream <;> rfl
  obtain ⟨other, rfl⟩ | ⟨self, next, multiplex, fresh, now, channel, rfl⟩ := initUpstream_ok lists connected
  · refine ⟨?_, ?_, ?_, ?_, ?_, ?_, ?_, ?_, .inl ⟨?_, ?_, ?_, ?_⟩⟩
    · intro t; cases t <;> simp [loopTop, setup_upstream, setup_downstream, World.modifyXprt, blank]
    · intro t; cases t <;> simp [loopTop, setup_upstream, setup_downstream, World.modifyXprt, blank]
    · simp [loopTop, setup_downstream, World.modifyXprt, blank]
    · simp [loopTop, setup_upstream, World.modifyXprt, TransportKind.type]
    · simp [loopTop, setup_downstream, World.modifyXprt, TransportKind.type]
    · intro t
      cases t <;>
        simp [loopTop, setup_upstream, setup_downstream, World.modifyXprt, TransportKind.type]
    · simpa [loopTop, setup_downstream, World.modifyXprt] using forks
    · simp [loopTop, setup_downstream, World.modifyXprt, blank]
    · exact upstream.type_cases.resolve_right other
    · simp [loopTop, setup_upstream, World.modifyXprt, blank]
    · intro a; simp [loopTop, setup_heap, Store.empty]
    · simp [loopTop, setup_trace]
  · refine ⟨?_, ?_, ?_, ?_, ?_, ?_, ?_, ?_, .inr ⟨sys.connectedAddr, self, multiplex, ?_, ?_, now, channel, ?_, ?_⟩⟩
    · intro t
      cases t <;> simp [loopTop, setup_upstream, setup_downstream, World.spawn, World.counter, World.modifyXprt, blank]
    · intro t
      cases t <;> simp [loopTop, setup_upstream, setup_downstream, World.spawn, World.counter, World.modifyXprt, blank]
    · simp [loopTop, setup_downstream, World.spawn, World.counter, World.modifyXprt, blank]
    · simp [loopTop, setup_upstream, World.spawn, World.counter, World.modifyXprt, TransportKind.type]
    · simp [loopTop, setup_downstream, World.spawn, World.counter, World.modifyXprt, TransportKind.type]
    · intro t
      cases t <;> simp [loopTop, setup_upstream, setup_downstream, World.spawn, World.counter,
        World.modifyXprt, TransportKind.type]
    · simpa [loopTop, setup_downstream, World.spawn, World.counter, World.modifyXprt] using forks
    · simp [loopTop, setup_downstream, World.spawn, World.counter, World.modifyXprt, blank]
    · simp [loopTop, setup_upstream, World.spawn, World.counter, World.modifyXprt]
    · refine fresh.congr ?_ ?_ <;>
        simp [loopTop, setup_upstream, World.spawn, World.counter, World.modifyXprt]
    · intro a
      rw [loopTop, setup_heap, heap_modifyXprt, heap_modifyXprt, cells_spawn]
      rfl
    · rw [loopTop, setup_trace]
      rfl

theorem Started.shape (started : Started upstream downstream w) : w.Shape := by
  have typed : ∀ s, (w.xprt s).type ≠ .none := by
    intro s
    cases s
    · rw [started.upType]
      rcases upstream.type_cases with simplex | multiplex
      · simp [simplex]
      · simp [multiplex]
    · rw [started.downType]
      rcases downstream.type_cases with simplex | multiplex
      · simp [simplex]
      · simp [multiplex]
  refine ⟨⟨?_, ?_, ?_, ?_, ?_⟩, ?_, typed⟩
  · intro t ep member
    simp [started.epList] at member
  · intro t ep member
    simp [started.garbageList] at member
  · intro t ep link
    cases t with
    | downstream => simp [started.downLink] at link
    | upstream =>
      rcases started.endpoints with ⟨_, none', _⟩ | ⟨own, self, _, some', fresh, connected, _, cells, _⟩
      · simp [none'] at link
      · cases some'.symm.trans link
        exact ⟨by simp [started.epList], self, by rw [cells, if_pos rfl], fresh.transport, fresh.alive, connected⟩
  · intro t; simp [started.epList]
  · intro t; simp [started.garbageList]
  · intro a self found
    rcases started.endpoints with ⟨_, _, cells, _⟩ | ⟨own, other, _, _, fresh, _, _, cells, _⟩
    · simp [cells] at found
    · rw [cells] at found
      split at found
      · cases found
        rw [fresh.transport]
        exact fresh.sound
      · cases found

/-- The states of runs whose steps are all taken from a state, and with answers of
the system, that meet `guard`. -/
def RunUnder (guard : State → Syscalls → Prop) (upstream downstream : TransportKind) (s : State) : Prop :=
  ∃ setup start answers, proxyInit upstream downstream setup = .ok start ∧
    Machine.Along step guard start answers ∧ Machine.run step start answers = .ok s

theorem Reachable.runUnder (reached : Reachable upstream downstream s) :
    RunUnder (fun _ _ => True) upstream downstream s := by
  obtain ⟨setup, start, answers, done, ran⟩ := reached
  exact ⟨setup, start, answers, done, Machine.along_true _ _, ran⟩

/-- What the command line says about the two transports. -/
structure World.Configured (upstream downstream : TransportKind) (w : World) : Prop where
  upType : (w.xprt .upstream).type = upstream.type
  downType : (w.xprt .downstream).type = downstream.type
  handlers : ∀ t, (w.xprt t).dataAvailable = receivers upstream.type downstream.type t

theorem Started.configured (started : Started upstream downstream w) : w.Configured upstream downstream :=
  ⟨started.upType, started.downType, started.handlers⟩

theorem World.Configured.acts (configured : w.Configured upstream downstream)
    (acted : Acts G w w') : w'.Configured upstream downstream :=
  ⟨(acted.setup _).type.trans configured.upType, (acted.setup _).type.trans configured.downType,
    fun t => (acted.setup t).dataAvailable.trans (configured.handlers t)⟩

/-- A transport that demultiplexes feeds one of simplex connections. -/
theorem World.Configured.demux (configured : w.Configured upstream downstream)
    (handler : (w.xprt t).dataAvailable = .recvDemux) :
    (w.xprt t).type = .multiplex ∧ (w.xprt t.other).type = .simplex := by
  rw [configured.handlers] at handler
  have up := configured.upType
  have down := configured.downType
  rcases upstream.type_cases with first | first <;> rcases downstream.type_cases with last | last <;>
    cases t <;> simp [receivers, first, last] at handler <;> simp [up, down, first, last, Side.other]

/-- What holds of every started world and is kept by every permitted action holds
in every run. -/
theorem RunUnder.invariant {guard : State → Syscalls → Prop} (Inv : World → Prop) (started : ∀ w, Started upstream downstream w → Inv w)
    (preserved : ∀ w w', w.Shape → w.Configured upstream downstream → Inv w → Act G w w' → Inv w')
    (permits : ∀ s sys, guard s sys → Permits G s sys) (reached : RunUnder guard upstream downstream s) :
    s.world.Shape ∧ s.world.Configured upstream downstream ∧ Inv s.world := by
  obtain ⟨setup, start, answers, done, along, ran⟩ := reached
  have begin' := (proxyInit_ok done).2
  refine Machine.invariant_run (fun s => s.world.Shape ∧ s.world.Configured upstream downstream ∧ Inv s.world) ?_
    ⟨begin'.shape, begin'.configured, started _ begin'⟩ along ran
  intro s sys next holds guarded moved
  obtain ⟨shape, configured, inv⟩ := holds
  have acted := step_acts shape (permits s sys guarded) moved
  refine ⟨shape.acts acted, configured.acts acted, ?_⟩
  generalize next.world = w' at acted
  induction acted with
  | refl => exact inv
  | tail before last ih =>
    exact preserved _ _ (shape.acts before) (configured.acts before) ih last

theorem Reachable.shape (reached : Reachable upstream downstream s) : s.world.Shape :=
  (RunUnder.invariant (fun _ => True) (fun _ _ => trivial) (fun _ _ _ _ _ _ => trivial)
    (fun s sys _ => permits_free s sys) reached.runUnder).1

section Concrete

/-- One run from the command line on. -/
def proxyRun (upstream downstream : TransportKind) (setup : Syscalls) (answers : List Syscalls) :
    Except Fault State :=
  proxyInit upstream downstream setup >>= fun start => Machine.run step start answers

/-- The answers of one poll round: nothing is asked for before `poll`, and each entry
of the table is answered in turn. -/
def pollRound (revents : List Revents) (answers : List Syscalls) : List Syscalls :=
  List.replicate 4 ({} : Syscalls) ++ [{ polls := some revents }] ++ answers ++ [({} : Syscalls)]

variable {setup : Syscalls} {answers : List Syscalls}

theorem reachable_of_run (ran : proxyRun upstream downstream setup answers = .ok s) :
    Reachable upstream downstream s := by
  obtain ⟨start, done, moved⟩ := bind_ok.mp ran
  exact ⟨setup, start, answers, done, moved⟩

/-- A run whose guard was checked by evaluation. -/
theorem runUnder_of_check {guard : State → Syscalls → Prop} {check : State → Syscalls → Bool}
    (sound : ∀ s sys, check s sys = true → guard s sys)
    (checked : (proxyInit upstream downstream setup).toOption.all (Machine.checkAlong step check · answers) = true)
    (ran : proxyRun upstream downstream setup answers = .ok s) :
    RunUnder guard upstream downstream s := by
  obtain ⟨start, done, moved⟩ := bind_ok.mp ran
  rw [done] at checked
  exact ⟨setup, start, answers, done, Machine.along_check sound checked, moved⟩

theorem run_some (upstream downstream : TransportKind) (setup : Syscalls)
    (answers : List Syscalls) (view : State → α) (value : α)
    (evaluated : (proxyRun upstream downstream setup answers).toOption.map view = some value) :
    ∃ s, proxyRun upstream downstream setup answers = .ok s ∧ view s = value := by
  cases ran : proxyRun upstream downstream setup answers with
  | error fault => simp [ran, Except.toOption] at evaluated
  | ok s => exact ⟨s, rfl, by simpa [ran, Except.toOption] using evaluated⟩

end Concrete

end Testbus.Proxy
