import Testbus.Proxy.Runs

namespace Testbus.Proxy

open Lib World

variable {w w' : World} {self : Endpoint}

/-- The credit that the queued messages of all endpoints owe to one source. -/
def World.outstanding (w : World) (source : Addr) : Nat :=
  w.heap.total fun ep => owed ep.wqueue source

/-- No credit was lost, and none was given back twice. -/
def World.Conserved (w : World) : Prop :=
  ∀ a self, w.heap.cells a = some self → self.rxCredit + w.outstanding a = grant self.type

theorem World.Conserved.heap (conserved : w.Conserved) (same : w'.heap = w.heap) : w'.Conserved := by
  simpa [World.Conserved, World.outstanding, same] using conserved

variable {change : Addr → Endpoint → Endpoint}

theorem World.Conserved.map (conserved : w.Conserved) (changed : ∀ a, w'.heap.cells a = (w.heap.cells a).map (change a))
    (type : ∀ a other, (change a other).type = other.type)
    (balanced : ∀ a other, w.heap.cells a = some other →
      (change a other).rxCredit + w'.outstanding a = other.rxCredit + w.outstanding a) :
    w'.Conserved := by
  intro a new found
  rw [changed] at found
  obtain ⟨old, cell, rfl⟩ := Option.map_eq_some_iff.mp found
  rw [balanced a old cell, type]
  exact conserved a old cell

theorem World.Conserved.kept (conserved : w.Conserved) (changed : ∀ a, w'.heap.cells a = (w.heap.cells a).map (change a))
    (type : ∀ a other, (change a other).type = other.type)
    (credit : ∀ a other, (change a other).rxCredit = other.rxCredit)
    (queue : ∀ a other, (change a other).wqueue = other.wqueue) : w'.Conserved := by
  refine conserved.map changed type ?_
  intro a other _
  have unmoved : w'.outstanding a = w.outstanding a := Store.total_unchanged changed fun b cell => by rw [queue]
  rw [credit, unmoved]

theorem World.Conserved.refunded (conserved : w.Conserved)
    {dropped kept : List Mbuf} (found : w.heap.cells ep = some self) (queue : self.wqueue = dropped ++ kept)
    (changed : ∀ a, w'.heap.cells a = (w.heap.cells a).map (change a))
    (type : ∀ a other, (change a other).type = other.type)
    (paid : ∀ a other, (change a other).rxCredit = other.rxCredit + owed dropped a)
    (left : (change ep self).wqueue = kept)
    (others : ∀ a other, a ≠ ep → (change a other).wqueue = other.wqueue) : w'.Conserved := by
  refine conserved.map changed type ?_
  intro a other _
  have moved : w'.outstanding a + owed self.wqueue a = w.outstanding a + owed kept a := by
    rw [← left]
    exact Store.total_change _ changed found fun b cell different => by rw [others b cell different]
  rw [queue, owed_append] at moved
  rw [paid]
  omega

theorem World.Conserved.charge (conserved : w.Conserved) {other : Endpoint} (present : w.heap.cells sink = some other)
    (funded : ∀ source self, mbuf.source = some source → w.heap.cells source = some self →
      mbuf.credit ≤ self.rxCredit) : (w.charge sink mbuf).Conserved := by
  refine conserved.map (cells_charge w sink mbuf) (fun _ _ => rfl) ?_
  intro a self found
  have moved : (w.charge sink mbuf).outstanding a + owed other.wqueue a =
      w.outstanding a + owed (other.wqueue ++ [mbuf]) a := by
    have change : (w.charge sink mbuf).outstanding a + owed other.wqueue a =
        w.outstanding a + owed (if sink = sink then other.wqueue ++ [mbuf] else other.wqueue) a :=
      Store.total_change _ (cells_charge w sink mbuf) present fun b cell different => by
        simp [different]
    rwa [if_pos rfl] at change
  simp only [owed_append, owed_cons, owed_nil] at moved
  dsimp only
  by_cases source : mbuf.source = some a
  · have enough := funded a self source found
    simp only [source, if_true] at moved ⊢
    omega
  · simp only [source, if_false] at moved ⊢
    omega

theorem outstanding_spawn (absent : w.heap.cells ep = none) (empty : self.wqueue = [])
    {next : UInt32} {events : List Event} (a : Addr) :
    (w.spawn t ep self next events).outstanding a = w.outstanding a := by
  change (w.heap.alloc ep self).total _ = _
  rw [Store.total_alloc absent, empty]
  rfl

theorem World.Conserved.spawn (conserved : w.Conserved) (self : Endpoint) (absent : w.heap.cells ep = none)
    (empty : self.wqueue = []) (granted : self.rxCredit = grant self.type)
    (unnamed : w.outstanding ep = 0) (t : Side) (next : UInt32) (events : List Event) :
    (w.spawn t ep self next events).Conserved := by
  intro a new found
  rw [outstanding_spawn absent empty]
  rw [cells_spawn] at found
  split at found
  · rename_i here
    cases found
    rw [here, unnamed, granted, Nat.add_zero]
  · exact conserved a new found

theorem World.Conserved.adopt (conserved : w.Conserved) : (w.adopt ep t sink).Conserved :=
  conserved.kept (cells_adopt w ep t sink) (fun _ _ => rfl) (fun _ _ => rfl) fun _ _ => rfl

theorem World.Conserved.clear (conserved : w.Conserved) (ep : Addr) : (w.clear ep).Conserved :=
  conserved.kept (cells_clear w ep) (fun _ _ => rfl) (fun _ _ => rfl) fun _ _ => rfl

theorem World.Conserved.modify (conserved : w.Conserved) {change : Endpoint → Endpoint}
    (type : ∀ other, (change other).type = other.type) (credit : ∀ other, (change other).rxCredit = other.rxCredit)
    (queue : ∀ other, (change other).wqueue = other.wqueue) : (w.modify ep change).Conserved := by
  refine conserved.kept (cells_modify w ep · change) ?_ ?_ ?_ <;> intro a other <;>
    by_cases same : a = ep <;> simp [same, type, credit, queue]

theorem World.Conserved.shutRead (conserved : w.Conserved) (fd : Fd) : ((w.shutRead ep self fd).settle ep).Conserved :=
  (conserved.kept (cells_shutRead w ep self fd) (fun _ _ => rfl) (fun _ _ => rfl) fun _ _ => rfl).heap (heap_settle _ _)

theorem World.Conserved.quiet (conserved : w.Conserved) (moved : Quiet w w') : w'.Conserved := by
  cases moved with
  | @pull ep self mbuf rest found idle queue =>
    have split : self.wqueue = [mbuf] ++ rest := queue
    refine conserved.refunded found split (cells_pull w ep mbuf rest) (fun _ _ => rfl) ?_ ?_ ?_
    · intro a other; simp
    · simp
    · intro a other different; simp [different]
  | closeRead => exact conserved.shutRead _
  | closeWrite found writing =>
    refine World.Conserved.heap ?_ (heap_settle _ _)
    refine conserved.refunded found (List.append_nil _).symm (cells_shutWrite found _) (fun _ _ => rfl) (fun _ _ => rfl) ?_ ?_
    · simp
    · intro a other different; simp [different]
  | rebury => exact conserved.heap (heap_settle _ _)

/-- No endpoint is created at an address that queued messages still owe credit to. -/
def Guard.settled : Guard where
  accept w sys := w.outstanding sys.acceptedAddr = 0 ∧
    ((w.xprt .downstream).type = .simplex → (w.xprt .upstream).multiplex = none →
      w.outstanding sys.connectedAddr = 0)
  receive _ _ := True
  frame w _ bp sys :=
    (packetHeader bp).cmd = channelOpen → w.outstanding sys.connectedAddr = 0
  release _ _ := True

theorem Endpoint.Fresh.granted {xprt : Transport} (fresh : self.Fresh xprt t) : self.rxCredit = grant self.type := by
  rw [fresh.rxCredit, fresh.type]

/-- Every action keeps the credit of every endpoint. -/
theorem World.Conserved.act (conserved : w.Conserved)
    (shape : w.Shape) (configured : w.Configured upstream downstream) (acted : Act .settled w w') : w'.Conserved := by
  cases acted with
  | quiet moved => exact conserved.quiet moved
  | mark | connect | detach =>
    exact conserved.modify (fun _ => rfl) (fun _ => rfl) fun _ => rfl
  | transmit =>
    exact World.Conserved.modify (w := w.emit _) conserved (fun _ => rfl) (fun _ => rfl) fun _ => rfl
  | copied found target present handler fits nonempty funded =>
    refine World.Conserved.charge (w := w.emit _) conserved present ?_
    rintro source self ⟨⟩ cell
    cases found.symm.trans cell
    exact funded
  | framed found target present handler source credit contents fits nonempty funded =>
    refine World.Conserved.charge (w := w.emit _) conserved present ?_
    intro origin self named cell
    cases source.symm.trans named
    cases found.symm.trans cell
    rwa [credit]
  | leave found target present =>
    refine World.Conserved.shutRead (conserved.charge present ?_) _
    rintro source self ⟨⟩
  | @receive ep self bp =>
    have filled : (w.modify ep fun self => { self with rbuf := some bp }).Conserved :=
      conserved.modify (fun _ => rfl) (fun _ => rfl) fun _ => rfl
    exact filled
  | @opened source self bp sys born next arrived cmd absent fresh channel connected =>
    have simplex := (configured.demux arrived.handler).2
    have granted : defaultCreditSimplex = grant born.type := by
      rw [fresh.type, simplex]
      rfl
    have before : (w.emit (.dispatched source bp.contents)).Conserved := conserved
    have spawned : ((w.emit (.dispatched source bp.contents)).spawn self.transport.other
        sys.connectedAddr { born with rxCredit := defaultCreditSimplex } next
        [.created sys.connectedAddr]).Conserved :=
      before.spawn { born with rxCredit := defaultCreditSimplex } absent fresh.wqueue granted (arrived.allowed cmd) _ _ _
    exact spawned.adopt.clear _
  | ignored => exact World.Conserved.clear (w := w.emit _) conserved _
  | closing =>
    refine World.Conserved.clear (World.Conserved.modify (w := w.emit _) conserved ?_ ?_ ?_) _ <;>
      exact fun _ => rfl
  | deliver arrived cmd member funded =>
    obtain ⟨_, other, present, _⟩ := channelById_some member
    refine World.Conserved.clear (World.Conserved.charge (w := (w.emit _).emit _) conserved present ?_) _
    rintro source self ⟨⟩ cell
    cases arrived.found.symm.trans cell
    exact funded
  | administer => exact conserved.heap rfl
  | @announced self sys sink allowed absent fresh simplex channel link =>
    have spawned := conserved.spawn self absent fresh.wqueue fresh.granted allowed.1 .downstream
      ((w.xprt .downstream).nextChannelId + 1)
      [.created sys.acceptedAddr, .accepted self.channelId]
    obtain ⟨_, other, present, _⟩ := shape.lists.link .upstream sink link
    have apart : sink ≠ sys.acceptedAddr := by
      rintro rfl
      simp [absent] at present
    refine (spawned.charge (by rw [cells_spawn, if_neg apart, present]) ?_).adopt
    rintro source self ⟨⟩
  | @paired self other sys allowed absent fresh simplex channel alone vacant different partner =>
    have first := conserved.spawn self absent fresh.wqueue fresh.granted allowed.1 .downstream
      ((w.xprt .downstream).nextChannelId + 1)
      [.created sys.acceptedAddr, .accepted self.channelId]
    have unnamed := allowed.2 simplex alone
    rw [← outstanding_spawn absent fresh.wqueue] at unnamed
    have second := first.spawn other (by rw [cells_spawn, if_neg different, vacant]) partner.wqueue
      partner.granted unnamed .upstream (w.xprt .upstream).nextChannelId
      [.created sys.connectedAddr]
    exact second.adopt.adopt
  | @multiplexed self sys listenFd allowed absent fresh multiplex =>
    exact (conserved.spawn self absent fresh.wqueue fresh.granted allowed.1 .downstream (w.xprt .downstream).nextChannelId
      [.created sys.acceptedAddr, .accepted self.channelId]).heap rfl
  | @flush ep self t found dead =>
    refine conserved.refunded found (List.append_nil _).symm (cells_flush found t) (fun _ _ => rfl) (fun _ _ => rfl) ?_ ?_
    · simp
    · intro a other different; simp [different]
  | @release ep self found dead empty =>
    intro a new cell
    have paid : (w.release ep self.transport).outstanding a = w.outstanding a := by
      have freed := Store.total_free found fun ep => owed ep.wqueue a
      rw [empty.2.1] at freed
      simpa [World.outstanding, World.release] using freed
    rw [cells_release] at cell
    split at cell
    · cases cell
    · rw [paid]
      exact conserved a new cell

theorem Started.conserved (started : Started upstream downstream w) : w.Conserved := by
  intro a self found
  rcases started.endpoints with ⟨_, _, cells, _⟩ | ⟨ep, only, _, _, fresh, _, _, cells, _⟩
  · simp [cells] at found
  · have idle : w.outstanding a = 0 := by
      refine Store.total_eq_zero_iff.mpr ?_
      intro b other cell
      rw [cells] at cell
      split at cell
      · cases cell
        rw [fresh.wqueue, owed_nil]
      · cases cell
    rw [cells] at found
    split at found
    · cases found
      rw [idle, fresh.granted, Nat.add_zero]
    · cases found

theorem RunUnder.conserved
    (reached : RunUnder (Permits .settled) upstream downstream s) : s.world.Conserved :=
  (RunUnder.invariant (G := .settled) _ (fun _ started => started.conserved)
    (fun _ _ shape configured conserved acted => conserved.act shape configured acted)
    (fun _ _ permits => permits) reached).2.2

/-- In a run that never creates an endpoint at an address that queued messages still
owe credit to, every endpoint's credit and what it is owed add up to its grant. -/
theorem credit_conserved {upstream downstream : TransportKind} {s : State}
    (reached : RunUnder (Permits .settled) upstream downstream s) {a : Addr} {self : Endpoint}
    (found : s.world.heap.cells a = some self) :
    self.rxCredit + s.world.outstanding a = grant self.type :=
  reached.conserved a self found

/-- A client of two plain transports is accepted, and one byte of it is copied. -/
def copyOneByte : List Syscalls :=
  pollRound [{ pollin := true }]
    [{ accepts := some 4, acceptedAddr := 1, opens := some 5, connectedAddr := 2 }] ++
  pollRound [{}, { pollin := true }] [{}, { reads := [some [7]] }]

/-- Evaluates `Permits .settled` for steps that complete no packet. -/
def settledCheck (s : State) (sys : Syscalls) : Bool :=
  (!s.accepts || decide (s.world.outstanding sys.acceptedAddr = 0 ∧
    s.world.outstanding sys.connectedAddr = 0)) && (s.packet sys).isNone

theorem settledCheck_sound (s : State) (sys : Syscalls) (checked : settledCheck s sys = true) :
    Permits .settled s sys := by
  simp only [settledCheck, Bool.and_eq_true, Bool.or_eq_true, Bool.not_eq_true', decide_eq_true_eq] at checked
  refine ⟨?_, fun _ _ => trivial, ?_, fun _ _ _ _ _ => trivial, fun _ => trivial⟩
  · intro accepts _
    rcases checked.1 with other | settled
    · simp [accepts] at other
    · exact ⟨settled.1, fun _ _ => settled.2⟩
  · intro w ep bp packet
    simp [packet] at checked

theorem credit_conserved_copied : ∃ s self,
    RunUnder (Permits .settled) (.unix "up") (.unix "down") s ∧
      s.world.heap.cells 1 = some self ∧ s.world.outstanding 1 = 1 ∧
      self.rxCredit + s.world.outstanding 1 = grant self.type := by
  obtain ⟨s, ran, view⟩ := run_some (.unix "up") (.unix "down") { listens := some 3 }
    copyOneByte (fun s => ((s.world.heap.cells 1).isSome, s.world.outstanding 1)) (true, 1)
    (by decide +kernel)
  obtain ⟨alive, owing⟩ := Prod.mk.inj view
  obtain ⟨self, found⟩ := Option.isSome_iff_exists.mp alive
  have reached := runUnder_of_check settledCheck_sound (by decide +kernel) ran
  exact ⟨s, self, reached, found, owing, credit_conserved reached found⟩

/-- The upstream connection refuses a write, one more byte is copied to it, the client
closes and is freed, and the next client is created at its address. -/
def reuseAddress : List Syscalls :=
  copyOneByte ++
  pollRound [{}, { pollout := true }, { pollin := true }]
    [{}, { write := .epipe }, { reads := [some [8]] }] ++
  pollRound [{}, {}, { pollin := true, pollhup := true }] [{}, {}, { reads := [some []] }] ++
  pollRound [{ pollin := true }]
    [{ accepts := some 6, acceptedAddr := 1, opens := some 7, connectedAddr := 3 }]

theorem credit_not_conserved : ¬ ∀ (upstream downstream : TransportKind) (s : State),
    Reachable upstream downstream s → ∀ (a : Addr) (self : Endpoint),
      s.world.heap.cells a = some self →
        self.rxCredit + s.world.outstanding a = grant self.type := by
  intro claimed
  obtain ⟨s, ran, view⟩ := run_some (.unix "up") (.unix "down") { listens := some 3 }
    reuseAddress
    (fun s => (s.world.heap.cells 1).map fun self =>
      (self.rxCredit + s.world.outstanding 1, grant self.type))
    (some (8193, 8192)) (by decide +kernel)
  obtain ⟨self, found, sums⟩ := Option.map_eq_some_iff.mp view
  have balanced := claimed _ _ s (reachable_of_run ran) 1 self found
  obtain ⟨sum, granted⟩ := Prod.mk.inj sums
  rw [sum, granted] at balanced
  exact absurd balanced (by decide)

end Testbus.Proxy
