import Testbus.Proxy.Lasting
import Testbus.Proxy.PollTable

namespace Testbus.Proxy

open Lib World

variable {w w' : World}

section Table

variable {entry : PollInfo}

/-- The entry is one of the endpoint, for its read descriptor unless that is closed by now. -/
structure Entered (w : World) (entry : PollInfo) (ep : Addr) (owner : Endpoint) : Prop where
  handler : entry.handler = .endpointDoio
  names : entry.ep = some ep
  found : w.heap.cells ep = some owner
  rfd : owner.rfd = entry.fd ∨ owner.rfd = none

/-- How many entries an endpoint fills: one for both directions if they share a descriptor. -/
def Endpoint.slots (self : Endpoint) : Nat :=
  if self.dead || !self.connected then 0
  else if self.rfd = self.wfd then
    if self.rxCredit ≠ 0 ∨ self.wbuf.isSome = true then 1 else 0
  else
    (if self.rfd.isSome = true ∧ self.rxCredit ≠ 0 then 1 else 0) +
      if self.wfd.isSome = true ∧ self.wbuf.isSome = true then 1 else 0

def World.slotsOf (w : World) (members : List Addr) : Nat :=
  (members.map fun ep => ((w.heap.cells ep).map Endpoint.slots).getD 0).sum

/-- How many entries the connections of a transport fill. -/
def World.slots (w : World) (t : Side) : Nat :=
  w.slotsOf ((w.xprt t).multiplex.toList ++ (w.xprt t).epList)

/-- `MAXCONN`, and the size of the two arrays of `do_proxy`. -/
def maxconn : Nat := 128
def tableSize : Nat := maxconn + 1

def Phase.entries : Phase → Nat
  | .prepare _ info | .collect _ info | .poll info => info.length
  | .dispatch ready => ready.length
  | .done => 0

/-- The connections of the transport that is collected fit into what is left of the table. -/
def State.Roomy (s : State) : Prop :=
  ∀ t info w, s.phase = .collect t info → ioTransportPurge s.world t = .ok w →
    info.length + w.slots t ≤ tableSize

theorem ioEndpointPoll_entered (found : w.heap.cells ep = some self) (polled : ioEndpointPoll w ep = .ok entries) :
    entries.length = self.slots ∧ ∀ entry ∈ entries, Entered w entry ep self := by
  obtain ⟨quiet, rfl⟩ | ⟨alive, connected, _, ⟨one, rfl⟩ | ⟨two, rfl⟩⟩ := ioEndpointPoll_ok found polled
  · have none' : (self.dead || !self.connected) = true := by simpa using quiet
    simp [Endpoint.slots, none']
  · constructor
    · simp only [Endpoint.slots, alive, connected, one, Endpoint.mayRead]
      by_cases credit : self.rxCredit = 0 <;> cases self.wbuf <;> simp [credit]
    · intro entry member
      split at member
      · rw [List.mem_singleton] at member
        subst member
        exact ⟨rfl, rfl, found, .inl rfl⟩
      · simp at member
  · constructor
    · simp only [Endpoint.slots, alive, connected, two, Endpoint.mayRead, List.length_append]
      by_cases credit : self.rxCredit = 0 <;> cases self.wbuf <;> cases self.wfd <;> cases self.rfd <;>
        simp [credit]
    · intro entry member
      rcases List.mem_append.mp member with reading | writing
      · split at reading
        · rw [List.mem_singleton] at reading
          subst reading
          exact ⟨rfl, rfl, found, .inl rfl⟩
        · simp at reading
      · split at writing
        · rw [List.mem_singleton] at writing
          subst writing
          exact ⟨rfl, rfl, found, .inl rfl⟩
        · simp at writing

theorem pollAll_entered (polled : pollAll w members = .ok info) :
    info.length = w.slotsOf members ∧ ∀ entry ∈ info, ∃ ep ∈ members, ∃ self, Entered w entry ep self := by
  induction members generalizing info with
  | nil =>
    cases polled
    simp [World.slotsOf]
  | cons ep rest ih =>
    obtain ⟨first, polled', later⟩ := bind_ok.mp polled
    obtain ⟨others, polled'', done⟩ := bind_ok.mp later
    cases done
    obtain ⟨self, dereffed, _⟩ := bind_ok.mp polled'
    have found := deref_ok.mp dereffed
    obtain ⟨length, entered⟩ := ioEndpointPoll_entered found polled'
    obtain ⟨length', entered'⟩ := ih polled''
    constructor
    · simp only [List.length_append, length, length', World.slotsOf, List.map_cons, List.sum_cons,
        found, Option.map_some, Option.getD_some]
    · intro entry member
      rcases List.mem_append.mp member with here | there
      · exact ⟨ep, by simp, self, entered entry here⟩
      · obtain ⟨other, listed, self', entered'⟩ := entered' entry there
        exact ⟨other, by simp [listed], self', entered'⟩

/-- Collecting descriptors adds as many entries as the connections fill, each for an endpoint
of the transport. -/
theorem collect_entered (shape : w.Shape) (collected : ioTransportPollCollect w t = .ok (w', info)) :
    ioTransportPurge w t = .ok w' ∧ info.length = w'.slots t ∧
      ∀ entry ∈ info, ∃ ep self, Entered w' entry ep self ∧ self.transport = t := by
  obtain ⟨purged, polled⟩ := pollCollect_ok collected
  have lists : w'.Lists := shape.lists.acts (transportPurge_acts (G := .free) shape (fun _ _ _ => trivial) purged)
  obtain ⟨length, entered⟩ := pollAll_entered polled
  refine ⟨purged, length, fun entry member => ?_⟩
  obtain ⟨ep, listed, self, entered'⟩ := entered entry member
  refine ⟨ep, self, entered', ?_⟩
  rcases List.mem_append.mp listed with link | listed
  · obtain ⟨_, same, found, side, _⟩ := lists.link t ep (by simpa using link)
    cases entered'.found.symm.trans found
    exact side
  · obtain ⟨same, found, side, _⟩ := lists.listed t ep listed
    cases entered'.found.symm.trans found
    exact side

theorem loopTop_entries (w : World) : (loopTop w).phase.entries ≤ tableSize := by
  simp only [loopTop, Phase.entries]
  split
  · exact Nat.zero_le _
  · exact Nat.le_add_left 1 maxconn

/-- A step fills no more entries than there are, if and only if there is room for them. -/
theorem step_entries (shape : s.world.Shape) (fits : s.phase.entries ≤ tableSize)
    (moved : step s sys = .ok s') : s'.phase.entries ≤ tableSize ↔ s.Roomy := by
  obtain ⟨w, phase⟩ := s
  have calm : (∀ t info, phase ≠ .collect t info) → State.Roomy ⟨w, phase⟩ :=
    fun other t info _ here => absurd here (other t info)
  cases phase with
  | prepare t info =>
    obtain ⟨after, prepared, rest⟩ := bind_ok.mp moved
    cases rest
    exact iff_of_true fits (calm (by simp))
  | collect t info =>
    obtain ⟨⟨after, more⟩, collected, rest⟩ := bind_ok.mp moved
    cases rest
    obtain ⟨purged, length, _⟩ := collect_entered shape collected
    have roomy : (info ++ more).length ≤ tableSize ↔ State.Roomy ⟨w, .collect t info⟩ := by
      rw [List.length_append, length]
      constructor
      · intro room t' info' w' here purged'
        cases here
        cases purged.symm.trans purged'
        exact room
      · exact fun roomy => roomy t info after rfl purged
    cases t with
    | upstream => exact roomy
    | downstream => exact roomy
  | poll info =>
    refine iff_of_true ?_ (calm (by simp))
    cases info with
    | nil => cases moved; exact Nat.zero_le _
    | cons first others =>
      unfold step at moved
      dsimp only at moved
      split at moved
      · cases moved
        exact loopTop_entries w
      · cases moved
        simpa [Phase.entries] using fits
  | dispatch ready =>
    refine iff_of_true ?_ (calm (by simp))
    cases ready with
    | nil => cases moved; exact loopTop_entries w
    | cons first others =>
      obtain ⟨after, handled, rest⟩ := bind_ok.mp moved
      cases rest
      exact Nat.le_of_succ_le fits
  | done =>
    cases moved
    exact iff_of_true fits (calm (by simp))

theorem Entered.lasts (entered : Entered w entry ep self) (lasts : w.Lasts ep w') :
    ∃ left, Entered w' entry ep left ∧ left.transport = self.transport := by
  obtain ⟨⟨left, found, ages⟩, _⟩ := lasts self entered.found
  refine ⟨left, ⟨entered.handler, entered.names, found, ?_⟩, ages.transport⟩
  rcases ages.rfd with same | closed
  · rw [same]
    exact entered.rfd
  · exact .inr closed

/-- The first entry of the table, if there is a socket to listen on. -/
def listening (w : World) : List PollInfo :=
  match (w.xprt .downstream).listenFd with
  | none => []
  | some fd => [⟨.downstreamAccept, none, some fd, true, false⟩]

/-- What the table holds before `poll`: the listening socket, and endpoints that are there still.
The endpoints of the other transport come first. -/
def State.Tabled (s : State) : Prop :=
  match s.phase with
  | .prepare t info | .collect t info => ∃ others, info = listening s.world ++ others ∧
      ∀ entry ∈ others, ∃ ep self, Entered s.world entry ep self ∧ self.transport = .upstream ∧
        t = .downstream
  | .poll info => ∃ others, info = listening s.world ++ others ∧
      ∀ entry ∈ others, ∃ ep self, Entered s.world entry ep self
  | _ => True

theorem tabled_loopTop (w : World) : (loopTop w).Tabled := ⟨[], (List.append_nil _).symm, by simp⟩

/-- No connection is accepted. -/
def Guard.deaf : Guard := { Guard.free with accept := fun _ _ => False }

theorem listening_deaf (acted : Acts .deaf w w') : listening w' = listening w := by
  rw [listening, (Acts.setup acted .downstream).listenFd fun _ _ => id]
  rfl

theorem Entered.purge (shape : w.Shape) (entered : Entered w entry ep self)
    (side : self.transport = .upstream) (purged : ioTransportPurge w .downstream = .ok w') :
    ∃ left, Entered w' entry ep left ∧ left.transport = .upstream := by
  have spared : ∀ after, ∀ b ∈ (w.xprt .downstream).garbageList, (Guard.sparing ep).release after b := by
    rintro _ b garbage rfl
    obtain ⟨owner, found, other, _⟩ := shape.lists.garbage _ _ garbage
    cases entered.found.symm.trans found
    cases side.symm.trans other
  obtain ⟨left, entered', same⟩ := entered.lasts (transportPurge_acts shape spared purged).lasts
  exact ⟨left, entered', same.trans side⟩

/-- A step keeps the table right. -/
theorem step_tabled (shape : s.world.Shape) (tabled : s.Tabled) (moved : step s sys = .ok s') : s'.Tabled := by
  obtain ⟨w, phase⟩ := s
  cases phase with
  | prepare t info =>
    obtain ⟨after, prepared, rest⟩ := bind_ok.mp moved
    cases rest
    obtain ⟨others, split, entered⟩ := tabled
    have same : listening after = listening w := listening_deaf (transportPrepare_acts shape prepared)
    refine ⟨others, ?_, fun entry member => ?_⟩
    · rw [same]
      exact split
    · obtain ⟨ep, self, entered, side, later⟩ := entered entry member
      obtain ⟨left, entered', same⟩ := entered.lasts (transportPrepare_acts shape prepared).lasts
      exact ⟨ep, left, entered', same.trans side, later⟩
  | collect t info =>
    obtain ⟨⟨after, more⟩, collected, rest⟩ := bind_ok.mp moved
    cases rest
    obtain ⟨others, split, entered⟩ := tabled
    have split : info = listening w ++ others := split
    obtain ⟨purged, _, added⟩ := collect_entered shape collected
    have same : listening after = listening w := listening_deaf (transportPurge_acts shape (fun _ _ _ => trivial) purged)
    have kept : ∀ entry ∈ others, t = .downstream ∧
        ∃ ep self, Entered after entry ep self ∧ self.transport = .upstream := by
      intro entry member
      obtain ⟨ep, self, entered, side, rfl⟩ := entered entry member
      obtain ⟨left, entered', side'⟩ := entered.purge shape side purged
      exact ⟨rfl, ep, left, entered', side'⟩
    cases t with
    | upstream =>
      refine ⟨others ++ more, by rw [same, ← List.append_assoc, ← split], fun entry member => ?_⟩
      rcases List.mem_append.mp member with early | late
      · cases (kept entry early).1
      · obtain ⟨ep, self, entered', side⟩ := added entry late
        exact ⟨ep, self, entered', side, rfl⟩
    | downstream =>
      refine ⟨others ++ more, by rw [same, ← List.append_assoc, ← split], fun entry member => ?_⟩
      rcases List.mem_append.mp member with early | late
      · obtain ⟨_, ep, self, entered', _⟩ := kept entry early
        exact ⟨ep, self, entered'⟩
      · obtain ⟨ep, self, entered', _⟩ := added entry late
        exact ⟨ep, self, entered'⟩
  | poll info =>
    cases info with
    | nil => cases moved; trivial
    | cons first others =>
      unfold step at moved
      dsimp only at moved
      split at moved
      · cases moved
        exact tabled_loopTop w
      · cases moved
        trivial
  | dispatch ready =>
    cases ready with
    | nil => cases moved; exact tabled_loopTop w
    | cons first others =>
      obtain ⟨after, handled, rest⟩ := bind_ok.mp moved
      cases rest
      trivial
  | done =>
    cases moved
    trivial

end Table

section Dispatch

variable {entry : PollInfo} {s s' : State}

/-- What the revents of an entry are evaluated for is what was polled: the socket that is listened
on, or the endpoint, whose descriptors are open only if they were so all the time. -/
def SlotKept (polled now : World) (entry : PollInfo) : Prop :=
  match entry.handler with
  | .downstreamAccept => (polled.xprt .downstream).listenFd = entry.fd ∧
      (now.xprt .downstream).listenFd = entry.fd
  | .endpointDoio => ∃ ep old, Entered polled entry ep old ∧ polled.Lasts ep now

/-- Each handler that is called after `poll` gets the revents of its own slot, and what was polled
there is still what it is about. -/
def State.SlotsKept (s : State) : Prop :=
  ∀ info sys revents s₁ later s₂ entry reported rest, s.phase = .poll info →
    sys.polls = some revents → step s sys = .ok s₁ → Machine.run step s₁ later = .ok s₂ →
    later.length < info.length → s₂.phase = .dispatch ((entry, reported) :: rest) →
      info[later.length]? = some entry ∧
        reported = entry.reported (revents.getD later.length {}) ∧ SlotKept s.world s₂.world entry

theorem dispatch_run (shape : w.Shape)
    (ran : Machine.run step ⟨w, .dispatch ready⟩ later = .ok s) (before : later.length ≤ ready.length) :
    s.phase = .dispatch (ready.drop later.length) ∧ ∀ a, w.Lasts a s.world := by
  induction later generalizing w ready with
  | nil =>
    cases ran
    exact ⟨rfl, fun a => .refl a w⟩
  | cons sys others ih =>
    cases ready with
    | nil => simp at before
    | cons first rest =>
      obtain ⟨next, moved, ran'⟩ := bind_ok.mp ran
      have acted : ∀ a, w.Lasts a next.world := fun a =>
        Acts.lasts (step_acts (G := .sparing a) shape ⟨fun _ _ => trivial, fun _ _ => trivial,
          fun _ _ _ _ => trivial, fun _ _ here => (by cases here), fun _ => trivial⟩ moved)
      have shape' : next.world.Shape := shape.acts (step_acts shape (permits_free _ _) moved)
      obtain ⟨after, handled, done⟩ := bind_ok.mp moved
      cases done
      obtain ⟨phase, lasts⟩ := ih shape' ran' (Nat.le_of_succ_le_succ before)
      exact ⟨phase, fun a => (acted a).trans (lasts a)⟩

theorem slotsKept (shape : s.world.Shape) (tabled : s.Tabled) : s.SlotsKept := by
  intro info sys revents s₁ later s₂ entry reported rest phase polled moved ran before ready
  obtain ⟨w, phase'⟩ := s
  cases phase
  obtain ⟨others, split, entered⟩ := tabled
  have started : s₁ = ⟨w, .dispatch (info.mapIdx fun i entry =>
      (entry, entry.reported (revents.getD i {})))⟩ := by
    cases info with
    | nil => simp at before
    | cons first others' =>
      simp only [step, polled] at moved
      exact (Except.ok.inj moved).symm
  subst started
  obtain ⟨dropped, lasts⟩ := dispatch_run shape ran (by simpa using Nat.le_of_lt before)
  have here : (info.mapIdx fun i entry => (entry, entry.reported (revents.getD i {})))[later.length]? =
      some (entry, reported) := by
    have front := congrArg List.head? (Phase.dispatch.inj (dropped.symm.trans ready))
    rwa [List.head?_drop] at front
  rw [List.getElem?_mapIdx, Option.map_eq_some_iff] at here
  obtain ⟨same, listed, pair⟩ := here
  obtain ⟨rfl, rfl⟩ := Prod.mk.inj pair
  refine ⟨listed, rfl, ?_⟩
  have behind : same ∈ others → SlotKept w s₂.world same := by
    intro member
    obtain ⟨ep, owner, entered⟩ := entered same member
    simp only [SlotKept, entered.handler]
    exact ⟨ep, owner, entered, lasts ep⟩
  have split : info = listening w ++ others := split
  cases listens : (w.xprt .downstream).listenFd with
  | none =>
    rw [split, listening, listens] at listed
    exact behind (List.mem_of_getElem? listed)
  | some fd =>
    rw [split, listening, listens] at listed
    cases later with
    | nil =>
      -- The socket is in the first slot, before anything is handled.
      cases ran
      cases listed
      exact ⟨listens, listens⟩
    | cons sys rest => exact behind (List.mem_of_getElem? (by simpa using listed))

/-- In a run whose connections always fit, the table is never filled beyond its end and handlers
get the revents of what was polled; and it would be if the connections did not fit. -/
theorem table_fits {upstream downstream : TransportKind}
    (reached : RunUnder (fun s _ => s.Roomy) upstream downstream s) :
    s.phase.entries ≤ tableSize ∧ s.SlotsKept ∧
      ∀ sys s', step s sys = .ok s' → (s'.phase.entries ≤ tableSize ↔ s.Roomy) := by
  obtain ⟨setup, start, answers, done, along, ran⟩ := reached
  have begin' := (proxyInit_ok done).2
  have top : ∃ w, start = loopTop w := by
    obtain ⟨first, _, rest⟩ := bind_ok.mp done
    obtain ⟨second, _, last⟩ := bind_ok.mp rest
    exact ⟨_, (Except.ok.inj last).symm⟩
  obtain ⟨w, rfl⟩ := top
  have kept : ∀ s sys next, (s.world.Shape ∧ s.Tabled ∧ s.phase.entries ≤ tableSize) → s.Roomy →
      step s sys = .ok next →
      next.world.Shape ∧ next.Tabled ∧ next.phase.entries ≤ tableSize := by
    intro s sys next holds roomy moved
    obtain ⟨shape, tabled, fits⟩ := holds
    exact ⟨shape.acts (step_acts shape (permits_free s sys) moved), step_tabled shape tabled moved,
      (step_entries shape fits moved).mpr roomy⟩
  obtain ⟨shape, tabled, fits⟩ := Machine.invariant_run _ kept
    ⟨begin'.shape, tabled_loopTop w, loopTop_entries w⟩ along ran
  exact ⟨fits, slotsKept shape tabled, fun sys s' moved => step_entries shape fits moved⟩

/-- Evaluates `State.Roomy`. -/
def roomyCheck (s : State) (_ : Syscalls) : Bool :=
  match s.phase with
  | .collect t info => match ioTransportPurge s.world t with
    | .ok w => decide (info.length + w.slots t ≤ tableSize)
    | .error _ => true
  | _ => true

theorem roomyCheck_sound (s : State) (sys : Syscalls) (checked : roomyCheck s sys = true) : s.Roomy := by
  intro t info w phase purged
  simpa [roomyCheck, phase, purged] using checked

/-- One client, whose byte is passed on. -/
theorem table_fits_copied : ∃ s,
    RunUnder (fun s _ => s.Roomy) (.unix "up") (.unix "down") s ∧ s.phase.entries ≤ tableSize ∧
      s.SlotsKept ∧ ∀ sys s', step s sys = .ok s' → (s'.phase.entries ≤ tableSize ↔ s.Roomy) := by
  obtain ⟨s, ran, _⟩ := run_some (.unix "up") (.unix "down") { listens := some 3 }
    (copyOneByte ++ List.replicate 4 ({} : Syscalls)) (fun s => s.phase.entries) 3 (by decide +kernel)
  have reached : RunUnder (fun s _ => s.Roomy) (.unix "up") (.unix "down") s :=
    runUnder_of_check roomyCheck_sound (by decide +kernel) ran
  exact ⟨s, reached, table_fits reached⟩

end Dispatch

/-- A connection on which nothing happens. -/
structure Idle (t : Side) (client : Endpoint) : Prop where
  reading : client.rfd.isSome = true
  writing : client.wfd = client.rfd
  rxCredit : client.rxCredit ≠ 0
  wbuf : client.wbuf = none
  wqueue : client.wqueue = []
  open' : client.shutdownWrite = false
  connected : t = .downstream → client.connected = true

/-- `n` clients are connected, and have not sent anything. -/
structure Crowded (n : Nat) (w : World) : Prop where
  listenFd : (w.xprt .downstream).listenFd = some 3
  ops : ∀ t, (w.xprt t).ops = .unix
  type : ∀ t, (w.xprt t).type = .simplex
  multiplex : ∀ t, (w.xprt t).multiplex = none
  garbageList : ∀ t, (w.xprt t).garbageList = []
  idle : ∀ t, ∀ ep ∈ (w.xprt t).epList, ∃ self, w.heap.cells ep = some self ∧ Idle t self
  clients : (w.xprt .downstream).epList.length = n

theorem Idle.prepare (idle : Idle t self) (found : w.heap.cells ep = some self) : ioEndpointPollPrepare w ep = .ok w := by
  have writing : self.wfd.isSome = true := by rw [idle.writing, idle.reading]
  simp [ioEndpointPollPrepare, ioEndpointPullup, World.deref, found, bind, Except.bind, writing,
    idle.wbuf, idle.wqueue, idle.open']

theorem Idle.poll (idle : Idle t self) (found : w.heap.cells ep = some self) :
    ∃ info, ioEndpointPoll w ep = .ok info ∧ (t = .downstream → info.length = 1) := by
  obtain ⟨fd, reading⟩ := Option.isSome_iff_exists.mp idle.reading
  have writing : self.wfd = some fd := by rw [idle.writing, reading]
  cases connected : self.connected with
  | false =>
    refine ⟨[], ?_, fun side => ?_⟩
    · simp [ioEndpointPoll, World.deref, found, bind, Except.bind, Endpoint.dead, reading, connected]
    · simp [idle.connected side] at connected
  | true =>
    refine ⟨[⟨.endpointDoio, some ep, some fd, true, false⟩], ?_, fun _ => rfl⟩
    simp [ioEndpointPoll, World.deref, found, bind, Except.bind, Endpoint.dead, reading, connected,
      idle.wbuf, writing, idle.rxCredit]

theorem pollPrepareAll_idle (listed : members ⊆ (w.xprt t).epList)
    (idle : ∀ ep ∈ members, ∃ self, w.heap.cells ep = some self ∧ Idle t self) : pollPrepareAll w t members = .ok w := by
  induction members with
  | nil => rfl
  | cons ep rest ih =>
    obtain ⟨self, found, still⟩ := idle ep (by simp)
    rw [pollPrepareAll, still.prepare found]
    change (if ep ∈ (w.xprt t).epList then pollPrepareAll w t rest else .ok w) = _
    rw [if_pos (listed (by simp))]
    exact ih (fun a member => listed (by simp [member])) fun a member => idle a (by simp [member])

theorem pollAll_idle (idle : ∀ ep ∈ members, ∃ self, w.heap.cells ep = some self ∧ Idle t self) :
    ∃ info, pollAll w members = .ok info ∧ (t = .downstream → info.length = members.length) := by
  induction members with
  | nil => exact ⟨[], rfl, by simp⟩
  | cons ep rest ih =>
    obtain ⟨self, found, still⟩ := idle ep (by simp)
    obtain ⟨first, polled, one⟩ := still.poll found
    obtain ⟨info, polled', length⟩ := ih fun a member => idle a (by simp [member])
    refine ⟨first ++ info, by rw [pollAll, polled, polled']; rfl, fun side => ?_⟩
    rw [List.length_append, one side, length side, List.length_cons, Nat.add_comm]

theorem Crowded.prepare (crowded : Crowded n w) (lists : w.Lists) (t : Side) : ioTransportPollPrepare w t = .ok w := by
  rw [ioTransportPollPrepare, crowded.multiplex t]
  change (pollPrepareAll w t (w.xprt t).epList >>= fun w => ioEndpointListPurge w t .epList) = _
  rw [pollPrepareAll_idle (fun _ member => member) (crowded.idle t)]
  exact purge_epList lists t

theorem Crowded.collect (crowded : Crowded n w) (lists : w.Lists) (t : Side) :
    ∃ info, ioTransportPollCollect w t = .ok (w, info) ∧ (∀ entry ∈ info, entry.handler = .endpointDoio) ∧
      (t = .downstream → info.length = (w.xprt t).epList.length) := by
  obtain ⟨info, polled, length⟩ := pollAll_idle (crowded.idle t)
  have purged : ioTransportPurge w t = .ok w := by
    rw [ioTransportPurge_eq lists, ioEndpointListPurge, PurgeFrom.members, crowded.garbageList t]
    exact purge_multiplex lists t
  refine ⟨info, ?_, fun entry member => ?_, length⟩
  · rw [ioTransportPollCollect, purged]
    change (pollAll w ((w.xprt t).multiplex.toList ++ _) >>= fun info => Except.ok (w, info)) = _
    rw [crowded.multiplex t, Option.toList_none, List.nil_append, polled]
    rfl
  · obtain ⟨_, _, _, entered⟩ := (pollAll_entered polled).2 entry member
    exact entered.handler

/-- The four steps that fill the table. -/
theorem Crowded.fill (crowded : Crowded n w) (lists : w.Lists) : ∃ info,
    Machine.run step (loopTop w) (List.replicate 4 ({} : Syscalls)) =
      .ok ⟨w, .poll (⟨.downstreamAccept, none, some 3, true, false⟩ :: info)⟩ ∧
      (∀ entry ∈ info, entry.handler = .endpointDoio) ∧ n ≤ info.length := by
  obtain ⟨first, collected, doio, _⟩ := crowded.collect lists .upstream
  obtain ⟨second, collected', doio', length⟩ := crowded.collect lists .downstream
  refine ⟨first ++ second, ?_, ?_, ?_⟩
  · simp only [List.replicate, Machine.run, loopTop, step, crowded.listenFd,
      crowded.prepare lists, collected, collected', bind, Except.bind]
    rfl
  · intro entry member
    rcases List.mem_append.mp member with early | late
    · exact doio entry early
    · exact doio' entry late
  · rw [List.length_append, length rfl, crowded.clients]
    exact Nat.le_add_left n first.length

theorem reported_silent (entry : PollInfo) : entry.reported {} = {} := by
  unfold PollInfo.reported
  split
  · rfl
  · simp

theorem handle_idle {entry : PollInfo} (doio : entry.handler = .endpointDoio) : entry.handle {} w sys = .ok w := by
  unfold PollInfo.handle
  rw [doio]
  cases entry.ep with
  | none => rfl
  | some ep =>
    cases entry.fd with
    | none => rfl
    | some fd => rfl

/-- Entries for which nothing is reported are passed over. -/
theorem dispatch_idle (w : World) (ready : List (PollInfo × Revents))
    (idle : ∀ entry ∈ ready, entry.1.handler = .endpointDoio ∧ entry.2 = {}) :
    Machine.run step ⟨w, .dispatch ready⟩ (List.replicate ready.length ({} : Syscalls)) = .ok ⟨w, .dispatch []⟩ := by
  induction ready with
  | nil => rfl
  | cons first rest ih =>
    obtain ⟨entry, revents⟩ := first
    obtain ⟨doio, quiet⟩ := idle (entry, revents) (by simp)
    dsimp only at doio quiet
    subst quiet
    rw [List.length_cons, List.replicate_succ, Machine.run]
    simp only [step, handle_idle doio, bind, Except.bind]
    exact ih fun entry member => idle entry (by simp [member])

theorem xprt_adopt_self (w : World) (ep : Addr) (t : Side) (sink : Addr) :
    (w.adopt ep t sink).xprt t = { w.xprt t with epList := (w.xprt t).epList ++ [ep] } := by
  simp [World.adopt, ioEndpointLink]

theorem xprt_adopt_of_ne (different : s ≠ t) (sink : Addr) : (w.adopt ep t sink).xprt s = w.xprt s := by
  simp [World.adopt, ioEndpointLink, xprt_modifyXprt_of_ne different]

theorem Endpoint.Fresh.idle {xprt : Transport} (fresh : self.Fresh xprt t) (unix : xprt.ops = .unix)
    (connected : t = .downstream → self.connected = true) : Idle t self where
  reading := fresh.rfd
  writing := by
    rcases fresh.fds with same | stdio
    · exact same.symm
    · cases unix.symm.trans stdio
  rxCredit := by
    rw [fresh.rxCredit]
    cases xprt.type <;> decide
  wbuf := fresh.wbuf
  wqueue := fresh.wqueue
  open' := fresh.shutdownWrite
  connected := connected

theorem Crowded.spawn (crowded : Crowded n w) (absent : w.heap.cells ep = none) (next : UInt32)
    (events : List Event) : Crowded n (w.spawn t ep self next events) where
  listenFd := ((sameSetup_spawn ep self next events .downstream).listenFd trivial).trans crowded.listenFd
  ops s := (ops_spawn w t s ep self next events).trans (crowded.ops s)
  type s := (type_spawn w t s ep self next events).trans (crowded.type s)
  multiplex s := (lists_spawn w t ep self next events s).2.2.trans (crowded.multiplex s)
  garbageList s := (lists_spawn w t ep self next events s).2.1.trans (crowded.garbageList s)
  idle s a member := by
    rw [(lists_spawn w t ep self next events s).1] at member
    obtain ⟨owner, found, idle⟩ := crowded.idle s a member
    have different : a ≠ ep := by
      rintro rfl
      cases absent.symm.trans found
    exact ⟨owner, by rw [cells_spawn, if_neg different, found], idle⟩
  clients := by rw [(lists_spawn w t ep self next events .downstream).1, crowded.clients]

theorem Crowded.adopt (crowded : Crowded n w) (found : w.heap.cells ep = some self)
    (idle : Idle t self) (sink : Addr) : Crowded (if t = .downstream then n + 1 else n) (w.adopt ep t sink) := by
  have setup : ∀ s, (w.xprt s).SameSetup True ((w.adopt ep t sink).xprt s) := sameSetup_adopt ep sink
  have cells : ∀ s a owner, w.heap.cells a = some owner → Idle s owner →
      ∃ left, (w.adopt ep t sink).heap.cells a = some left ∧ Idle s left := by
    intro s a owner found still
    have cell := cells_adopt w ep t sink a
    rw [found] at cell
    exact ⟨_, cell, ⟨still.reading, still.writing, still.rxCredit, still.wbuf, still.wqueue,
      still.open', still.connected⟩⟩
  refine ⟨((setup _).listenFd trivial).trans crowded.listenFd,
    fun s => (setup s).ops.trans (crowded.ops s), fun s => (setup s).type.trans (crowded.type s),
    ?_, ?_, ?_, ?_⟩
  · intro s
    rw [World.adopt, ioEndpointLink]
    exact (field_modifyXprt Transport.multiplex s fun _ => by rfl).trans (crowded.multiplex s)
  · intro s
    rw [World.adopt, ioEndpointLink]
    exact (field_modifyXprt Transport.garbageList s fun _ => by rfl).trans (crowded.garbageList s)
  · intro s a member
    by_cases same : s = t
    · subst same
      rw [xprt_adopt_self] at member
      rcases List.mem_append.mp member with old | new
      · obtain ⟨owner, found', still⟩ := crowded.idle s a old
        exact cells s a owner found' still
      · obtain rfl := List.mem_singleton.mp new
        exact cells s a self found idle
    · rw [xprt_adopt_of_ne same] at member
      obtain ⟨owner, found', still⟩ := crowded.idle s a member
      exact cells s a owner found' still
  · by_cases same : t = .downstream
    · subst same
      rw [xprt_adopt_self, if_pos rfl, List.length_append, crowded.clients, List.length_singleton]
    · rw [xprt_adopt_of_ne (Ne.symm same), if_neg same, crowded.clients]

/-- The answers for a client that connects. -/
def arrival (a b : Addr) : Syscalls :=
  { accepts := some 4, acceptedAddr := a, opens := some 5, connectedAddr := b }

theorem Crowded.accept (crowded : Crowded n w) (lists : w.Lists) (absent : w.heap.cells a = none)
    (vacant : w.heap.cells b = none) (different : b ≠ a) :
    ∃ w', proxyDownstreamAccept w 3 { pollin := true } (arrival a b) = .ok w' ∧ Crowded (n + 1) w' := by
  obtain ⟨first, accepted⟩ : ∃ first, ioTransportAccept w .downstream 3 (arrival a b) = .ok (some a, first) := by
    have free : a ∉ w.heap.live := by simp [w.heap.filled, absent]
    simp [ioTransportAccept, crowded.type, crowded.ops, TransportOps.acceptor,
      ioEndpointSocketAccept, arrival, ioEndpointNew, free, bind, Except.bind, crowded.listenFd]
  obtain ⟨nobody, _⟩ | ⟨client, _, _, _, fresh, connected, rfl, _⟩ := ioTransportAccept_ok accepted
  · cases nobody
  generalize (if (w.xprt .downstream).type = .simplex then (w.xprt .downstream).nextChannelId + 1
    else (w.xprt .downstream).nextChannelId) = next at accepted
  generalize [Event.created (arrival a b).acceptedAddr, .accepted client.channelId] = events at accepted
  change ioTransportAccept w .downstream 3 (arrival a b) =
    .ok (some a, w.spawn .downstream a client next events) at accepted
  have crowded' : Crowded n (w.spawn .downstream a client next events) := crowded.spawn absent next events
  have vacant' : (w.spawn .downstream a client next events).heap.cells b = none := by
    rw [cells_spawn, if_neg different, vacant]
  obtain ⟨second, made⟩ : ∃ second, ioTransportConnect (w.spawn .downstream a client next events)
      .upstream false (arrival a b) = .ok (some b, second) := by
    have free : b ∉ (w.spawn .downstream a client next events).heap.live := by
      simp only [Store.filled, vacant']
      simp
    simp [ioTransportConnect, ioTransportConnectChannel, crowded'.ops, TransportOps.connector,
      ioEndpointSocketNew, arrival, ioEndpointNew, free, bind, Except.bind, World.deref, cells_modify]
  have lists' : (w.spawn .downstream a client next events).Lists := lists.spawn absent _ _ _ _
  obtain ⟨nobody, _⟩ | ⟨server, next', _, ⟨_, fresh', _, _, rfl⟩, _⟩ := connectChannel_ok lists' made
  · cases nobody
  change ioTransportConnect (w.spawn .downstream a client next events) .upstream false (arrival a b) =
    .ok (some b, (w.spawn .downstream a client next events).spawn .upstream b server next' [.created b]) at made
  have owner : ((w.spawn .downstream a client next events).spawn .upstream b server next'
      [.created b]).heap.cells a = some client := by
    rw [cells_spawn, if_neg different.symm, cells_spawn, if_pos rfl]
  have spawned : Crowded n ((w.spawn .downstream a client next events).spawn .upstream b server next'
      [.created b]) := crowded'.spawn vacant' next' [.created b]
  have crowded'' := spawned.adopt (by rw [cells_spawn, if_pos rfl]) (fresh'.idle (crowded'.ops .upstream) (by simp)) a
  have still : Idle .downstream client := fresh.idle (crowded.ops _) fun _ => connected
  have cell := cells_adopt ((w.spawn .downstream a client next events).spawn .upstream b server next'
    [.created b]) b .upstream a a
  rw [owner] at cell
  refine ⟨_, ?_, crowded''.adopt (t := .downstream) cell ⟨still.reading, still.writing,
    still.rxCredit, still.wbuf, still.wqueue, still.open', still.connected⟩ b⟩
  have simplex : client.type ≠ .multiplex := by
    rw [fresh.type, crowded.type]
    decide
  have here : (w.spawn .downstream a client next events).heap.cells a = some client := by
    rw [cells_spawn, if_pos rfl]
  simp only [proxyDownstreamAccept, if_true, accepted, bind, Except.bind, World.deref, here,
    if_neg simplex, acceptSimplex, crowded'.multiplex, made]
  rfl

/-- A round of the main loop in which a client connects. -/
theorem Crowded.round (crowded : Crowded n w) (lists : w.Lists) : ∃ answers w',
    Machine.run step (loopTop w) answers = .ok (loopTop w') ∧ Crowded (n + 1) w' := by
  obtain ⟨a, absent⟩ := Infinite.exists_notMem_finset w.heap.live
  obtain ⟨b, vacant⟩ := Infinite.exists_notMem_finset (insert a w.heap.live)
  have absent' : w.heap.cells a = none := by simpa [w.heap.filled] using absent
  have vacant' : b ≠ a ∧ w.heap.cells b = none := by simpa [w.heap.filled] using vacant
  obtain ⟨info, filled, doio, _⟩ := crowded.fill lists
  obtain ⟨w', accepted, crowded'⟩ := crowded.accept lists absent' vacant'.2 vacant'.1
  refine ⟨List.replicate 4 ({} : Syscalls) ++ ({ polls := some [{ pollin := true }] } ::
    arrival a b :: (List.replicate info.length ({} : Syscalls) ++ [({} : Syscalls)])), w', ?_, crowded'⟩
  have others : (info.mapIdx fun i entry =>
      (entry, entry.reported ([({ pollin := true } : Revents)].getD (i + 1) {}))) =
        info.map fun entry => (entry, {}) := List.ext_getElem (by simp) (by simp [reported_silent])
  have idle := dispatch_idle w' (info.map fun entry => (entry, {})) (by simpa using doio)
  rw [List.length_map] at idle
  rw [Machine.run_append, filled]
  change Machine.run step ⟨w, .dispatch (List.mapIdx _ (_ :: info))⟩ _ = _
  rw [List.mapIdx_cons, others, Machine.run]
  change (proxyDownstreamAccept w 3 { pollin := true } (arrival a b) >>= _) >>= _ = _
  rw [accepted]
  change Machine.run step ⟨w', .dispatch (info.map fun entry => (entry, {}))⟩ _ = _
  rw [Machine.run_append, idle]
  rfl

/-- Any number of clients may connect. -/
theorem crowded_reachable (n : Nat) : ∃ w, Reachable (.unix "up") (.unix "down") (loopTop w) ∧ Crowded n w := by
  induction n with
  | zero =>
    refine ⟨_, ⟨{ listens := some 3 }, _, [], rfl, rfl⟩, rfl, ?_, ?_, ?_, ?_, ?_, rfl⟩
    -- Neither transport has anything yet.
    all_goals intro t
    all_goals cases t
    all_goals first | rfl | exact fun ep listed => absurd listed List.not_mem_nil
  | succ n ih =>
    obtain ⟨w, reached, crowded⟩ := ih
    obtain ⟨answers, w', ran, crowded'⟩ := crowded.round reached.shape.lists
    obtain ⟨setup, start, earlier, done, before⟩ := reached
    refine ⟨w', ⟨setup, start, earlier ++ answers, done, ?_⟩, crowded'⟩
    rw [Machine.run_append, before]
    exact ran

/-- With 129 clients the table is full before the last one. -/
theorem table_overflows : ¬ ∀ (upstream downstream : TransportKind) (s : State),
    Reachable upstream downstream s → s.phase.entries ≤ tableSize ∧ s.SlotsKept := by
  intro claimed
  obtain ⟨w, reached, crowded⟩ := crowded_reachable 129
  obtain ⟨info, filled, _, many⟩ := crowded.fill reached.shape.lists
  obtain ⟨setup, start, answers, done, ran⟩ := reached
  have full := (claimed _ _ _ ⟨setup, start, answers ++ List.replicate 4 ({} : Syscalls), done, by
    rw [Machine.run_append, ran]; exact filled⟩).1
  have length : info.length + 1 ≤ 129 := full
  omega

end Testbus.Proxy
