import Testbus.Proxy.Prompt
import Testbus.Proxy.Slots

namespace Testbus.Proxy

open Lib World

variable {w w' : World} {self : Endpoint} {s s' : State}

def World.handlers (w : World) (t : Side) : DataAvailable := (w.xprt t).dataAvailable

/-- A demultiplexing endpoint may still read. -/
def World.Solvent (hook : Side → DataAvailable) (a : Addr) (w : World) : Prop :=
  ∀ self, w.heap.cells a = some self → hook self.transport = .recvDemux → self.rxCredit ≠ 0

theorem World.Solvent.map {change : Addr → Endpoint → Endpoint} (solvent : w.Solvent hook a)
    (changed : ∀ b, w'.heap.cells b = (w.heap.cells b).map (change b))
    (side : ∀ old, (change a old).transport = old.transport)
    (spent : ∀ old, w.heap.cells a = some old → hook old.transport = .recvDemux →
      old.rxCredit ≤ (change a old).rxCredit) : w'.Solvent hook a := by
  intro new found demux
  rw [changed] at found
  obtain ⟨old, here, rfl⟩ := Option.map_eq_some_iff.mp found
  rw [side] at demux
  have rich := solvent old here demux
  have more := spent old here demux
  omega

theorem World.Solvent.same (solvent : w.Solvent hook a) (heap : w'.heap = w.heap) : w'.Solvent hook a := by
  intro new found
  rw [heap] at found
  exact solvent new found

theorem World.Solvent.modify (solvent : w.Solvent hook a) {change : Endpoint → Endpoint}
    (side : ∀ old : Endpoint, (change old).transport = old.transport)
    (credit : ∀ old : Endpoint, (change old).rxCredit = old.rxCredit) : (w.modify ep change).Solvent hook a := by
  refine solvent.map (cells_modify w ep · change) (fun old => ?_) fun old _ _ => ?_
  · split
    · exact side old
    · rfl
  · split
    · exact Nat.le_of_eq (credit old).symm
    · exact Nat.le_refl _

theorem World.Solvent.charge {mbuf : Mbuf} (solvent : w.Solvent hook a)
    (free : ∀ old, w.heap.cells a = some old → hook old.transport = .recvDemux →
      mbuf.source ≠ some a) (sink : Addr) : (w.charge sink mbuf).Solvent hook a := by
  refine solvent.map (cells_charge w sink mbuf) (fun _ => rfl) fun old here demux => ?_
  rw [if_neg (free old here demux)]
  exact Nat.le_refl _

theorem World.Solvent.clear (solvent : w.Solvent hook a) : (w.clear ep).Solvent hook a :=
  solvent.map (cells_clear w ep) (fun _ => rfl) fun _ _ _ => Nat.le_refl _

theorem World.Solvent.adopt (solvent : w.Solvent hook a) (sink : Addr) : (w.adopt ep t sink).Solvent hook a :=
  solvent.map (cells_adopt w ep t sink) (fun _ => rfl) fun _ _ _ => Nat.le_refl _

theorem World.Solvent.spawn {next : UInt32} (solvent : w.Solvent hook a)
    (rich : self.rxCredit ≠ 0) : (w.spawn t ep self next events).Solvent hook a := by
  intro new found demux
  rw [cells_spawn] at found
  split at found
  · cases found
    exact rich
  · exact solvent new found demux

theorem Endpoint.Fresh.rich {xprt : Transport} (fresh : self.Fresh xprt t) : self.rxCredit ≠ 0 := by
  rw [fresh.rxCredit]
  cases xprt.type <;> decide

theorem World.Solvent.quiet (solvent : w.Solvent hook a) (moved : Quiet w w') : w'.Solvent hook a := by
  cases moved with
  | @pull ep self mbuf rest =>
    exact solvent.map (cells_pull w ep mbuf rest) (fun _ => rfl) fun _ _ _ => Nat.le_add_right _ _
  | @closeRead ep self fd =>
    have shut : (w.shutRead ep self fd).Solvent hook a :=
      solvent.map (cells_shutRead w ep self fd) (fun _ => rfl) fun _ _ _ => Nat.le_refl _
    exact shut.same (heap_settle _ _)
  | @closeWrite ep self fd found =>
    have shut : (w.shutWrite ep self fd).Solvent hook a :=
      solvent.map (cells_shutWrite found fd) (fun _ => rfl) fun _ _ _ => Nat.le_add_right _ _
    exact shut.same (heap_settle _ _)
  | rebury => exact solvent.same (heap_settle _ _)

/-- What is read from others does not use up the credit of an endpoint. -/
theorem World.Solvent.act (solvent : w.Solvent w.handlers a) (acted : Act (.passing a) w w') :
    w'.Solvent w.handlers a := by
  cases acted with
  | quiet moved => exact solvent.quiet moved
  | mark | detach | connect => exact solvent.modify (fun _ => rfl) fun _ => rfl
  | transmit =>
    exact World.Solvent.modify (w := w.emit _) solvent (fun _ => rfl) fun _ => rfl
  | @copied ep self sink other bp found target present handler =>
    refine World.Solvent.charge (w := w.emit _) solvent (fun old here demux => ?_) _
    rintro ⟨⟩
    cases found.symm.trans here
    cases handler.symm.trans demux
  | @framed ep self sink other mbuf bytes found target present handler source =>
    refine World.Solvent.charge (w := w.emit _) solvent (fun old here demux paid => ?_) _
    cases source.symm.trans paid
    cases found.symm.trans here
    cases handler.symm.trans demux
  | @leave ep self sink other fd =>
    have told : (w.charge sink (proxyChannelCloseNew self.channelId)).Solvent w.handlers a := by
      refine solvent.charge (fun _ _ _ => ?_) _
      rintro ⟨⟩
    have shut := told.map (cells_shutRead _ ep self fd) (fun _ => rfl) fun _ _ _ => Nat.le_refl _
    exact shut.same (heap_settle _ _)
  | @receive ep self bp bytes =>
    have read : (w.modify ep fun self => { self with rbuf := some bp }).Solvent w.handlers a :=
      solvent.modify (fun _ => rfl) fun _ => rfl
    exact read.same rfl
  | opened =>
    refine World.Solvent.clear (World.Solvent.adopt (World.Solvent.spawn (w := w.emit _) solvent ?_) _)
    simp [defaultCreditSimplex]
  | ignored => exact World.Solvent.clear (w := w.emit _) solvent
  | closing =>
    exact World.Solvent.clear (World.Solvent.modify (w := w.emit _) solvent (fun _ => rfl) fun _ => rfl)
  | deliver arrived =>
    refine World.Solvent.clear (World.Solvent.charge (w := (w.emit _).emit _) solvent (fun _ _ _ => ?_) _)
    rintro ⟨⟩
    exact arrived.allowed rfl
  | administer => exact solvent.same rfl
  | announced _ _ fresh =>
    refine ((solvent.spawn fresh.rich).charge (fun _ _ _ => ?_) _).adopt _
    rintro ⟨⟩
  | paired _ _ fresh _ _ _ _ _ partner =>
    exact (((solvent.spawn fresh.rich).spawn partner.rich).adopt _).adopt _
  | @multiplexed self sys _ _ _ fresh =>
    have spawned : (w.spawn .downstream sys.acceptedAddr self (w.xprt .downstream).nextChannelId
        [.created sys.acceptedAddr, .accepted self.channelId]).Solvent w.handlers a := solvent.spawn fresh.rich
    exact spawned.same rfl
  | @flush ep self t found =>
    exact solvent.map (cells_flush found t) (fun _ => rfl) fun _ _ _ => Nat.le_add_right _ _
  | release =>
    intro new found demux
    rw [cells_release] at found
    split at found
    · cases found
    · exact solvent new found demux

theorem handlers_acts (acted : Acts G w w') : w'.handlers = w.handlers :=
  funext fun t => (acted.setup t).dataAvailable

theorem World.Solvent.acts (solvent : w.Solvent w.handlers a) (acted : Acts (.passing a) w w') :
    w'.Solvent w'.handlers a := by
  induction acted with
  | refl => exact solvent
  | tail before last ih =>
    rw [handlers_acts (.single last)]
    exact ih.act last

theorem World.Solvent.step (shape : s.world.Shape) (other : s.demuxes ≠ some a)
    (solvent : s.world.Solvent s.world.handlers a) (moved : step s sys = .ok s') :
    s'.world.Solvent s'.world.handlers a := by
  refine step_passing (fun w => w.Solvent w.handlers a) shape other ?_ ?_ solvent moved
  · intro w w' solvent acted
    exact solvent.acts acted
  · intro w absent self found
    cases absent.symm.trans found

section Readers

variable {entry : PollInfo}

/-- The endpoint whose read handler the entry may call. -/
def PollInfo.reader (entry : PollInfo) : Option Addr := if entry.pollin then entry.ep else none

def readers (info : List PollInfo) : List Addr := info.filterMap PollInfo.reader

def Phase.readers : Phase → List Addr
  | .prepare _ info | .collect _ info | .poll info => Proxy.readers info
  | .dispatch ready => ready.filterMap fun slot => if slot.2.pollin then slot.1.ep else none
  | .done => []

theorem poll_readers (polled : ioEndpointPoll w ep = .ok info) :
    (readers info).Sublist [ep] ∧ (ep ∈ readers info → ∀ self, w.heap.cells ep = some self → self.rxCredit ≠ 0) := by
  obtain ⟨self, dereffed, _⟩ := bind_ok.mp polled
  have found := deref_ok.mp dereffed
  have reads : readers info = [] ∨ readers info = [ep] ∧ self.mayRead = true := by
    obtain ⟨_, rfl⟩ | ⟨_, _, _, ⟨_, rfl⟩ | ⟨_, rfl⟩⟩ := ioEndpointPoll_ok found polled
    · exact .inl rfl
    · cases may : self.mayRead <;> cases self.wbuf <;> simp [readers, PollInfo.reader]
    · cases may : self.mayRead <;> cases self.rfd <;> cases self.wfd <;> cases self.wbuf <;>
        simp [readers, PollInfo.reader]
  rcases reads with none' | ⟨one, may⟩
  · rw [none']
    exact ⟨List.nil_sublist _, nofun⟩
  · rw [one]
    refine ⟨.refl _, fun _ same cell => ?_⟩
    cases found.symm.trans cell
    simp only [Endpoint.mayRead, Bool.and_eq_true, decide_eq_true_eq] at may
    exact may.2

theorem pollAll_readers (polled : pollAll w members = .ok info) :
    (readers info).Sublist members ∧ ∀ a ∈ readers info, ∀ self, w.heap.cells a = some self → self.rxCredit ≠ 0 := by
  induction members generalizing info with
  | nil =>
    cases polled
    exact ⟨.slnil, by simp [readers]⟩
  | cons ep rest ih =>
    obtain ⟨first, polled', later⟩ := bind_ok.mp polled
    obtain ⟨others, polled'', done⟩ := bind_ok.mp later
    cases done
    obtain ⟨here, rich⟩ := poll_readers polled'
    obtain ⟨there, rich'⟩ := ih polled''
    have split : readers (first ++ others) = readers first ++ readers others := List.filterMap_append
    rw [split]
    refine ⟨here.append there, fun a member => ?_⟩
    rcases List.mem_append.mp member with early | late
    · obtain rfl := List.mem_singleton.mp (here.subset early)
      exact rich early
    · exact rich' a late

/-- No endpoint is to be read from twice, and all of them have credit left. -/
structure State.Solvent (s : State) : Prop where
  once : s.phase.readers.Nodup
  rich : ∀ a ∈ s.phase.readers, s.world.Solvent s.world.handlers a

theorem readers_append (first second : List PollInfo) :
    readers (first ++ second) = readers first ++ readers second := List.filterMap_append

theorem readers_listening (w : World) : readers (listening w) = [] := by
  unfold listening
  split
  · rfl
  · rfl

theorem solvent_loopTop (w : World) : (loopTop w).Solvent := by
  have silent : (loopTop w).phase.readers = [] := readers_listening w
  exact ⟨silent ▸ List.nodup_nil, fun a member => by rw [silent] at member; cases member⟩

/-- What poll reports of the entries are no other readers. -/
theorem dispatch_readers (info : List PollInfo) (revents : Nat → Revents) :
    ((info.mapIdx fun i entry => (entry, entry.reported (revents i))).filterMap fun slot =>
      if slot.2.pollin then slot.1.ep else none).Sublist (readers info) := by
  induction info generalizing revents with
  | nil => exact .slnil
  | cons entry rest ih =>
    have later := ih fun i => revents (i + 1)
    unfold readers at later ⊢
    rw [List.mapIdx_cons, List.filterMap_cons, List.filterMap_cons]
    by_cases asked : entry.pollin = true
    · simp only [PollInfo.reader, asked, if_true]
      cases entry.ep with
      | none => simpa using later
      | some ep =>
        cases (entry.reported (revents 0)).pollin with
        | true => exact later.cons_cons ep
        | false => exact later.cons ep
    · have silent : (entry.reported (revents 0)).pollin = false := by
        unfold PollInfo.reported
        split
        · rfl
        · simp [asked]
      simp only [PollInfo.reader, asked, silent]
      exact later

theorem mem_readers (member : a ∈ readers info) : ∃ entry ∈ info, entry.ep = some a := by
  obtain ⟨entry, listed, reads⟩ := List.mem_filterMap.mp member
  unfold PollInfo.reader at reads
  split at reads
  · exact ⟨entry, listed, reads⟩
  · cases reads

theorem World.Lists.members_once (lists : w.Lists) (t : Side) :
    ((w.xprt t).multiplex.toList ++ (w.xprt t).epList).Nodup := by
  cases link : (w.xprt t).multiplex with
  | none => exact lists.listedOnce t
  | some ep => exact List.nodup_cons.mpr ⟨(lists.link t ep link).1, lists.listedOnce t⟩

theorem World.Lists.member_side (lists : w.Lists) (member : a ∈ (w.xprt t).multiplex.toList ++ (w.xprt t).epList) :
    ∃ self, w.heap.cells a = some self ∧ self.transport = t := by
  rcases List.mem_append.mp member with link | listed
  · obtain ⟨_, self, found, side, _⟩ := lists.link t a (by simpa using link)
    exact ⟨self, found, side⟩
  · obtain ⟨self, found, side, _⟩ := lists.listed t a listed
    exact ⟨self, found, side⟩

theorem demuxes_handler (demuxes : s.demuxes = some ep) (found : s.world.heap.cells ep = some self) :
    (s.world.xprt self.transport).dataAvailable = .recvDemux := by
  simp only [State.demuxes, Option.bind_eq_bind, Option.bind_eq_some_iff] at demuxes
  obtain ⟨a, _, same, cell, here⟩ := demuxes
  split at here
  · rename_i handler
    cases here
    cases found.symm.trans cell
    exact handler
  · cases here

theorem demuxes_reads_some (demuxes : s.demuxes = some ep) : s.reads = some ep := by
  simp only [State.demuxes, Option.bind_eq_bind, Option.bind_eq_some_iff] at demuxes
  obtain ⟨a, reads, self, _, here⟩ := demuxes
  split at here
  · cases here
    exact reads
  · cases here

/-- An endpoint that is read from is the reader of the slot. -/
theorem reads_slot (reads : State.reads ⟨w, .dispatch (slot :: others)⟩ = some a) :
    (if slot.2.pollin then slot.1.ep else none) = some a := by
  obtain ⟨⟨handler, ep', fd, pollin, pollout⟩, revents⟩ := slot
  simp only [State.reads] at reads
  split at reads
  · rename_i same
    cases same
    split at reads
    · rename_i ready
      cases reads
      rw [if_pos (Bool.and_eq_true_iff.mp ready).1]
    · cases reads
  · cases reads

theorem demuxes_reader (demuxes : s.demuxes = some ep) : ep ∈ s.phase.readers := by
  obtain ⟨w, phase⟩ := s
  have reads := demuxes_reads_some demuxes
  cases phase with
  | dispatch ready =>
    cases ready with
    | nil => cases reads
    | cons slot others =>
      rw [Phase.readers, List.filterMap_cons, reads_slot reads]
      exact List.mem_cons_self
  | prepare | collect | poll | done => cases reads

/-- What is collected are other endpoints than those of the table, each of them once. -/
theorem collect_readers (shape : w.Shape) (tabled : State.Tabled ⟨w, .collect t info⟩) (once : (readers info).Nodup)
    (collected : ioTransportPollCollect w t = .ok (w', more)) :
    (readers (info ++ more)).Nodup ∧ ∀ a ∈ readers more, ∀ self, w'.heap.cells a = some self → self.rxCredit ≠ 0 := by
  obtain ⟨purged, polled⟩ := pollCollect_ok collected
  have lists : w'.Lists := shape.lists.acts (transportPurge_acts (G := .free) shape (fun _ _ _ => trivial) purged)
  obtain ⟨fewer, rich⟩ := pollAll_readers polled
  refine ⟨?_, rich⟩
  rw [readers_append]
  refine once.append ((lists.members_once t).sublist fewer) fun a early late => ?_
  obtain ⟨entry, member, names⟩ := mem_readers early
  obtain ⟨others, split, entered⟩ := tabled
  have listed : entry ∈ others := by
    rw [split] at member
    refine (List.mem_append.mp member).resolve_left fun listens => ?_
    unfold listening at listens
    split at listens
    · cases listens
    · cases List.mem_singleton.mp listens
      cases names
  obtain ⟨ep, self, entered, side, rfl⟩ := entered entry listed
  cases entered.names.symm.trans names
  obtain ⟨left, entered', side'⟩ := entered.purge shape side purged
  obtain ⟨other, found, side''⟩ := lists.member_side (fewer.subset late)
  cases entered'.found.symm.trans found
  cases side'.symm.trans side''

/-- The readers of the table stay solvent until it is their turn. -/
theorem State.Solvent.step (shape : s.world.Shape) (tabled : s.Tabled) (solvent : s.Solvent)
    (moved : step s sys = .ok s') : s'.Solvent := by
  obtain ⟨w, phase⟩ := s
  cases phase with
  | prepare t info =>
    have rich : ∀ a ∈ readers info, s'.world.Solvent s'.world.handlers a :=
      fun a member => (solvent.rich a member).step shape (by simp [State.demuxes, State.reads]) moved
    obtain ⟨after, prepared, rest⟩ := bind_ok.mp moved
    cases rest
    exact ⟨solvent.once, rich⟩
  | collect t info =>
    have rich : ∀ a ∈ readers info, s'.world.Solvent s'.world.handlers a :=
      fun a member => (solvent.rich a member).step shape (by simp [State.demuxes, State.reads]) moved
    obtain ⟨⟨after, more⟩, collected, rest⟩ := bind_ok.mp moved
    obtain ⟨once, richer⟩ := collect_readers shape tabled solvent.once collected
    have table : ∀ a ∈ readers (info ++ more), after.Solvent after.handlers a := by
      intro a member
      rw [readers_append] at member
      rcases List.mem_append.mp member with early | late
      · cases rest
        exact rich a early
      · exact fun self found _ => richer a late self found
    cases t <;> cases rest <;> exact ⟨once, table⟩
  | poll info =>
    cases info with
    | nil =>
      cases moved
      exact ⟨List.nodup_nil, fun a member => by cases member⟩
    | cons first others =>
      unfold Proxy.step at moved
      dsimp only at moved
      split at moved
      · cases moved
        exact solvent_loopTop w
      · cases moved
        rename_i revents _
        have fewer := dispatch_readers (first :: others) (revents.getD · {})
        exact ⟨solvent.once.sublist fewer, fun a member => solvent.rich a (fewer.subset member)⟩
  | dispatch ready =>
    cases ready with
    | nil =>
      cases moved
      exact solvent_loopTop w
    | cons slot others =>
      obtain ⟨info, revents⟩ := slot
      -- Whoever is read from now is not among the readers that are left.
      have apart : ∀ a ∈ Phase.readers (.dispatch others),
          State.demuxes ⟨w, .dispatch ((info, revents) :: others)⟩ ≠ some a := by
        intro a member demuxes
        have reads := reads_slot (demuxes_reads_some demuxes)
        have once := solvent.once
        rw [Phase.readers, List.filterMap_cons, reads] at once
        exact (List.nodup_cons.mp once).1 member
      have fewer : (Phase.readers (.dispatch others)).Sublist
          (Phase.readers (.dispatch ((info, revents) :: others))) := (List.sublist_cons_self _ _).filterMap _
      have rich : ∀ a ∈ Phase.readers (.dispatch others), s'.world.Solvent s'.world.handlers a :=
        fun a member => (solvent.rich a (fewer.subset member)).step shape (apart a member) moved
      obtain ⟨after, handled, rest⟩ := bind_ok.mp moved
      cases rest
      exact ⟨solvent.once.sublist fewer, rich⟩
  | done =>
    cases moved
    exact solvent

end Readers

end Testbus.Proxy
