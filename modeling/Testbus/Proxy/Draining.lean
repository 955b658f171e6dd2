import Testbus.Proxy.Credit
import Testbus.Proxy.Listed

/-! Where charged messages wait: credit comes back only from the queue of an endpoint that is
polled for output and written to. -/

namespace Testbus.Proxy

open Lib World

variable {w w' : World}

/-- The message gives credit back when it leaves its queue. -/
def Mbuf.charged (mbuf : Mbuf) : Bool := mbuf.source.isSome && decide (mbuf.credit ≠ 0)

def Endpoint.charged (self : Endpoint) : Bool := self.wqueue.any Mbuf.charged

/-- The descriptor that is polled for output is open, and is the one that is written to. -/
def Endpoint.writes (self : Endpoint) : Bool := self.wfd.isSome && decide (self.rfd = self.wfd)

def Endpoint.drains (self : Endpoint) : Bool := self.connected && self.writes

/-- No charged message waits at an endpoint that can no longer write. -/
def World.Unstranded (w : World) : Prop :=
  ∀ a self, w.heap.cells a = some self → self.charged = true → self.drains = true

/-- `io_endpoint_poll` asks for output on the descriptor that is written to exactly if the
endpoint drains. -/
theorem ioEndpointPoll_drains (found : w.heap.cells ep = some self) (buffer : self.wbuf = some bp) (polled : ioEndpointPoll w ep = .ok entries) :
    self.drains = true ↔ ∃ entry ∈ entries, entry.ep = some ep ∧ entry.pollout = true ∧
      entry.fd.isSome ∧ entry.fd = self.wfd := by
  obtain ⟨same, dereffed, polled⟩ := bind_ok.mp polled
  cases (deref_ok.mp dereffed).symm.trans found
  simp only [Endpoint.drains, Endpoint.writes, Bool.and_eq_true, decide_eq_true_eq]
  split at polled
  · rename_i dead
    cases polled
    simp only [Endpoint.dead, Bool.and_eq_true, Option.isNone_iff_eq_none] at dead
    simp [dead.2]
  · split at polled
    · rename_i idle
      cases polled
      simp only [Bool.not_eq_true', Bool.eq_false_iff] at idle
      simp [idle]
    · rename_i connected
      have linked : self.connected = true := by simpa using connected
      split at polled
      · cases polled
      · rename_i full
        have bytes : bp.count ≠ 0 := by simpa [buffer] using full
        split at polled
        · rename_i one
          simp only [buffer, Option.isSome_some, Bool.or_true, if_true] at polled
          cases polled
          simp [linked, one]
        · rename_i two
          cases polled
          simp only [linked, two, and_false, false_iff, not_exists, not_and]
          intro entry member owner asked opened equal
          rcases List.mem_append.mp member with read | write
          · split at read
            · rw [List.mem_singleton.mp read] at asked
              cases asked
            · cases read
          · split at write
            · rw [List.mem_singleton.mp write] at equal
              exact two equal
            · cases write

/-- The charged messages an endpoint has afterwards were there before, and it still drains if it
did. -/
def SteadyAt (a : Addr) (w w' : World) : Prop :=
  ∀ new, w'.heap.cells a = some new → new.charged = true →
    ∃ old, w.heap.cells a = some old ∧ old.charged = true ∧
      (old.drains = true → new.drains = true)

def Steady (w w' : World) : Prop := ∀ a, SteadyAt a w w'

theorem World.Unstranded.steady (unstranded : w.Unstranded) (steady : Steady w w') : w'.Unstranded := by
  intro a new found charged
  obtain ⟨old, cell, before, kept⟩ := steady a new found charged
  exact kept (unstranded a old cell before)

theorem SteadyAt.trans (first : SteadyAt a w middle) (second : SteadyAt a middle w') : SteadyAt a w w' := by
  intro new found charged
  obtain ⟨left, between, charged', kept'⟩ := second new found charged
  obtain ⟨old, before, charged'', kept⟩ := first left between charged'
  exact ⟨old, before, charged'', fun drains => kept' (kept drains)⟩

theorem Steady.trans (first : Steady w middle) (second : Steady middle w') : Steady w w' :=
  fun a => (first a).trans (second a)

theorem Steady.heap (same : w'.heap = w.heap) : Steady w w' := by
  intro a new found charged
  rw [same] at found
  exact ⟨new, found, charged, id⟩

theorem Steady.refl (w : World) : Steady w w := .heap rfl

theorem SteadyAt.empty (empty : ∀ new, w'.heap.cells a = some new → new.charged = false) : SteadyAt a w w' := by
  intro new found charged
  rw [empty new found] at charged
  cases charged

theorem SteadyAt.map {change : Addr → Endpoint → Endpoint}
    (changed : ∀ a, w'.heap.cells a = (w.heap.cells a).map (change a))
    (kept : ∀ old, w.heap.cells a = some old → (change a old).charged = true →
      old.charged = true ∧ (old.drains = true → (change a old).drains = true)) :
    SteadyAt a w w' := by
  intro new found charged
  rw [changed] at found
  obtain ⟨old, cell, rfl⟩ := Option.map_eq_some_iff.mp found
  exact ⟨old, cell, kept old cell charged⟩

theorem Steady.modify {change : Endpoint → Endpoint}
    (kept : ∀ old, w.heap.cells ep = some old → (change old).charged = true →
      old.charged = true ∧ (old.drains = true → (change old).drains = true)) :
    Steady w (w.modify ep change) := by
  intro a
  refine SteadyAt.map (cells_modify w ep · change) ?_
  intro old found charged
  by_cases here : a = ep
  · subst here
    simp only [if_true] at charged ⊢
    exact kept old found charged
  · simp only [here, if_false] at charged ⊢
    exact ⟨charged, id⟩

theorem Steady.pull {rest : List Mbuf} (found : w.heap.cells ep = some self)
    (queue : self.wqueue = mbuf :: rest) : Steady w (w.pull ep mbuf rest) := by
  intro a
  refine SteadyAt.map (cells_pull w ep mbuf rest) ?_
  intro old cell charged
  refine ⟨?_, id⟩
  by_cases here : a = ep
  · subst here
    cases found.symm.trans cell
    simp only [Endpoint.charged, if_true] at charged
    simp [Endpoint.charged, queue, charged]
  · simpa [Endpoint.charged, here] using charged

theorem Pulled.steady (pulled : Pulled w ep w') : Steady w w' := by
  cases pulled with
  | same => exact .refl w
  | pull found idle queue => exact .pull found queue

theorem cells_shutWrite_self (found : w.heap.cells ep = some self) (fd : Fd) (cell : (w.shutWrite ep self fd).heap.cells ep = some new) : new.charged = false := by
  rw [cells_shutWrite found, found] at cell
  cases cell
  simp [Endpoint.charged]

theorem Steady.shutWrite (found : w.heap.cells ep = some self) (fd : Fd) : Steady w (w.shutWrite ep self fd) := by
  intro a
  by_cases here : a = ep
  · subst here
    exact .empty fun new cell => cells_shutWrite_self found fd cell
  · refine SteadyAt.map (cells_shutWrite found fd) ?_
    intro old _ charged
    refine ⟨by simpa [Endpoint.charged, here] using charged, ?_⟩
    simp [Endpoint.drains, Endpoint.writes, here]

theorem SteadyAt.shutRead (different : a ≠ ep) (self : Endpoint) (fd : Fd) : SteadyAt a w (w.shutRead ep self fd) := by
  refine .map (cells_shutRead w ep self fd) ?_
  intro old _ charged
  exact ⟨charged, by simp [Endpoint.drains, Endpoint.writes, different]⟩

theorem shutdownWrite_steady (shut : shutdownWrite w ep = .ok w') : Steady w w' := by
  obtain ⟨self, found, ⟨_, rfl⟩ | ⟨middle, left, fd, _, pulled, cell, _, _, _, rfl⟩⟩ := shutdownWrite_ok shut
  · exact .refl w'
  · exact pulled.steady.trans (.shutWrite cell fd)

theorem shutdown_wr_steady (shut : ioEndpointShutdown w ep .wr = .ok w') : Steady w w' := by
  obtain ⟨middle, written, buried⟩ := bind_ok.mp shut
  obtain ⟨_, _, rfl⟩ := buryDead_ok buried
  exact (shutdownWrite_steady written).trans (.heap (heap_settle _ _))

theorem shutdownRead_steadyAt (different : a ≠ ep) (shut : shutdownRead w ep = .ok w') : SteadyAt a w w' := by
  obtain ⟨self, found, ⟨_, rfl⟩ | ⟨fd, _, rfl⟩⟩ := shutdownRead_ok shut
  · exact Steady.refl w' a
  · exact .shutRead different self fd

theorem shutdown_rdwr_steady (shut : ioEndpointShutdown w ep .rdwr = .ok w') : Steady w w' := by
  obtain ⟨first, read, rest⟩ := bind_ok.mp shut
  obtain ⟨second, written, buried⟩ := bind_ok.mp rest
  obtain ⟨_, _, rfl⟩ := buryDead_ok buried
  intro a
  refine SteadyAt.trans ?_ (Steady.heap (heap_settle second ep) a)
  by_cases here : a = ep
  · subst here
    obtain ⟨self, cell, ⟨closed, rfl⟩ | ⟨middle, left, fd, _, pulled, cell', _, _, _, rfl⟩⟩ := shutdownWrite_ok written
    · obtain ⟨old, found, ⟨_, rfl⟩ | ⟨fd, _, rfl⟩⟩ := shutdownRead_ok read
      · exact Steady.refl second a
      · -- The write side was closed before, so the endpoint did not drain.
        rw [cells_shutRead_self found] at cell
        cases cell
        have shut : old.wfd = none := closed
        refine SteadyAt.map (cells_shutRead w a old fd) ?_
        intro same found' charged
        cases found.symm.trans found'
        exact ⟨charged, by simp [Endpoint.drains, Endpoint.writes, shut]⟩
    · exact .empty fun new cell => cells_shutWrite_self cell' fd cell
  · exact (shutdownRead_steadyAt here read).trans (shutdownWrite_steady written a)

theorem shutdown_rd_steadyAt (different : a ≠ ep) (shut : ioEndpointShutdown w ep .rd = .ok w') : SteadyAt a w w' := by
  obtain ⟨middle, read, buried⟩ := bind_ok.mp shut
  obtain ⟨_, _, rfl⟩ := buryDead_ok buried
  exact (shutdownRead_steadyAt different read).trans (Steady.heap (heap_settle _ _) a)

theorem shutdown_rd_queue (found : w.heap.cells ep = some self) (shut : ioEndpointShutdown w ep .rd = .ok w') :
    w'.heap.cells ep = some { self with rfd := none } := by
  obtain ⟨middle, read, buried⟩ := bind_ok.mp shut
  obtain ⟨_, _, rfl⟩ := buryDead_ok buried
  rw [heap_settle]
  obtain ⟨same, found', ⟨closed, rfl⟩ | ⟨fd, _, rfl⟩⟩ := shutdownRead_ok read
  · cases found.symm.trans found'
    rw [found, ← closed]
  · cases found.symm.trans found'
    exact cells_shutRead_self found fd

theorem shutdown_rd_steady (found : w.heap.cells ep = some self) (empty : self.charged = false)
    (shut : ioEndpointShutdown w ep .rd = .ok w') : Steady w w' := by
  intro a
  by_cases here : a = ep
  · subst here
    refine .empty fun new cell => ?_
    cases (shutdown_rd_queue found shut).symm.trans cell
    exact empty
  · exact shutdown_rd_steadyAt here shut

/-- What a pullup leaves on the queue. -/
def Endpoint.afterPullup (self : Endpoint) : List Mbuf :=
  if self.wbuf.isSome then self.wqueue else self.wqueue.tail

/-- Half-closing an endpoint strands nothing if one message at most is charged, and the first. -/
theorem halfclose_steady (found : w.heap.cells ep = some self) (empty : self.afterPullup.any Mbuf.charged = false)
    (closed : ioEndpointHalfclose w ep = .ok w') : Steady w w' := by
  obtain ⟨_, _, rest⟩ := bind_ok.mp closed
  obtain ⟨⟨pending, middle⟩, pulled, shut⟩ := bind_ok.mp rest
  have marked : Steady w (w.modify ep fun self => { self with shutdownWrite := true }) :=
    .modify fun old _ charged => ⟨charged, id⟩
  have here := cells_modify w ep ep fun self => { self with shutdownWrite := true }
  rw [found] at here
  refine marked.trans ((pullup_pulled pulled).steady.trans ?_)
  obtain ⟨same, cell, ⟨bp, buffer, _, rfl, rfl⟩ | ⟨_, _, rfl, rfl⟩ |
    ⟨mbuf, others, idle, queue, rfl, rfl⟩⟩ := pullup_ok pulled
  · cases here.symm.trans cell
    have full : self.wbuf = some bp := by simpa using buffer
    refine shutdown_rd_steady cell ?_ shut
    simpa [Endpoint.afterPullup, Endpoint.charged, full] using empty
  · exact shutdown_rdwr_steady shut
  · cases here.symm.trans cell
    have blank : self.wbuf = none := by simpa using idle
    have queued : self.wqueue = mbuf :: others := by simpa using queue
    have pulledCell := cells_pull (w.modify ep fun self => { self with shutdownWrite := true }) ep mbuf others ep
    rw [here] at pulledCell
    refine shutdown_rd_steady pulledCell ?_ shut
    simpa [Endpoint.afterPullup, Endpoint.charged, blank, queued] using empty

variable {members : List Addr}

theorem Steady.clear (w : World) (ep : Addr) : Steady w (w.clear ep) := .modify fun _ _ charged => ⟨charged, id⟩

theorem Steady.discard (found : w.heap.cells ep = some self) : Steady w (w.discard ep self.wqueue) := by
  intro a
  refine SteadyAt.map (cells_discard found) ?_
  intro old _ charged
  refine ⟨?_, id⟩
  by_cases here : a = ep
  · simp [Endpoint.charged, here] at charged
  · simpa [Endpoint.charged, here] using charged

theorem Detached.steady (detached : Detached w ep sink w') : Steady w w' := by
  cases detached with
  | single | apart => exact .refl w
  | partner found paired shut =>
    exact (shutdown_rdwr_steady shut).trans (.modify fun _ _ charged => ⟨charged, id⟩)

theorem Steady.release (w : World) (ep : Addr) (t : Side) : Steady w (w.release ep t) := by
  intro a new found charged
  rw [cells_release] at found
  split at found
  · cases found
  · exact ⟨new, found, charged, id⟩

theorem free_steady (freed : ioEndpointFree w ep = .ok w') : Steady w w' := by
  obtain ⟨self, middle, found, detached, rfl⟩ := free_ok freed
  have cell := cells_clear w ep ep
  rw [found] at cell
  exact ((Steady.clear w ep).trans (.discard cell)).trans (detached.steady.trans (.release middle ep self.transport))

theorem purgeMembers_steady (purged : purgeMembers w t pos members = .ok w') : Steady w w' := by
  induction members generalizing w with
  | nil => cases purged; exact .refl _
  | cons cur rest ih =>
    obtain ⟨self, _, purged⟩ := bind_ok.mp purged
    split at purged
    · obtain ⟨middle, freed, later⟩ := bind_ok.mp purged
      have dropped : Steady w (w.modifyXprt t fun xprt => pos.drop cur xprt) := .heap rfl
      exact dropped.trans ((free_steady freed).trans (ih later))
    · exact ih purged

theorem transportPurge_steady (purged : ioTransportPurge w t = .ok w') : Steady w w' := by
  obtain ⟨first, listed, rest⟩ := bind_ok.mp purged
  obtain ⟨second, garbage, link⟩ := bind_ok.mp rest
  exact (purgeMembers_steady listed).trans ((purgeMembers_steady garbage).trans (purgeMembers_steady link))

theorem pollPrepare_steady (done : ioEndpointPollPrepare w ep = .ok w') : Steady w w' := by
  obtain ⟨self, _, rest⟩ := bind_ok.mp done
  split at rest
  · obtain ⟨⟨pending, middle⟩, pulled, rest⟩ := bind_ok.mp rest
    have first : Steady w middle := (pullup_pulled pulled).steady
    dsimp only at rest
    split at rest
    · exact first.trans (shutdown_wr_steady rest)
    · cases rest
      exact first
  · cases rest
    exact .refl w

theorem pollPrepareAll_steady (done : pollPrepareAll w t members = .ok w') : Steady w w' := by
  induction members generalizing w with
  | nil => cases done; exact .refl _
  | cons other rest ih =>
    obtain ⟨middle, first, later⟩ := bind_ok.mp done
    split at later
    · exact (pollPrepare_steady first).trans (ih later)
    · cases later
      exact pollPrepare_steady first

theorem transportPrepare_steady (done : ioTransportPollPrepare w t = .ok w') : Steady w w' := by
  unfold ioTransportPollPrepare at done
  have linkFirst : ∃ middle, Steady w middle ∧ (do
      let w ← pollPrepareAll middle t (middle.xprt t).epList
      ioEndpointListPurge w t .epList) = (.ok w' : Except Fault World) := by
    split at done
    · exact ⟨w, .refl w, done⟩
    · obtain ⟨middle, readied, done⟩ := bind_ok.mp done
      obtain ⟨after, purged, done⟩ := bind_ok.mp done
      exact ⟨after, (pollPrepare_steady readied).trans (purgeMembers_steady purged), done⟩
  obtain ⟨middle, before, rest⟩ := linkFirst
  obtain ⟨after, prepared, purged⟩ := bind_ok.mp rest
  exact before.trans ((pollPrepareAll_steady prepared).trans (purgeMembers_steady purged))

theorem Linked.steady (linked : Linked w sink self w') : Steady w w' := by
  cases linked with
  | already => exact .refl w
  | now =>
    refine .modify fun old _ charged => ⟨charged, ?_⟩
    simp only [Endpoint.drains, Bool.true_and, Bool.and_eq_true]
    exact And.right

theorem Linked.connects (found : w.heap.cells sink = some self) (linked : Linked w sink self w') :
    w'.heap.cells sink = some { self with connected := true } := by
  cases linked with
  | already connected => rw [found, ← connected]
  | now =>
    rw [World.connect, cells_modify, found]
    simp

theorem Steady.charge (sink : Addr) (free : mbuf.charged = false) : Steady w (w.charge sink mbuf) := by
  intro a
  refine SteadyAt.map (cells_charge w sink mbuf) ?_
  intro old _ charged
  refine ⟨?_, id⟩
  by_cases here : a = sink <;> simpa [Endpoint.charged, here, free] using charged

theorem World.Unstranded.queueWrite (unstranded : w.Unstranded)
    (writes : mbuf.charged = true → ∀ other, w.heap.cells sink = some other → other.writes = true)
    (queued : ioEndpointQueueWrite w sink mbuf sys = .ok w') : w'.Unstranded := by
  obtain ⟨self, middle, found, linked, _, rfl⟩ := queueWrite_ok queued
  have before : middle.Unstranded := unstranded.steady linked.steady
  by_cases free : mbuf.charged = false
  · exact before.steady (.charge sink free)
  · intro a new cell charged
    rw [cells_charge] at cell
    obtain ⟨old, cell', rfl⟩ := Option.map_eq_some_iff.mp cell
    by_cases here : a = sink
    · subst here
      cases (linked.connects found).symm.trans cell'
      have open' := writes (by simpa using free) self found
      simpa [Endpoint.drains, Endpoint.writes] using open'
    · exact before a old cell' (by simpa [Endpoint.charged, here] using charged)

variable {revents : Revents}

theorem Steady.spawn (self : Endpoint) (empty : self.wqueue = []) (t : Side) (ep : Addr)
    (next : UInt32) (events : List Event) : Steady w (w.spawn t ep self next events) := by
  intro a new found charged
  rw [cells_spawn] at found
  split at found
  · cases found
    simp [Endpoint.charged, empty] at charged
  · exact ⟨new, found, charged, id⟩

theorem connectChannel_steady (lists : w.Lists) (connected : ioTransportConnectChannel w t channel now sys = .ok (created, w')) : Steady w w' := by
  obtain ⟨_, next, events, _, rfl⟩ | ⟨self, next, _, spawned, _⟩ := connectChannel_ok lists connected
  · exact .heap rfl
  · rw [spawned.result]
    exact .spawn self spawned.fresh.wqueue _ _ _ _

theorem Steady.link (w : World) (ep : Addr) (t : Side) (list : ListName) :
    Steady w (ioEndpointLink w ep t list) := .heap (heap_link w ep t list)

theorem acceptMultiplex_steady (done : acceptMultiplex w ep sys = .ok w') : Steady w w' := by
  unfold acceptMultiplex at done
  split at done
  · cases done
  · dsimp only at done
    split at done
    · split at done
      · cases done
        exact .heap rfl
      · exact free_steady done
    · cases done
      exact .heap rfl

theorem acceptSimplex_unstranded (lists : w.Lists) (unstranded : w.Unstranded)
    (done : acceptSimplex w ep sys = .ok w') : w'.Unstranded := by
  obtain ⟨self, _, rest⟩ := bind_ok.mp done
  have adopted : ∀ (before : World) (upstream : Addr), Steady before
      ((ioEndpointLink before ep .downstream .epList).modify ep fun self =>
        { self with sink := some upstream }) := fun before upstream =>
    (Steady.link before ep .downstream .epList).trans (.modify fun _ _ charged => ⟨charged, id⟩)
  split at rest
  · obtain ⟨after, queued, rest⟩ := bind_ok.mp rest
    cases rest
    refine (unstranded.queueWrite ?_ queued).steady (adopted _ _)
    nofun
  · obtain ⟨⟨created, middle⟩, connected, rest⟩ := bind_ok.mp rest
    have before := unstranded.steady (connectChannel_steady lists connected)
    cases created with
    | none => exact before.steady (free_steady rest)
    | some upstream =>
      cases rest
      have paired : Steady middle (middle.modify upstream fun other =>
          { other with sink := some ep }) := .modify fun _ _ charged => ⟨charged, id⟩
      exact before.steady (paired.trans ((Steady.link _ _ _ _).trans (adopted _ _)))

theorem downstreamAccept_unstranded (lists : w.Lists)
    (unstranded : w.Unstranded) (done : proxyDownstreamAccept w fd revents sys = .ok w') : w'.Unstranded := by
  unfold proxyDownstreamAccept at done
  split at done
  · obtain ⟨⟨accepted, middle⟩, taken, rest⟩ := bind_ok.mp done
    obtain ⟨rfl, next, -, rfl⟩ | ⟨self, rfl, _, absent, fresh, _, rfl, _⟩ := ioTransportAccept_ok taken
    · cases rest
      exact unstranded.steady (.heap rfl)
    · obtain ⟨same, _, rest⟩ := bind_ok.mp rest
      have spawned := unstranded.steady (.spawn self fresh.wqueue .downstream sys.acceptedAddr
        (if (w.xprt .downstream).type = .simplex then (w.xprt .downstream).nextChannelId + 1
          else (w.xprt .downstream).nextChannelId)
        [.created sys.acceptedAddr, .accepted self.channelId])
      split at rest
      · exact spawned.steady (acceptMultiplex_steady rest)
      · exact acceptSimplex_unstranded (lists.spawn absent ..) spawned rest
  · cases done
    exact unstranded

def World.writes (w : World) (a : Addr) : Bool := (w.heap.cells a).any Endpoint.writes

/-- The call that reads from an endpoint shuts down its write side as well. -/
def Revents.closesWrite (revents : Revents) (sys : Syscalls) : Bool :=
  revents.pollhup || (revents.pollout && decide (sys.write = .epipe))

/-- Bytes are queued to a sink that writes; at the end of the input no charged message waits,
or none will. -/
def readStrandless (w : World) (self : Endpoint) (closing : Bool) : Option Bytes → Bool
  | none => true
  | some [] => !self.charged || closing
  | some _ => self.sink.any w.writes

/-- An endpoint that is half-closed has no charged message but the first. -/
def halfcloseStrandless (self : Endpoint) : Bool := !self.afterPullup.any Mbuf.charged

/-- Half-closing the endpoint leaves it with no open descriptor. -/
def Endpoint.finished (self : Endpoint) : Bool :=
  self.wfd.isNone || (self.wbuf.isNone && self.wqueue.isEmpty)

/-- `halfcloseAll` looks at no endpoint behind one that it buries. -/
def walkStrandless (w : World) : List Addr → Bool
  | [] => true
  | other :: rest => (w.heap.cells other).all fun self =>
      halfcloseStrandless self && (self.finished || walkStrandless w rest)

def packetStrandless (w : World) (t : Side) (bp : NiBuffer) : Bool :=
  if (packetHeader bp).cmd = channelOpen then true
  else match proxyChannelById w t (packetHeader bp).channel with
    | none => true
    | some sink =>
      if (packetHeader bp).cmd = channelClose then (w.heap.cells sink).all halfcloseStrandless
      else if (packetHeader bp).cmd = channelData then
        decide ((packetPayload bp).count = 0) || w.writes sink
      else true

def demuxStrandless (w : World) (self : Endpoint) (closing : Bool) (read : DemuxRead) : Bool :=
  match read.reason with
  | .packet => packetStrandless w self.transport.other read.bp
  | .endOfFile => (!self.charged || closing) &&
      walkStrandless w (w.xprt self.transport.other).epList
  | _ => true

def handlerStrandless (w : World) (ep : Addr) (self : Endpoint) (closing : Bool)
    (sys : Syscalls) : Bool :=
  match proxyRecvBufsiz self sys with
  | .error _ => true
  | .ok rcount =>
    match (w.xprt self.transport).dataAvailable with
    | .recvCopy =>
      readStrandless w self closing (Syscalls.read sys.reads (NiBuffer.new rcount).tailroom)
    | .recvMux =>
      readStrandless w self closing (Syscalls.read sys.reads (muxBuffer rcount).tailroom)
    | .recvDemux =>
      let read := demuxRead self rcount sys
      demuxStrandless (w.receive ep read.bp read.received) self closing read

/-- The next step queues data only to endpoints that write, and closes the read side of none that
keeps charged messages and an open write side. -/
def State.strandless (s : State) (sys : Syscalls) : Bool :=
  match s.phase with
  | .dispatch ((⟨.endpointDoio, some ep, some fd, _, _⟩, revents) :: _) =>
    (s.world.heap.cells ep).all fun self =>
      !(revents.pollin && decide (self.rfd = some fd)) ||
        handlerStrandless s.world ep self (revents.closesWrite sys) sys
  | _ => true

/-- The endpoint is left as it was but for credit that comes back. -/
def Aside (a : Addr) (w w' : World) : Prop :=
  ∀ self, w.heap.cells a = some self →
    ∃ credit, w'.heap.cells a = some { self with rxCredit := credit }

theorem Aside.heap (same : w'.heap = w.heap) : Aside a w w' := fun self found => ⟨self.rxCredit, by rw [same, found]⟩

theorem Aside.trans (first : Aside a w middle) (second : Aside a middle w') : Aside a w w' := by
  intro self found
  obtain ⟨_, between⟩ := first self found
  obtain ⟨credit, after⟩ := second _ between
  exact ⟨credit, after⟩

theorem Aside.map {change : Addr → Endpoint → Endpoint} (changed : ∀ a, w'.heap.cells a = (w.heap.cells a).map (change a))
    (kept : ∀ old, ∃ credit, change a old = { old with rxCredit := credit }) : Aside a w w' := by
  intro self found
  obtain ⟨credit, same⟩ := kept self
  exact ⟨credit, by rw [changed, found, Option.map_some, same]⟩

theorem Aside.modify (different : a ≠ ep) (change : Endpoint → Endpoint) : Aside a w (w.modify ep change) :=
  .map (cells_modify w ep · change) fun old => ⟨old.rxCredit, by simp [different]⟩

theorem Pulled.aside (different : a ≠ ep) (pulled : Pulled w ep w') : Aside a w w' := by
  cases pulled with
  | same => exact .heap rfl
  | @pull self mbuf rest =>
    exact .map (cells_pull w ep mbuf rest) fun old => ⟨_, by simp [different]; rfl⟩

theorem shutdownRead_aside (different : a ≠ ep) (shut : shutdownRead w ep = .ok w') : Aside a w w' := by
  obtain ⟨self, found, ⟨_, rfl⟩ | ⟨fd, _, rfl⟩⟩ := shutdownRead_ok shut
  · exact .heap rfl
  · exact .map (cells_shutRead w ep self fd) fun old => ⟨old.rxCredit, by simp [different]⟩

theorem shutdownWrite_aside (different : a ≠ ep) (shut : shutdownWrite w ep = .ok w') : Aside a w w' := by
  obtain ⟨self, found, ⟨_, rfl⟩ | ⟨middle, left, fd, _, pulled, cell, _, _, _, rfl⟩⟩ := shutdownWrite_ok shut
  · exact .heap rfl
  · exact (pulled.aside different).trans (.map (cells_shutWrite cell fd) fun old => ⟨_, by simp [different]; rfl⟩)

theorem shutdown_aside (different : a ≠ ep) (shut : ioEndpointShutdown w ep how = .ok w') : Aside a w w' := by
  cases how with
  | rd =>
    obtain ⟨middle, read, buried⟩ := bind_ok.mp shut
    obtain ⟨_, _, rfl⟩ := buryDead_ok buried
    exact (shutdownRead_aside different read).trans (.heap (heap_settle _ _))
  | wr =>
    obtain ⟨middle, written, buried⟩ := bind_ok.mp shut
    obtain ⟨_, _, rfl⟩ := buryDead_ok buried
    exact (shutdownWrite_aside different written).trans (.heap (heap_settle _ _))
  | rdwr =>
    obtain ⟨first, read, rest⟩ := bind_ok.mp shut
    obtain ⟨second, written, buried⟩ := bind_ok.mp rest
    obtain ⟨_, _, rfl⟩ := buryDead_ok buried
    exact (shutdownRead_aside different read).trans
      ((shutdownWrite_aside different written).trans (.heap (heap_settle _ _)))

theorem halfclose_aside (different : a ≠ ep) (closed : ioEndpointHalfclose w ep = .ok w') : Aside a w w' := by
  obtain ⟨_, _, rest⟩ := bind_ok.mp closed
  obtain ⟨⟨pending, middle⟩, pulled, shut⟩ := bind_ok.mp rest
  exact (Aside.modify different _).trans (((pullup_pulled pulled).aside different).trans (shutdown_aside different shut))

theorem halfcloseAll_aside (outside : a ∉ members) (closed : halfcloseAll w t members = .ok w') : Aside a w w' := by
  induction members generalizing w with
  | nil => cases closed; exact .heap rfl
  | cons other rest ih =>
    obtain ⟨middle, first, later⟩ := bind_ok.mp closed
    obtain ⟨different, outside'⟩ : a ≠ other ∧ a ∉ rest := by simpa using outside
    have here := halfclose_aside different first
    split at later
    · exact here.trans (ih outside' later)
    · cases later
      exact here

/-- The walk over later endpoints reads off the same. -/
theorem walkStrandless_aside (aside : ∀ a ∈ members, Aside a w w')
    (live : ∀ a ∈ members, (w.heap.cells a).isSome) : walkStrandless w' members = walkStrandless w members := by
  induction members with
  | nil => rfl
  | cons other rest ih =>
    obtain ⟨self, found⟩ := Option.isSome_iff_exists.mp (live other (by simp))
    obtain ⟨credit, cell⟩ := aside other (by simp) self found
    have later := ih (fun a member => aside a (by simp [member])) fun a member => live a (by simp [member])
    simp only [walkStrandless, found, cell, later, Option.all_some]
    rfl

section Handlers

theorem shutdown_rdwr_dead (found : w.heap.cells ep = some self) (shut : ioEndpointShutdown w ep .rdwr = .ok w') :
    ∃ left, w'.heap.cells ep = some left ∧ left.dead = true ∧ left.shutdownWrite = self.shutdownWrite := by
  obtain ⟨first, read, rest⟩ := bind_ok.mp shut
  obtain ⟨second, written, buried⟩ := bind_ok.mp rest
  obtain ⟨_, _, rfl⟩ := buryDead_ok buried
  rw [heap_settle]
  have closed : ∃ half, first.heap.cells ep = some half ∧ half.rfd = none ∧ half.shutdownWrite = self.shutdownWrite := by
    obtain ⟨same, found', ⟨shutBefore, rfl⟩ | ⟨fd, _, rfl⟩⟩ := shutdownRead_ok read
    · cases found.symm.trans found'
      exact ⟨self, found, shutBefore, rfl⟩
    · cases found.symm.trans found'
      exact ⟨_, cells_shutRead_self found fd, rfl, rfl⟩
  obtain ⟨half, cell, reading, marked⟩ := closed
  obtain ⟨same, found', ⟨shutBefore, rfl⟩ |
    ⟨middle, left, fd, _, _, cell', reading', _, marked', rfl⟩⟩ := shutdownWrite_ok written
  · cases cell.symm.trans found'
    exact ⟨half, cell, by simp [Endpoint.dead, reading, shutBefore], marked⟩
  · cases cell.symm.trans found'
    have last := cells_shutWrite cell' fd ep
    rw [cell', Option.map_some] at last
    refine ⟨_, last, ?_, marked'.trans marked⟩
    simp [Endpoint.dead, reading', reading]

theorem halfclose_finished (found : w.heap.cells ep = some self) (finished : self.finished = true)
    (closed : ioEndpointHalfclose w ep = .ok w') : ∃ left, w'.heap.cells ep = some left ∧ left.dead = true := by
  obtain ⟨_, _, rest⟩ := bind_ok.mp closed
  obtain ⟨⟨pending, middle⟩, pulled, shut⟩ := bind_ok.mp rest
  have here := cells_modify w ep ep fun self => { self with shutdownWrite := true }
  rw [found] at here
  obtain ⟨left, cell, _, writing, _⟩ := (pullup_pulled pulled).cell here
  cases pending with
  | none =>
    obtain ⟨last, cell', dead, _⟩ := shutdown_rdwr_dead cell shut
    exact ⟨last, cell', dead⟩
  | some bp =>
    refine ⟨_, shutdown_rd_queue cell shut, ?_⟩
    have shutBefore : self.wfd = none := by
      simp only [Endpoint.finished, Bool.or_eq_true, Bool.and_eq_true, Option.isNone_iff_eq_none,
        List.isEmpty_iff] at finished
      rcases finished with shut' | ⟨blank, empty⟩
      · exact shut'
      · obtain ⟨same, cell', ⟨_, buffer, _⟩ | ⟨_, _, missing, _⟩ | ⟨_, _, _, queue, _⟩⟩ := pullup_ok pulled
        · cases here.symm.trans cell'
          simp [blank] at buffer
        · cases missing
        · cases here.symm.trans cell'
          simp [empty] at queue
    have none' : left.wfd = none := by simpa [shutBefore] using writing
    simp [Endpoint.dead, none']

theorem halfclose_acts (closed : ioEndpointHalfclose w ep = .ok w') : Acts G w w' := by
  obtain ⟨self, found, quiets⟩ := halfclose_ok closed
  exact .head (.mark found) quiets.acts

theorem halfcloseAll_steady (lists : w.Lists) (once : members.Nodup)
    (live : ∀ a ∈ members, (w.heap.cells a).isSome) (safe : walkStrandless w members = true)
    (closed : halfcloseAll w t members = .ok w') : Steady w w' := by
  induction members generalizing w with
  | nil => cases closed; exact .refl _
  | cons other rest ih =>
    obtain ⟨middle, first, later⟩ := bind_ok.mp closed
    obtain ⟨self, found⟩ := Option.isSome_iff_exists.mp (live other (by simp))
    obtain ⟨outside, once'⟩ := List.nodup_cons.mp once
    simp only [walkStrandless, found, Option.all_some, Bool.and_eq_true, Bool.or_eq_true,
      halfcloseStrandless, Bool.not_eq_true'] at safe
    have here : Steady w middle := halfclose_steady found safe.1 first
    have lists' : middle.Lists := lists.acts (halfclose_acts (G := .free) first)
    split at later
    · rename_i stays
      have aside : ∀ a ∈ rest, Aside a w middle := fun a member =>
        halfclose_aside (by rintro rfl; exact outside member) first
      have live' : ∀ a ∈ rest, (w.heap.cells a).isSome := fun a member => live a (by simp [member])
      have walk : walkStrandless w rest = true := by
        rcases safe.2 with finished | walk
        · -- An endpoint that is finished has left the list.
          obtain ⟨left, cell, dead⟩ := halfclose_finished found finished first
          obtain ⟨same, cell', _, alive⟩ := lists'.listed t other stays
          cases cell.symm.trans cell'
          simp [dead] at alive
        · exact walk
      rw [← walkStrandless_aside aside live'] at walk
      refine here.trans (ih lists' once' ?_ walk later)
      intro a member
      obtain ⟨old, cell⟩ := Option.isSome_iff_exists.mp (live' a member)
      obtain ⟨credit, cell'⟩ := aside a member old cell
      rw [cell']
      rfl
    · cases later
      exact here

/-- What a read handler leaves: nothing is stranded, or only at its own endpoint, whose write
side is closed next. -/
structure Reads (ep : Addr) (fd : Fd) (closing : Bool) (w : World) : Prop where
  others : ∀ a self, a ≠ ep → w.heap.cells a = some self → self.charged = true →
    self.drains = true
  own : ∀ self, w.heap.cells ep = some self → self.charged = true →
    self.drains = true ∨ closing = true ∧ self.wfd = some fd

theorem World.Unstranded.reads (unstranded : w.Unstranded) (ep : Addr) (fd : Fd) (closing : Bool) :
    Reads ep fd closing w :=
  ⟨fun a self _ => unstranded a self, fun self found charged => .inl (unstranded ep self found charged)⟩

variable {closing : Bool}

/-- The end of the input, where `safe` allows the endpoint to stop reading. -/
theorem shutdown_rd_reads (unstranded : w.Unstranded) (found : w.heap.cells ep = some self) (reading : self.rfd = some fd)
    (safe : (!self.charged || closing) = true) (shut : ioEndpointShutdown w ep .rd = .ok w') :
    Reads ep fd closing w' where
  others a new different cell charged := by
    obtain ⟨old, before, charged', kept⟩ := shutdown_rd_steadyAt different shut new cell charged
    exact kept (unstranded a old before charged')
  own new cell charged := by
    cases (shutdown_rd_queue found shut).symm.trans cell
    have charged' : self.charged = true := charged
    have drains := unstranded ep self found charged'
    simp only [Endpoint.drains, Endpoint.writes, Bool.and_eq_true, decide_eq_true_eq] at drains
    exact .inr ⟨by simpa [charged'] using safe, drains.2.2.symm.trans reading⟩

theorem writes_sink (writes : w.writes sink = true) (cell : w.heap.cells sink = some other) : other.writes = true := by
  simpa [World.writes, cell] using writes

theorem recvCopy_reads (unstranded : w.Unstranded) (found : w.heap.cells ep = some self) (reading : self.rfd = some fd)
    (granted : proxyRecvBufsiz self sys = .ok rcount)
    (safe : readStrandless w self closing (Syscalls.read sys.reads (NiBuffer.new rcount).tailroom) = true)
    (done : proxyRecvCopy w ep sys = .ok w') : Reads ep fd closing w' := by
  obtain ⟨same, dereffed, rest⟩ := bind_ok.mp done
  cases (deref_ok.mp dereffed).symm.trans found
  obtain ⟨again, granted', rest⟩ := bind_ok.mp rest
  cases granted.symm.trans granted'
  cases target : self.sink with
  | none => simp [target] at rest
  | some sink =>
    simp only [target] at rest
    cases answer : Syscalls.read sys.reads (NiBuffer.new rcount).tailroom with
    | none =>
      simp only [answer] at rest
      cases rest
      exact unstranded.reads ep fd closing
    | some bytes =>
      rw [answer] at safe
      cases bytes with
      | nil =>
        simp only [answer] at rest
        obtain ⟨other, _, shut⟩ := bind_ok.mp rest
        have marked : Steady w (w.modify sink fun other => { other with shutdownWrite := true }) :=
          .modify fun _ _ charged => ⟨charged, id⟩
        have cell := cells_modify w sink ep fun other => { other with shutdownWrite := true }
        rw [found, Option.map_some] at cell
        refine shutdown_rd_reads (unstranded.steady marked) cell ?_ ?_ shut
        · split <;> exact reading
        · split <;> exact safe
      | cons byte more =>
        simp only [answer] at rest
        have queued : (w.emit (.received ep (byte :: more))).Unstranded := unstranded
        refine (queued.queueWrite ?_ rest).reads ep fd closing
        intro _ other cell
        have open' : w.writes sink = true := by simpa [readStrandless, target] using safe
        exact writes_sink open' cell

theorem recvMux_reads (unstranded : w.Unstranded) (found : w.heap.cells ep = some self) (reading : self.rfd = some fd)
    (granted : proxyRecvBufsiz self sys = .ok rcount)
    (safe : readStrandless w self closing (Syscalls.read sys.reads (muxBuffer rcount).tailroom) = true)
    (done : proxyRecvMux w ep sys = .ok w') : Reads ep fd closing w' := by
  obtain ⟨same, dereffed, rest⟩ := bind_ok.mp done
  cases (deref_ok.mp dereffed).symm.trans found
  obtain ⟨again, granted', rest⟩ := bind_ok.mp rest
  cases granted.symm.trans granted'
  cases target : self.sink with
  | none => simp [target] at rest
  | some sink =>
    simp only [target] at rest
    split at rest
    · cases rest
    · change (match Syscalls.read sys.reads (muxBuffer rcount).tailroom with
        | none => _
        | some [] => _
        | some bytes => _) = _ at rest
      cases answer : Syscalls.read sys.reads (muxBuffer rcount).tailroom with
      | none =>
        simp only [answer] at rest
        cases rest
        exact unstranded.reads ep fd closing
      | some bytes =>
        rw [answer] at safe
        cases bytes with
        | nil =>
          simp only [answer] at rest
          obtain ⟨after, queued, shut⟩ := bind_ok.mp rest
          have before : after.Unstranded := unstranded.queueWrite (by intro free; cases free) queued
          obtain ⟨other, middle, present, linked, _, rfl⟩ := queueWrite_ok queued
          obtain ⟨connected, cell⟩ := linked.cell found
          have cell' := cells_charge middle sink (proxyChannelCloseNew self.channelId) ep
          rw [cell, Option.map_some] at cell'
          refine shutdown_rd_reads before cell' reading ?_ shut
          have free : (proxyChannelCloseNew self.channelId).charged = false := rfl
          by_cases here : ep = sink <;> simpa [Endpoint.charged, here, free, readStrandless] using safe
        | cons byte more =>
          simp only [answer] at rest
          split at rest
          · cases rest
          · rename_i bp built
            have queued : (w.emit (.framed ep self.channelId (byte :: more))).Unstranded := unstranded
            refine (queued.queueWrite ?_ rest).reads ep fd closing
            intro _ other cell
            have open' : w.writes sink = true := by simpa [readStrandless, target] using safe
            exact writes_sink open' cell

theorem demuxPacket_unstranded (lists : w.Lists)
    (unstranded : w.Unstranded) (arrived : Arrived .free w source self bp sys)
    (safe : packetStrandless w self.transport.other bp = true)
    (done : proxyDemuxPacket w source bp sys = .ok w') : w'.Unstranded := by
  obtain ⟨same, dereffed, rest⟩ := bind_ok.mp done
  cases (deref_ok.mp dereffed).symm.trans arrived.found
  simp only [pullHead_packet arrived.fits arrived.complete, header_payload arrived.fits arrived.complete] at rest
  have before : (w.emit (.dispatched source bp.contents)).Unstranded := unstranded
  unfold packetStrandless at safe
  split at rest
  · obtain ⟨⟨created, middle⟩, connected, rest⟩ := bind_ok.mp rest
    have opened := before.steady (connectChannel_steady (lists.emit _) connected)
    cases created with
    | none => cases rest
    | some sink =>
      cases rest
      refine opened.steady (Steady.trans ?_ (Steady.link _ _ _ _))
      exact .modify fun _ _ charged => ⟨charged, id⟩
  · rename_i cmd
    rw [if_neg cmd] at safe
    change (match proxyChannelById w self.transport.other (packetHeader bp).channel with
      | none => _ | some sink => _) = _ at rest
    cases member : proxyChannelById w self.transport.other (packetHeader bp).channel with
    | none =>
      simp only [member] at rest
      cases rest
      exact before
    | some sink =>
      simp only [member] at rest safe
      split at rest
      · rename_i close
        rw [if_pos close] at safe
        obtain ⟨_, other, cell, _⟩ := channelById_some member
        have here : (w.emit (.dispatched source bp.contents)).heap.cells sink = some other := cell
        refine before.steady (halfclose_steady here ?_ rest)
        simpa [cell, halfcloseStrandless] using safe
      · rename_i other
        rw [if_neg other] at safe
        split at rest
        · rename_i data
          rw [if_pos data] at safe
          have delivered : ((w.emit (.dispatched source bp.contents)).emit (.delivered
            (packetHeader bp).channel sink (packetPayload bp).contents)).Unstranded := unstranded
          refine delivered.queueWrite ?_ rest
          intro charged target cell
          have full : (packetPayload bp).count ≠ 0 := of_decide_eq_true charged
          have open' : w.writes sink = true := by simpa [full] using safe
          exact writes_sink open' cell
        · cases rest
          exact before

theorem recvDemux_reads (shape : w.Shape) (unstranded : w.Unstranded) (found : w.heap.cells ep = some self)
    (handler : (w.xprt self.transport).dataAvailable = .recvDemux) (reading : self.rfd = some fd)
    (granted : proxyRecvBufsiz self sys = .ok rcount)
    (safe : demuxStrandless (w.receive ep (demuxRead self rcount sys).bp
      (demuxRead self rcount sys).received) self closing (demuxRead self rcount sys) = true)
    (done : proxyRecvDemux w ep sys = .ok w') : Reads ep fd closing w' := by
  rw [recvDemux_eq found granted] at done
  have spec := demuxRead_spec (shape.sound ep self found) rcount sys
  have received : (w.receive ep (demuxRead self rcount sys).bp (demuxRead self rcount sys).received).Unstranded :=
    unstranded.steady (.modify fun _ _ charged => ⟨charged, id⟩)
  have lists := (shape.act (G := .free) (.receive found handler spec.fits spec.contents trivial)).lists
  unfold demuxStrandless at safe
  cases reason : (demuxRead self rcount sys).reason with
  | packet =>
    rw [reason] at done safe
    obtain ⟨after, carried, done⟩ := bind_ok.mp done
    cases done
    have arrived := demux_arrived (G := .free) shape found handler reason trivial
    exact ((demuxPacket_unstranded lists received arrived safe carried).steady (.clear after ep)).reads ep fd closing
  | overrun =>
    rw [reason] at done
    cases done
  | endOfFile =>
    rw [reason] at done safe
    obtain ⟨ends, walk⟩ := Bool.and_eq_true_iff.mp safe
    obtain ⟨after, closed, shut⟩ := bind_ok.mp done
    have live : ∀ a ∈ (w.xprt self.transport.other).epList, ((w.receive ep
        (demuxRead self rcount sys).bp (demuxRead self rcount sys).received).heap.cells a).isSome := by
      intro a member
      obtain ⟨other, cell, _⟩ := lists.listed self.transport.other a member
      rw [cell]
      rfl
    have outside : ep ∉ (w.xprt self.transport.other).epList := by
      intro member
      obtain ⟨same, cell, side, _⟩ := shape.lists.listed _ ep member
      cases found.symm.trans cell
      exact Side.other_ne _ side.symm
    have before := received.steady (halfcloseAll_steady lists (lists.listedOnce self.transport.other) live walk closed)
    have cell := cells_receive w ep (demuxRead self rcount sys).bp (demuxRead self rcount sys).received ep
    rw [found, Option.map_some] at cell
    obtain ⟨credit, cell'⟩ := halfcloseAll_aside outside closed _ cell
    exact shutdown_rd_reads before cell' reading ends shut
  | budgetSpent | readError | partialPacket =>
    rw [reason] at done
    cases done
    exact received.reads ep fd closing

theorem handler_reads (shape : w.Shape) (unstranded : w.Unstranded)
    (found : w.heap.cells ep = some self) (reading : self.rfd = some fd)
    (safe : handlerStrandless w ep self closing sys = true)
    (done : (w.xprt self.transport).dataAvailable.handler w ep sys = .ok w') : Reads ep fd closing w' := by
  unfold handlerStrandless at safe
  have granted : ∃ rcount, proxyRecvBufsiz self sys = .ok rcount := by
    cases handler : (w.xprt self.transport).dataAvailable <;> rw [handler] at done <;>
      obtain ⟨same, dereffed, rest⟩ := bind_ok.mp done <;>
      cases (deref_ok.mp dereffed).symm.trans found <;>
      obtain ⟨rcount, granted, _⟩ := bind_ok.mp rest <;> exact ⟨rcount, granted⟩
  obtain ⟨rcount, granted⟩ := granted
  rw [granted] at safe
  cases handler : (w.xprt self.transport).dataAvailable with
  | recvCopy =>
    rw [handler] at done
    simp only [handler] at safe
    exact recvCopy_reads unstranded found reading granted safe done
  | recvMux =>
    rw [handler] at done
    simp only [handler] at safe
    exact recvMux_reads unstranded found reading granted safe done
  | recvDemux =>
    rw [handler] at done
    simp only [handler] at safe
    exact recvDemux_reads shape unstranded found handler reading granted safe done

end Handlers

theorem shutdown_wr_empty (found : w.heap.cells ep = some self) (writing : self.wfd.isSome)
    (shut : ioEndpointShutdown w ep .wr = .ok w') (cell : w'.heap.cells ep = some new) : new.charged = false := by
  obtain ⟨middle, written, buried⟩ := bind_ok.mp shut
  obtain ⟨_, _, rfl⟩ := buryDead_ok buried
  rw [heap_settle] at cell
  obtain ⟨same, found', ⟨closed, _⟩ | ⟨after, left, fd, _, _, cell', _, _, _, rfl⟩⟩ := shutdownWrite_ok written
  · cases found.symm.trans found'
    simp [closed] at writing
  · exact cells_shutWrite_self cell' fd cell

theorem transmit_ok (done : transmit w ep sys = .ok w') :
    (sys.write = .epipe ∧ ioEndpointShutdown w ep .wr = .ok w') ∨
      sys.write ≠ .epipe ∧ Steady w w' ∧ ∀ self, w.heap.cells ep = some self →
        ∃ wbuf, w'.heap.cells ep = some { self with wbuf := wbuf } := by
  obtain ⟨self, dereffed, rest⟩ := bind_ok.mp done
  cases buffer : self.wbuf with
  | none => simp [buffer] at rest
  | some bp =>
    simp only [buffer] at rest
    cases answer : sys.write with
    | epipe =>
      simp only [answer] at rest
      exact .inl ⟨rfl, rest⟩
    | failed =>
      simp only [answer] at rest
      cases rest
      exact .inr ⟨by simp, .refl w, fun self found => ⟨self.wbuf, found⟩⟩
    | wrote count =>
      simp only [answer] at rest
      split at rest
      · cases rest
        exact .inr ⟨by simp, .refl w, fun self found => ⟨self.wbuf, found⟩⟩
      · cases rest
        have emitted : Steady w (w.emit (.wrote ep (bp.load bp.head (min count bp.count)))) := .heap rfl
        refine .inr ⟨by simp, emitted.trans (.modify fun _ _ charged => ⟨charged, id⟩), ?_⟩
        intro same found
        exact ⟨_, by rw [cells_modify, heap_emit, found, Option.map_some, if_pos rfl]⟩

theorem transmit_steady (done : transmit w ep sys = .ok w') : Steady w w' := by
  rcases transmit_ok done with ⟨_, shut⟩ | ⟨_, steady, _⟩
  · exact shutdown_wr_steady shut
  · exact steady

theorem Reads.finish (reads : Reads ep fd (revents.closesWrite sys) w) (found : w.heap.cells ep = some self)
    (sent : (if self.wfd = some fd ∧ revents.pollout = true then transmit w ep sys
      else .ok w) = .ok after) (cell : after.heap.cells ep = some left)
    (rest : (if left.wfd = some fd ∧ revents.pollhup = true then ioEndpointShutdown after ep .wr
      else .ok after) = .ok w') : w'.Unstranded := by
  have written : Steady w after := by
    split at sent
    · exact transmit_steady sent
    · cases sent
      exact .refl _
  have hangup : Steady after w' := by
    split at rest
    · exact shutdown_wr_steady rest
    · cases rest
      exact .refl _
  intro a new final charged
  obtain ⟨old, before, charged', kept⟩ := (written.trans hangup) a new final charged
  by_cases here : a = ep
  · subst here
    rcases reads.own old before charged' with drains | ⟨closing, writing⟩
    · exact kept drains
    · -- The queue is emptied by the refused write, or by the hangup after it.
      exfalso
      cases found.symm.trans before
      have emptied : new.charged = false := by
        by_cases refused : revents.pollout = true ∧ sys.write = .epipe
        · rw [if_pos ⟨writing, refused.1⟩] at sent
          rcases transmit_ok sent with ⟨_, shut⟩ | ⟨other, _⟩
          · have gone := shutdown_wr_empty found (by simp [writing]) shut cell
            by_contra full
            obtain ⟨same, cell', charged'', _⟩ := hangup a new final (by simpa using full)
            cases cell.symm.trans cell'
            simp [gone] at charged''
          · exact absurd refused.2 other
        · have hup : revents.pollhup = true := by
            simp only [Revents.closesWrite, Bool.or_eq_true, Bool.and_eq_true, decide_eq_true_eq] at closing
            exact closing.resolve_right refused
          have open' : left.wfd = some fd := by
            split at sent
            · rename_i ready
              rcases transmit_ok sent with ⟨epipe, _⟩ | ⟨_, _, same⟩
              · exact absurd ⟨ready.2, epipe⟩ refused
              · obtain ⟨wbuf, cell'⟩ := same self found
                cases cell.symm.trans cell'
                exact writing
            · cases sent
              cases cell.symm.trans found
              exact writing
          rw [if_pos ⟨open', hup⟩] at rest
          exact shutdown_wr_empty cell (by simp [open']) rest final
      simp [emptied] at charged
  · exact kept (reads.others a old here before charged')

theorem doio_unstranded (shape : w.Shape) (unstranded : w.Unstranded)
    (safe : ∀ self, w.heap.cells ep = some self → self.rfd = some fd → revents.pollin = true →
      handlerStrandless w ep self (revents.closesWrite sys) sys = true)
    (done : ioEndpointDoio w ep fd revents sys = .ok w') : w'.Unstranded := by
  obtain ⟨self, middle, left, after, last, found, handled, cell, sent, cell', hangup⟩ := doio_parts done
  have reads : Reads ep fd (revents.closesWrite sys) middle := by
    split at handled
    · rename_i ready
      exact handler_reads shape unstranded found ready.1 (safe self found ready.1 ready.2) handled
    · cases handled
      exact unstranded.reads ep fd _
  exact reads.finish cell sent cell' hangup

/-- A step that strands nothing leaves nothing stranded. -/
theorem step_unstranded (shape : s.world.Shape) (unstranded : s.world.Unstranded)
    (safe : s.strandless sys = true) (moved : step s sys = .ok s') : s'.world.Unstranded := by
  obtain ⟨w, phase⟩ := s
  unfold step at moved
  cases phase with
  | prepare t info =>
    obtain ⟨after, prepared, rest⟩ := bind_ok.mp moved
    cases rest
    exact unstranded.steady (transportPrepare_steady prepared)
  | collect t info =>
    obtain ⟨⟨after, more⟩, collected, rest⟩ := bind_ok.mp moved
    cases rest
    exact unstranded.steady (transportPurge_steady (pollCollect_purge collected))
  | poll info =>
    cases info with
    | nil => cases moved; exact unstranded
    | cons first others =>
      dsimp only at moved
      split at moved <;> cases moved <;> exact unstranded
  | dispatch ready =>
    cases ready with
    | nil => cases moved; exact unstranded
    | cons first others =>
      obtain ⟨⟨handler, owner, fd, pollin, pollout⟩, revents⟩ := first
      obtain ⟨after, handled, rest⟩ := bind_ok.mp moved
      cases rest
      cases handler with
      | downstreamAccept =>
        cases fd with
        | none => cases handled; exact unstranded
        | some fd => exact downstreamAccept_unstranded shape.lists unstranded handled
      | endpointDoio =>
        cases owner with
        | none => cases handled; exact unstranded
        | some ep =>
          cases fd with
          | none => cases handled; exact unstranded
          | some fd =>
            simp only [PollInfo.handle] at handled
            split at handled
            · cases handled
              exact unstranded
            · refine doio_unstranded shape unstranded (fun self found reading ready => ?_) handled
              have cell : w.heap.cells ep = some self := found
              simpa [State.strandless, cell, reading, ready] using safe
  | done => cases moved; exact unstranded

theorem Started.unstranded (started : Started upstream downstream w) : w.Unstranded := by
  intro a self found charged
  rcases started.endpoints with ⟨_, _, cells, _⟩ | ⟨ep, only, _, _, fresh, _, _, cells, _⟩
  · simp [cells] at found
  · rw [cells] at found
    split at found
    · cases found
      simp [Endpoint.charged, fresh.wqueue] at charged
    · cases found

/-- Every credit an endpoint was charged is held on the queue of an endpoint that is polled for
output and writes it. -/
structure World.CreditReturns (w : World) : Prop where
  granted : ∀ a self, w.heap.cells a = some self →
    self.rxCredit + w.outstanding a = grant self.type
  held : ∀ sink other, w.heap.cells sink = some other → other.charged = true →
    other.drains = true ∧ w.Polled other.transport sink

theorem unstranded_run (reached : RunUnder (fun s sys => s.strandless sys = true) upstream downstream s) :
    s.world.Shape ∧ s.world.Unstranded ∧ s.world.Listed [] := by
  obtain ⟨setup, start, answers, done, along, ran⟩ := reached
  have begin' := (proxyInit_ok done).2
  refine Machine.invariant_run (fun s => s.world.Shape ∧ s.world.Unstranded ∧ s.world.Listed [])
    ?_ ⟨begin'.shape, begin'.unstranded, begin'.listed⟩ along ran
  rintro s sys next ⟨shape, unstranded, listed⟩ safe moved
  have acted := step_acts shape (permits_free s sys) moved
  refine ⟨shape.acts acted, step_unstranded shape unstranded safe moved, ?_⟩
  generalize next.world = w' at acted
  induction acted with
  | refl => exact listed
  | tail _ last ih => exact ih.act last

/-- In a run that creates no endpoint at an address that is still owed credit, and whose steps
strand no message, the queues that are written hold all the credit that was charged. -/
theorem credit_returns {upstream downstream : TransportKind} {s : State}
    (reached : RunUnder (fun s sys => Permits .settled s sys ∧ s.strandless sys = true)
      upstream downstream s) : s.world.CreditReturns := by
  obtain ⟨setup, start, answers, done, along, ran⟩ := reached
  have settled : RunUnder (Permits .settled) upstream downstream s :=
    ⟨setup, start, answers, done, along.weaken fun _ _ guard => guard.1, ran⟩
  have strandless : RunUnder (fun s sys => s.strandless sys = true) upstream downstream s :=
    ⟨setup, start, answers, done, along.weaken fun _ _ guard => guard.2, ran⟩
  obtain ⟨_, unstranded, listed⟩ := unstranded_run strandless
  refine ⟨settled.conserved, ?_⟩
  intro sink other cell charged
  have drains := unstranded sink other cell charged
  refine ⟨drains, listed sink other cell ?_ (by simp)⟩
  -- Its write descriptor is open, so it was not buried.
  simp only [Endpoint.drains, Endpoint.writes, Bool.and_eq_true] at drains
  cases writing : other.wfd <;> simp [Endpoint.dead, writing] at drains ⊢

theorem credit_returns_copied : ∃ s,
    RunUnder (fun s sys => Permits .settled s sys ∧ s.strandless sys = true) (.unix "up")
      (.unix "down") s ∧ s.world.outstanding 1 = 1 ∧ s.world.CreditReturns := by
  obtain ⟨s, ran, owing⟩ := run_some (.unix "up") (.unix "down") { listens := some 3 }
    copyOneByte (fun s => s.world.outstanding 1) 1 (by decide +kernel)
  have reached : RunUnder (fun s sys => Permits .settled s sys ∧ s.strandless sys = true)
      (.unix "up") (.unix "down") s := by
    have sound : ∀ s sys, (settledCheck s sys && s.strandless sys) = true →
        Permits .settled s sys ∧ s.strandless sys = true := fun s sys checked =>
      ⟨settledCheck_sound s sys (Bool.and_eq_true_iff.mp checked).1,
        (Bool.and_eq_true_iff.mp checked).2⟩
    exact runUnder_of_check sound (by decide +kernel) ran
  exact ⟨s, reached, owing, credit_returns reached⟩

/-- The upstream connection refuses the byte, and the client sends one more. -/
def refuseByte : List Syscalls :=
  copyOneByte ++
  pollRound [{}, { pollout := true }, { pollin := true }]
    [{}, { write := .epipe }, { reads := [some [8]] }]

theorem credit_stranded : ¬ ∀ (upstream downstream : TransportKind) (s : State),
    Reachable upstream downstream s → s.world.CreditReturns := by
  intro claimed
  obtain ⟨s, ran, view⟩ := run_some (.unix "up") (.unix "down") { listens := some 3 } refuseByte
    (fun s => (s.world.heap.cells 2).map fun self => (self.charged, self.drains))
    (some (true, false)) (by decide +kernel)
  obtain ⟨self, found, pair⟩ := Option.map_eq_some_iff.mp view
  obtain ⟨charged, drains⟩ := Prod.mk.inj pair
  have held := (claimed _ _ s (reachable_of_run ran)).held 2 self found charged
  simp [drains] at held

end Testbus.Proxy
