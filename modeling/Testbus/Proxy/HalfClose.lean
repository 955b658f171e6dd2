import Testbus.Proxy.Draining

namespace Testbus.Proxy

open Lib World

/-- The endpoint reads no more, and closes once everything is written. -/
def World.HalfClosed (w : World) (a : Addr) : Prop :=
  ∃ self, w.heap.cells a = some self ∧ self.shutdownWrite = true ∧ self.rfd = none

/-- The endpoints behind the first one of a list that a half-close moves to the garbage list. -/
def unvisited (w : World) : List Addr → List Addr
  | [] => []
  | other :: rest => if (w.heap.cells other).any Endpoint.finished then rest else unvisited w rest

/-- The endpoints behind the first one of a list that a walk over it takes off the list. -/
def behindFirst (leaves : Endpoint → Bool) (w : World) : List Addr → List Addr
  | [] => []
  | other :: rest =>
    if (w.heap.cells other).any leaves then rest else behindFirst leaves w rest

theorem behindFirst_subset (leaves : Endpoint → Bool) (w : World) (members : List Addr) :
    behindFirst leaves w members ⊆ members := by
  induction members with
  | nil => exact List.Subset.refl _
  | cons other rest ih =>
    unfold behindFirst
    split
    · exact List.subset_cons_self other rest
    · exact List.subset_cons_of_subset other ih

theorem behindFirst_aside (blind : ∀ self credit, leaves { self with rxCredit := credit } = leaves self)
    (aside : ∀ a ∈ members, Aside a w w') (live : ∀ a ∈ members, (w.heap.cells a).isSome) :
    behindFirst leaves w' members = behindFirst leaves w members := by
  induction members with
  | nil => rfl
  | cons other rest ih =>
    obtain ⟨self, found⟩ := Option.isSome_iff_exists.mp (live other (by simp))
    obtain ⟨credit, cell⟩ := aside other (by simp) self found
    have later := ih (fun a member => aside a (by simp [member])) fun a member => live a (by simp [member])
    simp only [behindFirst, found, cell, later, Option.any_some, blind]

theorem unvisited_eq (w : World) (members : List Addr) :
    unvisited w members = behindFirst Endpoint.finished w members := by
  induction members with
  | nil => rfl
  | cons other rest ih => rw [unvisited, behindFirst, ih]

theorem unvisited_subset (w : World) (members : List Addr) : unvisited w members ⊆ members := by
  rw [unvisited_eq]
  exact behindFirst_subset _ _ _

theorem unvisited_aside (aside : ∀ a ∈ members, Aside a w w')
    (live : ∀ a ∈ members, (w.heap.cells a).isSome) : unvisited w' members = unvisited w members := by
  rw [unvisited_eq, unvisited_eq]
  exact behindFirst_aside (fun _ _ => rfl) aside live

theorem Aside.halfClosed (aside : Aside a w w') (live : (w.heap.cells a).isSome) : w'.HalfClosed a ↔ w.HalfClosed a := by
  obtain ⟨self, found⟩ := Option.isSome_iff_exists.mp live
  obtain ⟨credit, cell⟩ := aside self found
  constructor
  · rintro ⟨new, here, marked, closed⟩
    cases cell.symm.trans here
    exact ⟨self, found, marked, closed⟩
  · rintro ⟨old, here, marked, closed⟩
    cases found.symm.trans here
    exact ⟨_, cell, marked, closed⟩

theorem halfclose_halfClosed (closed : ioEndpointHalfclose w ep = .ok w') : w'.HalfClosed ep := by
  obtain ⟨self, dereffed, rest⟩ := bind_ok.mp closed
  obtain ⟨⟨pending, middle⟩, pulled, shut⟩ := bind_ok.mp rest
  have here := cells_modify w ep ep fun self => { self with shutdownWrite := true }
  rw [deref_ok.mp dereffed] at here
  obtain ⟨left, cell, _, _, marked⟩ := (pullup_pulled pulled).cell here
  cases pending with
  | some bp => exact ⟨_, shutdown_rd_queue cell shut, by simpa using marked, rfl⟩
  | none =>
    obtain ⟨last, cell', dead, kept⟩ := shutdown_rdwr_dead cell shut
    simp only [Endpoint.dead, Bool.and_eq_true, Option.isNone_iff_eq_none] at dead
    exact ⟨last, cell', by simpa using kept.trans marked, dead.1⟩

/-- An endpoint with something left to write stays where it is. -/
theorem halfclose_unfinished (found : w.heap.cells ep = some self)
    (unfinished : self.finished = false) (closed : ioEndpointHalfclose w ep = .ok w') : w'.xprt = w.xprt := by
  obtain ⟨_, _, rest⟩ := bind_ok.mp closed
  obtain ⟨⟨pending, middle⟩, pulled, shut⟩ := bind_ok.mp rest
  have here := cells_modify w ep ep fun self => { self with shutdownWrite := true }
  rw [found] at here
  simp only [Endpoint.finished, Bool.or_eq_false_iff, Bool.and_eq_false_iff] at unfinished
  obtain ⟨left, cell, _, writing, _⟩ := (pullup_pulled pulled).cell here
  have open' : left.wfd.isNone = false := by simpa [writing] using unfinished.1
  have same : middle.xprt = w.xprt := by
    cases pullup_pulled pulled with
    | same => rfl
    | pull => rw [xprt_pull, xprt_modify]
  cases pending with
  | some bp =>
    obtain ⟨after, read, buried⟩ := bind_ok.mp shut
    obtain ⟨_, _, rfl⟩ := buryDead_ok buried
    obtain ⟨reader, cell', ⟨_, rfl⟩ | ⟨fd, _, rfl⟩⟩ := shutdownRead_ok read
    · rw [settle_alive cell (by simp [Endpoint.dead, open']), same]
    · cases cell.symm.trans cell'
      rw [settle_alive (cells_shutRead_self cell fd) (by simp [Endpoint.dead, open']), xprt_shutRead, same]
  | none =>
    obtain ⟨same', cell', ⟨_, _, _, missing, _⟩ | ⟨blank, empty, _, _⟩ | ⟨_, _, _, _, missing, _⟩⟩ := pullup_ok pulled
    · cases missing
    · cases here.symm.trans cell'
      have idle : self.wbuf = none := by simpa using blank
      have queue : self.wqueue = [] := by simpa using empty
      simp [idle, queue] at unfinished
    · cases missing

/-- The walk half-closes the endpoints up to the first that is finished, and leaves the others. -/
theorem halfcloseAll_visits (lists : w.Lists) (once : members.Nodup)
    (listed : ∀ a ∈ members, a ∈ (w.xprt t).epList) (closed : halfcloseAll w t members = .ok w') :
    ∀ a ∈ members, (a ∉ unvisited w members → w'.HalfClosed a) ∧ (a ∈ unvisited w members → Aside a w w') := by
  induction members generalizing w with
  | nil => intro a member; cases member
  | cons other rest ih =>
    obtain ⟨middle, first, later⟩ := bind_ok.mp closed
    obtain ⟨self, found, _, _⟩ := lists.listed t other (listed other (by simp))
    obtain ⟨outside, once'⟩ := List.nodup_cons.mp once
    have lists' : middle.Lists := lists.acts (halfclose_acts (G := .free) first)
    have marked := halfclose_halfClosed first
    have aside : ∀ a ∈ rest, Aside a w middle := fun a member =>
      halfclose_aside (by rintro rfl; exact outside member) first
    have live : ∀ a ∈ rest, (w.heap.cells a).isSome := by
      intro a member
      obtain ⟨other, cell, _⟩ := lists.listed t a (listed a (by simp [member]))
      rw [cell]
      rfl
    simp only [unvisited, found, Option.any_some]
    cases finished : self.finished with
    | true =>
      -- It has left the list, and the walk is over.
      obtain ⟨left, cell, dead⟩ := halfclose_finished found finished first
      have gone : other ∉ (middle.xprt t).epList := by
        intro stays
        obtain ⟨same, cell', _, alive⟩ := lists'.listed t other stays
        cases cell.symm.trans cell'
        simp [dead] at alive
      rw [if_neg gone] at later
      cases later
      rw [if_pos rfl]
      intro a member
      refine ⟨fun visited => ?_, fun skipped => aside a skipped⟩
      rcases List.mem_cons.mp member with rfl | behind
      · exact marked
      · exact absurd behind visited
    | false =>
      have kept := halfclose_unfinished found finished first
      rw [if_pos (by rw [kept]; exact listed other (by simp))] at later
      have visits := ih lists' once' (by rw [kept]; exact fun a member => listed a (by simp [member])) later
      rw [unvisited_aside aside live] at visits
      rw [if_neg (by simp)]
      intro a member
      rcases List.mem_cons.mp member with rfl | behind
      · refine ⟨fun _ => ?_, fun skipped => absurd (unvisited_subset w rest skipped) outside⟩
        obtain ⟨left, cell, _⟩ := id marked
        have apart := halfcloseAll_aside outside later
        exact (apart.halfClosed (by rw [cell]; rfl)).mpr marked
      · exact ⟨(visits a behind).1, fun skipped => (aside a behind).trans ((visits a behind).2 skipped)⟩

/-- At the end of the multiplexed input every endpoint of the other transport is half-closed
exactly if those behind the first one with nothing left to write had been before. -/
theorem endOfFile_halfcloses {upstream downstream : TransportKind} {s : State} {rcount : Nat}
    (reached : Reachable upstream downstream s) (found : s.world.heap.cells ep = some self)
    (granted : proxyRecvBufsiz self sys = .ok rcount)
    (reason : (demuxRead self rcount sys).reason = .endOfFile)
    (done : proxyRecvDemux s.world ep sys = .ok w') :
    (∀ a ∈ (s.world.xprt self.transport.other).epList, w'.HalfClosed a) ↔
      ∀ a ∈ unvisited s.world (s.world.xprt self.transport.other).epList,
        s.world.HalfClosed a := by
  have lists := reached.shape.lists
  rw [recvDemux_eq found granted, reason] at done
  obtain ⟨after, closed, shut⟩ := bind_ok.mp done
  have received : (s.world.receive ep (demuxRead self rcount sys).bp
      (demuxRead self rcount sys).received).Lists := by
    refine World.Lists.emit (lists.modify ?_) _
    exact fun _ _ => ⟨rfl, id, rfl⟩
  have outside : ∀ a ∈ (s.world.xprt self.transport.other).epList, a ≠ ep := by
    rintro a member rfl
    obtain ⟨same, cell, side, _⟩ := lists.listed _ a member
    cases found.symm.trans cell
    exact Side.other_ne _ side.symm
  have live : ∀ a ∈ (s.world.xprt self.transport.other).epList,
      (s.world.heap.cells a).isSome := by
    intro a member
    obtain ⟨other, cell, _⟩ := lists.listed _ a member
    rw [cell]
    rfl
  have filled : ∀ a ∈ (s.world.xprt self.transport.other).epList, Aside a s.world
      (s.world.receive ep (demuxRead self rcount sys).bp (demuxRead self rcount sys).received) :=
    fun a member => Aside.modify (outside a member) _
  have visits := halfcloseAll_visits received (received.listedOnce self.transport.other)
    (fun _ member => member) closed
  have last : ∀ a ∈ (s.world.xprt self.transport.other).epList,
      (w'.HalfClosed a ↔ after.HalfClosed a) := by
    intro a member
    refine (shutdown_aside (outside a member) shut).halfClosed ?_
    have kept : (after.heap.cells a).isSome := by
      by_cases skipped : a ∈ unvisited (s.world.receive ep (demuxRead self rcount sys).bp
          (demuxRead self rcount sys).received) (s.world.xprt self.transport.other).epList
      · obtain ⟨old, cell⟩ := Option.isSome_iff_exists.mp (live a member)
        obtain ⟨credit, cell'⟩ := (filled a member).trans ((visits a member).2 skipped) old cell
        rw [cell']
        rfl
      · obtain ⟨left, cell, _⟩ := (visits a member).1 skipped
        rw [cell]
        rfl
    exact kept
  have reads := unvisited_aside filled live
  constructor
  · intro all a skipped
    have member := unvisited_subset _ _ skipped
    have here := (last a member).mp (all a member)
    have apart := (filled a member).trans ((visits a member).2 (reads.symm ▸ skipped))
    exact (apart.halfClosed (live a member)).mp here
  · intro before a member
    refine (last a member).mpr ?_
    by_cases skipped : a ∈ unvisited s.world (s.world.xprt self.transport.other).epList
    · have apart := (filled a member).trans ((visits a member).2 (reads.symm ▸ skipped))
      exact (apart.halfClosed (live a member)).mpr (before a skipped)
    · exact (visits a member).1 (by rw [← reads] at skipped; exact skipped)

/-- The multiplexed connection is made at the start, and one client comes. -/
def acceptOne : List Syscalls :=
  pollRound [{ pollin := true }] [{ accepts := some 5, acceptedAddr := 2 }, {}]

/-- A second client comes. -/
def acceptTwo : List Syscalls :=
  acceptOne ++ pollRound [{ pollin := true }] [{ accepts := some 6, acceptedAddr := 3 }, {}, {}]

def connectedUpstream : Syscalls := { opens := some 4, connectedAddr := 1, listens := some 3 }

def hangUp : Syscalls := { reads := [some []] }

theorem toOption_some {ε α : Type} {result : Except ε α} {value : α}
    (returned : result.toOption = some value) : result = .ok value := by
  cases result with
  | error fault => cases returned
  | ok other => cases returned; rfl

/-- Which clients are half-closed where the multiplexed connection reads the end of its input. -/
def hangUpView (s : State) : Option (List (Addr × Bool)) := do
  let self ← s.world.heap.cells 1
  let rcount ← (proxyRecvBufsiz self hangUp).toOption
  guard ((demuxRead self rcount hangUp).reason = .endOfFile)
  let w ← (proxyRecvDemux s.world 1 hangUp).toOption
  return (s.world.xprt self.transport.other).epList.map fun a =>
    (a, (w.heap.cells a).any fun other => other.shutdownWrite && other.rfd.isNone)

theorem hangUpView_some (view : hangUpView s = some clients) :
    ∃ self rcount w', s.world.heap.cells 1 = some self ∧
      proxyRecvBufsiz self hangUp = .ok rcount ∧ proxyRecvDemux s.world 1 hangUp = .ok w' ∧
      (demuxRead self rcount hangUp).reason = .endOfFile ∧
      (s.world.xprt self.transport.other).epList.map (fun a =>
        (a, (w'.heap.cells a).any fun other => other.shutdownWrite && other.rfd.isNone)) =
          clients := by
  simp only [hangUpView, Option.bind_eq_bind, Option.bind_eq_some_iff, Option.pure_def, Option.some.injEq] at view
  obtain ⟨self, found, rcount, granted, _, reason, w', done, rfl⟩ := view
  have ended : (demuxRead self rcount hangUp).reason = .endOfFile := by
    by_contra other
    simp [guard, other] at reason
  exact ⟨self, rcount, w', found, toOption_some granted, toOption_some done, ended, rfl⟩

theorem endOfFile_halfcloses_one : ∃ s self w',
    Reachable (.unixMux "up") (.unix "down") s ∧ s.world.heap.cells 1 = some self ∧
      proxyRecvDemux s.world 1 hangUp = .ok w' ∧
      (s.world.xprt self.transport.other).epList ≠ [] ∧
      ((∀ a ∈ (s.world.xprt self.transport.other).epList, w'.HalfClosed a) ↔
        ∀ a ∈ unvisited s.world (s.world.xprt self.transport.other).epList,
          s.world.HalfClosed a) := by
  obtain ⟨s, ran, view⟩ := run_some (.unixMux "up") (.unix "down") connectedUpstream acceptOne
    hangUpView (some [(2, true)]) (by decide +kernel)
  obtain ⟨self, rcount, w', found, granted, done, reason, clients⟩ := hangUpView_some view
  have some' : (s.world.xprt self.transport.other).epList ≠ [] := by
    intro empty
    simp [empty] at clients
  have reached := reachable_of_run ran
  exact ⟨s, self, w', reached, found, done, some',
    endOfFile_halfcloses reached found granted reason done⟩

/-- Nothing is queued to the first client, which is buried; the second is not looked at. -/
theorem endOfFile_skips : ¬ ∀ (upstream downstream : TransportKind) (s : State) (ep : Addr)
    (self : Endpoint) (sys : Syscalls) (rcount : Nat) (w' : World),
    Reachable upstream downstream s → s.world.heap.cells ep = some self →
      proxyRecvBufsiz self sys = .ok rcount → (demuxRead self rcount sys).reason = .endOfFile →
      proxyRecvDemux s.world ep sys = .ok w' →
        ∀ a ∈ (s.world.xprt self.transport.other).epList, w'.HalfClosed a := by
  intro claimed
  obtain ⟨s, ran, view⟩ := run_some (.unixMux "up") (.unix "down") connectedUpstream acceptTwo
    hangUpView (some [(2, true), (3, false)]) (by decide +kernel)
  obtain ⟨self, rcount, w', found, granted, done, reason, clients⟩ := hangUpView_some view
  have second : ((3 : Addr), false) ∈ (s.world.xprt self.transport.other).epList.map (fun a =>
      (a, (w'.heap.cells a).any fun other => other.shutdownWrite && other.rfd.isNone)) := by
    rw [clients]
    simp
  obtain ⟨a, member, pair⟩ := List.mem_map.mp second
  obtain ⟨rfl, reads⟩ := Prod.mk.inj pair
  obtain ⟨other, cell, marked, closed⟩ := claimed _ _ s 1 self hangUp rcount w'
    (reachable_of_run ran) found granted reason done 3 member
  simp [cell, marked, closed] at reads

/-- The endpoints that are polled are those with a descriptor, those in the garbage have none, and
none is in two places or twice in one. -/
theorem endpoints_listed {s : State} (reached : Reachable upstream downstream s) (t : Side) :
    (∀ a, s.world.Polled t a ↔ ∃ self, s.world.heap.cells a = some self ∧ self.transport = t ∧ self.dead = false) ∧
    (∀ a ∈ (s.world.xprt t).garbageList,
      ∃ self, s.world.heap.cells a = some self ∧ self.transport = t ∧ self.dead = true) ∧
    ((s.world.xprt t).epList ++ (s.world.xprt t).multiplex.toList ++ (s.world.xprt t).garbageList).Nodup := by
  obtain ⟨⟨lists, -, -⟩, -, listed⟩ := RunUnder.invariant (World.Listed · [])
    (fun _ started => started.listed) (fun _ _ _ _ listed acted => listed.act acted)
    (fun s sys _ => permits_free s sys) reached.runUnder
  have polled {a : Addr} (polled : s.world.Polled t a) :
      ∃ self, s.world.heap.cells a = some self ∧ self.transport = t ∧ self.dead = false := by
    rcases polled with member | link
    · exact lists.listed t a member
    · obtain ⟨-, self, found, side, alive, -⟩ := lists.link t a link
      exact ⟨self, found, side, alive⟩
  refine ⟨fun a => ⟨polled, ?_⟩, lists.garbage t, ?_⟩
  · rintro ⟨self, found, rfl, alive⟩
    exact listed a self found alive List.not_mem_nil
  have alive : ((s.world.xprt t).epList ++ (s.world.xprt t).multiplex.toList).Nodup := by
    refine List.nodup_append.mpr ⟨lists.listedOnce t, by cases (s.world.xprt t).multiplex <;> simp, ?_⟩
    rintro a member _ link rfl
    exact (lists.link t a (Option.mem_toList.mp link)).1 member
  refine List.nodup_append.mpr ⟨alive, lists.garbageOnce t, ?_⟩
  rintro a member _ dead rfl
  obtain ⟨_, found, -, alive⟩ := polled ((List.mem_append.mp member).imp id Option.mem_toList.mp)
  obtain ⟨_, found', -, dead⟩ := lists.garbage t a dead
  cases found.symm.trans found'
  simp [alive] at dead

theorem endpoints_listed_accepted : ∃ s self, Reachable (.unixMux "up") (.unix "down") s ∧
    s.world.heap.cells 1 = some self ∧ self.transport = .upstream ∧ self.dead = false := by
  obtain ⟨s, ran, link⟩ := run_some (.unixMux "up") (.unix "down") connectedUpstream acceptOne
    (fun s => (s.world.xprt .upstream).multiplex) (some 1) (by decide +kernel)
  have reached := reachable_of_run ran
  obtain ⟨self, found⟩ := ((endpoints_listed reached .upstream).1 1).mp (.inr link)
  exact ⟨s, self, reached, found⟩

end Testbus.Proxy
