import Testbus.Proxy.Runs

/-! What names an endpoint: the sinks of the others and the sources of the messages
on their queues. Freeing an endpoint undoes only the names its partner has for it. -/

namespace Testbus.Proxy

open Lib World

variable {w w' : World}

/-- The endpoint points to an address, as its sink or from its write queue. -/
def Endpoint.Names (self : Endpoint) (a : Addr) : Prop :=
  self.sink = some a ∨ ∃ mbuf ∈ self.wqueue, mbuf.source = some a

/-- Nothing points to an endpoint that was freed. -/
def World.References (w : World) : Prop :=
  ∀ a self, w.heap.cells a = some self → ∀ b, self.Names b → b ∈ w.heap.live

theorem World.References.map (references : w.References) {change : Addr → Endpoint → Endpoint}
    (changed : ∀ a, w'.heap.cells a = (w.heap.cells a).map (change a))
    (named : ∀ a self, w.heap.cells a = some self → ∀ b, (change a self).Names b →
      self.Names b ∨ b ∈ w.heap.live) : w'.References := by
  intro a new found b names
  have live : b ∈ w.heap.live → b ∈ w'.heap.live := by
    rw [Store.filled, Store.filled, changed, Option.isSome_map]
    exact id
  rw [changed] at found
  obtain ⟨old, cell, rfl⟩ := Option.map_eq_some_iff.mp found
  rcases named a old cell b names with old' | here
  · exact live (references a old cell b old')
  · exact live here

theorem World.References.shrink (references : w.References) {change : Addr → Endpoint → Endpoint}
    (changed : ∀ a, w'.heap.cells a = (w.heap.cells a).map (change a))
    (sink : ∀ a other, (change a other).sink = other.sink ∨ (change a other).sink = none)
    (queue : ∀ a other, w.heap.cells a = some other → (change a other).wqueue ⊆ other.wqueue) : w'.References := by
  refine references.map changed ?_
  rintro a other found b (target | ⟨mbuf, member, source⟩)
  · rcases sink a other with same | gone
    · exact .inl (.inl (same.symm.trans target))
    · cases gone.symm.trans target
  · exact .inl (.inr ⟨mbuf, queue a other found member, source⟩)

theorem World.References.modify (references : w.References) {change : Endpoint → Endpoint}
    (sink : ∀ other, (change other).sink = other.sink ∨ (change other).sink = none)
    (queue : ∀ other, (change other).wqueue = other.wqueue) : (w.modify ep change).References := by
  refine references.shrink (cells_modify w ep · change) ?_ ?_
  · intro a other
    by_cases same : a = ep <;> simp [same, sink]
  · intro a other _
    by_cases same : a = ep <;> simp [same, queue]

theorem World.References.heap (references : w.References) (same : w'.heap = w.heap) : w'.References := by
  simpa [World.References, same] using references

theorem World.References.charge (references : w.References)
    (live : ∀ source, mbuf.source = some source → source ∈ w.heap.live) (sink : Addr) :
    (w.charge sink mbuf).References := by
  refine references.map (cells_charge w sink mbuf) ?_
  rintro a self found b (target | ⟨other, member, source⟩)
  · exact .inl (.inl target)
  · by_cases same : a = sink
    · rcases List.mem_append.mp (show other ∈ self.wqueue ++ [mbuf] by simpa [same] using member)
        with old | new
      · exact .inl (.inr ⟨other, old, source⟩)
      · rw [List.mem_singleton.mp new] at source
        exact .inr (live b source)
    · exact .inl (.inr ⟨other, by simpa [same] using member, source⟩)

theorem World.References.adopt (references : w.References)
    (live : sink ∈ w.heap.live) : (w.adopt ep t sink).References := by
  refine references.map (cells_adopt w ep t sink) ?_
  rintro a self found b (target | queued)
  · by_cases same : a = ep
    · cases show some sink = some b by simpa [same] using target
      exact .inr live
    · exact .inl (.inl (by simpa [same] using target))
  · exact .inl (.inr queued)

theorem World.References.clear (references : w.References) (ep : Addr) : (w.clear ep).References :=
  references.shrink (cells_clear w ep) (fun _ _ => .inl rfl) fun _ _ _ => List.Subset.refl _

theorem World.References.spawn (references : w.References) (self : Endpoint) (queue : self.wqueue = [])
    (sink : self.sink = none) (t : Side) (ep : Addr) (next : UInt32) (events : List Event) :
    (w.spawn t ep self next events).References := by
  intro a other found b names
  rw [cells_spawn] at found
  split at found
  · cases found
    rcases names with target | ⟨mbuf, member, _⟩
    · simp [sink] at target
    · simp [queue] at member
  · exact Finset.mem_insert_of_mem (references a other found b names)

theorem live_spawn {next : UInt32} {events : List Event} :
    a ∈ (w.spawn t ep self next events).heap.live ↔ a = ep ∨ a ∈ w.heap.live := Finset.mem_insert

theorem World.References.shutRead (references : w.References) (fd : Fd) :
    ((w.shutRead ep self fd).settle ep).References :=
  (references.shrink (cells_shutRead w ep self fd) (fun _ _ => .inl rfl)
    fun _ _ _ => List.Subset.refl _).heap (heap_settle _ _)

theorem World.References.quiet (references : w.References) (moved : Quiet w w') : w'.References := by
  cases moved with
  | @pull ep self mbuf rest found idle queue =>
    refine references.shrink (cells_pull w ep mbuf rest) (fun _ _ => .inl rfl) ?_
    intro a other cell
    by_cases same : a = ep
    · subst same
      cases found.symm.trans cell
      simp [queue]
    · simp [same]
  | closeRead => exact references.shutRead _
  | @closeWrite ep self fd found =>
    refine World.References.heap ?_ (heap_settle _ _)
    refine references.shrink (cells_shutWrite found fd) (fun _ _ => .inl rfl) ?_
    intro a other _
    by_cases same : a = ep <;> simp [same]
  | rebury => exact references.heap (heap_settle _ _)

/-- Everything but releasing an endpoint. -/
def Guard.holding : Guard where
  accept _ _ := True
  receive _ _ := True
  frame _ _ _ _ := True
  release _ _ := False

theorem World.References.act (references : w.References) (lists : w.Lists)
    (acted : Act .holding w w') : w'.References := by
  cases acted with
  | quiet moved => exact references.quiet moved
  | mark | connect => exact references.modify (fun _ => .inl rfl) fun _ => rfl
  | detach => exact references.modify (fun _ => .inr rfl) fun _ => rfl
  | transmit =>
    exact World.References.modify (w := w.emit _) references (fun _ => .inl rfl) fun _ => rfl
  | copied found =>
    refine World.References.charge (w := w.emit _) references ?_ _
    rintro source ⟨⟩
    exact Store.mem_live found
  | framed found target present handler source =>
    refine World.References.charge (w := w.emit _) references ?_ _
    intro origin named
    cases source.symm.trans named
    exact Store.mem_live found
  | leave =>
    refine World.References.shutRead (references.charge ?_ _) _
    rintro source ⟨⟩
  | @receive ep self bp bytes =>
    have filled : (w.modify ep fun self => { self with rbuf := some bp }).References :=
      references.modify (fun _ => .inl rfl) fun _ => rfl
    exact filled.heap rfl
  | @opened source self bp sys born next arrived cmd absent fresh =>
    have before : (w.emit (.dispatched source bp.contents)).References := references
    have spawned : ((w.emit (.dispatched source bp.contents)).spawn self.transport.other
        sys.connectedAddr { born with rxCredit := defaultCreditSimplex } next
        [.created sys.connectedAddr]).References :=
      before.spawn { born with rxCredit := defaultCreditSimplex } fresh.wqueue fresh.sink _ _ _ _
    have target : source ∈ ((w.emit (.dispatched source bp.contents)).spawn self.transport.other
        sys.connectedAddr { born with rxCredit := defaultCreditSimplex } next
        [.created sys.connectedAddr]).heap.live := live_spawn.mpr (.inr (Store.mem_live arrived.found))
    exact (spawned.adopt target).clear _
  | @ignored source self bp =>
    exact World.References.clear (w := w.emit (.dispatched source bp.contents)) references _
  | @closing source self bp sys sink =>
    have marked : ((w.emit (.dispatched source bp.contents)).modify sink
        fun other => { other with shutdownWrite := true }).References :=
      World.References.modify (w := w.emit _) references (fun _ => .inl rfl) fun _ => rfl
    exact marked.clear _
  | @deliver source self bp sys sink arrived =>
    refine World.References.clear (World.References.charge (w := (w.emit _).emit _) references ?_ _) _
    rintro origin ⟨⟩
    exact Store.mem_live arrived.found
  | administer => exact references.heap rfl
  | @announced self sys sink allowed absent fresh simplex channel link =>
    obtain ⟨_, other, present, _⟩ := lists.link _ _ link
    have spawned := references.spawn self fresh.wqueue fresh.sink .downstream sys.acceptedAddr
      ((w.xprt .downstream).nextChannelId + 1)
      [.created sys.acceptedAddr, .accepted self.channelId]
    refine (spawned.charge ?_ sink).adopt ?_
    · rintro source ⟨⟩
    · rw [Store.filled, cells_charge, Option.isSome_map, ← Store.filled]
      exact live_spawn.mpr (.inr (Store.mem_live present))
  | @paired self other sys allowed absent fresh simplex channel alone vacant different partner =>
    have spawned := (references.spawn self fresh.wqueue fresh.sink .downstream sys.acceptedAddr
      ((w.xprt .downstream).nextChannelId + 1)
      [.created sys.acceptedAddr, .accepted self.channelId]).spawn other partner.wqueue partner.sink
      .upstream sys.connectedAddr (w.xprt .upstream).nextChannelId [.created sys.connectedAddr]
    refine (spawned.adopt ?_).adopt ?_
    · exact live_spawn.mpr (.inr (live_spawn.mpr (.inl rfl)))
    · rw [Store.filled, cells_adopt, Option.isSome_map, ← Store.filled]
      exact live_spawn.mpr (.inl rfl)
  | @multiplexed self sys listenFd allowed absent fresh =>
    exact (references.spawn self fresh.wqueue fresh.sink .downstream sys.acceptedAddr (w.xprt .downstream).nextChannelId
      [.created sys.acceptedAddr, .accepted self.channelId]).heap rfl
  | @flush ep self t found =>
    refine references.shrink (cells_flush found t) (fun _ _ => .inl rfl) ?_
    intro a other _
    by_cases same : a = ep <;> simp [same]
  | release found dead empty allowed => exact allowed.elim

/-- What a step leaves of the other endpoints: the partner of a freed one is shut down
and forgets it, if `partner` holds. -/
structure Endpoint.Outlives (partner : Prop) (old new : Endpoint) : Prop where
  sink : (¬ partner ∧ new.sink = old.sink) ∨ (partner ∧ new.sink = none)
  queue : ((partner → old.wfd = none) ∧ new.wqueue = old.wqueue) ∨ (partner ∧ new.wqueue = [])
  wfd : ¬ partner → new.wfd = old.wfd
  dead : old.dead = true → new.dead = true

/-- Shutting down an endpoint empties its queue, unless its write side was closed before. -/
theorem shutdown_survivors (shut : ioEndpointShutdown w sink .rdwr = .ok w') :
    ∃ change : Addr → Endpoint → Endpoint, (∀ a, w'.heap.cells a = (w.heap.cells a).map (change a)) ∧
      ∀ a other, w.heap.cells a = some other → (change a other).sink = other.sink ∧
        (((a = sink → other.wfd = none) ∧ (change a other).wqueue = other.wqueue) ∨
          (a = sink ∧ (change a other).wqueue = [])) ∧
        (a ≠ sink → (change a other).wfd = other.wfd) ∧ (other.dead = true → (change a other).dead = true) := by
  obtain ⟨first, read, rest⟩ := bind_ok.mp shut
  obtain ⟨second, written, buried⟩ := bind_ok.mp rest
  obtain ⟨_, _, rfl⟩ := buryDead_ok buried
  have reading : ∃ change : Addr → Endpoint → Endpoint, (∀ a, first.heap.cells a = (w.heap.cells a).map (change a)) ∧
      ∀ a other, (change a other).sink = other.sink ∧ (change a other).wqueue = other.wqueue ∧
        (change a other).wfd = other.wfd ∧ (other.dead = true → (change a other).dead = true) := by
    obtain ⟨self, found, ⟨_, rfl⟩ | ⟨fd, _, rfl⟩⟩ := shutdownRead_ok read
    · exact ⟨fun _ self => self, fun a => by simp, fun _ _ => ⟨rfl, rfl, rfl, id⟩⟩
    · refine ⟨_, cells_shutRead w sink self fd, fun a other => ⟨rfl, rfl, rfl, ?_⟩⟩
      simp only [Endpoint.dead, Bool.and_eq_true]
      exact fun dead => ⟨by split <;> simp [dead.1], dead.2⟩
  obtain ⟨early, firstCells, kept⟩ := reading
  have writing : ∃ change : Addr → Endpoint → Endpoint, (∀ a, second.heap.cells a = (first.heap.cells a).map (change a)) ∧
      ∀ a other, first.heap.cells a = some other → (change a other).sink = other.sink ∧
        (((a = sink → other.wfd = none) ∧ (change a other).wqueue = other.wqueue) ∨
          (a = sink ∧ (change a other).wqueue = [])) ∧
        (a ≠ sink → (change a other).wfd = other.wfd) ∧
        (other.dead = true → (change a other).dead = true) := by
    obtain ⟨self, found, ⟨closed, rfl⟩ | ⟨middle, left, fd, _, pulled, cell, _, _, _, rfl⟩⟩ := shutdownWrite_ok written
    · refine ⟨fun _ self => self, fun a => by simp, fun a other here => ⟨rfl, .inl ⟨?_, rfl⟩, fun _ => rfl, id⟩⟩
      rintro rfl
      cases found.symm.trans here
      exact closed
    · have pulling : ∃ change : Addr → Endpoint → Endpoint,
          (∀ a, middle.heap.cells a = (first.heap.cells a).map (change a)) ∧
          ∀ a other, (change a other).sink = other.sink ∧ (change a other).wfd = other.wfd ∧
            (change a other).rfd = other.rfd ∧
            (a ≠ sink → (change a other).wqueue = other.wqueue) := by
        cases pulled with
        | same => exact ⟨fun _ self => self, fun a => by simp, fun _ _ => ⟨rfl, rfl, rfl, fun _ => rfl⟩⟩
        | @pull _ mbuf others =>
          exact ⟨_, cells_pull first sink mbuf others,
            fun a other => ⟨rfl, rfl, rfl, fun different => by simp [different]⟩⟩
      obtain ⟨pull, middleCells, same⟩ := pulling
      refine ⟨_, fun a => by rw [cells_shutWrite cell fd a, middleCells, Option.map_map], ?_⟩
      intro a other _
      refine ⟨(same a other).1, ?_, fun different => ?_, ?_⟩
      · by_cases here : a = sink
        · exact .inr ⟨here, by simp [here]⟩
        · exact .inl ⟨fun equal => absurd equal here, by simp [here, (same a other).2.2.2 here]⟩
      · simp [different, (same a other).2.1]
      · simp only [Endpoint.dead, Bool.and_eq_true, Function.comp_apply, (same a other).2.1, (same a other).2.2.1]
        exact fun dead => ⟨dead.1, by split <;> simp [dead.2]⟩
  obtain ⟨late, secondCells, kept'⟩ := writing
  refine ⟨fun a other => late a (early a other), ?_, ?_⟩
  · intro a
    rw [heap_settle, secondCells, firstCells, Option.map_map]
    rfl
  · intro a other found
    obtain ⟨sink', queue', wfd', dead'⟩ := kept a other
    obtain ⟨sink'', queue'', wfd'', dead''⟩ := kept' a (early a other) (by rw [firstCells, found]; rfl)
    rw [wfd', queue'] at queue''
    exact ⟨sink''.trans sink', queue'', fun different => (wfd'' different).trans wfd', fun dead => dead'' (dead' dead)⟩

/-- Freeing a member of the garbage list leaves the others, its partner shut down. -/
theorem free_survivors (found : w.heap.cells ep = some self)
    (freed : ioEndpointFree (w.modifyXprt t fun xprt =>
      { xprt with garbageList := xprt.garbageList.erase ep }) ep = .ok w') :
    w'.heap.cells ep = none ∧
    (∀ a, a ≠ ep → w.heap.cells a = none → w'.heap.cells a = none) ∧
    ∀ a other, a ≠ ep → w.heap.cells a = some other →
      ∃ left, w'.heap.cells a = some left ∧ other.Outlives (self.sink = some a ∧ other.sink = some ep) left := by
  obtain ⟨same, middle, found', detached, rfl⟩ := free_ok freed
  cases found.symm.trans found'
  change Detached (w.flush ep t self.wqueue) ep self.sink middle at detached
  have flushed := cells_flush found t
  have emptied : ∀ a other, a ≠ ep → w.heap.cells a = some other →
      ∃ credit, (w.flush ep t self.wqueue).heap.cells a = some { other with rxCredit := credit } := by
    intro a other different cell
    refine ⟨other.rxCredit + owed self.wqueue a, ?_⟩
    rw [flushed, cell]
    simp [different]
  generalize self.sink = sink at detached ⊢
  refine ⟨by rw [cells_release, if_pos rfl], ?_, ?_⟩
  · intro a different absent
    rw [cells_release, if_neg different]
    have gone : (w.flush ep t self.wqueue).heap.cells a = none := by rw [flushed, absent]; rfl
    cases detached with
    | single | apart => exact gone
    | partner _ _ shut =>
      obtain ⟨change, changed, _⟩ := shutdown_survivors shut
      rw [cells_modify, changed, gone]
      rfl
  · intro a other different cell
    obtain ⟨credit, here⟩ := emptied a other different cell
    rw [cells_release, if_neg different]
    cases detached with
    | single =>
      refine ⟨_, here, ⟨.inl ⟨by simp, rfl⟩, .inl ⟨by simp, rfl⟩, fun _ => rfl, id⟩⟩
    | @apart sink partner there loose =>
      have alone : ¬ (some sink = some a ∧ other.sink = some ep) := by
        rintro ⟨⟨⟩, points⟩
        cases there.symm.trans here
        exact loose points
      exact ⟨_, here, ⟨.inl ⟨alone, rfl⟩, .inl ⟨fun both => absurd both alone, rfl⟩, fun _ => rfl, id⟩⟩
    | @partner sink partner middle there paired shut =>
      obtain ⟨change, changed, kept⟩ := shutdown_survivors shut
      obtain ⟨sink', queue', wfd', dead'⟩ := kept a _ here
      rw [cells_modify, changed, here]
      by_cases equal : a = sink
      · subst equal
        cases there.symm.trans here
        refine ⟨_, rfl, ⟨.inr ⟨⟨rfl, paired⟩, by simp⟩, ?_, fun alone => absurd ⟨rfl, paired⟩ alone, ?_⟩⟩
        · rcases queue' with ⟨closed, same⟩ | ⟨_, none'⟩
          · exact .inl ⟨fun _ => closed rfl, by simpa using same⟩
          · exact .inr ⟨⟨rfl, paired⟩, by simpa using none'⟩
        · simpa [Endpoint.dead] using dead'
      · have alone : ¬ (some sink = some a ∧ other.sink = some ep) := by
          rintro ⟨⟨⟩, _⟩
          exact equal rfl
        refine ⟨_, rfl, ⟨.inl ⟨alone, ?_⟩, .inl ⟨fun both => absurd both alone, ?_⟩, ?_, ?_⟩⟩
        · simpa [equal] using sink'
        · rcases queue' with ⟨_, same⟩ | ⟨here', _⟩
          · simpa [equal] using same
          · exact absurd here' equal
        · intro _
          simpa [equal] using wfd' equal
        · simpa [equal, Endpoint.dead] using dead'

theorem Endpoint.Outlives.names {partner : Prop} {old new : Endpoint}
    (outlives : old.Outlives partner new) (names : new.Names a) : old.Names a := by
  rcases names with target | ⟨mbuf, member, source⟩
  · rcases outlives.sink with ⟨_, same⟩ | ⟨_, gone⟩
    · exact .inl (same.symm.trans target)
    · cases gone.symm.trans target
  · rcases outlives.queue with ⟨_, same⟩ | ⟨_, empty⟩
    · exact .inr ⟨mbuf, by rwa [same] at member, source⟩
    · simp [empty] at member

/-- Of the endpoints that stay, only its partner points to one that is freed, and the
partner's queue does so only while its write side is open. -/
def World.Releasable (w : World) (members : List Addr) : Prop :=
  ∀ a ∈ members, ∀ self, w.heap.cells a = some self →
    ∀ b other, w.heap.cells b = some other → b ∉ members → other.Names a →
      self.sink = some b ∧ other.sink = some a ∧
        (other.wfd.isSome ∨ ∀ mbuf ∈ other.wqueue, mbuf.source ≠ some a)

/-- The walk over the garbage list: what stays points only to what is alive or still
to be freed. -/
theorem purgeMembers_references {members : List Addr} (once : members.Nodup)
    (dead : ∀ a ∈ members, ∃ self, w.heap.cells a = some self ∧ self.dead = true) (releasable : w.Releasable members)
    (outside : ∀ a self, w.heap.cells a = some self → a ∉ members → ∀ b, self.Names b → b ∈ w.heap.live)
    (purged : purgeMembers w t .garbageList members = .ok w') : w'.References := by
  induction members generalizing w with
  | nil =>
    cases purged
    exact fun a self found => outside a self found (by simp)
  | cons cur rest ih =>
    obtain ⟨self, found, gone⟩ := dead cur (by simp)
    obtain ⟨same, dereffed, purged⟩ := bind_ok.mp purged
    cases found.symm.trans (deref_ok.mp dereffed)
    rw [if_pos gone] at purged
    obtain ⟨middle, freed, later⟩ := bind_ok.mp purged
    obtain ⟨missing, absent, survives⟩ := free_survivors found freed
    obtain ⟨notMember, onceRest⟩ := List.nodup_cons.mp once
    -- Whoever is alive afterwards was so before, and is not the one that was freed.
    have older : ∀ b left, middle.heap.cells b = some left → b ≠ cur ∧
        ∃ other, w.heap.cells b = some other ∧ other.Outlives (self.sink = some b ∧ other.sink = some cur) left := by
      intro b left cell
      have different : b ≠ cur := by
        rintro rfl
        cases missing.symm.trans cell
      cases before : w.heap.cells b with
      | none => cases (absent b different before).symm.trans cell
      | some other =>
        obtain ⟨left', cell', outlives⟩ := survives b other different before
        cases cell.symm.trans cell'
        exact ⟨different, other, rfl, outlives⟩
    refine ih onceRest ?_ ?_ ?_ later
    · intro a member
      obtain ⟨other, cell, dead'⟩ := dead a (by simp [member])
      have different : a ≠ cur := by
        rintro rfl
        exact notMember member
      obtain ⟨left, cell', outlives⟩ := survives a other different cell
      exact ⟨left, cell', outlives.dead dead'⟩
    · intro a member left cell b left' cell' stays names
      obtain ⟨different, other, before, outlives⟩ := older a left cell
      obtain ⟨different', other', before', outlives'⟩ := older b left' cell'
      obtain ⟨target, back, open'⟩ := releasable a (by simp [member]) other before b other' before'
        (by simp [different', stays]) (outlives'.names names)
      have single : ¬ (self.sink = some a ∧ other.sink = some cur) := by
        rintro ⟨_, points⟩
        exact different' (Option.some.inj (target.symm.trans points))
      have single' : ¬ (self.sink = some b ∧ other'.sink = some cur) := by
        rintro ⟨_, points⟩
        exact different (Option.some.inj (back.symm.trans points))
      refine ⟨?_, ?_, ?_⟩
      · rcases outlives.sink with ⟨_, kept⟩ | ⟨both, _⟩
        · exact kept.trans target
        · exact absurd both single
      · rcases outlives'.sink with ⟨_, kept⟩ | ⟨both, _⟩
        · exact kept.trans back
        · exact absurd both single'
      · rcases outlives'.queue with ⟨_, kept⟩ | ⟨both, _⟩
        · rwa [kept, outlives'.wfd single']
        · exact absurd both single'
    · intro b left cell stays a names
      obtain ⟨different, other, before, outlives⟩ := older b left cell
      have named := outlives.names names
      have outside' : b ∉ cur :: rest := by simp [different, stays]
      by_cases same : a = cur
      · subst same
        obtain ⟨target, back, open'⟩ := releasable a (by simp) self found b other before outside' named
        have partner : self.sink = some b ∧ other.sink = some a := ⟨target, back⟩
        exfalso
        rcases names with points | ⟨mbuf, member, source⟩
        · rcases outlives.sink with ⟨alone, _⟩ | ⟨_, cleared⟩
          · exact alone partner
          · cases cleared.symm.trans points
        · rcases outlives.queue with ⟨closed, kept⟩ | ⟨_, empty⟩
          · rcases open' with writing | nowhere
            · simp [closed partner] at writing
            · exact nowhere mbuf (by rwa [← kept]) source
          · simp [empty] at member
      · obtain ⟨target, cell'⟩ := Store.mem_live_iff.mp (outside b other before outside' a named)
        obtain ⟨left', cell'', _⟩ := survives a target same cell'
        exact Store.mem_live cell''

/-- Where a step purges a transport, its garbage list can be released. -/
def State.Releasable (s : State) : Prop :=
  ∀ t info, s.phase = .collect t info → s.world.Releasable (s.world.xprt t).garbageList

theorem step_references (shape : s.world.Shape) (references : s.world.References) (releasable : s.Releasable)
    (moved : step s sys = .ok s') : s'.world.References := by
  by_cases purging : ∃ t info, s.phase = .collect t info
  · obtain ⟨t, info, phase⟩ := purging
    have here := releasable t info phase
    obtain ⟨w, phase'⟩ := s
    cases phase
    obtain ⟨⟨after, more⟩, collected, rest⟩ := bind_ok.mp moved
    cases rest
    have garbage := transportPurge_garbage shape.lists (pollCollect_purge collected)
    refine purgeMembers_references (shape.lists.garbageOnce t) ?_ here ?_ garbage
    · intro a member
      obtain ⟨self, found, _, gone⟩ := shape.lists.garbage t a member
      exact ⟨self, found, gone⟩
    · exact fun a self found _ => references a self found
  · have permits : Permits .holding s sys :=
      ⟨fun _ _ => trivial, fun _ _ => trivial, fun _ _ _ _ => trivial,
        fun t info phase => absurd ⟨t, info, phase⟩ purging, fun _ => trivial⟩
    have acted := step_acts shape permits moved
    generalize s'.world = w' at acted
    induction acted with
    | refl => exact references
    | tail before last ih => exact ih.act (shape.lists.acts before) last

theorem Started.references
    (started : Started upstream downstream w) : w.References := by
  intro a self found b names
  rcases started.endpoints with ⟨_, _, cells, _⟩ | ⟨ep, only, _, _, fresh, _, _, cells, _⟩
  · simp [cells] at found
  · rw [cells] at found
    split at found
    · cases found
      rcases names with target | ⟨mbuf, member, _⟩
      · simp [fresh.sink] at target
      · simp [fresh.wqueue] at member
    · cases found

/-- In a run that frees an endpoint only while nobody but its partner points to it,
no sink and no source of a queued message is an endpoint that was freed. -/
theorem references_live {upstream downstream : TransportKind} {s : State}
    (reached : RunUnder (fun s _ => s.Releasable) upstream downstream s) :
    s.world.References := by
  obtain ⟨setup, start, answers, done, along, ran⟩ := reached
  have begin' := (proxyInit_ok done).2
  refine (Machine.invariant_run (fun s => s.world.Shape ∧ s.world.References) ?_
    ⟨begin'.shape, begin'.references⟩ along ran).2
  intro s sys next holds releasable moved
  exact ⟨holds.1.acts (step_acts holds.1 (permits_free s sys) moved),
    step_references holds.1 holds.2 releasable moved⟩

instance (self : Endpoint) (a : Addr) : Decidable (self.Names a) :=
  inferInstanceAs (Decidable (_ ∨ ∃ mbuf ∈ self.wqueue, mbuf.source = some a))

/-- Evaluates `State.Releasable`. -/
def releasableCheck (s : State) (_ : Syscalls) : Bool :=
  match s.phase with
  | .collect t _ =>
    let members := (s.world.xprt t).garbageList
    decide (∀ a ∈ members, ∀ b ∈ s.world.heap.live, b ∈ members ∨
      (s.world.heap.cells a).all fun self => (s.world.heap.cells b).all fun other =>
        decide (other.Names a → self.sink = some b ∧ other.sink = some a ∧
          (other.wfd.isSome ∨ ∀ mbuf ∈ other.wqueue, mbuf.source ≠ some a)))
  | _ => true

theorem releasableCheck_sound (s : State) (sys : Syscalls) (checked : releasableCheck s sys = true) : s.Releasable := by
  intro t info phase a member self found b other cell outside names
  simp only [releasableCheck, phase, decide_eq_true_eq] at checked
  have here := (checked a member b (Store.mem_live cell)).resolve_left outside
  simp only [found, cell, Option.all_some, decide_eq_true_eq] at here
  exact here names

/-- A client of two plain transports sends a byte and closes; it is freed, and then its
partner is. -/
def closeClient : List Syscalls :=
  pollRound [{ pollin := true }]
    [{ accepts := some 4, acceptedAddr := 1, opens := some 5, connectedAddr := 2 }] ++
  pollRound [{}, { pollin := true }] [{}, { reads := [some [7]] }] ++
  pollRound [{}, {}, { pollin := true, pollhup := true }] [{}, {}, { reads := [some []] }] ++
  pollRound [] [{}]

theorem references_live_closed : ∃ s,
    RunUnder (fun s _ => s.Releasable) (.unix "up") (.unix "down") s ∧
      s.world.heap.live = {2} ∧ s.world.References := by
  obtain ⟨s, ran, live⟩ := run_some (.unix "up") (.unix "down") { listens := some 3 }
    closeClient (fun s => s.world.heap.live) {2} (by decide +kernel)
  have reached := runUnder_of_check releasableCheck_sound (by decide +kernel) ran
  exact ⟨s, reached, live, references_live reached⟩

/-- The upstream connection refuses a write, one more byte is queued to it, and the
client closes and is freed. -/
def abandonQueue : List Syscalls :=
  pollRound [{ pollin := true }]
    [{ accepts := some 4, acceptedAddr := 1, opens := some 5, connectedAddr := 2 }] ++
  pollRound [{}, { pollin := true }] [{}, { reads := [some [7]] }] ++
  pollRound [{}, { pollout := true }, { pollin := true }]
    [{}, { write := .epipe }, { reads := [some [8]] }] ++
  pollRound [{}, {}, { pollin := true, pollhup := true }] [{}, {}, { reads := [some []] }] ++
  pollRound [] [{}]

theorem references_dangle : ¬ ∀ (upstream downstream : TransportKind) (s : State),
    Reachable upstream downstream s → s.world.References := by
  intro claimed
  obtain ⟨s, ran, view⟩ := run_some (.unix "up") (.unix "down") { listens := some 3 }
    abandonQueue
    (fun s => (s.world.heap.live,
      (s.world.heap.cells 2).map fun self => self.wqueue.map Mbuf.source))
    ({2}, some [some 1]) (by decide +kernel)
  obtain ⟨live, cell⟩ := Prod.mk.inj view
  obtain ⟨self, found, queue⟩ := Option.map_eq_some_iff.mp cell
  obtain ⟨mbuf, member, source⟩ :=
    List.mem_map.mp (show some 1 ∈ self.wqueue.map Mbuf.source by simp [queue])
  have dangling := claimed _ _ s (reachable_of_run ran) 2 self found 1 (.inr ⟨mbuf, member, source⟩)
  simp [live] at dangling

end Testbus.Proxy
