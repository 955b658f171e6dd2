import Testbus.Proxy.Act

namespace Testbus.Proxy

open Lib World

structure World.Lists (w : World) : Prop where
  listed : ∀ t, ∀ ep ∈ (w.xprt t).epList, ∃ self, w.heap.cells ep = some self ∧
    self.transport = t ∧ self.dead = false
  garbage : ∀ t, ∀ ep ∈ (w.xprt t).garbageList, ∃ self, w.heap.cells ep = some self ∧
    self.transport = t ∧ self.dead = true
  link : ∀ t ep, (w.xprt t).multiplex = some ep → ep ∉ (w.xprt t).epList ∧
    ∃ self, w.heap.cells ep = some self ∧ self.transport = t ∧ self.dead = false ∧
      self.connected = true
  listedOnce : ∀ t, (w.xprt t).epList.Nodup
  garbageOnce : ∀ t, (w.xprt t).garbageList.Nodup

/-- The endpoint is on no list and is not the multiplexing one. -/
structure World.Unlisted (w : World) (ep : Addr) : Prop where
  epList : ∀ t, ep ∉ (w.xprt t).epList
  garbageList : ∀ t, ep ∉ (w.xprt t).garbageList
  multiplex : ∀ t, (w.xprt t).multiplex ≠ some ep

/-- A channel that is found belongs to a listed endpoint with its number. -/
theorem channelById_some (found : proxyChannelById w t channel = some ep) :
    ep ∈ (w.xprt t).epList ∧ ∃ self, w.heap.cells ep = some self ∧ self.channelId = channel := by
  refine ⟨List.mem_of_find?_eq_some found, ?_⟩
  have named := List.find?_some found
  cases cell : w.heap.cells ep with
  | none => simp [cell] at named
  | some self => exact ⟨self, rfl, by simpa [cell] using named⟩

/-- What the lists depend on stays. -/
structure Endpoint.Kept (old new : Endpoint) : Prop where
  transport : new.transport = old.transport
  connected : old.connected = true → new.connected = true
  dead : new.dead = old.dead

variable {w w' : World} {ep : Addr} {self : Endpoint} {change : Addr → Endpoint → Endpoint}

theorem World.Lists.unlisted (lists : w.Lists) (absent : w.heap.cells ep = none) : w.Unlisted ep where
  epList t member := by
    obtain ⟨self, found, _⟩ := lists.listed t ep member
    simp [absent] at found
  garbageList t member := by
    obtain ⟨self, found, _⟩ := lists.garbage t ep member
    simp [absent] at found
  multiplex t equal := by
    obtain ⟨_, self, found, _⟩ := lists.link t ep equal
    simp [absent] at found

/-- Lists that lose endpoints at most stay good when what is left on them keeps what they depend on. -/
theorem World.Lists.thin (lists : w.Lists) (epList : ∀ t, (w'.xprt t).epList.Sublist (w.xprt t).epList)
    (garbageList : ∀ t, (w'.xprt t).garbageList.Sublist (w.xprt t).garbageList)
    (multiplex : ∀ t ep, (w'.xprt t).multiplex = some ep → (w.xprt t).multiplex = some ep)
    (kept : ∀ ep self, w.heap.cells ep = some self → ¬ w'.Unlisted ep →
      ∃ new, w'.heap.cells ep = some new ∧ self.Kept new) : w'.Lists where
  listed t ep member := by
    obtain ⟨self, found, side, alive⟩ := lists.listed t ep ((epList t).subset member)
    obtain ⟨new, found', keep⟩ := kept ep self found fun out => out.epList t member
    exact ⟨new, found', keep.transport.trans side, keep.dead.trans alive⟩
  garbage t ep member := by
    obtain ⟨self, found, side, dead⟩ := lists.garbage t ep ((garbageList t).subset member)
    obtain ⟨new, found', keep⟩ := kept ep self found fun out => out.garbageList t member
    exact ⟨new, found', keep.transport.trans side, keep.dead.trans dead⟩
  link t ep equal := by
    obtain ⟨apart, self, found, side, alive, connected⟩ := lists.link t ep (multiplex t ep equal)
    obtain ⟨new, found', keep⟩ := kept ep self found fun out => out.multiplex t equal
    exact ⟨fun member => apart ((epList t).subset member), new, found', keep.transport.trans side,
      keep.dead.trans alive, keep.connected connected⟩
  listedOnce t := (lists.listedOnce t).sublist (epList t)
  garbageOnce t := (lists.garbageOnce t).sublist (garbageList t)

theorem World.Lists.same (lists : w.Lists) (xprt : w'.xprt = w.xprt)
    (changed : ∀ a, w'.heap.cells a = (w.heap.cells a).map (change a))
    (kept : ∀ a self, w.heap.cells a = some self → self.Kept (change a self)) : w'.Lists :=
  lists.thin (fun t => xprt ▸ .refl _) (fun t => xprt ▸ .refl _) (fun t ep equal => xprt ▸ equal)
    fun ep self found _ => ⟨change ep self, by simp [changed, found], kept ep self found⟩

/-- The lists of the other transport do not have the endpoint. -/
theorem World.Lists.elsewhere (lists : w.Lists) (found : w.heap.cells ep = some self) (other : t ≠ self.transport) :
    ep ∉ (w.xprt t).epList ∧ ep ∉ (w.xprt t).garbageList ∧ (w.xprt t).multiplex ≠ some ep := by
  refine ⟨fun member => ?_, fun member => ?_, fun link => ?_⟩
  · obtain ⟨_, found', side, _⟩ := lists.listed t ep member
    cases found.symm.trans found'
    exact other side.symm
  · obtain ⟨_, found', side, _⟩ := lists.garbage t ep member
    cases found.symm.trans found'
    exact other side.symm
  · obtain ⟨_, _, found', side, _⟩ := lists.link t ep link
    cases found.symm.trans found'
    exact other side.symm

/-- The multiplexing endpoint is on no list. -/
theorem World.Lists.apart (lists : w.Lists) (link : (w.xprt t).multiplex = some ep) :
    ep ∉ (w.xprt t).epList ∧ ep ∉ (w.xprt t).garbageList := by
  obtain ⟨apart, _, found, _, alive, _⟩ := lists.link t ep link
  refine ⟨apart, fun member => ?_⟩
  obtain ⟨_, found', _, dead⟩ := lists.garbage t ep member
  cases found.symm.trans found'
  simp [alive] at dead

theorem World.Lists.modify (lists : w.Lists) {change : Endpoint → Endpoint}
    (kept : ∀ self, w.heap.cells ep = some self → self.Kept (change self)) : (w.modify ep change).Lists := by
  refine lists.same (xprt_modify w ep change) (cells_modify w ep · change) ?_
  intro a self found
  by_cases same : a = ep
  · subst same
    simpa using kept self found
  · simpa [same] using ⟨rfl, id, rfl⟩

theorem World.Lists.emit (lists : w.Lists) (event : Event) : (w.emit event).Lists :=
  ⟨lists.listed, lists.garbage, lists.link, lists.listedOnce, lists.garbageOnce⟩

theorem World.Lists.note (lists : w.Lists) (events : List Event) : (w.note events).Lists :=
  ⟨lists.listed, lists.garbage, lists.link, lists.listedOnce, lists.garbageOnce⟩

section

variable {t other : Side}

theorem xprt_bury_of_ne (different : other ≠ t) : (w.bury ep t).xprt other = w.xprt other := by
  simp only [World.bury, ioEndpointLink, ioEndpointUnlink]
  split <;> simp [xprt_modifyXprt_of_ne different]

theorem epList_bury (apart : (w.xprt t).multiplex = some ep → ep ∉ (w.xprt t).epList) :
    ((w.bury ep t).xprt t).epList = (w.xprt t).epList.erase ep := by
  simp only [World.bury, ioEndpointLink, ioEndpointUnlink]
  split
  · rename_i link
    simp [List.erase_of_not_mem (apart link)]
  · simp

theorem multiplex_bury :
    ((w.bury ep t).xprt t).multiplex =
      if (w.xprt t).multiplex = some ep then none else (w.xprt t).multiplex := by
  simp only [World.bury, ioEndpointLink, ioEndpointUnlink]
  split <;> simp

theorem xprt_unlink_of_ne (different : other ≠ t) : (ioEndpointUnlink w ep t).xprt other = w.xprt other := by
  unfold ioEndpointUnlink
  split <;> simp [xprt_modifyXprt_of_ne different]

theorem unlink_sublist (w : World) (ep : Addr) (t s : Side) :
    ((ioEndpointUnlink w ep t).xprt s).epList.Sublist (w.xprt s).epList ∧
      ((ioEndpointUnlink w ep t).xprt s).garbageList.Sublist (w.xprt s).garbageList ∧
      ∀ a, ((ioEndpointUnlink w ep t).xprt s).multiplex = some a → (w.xprt s).multiplex = some a := by
  by_cases same : s = t
  · subst same
    unfold ioEndpointUnlink
    split <;> simp [List.erase_sublist]
  · rw [xprt_unlink_of_ne same]
    exact ⟨.refl _, .refl _, fun _ => id⟩

theorem unlisted_unlink (lists : w.Lists) (found : w.heap.cells ep = some self)
    (xprt : w'.xprt = w.xprt) : (ioEndpointUnlink w' ep self.transport).Unlisted ep := by
  have away : ∀ t, ep ∉ ((ioEndpointUnlink w' ep self.transport).xprt t).epList ∧
      ep ∉ ((ioEndpointUnlink w' ep self.transport).xprt t).garbageList ∧
      ((ioEndpointUnlink w' ep self.transport).xprt t).multiplex ≠ some ep := by
    intro t
    by_cases same : t = self.transport
    · subst same
      unfold ioEndpointUnlink
      split
      · next link =>
        rw [xprt] at link
        simp [xprt, lists.apart link]
      · next other =>
        simp [(lists.listedOnce _).not_mem_erase, (lists.garbageOnce _).not_mem_erase, xprt] at other ⊢
        exact other
    · rw [xprt_unlink_of_ne same, xprt]
      exact lists.elsewhere found same
  exact ⟨fun t => (away t).1, fun t => (away t).2.1, fun t => (away t).2.2⟩

/-- An endpoint that is on no list is put on the one for it. -/
theorem World.Lists.linked (lists : w.Lists) (unlisted : w.Unlisted ep)
    (found : w.heap.cells ep = some self) {name : ListName}
    (fits : name = if self.dead then .garbageList else .epList) : (ioEndpointLink w ep self.transport name).Lists := by
  have once {l : List Addr} (out : ep ∉ l) (once : l.Nodup) : (l ++ [ep]).Nodup :=
    List.nodup_append.mpr ⟨once, List.nodup_singleton _, fun a member b last same =>
      out (List.mem_singleton.mp last ▸ same ▸ member)⟩
  have kept : (ioEndpointLink w ep self.transport name).heap = w.heap := by cases name <;> rfl
  have lists' : ∀ t, ((ioEndpointLink w ep self.transport name).xprt t).multiplex = (w.xprt t).multiplex ∧
      (((ioEndpointLink w ep self.transport name).xprt t).epList = (w.xprt t).epList ∨
        ((ioEndpointLink w ep self.transport name).xprt t).epList = (w.xprt t).epList ++ [ep] ∧
          self.transport = t ∧ self.dead = false) ∧
      (((ioEndpointLink w ep self.transport name).xprt t).garbageList = (w.xprt t).garbageList ∨
        ((ioEndpointLink w ep self.transport name).xprt t).garbageList =
          (w.xprt t).garbageList ++ [ep] ∧ self.transport = t ∧ self.dead = true) := by
    intro t
    by_cases same : t = self.transport
    · subst same
      cases dead : self.dead <;> simp [fits, dead, ioEndpointLink]
    · cases name <;> simp [ioEndpointLink, xprt_modifyXprt_of_ne same]
  constructor
  · intro t a member
    rw [kept]
    rcases (lists' t).2.1 with equal | ⟨equal, here⟩
    · exact lists.listed t a (equal ▸ member)
    · rcases List.mem_append.mp (equal ▸ member) with old | last
      · exact lists.listed t a old
      · exact ⟨self, List.mem_singleton.mp last ▸ found, here⟩
  · intro t a member
    rw [kept]
    rcases (lists' t).2.2 with equal | ⟨equal, here⟩
    · exact lists.garbage t a (equal ▸ member)
    · rcases List.mem_append.mp (equal ▸ member) with old | last
      · exact lists.garbage t a old
      · exact ⟨self, List.mem_singleton.mp last ▸ found, here⟩
  · intro t a link
    rw [(lists' t).1] at link
    obtain ⟨apart, rest⟩ := lists.link t a link
    refine ⟨?_, kept ▸ rest⟩
    rcases (lists' t).2.1 with equal | ⟨equal, -⟩
    · exact equal ▸ apart
    · rw [equal, List.mem_append, not_or]
      exact ⟨apart, fun last => unlisted.multiplex t (List.mem_singleton.mp last ▸ link)⟩
  · intro t
    rcases (lists' t).2.1 with equal | ⟨equal, -⟩
    · exact equal ▸ lists.listedOnce t
    · exact equal ▸ once (unlisted.epList t) (lists.listedOnce t)
  · intro t
    rcases (lists' t).2.2 with equal | ⟨equal, -⟩
    · exact equal ▸ lists.garbageOnce t
    · exact equal ▸ once (unlisted.garbageList t) (lists.garbageOnce t)

end

/-- An endpoint whose last descriptor was closed moves to the garbage list; all
others stay where they are. -/
theorem World.Lists.settle (lists : w.Lists) (xprt : w'.xprt = w.xprt)
    (changed : ∀ a, w'.heap.cells a = (w.heap.cells a).map (change a))
    (kept : ∀ a self, w.heap.cells a = some self → a ≠ ep → self.Kept (change a self))
    (found : w.heap.cells ep = some self) (side : (change ep self).transport = self.transport)
    (linked : self.connected = true → (change ep self).connected = true)
    (older : self.dead = true → (change ep self).dead = true) : (w'.settle ep).Lists := by
  have here : w'.heap.cells ep = some (change ep self) := by simp [changed, found]
  by_cases dead : (change ep self).dead = true
  · have settled : w'.settle ep = w'.bury ep self.transport := by
      simp [World.settle, here, dead, side]
    have trimmed := unlink_sublist w' ep self.transport
    rw [xprt] at trimmed
    have unlisted := unlisted_unlink lists found xprt
    have without : (ioEndpointUnlink w' ep self.transport).Lists := by
      refine lists.thin (fun t => (trimmed t).1) (fun t => (trimmed t).2.1)
        (fun t => (trimmed t).2.2) fun a other cell on => ?_
      have different : a ≠ ep := fun same => on (same ▸ unlisted)
      exact ⟨change a other, by rw [heap_unlink, changed, cell]; rfl, kept a other cell different⟩
    rw [settled, World.bury, ← side]
    rw [← side] at without unlisted
    exact without.linked unlisted (by rw [heap_unlink, here]) (by rw [if_pos dead])
  · have settled : w'.settle ep = w' := by simp [World.settle, here, dead]
    rw [settled]
    refine lists.same xprt changed ?_
    intro a other cell
    by_cases same : a = ep
    · subst same
      rw [found] at cell
      cases cell
      refine ⟨side, linked, ?_⟩
      cases old : self.dead with
      | false => simpa using dead
      | true => exact older old
    · exact kept a other cell same

theorem lists_counter (w : World) (t s : Side) (next : UInt32) :
    ((w.counter t next).xprt s).epList = (w.xprt s).epList ∧
      ((w.counter t next).xprt s).garbageList = (w.xprt s).garbageList ∧
      ((w.counter t next).xprt s).multiplex = (w.xprt s).multiplex :=
  ⟨field_modifyXprt Transport.epList s fun _ => by rfl, field_modifyXprt Transport.garbageList s fun _ => by rfl,
    field_modifyXprt Transport.multiplex s fun _ => by rfl⟩

theorem lists_spawn (w : World) (t : Side) (ep : Addr) (self : Endpoint) (next : UInt32)
    (events : List Event) (s : Side) :
    ((w.spawn t ep self next events).xprt s).epList = (w.xprt s).epList ∧
      ((w.spawn t ep self next events).xprt s).garbageList = (w.xprt s).garbageList ∧
      ((w.spawn t ep self next events).xprt s).multiplex = (w.xprt s).multiplex :=
  lists_counter { w with heap := w.heap.alloc ep self } t s next

theorem World.Lists.spawn (lists : w.Lists) (absent : w.heap.cells ep = none) (t : Side)
    (self : Endpoint) (next : UInt32) (events : List Event) : (w.spawn t ep self next events).Lists := by
  have lists' := lists_spawn w t ep self next events
  refine lists.thin (fun s => (lists' s).1 ▸ .refl _) (fun s => (lists' s).2.1 ▸ .refl _)
    (fun s a link => (lists' s).2.2 ▸ link) fun a other cell _ => ⟨other, ?_, rfl, id, rfl⟩
  rw [cells_spawn, if_neg, cell]
  rintro rfl
  simp [absent] at cell

theorem unlisted_spawn (unlisted : w.Unlisted ep) : (w.spawn t other self next events).Unlisted ep := by
  have lists' := lists_spawn w t other self next events
  constructor
  · intro s; rw [(lists' s).1]; exact unlisted.epList s
  · intro s; rw [(lists' s).2.1]; exact unlisted.garbageList s
  · intro s; rw [(lists' s).2.2]; exact unlisted.multiplex s

theorem World.Lists.adopt (lists : w.Lists) (found : w.heap.cells ep = some self)
    (alive : self.dead = false) (unlisted : w.Unlisted ep) (side : self.transport = t)
    (sink : Addr) : (w.adopt ep t sink).Lists := by
  subst side
  have targeted : (w.modify ep fun self => { self with sink := some sink }).Lists :=
    lists.modify fun self _ => ⟨rfl, id, rfl⟩
  have unlisted' : (w.modify ep fun self => { self with sink := some sink }).Unlisted ep :=
    ⟨unlisted.epList, unlisted.garbageList, unlisted.multiplex⟩
  exact @World.Lists.linked _ ep { self with sink := some sink } targeted unlisted'
    (by simp [cells_modify, found]) .epList (if_neg (Bool.eq_false_iff.mp alive)).symm

theorem World.Lists.charge (lists : w.Lists) (sink : Addr) (mbuf : Mbuf) : (w.charge sink mbuf).Lists :=
  lists.same (xprt_charge w sink mbuf) (cells_charge w sink mbuf) fun _ _ _ => ⟨rfl, id, rfl⟩

theorem World.Lists.clear (lists : w.Lists) (ep : Addr) : (w.clear ep).Lists :=
  lists.same (xprt_clear w ep) (cells_clear w ep) fun _ _ _ => ⟨rfl, id, rfl⟩

theorem World.Lists.counter (lists : w.Lists) (t : Side) (next : UInt32) : (w.counter t next).Lists :=
  lists.thin (fun s => (lists_counter w t s next).1 ▸ .refl _) (fun s => (lists_counter w t s next).2.1 ▸ .refl _)
    (fun s _ link => (lists_counter w t s next).2.2 ▸ link)
    fun _ self found _ => ⟨self, found, rfl, id, rfl⟩

theorem World.Lists.quiet (lists : w.Lists) (moved : Quiet w w') : w'.Lists := by
  cases moved with
  | pull => exact lists.same (xprt_pull ..) (fun a => cells_pull _ _ _ _ a) fun _ _ _ => ⟨rfl, id, rfl⟩
  | closeRead found reading =>
    refine lists.settle (xprt_shutRead ..) (fun a => cells_shutRead _ _ _ _ a) ?_ found rfl id ?_
    · intro a other _ different
      simpa [different] using ⟨rfl, id, rfl⟩
    · intro dead
      simpa [Endpoint.dead] using (Bool.and_eq_true_iff.mp dead).2
  | closeWrite found writing =>
    refine lists.settle (xprt_shutWrite ..) (cells_shutWrite found _) ?_ found rfl id ?_
    · intro a other _ different
      exact ⟨rfl, id, by simp [Endpoint.dead, different]⟩
    · intro dead
      simpa [Endpoint.dead] using (Bool.and_eq_true_iff.mp dead).1
  | rebury found dead =>
    have unchanged : ∀ a, w.heap.cells a = (w.heap.cells a).map fun self => self := fun a => by simp
    exact lists.settle rfl unchanged (fun _ _ _ _ => ⟨rfl, id, rfl⟩) found rfl id id

theorem World.Lists.flush (lists : w.Lists) (found : w.heap.cells ep = some self) (t : Side) :
    (w.flush ep t self.wqueue).Lists := by
  let change (a : Addr) (other : Endpoint) : Endpoint :=
    { other with
      rxCredit := other.rxCredit + owed self.wqueue a
      rbuf := if a = ep then none else other.rbuf
      wbuf := if a = ep then none else other.wbuf
      wqueue := if a = ep then [] else other.wqueue }
  have cells : ∀ a, (w.flush ep t self.wqueue).heap.cells a = (w.heap.cells a).map (change a) := cells_flush found t
  have trimmed : ∀ s, ((w.flush ep t self.wqueue).xprt s).epList = (w.xprt s).epList ∧
      ((w.flush ep t self.wqueue).xprt s).garbageList.Sublist (w.xprt s).garbageList ∧
      ((w.flush ep t self.wqueue).xprt s).multiplex = (w.xprt s).multiplex := by
    intro s
    by_cases same : s = t
    · subst same
      simpa [World.flush] using List.erase_sublist
    · simp [World.flush, xprt_modifyXprt_of_ne same]
  exact lists.thin (fun s => (trimmed s).1 ▸ .refl _) (fun s => (trimmed s).2.1) (fun s _ link => (trimmed s).2.2 ▸ link)
    fun a other cell _ => ⟨change a other, by rw [cells, cell]; rfl, rfl, id, rfl⟩

theorem World.Lists.dead_unlisted (lists : w.Lists) (found : w.heap.cells ep = some self)
    (dead : self.dead = true) (t : Side) : ep ∉ (w.xprt t).epList ∧ (w.xprt t).multiplex ≠ some ep := by
  constructor
  · intro member
    obtain ⟨same, found', _, alive⟩ := lists.listed t ep member
    rw [found] at found'
    cases found'
    simp [dead] at alive
  · intro link
    obtain ⟨_, same, found', _, alive, _⟩ := lists.link t ep link
    rw [found] at found'
    cases found'
    simp [dead] at alive

theorem World.Lists.release (lists : w.Lists) (found : w.heap.cells ep = some self) :
    (w.release ep self.transport).Lists := by
  have trimmed := unlink_sublist w ep self.transport
  refine lists.thin (fun s => (trimmed s).1) (fun s => (trimmed s).2.1) (fun s => (trimmed s).2.2)
    fun a other cell on => ⟨other, ?_, rfl, id, rfl⟩
  have unlisted := unlisted_unlink lists found rfl
  rw [cells_release, if_neg, cell]
  rintro rfl
  exact on ⟨unlisted.epList, unlisted.garbageList, unlisted.multiplex⟩

theorem World.Lists.multiplex (lists : w.Lists) (found : w.heap.cells ep = some self)
    (alive : self.dead = false) (connected : self.connected = true) (unlisted : w.Unlisted ep)
    (side : self.transport = t) :
    (w.modifyXprt t fun xprt =>
      { xprt with multiplex := some ep, listenFd := listenFd }).Lists := by
  subst side
  have xprt : ∀ s, ((w.modifyXprt self.transport fun xprt =>
        { xprt with multiplex := some ep, listenFd := listenFd }).xprt s).epList = (w.xprt s).epList ∧
      ((w.modifyXprt self.transport fun xprt =>
        { xprt with multiplex := some ep, listenFd := listenFd }).xprt s).garbageList = (w.xprt s).garbageList ∧
      ((w.modifyXprt self.transport fun xprt =>
        { xprt with multiplex := some ep, listenFd := listenFd }).xprt s).multiplex =
          if s = self.transport then some ep else (w.xprt s).multiplex := by
    intro s
    by_cases same : s = self.transport
    · rw [same, xprt_modifyXprt_self]
      simp
    · simp [xprt_modifyXprt_of_ne same, same]
  constructor
  · intro s a member
    rw [(xprt s).1] at member
    exact lists.listed s a member
  · intro s a member
    rw [(xprt s).2.1] at member
    exact lists.garbage s a member
  · intro s a link
    rw [(xprt s).2.2] at link
    rw [(xprt s).1]
    split at link
    · rename_i here
      cases link
      exact ⟨unlisted.epList s, self, found, here.symm, alive, connected⟩
    · exact lists.link s a link
  · intro s; rw [(xprt s).1]; exact lists.listedOnce s
  · intro s; rw [(xprt s).2.1]; exact lists.garbageOnce s

theorem unlisted_adopt (unlisted : w.Unlisted ep) (different : ep ≠ other) : (w.adopt other t sink).Unlisted ep := by
  constructor <;> intro s <;> by_cases same : s = t
  · subst same
    simpa [World.adopt, ioEndpointLink, different] using unlisted.epList s
  · simpa [World.adopt, ioEndpointLink, xprt_modifyXprt_of_ne same] using unlisted.epList s
  · subst same
    simpa [World.adopt, ioEndpointLink] using unlisted.garbageList s
  · simpa [World.adopt, ioEndpointLink, xprt_modifyXprt_of_ne same] using unlisted.garbageList s
  · subst same
    simpa [World.adopt, ioEndpointLink] using unlisted.multiplex s
  · simpa [World.adopt, ioEndpointLink, xprt_modifyXprt_of_ne same] using unlisted.multiplex s

theorem Endpoint.Fresh.alive {xprt : Transport} (fresh : self.Fresh xprt t) : self.dead = false := by
  have reading := fresh.rfd
  cases open' : self.rfd with
  | none => simp [open'] at reading
  | some fd => simp [Endpoint.dead, open']

theorem World.Lists.act (lists : w.Lists) (acted : Act G w w') : w'.Lists := by
  cases acted with
  | quiet moved => exact lists.quiet moved
  | mark | detach => exact lists.modify fun _ _ => ⟨rfl, id, rfl⟩
  | connect => exact lists.modify fun _ _ => ⟨rfl, fun _ => rfl, rfl⟩
  | transmit => exact (lists.emit _).modify fun _ _ => ⟨rfl, id, rfl⟩
  | copied | framed => exact (lists.emit _).charge _ _
  | @leave ep self sink other fd found target present handler reading =>
    have lists' := lists.charge sink (proxyChannelCloseNew self.channelId)
    have charged := cells_charge w sink (proxyChannelCloseNew self.channelId) ep
    rw [found] at charged
    refine lists'.settle (xprt_shutRead ..) (fun a => cells_shutRead _ _ _ _ a) ?_ charged rfl id ?_
    · intro a other _ different
      simpa [different] using ⟨rfl, id, rfl⟩
    · intro dead
      simpa [Endpoint.dead] using (Bool.and_eq_true_iff.mp dead).2
  | @receive ep self bp =>
    have filled : (w.modify ep fun self => { self with rbuf := some bp }).Lists := lists.modify fun _ _ => ⟨rfl, id, rfl⟩
    exact filled.emit _
  | @opened source self bp sys born next arrived cmd absent fresh channel connected =>
    have before := lists.emit (.dispatched source bp.contents)
    have spawned := before.spawn absent self.transport.other
      { born with rxCredit := defaultCreditSimplex } next [.created sys.connectedAddr]
    have born' : { born with rxCredit := defaultCreditSimplex }.dead = false := fresh.alive
    have adopted := spawned.adopt (by rw [cells_spawn, if_pos rfl]) born'
      (unlisted_spawn (before.unlisted absent)) fresh.transport source
    exact adopted.clear _
  | ignored => exact (lists.emit _).clear _
  | closing =>
    refine World.Lists.clear ((lists.emit _).modify ?_) _
    exact fun _ _ => ⟨rfl, id, rfl⟩
  | deliver => exact (((lists.emit _).emit _).charge _ _).clear _
  | administer => exact (lists.counter _ _).note _
  | @announced self sys sink allowed absent fresh simplex channel link =>
    have spawned := (lists.spawn absent .downstream self ((w.xprt .downstream).nextChannelId + 1)
      [.created sys.acceptedAddr, .accepted self.channelId]).charge sink
      (proxyChannelOpenNew self.channelId)
    have cell := cells_charge (w.spawn .downstream sys.acceptedAddr self ((w.xprt .downstream).nextChannelId + 1)
      [.created sys.acceptedAddr, .accepted self.channelId]) sink
      (proxyChannelOpenNew self.channelId) sys.acceptedAddr
    rw [cells_spawn, if_pos rfl] at cell
    have unlisted : (w.spawn .downstream sys.acceptedAddr self ((w.xprt .downstream).nextChannelId + 1)
        [.created sys.acceptedAddr, .accepted self.channelId]).Unlisted sys.acceptedAddr :=
      unlisted_spawn (lists.unlisted absent)
    exact spawned.adopt cell fresh.alive ⟨by simpa using unlisted.epList, by simpa using unlisted.garbageList,
        by simpa using unlisted.multiplex⟩ fresh.transport sink
  | @paired self other sys allowed absent fresh simplex channel alone vacant different partner =>
    have unlisted := lists.unlisted absent
    have first := lists.spawn absent .downstream self ((w.xprt .downstream).nextChannelId + 1)
      [.created sys.acceptedAddr, .accepted self.channelId]
    have vacant' : (w.spawn .downstream sys.acceptedAddr self ((w.xprt .downstream).nextChannelId + 1)
        [.created sys.acceptedAddr, .accepted self.channelId]).heap.cells sys.connectedAddr = none := by
      rw [cells_spawn, if_neg different, vacant]
    have second := first.spawn vacant' .upstream other (w.xprt .upstream).nextChannelId [.created sys.connectedAddr]
    have upper := second.adopt (by rw [cells_spawn, if_pos rfl]) partner.alive
      (unlisted_spawn (first.unlisted vacant')) partner.transport sys.acceptedAddr
    have cell : (((w.spawn .downstream sys.acceptedAddr self ((w.xprt .downstream).nextChannelId + 1)
        [.created sys.acceptedAddr, .accepted self.channelId]).spawn .upstream sys.connectedAddr
        other (w.xprt .upstream).nextChannelId [.created sys.connectedAddr]).adopt
        sys.connectedAddr .upstream sys.acceptedAddr).heap.cells sys.acceptedAddr = some self := by
      rw [cells_adopt, cells_spawn, if_neg different.symm, cells_spawn, if_pos rfl]
      simp [different.symm]
    exact upper.adopt cell fresh.alive
      (unlisted_adopt (unlisted_spawn (unlisted_spawn unlisted)) different.symm) fresh.transport _
  | @multiplexed self sys listenFd allowed absent fresh multiplex connected =>
    have spawned := lists.spawn absent .downstream self (w.xprt .downstream).nextChannelId
      [.created sys.acceptedAddr, .accepted self.channelId]
    exact spawned.multiplex (by rw [cells_spawn, if_pos rfl]) fresh.alive connected
      (unlisted_spawn (lists.unlisted absent)) fresh.transport
  | flush found => exact lists.flush found _
  | release found => exact lists.release found

theorem World.Lists.acts (lists : w.Lists) (acted : Acts G w w') : w'.Lists := by
  induction acted with
  | refl => exact lists
  | tail _ last ih => exact ih.act last

end Testbus.Proxy
