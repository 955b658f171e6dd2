import Testbus.Server.Changes

namespace Testbus.Server

open Lib Testbus.Environ

/-- A container without the data that is about no other one. -/
def Container.forget (self : Container) : Container :=
  { self with
    env := {}
    uuid := 0
    agentBusName := none
    eventlog := none
    capabilities := []
    generation := 0
    ready := false
    exitInfo := none }

/-- What two containers have in common that differ in data only. -/
structure Container.Alike (new old : Container) : Prop where
  kind : new.kind = old.kind
  id : new.id = old.id
  path : new.dbusObjectPath = old.dbusObjectPath
  refcount : new.refcount = old.refcount
  parent : new.parent = old.parent
  owner : new.owner = old.owner
  command : new.command = old.command
  role : new.role = old.role
  children : new.children = old.children

theorem Container.Alike.of_forget {new old : Container} (same : new.forget = old.forget) : new.Alike old where
  kind := (congrArg Container.kind same :)
  id := (congrArg Container.id same :)
  path := (congrArg Container.dbusObjectPath same :)
  refcount := (congrArg Container.refcount same :)
  parent := (congrArg Container.parent same :)
  owner := (congrArg Container.owner same :)
  command := (congrArg Container.command same :)
  role := (congrArg Container.role same :)
  children := (congrArg Container.children same :)

/-- Two worlds that differ in data only. -/
structure World.Alike (w w' : World) : Prop where
  cells : ∀ c, (w'.heap.cells c).map Container.forget = (w.heap.cells c).map Container.forget
  envs : ∀ {c new old}, w'.heap.cells c = some new → w.heap.cells c = some old →
    old.env.Full → new.env.Full
  next : w'.next = w.next
  objects : w'.objects = w.objects
  made : w'.made = w.made

namespace World.Alike

variable {w w' w'' : World} {self old : Container}

theorem refl (w : World) : w.Alike w where
  cells _ := rfl
  envs found found' := by
    obtain rfl := Option.some.inj (found.symm.trans found')
    exact id
  next := rfl
  objects := rfl
  made := rfl

theorem forth (alike : w.Alike w') (found : w.heap.cells c = some old) :
    ∃ new, w'.heap.cells c = some new ∧ new.Alike old := by
  have cell := alike.cells c
  rw [found] at cell
  obtain ⟨new, found', same⟩ := Option.map_eq_some_iff.mp cell
  exact ⟨new, found', .of_forget same⟩

theorem back (alike : w.Alike w') (found : w'.heap.cells c = some self) :
    ∃ old, w.heap.cells c = some old ∧ self.Alike old := by
  have cell := alike.cells c
  rw [found] at cell
  obtain ⟨old, found', same⟩ := Option.map_eq_some_iff.mp cell.symm
  exact ⟨old, found', .of_forget same.symm⟩

theorem trans (first : w.Alike w') (second : w'.Alike w'') : w.Alike w'' where
  cells c := (second.cells c).trans (first.cells c)
  envs found found' full := by
    obtain ⟨middle, found'', _⟩ := second.back found
    exact second.envs found found'' (first.envs found'' found' full)
  next := second.next.trans first.next
  objects := second.objects.trans first.objects
  made := second.made.trans first.made

theorem modify (same : ∀ self, (change self).forget = self.forget)
    (full : ∀ self, w.heap.cells c = some self → self.env.Full → (change self).env.Full) :
    w.Alike (w.modify c change) where
  cells x := by
    rw [World.cells_modify_heap, Store.cells_modify]
    split
    · cases w.heap.cells x <;> simp [same]
    · rfl
  envs := by
    intro x new old found found' before
    rw [World.cells_modify_heap, Store.cells_modify] at found
    split at found
    · rename_i here
      subst here
      rw [found', Option.map_some] at found
      obtain rfl := Option.some.inj found
      exact full old found' before
    · obtain rfl := Option.some.inj (found.symm.trans found')
      exact before
  next := rfl
  objects := rfl
  made := rfl

theorem graph (alike : w.Alike w') (exempt : Finset Addr) : w'.graph exempt = w.graph exempt := by
  have cell : ∀ x, (w'.heap.cells x = none ∧ w.heap.cells x = none) ∨
      ∃ new old, w'.heap.cells x = some new ∧ w.heap.cells x = some old ∧ new.Alike old := by
    intro x
    cases found : w'.heap.cells x with
    | none =>
      have same := alike.cells x
      rw [found] at same
      exact Or.inl ⟨rfl, Option.map_eq_none_iff.mp same.symm⟩
    | some new =>
      obtain ⟨old, found', same⟩ := alike.back found
      exact Or.inr ⟨new, old, rfl, found', same⟩
  apply Graph.ext <;> funext x <;> rcases cell x with ⟨gone, gone'⟩ | ⟨new, old, here, there, same⟩
  case slot.inr =>
    funext k
    simp [World.graph, here, there, same.children]
  case kind.inl | parent.inl | owner.inl | command.inl | role.inl | slot.inl =>
    simp [World.graph, gone, gone']
  all_goals
    simp [World.graph, here, there, same.kind, same.parent, same.owner, same.command, same.role]

theorem registered (alike : w.Alike w') (registered : Registered w) : Registered w' where
  tree := alike.objects ▸ registered.tree
  hostlist := alike.objects ▸ registered.hostlist
  handle := by
    rw [alike.objects]
    intro object member x handle
    refine (registered.handle object member x handle).imp_right fun known => ⟨known.1, ?_⟩
    obtain ⟨_, old, there, path⟩ := known
    obtain ⟨new, here, same⟩ := alike.forth there
    exact ⟨new, here, same.path.trans path⟩
  named := by
    rw [alike.objects]
    intro x new path here has
    obtain ⟨old, there, same⟩ := alike.back here
    exact registered.named x old path there (same.path.symm.trans has)
  nested := by
    intro x new path p here has parent
    obtain ⟨old, there, same⟩ := alike.back here
    obtain ⟨name, plain, place⟩ := registered.nested x old path p there
      (same.path.symm.trans has) (same.parent.symm.trans parent)
    refine ⟨name, plain, place.imp_right ?_⟩
    rintro ⟨above, q, foundP, pathP, below⟩
    obtain ⟨newP, hereP, sameP⟩ := alike.forth foundP
    exact ⟨newP, q, hereP, sameP.path.trans pathP, below⟩

theorem ok (alike : w.Alike w') (ok : Ok w held parked exempt) : Ok w' held parked exempt where
  counted := by
    refine ok.counted.transfer fun addr => ?_
    have pairs := congrArg (Option.map fun self : Container =>
      (self.refcount, Container.outRefs exempt addr self)) (alike.cells addr)
    simpa [Option.map_map, Function.comp_def, Container.forget, Container.outRefs, Container.allChildren] using pairs
  wf := by
    rw [alike.graph, alike.next]
    exact ok.wf
  registered := alike.registered ok.registered
  beneath := ok.beneath

theorem settled (alike : w.Alike w') (settled : Settled w) : Settled w' := alike.ok settled

end World.Alike

/-- What holds of the master between two messages. -/
structure Steady (w : World) : Prop where
  settled : Settled w
  /-- A host that clients know of is claimed only under a role. -/
  roles : ∀ {c self}, w.heap.cells c = some self → self.kind = .host →
    self.dbusObjectPath ≠ none → self.role = none → self.owner = none
  envs : ∀ {c self}, w.heap.cells c = some self → self.env.Full

theorem Steady.alike {w w' : World} (steady : Steady w) (alike : w.Alike w') : Steady w' where
  settled := alike.settled steady.settled
  roles := by
    intro c self found host path role
    obtain ⟨old, found', same⟩ := alike.back found
    rw [same.kind] at host
    rw [same.path] at path
    rw [same.role] at role
    rw [same.owner]
    exact steady.roles found' host path role
  envs := by
    intro c self found
    obtain ⟨old, found', _⟩ := alike.back found
    exact alike.envs found found' (steady.envs found')

end Testbus.Server
