import Testbus.Server.Alike

namespace Testbus.Server

open Lib Testbus.Environ

/-- With the reference that a new process takes to its command. -/
def World.take (w : World) : Option Addr → World
  | none => w
  | some command => w.modify command fun self => { self with refcount := self.refcount + 1 }

/-- A container that may be inserted. -/
structure Fresh (w : World) (p : Addr) (above new : Container) : Prop where
  found : w.heap.cells p = some above
  has : above.kind.has new.kind = true
  home : new.kind = .host → p = globalContext
  links : (w.graph ∅).Links p new.owner new.command new.kind
  parent : new.parent = some p
  one : new.refcount = 1
  id : new.id = (above.children new.kind).nextId
  role : new.role = none
  nameless : new.dbusObjectPath = none
  children : new.children = fun _ => {}
  full : new.env.Full
  ready : new.ready = false

/-- A container that may have an object of that path. -/
structure Wrapped (w : World) (c : Addr) (new : Container) (parentPath path : CString) : Prop where
  found : w.heap.cells c = some new
  nameless : new.dbusObjectPath = none
  apart : c ≠ globalContext
  place : ∃ p, new.parent = some p ∧ w.Place p parentPath
  whole : childPath parentPath (new.kind.objectName new.id) = path
  short : path.length < 255
  fresh : ∀ other ∈ w.objects, other.path ≠ path

variable {w w' : World} {above self host root : Container} {role parentPath path : CString}

theorem graph_take (w : World) (command : Option Addr) : (w.take command).graph ∅ = w.graph ∅ := by
  cases command with
  | none => rfl
  | some c => exact graph_quiet (by intro; rfl) ∅

theorem take_cell (other : ∀ x, command = some x → x ≠ c) : (w.take command).heap.cells c = w.heap.cells c := by
  cases command with
  | none => rfl
  | some x =>
    rw [World.take, World.cells_modify_heap, Store.modify_of_ne (Ne.symm (other x rfl))]

theorem take_back (found : (w.take command).heap.cells c = some self) :
    ∃ old, w.heap.cells c = some old ∧ self = { old with refcount := self.refcount } := by
  cases command with
  | none => exact ⟨self, found, rfl⟩
  | some x =>
    rw [World.take, World.cells_modify_heap, Store.cells_modify] at found
    split at found
    · obtain ⟨old, there, rfl⟩ := Option.map_eq_some_iff.mp found
      exact ⟨old, there, rfl⟩
    · exact ⟨self, found, rfl⟩

theorem Fresh.apart (fresh : Fresh w p above self) (settled : (w.graph ∅).Wf w.next ∅ 0) :
    p ≠ w.next := ne_of_lt (settled.bound (kind_graph fresh.found))

theorem insert_back (apart : p ≠ w.next) (found : w.heap.cells p = some above)
    (there : (w.insert p above self).heap.cells c = some host) :
    c = w.next ∧ host = self ∨ c ≠ w.next ∧ ∃ old, w.heap.cells c = some old ∧
      host = { old with children := host.children } := by
  by_cases new : c = w.next
  · subst new
    exact Or.inl ⟨rfl, Option.some.inj (there.symm.trans (insert_self apart))⟩
  · refine Or.inr ⟨new, ?_⟩
    by_cases under : c = p
    · subst under
      obtain rfl := Option.some.inj (there.symm.trans (insert_parent found apart))
      exact ⟨above, found, rfl⟩
    · rw [insert_other new under] at there
      exact ⟨host, there, rfl⟩

theorem next_take (w : World) (command : Option Addr) : (w.take command).next = w.next := by
  cases command <;> rfl

theorem Steady.insert (steady : Steady w) (fresh : Fresh (w.take self.command) p above self) :
    Steady ((w.take self.command).insert p above self) := by
  have ok : Ok (w.take self.command) ↑self.command.toList 0 ∅ := by
    cases command : self.command with
    | none => exact steady.settled
    | some x =>
      have live : ∃ old, w.heap.cells x = some old := by
        have links := fresh.links
        rw [graph_take, command] at links
        cases kind : self.kind with
        | host | testcase | command => simp [kind, Graph.Links] at links
        | globalContext => simp [kind, Graph.Links] at links
        | process =>
          rw [kind] at links
          obtain ⟨y, kindY, _, same⟩ := links
          obtain rfl := Option.some.inj same
          obtain ⟨old, there, _⟩ := found_of_kind kindY
          exact ⟨old, there⟩
      obtain ⟨old, there⟩ := live
      exact (steady.settled.get there).2
  have wf := ok.wf
  have apart := fresh.apart (by simpa using wf)
  have before : ∀ {c host}, ((w.take self.command).insert p above self).heap.cells c = some host →
      c = w.next ∧ host = self ∨ ∃ old, w.heap.cells c = some old ∧
        host = { old with refcount := host.refcount, children := host.children } := by
    intro c host there
    rcases insert_back apart fresh.found there with ⟨new, same⟩ | ⟨_, middle, found, same⟩
    · exact Or.inl ⟨next_take w _ ▸ new, same⟩
    · obtain ⟨old, found, same'⟩ := take_back found
      refine Or.inr ⟨old, found, ?_⟩
      rw [same, same']
  constructor
  · refine ok.insert ?_ fresh.found fresh.has fresh.home fresh.links fresh.parent fresh.one
      fresh.role fresh.nameless fresh.children
    rw [graph_take]
    exact steady.settled.homes
  · intro c host there kind known none_
    rcases before there with ⟨_, rfl⟩ | ⟨old, found, same⟩
    · exact absurd fresh.nameless known
    · have roles := steady.roles found
      rw [same] at kind known none_ ⊢
      exact roles kind known none_
  · intro c host there
    rcases before there with ⟨_, rfl⟩ | ⟨old, found, same⟩
    · exact fresh.full
    · have full := steady.envs found
      rw [same]
      exact full

theorem Steady.wrap (steady : Steady w) (wrapped : Wrapped w c self parentPath path)
    (free : self.kind = .host → self.role = none → self.owner = none) : Steady (w.wrap c path) := by
  obtain ⟨p, parent, place⟩ := wrapped.place
  have before : ∀ {x new}, (w.wrap c path).heap.cells x = some new →
      x = c ∧ new = { self with dbusObjectPath := some path } ∨ w.heap.cells x = some new := by
    intro x new there
    rw [World.wrap, World.cells_modify_heap, Store.cells_modify] at there
    split at there
    · rename_i here
      subst here
      rw [show w.heap.cells x = some self from wrapped.found, Option.map_some] at there
      exact Or.inl ⟨rfl, (Option.some.inj there).symm⟩
    · exact Or.inr there
  constructor
  · exact steady.settled.wrap wrapped.found wrapped.nameless wrapped.apart parent place wrapped.whole
      wrapped.short wrapped.fresh
  · intro x new there kind known none_
    rcases before there with ⟨_, rfl⟩ | found
    · exact free kind none_
    · exact steady.roles found kind known none_
  · intro x new there
    rcases before there with ⟨_, rfl⟩ | found
    · have full := steady.envs wrapped.found
      exact full
    · exact steady.envs found

theorem Steady.claim (steady : Steady w) (apart : p ≠ h) (found : w.heap.cells h = some host)
    (there : w.heap.cells p = some above) (settled : Settled (w.claim h p role above)) :
    Steady (w.claim h p role above) := by
  refine ⟨settled, ?_, ?_⟩
  · intro x new at_ kind known none_
    by_cases here : x = h
    · subst here
      obtain rfl := Option.some.inj (at_.symm.trans (claim_host apart found))
      simp at none_
    · by_cases under : x = p
      · subst under
        obtain rfl := Option.some.inj (at_.symm.trans (claim_above apart there))
        have roles := steady.roles there
        exact roles kind known none_
      · rw [claim_other here under] at at_
        exact steady.roles at_ kind known none_
  · intro x new at_
    by_cases here : x = h
    · subst here
      obtain rfl := Option.some.inj (at_.symm.trans (claim_host apart found))
      have full := steady.envs found
      exact full
    · by_cases under : x = p
      · subst under
        obtain rfl := Option.some.inj (at_.symm.trans (claim_above apart there))
        have full := steady.envs there
        exact full
      · rw [claim_other here under] at at_
        exact steady.envs at_

/-- What goes takes nothing of this along, but what is known of itself. -/
theorem Steady.shrink (steady : Steady w) (settled : Settled w') (shrink : w.Shrink ∅ loose given w')
    (nameless : ∀ x ∈ loose, ∀ self, w'.heap.cells x = some self → self.dbusObjectPath = none) : Steady w' := by
  refine ⟨settled, ?_, ?_⟩
  · intro x new found kind known none_
    obtain ⟨old, found', kept⟩ := shrink.kept found
    obtain ⟨q, path⟩ := Option.ne_none_iff_exists'.mp known
    have outside : x ∉ loose := fun inside => by simp [nameless x inside new found] at path
    refine kept.claim outside kind (steady.roles found' (kept.less.kind ▸ kind) ?_) none_
    simp [kept.less.path path]
  · intro x new found
    obtain ⟨old, found', kept⟩ := shrink.kept found
    rcases kept.less.env with same | empty
    · rw [same]
      exact steady.envs found'
    · rw [empty]
      exact full_empty

theorem Steady.removed (steady : Steady w) (removed : Removed w w' h) : Steady w' :=
  steady.shrink removed.settled removed.shrink fun _ inside => inside.elim

theorem Steady.deleted (steady : Steady w) (deleted : Deleted w w' c) : Steady w' :=
  steady.shrink deleted.settled deleted.shrink fun x inside => by
    rw [Set.mem_singleton_iff.mp inside]
    exact deleted.nameless

end Testbus.Server
