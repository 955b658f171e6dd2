import Testbus.Server.Balance

namespace Testbus.Server

open Lib

/-- A container after, and before. -/
structure Container.Less (new old : Container) : Prop where
  kind : new.kind = old.kind
  id : new.id = old.id
  ready : new.ready = old.ready
  generation : new.generation = old.generation
  env : new.env = old.env ∨ new.env = {}
  parent : ∀ {p}, new.parent = some p → old.parent = some p
  owner : ∀ {o}, new.owner = some o → old.owner = some o
  command : ∀ {c}, new.command = some c → old.command = some c
  role : ∀ {r}, new.role = some r → old.role = some r
  path : ∀ {q}, new.dbusObjectPath = some q → old.dbusObjectPath = some q
  agent : ∀ {n}, new.agentBusName = some n → old.agentBusName = some n
  data : ∀ k, (new.children k).data.Sublist (old.children k).data

theorem Container.Less.refl (self : Container) : self.Less self where
  kind := rfl
  id := rfl
  ready := rfl
  generation := rfl
  env := Or.inl rfl
  parent found := found
  owner found := found
  command found := found
  role found := found
  path found := found
  agent found := found
  data _ := List.Sublist.refl _

theorem Container.Less.trans {first second third : Container} (later : third.Less second)
    (earlier : second.Less first) : third.Less first where
  kind := later.kind.trans earlier.kind
  id := later.id.trans earlier.id
  ready := later.ready.trans earlier.ready
  generation := later.generation.trans earlier.generation
  env := later.env.elim (fun same => same ▸ earlier.env) Or.inr
  parent found := earlier.parent (later.parent found)
  owner found := earlier.owner (later.owner found)
  command found := earlier.command (later.command found)
  role found := earlier.role (later.role found)
  path found := earlier.path (later.path found)
  agent found := earlier.agent (later.agent found)
  data k := (later.data k).trans (earlier.data k)

/-- What stays of a container, depending on what is destroyed: a process that is being
destroyed leaves its command to the code that does it (`frozen`), a container is only then
reset when it is destroyed itself (`loose`), and what loses its parent or an array of hosts or
tests lies around what is destroyed (`given`). -/
structure Container.Kept (frozen : Finset Addr) (loose : Set Addr) (given : Set (Addr × Kind)) (c : Addr)
    (new old : Container) : Prop where
  less : new.Less old
  command : c ∈ frozen → new.command = old.command
  nextId : c ∉ loose → new.dbusObjectPath ≠ none ∨ c = globalContext →
    ∀ k, (new.children k).nextId = (old.children k).nextId
  agent : c ∉ loose → new.kind = .host → new.agentBusName = old.agentBusName
  claim : c ∉ loose → new.kind = .host → (old.role = none → old.owner = none) →
    new.role = none → new.owner = none
  parent : (c, .host) ∉ given → new.kind = .host → new.parent = old.parent
  lists : ∀ k, k = .host ∨ k = .testcase → (c, k) ∉ given →
    (new.children k).data = (old.children k).data

theorem Container.Kept.refl (frozen : Finset Addr) (loose : Set Addr) (given : Set (Addr × Kind)) (c : Addr)
    (self : Container) : self.Kept frozen loose given c self where
  less := Container.Less.refl self
  command _ := rfl
  nextId _ _ _ := rfl
  agent _ _ := rfl
  claim _ _ before := before
  parent _ _ := rfl
  lists _ _ _ := rfl

theorem Container.Kept.trans {given : Set (Addr × Kind)}
    {first second third : Container} (later : third.Kept frozen loose given c second)
    (earlier : second.Kept frozen loose given c first) : third.Kept frozen loose given c first where
  less := later.less.trans earlier.less
  command inside := (later.command inside).trans (earlier.command inside)
  nextId outside known k := by
    have before : second.dbusObjectPath ≠ none ∨ c = globalContext := by
      refine known.imp_left fun some_ => ?_
      obtain ⟨path, has⟩ := Option.ne_none_iff_exists'.mp some_
      simp [later.less.path has]
    exact (later.nextId outside known k).trans (earlier.nextId outside before k)
  agent outside host := (later.agent outside host).trans (earlier.agent outside (later.less.kind ▸ host))
  claim outside host before := later.claim outside host (earlier.claim outside (later.less.kind ▸ host) before)
  parent outside host := (later.parent outside host).trans (earlier.parent outside (later.less.kind ▸ host))
  lists k kind outside := (later.lists k kind outside).trans (earlier.lists k kind outside)

structure World.Shrink (frozen : Finset Addr) (loose : Set Addr) (given : Set (Addr × Kind)) (w w' : World) : Prop where
  kept : ∀ {c new}, w'.heap.cells c = some new → ∃ old, w.heap.cells c = some old ∧
    new.Kept frozen loose given c old
  next : w'.next = w.next
  objects : w'.objects.Sublist w.objects
  made : w'.made = w.made
  nameMappings : w'.nameMappings = w.nameMappings
  owned : w'.owned = w.owned

namespace World.Shrink

variable {w w' w'' : World} {given given' : Set (Addr × Kind)}

theorem refl (frozen : Finset Addr) (loose : Set Addr) (given : Set (Addr × Kind)) (w : World) :
    w.Shrink frozen loose given w where
  kept found := ⟨_, found, Container.Kept.refl _ _ _ _ _⟩
  next := rfl
  objects := List.Sublist.refl _
  made := rfl
  nameMappings := rfl
  owned := rfl

theorem trans (first : w.Shrink frozen loose given w') (second : w'.Shrink frozen loose given w'') :
    w.Shrink frozen loose given w'' where
  kept := by
    intro c last found
    obtain ⟨middle, found, later⟩ := second.kept found
    obtain ⟨old, found, earlier⟩ := first.kept found
    exact ⟨old, found, later.trans earlier⟩
  next := second.next.trans first.next
  objects := second.objects.trans first.objects
  made := second.made.trans first.made
  nameMappings := second.nameMappings.trans first.nameMappings
  owned := second.owned.trans first.owned

theorem mono (shrink : w.Shrink frozen loose given w') (fewer : frozen' ⊆ frozen)
    (more : loose ⊆ loose') (wider : given ⊆ given') : w.Shrink frozen' loose' given' w' where
  __ := shrink
  kept := by
    intro c new found
    obtain ⟨old, found, kept⟩ := shrink.kept found
    exact ⟨old, found, { kept with
      command := fun inside => kept.command (fewer inside)
      nextId := fun outside => kept.nextId fun member => outside (more member)
      agent := fun outside => kept.agent fun member => outside (more member)
      claim := fun outside => kept.claim fun member => outside (more member)
      parent := fun outside => kept.parent fun member => outside (wider member)
      lists := fun k kind outside => kept.lists k kind fun member => outside (wider member) }⟩

theorem drop (shrink : w.Shrink frozen {c} given w') (gone : w'.heap.cells c = none) : w.Shrink frozen ∅ given w' where
  __ := shrink
  kept := by
    intro x new found
    obtain ⟨old, found', kept⟩ := shrink.kept found
    have apart : x ≠ c := by
      rintro rfl
      simp [gone] at found
    exact ⟨old, found', { kept with
      nextId := fun _ => kept.nextId apart
      agent := fun _ => kept.agent apart
      claim := fun _ => kept.claim apart }⟩

theorem modify (changed : ∀ self, w.heap.cells c = some self → (change self).Kept frozen loose given c self) :
    w.Shrink frozen loose given (w.modify c change) where
  kept := by
    intro x new found
    rw [World.cells_modify_heap, Store.cells_modify] at found
    split at found
    · rename_i here
      subst here
      obtain ⟨old, before, rfl⟩ := Option.map_eq_some_iff.mp found
      exact ⟨old, before, changed old before⟩
    · exact ⟨new, found, Container.Kept.refl _ _ _ _ _⟩
  next := rfl
  objects := List.Sublist.refl _
  made := rfl
  nameMappings := rfl
  owned := rfl

theorem free (frozen : Finset Addr) (loose : Set Addr) (given : Set (Addr × Kind)) (w : World) (c : Addr) :
    w.Shrink frozen loose given { w with heap := w.heap.free c } where
  kept := by
    intro x new found
    have other : x ≠ c := by
      rintro rfl
      simp at found
    rw [Store.free_of_ne other] at found
    exact ⟨new, found, Container.Kept.refl _ _ _ _ _⟩
  next := rfl
  objects := List.Sublist.refl _
  made := rfl
  nameMappings := rfl
  owned := rfl

theorem kind (shrink : w.Shrink frozen loose given w') (kind : (w'.graph E').kind c = some k) :
    (w.graph E).kind c = some k := by
  obtain ⟨new, found, rfl⟩ := found_of_kind kind
  obtain ⟨old, found, kept⟩ := shrink.kept found
  rw [kind_graph found, kept.less.kind]

theorem kind_live (shrink : w.Shrink frozen loose given w') (found : w'.heap.cells c = some new) : (w.graph E).kind c = some new.kind := by
  obtain ⟨old, found', kept⟩ := shrink.kept found
  rw [kind_graph found', kept.less.kind]

theorem parent (shrink : w.Shrink frozen loose given w') (parent : (w'.graph E').parent c = some p) :
    (w.graph E).parent c = some p := by
  obtain ⟨new, found, parent⟩ := Option.bind_eq_some_iff.mp parent
  obtain ⟨old, found, kept⟩ := shrink.kept found
  rw [parent_graph found, kept.less.parent parent]

theorem owner (shrink : w.Shrink frozen loose given w') (owner : (w'.graph E').owner c = some o) :
    (w.graph E).owner c = some o := by
  obtain ⟨new, found, owner⟩ := Option.bind_eq_some_iff.mp owner
  obtain ⟨old, found, kept⟩ := shrink.kept found
  rw [owner_graph found, kept.less.owner owner]

theorem command (shrink : w.Shrink frozen loose given w') (command : (w'.graph E).command p = some c) :
    (w.graph E).command p = some c := by
  simp only [World.graph] at command
  split at command
  · cases command
  · rename_i outside
    obtain ⟨new, found, command⟩ := Option.bind_eq_some_iff.mp command
    obtain ⟨old, found, kept⟩ := shrink.kept found
    rw [command_graph found outside, kept.less.command command]

theorem role (shrink : w.Shrink frozen loose given w') (none_ : (w.graph E).role c = none) :
    (w'.graph E').role c = none := by
  cases found : w'.heap.cells c with
  | none => simp [World.graph, found]
  | some new =>
    obtain ⟨old, found', kept⟩ := shrink.kept found
    rw [role_graph found'] at none_
    rw [role_graph found]
    cases role : new.role with
    | none => rfl
    | some r => simp [kept.less.role role] at none_

theorem slot (shrink : w.Shrink frozen loose given w') (p : Addr) (k : Kind) :
    ((w'.graph E').slot p k).Sublist ((w.graph E).slot p k) := by
  cases found : w'.heap.cells p with
  | none => simp [World.graph, found]
  | some new =>
    obtain ⟨old, found', kept⟩ := shrink.kept found
    rw [slot_graph found, slot_graph found']
    exact kept.less.data k

theorem reach (shrink : w.Shrink frozen loose given w') (reach : (w'.graph E').Reach a b) :
    (w.graph E).Reach a b := Graph.Reach.mono shrink.slot reach

theorem orphan (shrink : w.Shrink frozen loose given w') (orphan : (w.graph E).parent c = none) :
    (w'.graph E').parent c = none := by
  cases parent : (w'.graph E').parent c with
  | none => rfl
  | some p =>
    have before := shrink.parent (E := E) parent
    simp [orphan] at before

theorem disowned (shrink : w.Shrink frozen loose given w') (other : (w.graph E).owner c ≠ some o) :
    (w'.graph E').owner c ≠ some o := fun owner => other (shrink.owner owner)

theorem unlisted (shrink : w.Shrink frozen loose given w') (unlisted : ∀ p k, c ∉ (w.graph E).slot p k)
    (p : Addr) (k : Kind) : c ∉ (w'.graph E').slot p k := fun member => unlisted p k ((shrink.slot p k).subset member)

end World.Shrink

section Links

/-- The entries of all arrays and the owners, which bound the destructions to come. -/
def World.links (w : World) : Nat := w.heap.total Container.links

variable {w w' : World} {given : Set (Addr × Kind)}

theorem Container.Less.links {new old : Container} (less : new.Less old) : new.links ≤ old.links := by
  have owner : new.owner.toList.length ≤ old.owner.toList.length := by
    cases has : new.owner with
    | none => simp
    | some o => simp [less.owner has]
  have children : new.allChildren.length ≤ old.allChildren.length := by
    have host := (less.data .host).length_le
    have test := (less.data .testcase).length_le
    have command := (less.data .command).length_le
    have process := (less.data .process).length_le
    simp only [Container.allChildren, List.length_append]
    omega
  unfold Container.links
  omega

private theorem links_live (shrink : w.Shrink frozen loose given w') :
    w'.links = ∑ addr ∈ w.heap.live, ((w'.heap.cells addr).map Container.links).getD 0 := by
  have less : w'.heap.live ⊆ w.heap.live := by
    intro c member
    obtain ⟨new, found⟩ := Store.mem_live_iff.mp member
    obtain ⟨old, found, _⟩ := shrink.kept found
    exact Store.mem_live found
  refine Finset.sum_subset less fun c _ gone => ?_
  have none_ : w'.heap.cells c = none := by
    rw [w'.heap.filled] at gone
    simpa using gone
  simp [none_]

private theorem links_cell (shrink : w.Shrink frozen loose given w') (c : Addr) :
    ((w'.heap.cells c).map Container.links).getD 0 ≤ ((w.heap.cells c).map Container.links).getD 0 := by
  cases found : w'.heap.cells c with
  | none => simp
  | some new =>
    obtain ⟨old, found', kept⟩ := shrink.kept found
    simpa [found'] using kept.less.links

theorem World.Shrink.links_le (shrink : w.Shrink frozen loose given w') : w'.links ≤ w.links := by
  rw [links_live shrink]
  exact Finset.sum_le_sum fun c _ => links_cell shrink c

theorem World.Shrink.links_lt (shrink : w.Shrink frozen loose given w') (found : w.heap.cells c = some old)
    (fewer : ∀ new, w'.heap.cells c = some new → new.links < old.links) (some_ : 0 < old.links) : w'.links < w.links := by
  rw [links_live shrink]
  refine Finset.sum_lt_sum (fun c _ => links_cell shrink c) ⟨c, Store.mem_live found, ?_⟩
  cases after : w'.heap.cells c with
  | none => simpa [found] using some_
  | some new => simpa [found] using fewer new after

theorem World.Shrink.links_entry (shrink : w.Shrink frozen loose given w') (found : w.heap.cells c = some old) (was : x ∈ old.allChildren)
    (gone : ∀ new, w'.heap.cells c = some new → x ∉ new.allChildren) : w'.links < w.links := by
  have length := List.length_pos_of_mem was
  refine shrink.links_lt found (fun new after => ?_) (by unfold Container.links; omega)
  obtain ⟨old', found', kept⟩ := shrink.kept after
  have less := kept.less
  obtain rfl := Option.some.inj (found.symm.trans found')
  have owner : new.owner.toList.length ≤ old.owner.toList.length := by
    cases has : new.owner with
    | none => simp
    | some o => simp [less.owner has]
  have sub : new.allChildren.Sublist old.allChildren :=
    (((less.data .host).append (less.data .testcase)).append (less.data .command)).append (less.data .process)
  have fewer : new.allChildren.length < old.allChildren.length := by
    refine lt_of_le_of_ne sub.length_le fun same => ?_
    exact gone new after (sub.eq_of_length same ▸ was)
  unfold Container.links
  omega

end Links

end Testbus.Server
