import Testbus.Server.Moves

namespace Testbus.Server

open Lib

section Unregister

variable {w : World} {held parked : Multiset Addr}

def Container.forgetPath (self : Container) : Container := { self with dbusObjectPath := none }

/-- The containers of the objects that are gone lose their paths. -/
theorem forget_paths (handles : List Addr) (live : ∀ c ∈ handles, w.heap.cells c ≠ none) :
    ∃ heap, handles.foldlM (fun w handle => do
        let _ ← w.deref handle
        .ok (w.modify handle fun self => { self with dbusObjectPath := none })) w =
        .ok { w with heap := heap } ∧
      (∀ x, heap.cells x = (w.heap.cells x).map (if x ∈ handles then Container.forgetPath else id)) ∧
      (∀ E, World.graph { w with heap := heap } E = w.graph E) ∧
      ∀ E tokens, Counted (Container.outRefs E) Container.refcount w.heap tokens →
        Counted (Container.outRefs E) Container.refcount heap tokens := by
  induction handles generalizing w with
  | nil => exact ⟨w.heap, rfl, by simp, fun _ => rfl, fun _ _ counted => counted⟩
  | cons handle rest ih =>
    obtain ⟨self, found⟩ := Option.ne_none_iff_exists'.mp (live handle (by simp))
    have alive : ∀ c ∈ rest, (w.modify handle Container.forgetPath).heap.cells c ≠ none := by
      intro c member
      have before := live c (List.mem_cons_of_mem _ member)
      rw [World.cells_modify_heap, Store.cells_modify]
      split <;> simpa using before
    obtain ⟨heap, folded, cells, graph, counted⟩ := ih alive
    refine ⟨heap, ?_, ?_, ?_, ?_⟩
    · rw [List.foldlM_cons]
      simp only [World.deref_ok.mpr found, bind, Except.bind]
      exact folded
    · intro x
      rw [cells, World.cells_modify_heap, Store.cells_modify]
      by_cases here : x = handle
      · subst here
        by_cases again : x ∈ rest <;> simp [found, again, Container.forgetPath]
      · simp [here]
    · intro E
      exact (graph E).trans (graph_quiet (by intro; rfl) E)
    · intro E tokens before
      exact counted E tokens (before.keep _ _ (fun _ => rfl) fun _ => rfl)

theorem Registered.object (registered : Registered w) (found : w.heap.cells c = some self)
    (known : self.dbusObjectPath = some path) : objectLookup w.objects path = some ⟨path, some c⟩ :=
  registered.tree.lookup_path (registered.named c self path found known)

/-- Two objects are not for one container. -/
theorem Registered.handle_inj (registered : Registered w) (member : first ∈ w.objects) (member' : second ∈ w.objects)
    (handle : first.handle = some c) (handle' : second.handle = some c) : first = second := by
  refine List.inj_on_of_nodup_map registered.tree.nodup member member' ?_
  rcases registered.handle first member c handle with ⟨rfl, path⟩ | ⟨other, self, found, path⟩
  · rcases registered.handle second member' _ handle' with ⟨_, path'⟩ | ⟨other, _⟩
    · exact path.trans path'.symm
    · exact absurd rfl other
  · rcases registered.handle second member' c handle' with ⟨root, _⟩ | ⟨_, self', found', path'⟩
    · exact absurd root other
    · obtain rfl := Option.some.inj (found.symm.trans found')
      exact Option.some.inj (path.symm.trans path')

/-- A container leaves the bus with all that is below it. -/
theorem Ok.unregister (ok : Ok w held parked exempt) (found : w.heap.cells c = some self) :
    ∃ w', containerUnregister c w = .ok w' ∧ Ok w' held parked exempt ∧
      w.Shrink exempt ∅ ∅ w' ∧ w'.graph exempt = w.graph exempt ∧
      ∀ new, w'.heap.cells c = some new → new.dbusObjectPath = none := by
  have registered := ok.registered
  unfold containerUnregister
  simp only [World.deref_ok.mpr found, bind, Except.bind]
  cases known : self.dbusObjectPath with
  | none =>
    refine ⟨w, rfl, ok, World.Shrink.refl _ _ _ _, rfl, fun new after => ?_⟩
    obtain rfl := Option.some.inj (found.symm.trans after)
    exact known
  | some path =>
    simp only [registered.object found known]
    have member := registered.named c self path found known
    have notRoot : path ≠ rootPath := by
      rintro rfl
      have same := List.inj_on_of_nodup_map registered.tree.nodup member registered.tree.root rfl
      cases same
    let gone : Object → Bool := fun x => x = ⟨path, some c⟩ ∨ childPath path [] <+: x.path
    have isGone : ∀ x, gone x = true ↔ x = ⟨path, some c⟩ ∨ childPath path [] <+: x.path := fun x => decide_eq_true_iff
    let handles := (w.objects.filter gone).filterMap Object.handle
    have live : ∀ x ∈ handles, w.heap.cells x ≠ none := by
      intro x inside
      obtain ⟨object, kept, handle⟩ := List.mem_filterMap.mp inside
      rcases registered.handle object (List.mem_filter.mp kept).1 x handle with ⟨rfl, _⟩ | ⟨_, _, there, _⟩
      · obtain ⟨_, there, _⟩ := ok.root
        simp [there]
      · simp [there]
    obtain ⟨heap, folded, cells, graph, counted⟩ := forget_paths
      (w := { w with objects := w.objects.filter fun x => !gone x }) handles live
    refine ⟨_, folded, ?_, ?_, graph exempt, ?_⟩
    · constructor
      · exact counted _ _ ok.counted
      · rw [graph]
        exact ok.wf
      · constructor
        · exact registered.tree.filter member notRoot isGone
        · refine List.mem_filter.mpr ⟨registered.hostlist, ?_⟩
          rw [Bool.not_eq_true', ← Bool.not_eq_true, isGone]
          rintro (same | below)
          · cases same
          · obtain ⟨names, plain, way⟩ := registered.tree.named _ member
            have top : hostlistPath = pathOf [ascii ['H', 'o', 's', 't']] := by decide
            change childPath path [] <+: hostlistPath at below
            change path = pathOf names at way
            rw [way, top, prefix_pathOf plain (by decide)] at below
            obtain ⟨⟨rest, whole⟩, longer⟩ := below
            cases names with
            | nil => exact notRoot (by simpa [pathOf, pathBelow] using way)
            | cons name names =>
              apply longer
              rw [List.cons_append, List.cons_eq_cons, List.append_eq_nil_iff] at whole
              rw [whole.1, whole.2.1]
        · intro object kept x handle
          obtain ⟨present, stays⟩ := List.mem_filter.mp kept
          rcases registered.handle object present x handle with root | ⟨other, old, there, path'⟩
          · exact Or.inl root
          · refine Or.inr ⟨other, old, ?_, path'⟩
            have outside : x ∉ handles := by
              intro inside
              obtain ⟨object', kept', handle'⟩ := List.mem_filterMap.mp inside
              obtain ⟨present', away⟩ := List.mem_filter.mp kept'
              obtain rfl := registered.handle_inj present present' handle handle'
              simp [away] at stays
            rw [cells, if_neg outside]
            simp [there]
        · intro x new path' after has
          rw [cells] at after
          obtain ⟨old, there, rfl⟩ := Option.map_eq_some_iff.mp after
          by_cases inside : x ∈ handles
          · simp [inside, Container.forgetPath] at has
          · rw [if_neg inside] at has
            have present := registered.named x old path' there has
            refine List.mem_filter.mpr ⟨present, ?_⟩
            rw [Bool.not_eq_true', ← Bool.not_eq_true]
            intro away
            exact inside (List.mem_filterMap.mpr ⟨⟨path', some x⟩, List.mem_filter.mpr ⟨present, away⟩, rfl⟩)
        · intro x new path' p after has parent
          rw [cells] at after
          obtain ⟨old, there, rfl⟩ := Option.map_eq_some_iff.mp after
          by_cases inside : x ∈ handles
          · simp [inside, Container.forgetPath] at has
          · rw [if_neg inside] at has parent
            obtain ⟨name, plain, place⟩ := registered.nested x old path' p there has parent
            refine ⟨name, plain, place.imp_right ?_⟩
            rintro ⟨above, q, foundP, pathP, below⟩
            -- What is above keeps its path, or this one would have gone with it.
            have stays : p ∉ handles := by
              intro away
              obtain ⟨object, kept, handle⟩ := List.mem_filterMap.mp away
              obtain ⟨present, gone'⟩ := List.mem_filter.mp kept
              apply inside
              refine List.mem_filterMap.mpr ⟨⟨path', some x⟩, List.mem_filter.mpr
                ⟨registered.named x old path' there has, (isGone _).mpr (Or.inr ?_)⟩, rfl⟩
              have same := registered.handle_inj present (registered.named p above q foundP pathP) handle rfl
              subst same
              change childPath path [] <+: path'
              rcases (isGone _).mp gone' with same | longer
              · cases same
                rw [below]
                exact ⟨name, by simp [childPath]⟩
              · rw [below]
                exact longer.trans (List.prefix_append _ _)
            exact ⟨above, q, by rw [cells, if_neg stays]; simp [foundP], pathP, below⟩
      · exact ok.beneath
    · constructor
      · intro x new after
        rw [cells] at after
        obtain ⟨old, there, rfl⟩ := Option.map_eq_some_iff.mp after
        refine ⟨old, there, ?_⟩
        split
        · exact { Container.Kept.refl exempt ∅ ∅ x old with
            less := { Container.Less.refl old with path := by rintro _ ⟨⟩ }
            nextId := fun _ _ _ => rfl }
        · exact Container.Kept.refl _ _ _ _ _
      · rfl
      · exact List.filter_sublist
      · rfl
      · rfl
      · rfl
    · intro new after
      rw [cells] at after
      have inside : c ∈ handles := List.mem_filterMap.mpr
        ⟨⟨path, some c⟩, List.mem_filter.mpr ⟨member, (isGone _).mpr (Or.inl rfl)⟩, rfl⟩
      rw [if_pos inside] at after
      obtain ⟨old, _, rfl⟩ := Option.map_eq_some_iff.mp after
      rfl

end Unregister

section Detach

/-- The arrays below a container, and the one that it lives in as a host or a test. -/
def World.around (w : World) (c : Addr) : Set (Addr × Kind) :=
  { x | (w.graph ∅).Reach c x.1 ∨ (w.graph ∅).parent c = some x.1 ∧
    (w.graph ∅).kind c = some x.2 ∧ (x.2 = .host ∨ x.2 = .testcase) }

theorem World.mem_around (w : World) (c : Addr) (k : Kind) : (c, k) ∈ w.around c := Or.inl Relation.ReflTransGen.refl

/-- A container that is about to be destroyed; it may have lost its owner already, if it is no
host that is still listed. -/
structure Entry (w : World) (held parked : Multiset Addr) (exempt : Finset Addr) (c : Addr) :
    Prop where
  counted : Counted (Container.outRefs exempt) Container.refcount w.heap
    (globalContext ::ₘ (held + parked))
  registered : Registered w
  beneath : ∀ {e}, e ∈ exempt → e ∈ held
  graph : ∃ G : Graph, G.Wf w.next exempt parked ∧ (w.graph exempt = G ∨
    w.graph exempt = G.setOwner c none ∧ (G.kind c = some .host → ∀ p k, c ∉ G.slot p k))
  held : c ∈ held
  apart : c ≠ globalContext
  outside : c ∉ exempt

variable {held parked : Multiset Addr}

theorem Ok.entry (ok : Ok w held parked exempt) (member : c ∈ held) (apart : c ≠ globalContext)
    (outside : c ∉ exempt) : Entry w held parked exempt c where
  counted := ok.counted
  registered := ok.registered
  beneath := ok.beneath
  graph := ⟨_, ok.wf, Or.inl rfl⟩
  held := member
  apart := apart
  outside := outside

theorem Ok.entry_disowned (ok : Ok w held parked exempt) (member : c ∈ held)
    (apart : c ≠ globalContext) (outside : c ∉ exempt)
    (free : (w.graph exempt).kind c = some .host → ∀ p k, c ∉ (w.graph exempt).slot p k) :
    Entry (w.modify c fun self => { self with owner := none }) held parked exempt c where
  counted := ok.counted.keep _ _ (fun _ => rfl) fun _ => rfl
  registered := ok.registered.modify (fun _ => rfl) fun _ _ parent => parent
  beneath := ok.beneath
  graph := ⟨_, ok.wf, Or.inr ⟨graph_clearOwner exempt, free⟩⟩
  held := member
  apart := apart
  outside := outside

namespace Entry

/-- The graph but for the owner. -/
theorem base (entry : Entry w held parked exempt c) : ∃ G : Graph, G.Wf w.next exempt parked ∧
    G.kind = (w.graph exempt).kind ∧ G.parent = (w.graph exempt).parent ∧
    G.slot = (w.graph exempt).slot ∧ G.command = (w.graph exempt).command ∧
    (w.graph exempt = G ∨ w.graph exempt = G.setOwner c none ∧ (G.kind c = some .host → ∀ p k, c ∉ G.slot p k)) := by
  obtain ⟨G, wf, graph⟩ := entry.graph
  refine ⟨G, wf, ?_, ?_, ?_, ?_, graph⟩
  all_goals
    rcases graph with same | ⟨same, _⟩
    · rw [same]
    · rw [same]
      rfl

theorem live (entry : Entry w held parked exempt c) (member : p ∈ held) : ∃ self, w.heap.cells p = some self :=
  entry.counted.live (Multiset.mem_cons_of_mem (Multiset.mem_add.mpr (Or.inl member)))

/-- The graph with a process that is being destroyed, and the references with its command. -/
theorem begins (registered : Registered w) (beneath : ∀ {e}, e ∈ exempt → e ∈ held)
    (counted : Counted (Container.outRefs exempt) Container.refcount w.heap (globalContext ::ₘ (held + parked)))
    (found : w.heap.cells c = some self) (member : c ∈ held) (outside : c ∉ exempt)
    (wf : ((w.graph exempt).setCommand c none).Wf w.next (insert c exempt) parked) :
    Ok w (↑self.command.toList + held) parked (insert c exempt) where
  counted := by
    refine counted.restate found (fun x value other => ?_) ?_
    · simp [Container.outRefs, other]
    · have before : Container.outRefs exempt c self = ↑self.allChildren + ↑self.command.toList := by
        simp [Container.outRefs, outside]
      have after : Container.outRefs (insert c exempt) c self = ↑self.allChildren := by
        simp [Container.outRefs]
      rw [before, after]
      ext x
      simp only [Multiset.count_add, Multiset.count_cons]
      omega
  wf := by
    rw [graph_insert]
    exact wf
  registered := registered
  beneath inside := by
    rcases Finset.mem_insert.mp inside with rfl | old
    · exact Multiset.mem_add.mpr (Or.inr member)
    · exact Multiset.mem_add.mpr (Or.inr (beneath old))

theorem parent_live (entry : Entry w held parked exempt c) (found : w.heap.cells c = some self)
    (parent : self.parent = some p) : p ≠ c ∧ (∃ above, w.heap.cells p = some above) ∧ self.kind ≠ .globalContext := by
  obtain ⟨G, wf, kinds, parents, _⟩ := entry.base
  have kind : G.kind c = some self.kind := by rw [kinds, kind_graph found]
  obtain ⟨k, kind', host, place⟩ := wf.listed (c := c) (p := p) (by
    rw [parents, parent_graph found, parent])
  obtain rfl := Option.some.inj (kind.symm.trans kind')
  have other : self.kind ≠ .globalContext := fun same => entry.apart (wf.root.mp (same ▸ kind))
  rcases place with member | ⟨_, begun⟩
  · obtain ⟨_, above, kindAbove, has⟩ := wf.entry member
    refine ⟨?_, ?_, other⟩
    · rintro rfl
      rw [kind] at kindAbove
      obtain rfl := Option.some.inj kindAbove
      have test : self.kind = .testcase := by
        cases inside : self.kind <;> simp [inside, Kind.has] at has ⊢
      exact absurd (wf.below (test ▸ member)) (lt_irrefl _)
    · rw [kinds] at kindAbove
      obtain ⟨above, there, _⟩ := found_of_kind kindAbove
      exact ⟨above, there⟩
  · exact ⟨fun same => entry.outside (same ▸ begun), entry.live (entry.beneath begun), other⟩

end Entry

theorem removeChild_eq (put : Action) (found : w.heap.cells c = some self)
    (orphan : self.parent = none) (kind : self.kind ≠ .globalContext) (there : w.heap.cells p = some above) :
    containerRemoveChild put c p w =
      if c ∈ (above.children self.kind).data then
        (put c (w.modify p (Container.setData self.kind
          ((above.children self.kind).data.erase c)))).map fun w => (true, w)
      else .ok (false, w) := by
  have first := World.deref_ok.mpr found
  have second := World.deref_ok.mpr there
  cases which : self.kind with
  | globalContext => exact absurd which kind
  | host =>
    simp only [containerRemoveChild, hostArrayRemove, first, second, which, orphan, bind,
      Except.bind, reduceCtorEq, if_false]
    split <;> rfl
  | testcase | command | process =>
    simp only [containerRemoveChild, arrayRemove, first, second, which, bind, Except.bind]
    split <;> rfl

/-- A container that is destroyed leaves its parent first. -/
theorem Entry.detach (entry : Entry w held parked exempt c) (found : w.heap.cells c = some self) (destroy : Action) :
    ∃ w', containerDetach (containerPut destroy) c w = .ok w' ∧
      Ok w' (↑self.command.toList + held) parked (insert c exempt) ∧
      w.Shrink (insert c exempt) ∅ (w.around c) w' ∧ ∀ p, self.parent = some p →
        (w'.graph exempt).slot p self.kind = ((w.graph exempt).slot p self.kind).erase c := by
  obtain ⟨G, wf, kinds, parents, slots, _, graph⟩ := entry.base
  have kind : G.kind c = some self.kind := by rw [kinds, kind_graph found]
  unfold containerDetach
  simp only [World.deref_ok.mpr found, bind, Except.bind]
  cases parent : self.parent with
  | none =>
    have orphan : G.parent c = none := by rw [parents, parent_graph found, parent]
    refine ⟨w, rfl, ?_, World.Shrink.refl _ _ _ _, nofun⟩
    refine Entry.begins entry.registered entry.beneath entry.counted found entry.held entry.outside ?_
    have begun := wf.enter (c := c) (by simp [kind]) orphan
    rcases graph with same | ⟨same, free⟩
    · rw [same]
      exact begun
    · rw [same]
      refine begun.disown (Finset.mem_insert_self _ _) fun p k member => ?_
      by_cases host : self.kind = .host
      · exact free (kind.trans (congrArg some host)) p k member
      · exact wf.not_listed orphan (by rw [kind]; simpa using host) p k member
  | some p =>
    obtain ⟨other, ⟨above, there⟩, notRoot⟩ := entry.parent_live found parent
    have aboveAt : (w.modify c fun self => { self with parent := none }).heap.cells p =
        some above := by
      rw [World.cells_modify_heap, Store.modify_of_ne other, there]
    have selfAt : (w.modify c fun self => { self with parent := none }).heap.cells c =
        some { self with parent := none } := by
      simp [found]
    have removed := removeChild_eq (containerPut destroy) selfAt rfl notRoot aboveAt
    have slot : G.slot p self.kind = (above.children self.kind).data := by
      rw [slots, slot_graph there]
    have detached := wf.detach kind (p := p) (by rw [parents, parent_graph found, parent])
    have counted : Counted (Container.outRefs exempt) Container.refcount
        (w.modify c fun self => { self with parent := none }).heap
        (globalContext ::ₘ (held + parked)) := entry.counted.keep _ _ (fun _ => rfl) fun _ => rfl
    have registered : Registered (w.modify c fun self => { self with parent := none }) :=
      entry.registered.modify (fun _ => rfl) fun _ _ => nofun
    have orphaned : w.Shrink (insert c exempt) ∅ (w.around c) (w.modify c fun self => { self with parent := none }) :=
      World.Shrink.modify fun self _ => kept_clearParent self (w.mem_around c _)
    -- What the graph is when the container has left the array, and lost its command.
    have result : ∀ w' : World, w'.graph exempt = ((w.graph exempt).setParent c none).setSlot p
          self.kind ((above.children self.kind).data.erase c) →
        ((w'.graph exempt).setCommand c none).Wf w.next (insert c exempt) parked := by
      intro w' same'
      rw [same']
      rcases graph with same | ⟨same, free⟩
      · rw [same, ← slot]
        exact detached
      · rw [same, ← slot]
        refine detached.disown (Finset.mem_insert_self _ _) fun q l member => ?_
        by_cases host : self.kind = .host
        · refine free (kind.trans (congrArg some host)) q l ?_
          exact (Graph.slot_setSlot_sublist List.erase_sublist q l).subset member
        · refine detached.not_listed (detached.begun (Finset.mem_insert_self _ _)).2.1 ?_ q l member
          change G.kind c ≠ _
          rw [kind]
          simpa using host
    simp only [removed]
    by_cases member : c ∈ (above.children self.kind).data
    · have listed : c ∈ (w.graph exempt).slot p self.kind := by rwa [slot_graph there]
      let w₂ := (w.modify c fun self => { self with parent := none }).modify p
        (Container.setData self.kind ((above.children self.kind).data.erase c))
      have moved : Counted (Container.outRefs exempt) Container.refcount w₂.heap
          (c ::ₘ globalContext ::ₘ (held + parked)) := counted.move aboveAt _ rfl (by
            rw [← outRefs_erase notRoot exempt p member, Multiset.cons_add, Multiset.add_cons])
      have selfAt₂ : w₂.heap.cells c = some { self with parent := none } := by
        rw [World.cells_modify_heap, Store.modify_of_ne (Ne.symm other), selfAt]
      have many : 1 < self.refcount := by
        have counts := moved.counts c _ selfAt₂
        have others := Multiset.count_pos.mpr entry.held
        rw [Multiset.count_cons_self, Multiset.count_cons_of_ne entry.apart, Multiset.count_add] at counts
        change self.refcount = _ at counts
        omega
      have dropped := moved.drop selfAt₂ (fun self => { self with refcount := self.refcount - 1 })
        (by change self.refcount = self.refcount - 1 + 1; omega) many rfl
      have put : containerPut destroy c w₂ =
          .ok (w₂.modify c fun self => { self with refcount := self.refcount - 1 }) := by
        simp only [containerPut, World.deref_ok.mpr selfAt₂, bind, Except.bind]
        rw [if_neg (by change self.refcount ≠ 0; omega), if_pos many]
      have same : (w₂.modify c fun self => { self with refcount := self.refcount - 1 }).graph
          exempt = ((w.graph exempt).setParent c none).setSlot p self.kind ((above.children self.kind).data.erase c) := by
        rw [← graph_clearParent]
        exact (graph_quiet (by intro; rfl) exempt).trans (graph_setData (by rw [aboveAt]; simp) _ exempt)
      have registered₂ : Registered w₂ := registered.modify (fun _ => rfl) fun _ _ parent => parent
      have registered₃ : Registered (w₂.modify c fun self =>
          { self with refcount := self.refcount - 1 }) := registered₂.modify (fun _ => rfl)
          fun _ _ parent => parent
      have begun := Entry.begins registered₃ entry.beneath dropped
        (by rw [World.cells_modify_heap, Store.modify_self, selfAt₂]; rfl) entry.held entry.outside
        (result _ same)
      refine ⟨_, ?_, begun, ?_, fun q home => ?_⟩
      · rw [if_pos member, put]
        rfl
      · have unlisted : World.Shrink (insert c exempt) ∅ (w.around c)
            (w.modify c fun self => { self with parent := none }) w₂ := by
          refine World.Shrink.modify fun above' at_ => ?_
          obtain rfl := Option.some.inj (aboveAt.symm.trans at_)
          refine kept_setData _ List.erase_sublist fun listed => Or.inr ⟨?_, ?_, listed⟩
          · exact (parent_graph found).trans parent
          · exact kind_graph found
        exact (orphaned.trans unlisted).trans (World.Shrink.modify fun self _ => kept_refcount self _)
      · obtain rfl : p = q := Option.some.inj home
        rw [same, slot_graph there]
        simp [Graph.setSlot]
    · rw [if_neg member]
      have same : (w.modify c fun self => { self with parent := none }).graph exempt =
          ((w.graph exempt).setParent c none).setSlot p self.kind ((above.children self.kind).data.erase c) := by
        have slot : (w.graph exempt).slot p self.kind = (above.children self.kind).data := slot_graph there _
        rw [graph_clearParent, List.erase_of_not_mem member, ← slot]
        apply Graph.ext <;> try rfl
        simp [Graph.setSlot, Graph.setParent]
      have begun := Entry.begins registered entry.beneath counted selfAt entry.held entry.outside (result _ same)
      refine ⟨_, rfl, begun, orphaned, fun q home => ?_⟩
      obtain rfl : p = q := Option.some.inj home
      rw [same, slot_graph there]
      simp [Graph.setSlot]

end Detach

end Testbus.Server
