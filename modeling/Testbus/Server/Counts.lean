import Testbus.Server.Answering

namespace Testbus.Server

open Lib

/-- The references to a container that are counted: those of arrays and of processes, and the
one to the global context. -/
def World.references (w : World) (c : Addr) : Nat :=
  w.heap.total (fun self => self.allChildren.count c + self.command.toList.count c) +
    if c = globalContext then 1 else 0

/-- The objects that stand for a container. -/
def World.handles (w : World) (c : Addr) : Nat :=
  (w.objects.filter fun object => object.handle = some c).length

/-- Every container is counted as often as it is referred to, and stays exactly as long. -/
structure Accounted (w : World) : Prop where
  counts : ∀ c self, w.heap.cells c = some self → self.refcount = w.references c
  kept : ∀ c self, w.heap.cells c = some self →
    0 < w.references c ∧ (w.graph ∅).Reach globalContext c
  children : ∀ c self, w.heap.cells c = some self → ∀ k, ∀ x ∈ (self.children k).data,
    (w.heap.cells x).isSome
  links : ∀ c self, w.heap.cells c = some self → ∀ x,
    self.parent = some x ∨ self.owner = some x ∨ self.command = some x → (w.heap.cells x).isSome
  handles : ∀ object ∈ w.objects, ∀ c, object.handle = some c → (w.heap.cells c).isSome

theorem Settled.references (settled : Settled w) (found : w.heap.cells c = some self) :
    self.refcount = w.references c := by
  have counts := settled.refcount found
  have same : w.heap.refs (Container.outRefs ∅) c =
      w.heap.total fun self => self.allChildren.count c + self.command.toList.count c := by
    rw [Store.refs, Store.total, Store.total]
    refine Finset.sum_congr rfl fun x _ => ?_
    cases cell : w.heap.cells x <;> simp [Store.tag, cell, Container.outRefs]
  rw [counts, same, World.references]
  simp

theorem Settled.parent_live (settled : Settled w) (found : w.heap.cells c = some self)
    (parent : self.parent = some p) : (w.heap.cells p).isSome := by
  obtain ⟨k, _, member⟩ := settled.parent_listed (c := c) (p := p) (by rw [parent_graph found, parent])
  obtain ⟨_, above, kindP, _⟩ := settled.wf.entry member
  obtain ⟨_, there, _⟩ := found_of_kind kindP
  exact Option.isSome_of_eq_some there

theorem Settled.command_live (settled : Settled w) (found : w.heap.cells c = some self)
    (command : self.command = some p) : (w.heap.cells p).isSome := by
  obtain ⟨_, kindP, _⟩ := settled.wf.running (p := c) (c := p)
    (by rw [command_graph found (Finset.notMem_empty c), command])
  obtain ⟨_, there, _⟩ := found_of_kind kindP
  exact Option.isSome_of_eq_some there

theorem Settled.handle_live (settled : Settled w) (member : object ∈ w.objects)
    (handle : object.handle = some c) : (w.heap.cells c).isSome := by
  rcases settled.registered.handle object member c handle with ⟨rfl, _⟩ | ⟨_, _, there, _⟩
  · obtain ⟨_, there, _⟩ := settled.root
    exact Option.isSome_of_eq_some there
  · exact Option.isSome_of_eq_some there

theorem Settled.accounted (settled : Settled w) : Accounted w where
  counts _ _ found := settled.references found
  kept c self found := by
    have positive := settled.counted.positive c self found
    rw [settled.references found] at positive
    exact ⟨positive, settled.reach found⟩
  children c self found k x member := by
    obtain ⟨_, there⟩ := settled.children_live found k x member
    exact Option.isSome_of_eq_some there
  links c self found x link := by
    rcases link with parent | owner | command
    · exact settled.parent_live found parent
    · obtain ⟨_, there⟩ := settled.owner_live found owner
      exact Option.isSome_of_eq_some there
    · exact settled.command_live found command
  handles _ member _ handle := settled.handle_live member handle

/-- The counts are right in every state that the master gets into, and there no request makes it
fail an assertion or use a container that was freed. -/
theorem references_balanced (reachable : Reachable w) : Accounted w ∧
    ∀ request fault, serve w request = .error fault → fault = .fatal ∨ fault = .disabled := by
  have steady := reachable.steady
  refine ⟨steady.settled.accounted, fun request fault stopped => ?_⟩
  have serves := serve_ok steady request
  rw [stopped] at serves
  cases serves with
  | disabled => exact Or.inr rfl
  | blocked => exact Or.inl rfl

/-- The object of a container holds no reference to it. -/
theorem handle_uncounted : ∃ w c self, Reachable w ∧ w.heap.cells c = some self ∧
    self.refcount ≠ w.references c + w.handles c := by
  obtain ⟨w, ran, counts⟩ := Machine.run_view step World.initial [.createTest globalContextPath (ascii ['t'])]
    (fun w => ((w.heap.cells 1).map Container.refcount, w.references 1, w.handles 1))
    (some 1, 1, 1) (by decide +kernel)
  obtain ⟨cell, counts⟩ := Prod.mk.inj counts
  obtain ⟨references, handles⟩ := Prod.mk.inj counts
  obtain ⟨self, found, one⟩ := Option.map_eq_some_iff.mp cell
  exact ⟨w, 1, self, ⟨_, ran⟩, found, by omega⟩

theorem references_balanced_running : ∃ w, Reachable w ∧
    ((w.heap.cells 1).map Container.refcount, (w.heap.cells 3).map Container.refcount) =
      (some 2, some 2) ∧
    Accounted w ∧ ∀ request fault, serve w request = .error fault →
      fault = .fatal ∨ fault = .disabled := by
  obtain ⟨w, ran, counts⟩ := Machine.run_view step World.initial
    [.nameOwnerChanged (ascii ['a']) (ascii ['a']), .createHost (ascii ['h']) (ascii ['a']) 0,
      .ready (ascii ['a']), .createTest globalContextPath (ascii ['t']), .createCommand firstTest,
      .addHost firstTest (ascii ['r']) firstHost, .run firstHost (childPath firstTest (ascii "Command0".toList))]
    (fun w => ((w.heap.cells 1).map Container.refcount, (w.heap.cells 3).map Container.refcount))
    (some 2, some 2) (by decide +kernel)
  exact ⟨w, ⟨_, ran⟩, counts, references_balanced ⟨_, ran⟩⟩

/-- The containers are a tree below the global context: none lies below itself, and only a host is
listed twice. -/
theorem containers_tree {above : Container} {k : Kind} (reachable : Reachable w)
    (found : w.heap.cells p = some above) (member : c ∈ (above.children k).data) :
    (w.graph ∅).Reach globalContext c ∧ ¬ (w.graph ∅).Reach c p ∧ (k ≠ .host → ∀ q other l,
      w.heap.cells q = some other → c ∈ (other.children l).data → q = p ∧ l = k) := by
  have settled := reachable.steady.settled
  have listed : c ∈ (w.graph ∅).slot p k := by rwa [slot_graph found]
  refine ⟨?_, settled.wf.acyclic listed, ?_⟩
  · obtain ⟨_, there⟩ := settled.children_live found k c member
    exact settled.reach there
  · intro noHost q other l found' member'
    exact settled.wf.slot_unique listed noHost (by rwa [slot_graph found'])

theorem containers_tree_test : ∃ w above, Reachable w ∧
    w.heap.cells globalContext = some above ∧ (above.children .testcase).data = [1] ∧
      ¬ (w.graph ∅).Reach 1 globalContext := by
  obtain ⟨w, ran, view⟩ := Machine.run_view step World.initial [.createTest globalContextPath (ascii ['t'])]
    (fun w => (w.heap.cells globalContext).map fun above => (above.children .testcase).data)
    (some [1]) (by decide +kernel)
  obtain ⟨above, found, tests⟩ := Option.map_eq_some_iff.mp view
  exact ⟨w, above, ⟨_, ran⟩, found, tests,
    (containers_tree ⟨_, ran⟩ found (by rw [tests]; exact List.mem_singleton_self 1)).2.1⟩

/-- The path of a container leads to it, in calls and in look-ups, and whatever a path leads to is
there. -/
theorem paths_lead (reachable : Reachable w) :
    (∀ c self path, w.heap.cells c = some self → self.dbusObjectPath = some path →
      containerUnwrap w.objects path = some c ∧
        (objectLookup w.objects path).bind Object.handle = some c ∧ path.length < 255) ∧
    ∀ path c, containerUnwrap w.objects path = some c ∨
        (objectLookup w.objects path).bind Object.handle = some c → (w.heap.cells c).isSome := by
  have settled := reachable.steady.settled
  have tree := settled.registered.tree
  constructor
  · intro c self path found named
    have member := settled.registered.named c self path found named
    have called := congrArg (Option.bind · Object.handle) (tree.find_path member)
    refine ⟨called, ?_, tree.short _ member⟩
    rw [tree.lookup_path member]
    rfl
  · rintro path c (called | looked)
    · obtain ⟨object, here, handle⟩ := Option.bind_eq_some_iff.mp called
      exact settled.handle_live (List.mem_of_find?_eq_some here) handle
    · obtain ⟨object, here, handle⟩ := Option.bind_eq_some_iff.mp looked
      exact settled.handle_live (Tree.lookup_mem here) handle

theorem paths_lead_test : ∃ w path, Reachable w ∧ (objectLookup w.objects path).bind Object.handle = some 1 := by
  obtain ⟨w, ran, view⟩ := Machine.run_view step World.initial [.createTest globalContextPath (ascii ['t'])]
    (fun w => ((w.heap.cells 1).bind Container.dbusObjectPath).isSome) true (by decide +kernel)
  obtain ⟨path, shown⟩ := Option.isSome_iff_exists.mp view
  obtain ⟨self, found, named⟩ := Option.bind_eq_some_iff.mp shown
  exact ⟨w, path, ⟨_, ran⟩, ((paths_lead ⟨_, ran⟩).1 1 self path found named).2.1⟩

end Testbus.Server
