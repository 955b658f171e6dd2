import Testbus.Server.Graph
import Testbus.Server.Tree

/-! What holds of the master while its code runs: every reference is counted, the containers
form a well-formed graph, and the objects on the bus stand for what is there. -/

namespace Testbus.Server

open Lib

/-- The references that a container has to others. -/
def Container.outRefs (exempt : Finset Addr) (addr : Addr) (self : Container) : Multiset Addr :=
  ↑self.allChildren + if addr ∈ exempt then 0 else ↑self.command.toList

/-- The objects and the containers know each other. -/
structure Registered (w : World) : Prop where
  tree : Tree w.objects
  hostlist : ⟨hostlistPath, none⟩ ∈ w.objects
  handle : ∀ object ∈ w.objects, ∀ c, object.handle = some c →
    c = globalContext ∧ object.path = globalContextPath ∨
      c ≠ globalContext ∧ ∃ self, w.heap.cells c = some self ∧
        self.dbusObjectPath = some object.path
  named : ∀ c self path, w.heap.cells c = some self → self.dbusObjectPath = some path →
    ⟨path, some c⟩ ∈ w.objects
  nested : ∀ c self path p, w.heap.cells c = some self → self.dbusObjectPath = some path →
    self.parent = some p → ∃ name, Plain name ∧
      (p = globalContext ∧
          (path = childPath globalContextPath name ∨ path = childPath hostlistPath name) ∨
        ∃ above q, w.heap.cells p = some above ∧ above.dbusObjectPath = some q ∧
          path = childPath q name)

/-- `held` are the references of the running code, `parked` those in arrays that were set
aside, and `exempt` the containers whose destruction is under way. -/
structure Ok (w : World) (held parked : Multiset Addr) (exempt : Finset Addr) : Prop where
  counted : Counted (Container.outRefs exempt) Container.refcount w.heap
    (globalContext ::ₘ (held + parked))
  wf : (w.graph exempt).Wf w.next exempt parked
  registered : Registered w
  beneath : ∀ {c}, c ∈ exempt → c ∈ held

/-- What the containers of the graph are made of. -/
def Container.shape (self : Container) :
    Kind × Option Addr × Option Addr × Option Addr × Option CString × (Kind → List Addr) :=
  (self.kind, self.parent, self.owner, self.command, self.role, fun k => (self.children k).data)

section Shape

variable {w : World}

theorem World.modify_congr (found : w.heap.cells c = some self) (same : first self = second self) : w.modify c first = w.modify c second := by
  have heap : w.heap.modify c first = w.heap.modify c second := by
    apply Store.ext_cells
    funext other
    simp only [Store.cells_modify]
    split
    · rename_i here
      subst here
      simp [found, same]
    · rfl
  simp [World.modify, heap]

theorem World.modify_same (found : w.heap.cells c = some self) (same : change self = self) : w.modify c change = w := by
  have heap : w.heap.modify c change = w.heap := by
    apply Store.ext_cells
    funext other
    rw [Store.cells_modify]
    split
    · rename_i here
      subst here
      simp [found, same]
    · rfl
  simp [World.modify, heap]

theorem graph_congr (same : ∀ self, (first self).shape = (second self).shape) (exempt : Finset Addr) :
    (w.modify c first).graph exempt = (w.modify c second).graph exempt := by
  apply Graph.ext <;> funext x <;>
    simp only [World.graph, World.cells_modify_heap, Store.cells_modify]
  all_goals
    by_cases here : x = c
    · subst here
      cases found : w.heap.cells x with
      | none => simp
      | some self =>
        have same := same self
        simp only [Container.shape, Prod.mk.injEq, funext_iff] at same
        obtain ⟨kind, parent, owner, command, role, slot⟩ := same
        simp [kind, parent, owner, command, role, slot]
    · simp [here]

theorem graph_quiet (same : ∀ self, (change self).shape = self.shape) (exempt : Finset Addr) :
    (w.modify c change).graph exempt = w.graph exempt := by
  have unchanged : w.modify c id = w := by
    have heap : w.heap.modify c id = w.heap := by
      apply Store.ext_cells
      funext other
      simp [Store.cells_modify]
    simp [World.modify, heap]
  have plain : (w.modify c change).graph exempt = (w.modify c id).graph exempt := graph_congr same exempt
  rw [plain, unchanged]

theorem graph_clearParent (exempt : Finset Addr) :
    (w.modify c fun self => { self with parent := none }).graph exempt = (w.graph exempt).setParent c none := by
  apply Graph.ext <;> funext x <;>
    simp only [World.graph, Graph.setParent, World.cells_modify_heap, Store.cells_modify]
  all_goals
    by_cases here : x = c
    · subst here
      cases found : w.heap.cells x <;> simp
    · simp [here]

theorem graph_clearOwner (exempt : Finset Addr) :
    (w.modify c fun self => { self with owner := none }).graph exempt = (w.graph exempt).setOwner c none := by
  apply Graph.ext <;> funext x <;>
    simp only [World.graph, Graph.setOwner, World.cells_modify_heap, Store.cells_modify]
  all_goals
    by_cases here : x = c
    · subst here
      cases found : w.heap.cells x <;> simp
    · simp [here]

theorem graph_clearRole (exempt : Finset Addr) :
    (w.modify c fun self => { self with role := none }).graph exempt = (w.graph exempt).setRole c none := by
  apply Graph.ext <;> funext x <;>
    simp only [World.graph, Graph.setRole, World.cells_modify_heap, Store.cells_modify]
  all_goals
    by_cases here : x = c
    · subst here
      cases found : w.heap.cells x <;> simp
    · simp [here]

theorem graph_setChildren (live : w.heap.cells p ≠ none) (array : ChildArray) (exempt : Finset Addr) :
    (w.modify p (Container.setChildren k array)).graph exempt = (w.graph exempt).setSlot p k array.data := by
  have kept : ∀ {α : Type} (f : Container → Option α), (∀ self, f (Container.setChildren k array self) = f self) → ∀ x,
      ((w.modify p (Container.setChildren k array)).heap.cells x).bind f = (w.heap.cells x).bind f := by
    intro α f same x
    rw [World.cells_modify_heap, Store.cells_modify]
    split <;> cases w.heap.cells x <;> simp [same]
  obtain ⟨self, found⟩ := Option.ne_none_iff_exists'.mp live
  apply Graph.ext <;> funext x
  case slot =>
    funext l
    simp only [World.graph, Graph.setSlot, World.cells_modify_heap, Store.cells_modify]
    by_cases here : x = p
    · subst here
      by_cases child : l = k <;> simp [found, Container.setChildren, child]
    · simp [here]
  case kind =>
    simp only [World.graph, Graph.setSlot, Option.map_eq_bind]
    exact kept (some ∘ Container.kind) (fun _ => rfl) x
  all_goals
    simp only [World.graph, Graph.setSlot]
    rw [kept _ (fun _ => rfl)]

theorem graph_setData (live : w.heap.cells p ≠ none) (data : List Addr) (exempt : Finset Addr) :
    (w.modify p (Container.setData k data)).graph exempt = (w.graph exempt).setSlot p k data := by
  obtain ⟨self, found⟩ := Option.ne_none_iff_exists'.mp live
  have same : w.modify p (Container.setData k data) =
      w.modify p (Container.setChildren k { self.children k with data := data }) := World.modify_congr found rfl
  rw [same, graph_setChildren live]

theorem graph_free (outside : c ∉ exempt) :
    World.graph { w with heap := w.heap.free c } exempt = (w.graph exempt).remove c := by
  apply Graph.ext <;> funext x <;> simp only [World.graph, Graph.remove]
  all_goals
    by_cases here : x = c
    · subst here
      simp [outside]
    · simp [here, Store.free_of_ne here]

theorem graph_insert (exempt : Finset Addr) (c : Addr) :
    w.graph (insert c exempt) = (w.graph exempt).setCommand c none := by
  apply Graph.ext <;> try rfl
  funext x
  by_cases here : x = c
  · simp [World.graph, Graph.setCommand, here]
  · simp [World.graph, Graph.setCommand, here]

end Shape

section Facts

variable {w : World} {held parked : Multiset Addr} {self : Container}

theorem kind_graph (found : w.heap.cells c = some self) : (w.graph exempt).kind c = some self.kind := by
  simp [World.graph, found]

theorem found_of_kind (kind : (w.graph exempt).kind c = some k) : ∃ self, w.heap.cells c = some self ∧ self.kind = k := by
  simpa [World.graph] using kind

theorem parent_graph (found : w.heap.cells c = some self) : (w.graph exempt).parent c = self.parent := by
  simp [World.graph, found]

theorem owner_graph (found : w.heap.cells c = some self) : (w.graph exempt).owner c = self.owner := by
  simp [World.graph, found]

theorem role_graph (found : w.heap.cells c = some self) : (w.graph exempt).role c = self.role := by
  simp [World.graph, found]

theorem slot_graph (found : w.heap.cells c = some self) (k : Kind) :
    (w.graph exempt).slot c k = (self.children k).data := by
  simp [World.graph, found]

theorem command_graph (found : w.heap.cells c = some self) (outside : c ∉ exempt) :
    (w.graph exempt).command c = self.command := by
  simp [World.graph, found, outside]

theorem mem_allChildren : x ∈ self.allChildren ↔ ∃ k ≠ .globalContext, x ∈ (self.children k).data := by
  constructor
  · intro member
    simp only [Container.allChildren, List.mem_append] at member
    rcases member with ((host | test) | command) | process
    · exact ⟨.host, by decide, host⟩
    · exact ⟨.testcase, by decide, test⟩
    · exact ⟨.command, by decide, command⟩
    · exact ⟨.process, by decide, process⟩
  · rintro ⟨k, other, member⟩
    simp only [Container.allChildren, List.mem_append]
    cases k with
    | globalContext => exact absurd rfl other
    | host => exact Or.inl (Or.inl (Or.inl member))
    | testcase => exact Or.inl (Or.inl (Or.inr member))
    | command => exact Or.inl (Or.inr member)
    | process => exact Or.inr member

namespace Ok

theorem root (ok : Ok w held parked exempt) :
    ∃ self, w.heap.cells globalContext = some self ∧ self.kind = .globalContext := found_of_kind ok.wf.rootKind

theorem live (ok : Ok w held parked exempt) (member : c ∈ held) : ∃ self, w.heap.cells c = some self :=
  ok.counted.live (Multiset.mem_cons_of_mem (Multiset.mem_add.mpr (Or.inl member)))

theorem live_slot (ok : Ok w held parked exempt) (member : c ∈ (w.graph exempt).slot p k) :
    ∃ self, w.heap.cells c = some self ∧ self.kind = k := found_of_kind (ok.wf.entry member).1

theorem slot_kind (ok : Ok w held parked exempt) (member : c ∈ (w.graph exempt).slot p k) : k ≠ .globalContext := by
  obtain ⟨_, above, _, has⟩ := ok.wf.entry member
  rintro rfl
  cases above <;> simp [Kind.has] at has

/-- What is listed, or run by a process, is referred to. -/
theorem refs_slot (ok : Ok w held parked exempt) (member : c ∈ (w.graph exempt).slot p k) :
    0 < w.heap.refs (Container.outRefs exempt) c := by
  obtain ⟨_, above, kind, _⟩ := ok.wf.entry member
  obtain ⟨self, found, _⟩ := found_of_kind kind
  refine Store.mem_refs found ?_
  rw [slot_graph found] at member
  refine Multiset.mem_add.mpr (Or.inl (Multiset.mem_coe.mpr (mem_allChildren.mpr ⟨k, ?_, member⟩)))
  exact ok.slot_kind (by rwa [slot_graph found])

theorem refs_command (command : (w.graph exempt).command p = some c) : 0 < w.heap.refs (Container.outRefs exempt) c := by
  simp only [World.graph] at command
  split at command
  · cases command
  · rename_i outside
    obtain ⟨self, found, command⟩ := Option.bind_eq_some_iff.mp command
    refine Store.mem_refs found ?_
    simp [Container.outRefs, outside, command]

theorem refcount (ok : Ok w held parked exempt) (found : w.heap.cells c = some self) :
    self.refcount = w.heap.refs (Container.outRefs exempt) c +
      (if c = globalContext then 1 else 0) + held.count c + parked.count c := by
  have counts := ok.counted.counts c self found
  rw [Multiset.count_cons, Multiset.count_add] at counts
  omega

/-- What is held and counted once is listed nowhere. -/
theorem last (ok : Ok w (c ::ₘ held) parked exempt) (found : w.heap.cells c = some self)
    (one : self.refcount ≤ 1) (other : c ≠ globalContext) :
    c ∉ held ∧ c ∉ parked ∧ (∀ p k, c ∉ (w.graph exempt).slot p k) ∧ ∀ p, (w.graph exempt).command p ≠ some c := by
  have counts := ok.refcount found
  rw [Multiset.count_cons_self, if_neg other] at counts
  refine ⟨?_, ?_, ?_, ?_⟩
  · intro member
    have := Multiset.count_pos.mpr member
    omega
  · intro member
    have := Multiset.count_pos.mpr member
    omega
  · intro p k member
    have := ok.refs_slot member
    omega
  · intro p command
    have := refs_command command
    omega

end Ok

end Facts

end Testbus.Server
