import Testbus.Server.Growth

namespace Testbus.Server

open Lib

section Insert

variable {w : World} {above self : Container}

/-- A container at the end of an array. -/
def World.insert (w : World) (p : Addr) (above self : Container) : World :=
  { w with heap := w.heap.alloc w.next self, next := w.next + 1 }.modify p
    (Container.setChildren self.kind
      { data := (above.children self.kind).data ++ [w.next]
        nextId := (above.children self.kind).nextId + 1 })

theorem insert_self (apart : p ≠ w.next) : (w.insert p above self).heap.cells w.next = some self := by
  rw [World.insert, World.cells_modify_heap, Store.modify_of_ne (Ne.symm apart)]
  exact Store.alloc_self _ _ _

theorem insert_parent (found : w.heap.cells p = some above) (apart : p ≠ w.next) :
    (w.insert p above self).heap.cells p = some (Container.setChildren self.kind
      { data := (above.children self.kind).data ++ [w.next]
        nextId := (above.children self.kind).nextId + 1 } above) := by
  rw [World.insert, World.cells_modify_heap, Store.modify_self, Store.alloc_of_ne apart, found]
  rfl

theorem insert_other (new : x ≠ w.next) (other : x ≠ p) : (w.insert p above self).heap.cells x = w.heap.cells x := by
  rw [World.insert, World.cells_modify_heap, Store.modify_of_ne other, Store.alloc_of_ne new]

theorem insert_modify (apart : p ≠ w.next) (kind : (change self).kind = self.kind) :
    (w.insert p above self).modify w.next change = w.insert p above (change self) := by
  have heap : ((w.insert p above self).modify w.next change).heap = (w.insert p above (change self)).heap := by
    apply Store.ext_cells
    funext x
    rw [World.cells_modify_heap, Store.cells_modify]
    by_cases new : x = w.next
    · subst new
      rw [if_pos rfl, insert_self apart, insert_self apart]
      rfl
    · rw [if_neg new]
      simp only [World.insert, World.cells_modify_heap, Store.cells_modify, kind, Store.alloc_of_ne new]
  simp only [World.modify, World.insert] at heap ⊢
  rw [heap]

/-- A new container, as its parent takes it. -/
def Container.placed (self : Container) (p : Addr) (above : Container) : Container :=
  { self with
    parent := some p
    refcount := 1
    id := (above.children self.kind).nextId }

theorem containerInit_eq (found : w.heap.cells p = some above) (apart : p ≠ w.next)
    (has : above.kind.has self.kind = true) :
    containerInit p self w = .ok (w.next, w.insert p above (self.placed p above)) := by
  let array := above.children self.kind
  let new := self.placed p above
  let w₁ : World :=
    { w with
      heap := w.heap.alloc w.next { self with parent := some p, refcount := 1 }
      next := w.next + 1 }
  let w₂ := (w₁.modify w.next fun self => { self with id := array.nextId }).modify p
    (Container.setChildren self.kind { array with nextId := array.nextId + 1 })
  let w₃ := w₂.modify w.next fun self => { self with refcount := self.refcount + 1 }
  let w₄ := w₃.modify p (Container.setData self.kind (array.data ++ [w.next]))
  have first : w₁.deref p = .ok above := by
    rw [World.deref_ok, Store.alloc_of_ne apart, found]
  have second : w₂.deref w.next = .ok new := by
    rw [World.deref_ok, World.cells_modify_heap, Store.modify_of_ne (Ne.symm apart)]
    simp [w₁, new, array, Container.placed]
  have third : w₃.deref p = .ok (Container.setChildren self.kind
      { array with nextId := array.nextId + 1 } above) := by
    rw [World.deref_ok, World.cells_modify_heap, Store.modify_of_ne apart,
      World.cells_modify_heap, Store.modify_self, World.cells_modify_heap, Store.modify_of_ne apart,
      Store.alloc_of_ne apart, found]
    rfl
  have fourth : w₄.deref w.next = .ok { new with refcount := 2 } := by
    rw [World.deref_ok, World.cells_modify_heap, Store.modify_of_ne (Ne.symm apart),
      World.cells_modify_heap, Store.modify_self, World.deref_ok.mp second]
    rfl
  have result : (w₄.modify w.next fun self => { self with refcount := self.refcount - 1 }) = w.insert p above new := by
    have heap : (w₄.modify w.next fun self => { self with refcount := self.refcount - 1 }).heap =
        (w.insert p above new).heap := by
      apply Store.ext_cells
      funext x
      by_cases here : x = w.next
      · subst here
        rw [insert_self apart, World.cells_modify_heap, Store.modify_self, World.deref_ok.mp fourth]
        rfl
      · by_cases parent : x = p
        · subst parent
          rw [insert_parent found apart, World.cells_modify_heap, Store.modify_of_ne here,
            World.cells_modify_heap, Store.modify_self, World.deref_ok.mp third]
          simp [Container.setData, Container.setChildren, Container.placed, new, array]
        · rw [insert_other here parent]
          simp only [w₄, w₃, w₂, w₁, World.cells_modify_heap, Store.modify_of_ne here,
            Store.modify_of_ne parent, Store.alloc_of_ne here]
    simp only [World.modify, World.insert] at heap ⊢
    rw [heap]
    rfl
  have got : containerGet w.next w₂ = .ok w₃ := by
    refine bind_ok.mpr ⟨new, second, ?_⟩
    rw [if_neg (by simp [new, Container.placed])]
  have appended : arrayAppend self.kind p w.next w₂ = .ok w₄ := by
    refine bind_ok.mpr ⟨w₃, got, bind_ok.mpr ⟨_, third, ?_⟩⟩
    simp [w₄, Container.setChildren]
  have dropped : put w.next w₄ = .ok (w.insert p above new) := by
    refine bind_ok.mpr ⟨_, fourth, ?_⟩
    rw [if_neg (by simp), if_pos (by simp), result]
  unfold containerInit
  refine bind_ok.mpr ⟨above, first, ?_⟩
  rw [if_neg (by simp [has])]
  exact bind_ok.mpr ⟨w₄, appended, bind_ok.mpr ⟨_, dropped, rfl⟩⟩

theorem graph_added (found : w.heap.cells p = some above) (apart : p ≠ w.next)
    (fresh : w.heap.cells w.next = none) (parent : self.parent = some p) (role : self.role = none)
    (children : self.children = fun _ => {}) :
    (w.insert p above self).graph ∅ = (w.graph ∅).add w.next self.kind p self.owner self.command := by
  have new : (w.insert p above self).heap.cells w.next = some self := insert_self apart
  have top : (w.insert p above self).heap.cells p = _ := insert_parent found apart
  have slots : ∀ x k, ((w.insert p above self).graph ∅).slot x k =
      ((w.graph ∅).add w.next self.kind p self.owner self.command).slot x k := by
    intro x k
    simp only [Graph.add, Graph.slot_setSlot]
    by_cases here : x = w.next
    · subst here
      rw [slot_graph new, if_neg (fun same => apart same.1.symm)]
      simp [children, World.graph, fresh]
    · by_cases under : x = p
      · subst under
        rw [slot_graph top, slot_graph found, slot_graph found]
        by_cases same : k = self.kind
        · subst same
          simp [Container.setChildren]
        · simp [Container.setChildren, same]
      · rw [if_neg (fun same => under same.1)]
        simp [World.graph, insert_other here under]
  have fields : ∀ {α : Type} (f : Container → Option α)
      (_ : ∀ k array self, f (Container.setChildren k array self) = f self) (x : Addr),
      ((w.insert p above self).heap.cells x).bind f =
        Function.update (fun x => (w.heap.cells x).bind f) w.next (f self) x := by
    intro α f same x
    by_cases here : x = w.next
    · subst here
      simp [new]
    · rw [Function.update_of_ne here]
      by_cases under : x = p
      · subst under
        rw [top, found]
        exact same _ _ _
      · rw [insert_other here under]
  apply Graph.ext
  case kind =>
    funext x
    have kinds := fields (some ∘ Container.kind) (fun _ _ _ => rfl) x
    simpa [World.graph, Graph.add, Option.map_eq_bind] using kinds
  case parent =>
    funext x
    simpa [World.graph, Graph.add, parent] using fields Container.parent (fun _ _ _ => rfl) x
  case owner =>
    funext x
    simpa [World.graph, Graph.add] using fields Container.owner (fun _ _ _ => rfl) x
  case command =>
    funext x
    simpa [World.graph, Graph.add] using fields Container.command (fun _ _ _ => rfl) x
  case role =>
    funext x
    have roles := fields Container.role (fun _ _ _ => rfl) x
    by_cases here : x = w.next
    · subst here
      simpa [World.graph, Graph.add, role, fresh] using roles
    · simpa [World.graph, Graph.add, here] using roles
  case slot =>
    funext x k
    exact slots x k

/-- A container that nothing knows of comes to be. -/
theorem Registered.alloc (registered : Registered w) (fresh : w.heap.cells w.next = none)
    (nameless : self.dbusObjectPath = none) :
    Registered { w with heap := w.heap.alloc w.next self, next := w.next + 1 } where
  tree := registered.tree
  hostlist := registered.hostlist
  handle := by
    intro object member x handle
    refine (registered.handle object member x handle).imp_right fun known => ⟨known.1, ?_⟩
    obtain ⟨_, old, there, path⟩ := known
    have apart : x ≠ w.next := by
      rintro rfl
      simp [fresh] at there
    exact ⟨old, by rw [Store.alloc_of_ne apart, there], path⟩
  named := by
    intro x other path there has
    by_cases new : x = w.next
    · subst new
      obtain rfl := Option.some.inj ((Store.alloc_self _ _ _).symm.trans there)
      simp [nameless] at has
    · rw [Store.alloc_of_ne new] at there
      exact registered.named x other path there has
  nested := by
    intro x other path q there has parent
    by_cases new : x = w.next
    · subst new
      obtain rfl := Option.some.inj ((Store.alloc_self _ _ _).symm.trans there)
      simp [nameless] at has
    · rw [Store.alloc_of_ne new] at there
      obtain ⟨name, plain, place⟩ := registered.nested x other path q there has parent
      refine ⟨name, plain, place.imp_right ?_⟩
      rintro ⟨top, pathTop, foundTop, hasTop, below⟩
      have live : q ≠ w.next := by
        rintro rfl
        simp [fresh] at foundTop
      exact ⟨top, pathTop, by rw [Store.alloc_of_ne live, foundTop], hasTop, below⟩

theorem Ok.insert (ok : Ok w ↑self.command.toList 0 ∅)
    (parented : ∀ {x k}, (w.graph ∅).kind x = some k → k ≠ .host → k ≠ .globalContext → (w.graph ∅).parent x ≠ none)
    (found : w.heap.cells p = some above) (has : above.kind.has self.kind = true)
    (host : self.kind = .host → p = globalContext) (links : (w.graph ∅).Links p self.owner self.command self.kind)
    (parent : self.parent = some p) (one : self.refcount = 1) (role : self.role = none)
    (nameless : self.dbusObjectPath = none) (children : self.children = fun _ => {}) :
    Settled (w.insert p above self) := by
  have kindP : (w.graph ∅).kind p = some above.kind := kind_graph found
  have apart : p ≠ w.next := ne_of_lt (ok.wf.bound kindP)
  have fresh : w.heap.cells w.next = none := by
    cases there : w.heap.cells w.next with
    | none => rfl
    | some other => exact absurd (ok.wf.bound (kind_graph there)) (lt_irrefl _)
  have notRoot : self.kind ≠ .globalContext := by
    intro same
    rw [same] at links
    exact links.elim
  constructor
  · have out : Container.outRefs ∅ w.next self = ↑self.command.toList := by
      simp [Container.outRefs, Container.allChildren, children]
    have counted := ok.counted
    rw [add_zero, ← Multiset.singleton_add, add_comm, ← out] at counted
    have there : (w.heap.alloc w.next self).cells p = some above := by
      rw [Store.alloc_of_ne apart, found]
    refine (counted.alloc fresh one).move there _ rfl ?_
    have moved := outRefs_setChildren notRoot ∅ p above
      { data := (above.children self.kind).data ++ [w.next]
        nextId := (above.children self.kind).nextId + 1 }
    ext x
    have count := congrArg (Multiset.count x) moved
    simp only [Multiset.count_add, Multiset.count_cons, Multiset.coe_count, List.count_append,
      List.count_singleton, beq_iff_eq, Multiset.count_singleton, Multiset.count_zero] at count ⊢
    by_cases same : x = w.next
    · subst same
      simp only [if_true] at count ⊢
      omega
    · simp only [same, Ne.symm same, if_false] at count ⊢
      omega
  · rw [graph_added found apart fresh parent role children]
    exact ok.wf.add parented kindP has host links
  · exact (ok.registered.alloc fresh nameless).modify (fun _ => rfl) fun _ _ parent => parent
  · exact fun member => absurd member (Finset.notMem_empty _)

end Insert

section Wrap

variable {held parked : Multiset Addr} {parentPath path : CString}

/-- A container with an object of its own. -/
def World.wrap (w : World) (c : Addr) (path : CString) : World :=
  let object : Object := ⟨path, some c⟩
  { w with objects := w.objects ++ [object], made := w.made ++ [path] }.modify c
    fun self => { self with dbusObjectPath := some path }

/-- An object below which the children of a container have theirs. -/
def World.Place (w : World) (p : Addr) (path : CString) : Prop :=
  (∃ object ∈ w.objects, object.path = path) ∧
    (p = globalContext ∧ (path = globalContextPath ∨ path = hostlistPath) ∨
      ∃ above, w.heap.cells p = some above ∧ above.dbusObjectPath = some path)

/-- No object is for a container that is not there, or has no path. -/
theorem Registered.unknown (registered : Registered w) (apart : c ≠ globalContext)
    (nameless : ∀ self, w.heap.cells c = some self → self.dbusObjectPath = none) :
    ∀ object ∈ w.objects, object.handle ≠ some c := by
  intro object member handle
  rcases registered.handle object member c handle with ⟨root, _⟩ | ⟨_, self, there, path⟩
  · exact apart root
  · simp [nameless self there] at path

/-- An object is made, if its path is short and new. -/
theorem objectCreate_cases (registered : Registered w) {kind : Kind} {id : UInt32}
    (unknown : ∀ object ∈ w.objects, object.handle ≠ some c) (there : ∃ object ∈ w.objects, object.path = parentPath)
    (whole : childPath parentPath (kind.objectName id) = path) :
    objectCreate w.objects (buildPath parentPath kind id) c =
          .ok (w.objects ++ [⟨path, some c⟩], ⟨path, some c⟩) ∧ path.length < 255 ∧
        (∀ other ∈ w.objects, other.path ≠ path) ∨
      objectCreate w.objects (buildPath parentPath kind id) c = .error .fatal ∧
        (255 ≤ path.length ∨ ∃ object ∈ w.objects, object.path = path) := by
  obtain ⟨object, member, at_⟩ := there
  obtain ⟨names, plain, way⟩ := registered.tree.named object member
  rw [at_] at way
  subst way
  rw [childPath_pathOf] at whole
  subst whole
  have plain' : ∀ other ∈ names ++ [kind.objectName id], Plain other := by
    intro other inside
    rcases List.mem_append.mp inside with old | new
    · exact plain other old
    · exact List.mem_singleton.mp new ▸ objectName_plain kind id
  cases created : objectCreate w.objects (buildPath (pathOf names) kind id) c with
  | ok result =>
    obtain ⟨objects, made⟩ := result
    obtain ⟨rfl, rfl, short, new⟩ := registered.tree.objectCreate_some plain' ⟨object, member, at_⟩ unknown created
    exact Or.inl ⟨rfl, short, new⟩
  | error fault =>
    obtain rfl := Tree.objectCreate_error created
    refine Or.inr ⟨rfl, ?_⟩
    by_contra none_
    obtain ⟨short, new⟩ := not_or.mp none_
    have done := registered.tree.objectCreate_short plain' ⟨object, member, at_⟩ c
      (Nat.lt_of_not_le short) fun other inside same => new ⟨other, inside, same⟩
    rw [buildPath, done] at created
    cases created

theorem containerWrap_made (found : w.heap.cells c = some self)
    (created : objectCreate w.objects (buildPath parentPath self.kind self.id) c =
      .ok (w.objects ++ [⟨path, some c⟩], ⟨path, some c⟩)) :
    containerWrap parentPath c w = .ok (path, w.wrap c path) := by
  refine bind_ok.mpr ⟨self, World.deref_ok.mpr found, ?_⟩
  exact bind_ok.mpr ⟨_, created, rfl⟩

theorem containerWrap_failed (found : w.heap.cells c = some self)
    (created : objectCreate w.objects (buildPath parentPath self.kind self.id) c = .error .fatal) :
    containerWrap parentPath c w = .error .fatal :=
  bind_error.mpr (Or.inr ⟨self, World.deref_ok.mpr found, bind_error.mpr (Or.inl created)⟩)

theorem Registered.wrap (registered : Registered w) (found : w.heap.cells c = some self)
    (nameless : self.dbusObjectPath = none) (apart : c ≠ globalContext)
    (parent : self.parent = some p) (place : w.Place p parentPath)
    (whole : childPath parentPath (self.kind.objectName self.id) = path) (short : path.length < 255)
    (fresh : ∀ other ∈ w.objects, other.path ≠ path) : Registered (w.wrap c path) := by
  have others : ∀ {x other}, w.heap.cells x = some other → x ≠ c → (w.wrap c path).heap.cells x = some other := by
    intro x other there new
    rw [World.wrap, World.cells_modify_heap, Store.modify_of_ne new, there]
  have here : (w.wrap c path).heap.cells c = some { self with dbusObjectPath := some path } := by
    rw [World.wrap, World.cells_modify_heap, Store.modify_self, found]
    rfl
  have old : ∀ {x other}, (w.wrap c path).heap.cells x = some other → x ≠ c → w.heap.cells x = some other := by
    intro x other there new
    rwa [World.wrap, World.cells_modify_heap, Store.modify_of_ne new] at there
  have above : ∀ {q top pathQ}, w.heap.cells q = some top → top.dbusObjectPath = some pathQ →
      (w.wrap c path).heap.cells q = some top := by
    intro q top pathQ there has
    refine others there ?_
    rintro rfl
    obtain rfl := Option.some.inj (found.symm.trans there)
    simp [nameless] at has
  obtain ⟨object, member, at_⟩ := place.1
  exact {
    tree := by
      obtain ⟨names, plain, way⟩ := registered.tree.named object member
      rw [at_] at way
      subst way
      rw [childPath_pathOf] at whole
      subst whole
      refine registered.tree.append ?_ ⟨object, member, at_⟩ (by rfl) short fresh
      intro other inside
      rcases List.mem_append.mp inside with before | new
      · exact plain other before
      · exact List.mem_singleton.mp new ▸ objectName_plain self.kind self.id
    hostlist := List.mem_append_left _ registered.hostlist
    handle := by
      intro other inside x handle
      rcases List.mem_append.mp inside with before | new
      · refine (registered.handle other before x handle).imp_right fun known => ⟨known.1, ?_⟩
        obtain ⟨_, there, cell, has⟩ := known
        exact ⟨there, above cell has, has⟩
      · obtain rfl : other = ⟨path, some c⟩ := List.mem_singleton.mp new
        obtain rfl := Option.some.inj handle
        exact Or.inr ⟨apart, _, here, rfl⟩
    named := by
      intro x other path' there has
      by_cases new : x = c
      · subst new
        obtain rfl := Option.some.inj (here.symm.trans there)
        obtain rfl := Option.some.inj has
        exact List.mem_append_right _ (List.mem_singleton.mpr rfl)
      · exact List.mem_append_left _ (registered.named x other path' (old there new) has)
    nested := by
      intro x other path' q there has parent'
      by_cases new : x = c
      · subst new
        obtain rfl := Option.some.inj (here.symm.trans there)
        obtain rfl := Option.some.inj has
        obtain rfl := Option.some.inj (parent.symm.trans parent')
        refine ⟨_, objectName_plain self.kind self.id, ?_⟩
        rcases place.2 with ⟨root, top⟩ | ⟨top, cell, has'⟩
        · exact Or.inl ⟨root, top.imp (fun same => by rw [← whole, same]) fun same => by
            rw [← whole, same]⟩
        · exact Or.inr ⟨top, parentPath, above cell has', has', whole.symm⟩
      · obtain ⟨name, plain, at_⟩ := registered.nested x other path' q (old there new) has parent'
        refine ⟨name, plain, at_.imp_right ?_⟩
        rintro ⟨top, pathQ, cell, has', below⟩
        exact ⟨top, pathQ, above cell has', has', below⟩ }

theorem Ok.wrap (ok : Ok w held parked exempt) (found : w.heap.cells c = some self)
    (nameless : self.dbusObjectPath = none) (apart : c ≠ globalContext)
    (parent : self.parent = some p) (place : w.Place p parentPath)
    (whole : childPath parentPath (self.kind.objectName self.id) = path) (short : path.length < 255)
    (fresh : ∀ other ∈ w.objects, other.path ≠ path) : Ok (w.wrap c path) held parked exempt where
  counted := ok.counted.keep c (fun self => { self with dbusObjectPath := some path }) (fun _ => rfl) fun _ => rfl
  wf := by
    have graph : (w.wrap c path).graph exempt = w.graph exempt :=
      graph_quiet (w := { w with objects := w.objects ++ [⟨path, some c⟩], made := w.made ++ [path] })
        (by intro; rfl) exempt
    rw [graph]
    exact ok.wf
  registered := ok.registered.wrap found nameless apart parent place whole short fresh
  beneath := ok.beneath

end Wrap

end Testbus.Server
