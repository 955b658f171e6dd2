import Testbus.Server.Context

namespace Testbus.Server

open Lib Testbus.Environ Testbus.Dbus

/-- Where a request wants a new container: its parent, its kind, and the object above. -/
def Request.target (w : World) : Request → Option (Addr × Kind × CString)
  | .createHost _ _ _ | .reconnect _ _ _ _ => some (globalContext, .host, hostlistPath)
  | .createTest objectPath _ =>
    (containerUnwrap w.objects objectPath).map fun p => (p, .testcase, objectPath)
  | .createCommand objectPath =>
    (containerUnwrap w.objects objectPath).map fun p => (p, .command, objectPath)
  | .run objectPath _ =>
    (containerUnwrap w.objects objectPath).map fun p => (p, .process, objectPath)
  | _ => none

/-- Nothing is wrong with a request for a new container. -/
def Accepted (w : World) : Request → Prop
  | .createHost name sender _ | .reconnect name _ _ sender =>
    sender ∈ w.owned ∧ containerGetHostByName globalContext name w = .ok none
  | .createTest objectPath name => ∃ p above, containerUnwrap w.objects objectPath = some p ∧
      w.heap.cells p = some above ∧ above.kind.has .testcase = true ∧
      identifierValid name = true ∧ containerGetTestByName p name w = .ok none
  | .createCommand objectPath => ∃ p above, containerUnwrap w.objects objectPath = some p ∧
      w.heap.cells p = some above ∧ above.kind.has .command = true
  | .run objectPath commandPath => ∃ host hostSelf command commandSelf,
      containerUnwrap w.objects objectPath = some host ∧ w.heap.cells host = some hostSelf ∧
      hostSelf.kind = .host ∧ hostSelf.ready = true ∧
      (objectLookup w.objects commandPath).bind Object.handle = some command ∧
      w.heap.cells command = some commandSelf ∧ commandSelf.kind = .command
  | _ => False

/-- The path that the next container of a kind would get cannot be that of an object. -/
def Blocked (w : World) (request : Request) : Prop :=
  Accepted w request ∧ ∃ p k parentPath above, request.target w = some (p, k, parentPath) ∧
    w.heap.cells p = some above ∧
    (255 ≤ (childPath parentPath (k.objectName (above.children k).nextId)).length ∨
      ∃ object ∈ w.objects,
        object.path = childPath parentPath (k.objectName (above.children k).nextId))

/-- An `addHost` with which a container claims a host. -/
structure Claims (w : World) (objectPath role hostPath : CString) (h p : Addr) (host : Container) :
    Prop where
  unwrapped : containerUnwrap w.objects objectPath = some p
  valid : identifierValid role = true
  unused : containerGetHostByRole p role w = .ok none
  looked : (objectLookup w.objects hostPath).bind Object.handle = some h
  found : w.heap.cells h = some host
  kind : host.kind = .host
  roleless : host.role = none

/-- The effects of a request. -/
inductive Served (w : World) : Request → World → Prop
  | alike {request : Request} {w' : World} (alike : w.Alike w') : Served w request w'
  | created {request : Request} {w₁ w' : World} {p : Addr} {above new self : Container}
      {parentPath path : CString} (accepted : Accepted w request)
      (target : request.target w = some (p, new.kind, parentPath))
      (fresh : Fresh (w.take new.command) p above new)
      (inserted : ((w.take new.command).insert p above new).Alike w₁)
      (wrapped : Wrapped w₁ w.next self parentPath path) (place : w.Place p parentPath)
      (alike : (w₁.wrap w.next path).Alike w') : Served w request w'
  | claimed {objectPath role hostPath : CString} {h p : Addr} {host above : Container}
      (claims : Claims w objectPath role hostPath h p host) (there : w.heap.cells p = some above)
      (apart : p ≠ h)
      (settled : Settled (w.claim h p role above)) :
      Served w (.addHost objectPath role hostPath) (w.claim h p role above)
  | removed {name : CString} {w' : World} {h : Addr} {host : Container}
      (looked : containerGetHostByName globalContext name w = .ok (some h))
      (found : w.heap.cells h = some host) (kind : host.kind = .host) (removed : Removed w w' h) :
      Served w (.removeHost name) w'
  | deleted {objectPath : CString} {w' : World} {c : Addr} {self : Container}
      (unwrapped : containerUnwrap w.objects objectPath = some c)
      (found : w.heap.cells c = some self) (apart : c ≠ globalContext)
      (parented : self.parent ≠ none) (deleted : Deleted w w' c) :
      Served w (.delete objectPath) w'

/-- How serving a request may end. -/
inductive Serves (w : World) (request : Request) : Outcome → Prop
  | done {w' : World} {answer : Answer} (served : Served w request w') : Serves w request (.ok (w', answer))
  | disabled : Serves w request (.error .disabled)
  | blocked (blocked : Blocked w request) : Serves w request (.error .fatal)

variable {w w' : World} {objectPath name : CString}

theorem Served.steady (served : Served w request w') (steady : Steady w) : Steady w' := by
  cases served with
  | alike alike => exact steady.alike alike
  | claimed claims there apart settled => exact steady.claim apart claims.found there settled
  | removed looked found kind removed => exact steady.removed removed
  | deleted unwrapped found apart parented deleted => exact steady.deleted deleted
  | @created _ w₁ _ p above new self _ path _ target fresh inserted wrapped place alike =>
    have inserts := steady.insert fresh
    refine ((inserts.alike inserted).wrap wrapped fun host _ => ?_).alike alike
    obtain ⟨old, found, same⟩ := inserted.back wrapped.found
    have apart : p ≠ (w.take new.command).next := by
      rw [next_take]
      have bound := steady.settled.wf.bound (c := p) (k := above.kind)
      rw [← graph_take w new.command] at bound
      exact ne_of_lt (bound (kind_graph fresh.found))
    have here : ((w.take new.command).insert p above new).heap.cells
        (w.take new.command).next = some new := insert_self apart
    rw [next_take, found] at here
    obtain rfl := Option.some.inj here
    have links := fresh.links
    rw [same.kind] at host
    rw [host] at links
    rw [same.owner]
    exact links.1

theorem graph_created (steady : Steady w) (fresh : Fresh (w.take new.command) p above new)
    (inserted : ((w.take new.command).insert p above new).Alike w₁) (alike : (w₁.wrap w.next path).Alike w') :
    w'.graph ∅ = (w.graph ∅).add w.next new.kind p new.owner new.command ∧ w'.next = w.next + 1 := by
  have absent : (w.take new.command).heap.cells (w.take new.command).next = none := by
    cases there : (w.take new.command).heap.cells (w.take new.command).next with
    | none => rfl
    | some other =>
      obtain ⟨old, found, _⟩ := take_back there
      rw [next_take] at found
      exact absurd (steady.settled.wf.bound (kind_graph found)) (lt_irrefl _)
  have apart : p ≠ (w.take new.command).next := by
    rintro rfl
    rw [fresh.found] at absent
    cases absent
  have wrapped : (w₁.wrap w.next path).graph ∅ = w₁.graph ∅ := graph_quiet (by intro; rfl) ∅
  constructor
  · rw [alike.graph, wrapped, inserted.graph,
      graph_added fresh.found apart absent fresh.parent fresh.role fresh.children, graph_take,
      next_take]
  · rw [alike.next]
    exact inserted.next.trans (congrArg (· + 1) (next_take w new.command))

theorem arrayFind_cases (test : Container → Bool) (live : ∀ x ∈ list, ∃ self, w.heap.cells x = some self) :
    (∃ x self, arrayFind w test list = .ok (some x) ∧ x ∈ list ∧ w.heap.cells x = some self ∧ test self = true) ∨
      arrayFind w test list = .ok none ∧ ∀ x ∈ list, ∀ self, w.heap.cells x = some self → test self = false := by
  induction list with
  | nil => exact Or.inr ⟨rfl, by simp⟩
  | cons x rest ih =>
    obtain ⟨self, found⟩ := live x (by simp)
    have read := World.deref_ok.mpr found
    by_cases matches_ : test self = true
    · refine Or.inl ⟨x, self, ?_, by simp, found, matches_⟩
      exact bind_ok.mpr ⟨self, read, if_pos matches_⟩
    · have later := ih fun y member => live y (by simp [member])
      have skip : arrayFind w test (x :: rest) = arrayFind w test rest := by
        simp only [arrayFind, read, bind, Except.bind, if_neg matches_]
      rw [skip]
      refine later.imp ?_ ?_
      · rintro ⟨y, other, looked, member, there, yes⟩
        exact ⟨y, other, looked, List.mem_cons_of_mem x member, there, yes⟩
      · rintro ⟨looked, none_⟩
        refine ⟨looked, fun y member other there => ?_⟩
        rcases List.mem_cons.mp member with rfl | later
        · obtain rfl := Option.some.inj (found.symm.trans there)
          simpa using matches_
        · exact none_ y later other there

theorem Settled.children_live (settled : Settled w) (found : w.heap.cells p = some self) (k : Kind) :
    ∀ x ∈ (self.children k).data, ∃ child, w.heap.cells x = some child := by
  intro x member
  obtain ⟨child, there, _⟩ := settled.live_slot (p := p) (c := x) (k := k) (by rwa [slot_graph found])
  exact ⟨child, there⟩

theorem findHostAbove_cons (test : Container → Bool) (c : Addr) (self : Container)
    (above : List (Addr × Container)) : findHostAbove w test ((c, self) :: above) =
      (if self.kind.has .host then arrayFind w test (self.children .host).data else .ok none) >>=
        fun found => match found with
          | some host => .ok (some host)
          | none => findHostAbove w test above := by
  by_cases has : self.kind.has .host = true <;> simp only [findHostAbove, has] <;> rfl

theorem findHostAbove_ok (settled : Settled w) (test : Container → Bool)
    (cells : ∀ above ∈ chain, w.heap.cells above.1 = some above.2) : ∃ found, findHostAbove w test chain = .ok found := by
  induction chain with
  | nil => exact ⟨none, rfl⟩
  | cons above rest ih =>
    obtain ⟨c, self⟩ := above
    obtain ⟨found, later⟩ := ih fun above member => cells above (by simp [member])
    have here : ∃ host, (if self.kind.has .host then arrayFind w test (self.children .host).data
        else .ok none) = .ok host := by
      split
      · rcases arrayFind_cases test (settled.children_live (cells (c, self) (by simp)) .host) with
          ⟨x, _, looked, _⟩ | ⟨looked, _⟩
        · exact ⟨some x, looked⟩
        · exact ⟨none, looked⟩
      · exact ⟨none, rfl⟩
    obtain ⟨host, looked⟩ := here
    rw [findHostAbove_cons]
    cases host with
    | some x => exact ⟨some x, bind_ok.mpr ⟨some x, looked, rfl⟩⟩
    | none => exact ⟨found, bind_ok.mpr ⟨none, looked, later⟩⟩

/-- The list of all hosts is the one of the global context. -/
theorem getHostByName_cases (settled : Settled w) (foundRoot : w.heap.cells globalContext = some root) (name : CString) :
    (∃ h host, containerGetHostByName globalContext name w = .ok (some h) ∧
        h ∈ (root.children .host).data ∧ w.heap.cells h = some host ∧ host.kind = .host ∧ host.name = some name) ∨
      containerGetHostByName globalContext name w = .ok none := by
  have kind : root.kind = .globalContext := by
    have kind := settled.wf.rootKind
    rw [kind_graph foundRoot] at kind
    exact Option.some.inj kind
  have parent : root.parent = none := by
    have parent := settled.wf.root_parent
    rwa [parent_graph foundRoot] at parent
  have walked : ancestors w (w.next + 1) globalContext = .ok [(globalContext, root)] := by
    refine bind_ok.mpr ⟨root, World.deref_ok.mpr foundRoot, ?_⟩
    simp only [parent]
  have has : root.kind.has .host = true := by rw [kind]; rfl
  have looks : ∀ found, arrayFind w (fun host => host.name = some name) (root.children .host).data =
      .ok found → containerGetHostByName globalContext name w = .ok found := by
    intro found looked
    refine bind_ok.mpr ⟨_, walked, ?_⟩
    rw [findHostAbove_cons, if_pos has, looked]
    cases found <;> rfl
  rcases arrayFind_cases (fun host => host.name = some name)
      (settled.children_live foundRoot .host) with ⟨h, host, looked, member, there, yes⟩ | ⟨looked, _⟩
  · refine Or.inl ⟨h, host, looks _ looked, member, there, ?_, by simpa using yes⟩
    have kindH := (settled.wf.entry (p := globalContext) (c := h) (k := .host) (by rwa [slot_graph foundRoot])).1
    rw [kind_graph there] at kindH
    exact Option.some.inj kindH
  · exact Or.inr (looks _ looked)

theorem unwrap_place (settled : Settled w) (unwrapped : containerUnwrap w.objects objectPath = some c) :
    (∃ self, w.heap.cells c = some self) ∧ w.Place c objectPath := by
  obtain ⟨object, looked, handle⟩ := Option.bind_eq_some_iff.mp unwrapped
  have member := List.mem_of_find?_eq_some looked
  have path : object.path = objectPath := by simpa using List.find?_some looked
  rcases settled.registered.handle object member c handle with ⟨rfl, top⟩ | ⟨_, self, found, has⟩
  · obtain ⟨root, found, _⟩ := settled.root
    exact ⟨⟨root, found⟩, ⟨object, member, path⟩, Or.inl ⟨rfl, Or.inl (path.symm.trans top)⟩⟩
  · exact ⟨⟨self, found⟩, ⟨object, member, path⟩, Or.inr ⟨self, found, path ▸ has⟩⟩

theorem lookup_handle (settled : Settled w) (looked : objectLookup w.objects objectPath = some object) (handle : object.handle = some c) :
    ∃ self, w.heap.cells c = some self ∧ (c ≠ globalContext → self.dbusObjectPath ≠ none) := by
  rcases settled.registered.handle object (Tree.lookup_mem looked) c handle with
    ⟨rfl, _⟩ | ⟨_, self, found, path⟩
  · obtain ⟨root, found, _⟩ := settled.root
    exact ⟨root, found, fun other => absurd rfl other⟩
  · exact ⟨self, found, fun _ => by simp [path]⟩

section Creating

variable {above new : Container}

theorem World.Alike.place (alike : w.Alike w') (place : w.Place p parentPath) : w'.Place p parentPath := by
  refine ⟨alike.objects ▸ place.1, place.2.imp_right ?_⟩
  rintro ⟨top, found, path⟩
  obtain ⟨top', found', same⟩ := alike.forth found
  exact ⟨top', found', same.path.trans path⟩

theorem objects_take (w : World) (command : Option Addr) : (w.take command).objects = w.objects := by
  cases command <;> rfl

theorem place_insert (apart : p ≠ (w.take new.command).next)
    (found : (w.take new.command).heap.cells p = some above) (place : w.Place p parentPath) :
    ((w.take new.command).insert p above new).Place p parentPath := by
  refine ⟨objects_take w new.command ▸ place.1, place.2.imp_right ?_⟩
  rintro ⟨top, there, path⟩
  obtain ⟨old, there', same⟩ := take_back found
  obtain rfl := Option.some.inj (there.symm.trans there')
  refine ⟨_, insert_parent found apart, ?_⟩
  change above.dbusObjectPath = _
  rw [same]
  exact path

/-- A container that may be inserted gets its object, or none can be made. -/
theorem create_cases (steady : Steady w) (accepted : Accepted w request)
    (target : request.target w = some (p, new.kind, parentPath)) (place : w.Place p parentPath)
    (fresh : Fresh (w.take new.command) p above new) (there : w₀.heap.cells w.next = some made) (kind : made.kind = new.kind) (id : made.id = new.id)
    (objects : w₀.objects = w.objects) :
    (∃ path, path = childPath parentPath (new.kind.objectName new.id) ∧
        containerWrap parentPath w.next w₀ = .ok (path, w₀.wrap w.next path) ∧
        ∀ {w₁ w'}, ((w.take new.command).insert p above new).Alike w₁ →
          (w₁.wrap w.next path).Alike w' → Served w request w') ∨
      containerWrap parentPath w.next w₀ = .error .fatal ∧ Blocked w request := by
  obtain ⟨old, foundP, same⟩ := take_back fresh.found
  have bound : @LT.lt Nat _ p w.next := steady.settled.wf.bound (kind_graph foundP)
  have apart : p ≠ (w.take new.command).next := by
    rw [next_take]
    exact Nat.ne_of_lt bound
  have notRoot : w.next ≠ globalContext := Nat.ne_of_gt (Nat.lt_of_le_of_lt (Nat.zero_le p) bound)
  have absent : w.heap.cells w.next = none := by
    cases there : w.heap.cells w.next with
    | none => rfl
    | some other => exact absurd (steady.settled.wf.bound (kind_graph there)) (lt_irrefl _)
  have unknown := steady.settled.registered.unknown notRoot (by simp [absent])
  have whole : childPath parentPath (new.kind.objectName new.id) =
      childPath parentPath (new.kind.objectName new.id) := rfl
  rcases objectCreate_cases steady.settled.registered unknown place.1 whole with
    ⟨created, short, free⟩ | ⟨failed, reason⟩
  · refine Or.inl ⟨_, rfl, containerWrap_made there (by rw [kind, id, objects]; exact created),
      fun {w₁ w'} inserted alike => ?_⟩
    have here : ((w.take new.command).insert p above new).heap.cells
        (w.take new.command).next = some new := insert_self apart
    rw [next_take] at here
    obtain ⟨self, found, like⟩ := inserted.forth here
    have objects₁ : w₁.objects = w.objects := inserted.objects.trans (objects_take w new.command)
    have wrapped : Wrapped w₁ w.next self parentPath _ := {
      found := found
      nameless := like.path.trans fresh.nameless
      apart := notRoot
      place := ⟨p, like.parent.trans fresh.parent, inserted.place (place_insert apart fresh.found place)⟩
      whole := by rw [like.kind, like.id]
      short := short
      fresh := objects₁ ▸ free }
    exact Served.created accepted target fresh inserted wrapped place alike
  · refine Or.inr ⟨containerWrap_failed there (by rw [kind, id, objects]; exact failed), accepted, p,
      new.kind, parentPath, old, target, foundP, ?_⟩
    have nextId : new.id = (old.children new.kind).nextId := by rw [fresh.id, same]
    rwa [← nextId]

end Creating

end Testbus.Server
