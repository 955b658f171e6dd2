import Testbus.Server.Shrink

namespace Testbus.Server

open Lib

section Less

variable {given : Set (Addr × Kind)} (self : Container)

theorem kept_clearParent (inside : (c, .host) ∈ given) :
    Container.Kept frozen loose given c { self with parent := none } self where
  __ := Container.Kept.refl frozen loose given c self
  less := { Container.Less.refl self with parent := nofun }
  parent outside := absurd inside outside

theorem kept_clearOwner : Container.Kept frozen loose given c { self with owner := none } self where
  __ := Container.Kept.refl frozen loose given c self
  less := { Container.Less.refl self with owner := nofun }
  claim _ _ _ _ := rfl

theorem kept_refcount (count : Nat) : Container.Kept frozen loose given c { self with refcount := count } self where
  __ := Container.Kept.refl frozen loose given c self
  less := { Container.Less.refl self with }

theorem less_setChildren (sub : array.data.Sublist (self.children k).data) :
    (Container.setChildren k array self).Less self where
  __ := Container.Less.refl self
  data l := by
    by_cases same : l = k
    · subst same
      simpa [Container.setChildren] using sub
    · simp [Container.setChildren, same]

theorem kept_setChildren (reset : c ∈ loose) (inside : (c, k) ∈ given) (sub : array.data.Sublist (self.children k).data) :
    (Container.setChildren k array self).Kept frozen loose given c self where
  less := less_setChildren self sub
  command _ := rfl
  nextId outside := absurd reset outside
  agent _ _ := rfl
  claim _ _ before := before
  parent _ _ := rfl
  lists l _ outside := by
    have other : l ≠ k := by
      rintro rfl
      exact outside inside
    simp [Container.setChildren, other]

theorem kept_setData (sub : data.Sublist (self.children k).data) (inside : k = .host ∨ k = .testcase → (c, k) ∈ given) :
    (Container.setData k data self).Kept frozen loose given c self where
  less := less_setChildren self sub
  command _ := rfl
  nextId _ _ l := by
    by_cases same : l = k
    · subst same
      simp [Container.setData, Container.setChildren]
    · simp [Container.setData, Container.setChildren, same]
  agent _ _ := rfl
  claim _ _ before := before
  parent _ _ := rfl
  lists l kind outside := by
    have other : l ≠ k := by
      rintro rfl
      exact outside (inside kind)
    simp [Container.setData, Container.setChildren, other]

end Less

theorem outRefs_setChildren (other : k ≠ .globalContext) (exempt : Finset Addr)
    (p : Addr) (self : Container) (array : ChildArray) :
    Container.outRefs exempt p (Container.setChildren k array self) + ↑(self.children k).data =
      Container.outRefs exempt p self + ↑array.data := by
  have command : (Container.setChildren k array self).command = self.command := rfl
  have children : (↑(Container.setChildren k array self).allChildren : Multiset Addr) +
      ↑(self.children k).data = ↑self.allChildren + ↑array.data := by
    cases k with
    | globalContext => exact absurd rfl other
    | host | testcase | command | process =>
      simp only [Container.allChildren, Container.setChildren, Function.update_self, ne_eq,
        reduceCtorEq, not_false_eq_true, Function.update_of_ne, ← Multiset.coe_add]
      ext x
      simp only [Multiset.count_add, Multiset.coe_count]
      omega
  simp only [Container.outRefs, command]
  rw [add_right_comm, children, add_right_comm]

theorem outRefs_shape (same : first.shape = second.shape)
    (exempt : Finset Addr) (c : Addr) : Container.outRefs exempt c first = Container.outRefs exempt c second := by
  simp only [Container.shape, Prod.mk.injEq, funext_iff] at same
  obtain ⟨_, _, _, command, _, data⟩ := same
  simp [Container.outRefs, Container.allChildren, command, data]

theorem parent_shape {first second : Container} (same : first.shape = second.shape) {p : Addr}
    (parent : first.parent = some p) : second.parent = some p := by
  simp only [Container.shape, Prod.mk.injEq] at same
  rw [← same.2.1, parent]

theorem outRefs_erase (other : k ≠ .globalContext) (exempt : Finset Addr) (p : Addr)
    (member : c ∈ (self.children k).data) :
    c ::ₘ Container.outRefs exempt p (Container.setData k ((self.children k).data.erase c) self) =
      Container.outRefs exempt p self := by
  have erased : (↑(self.children k).data : Multiset Addr) = c ::ₘ ↑((self.children k).data.erase c) :=
    Multiset.coe_eq_coe.mpr (List.perm_cons_erase member)
  have moved := outRefs_setChildren other exempt p self
    { self.children k with data := (self.children k).data.erase c }
  rw [erased, Multiset.add_cons, ← Multiset.cons_add] at moved
  exact add_right_cancel moved

theorem Registered.modify (registered : Registered w) (same : ∀ self, (change self).dbusObjectPath = self.dbusObjectPath)
    (parents : ∀ self p, (change self).parent = some p → self.parent = some p) : Registered (w.modify c change) where
  tree := registered.tree
  hostlist := registered.hostlist
  handle := by
    intro object member x handle
    refine (registered.handle object member x handle).imp_right fun known => ⟨known.1, ?_⟩
    obtain ⟨_, self, found, path⟩ := known
    rw [World.cells_modify_heap, Store.cells_modify]
    split
    · exact ⟨change self, by simp [found], by rw [same, path]⟩
    · exact ⟨self, found, path⟩
  named := by
    intro x new path found has
    rw [World.cells_modify_heap, Store.cells_modify] at found
    split at found
    · obtain ⟨old, before, rfl⟩ := Option.map_eq_some_iff.mp found
      exact registered.named x old path before (same old ▸ has)
    · exact registered.named x new path found has
  nested := by
    intro x new path p found has parent
    have before : ∃ old, w.heap.cells x = some old ∧ old.dbusObjectPath = some path ∧ old.parent = some p := by
      rw [World.cells_modify_heap, Store.cells_modify] at found
      split at found
      · obtain ⟨old, before, rfl⟩ := Option.map_eq_some_iff.mp found
        exact ⟨old, before, same old ▸ has, parents old p parent⟩
      · exact ⟨new, found, has, parent⟩
    obtain ⟨old, there, path', parent'⟩ := before
    obtain ⟨name, plain, place⟩ := registered.nested x old path p there path' parent'
    refine ⟨name, plain, place.imp_right ?_⟩
    rintro ⟨above, q, foundP, pathP, below⟩
    rw [World.cells_modify_heap, Store.cells_modify]
    split
    · exact ⟨change above, q, by simp [foundP], by rw [same, pathP], below⟩
    · exact ⟨above, q, foundP, pathP, below⟩

theorem Registered.free (registered : Registered w) (found : w.heap.cells c = some self)
    (nameless : self.dbusObjectPath = none) : Registered { w with heap := w.heap.free c } where
  tree := registered.tree
  hostlist := registered.hostlist
  handle := by
    intro object member x handle
    refine (registered.handle object member x handle).imp_right fun known => ⟨known.1, ?_⟩
    obtain ⟨_, other, there, path⟩ := known
    have apart : x ≠ c := by
      rintro rfl
      obtain rfl := Option.some.inj (found.symm.trans there)
      simp [nameless] at path
    exact ⟨other, by rw [Store.free_of_ne apart, there], path⟩
  named := by
    intro x other path there has
    have apart : x ≠ c := by
      rintro rfl
      simp at there
    rw [Store.free_of_ne apart] at there
    exact registered.named x other path there has
  nested := by
    intro x other path p there has parent
    have apart : x ≠ c := by
      rintro rfl
      simp at there
    rw [Store.free_of_ne apart] at there
    obtain ⟨name, plain, place⟩ := registered.nested x other path p there has parent
    refine ⟨name, plain, place.imp_right ?_⟩
    rintro ⟨above, q, foundP, pathP, below⟩
    have live : p ≠ c := by
      rintro rfl
      obtain rfl := Option.some.inj (found.symm.trans foundP)
      simp [nameless] at pathP
    exact ⟨above, q, by rw [Store.free_of_ne live, foundP], pathP, below⟩

namespace Ok

variable {held parked : Multiset Addr}

theorem quiet (ok : Ok w held parked exempt) {change : Container → Container}
    (shape : ∀ self, (change self).shape = self.shape) (refcount : ∀ self, (change self).refcount = self.refcount)
    (path : ∀ self, (change self).dbusObjectPath = self.dbusObjectPath) : Ok (w.modify c change) held parked exempt where
  counted := ok.counted.keep _ change refcount fun self => outRefs_shape (shape self) exempt c
  wf := by
    rw [graph_quiet shape]
    exact ok.wf
  registered := ok.registered.modify path fun self _ => parent_shape (shape self)
  beneath := ok.beneath

theorem get (ok : Ok w held parked exempt) (found : w.heap.cells c = some self) :
    containerGet c w = .ok (w.modify c fun self => { self with refcount := self.refcount + 1 }) ∧
      Ok (w.modify c fun self => { self with refcount := self.refcount + 1 }) (c ::ₘ held) parked
        exempt := by
  have positive := ok.counted.positive c self found
  constructor
  · simp only [containerGet, World.deref_ok.mpr found, bind, Except.bind]
    rw [if_neg (by omega)]
  · constructor
    · have taken := ok.counted.take found (fun self => { self with refcount := self.refcount + 1 }) rfl rfl
      rwa [Multiset.cons_swap, ← Multiset.cons_add] at taken
    · have graph : (w.modify c fun self => { self with refcount := self.refcount + 1 }).graph
          exempt = w.graph exempt := graph_quiet (by intro; rfl) exempt
      exact graph ▸ ok.wf
    · exact ok.registered.modify (fun _ => rfl) fun _ _ parent => parent
    · exact fun member => Multiset.mem_cons_of_mem (ok.beneath member)

theorem drop (ok : Ok w (c ::ₘ held) parked exempt) (found : w.heap.cells c = some self)
    (many : 1 < self.refcount) (beneath : ∀ {e}, e ∈ exempt → e ∈ held) :
    Ok (w.modify c fun self => { self with refcount := self.refcount - 1 }) held parked exempt where
  counted := by
    have counted := ok.counted
    rw [Multiset.cons_add, Multiset.cons_swap] at counted
    refine counted.drop found _ ?_ many rfl
    change self.refcount = self.refcount - 1 + 1
    omega
  wf := by
    have graph : (w.modify c fun self => { self with refcount := self.refcount - 1 }).graph
        exempt = w.graph exempt := graph_quiet (by intro; rfl) exempt
    exact graph ▸ ok.wf
  registered := ok.registered.modify (fun _ => rfl) fun _ _ parent => parent
  beneath := beneath

theorem unpark (ok : Ok w held (x ::ₘ parked) exempt) :
    Ok (w.modify x fun self => { self with parent := none }) (x ::ₘ held) parked exempt where
  counted := by
    have counted := ok.counted.keep x (fun self => { self with parent := none }) (fun _ => rfl) fun _ => rfl
    rwa [Multiset.add_cons, ← Multiset.cons_add] at counted
  wf := by
    rw [graph_clearParent]
    exact ok.wf.unpark
  registered := ok.registered.modify (fun _ => rfl) fun _ _ => nofun
  beneath member := Multiset.mem_cons_of_mem (ok.beneath member)

theorem park (ok : Ok w held parked exempt) (found : w.heap.cells c = some self)
    (begun : c ∈ exempt) (kind : k = .testcase ∨ k = .process) :
    Ok (w.modify c (Container.setChildren k {})) held (↑(self.children k).data + parked) exempt where
  counted := by
    refine ok.counted.move found _ rfl ?_
    have other : k ≠ .globalContext := by rcases kind with rfl | rfl <;> decide
    have moved := outRefs_setChildren other exempt c self {}
    ext x
    have count := congrArg (Multiset.count x) moved
    simp only [Multiset.count_add, Multiset.count_cons, Multiset.coe_count, List.count_nil] at count ⊢
    omega
  wf := by
    rw [graph_setChildren (by simp [found])]
    have slot : (w.graph exempt).slot c k = (self.children k).data := slot_graph found k
    exact slot ▸ ok.wf.park begun kind
  registered := ok.registered.modify (fun _ => rfl) fun _ _ parent => parent
  beneath := ok.beneath

theorem popHost (ok : Ok w held parked exempt) (found : w.heap.cells c = some self)
    (apart : c ≠ globalContext) (last : (self.children .host).data = hosts ++ [h])
    (unowned : (w.graph exempt).owner h ≠ some c) :
    Ok ((w.modify c (Container.setData .host hosts)).modify h
      fun self => { self with parent := none }) (h ::ₘ held) parked exempt where
  counted := by
    have moved : Counted (Container.outRefs exempt) Container.refcount (w.modify c (Container.setData .host hosts)).heap
        (h ::ₘ globalContext ::ₘ (held + parked)) :=
      ok.counted.move found (Container.setData .host hosts) rfl (by
        have moved := outRefs_setChildren (k := .host) (by decide) exempt c self
          { self.children .host with data := hosts }
        rw [last] at moved
        ext x
        have count := congrArg (Multiset.count x) moved
        simp only [Multiset.count_add, Multiset.count_cons, Multiset.coe_count, List.count_append,
          List.count_singleton, beq_iff_eq, Container.setData] at count ⊢
        by_cases same : x = h
        · subst same
          simp only [if_true] at count ⊢
          omega
        · simp only [same, Ne.symm same, if_false] at count ⊢
          omega)
    have counted := moved.keep h (fun self => { self with parent := none }) (fun _ => rfl) fun _ => rfl
    rwa [Multiset.cons_swap, ← Multiset.cons_add] at counted
  wf := by
    rw [graph_clearParent, graph_setData (by simp [found])]
    exact ok.wf.popHost apart ((slot_graph found .host).trans last) unowned
  registered := by
    have popped : Registered (w.modify c (Container.setData .host hosts)) :=
      ok.registered.modify (fun _ => rfl) fun _ _ parent => parent
    exact popped.modify (fun _ => rfl) fun _ _ => nofun
  beneath member := Multiset.mem_cons_of_mem (ok.beneath member)

theorem releaseHost (ok : Ok w held parked exempt) (found : w.heap.cells h = some self)
    (kind : self.kind = .host) (owner : self.owner = some o) (begun : o ∈ exempt) {change : Container → Container}
    (shape : ∀ self, (change self).shape = Container.shape { self with role := none, owner := none })
    (refcount : ∀ self, (change self).refcount = self.refcount)
    (path : ∀ self, (change self).dbusObjectPath = self.dbusObjectPath) :
    Ok (w.modify h change) held parked exempt where
  counted := ok.counted.keep _ change refcount fun self => outRefs_shape (shape self) exempt h
  wf := by
    have graph : (w.modify h change).graph exempt = ((w.graph exempt).setOwner h none).setRole h none := by
      rw [← graph_clearOwner, ← graph_clearRole, World.modify, World.modify, World.modify,
        Store.modify_modify, ← World.modify, ← World.modify]
      exact graph_congr shape exempt
    rw [graph]
    exact ok.wf.releaseHost ((kind_graph found).trans (congrArg some kind)) ((owner_graph found).trans owner) begun
  registered := ok.registered.modify path fun self _ => parent_shape (shape self)
  beneath := ok.beneath

theorem clearRole (ok : Ok w held parked exempt) {change : Container → Container}
    (shape : ∀ self, (change self).shape = Container.shape { self with role := none })
    (refcount : ∀ self, (change self).refcount = self.refcount)
    (path : ∀ self, (change self).dbusObjectPath = self.dbusObjectPath) :
    Ok (w.modify c change) held parked exempt where
  counted := ok.counted.keep _ change refcount fun self => outRefs_shape (shape self) exempt c
  wf := by
    rw [graph_congr shape, graph_clearRole]
    exact ok.wf.clearRole
  registered := ok.registered.modify path fun self _ => parent_shape (shape self)
  beneath := ok.beneath

theorem forgetCommand (ok : Ok w held parked exempt) (begun : c ∈ exempt) :
    Ok (w.modify c fun self => { self with command := none }) held parked exempt where
  counted := by
    refine ok.counted.keep _ (fun self => { self with command := none }) (fun _ => rfl) fun self => ?_
    simp [Container.outRefs, Container.allChildren, begun]
  wf := by
    have graph : (w.modify c fun self => { self with command := none }).graph exempt = w.graph exempt := by
      apply Graph.ext <;> funext x <;>
        simp only [World.graph, World.cells_modify_heap, Store.cells_modify]
      all_goals
        by_cases here : x = c
        · subst here
          cases found : w.heap.cells x <;> simp [begun]
        · simp [here]
    rw [graph]
    exact ok.wf
  registered := ok.registered.modify (fun _ => rfl) fun _ _ parent => parent
  beneath := ok.beneath

theorem free (ok : Ok w (c ::ₘ held) parked exempt) (found : w.heap.cells c = some self)
    (one : self.refcount ≤ 1) (other : c ≠ globalContext) (bare : (w.graph exempt).Bare c)
    (nameless : self.dbusObjectPath = none) (beneath : ∀ {e}, e ∈ exempt → e ∈ held) :
    Ok { w with heap := w.heap.free c } held parked exempt := by
  obtain ⟨unheld, unparked, unlisted, unused⟩ := ok.last found one other
  have outside : c ∉ exempt := fun member => unheld (beneath member)
  constructor
  · have counted := ok.counted
    rw [Multiset.cons_add, Multiset.cons_swap] at counted
    have positive := counted.positive c self found
    refine counted.free found (by omega) ?_
    have children : self.allChildren = [] := by
      refine List.eq_nil_iff_forall_not_mem.mpr fun x member => ?_
      obtain ⟨k, _, member⟩ := mem_allChildren.mp member
      have empty := bare.slot k
      rw [slot_graph found] at empty
      simp [empty] at member
    have command : self.command = none := (command_graph found outside).symm.trans bare.command
    simp [Container.outRefs, children, command]
  · rw [graph_free outside]
    exact ok.wf.free bare other unlisted unused outside unparked
  · exact ok.registered.free found nameless
  · exact beneath

end Ok

end Testbus.Server
