import Testbus.Server.Releasing

namespace Testbus.Server

open Lib

section Arrays

variable {destroy : Action} {w : World} {held parked : Multiset Addr}

theorem Ok.reset (ok : Ok w held parked exempt) (found : w.heap.cells c = some self)
    (other : k ≠ .globalContext) (empty : (self.children k).data = []) :
    Ok (w.modify c (Container.setChildren k {})) held parked exempt ∧
      (w.modify c (Container.setChildren k {})).graph exempt = w.graph exempt ∧
      w.Shrink exempt {c} {(c, k)} (w.modify c (Container.setChildren k {})) := by
  have graph : (w.modify c (Container.setChildren k {})).graph exempt = w.graph exempt := by
    have slot : (w.graph exempt).slot c k = [] := (slot_graph found k).trans empty
    rw [graph_setChildren (by simp [found]), ← slot]
    apply Graph.ext <;> try rfl
    simp [Graph.setSlot]
  refine ⟨⟨?_, graph ▸ ok.wf, ok.registered.modify (fun _ => rfl) fun _ _ parent => parent, ok.beneath⟩, graph, ?_⟩
  · refine ok.counted.move found _ rfl ?_
    have moved := outRefs_setChildren other exempt c self {}
    rw [empty] at moved
    rw [add_right_cancel moved]
  · refine World.Shrink.modify fun self _ => ?_
    exact kept_setChildren self (Set.mem_singleton c) (Set.mem_singleton (c, k)) (List.nil_sublist _)

theorem putAside_ok (destroys : Destroys destroy bound) (aside : List Addr)
    (ok : Ok w held (↑aside + parked) exempt) (small : aside ≠ [] → 2 * w.links + 1 < bound) :
    ∃ w', putAside (containerPut destroy) aside w = .ok w' ∧ Ok w' held parked exempt ∧
      w.Shrink exempt ∅ { y | ∃ x ∈ aside, y ∈ w.below x } w' := by
  induction aside generalizing w with
  | nil => exact ⟨w, rfl, by simpa using ok, World.Shrink.refl _ _ _ _⟩
  | cons x rest ih =>
    have few := small (List.cons_ne_nil _ _)
    rw [← Multiset.cons_coe, Multiset.cons_add] at ok
    have live : ∃ self, w.heap.cells x = some self := ok.counted.live (by simp)
    obtain ⟨self, found⟩ := live
    have kinds := (ok.wf.aside (Multiset.mem_cons_self x _)).1
    have apart : x ≠ globalContext := by
      rcases kinds with test | process
      · exact ok.wf.not_root test (by decide)
      · exact ok.wf.not_root process (by decide)
    let w₁ := w.modify x fun self => { self with parent := none }
    have ok₁ : Ok w₁ (x ::ₘ held) (↑rest + parked) exempt := ok.unpark
    have shrink₁ : w.Shrink exempt ∅ (w.below x) w₁ :=
      World.Shrink.modify fun self _ => kept_clearParent self Relation.ReflTransGen.refl
    have links₁ := shrink₁.links_le
    obtain ⟨w₂, ran₂, ok₂, shrink₂⟩ := put_ok destroys ok₁ apart ok.beneath (fun _ => by
      have rank := w₁.rank_le x
      omega)
    have shrink₁₂ : w.Shrink exempt ∅ (w.below x) w₂ :=
      shrink₁.trans (shrink₂.mono (Finset.Subset.refl _) (Set.Subset.refl _) (shrink₁.below x))
    have links₂ := shrink₁₂.links_le
    obtain ⟨w₃, ran₃, ok₃, shrink₃⟩ := ih ok₂ (fun _ => by omega)
    refine ⟨w₃, ?_, ok₃, ?_⟩
    · exact bind_ok.mpr ⟨self, World.deref_ok.mpr found, bind_ok.mpr ⟨w₂, ran₂, ran₃⟩⟩
    · refine (shrink₁₂.mono (Finset.Subset.refl _) (Set.Subset.refl _) ?_).trans
        (shrink₃.mono (Finset.Subset.refl _) (Set.Subset.refl _) ?_)
      · exact fun y reach => ⟨x, by simp, reach⟩
      · rintro y ⟨z, inside, reach⟩
        exact ⟨z, by simp [inside], shrink₁₂.below z reach⟩

theorem links_reset (shrink : w.Shrink exempt loose given (w.modify c (Container.setChildren k array)))
    (found : w.heap.cells c = some self) (other : k ≠ .globalContext)
    (fewer : array.data.length < (self.children k).data.length) :
    (w.modify c (Container.setChildren k array)).links < w.links := by
  have children : (Container.setChildren k array self).allChildren.length <
      self.allChildren.length := by
    cases k with
    | globalContext => exact absurd rfl other
    | host | testcase | command | process =>
      simp only [Container.allChildren, Container.setChildren, Function.update_self, ne_eq,
        reduceCtorEq, not_false_eq_true, Function.update_of_ne, List.length_append]
      omega
  have owner : (Container.setChildren k array self).owner = self.owner := rfl
  refine shrink.links_lt found (fun new after => ?_) (by unfold Container.links; omega)
  rw [World.cells_modify_heap, Store.modify_self, found] at after
  cases after
  unfold Container.links
  rw [owner]
  omega

theorem arrayDestroy_ok (destroys : Destroys destroy bound) (ok : Ok w held parked exempt)
    (found : w.heap.cells c = some self) (begun : c ∈ exempt)
    (kind : k = .testcase ∨ k = .process) (small : 2 * w.links ≤ bound) :
    ∃ w', arrayDestroy (containerPut destroy) k c w = .ok w' ∧ Ok w' held parked exempt ∧
      w.Shrink exempt {c} (w.below c) w' ∧ (w'.graph exempt).slot c k = [] := by
  have other : k ≠ .globalContext := by rcases kind with rfl | rfl <;> decide
  have here : ∀ k, (c, k) ∈ w.below c := fun _ => Relation.ReflTransGen.refl
  let w₁ := w.modify c (Container.setChildren k {})
  have found₁ : w₁.heap.cells c = some (Container.setChildren k {} self) := by
    rw [World.cells_modify_heap, Store.modify_self, found]
    rfl
  have shrink₁ : w.Shrink exempt {c} (w.below c) w₁ :=
    World.Shrink.modify fun self _ =>
      kept_setChildren self (Set.mem_singleton c) (here k) (List.nil_sublist _)
  have ok₁ : Ok w₁ held (↑(self.children k).data.reverse + parked) exempt := by
    have parked := ok.park found begun kind
    rwa [← Multiset.coe_reverse] at parked
  have empty₁ : (w₁.graph exempt).slot c k = [] := by
    rw [slot_graph found₁]
    simp [Container.setChildren]
  obtain ⟨w₂, ran₂, ok₂, shrink₂⟩ := putAside_ok destroys (self.children k).data.reverse ok₁ (fun some_ => by
      have fewer := links_reset shrink₁ found other (by
        rw [ne_eq, List.reverse_eq_nil_iff] at some_
        exact List.length_pos_of_ne_nil some_)
      change w₁.links < w.links at fewer
      omega)
  have below : { y | ∃ x ∈ (self.children k).data.reverse, y ∈ w₁.below x } ⊆ w.below c := by
    rintro y ⟨x, inside, reach⟩
    have edge : (w.graph ∅).Edge c x := ⟨k, by
      rw [slot_graph found]
      exact List.mem_reverse.mp inside⟩
    exact Relation.ReflTransGen.head edge (shrink₁.below x reach)
  have shrink₁₂ : w.Shrink exempt {c} (w.below c) w₂ :=
    shrink₁.trans (shrink₂.mono (Finset.Subset.refl _) (Set.empty_subset _) below)
  obtain ⟨self₂, found₂⟩ := ok₂.live (ok₂.beneath begun)
  have empty₂ : (self₂.children k).data = [] := by
    have sub : ((w₂.graph exempt).slot c k).Sublist ((w₁.graph exempt).slot c k) := shrink₂.slot c k
    rw [empty₁, slot_graph found₂] at sub
    exact List.sublist_nil.mp sub
  obtain ⟨ok₃, graph₃, shrink₃⟩ := ok₂.reset found₂ other empty₂
  refine ⟨_, ?_, ok₃, shrink₁₂.trans (shrink₃.mono (Finset.Subset.refl _) (Set.Subset.refl _)
    (Set.singleton_subset_iff.mpr (here _))), ?_⟩
  · refine bind_ok.mpr ⟨self, World.deref_ok.mpr found, bind_ok.mpr ⟨w₂, ran₂, ?_⟩⟩
    exact bind_ok.mpr ⟨self₂, World.deref_ok.mpr found₂, rfl⟩
  · rw [graph₃, slot_graph found₂, empty₂]

theorem commandArrayDestroy_ok (ok : Ok w held parked exempt) (found : w.heap.cells c = some self)
    (empty : (self.children .command).data = []) (put : Action) :
    ∃ w', commandArrayDestroy put c w = .ok w' ∧ Ok w' held parked exempt ∧
      w.Shrink exempt {c} {(c, .command)} w' ∧ (w'.graph exempt).slot c .command = [] := by
  obtain ⟨ok₁, graph₁, shrink₁⟩ := ok.reset found (k := .command) (by decide) empty
  refine ⟨_, ?_, ok₁, shrink₁, ?_⟩
  · simp [commandArrayDestroy, commandArrayDrain, World.deref_ok.mpr found, empty, bind, Except.bind]
  · rw [graph₁, slot_graph found, empty]

/-- The hosts that a container had claimed go one by one; none belongs to it any more. -/
theorem hostArrayDrain_ok (destroys : Destroys destroy bound) (begun : c ∈ exempt)
    (apart : c ≠ globalContext) (rounds : Nat) (ok : Ok w held parked exempt)
    (found : w.heap.cells c = some self) (enough : (self.children .host).data.length ≤ rounds)
    (free : ∀ y, (w.graph exempt).Reach c y → y ≠ c → (w.graph exempt).owner y ≠ some c) (small : 2 * w.links ≤ bound) :
    ∃ w', hostArrayDrain (containerPut destroy) c rounds w = .ok w' ∧ Ok w' held parked exempt ∧
      w.Shrink exempt {c} (w.below c) w' ∧ (w'.graph exempt).slot c .host = [] := by
  induction rounds generalizing w self with
  | zero =>
    have empty := List.length_eq_zero_iff.mp (Nat.le_zero.mp enough)
    refine ⟨w, ?_, ok, World.Shrink.refl _ _ _ _, by rw [slot_graph found, empty]⟩
    simp [hostArrayDrain, World.deref_ok.mpr found, empty, bind, Except.bind]
  | succ rounds ih =>
    have here : ∀ k, (c, k) ∈ w.below c := fun _ => Relation.ReflTransGen.refl
    rcases List.eq_nil_or_concat (self.children .host).data with empty | ⟨hosts, h, last⟩
    · refine ⟨w, ?_, ok, World.Shrink.refl _ _ _ _, by rw [slot_graph found, empty]⟩
      simp [hostArrayDrain, World.deref_ok.mpr found, empty, bind, Except.bind]
    · rw [List.concat_eq_append] at last
      have inside : h ∈ (w.graph exempt).slot c .host := by
        rw [slot_graph found, last]
        simp
      have edge : (w.graph ∅).Edge c h := ⟨.host, inside⟩
      obtain ⟨taken, foundH, kindH⟩ := ok.live_slot inside
      have different : h ≠ c := by
        rintro rfl
        obtain ⟨_, above, kind, has⟩ := ok.wf.entry inside
        rw [kind_graph foundH, kindH] at kind
        obtain rfl := Option.some.inj kind
        simp [Kind.has] at has
      have unowned := free h (Relation.ReflTransGen.single edge) different
      let w₁ := w.modify c (Container.setData .host hosts)
      let w₂ := w₁.modify h fun self => { self with parent := none }
      have foundH₁ : w₁.heap.cells h = some taken := by
        rw [World.cells_modify_heap, Store.modify_of_ne different, foundH]
      have ok₂ : Ok w₂ (h ::ₘ held) parked exempt := ok.popHost found apart last unowned
      have shrink₁ : w.Shrink exempt {c} (w.below c) w₁ := by
        refine World.Shrink.modify fun self' at_ => ?_
        obtain rfl := Option.some.inj (found.symm.trans at_)
        refine kept_setData _ ?_ fun _ => here _
        rw [last]
        exact List.sublist_append_left hosts [h]
      have shrink₂ : w₁.Shrink exempt {c} (w.below c) w₂ :=
        World.Shrink.modify fun self _ => kept_clearParent self (Relation.ReflTransGen.single edge)
      have shrink₁₂ := shrink₁.trans shrink₂
      have fewer : w₁.links < w.links := by
        have same : w₁ = w.modify c (Container.setChildren .host
            { self.children .host with data := hosts }) := World.modify_congr found rfl
        rw [same] at shrink₁ ⊢
        refine links_reset shrink₁ found (by decide) ?_
        simp [last]
      have links₂ := shrink₂.links_le
      obtain ⟨w₃, ran₃, ok₃, put₃⟩ := put_ok destroys ok₂
        (ok.wf.not_root (ok.wf.entry inside).1 (by decide)) ok.beneath (fun _ => by
          have rank := w₂.rank_le h
          omega)
      have below : w₂.below h ⊆ w.below c := fun y reach =>
        Relation.ReflTransGen.head edge (shrink₁₂.below h reach)
      have shrink₃ : w.Shrink exempt {c} (w.below c) w₃ :=
        shrink₁₂.trans (put₃.mono (Finset.Subset.refl _) (Set.empty_subset _) below)
      obtain ⟨self₃, found₃⟩ := ok₃.live (ok₃.beneath begun)
      have links₃ := shrink₃.links_le
      have fits : (self₃.children .host).data.length ≤ rounds := by
        have shrink := shrink₂.trans (put₃.mono (Finset.Subset.refl _) (Set.empty_subset _) below)
        have sub : ((w₃.graph exempt).slot c .host).Sublist ((w₁.graph exempt).slot c .host) := shrink.slot c .host
        have slot₁ : (w₁.graph exempt).slot c .host = hosts := by
          simp [w₁, World.graph, found, Container.setData, Container.setChildren]
        rw [slot₁, slot_graph found₃] at sub
        have lengths := sub.length_le
        rw [last, List.length_append, List.length_singleton] at enough
        omega
      obtain ⟨w₄, ran₄, ok₄, shrink₄, empty₄⟩ := ih ok₃ found₃ fits (by
        intro y reach other
        exact shrink₃.disowned (free y (shrink₃.reach reach) other)) (by omega)
      refine ⟨w₄, ?_, ok₄, shrink₃.trans (shrink₄.mono (Finset.Subset.refl _)
        (Set.Subset.refl _) (shrink₃.below c)), empty₄⟩
      have other : taken.owner ≠ some c := by rwa [owner_graph foundH] at unowned
      rw [hostArrayDrain]
      simp only [World.deref_ok.mpr found, last, List.getLast?_concat, List.dropLast_concat, bind, Except.bind]
      have read : (w.modify c (Container.setData .host hosts)).deref h = .ok taken := World.deref_ok.mpr foundH₁
      simp only [read, if_neg other]
      have put : containerPut destroy h ((w.modify c (Container.setData .host hosts)).modify h
          fun self => { self with parent := none }) = .ok w₃ := ran₃
      simp only [put]
      exact ran₄

theorem hostArrayDestroy_ok (destroys : Destroys destroy bound) (begun : c ∈ exempt)
    (apart : c ≠ globalContext) (ok : Ok w held parked exempt) (found : w.heap.cells c = some self)
    (free : ∀ y, (w.graph exempt).Reach c y → y ≠ c → (w.graph exempt).owner y ≠ some c) (small : 2 * w.links ≤ bound) :
    ∃ w', hostArrayDestroy (containerPut destroy) c w = .ok w' ∧ Ok w' held parked exempt ∧
      w.Shrink exempt {c} (w.below c) w' ∧ (w'.graph exempt).slot c .host = [] := by
  have here : ∀ k, (c, k) ∈ w.below c := fun _ => Relation.ReflTransGen.refl
  obtain ⟨w₁, ran₁, ok₁, shrink₁, empty₁⟩ := hostArrayDrain_ok destroys begun apart _ ok found (le_refl _) free small
  obtain ⟨self₁, found₁⟩ := ok₁.live (ok₁.beneath begun)
  rw [slot_graph found₁] at empty₁
  obtain ⟨ok₂, graph₂, shrink₂⟩ := ok₁.reset found₁ (k := .host) (by decide) empty₁
  refine ⟨_, ?_, ok₂, shrink₁.trans (shrink₂.mono (Finset.Subset.refl _) (Set.Subset.refl _)
    (Set.singleton_subset_iff.mpr (here _))), ?_⟩
  · simp only [hostArrayDestroy, World.deref_ok.mpr found, bind, Except.bind, ran₁]
  · rw [graph₂, slot_graph found₁, empty₁]

/-- What the kind of a container has to say. A process puts its command, and then forgets
it. -/
theorem opsDestroy_ok (destroys : Destroys destroy bound)
    (ok : Ok w (↑self.command.toList + held) parked exempt) (found : w.heap.cells c = some self)
    (begun : c ∈ exempt) (beneath : ∀ {e}, e ∈ exempt → e ∈ held) (plain : self.kind ≠ .process → self.command = none)
    (runs : ∀ command, self.command = some command → (w.graph exempt).kind command = some .command)
    (small : self.kind = .process → 2 * w.links < bound) :
    ∃ w', opsDestroy (containerPut destroy) c w = .ok w' ∧ Ok w' held parked exempt ∧ w.Shrink (exempt.erase c) {c} ∅ w' ∧
      (∀ new, w'.heap.cells c = some new → new.command = none) ∧ (w'.graph exempt).role c = none := by
  have fewer : exempt.erase c ⊆ exempt := Finset.erase_subset c exempt
  have roleless : self.kind ≠ .host → (w.graph exempt).role c = none := by
    intro other
    by_contra some_
    have kind := (ok.wf.role some_).1
    rw [kind_graph found] at kind
    exact other (Option.some.inj kind)
  have unchanged : self.command = none → opsDestroy (containerPut destroy) c w = .ok w →
      self.kind ≠ .host → ∃ w', opsDestroy (containerPut destroy) c w = .ok w' ∧
        Ok w' held parked exempt ∧ w.Shrink (exempt.erase c) {c} ∅ w' ∧
        (∀ new, w'.heap.cells c = some new → new.command = none) ∧
        (w'.graph exempt).role c = none := by
    intro none_ ran other
    rw [none_] at ok
    refine ⟨w, ran, by simpa using ok, World.Shrink.refl _ _ _ _, fun new after => ?_, roleless other⟩
    obtain rfl := Option.some.inj (found.symm.trans after)
    exact none_
  cases kind : self.kind with
  | testcase | command | globalContext =>
    refine unchanged (plain (by simp [kind])) ?_ (by simp [kind])
    simp [opsDestroy, World.deref_ok.mpr found, kind, bind, Except.bind]
  | host =>
    have none_ := plain (by simp [kind])
    rw [none_] at ok
    have ok' : Ok w held parked exempt := by simpa using ok
    have cleared : Ok (w.modify c fun self =>
        { self with eventlog := none, capabilities := [], agentBusName := none, role := none })
        held parked exempt := ok'.clearRole (by intro; rfl) (by intro; rfl) (by intro; rfl)
    refine ⟨_, ?_, cleared, World.Shrink.modify fun self _ => ?_, fun new after => ?_, ?_⟩
    · simp only [opsDestroy, World.deref_ok.mpr found, kind, bind, Except.bind]
    · exact { Container.Kept.refl (exempt.erase c) {c} ∅ c self with
        less := { Container.Less.refl self with agent := by rintro _ ⟨⟩, role := by rintro _ ⟨⟩ }
        nextId := fun _ _ _ => rfl
        agent := fun outside => absurd rfl outside
        claim := fun outside => absurd rfl outside
        parent := fun _ _ => rfl
        lists := fun _ _ _ => rfl }
    · rw [World.cells_modify_heap, Store.modify_self, found] at after
      cases after
      exact none_
    · simp [World.graph, found]
  | process =>
    have finish : ∀ {w₁}, Ok w₁ held parked exempt → w.Shrink (exempt.erase c) {c} ∅ w₁ →
        (∀ new, w₁.heap.cells c = some new → new.command = none) →
        Ok (w₁.modify c fun self => { self with exitInfo := none }) held parked exempt ∧
          w.Shrink (exempt.erase c) {c} ∅ (w₁.modify c fun self => { self with exitInfo := none }) ∧
          (∀ new, (w₁.modify c fun self => { self with exitInfo := none }).heap.cells c = some new → new.command = none) ∧
          ((w₁.modify c fun self => { self with exitInfo := none }).graph exempt).role c = none := by
      intro w₁ ok₁ shrink₁ none_
      have graph : (w₁.modify c fun self => { self with exitInfo := none }).graph exempt =
          w₁.graph exempt := graph_quiet (by intro; rfl) exempt
      refine ⟨ok₁.quiet (by intro; rfl) (by intro; rfl) (by intro; rfl), shrink₁.trans
        (World.Shrink.modify fun self _ => ?_), fun new after => ?_, ?_⟩
      · exact { Container.Kept.refl (exempt.erase c) {c} ∅ c self with
          less := { Container.Less.refl self with } }
      · rw [World.cells_modify_heap, Store.modify_self] at after
        obtain ⟨old, before, rfl⟩ := Option.map_eq_some_iff.mp after
        exact none_ old before
      · rw [graph]
        exact shrink₁.role (roleless (by simp [kind]))
    cases command : self.command with
    | none =>
      rw [command] at ok
      refine ⟨_, ?_, finish (by simpa using ok) (World.Shrink.refl _ _ _ _) fun new after => ?_⟩
      · simp only [opsDestroy, World.deref_ok.mpr found, kind, command, bind, Except.bind]
      · obtain rfl := Option.some.inj (found.symm.trans after)
        exact command
    | some cmd =>
      have kindCmd := runs cmd command
      obtain ⟨selfCmd, foundCmd, _⟩ := found_of_kind kindCmd
      have tokens : (↑self.command.toList : Multiset Addr) + held = cmd ::ₘ held := by
        simp [command]
      rw [tokens] at ok
      obtain ⟨w₁, ran₁, ok₁, shrink₁⟩ := put_leaf destroys ok (ok.wf.not_root kindCmd (by decide))
        beneath (Or.inl kindCmd) (fun _ => by
          have rank : w.rank cmd = 2 * w.links := by
            rw [kind_graph foundCmd] at kindCmd
            simp [World.rank, foundCmd, Option.some.inj kindCmd]
          have few := small kind
          omega)
      obtain ⟨self₁, found₁⟩ := ok₁.live (beneath begun)
      refine ⟨_, ?_, finish (ok₁.forgetCommand begun)
        ((shrink₁.mono fewer (Set.empty_subset _) (Set.Subset.refl _)).trans
          (World.Shrink.modify fun self _ => ?_)) fun new after => ?_⟩
      · simp only [opsDestroy, World.deref_ok.mpr found, kind, command, bind, Except.bind, ran₁,
          World.deref_ok.mpr found₁]
      · exact { Container.Kept.refl (exempt.erase c) {c} ∅ c self with
          less := { Container.Less.refl self with command := by rintro _ ⟨⟩ }
          command := fun inside => absurd inside (Finset.notMem_erase c exempt) }
      · rw [World.cells_modify_heap, Store.modify_self, found₁] at after
        cases after
        rfl

end Arrays

section Destroy

variable {destroy : Action} {w : World} {held parked : Multiset Addr}

theorem graph_leave (outside : c ∉ exempt) (found : w.heap.cells c = some self)
    (commandless : self.command = none) : w.graph (insert c exempt) = w.graph exempt := by
  have hidden : (w.graph exempt).command c = none := by
    rw [command_graph found outside, commandless]
  rw [graph_insert, ← hidden]
  apply Graph.ext <;> try rfl
  simp [Graph.setCommand]

theorem Ok.leave (ok : Ok w held parked (insert c exempt)) (outside : c ∉ exempt)
    (beneath : ∀ {e}, e ∈ exempt → e ∈ held) (found : w.heap.cells c = some self)
    (commandless : self.command = none) (bare : (w.graph exempt).Bare c)
    (free : ∀ y, (w.graph exempt).Reach globalContext y → (w.graph exempt).owner y ≠ some c)
    (none_ : ∀ x ∈ parked, (w.graph exempt).parent x ≠ some c) : Ok w held parked exempt := by
  constructor
  · refine ok.counted.restate found (fun x value other => ?_) ?_
    · simp [Container.outRefs, other]
    · simp [Container.outRefs, outside, commandless]
  · have wf := ok.wf
    rw [graph_leave outside found commandless] at wf
    exact wf.leave bare free none_
  · exact ok.registered
  · exact beneath

theorem destroyWith_ok (destroys : Destroys destroy bound) : Destroys (destroyWith destroy) (bound + 1) := by
  intro w held parked exempt c entry rank
  obtain ⟨self, found⟩ := entry.live entry.held
  have few : 2 * w.links ≤ bound := by
    unfold World.rank at rank
    omega
  have apart := entry.apart
  have begun : c ∈ insert c exempt := Finset.mem_insert_self c exempt
  have frozen : exempt ⊆ (insert c exempt).erase c := fun e member =>
    Finset.mem_erase.mpr ⟨fun same => entry.outside (same ▸ member), Finset.mem_insert_of_mem member⟩
  have frozen' : exempt ⊆ insert c exempt := Finset.subset_insert c exempt
  have beneath : ∀ {e}, e ∈ insert c exempt → e ∈ held := by
    intro e member
    rcases Finset.mem_insert.mp member with rfl | old
    · exact entry.held
    · exact entry.beneath old
  have here : {(c, .command)} ⊆ w.below c := Set.singleton_subset_iff.mpr Relation.ReflTransGen.refl
  have below_around : w.below c ⊆ w.around c := fun _ reach => Or.inl reach
  obtain ⟨G, wf, kinds, parents, slots, commands, _⟩ := entry.base
  have runs : ∀ command, self.command = some command →
      self.kind = .process ∧ (w.graph exempt).kind command = some .command := by
    intro command has
    obtain ⟨process, kind, _⟩ := wf.running (p := c) (c := command) (by
      rw [commands, command_graph found entry.outside, has])
    rw [kinds] at process kind
    rw [kind_graph found] at process
    exact ⟨Option.some.inj process, kind⟩
  -- It leaves its parent.
  obtain ⟨w₁, ran₁, ok₁, shrink₁, left₁⟩ := entry.detach found destroy
  have links₁ := shrink₁.links_le
  -- What it owns is released, in the whole tree and below it.
  obtain ⟨w₂, ran₂, released₂⟩ := releaseOwned_ok destroys begun (w.next + 4) ok₁ (Or.inl rfl) (by omega) (by
      rw [shrink₁.next]
      exact Nat.lt_succ_of_le ((w₁.graph (insert c exempt)).height_le w.next globalContext))
  have links₂ := released₂.shrink.links_le
  obtain ⟨w₃, ran₃, released₃⟩ := releaseOwned_ok destroys begun (w.next + 4) released₂.ok
    (Or.inr (Multiset.mem_add.mpr (Or.inr entry.held))) (by omega) (by
      rw [released₂.shrink.next, shrink₁.next]
      exact Nat.lt_succ_of_le ((w₂.graph (insert c exempt)).height_le w.next c))
  have links₃ := released₃.shrink.links_le
  have shrink₂₃ := released₂.shrink.trans released₃.shrink
  have ok₃ := released₃.ok
  obtain ⟨self₃, found₃⟩ := ok₃.live (Multiset.mem_add.mpr (Or.inr entry.held))
  obtain ⟨old, found', kept₁₃⟩ := (shrink₁.trans (shrink₂₃.mono (Finset.Subset.refl _)
    (Set.Subset.refl _) (Set.empty_subset _))).kept found₃
  obtain rfl := Option.some.inj (found.symm.trans found')
  have command₃ := kept₁₃.command begun
  rw [← command₃] at ok₃
  -- What its kind has to say.
  obtain ⟨w₄, ran₄, ok₄, shrink₄, commandless₄, role₄⟩ := opsDestroy_ok destroys ok₃ found₃ begun beneath (by
      intro other
      cases has : self₃.command with
      | none => rfl
      | some command =>
        rw [command₃] at has
        exact absurd (kept₁₃.less.kind.trans (runs command has).1) other) (by
      intro command has
      obtain ⟨there, foundC⟩ := ok₃.live (c := command) (by simp [has])
      have kind := (runs command (command₃ ▸ has)).2
      rw [kind_graph foundC]
      have before : (w.graph exempt).kind command = some there.kind :=
        (shrink₁.trans (shrink₂₃.mono (Finset.Subset.refl _) (Set.Subset.refl _) (Set.empty_subset _))).kind_live foundC
      rw [← before, kind]) (by
      intro process
      rw [kept₁₃.less.kind] at process
      simp only [World.rank, found, Option.map_some, process, if_true] at rank
      omega)
  have links₄ := shrink₄.links_le
  -- It forgets its environment.
  let w₅ := w₄.modify c fun self => { self with env := {} }
  have ok₅ : Ok w₅ held parked (insert c exempt) := ok₄.quiet (by intro; rfl) (by intro; rfl) (by intro; rfl)
  have shrink₅ : w₄.Shrink exempt {c} (w.below c) w₅ := World.Shrink.modify fun self _ => {
    Container.Kept.refl exempt {c} (w.below c) c self with
    less := { Container.Less.refl self with env := Or.inr rfl } }
  have links₅ := shrink₅.links_le
  -- Its arrays: the commands are gone already.
  have shrink₃₅ : w₃.Shrink exempt {c} (w.below c) w₅ :=
    (shrink₄.mono frozen (Set.Subset.refl _) (Set.empty_subset _)).trans shrink₅
  obtain ⟨self₅, found₅⟩ := ok₅.live entry.held
  have empty₅ : (self₅.children .command).data = [] := by
    refine List.eq_nil_iff_forall_not_mem.mpr fun x member => ?_
    have inside : x ∈ (w₃.graph (insert c exempt)).slot c .command := by
      refine (shrink₃₅.slot c .command).subset (?_ : x ∈ (w₅.graph exempt).slot c .command)
      rwa [slot_graph found₅]
    have edge : (w₃.graph (insert c exempt)).Edge c x := ⟨.command, inside⟩
    have different : x ≠ c := by
      rintro rfl
      obtain ⟨kind, above, kind', has⟩ := ok₃.wf.entry inside
      rw [kind] at kind'
      obtain rfl := Option.some.inj kind'
      simp [Kind.has] at has
    exact released₃.free x (Relation.ReflTransGen.single edge) different (ok₃.wf.commands inside)
  obtain ⟨w₆, ran₆, ok₆, shrink₆, commands₆⟩ := commandArrayDestroy_ok ok₅ found₅ empty₅ (containerPut destroy)
  obtain ⟨self₆, found₆⟩ := ok₆.live entry.held
  have links₆ := shrink₆.links_le
  obtain ⟨w₇, ran₇, ok₇, shrink₇, process₇⟩ := arrayDestroy_ok destroys ok₆ found₆ begun (Or.inr rfl) (by omega)
  obtain ⟨self₇, found₇⟩ := ok₇.live entry.held
  have links₇ := shrink₇.links_le
  have s₆ := ((shrink₂₃.mono frozen' (Set.empty_subset _) (Set.empty_subset _)).trans shrink₃₅).trans
    (shrink₆.mono frozen' (Set.Subset.refl _) here)
  have below₁ := shrink₁.below c
  have below₆ := (s₆.below c).trans below₁
  have s₇ := s₆.trans (shrink₇.mono frozen' (Set.Subset.refl _) below₆)
  have free₇ : ∀ y, (w₇.graph (insert c exempt)).Reach c y → y ≠ c → (w₇.graph (insert c exempt)).owner y ≠ some c := by
    intro y reach other
    have shrink := (shrink₃₅.trans (shrink₆.mono frozen' (Set.Subset.refl _) here)).trans
      (shrink₇.mono frozen' (Set.Subset.refl _) below₆)
    exact shrink.disowned (released₃.free y (shrink.reach reach) other)
  obtain ⟨w₈, ran₈, ok₈, shrink₈, hosts₈⟩ := hostArrayDestroy_ok destroys begun apart ok₇ found₇ free₇ (by omega)
  obtain ⟨self₈, found₈⟩ := ok₈.live entry.held
  have links₈ := shrink₈.links_le
  have s₈ := s₇.trans (shrink₈.mono frozen' (Set.Subset.refl _) ((s₇.below c).trans below₁))
  obtain ⟨w₉, ran₉, ok₉, shrink₉, tests₉⟩ := arrayDestroy_ok destroys ok₈ found₈ begun (Or.inl rfl) (by omega)
  obtain ⟨self₉, found₉⟩ := ok₉.live entry.held
  have t₉ := shrink₉.mono frozen' (Set.Subset.refl _) ((s₈.below c).trans below₁)
  -- It forgets its name, and leaves the bus.
  let w₁₀ := w₉.modify c fun self => { self with name := none }
  have ok₁₀ : Ok w₁₀ held parked (insert c exempt) := ok₉.quiet (by intro; rfl) (by intro; rfl) (by intro; rfl)
  have found₁₀ : w₁₀.heap.cells c = some { self₉ with name := none } := by
    rw [World.cells_modify_heap, Store.modify_self, found₉]
    rfl
  have shrink₁₀ : w₉.Shrink exempt {c} (w.below c) w₁₀ := World.Shrink.modify fun self _ => {
    Container.Kept.refl exempt {c} (w.below c) c self with
    less := { Container.Less.refl self with } }
  obtain ⟨w₁₁, ran₁₁, ok₁₁, shrink₁₁, _, nameless⟩ := ok₁₀.unregister found₁₀
  -- What has been achieved stays.
  have t₁₁ := shrink₁₀.trans (shrink₁₁.mono frozen' (Set.empty_subset _) (Set.empty_subset _))
  have later := (s₈.trans t₉).trans t₁₁
  have s₁₁ := (shrink₁.mono frozen' (Set.empty_subset _) (Set.Subset.refl _)).trans
    (later.mono (Finset.Subset.refl _) (Set.Subset.refl _) below_around)
  have t₈ := (shrink₈.mono frozen' (Set.Subset.refl _) ((s₇.below c).trans below₁))
  have t₇ := (shrink₇.mono frozen' (Set.Subset.refl _) below₆)
  have fromHosts := t₉.trans t₁₁
  have fromProcess := t₈.trans fromHosts
  have fromCommands := t₇.trans fromProcess
  have fromOps := (shrink₅.trans (shrink₆.mono frozen' (Set.Subset.refl _) here)).trans fromCommands
  have fromReleased := ((released₃.shrink.mono frozen' (Set.empty_subset _) (Set.empty_subset _)).trans
    (shrink₄.mono frozen (Set.Subset.refl _) (Set.empty_subset _))).trans fromOps
  obtain ⟨self₁₁, found₁₁⟩ := ok₁₁.live entry.held
  have commandless : self₁₁.command = none := by
    obtain ⟨before, there, kept⟩ := fromOps.kept found₁₁
    cases has : self₁₁.command with
    | none => rfl
    | some command =>
      have was := kept.less.command has
      simp [commandless₄ before there] at was
  have gone : ∀ {w' : World}, w'.Shrink exempt {c} (w.below c) w₁₁ → ∀ k,
      (w'.graph (insert c exempt)).slot c k = [] → (w₁₁.graph exempt).slot c k = [] := by
    intro w' shrink k empty
    have sub : ((w₁₁.graph exempt).slot c k).Sublist ((w'.graph (insert c exempt)).slot c k) := shrink.slot c k
    rw [empty] at sub
    exact List.sublist_nil.mp sub
  have bare : (w₁₁.graph exempt).Bare c := by
    constructor
    · exact (ok₁₁.wf.begun begun).2.1
    · rw [command_graph found₁₁ entry.outside, commandless]
    · exact fromOps.role role₄
    · intro k
      cases k with
      | globalContext =>
        refine List.eq_nil_iff_forall_not_mem.mpr fun x member => ?_
        exact ok₁₁.slot_kind (p := c) (c := x) (k := .globalContext) member rfl
      | host => exact gone fromHosts .host hosts₈
      | testcase => exact gone t₁₁ .testcase tests₉
      | command => exact gone fromCommands .command commands₆
      | process => exact gone fromProcess .process process₇
  have free : ∀ y, (w₁₁.graph exempt).Reach globalContext y → (w₁₁.graph exempt).owner y ≠ some c := by
    intro y reach
    by_cases root : y = globalContext
    · subst root
      have none_ := ok₁₁.wf.root_owner
      change (w₁₁.graph exempt).owner globalContext = none at none_
      simp [none_]
    · exact fromReleased.disowned (released₂.free y (fromReleased.reach reach) root)
  have childless : ∀ x ∈ parked, (w₁₁.graph exempt).parent x ≠ some c := by
    intro x member parent
    have before := s₁₁.parent (E := exempt) parent
    rw [← parents] at before
    obtain ⟨k, _, _, inside | aside⟩ := wf.listed before
    · exact (wf.aside member).2 c k inside
    · exact entry.outside aside.2
  have left : (w.graph exempt).parent c = some globalContext → c ∈ (w.graph exempt).slot globalContext .host →
      (w₁₁.graph exempt).slot globalContext .host = ((w.graph exempt).slot globalContext .host).erase c := by
    intro parent member
    have kind : self.kind = .host := by
      have kind := (wf.entry (slots ▸ member)).1
      rw [kinds, kind_graph found] at kind
      exact Option.some.inj kind
    rw [parent_graph found] at parent
    obtain ⟨root, foundRoot, _⟩ := ok₁₁.root
    obtain ⟨before, foundBefore, kept⟩ := later.kept foundRoot
    have above : (globalContext, Kind.host) ∉ w.below c := by
      intro reach
      have reach : (w.graph exempt).Reach c globalContext := reach
      refine wf.acyclic (slots ▸ member) (Graph.Reach.mono (fun q l => ?_) reach)
      rw [slots]
    have same := kept.lists .host (Or.inl rfl) above
    have at₁ := left₁ globalContext parent
    rw [kind, slot_graph foundBefore] at at₁
    rw [slot_graph foundRoot, same, at₁]
  refine ⟨w₁₁, ?_, ok₁₁.leave entry.outside entry.beneath found₁₁ commandless bare free childless,
    s₁₁, left, bare, nameless, free⟩
  have run₆ : commandArrayDestroy (containerPut destroy) c
      (w₄.modify c fun self => { self with env := {} }) = .ok w₆ := ran₆
  have run₁₁ : containerUnregister c (w₉.modify c fun self => { self with name := none }) = .ok w₁₁ := ran₁₁
  simp only [destroyWith, ran₁, ran₂, ran₃, ran₄, run₆, ran₇, ran₈, ran₉, run₁₁, bind, Except.bind]

/-- With enough depth the destruction of a container does what it should. -/
theorem containerDestroy_ok (depth : Nat) : Destroys (containerDestroy depth) depth := by
  induction depth with
  | zero =>
    intro w held parked exempt c _ rank
    exact absurd rank (Nat.not_lt_zero _)
  | succ depth ih => exact destroyWith_ok ih

end Destroy

end Testbus.Server
