import Testbus.Server.Answering

namespace Testbus.Server

open Lib

/-- A container is the parent of another. -/
def World.Child (w : World) (p c : Addr) : Prop :=
  ∃ self, w.heap.cells c = some self ∧ self.parent = some p

/-- A container and its descendants. -/
abbrev World.Beneath (w : World) : Addr → Addr → Prop := Relation.ReflTransGen w.Child

/-- Nothing of a container is left, nor of what was beneath it. -/
structure Gone (w w' : World) (t : Addr) : Prop where
  unreachable : ∀ x, (w'.graph ∅).Reach globalContext x → ¬ w.Beneath t x ∧
    ∀ self o, w'.heap.cells x = some self → self.owner = some o → ¬ w.Beneath t o
  hosts : ∀ h host o, w.heap.cells h = some host → host.kind = .host → host.owner = some o →
    w.Beneath t o → ∀ host', w'.heap.cells h = some host' → host'.role = none ∧ host'.owner = none
  processes : ∀ p process c, w.heap.cells p = some process → process.command = some c →
    w.Beneath t c → ∀ q above, w'.heap.cells q = some above → p ∉ (above.children .process).data

section Delete

variable {self host root : Container}

theorem Settled.host_entry (settled : Settled w) (found : w.heap.cells h = some host)
    (kind : host.kind = .host) (there : w.heap.cells p = some self)
    (refers : h ∈ Container.outRefs ∅ p self) : h ∈ (w.graph ∅).slot p .host := by
  have kindH : (w.graph ∅).kind h = some .host := (kind_graph found).trans (congrArg some kind)
  rcases Multiset.mem_add.mp refers with child | command
  · obtain ⟨k, _, inside⟩ := mem_allChildren.mp (Multiset.mem_coe.mp child)
    have listed : h ∈ (w.graph ∅).slot p k := by rwa [slot_graph there]
    have same := (settled.wf.entry listed).1
    rw [kindH] at same
    obtain rfl := Option.some.inj same
    exact listed
  · have runs : (w.graph ∅).command p = some h := by
      rw [command_graph there (Finset.notMem_empty p)]
      simpa using command
    have same := (settled.wf.running runs).2.1
    rw [kindH] at same
    cases same

/-- Only arrays of hosts refer to a host. -/
theorem Settled.count_host (settled : Settled w) (found : w.heap.cells h = some host)
    (kind : host.kind = .host) (there : w.heap.cells p = some self) :
    (Container.outRefs ∅ p self).count h = (self.children .host).data.count h := by
  have kindH : (w.graph ∅).kind h = some .host := (kind_graph found).trans (congrArg some kind)
  have absent : ∀ k, k ≠ .host → (self.children k).data.count h = 0 := by
    intro k other
    refine List.count_eq_zero.mpr fun member => other ?_
    have same := (settled.wf.entry (c := h) (p := p) (k := k) (by rwa [slot_graph there])).1
    rw [kindH] at same
    exact (Option.some.inj same).symm
  have idle : self.command ≠ some h := by
    intro command
    have same := (settled.wf.running (p := p) (c := h) (by rw [command_graph there (Finset.notMem_empty p), command])).2.1
    rw [kindH] at same
    cases same
  have none_ : self.command.toList.count h = 0 := by
    refine List.count_eq_zero.mpr fun member => idle ?_
    simpa using member
  simp only [Container.outRefs, Finset.notMem_empty, if_false, Container.allChildren,
    Multiset.count_add, Multiset.coe_count, List.count_append, absent .testcase (by decide),
    absent .command (by decide), absent .process (by decide), none_, Nat.add_zero]

theorem Settled.host_counts (settled : Settled w) (found : w.heap.cells h = some host)
    (kind : host.kind = .host) : host.refcount = w.heap.refs (Container.outRefs ∅) h := by
  have apart : h ≠ globalContext := settled.wf.not_root ((kind_graph found).trans (congrArg some kind)) (by decide)
  have counts := settled.refcount found
  rw [if_neg apart] at counts
  simpa only [Multiset.count_zero, Nat.add_zero, Nat.zero_add] using counts

/-- A host that is counted more often than the list of all hosts has it is in another array. -/
theorem Settled.host_elsewhere (settled : Settled w) (found : w.heap.cells h = some host)
    (kind : host.kind = .host) (foundRoot : w.heap.cells globalContext = some root)
    (more : (root.children .host).data.count h < host.refcount) :
    ∃ p, p ≠ globalContext ∧ h ∈ (w.graph ∅).slot p .host := by
  have counts := settled.host_counts found kind
  have here := settled.count_host found kind foundRoot
  obtain ⟨p, above, other, there, refers⟩ := Store.exists_refs_other foundRoot
    (show (Container.outRefs ∅ globalContext root).count h < _ by omega)
  exact ⟨p, other, settled.host_entry found kind there refers⟩

/-- A host that is counted once is in the list of all hosts only. -/
theorem Settled.host_once (settled : Settled w) (found : w.heap.cells h = some host)
    (kind : host.kind = .host) (one : host.refcount = 1) (foundRoot : w.heap.cells globalContext = some root)
    (listed : h ∈ (root.children .host).data) :
    (root.children .host).data.count h = 1 ∧ ∀ p, h ∈ (w.graph ∅).slot p .host → p = globalContext := by
  have counts := settled.host_counts found kind
  have here := settled.count_host found kind foundRoot
  have some_ := List.count_pos_iff.mpr listed
  constructor
  · have most : (Container.outRefs ∅ globalContext root).count h ≤ w.heap.refs (Container.outRefs ∅) h := by
      have split : _ = w.heap.refs (Container.outRefs ∅) h := Store.refs_free foundRoot h
      omega
    omega
  · intro p member
    by_contra other
    obtain ⟨_, above, kindP, _⟩ := settled.wf.entry member
    obtain ⟨self, there, _⟩ := found_of_kind kindP
    rw [slot_graph there] at member
    have both : 1 < w.heap.refs (Container.outRefs ∅) h :=
      Store.mem_refs_both foundRoot there other (Multiset.count_pos.mp (by omega))
        (Multiset.count_pos.mp (by
          rw [settled.count_host found kind there]
          exact List.count_pos_iff.mpr member))
    omega

/-- A host that only the list of all hosts has, or what is no host, is gone after its deletion. -/
theorem Deleted.dead (deleted : Deleted w w' c) (settled : Settled w)
    (found : w.heap.cells c = some self) (apart : c ≠ globalContext)
    (parented : self.parent ≠ none) (alone : self.kind = .host → self.refcount = 1) : w'.heap.cells c = none := by
  cases there : w'.heap.cells c with
  | none => rfl
  | some new =>
    obtain ⟨old, found', kept⟩ := deleted.shrink.kept there
    obtain rfl := Option.some.inj (found.symm.trans found')
    by_cases kind : self.kind = .host
    · -- The list of all hosts had it once, and no other array has it.
      obtain ⟨p, parent⟩ := Option.ne_none_iff_exists'.mp parented
      have parent : (w.graph ∅).parent c = some p := (parent_graph found).trans parent
      obtain ⟨k, kind', home, _⟩ := settled.wf.listed parent
      rw [kind_graph found, kind] at kind'
      obtain rfl := home (Option.some.inj kind').symm
      obtain ⟨k, kind', listed⟩ := settled.parent_listed parent
      rw [kind_graph found, kind] at kind'
      obtain rfl := Option.some.inj kind'
      obtain ⟨root, foundRoot, _⟩ := settled.root
      have left := deleted.left parent listed
      rw [slot_graph foundRoot] at listed left
      obtain ⟨once, only⟩ := settled.host_once found kind (alone kind) foundRoot listed
      have kindNew : new.kind = .host := kept.less.kind.trans kind
      rcases deleted.settled.referred there apart with ⟨p, member⟩ | ⟨p, command⟩
      · rw [kindNew] at member
        obtain rfl := only p ((deleted.shrink.slot p .host).subset member)
        rw [left] at member
        have count := List.count_pos_iff.mpr member
        rw [List.count_erase_self, once] at count
        exact absurd count (lt_irrefl 0)
      · have command := (deleted.settled.wf.running command).2.1
        rw [kind_graph there, kindNew] at command
        cases command
    · have orphan := deleted.orphan
      obtain ⟨p, parent, _⟩ := deleted.settled.parented there apart (kept.less.kind ▸ kind)
      rw [parent_graph there, parent] at orphan
      cases orphan

/-- What is beneath something that is gone is gone too. -/
theorem Deleted.dead_beneath (deleted : Deleted w w' c) (settled : Settled w)
    (dead : w'.heap.cells c = none) (beneath : w.Beneath c x) : w'.heap.cells x = none := by
  induction beneath with
  | refl => exact dead
  | @tail a b _ child ih =>
    obtain ⟨self, found, parent⟩ := child
    cases there : w'.heap.cells b with
    | none => rfl
    | some new =>
      obtain ⟨old, found', kept⟩ := deleted.shrink.kept there
      obtain rfl := Option.some.inj (found.symm.trans found')
      have parent : (w.graph ∅).parent b = some a := (parent_graph found).trans parent
      by_cases kind : self.kind = .host
      · obtain ⟨k, kind', home, _⟩ := settled.wf.listed parent
        rw [kind_graph found, kind] at kind'
        obtain rfl := home (Option.some.inj kind').symm
        obtain ⟨_, alive, _⟩ := deleted.settled.root
        rw [ih] at alive
        cases alive
      · have other : b ≠ globalContext := by
          rintro rfl
          rw [settled.wf.root_parent] at parent
          cases parent
        obtain ⟨p, parent', listed⟩ := deleted.settled.parented there other (kept.less.kind ▸ kind)
        have same : (w.graph ∅).parent b = some p :=
          deleted.shrink.parent (show (w'.graph ∅).parent b = some p from (parent_graph there).trans parent')
        rw [parent] at same
        obtain rfl := Option.some.inj same
        obtain ⟨_, above, kindA, _⟩ := deleted.settled.wf.entry listed
        obtain ⟨_, alive, _⟩ := found_of_kind kindA
        rw [ih] at alive
        cases alive

theorem Deleted.gone (deleted : Deleted w w' c) (settled : Settled w) (dead : w'.heap.cells c = none) : Gone w w' c where
  unreachable x reach := by
    have live : ∃ self, w'.heap.cells x = some self := by
      by_cases top : x = globalContext
      · obtain ⟨root, found, _⟩ := deleted.settled.root
        exact ⟨root, top ▸ found⟩
      · obtain ⟨_, _, _, listed⟩ := Graph.reach_listed reach top
        obtain ⟨self, found, _⟩ := deleted.settled.live_slot listed
        exact ⟨self, found⟩
    obtain ⟨self, found⟩ := live
    refine ⟨fun beneath => ?_, fun self o found owner beneath => ?_⟩
    · rw [deleted.dead_beneath settled dead beneath] at found
      cases found
    · obtain ⟨_, alive⟩ := deleted.settled.owner_live found owner
      rw [deleted.dead_beneath settled dead beneath] at alive
      cases alive
  hosts := by
    intro h host o found _ owner beneath host' found'
    have free : host'.owner = none := by
      cases owner' : host'.owner with
      | none => rfl
      | some o' =>
        have before : (w.graph ∅).owner h = some o' :=
          deleted.shrink.owner (show (w'.graph ∅).owner h = some o' from (owner_graph found').trans owner')
        rw [owner_graph found, owner] at before
        obtain rfl := Option.some.inj before
        obtain ⟨_, alive⟩ := deleted.settled.owner_live found' owner'
        rw [deleted.dead_beneath settled dead beneath] at alive
        cases alive
    refine ⟨?_, free⟩
    by_contra role
    obtain ⟨_, owned⟩ := deleted.settled.wf.role (c := h) (by rwa [role_graph found'])
    rw [owner_graph found', free] at owned
    exact owned.elim (fun some_ => some_ rfl) (Finset.notMem_empty h)
  processes := by
    intro p process x found command beneath q above foundQ member
    have listed : p ∈ (w'.graph ∅).slot q .process := by rwa [slot_graph foundQ]
    obtain ⟨process', found', kind⟩ := deleted.settled.live_slot listed
    obtain ⟨x', _, runs, alive, _⟩ := deleted.settled.runs found' kind
    have before : (w.graph ∅).command p = some x' := by
      refine deleted.shrink.command ?_
      rw [command_graph found' (Finset.notMem_empty p), runs]
    rw [command_graph found (Finset.notMem_empty p), command] at before
    obtain rfl := Option.some.inj before
    rw [deleted.dead_beneath settled dead beneath] at alive
    cases alive

/-- Below a host there are commands and processes. -/
theorem Settled.below_host (settled : Settled w) (kind : (w.graph ∅).kind h = some .host)
    (reach : (w.graph ∅).Reach h x) : x = h ∨ (w.graph ∅).kind x = some .command ∨
      (w.graph ∅).kind x = some .process := by
  induction reach with
  | refl => exact Or.inl rfl
  | @tail a b _ edge ih =>
    obtain ⟨k, member⟩ := edge
    obtain ⟨kindB, above, kindA, has⟩ := settled.wf.entry member
    have under : k = .command ∨ k = .process := by
      rcases ih with rfl | command | process
      · rw [kind] at kindA
        obtain rfl := Option.some.inj kindA
        cases k <;> simp [Kind.has] at has ⊢
      · rw [command] at kindA
        obtain rfl := Option.some.inj kindA
        simp [Kind.has] at has
      · rw [process] at kindA
        obtain rfl := Option.some.inj kindA
        simp [Kind.has] at has
    rcases under with rfl | rfl
    · exact Or.inr (Or.inl kindB)
    · exact Or.inr (Or.inr kindB)

/-- The deletion of a host leaves the tests, and the hosts that they have claimed. -/
theorem Deleted.lists (deleted : Deleted w w' c) (settled : Settled w)
    (host : (w.graph ∅).kind c = some .host) (kind : (w.graph ∅).kind p = some above)
    (test : above = .globalContext ∨ above = .testcase) (place : k = .testcase ∨
      k = .host ∧ p ≠ globalContext) (found : w'.heap.cells p = some new) :
    (w'.graph ∅).slot p k = (w.graph ∅).slot p k := by
  obtain ⟨old, found', kept⟩ := deleted.shrink.kept found
  rw [slot_graph found, slot_graph found']
  refine kept.lists k (place.symm.imp_left And.left) ?_
  rintro (reach | ⟨parent, kind', _⟩)
  · rcases settled.below_host host reach with same | command | process
    · change p = c at same
      rw [same, host] at kind
      obtain rfl := Option.some.inj kind
      simp at test
    · rw [show (w.graph ∅).kind p = _ from command] at kind
      obtain rfl := Option.some.inj kind
      simp at test
    · rw [show (w.graph ∅).kind p = _ from process] at kind
      obtain rfl := Option.some.inj kind
      simp at test
  · obtain ⟨l, kindC, home, _⟩ := settled.wf.listed parent
    rw [host] at kind' kindC
    obtain rfl := Option.some.inj kind'
    obtain rfl := Option.some.inj kindC
    rcases place with test | ⟨_, other⟩
    · cases test
    · exact other (home rfl)

theorem Deleted.test_stays (deleted : Deleted w w' c) (settled : Settled w)
    (host : (w.graph ∅).kind c = some .host) (reach : (w.graph ∅).Reach globalContext x)
    (kind : x = globalContext ∨ (w.graph ∅).kind x = some .testcase) :
    (w'.graph ∅).Reach globalContext x ∧ ∃ self, w'.heap.cells x = some self := by
  induction reach with
  | refl =>
    obtain ⟨root, found, _⟩ := deleted.settled.root
    exact ⟨Relation.ReflTransGen.refl, root, found⟩
  | @tail a b _ edge ih =>
    obtain ⟨k, member⟩ := edge
    obtain ⟨kindB, above, kindA, has⟩ := settled.wf.entry member
    have test : k = .testcase := by
      rcases kind with rfl | kind
      · rw [settled.wf.rootKind] at kindB
        obtain rfl := Option.some.inj kindB
        cases above <;> simp [Kind.has] at has
      · rw [kindB] at kind
        exact Option.some.inj kind
    subst test
    have holds : above = .globalContext ∨ above = .testcase := by
      cases above <;> simp [Kind.has] at has ⊢
    have place : a = globalContext ∨ (w.graph ∅).kind a = some .testcase := by
      rcases holds with rfl | rfl
      · exact Or.inl (settled.wf.root.mp kindA)
      · exact Or.inr kindA
    obtain ⟨way, self, found⟩ := ih place
    have stays := deleted.lists settled host (k := .testcase) kindA holds (Or.inl rfl) found
    rw [← stays] at member
    obtain ⟨new, found', _⟩ := deleted.settled.live_slot member
    exact ⟨way.tail ⟨.testcase, member⟩, new, found'⟩

/-- A host that is counted more than once outlives its deletion. -/
theorem Deleted.host_stays (deleted : Deleted w w' c) (settled : Settled w)
    (found : w.heap.cells c = some self) (kind : self.kind = .host) (parented : self.parent ≠ none)
    (more : self.refcount ≠ 1) : (w'.graph ∅).Reach globalContext c := by
  have host : (w.graph ∅).kind c = some .host := (kind_graph found).trans (congrArg some kind)
  obtain ⟨p, parent⟩ := Option.ne_none_iff_exists'.mp parented
  have parent : (w.graph ∅).parent c = some p := (parent_graph found).trans parent
  obtain ⟨k, kind', home, _⟩ := settled.wf.listed parent
  rw [host] at kind'
  obtain rfl := home (Option.some.inj kind').symm
  obtain ⟨k, kind', listed⟩ := settled.parent_listed parent
  rw [host] at kind'
  obtain rfl := Option.some.inj kind'
  obtain ⟨root, foundRoot, _⟩ := settled.root
  have left := deleted.left parent listed
  rw [slot_graph foundRoot] at left listed
  have positive := settled.counted.positive c self found
  have some_ := List.count_pos_iff.mpr listed
  by_cases twice : 1 < (root.children .host).data.count c
  · refine Relation.ReflTransGen.single ⟨.host, ?_⟩
    rw [left]
    refine List.count_pos_iff.mp ?_
    rw [List.count_erase_self]
    omega
  · obtain ⟨p, other, member⟩ := settled.host_elsewhere found kind foundRoot (by omega)
    obtain ⟨_, above, kindP, has⟩ := settled.wf.entry member
    have test : above = .testcase := by
      cases above with
      | testcase => rfl
      | globalContext => exact absurd (settled.wf.root.mp kindP) other
      | host | command | process => simp [Kind.has] at has
    subst test
    obtain ⟨selfP, foundP, _⟩ := found_of_kind kindP
    obtain ⟨way, new, there⟩ := deleted.test_stays settled host (settled.reach foundP) (Or.inr kindP)
    have stays := deleted.lists settled host (k := .host) kindP (Or.inr rfl) (Or.inr ⟨rfl, other⟩) there
    exact way.tail ⟨.host, stays ▸ member⟩

/-- Deleting a container leaves nothing of it, just if it may be deleted and, being a host, is
in the list of all hosts only. -/
theorem delete_complete (reachable : Reachable w)
    (unwrapped : containerUnwrap w.objects objectPath = some c)
    (found : w.heap.cells c = some self) :
    ∃ w' answer, delete objectPath w = .ok (w', answer) ∧ (Gone w w' c ↔
      c ≠ globalContext ∧ self.parent ≠ none ∧ (self.kind = .host → self.refcount = 1)) := by
  have steady := reachable.steady
  rcases delete_cases steady unwrapped found with ⟨refused, ran⟩ | ⟨apart, parented, w', ran, deleted⟩
  · refine ⟨w, _, ran, fun gone => ?_, fun ⟨apart, parented, _⟩ => ?_⟩
    · exact absurd Relation.ReflTransGen.refl
        (gone.unreachable c (steady.settled.reach found)).1
    · exact absurd refused (not_or.mpr ⟨apart, parented⟩)
  · refine ⟨w', _, ran, fun gone => ⟨apart, parented, fun kind => ?_⟩, fun ⟨_, _, alone⟩ => ?_⟩
    · by_contra more
      exact (gone.unreachable c
        (deleted.host_stays steady.settled found kind parented more)).1 Relation.ReflTransGen.refl
    · exact deleted.gone steady.settled (deleted.dead steady.settled found apart parented alone)

theorem delete_complete_test : ∃ w w' answer objectPath, Reachable w ∧
    delete objectPath w = .ok (w', answer) ∧ Gone w w' 2 ∧
      (w.heap.cells 2).map (fun test => (test.children .host).data) = some [1] := by
  obtain ⟨w, ran, view⟩ := Machine.run_view step World.initial claimRequests
    (fun w => (containerUnwrap w.objects firstTest, (w.heap.cells 2).map fun test =>
      (test.kind, test.parent.isSome, (test.children .host).data)))
    (some 2, some (.testcase, true, [1])) (by decide +kernel)
  obtain ⟨unwrapped, cell⟩ := Prod.mk.inj view
  obtain ⟨test, found, same⟩ := Option.map_eq_some_iff.mp cell
  obtain ⟨kind, same⟩ := Prod.mk.inj same
  obtain ⟨parented, hosts⟩ := Prod.mk.inj same
  have parented : test.parent ≠ none := fun none_ => by simp [none_] at parented
  obtain ⟨w', answer, deleted, exactly⟩ := delete_complete ⟨claimRequests, ran⟩ unwrapped found
  refine ⟨w, w', answer, firstTest, ⟨claimRequests, ran⟩, deleted, ?_, by rw [found]; exact congrArg some hosts⟩
  exact exactly.mpr ⟨by decide, parented, fun host => by simp [kind] at host⟩

/-- A host that a test has claimed is still the test's after it was deleted. -/
theorem delete_incomplete : ∃ w w' objectPath, Reachable w ∧
    containerUnwrap w.objects objectPath = some 1 ∧ delete objectPath w = .ok (w', .done) ∧
    ¬ Gone w w' 1 := by
  obtain ⟨w, ran, view⟩ := Machine.run_view step World.initial claimRequests
    (fun w => (containerUnwrap w.objects firstHost, (delete firstHost w).toOption.map fun result =>
      (result.2, (result.1.graph ∅).slot globalContext .testcase, (result.1.graph ∅).slot 2 .host)))
    (some 1, some (.done, [2], [1])) (by decide +kernel)
  obtain ⟨unwrapped, view⟩ := Prod.mk.inj view
  cases deleted : delete firstHost w with
  | error fault =>
    rw [deleted] at view
    cases view
  | ok result =>
    obtain ⟨w', answer⟩ := result
    rw [deleted] at view
    obtain ⟨rfl, same⟩ := Prod.mk.inj (Option.some.inj view)
    obtain ⟨tests, hosts⟩ := Prod.mk.inj same
    refine ⟨w, w', firstHost, ⟨claimRequests, ran⟩, unwrapped, deleted, fun gone => ?_⟩
    have test : (w'.graph ∅).Edge globalContext 2 := ⟨.testcase, by simp [tests]⟩
    have host : (w'.graph ∅).Edge 2 1 := ⟨.host, by simp [hosts]⟩
    exact (gone.unreachable 1 ((Relation.ReflTransGen.single test).tail host)).1 Relation.ReflTransGen.refl

end Delete

end Testbus.Server
