import Testbus.Server.Creation

namespace Testbus.Server

open Lib

section Claim

variable {w : World} {host above : Container} {role : CString}

/-- A container has claimed a host. -/
def World.claim (w : World) (h p : Addr) (role : CString) (above : Container) : World :=
  (w.modify h fun self =>
    { self with role := some role, owner := some p, refcount := self.refcount + 1 }).modify p
    (Container.setData .host ((above.children .host).data ++ [h]))

theorem claim_host (apart : p ≠ h) (found : w.heap.cells h = some host) :
    (w.claim h p role above).heap.cells h = some
      { host with role := some role, owner := some p, refcount := host.refcount + 1 } := by
  rw [World.claim, World.cells_modify_heap, Store.modify_of_ne (Ne.symm apart),
    World.cells_modify_heap, Store.modify_self, found]
  rfl

theorem claim_above (apart : p ≠ h) (found : w.heap.cells p = some above) :
    (w.claim h p role above).heap.cells p = some
      (Container.setData .host ((above.children .host).data ++ [h]) above) := by
  rw [World.claim, World.cells_modify_heap, Store.modify_self, World.cells_modify_heap, Store.modify_of_ne apart, found]
  rfl

theorem claim_other (noHost : x ≠ h) (other : x ≠ p) : (w.claim h p role above).heap.cells x = w.heap.cells x := by
  rw [World.claim, World.cells_modify_heap, Store.modify_of_ne other, World.cells_modify_heap, Store.modify_of_ne noHost]

theorem graph_claim (apart : p ≠ h) (found : w.heap.cells h = some host) (there : w.heap.cells p = some above) :
    (w.claim h p role above).graph ∅ = (w.graph ∅).claim h p role := by
  have atHost : (w.claim h p role above).heap.cells h = _ := claim_host apart found
  have atAbove : (w.claim h p role above).heap.cells p = _ := claim_above apart there
  apply Graph.ext <;> funext x
  case slot =>
    funext k
    simp only [Graph.claim, Graph.slot_setSlot]
    by_cases here : x = h
    · subst here
      rw [slot_graph atHost, slot_graph found, if_neg fun same => apart same.1.symm]
    · by_cases under : x = p
      · subst under
        rw [slot_graph atAbove, slot_graph there, slot_graph there]
        by_cases same : k = .host
        · subst same
          simp [Container.setData, Container.setChildren]
        · simp [Container.setData, Container.setChildren, same]
      · rw [if_neg fun same => under same.1]
        simp [World.graph, claim_other here under]
  all_goals
    simp only [World.graph, Graph.claim]
    by_cases here : x = h
    · subst here
      simp [atHost, found]
    · by_cases under : x = p
      · subst under
        simp [atAbove, there, here, Container.setData, Container.setChildren]
      · simp [claim_other here under, here]

theorem claim_ok (settled : Settled w) (role : CString) (found : w.heap.cells h = some host)
    (kind : host.kind = .host) (roleless : host.role = none) (free : host.owner = none)
    (there : w.heap.cells p = some above) (has : above.kind.has .host = true) :
    (∃ w₁, hostSetRole h (some role) (some p) w = .ok (true, w₁) ∧
      arrayAppend .host p h w₁ = .ok (w.claim h p role above)) ∧ Settled (w.claim h p role above) := by
  have apart : p ≠ h := by
    rintro rfl
    obtain rfl := Option.some.inj (found.symm.trans there)
    simp [kind, Kind.has] at has
  have positive := settled.counted.positive h host found
  let w₁ := w.modify h fun self => { self with role := some role, owner := some p }
  have at₁ : w₁.heap.cells h = some { host with role := some role, owner := some p } := by
    simp [w₁, found]
  refine ⟨⟨w₁, ?_, ?_⟩, ?_⟩
  · refine bind_ok.mpr ⟨host, World.deref_ok.mpr found, ?_⟩
    dsimp only
    rw [if_neg (by simp [roleless])]
  · have got : containerGet h w₁ = .ok (w.modify h fun self =>
        { self with role := some role, owner := some p, refcount := self.refcount + 1 }) := by
      refine bind_ok.mpr ⟨_, World.deref_ok.mpr at₁, ?_⟩
      rw [if_neg (by change ¬ host.refcount = 0; omega)]
      simp only [w₁, World.modify, Store.modify_modify]
      rfl
    refine bind_ok.mpr ⟨_, got, bind_ok.mpr ⟨above, ?_, rfl⟩⟩
    rw [World.deref_ok, World.cells_modify_heap, Store.modify_of_ne apart, there]
  · constructor
    · have there' : (w.modify h fun self => { self with
          role := some role, owner := some p, refcount := self.refcount + 1 }).heap.cells p =
          some above := by
        rw [World.cells_modify_heap, Store.modify_of_ne apart, there]
      refine (settled.counted.take found (fun self => { self with
        role := some role, owner := some p, refcount := self.refcount + 1 }) rfl rfl).move there' _
        rfl ?_
      have moved := outRefs_setChildren (k := .host) (by decide) ∅ p above
        { above.children .host with data := (above.children .host).data ++ [h] }
      ext x
      have count := congrArg (Multiset.count x) moved
      simp only [Multiset.count_add, Multiset.count_cons, Multiset.coe_count, List.count_append,
        List.count_singleton, beq_iff_eq, Multiset.count_zero, Container.setData] at count ⊢
      by_cases same : x = h
      · subst same
        simp only [if_true] at count ⊢
        omega
      · simp only [same, Ne.symm same, if_false] at count ⊢
        omega
    · rw [graph_claim apart found there]
      refine settled.wf.claim settled.homes (kind_graph there) has
        ((kind_graph found).trans (congrArg some kind)) fun q other member => ?_
      rcases settled.wf.claimed member other with owner | begun
      · rw [owner_graph found, free] at owner
        cases owner
      · exact absurd begun (Finset.notMem_empty q)
    · have first : Registered (w.modify h fun self => { self with
          role := some role, owner := some p, refcount := self.refcount + 1 }) :=
        settled.registered.modify (fun _ => rfl) fun _ _ parent => parent
      exact first.modify (fun _ => rfl) fun _ _ parent => parent
    · exact fun member => absurd member (Finset.notMem_empty _)

end Claim

section Remove

variable {root host : Container}

theorem World.depth_rank (w : World) (c : Addr) : w.rank c < w.depth := by
  have rank := w.rank_le c
  unfold World.depth World.links at *
  omega

/-- A host was removed from the list of all hosts. -/
structure Removed (w w' : World) (h : Addr) : Prop where
  settled : Settled w'
  shrink : w.Shrink ∅ ∅ (insert (globalContext, .host) (w.below h)) w'
  left : (w'.graph ∅).slot globalContext .host = ((w.graph ∅).slot globalContext .host).erase h
  gone : ∀ host, w.heap.cells h = some host → host.refcount = 1 → w'.heap.cells h = none

theorem removeHost_ok (settled : Settled w) (foundRoot : w.heap.cells globalContext = some root)
    (member : h ∈ (root.children .host).data) :
    ∃ w', hostArrayRemove put globalContext h w = .ok (true, w') ∧ Removed w w' h := by
  have inside : h ∈ (w.graph ∅).slot globalContext .host := by rwa [slot_graph foundRoot]
  obtain ⟨host, found, kind⟩ := settled.live_slot inside
  have apart : h ≠ globalContext := settled.wf.not_root (settled.wf.entry inside).1 (by decide)
  let w₁ := w.modify globalContext (Container.setData .host ((root.children .host).data.erase h))
  let w₂ := w₁.modify h fun self => { self with parent := none }
  have root₁ : w₁.heap.cells globalContext =
      some (Container.setData .host ((root.children .host).data.erase h) root) := by
    simp [w₁, foundRoot]
  have found₁ : w₁.heap.cells h = some host := by
    rw [World.cells_modify_heap, Store.modify_of_ne apart, found]
  have found₂ : w₂.heap.cells h = some { host with parent := none } := by
    rw [World.cells_modify_heap, Store.modify_self, found₁]
    rfl
  have orphan : (if host.parent = some globalContext then w₂ else w₁) = w₂ := by
    split
    · rfl
    · rename_i other
      refine (World.modify_same found₁ ?_).symm
      cases parent : host.parent with
      | none => rw [← parent]
      | some p =>
        obtain ⟨k, kind', home, _⟩ := settled.wf.listed (c := h) (p := p) (by rw [parent_graph found, parent])
        rw [kind_graph found, kind] at kind'
        exact absurd (home (Option.some.inj kind').symm ▸ parent) other
  have graph₂ : w₂.graph ∅ = ((w.graph ∅).setSlot globalContext .host
      (((w.graph ∅).slot globalContext .host).erase h)).setParent h none := by
    rw [graph_clearParent, graph_setData (by simp [foundRoot]), slot_graph foundRoot]
  have ok₂ : Ok w₂ (h ::ₘ 0) 0 ∅ := by
    constructor
    · have moved : Counted (Container.outRefs ∅) Container.refcount w₁.heap
          (h ::ₘ globalContext ::ₘ (0 + 0)) := settled.counted.move foundRoot _ rfl (by
            rw [← outRefs_erase (k := .host) (by decide) ∅ globalContext member, Multiset.cons_add, Multiset.add_cons])
      rw [Multiset.cons_swap] at moved
      exact moved.keep h (fun self => { self with parent := none }) (fun _ => rfl) fun _ => rfl
    · rw [graph₂]
      exact settled.wf.removeHost inside
    · have first : Registered w₁ := settled.registered.modify (fun _ => rfl) fun _ _ parent => parent
      exact first.modify (fun _ => rfl) fun _ _ => nofun
    · exact fun begun => absurd begun (Finset.notMem_empty _)
  have shrink₂ : w.Shrink ∅ ∅ (insert (globalContext, .host) (w.below h)) w₂ := by
    have unlisted : w.Shrink ∅ ∅ (insert (globalContext, .host) (w.below h)) w₁ := by
      refine World.Shrink.modify fun self at_ => ?_
      obtain rfl := Option.some.inj (foundRoot.symm.trans at_)
      exact kept_setData _ List.erase_sublist fun _ => Set.mem_insert _ _
    refine unlisted.trans (World.Shrink.modify fun self _ => kept_clearParent self ?_)
    exact Set.mem_insert_of_mem _ Relation.ReflTransGen.refl
  have below₂ : w₂.below h ⊆ insert (globalContext, .host) (w.below h) := (shrink₂.below h).trans (Set.subset_insert _ _)
  have above : (globalContext, Kind.host) ∉ w₂.below h := fun reach =>
    settled.wf.acyclic inside (shrink₂.reach reach)
  have settle : ∀ {w'}, Settled w' → w₂.Shrink ∅ ∅ (w₂.below h) w' →
      (host.refcount = 1 → w'.heap.cells h = none) → Removed w w' h := by
    intro w' settled' shrink gone
    refine ⟨settled', shrink₂.trans (shrink.mono (Finset.Subset.refl _) (Set.Subset.refl _) below₂), ?_, ?_⟩
    · obtain ⟨last, foundLast, _⟩ := settled'.root
      obtain ⟨before, foundBefore, kept⟩ := shrink.kept foundLast
      have slot : (w₂.graph ∅).slot globalContext .host = ((w.graph ∅).slot globalContext .host).erase h := by
        rw [graph₂]
        simp [Graph.setParent, Graph.setSlot]
      rw [slot_graph foundBefore] at slot
      rw [slot_graph foundLast, kept.lists .host (Or.inl rfl) above, slot]
    · intro other there one
      obtain rfl := Option.some.inj (found.symm.trans there)
      exact gone one
  have ran : ∀ {w'}, put h w₂ = .ok w' → hostArrayRemove put globalContext h w = .ok (true, w') := by
    intro w' putted
    refine bind_ok.mpr ⟨root, World.deref_ok.mpr foundRoot, ?_⟩
    rw [if_pos member]
    refine bind_ok.mpr ⟨host, World.deref_ok.mpr found, ?_⟩
    exact bind_ok.mpr ⟨w', (congrArg (put h) orphan).trans putted, rfl⟩
  by_cases many : 1 < host.refcount
  · obtain ⟨w', putted, ok', shrink, _⟩ := put_many ok₂ found₂ many
      (fun begun => absurd begun (Finset.notMem_empty _)) (containerDestroy w₂.depth)
    refine ⟨w', ran putted, settle ok' (shrink.mono (Finset.Subset.refl _) (Set.Subset.refl _)
      (Set.empty_subset _)) fun one => ?_⟩
    omega
  · obtain ⟨w', putted, ok', shrink, freed⟩ := put_last (containerDestroy_ok w₂.depth) ok₂ found₂
      (not_lt.mp many) apart (fun begun => absurd begun (Finset.notMem_empty _)) (w₂.depth_rank h)
    exact ⟨w', ran putted, settle ok' shrink fun _ => freed⟩

end Remove

/-- A container was destroyed. -/
structure Deleted (w w' : World) (c : Addr) : Prop where
  settled : Settled w'
  shrink : w.Shrink ∅ {c} (w.around c) w'
  left : (w.graph ∅).parent c = some globalContext → c ∈ (w.graph ∅).slot globalContext .host →
    (w'.graph ∅).slot globalContext .host = ((w.graph ∅).slot globalContext .host).erase c
  orphan : (w'.graph ∅).parent c = none
  nameless : ∀ self, w'.heap.cells c = some self → self.dbusObjectPath = none

theorem delete_ok (settled : Settled w) (found : w.heap.cells c = some self) (apart : c ≠ globalContext) :
    ∃ w₁ w₂ w', containerGet c w = .ok w₁ ∧ destroy c w₁ = .ok w₂ ∧ put c w₂ = .ok w' ∧ Deleted w w' c := by
  obtain ⟨got, ok₁⟩ := settled.get found
  let w₁ := w.modify c fun self => { self with refcount := self.refcount + 1 }
  have graph₁ : w₁.graph ∅ = w.graph ∅ := graph_quiet (by intro; rfl) ∅
  have shrink₁ : w.Shrink ∅ {c} (w.around c) w₁ := World.Shrink.modify fun self _ => kept_refcount self _
  obtain ⟨w₂, destroyed, done⟩ := containerDestroy_ok w₁.depth
    (ok₁.entry (Multiset.mem_cons_self c 0) apart (Finset.notMem_empty c)) (w₁.depth_rank c)
  have shrink₂ := shrink₁.trans (done.shrink.mono (Finset.Subset.refl _) (Set.Subset.refl _) (shrink₁.around c))
  obtain ⟨self₂, found₂⟩ := done.ok.live (Multiset.mem_cons_self c 0)
  -- Nothing is below the container any more.
  have alone : ∀ {x}, (w₂.graph ∅).Reach c x → x = c := by
    intro x reach
    by_contra other
    obtain ⟨y, ⟨k, member⟩, _⟩ := (Relation.ReflTransGen.cases_head reach).resolve_left (Ne.symm other)
    rw [done.bare.slot k] at member
    cases member
  have settle : ∀ {w'}, Settled w' → w₂.Shrink ∅ ∅ (w₂.below c) w' → Deleted w w' c := by
    intro w' settled' shrink
    refine ⟨settled', shrink₂.trans (shrink.mono (Finset.Subset.refl _) (Set.empty_subset _) ?_),
      ?_, shrink.orphan (E := ∅) done.bare.parent, ?_⟩
    · intro x reach
      obtain rfl : x.1 = c := alone reach
      exact w.mem_around x.1 x.2
    · intro parent member
      obtain ⟨last, foundLast, _⟩ := settled'.root
      obtain ⟨before, foundBefore, kept⟩ := shrink.kept foundLast
      have slot := done.left (by rw [graph₁, parent]) (by rw [graph₁]; exact member)
      rw [graph₁, slot_graph foundBefore] at slot
      rw [slot_graph foundLast, kept.lists .host (Or.inl rfl) (fun reach => apart (alone reach).symm), slot]
    · intro last foundLast
      obtain ⟨before, foundBefore, kept⟩ := shrink.kept foundLast
      have none_ := done.nameless before foundBefore
      cases path : last.dbusObjectPath with
      | none => rfl
      | some q =>
        have was := kept.less.path path
        simp [none_] at was
  obtain ⟨w', putted, ok', shrink⟩ := put_ok (containerDestroy_ok w₂.depth) done.ok apart
    (fun begun => absurd begun (Finset.notMem_empty _)) fun _ => w₂.depth_rank c
  exact ⟨_, w₂, w', got, destroyed, putted, settle ok' shrink⟩

end Testbus.Server
