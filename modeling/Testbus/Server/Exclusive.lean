import Testbus.Server.Answering

namespace Testbus.Server

open Lib

/-- Every host is claimed by one container at most, and listed there. -/
structure Exclusive (w : World) : Prop where
  claimant : ∀ h p q above beside, p ≠ globalContext → q ≠ globalContext →
    w.heap.cells p = some above → w.heap.cells q = some beside →
    h ∈ (above.children .host).data → h ∈ (beside.children .host).data → p = q
  listed : ∀ h host, w.heap.cells h = some host → host.kind = .host → host.role ≠ none →
    ∃ p above, host.owner = some p ∧ w.heap.cells p = some above ∧
      (above.children .host).data.count h = 1
  once : ∀ p above, w.heap.cells p = some above → (above.children .host).data.Nodup

/-- The request has the global context claim a host. -/
def ClaimsGlobally (w : World) (request : Request) : Prop :=
  ∃ objectPath role hostPath h host, request = .addHost objectPath role hostPath ∧
    Claims w objectPath role hostPath h globalContext host

/-- The global context has claimed no host. -/
structure Unclaimed (G : Graph) : Prop where
  free : ∀ h, G.kind h = some .host → G.owner h ≠ some globalContext
  once : (G.slot globalContext .host).Nodup

section Steps

variable {w w' : World}

theorem Unclaimed.shrink (unclaimed : Unclaimed (w.graph ∅)) (shrink : w.Shrink ∅ loose given w') : Unclaimed (w'.graph ∅) where
  free h kind owner := unclaimed.free h (shrink.kind kind) (shrink.owner owner)
  once := (shrink.slot globalContext .host).nodup unclaimed.once

theorem Unclaimed.add (unclaimed : Unclaimed G) (wf : G.Wf next ∅ 0) (links : G.Links p owner command k) :
    Unclaimed (G.add next k p owner command) where
  free h kind := by
    by_cases new : h = next
    · subst new
      have host : k = .host := by simpa [Graph.add] using kind
      subst host
      simp [Graph.add, links.1]
    · simp only [Graph.add, Function.update_of_ne new] at kind ⊢
      exact unclaimed.free h kind
  once := by
    change ((G.setSlot p k (G.slot p k ++ [next])).slot globalContext .host).Nodup
    rw [Graph.slot_setSlot]
    split
    · rename_i here
      obtain ⟨rfl, rfl⟩ := here
      refine List.nodup_append.mpr ⟨unclaimed.once, List.nodup_singleton _, ?_⟩
      rintro x member y same rfl
      obtain rfl := List.mem_singleton.mp same
      exact absurd (wf.bound (wf.entry member).1) (lt_irrefl _)
    · exact unclaimed.once

theorem Unclaimed.claim (unclaimed : Unclaimed G) (other : p ≠ globalContext) : Unclaimed (G.claim h p role) where
  free x kind := by
    by_cases here : x = h
    · subst here
      simpa [Graph.claim] using other
    · simp only [Graph.claim, Function.update_of_ne here]
      exact unclaimed.free x kind
  once := by
    change ((G.setSlot p .host (G.slot p .host ++ [h])).slot globalContext .host).Nodup
    rw [Graph.slot_setSlot, if_neg fun same => other same.1.symm]
    exact unclaimed.once

theorem Unclaimed.served (unclaimed : Unclaimed (w.graph ∅)) (steady : Steady w)
    (guarded : ¬ ClaimsGlobally w request) (served : Served w request w') : Unclaimed (w'.graph ∅) := by
  cases served with
  | alike alike => exact alike.graph ∅ ▸ unclaimed
  | created _ target fresh inserted wrapped place alike =>
    have links := fresh.links
    rw [graph_take] at links
    rw [(graph_created steady fresh inserted alike).1]
    exact unclaimed.add steady.settled.wf links
  | @claimed objectPath role hostPath h p host above claims there apart settled =>
    rw [graph_claim apart claims.found there]
    refine unclaimed.claim fun top => guarded ?_
    subst top
    exact ⟨objectPath, role, hostPath, h, host, rfl, claims⟩
  | removed looked found kind removed => exact unclaimed.shrink removed.shrink
  | deleted unwrapped found apart parented deleted => exact unclaimed.shrink deleted.shrink

theorem Unclaimed.exclusive (unclaimed : Unclaimed (w.graph ∅)) (settled : Settled w) : Exclusive w where
  claimant h p q above beside notRoot notRoot' foundP foundQ here there := by
    have owner : ∀ {x self}, x ≠ globalContext → w.heap.cells x = some self →
        h ∈ (self.children .host).data → (w.graph ∅).owner h = some x := by
      intro x self other found member
      have listed : h ∈ (w.graph ∅).slot x .host := by rwa [slot_graph found]
      exact (settled.wf.claimed listed other).resolve_right (Finset.notMem_empty x)
    exact Option.some.inj ((owner notRoot foundP here).symm.trans (owner notRoot' foundQ there))
  listed h host found kind role := by
    obtain ⟨_, owned⟩ := settled.wf.role (c := h) (by rwa [role_graph found])
    obtain ⟨p, owner⟩ := Option.ne_none_iff_exists'.mp (owned.resolve_right (Finset.notMem_empty h))
    rw [owner_graph found] at owner
    have member := settled.claimed_listed found kind owner
    obtain ⟨_, _, kindP, _⟩ := settled.wf.entry member
    obtain ⟨above, foundP, _⟩ := found_of_kind kindP
    have other : p ≠ globalContext := by
      rintro rfl
      exact unclaimed.free h ((kind_graph found).trans (congrArg some kind)) ((owner_graph found).trans owner)
    have nodup := settled.wf.nodup (p := p) (k := .host) (Or.inr other)
    rw [slot_graph foundP] at member nodup
    exact ⟨p, above, owner, foundP, List.count_eq_one_of_mem nodup member⟩
  once p above found := by
    have slot : (w.graph ∅).slot p .host = (above.children .host).data := slot_graph found .host
    rw [← slot]
    by_cases top : p = globalContext
    · exact top ▸ unclaimed.once
    · exact settled.wf.nodup (Or.inr top)

end Steps

theorem unclaimed_initial : Unclaimed (World.initial.graph ∅) where
  free h _ owner := by
    rw [(initial_silent h).2.2.1] at owner
    cases owner
  once := by
    rw [(initial_silent globalContext).1]
    exact List.nodup_nil

/-- As long as the global context claims no host, every host has one claimant at most. -/
theorem hosts_exclusive {w : World} {requests : List Request}
    (guarded : Machine.Along step (fun w request => ¬ ClaimsGlobally w request) World.initial requests)
    (ran : Machine.run step World.initial requests = .ok w) : Exclusive w := by
  have kept : Steady w ∧ Unclaimed (w.graph ∅) := by
    refine Machine.invariant_run (fun w => Steady w ∧ Unclaimed (w.graph ∅)) ?_
      ⟨Steady.initial, unclaimed_initial⟩ guarded ran
    intro w request w' before guard moved
    have served := step_served before.1 moved
    exact ⟨served.steady before.1, before.2.served before.1 guard served⟩
  exact kept.2.exclusive kept.1.settled

theorem hosts_exclusive_claimed : ∃ w, Exclusive w ∧ ((w.heap.cells 1).bind Container.owner,
    (w.heap.cells 1).map fun host => host.role.isSome) = (some 2, some true) := by
  obtain ⟨w, ran, cell⟩ := Machine.run_view step World.initial claimRequests
    (fun w => ((w.heap.cells 1).bind Container.owner,
      (w.heap.cells 1).map fun host => host.role.isSome)) (some 2, some true) (by decide +kernel)
  have guarded : Machine.Along step (fun w request => ¬ ClaimsGlobally w request) World.initial
      claimRequests := by
    let check (w : World) : Request → Bool
      | .addHost path _ _ => containerUnwrap w.objects path ≠ some globalContext
      | _ => true
    have sound : ∀ w request, check w request = true → ¬ ClaimsGlobally w request := by
      rintro w request checked ⟨objectPath, role, hostPath, h, host, rfl, claims⟩
      simp [check, claims.unwrapped] at checked
    have checked : Machine.checkAlong step check World.initial claimRequests = true := by decide +kernel
    exact Machine.along_check sound checked
  exact ⟨w, hosts_exclusive guarded ran, cell⟩

/-- The global context claims a host that its list has already. -/
theorem hosts_not_exclusive : ∃ w, Reachable w ∧ ¬ Exclusive w := by
  obtain ⟨w, ran, cell⟩ := Machine.run_view step World.initial [.nameOwnerChanged (ascii ['a']) (ascii ['a']),
      .createHost (ascii ['h']) (ascii ['a']) 0,
      .addHost globalContextPath (ascii ['r']) firstHost]
    (fun w => (w.heap.cells globalContext).map fun root => (root.children .host).data)
    (some [1, 1]) (by decide +kernel)
  obtain ⟨root, found, twice⟩ := Option.map_eq_some_iff.mp cell
  refine ⟨w, ⟨_, ran⟩, fun exclusive => ?_⟩
  have nodup := exclusive.once globalContext root found
  rw [twice] at nodup
  exact absurd nodup (by decide)

end Testbus.Server
