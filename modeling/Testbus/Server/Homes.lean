import Testbus.Server.Deletion

namespace Testbus.Server

open Lib

/-- The array of that kind is where its elements live. -/
def Home (p : Addr) (k : Kind) : Prop := k = .host → p = globalContext

/-- Containers live with their parents. -/
structure Homed (w : World) : Prop where
  lives : ∀ c self, w.heap.cells c = some self → c ≠ globalContext →
    ∃ p above, self.parent = some p ∧ w.heap.cells p = some above ∧ Home p self.kind ∧
      c ∈ (above.children self.kind).data
  member : ∀ p above k, w.heap.cells p = some above → Home p k →
    ∀ c ∈ (above.children k).data, ∃ self, w.heap.cells c = some self ∧ self.parent = some p

/-- The request destroys a container that has claimed hosts, or takes a host that others refer
to out of the list of all hosts. -/
def Evicts (w : World) : Request → Prop
  | .removeHost name => ∃ h host, containerGetHostByName globalContext name w = .ok (some h) ∧
      w.heap.cells h = some host ∧ host.refcount ≠ 1
  | .delete objectPath => ∃ c self, containerUnwrap w.objects objectPath = some c ∧
      c ≠ globalContext ∧ w.heap.cells c = some self ∧
      (self.kind = .host ∧ self.refcount ≠ 1 ∨ ∃ x above, (w.graph ∅).Reach c x ∧
        w.heap.cells x = some above ∧ (above.children .host).data ≠ [])
  | _ => False

/-- Every host has its parent. -/
def Hosted (w : World) : Prop :=
  ∀ h host, w.heap.cells h = some host → host.kind = .host → host.parent = some globalContext

section Steps

variable {host : Container}

theorem hosted_graph : Hosted w ↔ ∀ h, (w.graph ∅).kind h = some .host → (w.graph ∅).parent h = some globalContext := by
  constructor
  · intro hosted h kind
    obtain ⟨host, found, kind⟩ := found_of_kind kind
    rw [parent_graph found]
    exact hosted h host found kind
  · intro hosted h host found kind
    have parent : (w.graph ∅).parent h = host.parent := parent_graph found
    rw [← parent]
    exact hosted h ((kind_graph found).trans (congrArg some kind))

theorem Hosted.shrink (hosted : Hosted w) (shrink : w.Shrink ∅ loose given w')
    (outside : ∀ h host, w'.heap.cells h = some host → host.kind = .host → (h, .host) ∉ given) : Hosted w' := by
  intro h new found kind
  obtain ⟨old, found', kept⟩ := shrink.kept found
  rw [kept.parent (outside h new found kind) kind]
  exact hosted h old found' (kept.less.kind ▸ kind)

theorem Hosted.served (hosted : Hosted w) (steady : Steady w) (guarded : ¬ Evicts w request)
    (served : Served w request w') : Hosted w' := by
  cases served with
  | alike alike =>
    rw [hosted_graph, alike.graph, ← hosted_graph]
    exact hosted
  | @created _ w₁ _ p above new self parentPath path _ target fresh inserted wrapped place alike =>
    rw [hosted_graph] at hosted ⊢
    rw [(graph_created steady fresh inserted alike).1]
    intro h kind
    by_cases here : h = w.next
    · subst here
      have host : new.kind = .host := by simpa [Graph.add] using kind
      simp [Graph.add, fresh.home host]
    · simp only [Graph.add, Function.update_of_ne here] at kind ⊢
      exact hosted h kind
  | claimed claims there apart settled =>
    rw [hosted_graph, graph_claim apart claims.found there]
    exact hosted_graph.mp hosted
  | @removed name _ h host looked found kind removed =>
    have one : host.refcount = 1 := by
      by_contra more
      exact guarded ⟨h, host, looked, found, more⟩
    refine hosted.shrink removed.shrink fun x new there kindX inside => ?_
    have before : (w.graph ∅).kind x = some .host := (removed.shrink.kind_live there).trans (congrArg some kindX)
    have other : x ≠ h := by
      rintro rfl
      rw [removed.gone host found one] at there
      cases there
    rcases inside with top | reach
    · have top : x = globalContext := congrArg Prod.fst top
      exact steady.settled.wf.not_root before (by decide) top
    · rcases steady.settled.below_host ((kind_graph found).trans (congrArg some kind)) reach with
        same | command | process
      · exact other same
      · rw [show (w.graph ∅).kind x = _ from command] at before
        cases before
      · rw [show (w.graph ∅).kind x = _ from process] at before
        cases before
  | @deleted objectPath _ c self unwrapped found apart parented deleted =>
    refine hosted.shrink deleted.shrink fun x new there kindX inside => ?_
    have before : (w.graph ∅).kind x = some .host := (deleted.shrink.kind_live there).trans (congrArg some kindX)
    have alone : self.kind = .host → self.refcount = 1 := by
      intro kind
      by_contra more
      exact guarded ⟨c, self, unwrapped, apart, found, Or.inl ⟨kind, more⟩⟩
    have other : x ≠ c := by
      rintro rfl
      rw [deleted.dead steady.settled found apart parented alone] at there
      cases there
    rcases inside with reach | ⟨parent, kind, _⟩
    · obtain ⟨y, k, way, member⟩ := Graph.reach_listed reach other
      have kindK := (steady.settled.wf.entry member).1
      rw [show (w.graph ∅).kind x = _ from before] at kindK
      obtain rfl := Option.some.inj kindK
      obtain ⟨_, above, kindY, _⟩ := steady.settled.wf.entry member
      obtain ⟨selfY, foundY, _⟩ := found_of_kind kindY
      rw [slot_graph foundY] at member
      exact guarded ⟨c, self, unwrapped, apart, found, Or.inr ⟨y, selfY, way, foundY, List.ne_nil_of_mem member⟩⟩
    · obtain ⟨l, kindC, home, _⟩ := steady.settled.wf.listed parent
      rw [show (w.graph ∅).kind c = some .host from kind] at kindC
      have top : x = globalContext := home (Option.some.inj kindC).symm
      exact steady.settled.wf.not_root before (by decide) top

theorem Hosted.homed (hosted : Hosted w) (settled : Settled w) : Homed w where
  lives c self found other := by
    by_cases kind : self.kind = .host
    · have parent := hosted c self found kind
      obtain ⟨k, kind', listed⟩ := settled.parent_listed (c := c) (p := globalContext)
        (by rw [parent_graph found, parent])
      rw [kind_graph found] at kind'
      obtain rfl := Option.some.inj kind'
      obtain ⟨root, foundRoot, _⟩ := settled.root
      rw [slot_graph foundRoot] at listed
      exact ⟨globalContext, root, parent, foundRoot, fun _ => rfl, listed⟩
    · obtain ⟨p, parent, listed⟩ := settled.parented found other kind
      obtain ⟨_, _, kindP, _⟩ := settled.wf.entry listed
      obtain ⟨above, foundP, _⟩ := found_of_kind kindP
      rw [slot_graph foundP] at listed
      exact ⟨p, above, parent, foundP, fun host => absurd host kind, listed⟩
  member p above k foundP home c member := by
    have listed : c ∈ (w.graph ∅).slot p k := by rwa [slot_graph foundP]
    obtain ⟨self, found, kind⟩ := settled.live_slot listed
    refine ⟨self, found, ?_⟩
    by_cases host : k = .host
    · rw [home host]
      exact hosted c self found (kind.trans host)
    · have parent := settled.wf.home listed host
      rwa [parent_graph found] at parent

end Steps

/-- As long as no request evicts a host that stays, everything lives with its parent. -/
theorem containers_homed {w : World} {requests : List Request}
    (guarded : Machine.Along step (fun w request => ¬ Evicts w request) World.initial requests)
    (ran : Machine.run step World.initial requests = .ok w) : Homed w := by
  have kept : Steady w ∧ Hosted w := by
    refine Machine.invariant_run (fun w => Steady w ∧ Hosted w) ?_ ⟨Steady.initial, ?_⟩ guarded ran
    · intro w request w' before guard moved
      have served := step_served before.1 moved
      exact ⟨served.steady before.1, before.2.served before.1 guard served⟩
    · intro h host found kind
      obtain ⟨_, rfl⟩ := initial_cell found
      cases kind
  exact kept.2.homed kept.1.settled

/-- A check that a request takes no claimed host away. -/
def keepsHosts (w : World) : Request → Bool
  | .removeHost name => match containerGetHostByName globalContext name w with
    | .ok (some h) => (w.heap.cells h).all fun host => host.refcount = 1
    | _ => true
  | .delete _ => false
  | _ => true

theorem containers_homed_claimed : ∃ w, Homed w ∧
    ((w.heap.cells 1).map Container.refcount, (w.heap.cells 2).isSome) = (some 2, false) := by
  let requests : List Request :=
    [.nameOwnerChanged (ascii ['a']) (ascii ['a']), .createHost (ascii ['h']) (ascii ['a']) 0,
      .createHost (ascii ['i']) (ascii ['a']) 0, .createTest globalContextPath (ascii ['t']),
      .addHost firstTest (ascii ['r']) firstHost, .removeHost (ascii ['i'])]
  obtain ⟨w, ran, cells⟩ := Machine.run_view step World.initial requests
    (fun w => ((w.heap.cells 1).map Container.refcount, (w.heap.cells 2).isSome)) (some 2, false)
    (by decide +kernel)
  have sound : ∀ w request, keepsHosts w request = true → ¬ Evicts w request := by
    intro w request checked evicts
    cases request with
    | removeHost name =>
      obtain ⟨h, host, looked, found, more⟩ := evicts
      simp [keepsHosts, looked, found, more] at checked
    | delete objectPath => cases checked
    | _ => exact evicts
  have checked : Machine.checkAlong step keepsHosts World.initial requests = true := by decide +kernel
  exact ⟨w, containers_homed (Machine.along_check sound checked) ran, cells⟩

/-- A host that was claimed has no parent any more when the test that claimed it is gone. -/
theorem containers_not_homed : ∃ w, Reachable w ∧ ¬ Homed w := by
  obtain ⟨w, ran, cell⟩ := Machine.run_view step World.initial (claimRequests ++ [.delete firstTest])
    (fun w => (w.heap.cells 1).map Container.parent) (some none) (by decide +kernel)
  obtain ⟨host, found, orphan⟩ := Option.map_eq_some_iff.mp cell
  refine ⟨w, ⟨_, ran⟩, fun homed => ?_⟩
  obtain ⟨p, _, parent, _⟩ := homed.lives 1 host found (by decide)
  rw [orphan] at parent
  cases parent

end Testbus.Server
