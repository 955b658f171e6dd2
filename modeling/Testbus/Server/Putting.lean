import Testbus.Server.Leaving

namespace Testbus.Server

open Lib

/-- The destruction of a process destroys a command with it, but without a link less. -/
def World.rank (w : World) (c : Addr) : Nat :=
  2 * w.links + if (w.heap.cells c).map Container.kind = some .process then 1 else 0

/-- What there is after a container was destroyed. -/
structure Destroyed (w w' : World) (held parked : Multiset Addr) (exempt : Finset Addr) (c : Addr) :
    Prop where
  ok : Ok w' held parked exempt
  shrink : w.Shrink exempt {c} (w.around c) w'
  /-- A host has left the array that it lived in, and nothing else has. -/
  left : (w.graph exempt).parent c = some globalContext →
    c ∈ (w.graph exempt).slot globalContext .host →
    (w'.graph exempt).slot globalContext .host =
      ((w.graph exempt).slot globalContext .host).erase c
  bare : (w'.graph exempt).Bare c
  nameless : ∀ self, w'.heap.cells c = some self → self.dbusObjectPath = none
  free : ∀ y, (w'.graph exempt).Reach globalContext y → (w'.graph exempt).owner y ≠ some c

def Destroys (destroy : Action) (bound : Nat) : Prop :=
  ∀ {w held parked exempt c}, Entry w held parked exempt c → w.rank c < bound →
    ∃ w', destroy c w = .ok w' ∧ Destroyed w w' held parked exempt c

def World.below (w : World) (c : Addr) : Set (Addr × Kind) := { x | (w.graph ∅).Reach c x.1 }

section Leaves

variable {G : Graph} {next : Addr}

/-- Commands and processes have no children. -/
theorem Graph.Wf.leaf (wf : G.Wf next exempt parked)
    (kind : G.kind c = some .command ∨ G.kind c = some .process) (k : Kind) : G.slot c k = [] := by
  refine List.eq_nil_iff_forall_not_mem.mpr fun x member => ?_
  obtain ⟨_, above, kind', has⟩ := wf.entry member
  rcases kind with command | process
  · rw [command] at kind'
    obtain rfl := Option.some.inj kind'
    simp [Kind.has] at has
  · rw [process] at kind'
    obtain rfl := Option.some.inj kind'
    simp [Kind.has] at has

theorem Graph.Wf.leaf_reach (wf : G.Wf next exempt parked)
    (kind : G.kind c = some .command ∨ G.kind c = some .process) (reach : G.Reach c y) : y = c := by
  by_contra apart
  induction reach with
  | refl => exact apart rfl
  | @tail p y _ edge ih =>
    have here : p = c := Classical.not_not.mp ih
    obtain ⟨k, member⟩ := edge
    subst here
    simp [wf.leaf kind] at member

end Leaves

section Reach

variable {w w' : World} {given : Set (Addr × Kind)}

theorem World.Shrink.below (shrink : w.Shrink frozen loose given w') (c : Addr) :
    w'.below c ⊆ w.below c := fun _ reach => shrink.reach reach

theorem World.Shrink.around (shrink : w.Shrink frozen loose given w') (c : Addr) : w'.around c ⊆ w.around c := by
  intro x member
  refine member.imp (fun reach => shrink.reach reach) fun home => ?_
  exact ⟨shrink.parent home.1, shrink.kind home.2.1, home.2.2⟩

end Reach

section Rank

variable {w w' : World} {given : Set (Addr × Kind)}

theorem World.rank_le (w : World) (c : Addr) : w.rank c ≤ 2 * w.links + 1 := by
  unfold World.rank
  split <;> omega

theorem World.Shrink.rank (shrink : w.Shrink frozen loose given w') (c : Addr) : w'.rank c ≤ w.rank c := by
  have links := shrink.links_le
  unfold World.rank
  by_cases process : (w'.heap.cells c).map Container.kind = some .process
  · obtain ⟨new, found, kind⟩ := Option.map_eq_some_iff.mp process
    obtain ⟨old, found', kept⟩ := shrink.kept found
    rw [if_pos process, if_pos (by rw [found', Option.map_some, ← kept.less.kind, kind])]
    omega
  · rw [if_neg process]
    omega

end Rank

section Put

variable {w : World} {held parked : Multiset Addr} {destroy : Action}

theorem Ok.refs_zero (unlisted : ∀ p k, c ∉ (w.graph exempt).slot p k)
    (unused : ∀ p, (w.graph exempt).command p ≠ some c) : w.heap.refs (Container.outRefs exempt) c = 0 := by
  by_contra referred
  obtain ⟨p, self, found, member⟩ := Store.exists_refs (Nat.pos_of_ne_zero referred)
  rcases Multiset.mem_add.mp member with child | command
  · obtain ⟨k, _, member⟩ := mem_allChildren.mp (Multiset.mem_coe.mp child)
    exact unlisted p k (by rwa [slot_graph found])
  · by_cases begun : p ∈ exempt
    · simp [begun] at command
    · refine unused p ?_
      rw [command_graph found begun]
      simpa [begun] using command

theorem put_last (destroys : Destroys destroy bound) (ok : Ok w (c ::ₘ held) parked exempt)
    (found : w.heap.cells c = some self) (one : self.refcount ≤ 1) (apart : c ≠ globalContext)
    (beneath : ∀ {e}, e ∈ exempt → e ∈ held) (small : w.rank c < bound) :
    ∃ w', containerPut destroy c w = .ok w' ∧ Ok w' held parked exempt ∧
      w.Shrink exempt ∅ (w.below c) w' ∧ w'.heap.cells c = none := by
  obtain ⟨unheld, unparked, unlisted, unused⟩ := ok.last found one apart
  have outside : c ∉ exempt := fun member => unheld (beneath member)
  have positive := ok.counted.positive c self found
  have orphan : self.parent = none := by
    cases parent : self.parent with
    | none => rfl
    | some p =>
      obtain ⟨k, _, _, member | aside⟩ := ok.wf.listed (c := c) (p := p) (by rw [parent_graph found, parent])
      · exact absurd member (unlisted p k)
      · exact absurd aside.1 unparked
  let w₁ := w.modify c fun self => { self with owner := none }
  have disowned : w.Shrink exempt {c} (w.below c) w₁ := World.Shrink.modify fun self _ => kept_clearOwner self
  have entry : Entry w₁ (c ::ₘ held) parked exempt c :=
    ok.entry_disowned (Multiset.mem_cons_self c held) apart outside fun _ => unlisted
  obtain ⟨w₂, ran, destroyed⟩ := destroys entry (lt_of_le_of_lt (disowned.rank c) small)
  have around : w₁.around c ⊆ w.below c := by
    intro x member
    rcases member with reach | home
    · exact disowned.reach reach
    · have none_ : (w₁.graph ∅).parent c = none := disowned.orphan (E := ∅) ((parent_graph found).trans orphan)
      rw [none_] at home
      cases home.1
  have shrink : w.Shrink exempt {c} (w.below c) w₂ :=
    disowned.trans (destroyed.shrink.mono (Finset.Subset.refl _) (Set.Subset.refl _) around)
  obtain ⟨last, found'⟩ := destroyed.ok.live (Multiset.mem_cons_self c held)
  have counts := destroyed.ok.refcount found'
  rw [Ok.refs_zero (shrink.unlisted unlisted) fun p command => unused p (shrink.command command),
    if_neg apart, Multiset.count_cons_self, Multiset.count_eq_zero.mpr unheld,
    Multiset.count_eq_zero.mpr unparked] at counts
  refine ⟨{ w₂ with heap := w₂.heap.free c }, ?_, ?_, ?_, by simp⟩
  · refine bind_ok.mpr ⟨self, World.deref_ok.mpr found, ?_⟩
    rw [if_neg (by omega), if_neg (by omega), if_neg (by simp [orphan])]
    exact bind_ok.mpr ⟨w₂, ran, rfl⟩
  · exact destroyed.ok.free found' (by omega) apart destroyed.bare (destroyed.nameless last found') beneath
  · exact (shrink.trans (World.Shrink.free _ _ _ w₂ c)).drop (by simp)

theorem put_many (ok : Ok w (c ::ₘ held) parked exempt) (found : w.heap.cells c = some self)
    (many : 1 < self.refcount) (beneath : ∀ {e}, e ∈ exempt → e ∈ held) (destroy : Action) :
    ∃ w', containerPut destroy c w = .ok w' ∧ Ok w' held parked exempt ∧
      w.Shrink exempt ∅ ∅ w' ∧ w'.graph exempt = w.graph exempt := by
  refine ⟨_, ?_, ok.drop found many beneath, World.Shrink.modify fun self _ =>
    kept_refcount self _, graph_quiet (by intro; rfl) exempt⟩
  simp only [containerPut, World.deref_ok.mpr found, bind, Except.bind]
  rw [if_neg (by omega), if_pos many]

theorem put_ok (destroys : Destroys destroy bound) (ok : Ok w (c ::ₘ held) parked exempt)
    (apart : c ≠ globalContext) (beneath : ∀ {e}, e ∈ exempt → e ∈ held)
    (small : (∀ p k, c ∉ (w.graph exempt).slot p k) → w.rank c < bound) :
    ∃ w', containerPut destroy c w = .ok w' ∧ Ok w' held parked exempt ∧ w.Shrink exempt ∅ (w.below c) w' := by
  obtain ⟨self, found⟩ := ok.live (Multiset.mem_cons_self c held)
  by_cases many : 1 < self.refcount
  · obtain ⟨w', ran, ok', shrink, _⟩ := put_many ok found many beneath destroy
    exact ⟨w', ran, ok', shrink.mono (Finset.Subset.refl _) (Set.Subset.refl _) (Set.empty_subset _)⟩
  · have last := (ok.last found (not_lt.mp many) apart).2.2.1
    obtain ⟨w', ran, ok', shrink, _⟩ := put_last destroys ok found (not_lt.mp many) apart beneath (small last)
    exact ⟨w', ran, ok', shrink⟩

/-- Nothing lies around what has no children and is no child of a list. -/
theorem World.Shrink.leaf (ok : Ok w held parked exempt) (shrink : w.Shrink exempt ∅ { x | x.1 = c } w')
    (kind : (w.graph exempt).kind c = some .command ∨ (w.graph exempt).kind c = some .process) :
    w.Shrink exempt ∅ ∅ w' where
  __ := shrink
  kept := by
    intro x new found
    obtain ⟨old, found', kept⟩ := shrink.kept found
    refine ⟨old, found', ?_⟩
    by_cases same : x = c
    · subst same
      have kinds : new.kind = .command ∨ new.kind = .process := by
        rw [kind_graph found'] at kind
        rw [kept.less.kind]
        simpa using kind
      exact { kept with
        parent := by
          intro _ host
          rcases kinds with other | other <;> simp [other] at host
        lists := by
          intro k _ _
          have empty := ok.wf.leaf kind k
          rw [slot_graph found'] at empty
          have sub := kept.less.data k
          rw [empty] at sub ⊢
          exact List.sublist_nil.mp sub }
    · exact { kept with
        parent := fun _ => kept.parent same
        lists := fun k which _ => kept.lists k which same }

/-- Putting a command or a process, or what is still listed, takes nothing from others. -/
theorem put_leaf (destroys : Destroys destroy bound) (ok : Ok w (c ::ₘ held) parked exempt)
    (apart : c ≠ globalContext) (beneath : ∀ {e}, e ∈ exempt → e ∈ held)
    (kind : (w.graph exempt).kind c = some .command ∨ (w.graph exempt).kind c = some .process ∨
      ∃ p k, c ∈ (w.graph exempt).slot p k)
    (small : (∀ p k, c ∉ (w.graph exempt).slot p k) → w.rank c < bound) :
    ∃ w', containerPut destroy c w = .ok w' ∧ Ok w' held parked exempt ∧ w.Shrink exempt ∅ ∅ w' := by
  obtain ⟨self, found⟩ := ok.live (Multiset.mem_cons_self c held)
  by_cases many : 1 < self.refcount
  · obtain ⟨w', ran, ok', shrink, _⟩ := put_many ok found many beneath destroy
    exact ⟨w', ran, ok', shrink⟩
  · have last := (ok.last found (not_lt.mp many) apart).2.2.1
    obtain ⟨w', ran, ok', shrink, _⟩ := put_last destroys ok found (not_lt.mp many) apart beneath (small last)
    have leaf : (w.graph exempt).kind c = some .command ∨ (w.graph exempt).kind c = some .process := by
      rcases kind with command | process | ⟨p, k, member⟩
      · exact Or.inl command
      · exact Or.inr process
      · exact absurd member (last p k)
    have alone : w.below c ⊆ { x | x.1 = c } := fun x reach => ok.wf.leaf_reach leaf reach
    exact ⟨w', ran, ok', World.Shrink.leaf ok (shrink.mono (Finset.Subset.refl _) (Set.Subset.refl _) alone) leaf⟩

end Put

end Testbus.Server
