import Testbus.Server.Putting

namespace Testbus.Server

open Lib

namespace Graph

variable {G : Graph} {next : Addr}

/-- A bound for the depth of what is below a container: tests lie in order of their
addresses. -/
def height (G : Graph) (next c : Nat) : Nat :=
  match G.kind c with
  | some .globalContext => next + 3
  | some .testcase => next - c + 3
  | some .host => 2
  | some .command | some .process => 1
  | none => 0

theorem Wf.height_lt (wf : G.Wf next exempt parked) (member : c ∈ G.slot p k) : G.height next c < G.height next p := by
  obtain ⟨kind, above, kindAbove, has⟩ := wf.entry member
  have bound : @LT.lt Nat _ c next := wf.bound kind
  have boundAbove : @LT.lt Nat _ p next := wf.bound kindAbove
  have positive : @LT.lt Nat _ 0 c := by
    refine Nat.pos_of_ne_zero fun same => ?_
    have root := wf.root.mpr same
    rw [kind] at root
    obtain rfl := Option.some.inj root
    cases above <;> simp [Kind.has] at has
  unfold height
  rw [kind, kindAbove]
  cases k with
  | globalContext => cases above <;> simp [Kind.has] at has
  | testcase =>
    have lower : @LT.lt Nat _ p c := wf.below member
    cases above <;> simp [Kind.has] at has <;> dsimp only <;> omega
  | host | command | process =>
    cases above <;> simp [Kind.has] at has <;> dsimp only <;> omega

theorem Wf.height_reach (wf : G.Wf next exempt parked) (reach : G.Reach a b) : G.height next b ≤ G.height next a := by
  induction reach with
  | refl => exact Nat.le_refl _
  | tail _ edge ih =>
    obtain ⟨k, member⟩ := edge
    exact (Nat.le_of_lt (wf.height_lt member)).trans ih

/-- No container lies below itself. -/
theorem Wf.acyclic (wf : G.Wf next exempt parked) (member : c ∈ G.slot p k) : ¬ G.Reach c p :=
  fun reach => absurd (wf.height_lt member) (Nat.not_lt.mpr (wf.height_reach reach))

theorem height_le (G : Graph) (next c : Nat) : G.height next c ≤ next + 3 := by
  unfold height
  split
  all_goals omega

end Graph

/-- A container that does not belong to the owner, and has nothing below that does, unless
it is in no array any more. -/
def Graph.Clean (G : Graph) (o x : Addr) : Prop :=
  G.owner x ≠ some o ∧
    ((∀ p k, x ∉ G.slot p k) ∨ ∀ y, G.Reach x y → y ≠ x → G.owner y ≠ some o)

section Clean

variable {w w' : World} {given : Set (Addr × Kind)}

theorem World.Shrink.clean (shrink : w.Shrink frozen loose given w')
    (clean : (w.graph exempt).Clean o x) : (w'.graph exempt).Clean o x := by
  refine ⟨shrink.disowned clean.1, clean.2.imp (fun unlisted => shrink.unlisted unlisted) ?_⟩
  intro below y reach apart
  exact shrink.disowned (below y (shrink.reach reach) apart)

theorem World.Shrink.outer (shrink : w.Shrink frozen {x} given w')
    (nameless : ∀ new, w'.heap.cells x = some new → new.dbusObjectPath = none)
    (apart : x ≠ globalContext) (kind : (w.graph exempt).kind x ≠ some .host) : w.Shrink frozen ∅ given w' where
  __ := shrink
  kept := by
    intro c new found
    obtain ⟨old, found', kept⟩ := shrink.kept found
    refine ⟨old, found', ?_⟩
    by_cases same : c = x
    · subst same
      exact { kept with
        nextId := fun _ known => absurd known (by simp [nameless new found, apart])
        agent := by
          intro _ host
          rw [kind_graph found', ← kept.less.kind, host] at kind
          exact absurd rfl kind
        claim := by
          intro _ host
          rw [kind_graph found', ← kept.less.kind, host] at kind
          exact absurd rfl kind }
    · exact { kept with
        nextId := fun _ => kept.nextId same
        agent := fun _ => kept.agent same
        claim := fun _ => kept.claim same }

end Clean

section Release

variable {destroy : Action} {w : World} {held parked : Multiset Addr}

theorem release_child (destroys : Destroys destroy bound) (ok : Ok w held parked exempt)
    (begun : o ∈ exempt) (member : x ∈ held) (found : w.heap.cells x = some self)
    (owner : self.owner = some o) (fresh : self.kind = .host ∨ x ∉ exempt) (small : 2 * w.links ≤ bound) :
    ∃ w', containerRelease destroy x (w.modify x fun self => { self with owner := none }) = .ok w' ∧
      Ok w' held parked exempt ∧ w.Shrink exempt ∅ ∅ w' ∧ (w'.graph exempt).owner x ≠ some o := by
  let w₁ := w.modify x fun self => { self with owner := none }
  have found₁ : w₁.heap.cells x = some { self with owner := none } := by
    rw [World.cells_modify_heap, Store.modify_self, found]
    rfl
  have disowned : w.Shrink exempt ∅ ∅ w₁ := World.Shrink.modify fun self _ => kept_clearOwner self
  have free : (w₁.graph exempt).owner x ≠ some o := by
    rw [owner_graph found₁]
    simp
  have fewer : w₁.links < w.links := by
    refine disowned.links_lt found (fun new after => ?_) (by simp [Container.links, owner])
    obtain rfl := Option.some.inj (found₁.symm.trans after)
    change self.allChildren.length + 0 < self.allChildren.length + self.owner.toList.length
    simp [owner]
  obtain ⟨k, kind, owns⟩ := ok.wf.owned (c := x) (o := o) (by rw [owner_graph found, owner])
  have kind' : self.kind = k := by
    rw [kind_graph found] at kind
    exact Option.some.inj kind
  have leaf : k = .command ∨ k = .process →
      ∃ w', containerRelease destroy x w₁ = .ok w' ∧ Ok w' held parked exempt ∧
        w.Shrink exempt ∅ ∅ w' ∧ (w'.graph exempt).owner x ≠ some o := by
    intro which
    have other : k ≠ .host ∧ k ≠ .globalContext := by rcases which with rfl | rfl <;> decide
    have outside : x ∉ exempt := fresh.resolve_left (by rw [kind']; exact other.1)
    have apart := ok.wf.not_root kind other.2
    have entry : Entry w₁ held parked exempt x := ok.entry_disowned member apart outside (by
      rw [kind]
      exact fun same => absurd (Option.some.inj same) other.1)
    have rank := w₁.rank_le x
    obtain ⟨w₂, ran, destroyed⟩ := destroys entry (by omega)
    have leafKind : (w.graph exempt).kind x = some .command ∨ (w.graph exempt).kind x = some .process := by
      rw [kind]
      simpa using which
    have alone : w₁.around x ⊆ { y | y.1 = x } := by
      intro y around
      rcases disowned.around x around with reach | ⟨_, kindX, list⟩
      · exact ok.wf.leaf_reach leafKind reach
      · have same : k = y.2 := Option.some.inj (kind.symm.trans kindX)
        rw [← same] at list
        rcases which with rfl | rfl <;> simp at list
    have shrink : w.Shrink exempt {x} { y | y.1 = x } w₂ :=
      (disowned.mono (Finset.Subset.refl _) (Set.empty_subset _) (Set.empty_subset _)).trans
        (destroyed.shrink.mono (Finset.Subset.refl _) (Set.Subset.refl _) alone)
    refine ⟨w₂, ?_, destroyed.ok, ?_, destroyed.shrink.disowned free⟩
    · simp only [containerRelease, World.deref_ok.mpr found₁, bind, Except.bind]
      rw [kind']
      rcases which with rfl | rfl <;> exact ran
    · have noHost : (w.graph exempt).kind x ≠ some .host := by
        rw [kind]
        exact fun same => other.1 (Option.some.inj same)
      exact World.Shrink.leaf ok (shrink.outer destroyed.nameless apart noHost) leafKind
  cases k with
  | host =>
    have result : w₁.modify x (fun self =>
        { self with role := none, eventlog := self.eventlog.map Eventlog.flush }) =
        w.modify x fun self =>
          { self with owner := none, role := none, eventlog := self.eventlog.map Eventlog.flush } := by
      simp only [w₁, World.modify, Store.modify_modify]
      rfl
    have released : Ok (w.modify x fun self =>
        { self with owner := none, role := none, eventlog := self.eventlog.map Eventlog.flush })
        held parked exempt := ok.releaseHost found kind' owner begun (by intro; rfl) (by intro; rfl) (by intro; rfl)
    refine ⟨_, ?_, released, ?_, ?_⟩
    · change containerRelease destroy x w₁ = _
      simp only [containerRelease, World.deref_ok.mpr found₁, bind, Except.bind]
      rw [kind']
      exact congrArg Except.ok result
    · exact World.Shrink.modify fun self _ => { Container.Kept.refl exempt ∅ ∅ x self with
        less := { Container.Less.refl self with role := by rintro _ ⟨⟩, owner := by rintro _ ⟨⟩ }
        command := fun _ => rfl
        nextId := fun _ _ _ => rfl
        agent := fun _ _ => rfl
        claim := fun _ _ _ _ => rfl
        parent := fun _ _ => rfl
        lists := fun _ _ _ => rfl }
    · simp [World.graph, found]
  | command => exact leaf (Or.inl rfl)
  | process => exact leaf (Or.inr rfl)
  | testcase | globalContext => exact owns.elim

/-- What a walk through the containers below one does. -/
structure Released (w w' : World) (held parked : Multiset Addr) (exempt : Finset Addr) (o : Addr)
    (container : Addr) : Prop where
  ok : Ok w' held parked exempt
  shrink : w.Shrink exempt ∅ ∅ w'
  free : ∀ y, (w'.graph exempt).Reach container y → y ≠ container →
    (w'.graph exempt).owner y ≠ some o

theorem height_shrink (shrink : w.Shrink frozen loose given w') (live : w'.heap.cells x ≠ none) :
    (w'.graph exempt).height w'.next x = (w.graph exempt).height w.next x := by
  obtain ⟨new, found⟩ := Option.ne_none_iff_exists'.mp live
  obtain ⟨old, found', kept⟩ := shrink.kept found
  unfold Graph.height
  rw [kind_graph found, kind_graph found', kept.less.kind, shrink.next]

theorem releaseEach_ok (destroys : Destroys destroy bound) (recur : Action) (levels : Nat)
    (below : ∀ {w x}, Ok w held parked exempt → x ∈ held → 2 * w.links ≤ bound →
      (w.graph exempt).height w.next x < levels → ∃ w', recur x w = .ok w' ∧ Released w w' held parked exempt o x)
    (begun : o ∈ exempt) (children : List Addr) (ok : Ok w held parked exempt) (held' : ∀ x ∈ children, x ∈ held)
    (fresh : ∀ x ∈ children, (w.graph exempt).kind x = some .host ∨ x ∉ exempt)
    (near : ∀ x ∈ children, (w.graph exempt).height w.next x < levels) (small : 2 * w.links ≤ bound) :
    ∃ w', releaseEach destroy recur o children w = .ok w' ∧ Ok w' held parked exempt ∧
      w.Shrink exempt ∅ ∅ w' ∧ ∀ x ∈ children, (w'.graph exempt).Clean o x := by
  induction children generalizing w with
  | nil => exact ⟨w, rfl, ok, World.Shrink.refl _ _ _ _, by simp⟩
  | cons x rest ih =>
    have member := held' x (by simp)
    obtain ⟨self, found⟩ := ok.live member
    -- The child itself is released.
    have released : ∃ w₁, (if self.owner = some o then
          containerRelease destroy x (w.modify x fun self => { self with owner := none })
          else .ok w) = .ok w₁ ∧ Ok w₁ held parked exempt ∧ w.Shrink exempt ∅ ∅ w₁ ∧
        (w₁.graph exempt).owner x ≠ some o := by
      by_cases owner : self.owner = some o
      · rw [if_pos owner]
        refine release_child destroys ok begun member found owner ?_ small
        have fresh := fresh x (by simp)
        rw [kind_graph found] at fresh
        simpa using fresh
      · rw [if_neg owner]
        exact ⟨w, rfl, ok, World.Shrink.refl _ _ _ _, by rwa [owner_graph found]⟩
    obtain ⟨w₁, ran₁, ok₁, shrink₁, disowned⟩ := released
    obtain ⟨self₁, found₁⟩ := ok₁.live member
    -- Then what is below it, if it is still listed.
    have descended : ∃ w₂, (if 1 < self₁.refcount then recur x w₁ else .ok w₁) = .ok w₂ ∧
        Ok w₂ held parked exempt ∧ w₁.Shrink exempt ∅ ∅ w₂ ∧ (w₂.graph exempt).Clean o x := by
      by_cases listed : 1 < self₁.refcount
      · rw [if_pos listed]
        have height : (w₁.graph exempt).height w₁.next x = (w.graph exempt).height w.next x :=
          height_shrink shrink₁ (by simp [found₁])
        have links := shrink₁.links_le
        obtain ⟨w₂, ran, walked⟩ := below ok₁ member (by omega) (height ▸ near x (by simp))
        exact ⟨w₂, ran, walked.ok, walked.shrink, walked.shrink.disowned disowned, Or.inr walked.free⟩
      · rw [if_neg listed]
        refine ⟨w₁, rfl, ok₁, World.Shrink.refl _ _ _ _, disowned, Or.inl fun p k inside => ?_⟩
        have counts := ok₁.refcount found₁
        have refs := ok₁.refs_slot inside
        have holds := Multiset.count_pos.mpr member
        omega
    obtain ⟨w₂, ran₂, ok₂, shrink₂, clean⟩ := descended
    have shrink := shrink₁.trans shrink₂
    have links := shrink.links_le
    obtain ⟨w₃, ran₃, ok₃, shrink₃, cleans⟩ := ih ok₂ (fun y inside => held' y (by simp [inside]))
      (fun y inside => by
        obtain ⟨selfY, foundY⟩ := ok₂.live (held' y (by simp [inside]))
        have kind : (w.graph exempt).kind y = (w₂.graph exempt).kind y := by
          rw [kind_graph foundY]
          exact shrink.kind_live foundY
        exact (fresh y (by simp [inside])).imp_left fun host => kind ▸ host)
      (fun y inside => by
        obtain ⟨selfY, foundY⟩ := ok₂.live (held' y (by simp [inside]))
        rw [height_shrink shrink (by simp [foundY])]
        exact near y (by simp [inside]))
      (by omega)
    refine ⟨w₃, ?_, ok₃, shrink.trans shrink₃, ?_⟩
    · rw [releaseEach]
      simp only [World.deref_ok.mpr found, bind, Except.bind]
      by_cases owner : self.owner = some o
      · rw [if_pos owner] at ran₁ ⊢
        simp only [ran₁, World.deref_ok.mpr found₁]
        by_cases listed : 1 < self₁.refcount
        · rw [if_pos listed] at ran₂ ⊢
          simp only [ran₂]
          exact ran₃
        · rw [if_neg listed] at ran₂ ⊢
          cases ran₂
          exact ran₃
      · rw [if_neg owner] at ran₁ ⊢
        cases ran₁
        obtain rfl := Option.some.inj (found.symm.trans found₁)
        by_cases listed : 1 < self.refcount
        · rw [if_pos listed] at ran₂ ⊢
          simp only [ran₂]
          exact ran₃
        · rw [if_neg listed] at ran₂ ⊢
          cases ran₂
          exact ran₃
    · intro y inside
      rcases List.mem_cons.mp inside with rfl | later
      · exact shrink₃.clean clean
      · exact cleans y later

theorem getAll_ok (children : List Addr) (ok : Ok w held parked exempt) (live : ∀ x ∈ children, w.heap.cells x ≠ none) :
    ∃ w', getAll children w = .ok w' ∧ Ok w' (↑children + held) parked exempt ∧
      w.Shrink exempt ∅ ∅ w' ∧ w'.graph exempt = w.graph exempt := by
  induction children generalizing w held with
  | nil => exact ⟨w, rfl, by simpa using ok, World.Shrink.refl _ _ _ _, rfl⟩
  | cons x rest ih =>
    obtain ⟨self, found⟩ := Option.ne_none_iff_exists'.mp (live x (by simp))
    obtain ⟨ran, ok₁⟩ := ok.get found
    have graph₁ : (w.modify x fun self => { self with refcount := self.refcount + 1 }).graph
        exempt = w.graph exempt := graph_quiet (by intro; rfl) exempt
    have shrink₁ : w.Shrink exempt ∅ ∅ (w.modify x fun self => { self with refcount := self.refcount + 1 }) :=
      World.Shrink.modify fun self _ => kept_refcount self _
    obtain ⟨w₂, ran₂, ok₂, shrink₂, graph₂⟩ := ih ok₁ (by
      intro y inside
      have before := live y (by simp [inside])
      rw [World.cells_modify_heap, Store.cells_modify]
      split <;> simpa using before)
    refine ⟨w₂, ?_, ?_, shrink₁.trans shrink₂, graph₂.trans graph₁⟩
    · rw [getAll, ran]
      exact ran₂
    · rw [← Multiset.cons_coe, Multiset.cons_add]
      rwa [Multiset.add_cons] at ok₂

/-- The references to the children are put again; what has become the last one is one to a
command or a process. -/
theorem putAll_ok (destroys : Destroys destroy bound) (children : List Addr)
    (ok : Ok w (↑children + held) parked exempt) (beneath : ∀ {e}, e ∈ exempt → e ∈ held)
    (apart : ∀ x ∈ children, x ≠ globalContext)
    (stay : ∀ x ∈ children, ∀ {w' held'}, (∀ y ∈ held, y ∈ held') → Ok w' held' parked exempt →
      w.Shrink exempt ∅ ∅ w' → x ∈ held' → (w'.graph exempt).kind x = some .command ∨
        (w'.graph exempt).kind x = some .process ∨ ∃ p k, x ∈ (w'.graph exempt).slot p k)
    (small : ∀ x ∈ children, ∀ {w'}, w.Shrink exempt ∅ ∅ w' →
      (∀ p k, x ∉ (w'.graph exempt).slot p k) → w'.rank x < bound) :
    ∃ w', putAll (containerPut destroy) children w = .ok w' ∧ Ok w' held parked exempt ∧ w.Shrink exempt ∅ ∅ w' := by
  induction children generalizing w with
  | nil => exact ⟨w, rfl, by simpa using ok, World.Shrink.refl _ _ _ _⟩
  | cons x rest ih =>
    rw [← Multiset.cons_coe, Multiset.cons_add] at ok
    have more : ∀ y ∈ held, y ∈ x ::ₘ (↑rest + held) := by
      intro y member
      simp [member]
    obtain ⟨w₁, ran₁, ok₁, shrink₁⟩ := put_leaf destroys ok (apart x (by simp))
      (fun begun => Multiset.mem_add.mpr (Or.inr (beneath begun)))
      (stay x (by simp) more ok (World.Shrink.refl _ _ _ _) (Multiset.mem_cons_self _ _))
      (small x (by simp) (World.Shrink.refl _ _ _ _))
    obtain ⟨w₂, ran₂, ok₂, shrink₂⟩ := ih ok₁ (fun y inside => apart y (by simp [inside]))
      (fun y inside _ _ others ok' later => stay y (by simp [inside]) others ok' (shrink₁.trans later))
      (fun y inside _ later => small y (by simp [inside]) (shrink₁.trans later))
    refine ⟨w₂, ?_, ok₂, shrink₁.trans shrink₂⟩
    rw [putAll, ran₁]
    exact ran₂

/-- After `ni_testbus_container_release_owned` nothing below the container belongs to the
owner. -/
theorem releaseOwned_ok (destroys : Destroys destroy bound) (begun : o ∈ exempt) (levels : Nat) :
    ∀ {w held container}, Ok w held parked exempt → (container = globalContext ∨ container ∈ held) → 2 * w.links ≤ bound →
      (w.graph exempt).height w.next container < levels →
      ∃ w', releaseOwned destroy o levels container w = .ok w' ∧ Released w w' held parked exempt o container := by
  induction levels with
  | zero =>
    intro w held container _ _ _ high
    exact absurd high (Nat.not_lt_zero _)
  | succ levels ih =>
    intro w held container ok stays small high
    have live : ∀ {w' held'}, (∀ y ∈ held, y ∈ held') → Ok w' held' parked exempt →
        ∃ self, w'.heap.cells container = some self := by
      intro w' held' more ok'
      rcases stays with rfl | member
      · obtain ⟨self, found, _⟩ := ok'.root
        exact ⟨self, found⟩
      · exact ok'.live (more container member)
    obtain ⟨self, found⟩ := live (fun _ member => member) ok
    have listed : ∀ x ∈ self.allChildren, ∃ k, x ∈ (self.children k).data ∧ x ∈ (w.graph exempt).slot container k := by
      intro x member
      obtain ⟨k, _, inside⟩ := mem_allChildren.mp member
      exact ⟨k, inside, by rwa [slot_graph found]⟩
    obtain ⟨w₁, ran₁, ok₁, shrink₁, graph₁⟩ := getAll_ok self.allChildren ok (by
      intro x member
      obtain ⟨k, _, inside⟩ := listed x member
      obtain ⟨_, there, _⟩ := ok.live_slot inside
      simp [there])
    have more₁ : ∀ y ∈ held, y ∈ (↑self.allChildren + held : Multiset Addr) :=
      fun y member => Multiset.mem_add.mpr (Or.inr member)
    have links₁ := shrink₁.links_le
    obtain ⟨w₂, ran₂, ok₂, shrink₂, clean⟩ := releaseEach_ok destroys (releaseOwned destroy o levels) levels
      (fun ok' member small' high' => ih ok' (Or.inr member) small' high')
      begun self.allChildren ok₁ (fun x member => Multiset.mem_add.mpr (Or.inl member)) (by
        intro x member
        obtain ⟨k, _, inside⟩ := listed x member
        rw [graph₁]
        have kind := (ok.wf.entry inside).1
        by_cases host : k = .host
        · exact Or.inl (host ▸ kind)
        · refine Or.inr fun exempt' => ?_
          have home := ok.wf.home inside host
          rw [(ok.wf.begun exempt').2.1] at home
          cases home) (by
        intro x member
        obtain ⟨k, _, inside⟩ := listed x member
        have lower := ok.wf.height_lt inside
        rw [graph₁, shrink₁.next]
        omega) (by omega)
    have shrink₁₂ := shrink₁.trans shrink₂
    obtain ⟨w₃, ran₃, ok₃, shrink₃⟩ := putAll_ok destroys self.allChildren ok₂ ok.beneath (by
        intro x member
        obtain ⟨k, _, inside⟩ := listed x member
        exact ok.wf.not_root (ok.wf.entry inside).1 (ok.slot_kind inside)) (by
        intro x member w' held' more ok' later holds
        obtain ⟨k, inData, inside⟩ := listed x member
        obtain ⟨new, foundX⟩ := ok'.live holds
        have kind : (w'.graph exempt).kind x = some k := by
          have before : (w.graph exempt).kind x = some new.kind := (shrink₁₂.trans later).kind_live foundX
          rw [kind_graph foundX, ← before]
          exact (ok.wf.entry inside).1
        have stillListed : k = .host ∨ k = .testcase → ∃ p k, x ∈ (w'.graph exempt).slot p k := by
          intro list
          obtain ⟨last, foundC⟩ := live more ok'
          obtain ⟨old, foundC', kept⟩ := (shrink₁₂.trans later).kept foundC
          obtain rfl := Option.some.inj (found.symm.trans foundC')
          refine ⟨container, k, ?_⟩
          rw [slot_graph foundC, kept.lists k list (Set.notMem_empty _)]
          exact inData
        cases k with
        | globalContext => exact absurd rfl (ok.slot_kind inside)
        | host => exact Or.inr (Or.inr (stillListed (Or.inl rfl)))
        | testcase => exact Or.inr (Or.inr (stillListed (Or.inr rfl)))
        | command => exact Or.inl kind
        | process => exact Or.inr (Or.inl kind)) (by
        intro x member w' later unlisted
        have fewer := (shrink₁₂.trans later).links_entry found member (by
          intro new after inside
          obtain ⟨k, _, inside⟩ := mem_allChildren.mp inside
          exact unlisted container k (by rwa [slot_graph after]))
        have rank := w'.rank_le x
        omega)
    refine ⟨w₃, ?_, ok₃, shrink₁₂.trans shrink₃, ?_⟩
    · simp only [releaseOwned, World.deref_ok.mpr found, bind, Except.bind, ran₁, ran₂]
      exact ran₃
    · intro y reach apart
      -- The way begins with a child, which is clean.
      obtain ⟨x, edge, rest⟩ := (Relation.ReflTransGen.cases_head reach).resolve_left (Ne.symm apart)
      obtain ⟨k, inside⟩ := edge
      have before := ((shrink₁₂.trans shrink₃).slot (E := exempt) container k).subset inside
      rw [slot_graph found] at before
      have member : x ∈ self.allChildren := by
        refine mem_allChildren.mpr ⟨k, ?_, before⟩
        exact ok.slot_kind (by rwa [slot_graph found])
      have cleanX := shrink₃.clean (clean x member)
      by_cases same : y = x
      · exact same ▸ cleanX.1
      · rcases cleanX.2 with unlisted | below
        · exact absurd inside (unlisted container k)
        · exact below y rest same

end Release

end Testbus.Server
