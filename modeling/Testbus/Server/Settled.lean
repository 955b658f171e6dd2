import Testbus.Server.Destruction
import Testbus.Server.Requests

/-! The master between two messages: nothing is held, and every container is in the tree. -/

namespace Testbus.Server

open Lib

/-- No reference is held but the one to the global context, and nothing is being destroyed. -/
def Settled (w : World) : Prop := Ok w 0 0 ∅

/-- How many containers there can be above one. -/
def Graph.rise (G : Graph) (next c : Nat) : Nat :=
  match G.kind c with
  | some .testcase => c
  | some .host => 1
  | some .command | some .process => next
  | some .globalContext | none => 0

namespace Settled

theorem referred (settled : Settled w) (found : w.heap.cells c = some self) (other : c ≠ globalContext) :
    (∃ p, c ∈ (w.graph ∅).slot p self.kind) ∨ ∃ p, (w.graph ∅).command p = some c := by
  have counts := settled.refcount found
  have positive := settled.counted.positive c self found
  rw [if_neg other] at counts
  simp only [Multiset.count_zero] at counts
  have refers : 0 < w.heap.refs (Container.outRefs ∅) c := by omega
  obtain ⟨p, above, foundP, member⟩ := Store.exists_refs refers
  rcases Multiset.mem_add.mp member with child | command
  · obtain ⟨k, _, inside⟩ := mem_allChildren.mp (Multiset.mem_coe.mp child)
    have listed : c ∈ (w.graph ∅).slot p k := by rwa [slot_graph foundP]
    have kind := (settled.wf.entry listed).1
    rw [kind_graph found] at kind
    obtain rfl := Option.some.inj kind
    exact Or.inl ⟨p, listed⟩
  · refine Or.inr ⟨p, ?_⟩
    rw [command_graph foundP (Finset.notMem_empty p)]
    simpa using command

theorem parent_listed (settled : Settled w) (parent : (w.graph ∅).parent c = some p) :
    ∃ k, (w.graph ∅).kind c = some k ∧ c ∈ (w.graph ∅).slot p k := by
  obtain ⟨k, kind, _, member | aside⟩ := settled.wf.listed parent
  · exact ⟨k, kind, member⟩
  · exact absurd aside.1 (Multiset.notMem_zero c)

theorem listed (settled : Settled w) (found : w.heap.cells c = some self) (other : self.kind ≠ .globalContext)
    (noCommand : self.kind ≠ .command) : ∃ p, c ∈ (w.graph ∅).slot p self.kind := by
  have kindC : (w.graph ∅).kind c = some self.kind := kind_graph found
  rcases settled.referred found (settled.wf.not_root kindC other) with listed | ⟨p, command⟩
  · exact listed
  · have command := (settled.wf.running command).2.1
    rw [kindC] at command
    exact absurd (Option.some.inj command) noCommand

theorem reach_below (settled : Settled w) (member : c ∈ (w.graph ∅).slot p k)
    (above : ∀ self, w.heap.cells p = some self → self.kind.has k = true → self.kind ≠ .globalContext →
      (w.graph ∅).Reach globalContext p) : (w.graph ∅).Reach globalContext c := by
  obtain ⟨_, kind, kindP, has⟩ := settled.wf.entry member
  obtain ⟨selfP, foundP, rfl⟩ := found_of_kind kindP
  refine Relation.ReflTransGen.tail ?_ ⟨k, member⟩
  by_cases root : selfP.kind = .globalContext
  · rw [root] at kindP
    obtain rfl := settled.wf.root.mp kindP
    exact Relation.ReflTransGen.refl
  · exact above selfP foundP has root

theorem reach_test (settled : Settled w) (found : w.heap.cells c = some self) (kind : self.kind = .testcase) :
    (w.graph ∅).Reach globalContext c := by
  induction c using Nat.strong_induction_on generalizing self with
  | _ c ih =>
    obtain ⟨p, member⟩ := settled.listed found (by simp [kind]) (by simp [kind])
    rw [kind] at member
    refine settled.reach_below member fun selfP foundP has other => ih p (settled.wf.below member) foundP ?_
    cases kindAbove : selfP.kind <;> simp_all [Kind.has]

theorem reach_host (settled : Settled w) (found : w.heap.cells c = some self) (kind : self.kind = .host) :
    (w.graph ∅).Reach globalContext c := by
  obtain ⟨p, member⟩ := settled.listed found (by simp [kind]) (by simp [kind])
  rw [kind] at member
  refine settled.reach_below member fun selfP foundP has other => settled.reach_test foundP ?_
  cases kindAbove : selfP.kind <;> simp_all [Kind.has]

theorem reach_listed (settled : Settled w) (member : c ∈ (w.graph ∅).slot p k) (kind : k = .command ∨ k = .process) :
    (w.graph ∅).Reach globalContext c := by
  refine settled.reach_below member fun selfP foundP has other => ?_
  cases kindAbove : selfP.kind with
  | globalContext => exact absurd kindAbove other
  | testcase => exact settled.reach_test foundP kindAbove
  | host => exact settled.reach_host foundP kindAbove
  | command | process => rcases kind with rfl | rfl <;> simp [kindAbove, Kind.has] at has

theorem reach (settled : Settled w) (found : w.heap.cells c = some self) : (w.graph ∅).Reach globalContext c := by
  have process {c self} (found : w.heap.cells c = some self) (kind : self.kind = .process) :
      (w.graph ∅).Reach globalContext c := by
    obtain ⟨p, member⟩ := settled.listed found (by simp [kind]) (by simp [kind])
    exact settled.reach_listed member (.inr kind)
  cases kind : self.kind with
  | globalContext =>
    have root := settled.wf.root.mp ((kind_graph found).trans (congrArg some kind))
    exact root ▸ Relation.ReflTransGen.refl
  | testcase => exact settled.reach_test found kind
  | host => exact settled.reach_host found kind
  | process => exact process found kind
  | command =>
    have kindC : (w.graph ∅).kind c = some .command := (kind_graph found).trans (congrArg some kind)
    rcases settled.referred found (settled.wf.not_root kindC (by decide)) with
      ⟨p, member⟩ | ⟨p, command⟩
    · exact settled.reach_listed member (.inl kind)
    · -- What a process in reach runs has not been given up.
      obtain ⟨selfP, foundP, kindP⟩ := found_of_kind (settled.wf.running command).1
      cases parent : (w.graph ∅).parent c with
      | none =>
        exact absurd (process foundP kindP) (settled.wf.doomed command parent (Finset.notMem_empty c))
      | some q =>
        obtain ⟨k, kind', member⟩ := settled.parent_listed parent
        rw [kindC] at kind'
        obtain rfl := Option.some.inj kind'
        exact settled.reach_listed member (.inl rfl)

theorem parented (settled : Settled w) (found : w.heap.cells c = some self)
    (other : c ≠ globalContext) (noHost : self.kind ≠ .host) :
    ∃ p, self.parent = some p ∧ c ∈ (w.graph ∅).slot p self.kind := by
  obtain ⟨p, k, _, member⟩ := Graph.reach_listed (settled.reach found) other
  have kind := (settled.wf.entry member).1
  rw [kind_graph found] at kind
  obtain rfl := Option.some.inj kind
  have home := settled.wf.home member noHost
  rw [parent_graph found] at home
  exact ⟨p, home, member⟩

theorem homes (settled : Settled w) (kind : (w.graph ∅).kind c = some k) (noHost : k ≠ .host)
    (notRoot : k ≠ .globalContext) : (w.graph ∅).parent c ≠ none := by
  obtain ⟨self, found, rfl⟩ := found_of_kind kind
  obtain ⟨p, parent, _⟩ := settled.parented found (settled.wf.not_root kind notRoot) noHost
  simp [parent_graph found, parent]

theorem owner_live (settled : Settled w) (found : w.heap.cells c = some self)
    (owner : self.owner = some o) : ∃ self, w.heap.cells o = some self := by
  obtain ⟨k, kind, owns⟩ := settled.wf.owned (c := c) (o := o) (by rw [owner_graph found, owner])
  have kind' : self.kind = k := by
    rw [kind_graph found] at kind
    exact Option.some.inj kind
  have entry : ∀ {p k}, c ∈ (w.graph ∅).slot p k → ∃ self, w.heap.cells p = some self := by
    intro p k member
    obtain ⟨_, above, kindP, _⟩ := settled.wf.entry member
    obtain ⟨self, foundP, _⟩ := found_of_kind kindP
    exact ⟨self, foundP⟩
  have parent : k ≠ .host → ∃ p, (w.graph ∅).parent c = some p := by
    intro noHost
    obtain ⟨p, parent, _⟩ := settled.parented found (by
        rintro rfl
        have root := settled.wf.root_owner
        change (w.graph ∅).owner globalContext = none at root
        rw [owner_graph found, owner] at root
        cases root) (kind' ▸ noHost)
    exact ⟨p, by rw [parent_graph found, parent]⟩
  cases k with
  | host =>
    rcases owns with rfl | member
    · obtain ⟨self, there, _⟩ := settled.root
      exact ⟨self, there⟩
    · exact entry member
  | command =>
    rcases owns with home | orphan
    · obtain ⟨_, _, member⟩ := settled.parent_listed home
      exact entry member
    · obtain ⟨p, home⟩ := parent (by decide)
      simp [home] at orphan
  | process =>
    rcases owns with command | orphan
    · obtain ⟨self, there, _⟩ := found_of_kind (settled.wf.running command).2.1
      exact ⟨self, there⟩
    · obtain ⟨p, home⟩ := parent (by decide)
      simp [home] at orphan
  | testcase | globalContext => exact owns.elim

/-- A process runs a command that is there, and belongs to it. -/
theorem runs (settled : Settled w) (found : w.heap.cells c = some self)
    (kind : self.kind = .process) : ∃ command selfC, self.command = some command ∧
      w.heap.cells command = some selfC ∧ selfC.kind = .command ∧ self.owner = some command := by
  have kindC : (w.graph ∅).kind c = some .process := (kind_graph found).trans (congrArg some kind)
  have other := settled.wf.not_root kindC (by decide)
  obtain ⟨p, parent, _⟩ := settled.parented found other (by simp [kind])
  cases command : (w.graph ∅).command c with
  | none =>
    have orphan := settled.wf.idle kindC command
    rw [parent_graph found, parent] at orphan
    cases orphan
  | some command' =>
    obtain ⟨_, kindCommand, owner⟩ := settled.wf.running command
    obtain ⟨selfC, there, isCommand⟩ := found_of_kind kindCommand
    rw [command_graph found (Finset.notMem_empty c)] at command
    rw [owner_graph found] at owner
    exact ⟨command', selfC, command, there, isCommand, owner⟩

theorem rise_lt (settled : Settled w) (parent : (w.graph ∅).parent c = some p) :
    (w.graph ∅).rise w.next p < (w.graph ∅).rise w.next c := by
  obtain ⟨k, kind, host, place⟩ := settled.wf.listed parent
  have member : c ∈ (w.graph ∅).slot p k := place.resolve_right fun aside =>
    Multiset.notMem_zero c aside.1
  obtain ⟨_, above, kindP, has⟩ := settled.wf.entry member
  have other := settled.wf.not_root kind (settled.slot_kind member)
  have boundC : @LT.lt Nat _ c w.next := settled.wf.bound kind
  have boundP : @LT.lt Nat _ p w.next := settled.wf.bound kindP
  have positive : @LT.lt Nat _ 0 c := Nat.pos_of_ne_zero other
  unfold Graph.rise
  rw [kind, kindP]
  cases k with
  | globalContext => exact absurd rfl (settled.slot_kind member)
  | testcase =>
    have lower : @LT.lt Nat _ p c := settled.wf.below member
    cases above <;> simp [Kind.has] at has <;> dsimp only <;> omega
  | host =>
    obtain rfl := host rfl
    have root := settled.wf.rootKind
    change (w.graph ∅).kind globalContext = _ at root
    rw [kindP] at root
    obtain rfl := Option.some.inj root
    exact Nat.zero_lt_one
  | command | process =>
    cases above with
    | host =>
      have positiveP : @LT.lt Nat _ 0 p := Nat.pos_of_ne_zero (settled.wf.not_root kindP (by decide))
      dsimp only
      omega
    | globalContext | testcase | command | process =>
      simp [Kind.has] at has <;> dsimp only <;> omega

theorem ancestors_ok (settled : Settled w) (levels : Nat) (found : w.heap.cells c = some self)
    (enough : (w.graph ∅).rise w.next c < levels) :
    ∃ chain, ancestors w levels c = .ok chain ∧ ∀ entry ∈ chain, w.heap.cells entry.1 = some entry.2 := by
  induction levels generalizing c self with
  | zero => exact absurd enough (Nat.not_lt_zero _)
  | succ levels ih =>
    simp only [ancestors, World.deref_ok.mpr found, bind, Except.bind]
    cases parent : self.parent with
    | none => exact ⟨_, rfl, by simp [found]⟩
    | some p =>
      have parent' : (w.graph ∅).parent c = some p := by rw [parent_graph found, parent]
      obtain ⟨k, _, member⟩ := settled.parent_listed parent'
      obtain ⟨_, above, kindP, _⟩ := settled.wf.entry member
      obtain ⟨selfP, foundP, _⟩ := found_of_kind kindP
      have lower := settled.rise_lt parent'
      obtain ⟨chain, walked, cells⟩ := ih foundP (by omega)
      simp only [walked]
      exact ⟨_, rfl, by simpa [found] using cells⟩

theorem chain_ok (settled : Settled w) (found : w.heap.cells c = some self) :
    ∃ chain, ancestors w (w.next + 1) c = .ok chain ∧ ∀ entry ∈ chain, w.heap.cells entry.1 = some entry.2 := by
  refine settled.ancestors_ok (w.next + 1) found (Nat.lt_succ_of_le ?_)
  have bound : @LT.lt Nat _ c w.next := settled.wf.bound (kind_graph found)
  unfold Graph.rise
  split <;> omega

end Settled

end Testbus.Server
