import Testbus.Server.Container

namespace Testbus.Server

open Lib

/-- What the containers say about each other; a container that is not there says nothing. -/
@[ext]
structure Graph where
  kind : Addr → Option Kind
  parent : Addr → Option Addr
  owner : Addr → Option Addr
  command : Addr → Option Addr
  role : Addr → Option CString
  slot : Addr → Kind → List Addr

/-- A process that is being destroyed leaves its command to the running code. -/
def World.graph (w : World) (exempt : Finset Addr) : Graph where
  kind c := (w.heap.cells c).map Container.kind
  parent c := (w.heap.cells c).bind Container.parent
  owner c := (w.heap.cells c).bind Container.owner
  command c := if c ∈ exempt then none else (w.heap.cells c).bind Container.command
  role c := (w.heap.cells c).bind Container.role
  slot p child := ((w.heap.cells p).map fun self => (self.children child).data).getD []

namespace Graph

/-- One container lists another. -/
def Edge (G : Graph) (p c : Addr) : Prop := ∃ k, c ∈ G.slot p k

abbrev Reach (G : Graph) : Addr → Addr → Prop := Relation.ReflTransGen G.Edge

def setParent (G : Graph) (c : Addr) (value : Option Addr) : Graph :=
  { G with parent := Function.update G.parent c value }

def setOwner (G : Graph) (c : Addr) (value : Option Addr) : Graph :=
  { G with owner := Function.update G.owner c value }

def setRole (G : Graph) (c : Addr) (value : Option CString) : Graph :=
  { G with role := Function.update G.role c value }

def setCommand (G : Graph) (c : Addr) (value : Option Addr) : Graph :=
  { G with command := Function.update G.command c value }

def setSlot (G : Graph) (p : Addr) (k : Kind) (data : List Addr) : Graph :=
  { G with slot := Function.update G.slot p (Function.update (G.slot p) k data) }

/-- A container is there no more. -/
def remove (G : Graph) (c : Addr) : Graph where
  kind := Function.update G.kind c none
  parent := Function.update G.parent c none
  owner := Function.update G.owner c none
  command := Function.update G.command c none
  role := Function.update G.role c none
  slot := Function.update G.slot c fun _ => []

/-- What an owner is to a container. -/
def Owns (G : Graph) (o c : Addr) : Kind → Prop
  | .host => o = globalContext ∨ c ∈ G.slot o .host
  | .command => G.parent c = some o ∨ G.parent c = none
  | .process => G.command c = some o ∨ G.parent c = none
  | .testcase | .globalContext => False

/-- `exempt` are the containers whose destruction has begun and is not over; `parked` are
those in arrays that a destruction has set aside. -/
structure Wf (G : Graph) (next : Addr) (exempt : Finset Addr) (parked : Multiset Addr) : Prop where
  root : ∀ {c}, G.kind c = some .globalContext ↔ c = globalContext
  bound : ∀ {c k}, G.kind c = some k → c < next
  entry : ∀ {p k c}, c ∈ G.slot p k →
    G.kind c = some k ∧ ∃ above, G.kind p = some above ∧ above.has k = true
  below : ∀ {p c}, c ∈ G.slot p .testcase → p < c
  nodup : ∀ {p k}, k ≠ .host ∨ p ≠ globalContext → (G.slot p k).Nodup
  listed : ∀ {c p}, G.parent c = some p → ∃ k, G.kind c = some k ∧
    (k = .host → p = globalContext) ∧ (c ∈ G.slot p k ∨ c ∈ parked ∧ p ∈ exempt)
  home : ∀ {p k c}, c ∈ G.slot p k → k ≠ .host → G.parent c = some p
  owned : ∀ {c o}, G.owner c = some o → ∃ k, G.kind c = some k ∧ G.Owns o c k
  claimed : ∀ {p c}, c ∈ G.slot p .host → p ≠ globalContext → G.owner c = some p ∨ p ∈ exempt
  commands : ∀ {p c}, c ∈ G.slot p .command → G.owner c = some p
  running : ∀ {p c}, G.command p = some c → G.kind p = some .process ∧
    G.kind c = some .command ∧ G.owner p = some c
  idle : ∀ {p}, G.kind p = some .process → G.command p = none → G.parent p = none
  /-- What runs a command that is being given up is out of reach. -/
  doomed : ∀ {p c}, G.command p = some c → G.parent c = none → c ∉ exempt →
    ¬ G.Reach globalContext p
  role : ∀ {c}, G.role c ≠ none → G.kind c = some .host ∧ (G.owner c ≠ none ∨ c ∈ exempt)
  begun : ∀ {c}, c ∈ exempt → G.kind c ≠ none ∧ G.parent c = none ∧ G.command c = none
  aside : ∀ {c}, c ∈ parked →
    (G.kind c = some .testcase ∨ G.kind c = some .process) ∧ ∀ p k, c ∉ G.slot p k

section Basics

variable {G : Graph} {next : Addr}

theorem slot_setSlot (G : Graph) (p q : Addr) (k l : Kind) (data : List Addr) :
    (G.setSlot p k data).slot q l = if q = p ∧ l = k then data else G.slot q l := by
  by_cases place : q = p
  · subst place
    by_cases child : l = k <;> simp [setSlot, child]
  · simp [setSlot, place]

theorem slot_setSlot_sublist {data : List Addr} (sub : data.Sublist (G.slot p k)) (q : Addr)
    (l : Kind) : ((G.setSlot p k data).slot q l).Sublist (G.slot q l) := by
  rw [slot_setSlot]
  split
  · rename_i here
    obtain ⟨rfl, rfl⟩ := here
    exact sub
  · exact List.Sublist.refl _

theorem Reach.mono {G' : Graph} (sub : ∀ p k, (G'.slot p k).Sublist (G.slot p k))
    (reach : G'.Reach a b) : G.Reach a b := by
  induction reach with
  | refl => exact Relation.ReflTransGen.refl
  | tail _ edge ih =>
    obtain ⟨k, member⟩ := edge
    exact ih.tail ⟨k, (sub _ k).subset member⟩

theorem Wf.rootKind (wf : G.Wf next exempt parked) : G.kind globalContext = some .globalContext := wf.root.mpr rfl

/-- Only a host can be in more than one array. -/
theorem Wf.slot_unique (wf : G.Wf next exempt parked) (here : c ∈ G.slot p k) (other : k ≠ .host)
    (there : c ∈ G.slot q l) : q = p ∧ l = k := by
  have kinds := (wf.entry here).1
  rw [(wf.entry there).1] at kinds
  obtain rfl := Option.some.inj kinds
  have parents := wf.home here other
  rw [wf.home there other] at parents
  exact ⟨Option.some.inj parents, rfl⟩

/-- What has no parent is in no array, unless it is a host. -/
theorem Wf.not_listed (wf : G.Wf next exempt parked) (orphan : G.parent c = none)
    (other : G.kind c ≠ some .host) (p : Addr) (k : Kind) : c ∉ G.slot p k := by
  intro member
  have kind := (wf.entry member).1
  have home := wf.home member (by rintro rfl; exact other kind)
  simp [orphan] at home

theorem Wf.not_root (wf : G.Wf next exempt parked) (kind : G.kind c = some k)
    (other : k ≠ .globalContext) : c ≠ globalContext := by
  intro same
  rw [wf.root.mpr same] at kind
  exact other (Option.some.inj kind).symm

theorem Wf.root_parent (wf : G.Wf next exempt parked) : G.parent globalContext = none := by
  cases parent : G.parent globalContext with
  | none => rfl
  | some p =>
    obtain ⟨k, kind, _, member | ⟨aside, _⟩⟩ := wf.listed parent
    · obtain ⟨_, above, _, has⟩ := wf.entry member
      rw [wf.rootKind] at kind
      obtain rfl := Option.some.inj kind
      cases above <;> simp [Kind.has] at has
    · have kinds := (wf.aside aside).1
      simp [wf.rootKind] at kinds

theorem Wf.root_owner (wf : G.Wf next exempt parked) : G.owner globalContext = none := by
  cases owner : G.owner globalContext with
  | none => rfl
  | some o =>
    obtain ⟨k, kind, owns⟩ := wf.owned owner
    rw [wf.rootKind] at kind
    obtain rfl := Option.some.inj kind
    exact owns.elim

theorem reach_listed (reach : G.Reach a c) (apart : c ≠ a) : ∃ p k, G.Reach a p ∧ c ∈ G.slot p k := by
  cases Relation.ReflTransGen.cases_tail reach with
  | inl same => exact absurd same apart
  | inr step =>
    obtain ⟨p, way, k, member⟩ := step
    exact ⟨p, k, way, member⟩

end Basics

section Operations

variable {G : Graph} {next : Addr}

theorem Wf.enter (wf : G.Wf next exempt parked) (alive : G.kind c ≠ none)
    (orphan : G.parent c = none) : (G.setCommand c none).Wf next (insert c exempt) parked where
  __ := wf
  listed parent := by
    obtain ⟨k, kind, host, place⟩ := wf.listed parent
    exact ⟨k, kind, host, place.imp_right fun aside => ⟨aside.1, Finset.mem_insert_of_mem aside.2⟩⟩
  owned := by
    intro x o owner
    obtain ⟨k, kind, owns⟩ := wf.owned owner
    refine ⟨k, kind, ?_⟩
    cases k with
    | process =>
      by_cases same : x = c
      · exact Or.inr (same ▸ orphan)
      · exact owns.imp_left fun command => by simpa [setCommand, same] using command
    | host | command | testcase | globalContext => exact owns
  claimed member other := (wf.claimed member other).imp_right Finset.mem_insert_of_mem
  running := by
    intro p x command
    by_cases same : p = c
    · simp [setCommand, same] at command
    · exact wf.running (by simpa [setCommand, same] using command)
  idle := by
    intro p process command
    by_cases same : p = c
    · exact same ▸ orphan
    · exact wf.idle process (by simpa [setCommand, same] using command)
  doomed := by
    intro p x command orphan outside
    by_cases same : p = c
    · simp [setCommand, same] at command
    · exact wf.doomed (by simpa [setCommand, same] using command) orphan fun member =>
        outside (Finset.mem_insert_of_mem member)
  role some_ := by
    obtain ⟨kind, claimed⟩ := wf.role some_
    exact ⟨kind, claimed.imp_right Finset.mem_insert_of_mem⟩
  begun := by
    intro x member
    by_cases same : x = c
    · subst same
      exact ⟨alive, orphan, by simp [setCommand]⟩
    · obtain ⟨alive, orphan, command⟩ := wf.begun (Finset.mem_of_mem_insert_of_ne member same)
      exact ⟨alive, orphan, by simpa [setCommand, same] using command⟩

theorem Wf.detach (wf : G.Wf next exempt parked) (kind : G.kind c = some k) (parent : G.parent c = some p) :
    (((G.setParent c none).setSlot p k ((G.slot p k).erase c)).setCommand c none).Wf next (insert c exempt) parked := by
  have sub : ∀ q l, ((G.setSlot p k ((G.slot p k).erase c)).slot q l).Sublist (G.slot q l) :=
    slot_setSlot_sublist List.erase_sublist
  have others : ∀ {q l x}, x ≠ c → x ∈ G.slot q l → x ∈ (G.setSlot p k ((G.slot p k).erase c)).slot q l := by
    intro q l x apart member
    rw [slot_setSlot]
    split
    · rename_i here
      obtain ⟨rfl, rfl⟩ := here
      exact (List.mem_erase_of_ne apart).mpr member
    · exact member
  have parents : ∀ {x q}, Function.update G.parent c none x = some q → x ≠ c ∧ G.parent x = some q := by
    intro x q parent
    by_cases same : x = c
    · simp [same] at parent
    · exact ⟨same, by simpa [same] using parent⟩
  obtain ⟨_, kind', hostHome, _⟩ := wf.listed parent
  obtain rfl := Option.some.inj (kind.symm.trans kind')
  have gone : ∀ {q l}, k ≠ .host → c ∉ (G.setSlot p k ((G.slot p k).erase c)).slot q l := by
    intro q l other member
    have before := (sub q l).subset member
    obtain rfl := Option.some.inj (kind.symm.trans (wf.entry before).1)
    have home := wf.home before other
    rw [parent] at home
    obtain rfl := Option.some.inj home
    rw [slot_setSlot, if_pos ⟨rfl, rfl⟩] at member
    exact (wf.nodup (Or.inl other)).not_mem_erase member
  exact {
    root := wf.root
    bound := wf.bound
    entry := fun member => wf.entry ((sub _ _).subset member)
    below := fun member => wf.below ((sub _ _).subset member)
    nodup := fun free => (wf.nodup free).sublist (sub _ _)
    listed := by
      intro x q parent
      obtain ⟨apart, parent⟩ := parents parent
      obtain ⟨l, kind, host, place⟩ := wf.listed parent
      refine ⟨l, kind, host, ?_⟩
      rcases place with member | aside
      · exact Or.inl (others apart member)
      · exact Or.inr ⟨aside.1, Finset.mem_insert_of_mem aside.2⟩
    home := by
      intro q l x member other
      have before := (sub _ _).subset member
      have apart : x ≠ c := by
        rintro rfl
        obtain rfl := Option.some.inj (kind.symm.trans (wf.entry before).1)
        exact gone other member
      change Function.update G.parent c none x = _
      rw [Function.update_of_ne apart]
      exact wf.home before other
    owned := by
      intro x o owner
      obtain ⟨l, kind', owns⟩ := wf.owned owner
      refine ⟨l, kind', ?_⟩
      cases l with
      | host =>
        rcases owns with top | member
        · exact Or.inl top
        · by_cases same : x = c
          · have host : k = .host := Option.some.inj (kind.symm.trans (same ▸ kind'))
            by_cases top : o = globalContext
            · exact Or.inl top
            · refine Or.inr ?_
              change x ∈ (G.setSlot p k ((G.slot p k).erase c)).slot o .host
              rw [slot_setSlot, if_neg (fun here => top (here.1.trans (hostHome host)))]
              exact member
          · exact Or.inr (others same member)
      | command | process =>
        by_cases same : x = c
        · subst same
          exact Or.inr (by simp [setParent, setSlot, setCommand])
        · simpa [Owns, setParent, setSlot, setCommand, same] using owns
      | testcase | globalContext => exact owns
    claimed := fun member other =>
      (wf.claimed ((sub _ _).subset member) other).imp_right Finset.mem_insert_of_mem
    commands := fun member => wf.commands ((sub _ _).subset member)
    running := by
      intro q x command
      by_cases same : q = c
      · simp [setCommand, same] at command
      · exact wf.running (by simpa [setCommand, setSlot, setParent, same] using command)
    idle := by
      intro q process command
      by_cases same : q = c
      · simp [same, setParent, setSlot, setCommand]
      · simpa [setCommand, setSlot, setParent, same] using
          wf.idle (p := q) process (by simpa [setCommand, setSlot, setParent, same] using command)
    doomed := by
      intro q x command orphan outside reach
      have apart : x ≠ c := fun same => outside (same ▸ Finset.mem_insert_self _ _)
      by_cases same : q = c
      · simp [setCommand, same] at command
      · refine wf.doomed (by simpa [setCommand, setSlot, setParent, same] using command) ?_
          (fun member => outside (Finset.mem_insert_of_mem member)) (Reach.mono sub reach)
        simpa [setParent, setSlot, setCommand, apart] using orphan
    role := by
      intro x some_
      obtain ⟨kind, claimed⟩ := wf.role some_
      exact ⟨kind, claimed.imp_right Finset.mem_insert_of_mem⟩
    begun := by
      intro x member
      by_cases same : x = c
      · subst same
        exact ⟨by simp [setParent, setSlot, setCommand, kind],
          by simp [setParent, setSlot, setCommand], by simp [setCommand]⟩
      · simpa [setParent, setSlot, setCommand, same] using wf.begun (Finset.mem_of_mem_insert_of_ne member same)
    aside := by
      intro x member
      obtain ⟨kind, unlisted⟩ := wf.aside member
      exact ⟨kind, fun q l listed => unlisted q l ((sub _ _).subset listed)⟩ }

theorem Wf.disown (wf : G.Wf next exempt parked) (begun : c ∈ exempt)
    (unlisted : ∀ p k, c ∉ G.slot p k) : (G.setOwner c none).Wf next exempt parked where
  __ := wf
  owned := by
    intro x o owner
    by_cases same : x = c
    · simp [setOwner, same] at owner
    · exact wf.owned (by simpa [setOwner, same] using owner)
  claimed := by
    intro q x member other
    have apart : x ≠ c := by rintro rfl; exact unlisted _ _ member
    simpa [setOwner, apart] using wf.claimed member other
  commands := by
    intro q x member
    have apart : x ≠ c := by rintro rfl; exact unlisted _ _ member
    simpa [setOwner, apart] using wf.commands member
  running := by
    intro q x command
    have apart : q ≠ c := by
      rintro rfl
      have hidden : G.command q = some x := command
      simp [(wf.begun begun).2.2] at hidden
    simpa [setOwner, apart] using wf.running command
  role := by
    intro x some_
    obtain ⟨kind, claimed⟩ := wf.role some_
    refine ⟨kind, ?_⟩
    by_cases same : x = c
    · exact Or.inr (same ▸ begun)
    · simpa [setOwner, same] using claimed

/-- A host is free again when the container that claimed it is being destroyed. -/
theorem Wf.releaseHost (wf : G.Wf next exempt parked) (kind : G.kind h = some .host)
    (owner : G.owner h = some o) (begun : o ∈ exempt) : ((G.setOwner h none).setRole h none).Wf next exempt parked where
  __ := wf
  owned := by
    intro x o owner
    by_cases same : x = h
    · simp [setOwner, setRole, same] at owner
    · exact wf.owned (by simpa [setOwner, setRole, same] using owner)
  claimed := by
    intro q x member other
    by_cases same : x = h
    · subst same
      rcases wf.claimed member other with claimed | exempt
      · rw [owner] at claimed
        exact Or.inr (Option.some.inj claimed ▸ begun)
      · exact Or.inr exempt
    · simpa [setOwner, setRole, same] using wf.claimed member other
  commands := by
    intro q x member
    have apart : x ≠ h := by
      rintro rfl
      have other := (wf.entry member).1
      simp [kind] at other
    simpa [setOwner, setRole, apart] using wf.commands member
  running := by
    intro q x command
    obtain ⟨process, command, runs⟩ := wf.running command
    refine ⟨process, command, ?_⟩
    have apart : q ≠ h := by
      rintro rfl
      simp [kind] at process
    simpa [setOwner, setRole, apart] using runs
  role := by
    intro x some_
    by_cases same : x = h
    · simp [setOwner, setRole, same] at some_
    · simpa [setOwner, setRole, same] using wf.role (c := x) (by simpa [setOwner, setRole, same] using some_)

theorem Wf.clearRole (wf : G.Wf next exempt parked) : (G.setRole c none).Wf next exempt parked where
  __ := wf
  role := by
    intro x some_
    by_cases same : x = c
    · simp [setRole, same] at some_
    · exact wf.role (c := x) (by simpa [setRole, same] using some_)

/-- An array of tests or processes is set aside. -/
theorem Wf.park (wf : G.Wf next exempt parked) (begun : c ∈ exempt) (kind : k = .testcase ∨ k = .process) :
    (G.setSlot c k []).Wf next exempt (↑(G.slot c k) + parked) := by
  have other : k ≠ .host := by rcases kind with rfl | rfl <;> decide
  have sub : ∀ q l, ((G.setSlot c k []).slot q l).Sublist (G.slot q l) := slot_setSlot_sublist (List.nil_sublist _)
  exact { wf with
    entry := fun member => wf.entry ((sub _ _).subset member)
    below := fun member => wf.below ((sub _ _).subset member)
    nodup := fun free => (wf.nodup free).sublist (sub _ _)
    listed := by
      intro x q parent
      obtain ⟨l, kind, host, place⟩ := wf.listed parent
      refine ⟨l, kind, host, ?_⟩
      rw [slot_setSlot]
      split
      · rename_i here
        obtain ⟨rfl, rfl⟩ := here
        refine Or.inr ⟨?_, begun⟩
        rcases place with member | aside
        · exact Multiset.mem_add.mpr (Or.inl member)
        · exact Multiset.mem_add.mpr (Or.inr aside.1)
      · exact place.imp_right fun aside => ⟨Multiset.mem_add.mpr (Or.inr aside.1), aside.2⟩
    home := fun member => wf.home ((sub _ _).subset member)
    owned := by
      intro x o owner
      obtain ⟨l, kind', owns⟩ := wf.owned owner
      refine ⟨l, kind', ?_⟩
      cases l with
      | host =>
        refine owns.imp_right fun member => ?_
        rw [slot_setSlot, if_neg (fun here => other here.2.symm)]
        exact member
      | command | process | testcase | globalContext => exact owns
    claimed := fun member => wf.claimed ((sub _ _).subset member)
    commands := fun member => wf.commands ((sub _ _).subset member)
    doomed := fun command orphan outside reach =>
      wf.doomed command orphan outside (Reach.mono sub reach)
    aside := by
      intro x member
      rcases Multiset.mem_add.mp member with member | member
      · have kinds := (wf.entry (Multiset.mem_coe.mp member)).1
        refine ⟨kind.imp (fun same => kinds.trans (congrArg some same)) fun same =>
          kinds.trans (congrArg some same), ?_⟩
        intro q l listed
        obtain ⟨rfl, rfl⟩ := wf.slot_unique (Multiset.mem_coe.mp member) other ((sub q l).subset listed)
        simp [slot_setSlot] at listed
      · obtain ⟨kinds, unlisted⟩ := wf.aside member
        exact ⟨kinds, fun q l listed => unlisted q l ((sub _ _).subset listed)⟩ }

theorem Wf.unpark (wf : G.Wf next exempt (x ::ₘ parked)) : (G.setParent x none).Wf next exempt parked := by
  obtain ⟨kinds, unlisted⟩ := wf.aside (Multiset.mem_cons_self x parked)
  have parents : ∀ {y q}, Function.update G.parent x none y = some q → y ≠ x ∧ G.parent y = some q := by
    intro y q parent
    by_cases same : y = x
    · simp [same] at parent
    · exact ⟨same, by simpa [same] using parent⟩
  exact { wf with
    listed := by
      intro y q parent
      obtain ⟨apart, parent⟩ := parents parent
      obtain ⟨l, kind, host, place⟩ := wf.listed parent
      refine ⟨l, kind, host, place.imp_right fun aside => ⟨?_, aside.2⟩⟩
      exact (Multiset.mem_cons.mp aside.1).resolve_left apart
    home := by
      intro q l y member other
      have apart : y ≠ x := by rintro rfl; exact unlisted _ _ member
      simpa [setParent, apart] using wf.home member other
    owned := by
      intro y o owner
      obtain ⟨l, kind, owns⟩ := wf.owned owner
      refine ⟨l, kind, ?_⟩
      by_cases same : y = x
      · subst same
        rcases kinds with test | process
        · obtain rfl := Option.some.inj (test.symm.trans kind)
          exact owns
        · obtain rfl := Option.some.inj (process.symm.trans kind)
          exact Or.inr (by simp [setParent])
      · cases l with
        | host => exact owns
        | command | process => simpa [Owns, setParent, same] using owns
        | testcase | globalContext => exact owns
    idle := by
      intro q process command
      by_cases same : q = x
      · simp [same, setParent]
      · simpa [setParent, same] using wf.idle (p := q) process command
    doomed := by
      intro q y command orphan outside
      have apart : y ≠ x := by
        rintro rfl
        have kind := (wf.running command).2.1
        rcases kinds with test | process <;> simp_all
      exact wf.doomed command (by simpa [setParent, apart] using orphan) outside
    begun := by
      intro y member
      obtain ⟨alive, orphan, command⟩ := wf.begun member
      refine ⟨alive, ?_, command⟩
      by_cases same : y = x <;> simp [setParent, same, orphan]
    aside := fun member => wf.aside (Multiset.mem_cons_of_mem member) }

/-- A host that has no parent any more leaves an array of hosts, which keeps the hosts that are
listed or owned by it. -/
theorem Wf.dropHost (wf : G.Wf next exempt parked) {hosts : List Addr}
    (front : hosts.Sublist (G.slot p .host)) (kind : G.kind h = some .host)
    (listed : ∀ {y q l}, y ≠ h → (l = .host → q = globalContext) → y ∈ G.slot q l →
      y ∈ (G.setSlot p .host hosts).slot q l)
    (owned : ∀ {y o}, G.owner y = some o → o ≠ globalContext → y ∈ G.slot o .host →
      y ∈ (G.setSlot p .host hosts).slot o .host) :
    ((G.setSlot p .host hosts).setParent h none).Wf next exempt parked := by
  have sub : ∀ q l, ((G.setSlot p .host hosts).slot q l).Sublist (G.slot q l) := slot_setSlot_sublist front
  have parents : ∀ {y q}, Function.update G.parent h none y = some q → y ≠ h ∧ G.parent y = some q := by
    intro y q parent
    by_cases same : y = h
    · simp [same] at parent
    · exact ⟨same, by simpa [same] using parent⟩
  have other : ∀ {l y}, G.kind y = some l → l ≠ .host → y ≠ h := by
    rintro l y kind' other rfl
    exact other (Option.some.inj (kind'.symm.trans kind))
  exact { wf with
    entry := fun member => wf.entry ((sub _ _).subset member)
    below := fun member => wf.below ((sub _ _).subset member)
    nodup := fun free => (wf.nodup free).sublist (sub _ _)
    listed := by
      intro y q parent
      obtain ⟨apart, parent⟩ := parents parent
      obtain ⟨l, kind, home, place⟩ := wf.listed parent
      exact ⟨l, kind, home, place.imp_left (listed apart home)⟩
    home := by
      intro q l y member free
      have before := (sub _ _).subset member
      have different := other (wf.entry before).1 free
      simpa [setSlot, setParent, different] using wf.home before free
    owned := by
      intro y o owner
      obtain ⟨l, kind', owns⟩ := wf.owned owner
      refine ⟨l, kind', ?_⟩
      cases l with
      | host =>
        by_cases top : o = globalContext
        · exact Or.inl top
        · exact owns.imp_right (owned owner top)
      | command | process =>
        have different := other kind' (by decide)
        simpa [Owns, setSlot, setParent, different] using owns
      | testcase | globalContext => exact owns
    claimed := fun member => wf.claimed ((sub _ _).subset member)
    commands := fun member => wf.commands ((sub _ _).subset member)
    idle := by
      intro q process command
      have different := other (y := q) process (by decide)
      simpa [setSlot, setParent, different] using wf.idle (p := q) process command
    doomed := by
      intro q y command orphan outside reach
      have different := other (wf.running command).2.1 (by decide)
      refine wf.doomed command ?_ outside (Reach.mono sub reach)
      simpa [setSlot, setParent, different] using orphan
    begun := by
      intro y member
      obtain ⟨alive, orphan, command⟩ := wf.begun member
      refine ⟨alive, ?_, command⟩
      by_cases same : y = h <;> simp [setSlot, setParent, same, orphan]
    aside := by
      intro y member
      obtain ⟨kinds, unlisted⟩ := wf.aside member
      exact ⟨kinds, fun q l listed => unlisted q l ((sub _ _).subset listed)⟩ }

/-- A container that is being destroyed gives up the last host of its array. -/
theorem Wf.popHost (wf : G.Wf next exempt parked) (apart : c ≠ globalContext)
    (last : G.slot c .host = hosts ++ [h]) (unowned : G.owner h ≠ some c) :
    ((G.setSlot c .host hosts).setParent h none).Wf next exempt parked := by
  have kind : G.kind h = some .host := (wf.entry (p := c) (k := .host) (by simp [last])).1
  refine wf.dropHost (last ▸ List.sublist_append_left hosts [h]) kind ?_ ?_
  · intro y q l _ home member
    rw [slot_setSlot, if_neg (fun here => apart (here.1.symm.trans (home here.2)))]
    exact member
  · intro y o owner _ member
    rw [slot_setSlot]
    split
    · rename_i here
      obtain ⟨rfl, -⟩ := here
      rw [last] at member
      rcases List.mem_append.mp member with member | member
      · exact member
      · obtain rfl := List.mem_singleton.mp member
        exact absurd owner unowned
    · exact member

theorem Wf.removeHost (wf : G.Wf next exempt parked) (member : h ∈ G.slot globalContext .host) :
    ((G.setSlot globalContext .host ((G.slot globalContext .host).erase h)).setParent h none).Wf
      next exempt parked := by
  refine wf.dropHost List.erase_sublist (wf.entry member).1 ?_ ?_
  · intro y q l apart _ member
    rw [slot_setSlot]
    split
    · rename_i here
      obtain ⟨rfl, rfl⟩ := here
      exact (List.mem_erase_of_ne apart).mpr member
    · exact member
  · intro y o _ top member
    rw [slot_setSlot, if_neg fun here => top here.1]
    exact member

/-- What the destruction of a container leaves of it. -/
structure Bare (G : Graph) (c : Addr) : Prop where
  parent : G.parent c = none
  command : G.command c = none
  role : G.role c = none
  slot : ∀ k, G.slot c k = []

theorem Wf.leave (wf : G.Wf next (insert c exempt) parked) (bare : G.Bare c)
    (free : ∀ y, G.Reach globalContext y → G.owner y ≠ some c)
    (none_ : ∀ x ∈ parked, G.parent x ≠ some c) : G.Wf next exempt parked where
  __ := wf
  listed := by
    intro x p parent
    obtain ⟨k, kind, host, place⟩ := wf.listed parent
    refine ⟨k, kind, host, place.imp_right fun aside => ⟨aside.1, ?_⟩⟩
    refine Finset.mem_of_mem_insert_of_ne aside.2 ?_
    rintro rfl
    exact none_ x aside.1 parent
  claimed := by
    intro p x member other
    refine (wf.claimed member other).imp_right fun begun => ?_
    refine Finset.mem_of_mem_insert_of_ne begun ?_
    rintro rfl
    simp [bare.slot] at member
  doomed := by
    intro p x command orphan outside reach
    by_cases same : x = c
    · subst same
      exact free p reach (wf.running command).2.2
    · exact wf.doomed command orphan (fun member => outside (Finset.mem_of_mem_insert_of_ne member same)) reach
  role := by
    intro x some_
    obtain ⟨kind, claimed⟩ := wf.role some_
    refine ⟨kind, claimed.imp_right fun begun => ?_⟩
    refine Finset.mem_of_mem_insert_of_ne begun ?_
    rintro rfl
    exact some_ bare.role
  begun member := wf.begun (Finset.mem_insert_of_mem member)

theorem Wf.free (wf : G.Wf next exempt parked) (bare : G.Bare c) (apart : c ≠ globalContext)
    (unlisted : ∀ p k, c ∉ G.slot p k) (unused : ∀ p, G.command p ≠ some c) (outside : c ∉ exempt)
    (unparked : c ∉ parked) : (G.remove c).Wf next exempt parked := by
  have sub : ∀ q l, ((G.remove c).slot q l).Sublist (G.slot q l) := by
    intro q l
    by_cases same : q = c <;> simp [remove, same, bare.slot]
  have slots : ∀ q l, (G.remove c).slot q l = G.slot q l := by
    intro q l
    by_cases same : q = c <;> simp [remove, same, bare.slot]
  have kept : ∀ {α : Type} {f : Addr → Option α} {x value},
      Function.update f c none x = some value ↔ x ≠ c ∧ f x = some value := by
    intro α f x value
    by_cases same : x = c <;> simp [same]
  have lives : ∀ {x k}, x ≠ c → G.kind x = some k → (G.remove c).kind x = some k :=
    fun other kind => kept.mpr ⟨other, kind⟩
  have member_ne : ∀ {q l x}, x ∈ G.slot q l → x ≠ c := by
    rintro q l x member rfl
    exact unlisted q l member
  exact {
    root := by
      intro x
      change Function.update G.kind c none x = _ ↔ _
      rw [kept, wf.root]
      exact ⟨And.right, fun same => ⟨same ▸ apart.symm, same⟩⟩
    bound := fun kind => wf.bound (kept.mp kind).2
    entry := by
      intro p k x member
      rw [slots] at member
      obtain ⟨kind, above, kinds, has⟩ := wf.entry member
      have place : p ≠ c := by
        rintro rfl
        simp [bare.slot] at member
      exact ⟨lives (member_ne member) kind, above, lives place kinds, has⟩
    below := fun member => wf.below (slots _ _ ▸ member)
    nodup := fun free => (slots _ _).symm ▸ wf.nodup free
    listed := by
      intro x p parent
      obtain ⟨other, parent⟩ := kept.mp parent
      obtain ⟨k, kind, host, place⟩ := wf.listed parent
      exact ⟨k, lives other kind, host, place.imp_left fun member => (slots _ _).symm ▸ member⟩
    home := by
      intro p k x member free
      rw [slots] at member
      exact kept.mpr ⟨member_ne member, wf.home member free⟩
    owned := by
      intro x o owner
      obtain ⟨other, owner⟩ := kept.mp owner
      obtain ⟨k, kind, owns⟩ := wf.owned owner
      refine ⟨k, lives other kind, ?_⟩
      cases k with
      | host => exact owns.imp_right fun member => (slots _ _).symm ▸ member
      | command | process => simpa [Owns, remove, other] using owns
      | testcase | globalContext => exact owns
    claimed := by
      intro p x member top
      rw [slots] at member
      exact (wf.claimed member top).imp_left fun owner => kept.mpr ⟨member_ne member, owner⟩
    commands := by
      intro p x member
      rw [slots] at member
      exact kept.mpr ⟨member_ne member, wf.commands member⟩
    running := by
      intro p x command
      obtain ⟨other, command⟩ := kept.mp command
      obtain ⟨process, kind, runs⟩ := wf.running command
      have live : x ≠ c := fun same => unused p (same ▸ command)
      exact ⟨lives other process, lives live kind, kept.mpr ⟨other, runs⟩⟩
    idle := by
      intro p process command
      obtain ⟨other, process⟩ := kept.mp process
      simpa [remove, other] using wf.idle process (by simpa [remove, other] using command)
    doomed := by
      intro p x command orphan outside reach
      obtain ⟨_, command⟩ := kept.mp command
      have live : x ≠ c := fun same => unused p (same ▸ command)
      refine wf.doomed command ?_ outside (Reach.mono sub reach)
      simpa [remove, live] using orphan
    role := by
      intro x some_
      have other : x ≠ c := by
        rintro rfl
        simp [remove] at some_
      obtain ⟨kind, claimed⟩ := wf.role (c := x) (by simpa [remove, other] using some_)
      exact ⟨lives other kind, by simpa [remove, other] using claimed⟩
    begun := by
      intro x begun
      have other : x ≠ c := by
        rintro rfl
        exact outside begun
      simpa [remove, other] using wf.begun begun
    aside := by
      intro x parked
      have other : x ≠ c := by
        rintro rfl
        exact unparked parked
      obtain ⟨kinds, free⟩ := wf.aside parked
      refine ⟨by simpa [remove, other] using kinds, fun p k member => ?_⟩
      exact free p k (slots p k ▸ member) }

end Operations

end Graph

end Testbus.Server
