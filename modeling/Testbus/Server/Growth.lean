import Testbus.Server.Settled

namespace Testbus.Server

open Lib

namespace Graph

/-- A new container below another. -/
def add (G : Graph) (c : Addr) (k : Kind) (p : Addr) (owner command : Option Addr) : Graph where
  kind := Function.update G.kind c (some k)
  parent := Function.update G.parent c (some p)
  owner := Function.update G.owner c owner
  command := Function.update G.command c command
  role := G.role
  slot := (G.setSlot p k (G.slot p k ++ [c])).slot

/-- Who owns a new container, and what it runs. -/
def Links (G : Graph) (p : Addr) (owner command : Option Addr) : Kind → Prop
  | .host | .testcase => owner = none ∧ command = none
  | .command => owner = some p ∧ command = none
  | .process => ∃ x, G.kind x = some .command ∧ owner = some x ∧ command = some x
  | .globalContext => False

variable {G : Graph} {next p : Addr} {k above : Kind} {owner command : Option Addr}

/-! An array gets one child more. -/

theorem mem_slot_append : x ∈ (G.setSlot p k (G.slot p k ++ [c])).slot q l ↔ x = c ∧ q = p ∧ l = k ∨ x ∈ G.slot q l := by
  rw [slot_setSlot]
  split
  · rename_i here
    obtain ⟨rfl, rfl⟩ := here
    rw [List.mem_append, List.mem_singleton, or_comm, and_iff_left ⟨rfl, rfl⟩]
  · rename_i other
    exact (or_iff_right fun here => other here.2).symm

theorem nodup_slot_append (nodup : (G.slot q l).Nodup)
    (fresh : c ∉ G.slot q l) : ((G.setSlot p k (G.slot p k ++ [c])).slot q l).Nodup := by
  rw [slot_setSlot]
  split
  · rename_i here
    obtain ⟨rfl, rfl⟩ := here
    refine List.nodup_append.mpr ⟨nodup, List.nodup_singleton _, ?_⟩
    intro x member y same equal
    rw [List.mem_singleton.mp same] at equal
    exact fresh (equal ▸ member)
  · exact nodup

theorem Wf.add (wf : G.Wf next ∅ 0)
    (parented : ∀ {x k}, G.kind x = some k → k ≠ .host → k ≠ .globalContext → G.parent x ≠ none)
    (kindP : G.kind p = some above) (has : above.has k = true)
    (host : k = .host → p = globalContext) (links : G.Links p owner command k) :
    (G.add next k p owner command).Wf (next + 1) ∅ 0 := by
  have dead : G.kind next = none := by
    cases kind : G.kind next with
    | none => rfl
    | some _ => exact absurd (wf.bound kind) (lt_irrefl next)
  have lower : p < next := wf.bound kindP
  have notRoot : k ≠ .globalContext := by
    rintro rfl
    exact links.elim
  have alive : ∀ {x l}, G.kind x = some l → x ≠ next := by
    rintro x l kind rfl
    simp [dead] at kind
  have kinds : ∀ {x l}, G.kind x = some l → (G.add next k p owner command).kind x = some l := by
    intro x l kind
    simp [Graph.add, alive kind, kind]
  have inSlot : ∀ {q l x}, x ∈ (G.add next k p owner command).slot q l →
      x = next ∧ q = p ∧ l = k ∨ x ∈ G.slot q l := mem_slot_append.mp
  have stays : ∀ {q l x}, x ∈ G.slot q l → x ∈ (G.add next k p owner command).slot q l :=
    fun member => mem_slot_append.mpr (.inr member)
  have new : next ∈ (G.add next k p owner command).slot p k := mem_slot_append.mpr (.inl ⟨rfl, rfl, rfl⟩)
  have unlisted : ∀ q l, next ∉ G.slot q l := fun q l member => alive (wf.entry member).1 rfl
  have old : ∀ {α : Type} {f : Addr → Option α} {v x}, x ≠ next →
      Function.update f next v x = f x := fun other => Function.update_of_ne other _ _
  exact {
    root := by
      intro x
      by_cases same : x = next
      · subst same
        have other : x ≠ globalContext := by
          rintro rfl
          exact Nat.not_lt_zero p lower
        simp [Graph.add, notRoot, other]
      · simpa [Graph.add, same] using wf.root
    bound := by
      intro x l kind
      by_cases same : x = next
      · exact same ▸ Nat.lt_succ_self next
      · exact Nat.lt_succ_of_lt (wf.bound (by simpa [Graph.add, same] using kind))
    entry := by
      intro q l x member
      rcases inSlot member with ⟨rfl, rfl, rfl⟩ | member
      · exact ⟨by simp [Graph.add], above, kinds kindP, has⟩
      · obtain ⟨kind, above', kindQ, has'⟩ := wf.entry member
        exact ⟨kinds kind, above', kinds kindQ, has'⟩
    below := by
      intro q x member
      rcases inSlot member with ⟨rfl, rfl, _⟩ | member
      · exact lower
      · exact wf.below member
    nodup := fun free => nodup_slot_append (wf.nodup free) (unlisted _ _)
    listed := by
      intro x q parent
      by_cases same : x = next
      · subst same
        obtain rfl : p = q := by simpa [Graph.add] using parent
        exact ⟨k, by simp [Graph.add], host, Or.inl new⟩
      · obtain ⟨l, kind, home, place⟩ := wf.listed (c := x) (p := q) (by simpa [Graph.add, same] using parent)
        exact ⟨l, kinds kind, home, place.imp_left stays⟩
    home := by
      intro q l x member other
      rcases inSlot member with ⟨rfl, rfl, _⟩ | member
      · simp [Graph.add]
      · have apart := alive (wf.entry member).1
        simpa [Graph.add, apart] using wf.home member other
    owned := by
      intro x o owner'
      by_cases same : x = next
      · subst same
        have mine : owner = some o := by simpa [Graph.add] using owner'
        refine ⟨k, by simp [Graph.add], ?_⟩
        cases k with
        | host | testcase => simp [links.1] at mine
        | command =>
          refine Or.inl ?_
          rw [← mine, links.1]
          simp [Graph.add]
        | process =>
          obtain ⟨x', _, owns, runs⟩ := links
          refine Or.inl ?_
          rw [← mine, owns, ← runs]
          simp [Graph.add]
        | globalContext => exact links.elim
      · obtain ⟨l, kind, owns⟩ := wf.owned (c := x) (o := o) (by simpa [Graph.add, same] using owner')
        refine ⟨l, kinds kind, ?_⟩
        cases l with
        | host => exact owns.imp_right stays
        | command | process => simpa [Owns, Graph.add, same] using owns
        | testcase | globalContext => exact owns
    claimed := by
      intro q x member other
      rcases inSlot member with ⟨rfl, rfl, same⟩ | member
      · exact absurd (host same.symm) other
      · have apart := alive (wf.entry member).1
        simpa [Graph.add, apart] using wf.claimed member other
    commands := by
      intro q x member
      rcases inSlot member with ⟨rfl, rfl, same⟩ | member
      · subst same
        rw [show (G.add x Kind.command q owner command).owner x = owner by simp [Graph.add], links.1]
      · have apart := alive (wf.entry member).1
        simpa [Graph.add, apart] using wf.commands member
    running := by
      intro q x runs
      by_cases same : q = next
      · subst same
        have mine : command = some x := by simpa [Graph.add] using runs
        cases k with
        | host | testcase => simp [links.2] at mine
        | command => simp [links.2] at mine
        | process =>
          obtain ⟨x', kind, owns, command'⟩ := links
          rw [command'] at mine
          obtain rfl := Option.some.inj mine
          exact ⟨by simp [Graph.add], kinds kind, by simp [Graph.add, owns]⟩
        | globalContext => exact links.elim
      · obtain ⟨process, kind, owns⟩ := wf.running (p := q) (c := x) (by simpa [Graph.add, same] using runs)
        exact ⟨kinds process, kinds kind, by simpa [Graph.add, same] using owns⟩
    idle := by
      intro q process none_
      by_cases same : q = next
      · subst same
        have which : k = .process := by simpa [Graph.add] using process
        subst which
        obtain ⟨x', _, _, command'⟩ := links
        simp [Graph.add, command'] at none_
      · have orphan := wf.idle (p := q) (by simpa [Graph.add, same] using process)
          (by simpa [Graph.add, same] using none_)
        simpa [Graph.add, same] using orphan
    doomed := by
      intro q x runs orphan
      -- Every command has a parent.
      have kind : G.kind x = some .command := by
        by_cases same : q = next
        · subst same
          have mine : command = some x := by simpa [Graph.add] using runs
          cases k with
          | host | testcase | command => simp [links.2] at mine
          | process =>
            obtain ⟨x', kind, _, command'⟩ := links
            rw [command'] at mine
            exact Option.some.inj mine ▸ kind
          | globalContext => exact links.elim
        · exact (wf.running (p := q) (by simpa [Graph.add, same] using runs)).2.1
      have apart := alive kind
      exact absurd (by simpa [Graph.add, apart] using orphan) (parented kind (by decide) (by decide))
    role := by
      intro x some_
      obtain ⟨kind, claimed⟩ := wf.role (c := x) some_
      refine ⟨kinds kind, claimed.imp_left fun owns => ?_⟩
      simpa [Graph.add, alive kind] using owns
    begun := fun member => absurd member (Finset.notMem_empty _)
    aside := fun member => absurd member (Multiset.notMem_zero _) }

/-- A container claims a host that nobody has claimed. -/
def claim (G : Graph) (h p : Addr) (role : CString) : Graph where
  kind := G.kind
  parent := G.parent
  owner := Function.update G.owner h (some p)
  command := G.command
  role := Function.update G.role h (some role)
  slot := (G.setSlot p .host (G.slot p .host ++ [h])).slot

theorem Wf.claim {h : Addr} {role : CString} (wf : G.Wf next ∅ 0)
    (parented : ∀ {x k}, G.kind x = some k → k ≠ .host → k ≠ .globalContext → G.parent x ≠ none)
    (kindP : G.kind p = some above) (has : above.has .host = true) (kind : G.kind h = some .host)
    (free : ∀ q, q ≠ globalContext → h ∉ G.slot q .host) : (G.claim h p role).Wf next ∅ 0 := by
  have inSlot : ∀ {q l x}, x ∈ (G.claim h p role).slot q l →
      x = h ∧ q = p ∧ l = .host ∨ x ∈ G.slot q l := mem_slot_append.mp
  have stays : ∀ {q l x}, x ∈ G.slot q l → x ∈ (G.claim h p role).slot q l :=
    fun member => mem_slot_append.mpr (.inr member)
  have new : h ∈ (G.claim h p role).slot p .host := mem_slot_append.mpr (.inl ⟨rfl, rfl, rfl⟩)
  have others : ∀ {x l}, G.kind x = some l → l ≠ .host → x ≠ h := by
    rintro x l kind' other rfl
    exact other (Option.some.inj (kind'.symm.trans kind))
  exact {
    root := wf.root
    bound := wf.bound
    entry := by
      intro q l x member
      rcases inSlot member with ⟨rfl, rfl, rfl⟩ | member
      · exact ⟨kind, above, kindP, has⟩
      · exact wf.entry member
    below := by
      intro q x member
      rcases inSlot member with ⟨_, _, same⟩ | member
      · cases same
      · exact wf.below member
    nodup := by
      intro q l free'
      refine nodup_slot_append (wf.nodup free') fun member => ?_
      obtain rfl := Option.some.inj ((wf.entry member).1.symm.trans kind)
      exact free q (free'.resolve_left (by simp)) member
    listed := by
      intro x q parent
      obtain ⟨l, kind, home, place⟩ := wf.listed parent
      exact ⟨l, kind, home, place.imp_left stays⟩
    home := by
      intro q l x member other
      rcases inSlot member with ⟨_, _, same⟩ | member
      · exact absurd same other
      · exact wf.home member other
    owned := by
      intro x o owner'
      by_cases same : x = h
      · subst same
        obtain rfl : p = o := by simpa [Graph.claim] using owner'
        exact ⟨.host, kind, Or.inr new⟩
      · obtain ⟨l, kind, owns⟩ := wf.owned (c := x) (o := o) (by simpa [Graph.claim, same] using owner')
        refine ⟨l, kind, ?_⟩
        cases l with
        | host => exact owns.imp_right stays
        | command | process => exact owns
        | testcase | globalContext => exact owns
    claimed := by
      intro q x member other
      rcases inSlot member with ⟨rfl, rfl, _⟩ | member
      · exact Or.inl (by simp [Graph.claim])
      · have apart : x ≠ h := fun same => free q other (same ▸ member)
        simpa [Graph.claim, apart] using wf.claimed member other
    commands := by
      intro q x member
      rcases inSlot member with ⟨_, _, same⟩ | member
      · cases same
      · have apart := others (wf.entry member).1 (by decide)
        simpa [Graph.claim, apart] using wf.commands member
    running := by
      intro q x runs
      obtain ⟨process, kind, owns⟩ := wf.running runs
      have apart := others process (by decide)
      exact ⟨process, kind, by simpa [Graph.claim, apart] using owns⟩
    idle := wf.idle
    doomed := by
      intro q x runs orphan
      exact absurd orphan (parented (wf.running runs).2.1 (by decide) (by decide))
    role := by
      intro x some_
      by_cases same : x = h
      · subst same
        exact ⟨kind, Or.inl (by simp [Graph.claim])⟩
      · simpa [Graph.claim, same] using wf.role (c := x) (by simpa [Graph.claim, same] using some_)
    begun := fun member => absurd member (Finset.notMem_empty _)
    aside := fun member => absurd member (Multiset.notMem_zero _) }

end Graph

end Testbus.Server
