import Testbus.Lib.Store

/-! Reference counting over a store. The references that running code holds are tokens:
a cell's count is the number of references to it in the store plus that of its tokens. -/

namespace Lib

namespace Store

/-- The store whose cells know where they are. -/
def tag (store : Store α) : Store (Addr × α) where
  cells addr := (store.cells addr).map fun value => (addr, value)
  live := store.live
  filled addr := by rw [store.filled, Option.isSome_map]

theorem tag_modify (store : Store α) (addr : Addr) (change : α → α) :
    (store.modify addr change).tag = store.tag.modify addr fun cell => (cell.1, change cell.2) := by
  apply ext_cells
  funext other
  by_cases same : other = addr
  · subst same
    cases found : store.cells other <;> simp [tag, found]
  · simp [tag, modify_of_ne same]

theorem tag_free (store : Store α) (addr : Addr) : (store.free addr).tag = store.tag.free addr := by
  apply ext_cells
  funext other
  by_cases same : other = addr
  · subst same
    simp [tag]
  · simp [tag, free_of_ne same]

theorem tag_alloc (store : Store α) (addr : Addr) (value : α) :
    (store.alloc addr value).tag = store.tag.alloc addr (addr, value) := by
  apply ext_cells
  funext other
  by_cases same : other = addr
  · subst same
    simp [tag]
  · simp [tag, alloc_of_ne same]

theorem tag_found {store : Store α} (found : store.cells addr = some value) :
    store.tag.cells addr = some (addr, value) := by
  simp [tag, found]

/-- How often the cells of the store refer to `addr`. -/
def refs (out : Addr → α → Multiset Addr) (store : Store α) (addr : Addr) : Nat :=
  store.tag.total fun cell => (out cell.1 cell.2).count addr

variable {count : α → Nat} {store : Store α} {tokens tokens' : Multiset Addr} {value : α}

theorem le_total (measure : α → Nat) (found : store.cells addr = some value) : measure value ≤ store.total measure := by
  have freed := total_free found measure
  omega

theorem mem_refs (found : store.cells addr = some value) (refers : other ∈ out addr value) :
    0 < store.refs out other := by
  have some_ := Multiset.count_pos.mpr refers
  have bound : (out addr value).count other ≤ store.refs out other :=
    le_total (fun cell : Addr × α => (out cell.1 cell.2).count other) (tag_found found)
  omega

theorem exists_refs (referred : 0 < store.refs out other) :
    ∃ addr value, store.cells addr = some value ∧ other ∈ out addr value := by
  by_contra none
  have zero : store.refs out other = 0 := by
    refine total_eq_zero_iff.mpr fun addr cell found => ?_
    obtain ⟨value, there, rfl⟩ := Option.map_eq_some_iff.mp found
    refine Multiset.count_eq_zero.mpr fun refers => none ⟨addr, value, there, refers⟩
  omega

theorem refs_free (found : store.cells addr = some value) (other : Addr) :
    (store.free addr).refs out other + (out addr value).count other = store.refs out other := by
  rw [refs, tag_free]
  exact total_free (tag_found found) _

theorem exists_refs_other (found : store.cells addr = some value)
    (fewer : (out addr value).count other < store.refs out other) :
    ∃ place cell, place ≠ addr ∧ store.cells place = some cell ∧ other ∈ out place cell := by
  have split : _ = store.refs out other := refs_free found other
  have some_ : 0 < (store.free addr).refs out other := by omega
  obtain ⟨place, cell, there, refers⟩ := exists_refs some_
  have apart : place ≠ addr := by
    rintro rfl
    rw [free_self] at there
    cases there
  rw [free_of_ne apart] at there
  exact ⟨place, cell, apart, there, refers⟩

theorem mem_refs_both (found : store.cells addr = some value)
    (there : store.cells place = some cell) (apart : place ≠ addr) (refers : other ∈ out addr value)
    (refers' : other ∈ out place cell) : 1 < store.refs out other := by
  have split : _ = store.refs out other := refs_free found other
  have here := Multiset.count_pos.mpr refers
  have rest : 0 < (store.free addr).refs out other := mem_refs ((free_of_ne apart).trans there) refers'
  omega

theorem refs_modify (found : store.cells addr = some value) (change : α → α) (other : Addr) :
    (store.modify addr change).refs out other + (out addr value).count other =
      store.refs out other + (out addr (change value)).count other := by
  have changed : ∀ at_, (store.tag.modify addr fun cell => (cell.1, change cell.2)).cells at_ =
      (store.tag.cells at_).map (if at_ = addr then fun cell => (cell.1, change cell.2) else id) := by
    intro at_
    rw [cells_modify]
    by_cases same : at_ = addr <;> simp [same]
  have others : ∀ at_ (cell : Addr × α), at_ ≠ addr →
      (fun cell : Addr × α => (out cell.1 cell.2).count other)
        ((if at_ = addr then fun cell => (cell.1, change cell.2) else id) cell) =
        (out cell.1 cell.2).count other := by
    intro at_ cell apart
    simp [apart]
  have balance := total_change (fun cell : Addr × α => (out cell.1 cell.2).count other) changed (tag_found found) others
  simpa [refs, tag_modify] using balance

theorem refs_congr (same : ∀ addr value, store.cells addr = some value → out addr value = out' addr value)
    (other : Addr) : store.refs out other = store.refs out' other := by
  refine Finset.sum_congr rfl fun addr _ => ?_
  cases found : store.cells addr with
  | none => simp [tag, found]
  | some value => simp [tag, found, same addr value found]

end Store

open Store

/-- Every count is right, and what is referred to or held is there. -/
structure Counted {α : Type} (out : Addr → α → Multiset Addr) (count : α → Nat) (store : Store α)
    (tokens : Multiset Addr) : Prop where
  counts : ∀ addr value, store.cells addr = some value →
    count value = store.refs out addr + tokens.count addr
  positive : ∀ addr value, store.cells addr = some value → 0 < count value
  present : ∀ addr, store.cells addr = none → store.refs out addr + tokens.count addr = 0

namespace Counted

variable {count : α → Nat} {store : Store α} {tokens tokens' : Multiset Addr} {value : α}

theorem live (counted : Counted out count store tokens) (held : addr ∈ tokens) :
    ∃ value, store.cells addr = some value := by
  cases found : store.cells addr with
  | some value => exact ⟨value, rfl⟩
  | none =>
    have := counted.present addr found
    have := Multiset.count_pos.mpr held
    omega

/-- A change of one cell and of the tokens that moves references between the two, or
counts those that come and go. -/
theorem modify (counted : Counted out count store tokens)
    (found : store.cells addr = some value) (change : α → α) (positive : 0 < count (change value))
    (moved : out addr (change value) + tokens' + Multiset.replicate (count value) addr =
      out addr value + tokens + Multiset.replicate (count (change value)) addr) :
    Counted out count (store.modify addr change) tokens' := by
  have balance : ∀ other, (store.modify addr change).refs out other + tokens'.count other +
      (if addr = other then count value else 0) =
        store.refs out other + tokens.count other +
          if addr = other then count (change value) else 0 := by
    intro other
    have refs : (store.modify addr change).refs out other + (out addr value).count other =
        store.refs out other + (out addr (change value)).count other := refs_modify found change other
    have tokens := congrArg (Multiset.count other) moved
    simp only [Multiset.count_add, Multiset.count_replicate] at tokens
    omega
  constructor
  · intro other cell at_
    have now := balance other
    by_cases same : addr = other
    · subst same
      rw [modify_self, found] at at_
      cases at_
      have := counted.counts addr value found
      simp only [if_true] at now
      omega
    · rw [modify_of_ne (Ne.symm same)] at at_
      have := counted.counts other cell at_
      simp only [same, if_false] at now
      omega
  · intro other cell at_
    by_cases same : other = addr
    · subst same
      rw [modify_self, found] at at_
      cases at_
      exact positive
    · rw [modify_of_ne same] at at_
      exact counted.positive other cell at_
  · intro other absent
    have now := balance other
    have apart : addr ≠ other := by
      rintro rfl
      simp [found] at absent
    rw [modify_of_ne (Ne.symm apart)] at absent
    have := counted.present other absent
    simp only [apart, if_false] at now
    omega

theorem take (counted : Counted out count store tokens) (found : store.cells addr = some value)
    (change : α → α) (more : count (change value) = count value + 1) (same : out addr (change value) = out addr value) :
    Counted out count (store.modify addr change) (addr ::ₘ tokens) := by
  apply counted.modify found change (by omega)
  rw [same, more, Multiset.replicate_succ]
  simp only [Multiset.add_cons, Multiset.cons_add]

theorem drop (counted : Counted out count store (addr ::ₘ tokens))
    (found : store.cells addr = some value) (change : α → α)
    (less : count value = count (change value) + 1) (others : 1 < count value)
    (same : out addr (change value) = out addr value) : Counted out count (store.modify addr change) tokens := by
  apply counted.modify found change (by omega)
  rw [same, less, Multiset.replicate_succ]
  simp only [Multiset.add_cons, Multiset.cons_add]

/-- References of a cell become references of the code, or the other way round. -/
theorem move (counted : Counted out count store tokens) (found : store.cells addr = some value)
    (change : α → α) (same : count (change value) = count value)
    (moved : out addr (change value) + tokens' = out addr value + tokens) :
    Counted out count (store.modify addr change) tokens' := by
  apply counted.modify found change (same ▸ counted.positive addr value found)
  rw [same, moved]

/-- Another store whose cells have the same counts and references. -/
theorem transfer (counted : Counted out count store tokens) (same : ∀ addr, (store'.cells addr).map (fun value => (count value, out addr value)) =
      (store.cells addr).map fun value => (count value, out addr value)) :
    Counted out count store' tokens := by
  have known : ∀ {addr value}, store'.cells addr = some value →
      ∃ old, store.cells addr = some old ∧ count value = count old ∧ out addr value = out addr old := by
    intro addr value found
    have here := same addr
    rw [found] at here
    obtain ⟨old, found', pair⟩ := Option.map_eq_some_iff.mp here.symm
    obtain ⟨counts, outs⟩ := Prod.mk.inj pair
    exact ⟨old, found', counts.symm, outs.symm⟩
  have lives : store'.live = store.live := by
    ext addr
    rw [store'.filled, store.filled, ← Option.isSome_map (f := fun value =>
      (count value, out addr value)), same, Option.isSome_map]
  have refs : ∀ other, store'.refs out other = store.refs out other := by
    intro other
    have lives' : store'.tag.live = store.tag.live := lives
    rw [Store.refs, Store.refs, total, total, lives']
    refine Finset.sum_congr rfl fun addr _ => ?_
    have here := congrArg (Option.map fun pair : Nat × Multiset Addr => pair.2.count other) (same addr)
    simpa [tag, Option.map_map, Function.comp_def] using congrArg (fun n => n.getD 0) here
  constructor
  · intro addr value found
    obtain ⟨old, found', counts, _⟩ := known found
    rw [counts, refs, counted.counts addr old found']
  · intro addr value found
    obtain ⟨old, found', counts, _⟩ := known found
    rw [counts]
    exact counted.positive addr old found'
  · intro addr none_
    have here := same addr
    rw [none_] at here
    rw [refs]
    exact counted.present addr (Option.map_eq_none_iff.mp here.symm)

theorem keep (counted : Counted out count store tokens) (addr : Addr) (change : α → α)
    (same : ∀ value, count (change value) = count value) (others : ∀ value, out addr (change value) = out addr value) :
    Counted out count (store.modify addr change) tokens := by
  cases found : store.cells addr with
  | some value => exact counted.move found change (same value) (by rw [others])
  | none =>
    have unchanged : store.modify addr change = store := by
      apply ext_cells
      funext other
      by_cases here : other = addr
      · subst here
        simp [found]
      · rw [modify_of_ne here]
    rwa [unchanged]

/-- References of a cell become references of the code when the cell counts as having none. -/
theorem restate (counted : Counted out count store tokens) (found : store.cells addr = some value)
    (others : ∀ other value, other ≠ addr → out other value = out' other value)
    (moved : out' addr value + tokens' = out addr value + tokens) : Counted out' count store tokens' := by
  have rest : ∀ other, (store.free addr).refs out other = (store.free addr).refs out' other := by
    intro other
    refine refs_congr (fun place value there => others place value ?_) other
    rintro rfl
    simp at there
  have balance : ∀ other, store.refs out' other + tokens'.count other = store.refs out other + tokens.count other := by
    intro other
    have before := total_free (tag_found found) fun cell : Addr × α => (out cell.1 cell.2).count other
    have after := total_free (tag_found found) fun cell : Addr × α => (out' cell.1 cell.2).count other
    have rest := rest other
    rw [Store.refs, Store.refs, tag_free] at rest
    have moved := congrArg (Multiset.count other) moved
    simp only [Multiset.count_add] at moved
    dsimp only at before after
    rw [Store.refs, Store.refs]
    omega
  constructor
  · intro other cell at_
    rw [balance]
    exact counted.counts other cell at_
  · exact counted.positive
  · intro other absent
    rw [balance]
    exact counted.present other absent

/-- The last reference to a cell that refers to nothing goes with the cell. -/
theorem free (counted : Counted out count store (addr ::ₘ tokens))
    (found : store.cells addr = some value) (last : count value = 1) (bare : out addr value = 0) :
    Counted out count (store.free addr) tokens := by
  have refs : ∀ other, (store.free addr).refs out other = store.refs out other := by
    intro other
    have split : _ = store.refs out other := refs_free found other
    simpa [bare] using split
  have here := counted.counts addr value found
  rw [Multiset.count_cons_self, last] at here
  constructor
  · intro other cell at_
    by_cases same : other = addr
    · subst same
      simp at at_
    · rw [free_of_ne same] at at_
      rw [refs, counted.counts other cell at_, Multiset.count_cons_of_ne same]
  · intro other cell at_
    by_cases same : other = addr
    · subst same
      simp at at_
    · rw [free_of_ne same] at at_
      exact counted.positive other cell at_
  · intro other absent
    rw [refs]
    by_cases same : other = addr
    · subst same
      omega
    · rw [free_of_ne same] at absent
      have := counted.present other absent
      rwa [Multiset.count_cons_of_ne same] at this

/-- A new cell takes its references from the tokens; the code holds the one to it. -/
theorem alloc (counted : Counted out count store (out addr value + tokens))
    (absent : store.cells addr = none) (first : count value = 1) :
    Counted out count (store.alloc addr value) (addr ::ₘ tokens) := by
  have refs : ∀ other, (store.alloc addr value).refs out other = store.refs out other + (out addr value).count other := by
    intro other
    rw [Store.refs, tag_alloc]
    exact total_alloc (by simp [tag, absent]) fun cell : Addr × α => (out cell.1 cell.2).count other
  have unknown := counted.present addr absent
  rw [Multiset.count_add] at unknown
  constructor
  · intro other cell at_
    rw [refs]
    by_cases same : other = addr
    · subst same
      rw [alloc_self] at at_
      cases at_
      rw [first, Multiset.count_cons_self]
      omega
    · rw [alloc_of_ne same] at at_
      rw [counted.counts other cell at_, Multiset.count_cons_of_ne same, Multiset.count_add]
      omega
  · intro other cell at_
    by_cases same : other = addr
    · subst same
      rw [alloc_self] at at_
      cases at_
      omega
    · rw [alloc_of_ne same] at at_
      exact counted.positive other cell at_
  · intro other absent'
    have apart : other ≠ addr := by
      rintro rfl
      simp at absent'
    rw [alloc_of_ne apart] at absent'
    have := counted.present other absent'
    rw [Multiset.count_add] at this
    rw [refs, Multiset.count_cons_of_ne apart]
    omega

end Counted

end Lib
