import Mathlib

/-! A store of cells at addresses. An address may be used again once it was freed. -/

namespace Lib

abbrev Addr := Nat

/-- The live addresses are exactly those whose cell is filled. -/
structure Store (α : Type) where
  cells : Addr → Option α
  live : Finset Addr
  filled : ∀ addr, addr ∈ live ↔ (cells addr).isSome = true

namespace Store

def empty : Store α := ⟨fun _ => none, ∅, by simp⟩

variable {store : Store α}

theorem mem_live_iff : addr ∈ store.live ↔ ∃ value, store.cells addr = some value := by
  rw [store.filled, Option.isSome_iff_exists]

theorem mem_live (found : store.cells addr = some value) : addr ∈ store.live := mem_live_iff.mpr ⟨value, found⟩

theorem ext_cells {first second : Store α} (same : first.cells = second.cells) : first = second := by
  have lives : first.live = second.live := by
    ext addr
    rw [first.filled, second.filled, same]
  cases first
  cases second
  simp_all

/-- Apply `change` to a cell; an address that is not live stays untouched. -/
def modify (store : Store α) (addr : Addr) (change : α → α) : Store α where
  cells := Function.update store.cells addr ((store.cells addr).map change)
  live := store.live
  filled := by
    intro other
    by_cases same : other = addr
    · subst same; simp [store.filled]
    · simp [Function.update_of_ne same, store.filled]

def alloc (store : Store α) (addr : Addr) (value : α) : Store α where
  cells := Function.update store.cells addr (some value)
  live := insert addr store.live
  filled := by
    intro other
    by_cases same : other = addr
    · subst same; simp
    · simp [same, store.filled]

def free (store : Store α) (addr : Addr) : Store α where
  cells := Function.update store.cells addr none
  live := store.live.erase addr
  filled := by
    intro other
    by_cases same : other = addr
    · subst same; simp
    · simp [same, store.filled]

@[simp] theorem modify_self (store : Store α) (addr : Addr) (change : α → α) :
    (store.modify addr change).cells addr = (store.cells addr).map change := by
  simp [modify]

theorem modify_of_ne {change : α → α} (different : other ≠ addr) :
    (store.modify addr change).cells other = store.cells other := by
  simp [modify, Function.update_of_ne different]

theorem cells_modify (store : Store α) (addr other : Addr) (change : α → α) :
    (store.modify addr change).cells other =
      if other = addr then (store.cells other).map change else store.cells other := by
  by_cases same : other = addr
  · subst same; simp
  · simp [modify_of_ne same, same]

@[simp] theorem alloc_self (store : Store α) (addr : Addr) (value : α) :
    (store.alloc addr value).cells addr = some value := by
  simp [alloc]

variable {value : α}

theorem alloc_of_ne (different : other ≠ addr) : (store.alloc addr value).cells other = store.cells other := by
  simp [alloc, Function.update_of_ne different]

@[simp] theorem free_self (store : Store α) (addr : Addr) : (store.free addr).cells addr = none := by
  simp [free]

theorem free_of_ne (different : other ≠ addr) : (store.free addr).cells other = store.cells other := by
  simp [free, Function.update_of_ne different]

theorem free_alloc (absent : store.cells addr = none) : (store.alloc addr value).free addr = store := by
  apply ext_cells
  funext other
  by_cases same : other = addr
  · subst same; simp [absent]
  · rw [free_of_ne same, alloc_of_ne same]

theorem modify_alloc (store : Store α) (addr : Addr) (value : α) (change : α → α) :
    (store.alloc addr value).modify addr change = store.alloc addr (change value) := by
  apply ext_cells
  funext other
  by_cases same : other = addr
  · subst same; simp
  · rw [modify_of_ne same, alloc_of_ne same, alloc_of_ne same]

theorem modify_modify (store : Store α) (addr : Addr) (first second : α → α) :
    (store.modify addr first).modify addr second = store.modify addr (second ∘ first) := by
  apply ext_cells
  funext other
  by_cases same : other = addr
  · subst same; simp
  · rw [modify_of_ne same, modify_of_ne same, modify_of_ne same]

/-- The sum of a measure over all live cells. -/
def total (store : Store α) (measure : α → Nat) : Nat :=
  ∑ addr ∈ store.live, ((store.cells addr).map measure).getD 0

private theorem total_split (found : store.cells addr = some value) (measure : α → Nat) :
    store.total measure = measure value + ∑ other ∈ store.live.erase addr, ((store.cells other).map measure).getD 0 := by
  rw [total, ← Finset.add_sum_erase _ _ (mem_live found)]
  simp [found]

/-- A change of the cells that moves the measure of one cell alone. -/
theorem total_change {old new : Store α} {change : Addr → α → α} (measure : α → Nat)
    (changed : ∀ other, new.cells other = (old.cells other).map (change other)) (found : old.cells addr = some value)
    (others : ∀ other cell, other ≠ addr → measure (change other cell) = measure cell) :
    new.total measure + measure value = old.total measure + measure (change addr value) := by
  have here : new.cells addr = some (change addr value) := by rw [changed, found]; rfl
  have lives : new.live = old.live := by
    ext other
    rw [new.filled, old.filled, changed, Option.isSome_map]
  rw [total_split here, total_split found, lives]
  have rest : ∑ other ∈ old.live.erase addr, ((new.cells other).map measure).getD 0 =
      ∑ other ∈ old.live.erase addr, ((old.cells other).map measure).getD 0 := by
    apply Finset.sum_congr rfl
    intro other member
    rw [changed, Option.map_map]
    cases old.cells other with
    | none => rfl
    | some cell => exact others other cell (Finset.ne_of_mem_erase member)
  omega

theorem total_unchanged {old new : Store α} {change : Addr → α → α} {measure : α → Nat}
    (changed : ∀ other, new.cells other = (old.cells other).map (change other))
    (same : ∀ other cell, measure (change other cell) = measure cell) : new.total measure = old.total measure := by
  have lives : new.live = old.live := by
    ext other
    rw [new.filled, old.filled, changed, Option.isSome_map]
  rw [total, total, lives]
  apply Finset.sum_congr rfl
  intro other _
  rw [changed, Option.map_map]
  cases old.cells other <;> simp [same]

theorem total_alloc (absent : store.cells addr = none) (measure : α → Nat) :
    (store.alloc addr value).total measure = store.total measure + measure value := by
  have missing : addr ∉ store.live := by simp [store.filled, absent]
  rw [total_split (alloc_self store addr value)]
  have erased : (store.alloc addr value).live.erase addr = store.live := by
    simp [alloc, missing]
  rw [erased, Nat.add_comm]
  congr 1
  apply Finset.sum_congr rfl
  intro other member
  rw [alloc_of_ne (ne_of_mem_of_not_mem member missing)]

theorem total_free (found : store.cells addr = some value) (measure : α → Nat) :
    (store.free addr).total measure + measure value = store.total measure := by
  rw [total_split found, Nat.add_comm]
  congr 1
  apply Finset.sum_congr rfl
  intro other member
  rw [free_of_ne (Finset.ne_of_mem_erase member)]

theorem total_eq_zero_iff {measure : α → Nat} :
    store.total measure = 0 ↔ ∀ addr value, store.cells addr = some value → measure value = 0 := by
  rw [total, Finset.sum_eq_zero_iff]
  constructor
  · intro zero addr value found
    simpa [found] using zero addr (mem_live found)
  · intro zero addr member
    obtain ⟨value, found⟩ := mem_live_iff.mp member
    simpa [found] using zero addr value found

end Store

end Lib
