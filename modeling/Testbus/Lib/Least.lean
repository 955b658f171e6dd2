import Mathlib

/-! Looking for the least element of a list from left to right, with a choice between the best
element so far and the next one. -/

namespace Lib

/-- An element of the list that is below all of them. -/
def Least {α : Type} (below : α → α → Prop) (l : List α) (m : α) : Prop :=
  m ∈ l ∧ ∀ x ∈ l, below m x

variable {below : α → α → Prop} {l l' : List α}

instance [DecidableEq α] [DecidableRel below] : Decidable (Least below l m) :=
  inferInstanceAs (Decidable (_ ∧ _))

theorem Least.perm (least : Least below l m) (perm : l.Perm l') : Least below l' m :=
  ⟨perm.mem_iff.mp least.1, fun x member => least.2 x (perm.mem_iff.mpr member)⟩

/-- A choice between two elements. -/
def Retains (pick : α → α → Option α) : Prop :=
  ∀ {best cur next}, pick best cur = some next → next = best ∨ next = cur

theorem foldlM_mem (retains : Retains pick) (found : l.foldlM pick best = some m) : m ∈ best :: l := by
  induction l generalizing best with
  | nil =>
    cases found
    exact List.mem_cons_self
  | cons cur rest ih =>
    rw [List.foldlM_cons] at found
    obtain ⟨next, picked, later⟩ := Option.bind_eq_some_iff.mp found
    rcases retains picked with rfl | rfl
    · rcases List.mem_cons.mp (ih later) with rfl | old
      · exact List.mem_cons_self
      · exact List.mem_cons_of_mem _ (List.mem_cons_of_mem _ old)
    · exact List.mem_cons_of_mem _ (ih later)

theorem foldlM_least (P : α → Prop) (retains : Retains pick)
    (lowers : ∀ {best cur next}, P best → P cur → pick best cur = some next → below next best ∧ below next cur)
    (refl : ∀ a, below a a) (trans : ∀ {a b c}, below a b → below b c → below a c)
    (good : ∀ x ∈ best :: l, P x) (found : l.foldlM pick best = some m) : Least below (best :: l) m := by
  refine ⟨foldlM_mem retains found, ?_⟩
  induction l generalizing best with
  | nil =>
    cases found
    exact fun x member => List.mem_singleton.mp member ▸ refl m
  | cons cur rest ih =>
    rw [List.foldlM_cons] at found
    obtain ⟨next, picked, later⟩ := Option.bind_eq_some_iff.mp found
    have here := good best List.mem_cons_self
    have there := good cur (List.mem_cons_of_mem _ List.mem_cons_self)
    have others : ∀ x ∈ next :: rest, P x := by
      intro x listed
      rcases List.mem_cons.mp listed with rfl | listed
      · rcases retains picked with rfl | rfl
        · exact here
        · exact there
      · exact good x (List.mem_cons_of_mem _ (List.mem_cons_of_mem _ listed))
    have under := ih others later
    obtain ⟨first, second⟩ := lowers here there picked
    intro x listed
    rcases List.mem_cons.mp listed with rfl | listed
    · exact trans (under next List.mem_cons_self) first
    rcases List.mem_cons.mp listed with rfl | listed
    · exact trans (under next List.mem_cons_self) second
    · exact under x (List.mem_cons_of_mem _ listed)

theorem foldlM_keeps (keeps : ∀ cur ∈ l, pick best cur = some best) : l.foldlM pick best = some best := by
  induction l with
  | nil => rfl
  | cons cur rest ih =>
    rw [List.foldlM_cons, keeps cur List.mem_cons_self]
    exact ih fun x listed => keeps x (List.mem_cons_of_mem _ listed)

end Lib
