import Mathlib

/-! Forests linked as C programs link them: each node has the first of its children and the
next of its siblings. -/

namespace Lib

inductive Forest (α : Type) where
  | nil
  | cons (data : α) (children next : Forest α)
  deriving Repr

namespace Forest

/-- The nodes in preorder. -/
def flatten : Forest α → List α
  | nil => []
  | cons data children next => data :: (children.flatten ++ next.flatten)

def map (f : α → β) : Forest α → Forest β
  | nil => nil
  | cons data children next => cons (f data) (children.map f) (next.map f)

/-- A new last sibling, without children. -/
def snoc (new : α) : Forest α → Forest α
  | nil => cons new nil nil
  | cons data children next => cons data children (next.snoc new)

/-- The first of the siblings that meets the test, with its children. -/
def sibling? (test : α → Bool) : Forest α → Option (α × Forest α)
  | nil => none
  | cons data children next => if test data then some (data, children) else next.sibling? test

/-- The first node that meets the test, with its children. -/
def node? (test : α → Bool) : Forest α → Option (α × Forest α)
  | nil => none
  | cons data children next =>
    if test data then some (data, children)
    else
      match children.node? test with
      | some found => some found
      | none => next.node? test

/-- A new last child of the first node that meets the test. -/
def insertUnder (test : α → Bool) (new : α) : Forest α → Option (Forest α)
  | nil => none
  | cons data children next =>
    if test data then some (cons data (children.snoc new) next)
    else
      match children.insertUnder test new with
      | some grown => some (cons data grown next)
      | none => (next.insertUnder test new).map (cons data children)

/-- Unlink the first node that meets the test: the node, its children, and what stays. -/
def detach (test : α → Bool) : Forest α → Option (α × Forest α × Forest α)
  | nil => none
  | cons data children next =>
    if test data then some (data, children, next)
    else
      match children.detach test with
      | some (found, own, rest) => some (found, own, cons data rest next)
      | none =>
        (next.detach test).map fun (found, own, rest) => (found, own, cons data children rest)

/-- Unlink the first node with a parent that meets the test. -/
def detachInner (test : α → Bool) : Forest α → Option (α × Forest α × Forest α)
  | nil => none
  | cons data children next =>
    match children.detach test with
    | some (found, own, rest) => some (found, own, cons data rest next)
    | none =>
      (next.detachInner test).map fun (found, own, rest) => (found, own, cons data children rest)

/-- The nodes on the upper level. -/
def siblings : Forest α → List α
  | nil => []
  | cons data _ next => data :: next.siblings

/-- Every child is related to its parent. -/
def Links (r : α → α → Prop) : Forest α → Prop
  | nil => True
  | cons data children next =>
    (∀ child ∈ children.siblings, r data child) ∧ children.Links r ∧ next.Links r

variable {new found : α} {forest own rest grown : Forest α}

/-- Where the new child was put. -/
inductive Inserted (test : α → Bool) (new : α) : Forest α → Forest α → Prop
  | here {data children next} (met : test data) :
    Inserted test new (cons data children next) (cons data (children.snoc new) next)
  | inner {data children next grown} (unmet : ¬ test data) (inside : Inserted test new children grown) :
    Inserted test new (cons data children next) (cons data grown next)
  | after {data children next grown} (unmet : ¬ test data)
    (outside : children.insertUnder test new = none) (later : Inserted test new next grown) :
    Inserted test new (cons data children next) (cons data children grown)

/-- Where the node with its children was taken off. -/
inductive Detached (found : α) (own : Forest α) : Forest α → Forest α → Prop
  | here {next} : Detached found own (cons found own next) next
  | inner {data children next rest} (inside : Detached found own children rest) :
    Detached found own (cons data children next) (cons data rest next)
  | after {data children next rest} (later : Detached found own next rest) :
    Detached found own (cons data children next) (cons data children rest)

theorem insertUnder_some (inserted : forest.insertUnder test new = some grown) :
    Inserted test new forest grown := by
  induction forest generalizing grown with
  | nil => cases inserted
  | cons data children next children_ih next_ih =>
    simp only [insertUnder] at inserted
    split at inserted
    · cases inserted
      exact .here ‹_›
    · split at inserted
      · cases inserted
        exact .inner ‹_› (children_ih ‹_›)
      · obtain ⟨next', later, rfl⟩ := Option.map_eq_some_iff.mp inserted
        exact .after ‹_› ‹_› (next_ih later)

theorem detach_some (unlinked : forest.detach test = some (found, own, rest)) :
    Detached found own forest rest := by
  induction forest generalizing rest with
  | nil => cases unlinked
  | cons data children next children_ih next_ih =>
    simp only [detach] at unlinked
    split at unlinked
    · cases unlinked
      exact .here
    · split at unlinked
      · cases unlinked
        exact .inner (children_ih ‹_›)
      · obtain ⟨_, later, same⟩ := Option.map_eq_some_iff.mp unlinked
        cases same
        exact .after (next_ih later)

theorem detachInner_some (unlinked : forest.detachInner test = some (found, own, rest)) :
    Detached found own forest rest ∧ rest.siblings = forest.siblings := by
  induction forest generalizing rest with
  | nil => cases unlinked
  | cons data children next _ next_ih =>
    simp only [detachInner] at unlinked
    split at unlinked
    · cases unlinked
      exact ⟨.inner (detach_some ‹_›), rfl⟩
    · obtain ⟨_, later, same⟩ := Option.map_eq_some_iff.mp unlinked
      cases same
      exact ⟨.after (next_ih later).1, congrArg (data :: ·) (next_ih later).2⟩

@[simp] theorem flatten_map (f : α → β) (forest : Forest α) : (forest.map f).flatten = forest.flatten.map f := by
  induction forest with
  | nil => rfl
  | cons data children next children_ih next_ih =>
    simp only [map, flatten, children_ih, next_ih, List.map_cons, List.map_append]

theorem map_map (f : α → α) (g : α → α) (forest : Forest α) : (forest.map f).map g = forest.map (g ∘ f) := by
  induction forest with
  | nil => rfl
  | cons data children next children_ih next_ih =>
    simp only [map, children_ih, next_ih, Function.comp_apply]

@[simp] theorem map_id (forest : Forest α) : forest.map id = forest := by
  induction forest with
  | nil => rfl
  | cons data children next children_ih next_ih => simp only [map, children_ih, next_ih, id]

theorem map_ne_nil (full : forest ≠ nil) : forest.map f ≠ nil := by
  cases forest with
  | nil => contradiction
  | cons => simp [map]

@[simp] theorem flatten_snoc (new : α) (forest : Forest α) : (forest.snoc new).flatten = forest.flatten ++ [new] := by
  induction forest with
  | nil => rfl
  | cons data children next _ next_ih =>
    simp only [snoc, flatten, next_ih, List.cons_append, List.append_assoc]

theorem sibling?_mem (looked : forest.sibling? test = some (found, own)) : found ∈ forest.flatten := by
  induction forest with
  | nil => cases looked
  | cons data children next _ next_ih =>
    simp only [sibling?] at looked
    split at looked
    · cases looked
      exact List.mem_cons_self
    · exact List.mem_cons_of_mem _ (List.mem_append_right _ (next_ih looked))

theorem node?_subset (looked : forest.node? test = some (found, own)) : own.flatten ⊆ forest.flatten := by
  induction forest with
  | nil => cases looked
  | cons data children next children_ih next_ih =>
    simp only [node?] at looked
    apply List.subset_cons_of_subset
    split at looked
    · cases looked
      exact List.subset_append_left ..
    · split at looked
      · rename_i inside
        cases looked
        exact List.Subset.trans (children_ih inside) (List.subset_append_left ..)
      · exact List.Subset.trans (next_ih looked) (List.subset_append_right ..)

theorem insertUnder_perm (inserted : forest.insertUnder test new = some grown) :
    grown.flatten.Perm (new :: forest.flatten) := by
  replace inserted := insertUnder_some inserted
  induction inserted with
  | here =>
    simp only [flatten, flatten_snoc, List.append_assoc, List.singleton_append]
    exact (List.perm_middle.cons _).trans (.swap new _ _)
  | inner _ _ ih => exact ((ih.append_right _).cons _).trans (.swap new _ _)
  | after _ _ _ ih =>
    exact (((ih.append_left _).trans List.perm_middle).cons _).trans (.swap new _ _)

theorem insertUnder_ne_nil (inserted : forest.insertUnder test new = some grown) : grown ≠ nil := by
  intro empty
  have perm := insertUnder_perm inserted
  rw [empty] at perm
  exact List.not_mem_nil (perm.mem_iff.mpr List.mem_cons_self)

theorem insertUnder_isSome : (forest.insertUnder test new).isSome = forest.flatten.any test := by
  induction forest with
  | nil => rfl
  | cons data children next children_ih next_ih =>
    simp only [insertUnder, flatten, List.any_cons, List.any_append, ← children_ih, ← next_ih]
    split
    · simp_all
    · split <;> simp_all

theorem Detached.perm (detached : Detached found own forest rest) :
    forest.flatten.Perm (found :: (own.flatten ++ rest.flatten)) := by
  classical
  refine List.perm_iff_count.mpr fun x => ?_
  induction detached with
  | here => rfl
  | inner _ ih | after _ ih =>
    simp only [flatten, List.count_cons, List.count_append] at ih ⊢
    omega

theorem detachInner_perm (unlinked : forest.detachInner test = some (found, own, rest)) :
    forest.flatten.Perm (found :: (own.flatten ++ rest.flatten)) := (detachInner_some unlinked).1.perm

theorem detachInner_ne_nil (unlinked : forest.detachInner test = some (found, own, rest)) : rest ≠ nil := by
  rintro rfl
  cases forest with
  | nil => cases unlinked
  | cons => cases (detachInner_some unlinked).2

theorem node?_isSome : (forest.node? test).isSome = forest.flatten.any test := by
  induction forest with
  | nil => rfl
  | cons data children next children_ih next_ih =>
    simp only [node?, flatten, List.any_cons, List.any_append, ← children_ih, ← next_ih]
    split
    · simp_all
    · split <;> simp_all

theorem node?_none (absent : ∀ node ∈ forest.flatten, ¬ test node) : forest.node? test = none := by
  rw [← Option.not_isSome_iff_eq_none, node?_isSome, List.any_eq_true]
  rintro ⟨node, member, met⟩
  exact absent node member met

theorem node?_mem (looked : forest.node? test = some (found, own)) : found ∈ forest.flatten ∧ test found := by
  induction forest with
  | nil => cases looked
  | cons data children next children_ih next_ih =>
    simp only [node?] at looked
    split at looked
    · rename_i met
      cases looked
      exact ⟨List.mem_cons_self, met⟩
    · split at looked
      · rename_i inside
        cases looked
        have ⟨member, met⟩ := children_ih inside
        exact ⟨List.mem_cons_of_mem _ (List.mem_append_left _ member), met⟩
      · have ⟨member, met⟩ := next_ih looked
        exact ⟨List.mem_cons_of_mem _ (List.mem_append_right _ member), met⟩

section Insertion

theorem sibling?_snoc (looked : forest.sibling? test = some (found, own)) :
    (forest.snoc new).sibling? test = some (found, own) := by
  induction forest with
  | nil => cases looked
  | cons data children next _ next_ih =>
    simp only [snoc, sibling?] at looked ⊢
    split
    · rename_i met
      rwa [if_pos met] at looked
    · rename_i unmet
      rw [if_neg unmet] at looked
      exact next_ih looked

theorem sibling?_snoc_new (absent : forest.sibling? test = none) (met : test new) :
    (forest.snoc new).sibling? test = some (new, nil) := by
  induction forest with
  | nil => simp [snoc, sibling?, met]
  | cons data children next _ next_ih =>
    simp only [snoc, sibling?] at absent ⊢
    split
    · rename_i met
      simp [met] at absent
    · rename_i unmet
      rw [if_neg unmet] at absent
      exact next_ih absent

/-- Whatever was the first of its siblings to meet a test still is. -/
def Keeps (forest grown : Forest α) : Prop :=
  ∀ search found own, forest.sibling? search = some (found, own) →
    ∃ own', grown.sibling? search = some (found, own')

theorem Keeps.refl (forest : Forest α) : forest.Keeps forest := fun _ _ own looked => ⟨own, looked⟩

theorem keeps_snoc (new : α) (forest : Forest α) : forest.Keeps (forest.snoc new) :=
  fun _ _ own looked => ⟨own, sibling?_snoc looked⟩

theorem Inserted.keeps (inserted : Inserted test new forest grown) : forest.Keeps grown := by
  intro search found own looked
  induction inserted with
  | here | inner =>
    simp only [sibling?] at looked ⊢
    split at looked
    · cases looked
      exact ⟨_, if_pos ‹_›⟩
    · exact ⟨own, by rwa [if_neg ‹_›]⟩
  | after _ _ _ ih =>
    simp only [sibling?] at looked ⊢
    split at looked
    · cases looked
      exact ⟨_, if_pos ‹_›⟩
    · obtain ⟨own', found'⟩ := ih looked
      exact ⟨own', by rwa [if_neg ‹_›]⟩

/-- The node that the insertion found has the new one as its last child. -/
theorem node?_insertUnder_self (inserted : forest.insertUnder test new = some grown) :
    ∃ data own, forest.node? test = some (data, own) ∧ grown.node? test = some (data, own.snoc new) := by
  replace inserted := insertUnder_some inserted
  induction inserted with
  | @here data children _ met => exact ⟨data, children, by simp [node?, met], by simp [node?, met]⟩
  | inner unmet _ ih =>
    obtain ⟨first, own, before, after⟩ := ih
    exact ⟨first, own, by simp [node?, unmet, before], by simp [node?, unmet, after]⟩
  | @after _ children _ _ unmet outside _ ih =>
    obtain ⟨first, own, before, after⟩ := ih
    have absent : children.node? test = none := by
      rw [← Option.not_isSome_iff_eq_none, node?_isSome, ← insertUnder_isSome, outside]
      simp
    exact ⟨first, own, by simp [node?, unmet, absent, before], by simp [node?, unmet, absent, after]⟩

variable {search : α → Bool}

theorem node?_snoc (other : search new = false) : (forest.snoc new).node? search = forest.node? search := by
  induction forest with
  | nil => simp [snoc, node?, other]
  | cons data children next _ next_ih => simp only [snoc, node?, next_ih]

/-- The node that is looked for stays where it is and keeps the children it has. -/
def Stays (search : α → Bool) (forest grown : Forest α) : Prop :=
  (forest.node? search = none → grown.node? search = none) ∧
    ∀ data own, forest.node? search = some (data, own) →
      ∃ own', grown.node? search = some (data, own') ∧ own.Keeps own'

theorem Stays.refl (search : α → Bool) (forest : Forest α) : forest.Stays search forest :=
  ⟨id, fun _ own looked => ⟨own, looked, .refl own⟩⟩

theorem Stays.here {data : α} {children next children' next' : Forest α} (met : search data)
    (kept : children.Keeps children') : (cons data children next).Stays search (cons data children' next') := by
  refine ⟨fun absent => by simp [node?, met] at absent, fun first own looked => ?_⟩
  simp only [node?, met, if_true] at looked
  cases looked
  exact ⟨children', by simp [node?, met], kept⟩

theorem Stays.cons {data : α} {children next children' next' : Forest α} (unmet : ¬ search data)
    (inside : children.Stays search children') (later : next.Stays search next') :
    (cons data children next).Stays search (cons data children' next') := by
  simp only [Stays, node?, unmet, Bool.false_eq_true, if_false]
  cases before : children.node? search with
  | none =>
    rw [inside.1 before]
    exact later
  | some found =>
    obtain ⟨own', after, kept⟩ := inside.2 found.1 found.2 before
    rw [after]
    refine ⟨fun absent => by simp at absent, fun first own looked => ?_⟩
    cases looked
    exact ⟨own', rfl, kept⟩

theorem stays_snoc (other : search new = false) : forest.Stays search (forest.snoc new) := by
  rw [Stays, node?_snoc other]
  exact Stays.refl search forest

theorem stays_insertUnder (inserted : forest.insertUnder test new = some grown)
    (other : search new = false) : forest.Stays search grown := by
  replace inserted := insertUnder_some inserted
  induction inserted with
  | @here data =>
    by_cases met : search data
    · exact .here met (keeps_snoc new _)
    · exact .cons met (stays_snoc other) (.refl search _)
  | @inner data _ _ _ _ inside ih =>
    by_cases met : search data
    · exact .here met inside.keeps
    · exact .cons met ih (.refl search _)
  | @after data _ _ _ _ _ _ ih =>
    by_cases met : search data
    · exact .here met (.refl _)
    · exact .cons met (.refl search _) ih

theorem node?_snoc_new (absent : ∀ node ∈ forest.flatten, ¬ search node) (met : search new) :
    (forest.snoc new).node? search = some (new, nil) := by
  induction forest with
  | nil => simp [snoc, node?, met]
  | cons data children next _ next_ih =>
    have unmet := absent data List.mem_cons_self
    have outside : children.node? search = none := node?_none fun node member =>
      absent node (List.mem_cons_of_mem _ (List.mem_append_left _ member))
    have later := next_ih fun node member =>
      absent node (List.mem_cons_of_mem _ (List.mem_append_right _ member))
    simp only [snoc, node?, unmet, outside, later, Bool.false_eq_true, if_false]

theorem node?_insertUnder_new (inserted : forest.insertUnder test new = some grown)
    (absent : ∀ node ∈ forest.flatten, ¬ search node) (met : search new) : grown.node? search = some (new, nil) := by
  replace inserted := insertUnder_some inserted
  have apart {data : α} {children next : Forest α}
      (absent : ∀ node ∈ (cons data children next).flatten, ¬ search node) : ¬ search data ∧
        (∀ node ∈ children.flatten, ¬ search node) ∧ ∀ node ∈ next.flatten, ¬ search node := by
    simpa [flatten, or_imp, forall_and] using absent
  induction inserted with
  | here =>
    obtain ⟨unmet, inside, -⟩ := apart absent
    simp only [node?, unmet, node?_snoc_new inside met, Bool.false_eq_true, if_false]
  | inner _ _ ih =>
    obtain ⟨unmet, inside, -⟩ := apart absent
    simp only [node?, unmet, ih inside, Bool.false_eq_true, if_false]
  | after _ _ _ ih =>
    obtain ⟨unmet, inside, later⟩ := apart absent
    simp only [node?, unmet, node?_none inside, ih later, Bool.false_eq_true, if_false]

end Insertion

@[simp] theorem siblings_map (f : α → β) (forest : Forest α) : (forest.map f).siblings = forest.siblings.map f := by
  induction forest with
  | nil => rfl
  | cons data children next _ next_ih => simp only [map, siblings, next_ih, List.map_cons]

@[simp] theorem siblings_snoc (new : α) (forest : Forest α) : (forest.snoc new).siblings = forest.siblings ++ [new] := by
  induction forest with
  | nil => rfl
  | cons data children next _ next_ih => simp only [snoc, siblings, next_ih, List.cons_append]

theorem sibling?_siblings (looked : forest.sibling? test = some (found, own)) : found ∈ forest.siblings ∧ test found := by
  induction forest with
  | nil => cases looked
  | cons data children next _ next_ih =>
    simp only [sibling?] at looked
    split at looked
    · rename_i met
      cases looked
      exact ⟨List.mem_cons_self, met⟩
    · exact (next_ih looked).imp_left (List.mem_cons_of_mem _)

theorem Inserted.siblings (inserted : Inserted test new forest grown) : grown.siblings = forest.siblings := by
  induction inserted with
  | here | inner => rfl
  | after _ _ _ ih => simp only [Forest.siblings, ih]

theorem siblings_insertUnder (inserted : forest.insertUnder test new = some grown) :
    grown.siblings = forest.siblings := (insertUnder_some inserted).siblings

theorem Links.map (linked : forest.Links r)
    (kept : ∀ parent child, r parent child → r (f parent) (f child)) : (forest.map f).Links r := by
  induction forest with
  | nil => trivial
  | cons data children next children_ih next_ih =>
    obtain ⟨own, below, later⟩ := linked
    refine ⟨fun child member => ?_, children_ih below, next_ih later⟩
    rw [siblings_map] at member
    obtain ⟨before, inside, rfl⟩ := List.mem_map.mp member
    exact kept data before (own before inside)

theorem Links.snoc (linked : forest.Links r) (new : α) : (forest.snoc new).Links r := by
  induction forest with
  | nil => exact ⟨fun child member => absurd member List.not_mem_nil, trivial, trivial⟩
  | cons data children next _ next_ih => exact ⟨linked.1, linked.2.1, next_ih linked.2.2⟩

theorem Links.insertUnder (linked : forest.Links r) (inserted : forest.insertUnder test new = some grown)
    (related : ∀ parent ∈ forest.flatten, test parent → r parent new) : grown.Links r := by
  replace inserted := insertUnder_some inserted
  induction inserted with
  | here met =>
    obtain ⟨own, below, later⟩ := linked
    refine ⟨fun child member => ?_, below.snoc new, later⟩
    rw [siblings_snoc] at member
    rcases List.mem_append.mp member with member | member
    · exact own child member
    · rw [List.mem_singleton.mp member]
      exact related _ List.mem_cons_self met
  | inner _ inside ih =>
    obtain ⟨own, below, later⟩ := linked
    refine ⟨inside.siblings ▸ own, ih below fun parent member => ?_, later⟩
    exact related parent (List.mem_cons_of_mem _ (List.mem_append_left _ member))
  | after _ _ _ ih =>
    obtain ⟨own, below, later⟩ := linked
    refine ⟨own, below, ih later fun parent member => ?_⟩
    exact related parent (List.mem_cons_of_mem _ (List.mem_append_right _ member))

theorem Detached.siblings (detached : Detached found own forest rest) : rest.siblings ⊆ forest.siblings := by
  induction detached with
  | here => exact List.subset_cons_self ..
  | inner => exact List.Subset.refl _
  | after _ ih => exact List.cons_subset_cons _ ih

theorem Links.detached (linked : forest.Links r) (detached : Detached found own forest rest) :
    (cons found own nil).Links r ∧ rest.Links r := by
  induction detached with
  | here => exact ⟨⟨linked.1, linked.2.1, trivial⟩, linked.2.2⟩
  | inner inside ih =>
    obtain ⟨related, below, later⟩ := linked
    have ⟨apart, left⟩ := ih below
    exact ⟨apart, fun child member => related child (inside.siblings member), left, later⟩
  | after _ ih =>
    obtain ⟨related, below, later⟩ := linked
    have ⟨apart, left⟩ := ih later
    exact ⟨apart, related, below, left⟩

theorem Links.detachInner (linked : forest.Links r) (unlinked : forest.detachInner test = some (found, own, rest)) :
    (cons found own nil).Links r ∧ rest.Links r ∧ rest.siblings = forest.siblings :=
  let ⟨detached, level⟩ := detachInner_some unlinked
  have ⟨apart, left⟩ := linked.detached detached
  ⟨apart, left, level⟩

theorem Links.node? (linked : forest.Links r) (looked : forest.node? test = some (found, own)) :
    ∀ child ∈ own.siblings, r found child := by
  induction forest with
  | nil => cases looked
  | cons data children next children_ih next_ih =>
    simp only [Forest.node?] at looked
    split at looked
    · cases looked
      exact linked.1
    · split at looked
      · rename_i inside
        cases looked
        exact children_ih linked.2.1 inside
      · exact next_ih linked.2.2 looked

end Forest

end Lib
