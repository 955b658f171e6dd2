import Mathlib

/-! Merging tapes: lists of items in ascending order of their keys, of which the
leftmost one that has a key decides about it. -/

namespace Lib.Tapes

variable (cmp : K → K → Ordering) (key : α → K)

def Ascending (tape : List α) : Prop := tape.Pairwise fun a b => cmp (key a) (key b) = .lt

/-- The item of a tape that has a key. -/
def find (k : K) (tape : List α) : Option α := tape.find? fun a => cmp (key a) k == .eq

/-- The item of the leftmost tape that has a key. -/
def first (k : K) (tapes : List (List α)) : Option α := tapes.findSome? (find cmp key k)

/-- Step over the items with a given key at the head of a tape. -/
def pass (k : K) : List α → List α
  | [] => []
  | a :: rest => if cmp (key a) k = .eq then pass k rest else a :: rest

/-- Prefer the head of a tape to the best item so far if its key is less. -/
def prefer (best : Option α) : List α → Option α
  | [] => best
  | a :: _ =>
    match best with
    | none => some a
    | some b => if cmp (key a) (key b) = .lt then some a else some b

def leastHead (tapes : List (List α)) : Option α := tapes.foldl (prefer cmp key) none

/-- The result of a merge is in order and has for each key the leftmost item. -/
structure Merged (tapes : List (List α)) (result : List α) : Prop where
  ascending : Ascending cmp key result
  firsts : ∀ k, find cmp key k result = first cmp key k tapes

def size (tapes : List (List α)) : Nat := (tapes.map List.length).sum

variable {cmp key}

theorem ascending_pass (ascending : Ascending cmp key tape) : Ascending cmp key (pass cmp key k tape) := by
  induction tape with
  | nil => exact ascending
  | cons a rest ih =>
    unfold pass
    split
    · exact ih ascending.tail
    · exact ascending

theorem find_some (found : find cmp key k tape = some a) : a ∈ tape ∧ cmp (key a) k = .eq :=
  ⟨List.mem_of_find?_eq_some found, by simpa using List.find?_some found⟩

theorem first_some (found : first cmp key k tapes = some a) : ∃ tape ∈ tapes, a ∈ tape ∧ cmp (key a) k = .eq := by
  obtain ⟨tape, member, here⟩ := List.exists_of_findSome?_eq_some found
  exact ⟨tape, member, find_some here⟩

theorem mem_of_mem_pass (member : a ∈ pass cmp key k tape) : a ∈ tape := by
  induction tape with
  | nil => exact member
  | cons b rest ih =>
    unfold pass at member
    split at member
    · exact List.mem_cons_of_mem _ (ih member)
    · exact member

theorem length_pass_le : (pass cmp key k tape).length ≤ tape.length := by
  induction tape with
  | nil => rfl
  | cons a rest ih =>
    unfold pass
    split
    · exact Nat.le_succ_of_le ih
    · exact Nat.le_refl _

theorem merged_nil (empty : ∀ tape ∈ tapes, tape = []) : Merged cmp key tapes [] where
  ascending := List.Pairwise.nil
  firsts k := by
    refine (List.findSome?_eq_none_iff.mpr fun tape member => ?_).symm
    rw [empty tape member]
    rfl

variable [Std.TransCmp cmp]

theorem find_below (above : ∀ b ∈ tape, cmp k (key b) = .lt) : find cmp key k tape = none := by
  refine List.find?_eq_none.mpr fun b member => ?_
  simp [Std.OrientedCmp.gt_of_lt (above b member)]

/-- Stepping over one key loses no other. -/
theorem find_pass (different : cmp k other ≠ .eq) :
    find cmp key other (pass cmp key k tape) = find cmp key other tape := by
  induction tape with
  | nil => rfl
  | cons a rest ih =>
    unfold pass
    split
    · rename_i equal
      have skipped : cmp (key a) other ≠ .eq := by
        rw [Std.TransCmp.congr_left equal]
        exact different
      rw [ih, find, find, List.find?_cons_of_neg (by simpa using skipped)]
    · rfl

theorem first_pass (different : cmp k other ≠ .eq) :
    first cmp key other (tapes.map (pass cmp key k)) = first cmp key other tapes := by
  rw [first, List.findSome?_map, first]
  congr 1
  funext tape
  exact find_pass different

theorem above_pass (ascending : Ascending cmp key tape) (bounded : ∀ b ∈ tape, cmp k (key b) ≠ .gt) :
    ∀ b ∈ pass cmp key k tape, cmp k (key b) = .lt := by
  induction tape with
  | nil => simp [pass]
  | cons a rest ih =>
    unfold pass
    split
    · exact ih ascending.tail fun b member => bounded b (by simp [member])
    · rename_i different
      have below : cmp k (key a) = .lt := by
        cases order : cmp k (key a) with
        | lt => rfl
        | eq => exact absurd (Std.OrientedCmp.eq_symm order) different
        | gt => exact absurd order (bounded a (by simp))
      intro b member
      rcases List.mem_cons.mp member with rfl | later
      · exact below
      · exact Std.TransCmp.lt_trans below (List.rel_of_pairwise_cons ascending later)

/-- What the best head of some tapes is: the leftmost item with a key that no other is below. -/
structure Least (cmp : K → K → Ordering) (key : α → K) (tapes : List (List α)) (a : α) : Prop where
  bounded : ∀ tape ∈ tapes, ∀ b ∈ tape, cmp (key a) (key b) ≠ .gt
  leftmost : first cmp key (key a) tapes = some a
  head : ∃ tape ∈ tapes, tape.head? = some a

theorem bounded_head (ascending : Ascending cmp key (b :: rest))
    (below : cmp k (key b) ≠ .gt) : ∀ c ∈ b :: rest, cmp k (key c) ≠ .gt := by
  intro c member
  rcases List.mem_cons.mp member with rfl | later
  · exact below
  · have after := List.rel_of_pairwise_cons ascending later
    cases order : cmp k (key b) with
    | lt => simp [Std.TransCmp.lt_trans order after]
    | eq => simp [Std.TransCmp.congr_left order, after]
    | gt => exact absurd order below

theorem leastHead_spec (ascending : ∀ tape ∈ tapes, Ascending cmp key tape) :
    (leastHead cmp key tapes = none ∧ ∀ tape ∈ tapes, tape = []) ∨
      ∃ a, leastHead cmp key tapes = some a ∧ Least cmp key tapes a := by
  induction tapes using List.reverseRecOn with
  | nil => exact .inl ⟨rfl, by simp⟩
  | append_singleton before tape ih =>
    have old := ih fun tape member => ascending tape (by simp [member])
    have own := ascending tape (by simp)
    rw [leastHead, List.foldl_append]
    change (prefer cmp key (leastHead cmp key before) tape = none ∧ _) ∨
      ∃ a, prefer cmp key (leastHead cmp key before) tape = some a ∧ _
    cases tape with
    | nil =>
      rcases old with ⟨none', empty⟩ | ⟨a, some', least⟩
      · refine .inl ⟨none', ?_⟩
        intro tape member
        rcases List.mem_append.mp member with early | last
        · exact empty tape early
        · exact List.mem_singleton.mp last
      · refine .inr ⟨a, some', ?_, ?_, ?_⟩
        · intro tape member b inside
          rcases List.mem_append.mp member with early | last
          · exact least.bounded tape early b inside
          · simp [List.mem_singleton.mp last] at inside
        · rw [first, List.findSome?_append]
          rw [show before.findSome? (find cmp key (key a)) = some a from least.leftmost]
          rfl
        · obtain ⟨tape, member, top⟩ := least.head
          exact ⟨tape, by simp [member], top⟩
    | cons b rest =>
      have self : cmp (key b) (key b) = .eq := Std.ReflCmp.compare_self
      have here : find cmp key (key b) (b :: rest) = some b := by
        rw [find, List.find?_cons_of_pos (by simp [self])]
      rcases old with ⟨none', empty⟩ | ⟨a, some', least⟩
      · refine .inr ⟨b, by rw [none']; rfl, ?_, ?_, b :: rest, by simp, rfl⟩
        · intro tape member c inside
          rcases List.mem_append.mp member with early | last
          · simp [empty tape early] at inside
          · rw [List.mem_singleton.mp last] at inside
            exact bounded_head own (by simp [self]) c inside
        · have nowhere : before.findSome? (find cmp key (key b)) = none :=
            List.findSome?_eq_none_iff.mpr fun tape member => by rw [empty tape member]; rfl
          rw [first, List.findSome?_append, nowhere]
          simp [here]
      · rw [some']
        by_cases less : cmp (key b) (key a) = .lt
        · refine .inr ⟨b, by simp [prefer, less], ?_, ?_, b :: rest, by simp, rfl⟩
          · intro tape member c inside
            rcases List.mem_append.mp member with early | last
            · have above := least.bounded tape early c inside
              cases order : cmp (key a) (key c) with
              | lt => simp [Std.TransCmp.lt_trans less order]
              | eq => simp [← Std.TransCmp.congr_right order, less]
              | gt => exact absurd order above
            · rw [List.mem_singleton.mp last] at inside
              exact bounded_head own (by simp [self]) c inside
          · have nowhere : before.findSome? (find cmp key (key b)) = none := by
              refine List.findSome?_eq_none_iff.mpr fun tape member => find_below fun c inside => ?_
              have above := least.bounded tape member c inside
              cases order : cmp (key a) (key c) with
              | lt => exact Std.TransCmp.lt_trans less order
              | eq => rw [← Std.TransCmp.congr_right order]; exact less
              | gt => exact absurd order above
            rw [first, List.findSome?_append, nowhere]
            simp [here]
        · refine .inr ⟨a, by simp [prefer, less], ?_, ?_, ?_⟩
          · intro tape member c inside
            rcases List.mem_append.mp member with early | last
            · exact least.bounded tape early c inside
            · rw [List.mem_singleton.mp last] at inside
              refine bounded_head own ?_ c inside
              intro greater
              exact less (Std.OrientedCmp.lt_of_gt greater)
          · rw [first, List.findSome?_append]
            rw [show before.findSome? (find cmp key (key a)) = some a from least.leftmost]
            rfl
          · obtain ⟨tape, member, top⟩ := least.head
            exact ⟨tape, by simp [member], top⟩

/-- A merge takes the least head and goes on past its key. -/
theorem merged_cons [Std.LawfulEqCmp cmp] (ascending : ∀ tape ∈ tapes, Ascending cmp key tape)
    (least : Least cmp key tapes a) (merged : Merged cmp key (tapes.map (pass cmp key (key a))) result) : Merged cmp key tapes (a :: result) where
  ascending := by
    refine List.pairwise_cons.mpr ⟨?_, merged.ascending⟩
    intro b member
    have found : (find cmp key (key b) result).isSome := by
      rw [find, List.find?_isSome]
      exact ⟨b, member, by simp⟩
    obtain ⟨c, found⟩ := Option.isSome_iff_exists.mp found
    rw [merged.firsts] at found
    obtain ⟨passed, inside, item, equal⟩ := first_some found
    obtain ⟨tape, origin, rfl⟩ := List.mem_map.mp inside
    rw [← Std.LawfulEqCmp.eq_of_compare equal]
    exact above_pass (ascending tape origin) (least.bounded tape origin) c item
  firsts k := by
    by_cases equal : cmp (key a) k = .eq
    · have same := Std.LawfulEqCmp.eq_of_compare equal
      subst same
      rw [least.leftmost, find, List.find?_cons_of_pos (by simp)]
    · rw [find, List.find?_cons_of_neg (by simpa using equal)]
      exact (merged.firsts k).trans (first_pass equal)

theorem size_pass (least : Least cmp key tapes a) : size (tapes.map (pass cmp key (key a))) < size tapes := by
  obtain ⟨tape, member, top⟩ := least.head
  rw [size, size, List.map_map]
  refine List.sum_lt_sum _ _ (fun tape _ => length_pass_le) ⟨tape, member, ?_⟩
  cases tape with
  | nil => cases top
  | cons b rest =>
    cases top
    simp only [Function.comp_apply, pass, Std.ReflCmp.compare_self, if_true, List.length_cons]
    exact Nat.lt_succ_of_le length_pass_le

end Lib.Tapes
