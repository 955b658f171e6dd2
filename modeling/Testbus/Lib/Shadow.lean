import Mathlib

/-! Lists that are merged by a key, where what is there first hides what comes later. -/

namespace Lib.Shadow

variable [DecidableEq κ] (key : α → κ)

def lookup (k : κ) (list : List α) : Option α := list.find? fun a => key a = k

def merge (result more : List α) : List α :=
  more.foldl (fun result a =>
    if (lookup key (key a) result).isSome then result else result ++ [a]) result

variable {key} {list result more : List α}

theorem lookup_some (found : lookup key k list = some a) : a ∈ list ∧ key a = k :=
  ⟨List.mem_of_find?_eq_some found, by simpa using List.find?_some found⟩

theorem lookup_none : lookup key k list = none ↔ ∀ a ∈ list, key a ≠ k := by
  simp [lookup, List.find?_eq_none]

theorem lookup_cons (k : κ) (a : α) (rest : List α) :
    lookup key k (a :: rest) = if key a = k then some a else lookup key k rest := by
  by_cases same : key a = k
  · simp [lookup, same]
  · simp [lookup, same]

theorem lookup_congr (same : ∀ a ∈ list, key a = other a) : lookup key k list = lookup other k list := by
  induction list with
  | nil => rfl
  | cons a rest ih =>
    rw [lookup_cons, lookup_cons, same a List.mem_cons_self, ih fun b later => same b (List.mem_cons_of_mem _ later)]

/-- Where no two elements have one key, the one with a key is found. -/
theorem lookup_iff (distinct : (list.map key).Nodup) : lookup key k list = some a ↔ a ∈ list ∧ key a = k := by
  constructor
  · exact lookup_some
  · rintro ⟨member, same⟩
    cases found : lookup key k list with
    | none => exact absurd same (lookup_none.mp found a member)
    | some b =>
      obtain ⟨memberB, sameB⟩ := lookup_some found
      rw [List.inj_on_of_nodup_map distinct memberB member (sameB.trans same.symm)]

theorem lookup_append (k : κ) (first second : List α) :
    lookup key k (first ++ second) = (lookup key k first).or (lookup key k second) := List.find?_append

theorem merge_cons (result : List α) (a : α) (more : List α) :
    merge key result (a :: more) =
      merge key (if (lookup key (key a) result).isSome then result else result ++ [a]) more := rfl

theorem lookup_merge (k : κ) (result more : List α) :
    lookup key k (merge key result more) = (lookup key k result).or (lookup key k more) := by
  induction more generalizing result with
  | nil => exact (Option.or_none).symm
  | cons a rest ih =>
    rw [merge_cons, ih]
    rw [lookup_cons]
    split
    · rename_i hidden
      by_cases same : key a = k
      · rw [if_pos same, ← same]
        obtain ⟨b, found⟩ := Option.isSome_iff_exists.mp hidden
        rw [found]
        rfl
      · rw [if_neg same]
    · rw [lookup_append]
      by_cases same : key a = k
      · rw [if_pos same, lookup_cons, if_pos same, Option.or_assoc]
        rfl
      · rw [if_neg same, lookup_cons, if_neg same]
        have nothing : lookup key k ([] : List α) = none := rfl
        rw [nothing, Option.or_none]

theorem mem_merge (member : a ∈ merge key result more) : a ∈ result ∨ a ∈ more := by
  induction more generalizing result with
  | nil => exact Or.inl member
  | cons b rest ih =>
    rw [merge_cons] at member
    rcases ih member with inside | later
    · split at inside
      · exact Or.inl inside
      · rcases List.mem_append.mp inside with old | new
        · exact Or.inl old
        · obtain rfl := List.mem_singleton.mp new
          exact Or.inr List.mem_cons_self
    · exact Or.inr (List.mem_cons_of_mem _ later)

/-- A merge keeps the keys distinct. -/
theorem nodup_merge (distinct : (result.map key).Nodup) : ((merge key result more).map key).Nodup := by
  induction more generalizing result with
  | nil => exact distinct
  | cons b rest ih =>
    rw [merge_cons]
    apply ih
    split
    · exact distinct
    · rename_i missed
      rw [List.map_append]
      refine List.Nodup.append distinct (List.nodup_singleton _) ?_
      intro k inside same
      obtain rfl := List.mem_singleton.mp same
      obtain ⟨a, member, same⟩ := List.mem_map.mp inside
      have none' : lookup key (key b) result = none := Option.not_isSome_iff_eq_none.mp missed
      exact lookup_none.mp none' a member same

theorem lookup_foldl (k : κ) (lists : List (List α)) (result : List α) :
    lookup key k (lists.foldl (merge key) result) = (lookup key k result).or (lists.findSome? (lookup key k)) := by
  induction lists generalizing result with
  | nil => exact (Option.or_none).symm
  | cons list rest ih =>
    rw [List.foldl_cons, ih, lookup_merge, Option.or_assoc, List.findSome?_cons]
    cases lookup key k list with
    | none => rfl
    | some a => rfl

theorem nodup_foldl (lists : List (List α)) (distinct : (result.map key).Nodup) :
    ((lists.foldl (merge key) result).map key).Nodup := by
  induction lists generalizing result with
  | nil => exact distinct
  | cons list rest ih => exact ih (nodup_merge distinct)

theorem mem_foldl {lists : List (List α)} (member : a ∈ lists.foldl (merge key) result) :
    a ∈ result ∨ ∃ list ∈ lists, a ∈ list := by
  induction lists generalizing result with
  | nil => exact Or.inl member
  | cons list rest ih =>
    rcases ih member with inside | ⟨other, there, inside⟩
    · rcases mem_merge inside with old | new
      · exact Or.inl old
      · exact Or.inr ⟨list, List.mem_cons_self, new⟩
    · exact Or.inr ⟨other, List.mem_cons_of_mem _ there, inside⟩

end Lib.Shadow
