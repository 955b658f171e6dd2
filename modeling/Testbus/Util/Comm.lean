import Testbus.Util.StringArray

namespace Testbus.Util

open Lib Cells
open Environ (strcmp strcmp_eq)

/-- The three arrays that the comparison adds to. -/
structure Compared where
  uniqA : NiStringArray := {}
  uniqB : NiStringArray := {}
  common : NiStringArray := {}
  deriving DecidableEq

/-- Looks for `valA` in the copy of the second array, from `j` on. -/
def commInner (valA : CString) : (left j : Nat) → NiStringArray → NiStringArray →
    Except Fault (Option CString × NiStringArray × NiStringArray)
  | 0, _, copyB, common => .ok (some valA, copyB, common)
  | left + 1, j, copyB, common => do
    match ← load copyB.data j with
    | none => commInner valA left (j + 1) copyB common
    | some valB =>
      if strcmp valA valB = .eq then
        let common ← stringArrayAppend common (some valA)
        let data ← store copyB.data j none
        .ok (none, { copyB with data }, common)
      else commInner valA left (j + 1) copyB common

/-- A cell that holds `NULL` is passed over. -/
def commTake (copyB common : NiStringArray) :
    Option CString → Except Fault (Option CString × NiStringArray × NiStringArray)
  | none => .ok (none, copyB, common)
  | some valA => commInner valA copyB.count 0 copyB common

def commKeep (uniq : NiStringArray) : Option CString → Except Fault NiStringArray
  | none => .ok uniq
  | some val => stringArrayAppend uniq (some val)

/-- The strings of the copy of the first array go to `common` or to `uniq_a`. -/
def commFirst : (left i : Nat) → NiStringArray → NiStringArray → Compared →
    Except Fault (NiStringArray × NiStringArray × Compared)
  | 0, _, copyA, copyB, compared => .ok (copyA, copyB, compared)
  | left + 1, i, copyA, copyB, compared => do
    let valA ← load copyA.data i
    let (valA, copyB, common) ← commTake copyB compared.common valA
    let uniqA ← commKeep compared.uniqA valA
    let data ← store copyA.data i none
    commFirst left (i + 1) { copyA with data } copyB { compared with uniqA, common }

/-- What is left of the copy of the second array goes to `uniq_b`. -/
def commRest : (left j : Nat) → NiStringArray → NiStringArray →
    Except Fault (NiStringArray × NiStringArray)
  | 0, _, copyB, uniqB => .ok (copyB, uniqB)
  | left + 1, j, copyB, uniqB => do
    let valB ← load copyB.data j
    let uniqB ← commKeep uniqB valB
    let data ← store copyB.data j none
    commRest left (j + 1) { copyB with data } uniqB

def niStringArrayComm (a b : NiStringArray) (compared : Compared) : Except Fault Compared := do
  let (_, copyA) ← niStringArrayCopy {} a
  let (_, copyB) ← niStringArrayCopy {} b
  let (copyA, copyB, compared) ← commFirst copyA.count 0 copyA copyB compared
  let (copyB, uniqB) ← commRest copyB.count 0 copyB compared.uniqB
  let _ ← niStringArrayDestroy copyA
  let _ ← niStringArrayDestroy copyB
  .ok { compared with uniqB }

/-- `val_b` is taken at `i`. -/
def isUniqInner (nsa : NiStringArray) (valA : CString) (i : Nat) : (left : Nat) → Except Fault Bool
  | 0 => .ok true
  | left + 1 => do
    match ← load nsa.data i with
    | none => .error .null
    | some valB =>
      if strcmp valA valB = .eq then .ok false else isUniqInner nsa valA i left

def isUniqOuter (nsa : NiStringArray) : (left i : Nat) → Except Fault Bool
  | 0, _ => .ok true
  | left + 1, i => do
    match ← load nsa.data i with
    | none => isUniqOuter nsa left (i + 1)
    | some valA =>
      if ← isUniqInner nsa valA i left then isUniqOuter nsa left (i + 1) else .ok false

def niStringArrayIsUniq (nsa : NiStringArray) : Except Fault Bool := isUniqOuter nsa nsa.count 0

section Comparing

variable {xs ys front rest seen : List CString}

/-- The copy of the second array, where the strings that were seen are cleared. -/
def marked (seen ys : List CString) : List (Option CString) :=
  ys.map fun y => if y ∈ seen then none else some y

@[simp] theorem length_marked (seen ys : List CString) : (marked seen ys).length = ys.length := List.length_map ..

theorem marked_append (seen front rest : List CString) :
    marked seen (front ++ rest) = marked seen front ++ marked seen rest := List.map_append ..

theorem marked_cons (seen : List CString) (y : CString) (rest : List CString) :
    marked seen (y :: rest) = (if y ∈ seen then none else some y) :: marked seen rest := rfl

theorem marked_other (absent : valA ∉ ys) : marked (valA :: seen) ys = marked seen ys := by
  refine List.map_congr_left fun y member => ?_
  have other : y ≠ valA := fun same => absent (same ▸ member)
  simp only [List.mem_cons, other, false_or]

theorem load_marked (seen front : List CString) (y : CString) (rest : List CString) (behind : List (Option CString)) :
    load (marked seen (front ++ y :: rest) ++ behind) front.length = .ok (if y ∈ seen then none else some y) := by
  rw [load, marked_append, List.append_assoc, List.getElem?_append_right (by simp), length_marked, Nat.sub_self]
  rfl

theorem commInner_found (front rest : List CString) (count : Nat)
    (behind : List (Option CString)) (fresh : valA ∉ seen) (passed : valA ∉ front)
    (distinct : rest.Nodup) (member : valA ∈ rest) (holds : Strings both common) (below : both.length ≠ 2 ^ 32 - 16) :
    ∃ common', commInner valA rest.length front.length
        ⟨count, marked seen (front ++ rest) ++ behind⟩ common =
          .ok (none, ⟨count, marked (valA :: seen) (front ++ rest) ++ behind⟩, common') ∧
      Strings (both ++ [valA]) common' := by
  induction rest generalizing front with
  | nil => cases member
  | cons y rest ih =>
    rw [List.length_cons, commInner, load_marked]
    by_cases same : y = valA
    · subst y
      obtain ⟨common', appended, holds'⟩ := holds.append below valA
      have absent := (List.nodup_cons.mp distinct).1
      have stored := store_middle (marked seen front) (some valA) none (marked seen rest ++ behind)
      rw [length_marked] at stored
      refine ⟨common', ?_, holds'⟩
      simp only [bind, Except.bind, if_neg fresh, strcmp_eq.mpr, if_true, appended,
        marked_append, marked_cons, List.append_assoc, List.cons_append, stored,
        marked_other passed, marked_other absent, List.mem_cons, true_or]
    · have member' : valA ∈ rest := (List.mem_cons.mp member).resolve_left (Ne.symm same)
      have passed' : valA ∉ front ++ [y] := by
        simp only [List.mem_append, List.mem_singleton, not_or]
        exact ⟨passed, Ne.symm same⟩
      obtain ⟨common', looped, holds'⟩ := ih _ passed' (List.nodup_cons.mp distinct).2 member'
      rw [List.append_assoc, List.length_append, List.length_singleton] at looped
      refine ⟨common', ?_, holds'⟩
      have other : strcmp valA y ≠ .eq := fun equal => same (strcmp_eq.mp equal).symm
      by_cases old : y ∈ seen
      · simp only [bind, Except.bind, if_pos old]
        exact looped
      · simp only [bind, Except.bind, if_neg old, if_neg other]
        exact looped

theorem commInner_missing (seen front rest : List CString) (count : Nat)
    (behind : List (Option CString)) (common : NiStringArray) (missing : valA ∉ rest) :
    commInner valA rest.length front.length ⟨count, marked seen (front ++ rest) ++ behind⟩ common =
      .ok (some valA, ⟨count, marked seen (front ++ rest) ++ behind⟩, common) := by
  induction rest generalizing front with
  | nil => rfl
  | cons y rest ih =>
    have looped := ih (front ++ [y]) fun member => missing (List.mem_cons_of_mem _ member)
    rw [List.append_assoc, List.length_append, List.length_singleton] at looped
    have other : strcmp valA y ≠ .eq := by
      intro equal
      exact missing (strcmp_eq.mp equal ▸ List.mem_cons_self)
    rw [List.length_cons, commInner, load_marked]
    by_cases old : y ∈ seen
    · simp only [bind, Except.bind, if_pos old]
      exact looped
    · simp only [bind, Except.bind, if_neg old, if_neg other]
      exact looped

/-- What the comparison has made of the strings of the first array that it has seen. -/
structure Sorted (ys seen : List CString) (compared : Compared) : Prop where
  uniqA : Strings (seen.filter (· ∉ ys)) compared.uniqA
  common : Strings (seen.filter (· ∈ ys)) compared.common

/-- One string of the first array. -/
theorem commTake_spec (behind : List (Option CString))
    (counted : count = ys.length) (distinct : ys.Nodup) (fresh : valA ∉ seen)
    (most : seen.length < 2 ^ 32 - 16) (sorted : Sorted ys seen compared) :
    ∃ valA' common uniqA,
      commTake ⟨count, marked seen ys ++ behind⟩ compared.common (some valA) =
        .ok (valA', ⟨count, marked (valA :: seen) ys ++ behind⟩, common) ∧
      commKeep compared.uniqA valA' = .ok uniqA ∧ Sorted ys (seen ++ [valA]) { compared with uniqA, common } := by
  subst counted
  by_cases member : valA ∈ ys
  · have fewer : (seen.filter (· ∈ ys)).length ≤ seen.length := List.length_filter_le ..
    obtain ⟨common, found, holds⟩ := commInner_found [] ys ys.length
      behind fresh List.not_mem_nil distinct member sorted.common (by omega)
    refine ⟨none, common, compared.uniqA, found, rfl, ?_, ?_⟩
    · rw [List.filter_append, List.filter_cons_of_neg (by simpa using member), List.filter_nil, List.append_nil]
      exact sorted.uniqA
    · rw [List.filter_append, List.filter_cons_of_pos (by simpa using member), List.filter_nil]
      exact holds
  · have fewer : (seen.filter (· ∉ ys)).length ≤ seen.length := List.length_filter_le ..
    obtain ⟨uniqA, appended, holds⟩ := sorted.uniqA.append (by omega) valA
    have missing := commInner_missing seen [] ys ys.length behind compared.common member
    rw [List.nil_append, ← marked_other member] at missing
    refine ⟨some valA, compared.common, uniqA, ?_, appended, ?_, ?_⟩
    · rw [commTake, ← marked_other member]
      exact missing
    · rw [List.filter_append, List.filter_cons_of_pos (by simpa using member), List.filter_nil]
      exact holds
    · rw [List.filter_append, List.filter_cons_of_neg (by simpa using member), List.filter_nil, List.append_nil]
      exact sorted.common

theorem marked_perm (same : ∀ y, y ∈ seen ↔ y ∈ other) (ys : List CString) :
    marked seen ys = marked other ys := List.map_congr_left fun y _ => by rw [if_congr (same y) rfl rfl]

theorem commFirst_spec (seen rest : List CString) (countA : Nat) (behindA behindB : List (Option CString)) (counted : countB = ys.length)
    (distinctA : (seen ++ rest).Nodup) (distinctB : ys.Nodup)
    (most : (seen ++ rest).length ≤ 2 ^ 32 - 16) (sorted : Sorted ys seen compared) :
    ∃ cells compared', cells.length = seen.length + rest.length + behindA.length ∧
      commFirst rest.length seen.length ⟨countA, List.replicate seen.length none ++ (rest.map some ++ behindA)⟩
          ⟨countB, marked seen ys ++ behindB⟩ compared =
        .ok (⟨countA, cells⟩, ⟨countB, marked (seen ++ rest) ys ++ behindB⟩, compared') ∧
      Sorted ys (seen ++ rest) compared' ∧ compared'.uniqB = compared.uniqB := by
  induction rest generalizing seen compared with
  | nil =>
    refine ⟨List.replicate seen.length none ++ behindA, compared, ?_, ?_, ?_, rfl⟩
    · rw [List.length_append, List.length_replicate]
      rfl
    · rw [List.append_nil]
      rfl
    · rwa [List.append_nil]
  | cons valA rest ih =>
    have fresh : valA ∉ seen := fun member =>
      (List.nodup_append.mp distinctA).2.2 valA member valA List.mem_cons_self rfl
    rw [List.length_append, List.length_cons] at most
    obtain ⟨valA', common, uniqA, taken, kept, sorted'⟩ := commTake_spec behindB counted distinctB fresh (by omega) sorted
    have before : (List.replicate seen.length (none : Option CString)).length = seen.length := List.length_replicate
    have found : load (List.replicate seen.length none ++ ((valA :: rest).map some ++ behindA))
        seen.length = .ok (some valA) := by
      rw [load, List.getElem?_append_right (by rw [before]), before, Nat.sub_self]
      rfl
    have cleared := store_middle (List.replicate seen.length none) (some valA) none (rest.map some ++ behindA)
    rw [before] at cleared
    have order : marked (valA :: seen) ys = marked (seen ++ [valA]) ys := marked_perm (fun y => by simp [or_comm]) ys
    obtain ⟨cells, compared', size, looped, sorted'', uniqB⟩ := ih (seen ++ [valA])
      (by rwa [List.append_assoc]) (by simp only [List.length_append, List.length_singleton]; omega)
      sorted'
    simp only [List.length_append, List.length_singleton, List.append_assoc] at size looped sorted''
    refine ⟨cells, compared', by rw [size, List.length_cons]; omega, ?_, sorted'', uniqB⟩
    rw [List.length_cons, commFirst, found]
    simp only [bind, Except.bind, taken, kept, List.map_cons, List.cons_append, cleared, order]
    rw [List.replicate_succ', List.append_assoc] at looped
    exact looped

theorem commRest_spec (xs front rest : List CString) (count : Nat)
    (behind : List (Option CString)) (most : (front ++ rest).length ≤ 2 ^ 32 - 16)
    (holds : Strings (front.filter (· ∉ xs)) uniqB) :
    ∃ cells uniqB', cells.length = front.length + rest.length + behind.length ∧
      commRest rest.length front.length ⟨count, List.replicate front.length none ++ (marked xs rest ++ behind)⟩ uniqB =
        .ok (⟨count, cells⟩, uniqB') ∧
      Strings ((front ++ rest).filter (· ∉ xs)) uniqB' := by
  induction rest generalizing front uniqB with
  | nil =>
    refine ⟨List.replicate front.length none ++ behind, uniqB, ?_, rfl, by rwa [List.append_nil]⟩
    rw [List.length_append, List.length_replicate]
    rfl
  | cons valB rest ih =>
    rw [List.length_append, List.length_cons] at most
    have before : (List.replicate front.length (none : Option CString)).length = front.length := List.length_replicate
    have fewer : (front.filter (· ∉ xs)).length ≤ front.length := List.length_filter_le ..
    obtain ⟨uniqB₁, kept, holds₁⟩ : ∃ uniqB₁, commKeep uniqB (if valB ∈ xs then none else some valB) = .ok uniqB₁ ∧
        Strings ((front ++ [valB]).filter (· ∉ xs)) uniqB₁ := by
      by_cases member : valB ∈ xs
      · refine ⟨uniqB, by rw [if_pos member]; rfl, ?_⟩
        rwa [List.filter_append, List.filter_cons_of_neg (by simpa using member), List.filter_nil, List.append_nil]
      · obtain ⟨uniqB₁, appended, holds₁⟩ := holds.append (by omega) valB
        refine ⟨uniqB₁, by rw [if_neg member]; exact appended, ?_⟩
        rwa [List.filter_append, List.filter_cons_of_pos (by simpa using member), List.filter_nil]
    have found : load (List.replicate front.length none ++ (marked xs (valB :: rest) ++ behind))
        front.length = .ok (if valB ∈ xs then none else some valB) := by
      rw [load, List.getElem?_append_right (by rw [before]), before, Nat.sub_self]
      rfl
    have cleared := store_middle (List.replicate front.length none)
      (if valB ∈ xs then none else some valB) none (marked xs rest ++ behind)
    rw [before] at cleared
    obtain ⟨cells, uniqB', size, looped, holds'⟩ := ih (front ++ [valB])
      (by simp only [List.length_append, List.length_singleton]; omega) holds₁
    simp only [List.length_append, List.length_singleton, List.append_assoc] at size looped holds'
    refine ⟨cells, uniqB', by rw [size, List.length_cons]; omega, ?_, holds'⟩
    rw [List.length_cons, commRest, found]
    simp only [bind, Except.bind, kept, marked_cons, List.cons_append, cleared]
    rw [List.replicate_succ', List.append_assoc] at looped
    exact looped

end Comparing

/-- The strings that both have, and those of one only, each once and in the order they had. -/
structure Splits (xs ys : List CString) (compared : Compared) : Prop where
  common : Strings (xs.filter (· ∈ ys)) compared.common
  uniqA : Strings (xs.filter (· ∉ ys)) compared.uniqA
  uniqB : Strings (ys.filter (· ∉ xs)) compared.uniqB

theorem comm_splits (holdsA : Strings xs a) (holdsB : Strings ys b) (distinctA : xs.Nodup) (distinctB : ys.Nodup) :
    ∃ compared, niStringArrayComm a b {} = .ok compared ∧ Splits xs ys compared := by
  have empty : Strings [] {} := holds_empty
  obtain ⟨copyA, copiedA, holdsA'⟩ := empty.copy holdsA
  obtain ⟨copyB, copiedB, holdsB'⟩ := empty.copy holdsB
  have mostA := Holds.most holdsA'
  have mostB := Holds.most holdsB'
  rw [List.length_map] at mostA mostB
  have sizeA := holdsA'.length_le
  have sizeB := holdsB'.length_le
  rw [List.length_map] at sizeA sizeB
  have unsorted : Sorted ys [] {} := ⟨holds_empty, holds_empty⟩
  obtain ⟨cellsA, first, lengthA, firstly, sorted, kept⟩ := commFirst_spec [] xs xs.length
    (List.replicate (copyA.data.length - (xs.map some).length) none)
    (List.replicate (copyB.data.length - (ys.map some).length) none)
    rfl distinctA distinctB mostA unsorted
  have none_ : Strings (([] : List CString).filter (· ∉ xs)) first.uniqB := by
    rw [kept]
    exact holds_empty
  obtain ⟨cellsB, uniqB, lengthB, lastly, rest⟩ := commRest_spec xs [] ys ys.length
    (List.replicate (copyB.data.length - (ys.map some).length) none) mostB none_
  have shapeA := Holds.shape holdsA'
  have shapeB := Holds.shape holdsB'
  rw [List.length_map] at shapeA shapeB
  simp only [List.length_nil, List.replicate_zero, List.nil_append, List.length_map,
    List.length_replicate, Nat.zero_add] at firstly lastly lengthA lengthB
  have whole : marked [] ys = ys.map some := by simp [marked]
  rw [whole, ← shapeA, ← shapeB] at firstly
  refine ⟨{ first with uniqB }, ?_, sorted.common, sorted.uniqA, rest⟩
  rw [niStringArrayComm, copiedA]
  simp only [bind, Except.bind, copiedB, Strings.count holdsA', firstly, lastly]
  rw [niStringArrayDestroy, if_pos (lengthA ▸ Nat.le_add_right ..), niStringArrayDestroy,
    if_pos (lengthB ▸ Nat.le_add_right ..)]

theorem isUniqInner_spec (found : load nsa.data i = .ok (some valA)) (left : Nat) : isUniqInner nsa valA i left = .ok (decide (left = 0)) := by
  cases left with
  | zero => rfl
  | succ left =>
    rw [isUniqInner, found]
    simp only [bind, Except.bind, strcmp_eq.mpr, if_true]
    rfl

theorem isUniq_spec (holds : Strings strings nsa) : niStringArrayIsUniq nsa = .ok (decide (strings.length ≤ 1)) := by
  rw [niStringArrayIsUniq, holds.count]
  cases strings with
  | nil => rfl
  | cons head rest =>
    have found : load nsa.data 0 = .ok (some head) := by
      rw [holds.data]
      rfl
    rw [List.length_cons, isUniqOuter, found]
    simp only [bind, Except.bind, isUniqInner_spec found]
    cases rest with
    | nil => rfl
    | cons second rest => simp

/-- Arrays are split as they should, but only an array of one string at most is found to have
distinct strings. -/
theorem comm_uniq_iff {xs ys : List CString} {a b : NiStringArray} (holdsA : Strings xs a)
    (holdsB : Strings ys b) :
    (xs.Nodup → ys.Nodup → ∃ compared, niStringArrayComm a b {} = .ok compared ∧ Splits xs ys compared) ∧
      (niStringArrayIsUniq a = .ok (decide xs.Nodup) ↔ (xs.Nodup → xs.length ≤ 1)) := by
  refine ⟨comm_splits holdsA holdsB, ?_⟩
  have short : xs.length ≤ 1 → xs.Nodup := by
    intro few
    match xs with
    | [] => exact List.nodup_nil
    | [x] => exact List.nodup_singleton x
  rw [isUniq_spec holdsA, Except.ok.injEq, decide_eq_decide]
  exact ⟨fun same => same.mpr, fun few => ⟨short, few⟩⟩

theorem comm_uniq_single : niStringArrayIsUniq ⟨1, some [97] :: List.replicate 16 none⟩ = .ok (decide [[97]].Nodup) := by
  have single : Strings [[97]] ⟨1, some [97] :: List.replicate 16 none⟩ := ⟨rfl, rfl, by decide, by decide⟩
  have empty : Strings [] {} := holds_empty
  exact (comm_uniq_iff single empty).2.mpr (by decide)

/-- Two strings that are distinct. -/
theorem two_not_uniq : ¬ ∀ (strings : List CString) (nsa : NiStringArray), Strings strings nsa →
    niStringArrayIsUniq nsa = .ok (decide strings.Nodup) := by
  intro claimed
  have found := claimed [[97], [98]] ⟨2, some [97] :: some [98] :: List.replicate 15 none⟩
    ⟨rfl, rfl, by decide, by decide⟩
  exact absurd found (by decide)

end Testbus.Util
