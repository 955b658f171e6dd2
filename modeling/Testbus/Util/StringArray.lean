import Testbus.Environ
import Testbus.Util.Chunked

namespace Testbus.Util

open Lib Cells
open Environ (strcmp strcmp_eq)

/-- `ni_string_array_t`, where a cell is a string or `NULL`. -/
abbrev NiStringArray := Chunked (Option CString)

def stringArrayAppend (nsa : NiStringArray) (str : Option CString) : Except Fault NiStringArray :=
  chunkedAppend 1 none nsa str

def stringArrayInsert (nsa : NiStringArray) (pos : Nat) (str : Option CString) :
    Except Fault NiStringArray := do
  let nsa := chunkedEnsure 1 none nsa
  if nsa.count ≤ pos then
    let data ← store nsa.data nsa.count str
    .ok { count := (nsa.count + 1) % 2 ^ 32, data }
  else
    let data ← move nsa.data (pos + 1) pos (nsa.count - pos)
    let data ← store data pos str
    .ok { count := (nsa.count + 1) % 2 ^ 32, data }

def niStringArrayAppend (nsa : NiStringArray) (str : Option CString) :
    Except Fault (Int × NiStringArray) := do
  let nsa ← stringArrayAppend nsa str
  .ok (0, nsa)

def niStringArrayInsert (nsa : NiStringArray) (pos : Nat) (str : CString) :
    Except Fault (Int × NiStringArray) := do
  let nsa ← stringArrayInsert nsa pos (some str)
  .ok (0, nsa)

def niStringArraySet (nsa : NiStringArray) (pos : Nat) (str : Option CString) :
    Except Fault (Int × NiStringArray) :=
  if nsa.count ≤ pos then .ok (-1, nsa)
  else do
    let data ← store nsa.data pos str
    .ok (if str.isSome then 0 else -1, { nsa with data })

/-- The `NULL` behind the last string is moved with the strings. -/
def niStringArrayRemoveIndex (nsa : NiStringArray) (pos : Nat) : Except Fault (Int × NiStringArray) :=
  if nsa.count ≤ pos then .ok (-1, nsa)
  else do
    let data ← move nsa.data pos (pos + 1) (nsa.count - pos)
    .ok (0, { count := nsa.count - 1, data })

/-- `strcmp` is not called once enough strings are removed. -/
def removeMatches (str : CString) (maxkill killed : Nat) (item : Option CString) : Except Fault Bool :=
  if killed < maxkill then
    match item with
    | none => .error .null
    | some string => .ok (strcmp string str == .eq)
  else .ok false

/-- The loop, with `left` cells to look at from `i` on. -/
def removeLoop (str : CString) (maxkill : Nat) :
    (left i j killed : Nat) → List (Option CString) →
      Except Fault (Nat × Nat × List (Option CString))
  | 0, _, j, killed, data => .ok (j, killed, data)
  | left + 1, i, j, killed, data => do
    let item ← load data i
    if ← removeMatches str maxkill killed item then
      removeLoop str maxkill left (i + 1) j (killed + 1) data
    else
      let data ← store data j item
      removeLoop str maxkill left (i + 1) (j + 1) killed data

def niStringArrayRemoveMatch (nsa : NiStringArray) (str : CString) (maxkill : Nat) :
    Except Fault (Int × NiStringArray) := do
  let maxkill := if maxkill = 0 then nsa.count else maxkill
  let (j, killed, data) ← removeLoop str maxkill nsa.count 0 0 0 nsa.data
  let data ← write data j (List.replicate killed none)
  .ok (killed, { count := j, data })

/-- Each string is freed, and then the array. -/
def niStringArrayDestroy (nsa : NiStringArray) : Except Fault NiStringArray :=
  if nsa.count ≤ nsa.data.length then .ok {} else .error .outside

def copyLoop (src : NiStringArray) : (left i : Nat) → NiStringArray → Except Fault NiStringArray
  | 0, _, dst => .ok dst
  | left + 1, i, dst => do
    let item ← load src.data i
    let (_, dst) ← niStringArrayAppend dst item
    copyLoop src left (i + 1) dst

/-- `src` is what the source holds once the destination was destroyed. -/
def niStringArrayCopy (dst src : NiStringArray) : Except Fault (Int × NiStringArray) := do
  let dst ← niStringArrayDestroy dst
  let dst ← copyLoop src src.count 0 dst
  .ok (0, dst)

/-- The new destination; the source is cleared. -/
def niStringArrayMove (dst src : NiStringArray) : Except Fault NiStringArray := do
  let _ ← niStringArrayDestroy dst
  .ok src

/-- The array holds strings. -/
abbrev Strings (strings : List CString) (nsa : NiStringArray) : Prop :=
  Holds 1 none (strings.map some) nsa

theorem Strings.append (holds : Strings strings nsa) (below : strings.length ≠ 2 ^ 32 - 16) (str : CString) :
    ∃ longer, stringArrayAppend nsa (some str) = .ok longer ∧ Strings (strings ++ [str]) longer := by
  obtain ⟨longer, appended, holds'⟩ := Holds.append holds (by decide) (by rwa [List.length_map]) (some str)
  exact ⟨longer, appended, by rwa [Strings, List.map_append]⟩

theorem Strings.append_full (holds : Strings strings nsa) (full : strings.length = 2 ^ 32 - 16)
    (str : CString) : stringArrayAppend nsa (some str) = .error .outside :=
  Util.append_full holds (by decide) (by rwa [List.length_map]) (some str)

theorem Strings.count (holds : Strings strings nsa) : nsa.count = strings.length :=
  (Holds.count holds).trans (List.length_map ..)

theorem Strings.insert (holds : Strings strings nsa) (below : strings.length ≠ 2 ^ 32 - 16) (pos : Nat) (str : CString) :
    ∃ longer, stringArrayInsert nsa pos (some str) = .ok longer ∧
      Strings (strings.take pos ++ str :: strings.drop pos) longer := by
  by_cases behind : strings.length ≤ pos
  · obtain ⟨longer, appended, holds'⟩ := holds.append below str
    refine ⟨longer, ?_, ?_⟩
    · rw [← appended, stringArrayInsert, stringArrayAppend, chunkedAppend, if_pos]
      rw [count_ensure, holds.count]
      exact behind
    · rwa [List.take_of_length_le behind, List.drop_of_length_le behind]
  · have ready := Holds.ensure holds (by decide) (by rwa [List.length_map])
    obtain ⟨spare, data⟩ := ready.data
    have length : (strings.map some).length = strings.length := List.length_map ..
    have inside : pos < (strings.map some).length := by omega
    have moved := move_up inside spare none
    have inside' : pos < ((strings.map some).take (pos + 1) ++ (strings.map some).drop pos).length := by
      rw [List.length_append, List.length_take]
      omega
    have stored := store_front inside' (List.replicate spare none) (some str)
    have placed : ((strings.map some).take (pos + 1) ++ (strings.map some).drop pos).set pos
        (some str) = (strings.take pos ++ str :: strings.drop pos).map some := by
      rw [List.set_append_left _ _ (by rw [List.length_take]; omega), List.take_succ_eq_append_getElem inside,
        List.set_append_right _ _ (by rw [List.length_take]; omega), List.length_take,
        Nat.min_eq_left (by omega), Nat.sub_self, List.map_append, List.map_cons, List.map_take,
        List.map_drop, List.append_assoc]
      rfl
    rw [← data, ← ready.count] at moved
    rw [placed] at stored
    have count := count_ensure 1 none nsa
    refine ⟨⟨_, (strings.take pos ++ str :: strings.drop pos).map some ++
      List.replicate spare none⟩, ?_, ready.grown rfl ?_ ?_⟩
    · rw [stringArrayInsert, if_neg (by rw [count, holds.count]; exact behind)]
      simp only [moved, bind, Except.bind, stored]
    · rw [data]
      simp only [List.length_append, List.length_map, List.length_take, List.length_cons,
        List.length_drop, List.length_replicate]
      omega
    · simp only [List.length_append, List.length_map, List.length_take, List.length_cons, List.length_drop]
      omega

theorem Strings.insert_full (holds : Strings strings nsa) (full : strings.length = 2 ^ 32 - 16)
    (pos : Nat) (str : CString) : stringArrayInsert nsa pos (some str) = .error .outside := by
  have outside := ensure_full holds (by decide) (by rwa [List.length_map])
  have count := count_ensure 1 none nsa
  rw [stringArrayInsert]
  by_cases behind : (chunkedEnsure 1 none nsa).count ≤ pos
  · rw [if_pos behind, store_of_le (by omega)]
    rfl
  · rw [if_neg behind, move_of_lt (by omega)]
    rfl

theorem Strings.set (holds : Strings strings nsa) (pos : Nat) (str : CString) :
    ∃ next, niStringArraySet nsa pos (some str) = .ok (if pos < strings.length then 0 else -1, next) ∧
      Strings (strings.set pos str) next := by
  rw [niStringArraySet, holds.count]
  by_cases inside : pos < strings.length
  · obtain ⟨data, stored, holds'⟩ := Holds.store holds (i := pos) (by rwa [List.length_map]) (some str)
    rw [← List.map_set, holds.count] at holds'
    refine ⟨_, ?_, holds'⟩
    rw [if_neg (by omega), if_pos inside, stored]
    rfl
  · rw [if_pos (by omega), if_neg inside, List.set_eq_of_length_le (by omega)]
    exact ⟨nsa, rfl, holds⟩

theorem Strings.removeIndex (holds : Strings strings nsa) (pos : Nat) :
    ∃ next, niStringArrayRemoveIndex nsa pos = .ok (if pos < strings.length then 0 else -1, next) ∧
      Strings (strings.eraseIdx pos) next := by
  rw [niStringArrayRemoveIndex, holds.count]
  by_cases inside : pos < strings.length
  · have length : (strings.map some).length = strings.length := List.length_map ..
    have room := Holds.room holds (by omega)
    obtain ⟨spare, cells⟩ : ∃ spare, nsa.data.length - (strings.map some).length = spare + 1 :=
      Nat.exists_eq_succ_of_ne_zero (by omega)
    have inside' : pos < (strings.map some).length := by omega
    have moved := move_down inside' spare none
    rw [← cells, ← holds.data, length] at moved
    have erased : (strings.eraseIdx pos).length = strings.length - 1 := List.length_eraseIdx_of_lt inside
    refine ⟨⟨strings.length - 1, (strings.map some).eraseIdx pos ++ List.replicate (spare + 2) none⟩, ?_, ?_⟩
    · rw [if_neg (by omega), if_pos inside, moved]
      rfl
    · have same : (strings.map some).eraseIdx pos ++ List.replicate (spare + 2) none =
          (strings.eraseIdx pos).map some ++ List.replicate
            (nsa.data.length - ((strings.eraseIdx pos).map some).length) none := by
        rw [List.eraseIdx_map, List.length_map, erased]
        congr 2
        omega
      have kept := holds.replace same (by rw [List.length_map, List.length_map, erased]; omega)
      rw [List.length_map, erased] at kept
      exact kept
  · rw [if_pos (by omega), if_neg inside, List.eraseIdx_of_length_le (by omega)]
    exact ⟨nsa, rfl, holds⟩

/-- Without the first `n` occurrences of a string. -/
def eraseN (str : CString) (n : Nat) (strings : List CString) : List CString :=
  (fun rest : List CString => rest.erase str)^[n] strings

theorem eraseN_nil (str : CString) (n : Nat) : eraseN str n [] = [] := Function.iterate_fixed rfl n

theorem eraseN_same (str : CString) (n : Nat) (rest : List CString) :
    eraseN str (n + 1) (str :: rest) = eraseN str n rest := by
  rw [eraseN, Function.iterate_succ_apply, List.erase_cons_head]
  rfl

theorem eraseN_other (other : head ≠ str) (n : Nat) (rest : List CString) :
    eraseN str n (head :: rest) = head :: eraseN str n rest := by
  induction n generalizing rest with
  | zero => rfl
  | succ n ih =>
    have here : (head :: rest).erase str = head :: rest.erase str := List.erase_cons_tail (by simpa using other)
    rw [eraseN, Function.iterate_succ_apply, here]
    exact ih (rest.erase str)

theorem length_eraseN (str : CString) (n : Nat) (strings : List CString) :
    (eraseN str n strings).length + min n (strings.count str) = strings.length := by
  induction strings generalizing n with
  | nil => simp [eraseN_nil]
  | cons head rest ih =>
    by_cases same : head = str
    · subst head
      cases n with
      | zero => simp [eraseN]
      | succ n =>
        have later := ih n
        rw [eraseN_same, List.count_cons_self, List.length_cons]
        omega
    · have later := ih n
      rw [eraseN_other same, List.count_cons_of_ne same, List.length_cons, List.length_cons]
      omega

/-- Keeping a string moves it over the stale cells, which end where it was. -/
theorem store_kept (kept : List CString) (head : CString) (stale rest : List (Option CString)) :
    ∃ stale', stale'.length = stale.length ∧
      store (kept.map some ++ (stale ++ some head :: rest)) kept.length (some head) =
        .ok ((kept ++ [head]).map some ++ (stale' ++ rest)) := by
  have length : (kept.map some).length = kept.length := List.length_map ..
  cases stale with
  | nil =>
    have stored := store_middle (kept.map some) (some head) (some head) rest
    rw [length] at stored
    exact ⟨[], rfl, by rw [List.nil_append, stored, List.map_append, List.append_assoc]; rfl⟩
  | cons first stale =>
    have stored := store_middle (kept.map some) first (some head) (stale ++ some head :: rest)
    rw [length] at stored
    refine ⟨stale ++ [some head], by rw [List.length_append]; rfl, ?_⟩
    rw [List.cons_append, stored, List.map_append, List.append_assoc, List.append_assoc]
    rfl

/-- The loop with the strings that it kept in front, as many stale cells as it removed strings,
and those it has not seen yet behind them. -/
theorem removeLoop_spec (str : CString) (maxkill : Nat) (rest kept : List CString)
    (stale behind : List (Option CString)) :
    ∃ stale', stale'.length = stale.length + min (maxkill - stale.length) (rest.count str) ∧
      removeLoop str maxkill rest.length (kept.length + stale.length) kept.length stale.length
          (kept.map some ++ (stale ++ (rest.map some ++ behind))) =
        .ok (kept.length + (eraseN str (maxkill - stale.length) rest).length, stale'.length,
          (kept ++ eraseN str (maxkill - stale.length) rest).map some ++ (stale' ++ behind)) := by
  induction rest generalizing kept stale with
  | nil =>
    refine ⟨stale, by simp, ?_⟩
    rw [eraseN_nil, List.append_nil]
    rfl
  | cons head rest ih =>
    have found : load (kept.map some ++ (stale ++ ((head :: rest).map some ++ behind)))
        (kept.length + stale.length) = .ok (some head) := by
      rw [load, List.getElem?_append_right (by rw [List.length_map]; omega), List.length_map,
        Nat.add_sub_cancel_left, List.getElem?_append_right (Nat.le_refl _), Nat.sub_self]
      rfl
    rw [List.length_cons, removeLoop, found]
    by_cases kills : stale.length < maxkill ∧ head = str
    · obtain ⟨fewer, rfl⟩ := kills
      have now : removeMatches head maxkill stale.length (some head) = .ok true := by
        rw [removeMatches, if_pos fewer, strcmp_eq.mpr rfl]
        rfl
      obtain ⟨stale', length, later⟩ := ih kept (stale ++ [some head])
      have less : maxkill - stale.length = maxkill - (stale ++ [some head]).length + 1 := by
        rw [List.length_append, List.length_singleton]
        omega
      refine ⟨stale', ?_, ?_⟩
      · rw [length, less, List.count_cons_self, List.length_append, List.length_singleton]
        omega
      · rw [less, eraseN_same, ← later]
        simp only [bind, Except.bind, now, if_true, List.length_append, List.length_singleton,
          List.map_cons, List.cons_append, List.append_assoc, List.nil_append, Nat.add_assoc]
    · have now : removeMatches str maxkill stale.length (some head) = .ok false := by
        rw [removeMatches]
        split
        case isTrue fewer =>
          have other : strcmp head str ≠ .eq := fun same => kills ⟨fewer, strcmp_eq.mp same⟩
          exact congrArg Except.ok (beq_false_of_ne other)
        case isFalse => rfl
      have kept_ : eraseN str (maxkill - stale.length) (head :: rest) =
          head :: eraseN str (maxkill - stale.length) rest := by
        by_cases same : head = str
        · rw [Nat.sub_eq_zero_of_le (Nat.not_lt.mp fun fewer => kills ⟨fewer, same⟩)]
          rfl
        · exact eraseN_other same _ rest
      have as_many : min (maxkill - stale.length) ((head :: rest).count str) =
          min (maxkill - stale.length) (rest.count str) := by
        have whole := length_eraseN str (maxkill - stale.length) (head :: rest)
        have later := length_eraseN str (maxkill - stale.length) rest
        rw [kept_, List.length_cons, List.length_cons] at whole
        omega
      obtain ⟨stale₁, length₁, stored⟩ := store_kept kept head stale (rest.map some ++ behind)
      obtain ⟨stale', length, later⟩ := ih (kept ++ [head]) stale₁
      rw [length₁, List.length_append, List.length_singleton, Nat.add_right_comm] at later
      refine ⟨stale', by rw [length, length₁, as_many], ?_⟩
      simp only [bind, Except.bind, now, Bool.false_eq_true, if_false]
      rw [List.map_cons, List.cons_append, stored, kept_, List.length_cons]
      dsimp only
      rw [later, List.append_assoc, Nat.add_assoc, Nat.add_comm 1]
      rfl

/-- How many strings may be removed, where 0 stands for all. -/
def killLimit (strings : List CString) (maxkill : Nat) : Nat :=
  if maxkill = 0 then strings.length else maxkill

theorem Strings.removeMatch (holds : Strings strings nsa) (str : CString) (maxkill : Nat) :
    ∃ next, niStringArrayRemoveMatch nsa str maxkill =
        .ok ((min (killLimit strings maxkill) (strings.count str) : Nat), next) ∧
      Strings (eraseN str (killLimit strings maxkill) strings) next := by
  have count := holds.count
  have limit : (if maxkill = 0 then nsa.count else maxkill) = killLimit strings maxkill := by
    rw [count, killLimit]
  generalize killLimit strings maxkill = most at limit ⊢
  obtain ⟨stale, length, looped⟩ := removeLoop_spec str most strings [] []
    (List.replicate (nsa.data.length - (strings.map some).length) none)
  simp only [List.length_nil, List.map_nil, List.nil_append, Nat.zero_add, Nat.sub_zero] at length looped
  rw [← holds.data, ← count] at looped
  have whole := length_eraseN str most strings
  have fits : (List.replicate stale.length (none : Option CString)).length ≤
      (stale ++ List.replicate (nsa.data.length - (strings.map some).length) none).length := by
    rw [List.length_replicate, List.length_append]
    omega
  have cleared := write_end ((eraseN str most strings).map some) fits
  rw [List.length_replicate, List.drop_left, List.append_assoc, List.replicate_append_replicate] at cleared
  have fewer : ((eraseN str most strings).map some).length ≤ (strings.map some).length := by
    rw [List.length_map, List.length_map]
    omega
  have kept := holds.replace rfl fewer
  have cells := holds.length_le
  simp only [List.length_map] at looped cleared kept cells
  have behind : stale.length + (nsa.data.length - strings.length) =
      nsa.data.length - (eraseN str most strings).length := by omega
  rw [behind] at cleared
  refine ⟨_, ?_, kept⟩
  rw [niStringArrayRemoveMatch, limit, looped]
  simp only [bind, Except.bind, cleared]
  rw [length]

theorem Strings.destroy (holds : Strings strings nsa) : niStringArrayDestroy nsa = .ok {} := by
  have length := holds.length_le
  rw [niStringArrayDestroy, if_pos]
  rw [holds.count]
  rwa [List.length_map] at length

theorem copyLoop_spec (front rest : List CString) (holds : Strings (front ++ rest) src) (copied : Strings front dst) :
    ∃ next, copyLoop src rest.length front.length dst = .ok next ∧ Strings (front ++ rest) next := by
  induction rest generalizing front dst with
  | nil => exact ⟨dst, rfl, by rwa [List.append_nil]⟩
  | cons head rest ih =>
    have found : load src.data front.length = .ok (some head) := by
      rw [holds.data, load, List.map_append, List.append_assoc,
        List.getElem?_append_right (by rw [List.length_map]), List.length_map, Nat.sub_self]
      rfl
    have most := Holds.most holds
    rw [List.length_map, List.length_append, List.length_cons] at most
    obtain ⟨longer, appended, holds'⟩ := copied.append (by omega) head
    obtain ⟨next, looped, copied'⟩ := ih (front ++ [head]) (by rwa [List.append_assoc]) holds'
    rw [List.length_append, List.length_singleton] at looped
    rw [List.append_assoc] at copied'
    refine ⟨next, ?_, copied'⟩
    rw [List.length_cons, copyLoop, found]
    simp only [bind, Except.bind, niStringArrayAppend, appended, looped]

theorem Strings.copy (holds : Strings strings nsa)
    (source : Strings others src) : ∃ next, niStringArrayCopy nsa src = .ok (0, next) ∧ Strings others next := by
  obtain ⟨next, looped, copied⟩ := copyLoop_spec [] others source holds_empty
  rw [← source.count] at looped
  refine ⟨next, ?_, copied⟩
  rw [niStringArrayCopy, holds.destroy]
  simp only [bind, Except.bind, List.length_nil] at looped ⊢
  rw [looped]

end Testbus.Util
