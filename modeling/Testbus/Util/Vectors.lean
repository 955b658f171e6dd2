import Testbus.Lib.Refines
import Testbus.Util.StringArray

namespace Testbus.Util

open Lib Cells Machine

/-- The calls, on arrays with numbers. -/
inductive ArrayCall
  | append (array : Nat) (str : CString)
  | insert (array pos : Nat) (str : CString)
  | set (array pos : Nat) (str : CString)
  | removeIndex (array pos : Nat)
  | removeMatch (array : Nat) (str : CString) (maxkill : Nat)
  | move (dst src : Nat)
  | copy (dst src : Nat)
  deriving DecidableEq

abbrev Arrays : Type := Nat → NiStringArray

def Arrays.put (arrays : Arrays) (array : Nat) (result : Except Fault (Int × NiStringArray)) :
    Except Fault (Int × Arrays) :=
  result.map fun (code, nsa) => (code, Function.update arrays array nsa)

/-- What `src` holds once `dst` is destroyed. -/
def Arrays.source (arrays : Arrays) (dst src : Nat) : NiStringArray :=
  Function.update arrays dst {} src

def ArrayCall.apply (arrays : Arrays) : ArrayCall → Except Fault (Int × Arrays)
  | .append array str => arrays.put array (niStringArrayAppend (arrays array) (some str))
  | .insert array pos str => arrays.put array (niStringArrayInsert (arrays array) pos str)
  | .set array pos str => arrays.put array (niStringArraySet (arrays array) pos (some str))
  | .removeIndex array pos => arrays.put array (niStringArrayRemoveIndex (arrays array) pos)
  | .removeMatch array str maxkill =>
    arrays.put array (niStringArrayRemoveMatch (arrays array) str maxkill)
  | .move dst src => do
    let nsa ← niStringArrayMove (arrays dst) (arrays.source dst src)
    .ok (0, Function.update (Function.update arrays dst nsa) src {})
  | .copy dst src => arrays.put dst (niStringArrayCopy (arrays dst) (arrays.source dst src))

abbrev Lists : Type := Nat → List CString

/-- The same calls on lists of strings. -/
def ArrayCall.meaning (lists : Lists) : ArrayCall → Int × Lists
  | .append array str => (0, Function.update lists array (lists array ++ [str]))
  | .insert array pos str =>
    (0, Function.update lists array ((lists array).take pos ++ str :: (lists array).drop pos))
  | .set array pos str => (if pos < (lists array).length then 0 else -1,
      Function.update lists array ((lists array).set pos str))
  | .removeIndex array pos => (if pos < (lists array).length then 0 else -1,
      Function.update lists array ((lists array).eraseIdx pos))
  | .removeMatch array str maxkill =>
    ((min (killLimit (lists array) maxkill) ((lists array).count str) : Nat),
      Function.update lists array (eraseN str (killLimit (lists array) maxkill) (lists array)))
  | .move dst src => (0, Function.update (Function.update lists dst (lists src)) src [])
  | .copy dst src => (0, Function.update lists dst (lists src))

/-- The array holds the strings and nothing but `NULL` behind them, of which there is at least
one if it holds any. -/
structure NullTerminated (strings : List CString) (nsa : NiStringArray) : Prop where
  count : nsa.count = strings.length
  capacity : strings ≠ [] → nsa.count < nsa.data.length
  data : nsa.data = strings.map some ++ List.replicate (nsa.data.length - strings.length) none

/-- The count does not reach the last chunk of its 32 bits, and no array that holds strings is
copied to itself. -/
def ArrayCall.Fits (lists : Lists) : ArrayCall → Prop
  | .append array _ | .insert array _ _ => (lists array).length ≠ 2 ^ 32 - 16
  | .copy dst src => dst = src → lists src = []
  | _ => True

theorem Strings.nullTerminated (holds : Strings strings nsa) : NullTerminated strings nsa where
  count := holds.count
  capacity := by
    intro some_
    have length := List.length_pos_iff.mpr some_
    have room := Holds.room holds (by rwa [List.length_map])
    rw [List.length_map] at room
    rw [holds.count]
    omega
  data := by
    have data := Holds.data holds
    rwa [List.length_map] at data

section Calls

variable {lists : Lists}

def Represented (lists : Lists) (arrays : Arrays) : Prop :=
  ∀ array, Strings (lists array) (arrays array)

theorem Represented.update (holds : Represented lists arrays) (array : Nat) (holds' : Strings strings nsa) :
    Represented (Function.update lists array strings) (Function.update arrays array nsa) := by
  intro other
  by_cases same : other = array
  · subst other
    rwa [Function.update_self, Function.update_self]
  · rw [Function.update_of_ne same, Function.update_of_ne same]
    exact holds other

theorem Represented.put (holds : Represented lists arrays) (done : ∃ nsa, result = .ok (code, nsa) ∧ Strings strings nsa) :
    ∃ next, arrays.put array result = .ok (code, next) ∧ Represented (Function.update lists array strings) next := by
  obtain ⟨nsa, rfl, holds'⟩ := done
  exact ⟨_, rfl, holds.update array holds'⟩

/-- An array copied or moved to itself is empty when it is read. -/
theorem Represented.source (holds : Represented lists arrays) (dst src : Nat) :
    Strings (Function.update lists dst [] src) (arrays.source dst src) := holds.update dst holds_empty src

theorem Represented.kept (holds : Represented lists arrays) (call : ArrayCall) (fits : call.Fits lists) :
    ∃ next, call.apply arrays = .ok ((call.meaning lists).1, next) ∧ Represented (call.meaning lists).2 next := by
  cases call with
  | append array str =>
    obtain ⟨longer, appended, holds'⟩ := (holds array).append fits str
    exact holds.put ⟨longer, by rw [niStringArrayAppend, appended]; rfl, holds'⟩
  | insert array pos str =>
    obtain ⟨longer, inserted, holds'⟩ := (holds array).insert fits pos str
    exact holds.put ⟨longer, by rw [niStringArrayInsert, inserted]; rfl, holds'⟩
  | set array pos str => exact holds.put ((holds array).set pos str)
  | removeIndex array pos => exact holds.put ((holds array).removeIndex pos)
  | removeMatch array str maxkill => exact holds.put ((holds array).removeMatch str maxkill)
  | move dst src =>
    have empty : Strings [] {} := holds_empty
    have moved := (holds.update dst (holds.source dst src)).update src empty
    refine ⟨_, by rw [ArrayCall.apply, niStringArrayMove, (holds dst).destroy]; rfl, ?_⟩
    by_cases same : dst = src
    · subst dst
      simpa only [ArrayCall.meaning, Function.update_self, Function.update_idem] using moved
    · rwa [Function.update_of_ne (Ne.symm same)] at moved
  | copy dst src =>
    have copied := (holds dst).copy (holds.source dst src)
    by_cases same : dst = src
    · rw [same, Function.update_self] at copied
      rw [ArrayCall.meaning, same, fits same]
      exact holds.put copied
    · rw [Function.update_of_ne (Ne.symm same)] at copied
      exact holds.put copied

theorem Represented.forced (holds : Represented lists arrays) (call : ArrayCall) (applied : call.apply arrays = .ok ((call.meaning lists).1, next))
    (related : ∀ array, NullTerminated ((call.meaning lists).2 array) (next array)) : call.Fits lists := by
  cases call with
  | append array str =>
    intro full
    have stops := (holds array).append_full full str
    rw [ArrayCall.apply, Arrays.put, niStringArrayAppend, stops] at applied
    cases applied
  | insert array pos str =>
    intro full
    have stops := (holds array).insert_full full pos str
    rw [ArrayCall.apply, Arrays.put, niStringArrayInsert, stops] at applied
    cases applied
  | copy dst src =>
    rintro rfl
    obtain ⟨nsa, copied, holds'⟩ := (holds dst).copy (holds.source dst dst)
    rw [ArrayCall.apply, Arrays.put, copied] at applied
    cases applied
    have length := (related dst).count
    simp only [ArrayCall.meaning, Function.update_self, holds'.count, List.length_nil] at length
    exact List.eq_nil_of_length_eq_zero length.symm
  | set | removeIndex | removeMatch | move => trivial

end Calls

/-- The arrays are what the calls make of lists of strings, with `NULL` behind the strings and
room for it, in every sequence of calls that fit, and in no other. -/
theorem arrays_refine_iff (calls : List ArrayCall) :
    Refines ArrayCall.apply ArrayCall.meaning
        (fun lists arrays => ∀ array, NullTerminated (lists array) (arrays array))
        (fun _ => []) (fun _ => {}) calls ↔
      Meets ArrayCall.meaning (fun lists call => call.Fits lists) (fun _ => []) calls := by
  have initial : Represented (fun _ => []) fun _ => {} := fun _ => holds_empty
  have kept := fun lists arrays call (holds : Represented lists arrays) =>
    holds.kept call
  rw [← guarded_iff_meets kept initial calls]
  exact refines_iff (fun _ _ holds array => (holds array).nullTerminated) kept
    (fun _ _ call _ holds => holds.forced call) initial calls

/-- An array copied to itself is emptied. -/
theorem not_refines_self_copy :
    ¬ Refines ArrayCall.apply ArrayCall.meaning
        (fun lists arrays => ∀ array, NullTerminated (lists array) (arrays array))
        (fun _ => []) (fun _ => {}) [.append 0 [97], .copy 0 0] := by
  rintro ⟨first, appended, -, second, copied, related, -⟩
  cases appended
  cases copied
  have count := (related 0).count
  exact absurd count (by decide)

end Testbus.Util
