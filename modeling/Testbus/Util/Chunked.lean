import Testbus.Buffer
import Testbus.Lib.Cells

namespace Testbus.Util

open Lib Cells

structure Chunked (α : Type) where
  count : Nat := 0
  data : List α := []
  deriving DecidableEq

section Growing

variable (extra : Nat) (blank : α)

/-- Room for `newsize` values, a chunk and `extra` more, all blank from the count on. -/
def chunkedRealloc (array : Chunked α) (newsize : Nat) : Chunked α :=
  let newsize := (newsize + 16 + extra) % 2 ^ 32
  { array with data := fillFrom (resize array.data newsize blank) array.count blank }

def chunkedEnsure (array : Chunked α) : Chunked α :=
  if array.count % 16 = 0 then chunkedRealloc extra blank array array.count else array

def chunkedAppend (array : Chunked α) (value : α) : Except Fault (Chunked α) := do
  let array := chunkedEnsure extra blank array
  let data ← store array.data array.count value
  .ok { count := (array.count + 1) % 2 ^ 32, data }

/-- The values in front, blank cells behind them, and as many cells as the count tells. -/
structure Holds (values : List α) (array : Chunked α) : Prop where
  count : array.count = values.length
  data : array.data = values ++ List.replicate (array.data.length - values.length) blank
  room : 0 < values.length → (values.length + 15) / 16 * 16 + extra ≤ array.data.length
  most : values.length ≤ 2 ^ 32 - 16

end Growing

section Holding

variable {blank value : α} {values : List α}

theorem holds_empty : Holds extra blank [] ({} : Chunked α) where
  count := rfl
  data := rfl
  room := nofun
  most := Nat.zero_le _

theorem Holds.length_le (holds : Holds extra blank values array) : values.length ≤ array.data.length := by
  have data := congrArg List.length holds.data
  rw [List.length_append] at data
  omega

theorem Holds.shape (holds : Holds extra blank values array) :
    array = ⟨values.length, values ++ List.replicate (array.data.length - values.length) blank⟩ :=
  congrArg₂ Chunked.mk holds.count holds.data

/-- The values of an array are what its cells up to the count hold. -/
theorem Holds.take_count (holds : Holds extra blank values array) : array.data.take array.count = values := by
  rw [holds.count, holds.data, List.take_left]

theorem Holds.replace (holds : Holds extra blank values array) {others data : List α}
    (same : data = others ++ List.replicate (array.data.length - others.length) blank)
    (fewer : others.length ≤ values.length) : Holds extra blank others { count := others.length, data } where
  count := rfl
  data := by
    have size : data.length = array.data.length := by
      have length := holds.length_le
      rw [same, List.length_append, List.length_replicate]
      omega
    rw [size]
    exact same
  room := by
    intro some_
    have room := holds.room (by omega)
    have length := holds.length_le
    rw [same, List.length_append, List.length_replicate]
    omega
  most := Nat.le_trans fewer holds.most

theorem Holds.store (holds : Holds extra blank values array) {i : Nat} (inside : i < values.length) (value : α) :
    ∃ data, Cells.store array.data i value = .ok data ∧ Holds extra blank (values.set i value) { array with data } := by
  have stored := store_front inside (List.replicate (array.data.length - values.length) blank) value
  rw [← holds.data] at stored
  refine ⟨_, stored, ?_⟩
  have length : (values.set i value).length = values.length := List.length_set ..
  rw [holds.count, ← length]
  exact holds.replace rfl (Nat.le_of_eq length)

theorem Holds.load (holds : Holds extra blank values array) (inside : i < values.length) :
    Cells.load array.data i = .ok values[i] := by
  rw [holds.data]
  exact load_front inside _

/-- What growing makes ready: a cell behind the values, and room to have one value more. -/
structure Ready (extra : Nat) (blank : α) (values : List α) (array : Chunked α) : Prop where
  count : array.count = values.length
  data : ∃ spare, array.data = values ++ List.replicate (spare + 1) blank
  room : (values.length + 16) / 16 * 16 + extra ≤ array.data.length
  most : values.length < 2 ^ 32 - 16

theorem Holds.ensure (holds : Holds extra blank values array) (small : extra < 16)
    (below : values.length ≠ 2 ^ 32 - 16) : Ready extra blank values (chunkedEnsure extra blank array) := by
  have most := holds.most
  have fewer : values.length < 2 ^ 32 - 16 := by omega
  rw [chunkedEnsure, holds.count]
  by_cases chunk : values.length % 16 = 0
  · have size : (values.length + 16 + extra) % 2 ^ 32 = values.length + 16 + extra := Nat.mod_eq_of_lt (by omega)
    have wide : values.length ≤ values.length + 16 + extra := by omega
    have data := resize_front wide (array.data.length - values.length) blank
    rw [← holds.data] at data
    have grown : (chunkedRealloc extra blank array values.length).data =
        values ++ List.replicate (15 + extra + 1) blank := by
      simp only [chunkedRealloc, size, holds.count, data]
      congr 2
      omega
    rw [if_pos chunk]
    refine ⟨holds.count, ⟨_, grown⟩, ?_, fewer⟩
    rw [grown, List.length_append, List.length_replicate]
    omega
  · have room := holds.room (by omega)
    rw [if_neg chunk]
    refine ⟨holds.count, ⟨array.data.length - values.length - 1, ?_⟩, by omega, fewer⟩
    rw [show array.data.length - values.length - 1 + 1 = array.data.length - values.length by omega]
    exact holds.data

/-- One value more, in a block that was made ready. -/
theorem Ready.grown {longer : List α} {spare : Nat} {data : List α}
    (ready : Ready extra blank values array) (data_eq : data = longer ++ List.replicate spare blank)
    (size : data.length = array.data.length) (length : longer.length = values.length + 1) :
    Holds extra blank longer { count := (array.count + 1) % 2 ^ 32, data } where
  count := by
    have most := ready.most
    rw [ready.count, length]
    exact Nat.mod_eq_of_lt (by omega)
  data := by
    have total := congrArg List.length data_eq
    rw [List.length_append, List.length_replicate] at total
    rw [data_eq, List.length_append, List.length_replicate, Nat.add_sub_cancel_left]
  room := by
    intro some_
    have room := ready.room
    rw [size, length]
    omega
  most := by
    have most := ready.most
    omega

/-- At the last chunk the size of the block wraps, and there is no cell at the count. -/
theorem ensure_full (holds : Holds extra blank values array) (small : extra < 16)
    (full : values.length = 2 ^ 32 - 16) : (chunkedEnsure extra blank array).data.length ≤ array.count := by
  have size : (values.length + 16 + extra) % 2 ^ 32 = extra := by
    rw [full]
    omega
  have chunk : values.length % 16 = 0 := by omega
  rw [chunkedEnsure, holds.count, if_pos chunk]
  simp only [chunkedRealloc, size, fillFrom, length_resize, holds.count, List.length_append,
    List.length_take, List.length_replicate]
  omega

theorem count_ensure (extra : Nat) (blank : α) (array : Chunked α) :
    (chunkedEnsure extra blank array).count = array.count := by
  rw [chunkedEnsure]
  split <;> rfl

theorem Holds.append (holds : Holds extra blank values array) (small : extra < 16)
    (below : values.length ≠ 2 ^ 32 - 16) (value : α) :
    ∃ longer, chunkedAppend extra blank array value = .ok longer ∧ Holds extra blank (values ++ [value]) longer := by
  have ready := holds.ensure small below
  obtain ⟨spare, data⟩ := ready.data
  have stored := store_end values spare value blank
  rw [← data, ← ready.count] at stored
  refine ⟨_, by rw [chunkedAppend, stored]; rfl, ready.grown rfl ?_ (by simp)⟩
  rw [data]
  simp only [List.length_append, List.length_replicate, List.length_singleton]
  omega

theorem append_full (holds : Holds extra blank values array) (small : extra < 16)
    (full : values.length = 2 ^ 32 - 16) (value : α) : chunkedAppend extra blank array value = .error .outside := by
  have outside := ensure_full holds small full
  rw [← count_ensure extra blank] at outside
  rw [chunkedAppend, store_of_le outside]
  rfl

end Holding

end Testbus.Util
