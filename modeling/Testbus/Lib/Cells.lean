import Testbus.Lib.Machine

/-! Blocks of cells that are read and written within their bounds, and blocks that hold values in
front of blank cells. -/

namespace Lib.Cells

inductive Fault
  /-- An access outside of its block. -/
  | outside
  /-- An access through `NULL`. -/
  | null
  deriving DecidableEq

def load (cells : List α) (i : Nat) : Except Fault α :=
  match cells[i]? with
  | some value => .ok value
  | none => .error .outside

def store (cells : List α) (i : Nat) (value : α) : Except Fault (List α) :=
  if i < cells.length then .ok (cells.set i value) else .error .outside

/-- Values from elsewhere, to the cells from `i` on. -/
def write (cells : List α) (i : Nat) (values : List α) : Except Fault (List α) :=
  if i + values.length ≤ cells.length then
    .ok (cells.take i ++ values ++ cells.drop (i + values.length))
  else .error .outside

/-- The `count` cells from `source` on, to those from `target` on. -/
def move (cells : List α) (target source count : Nat) : Except Fault (List α) :=
  if source + count ≤ cells.length then write cells target ((cells.drop source).take count)
  else .error .outside

/-- The block with another size; cells that are new get `blank`. -/
def resize (cells : List α) (size : Nat) (blank : α) : List α :=
  cells.take size ++ List.replicate (size - cells.length) blank

/-- `blank` in all cells from `i` on. -/
def fillFrom (cells : List α) (i : Nat) (blank : α) : List α :=
  cells.take i ++ List.replicate (cells.length - i) blank

section Bounds

variable {cells : List α} {value blank : α} {values : List α}

theorem load_of_lt (inside : i < cells.length) : load cells i = .ok cells[i] := by
  rw [load, List.getElem?_eq_getElem inside]

theorem load_of_le (outside : cells.length ≤ i) : load cells i = .error .outside := by
  rw [load, List.getElem?_eq_none outside]

theorem store_of_lt (inside : i < cells.length) : store cells i value = .ok (cells.set i value) := if_pos inside

theorem store_of_le (outside : cells.length ≤ i) : store cells i value = .error .outside :=
  if_neg (Nat.not_lt.mpr outside)

theorem store_ok : store cells i value = .ok result ↔ i < cells.length ∧ cells.set i value = result := by
  by_cases inside : i < cells.length
  · rw [store_of_lt inside, Except.ok.injEq, and_iff_right inside]
  · rw [store_of_le (Nat.not_lt.mp inside)]
    exact iff_of_false nofun fun both => inside both.1

theorem load_ok : load cells i = .ok value ↔ ∃ inside : i < cells.length, cells[i] = value := by
  by_cases inside : i < cells.length
  · rw [load_of_lt inside, Except.ok.injEq, exists_prop_of_true inside]
  · rw [load_of_le (Nat.not_lt.mp inside)]
    exact iff_of_false nofun fun both => inside both.1

theorem write_of_lt (outside : cells.length < i + values.length) : write cells i values = .error .outside :=
  if_neg (Nat.not_le.mpr outside)

theorem move_of_lt (outside : cells.length < target + count) : move cells target source count = .error .outside := by
  by_cases inside : source + count ≤ cells.length
  · rw [move, if_pos inside, write_of_lt]
    rw [List.length_take, List.length_drop]
    omega
  · exact if_neg inside

@[simp] theorem length_resize (cells : List α) (size : Nat) (blank : α) : (resize cells size blank).length = size := by
  rw [resize, List.length_append, List.length_take, List.length_replicate]
  omega

end Bounds

/-! Blocks with `front` in front of blank cells. -/

section Fronts

variable {front values : List α} {value blank : α}

theorem load_front (inside : i < front.length) (rest : List α) : load (front ++ rest) i = .ok front[i] := by
  rw [load, List.getElem?_append_left inside, List.getElem?_eq_getElem inside]

theorem store_front (inside : i < front.length) (rest : List α) (value : α) :
    store (front ++ rest) i value = .ok (front.set i value ++ rest) := by
  rw [store_of_lt (by rw [List.length_append]; omega), List.set_append_left _ _ inside]

theorem store_middle (front : List α) (old value : α) (rest : List α) :
    store (front ++ old :: rest) front.length value = .ok (front ++ value :: rest) := by
  rw [store_of_lt (by rw [List.length_append, List.length_cons]; omega),
    List.set_append_right _ _ (Nat.le_refl _), Nat.sub_self, List.set_cons_zero]

theorem store_end (front : List α) (spare : Nat) (value blank : α) :
    store (front ++ List.replicate (spare + 1) blank) front.length value =
      .ok ((front ++ [value]) ++ List.replicate spare blank) := by
  rw [List.replicate_succ, store_middle, List.append_assoc]
  rfl

theorem write_end (front : List α) (fits : values.length ≤ rest.length) :
    write (front ++ rest) front.length values = .ok (front ++ values ++ rest.drop values.length) := by
  rw [write, if_pos (by rw [List.length_append]; omega), List.take_left, List.drop_length_add_append]

/-- Making room in the front at `i`: one blank cell less, and the value at `i` twice. -/
theorem move_up (inside : i < front.length) (spare : Nat) (blank : α) :
    move (front ++ List.replicate (spare + 1) blank) (i + 1) i (front.length - i) =
      .ok ((front.take (i + 1) ++ front.drop i) ++ List.replicate spare blank) := by
  have moved : ((front ++ List.replicate (spare + 1) blank).drop i).take (front.length - i) = front.drop i := by
    rw [List.drop_append_of_le_length (by omega), List.take_left' (by rw [List.length_drop])]
  have behind : i + 1 + (front.drop i).length = front.length + 1 := by
    rw [List.length_drop]
    omega
  rw [move, if_pos (by rw [List.length_append]; omega), moved, write, behind,
    if_pos (by rw [List.length_append, List.length_replicate]; omega),
    List.take_append_of_le_length (by omega), List.drop_length_add_append, List.drop_replicate,
    Nat.add_sub_cancel]

/-- Closing the front at `i`: one blank cell more. -/
theorem move_down (inside : i < front.length) (spare : Nat) (blank : α) :
    move (front ++ List.replicate (spare + 1) blank) i (i + 1) (front.length - i) =
      .ok (front.eraseIdx i ++ List.replicate (spare + 2) blank) := by
  have moved : ((front ++ List.replicate (spare + 1) blank).drop (i + 1)).take (front.length - i) =
      front.drop (i + 1) ++ [blank] := by
    rw [List.drop_append_of_le_length (by omega), List.replicate_succ, List.append_cons,
      List.take_left' (by rw [List.length_append, List.length_drop, List.length_singleton]; omega)]
  have behind : i + (front.drop (i + 1) ++ [blank]).length = front.length := by
    rw [List.length_append, List.length_drop, List.length_singleton]
    omega
  rw [move, if_pos (by rw [List.length_append, List.length_replicate]; omega), moved, write, behind,
    if_pos (by rw [List.length_append]; omega), List.take_append_of_le_length (by omega),
    List.drop_left, List.eraseIdx_eq_take_drop_succ, List.replicate_succ,
    List.append_assoc, List.append_assoc, List.append_assoc]
  rfl

/-- Another size for a block, with blank cells behind the front that fits. -/
theorem resize_front (fits : front.length ≤ size) (spare : Nat) (blank : α) :
    fillFrom (resize (front ++ List.replicate spare blank) size blank) front.length blank =
      front ++ List.replicate (size - front.length) blank := by
  have kept : (front ++ List.replicate spare blank).take size =
      front ++ (List.replicate spare blank).take (size - front.length) := by
    rw [List.take_append, List.take_of_length_le fits]
  rw [fillFrom, length_resize, resize, kept, List.append_assoc, List.take_left]

end Fronts

end Lib.Cells
