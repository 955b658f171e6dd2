import Mathlib

namespace Testbus

abbrev Bytes := List UInt8

/-- The bytes of a C string before its terminator. -/
abbrev CString := List UInt8

instance : LawfulBEq CString := inferInstance

def ascii (text : List Char) : CString := text.map fun c => UInt8.ofNat c.toNat

theorem digit_range {c : Char} (digit : c.isDigit = true) : 48 ≤ c.toNat ∧ c.toNat ≤ 57 := by
  simp only [Char.isDigit, Bool.and_eq_true, decide_eq_true_eq] at digit
  exact ⟨by simpa using UInt32.le_iff_toNat_le.mp digit.1, by simpa using UInt32.le_iff_toNat_le.mp digit.2⟩

/-- `a - b` in `size_t`. -/
def sizeSub (a b : Nat) : Nat := if b ≤ a then a - b else a + 2 ^ 64 - b

/-- `struct ni_buffer`. The storage is a memory of bytes; a fresh one is zeroed. -/
structure NiBuffer where
  base : Nat → UInt8
  head : Nat := 0
  tail : Nat := 0
  size : Nat
  overflow : Bool := false
  underflow : Bool := false
  allocated : Bool := false

namespace NiBuffer

def new (size : Nat) : NiBuffer := { base := fun _ => 0, size := size }

def count (bp : NiBuffer) : Nat :=
  if bp.head < bp.tail then (bp.tail - bp.head) % 2 ^ 32 else 0

def tailroom (bp : NiBuffer) : Nat :=
  if bp.tail < bp.size then (bp.size - bp.tail) % 2 ^ 32 else 0

def reserveHead (bp : NiBuffer) (headroom : Nat) : NiBuffer :=
  if bp.head ≠ bp.tail then bp
  else { bp with head := (bp.tail + headroom) % 2 ^ 64, tail := (bp.tail + headroom) % 2 ^ 64 }

/-- The pushes and pulls return the offset of the bytes they grant, or nothing. -/
def pushHead (bp : NiBuffer) (count : Nat) : Option Nat × NiBuffer :=
  if bp.head < count then (none, { bp with overflow := true })
  else (some (bp.head - count), { bp with head := bp.head - count })

def pushTail (bp : NiBuffer) (count : Nat) : Option Nat × NiBuffer :=
  if sizeSub bp.size bp.tail < count then (none, { bp with overflow := true })
  else (some bp.tail, { bp with tail := bp.tail + count })

def pullHead (bp : NiBuffer) (count : Nat) : Option Nat × NiBuffer :=
  if sizeSub bp.tail bp.head < count then (none, { bp with underflow := true })
  else (some bp.head, { bp with head := bp.head + count })

/-- The storage moves when it grows; its first `size` bytes are copied. The new
size is one the allocator has granted, so the sum does not wrap. -/
def ensureTailroom (bp : NiBuffer) (minRoom : Nat) : NiBuffer :=
  if minRoom ≤ bp.tailroom then bp
  else { bp with size := bp.size + minRoom, allocated := true }

/-- Write bytes into the storage from an offset on. -/
def store (bp : NiBuffer) (offset : Nat) (bytes : Bytes) : NiBuffer :=
  { bp with base := fun i =>
      if offset ≤ i ∧ i < offset + bytes.length then bytes.getD (i - offset) 0 else bp.base i }

def load (bp : NiBuffer) (offset count : Nat) : Bytes :=
  (List.range count).map (fun i => bp.base (offset + i))

/-- The unread bytes, from the head to the tail. -/
def contents (bp : NiBuffer) : Bytes := bp.load bp.head (bp.tail - bp.head)

/-- `read(2)` into the tail of the buffer, then push the tail over what was read. -/
def fill (bp : NiBuffer) (bytes : Bytes) : NiBuffer :=
  ((bp.store bp.tail bytes).pushTail bytes.length).2

def put (bp : NiBuffer) (data : Bytes) : NiBuffer :=
  if bp.size < bp.tail + data.length then { bp with overflow := true }
  else { bp.store bp.tail data with tail := bp.tail + data.length }

/-- The bytes a user of the buffer sees: as many as are counted, from the head on. -/
def payload (bp : NiBuffer) : Bytes := bp.load bp.head bp.count

structure WellFormed (bp : NiBuffer) : Prop where
  ordered : bp.head ≤ bp.tail
  inside : bp.tail ≤ bp.size

/-- A well-formed buffer whose bytes can be counted in 32 bits. -/
structure Fits (bp : NiBuffer) : Prop extends bp.WellFormed where
  counted : bp.contents.length < 2 ^ 32

theorem wellFormed_new (size : Nat) : (new size).WellFormed := ⟨Nat.le_refl _, Nat.zero_le _⟩

@[simp] theorem contents_new (size : Nat) : (new size).contents = [] := rfl

@[simp] theorem length_load (bp : NiBuffer) (offset count : Nat) : (bp.load offset count).length = count := by
  simp [load]

@[simp] theorem length_contents (bp : NiBuffer) : bp.contents.length = bp.tail - bp.head := by
  simp [contents]

theorem load_add (bp : NiBuffer) (offset first second : Nat) :
    bp.load offset (first + second) = bp.load offset first ++ bp.load (offset + first) second := by
  simp [load, List.range_add, Function.comp_def, Nat.add_assoc]

variable {bp : NiBuffer}

theorem load_congr {other : NiBuffer} (same : ∀ i, offset ≤ i → i < offset + n → bp.base i = other.base i) :
    bp.load offset n = other.load offset n := by
  apply List.map_congr_left
  intro i member
  have bound := List.mem_range.mp member
  exact same _ (by omega) (by omega)

theorem load_store_self (bp : NiBuffer) (offset : Nat) (bytes : Bytes) :
    (bp.store offset bytes).load offset bytes.length = bytes := by
  apply List.ext_getElem
  · simp
  · intro i first second
    simp [load, store, second]

theorem load_store_below (below : offset + n ≤ place) : (bp.store place bytes).load offset n = bp.load offset n := by
  apply load_congr
  intro i lower upper
  simp only [store]
  rw [if_neg (by omega)]

theorem load_store_above (above : place + bytes.length ≤ offset) :
    (bp.store place bytes).load offset n = bp.load offset n := by
  apply load_congr
  intro i lower upper
  simp only [store]
  rw [if_neg (by omega)]

/-- `count` is the number of unread bytes as long as it fits 32 bits. -/
theorem count_eq (fits : bp.contents.length < 2 ^ 32) : bp.count = bp.contents.length := by
  rw [length_contents] at *
  unfold count
  split
  · exact Nat.mod_eq_of_lt fits
  · omega

theorem Fits.count_eq (fits : bp.Fits) : bp.count = bp.contents.length := NiBuffer.count_eq fits.counted

theorem count_le (bp : NiBuffer) : bp.count ≤ bp.contents.length := by
  rw [length_contents]
  unfold count
  split
  · exact Nat.mod_le _ _
  · omega

theorem tailroom_le (bp : NiBuffer) : bp.tailroom ≤ bp.size - bp.tail := by
  unfold tailroom
  split
  · exact Nat.mod_le _ _
  · omega

theorem pushTail_eq (wf : bp.WellFormed) (room : n ≤ bp.size - bp.tail) :
    bp.pushTail n = (some bp.tail, { bp with tail := bp.tail + n }) := by
  have inside := wf.inside
  simp only [pushTail, sizeSub, if_pos inside]
  rw [if_neg (by omega)]

theorem pullHead_eq (wf : bp.WellFormed) (enough : n ≤ bp.contents.length) :
    bp.pullHead n = (some bp.head, { bp with head := bp.head + n }) := by
  have ordered := wf.ordered
  rw [length_contents] at enough
  simp only [pullHead, sizeSub, if_pos ordered]
  rw [if_neg (by omega)]

theorem wellFormed_pullHead (wf : bp.WellFormed) (n : Nat) : (bp.pullHead n).2.WellFormed := by
  by_cases enough : n ≤ bp.contents.length
  · rw [pullHead_eq wf enough]
    rw [length_contents] at enough
    have ordered := wf.ordered
    exact ⟨by simp only; omega, wf.inside⟩
  · have ordered := wf.ordered
    rw [length_contents] at enough
    simp only [pullHead, sizeSub, if_pos ordered]
    rw [if_pos (by omega)]
    exact ⟨wf.ordered, wf.inside⟩

theorem contents_pullHead (wf : bp.WellFormed) (enough : n ≤ bp.contents.length) :
    (bp.pullHead n).2.contents = bp.contents.drop n := by
  rw [pullHead_eq wf enough]
  rw [length_contents] at enough
  have split : bp.tail - bp.head = n + (bp.tail - (bp.head + n)) := by omega
  simp only [contents]
  conv_rhs => rw [split, load_add]
  rw [List.drop_left' (by simp)]
  rfl

theorem fits_pullHead (fits : bp.Fits) (enough : n ≤ bp.contents.length) : (bp.pullHead n).2.Fits where
  toWellFormed := wellFormed_pullHead fits.toWellFormed n
  counted := by
    have counted := fits.counted
    rw [contents_pullHead fits.toWellFormed enough, List.length_drop]
    omega

theorem load_head (enough : n ≤ bp.contents.length) : bp.load bp.head n = bp.contents.take n := by
  rw [length_contents] at enough
  have split : bp.tail - bp.head = n + (bp.tail - (bp.head + n)) := by omega
  rw [contents, split, load_add, List.take_left' (by simp)]

theorem wellFormed_fill (wf : bp.WellFormed) (room : bytes.length ≤ bp.size - bp.tail) : (bp.fill bytes).WellFormed := by
  have stored : (bp.store bp.tail bytes).WellFormed := ⟨wf.ordered, wf.inside⟩
  rw [fill, pushTail_eq stored room]
  have ordered := wf.ordered
  have inside := wf.inside
  exact ⟨by simp only [store]; omega, by simp only [store]; omega⟩

theorem contents_fill (wf : bp.WellFormed) (room : bytes.length ≤ bp.size - bp.tail) :
    (bp.fill bytes).contents = bp.contents ++ bytes := by
  have stored : (bp.store bp.tail bytes).WellFormed := ⟨wf.ordered, wf.inside⟩
  rw [fill, pushTail_eq stored room]
  have ordered := wf.ordered
  have split : bp.tail + bytes.length - bp.head = (bp.tail - bp.head) + bytes.length := by omega
  have join : bp.head + (bp.tail - bp.head) = bp.tail := by omega
  change (bp.store bp.tail bytes).load bp.head (bp.tail + bytes.length - bp.head) = _
  rw [split, load_add, join, load_store_self, load_store_below (by omega)]
  rfl

theorem fill_head (wf : bp.WellFormed) (room : bytes.length ≤ bp.size - bp.tail) :
    (bp.fill bytes).head = bp.head ∧ (bp.fill bytes).tail = bp.tail + bytes.length := by
  have stored : (bp.store bp.tail bytes).WellFormed := ⟨wf.ordered, wf.inside⟩
  rw [fill, pushTail_eq stored room]
  exact ⟨rfl, rfl⟩

theorem size_fill (bp : NiBuffer) (bytes : Bytes) : (bp.fill bytes).size = bp.size := by
  unfold fill pushTail
  split <;> rfl

/-- Bytes that there is room for are put as they are read. -/
theorem put_eq_fill (wf : bp.WellFormed) (room : bytes.length ≤ bp.size - bp.tail) : bp.put bytes = bp.fill bytes := by
  have stored : (bp.store bp.tail bytes).WellFormed := ⟨wf.ordered, wf.inside⟩
  have inside := wf.inside
  rw [put, if_neg (by omega), fill, pushTail_eq stored room]
  rfl

/-- A loop that takes blocks from the head of a buffer comes to its end. -/
theorem block_le (bp : NiBuffer) (n : Nat) : min bp.count n ≤ bp.contents.length :=
  Nat.le_trans (Nat.min_le_left _ _) bp.count_le

theorem pullHead_shrinks (some' : bp.count ≠ 0) (positive : 0 < n) :
    (bp.pullHead (min bp.count n)).2.tail - (bp.pullHead (min bp.count n)).2.head < bp.tail - bp.head := by
  have most := bp.count_le
  rw [length_contents] at most
  have enough : ¬ sizeSub bp.tail bp.head < min bp.count n := by
    rw [sizeSub, if_pos (by omega)]
    omega
  rw [pullHead, if_neg enough]
  dsimp only
  omega

theorem contents_ensureTailroom (bp : NiBuffer) (n : Nat) : (bp.ensureTailroom n).contents = bp.contents := by
  unfold ensureTailroom
  split <;> rfl

theorem wellFormed_ensureTailroom (wf : bp.WellFormed) (n : Nat) : (bp.ensureTailroom n).WellFormed := by
  unfold ensureTailroom
  split
  · exact wf
  · exact ⟨wf.ordered, Nat.le_trans wf.inside (Nat.le_add_right _ _)⟩

theorem fits_ensureTailroom (fits : bp.Fits) (n : Nat) : (bp.ensureTailroom n).Fits where
  toWellFormed := wellFormed_ensureTailroom fits.toWellFormed n
  counted := by rw [contents_ensureTailroom]; exact fits.counted

theorem room_ensureTailroom (wf : bp.WellFormed) (n : Nat) :
    n ≤ (bp.ensureTailroom n).size - (bp.ensureTailroom n).tail := by
  have inside := wf.inside
  unfold ensureTailroom
  split
  · rename_i room
    exact Nat.le_trans room (tailroom_le bp)
  · simp only
    omega

theorem wellFormed_prepend (wf : bp.WellFormed) (n : Nat) (place : Nat)
    (bytes : Bytes) : ((bp.pushHead n).2.store place bytes).WellFormed := by
  have ordered := wf.ordered
  have inside := wf.inside
  unfold pushHead
  split
  · exact ⟨ordered, inside⟩
  · exact ⟨by simp only [store]; omega, inside⟩

/-- Bytes written over the headroom come before what the buffer holds. -/
theorem contents_prepend (wf : bp.WellFormed) (room : bytes.length ≤ bp.head) :
    ((bp.pushHead bytes.length).2.store (bp.head - bytes.length) bytes).contents = bytes ++ bp.contents := by
  have ordered := wf.ordered
  have split : bp.tail - (bp.head - bytes.length) = bytes.length + (bp.tail - bp.head) := by omega
  have join : bp.head - bytes.length + bytes.length = bp.head := by omega
  rw [pushHead, if_neg (by omega)]
  simp only [contents]
  change (NiBuffer.store _ _ _).load (bp.head - bytes.length) (bp.tail - (bp.head - bytes.length)) = _
  rw [split, load_add, join, load_store_self, load_store_above (by omega)]
  rfl

theorem length_payload (bp : NiBuffer) : bp.payload.length < 2 ^ 32 := by
  rw [payload, length_load, count]
  split
  · exact Nat.mod_lt _ (by decide)
  · decide

/-- What is put into a buffer of its size can be read from it. -/
theorem payload_put (bytes : Bytes) (short : bytes.length < 2 ^ 32) : ((new bytes.length).put bytes).payload = bytes := by
  have room : ¬ (new bytes.length).size < (new bytes.length).tail + bytes.length := by simp [new]
  have filled : (new bytes.length).put bytes =
      { (new bytes.length).store 0 bytes with tail := 0 + bytes.length } := if_neg room
  rw [filled]
  have counted : ({ (new bytes.length).store 0 bytes with
      tail := 0 + bytes.length } : NiBuffer).count = bytes.length := by
    simp only [count, store, new, Nat.zero_add, Nat.sub_zero]
    split
    · exact Nat.mod_eq_of_lt short
    · omega
  rw [payload, counted]
  exact load_store_self (new bytes.length) 0 bytes

end NiBuffer

end Testbus
