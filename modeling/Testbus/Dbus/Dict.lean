import Testbus.Dbus.Marshal
import Testbus.Lib.Machine
import Testbus.Lib.Store

/-! The array of a dictionary as it is allocated: its entries are moved byte by byte, and a value
lies in the entry or in a block that the entry points to. -/

namespace Testbus.Dbus.Dict

open Lib Marshal

/-- How many bytes of the union a fixed-size type takes. -/
def width : Char → Nat
  | 'y' => 1
  | 'n' | 'q' => 2
  | 'b' | 'i' | 'u' => 4
  | _ => 8

/-- The bytes of a scalar, the first of them lowest. -/
def bits : Scalar → Nat
  | .byte value => value.toNat
  | .boolean value => value.toNat
  | .int16 value => value.toUInt16.toNat
  | .uint16 value => value.toNat
  | .int32 value => value.toUInt32.toNat
  | .uint32 value => value.toNat
  | .int64 value => value.toUInt64.toNat
  | .uint64 value => value.toNat
  | .double value => value.toNat

theorem bits_lt (scalar : Scalar) : bits scalar < 256 ^ width scalar.type := by
  cases scalar with
  | byte value => exact value.toNat_lt
  | boolean value => exact value.toNat_lt
  | int16 value => exact value.toUInt16.toNat_lt
  | uint16 value => exact value.toNat_lt
  | int32 value => exact value.toUInt32.toNat_lt
  | uint32 value => exact value.toNat_lt
  | int64 value => exact value.toUInt64.toNat_lt
  | uint64 value => exact value.toNat_lt
  | double value => exact value.toNat_lt

/-- What the type of a datum, and that of its elements, say of the union. -/
inductive Kind
  | invalid
  | scalar (type : Char)
  | string
  | objectPath
  | byteArray
  | stringArray
  deriving DecidableEq

/-- The union: a number or, with the number zero, `NULL`, or a pointer. -/
inductive Word
  | number (bytes : Nat)
  | pointer (block : Addr)
  deriving DecidableEq

structure Datum where
  kind : Kind := .invalid
  word : Word := .number 0
  deriving DecidableEq

/-- `struct ni_dbus_dict_entry`. Its key is never freed. -/
structure Entry where
  key : Option CString := none
  datum : Datum := {}
  deriving DecidableEq

/-- What is allocated for a datum; the strings of an array go with the array. -/
inductive Block
  | text (value : CString)
  | bytes (value : List UInt8)
  | texts (values : List CString)
  deriving DecidableEq

/-- What the setters take. -/
inductive Value
  | scalar (value : Scalar)
  | string (value : Option CString)
  | objectPath (value : Option CString)
  | byteArray (bytes : List UInt8)
  | stringArray (strings : List (Option CString))
  deriving DecidableEq

/-- A dictionary: the entries its array has room for, of which `len` are in use. -/
structure State where
  slots : List Entry
  len : Nat
  blocks : Addr → Option Block
  next : Addr

/-- Why the program stops, or does what C leaves undefined. -/
inductive Fault
  /-- An entry outside of the array. -/
  | overflow
  /-- A block that has been freed. -/
  | freed
  /-- A number that is taken for a pointer. -/
  | wild
  deriving DecidableEq

def chunk : Nat := 32

def allocation (len : Nat) : Nat := (len + chunk - 1) / chunk * chunk

/-- Overwrite the bytes that the scalar takes. -/
def Word.write (word : Word) (scalar : Scalar) : Word :=
  match word with
  | .number bytes =>
    let size := 256 ^ width scalar.type
    .number (bytes / size * size + bits scalar)
  | .pointer _ => .number (bits scalar)

namespace State

/-- `ni_dbus_variant_init_dict`. -/
def initial : State where
  slots := []
  len := 0
  blocks _ := none
  next := 0

def entries (s : State) : List Entry := s.slots.take s.len

def alloc (s : State) (block : Block) : State × Addr :=
  ({ s with blocks := Function.update s.blocks s.next (some block), next := s.next + 1 }, s.next)

/-- `free` of what a union points to. -/
def free (s : State) : Word → Except Fault State
  | .number bytes => if bytes = 0 then .ok s else .error .wild
  | .pointer block =>
    if (s.blocks block).isSome then .ok { s with blocks := Function.update s.blocks block none }
    else .error .freed

/-- `ni_dbus_variant_destroy`, after which a datum is blank. -/
def destroy (s : State) (datum : Datum) : Except Fault State :=
  match datum.kind with
  | .invalid | .scalar _ => .ok s
  | .string | .objectPath | .byteArray | .stringArray => s.free datum.word

/-- `__ni_dbus_variant_change_type` leaves the bytes of a scalar. -/
def changeType (s : State) (datum : Datum) (kind : Kind) : Except Fault (State × Datum) :=
  if datum.kind = kind then .ok (s, datum)
  else
    match datum.kind with
    | .invalid | .scalar _ => .ok (s, { datum with kind })
    | .string | .objectPath | .byteArray | .stringArray => do
      let s ← s.destroy datum
      .ok (s, { kind })

/-- `ni_string_dup` copies first. -/
def stringDup (s : State) (datum : Datum) : Option CString → Except Fault (State × Datum)
  | none => do
    let s ← s.free datum.word
    .ok (s, { datum with word := .number 0 })
  | some text => do
    let (s, block) := s.alloc (.text text)
    let s ← s.free datum.word
    .ok (s, { datum with word := .pointer block })

/-- `ni_dbus_variant_set_string` and its siblings. -/
def write (s : State) (datum : Datum) : Value → Except Fault (State × Datum)
  | .scalar value => do
    let (s, datum) ← s.changeType datum (.scalar value.type)
    .ok (s, { datum with word := datum.word.write value })
  | .string value => do
    let (s, datum) ← s.changeType datum .string
    s.stringDup datum value
  | .objectPath value => do
    let (s, datum) ← s.changeType datum .objectPath
    s.stringDup datum value
  | .byteArray bytes => do
    let s ← s.destroy datum
    let (s, block) := s.alloc (.bytes bytes)
    .ok (s, ⟨.byteArray, .pointer block⟩)
  | .stringArray strings => do
    let s ← s.destroy datum
    let (s, block) := s.alloc (.texts (strings.map fun text => text.getD []))
    .ok (s, ⟨.stringArray, .pointer block⟩)

/-- `__ni_dbus_array_grow` by one entry; what `xcalloc` gives is zero. -/
def grow (s : State) : Except Fault State :=
  if s.len + 1 ≥ allocation s.len then
    if s.slots.length < s.len ∨ allocation (s.len + 1) < s.len then .error .overflow
    else .ok { s with
      slots := s.slots.take s.len ++ List.replicate (allocation (s.len + 1) - s.len) {} }
  else .ok s

/-- `ni_dbus_dict_add`, with the place of the datum it returns. -/
def add (s : State) (key : CString) : Except Fault (State × Nat) := do
  let s ← s.grow
  match s.slots[s.len]? with
  | none => .error .overflow
  | some entry =>
    .ok ({ s with slots := s.slots.set s.len { entry with key := some key }, len := s.len + 1 },
      s.len)

/-- Set the value of the entry at a place. -/
def set (s : State) (place : Nat) (value : Value) : Except Fault State :=
  match s.slots[place]? with
  | none => .error .overflow
  | some entry => do
    let (s, datum) ← s.write entry.datum value
    .ok { s with slots := s.slots.set place { entry with datum } }

/-- `ni_dbus_dict_add_string` and its siblings. -/
def addValue (s : State) (key : CString) (value : Value) : Except Fault State := do
  let (s, place) ← s.add key
  s.set place value

/-- `ni_dbus_dict_delete_entry`. The last entry moves down, but stays where it was as well. -/
def deleteEntry (s : State) (key : CString) : Except Fault (State × Bool) :=
  match s.entries.findIdx? fun entry => entry.key = some key with
  | none => .ok (s, false)
  | some place =>
    match s.slots[place]? with
    | none => .error .overflow
    | some entry => do
      let s ← s.destroy entry.datum
      let slots := s.slots.set place { entry with datum := {} }
      let len := s.len - 1
      .ok ({ s with
        slots := slots.take place ++ ((slots.drop (place + 1)).take (len - place) ++ slots.drop len)
        len }, true)

/-- `ni_dbus_dict_get`, up to the datum at the place. -/
def get (s : State) (key : CString) : Option Nat :=
  s.entries.findIdx? fun entry => entry.key = some key

def getEntry (s : State) (index : Nat) : Option (Option CString × Nat) :=
  if index ≥ s.len then none else s.slots[index]?.map fun entry => (entry.key, index)

/-- `ni_dbus_dict_get_next`; without a key it takes every entry. -/
def getNext (s : State) (key : Option CString) (previous : Option Nat) : Option Nat := do
  let pos ← match previous with
    | none => some 0
    | some place => if place < s.len then some (place + 1) else none
  let found ← (s.entries.drop pos).findIdx? fun entry => key = none ∨ entry.key = key
  return pos + found

end State

inductive Input
  /-- The setter of a value, if there is one, is called for the datum that was added. -/
  | add (key : CString) (value : Option Value)
  | deleteEntry (key : CString)
  deriving DecidableEq

def step (s : State) : Input → Except Fault State
  | .add key none => (s.add key).map Prod.fst
  | .add key (some value) => s.addValue key value
  | .deleteEntry key => (s.deleteEntry key).map Prod.fst

/-- What an entry means, as long as what it points to is there. -/
inductive Content
  | fresh
  | scalar (type : Char) (bytes : Nat)
  | string (value : Option CString)
  | objectPath (value : Option CString)
  | byteArray (bytes : List UInt8)
  | stringArray (strings : List CString)
  deriving DecidableEq

def Value.content : Value → Content
  | .scalar value => .scalar value.type (bits value)
  | .string value => .string value
  | .objectPath value => .objectPath value
  | .byteArray bytes => .byteArray bytes
  | .stringArray strings => .stringArray (strings.map fun text => text.getD [])

def Word.block? : Word → Option Addr
  | .number _ => none
  | .pointer block => some block

def textAt (blocks : Addr → Option Block) : Word → Option (Option CString)
  | .number bytes => if bytes = 0 then some none else none
  | .pointer block =>
    match blocks block with
    | some (.text value) => some (some value)
    | _ => none

def read (blocks : Addr → Option Block) (datum : Datum) : Option Content :=
  match datum.kind, datum.word with
  | .invalid, .number bytes => if bytes = 0 then some .fresh else none
  | .scalar type, .number bytes => some (.scalar type (bytes % 256 ^ width type))
  | .string, word => (textAt blocks word).map .string
  | .objectPath, word => (textAt blocks word).map .objectPath
  | .byteArray, .pointer block =>
    match blocks block with
    | some (.bytes value) => some (.byteArray value)
    | _ => none
  | .stringArray, .pointer block =>
    match blocks block with
    | some (.texts values) => some (.stringArray values)
    | _ => none
  | _, _ => none

/-- The list that the dictionary stands for. -/
def State.pairs (s : State) : List (Option CString × Option Content) :=
  s.entries.map fun entry => (entry.key, read s.blocks entry.datum)

def Entry.block? (entry : Entry) : Option Addr := entry.datum.word.block?

def owned (entries : List Entry) : List Addr := entries.filterMap Entry.block?

/-- Every entry in use has its own storage, and all of them lie within the array. -/
structure Apart (s : State) : Prop where
  room : s.len ≤ s.slots.length
  nodup : (owned s.entries).Nodup
  live : ∀ block ∈ owned s.entries, (s.blocks block).isSome

/-- A place in use whose entry has the key; without a key every place is. -/
def Matches (s : State) (key : Option CString) (place : Nat) : Prop :=
  ∃ entry, s.entries[place]? = some entry ∧ (key = none ∨ entry.key = key)

/-- The lookups give the entries in order. -/
structure Ordered (s : State) : Prop where
  get : ∀ key place, s.get key = some place ↔ IsLeast {i | Matches s (some key) i} place
  getEntry : ∀ place, s.getEntry place = s.entries[place]?.map fun entry => (entry.key, place)
  first : ∀ key place, s.getNext key none = some place ↔ IsLeast {i | Matches s key i} place
  next : ∀ key previous place, previous < s.len → (s.getNext key (some previous) = some place ↔
    IsLeast {i | previous < i ∧ Matches s key i} place)

section Rules

variable {s s' : State} {datum : Datum} {entry : Entry} {content : Content} {block : Addr}
  {value : Value}

theorem read_congr (same : ∀ block, datum.word.block? = some block → blocks' block = blocks block) :
    read blocks' datum = read blocks datum := by
  obtain ⟨kind, word⟩ := datum
  cases word with
  | number bytes => cases kind <;> rfl
  | pointer block =>
    have here := same block rfl
    cases kind <;> simp only [read, textAt, here]

theorem blank_of_fresh (fresh : read blocks datum = some .fresh) : datum = {} := by
  obtain ⟨kind, word⟩ := datum
  cases kind with
  | invalid =>
    cases word with
    | number bytes =>
      by_cases zero : bytes = 0
      · rw [zero]
      · simp [read, zero] at fresh
    | pointer block => cases fresh
  | scalar type => cases word <;> cases fresh
  | string => simp [read] at fresh
  | objectPath => simp [read] at fresh
  | byteArray => cases word <;> grind [read]
  | stringArray => cases word <;> grind [read]

theorem read_live (readable : read blocks datum = some content)
    (points : datum.word.block? = some block) : (blocks block).isSome := by
  obtain ⟨kind, word⟩ := datum
  cases word with
  | number bytes => cases points
  | pointer other =>
    cases points
    cases here : blocks block with
    | some found => rfl
    | none => cases kind <;> simp [read, textAt, here] at readable

theorem free_ok (points : ∀ block, datum.word.block? = some block → (s.blocks block).isSome)
    (zero : ∀ bytes, datum.word = .number bytes → bytes = 0) :
    ∃ blocks, s.free datum.word = .ok { s with blocks } ∧ (∀ block, s.blocks block = none → blocks block = none) ∧
      ∀ block, datum.word.block? ≠ some block → blocks block = s.blocks block := by
  cases word : datum.word with
  | number bytes => exact ⟨s.blocks, by simp [State.free, zero bytes word], by simp, by simp⟩
  | pointer block =>
    refine ⟨Function.update s.blocks block none, ?_, fun other gone => ?_, fun other apart => ?_⟩
    · rw [State.free, if_pos (points block (by rw [word]; rfl))]
    · rw [Function.update_apply]
      split
      · rfl
      · exact gone
    · exact Function.update_of_ne (fun same => apart (congrArg some same.symm)) ..

/-- Destroying a datum frees what it points to, and nothing else. -/
theorem destroy_ok (readable : read s.blocks datum = some content) :
    ∃ blocks, s.destroy datum = .ok { s with blocks } ∧ (∀ block, s.blocks block = none → blocks block = none) ∧
      ∀ block, datum.word.block? ≠ some block → blocks block = s.blocks block := by
  have kept : ∃ blocks, Except.ok s = (.ok { s with blocks } : Except Fault State) ∧
      (∀ block, s.blocks block = none → blocks block = none) ∧
      ∀ block, datum.word.block? ≠ some block → blocks block = s.blocks block :=
    ⟨s.blocks, rfl, fun _ gone => gone, fun _ _ => rfl⟩
  have freed : (∀ bytes, datum.word = .number bytes → bytes = 0) →
      ∃ blocks, s.free datum.word = .ok { s with blocks } ∧ (∀ block, s.blocks block = none → blocks block = none) ∧
        ∀ block, datum.word.block? ≠ some block → blocks block = s.blocks block :=
    free_ok fun block points => read_live readable points
  obtain ⟨kind, word⟩ := datum
  cases kind with
  | invalid => exact kept
  | scalar type => exact kept
  | string =>
    refine freed fun bytes same => ?_
    by_contra full
    simp_all [read, textAt]
  | objectPath =>
    refine freed fun bytes same => ?_
    by_contra full
    simp_all [read, textAt]
  | byteArray =>
    refine freed fun bytes same => ?_
    simp_all [read]
  | stringArray =>
    refine freed fun bytes same => ?_
    simp_all [read]

theorem write_blank (unused : ∀ block, s.next ≤ block → s.blocks block = none) (value : Value) :
    ∃ blocks next datum, s.write {} value = .ok ({ s with blocks, next }, datum) ∧
      read blocks datum = some value.content ∧ (∀ block, next ≤ block → blocks block = none) ∧
      (∀ block, (s.blocks block).isSome → blocks block = s.blocks block) ∧
      ∀ block, datum.word.block? = some block → s.blocks block = none := by
  have new : s.blocks s.next = none := unused s.next (Nat.le_refl _)
  have allocated : ∀ given : Block,
      (∀ block, s.next + 1 ≤ block → Function.update s.blocks s.next (some given) block = none) ∧
      ∀ block, (s.blocks block).isSome → Function.update s.blocks s.next (some given) block = s.blocks block := by
    intro given
    refine ⟨fun block later => ?_, fun block live => Function.update_of_ne ?_ ..⟩
    · rw [Function.update_of_ne (Nat.ne_of_gt later)]
      exact unused block (Nat.le_of_succ_le later)
    · rintro rfl
      simp [new] at live
  have pointed : ∀ block, (Word.pointer s.next).block? = some block → s.blocks block = none := by
    rintro _ ⟨⟩
    exact new
  cases value with
  | scalar value =>
    refine ⟨s.blocks, s.next, ⟨.scalar value.type, .number (bits value)⟩, ?_, ?_, unused, fun _ _ => rfl, nofun⟩
    · simp [State.write, State.changeType, Word.write, bind, Except.bind]
    · simp [read, Value.content, Nat.mod_eq_of_lt (bits_lt value)]
  | string value =>
    cases value with
    | none => exact ⟨s.blocks, s.next, ⟨.string, .number 0⟩, rfl, rfl, unused, fun _ _ => rfl, nofun⟩
    | some text =>
      refine ⟨_, _, ⟨.string, .pointer s.next⟩, rfl, ?_, (allocated (.text text)).1, (allocated (.text text)).2, pointed⟩
      simp [read, textAt, Value.content]
  | objectPath value =>
    cases value with
    | none =>
      exact ⟨s.blocks, s.next, ⟨.objectPath, .number 0⟩, rfl, rfl, unused, fun _ _ => rfl, nofun⟩
    | some text =>
      refine ⟨_, _, ⟨.objectPath, .pointer s.next⟩, rfl, ?_, (allocated (.text text)).1,
        (allocated (.text text)).2, pointed⟩
      simp [read, textAt, Value.content]
  | byteArray bytes =>
    refine ⟨_, _, ⟨.byteArray, .pointer s.next⟩, rfl, ?_, (allocated (.bytes bytes)).1,
      (allocated (.bytes bytes)).2, pointed⟩
    simp [read, Value.content]
  | stringArray strings =>
    refine ⟨_, _, ⟨.stringArray, .pointer s.next⟩, rfl, ?_, (allocated (.texts (strings.map fun text => text.getD []))).1,
      (allocated (.texts (strings.map fun text => text.getD []))).2, pointed⟩
    simp [read, Value.content]

end Rules

theorem findIdx?_isLeast {α : Type} {list : List α} {p : α → Bool} {place : Nat} :
    list.findIdx? p = some place ↔ IsLeast {i | ∃ x, list[i]? = some x ∧ p x} place := by
  rw [List.findIdx?_eq_some_iff_getElem]
  constructor
  · rintro ⟨bound, met, before⟩
    refine ⟨⟨list[place], List.getElem?_eq_getElem bound, met⟩, fun other ⟨x, there, met'⟩ => ?_⟩
    by_contra earlier
    obtain ⟨bound', rfl⟩ := List.getElem?_eq_some_iff.mp there
    exact before other (Nat.lt_of_not_le earlier) met'
  · rintro ⟨⟨x, there, met⟩, least⟩
    obtain ⟨bound, rfl⟩ := List.getElem?_eq_some_iff.mp there
    refine ⟨bound, met, fun other earlier met' => ?_⟩
    have within := Nat.lt_trans earlier bound
    exact Nat.not_le_of_lt earlier (least ⟨list[other], List.getElem?_eq_getElem within, met'⟩)

theorem isLeast_shift {p : Nat → Prop} {pos found : Nat} :
    IsLeast {i | p (pos + i)} found ↔ IsLeast {i | pos ≤ i ∧ p i} (pos + found) := by
  constructor
  · rintro ⟨met, least⟩
    refine ⟨⟨Nat.le_add_right .., met⟩, fun other ⟨later, met'⟩ => ?_⟩
    have lower := @least (other - pos) (by rwa [Set.mem_ofPred_eq, Nat.add_sub_cancel' later])
    omega
  · rintro ⟨⟨-, met⟩, least⟩
    refine ⟨met, fun other met' => ?_⟩
    exact Nat.le_of_add_le_add_left (least ⟨Nat.le_add_right .., met'⟩)

theorem getNext_isLeast (s : State) (key : Option CString) (pos place : Nat) :
    ((s.entries.drop pos).findIdx? fun entry => key = none ∨ entry.key = key).map (pos + ·) =
      some place ↔ IsLeast {i | pos ≤ i ∧ Matches s key i} place := by
  have shifted : ∀ found, ((s.entries.drop pos).findIdx? fun entry =>
      key = none ∨ entry.key = key) = some found ↔
      IsLeast {i | pos ≤ i ∧ Matches s key i} (pos + found) := by
    intro found
    rw [findIdx?_isLeast, ← isLeast_shift]
    simp only [List.getElem?_drop, decide_eq_true_eq, Matches]
  constructor
  · intro looked
    obtain ⟨found, first, rfl⟩ := Option.map_eq_some_iff.mp looked
    exact (shifted found).mp first
  · intro least
    have later : pos ≤ place := least.1.1
    refine Option.map_eq_some_iff.mpr ⟨place - pos, (shifted _).mpr ?_, by omega⟩
    rwa [Nat.add_sub_cancel' later]

theorem ordered (s : State) : Ordered s where
  get key place := by
    rw [State.get, findIdx?_isLeast]
    simp [Matches]
  getEntry place := by
    simp only [State.getEntry, State.entries, List.getElem?_take]
    split
    · rw [if_neg (by omega)]
      rfl
    · rw [if_pos (by omega)]
  first key place := by
    have found := getNext_isLeast s key 0 place
    simpa [State.getNext, Option.map_eq_bind, Function.comp_def] using found
  next key previous place inside := by
    have found := getNext_isLeast s key (previous + 1) place
    simpa [State.getNext, inside, Option.map_eq_bind, Function.comp_def, Nat.succ_le_iff] using found

section Steps

variable {value : Value}

/-- What the array is between two operations. -/
structure Inv (s : State) : Prop where
  room : allocation s.len ≤ s.slots.length
  keyed : ∀ entry ∈ s.entries, entry.key.isSome
  readable : ∀ entry ∈ s.entries, (read s.blocks entry.datum).isSome
  nodup : (owned s.entries).Nodup
  unused : ∀ block, s.next ≤ block → s.blocks block = none

theorem le_allocation (len : Nat) : len ≤ allocation len := by
  unfold allocation chunk
  omega

theorem allocation_pred (len : Nat) : allocation (len - 1) ≤ allocation len := by
  unfold allocation chunk
  omega

theorem Inv.length_entries (inv : Inv s) : s.entries.length = s.len := by
  rw [State.entries, List.length_take]
  exact Nat.min_eq_left ((le_allocation _).trans inv.room)

/-- Growing keeps the entries in use and makes room for one more, which is blank if the array was
allocated anew. -/
theorem grow_ok (inv : Inv s) : ∃ slots, s.grow = .ok { s with slots } ∧
    slots.take s.len = s.entries ∧ allocation (s.len + 1) ≤ slots.length ∧
    (s.len + 1 ≥ allocation s.len ∧ slots[s.len]? = some {} ∨ s.len + 1 < allocation s.len ∧ slots = s.slots) := by
  have within : s.len ≤ s.slots.length := (le_allocation _).trans inv.room
  have more := le_allocation (s.len + 1)
  have length := inv.length_entries
  unfold State.grow
  split
  · rename_i full
    refine ⟨_, if_neg (by omega), List.take_left' length, ?_, .inl ⟨full, ?_⟩⟩
    · change allocation (s.len + 1) ≤ (s.entries ++ _).length
      rw [List.length_append, List.length_replicate, length]
      omega
    · change (s.entries ++ _)[s.len]? = _
      rw [List.getElem?_append_right (by omega), List.getElem?_replicate, if_pos (by omega)]
  · refine ⟨s.slots, rfl, rfl, ?_, .inr ⟨by omega, rfl⟩⟩
    have room := inv.room
    unfold allocation chunk at *
    omega

theorem take_set_succ {α : Type} {list : List α} {place : Nat} {x : α} (there : list[place]? = some x) (y : α) :
    (list.set place y).take (place + 1) = list.take place ++ [y] := by
  obtain ⟨bound, -⟩ := List.getElem?_eq_some_iff.mp there
  rw [List.take_add_one, List.getElem?_set_self bound, List.take_set_of_le (Nat.le_refl _)]
  rfl

/-- An entry is added after those in use; only if the array was not allocated anew is its datum
what was in its place. -/
theorem add_ok (inv : Inv s) (key : CString) : ∃ slots entry,
    s.add key = .ok ({ s with slots, len := s.len + 1 }, s.len) ∧
    slots.take (s.len + 1) = s.entries ++ [entry] ∧ slots[s.len]? = some entry ∧
    allocation (s.len + 1) ≤ slots.length ∧ entry.key = some key ∧
    (entry.datum = {} ↔ s.len + 1 ≥ allocation s.len ∨ s.slots[s.len]?.map Entry.datum = some {}) := by
  obtain ⟨slots, grown, kept, room, either⟩ := grow_ok inv
  have bound : s.len < slots.length := Nat.lt_of_lt_of_le (Nat.lt_succ_self _) ((le_allocation _).trans room)
  have there : slots[s.len]? = some slots[s.len] := List.getElem?_eq_getElem bound
  refine ⟨slots.set s.len { slots[s.len] with key := some key }, { slots[s.len] with key := some key },
    ?_, ?_, List.getElem?_set_self bound, by rwa [List.length_set], rfl, ?_⟩
  · simp only [State.add, grown, bind, Except.bind, there]
  · rw [take_set_succ there, kept]
  · rcases either with ⟨full, blank⟩ | ⟨fits, same⟩
    · exact iff_of_true (congrArg Entry.datum (Option.some.inj (there.symm.trans blank))) (.inl full)
    · subst same
      rw [there, Option.map_some, Option.some.injEq]
      exact (or_iff_right (by omega)).symm

/-- What has happened to the data of the entries in use when none of them was touched. -/
theorem pairs_congr (readable : ∀ entry ∈ entries, (read blocks entry.datum).isSome)
    (kept : ∀ block ∈ owned entries, (blocks block).isSome → blocks' block = blocks block) :
    (entries.map fun entry => (entry.key, read blocks' entry.datum)) =
      entries.map fun entry => (entry.key, read blocks entry.datum) := by
  refine List.map_congr_left fun entry member => congrArg _ (read_congr fun block points => ?_)
  obtain ⟨content, readable⟩ := Option.isSome_iff_exists.mp (readable entry member)
  exact kept block (List.mem_filterMap.mpr ⟨entry, member, points⟩) (read_live readable points)

theorem Inv.live (inv : Inv s) : ∀ block ∈ owned s.entries, (s.blocks block).isSome := by
  intro block member
  obtain ⟨entry, inside, points⟩ := List.mem_filterMap.mp member
  obtain ⟨content, readable⟩ := Option.isSome_iff_exists.mp (inv.readable entry inside)
  exact read_live readable points

theorem Inv.apart (inv : Inv s) : Apart s where
  room := (le_allocation _).trans inv.room
  nodup := inv.nodup
  live := inv.live

/-- One more entry, with what it points to, leaves the others alone. -/
theorem Inv.append {entry : Entry} {content : Content} (inv : Inv s)
    (entries : s'.entries = s.entries ++ [entry]) (room : allocation s'.len ≤ s'.slots.length)
    (keyed : entry.key = some key) (readable : read s'.blocks entry.datum = some content)
    (unused : ∀ block, s'.next ≤ block → s'.blocks block = none)
    (kept : ∀ block, (s.blocks block).isSome → s'.blocks block = s.blocks block)
    (new : ∀ block, entry.datum.word.block? = some block → s.blocks block = none) :
    Inv s' ∧ s'.pairs = s.pairs ++ [(some key, some content)] := by
  have same := pairs_congr inv.readable fun block _ live => kept block live
  constructor
  · refine ⟨room, ?_, ?_, ?_, unused⟩
    · intro other member
      rw [entries] at member
      rcases List.mem_append.mp member with member | member
      · exact inv.keyed other member
      · rw [List.mem_singleton.mp member, keyed]
        rfl
    · intro other member
      rw [entries] at member
      rcases List.mem_append.mp member with member | member
      · have old := List.map_inj_left.mp same other member
        rw [(Prod.mk.inj old).2]
        exact inv.readable other member
      · rw [List.mem_singleton.mp member, readable]
        rfl
    · rw [entries, owned, List.filterMap_append]
      refine List.Nodup.append inv.nodup ?_ ?_
      · cases points : entry.block? with
        | none => simp [points]
        | some block => simp [points]
      · intro block old member
        have points : entry.block? = some block := by simpa using member
        have live := inv.live block old
        rw [new block points] at live
        cases live
  · rw [State.pairs, entries, List.map_append, same, List.map_singleton, keyed, readable]
    rfl

theorem Inv.erase {entry : Entry} {front back : List Entry} (inv : Inv s)
    (split : s.entries = front ++ entry :: back) (entries : s'.entries = front ++ back)
    (room : allocation s'.len ≤ s'.slots.length) (next : s'.next = s.next)
    (gone : ∀ block, s.blocks block = none → s'.blocks block = none)
    (kept : ∀ block, entry.datum.word.block? ≠ some block → s'.blocks block = s.blocks block) :
    Inv s' ∧ s'.pairs = (front ++ back).map fun entry => (entry.key, read s.blocks entry.datum) := by
  have sub : (front ++ back).Sublist s.entries := by
    rw [split]
    exact (List.Sublist.refl front).append (List.sublist_cons_self entry back)
  have apart : ∀ block ∈ owned (front ++ back), entry.datum.word.block? ≠ some block := by
    intro block member points
    have nodup := inv.nodup
    have first : entry.block? = some block := points
    rw [split, owned, List.filterMap_append, List.filterMap_cons_some first, List.nodup_middle,
      ← List.filterMap_append] at nodup
    exact (List.nodup_cons.mp nodup).1 member
  have readable : ∀ other ∈ front ++ back, (read s.blocks other.datum).isSome :=
    fun other member => inv.readable other (sub.subset member)
  have same := pairs_congr readable fun block member _ => kept block (apart block member)
  constructor
  · refine ⟨room, ?_, ?_, ?_, fun block old => gone block (inv.unused block (next ▸ old))⟩
    · rw [entries]
      exact fun other member => inv.keyed other (sub.subset member)
    · rw [entries]
      intro other member
      rw [(Prod.mk.inj (List.map_inj_left.mp same other member)).2]
      exact readable other member
    · rw [entries]
      exact inv.nodup.sublist (sub.filterMap _)
  · rw [State.pairs, entries, same]

/-- The entry that is added is blank. -/
def Blank (s : State) : Input → Prop
  | .add _ _ => s.len + 1 ≥ allocation s.len ∨ s.slots[s.len]?.map Entry.datum = some {}
  | .deleteEntry _ => True

instance (s : State) (input : Input) : Decidable (Blank s input) := by
  cases input with
  | add key value =>
    exact inferInstanceAs (Decidable (s.len + 1 ≥ allocation s.len ∨
      s.slots[s.len]?.map Entry.datum = some {}))
  | deleteEntry key => exact inferInstanceAs (Decidable True)

/-- `ni_dbus_dict_add` gives a fresh datum. -/
theorem add_blank (inv : Inv s) (blank : s.len + 1 ≥ allocation s.len ∨
    s.slots[s.len]?.map Entry.datum = some {}) (key : CString) :
    ∃ s', s.add key = .ok (s', s.len) ∧ Inv s' ∧ s'.pairs = s.pairs ++ [(some key, some .fresh)] := by
  obtain ⟨slots, entry, added, entries, there, room, keyed, fresh⟩ := add_ok inv key
  refine ⟨_, added, inv.append entries room keyed ?_ inv.unused (fun _ _ => rfl) ?_⟩
  · rw [fresh.mpr blank]
    rfl
  · rw [fresh.mpr blank]
    nofun

theorem addValue_blank (inv : Inv s) (blank : s.len + 1 ≥ allocation s.len ∨
    s.slots[s.len]?.map Entry.datum = some {}) (key : CString) (value : Value) :
    ∃ s', s.addValue key value = .ok s' ∧ Inv s' ∧ s'.pairs = s.pairs ++ [(some key, some value.content)] := by
  obtain ⟨slots, entry, added, entries, there, room, keyed, fresh⟩ := add_ok inv key
  obtain ⟨blocks, next, datum, written, readable, unused, kept, new⟩ :=
    write_blank (s := { s with slots, len := s.len + 1 }) inv.unused value
  have grown : (slots.set s.len { entry with datum }).take (s.len + 1) = s.entries ++ [{ entry with datum }] := by
    have old : slots.take s.len = s.entries := by
      have front := congrArg (List.take s.len) entries
      rwa [List.take_take, Nat.min_eq_left (Nat.le_succ _), List.take_left' inv.length_entries] at front
    rw [take_set_succ there, old]
  refine ⟨{ s with slots := slots.set s.len { entry with datum }, len := s.len + 1, blocks, next },
    ?_, inv.append grown (by rwa [List.length_set]) keyed readable unused kept new⟩
  simp only [State.addValue, added, bind, Except.bind, State.set, there, fresh.mpr blank, written]

/-- Moving the entries above a place down by one takes out the entry at the place. -/
theorem moved_eq {α : Type} {list : List α} {place len : Nat} (inside : place < len) (x : α) :
    (list.set place x).take place ++ (((list.set place x).drop (place + 1)).take (len - 1 - place) ++
        (list.set place x).drop (len - 1)) =
      ((list.take len).take place ++ (list.take len).drop (place + 1)) ++ (list.set place x).drop (len - 1) := by
  have front : (list.set place x).take place = (list.take len).take place := by
    rw [List.take_set_of_le (Nat.le_refl _), List.take_take, Nat.min_eq_left (by omega)]
  have above : ((list.set place x).drop (place + 1)).take (len - 1 - place) = (list.take len).drop (place + 1) := by
    have count : len - 1 - place = len - (place + 1) := by omega
    rw [List.drop_set_of_lt (Nat.lt_succ_self _), List.drop_take, count]
  rw [front, above, List.append_assoc]

/-- The first entry with the key goes, and what it points to. -/
theorem deleteEntry_ok (inv : Inv s) (key : CString) :
    ∃ s' found, s.deleteEntry key = .ok (s', found) ∧ Inv s' ∧
      s'.pairs = s.pairs.eraseP fun pair => pair.1 = some key := by
  unfold State.deleteEntry
  split
  · rename_i absent
    refine ⟨s, false, rfl, inv, (List.eraseP_of_forall_not fun pair member => ?_).symm⟩
    obtain ⟨entry, inside, rfl⟩ := List.mem_map.mp member
    simpa using List.findIdx?_eq_none_iff.mp absent entry inside
  · rename_i place found
    obtain ⟨⟨entry, there, named⟩, least⟩ := findIdx?_isLeast.mp found
    have member := List.mem_of_getElem? there
    obtain ⟨inside, rfl⟩ := List.getElem?_eq_some_iff.mp there
    have split : s.entries = s.entries.take place ++ s.entries[place] :: s.entries.drop (place + 1) := by
      rw [← List.drop_eq_getElem_cons inside, List.take_append_drop]
    generalize s.entries[place] = entry at *
    have length := inv.length_entries
    have slot : s.slots[place]? = some entry := by
      rw [← there, State.entries, List.getElem?_take, if_pos (by omega)]
    obtain ⟨content, readable⟩ := Option.isSome_iff_exists.mp (inv.readable entry member)
    obtain ⟨blocks, destroyed, gone, kept⟩ := destroy_ok readable
    have short : (s.entries.take place ++ s.entries.drop (place + 1)).length = s.len - 1 := by
      simp only [List.length_append, List.length_take, List.length_drop]
      omega
    set slots := (s.entries.take place ++ s.entries.drop (place + 1)) ++
      (s.slots.set place { entry with datum := {} }).drop (s.len - 1) with moved
    have whole : s.slots.length = slots.length := by
      have within := (le_allocation s.len).trans inv.room
      rw [moved, List.length_append, short, List.length_drop, List.length_set]
      omega
    have room : allocation (s.len - 1) ≤ slots.length := whole ▸ (allocation_pred s.len).trans inv.room
    have earlier : ∀ pair ∈ (s.entries.take place).map fun entry =>
        (entry.key, read s.blocks entry.datum), ¬ decide (pair.1 = some key) := by
      intro pair before again
      obtain ⟨other, front, rfl⟩ := List.mem_map.mp before
      obtain ⟨i, bound, rfl⟩ := List.mem_take_iff_getElem.mp front
      have later := least ⟨_, List.getElem?_eq_getElem (by omega), again⟩
      omega
    obtain ⟨inv', pairs⟩ : Inv { s with slots, len := s.len - 1, blocks } ∧
        State.pairs { s with slots, len := s.len - 1, blocks } =
          (s.entries.take place ++ s.entries.drop (place + 1)).map fun entry =>
            (entry.key, read s.blocks entry.datum) := inv.erase split (List.take_left' short) room rfl gone kept
    refine ⟨_, true, ?_, inv', pairs.trans ?_⟩
    · simp only [slot, destroyed, bind, Except.bind, moved, moved_eq (length ▸ inside : place < s.len), State.entries]
    · rw [State.pairs]
      conv_rhs => rw [split]
      rw [List.map_append, List.map_append, List.map_cons, List.eraseP_append_right _ earlier]
      simp only [List.eraseP_cons, named, cond_true]

end Steps

/-- The operation does to the array what it says for the list, and the lookups in what it leaves
give the entries in order. The datum that a value is set in is fresh. -/
def Behaves (s : State) : Input → Prop
  | .add key value => ∃ added s', s.add key = .ok (added, s.len) ∧
      added.pairs = s.pairs ++ [(some key, some .fresh)] ∧ Apart added ∧
      step s (.add key value) = .ok s' ∧
      s'.pairs = s.pairs ++ [(some key, some ((value.map Value.content).getD .fresh))] ∧
      Apart s' ∧ Ordered s'
  | .deleteEntry key => ∃ s', step s (.deleteEntry key) = .ok s' ∧
      s'.pairs = s.pairs.eraseP (fun pair => pair.1 = some key) ∧ Apart s' ∧ Ordered s'

section Runs

variable {input : Input}

theorem Inv.initial : Inv .initial where
  room := Nat.le_refl _
  keyed _ member := absurd member List.not_mem_nil
  readable _ member := absurd member List.not_mem_nil
  nodup := List.nodup_nil
  unused _ _ := rfl

theorem Inv.behaves (inv : Inv s) (blank : Blank s input) :
    Behaves s input ∧ ∃ s', Dict.step s input = .ok s' ∧ Inv s' := by
  cases input with
  | add key value =>
    obtain ⟨added, made, inv₁, pairs₁⟩ := add_blank inv blank key
    cases value with
    | none =>
      have moved : Dict.step s (.add key none) = .ok added := by simp [Dict.step, made, Except.map]
      exact ⟨⟨added, added, made, pairs₁, inv₁.apart, moved, pairs₁, inv₁.apart, ordered added⟩, added, moved, inv₁⟩
    | some value =>
      obtain ⟨s', moved, inv', pairs'⟩ := addValue_blank inv blank key value
      exact ⟨⟨added, s', made, pairs₁, inv₁.apart, moved, pairs', inv'.apart, ordered s'⟩, s', moved, inv'⟩
  | deleteEntry key =>
    obtain ⟨s', found, deleted, inv', pairs'⟩ := deleteEntry_ok inv key
    have moved : Dict.step s (.deleteEntry key) = .ok s' := by
      simp [Dict.step, deleted, Except.map]
    exact ⟨⟨s', moved, pairs', inv'.apart, ordered s'⟩, s', moved, inv'⟩

theorem Inv.blank (inv : Inv s) (behaves : Behaves s input) : Blank s input := by
  cases input with
  | add key value =>
    obtain ⟨added, -, made, pairs, -⟩ := behaves
    obtain ⟨slots, entry, made', entries, -, -, keyed, fresh⟩ := add_ok inv key
    cases made.symm.trans made'
    suffices made : read s.blocks entry.datum = some .fresh from fresh.mp (blank_of_fresh made)
    rw [State.pairs, State.entries, entries, List.map_append] at pairs
    have last := List.append_inj_right' pairs rfl
    exact (Prod.mk.inj (List.cons.inj last).1).2
  | deleteEntry key => trivial

theorem Inv.behaves_iff (inv : Inv s) : Blank s input ↔ Behaves s input := ⟨fun blank => (inv.behaves blank).1, inv.blank⟩

theorem Inv.step (inv : Inv s) (blank : Blank s input) (moved : step s input = .ok s') : Inv s' := by
  obtain ⟨-, next, moved', inv'⟩ := inv.behaves blank
  cases moved.symm.trans moved'
  exact inv'

/-- A dictionary behaves as an ordered list in just the runs in which every entry that is added is
blank: its array is allocated anew, or no entry was moved away from the place before, but that of
the last one. -/
theorem run_behaves_iff (inputs : List Input) :
    Machine.Along step Behaves .initial inputs ↔ Machine.Along step Blank .initial inputs :=
  (Machine.along_congr_kept Inv (fun _ _ _ inv blank moved => inv.step blank moved)
    (fun _ _ inv => inv.behaves_iff) .initial).symm

end Runs

def stale : List Input :=
  [.add (ascii ['a']) (some (.string (some (ascii ['1'])))),
    .add (ascii ['b']) (some (.string (some (ascii ['2'])))),
    .deleteEntry (ascii ['a']),
    .add (ascii ['c']) (some (.string (some (ascii ['3']))))]

/-- The entry `c` is made of a copy of `b`, and setting it frees the string of `b`. -/
theorem stale_freed : ¬ (∀ inputs, Machine.Along step Behaves .initial inputs) ∧
    (Machine.run step .initial stale).toOption.map State.pairs = some [(some (ascii ['b']), none),
      (some (ascii ['c']), some (.string (some (ascii ['3']))))] := by
  refine ⟨fun all => ?_, by decide⟩
  have blank := (Machine.along_congr_kept Inv (fun _ _ _ inv blank moved => inv.step blank moved)
    (fun _ _ inv => inv.behaves_iff) .initial).mpr (all stale)
  have last := ((blank.2 _ rfl).2 _ rfl).2 _ rfl
  exact absurd last.1 (by decide)

end Testbus.Dbus.Dict
