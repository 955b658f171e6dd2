import Testbus.Dbus.Dict
import Testbus.Schema.Text

/-! The payload of a variant, a union of numbers and pointers that the type of the variant tells
apart, under any operations. -/

namespace Testbus.Dbus.Payload

open Lib Marshal Schema
open Dict (allocation)

/-- What a block is allocated for. -/
inductive Kind
  | text
  | bytes
  | texts
  | entries
  | variants
  /-- Elements of another basic type. -/
  | slots (type : Char)
  deriving DecidableEq

/-- A block that the payload points to, and that owns the texts in it. The elements of an array of
variants and the data of a dictionary are variants of their own. -/
inductive Block
  | text (value : CString)
  | bytes (values : List UInt8)
  | texts (values : List (Option CString))
  | entries (keys : List CString)
  | variants (count : Nat)
  | slots (type : Char)
  deriving DecidableEq

/-- The union, with what was written to it last. `NULL` is zero. -/
inductive Word
  | zero
  | number (value : Scalar)
  | block (content : Block)
  | dangling
  deriving DecidableEq

/-- `struct ni_dbus_variant`; `none` is `DBUS_TYPE_INVALID`. -/
structure Var where
  type : Option Char := none
  elementType : Option Char := none
  elementSignature : Option Signature := none
  len : Nat := 0
  payload : Word := .zero
  deriving DecidableEq

/-- A variant, and the blocks that it lost without freeing them. -/
structure State where
  var : Var := {}
  left : List Block := []
  deriving DecidableEq

inductive Fault
  /-- A number that is taken for a pointer. -/
  | wild
  /-- A block that has been freed. -/
  | freed
  /-- A block, or a number, of another type. -/
  | misread
  | null
  deriving DecidableEq

/-- The types of numbers. -/
def numeric (type : Char) : Bool := type ∈ ['y', 'b', 'n', 'q', 'i', 'u', 'x', 't', 'd']

/-- `ni_dbus_type_as_string`. -/
def basic (type : Char) : Bool := numeric type || type = 's' || type = 'o'

/-- The types that `__ni_dbus_variant_change_type` destroys the value of. -/
def destroyed (type : Option Char) : Bool :=
  type = some 's' || type = some 'o' || type = some 'a' || type = some 'r'

def dictSignature : Signature := 'a' :: dictEntrySignature

/-- What a text says of a number; the number is assigned even if more text follows. -/
def parseNumber (strtod : CString → UInt64) (type : Char) (text : CString) : Scalar :=
  match type with
  | 'y' => .byte (UInt8.ofNat (unsignedText text).1)
  | 'b' =>
    .boolean (if text = trueText then 1 else if text = falseText then 0
      else UInt32.ofNat (unsignedText text).1)
  | 'n' => .int16 (Int16.ofInt (strtol 0 text).1)
  | 'q' => .uint16 (UInt16.ofNat (unsignedText text).1)
  | 'i' => .int32 (Int32.ofInt (strtol 0 text).1)
  | 'u' => .uint32 (UInt32.ofNat (unsignedText text).1)
  | 'x' => .int64 (Int64.ofInt (strtol 0 text).1)
  | 't' => .uint64 (UInt64.ofNat (unsignedText text).1)
  | _ => .double (strtod text)

/-- What C makes of a number that is assigned to each type. -/
structure Cast where
  value : Char → Scalar
  typed : ∀ type, numeric type = true → (value type).type = type

def Var.isArray (v : Var) (signature : Signature) : Bool :=
  v.type = some 'a' &&
    match v.elementType with
    | some element => signature = [element]
    | none => v.elementSignature = some signature

def Block.kind : Block → Kind
  | text _ => .text
  | bytes _ => .bytes
  | texts _ => .texts
  | entries _ => .entries
  | variants _ => .variants
  | slots type => .slots type

/-- The keys of a dictionary, which are not freed with it. -/
def Block.keys : Block → List Block
  | entries keys => keys.map .text
  | _ => []

/-- What is added to an array. -/
inductive Item
  | byte (value : UInt8)
  | text (value : Option CString)
  | entry (key : CString)
  | variant
  deriving DecidableEq

def Item.kind : Item → Kind
  | byte _ => .bytes
  | text _ => .texts
  | entry _ => .entries
  | variant => .variants

def Kind.empty : Kind → Block
  | text => .text []
  | bytes => .bytes []
  | texts => .texts []
  | entries => .entries []
  | variants => .variants 0
  | slots type => .slots type

def Block.add : Block → Item → Option Block
  | bytes values, .byte value => some (bytes (values ++ [value]))
  | texts values, .text value => some (texts (values ++ [value]))
  | entries keys, .entry key => some (entries (keys ++ [key]))
  | variants count, .variant => some (variants (count + 1))
  | _, _ => none

/-- What the payload owns. -/
def Word.owned : Word → List Block
  | block content => [content]
  | _ => []

/-- Read through the pointer that the payload is taken for. -/
def Word.reach (payload : Word) (kind : Kind) : Except Fault Unit :=
  match payload with
  | zero => .ok ()
  | number _ => .error .wild
  | dangling => .error .freed
  | block content => if content.kind = kind then .ok () else .error .misread

/-- What `ni_dbus_variant_destroy` frees the payload as. -/
def Var.freedAs (v : Var) : Option Kind :=
  match v.type with
  | some 's' | some 'o' => some .text
  | some 'a' =>
    match v.elementType with
    | some 'y' => some .bytes
    | some 's' | some 'o' => some .texts
    | some 'e' => some .entries
    | some 'v' | some 'r' => some .variants
    | some _ => none
    | none => v.elementSignature.map fun _ => .variants
  | _ => none

namespace State

/-- `free` of the payload and of what the block owns, but the keys. -/
def free (s : State) (kind : Kind) : Except Fault State := do
  s.var.payload.reach kind
  match s.var.payload with
  | .block content => .ok ⟨{ s.var with payload := .dangling }, s.left ++ content.keys⟩
  | _ => .ok s

/-- All bytes of the variant are set to zero. -/
def clear (s : State) : State where
  left := s.left ++ s.var.payload.owned ++
    s.var.elementSignature.toList.map fun signature => .text (ascii signature)

/-- The branches of `ni_dbus_variant_destroy`. -/
def freePayload (s : State) : Except Fault State :=
  match s.var.freedAs with
  | some kind => s.free kind
  | none => .ok s

def destroy (s : State) : Except Fault State := do
  let s ← s.freePayload
  if s.var.type = some 'a' then .ok { s with var.elementSignature := none }.clear
  else .ok s.clear

def retype (s : State) (type : Char) : State := { s with var.type := some type }

def changeType (s : State) (type : Char) : Except Fault State :=
  if s.var.type = some type then .ok s
  else if destroyed s.var.type then do
    return (← s.destroy).retype type
  else .ok (s.retype type)

/-- `ni_string_dup` to the payload. -/
def stringDup (s : State) (value : Option CString) : Except Fault State := do
  let s ← s.free .text
  .ok { s with var.payload := value.elim .zero fun text => .block (.text text) }

/-- A number is written over the payload. -/
def store (s : State) (value : Scalar) : State where
  var := { s.var with payload := .number value }
  left := s.left ++ s.var.payload.owned

def setString (s : State) (value : Option CString) : Except Fault State := do
  (← s.changeType 's').stringDup value

def setObjectPath (s : State) (value : Option CString) : Except Fault State := do
  (← s.changeType 'o').stringDup value

/-- `ni_dbus_variant_set_bool` and its siblings. -/
def setNumber (s : State) (value : Scalar) : Except Fault State := do
  return (← s.changeType value.type).store value

/-- `ni_dbus_variant_set_int` and its siblings, which keep the type. -/
def setCast (s : State) (number : Cast) : State :=
  match s.var.type with
  | some type => if numeric type then s.store (number.value type) else s
  | none => s

def parse (s : State) (strtod : CString → UInt64) (text : CString) (signature : Signature) :
    Except Fault State :=
  match signature with
  | [type] => do
    let s ← s.changeType type
    if type = 's' || type = 'o' then s.setString (some text)
    else if numeric type then .ok (s.store (parseNumber strtod type text))
    else .ok s
  | _ => .ok s

def grow (s : State) (kind : Kind) (growBy : Nat) : Except Fault State :=
  if s.var.len + growBy ≥ allocation s.var.len then do
    s.var.payload.reach kind
    match s.var.payload with
    | .zero => .ok { s with var.payload := .block kind.empty }
    | _ => .ok s
  else .ok s

/-- The next element of an array is written. -/
def write (s : State) (item : Item) : Except Fault State := do
  s.var.payload.reach item.kind
  match s.var.payload with
  | .block content =>
    match content.add item with
    | some content => .ok { s with var.payload := .block content, var.len := s.var.len + 1 }
    | none => .error .misread
  | _ => .error .null

def append (s : State) (item : Item) : Except Fault State := do
  (← s.grow item.kind 1).write item

def appendByteArray (s : State) (byte : UInt8) : Except Fault State :=
  if s.var.isArray ['y'] then s.append (.byte byte) else .ok s

def appendStringArray (s : State) (string : Option CString) : Except Fault State :=
  if s.var.isArray ['s'] then s.append (.text (some (string.getD []))) else .ok s

def appendObjectPathArray (s : State) (string : Option CString) : Except Fault State :=
  if s.var.isArray ['o'] then s.append (.text (some (string.getD []))) else .ok s

def appendVariantElement (s : State) : Except Fault State :=
  if s.var.isArray ['v'] then s.append .variant else .ok s

/-- `ni_dbus_variant_array_parse_and_append_string`. Of a number that more text follows, the byte is
written but not counted. -/
def arrayParseAndAppendString (s : State) (text : CString) : Except Fault State :=
  if s.var.type = some 'a' then
    match s.var.elementType with
    | none => .ok s
    | some element =>
      if element = 's' || element = 'o' then s.append (.text (some text))
      else if element = 'y' then
        if (unsignedText text).2 = [] then s.append (.byte (UInt8.ofNat (unsignedText text).1))
        else s.grow .bytes 1
      else if numeric element then s.grow (.slots element) 1
      else .ok s
  else .ok s

def dictAdd (s : State) (key : CString) : Except Fault State :=
  if s.var.type = some 'a' && s.var.elementType = some 'e' then s.append (.entry key) else .ok s

def dictArrayAdd (s : State) : Except Fault State :=
  if s.var.isArray dictSignature then s.append .variant else .ok s

def structAdd (s : State) : Except Fault State :=
  if s.var.type = some 'r' then s.append .variant else .ok s

def arrayArrayAdd (s : State) : Except Fault State :=
  if s.var.type = some 'a' && s.var.elementType = none &&
      s.var.elementSignature.any (·.head? = some 'a') then s.append .variant
  else .ok s

def initArray (s : State) (elementType : Char) : State :=
  { s with var.type := some 'a', var.elementType := some elementType }

def initArraySignature (s : State) (signature : Signature) : State :=
  match signature with
  | [element] =>
    if basic element then s.initArray element
    else { s with var.type := some 'a', var.elementSignature := some signature }
  | _ => { s with var.type := some 'a', var.elementSignature := some signature }

/-- What `ni_dbus_variant_init_signature` makes of a variant that it has destroyed. -/
def ofSignature (s : State) (signature : Signature) : State :=
  match signature with
  | [] => s
  | [type] => if basic type then s.retype type else s
  | 'a' :: rest => if rest = dictEntrySignature then s.initArray 'e' else s.initArraySignature rest
  | _ => s

def initSignature (s : State) (signature : Signature) : Except Fault State := do
  return (← s.destroy).ofSignature signature

/-- `ni_dbus_variant_init_byte_array`, `ni_dbus_variant_init_string_array`,
`ni_dbus_variant_init_object_path_array`, `ni_dbus_variant_init_variant_array` and
`ni_dbus_variant_init_dict`, by the type of the elements. -/
def initArrayOf (s : State) (elementType : Char) : Except Fault State := do
  return (← s.destroy).initArray elementType

/-- `ni_dbus_dict_array_init` and `ni_dbus_array_array_init`. -/
def arrayArrayInit (s : State) (signature : Option Signature) : Except Fault State := do
  let s ← s.destroy
  return { s with var.type := some 'a', var.elementSignature := signature }

def initStruct (s : State) : Except Fault State := do
  let s ← s.destroy
  return { s with var.type := some 'r', var.len := 0 }

/-- `ni_dbus_variant_set_byte_array`, which `ni_dbus_variant_set_uuid` calls. -/
def setByteArray (s : State) (data : List UInt8) : Except Fault State := do
  let s ← (← s.initArrayOf 'y').grow .bytes data.length
  s.var.payload.reach .bytes
  .ok { s with var.payload := .block (.bytes data), var.len := data.length }

def setStringArray (s : State) (data : List (Option CString)) : Except Fault State := do
  let s ← (← s.initArrayOf 's').grow .texts data.length
  s.var.payload.reach .texts
  .ok { s with
    var.payload := .block (.texts (data.map fun string => some (string.getD [])))
    var.len := data.length }

end State

/-- The operations on a variant. -/
inductive Op
  /-- `ni_dbus_variant_init`, which takes the bytes of the variant for garbage. -/
  | init
  | setString (value : Option CString)
  | setObjectPath (value : Option CString)
  | setNumber (value : Scalar)
  | setCast (number : Cast)
  | setByteArray (data : List UInt8)
  | setStringArray (data : List (Option CString))
  | parse (text : CString) (signature : Signature)
  | initSignature (signature : Signature)
  | initArrayOf (elementType : Char) (known : elementType ∈ ['y', 's', 'o', 'v', 'e'])
  | arrayArrayInit (signature : Option Signature)
  | initStruct
  | appendByteArray (byte : UInt8)
  | appendStringArray (string : Option CString)
  | appendObjectPathArray (string : Option CString)
  | appendVariantElement
  | arrayParseAndAppendString (text : CString)
  | dictAdd (key : CString)
  | dictArrayAdd
  | structAdd
  | arrayArrayAdd
  | destroy

def step (strtod : CString → UInt64) (s : State) : Op → Except Fault State
  | .init => .ok s.clear
  | .setString value => s.setString value
  | .setObjectPath value => s.setObjectPath value
  | .setNumber value => s.setNumber value
  | .setCast number => .ok (s.setCast number)
  | .setByteArray data => s.setByteArray data
  | .setStringArray data => s.setStringArray data
  | .parse text signature => s.parse strtod text signature
  | .initSignature signature => s.initSignature signature
  | .initArrayOf elementType _ => s.initArrayOf elementType
  | .arrayArrayInit signature => s.arrayArrayInit signature
  | .initStruct => s.initStruct
  | .appendByteArray byte => s.appendByteArray byte
  | .appendStringArray string => s.appendStringArray string
  | .appendObjectPathArray string => s.appendObjectPathArray string
  | .appendVariantElement => s.appendVariantElement
  | .arrayParseAndAppendString text => s.arrayParseAndAppendString text
  | .dictAdd key => s.dictAdd key
  | .dictArrayAdd => s.dictArrayAdd
  | .structAdd => s.structAdd
  | .arrayArrayAdd => s.arrayArrayAdd
  | .destroy => s.destroy

variable {v : Var}

/-- The kind of block that a type of a variant goes with. -/
def Var.Carries (v : Var) : Kind → Prop
  | .text => v.type = some 's' ∨ v.type = some 'o'
  | .bytes => v.isArray ['y'] = true
  | .texts => v.isArray ['s'] = true ∨ v.isArray ['o'] = true
  | .entries => v.type = some 'a' ∧ v.elementType = some 'e'
  | .variants => v.type = some 'r' ∨ v.isArray ['v'] = true ∨ v.type = some 'a' ∧
      v.elementType = none ∧ ∃ signature, v.elementSignature = some ('a' :: signature)
  | .slots type => v.type = some 'a' ∧ v.elementType = some type ∧ numeric type = true ∧ type ≠ 'y'

theorem Var.isArray_iff {signature : Signature} : v.isArray signature = true ↔
    v.type = some 'a' ∧ ((∃ element, v.elementType = some element ∧ signature = [element]) ∨
      v.elementType = none ∧ v.elementSignature = some signature) := by
  cases element : v.elementType <;> simp [isArray, element]

theorem Var.isArray_basic {element : Char} : v.isArray [element] = true ↔
    v.type = some 'a' ∧ (v.elementType = some element ∨ v.elementType = none ∧ v.elementSignature = some [element]) := by
  rw [isArray_iff]
  simp

theorem not_numeric : numeric 's' = false ∧ numeric 'o' = false ∧ numeric 'a' = false ∧
    numeric 'r' = false ∧ numeric 'e' = false ∧ numeric 'v' = false := by decide

theorem Var.carries_unique (first : v.Carries kind) (second : v.Carries other) : kind = other := by
  have special := not_numeric
  cases kind <;> cases other <;>
    simp only [Carries, isArray_basic] at first second <;> grind

/-- The payload is what the type says that it is, or zero. A number may stay when the type becomes
one that has no payload of its own. -/
def WellTyped (v : Var) : Prop :=
  (v.type ≠ some 'a' → v.elementType = none ∧ v.elementSignature = none ∧
      (v.type ≠ some 'r' → v.len = 0)) ∧
    match v.payload with
    | .zero => v.len = 0
    | .number value => v.len = 0 ∧ v.type ≠ none ∧ v.type ≠ some 's' ∧ v.type ≠ some 'o' ∧
        v.elementType = none ∧ v.elementSignature = none ∧
        ∀ type, v.type = some type → numeric type = true → value.type = type
    | .block content => v.Carries content.kind
    | .dangling => False

/-- What the variant holds can be destroyed. -/
def Releasable (v : Var) : Prop :=
  match v.payload with
  | .block (.bytes _) | .block (.texts _) => v.elementType ≠ none
  | .block (.entries keys) => keys = []
  | .block (.variants _) => v.type ≠ some 'r'
  | .block (.slots _) => False
  | _ => True

section Rules

variable {s next : State} {kind : Kind} {content : Block}

/-- The variant is well typed as long as the payload changes within its kind. -/
theorem WellTyped.block (typed : WellTyped v) (carries : v.Carries content.kind) :
    WellTyped { v with payload := .block content } := ⟨typed.1, carries⟩

/-- What a payload is read as if it is the kind of block that the type goes with. -/
theorem reach_carried (typed : WellTyped v) (carries : v.Carries kind) :
    v.payload.reach kind = .ok () ∧ (v.payload = .zero ∨ ∃ content, v.payload = .block content ∧ content.kind = kind) ∨
      v.payload.reach kind = .error .wild ∧ v.type = some 'r' ∧ ∃ value, v.payload = .number value := by
  cases holds : v.payload with
  | zero => exact .inl ⟨rfl, .inl rfl⟩
  | dangling => exact absurd typed.2 (by simp [holds])
  | block content =>
    have own : v.Carries content.kind := by simpa [holds] using typed.2
    have same := Var.carries_unique own carries
    exact .inl ⟨if_pos same, .inr ⟨content, rfl, same⟩⟩
  | number value =>
    obtain ⟨-, -, noString, noPath, noElement, noSignature, -⟩ := by simpa [holds] using typed.2
    have struct : v.type = some 'r' := by
      cases kind <;> simp [Var.Carries, Var.isArray_basic, noString, noPath, noElement, noSignature] at carries
      exact carries
    exact .inr ⟨rfl, struct, value, rfl⟩

theorem free_zero (zero : s.var.payload = .zero) : s.free kind = .ok s := by
  simp [State.free, zero, Word.reach, bind, Except.bind]

theorem free_number {value : Scalar} (number : s.var.payload = .number value) : s.free kind = .error .wild := by
  simp [State.free, number, Word.reach, bind, Except.bind]

theorem free_block (block : s.var.payload = .block content) : s.free kind =
    if content.kind = kind then
      .ok ⟨{ s.var with payload := .dangling }, s.left ++ content.keys⟩
    else .error .misread := by
  by_cases same : content.kind = kind <;>
    simp [State.free, block, Word.reach, same, bind, Except.bind]

/-- What is destroyed as what it is: an array whose element type is a signature is taken for an
array of variants, a structure is not freed, and neither is an array of another basic type. -/
theorem freedAs_carried (carries : v.Carries kind) : v.freedAs =
    match kind with
    | .text => some .text
    | .bytes => if v.elementType = none then some .variants else some .bytes
    | .texts => if v.elementType = none then some .variants else some .texts
    | .entries => some .entries
    | .variants => if v.type = some 'r' then none else some .variants
    | .slots _ => none := by
  have special := not_numeric
  cases kind with
  | text =>
    rcases carries with string | path
    · simp [Var.freedAs, string]
    · simp [Var.freedAs, path]
  | bytes =>
    obtain ⟨array, element | ⟨noElement, signature⟩⟩ := Var.isArray_basic.mp carries
    · simp [Var.freedAs, array, element]
    · simp [Var.freedAs, array, noElement, signature]
  | texts =>
    rcases carries with carries | carries <;>
      obtain ⟨array, element | ⟨noElement, signature⟩⟩ := Var.isArray_basic.mp carries
    · simp [Var.freedAs, array, element]
    · simp [Var.freedAs, array, noElement, signature]
    · simp [Var.freedAs, array, element]
    · simp [Var.freedAs, array, noElement, signature]
  | entries => simp [Var.freedAs, carries.1, carries.2]
  | variants =>
    rcases carries with struct | carries | ⟨array, noElement, signature, given⟩
    · simp [Var.freedAs, struct]
    · obtain ⟨array, element | ⟨noElement, signature⟩⟩ := Var.isArray_basic.mp carries
      · simp [Var.freedAs, array, element]
      · simp [Var.freedAs, array, noElement, signature]
    · simp [Var.freedAs, array, noElement, given]
  | slots type =>
    obtain ⟨array, element, number, other⟩ := carries
    simp only [Var.freedAs, array, element]
    split <;> grind

theorem freePayload_var (released : s.freePayload = .ok freed) :
    freed.var.type = s.var.type ∧ freed.var.elementSignature = s.var.elementSignature := by
  unfold State.freePayload at released
  split at released
  · obtain ⟨⟨⟩, -, released⟩ := bind_ok.mp released
    split at released <;> cases released <;> exact ⟨rfl, rfl⟩
  · cases released
    exact ⟨rfl, rfl⟩

/-- The signature is not left behind. -/
theorem destroy_eq (typed : WellTyped s.var) (released : s.freePayload = .ok freed) :
    s.destroy = .ok { left := freed.left ++ freed.var.payload.owned } := by
  obtain ⟨sameType, sameSignature⟩ := freePayload_var released
  have shown : s.destroy = if freed.var.type = some 'a' then
      .ok { freed with var.elementSignature := none }.clear else .ok freed.clear := congrArg (· >>= _) released
  rw [shown]
  split
  · simp [State.clear]
  · rename_i other
    have noSignature : freed.var.elementSignature = none := by
      rw [sameSignature]
      exact (typed.1 (sameType ▸ other)).2.1
    simp [State.clear, noSignature]

theorem destroy_error (stopped : s.freePayload = .error fault) :
    s.destroy = .error fault := congrArg (· >>= _) stopped

/-- A destruction that is not stopped leaves nothing behind exactly if the variant can be released. -/
def Destroys (s : State) : Prop :=
  ∃ left, s.destroy = .ok { left } ∧ s.left <+: left ∧ (left = s.left ↔ Releasable s.var)

theorem destroys_of (typed : WellTyped s.var) (released : s.freePayload = .ok freed)
    (left : freed.left ++ freed.var.payload.owned = s.left ++ blocks)
    (fits : blocks = [] ↔ Releasable s.var) : Destroys s := by
  refine ⟨s.left ++ blocks, ?_, List.prefix_append _ _, ?_⟩
  · rw [destroy_eq typed released, left]
  · rw [List.append_right_eq_self, fits]

theorem destroys_untouched (typed : WellTyped s.var) (freedAs : s.var.freedAs = none)
    (fits : s.var.payload.owned = [] ↔ Releasable s.var) : Destroys s := by
  have untouched : s.freePayload = .ok s := by rw [State.freePayload, freedAs]
  exact destroys_of typed untouched rfl fits

theorem destroys_freed (typed : WellTyped s.var) (holds : s.var.payload = .block content)
    (freedAs : s.var.freedAs = some content.kind) (fits : content.keys = [] ↔ Releasable s.var) :
    Destroys s := by
  have freed : s.freePayload = .ok ⟨{ s.var with payload := .dangling }, s.left ++ content.keys⟩ := by
    simp [State.freePayload, freedAs, free_block holds]
  exact destroys_of typed freed (by simp [Word.owned]) fits

theorem destroy_misread (holds : s.var.payload = .block content)
    (freedAs : s.var.freedAs = some .variants) (apart : content.kind ≠ .variants) : s.destroy = .error .misread :=
  destroy_error (by simp [State.freePayload, freedAs, free_block holds, apart])

/-- An array of bytes or texts is destroyed as what it is if it has an element type. -/
theorem destroy_array (typed : WellTyped s.var) (holds : s.var.payload = .block content)
    (freedAs : s.var.freedAs =
      if s.var.elementType = none then some .variants else some content.kind)
    (apart : content.kind ≠ .variants) (keyless : content.keys = [])
    (fits : Releasable s.var ↔ s.var.elementType ≠ none) :
    Destroys s ∨ (∃ fault, s.destroy = .error fault) ∧ ¬ Releasable s.var := by
  by_cases noElement : s.var.elementType = none
  · have misread := destroy_misread holds (freedAs.trans (if_pos noElement)) apart
    exact .inr ⟨⟨_, misread⟩, fun releasable => fits.mp releasable noElement⟩
  · refine .inl (destroys_freed typed holds (freedAs.trans (if_neg noElement)) ?_)
    exact iff_of_true keyless (fits.mpr noElement)

/-- Destroying a variant leaves nothing behind exactly if it can be released. -/
theorem destroy_spec (typed : WellTyped s.var) :
    Destroys s ∨ (∃ fault, s.destroy = .error fault) ∧ ¬ Releasable s.var := by
  cases holds : s.var.payload with
  | dangling => exact absurd typed.2 (by simp [holds])
  | zero =>
    have released : s.freePayload = .ok s := by
      unfold State.freePayload
      split
      · exact free_zero holds
      · rfl
    exact .inl (destroys_of typed released rfl (by simp [holds, Word.owned, Releasable]))
  | number value =>
    obtain ⟨-, -, noString, noPath, noElement, noSignature, -⟩ := by simpa [holds] using typed.2
    have freedAs : s.var.freedAs = none := by
      unfold Var.freedAs
      split <;> grind
    exact .inl (destroys_untouched typed freedAs (by simp [holds, Word.owned, Releasable]))
  | block content =>
    have carries : s.var.Carries content.kind := by simpa [holds] using typed.2
    have freedAs := freedAs_carried carries
    cases content with
    | text value =>
      exact .inl (destroys_freed typed holds freedAs (by simp [Block.keys, Releasable, holds]))
    | bytes values =>
      exact destroy_array typed holds freedAs nofun rfl (by simp [Releasable, holds])
    | texts values =>
      exact destroy_array typed holds freedAs nofun rfl (by simp [Releasable, holds])
    | entries keys =>
      exact .inl (destroys_freed typed holds freedAs (by simp [Block.keys, Releasable, holds]))
    | variants count =>
      by_cases struct : s.var.type = some 'r'
      · refine .inl (destroys_untouched typed (freedAs.trans (if_pos struct)) ?_)
        simp [Word.owned, Releasable, holds, struct]
      · refine .inl (destroys_freed typed holds (freedAs.trans (if_neg struct)) ?_)
        simp [Block.keys, Releasable, holds, struct]
    | slots type =>
      exact .inl (destroys_untouched typed freedAs (by simp [Word.owned, holds, Releasable]))

/-- A step from a well-typed state, which loses no block and is not stopped exactly if it fits. -/
def Moves (s : State) (result : Except Fault State) (fits : Prop) : Prop :=
  (∃ next, result = .ok next ∧ WellTyped next.var ∧ s.left <+: next.left ∧
      (next.left = s.left ↔ fits)) ∨
    (∃ fault, result = .error fault) ∧ ¬ fits

variable {fits : Prop}

theorem Moves.to (typed : WellTyped var) (holds : fits) : Moves s (.ok ⟨var, s.left⟩) fits :=
  .inl ⟨_, rfl, typed, List.prefix_rfl, iff_of_true rfl holds⟩

theorem Moves.stopped (bad : ¬ fits) : Moves s (.error fault) fits := .inr ⟨⟨fault, rfl⟩, bad⟩

theorem Moves.congr {other : Prop} {result : Except Fault State} (moves : Moves s result fits)
    (same : fits ↔ other) : Moves s result other := by
  rwa [Moves, ← same]

/-- A step that loses no block more follows. -/
theorem Moves.andThen (moves : Moves s result fits) (rest : ∀ next, result = .ok next → WellTyped next.var → Moves next (follow next) True) :
    Moves s (result >>= follow) fits := by
  rcases moves with ⟨next, ran, typed, longer, same⟩ | ⟨⟨fault, ran⟩, bad⟩
  · rcases rest next ran typed with ⟨last, ended, typed, -, kept⟩ | ⟨-, bad⟩
    · rw [ran]
      have kept := kept.mpr trivial
      exact .inl ⟨last, ended, typed, kept ▸ longer, kept ▸ same⟩
    · exact absurd trivial bad
  · rw [ran]
    exact .stopped bad

/-- The variant is destroyed first, and then made anew. -/
theorem Moves.fresh (typed : WellTyped s.var) (make : State → Except Fault State)
    (made : ∀ left, make { left } = .ok ⟨var, left⟩) (fresh : WellTyped var) :
    Moves s (s.destroy >>= make) (Releasable s.var) := by
  rcases destroy_spec typed with ⟨left, ran, longer, same⟩ | ⟨⟨fault, ran⟩, bad⟩
  · rw [ran]
    exact .inl ⟨⟨var, left⟩, made left, fresh, longer, same⟩
  · rw [ran]
    exact .stopped bad

variable {type : Char}

theorem scalar_numeric (value : Scalar) : numeric value.type = true := by cases value <;> rfl

theorem parseNumber_type (strtod : CString → UInt64) (number : numeric type = true)
    (text : CString) : (parseNumber strtod type text).type = type := by
  simp only [numeric, decide_eq_true_eq, List.mem_cons, List.not_mem_nil, or_false] at number
  rcases number with rfl | rfl | rfl | rfl | rfl | rfl | rfl | rfl | rfl <;> rfl

theorem plain (typed : WellTyped v) (kept : destroyed v.type = false) :
    v.elementType = none ∧ v.elementSignature = none ∧ v.len = 0 ∧
      (v.payload = .zero ∨ ∃ value, v.payload = .number value) := by
  simp only [destroyed, Bool.or_eq_false_iff, decide_eq_false_iff_not] at kept
  obtain ⟨⟨⟨noString, noPath⟩, noArray⟩, noStruct⟩ := kept
  obtain ⟨noElement, noSignature, empty⟩ := typed.1 noArray
  have empty := empty noStruct
  have holds := typed.2
  cases payload : v.payload with
  | zero => exact ⟨noElement, noSignature, empty, .inl rfl⟩
  | number value => exact ⟨noElement, noSignature, empty, .inr ⟨value, rfl⟩⟩
  | dangling => exact absurd holds (by simp [payload])
  | block content =>
    have carries : v.Carries content.kind := by simpa [payload] using holds
    cases kind : content.kind <;>
      simp [kind, Var.Carries, Var.isArray_basic, noString, noPath, noArray, noStruct] at carries

/-- A value of the type before is freed as it should be. -/
def Frees (v : Var) : Prop := destroyed v.type = true → Releasable v

theorem number_typed (number : numeric type = true) (same : value.type = type) (noElement : v.elementType = none)
    (noSignature : v.elementSignature = none) (empty : v.len = 0) :
    WellTyped { v with type := some type, payload := .number value } := by
  have special := not_numeric
  refine ⟨fun _ => ⟨noElement, noSignature, fun _ => empty⟩, empty, nofun, ?_, ?_, noElement, noSignature, ?_⟩
  · grind
  · grind
  · intro other given _
    rw [same]
    exact Option.some.inj given

theorem store_moves (value : Scalar) (typed : WellTyped s.var)
    (kept : destroyed s.var.type = false) (number : numeric type = true)
    (same : value.type = type) (holds : fits) : Moves s (.ok ((s.retype type).store value)) fits := by
  obtain ⟨noElement, noSignature, empty, payload⟩ := plain typed kept
  have nothing : s.var.payload.owned = [] := by
    rcases payload with zero | ⟨old, number⟩
    · rw [zero]
      rfl
    · rw [number]
      rfl
  have shown : (s.retype type).store value = ⟨{ s.var with type := some type, payload := .number value }, s.left⟩ := by
    simp [State.store, State.retype, nothing]
  rw [shown]
  exact .to (number_typed number same noElement noSignature empty) holds

theorem setNumber_moves (typed : WellTyped s.var) (value : Scalar) :
    Moves s (s.setNumber value) (s.var.type = some value.type ∨ Frees s.var) := by
  have number := scalar_numeric value
  have special := not_numeric
  unfold State.setNumber State.changeType
  split
  · rename_i same
    have kept : destroyed s.var.type = false := by
      rw [same]
      grind [destroyed]
    have shown : s.retype value.type = s := by
      rw [State.retype, ← same]
    have moves : Moves s (.ok ((s.retype value.type).store value)) (s.var.type = some value.type ∨ Frees s.var) :=
      store_moves value typed kept number rfl (.inl same)
    rwa [shown] at moves
  · rename_i other
    split
    · rename_i gone
      have none : ({} : Var).elementType = none := rfl
      have moves := Moves.fresh typed (fun s => .ok ((s.retype value.type).store value))
        (fun left => by simp [State.retype, State.store, Word.owned])
        (number_typed number rfl none rfl rfl)
      simp only [bind_assoc, pure_bind]
      refine moves.congr ?_
      simp [other, Frees, gone]
    · rename_i kept
      have kept : destroyed s.var.type = false := by simpa using kept
      exact store_moves value typed kept number rfl (.inr fun destroyed => absurd destroyed (by simp [kept]))

/-- The payload can be taken for a text: what it is of another type is freed, and else it is zero. -/
def TextFits (v : Var) : Prop :=
  if destroyed v.type = true then Releasable v else ∀ value, v.payload ≠ .number value

theorem text_typed (text : type = 's' ∨ type = 'o')
    (noElement : v.elementType = none) (noSignature : v.elementSignature = none)
    (empty : v.len = 0) (value : Option CString) :
    WellTyped { v with
      type := some type, payload := value.elim .zero fun text => .block (.text text) } := by
  refine ⟨fun _ => ⟨noElement, noSignature, fun _ => empty⟩, ?_⟩
  cases value with
  | none => exact empty
  | some value => exact text.imp (congrArg some) (congrArg some)

theorem text_releasable (text : type = 's' ∨ type = 'o') (typed : WellTyped v)
    (given : v.type = some type) : Releasable v := by
  have carries : v.Carries .text := by
    rw [Var.Carries, given]
    exact text.imp (congrArg some) (congrArg some)
  rcases reach_carried typed carries with ⟨-, zero | ⟨content, block, kind⟩⟩ | ⟨-, -, _, number⟩
  · simp [Releasable, zero]
  · cases content with
    | text => simp [Releasable, block]
    | _ => cases kind
  · simp [Releasable, number]

theorem stringDup_moves (text : type = 's' ∨ type = 'o') (typed : WellTyped s.var)
    (given : s.var.type = some type) (value : Option CString) (holds : fits) : Moves s (s.stringDup value) fits := by
  have carries : s.var.Carries .text := by
    rw [Var.Carries, given]
    exact text.imp (congrArg some) (congrArg some)
  have array : s.var.type ≠ some 'a' := by rcases text with rfl | rfl <;> simp [given]
  have struct : s.var.type ≠ some 'r' := by rcases text with rfl | rfl <;> simp [given]
  obtain ⟨noElement, noSignature, empty⟩ := typed.1 array
  have next := text_typed text noElement noSignature (empty struct) value
  rw [← given] at next
  have put : ∀ payload, s.free .text = .ok ⟨{ s.var with payload }, s.left⟩ → Moves s (s.stringDup value) fits := by
    intro payload released
    have ran : s.stringDup value = .ok ⟨{ s.var with
        payload := value.elim .zero fun text => .block (.text text) }, s.left⟩ := by
      rw [State.stringDup, released]
      rfl
    rw [ran]
    exact .to next holds
  rcases reach_carried typed carries with ⟨-, zero | ⟨content, block, kind⟩⟩ | ⟨-, is, -⟩
  · exact put s.var.payload (free_zero zero)
  · have keys : content.keys = [] := by
      cases content with
      | text => rfl
      | _ => cases kind
    refine put .dangling ?_
    rw [free_block block, if_pos kind, keys, List.append_nil]
  · exact absurd is struct

theorem changeType_type (ran : s.changeType type = .ok next) : next.var.type = some type := by
  unfold State.changeType at ran
  split at ran
  · rename_i same
    cases ran
    exact same
  · split at ran
    · obtain ⟨gone, -, same⟩ := bind_ok.mp ran
      cases same
      rfl
    · cases ran
      rfl

/-- The type becomes one of a text. -/
theorem changeText_moves (text : type = 's' ∨ type = 'o') (typed : WellTyped s.var)
    (zero : destroyed s.var.type = false → s.var.payload = .zero) : Moves s (s.changeType type) (TextFits s.var) := by
  unfold State.changeType
  split
  · rename_i given
    have gone : destroyed s.var.type = true := by
      rcases text with rfl | rfl <;> simp [destroyed, given]
    refine .to typed ?_
    rw [TextFits, if_pos gone]
    exact text_releasable text typed given
  · split
    · rename_i gone
      have fresh : WellTyped { type := some type } := ⟨fun _ => ⟨rfl, rfl, fun _ => rfl⟩, rfl⟩
      refine (Moves.fresh typed (fun s => .ok (s.retype type)) (fun left => rfl) fresh).congr ?_
      rw [TextFits, if_pos gone]
    · rename_i kept
      have kept : destroyed s.var.type = false := by simpa using kept
      obtain ⟨noElement, noSignature, empty, -⟩ := plain typed kept
      refine .to ⟨fun _ => ⟨noElement, noSignature, fun _ => empty⟩, ?_⟩ ?_
      · simpa [zero kept] using empty
      · rw [TextFits, if_neg (by simp [kept]), zero kept]
        exact nofun

theorem setText_moves (text : type = 's' ∨ type = 'o') (typed : WellTyped s.var) {set : State → Except Fault State}
    (sets : ∀ next, next.var.type = some type → WellTyped next.var → Moves next (set next) True)
    (wild : ∀ value, s.var.payload = .number value → set (s.retype type) = .error .wild) :
    Moves s (s.changeType type >>= set) (TextFits s.var) := by
  by_cases zero : destroyed s.var.type = false → s.var.payload = .zero
  · refine (changeText_moves text typed zero).andThen fun next ran typed => ?_
    exact sets next (changeType_type ran) typed
  · rw [Classical.not_imp] at zero
    obtain ⟨kept, other⟩ := zero
    obtain ⟨-, -, -, zero | ⟨old, number⟩⟩ := plain typed kept
    · exact absurd zero other
    · have foreign : s.var.type ≠ some type := by
        rintro same
        rw [same] at kept
        rcases text with rfl | rfl <;> cases kept
      have ran : (s.changeType type >>= set) = .error .wild := by
        rw [State.changeType, if_neg foreign, if_neg (by simp [kept])]
        exact wild old number
      rw [ran]
      refine .stopped ?_
      rw [TextFits, if_neg (by simp [kept])]
      exact fun none => none old number

theorem setString_moves (text : type = 's' ∨ type = 'o') (typed : WellTyped s.var) (value : Option CString) :
    Moves s (s.changeType type >>= fun s => s.stringDup value) (TextFits s.var) := by
  refine setText_moves text typed (fun next given typed => ?_) fun old number => ?_
  · exact stringDup_moves text typed given value trivial
  · have wild : (s.retype type).free .text = .error .wild := free_number number
    rw [State.stringDup, wild]
    rfl

theorem changeType_moves (noText : type ≠ 's' ∧ type ≠ 'o') (noNumber : numeric type = false) (typed : WellTyped s.var) :
    Moves s (s.changeType type) (s.var.type = some type ∨ Frees s.var) := by
  unfold State.changeType
  split
  · rename_i same
    exact .to typed (.inl same)
  · rename_i other
    split
    · rename_i gone
      have fresh : WellTyped { type := some type } := ⟨fun _ => ⟨rfl, rfl, fun _ => rfl⟩, rfl⟩
      refine (Moves.fresh typed (fun s => .ok (s.retype type)) (fun left => rfl) fresh).congr ?_
      simp [other, Frees, gone]
    · rename_i kept
      have kept : destroyed s.var.type = false := by simpa using kept
      obtain ⟨noElement, noSignature, empty, payload⟩ := plain typed kept
      refine .to ⟨fun _ => ⟨noElement, noSignature, fun _ => empty⟩, ?_⟩
        (.inr fun destroyed => absurd destroyed (by simp [kept]))
      rcases payload with zero | ⟨old, number⟩
      · simpa [zero] using empty
      · simp only [number]
        refine ⟨empty, nofun, by simp [noText], by simp [noText], noElement, noSignature, ?_⟩
        intro own given numeric
        cases given
        exact absurd numeric (by simp [noNumber])

/-- The condition under which a parsed value takes the place of the one before. -/
def ParseFits (v : Var) (signature : Signature) : Prop :=
  match signature with
  | [type] => if type = 's' ∨ type = 'o' then TextFits v else v.type = some type ∨ Frees v
  | _ => True

theorem parse_moves (strtod : CString → UInt64) (text : CString) (signature : Signature)
    (typed : WellTyped s.var) : Moves s (s.parse strtod text signature) (ParseFits s.var signature) := by
  unfold State.parse ParseFits
  split
  · rename_i type
    by_cases string : type = 's' ∨ type = 'o'
    · simp only [Bool.or_eq_true, decide_eq_true_eq, string, if_true]
      refine setText_moves string typed (fun next given typed => ?_) fun old number => ?_
      · refine (setString_moves (.inl rfl) typed (some text)).congr (iff_true_intro ?_)
        have gone : destroyed next.var.type = true := by
          rcases string with rfl | rfl <;> simp [destroyed, given]
        rw [TextFits, if_pos gone]
        exact text_releasable string typed given
      · have wild : (s.retype type).free .text = .error .wild := free_number number
        rcases string with rfl | rfl
        · have kept : (s.retype 's').setString (some text) = (s.retype 's').stringDup (some text) := rfl
          rw [kept, State.stringDup, wild]
          rfl
        · have stopped : (s.retype 'o').destroy = .error .wild := destroy_error wild
          have gone : (s.retype 'o').setString (some text) =
              ((s.retype 'o').destroy >>= fun s => return s.retype 's') >>= fun s =>
                s.stringDup (some text) := rfl
          rw [gone, stopped]
          rfl
    · have apart := not_or.mp string
      simp only [Bool.or_eq_true, decide_eq_true_eq, string, if_false]
      by_cases number : numeric type = true
      · have moves := setNumber_moves typed (parseNumber strtod type text)
        rw [State.setNumber, parseNumber_type strtod number] at moves
        simp only [number, if_true]
        exact moves
      · have same : (s.changeType type >>= fun s => .ok s) = s.changeType type := bind_pure _
        simp only [number, Bool.false_eq_true, if_false, same]
        exact changeType_moves apart (by simpa using number) typed
  · exact .to typed trivial

section Arrays

variable {item : Item}

theorem Block.add_kind (same : content.kind = item.kind) :
    ∃ more, content.add item = some more ∧ more.kind = item.kind := by
  cases content <;> cases item <;> cases same <;> exact ⟨_, rfl, rfl⟩

theorem Kind.kind_empty : kind.empty.kind = kind := by cases kind <;> rfl

/-- The array that the variant is has a block with room, or is a structure that a number stands
in. -/
theorem grow_moves (typed : WellTyped s.var) (carries : s.var.Carries kind) (growBy : Nat) :
    (∃ content, content.kind = kind ∧ (∀ value, s.var.payload ≠ .number value) ∧
      s.grow kind growBy = .ok ⟨{ s.var with payload := .block content }, s.left⟩) ∨
    s.grow kind growBy = .error .wild ∧ s.var.type = some 'r' ∧ ∃ value, s.var.payload = .number value := by
  have room (empty : s.var.len = 0) : s.var.len + growBy ≥ allocation s.var.len := by
    rw [empty]
    exact Nat.zero_le _
  have holds := typed.2
  rcases reach_carried typed carries with ⟨reached, zero | ⟨content, block, same⟩⟩ |
    ⟨reached, struct, value, number⟩
  · have empty : s.var.len = 0 := by simpa [zero] using holds
    refine .inl ⟨kind.empty, Kind.kind_empty, by simp [zero], ?_⟩
    rw [State.grow, if_pos (room empty), reached, zero]
    rfl
  · refine .inl ⟨content, same, by simp [block], ?_⟩
    have kept : s = ⟨{ s.var with payload := .block content }, s.left⟩ := by rw [← block]
    rw [State.grow]
    split
    · rw [reached, block]
      exact congrArg Except.ok kept
    · exact congrArg Except.ok kept
  · have empty : s.var.len = 0 := (by simpa [number] using holds : _ ∧ _).1
    refine .inr ⟨?_, struct, value, number⟩
    rw [State.grow, if_pos (room empty), reached]
    rfl

theorem carries_item (carries : v.Carries item.kind) : v.type = some 'a' ∨ v.type = some 'r' := by
  cases item <;> simp only [Item.kind, Var.Carries, Var.isArray_basic] at carries <;> grind

theorem append_moves (typed : WellTyped s.var) (carries : s.var.Carries item.kind) :
    Moves s (s.append item) (s.var.type = some 'r' → ∀ value, s.var.payload ≠ .number value) := by
  rcases grow_moves typed carries 1 with ⟨content, same, other, grown⟩ |
    ⟨wild, struct, value, number⟩
  · obtain ⟨more, added, kind⟩ := Block.add_kind same
    have ran : s.append item = .ok ⟨{ s.var with
        payload := .block more, len := s.var.len + 1 }, s.left⟩ := by
      rw [State.append, grown]
      simp [State.write, Word.reach, same, added, bind, Except.bind]
    have next : WellTyped { s.var with payload := .block more, len := s.var.len + 1 } := by
      have own : s.var.Carries more.kind := by rwa [kind]
      refine ⟨fun array => ?_, own⟩
      obtain ⟨noElement, noSignature, -⟩ := typed.1 array
      refine ⟨noElement, noSignature, fun noStruct => ?_⟩
      exact absurd (carries_item carries) (not_or.mpr ⟨array, noStruct⟩)
    rw [ran]
    exact .to next fun _ => other
  · have stopped : s.append item = .error .wild := congrArg (· >>= _) wild
    rw [stopped]
    exact .stopped fun fits => fits struct value number

theorem arrayAppend_moves (typed : WellTyped s.var) (array : s.var.type = some 'a')
    (carries : s.var.Carries item.kind) : Moves s (s.append item) True := by
  refine (append_moves typed carries).congr (iff_true_intro fun struct => ?_)
  rw [array] at struct
  cases struct

theorem arrayGrow_moves (typed : WellTyped s.var) (array : s.var.type = some 'a')
    (carries : s.var.Carries kind) (growBy : Nat) : Moves s (s.grow kind growBy) True := by
  rcases grow_moves typed carries growBy with ⟨content, same, -, grown⟩ | ⟨-, struct, -⟩
  · rw [grown]
    exact .to (typed.block (same ▸ carries)) trivial
  · rw [array] at struct
    cases struct

theorem guarded_moves (typed : WellTyped s.var)
    (carries : applies = true → s.var.type = some 'a' ∧ s.var.Carries item.kind) :
    Moves s (if applies then s.append item else .ok s) True := by
  split
  · rename_i holds
    exact arrayAppend_moves typed (carries holds).1 (carries holds).2
  · exact .to typed trivial

theorem arrayParse_moves (typed : WellTyped s.var) (text : CString) :
    Moves s (s.arrayParseAndAppendString text) True := by
  unfold State.arrayParseAndAppendString
  split
  · rename_i array
    split
    · exact .to typed trivial
    · rename_i element given
      have isArray : s.var.isArray [element] = true := Var.isArray_basic.mpr ⟨array, .inl given⟩
      split
      · rename_i string
        refine arrayAppend_moves typed array ?_
        simp only [Bool.or_eq_true, decide_eq_true_eq] at string
        rcases string with rfl | rfl
        · exact .inl isArray
        · exact .inr isArray
      · split
        · rename_i byte
          subst byte
          split
          · exact arrayAppend_moves typed array isArray
          · have carries : s.var.Carries .bytes := isArray
            exact arrayGrow_moves typed array carries 1
        · rename_i byte
          split
          · rename_i number
            have carries : s.var.Carries (.slots element) := ⟨array, given, number, byte⟩
            exact arrayGrow_moves typed array carries 1
          · exact .to typed trivial
  · exact .to typed trivial

end Arrays

theorem array_typed {element : Char} : WellTyped { type := some 'a', elementType := some element } :=
  ⟨fun other => absurd rfl other, rfl⟩

theorem signature_typed {signature : Option Signature} :
    WellTyped { type := some 'a', elementSignature := signature } := ⟨fun other => absurd rfl other, rfl⟩

theorem type_typed {type : Option Char} : WellTyped { type } := ⟨fun _ => ⟨rfl, rfl, fun _ => rfl⟩, rfl⟩

theorem ofSignature_typed (signature : Signature) : ∃ var, WellTyped var ∧
    ∀ left, ({ left } : State).ofSignature signature = ⟨var, left⟩ := by
  unfold State.ofSignature
  split
  · exact ⟨{}, type_typed, fun _ => rfl⟩
  · split
    · exact ⟨_, type_typed, fun _ => rfl⟩
    · exact ⟨{}, type_typed, fun _ => rfl⟩
  · split
    · exact ⟨_, array_typed, fun _ => rfl⟩
    · unfold State.initArraySignature
      split
      · split
        · exact ⟨_, array_typed, fun _ => rfl⟩
        · exact ⟨_, signature_typed, fun _ => rfl⟩
      · exact ⟨_, signature_typed, fun _ => rfl⟩
  · exact ⟨{}, type_typed, fun _ => rfl⟩

theorem initSignature_moves (typed : WellTyped s.var) (signature : Signature) :
    Moves s (s.initSignature signature) (Releasable s.var) := by
  obtain ⟨var, fresh, made⟩ := ofSignature_typed signature
  exact Moves.fresh typed _ (fun left => congrArg Except.ok (made left)) fresh

theorem grow_fresh (kind : Kind) (growBy : Nat) (element : Char) (left : List Block) :
    (({ left } : State).initArray element).grow kind growBy = .ok
      ⟨{ type := some 'a', elementType := some element, payload := .block kind.empty }, left⟩ := by
  have room : 0 + growBy ≥ allocation 0 := Nat.zero_le _
  exact (if_pos room).trans rfl

theorem setByteArray_moves (typed : WellTyped s.var) (data : List UInt8) :
    Moves s (s.setByteArray data) (Releasable s.var) := by
  unfold State.setByteArray State.initArrayOf
  have fresh : WellTyped ⟨some 'a', some 'y', none, data.length, .block (.bytes data)⟩ :=
    ⟨fun other => absurd rfl other, rfl⟩
  simp only [bind_assoc, pure_bind]
  refine Moves.fresh typed _ (fun left => ?_) fresh
  rw [grow_fresh]
  rfl

theorem setStringArray_moves (typed : WellTyped s.var) (data : List (Option CString)) :
    Moves s (s.setStringArray data) (Releasable s.var) := by
  unfold State.setStringArray State.initArrayOf
  have fresh : WellTyped ⟨some 'a', some 's', none, data.length,
      .block (.texts (data.map fun string => some (string.getD [])))⟩ := ⟨fun other => absurd rfl other, .inl rfl⟩
  simp only [bind_assoc, pure_bind]
  refine Moves.fresh typed _ (fun left => ?_) fresh
  rw [grow_fresh]
  rfl

theorem setCast_moves (typed : WellTyped s.var) (number : Cast) : Moves s (.ok (s.setCast number)) True := by
  unfold State.setCast
  split
  · rename_i type given
    split
    · rename_i numeric
      have special := not_numeric
      have kept : destroyed s.var.type = false := by
        rw [given]
        grind [destroyed]
      have moves : Moves s (.ok ((s.retype type).store (number.value type))) True :=
        store_moves _ typed kept numeric (number.typed type numeric) trivial
      have shown : s.retype type = s := by rw [State.retype, ← given]
      rwa [shown] at moves
    · exact .to typed trivial
  · exact .to typed trivial

end Rules

/-- The step does not read the payload as another type, and leaves nothing behind. -/
def Fits (s : State) : Op → Prop
  | .init => s.var.payload.owned = [] ∧ s.var.elementSignature = none
  | .setString _ | .setObjectPath _ => TextFits s.var
  | .setNumber value => s.var.type = some value.type ∨ Frees s.var
  | .parse _ signature => ParseFits s.var signature
  | .setByteArray _ | .setStringArray _ | .initSignature _ | .initArrayOf _ _ | .arrayArrayInit _
  | .initStruct | .destroy => Releasable s.var
  | .structAdd => s.var.type = some 'r' → ∀ value, s.var.payload ≠ .number value
  | .setCast _ | .appendByteArray _ | .appendStringArray _ | .appendObjectPathArray _
  | .appendVariantElement | .arrayParseAndAppendString _ | .dictAdd _ | .dictArrayAdd
  | .arrayArrayAdd => True

theorem step_moves (strtod : CString → UInt64) (typed : WellTyped s.var) (op : Op) :
    Moves s (step strtod s op) (Fits s op) := by
  cases op with
  | init =>
    refine .inl ⟨_, rfl, type_typed, ?_, ?_⟩
    · simp [State.clear]
    · cases given : s.var.elementSignature <;> simp [State.clear, Fits, given]
  | setString value => exact setString_moves (.inl rfl) typed value
  | setObjectPath value => exact setString_moves (.inr rfl) typed value
  | setNumber value => exact setNumber_moves typed value
  | setCast number => exact setCast_moves typed number
  | setByteArray data => exact setByteArray_moves typed data
  | setStringArray data => exact setStringArray_moves typed data
  | parse text signature => exact parse_moves strtod text signature typed
  | initSignature signature => exact initSignature_moves typed signature
  | initArrayOf element _ => exact Moves.fresh typed _ (fun _ => rfl) array_typed
  | arrayArrayInit signature => exact Moves.fresh typed _ (fun _ => rfl) signature_typed
  | initStruct => exact Moves.fresh typed _ (fun _ => rfl) type_typed
  | appendByteArray byte =>
    exact guarded_moves typed fun applies => ⟨(Var.isArray_basic.mp applies).1, applies⟩
  | appendStringArray string =>
    exact guarded_moves typed fun applies => ⟨(Var.isArray_basic.mp applies).1, .inl applies⟩
  | appendObjectPathArray string =>
    exact guarded_moves typed fun applies => ⟨(Var.isArray_basic.mp applies).1, .inr applies⟩
  | appendVariantElement =>
    exact guarded_moves typed fun applies =>
      ⟨(Var.isArray_basic.mp applies).1, .inr (.inl applies)⟩
  | arrayParseAndAppendString text => exact arrayParse_moves typed text
  | dictAdd key =>
    refine guarded_moves typed fun applies => ?_
    simp only [Bool.and_eq_true, decide_eq_true_eq] at applies
    exact ⟨applies.1, applies⟩
  | dictArrayAdd =>
    refine guarded_moves typed fun applies => ?_
    obtain ⟨array, ⟨element, -, short⟩ | ⟨noElement, signature⟩⟩ := Var.isArray_iff.mp applies
    · cases short
    · exact ⟨array, .inr (.inr ⟨array, noElement, _, signature⟩)⟩
  | structAdd =>
    have shown : step strtod s .structAdd =
        if s.var.type = some 'r' then s.append .variant else .ok s := rfl
    rw [shown]
    split
    · rename_i struct
      exact append_moves typed (.inl struct)
    · rename_i other
      exact .to typed fun struct => absurd struct other
  | arrayArrayAdd =>
    refine guarded_moves typed fun applies => ?_
    simp only [Bool.and_eq_true, decide_eq_true_eq, Option.any_eq_true] at applies
    obtain ⟨⟨array, noElement⟩, signature, given, first⟩ := applies
    obtain ⟨rest, rfl⟩ := List.head?_eq_some_iff.mp first
    exact ⟨array, .inr (.inr ⟨array, noElement, rest, given⟩)⟩
  | destroy =>
    have moves := Moves.fresh typed (fun s => .ok s) (fun _ => rfl) type_typed
    rwa [show (s.destroy >>= fun s => .ok s) = s.destroy from bind_pure _] at moves

theorem run_left (strtod : CString → UInt64)
    (typed : WellTyped s.var) (ran : Machine.run (step strtod) s ops = .ok final) :
    WellTyped final.var ∧ s.left <+: final.left := by
  induction ops generalizing s with
  | nil =>
    cases ran
    exact ⟨typed, List.prefix_rfl⟩
  | cons op rest ih =>
    obtain ⟨next, moved, tail⟩ := bind_ok.mp ran
    rcases step_moves strtod typed op with ⟨other, moved', typed, longer, -⟩ | ⟨⟨fault, stopped⟩, -⟩
    · obtain rfl := Except.ok.inj (moved.symm.trans moved')
      obtain ⟨typed, later⟩ := ih typed tail
      exact ⟨typed, longer.trans later⟩
    · rw [moved] at stopped
      cases stopped

/-- `ni_dbus_variant_get_int32` and its siblings: what the payload is read as if the variant has
the type. -/
def getNumber (v : Var) (type : Char) : Except Fault (Option Word) :=
  if v.type = some type then
    match v.payload with
    | .zero => .ok (some .zero)
    | .number value => if value.type = type then .ok (some (.number value)) else .error .misread
    | _ => .error .misread
  else .ok none

/-- `ni_dbus_variant_get_string` and `ni_dbus_variant_get_object_path`. -/
def getText (v : Var) (type : Char) : Except Fault (Option Word) :=
  if v.type = some type then do
    v.payload.reach .text
    .ok (some v.payload)
  else .ok none

/-- The payload is what the getters take it for. -/
def Readable (v : Var) : Prop :=
  (∀ type, numeric type = true → ∃ value, getNumber v type = .ok value) ∧
    ∀ type, type = 's' ∨ type = 'o' → ∃ value, getText v type = .ok value

theorem readable (typed : WellTyped v) : Readable v := by
  have special := not_numeric
  constructor
  · intro type number
    unfold getNumber
    split
    · rename_i given
      have kept : destroyed v.type = false := by
        rw [given]
        grind [destroyed]
      obtain ⟨-, -, -, zero | ⟨value, holds⟩⟩ := plain typed kept
      · exact ⟨_, by rw [zero]⟩
      · obtain ⟨-, -, -, -, -, -, same⟩ := by simpa [holds] using typed.2
        exact ⟨_, by rw [holds]; exact if_pos (same type given number)⟩
    · exact ⟨_, rfl⟩
  · intro type text
    unfold getText
    split
    · rename_i given
      have carries : v.Carries .text := by
        rw [Var.Carries, given]
        exact text.imp (congrArg some) (congrArg some)
      rcases reach_carried typed carries with ⟨reached, -⟩ | ⟨-, struct, -⟩
      · exact ⟨_, by rw [reached]; rfl⟩
      · rcases text with rfl | rfl <;> cases given.symm.trans struct
    · exact ⟨_, rfl⟩

theorem run_iff_of_typed (strtod : CString → UInt64) (typed : WellTyped s.var) (clean : s.left = []) :
    (∃ final, Machine.run (step strtod) s ops = .ok final ∧ final.left = []) ↔
      Machine.Along (step strtod) Fits s ops := by
  induction ops generalizing s with
  | nil => exact iff_of_true ⟨s, rfl, clean⟩ trivial
  | cons op rest ih =>
    rcases step_moves strtod typed op with ⟨next, moved, typed, -, same⟩ | ⟨⟨fault, stopped⟩, bad⟩
    · constructor
      · intro ⟨final, ran, empty⟩
        obtain ⟨other, moved', tail⟩ := bind_ok.mp ran
        obtain rfl := Except.ok.inj (moved.symm.trans moved')
        have kept : next.left = [] := by
          have longer := (run_left strtod typed tail).2
          rwa [empty, List.prefix_nil] at longer
        refine ⟨same.mp (kept.trans clean.symm), fun other moved' => ?_⟩
        obtain rfl := Except.ok.inj (moved.symm.trans moved')
        exact (ih typed kept).mp ⟨final, tail, empty⟩
      · intro ⟨fits, later⟩
        have kept : next.left = [] := (same.mpr fits).trans clean
        obtain ⟨final, tail, empty⟩ := (ih typed kept).mpr (later next moved)
        exact ⟨final, bind_ok.mpr ⟨next, moved, tail⟩, empty⟩
    · refine iff_of_false ?_ fun along => bad along.1
      intro ⟨final, ran, _⟩
      obtain ⟨other, moved, -⟩ := bind_ok.mp ran
      rw [stopped] at moved
      cases moved

/-- In just the runs whose steps all fit, no payload is read, written through or freed as anything
but what it was last written as, and no block is left behind. -/
theorem run_sound_iff (strtod : CString → UInt64) (ops : List Op) :
    (∃ final, Machine.run (step strtod) {} ops = .ok final ∧ final.left = [] ∧
        ∀ early, early <+: ops → ∀ middle, Machine.run (step strtod) {} early = .ok middle →
          Readable middle.var) ↔
      Machine.Along (step strtod) Fits {} ops := by
  have typed : WellTyped ({} : State).var := type_typed
  rw [← run_iff_of_typed strtod typed rfl]
  constructor
  · intro ⟨final, ran, empty, _⟩
    exact ⟨final, ran, empty⟩
  · intro ⟨final, ran, empty⟩
    refine ⟨final, ran, empty, fun early _ middle started => ?_⟩
    exact readable (run_left strtod typed started).1

/-- A string that is set after a number: the number is freed as if it were a string. A structure
that is destroyed is left behind. -/
theorem number_freed :
    Machine.run (step fun _ => 0) {} [.setNumber (.int32 5), .setString (some (ascii ['x']))] =
        .error .wild ∧
      Machine.run (step fun _ => 0) {} [.initStruct, .structAdd, .destroy] =
        .ok { left := [.variants 1] } ∧
      ¬ ∀ strtod ops, ∃ final, Machine.run (step strtod) {} ops = .ok final ∧ final.left = [] ∧
        ∀ early, early <+: ops → ∀ middle, Machine.run (step strtod) {} early = .ok middle →
          Readable middle.var := by
  have stopped : Machine.run (step fun _ => 0) {}
      [.setNumber (.int32 5), .setString (some (ascii ['x']))] = .error .wild := rfl
  refine ⟨stopped, rfl, fun claim => ?_⟩
  obtain ⟨final, ran, -⟩ := claim (fun _ => 0) [.setNumber (.int32 5), .setString (some (ascii ['x']))]
  rw [stopped] at ran
  cases ran

end Testbus.Dbus.Payload
