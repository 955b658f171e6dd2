import Testbus.Dbus.Properties
import Testbus.Lib.Shadow

namespace Testbus.Dbus.Generic

open Dispatch Marshal Properties

/-- The types of members that there are generic functions for. -/
inductive Kind
  | bool
  | int
  | uint
  | int16
  | uint16
  | int64
  | uint64
  | double
  | string
  | stringArray
  | uuid
  deriving DecidableEq

abbrev Uuid := { octets : List UInt8 // octets.length = 16 }

/-- What a member holds. A `ni_bool_t` is an `unsigned char`, a double is its eight bytes, and a
string may be `NULL`. -/
abbrev Kind.Data : Kind → Type
  | .bool => UInt8
  | .int => Int32
  | .uint => UInt32
  | .int16 => Int16
  | .uint16 => UInt16
  | .int64 => Int64
  | .uint64 => UInt64
  | .double => UInt64
  | .string => Option CString
  | .stringArray => List (Option CString)
  | .uuid => Uuid

/-- The signature that the macro for the kind gives to a property. -/
def Kind.signature : Kind → Signature
  | .bool => ['b']
  | .int => ['i']
  | .uint => ['u']
  | .int16 => ['n']
  | .uint16 => ['q']
  | .int64 => ['x']
  | .uint64 => ['t']
  | .double => ['d']
  | .string => ['s']
  | .stringArray => ['a', 's']
  | .uuid => ['a', 'y']

/-- The members of a structure. The macros take the offset as a pointer to the type of the kind. -/
abbrev Struct := (kind : Kind) → Nat → kind.Data

def genericProperty (kind : Kind) (fn : HandleFn) (offset : Nat) (name : CString) : Property Kind where
  name
  signature := some kind.signature
  getHandle := some fn
  offset
  get := some kind
  set := some kind

def dictProperty (name : CString) (children : List (Property Kind)) : Property Kind where
  name
  signature := some dictSignature
  dictChildren := some children

section Fields

variable (kind : Kind) (fn : HandleFn) (offset : Nat) (name : CString)
  (children : List (Property Kind))

@[simp] theorem genericProperty_name : (genericProperty kind fn offset name).name = name := rfl

@[simp] theorem genericProperty_signature : (genericProperty kind fn offset name).signature = some kind.signature := rfl

@[simp] theorem genericProperty_getHandle : (genericProperty kind fn offset name).getHandle = some fn := rfl

@[simp] theorem genericProperty_offset : (genericProperty kind fn offset name).offset = offset := rfl

@[simp] theorem genericProperty_get : (genericProperty kind fn offset name).get = some kind := rfl

@[simp] theorem genericProperty_set : (genericProperty kind fn offset name).set = some kind := rfl

@[simp] theorem genericProperty_childTable : (genericProperty kind fn offset name).childTable = none := by
  cases kind <;> rfl

@[simp] theorem dictProperty_name : (dictProperty name children).name = name := rfl

@[simp] theorem dictProperty_signature : (dictProperty name children).signature = some dictSignature := rfl

@[simp] theorem dictProperty_childTable : (dictProperty name children).childTable = some children := rfl

end Fields

/-- A table of what the macros make. A property is found by its name, which is its own in the
table. -/
inductive IsTable : List (Property Kind) → Prop
  | nil : IsTable []
  | generic (kind : Kind) (fn : HandleFn) (offset : Nat) {name : CString}
    {rest : List (Property Kind)} (own : name ∉ rest.map Property.name) (later : IsTable rest) :
    IsTable (genericProperty kind fn offset name :: rest)
  | dict {name : CString} {children rest : List (Property Kind)} (inner : IsTable children)
    (own : name ∉ rest.map Property.name) (later : IsTable rest) :
    IsTable (dictProperty name children :: rest)

abbrev Table := { properties : List (Property Kind) // IsTable properties }

/-- A class of objects. An object has some of the structures from the start; write access makes the
others. The functions set no error for a structure that is not there, or that it is not present. -/
structure Class where
  own : HandleFn → Bool
  made : HandleFn → Struct
  missing : HandleFn → Option DBusError
  silent : ∀ fn error, missing fn = some error → error.name = notPresentName

structure Object (class' : Class) where
  path : CString
  handle : HandleFn → Option Struct
  own : ∀ fn, class'.own fn → (handle fn).isSome

/-- An object that has just been made. -/
def fresh (class' : Class) (path : CString) : Object class' where
  path
  handle fn := if class'.own fn then some (class'.made fn) else none
  own fn owned := by simp [owned]

/-- A `get_handle` function without write access. -/
def getHandle (object : Object class') (fn : HandleFn) : Except (Option DBusError) Struct :=
  match object.handle fn with
  | some struct => .ok struct
  | none => .error (class'.missing fn)

/-- A `get_handle` function with write access. -/
def writeHandle (object : Object class') (fn : HandleFn) : Struct :=
  (object.handle fn).getD (class'.made fn)

def Object.put (object : Object class') (fn : HandleFn) (struct : Struct) : Object class' where
  path := object.path
  handle := Function.update object.handle fn (some struct)
  own other owned := by
    by_cases same : other = fn
    · subst same; simp
    · simpa [same] using object.own other owned

def Struct.write (struct : Struct) (kind : Kind) (offset : Nat) (data : kind.Data) : Struct :=
  Function.update struct kind (Function.update (struct kind) offset data)

section Functions

/-- What C makes of a double that is assigned to an integer, and of an integer that is assigned to a
double. -/
structure Floats where
  toInt : UInt64 → Int
  ofInt : Int → UInt64

variable (floats : Floats)

/-- The `CAST_SWITCH` of `ni_dbus_variant_get_int` and its like. -/
def castFrom : Scalar → Int
  | .byte value => value.toNat
  | .boolean value => value.toNat
  | .int16 value => value.toInt
  | .uint16 value => value.toNat
  | .int32 value => value.toInt
  | .uint32 value => value.toNat
  | .int64 value => value.toInt
  | .uint64 value => value.toNat
  | .double bits => floats.toInt bits

/-- The `CAST_SWITCH` of `ni_dbus_variant_set_int` and its like, for a variant of a type. -/
def castTo (type : Char) (value : Int) : Option Scalar :=
  match type with
  | 'b' => some (.boolean (UInt32.ofInt value))
  | 'y' => some (.byte (UInt8.ofInt value))
  | 'n' => some (.int16 (Int16.ofInt value))
  | 'q' => some (.uint16 (UInt16.ofInt value))
  | 'i' => some (.int32 (Int32.ofInt value))
  | 'u' => some (.uint32 (UInt32.ofInt value))
  | 'x' => some (.int64 (Int64.ofInt value))
  | 't' => some (.uint64 (UInt64.ofInt value))
  | 'd' => some (.double (floats.ofInt value))
  | _ => none

/-- The variant that `ni_dbus_variant_init_signature` has begun gets a number. -/
def assignInt (property : Property Kind) (value : Int) : Except (Option DBusError) Marshal.Variant :=
  match (property.signature.bind List.head?).bind fun type => castTo floats type value with
  | some scalar => .ok (.scalar scalar)
  | none => .error none

/-- The part of the `get` function of a kind that follows `ni_dbus_generic_property_read_handle`. -/
def Kind.get (path : CString) (property : Property Kind) :
    (kind : Kind) → kind.Data → Except (Option DBusError) Marshal.Variant
  | .bool, value =>
    if value ≠ 0 ∧ value ≠ 1 then .error (some (propertyNotPresent path property.name))
    else assignInt floats property value.toNat
  | .int, value => assignInt floats property value.toInt
  | .uint, value => assignInt floats property value.toNat
  | .int16, value => .ok (.scalar (.int16 value))
  | .uint16, value => .ok (.scalar (.uint16 value))
  | .int64, value => .ok (.scalar (.int64 value))
  | .uint64, value => .ok (.scalar (.uint64 value))
  | .double, bits => .ok (.scalar (.double bits))
  | .string, none => .error (some (setError notPresentName "property %s not present" [property.name]))
  | .string, some value => .ok (.string (some value))
  | .stringArray, strings => .ok (.stringArray (strings.map (Option.getD · [])))
  | .uuid, octets => .ok (.byteArray octets.val)

/-- What a `set` function does with a member. -/
inductive Assigned (Data : Type)
  | stored (data : Data)
  | refused
  /-- Elements of another type are taken for strings. -/
  | undefined

/-- `array.len`, which is zero for a value that has no elements. -/
def arrayLen : Marshal.Variant → Nat
  | .byteArray bytes => bytes.length
  | .stringArray strings => strings.length
  | .objectPathArray paths => paths.length
  | .variantArray elements => elements.length
  | .dict entries => entries.length
  | .arrayArray _ elements => elements.length
  | .struct members => members.length
  | _ => 0

/-- The part of the `set` function of a kind that follows `ni_dbus_generic_property_write_handle`.
Strings are added to those that the array has. -/
def Kind.set : (kind : Kind) → Marshal.Variant → kind.Data → Assigned kind.Data
  | .bool, .scalar (.boolean value), _ => .stored value.toUInt8
  | .int, .scalar value, _ => .stored (Int32.ofInt (castFrom floats value))
  | .uint, .scalar value, _ => .stored (UInt32.ofInt (castFrom floats value))
  | .int16, .scalar (.int16 value), _ => .stored value
  | .uint16, .scalar (.uint16 value), _ => .stored value
  | .int64, .scalar (.int64 value), _ => .stored value
  | .uint64, .scalar (.uint64 value), _ => .stored value
  | .double, .scalar (.double bits), _ => .stored bits
  | .string, .string value, _ => .stored value
  | .stringArray, .stringArray strings, held => .stored (held ++ strings.map some)
  | .stringArray, .objectPathArray paths, held => .stored (held ++ paths.map some)
  | .stringArray, datum, held => if arrayLen datum = 0 then .stored held else .undefined
  | .uuid, .byteArray bytes, _ =>
    if sized : bytes.length = 16 then .stored ⟨bytes, sized⟩ else .refused
  | _, _, _ => .refused

/-- `ni_dbus_generic_property_read_handle`, with the structure that it returns. -/
def readStruct (object : Object class') (property : Property Kind) : Except (Option DBusError) Struct :=
  match property.getHandle with
  | some fn =>
    match getHandle object fn with
    | .ok struct => .ok struct
    | .error error => .error (some (error.getD (propertyNotPresent object.path property.name)))
  | none => .error none

/-- The `get` function of a property, such as `ni_dbus_generic_property_get_bool`. -/
def genericGet (kind : Kind) (property : Property Kind) (object : Object class') :
    Except (Option DBusError) Marshal.Variant := do
  let struct ← readStruct object property
  kind.get floats object.path property (struct kind property.offset)

/-- What is called for the properties of an object. -/
def handlers (class' : Class) : Handlers (Object class') Kind where
  path := Object.path
  getHandle fn object := (getHandle object fn).map fun _ => fn
  get := genericGet floats

/-- The `set` function of a property, such as `ni_dbus_generic_property_set_bool`: whether it
succeeds, and the object. A structure is made before the value is looked at. -/
def genericSet (kind : Kind) (property : Property Kind) (datum : Marshal.Variant)
    (object : Object class') : Option (Bool × Object class') := do
  let fn ← property.getHandle
  let struct := writeHandle object fn
  match kind.set floats datum (struct kind property.offset) with
  | .stored data => some (true, object.put fn (struct.write kind property.offset data))
  | .refused => some (false, object.put fn struct)
  | .undefined => none

mutual

/-- One entry in the loop of `__ni_dbus_object_set_properties_from_dict`. What is unknown, read-only
or refused is ignored. There is no result if a value is read as one of another type. -/
def setProperty (properties : List (Property Kind)) (object : Object class') (key : CString)
    (datum : Marshal.Variant) : Option (Object class') :=
  match properties.find? fun property => property.name = key with
  | none => some object
  | some property =>
    match property.childTable with
    | some children =>
      match datum with
      | .dict entries => setProperties children object entries
      | datum => if arrayLen datum = 0 then some object else none
    | none =>
      match property.set with
      | none => some object
      | some kind => (genericSet floats kind property datum object).map Prod.snd

/-- The loop of `__ni_dbus_object_set_properties_from_dict`. -/
def setProperties (properties : List (Property Kind)) (object : Object class') :
    List (CString × Marshal.Variant) → Option (Object class')
  | [] => some object
  | (key, datum) :: rest => do
    let object ← setProperty properties object key datum
    setProperties properties object rest

end

def setPropertiesFromDict (object : Object class') (table : Table)
    (dict : List (CString × Marshal.Variant)) : Option (Object class') :=
  setProperties floats table.val object dict

/-- `ni_dbus_object_get_properties_as_dict`, for a dictionary without entries. -/
def getDict (object : Object class') (table : Table) :
    Except (Option DBusError) (List (CString × Marshal.Variant)) :=
  getPropertiesAsDict (handlers floats class') object table.val []

end Functions

theorem IsTable.distinct (table : IsTable properties) : (properties.map Property.name).Nodup := by
  induction table with
  | nil => exact List.nodup_nil
  | generic kind fn offset own later ih => exact List.nodup_cons.mpr ⟨own, ih⟩
  | dict inner own later _ ih => exact List.nodup_cons.mpr ⟨own, ih⟩

theorem IsTable.find? (table : IsTable properties) (member : property ∈ properties) :
    properties.find? (fun other => other.name = property.name) = some property :=
  (Lib.Shadow.lookup_iff table.distinct).mpr ⟨member, rfl⟩

theorem IsTable.within (table : IsTable properties) (within : Within properties property) :
    (∃ kind fn offset name, property = genericProperty kind fn offset name) ∨
      ∃ name children, property = dictProperty name children := by
  induction table with
  | nil =>
    cases within with
    | here member => cases member
    | inside member => cases member
  | generic kind fn offset own later ih =>
    rcases within_cons.mp within with rfl | ⟨children, table, _⟩ | within
    · exact .inl ⟨_, _, _, _, rfl⟩
    · simp at table
    · exact ih within
  | dict inner own later ihInner ih =>
    rcases within_cons.mp within with rfl | ⟨children, table, within⟩ | within
    · exact .inr ⟨_, _, rfl⟩
    · cases table
      exact ihInner within
    · exact ih within

/-! ## What the properties of an object are -/

variable {kind : Kind}

section Values

/-- A member of a structure. -/
structure Member where
  fn : HandleFn
  kind : Kind
  offset : Nat
  deriving DecidableEq

mutual

/-- The members that a generic property and those in its dictionary stand for. -/
def membersOf : Property Kind → List Member
  | ⟨_, _, _, _, some children, _, _⟩ => members children
  | ⟨_, _, some fn, offset, none, some kind, _⟩ => [⟨fn, kind, offset⟩]
  | _ => []

/-- The members that the properties of a table stand for. -/
def members : List (Property Kind) → List Member
  | [] => []
  | property :: rest => membersOf property ++ members rest

end

@[simp] theorem membersOf_generic (kind : Kind) (fn : HandleFn) (offset : Nat) (name : CString) :
    membersOf (genericProperty kind fn offset name) = [⟨fn, kind, offset⟩] := rfl

@[simp] theorem membersOf_dict (name : CString) (children : List (Property Kind)) :
    membersOf (dictProperty name children) = members children := rfl

/-- A property whose member has the data is present. -/
def Kind.present : (kind : Kind) → kind.Data → Bool
  | .bool, value => value = 0 || value = 1
  | .string, value => value.isSome
  | _, _ => true

/-- The value of a property that is present. -/
def Kind.value : (kind : Kind) → kind.Data → Marshal.Variant
  | .bool, value => .scalar (.boolean value.toUInt32)
  | .int, value => .scalar (.int32 value)
  | .uint, value => .scalar (.uint32 value)
  | .int16, value => .scalar (.int16 value)
  | .uint16, value => .scalar (.uint16 value)
  | .int64, value => .scalar (.int64 value)
  | .uint64, value => .scalar (.uint64 value)
  | .double, bits => .scalar (.double bits)
  | .string, value => .string value
  | .stringArray, strings => .stringArray (strings.map (Option.getD · []))
  | .uuid, octets => .byteArray octets.val

/-- What a member holds after it has been set to the value of another. -/
def Kind.stored : (kind : Kind) → kind.Data → kind.Data → kind.Data
  | .stringArray, strings, held => held ++ strings.map fun string => some (string.getD [])
  | .bool, data, _ | .int, data, _ | .uint, data, _ | .int16, data, _ | .uint16, data, _
  | .int64, data, _ | .uint64, data, _ | .double, data, _ | .string, data, _ | .uuid, data, _ =>
    data

variable (floats : Floats)

theorem ofInt_toNat (value : UInt32) : UInt32.ofInt value.toNat = value := by
  apply UInt32.toNat.inj
  have bound := value.toNat_lt
  simp only [UInt32.ofInt, UInt32.toNat_ofNat']
  omega

theorem get_present (present : kind.present data = true)
    (path : CString) (fn : HandleFn) (offset : Nat) (name : CString) :
    kind.get floats path (genericProperty kind fn offset name) data = .ok (kind.value data) := by
  cases kind
  case bool =>
    simp only [Kind.present, Bool.or_eq_true, decide_eq_true_eq] at present
    rcases present with rfl | rfl <;> rfl
  case string =>
    obtain ⟨value, rfl⟩ := Option.isSome_iff_exists.mp present
    rfl
  case uint =>
    simp [Kind.get, Kind.value, assignInt, genericProperty, Kind.signature, castTo, ofInt_toNat]
  all_goals simp [Kind.get, Kind.value, assignInt, genericProperty, Kind.signature, castTo]

theorem get_absent (absent : kind.present data = false) (path : CString) (fn : HandleFn) (offset : Nat) (name : CString) :
    ∃ error, kind.get floats path (genericProperty kind fn offset name) data =
      .error (some error) ∧ error.name = notPresentName := by
  cases kind
  case bool =>
    simp only [Kind.present, Bool.or_eq_false_iff, decide_eq_false_iff_not] at absent
    exact ⟨propertyNotPresent path name, by simp [Kind.get, absent, genericProperty], rfl⟩
  case string =>
    cases data with
    | none => exact ⟨_, rfl, rfl⟩
    | some value => cases absent
  all_goals cases absent

/-- A setter takes the value that a getter of its kind gives. -/
theorem set_value (present : kind.present data = true) (held : kind.Data) :
    kind.set floats (kind.value data) held = .stored (kind.stored data held) := by
  cases kind
  case bool =>
    simp only [Kind.present, Bool.or_eq_true, decide_eq_true_eq] at present
    rcases present with rfl | rfl <;> rfl
  case uuid => simp [Kind.set, Kind.value, Kind.stored, data.2]
  case uint => simp [Kind.set, Kind.value, Kind.stored, castFrom, ofInt_toNat]
  all_goals simp [Kind.set, Kind.value, Kind.stored, castFrom]

theorem stored_replaces (other : kind ≠ .stringArray) (data held : kind.Data) : kind.stored data held = data := by
  cases kind
  case stringArray => exact absurd rfl other
  all_goals rfl

end Values

section Entries

def Object.data (object : Object class') (member : Member) : Option member.kind.Data :=
  (object.handle member.fn).map fun struct => struct member.kind member.offset

/-- The data of a member that is a property which is present. -/
def Object.held (object : Object class') (member : Member) : Option member.kind.Data :=
  (object.data member).filter member.kind.present

/-- The value of the property that a member is, if it is present. -/
def Object.value (object : Object class') (member : Member) : Option Marshal.Variant :=
  (object.held member).map member.kind.value

mutual

/-- The value of a generic property, if it is present. A dictionary is present if it has entries. -/
def entryOf (object : Object class') : Property Kind → Option Marshal.Variant
  | ⟨_, _, _, _, some children, _, _⟩ =>
    let inner := entries object children
    if inner.isEmpty then none else some (.dict inner)
  | ⟨_, _, some fn, offset, none, some kind, _⟩ => object.value ⟨fn, kind, offset⟩
  | _ => none

/-- The dictionary that a table makes of an object. -/
def entries (object : Object class') : List (Property Kind) → List (CString × Marshal.Variant)
  | [] => []
  | property :: rest =>
    ((entryOf object property).map fun value => (property.name, value)).toList ++
      entries object rest

end

@[simp] theorem entryOf_generic (object : Object class') (kind : Kind) (fn : HandleFn) (offset : Nat) (name : CString) :
    entryOf object (genericProperty kind fn offset name) = object.value ⟨fn, kind, offset⟩ := rfl

@[simp] theorem entryOf_dict (object : Object class') (name : CString) (children : List (Property Kind)) :
    entryOf object (dictProperty name children) =
      if (entries object children).isEmpty then none else some (.dict (entries object children)) := by
  rw [dictProperty, entryOf]

variable (floats : Floats) (object : Object class')

variable {object} {kind : Kind} {offset : Nat}

theorem genericGet_present (present : object.value ⟨fn, kind, offset⟩ = some value) (name : CString) :
    genericGet floats kind (genericProperty kind fn offset name) object = .ok value := by
  obtain ⟨data, held, rfl⟩ := Option.map_eq_some_iff.mp present
  obtain ⟨held, there⟩ := Option.filter_eq_some_iff.mp held
  obtain ⟨struct, handle, rfl⟩ := Option.map_eq_some_iff.mp held
  have read : readStruct object (genericProperty kind fn offset name) = .ok struct := by
    simp [readStruct, getHandle, handle]
  simp only [genericGet, read, bind, Except.bind]
  exact get_present floats there object.path fn offset name

theorem genericGet_absent (absent : object.value ⟨fn, kind, offset⟩ = none) (name : CString) :
    ∃ error, genericGet floats kind (genericProperty kind fn offset name) object =
      .error (some error) ∧ error.name = notPresentName := by
  cases handle : object.handle fn with
  | none =>
    refine ⟨(class'.missing fn).getD (propertyNotPresent object.path name), ?_, ?_⟩
    · simp [genericGet, readStruct, getHandle, handle, bind, Except.bind]
    · cases missing : class'.missing fn with
      | none => rfl
      | some error => exact class'.silent fn error missing
  | some struct =>
    have there : kind.present (struct kind offset) = false := by
      simpa [Object.value, Object.held, Object.data, handle, Option.filter] using absent
    have read : readStruct object (genericProperty kind fn offset name) = .ok struct := by
      simp [readStruct, getHandle, handle]
    simp only [genericGet, read, bind, Except.bind]
    exact get_absent floats there object.path fn offset name

variable {floats}

theorem evaluate_generic (name : CString) :
    evaluate (handlers floats class') object (genericProperty kind fn offset name) =
      .ok (object.value ⟨fn, kind, offset⟩) := by
  have typed : canInitSignature kind.signature = true := by cases kind <;> rfl
  rw [evaluate_eq, genericProperty_childTable]
  cases value : object.value ⟨fn, kind, offset⟩ with
  | some value =>
    have got := genericGet_present floats value name
    simp [evaluateLeaf, getOneProperty, typed, handlers, got]
  | none =>
    obtain ⟨error, got, ignored⟩ := genericGet_absent floats value name
    simp [evaluateLeaf, getOneProperty, typed, handlers, got, isNotPresent, ignored]

theorem evaluateAll_eq (table : IsTable properties) :
    evaluateAll (handlers floats class') object properties = .ok (entries object properties) := by
  induction table with
  | nil => rfl
  | generic kind fn offset own later ih =>
    simp [evaluateAll, evaluate_generic, ih, entries, bind, Except.bind, pure, Except.pure]
  | @dict name children rest inner own later ihInner ih =>
    have here : evaluate (handlers floats class') object (dictProperty name children) =
        .ok (entryOf object (dictProperty name children)) := by
      rw [evaluate_eq, dictProperty_childTable, entryOf_dict]
      simp [ihInner, bind, Except.bind, pure, Except.pure]
    simp [evaluateAll, here, ih, entries, bind, Except.bind, pure, Except.pure]

/-- The properties of a table begin with `ni_dbus_generic_property_read_handle`. -/
theorem absentWithoutHandle (table : IsTable properties) :
    AbsentWithoutHandle (handlers floats class') object properties := by
  refine absentWithoutHandle_of_generic ?_ ?_ ?_
  · intro property within
    rcases table.within within with ⟨kind, fn, offset, name, rfl⟩ | ⟨name, children, rfl⟩
    · cases kind <;> rfl
    · rfl
  · intro property within fn owner error failed get
    cases called : object.handle fn with
    | some struct =>
      simp [handlers, getHandle, called, Except.map, readHandle] at failed
    | none =>
      have same : some ((class'.missing fn).getD (propertyNotPresent object.path property.name)) =
          error := by
        simpa [handlers, getHandle, called, Except.map, readHandle] using failed
      simp [handlers, genericGet, readStruct, owner, getHandle, called, bind, Except.bind, ← same]
  · intro fn error failed
    cases called : object.handle fn with
    | some struct => simp [handlers, getHandle, called, Except.map] at failed
    | none =>
      refine class'.silent fn error ?_
      simpa [handlers, getHandle, called, Except.map] using failed

/-- The dictionary of an object has each property that is present. -/
theorem getDict_eq (floats : Floats) (object : Object class') (table : Table) :
    getDict floats object table = .ok (entries object table.val) := by
  have absent : AbsentWithoutHandle (handlers floats class') object table.val := absentWithoutHandle table.2
  rw [getDict, getPropertiesAsDict, getPropertiesFrom_eq absent nothing_remembered, evaluateAll_eq table.2]
  rfl

end Entries

/-! ## An object that is given the dictionary of another -/

variable {member : Member}

section Copies

/-- What a member holds, of a structure that write access makes if it is not there. -/
def Object.current (object : Object class') (member : Member) : member.kind.Data :=
  writeHandle object member.fn member.kind member.offset

def Object.store (object : Object class') (member : Member) (data : member.kind.Data) : Object class' :=
  object.put member.fn ((writeHandle object member.fn).write member.kind member.offset data)

/-- A member is set to what it is in another object, if it is present there. -/
def copyMember (source object : Object class') (member : Member) : Object class' :=
  match source.held member with
  | some data => object.store member (member.kind.stored data (object.current member))
  | none => object

/-- Every member of a list is set to what it is in another object. -/
def copyAll (source : Object class') (list : List Member) (object : Object class') : Object class' :=
  list.foldl (copyMember source) object

@[simp] theorem copyAll_nil (source object : Object class') : copyAll source [] object = object := rfl

@[simp] theorem copyAll_cons (source : Object class') (member : Member) (list : List Member) (object : Object class') :
    copyAll source (member :: list) object = copyAll source list (copyMember source object member) := rfl

theorem copyAll_append (source : Object class') (first second : List Member) (object : Object class') :
    copyAll source (first ++ second) object = copyAll source second (copyAll source first object) := List.foldl_append

theorem copyMember_held (held : source.held member = some data) (object : Object class') :
    copyMember source object member = object.store member (member.kind.stored data (object.current member)) := by
  rw [copyMember, held]

theorem copyMember_absent (absent : source.held member = none) (object : Object class') :
    copyMember source object member = object := by
  rw [copyMember, absent]

variable (floats : Floats)

theorem genericSet_value (held : source.held ⟨fn, kind, offset⟩ = some data) (name : CString) (object : Object class') :
    genericSet floats kind (genericProperty kind fn offset name) (kind.value data) object =
      some (true, copyMember source object ⟨fn, kind, offset⟩) := by
  have present : kind.present data = true := (Option.filter_eq_some_iff.mp held).2
  rw [copyMember_held held]
  simp [genericSet, set_value floats present, Object.store, Object.current]

/-- What is set of the dictionary that a table makes of an object is each member that is present in
it. -/
theorem setProperties_eq (source : Object class') (table : IsTable properties)
    (found : ∀ property ∈ properties, whole.find? (fun other => other.name = property.name) = some property)
    (object : Object class') :
    setProperties floats whole object (entries source properties) =
      some (copyAll source (members properties) object) := by
  induction table generalizing whole object with
  | nil => rfl
  | @generic kind fn offset name rest own later ih =>
    have here := found _ List.mem_cons_self
    have rest := fun object => ih (fun property member =>
      found property (List.mem_cons_of_mem _ member)) object
    rw [genericProperty_name] at here
    rw [entries, members, entryOf_generic, membersOf_generic]
    cases held : source.held ⟨fn, kind, offset⟩ with
    | none => simp [Object.value, held, copyMember_absent, rest]
    | some data =>
      have value : source.value ⟨fn, kind, offset⟩ = some (kind.value data) := by
        simp [Object.value, held]
      simp [value, setProperties, setProperty, here, genericSet_value floats held, rest]
  | @dict name children rest inner own later ihInner ih =>
    have here := found _ List.mem_cons_self
    have rest := fun object => ih (fun property member =>
      found property (List.mem_cons_of_mem _ member)) object
    have below := ihInner (fun property member => inner.find? member) object
    rw [dictProperty_name] at here
    rw [entries, members, entryOf_dict, membersOf_dict, copyAll_append]
    cases nested : entries source children with
    | nil =>
      rw [nested, setProperties] at below
      simp [← Option.some.inj below, rest]
    | cons entry others =>
      have step : setProperty floats whole object name (.dict (entry :: others)) =
          some (copyAll source (members children) object) := by
        rw [setProperty, here, ← below, nested]
        rfl
      simp [setProperties, step, rest]

theorem setPropertiesFromDict_eq (source object : Object class') (table : Table) :
    setPropertiesFromDict floats object table (entries source table.val) =
      some (copyAll source (members table.val) object) :=
  setProperties_eq floats source table.2 (fun _ member => table.2.find? member) object

end Copies

section Stores

variable {object source : Object class'} {member other : Member}

theorem current_store (data : member.kind.Data) : (object.store member data).current member = data := by
  simp [Object.current, Object.store, Object.put, writeHandle, Struct.write]

theorem current_store_of_ne (different : other ≠ member) (data : member.kind.Data) :
    (object.store member data).current other = object.current other := by
  obtain ⟨fn, kind, offset⟩ := member
  obtain ⟨otherFn, otherKind, otherOffset⟩ := other
  simp only [Object.current, Object.store, Object.put, writeHandle]
  by_cases sameFn : otherFn = fn
  · subst sameFn
    simp only [Function.update_self, Option.getD_some, Struct.write]
    by_cases sameKind : otherKind = kind
    · subst sameKind
      have offsets : otherOffset ≠ offset := fun same => different (by rw [same])
      simp [offsets]
    · simp [sameKind]
  · simp [sameFn]

theorem handle_store (data : member.kind.Data) (fn : HandleFn) :
    ((object.store member data).handle fn).isSome ↔ (object.handle fn).isSome ∨ member.fn = fn := by
  simp only [Object.store, Object.put]
  by_cases same : fn = member.fn
  · simp [same]
  · simp [same, Ne.symm same]

theorem store_current (there : (object.handle member.fn).isSome) :
    object.store member (object.current member) = object := by
  obtain ⟨struct, handle⟩ := Option.isSome_iff_exists.mp there
  have same : (writeHandle object member.fn).write member.kind member.offset (object.current member) = struct := by
    simp [Struct.write, Object.current, writeHandle, handle]
  rw [Object.store, same]
  obtain ⟨path, handles, own⟩ := object
  simp only [Object.put, Object.mk.injEq, true_and]
  exact handle ▸ Function.update_eq_self member.fn handles

theorem held_iff {data : member.kind.Data} :
    object.held member = some data ↔
      (object.handle member.fn).isSome ∧ object.current member = data ∧ member.kind.present data = true := by
  simp only [Object.held, Option.filter_eq_some_iff, Object.data, Option.map_eq_some_iff, Object.current, writeHandle]
  cases object.handle member.fn <;> simp

end Stores

section Runs

variable {source : Object class'}

theorem handle_copyMember (object : Object class') (member : Member) (fn : HandleFn) :
    ((copyMember source object member).handle fn).isSome ↔
      (object.handle fn).isSome ∨ member.fn = fn ∧ (source.held member).isSome := by
  cases held : source.held member with
  | none => simp [copyMember_absent held]
  | some data => simp [copyMember_held held, handle_store]

/-- The structures that are made are those of the members that are present. -/
theorem handle_copyAll (object : Object class') (fn : HandleFn) :
    ((copyAll source list object).handle fn).isSome ↔
      (object.handle fn).isSome ∨ ∃ member ∈ list, member.fn = fn ∧ (source.held member).isSome := by
  induction list generalizing object with
  | nil => simp
  | cons head rest ih => simp [ih, handle_copyMember, or_assoc]

theorem current_copyMember_of_ne (different : member ≠ other) (object : Object class') :
    (copyMember source object other).current member = object.current member := by
  cases held : source.held other with
  | none => rw [copyMember_absent held]
  | some data => rw [copyMember_held held, current_store_of_ne different]

theorem current_copyMember (held : source.held member = some data) (object : Object class') :
    (copyMember source object member).current member = member.kind.stored data (object.current member) := by
  rw [copyMember_held held, current_store]

theorem current_copyAll_absent (absent : source.held member = none) (object : Object class') :
    (copyAll source list object).current member = object.current member := by
  induction list generalizing object with
  | nil => rfl
  | cons head rest ih =>
    rw [copyAll_cons, ih]
    by_cases same : member = head
    · subst same; rw [copyMember_absent absent]
    · exact current_copyMember_of_ne same object

theorem current_copyAll_settled (held : source.held member = some data)
    (settled : member.kind.stored data (object.current member) = object.current member) :
    (copyAll source list object).current member = object.current member := by
  induction list generalizing object with
  | nil => rfl
  | cons head rest ih =>
    have step : (copyMember source object head).current member = object.current member := by
      by_cases same : member = head
      · subst same; rw [current_copyMember held, settled]
      · exact current_copyMember_of_ne same object
    rw [copyAll_cons, ih (by rw [step, settled]), step]

theorem current_copyAll_replaced (held : source.held member = some data)
    (replaced : member.kind ≠ .stringArray) (listed : member ∈ list) (object : Object class') :
    (copyAll source list object).current member = data := by
  induction list generalizing object with
  | nil => cases listed
  | cons head rest ih =>
    rw [copyAll_cons]
    rcases List.mem_cons.mp listed with rfl | later
    · have step : (copyMember source object member).current member = data := by
        rw [current_copyMember held, stored_replaces replaced]
      rw [current_copyAll_settled held (by rw [step, stored_replaces replaced]), step]
    · exact ih later _

theorem copyAll_idle (settled : ∀ member ∈ list, ∀ data, source.held member = some data →
      (object.handle member.fn).isSome ∧ member.kind.stored data (object.current member) = object.current member) :
    copyAll source list object = object := by
  induction list with
  | nil => rfl
  | cons head rest ih =>
    have step : copyMember source object head = object := by
      cases held : source.held head with
      | none => exact copyMember_absent held object
      | some data =>
        obtain ⟨there, same⟩ := settled head List.mem_cons_self data held
        rw [copyMember_held held, same, store_current there]
    rw [copyAll_cons, step]
    exact ih fun member later => settled member (List.mem_cons_of_mem _ later)

section Arrays

variable {offset : Nat}

/-- A member that is an array of strings. -/
abbrev arrayMember (fn : HandleFn) (offset : Nat) : Member := ⟨fn, .stringArray, offset⟩

/-- An array grows by the strings of the other object each time that it is set. -/
theorem current_copyAll_array (list : List Member)
    (held : source.held (arrayMember fn offset) = some strings) (object : Object class') :
    (copyAll source list object).current (arrayMember fn offset) =
      object.current (arrayMember fn offset) ++ (List.replicate (list.count (arrayMember fn offset))
        (strings.map fun string => some (string.getD []))).flatten := by
  induction list generalizing object with
  | nil => simp
  | cons head rest ih =>
    rw [copyAll_cons, ih, List.count_cons]
    by_cases same : head = arrayMember fn offset
    · subst same
      rw [current_copyMember held]
      simp [Kind.stored, List.replicate_succ]
    · rw [current_copyMember_of_ne (Ne.symm same)]
      simp [same]

end Arrays

end Runs

section RoundTrips

variable (floats : Floats)

/-- The dictionary of an object is set on a fresh object of the class, which has the same dictionary
then. -/
def Restores (table : Table) (source : Object class') (path : CString) : Prop :=
  ∃ dict copy, getDict floats source table = .ok dict ∧
    setPropertiesFromDict floats (fresh class' path) table dict = some copy ∧
    getDict floats copy table = .ok dict

/-- The dictionary of an object is set on a fresh object of the class, which is not changed when it is set
again. -/
def Settles (table : Table) (source : Object class') (path : CString) : Prop :=
  ∃ dict copy, getDict floats source table = .ok dict ∧
    setPropertiesFromDict floats (fresh class' path) table dict = some copy ∧
    setPropertiesFromDict floats copy table dict = some copy

/-- An array of strings that is a property has none in the structure as it is made, and is one property of the
table if it has some in the object. A property that is not present in the object is not present in its
structure as it is made, if a fresh object has this or gets it with another property. -/
structure Restorable (table : Table) (source : Object class') : Prop where
  arrays : ∀ fn offset strings, arrayMember fn offset ∈ members table.val →
    source.held (arrayMember fn offset) = some strings →
      class'.made fn .stringArray offset = [] ∧
        (strings = [] ∨ (members table.val).count (arrayMember fn offset) = 1)
  absent : ∀ member ∈ members table.val, source.held member = none →
    (class'.own member.fn ∨
      ∃ other ∈ members table.val, other.fn = member.fn ∧ (source.held other).isSome) →
      member.kind.present (class'.made member.fn member.kind member.offset) = false

theorem key_mem (member : (key, value) ∈ entries object properties) : key ∈ properties.map Property.name := by
  induction properties with
  | nil => cases member
  | cons property rest ih =>
    rw [entries, List.mem_append] at member
    rcases member with here | later
    · simp only [Option.mem_toList, Option.map_eq_some_iff, Prod.mk.injEq] at here
      obtain ⟨_, _, rfl, _⟩ := here
      exact List.mem_cons_self
    · exact List.mem_cons_of_mem _ (ih later)

/-- A dictionary says what the first property is, and what the others are. -/
theorem entries_cons_inj (own : property.name ∉ rest.map Property.name) :
    entries first (property :: rest) = entries second (property :: rest) ↔
      entryOf first property = entryOf second property ∧ entries first rest = entries second rest := by
  rw [entries, entries]
  constructor
  · intro same
    cases here : entryOf first property with
    | none =>
      cases there : entryOf second property with
      | none => simpa [here, there] using same
      | some value =>
        have found : (property.name, value) ∈ entries first rest := by
          simp [here, there] at same
          simp [same]
        exact absurd (key_mem found) own
    | some value =>
      cases there : entryOf second property with
      | none =>
        have found : (property.name, value) ∈ entries second rest := by
          simp [here, there] at same
          simp [← same]
        exact absurd (key_mem found) own
      | some other => simpa [here, there] using same
  · rintro ⟨here, later⟩
    rw [here, later]

theorem entries_inj (table : IsTable properties) :
    entries first properties = entries second properties ↔
      ∀ member ∈ members properties, first.value member = second.value member := by
  induction table with
  | nil => simp [entries, members]
  | generic kind fn offset own later ih =>
    rw [entries_cons_inj own, ih]
    simp [members]
  | @dict name children rest inner own later ihInner ih =>
    have nested : entryOf first (dictProperty name children) =
        entryOf second (dictProperty name children) ↔ entries first children = entries second children := by
      rw [entryOf_dict, entryOf_dict]
      cases entries first children <;> cases entries second children <;> simp
    rw [entries_cons_inj own, ih, nested, ihInner]
    simp [members, or_imp, forall_and]

theorem current_fresh (path : CString) (member : Member) :
    (fresh class' path).current member = class'.made member.fn member.kind member.offset := by
  simp only [Object.current, writeHandle, fresh]
  split <;> rfl

theorem handle_fresh (path : CString) (fn : HandleFn) : ((fresh class' path).handle fn).isSome ↔ class'.own fn := by
  simp only [fresh]
  split <;> simp_all

/-- What a fresh object becomes. -/
def copyOf (table : Table) (source : Object class') (path : CString) : Object class' :=
  copyAll source (members table.val) (fresh class' path)

theorem handle_copyOf (table : Table) (source : Object class') (path : CString) (fn : HandleFn) :
    ((copyOf table source path).handle fn).isSome ↔
      class'.own fn ∨ ∃ member ∈ members table.val, member.fn = fn ∧ (source.held member).isSome := by
  rw [copyOf, handle_copyAll, handle_fresh]

/-- A member that is not present is in the copy as the class makes it. -/
theorem current_copyOf_absent {source : Object class'}
    (absent : source.held member = none) (table : Table) (path : CString) :
    (copyOf table source path).current member = class'.made member.fn member.kind member.offset := by
  rw [copyOf, current_copyAll_absent absent, current_fresh]

theorem restores_iff_copyOf (table : Table) (source : Object class') (path : CString) :
    Restores floats table source path ↔
      ∀ member ∈ members table.val, (copyOf table source path).value member = source.value member := by
  rw [← entries_inj table.2]
  constructor
  · rintro ⟨dict, copy, got, set, again⟩
    obtain rfl : entries source table.val = dict := by
      simpa [getDict_eq] using got
    rw [setPropertiesFromDict_eq] at set
    obtain rfl := Option.some.inj set
    simpa [getDict_eq, copyOf] using again
  · intro same
    refine ⟨entries source table.val, copyOf table source path, getDict_eq floats source table,
      setPropertiesFromDict_eq floats source _ table, ?_⟩
    rw [getDict_eq, same]

theorem settles_iff_copyOf (table : Table) (source : Object class') (path : CString) :
    Settles floats table source path ↔
      copyAll source (members table.val) (copyOf table source path) = copyOf table source path := by
  constructor
  · rintro ⟨dict, copy, got, set, twice⟩
    obtain rfl : entries source table.val = dict := by
      simpa [getDict_eq] using got
    rw [setPropertiesFromDict_eq] at set twice
    obtain rfl := Option.some.inj set
    exact Option.some.inj twice
  · intro idle
    refine ⟨entries source table.val, copyOf table source path, getDict_eq floats source table,
      setPropertiesFromDict_eq floats source _ table, ?_⟩
    rw [setPropertiesFromDict_eq, idle]

variable {source : Object class'}

/-- What a fresh object holds for an array of strings. -/
theorem current_copyOf_array (held : source.held (arrayMember fn offset) = some strings) (table : Table) (path : CString) :
    (copyOf table source path).current (arrayMember fn offset) = class'.made fn .stringArray offset ++
      (List.replicate ((members table.val).count (arrayMember fn offset))
        (strings.map fun string => some (string.getD []))).flatten := by
  rw [copyOf, current_copyAll_array _ held, current_fresh]

theorem handle_copyOf_held {data : member.kind.Data} (listed : member ∈ members table.val)
    (held : source.held member = some data) (path : CString) :
    ((copyOf table source path).handle member.fn).isSome :=
  (handle_copyOf table source path member.fn).mpr (.inr ⟨member, listed, rfl, by simp [held]⟩)

theorem held_copyOf_array (listed : arrayMember fn offset ∈ members table.val)
    (held : source.held (arrayMember fn offset) = some strings) (path : CString) :
    (copyOf table source path).held (arrayMember fn offset) =
      some ((copyOf table source path).current (arrayMember fn offset)) :=
  held_iff.mpr ⟨handle_copyOf_held listed held path, rfl, rfl⟩

theorem Restorable.restores (restorable : Restorable table source) (path : CString) :
    Restores floats table source path := by
  rw [restores_iff_copyOf]
  intro member listed
  cases held : source.held member with
  | some data =>
    by_cases replaced : member.kind = .stringArray
    · obtain ⟨fn, kind, offset⟩ := member
      cases replaced
      obtain ⟨made, single⟩ := restorable.arrays fn offset data listed held
      rw [Object.value, Object.value, held_copyOf_array listed held, held, current_copyOf_array held, made]
      rcases single with rfl | once
      · simp
      · simp [once, Kind.value, Function.comp_def]
    · have present : (copyOf table source path).held member = some data :=
        held_iff.mpr ⟨handle_copyOf_held listed held path, current_copyAll_replaced held replaced listed _,
          (held_iff.mp held).2.2⟩
      rw [Object.value, Object.value, present, held]
  | none =>
    have absent : (copyOf table source path).held member = none := by
      refine Option.eq_none_iff_forall_ne_some.mpr fun data present => ?_
      obtain ⟨there, same, present⟩ := held_iff.mp present
      have made := current_copyOf_absent held table path
      have hidden := restorable.absent member listed held ((handle_copyOf table source path member.fn).mp there)
      rw [← made, same, present] at hidden
      cases hidden
    rw [Object.value, Object.value, absent, held]

theorem restorable_of_restores {path : CString} (restores : Restores floats table source path) :
    Restorable table source := by
  have same := (restores_iff_copyOf floats table source path).mp restores
  constructor
  · intro fn offset strings listed held
    have times : 0 < (members table.val).count (arrayMember fn offset) := List.count_pos_iff.mpr listed
    have values := same _ listed
    rw [Object.value, Object.value, held_copyOf_array listed held, held, current_copyOf_array held] at values
    have lengths : (class'.made fn .stringArray offset).length +
        (members table.val).count (arrayMember fn offset) * strings.length = strings.length := by
      simpa [Kind.value, arrayLen] using congrArg arrayLen (Option.some.inj values)
    obtain ⟨more, several⟩ := Nat.exists_eq_add_of_le' times
    rw [several, Nat.add_mul] at lengths
    obtain ⟨made, again⟩ := Nat.add_eq_zero_iff.mp
      (show (class'.made fn .stringArray offset).length + more * strings.length = 0 by omega)
    refine ⟨List.length_eq_zero_iff.mp made, (Nat.mul_eq_zero.mp again).symm.imp List.length_eq_zero_iff.mp ?_⟩
    rintro rfl
    exact several
  · intro member listed absent available
    have there := (handle_copyOf table source path member.fn).mpr available
    refine Bool.eq_false_iff.mpr fun present => ?_
    have copied := held_iff.mpr ⟨there, current_copyOf_absent absent table path, present⟩
    have values := same member listed
    simp [Object.value, copied, absent] at values

/-- A second time adds the strings of an array again, and nothing else. -/
theorem settles_iff (table : Table) (source : Object class') (path : CString) :
    Settles floats table source path ↔ ∀ fn offset strings, arrayMember fn offset ∈ members table.val →
      source.held (arrayMember fn offset) = some strings → strings = [] := by
  rw [settles_iff_copyOf]
  constructor
  · intro idle fn offset strings listed held
    have times : 0 < (members table.val).count (arrayMember fn offset) := List.count_pos_iff.mpr listed
    have twice := current_copyAll_array (members table.val) held (copyOf table source path)
    rw [idle] at twice
    have nothing := List.append_right_eq_self.mp twice.symm
    rw [List.flatten_eq_nil_iff] at nothing
    exact List.map_eq_nil_iff.mp (nothing _ (List.mem_replicate.mpr ⟨by omega, rfl⟩))
  · intro empty
    refine copyAll_idle fun member listed data held => ⟨handle_copyOf_held listed held path, ?_⟩
    by_cases replaced : member.kind = .stringArray
    · obtain ⟨fn, kind, offset⟩ := member
      cases replaced
      obtain rfl := empty fn offset data listed held
      exact List.append_nil _
    · rw [stored_replaces replaced]
      exact (current_copyAll_replaced held replaced listed _).symm

/-- A fresh object that is given the dictionary of another has the same one exactly if the other is restorable,
and is not changed by it a second time exactly if no array of strings in it has any. -/
theorem roundTrips_iff (table : Table) (source : Object class') (path : CString) :
    (Restores floats table source path ↔ Restorable table source) ∧
      (Settles floats table source path ↔ ∀ fn offset strings, arrayMember fn offset ∈ members table.val →
        source.held (arrayMember fn offset) = some strings → strings = []) :=
  ⟨⟨restorable_of_restores floats, fun restorable => restorable.restores floats path⟩,
    settles_iff floats table source path⟩

end RoundTrips

/-! ## A host with capabilities -/

def zeroStruct : Struct
  | .bool, _ | .int, _ | .uint, _ | .int16, _ | .uint16, _ => 0
  | .int64, _ | .uint64, _ | .double, _ => 0
  | .string, _ => none
  | .stringArray, _ => []
  | .uuid, _ => ⟨List.replicate 16 0, rfl⟩

def hostClass : Class where
  own _ := true
  made _ := zeroStruct
  missing _ := none
  silent := nofun

def hostTable : Table :=
  ⟨[genericProperty .bool 0 0 (ascii "ready".toList),
      genericProperty .stringArray 0 8 (ascii "capabilities".toList)],
    .generic _ _ _ (by decide) (.generic _ _ _ (by decide) .nil)⟩

def host (ready : UInt8) (capabilities : List (Option CString)) : Object hostClass where
  path := ascii "/org/opensuse/Testbus/Host/h1".toList
  handle _ := some ((zeroStruct.write .bool 0 ready).write .stringArray 8 capabilities)
  own _ _ := rfl

def noFloats : Floats where
  toInt _ := 0
  ofInt _ := 0

/-- The capabilities are there twice in the end. -/
theorem capabilities_twice : ¬ Settles noFloats hostTable (host 1 [some (ascii "rpm".toList)]) [] := by
  intro settles
  have idle := (settles_iff_copyOf _ _ _ _).mp settles
  have twice := congrArg (fun object => (object.current (arrayMember 0 8)).length) idle
  exact absurd twice (by decide)

/-- A boolean that is neither 0 nor 1 is left out, and is `FALSE` in the copy. -/
example : ¬ Restores noFloats hostTable (host 255 []) [] := by
  intro restores
  have same := (restores_iff_copyOf _ _ _ _).mp restores
  have ready := congrArg Option.isSome (same ⟨0, .bool, 0⟩ (by decide))
  exact absurd ready (by decide)

end Testbus.Dbus.Generic
