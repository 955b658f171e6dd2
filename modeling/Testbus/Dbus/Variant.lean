import Testbus.Buffer

namespace Testbus.Dbus

/-- `struct ni_dbus_variant`, by its type. A string may be `NULL`. The types that no
modelled function sets or asks for are `other`. -/
inductive Variant
  | invalid
  | string (value : Option CString)
  | boolean (value : Bool)
  | uint32 (value : UInt32)
  | uint64 (value : UInt64)
  | byteArray (bytes : Bytes)
  | stringArray (strings : List CString)
  | dict (entries : List (String × Variant))
  | dictArray (dicts : List Variant)
  | other (signature : String) (len : Nat)

namespace Variant

/-- `array.len`, which is zero for a value that has no elements. -/
def arrayLen : Variant → Nat
  | byteArray bytes => bytes.length
  | stringArray strings => strings.length
  | dict entries => entries.length
  | dictArray dicts => dicts.length
  | other _ len => len
  | _ => 0

def getString : Variant → Option (Option CString)
  | string value => some value
  | _ => none

def getBool : Variant → Option Bool
  | boolean value => some value
  | _ => none

def getUint32 : Variant → Option UInt32
  | uint32 value => some value
  | _ => none

def getUint64 : Variant → Option UInt64
  | uint64 value => some value
  | _ => none

/-- `ni_dbus_variant_set_string_array` stores an empty string for a `NULL`. -/
def ofStringArray (data : List (Option CString)) : Variant :=
  stringArray (data.map fun s => s.getD [])

/-- The strings are appended to the array the caller has. -/
def getStringArray (array : List (Option CString)) : Variant → Option (List (Option CString))
  | stringArray strings => some (array ++ strings.map some)
  | _ => none

end Variant

/-- `ni_dbus_dict_add`: only a dictionary takes entries. -/
def dictAdd (key : String) (datum : Variant) : Variant → Variant
  | .dict entries => .dict (entries ++ [(key, datum)])
  | var => var

def dictGet (key : String) : Variant → Option Variant
  | .dict entries => (entries.find? fun entry => entry.1 = key).map Prod.snd
  | _ => none

@[simp] theorem dictAdd_dict (key : String) (datum : Variant) (entries : List (String × Variant)) :
    dictAdd key datum (.dict entries) = .dict (entries ++ [(key, datum)]) := rfl

@[simp] theorem dictGet_dict (key : String) (entries : List (String × Variant)) :
    dictGet key (.dict entries) = (entries.find? fun entry => entry.1 = key).map Prod.snd := rfl

def dictGetString (key : String) (dict : Variant) : Option (Option CString) :=
  (dictGet key dict).bind Variant.getString

def dictGetBool (key : String) (dict : Variant) : Option Bool :=
  (dictGet key dict).bind Variant.getBool

def dictGetUint32 (key : String) (dict : Variant) : Option UInt32 :=
  (dictGet key dict).bind Variant.getUint32

def dictGetUint64 (key : String) (dict : Variant) : Option UInt64 :=
  (dictGet key dict).bind Variant.getUint64

/-- No type is asked for. The bytes that the elements of anything but a byte array would
be read as are left to `raw`. -/
def dictGetByteArrayBuffer (raw : Variant → Nat → UInt8) (key : String) (dict : Variant) : Option NiBuffer :=
  (dictGet key dict).map fun var =>
    let res := NiBuffer.new var.arrayLen
    res.put (match var with
      | .byteArray bytes => bytes
      | var => (List.range var.arrayLen).map (raw var))

def dictArrayAt (index : Nat) : Variant → Option Variant
  | .dictArray dicts => dicts[index]?
  | _ => none

end Testbus.Dbus
