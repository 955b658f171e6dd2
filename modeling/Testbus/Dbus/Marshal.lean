import Testbus.Buffer

namespace Testbus.Dbus.Marshal

abbrev Signature := List Char

/-- The fixed-size types; a double is its eight bytes, and a boolean a `dbus_bool_t`. -/
inductive Scalar
  | byte (value : UInt8)
  | boolean (value : UInt32)
  | int16 (value : Int16)
  | uint16 (value : UInt16)
  | int32 (value : Int32)
  | uint32 (value : UInt32)
  | int64 (value : Int64)
  | uint64 (value : UInt64)
  | double (bits : UInt64)
  deriving DecidableEq

def Scalar.type : Scalar → Char
  | .byte _ => 'y'
  | .boolean _ => 'b'
  | .int16 _ => 'n'
  | .uint16 _ => 'q'
  | .int32 _ => 'i'
  | .uint32 _ => 'u'
  | .int64 _ => 'x'
  | .uint64 _ => 't'
  | .double _ => 'd'

/-- What libdbus takes: a boolean is 0 or 1. -/
def Scalar.valid : Scalar → Bool
  | .boolean value => value ≤ 1
  | _ => true

/-- `struct ni_dbus_variant`. A string that was not set is `NULL`. The array of arrays is the one
with an `element_signature`, which is `a` and the `inner` signature. A variant array that was
initialized from the signature `av` is written as the other one is. An array of any other basic type
is begun by `ni_dbus_variant_init_signature` and has no elements, as nothing appends to it. -/
inductive Variant
  | invalid
  | scalar (value : Scalar)
  | string (value : Option CString)
  | objectPath (value : Option CString)
  | byteArray (bytes : List UInt8)
  | stringArray (strings : List CString)
  | objectPathArray (paths : List CString)
  | basicArray (type : Char)
  | variantArray (elements : List Variant)
  | dict (entries : List (CString × Variant))
  | arrayArray (inner : Signature) (elements : List Variant)
  | struct (members : List Variant)

def dictEntrySignature : Signature := ['{', 's', 'v', '}']

/-- What libdbus has in a message. -/
inductive Value
  | scalar (value : Scalar)
  | string (value : CString)
  | objectPath (value : CString)
  | array (elementSignature : Signature) (elements : List Value)
  | struct (fields : List Value)
  | dictEntry (key : CString) (value : Value)
  | variant (value : Value)

mutual

def Value.signature : Value → Signature
  | .scalar value => [value.type]
  | .string _ => ['s']
  | .objectPath _ => ['o']
  | .array elementSignature _ => 'a' :: elementSignature
  | .struct fields => '(' :: (Value.signatures fields ++ [')'])
  | .dictEntry _ value => '{' :: 's' :: (value.signature ++ ['}'])
  | .variant _ => ['v']

def Value.signatures : List Value → Signature
  | [] => []
  | field :: rest => field.signature ++ Value.signatures rest

end

/-- An array takes elements of the signature that it was opened with. -/
def closeArray (elementSignature : Signature) (elements : List Value) : Option Value :=
  if ∀ element ∈ elements, element.signature = elementSignature then
    some (.array elementSignature elements)
  else none

/-- A variant takes one value, of the signature that it was opened with. -/
def closeVariant (signature : Signature) (value : Value) : Option Value :=
  if value.signature = signature then some (.variant value) else none

mutual

/-- `ni_dbus_variant_signature`. The one for an `element_signature` is built in a buffer of 16
characters. -/
def variantSignature : Variant → Option Signature
  | .invalid => none
  | .scalar value => some [value.type]
  | .string _ => some ['s']
  | .objectPath _ => some ['o']
  | .byteArray _ => some ['a', 'y']
  | .stringArray _ => some ['a', 's']
  | .objectPathArray _ | .basicArray _ => none
  | .variantArray _ => some ['a', 'v']
  | .dict _ => some ('a' :: dictEntrySignature)
  | .arrayArray inner _ => some (('a' :: 'a' :: inner).take 15)
  | .struct members => do
    let signatures ← memberSignatures members
    return '(' :: (signatures ++ [')'])

def memberSignatures : List Variant → Option Signature
  | [] => some []
  | member :: rest => do
    let signature ← variantSignature member
    let signatures ← memberSignatures rest
    return signature ++ signatures

end

/-- What `ni_dbus_message_iter_append_value` does around the contents: `none` is a signature that
is `NULL`. -/
def enclose (signature : Option Signature) (variant : Variant) (contents : Option Value) : Option Value :=
  match signature with
  | none => do
    let _ ← variantSignature variant
    contents
  | some ('v' :: _) => do
    let signature ← variantSignature variant
    closeVariant signature (← contents)
  | some _ => contents

mutual

/-- The contents, by type. -/
def appendContents : Variant → Option Value
  | .invalid | .basicArray _ => none
  | .scalar value => if value.valid then some (.scalar value) else none
  | .string value => some (.string (value.getD []))
  | .objectPath value => value.map .objectPath
  | .byteArray bytes => closeArray ['y'] (bytes.map fun byte => .scalar (.byte byte))
  | .stringArray strings => closeArray ['s'] (strings.map .string)
  | .objectPathArray paths => closeArray ['o'] (paths.map .objectPath)
  | .variantArray elements => do
    closeArray ['v'] (← appendValues (some ['v']) elements)
  | .dict entries => do
    closeArray dictEntrySignature (← appendDictEntries entries)
  | .arrayArray inner elements => do
    closeArray ('a' :: inner) (← appendValues (some ('a' :: inner)) elements)
  | .struct members => do
    return .struct (← appendValues none members)

def appendValues (signature : Option Signature) : List Variant → Option (List Value)
  | [] => some []
  | variant :: rest => do
    let value ← enclose signature variant (appendContents variant)
    let values ← appendValues signature rest
    return value :: values

def appendDictEntries : List (CString × Variant) → Option (List Value)
  | [] => some []
  | (key, datum) :: rest => do
    let value ← enclose (some ['v']) datum (appendContents datum)
    let values ← appendDictEntries rest
    return .dictEntry key value :: values

end

def appendVariant (variant : Variant) : Option Value :=
  enclose (some ['v']) variant (appendContents variant)

def getByteArray : List Value → List UInt8
  | .scalar (.byte byte) :: rest => byte :: getByteArray rest
  | _ => []

def getStringArray : List Value → List CString
  | .string value :: rest => value :: getStringArray rest
  | _ => []

def getObjectPathArray : List Value → List CString
  | .objectPath value :: rest => value :: getObjectPathArray rest
  | _ => []

mutual

/-- `ni_dbus_message_iter_get_variant_data`, with `ni_dbus_message_iter_get_array` for arrays. -/
def getVariantData : Value → Option Variant
  | .scalar value => some (.scalar value)
  | .string value => some (.string (some value))
  | .objectPath value => some (.objectPath (some value))
  | .array ('y' :: _) elements => some (.byteArray (getByteArray elements))
  | .array ('s' :: _) elements => some (.stringArray (getStringArray elements))
  | .array ('o' :: _) elements => some (.objectPathArray (getObjectPathArray elements))
  | .array ('{' :: _) elements => some (.dict (getDict elements))
  | .array ('a' :: inner) elements => do
    return .arrayArray inner (← getArrayArray elements)
  | .array ('v' :: _) elements => do
    return .variantArray (← getVariantArray elements)
  | .array _ _ => none
  | .struct fields => do
    return .struct (← getStruct fields)
  | .dictEntry _ _ | .variant _ => none

/-- An entry that cannot be read ends the dictionary. -/
def getDict : List Value → List (CString × Variant)
  | .dictEntry key (.variant value) :: rest =>
    match getVariantData value with
    | some datum => (key, datum) :: getDict rest
    | none => []
  | _ => []

def getArrayArray : List Value → Option (List Variant)
  | .array elementSignature elements :: rest => do
    let element ← getVariantData (.array elementSignature elements)
    return element :: (← getArrayArray rest)
  | _ => some []

def getVariantArray : List Value → Option (List Variant)
  | .variant value :: rest => do
    let element ← getVariantData value
    return element :: (← getVariantArray rest)
  | _ => some []

def getStruct : List Value → Option (List Variant)
  | [] => some []
  | field :: rest => do
    let member ← getVariantData field
    return member :: (← getStruct rest)

end

def getVariant : Value → Option Variant
  | .variant value => getVariantData value
  | _ => none

/-- Append a value as a variant, and read it back. -/
def roundTrip (variant : Variant) : Option Variant := do
  getVariant (← appendVariant variant)

end Testbus.Dbus.Marshal
