import Testbus.Libc
import Testbus.Schema.Types

namespace Testbus.Schema

open Dbus.Marshal

/-- The C library's text of doubles, and the C casts between doubles and integers. A double is
printed to a buffer of 256 characters. -/
structure Doubles where
  strtod : CString → UInt64 × CString
  format : UInt64 → CString
  ofUlong : UInt64 → UInt64
  toUlong : UInt64 → UInt64
  toUint : UInt64 → UInt32
  deriving Inhabited

section Casts

variable (doubles : Doubles)

/-- `ni_dbus_variant_get_ulong`. A `char` is signed. -/
def getUlong : Variant → Option UInt64
  | .scalar (.boolean value) => some value.toUInt64
  | .scalar (.byte value) => some value.toInt8.toInt64.toUInt64
  | .scalar (.int16 value) => some value.toInt64.toUInt64
  | .scalar (.uint16 value) => some value.toUInt64
  | .scalar (.int32 value) => some value.toInt64.toUInt64
  | .scalar (.uint32 value) => some value.toUInt64
  | .scalar (.int64 value) => some value.toUInt64
  | .scalar (.uint64 value) => some value
  | .scalar (.double value) => some (doubles.toUlong value)
  | _ => none

def getUint : Variant → Option UInt32
  | .scalar (.double value) => some (doubles.toUint value)
  | variant => (getUlong doubles variant).map UInt64.toUInt32

/-- `ni_dbus_variant_set_ulong`, for a variant that `ni_dbus_variant_init_signature` has given the
type. -/
def setUlong (type : BasicType) (value : UInt64) : Option Variant :=
  match type with
  | .boolean => some (.scalar (.boolean value.toUInt32))
  | .byte => some (.scalar (.byte value.toUInt8))
  | .int16 => some (.scalar (.int16 value.toUInt16.toInt16))
  | .uint16 => some (.scalar (.uint16 value.toUInt16))
  | .int32 => some (.scalar (.int32 value.toUInt32.toInt32))
  | .uint32 => some (.scalar (.uint32 value.toUInt32))
  | .int64 => some (.scalar (.int64 value.toInt64))
  | .uint64 => some (.scalar (.uint64 value))
  | .double => some (.scalar (.double (doubles.ofUlong value)))
  | .string | .objectPath => none

def setUint (type : BasicType) (value : UInt32) : Option Variant :=
  setUlong doubles type value.toUInt64

end Casts

section Text

def hexDigit (n : UInt8) : UInt8 := if n < 10 then 48 + n else 87 + n

/-- `"0x%02x"` of an `unsigned char`. -/
def formatByte (value : UInt8) : CString := [48, 120, hexDigit (value >>> 4), hexDigit (value &&& 15)]

/-- `"0x%02x"` of a `char`, which is made an `int`. -/
def formatChar (value : UInt8) : CString :=
  if value < 128 then formatByte value
  else [48, 120, 102, 102, 102, 102, 102, 102, hexDigit (value >>> 4), hexDigit (value &&& 15)]

variable (doubles : Doubles)

def trueText : CString := ascii ['t', 'r', 'u', 'e']

def falseText : CString := ascii ['f', 'a', 'l', 's', 'e']

def variantSprint : Variant → Option CString
  | .string value | .objectPath value => value
  | .scalar (.byte value) => some (formatChar value)
  | .scalar (.boolean value) => some (if value ≠ 0 then trueText else falseText)
  | .scalar (.int16 value) => some (formatInt value.toInt)
  | .scalar (.uint16 value) => some (formatNat value.toNat)
  | .scalar (.int32 value) => some (formatInt value.toInt)
  | .scalar (.uint32 value) => some (formatNat value.toNat)
  | .scalar (.int64 value) => some (formatInt value.toInt)
  | .scalar (.uint64 value) => some (formatNat value.toNat)
  | .scalar (.double value) => some (doubles.format value)
  | .struct _ => some (ascii ['<', 's', 't', 'r', 'u', 'c', 't', '>'])
  | _ => some (ascii ['<', 'u', 'n', 'k', 'n', 'o', 'w', 'n', ' ', 't', 'y', 'p', 'e', '>'])

/-- A number with nothing after it. -/
def whole {α : Type} (number : α × CString) : Option α :=
  if number.2 = [] then some number.1 else none

def unsignedText (text : CString) : Nat × CString := ((strtoul 0 text).1, (strtoul 0 text).2.1)

def variantParse (type : BasicType) (text : CString) : Option Variant :=
  match type with
  | .string => some (.string (some text))
  | .objectPath => some (.objectPath (some text))
  | .byte => do return .scalar (.byte (UInt8.ofNat (← whole (unsignedText text))))
  | .boolean =>
    if text = trueText then some (.scalar (.boolean 1))
    else if text = falseText then some (.scalar (.boolean 0))
    else do return .scalar (.boolean (UInt32.ofNat (← whole (unsignedText text))))
  | .int16 => do return .scalar (.int16 (Int16.ofInt (← whole (strtol 0 text))))
  | .uint16 => do return .scalar (.uint16 (UInt16.ofNat (← whole (unsignedText text))))
  | .int32 => do return .scalar (.int32 (Int32.ofInt (← whole (strtol 0 text))))
  | .uint32 => do return .scalar (.uint32 (UInt32.ofNat (← whole (unsignedText text))))
  | .int64 => do return .scalar (.int64 (Int64.ofInt (← whole (strtol 0 text))))
  | .uint64 => do return .scalar (.uint64 (UInt64.ofNat (← whole (unsignedText text))))
  | .double => do return .scalar (.double (← whole (doubles.strtod text)))

end Text

def parseUintMapped (input : Option CString) (map : IntMap) : Option UInt32 :=
  input.bind fun input => (map.find? fun entry => strcaseeq entry.name input).map IntMapEntry.value

/-- `ni_parse_uint`, with base 0. -/
def parseUint (input : CString) : Option UInt32 :=
  match input with
  | [] => none
  | c :: _ =>
    let (value, rest, range) := strtoul 0 input
    if isdigit c && !range && rest.isEmpty && value < 2 ^ 32 then some (UInt32.ofNat value) else none

def formatUintMapped (value : UInt32) (map : IntMap) : Option CString :=
  (map.find? fun entry => entry.value = value).map IntMapEntry.name

/-- `ni_parse_uint_maybe_mapped`, with base 0, where a number that the map does not name is as good
as one that it does. -/
def parseUintMaybeMapped (input : Option CString) (map : IntMap) : Option UInt32 :=
  (parseUintMapped input map).or (input.bind parseUint)

end Testbus.Schema
