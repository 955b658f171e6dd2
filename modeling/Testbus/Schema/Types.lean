import Testbus.Dbus.Marshal
import Testbus.Lib.Machine
import Testbus.Xml.Node

namespace Testbus.Schema

open Dbus.Marshal

/-- How a function ends that does not succeed: it returns `FALSE` or `NULL`, an assertion fails, or
a `NULL` pointer is read. -/
inductive Failure
  | refused
  | assertion
  | null
  deriving DecidableEq

abbrev Result (α : Type) := Except Failure α

def assert (condition : Bool) : Result Unit :=
  if condition then return () else throw .assertion

def check (condition : Bool) : Result Unit :=
  if condition then return () else throw .refused

/-- What a function returns as `NULL` or `FALSE`. -/
def orRefused {α : Type} : Option α → Result α
  | some value => return value
  | none => throw .refused

@[simp] theorem return_ok : (return a : Result α) = .ok b ↔ a = b := by
  simp [pure, Except.pure]

@[simp] theorem throw_ok {failure : Failure} : (throw failure : Result α) ≠ .ok b := nofun

@[simp] theorem check_ok : check condition = .ok u ↔ condition = true := by
  cases condition <;> simp [check]

@[simp] theorem orRefused_ok : orRefused option = .ok a ↔ option = some a := by
  cases option <;> simp [orRefused]

@[simp] theorem bind_ok {first : Result α} {next : α → Result β} {result : β} :
    (first >>= next) = .ok result ↔ ∃ value, first = .ok value ∧ next value = .ok result := Lib.bind_ok

@[simp] theorem check_true : check true = .ok () := rfl

@[simp] theorem orRefused_some : orRefused (some a) = .ok a := rfl

@[simp] theorem ok_bind : ((.ok a : Result α) >>= next) = next a := rfl

/-- The types that `ni_dbus_define_scalar_types` defines, without the flag. -/
inductive BasicType
  | boolean
  | byte
  | string
  | double
  | uint16
  | uint32
  | uint64
  | int16
  | int32
  | int64
  | objectPath
  deriving DecidableEq

def BasicType.code : BasicType → Char
  | boolean => 'b'
  | byte => 'y'
  | string => 's'
  | double => 'd'
  | uint16 => 'q'
  | uint32 => 'u'
  | uint64 => 't'
  | int16 => 'n'
  | int32 => 'i'
  | int64 => 'x'
  | objectPath => 'o'

/-- `ni_dbus_type_as_string`, turned around. -/
def basicType : Char → Option BasicType
  | 'b' => some .boolean
  | 'y' => some .byte
  | 's' => some .string
  | 'd' => some .double
  | 'q' => some .uint16
  | 'u' => some .uint32
  | 't' => some .uint64
  | 'n' => some .int16
  | 'i' => some .int32
  | 'x' => some .int64
  | 'o' => some .objectPath
  | _ => none

/-- An entry of an `ni_intmap_t`. -/
structure IntMapEntry where
  name : CString
  value : UInt32
  deriving DecidableEq

abbrev IntMap := List IntMapEntry

/-- `ni_xs_scalar_info`. A flag has the type `DBUS_TYPE_INVALID`. -/
structure ScalarInfo where
  type : Option BasicType
  enums : Option IntMap := none
  bitmap : Option IntMap := none

/-- `ni_xs_notation`. It prints to a buffer of 256 characters. -/
structure Notation where
  arrayElementType : Option BasicType
  parse : CString → Option (List UInt8)
  print : List UInt8 → Option CString

inductive Relation
  | require
  | conflict
  deriving DecidableEq

/-- `ni_xs_group`. Its count is one of the run that counts. -/
structure Group where
  addr : Nat
  relation : Relation
  name : CString
  deriving DecidableEq

/-- What the types of all classes have. -/
structure Common where
  origdefName : Option CString := none
  mandatory : Bool := false
  group : Option Group := none

/-- `ni_xs_type`. An array with a notation has an element type of the one class and type that
`ni_xs_build_complex_type` accepts. -/
inductive XsType
  | void (common : Common)
  | scalar (common : Common) (info : ScalarInfo)
  | struct (common : Common)
  | array (common : Common) (elementName : Option CString) (elementType : XsType)
  | notated (common : Common) (element : ScalarInfo) (form : Notation)
      (compatible : form.arrayElementType = element.type)
  | dict (common : Common) (children : List (CString × XsType)) (groups : List Group)
  | union (common : Common) (discriminant : CString) (children : List (CString × XsType))

namespace XsType

def common : XsType → Common
  | void common | scalar common _ | struct common | array common _ _ | notated common _ _ _
  | dict common _ _ | union common _ _ => common

@[elab_as_elim]
theorem induct {motive : XsType → Prop} (void : ∀ common, motive (.void common))
    (scalar : ∀ common info, motive (.scalar common info)) (struct : ∀ common, motive (.struct common))
    (array : ∀ common elementName elementType, motive elementType → motive (.array common elementName elementType))
    (notated : ∀ common element form compatible, motive (.notated common element form compatible))
    (dict : ∀ common children groups, (∀ child ∈ children, motive child.2) → motive (.dict common children groups))
    (union : ∀ common discriminant children, (∀ child ∈ children, motive child.2) →
      motive (.union common discriminant children))
    (type : XsType) : motive type := by
  refine @XsType.rec motive (fun children => ∀ child ∈ children, motive child.2)
    (fun child => motive child.2) void scalar struct array notated
    (fun common children groups ih => dict common children groups ih)
    (fun common discriminant children ih => union common discriminant children ih)
    ?_ ?_ (fun _ _ ih => ih) type
  · exact fun _ member => nomatch member
  · intro head tail here later
    exact List.forall_mem_cons.mpr ⟨here, later⟩

end XsType

def find {α : Type} : List (CString × α) → Option CString → Result (Option α)
  | [], _ => return none
  | _ :: _, none => throw .null
  | (own, type) :: rest, some name => if own = name then return some type else find rest (some name)

theorem find_mem (found : find children name = .ok (some type)) : ∃ own, name = some own ∧ (own, type) ∈ children := by
  induction children with
  | nil => cases found
  | cons child rest ih =>
    cases name with
    | none => cases found
    | some name =>
      simp only [find] at found
      split at found
      · rename_i same
        cases found
        exact ⟨name, rfl, by simp [← same]⟩
      · obtain ⟨own, same, member⟩ := ih found
        exact ⟨own, same, List.mem_cons_of_mem _ member⟩

def ScalarInfo.signature (info : ScalarInfo) : Signature := (info.type.map BasicType.code).toList

/-- The scalar branch of `__ni_xs_type_to_dbus_signature`. -/
def scalarToDbusSignature (info : ScalarInfo) (buflen : Nat) : Result Signature := do
  assert (2 ≤ buflen)
  return info.signature

def dictSignature : Signature := 'a' :: dictEntrySignature

/-- `__ni_xs_type_to_dbus_signature`, into a buffer of `buflen` characters. -/
def xsTypeToDbusSignature : XsType → Nat → Result Signature
  | .scalar _ info, buflen => scalarToDbusSignature info buflen
  | .array _ _ elementType, buflen => do
    assert (2 ≤ buflen)
    return 'a' :: (← xsTypeToDbusSignature elementType (buflen - 1))
  | .notated _ element _ _, buflen => do
    assert (2 ≤ buflen)
    return 'a' :: (← scalarToDbusSignature element (buflen - 1))
  | .dict _ _ _, buflen => do
    assert (2 ≤ buflen)
    assert (dictSignature.length + 1 ≤ buflen)
    return dictSignature
  | .void _, buflen | .struct _, buflen | .union _ _ _, buflen => do
    assert (2 ≤ buflen)
    throw .refused

def dbusSignature (type : XsType) : Result Signature := xsTypeToDbusSignature type 32

end Testbus.Schema
