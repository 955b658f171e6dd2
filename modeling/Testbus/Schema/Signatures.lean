import Testbus.Dbus.Dispatch
import Testbus.Dbus.RoundTrip
import Testbus.Schema.Sound

namespace Testbus.Schema

open Dbus.Marshal Xml

/-- The characters of the buffer that a type's signature is built in without a failing assertion. -/
def need : XsType → Nat
  | .array _ _ elementType => need elementType + 1
  | .notated _ _ _ _ => 3
  | .dict _ _ _ => 6
  | .scalar _ _ | .void _ | .struct _ | .union _ _ _ => 2

/-- The signature of a type, in a buffer that is large enough. -/
def plainSignature : XsType → Option Signature
  | .scalar _ info => some info.signature
  | .array _ _ elementType => (plainSignature elementType).map ('a' :: ·)
  | .notated _ element _ _ => some ('a' :: element.signature)
  | .dict _ _ _ => some dictSignature
  | .void _ | .struct _ | .union _ _ _ => none

theorem two_le_need (type : XsType) : 2 ≤ need type := by
  cases type with
  | array common elementName elementType =>
    have := two_le_need elementType
    simp only [need]
    omega
  | _ => simp [need]

theorem xsTypeToDbusSignature_eq (type : XsType) (buflen : Nat) :
    xsTypeToDbusSignature type buflen =
      if need type ≤ buflen then orRefused (plainSignature type) else throw .assertion := by
  induction type using XsType.induct generalizing buflen with
  | array common elementName elementType ih =>
    have least := two_le_need elementType
    simp only [xsTypeToDbusSignature, ih, need, plainSignature]
    by_cases fits : need elementType + 1 ≤ buflen
    · have inner : need elementType ≤ buflen - 1 := by omega
      have room : 2 ≤ buflen := by omega
      cases plainSignature elementType <;> simp [fits, inner, room, assert, orRefused]
      rfl
    · have inner : ¬ need elementType ≤ buflen - 1 := by omega
      by_cases room : 2 ≤ buflen <;> simp [fits, inner, room, assert] <;> rfl
  | notated common element form compatible =>
    simp only [xsTypeToDbusSignature, scalarToDbusSignature, need, plainSignature]
    by_cases fits : 3 ≤ buflen
    · have inner : 2 ≤ buflen - 1 := by omega
      have room : 2 ≤ buflen := by omega
      simp [fits, inner, room, assert, orRefused]
    · have inner : ¬ 2 ≤ buflen - 1 := by omega
      by_cases room : 2 ≤ buflen <;> simp [fits, inner, room, assert] <;> rfl
  | dict common children groups =>
    simp only [xsTypeToDbusSignature, need, plainSignature]
    by_cases fits : 6 ≤ buflen
    · have room : 2 ≤ buflen := by omega
      simp [fits, room, assert, orRefused, dictSignature, dictEntrySignature]
    · by_cases room : 2 ≤ buflen <;>
        simp [fits, room, assert, dictSignature, dictEntrySignature] <;> rfl
  | _ =>
    simp only [xsTypeToDbusSignature, scalarToDbusSignature, need, plainSignature]
    by_cases room : 2 ≤ buflen <;> simp [room, assert, orRefused]
    rfl

theorem xsTypeToDbusSignature_of (known : plainSignature type = some signature) (fits : need type ≤ buflen) :
    xsTypeToDbusSignature type buflen = .ok signature := by
  rw [xsTypeToDbusSignature_eq, if_pos fits, known]
  rfl

section Values

variable {type : XsType} {signature : Signature}

def XsType.isFlag : XsType → Bool
  | .scalar _ info => info.type.isNone
  | _ => false

/-- A type whose values are serialized with its own signature: no flag, which is serialized as a
byte; no array of scalars that `ni_dbus_variant_signature` does not know; and no array of arrays
whose signature does not fit the 16 characters that it has, although it fits the 32 characters that
serialization has. -/
def Agreeing : XsType → Prop
  | .scalar _ info => info.type ≠ none
  | .array _ _ (.scalar _ info) => info.type = none ∨ info.type = some .byte ∨
      info.type = some .string
  | .array _ _ (.dict _ _ _) => True
  | .array _ _ elementType => need elementType < 32 →
      ∀ signature, plainSignature elementType = some signature → signature.length ≤ 14
  | _ => True

theorem setUlong_type {type : BasicType} {value : UInt64} (set : setUlong doubles type value = some var) :
    typeSignature var = [type.code] ∧ Signed var := by
  cases type <;> cases set <;> exact ⟨rfl, .scalar _⟩

theorem whole_type {α : Type} {number : α × CString} {make : α → Scalar} {code : Char}
    (made : ((whole number).bind fun value => some (.scalar (make value))) = some var)
    (typed : ∀ value, (make value).type = code) : typeSignature var = [code] ∧ Signed var := by
  obtain ⟨value, -, same⟩ := Option.bind_eq_some_iff.mp made
  cases same
  exact ⟨congrArg (fun code => [code]) (typed value), .scalar _⟩

theorem variantParse_type {type : BasicType} {text : CString}
    (parsed : variantParse doubles type text = some var) : typeSignature var = [type.code] ∧ Signed var := by
  cases type with
  | string | objectPath =>
    cases parsed
    exact ⟨rfl, by constructor⟩
  | boolean =>
    simp only [variantParse] at parsed
    split at parsed
    · cases parsed
      exact ⟨rfl, .scalar _⟩
    · split at parsed
      · cases parsed
        exact ⟨rfl, .scalar _⟩
      · exact whole_type parsed fun _ => rfl
  | _ => exact whole_type parsed fun _ => rfl

theorem scalar_type {type : BasicType} (typed : info.type = some type)
    (serialized : serializeScalar doubles info node = .ok var) : typeSignature var = [type.code] ∧ Signed var := by
  simp only [serializeScalar, typed] at serialized
  split at serialized
  · obtain ⟨value, -, set⟩ := bind_ok.mp serialized
    exact setUlong_type (orRefused_ok.mp set)
  · obtain ⟨text, -, rest⟩ := bind_ok.mp serialized
    split at rest
    · obtain ⟨value, -, set⟩ := bind_ok.mp rest
      exact setUlong_type (orRefused_ok.mp set)
    · exact variantParse_type (orRefused_ok.mp rest)

theorem isArrayOf_type {type : BasicType} (kind : isArrayOf type var = true) :
    typeSignature var = ['a', type.code] ∧ (Signed var ↔ type = .byte ∨ type = .string) := by
  cases var with
  | byteArray bytes =>
    cases type <;> try cases kind
    exact ⟨rfl, iff_of_true (.byteArray bytes) (.inl rfl)⟩
  | stringArray strings =>
    cases type <;> try cases kind
    exact ⟨rfl, iff_of_true (.stringArray strings) (.inr rfl)⟩
  | objectPathArray paths =>
    cases type <;> try cases kind
    exact ⟨rfl, iff_of_false (by rintro ⟨⟩) (by simp)⟩
  | basicArray code =>
    have typed : code = type.code ∧ type ≠ .byte ∧ type ≠ .string := by
      cases type <;> simp_all [isArrayOf]
    exact ⟨congrArg (fun code => ['a', code]) typed.1, iff_of_false (by rintro ⟨⟩) (not_or.mpr typed.2)⟩
  | _ => cases type <;> cases kind

theorem dicts_isDictArray {nodes : List Node} (kind : isDictArray var = true)
    (serialized : serializeDicts serialize var nodes = .ok var') : isDictArray var' = true := by
  induction nodes generalizing var with
  | nil => exact return_ok.mp serialized ▸ kind
  | cons child rest ih =>
    obtain ⟨_, -, rest⟩ := bind_ok.mp serialized
    obtain ⟨element, -, after⟩ := bind_ok.mp rest
    exact ih (dictArrayAdd_isDictArray kind) after

theorem isDictArray_type (kind : isDictArray var = true) : typeSignature var = 'a' :: dictSignature ∧ Signed var := by
  cases var with
  | arrayArray inner elements =>
    obtain rfl : inner = dictEntrySignature := of_decide_eq_true kind
    exact ⟨rfl, .arrayArray elements (by decide)⟩
  | _ => cases kind

theorem initArray_arrays (inner : Signature) : initArray ('a' :: 'a' :: inner) = .ok (.arrayArray inner []) := by
  cases inner <;> rfl

theorem signed_arrayArray {inner : Signature} : Signed (.arrayArray inner elements) ↔ inner.length ≤ 13 := by
  constructor
  · rintro ⟨⟩
    assumption
  · exact .arrayArray elements

variable {common : Common} {elementType : XsType}

/-- What is serialized for an array of arrays. -/
theorem arrays_type (compound : elementType.isScalar = false)
    (begun : initSignature (.array common elementName elementType) = .ok var) :
    ∃ inner, var = .arrayArray inner [] ∧ plainSignature elementType = some ('a' :: inner) ∧ need elementType < 32 := by
  unfold initSignature at begun
  split at begun
  · rename_i signature known
    rw [dbusSignature, xsTypeToDbusSignature_eq] at known
    split at known
    · rename_i fits
      obtain ⟨element, plain, rfl⟩ := Option.map_eq_some_iff.mp (orRefused_ok.mp known)
      obtain ⟨inner, rfl⟩ := signature_of_array compound (xsTypeToDbusSignature_of plain (Nat.le_refl _))
      cases (initArray_arrays inner).symm.trans begun
      exact ⟨inner, rfl, plain, fits⟩
    · cases known
  · cases begun
  · cases begun

theorem agreeing_arrays (scalar : elementType.isScalar = false) (dict : elementType.isDict = false) :
    Agreeing (.array common elementName elementType) ↔ (need elementType < 32 →
      ∀ signature, plainSignature elementType = some signature → signature.length ≤ 14) := by
  cases elementType with
  | scalar => cases scalar
  | dict => cases dict
  | _ => rfl

theorem readable_arrays (scalar : elementType.isScalar = false) (dict : elementType.isDict = false) :
    Readable doubles (.array common elementName elementType) node ↔ node.children = [] ∧
      ∃ signature, dbusSignature (.array common elementName elementType) = .ok signature := by
  cases elementType with
  | scalar => cases scalar
  | dict => cases dict
  | _ => simp only [Readable]

/-- A value has the signature of its type, except a flag's, and `ni_dbus_variant_signature` knows it
where the type agrees. -/
theorem serialized_type (known : plainSignature type = some signature) (data : type.isFlag = false)
    (serialized : serializeXml doubles type node = .ok var) :
    typeSignature var = signature ∧ (Signed var ↔ Agreeing type) := by
  cases type with
  | void | struct | union => cases known
  | scalar common info =>
    obtain ⟨_ | type, enums, bitmap⟩ := info
    · cases data
    · cases known
      obtain ⟨same, signed⟩ := scalar_type rfl serialized
      exact ⟨same, iff_of_true signed nofun⟩
  | notated common element form compatible =>
    cases known
    obtain ⟨bytes, parsed, same⟩ := bind_ok.mp serialized
    cases return_ok.mp same
    obtain ⟨_, typed, -⟩ := bind_ok.mp parsed
    have byte : element.type = some .byte := compatible.symm.trans (of_decide_eq_true (check_ok.mp typed))
    exact ⟨by rw [ScalarInfo.signature, byte]; rfl, iff_of_true (.byteArray bytes) trivial⟩
  | dict common children groups =>
    cases known
    obtain ⟨entries, -, same⟩ := bind_ok.mp serialized
    cases return_ok.mp same
    exact ⟨rfl, iff_of_true (.dict entries) trivial⟩
  | array common elementName elementType =>
    cases elementType with
    | scalar own info =>
      obtain ⟨_ | type, enums, bitmap⟩ := info
      · cases serialized
      · cases known
        obtain ⟨first, made, kind⟩ := initArray_basic type
        obtain ⟨first', begun, elements⟩ := bind_ok.mp serialized
        cases made.symm.trans begun
        obtain ⟨same, signed⟩ := isArrayOf_type (elements_isArrayOf kind elements)
        refine ⟨same, signed.trans ?_⟩
        simp [Agreeing]
    | dict own children groups =>
      cases known
      have begun : isDictArray (.arrayArray dictEntrySignature []) = true := rfl
      obtain ⟨same, signed⟩ := isDictArray_type (dicts_isDictArray begun serialized)
      exact ⟨same, iff_of_true signed trivial⟩
    | _ =>
      obtain ⟨first, begun, rest⟩ := bind_ok.mp serialized
      obtain ⟨_, -, same⟩ := bind_ok.mp rest
      cases return_ok.mp same
      obtain ⟨inner, rfl, plain, fits⟩ := arrays_type rfl begun
      obtain ⟨element, plain', rfl⟩ := Option.map_eq_some_iff.mp known
      cases plain.symm.trans plain'
      refine ⟨rfl, ?_⟩
      rw [agreeing_arrays rfl rfl, signed_arrayArray]
      constructor
      · intro short _ signature plain'
        cases plain.symm.trans plain'
        exact Nat.succ_le_succ short
      · intro agree
        exact Nat.le_of_succ_le_succ (agree fits _ plain)

theorem data_of_agreeing (agree : Agreeing type) : type.isFlag = false := by
  cases type with
  | scalar common info => exact Option.isNone_eq_false_iff.mpr (Option.ne_none_iff_isSome.mp agree)
  | _ => rfl

theorem signature_agrees (doubles : Doubles) (type : XsType) (signature : Signature)
    (known : plainSignature type = some signature) :
    (∀ node var, serializeXml doubles type node = .ok var → variantSignature var = some signature) ↔ Agreeing type := by
  constructor
  · intro all
    cases type with
    | void | struct | union | notated | dict => trivial
    | scalar common info =>
      intro flag
      have serialized := all (.new none) (.scalar (.byte 0)) (by
        simp only [serializeXml, serializeScalar, flag]
        rfl)
      cases known
      simp [variantSignature, ScalarInfo.signature, flag] at serialized
    | array common elementName elementType =>
      have shown : Readable doubles (.array common elementName elementType) (.new none) →
          Agreeing (.array common elementName elementType) := by
        intro readable
        have childless : (Node.new none).children = [] := rfl
        obtain ⟨var, serialized⟩ := (array_serializes doubles (childless ▸ List.forall_mem_nil _)).mpr readable
        obtain ⟨same, signed⟩ := serialized_type known rfl serialized
        exact signed.mp (signed_iff.mp (same ▸ all _ var serialized))
      cases elementType with
      | scalar own info =>
        cases typed : info.type with
        | none => exact .inl typed
        | some type => exact shown ⟨type, typed, List.forall_mem_nil _⟩
      | dict => trivial
      | _ =>
        rw [agreeing_arrays rfl rfl] at shown ⊢
        rw [readable_arrays rfl rfl] at shown
        intro fits
        have begun := xsTypeToDbusSignature_of known (Nat.succ_le_of_lt fits)
        exact shown ⟨rfl, signature, begun⟩ fits
  · intro agree node var serialized
    obtain ⟨same, signed⟩ := serialized_type known (data_of_agreeing agree) serialized
    exact same ▸ (signed.mpr agree).known

end Values

section Registration

open Dbus.Dispatch (Service Message Object Course methodOf getMethod setError)

/-- `ni_xs_method`, as far as registration needs it. -/
structure XsMethod where
  name : Option CString
  arguments : List XsType

/-- A method of a service. Its name is not private if it has one and the first character is no
underscore. -/
def XsMethod.publicName (method : XsMethod) : Option CString :=
  method.name.filter fun name => name.head? ≠ some 95

/-- `ni_dbus_method` with its schema. -/
structure Registered extends Dbus.Dispatch.Method where
  schema : Option XsMethod := none

/-- The loop of `ni_dbus_xml_register_methods` over the arguments of a method. -/
def buildSignature (sigbuf : Signature) : List XsType → Result Signature
  | [] => return sigbuf
  | type :: rest => do
    let signature ← xsTypeToDbusSignature type (64 - sigbuf.length)
    buildSignature (sigbuf ++ signature) rest

/-- The method array with the schema of the first method of a name set. -/
def setSchema (schema : XsMethod) (name : CString) : List Registered → List Registered
  | [] => []
  | method :: rest =>
    if method.name = name then { method with schema := some schema } :: rest
    else method :: setSchema schema name rest

/-- One turn of the loop of `ni_dbus_xml_register_methods`. A method of a bad definition is skipped,
and one that is there keeps its signature. -/
def registerMethod (methods : List Registered) (method : XsMethod) : Result (List Registered) :=
  match method.publicName with
  | none => return methods
  | some name =>
    match buildSignature [] method.arguments with
    | .error .refused => return methods
    | .error failure => throw failure
    | .ok sigbuf =>
      if methods.any (·.name = name) then return setSchema method name methods
      else return methods ++
        [{ name := name, callSignature := some (ascii sigbuf), schema := some method }]

/-- `ni_dbus_xml_register_methods`, with the methods that the service has. -/
def registerMethods (methods : List Registered) : List XsMethod → Result (List Registered)
  | [] => return methods
  | method :: rest => do registerMethods (← registerMethod methods method) rest

/-- The signature of all arguments, one after the other. -/
def argumentsSignature : List XsType → Option Signature
  | [] => some []
  | type :: rest => do return (← plainSignature type) ++ (← argumentsSignature rest)

/-- Each argument up to the first without a signature has the room that it needs left in the buffer
of 64 characters. -/
def Room (used : Nat) : List XsType → Prop
  | [] => True
  | type :: rest => used + need type ≤ 64 ∧
      ∀ signature, plainSignature type = some signature → Room (used + signature.length) rest

/-- The signature that calls of a method are checked against. -/
def signatureOf (methods : List Registered) (name : CString) : Option (Option CString) :=
  (methods.find? (·.name = name)).map (·.callSignature)

variable {methods registered : List Registered} {name : CString}

theorem buildSignature_eq (sigbuf : Signature) (arguments : List XsType) :
    (Room sigbuf.length arguments → buildSignature sigbuf arguments =
      orRefused ((argumentsSignature arguments).map (sigbuf ++ ·))) ∧
    (¬ Room sigbuf.length arguments → buildSignature sigbuf arguments = .error .assertion) := by
  induction arguments generalizing sigbuf with
  | nil => exact ⟨fun _ => by simp [buildSignature, argumentsSignature, orRefused], fun no => absurd trivial no⟩
  | cons type rest ih =>
    have least := two_le_need type
    simp only [buildSignature, xsTypeToDbusSignature_eq, Room, argumentsSignature]
    by_cases fits : sigbuf.length + need type ≤ 64
    · rw [if_pos (by omega)]
      cases plain : plainSignature type with
      | none => simp [fits, orRefused]; rfl
      | some signature =>
        have next := ih (sigbuf ++ signature)
        rw [List.length_append] at next
        simp only [fits, true_and, Option.some.injEq, forall_eq', orRefused, pure_bind]
        refine ⟨fun room => (next.1 room).trans ?_, next.2⟩
        cases argumentsSignature rest <;> simp <;> rfl
    · rw [if_neg (by omega)]
      exact ⟨fun room => absurd room.1 fits, fun _ => rfl⟩

theorem registerMethod_isOk : (∃ registered, registerMethod methods method = .ok registered) ↔
    (method.publicName ≠ none → Room 0 method.arguments) := by
  unfold registerMethod
  cases method.publicName with
  | none => exact iff_of_true ⟨methods, rfl⟩ fun named => absurd rfl named
  | some name =>
    obtain ⟨built, overrun⟩ := buildSignature_eq [] method.arguments
    by_cases room : Room 0 method.arguments
    · refine iff_of_true ?_ fun _ => room
      rw [built room]
      cases argumentsSignature method.arguments with
      | none => exact ⟨methods, rfl⟩
      | some signature =>
        simp only [Option.map_some, orRefused]
        dsimp only [pure, Except.pure]
        split
        · exact ⟨_, rfl⟩
        · exact ⟨_, rfl⟩
    · refine iff_of_false ?_ fun all => room (all (Option.some_ne_none name))
      rw [overrun room]
      rintro ⟨_, ⟨⟩⟩

theorem signatureOf_setSchema (name' : CString) :
    signatureOf (setSchema method name methods) name' = signatureOf methods name' := by
  induction methods with
  | nil => rfl
  | cons head rest ih =>
    simp only [setSchema, signatureOf, List.find?_cons] at ih ⊢
    split
    · by_cases same : head.name = name' <;> simp [same]
    · by_cases same : head.name = name' <;> simp [same, ih]

theorem signatureOf_append (name' : CString) (signature : Option CString) :
    signatureOf (methods ++ [{ name := name, callSignature := signature, schema := some method }])
      name' = (signatureOf methods name').or (if name = name' then some signature else none) := by
  simp only [signatureOf, List.find?_append, Option.map_or, List.find?_cons, List.find?_nil]
  by_cases same : name = name' <;> simp [same]

theorem signatureOf_isSome (present : methods.any (·.name = name) = true) : (signatureOf methods name).isSome = true := by
  obtain ⟨method, member, named⟩ := List.any_eq_true.mp present
  rw [signatureOf, Option.isSome_map, List.find?_isSome]
  exact ⟨method, member, named⟩

/-- A method that is registered adds the signature of its arguments, if there is no method of its
name. -/
theorem registerMethod_signature (done : registerMethod methods method = .ok registered)
    (name' : CString) : signatureOf registered name' = (signatureOf methods name').or
      (if method.publicName = some name' then
        (argumentsSignature method.arguments).map fun signature => some (ascii signature)
      else none) := by
  unfold registerMethod at done
  cases hidden : method.publicName with
  | none =>
    rw [hidden] at done
    cases return_ok.mp done
    simp
  | some name =>
    rw [hidden] at done
    have ⟨built, overrun⟩ := buildSignature_eq [] method.arguments
    by_cases room : Room 0 method.arguments
    · rw [built room] at done
      cases known : argumentsSignature method.arguments with
      | none =>
        rw [known] at done
        cases return_ok.mp (done : (return methods : Result _) = _)
        simp
      | some signature =>
        simp only [known, Option.map_some, orRefused, List.nil_append, Option.some.injEq] at done ⊢
        dsimp only [pure, Except.pure] at done
        split at done
        · rename_i present
          cases done
          rw [signatureOf_setSchema]
          by_cases same : name = name'
          · subst same
            obtain ⟨own, known⟩ := Option.isSome_iff_exists.mp (signatureOf_isSome present)
            simp [known]
          · simp [same]
        · cases done
          exact signatureOf_append name' _
    · rw [overrun room] at done
      cases done

theorem registerMethods_kept (done : registerMethods methods schema = .ok registered) (known : signatureOf methods name = some own) : signatureOf registered name = some own := by
  induction schema generalizing methods with
  | nil => exact return_ok.mp done ▸ known
  | cons method rest ih =>
    obtain ⟨next, here, after⟩ := bind_ok.mp done
    refine ih after ?_
    rw [registerMethod_signature here, known]
    rfl

/-- A method is registered with the signature of its arguments unless there is a method of its name
with another signature. -/
theorem method_registered (done : registerMethods methods (method :: schema) = .ok registered) (shown : method.publicName = some name)
    (known : argumentsSignature method.arguments = some signature) :
    signatureOf registered name = some (some (ascii signature)) ↔
      ∀ own, signatureOf methods name = some own → own = some (ascii signature) := by
  obtain ⟨next, here, after⟩ := bind_ok.mp done
  have now : signatureOf next name = (signatureOf methods name).or (some (some (ascii signature))) := by
    rw [registerMethod_signature here, if_pos shown, known]
    rfl
  cases before : signatureOf methods name with
  | none =>
    rw [before] at now
    exact iff_of_true (registerMethods_kept after now) nofun
  | some own =>
    rw [before] at now
    rw [registerMethods_kept after now]
    simp

theorem registerMethods_isOk (methods : List Registered) (schema : List XsMethod) :
    (∃ registered, registerMethods methods schema = .ok registered) ↔
      ∀ method ∈ schema, method.publicName ≠ none → Room 0 method.arguments := by
  induction schema generalizing methods with
  | nil => simp [registerMethods]
  | cons method rest ih =>
    simp only [registerMethods, bind_ok, List.forall_mem_cons]
    constructor
    · rintro ⟨registered, next, here, after⟩
      exact ⟨registerMethod_isOk.mp ⟨next, here⟩, (ih next).mp ⟨registered, after⟩⟩
    · rintro ⟨room, later⟩
      obtain ⟨next, here⟩ := registerMethod_isOk.mpr room
      obtain ⟨registered, after⟩ := (ih next).mpr later
      exact ⟨registered, next, here, after⟩

/-- An argument that was serialized: its type, the node and the value. -/
structure Argument (doubles : Doubles) where
  type : XsType
  node : Node
  var : Variant
  serialized : serializeXml doubles type node = .ok var

variable {arguments : List (Argument doubles)} {signature : Signature}

theorem arguments_type (known : argumentsSignature (arguments.map Argument.type) = some signature)
    (agree : ∀ argument ∈ arguments, Agreeing argument.type) :
    typeSignatures (arguments.map Argument.var) = signature := by
  induction arguments generalizing signature with
  | nil => exact Option.some.inj known
  | cons argument rest ih =>
    obtain ⟨here, later⟩ := List.forall_mem_cons.mp agree
    obtain ⟨own, plain, after⟩ := Option.bind_eq_some_iff.mp known
    obtain ⟨others, tail, same⟩ := Option.bind_eq_some_iff.mp after
    have typed : typeSignature argument.var = own := (serialized_type plain (data_of_agreeing here) argument.serialized).1
    cases same
    simp only [List.map_cons, typeSignatures, typed, ih tail later]

/-- The dispatcher does not refuse the signature of a call with such arguments. -/
theorem call_accepted (known : argumentsSignature (arguments.map Argument.type) = some signature)
    (agree : ∀ argument ∈ arguments, Agreeing argument.type)
    (own : signatureOf registered name = some (some (ascii signature)))
    (appended : appendValues none (arguments.map Argument.var) = some values)
    (methods : svc.methods = registered.map Registered.toMethod)
    (sent : message.signature = some (ascii (Value.signatures values)))
    (object : Object) (course : Course) (text : String) (args : List CString) :
    methodOf object svc name message course ≠ .error (setError .invalidSignature text args) := by
  have typed : Value.signatures values = signature :=
    (fields_signature (fun _ _ _ found => appendContents_reads found) appended).trans (arguments_type known agree)
  obtain ⟨entry, found, same⟩ := Option.map_eq_some_iff.mp own
  have method : getMethod svc name = some entry.toMethod := by
    rw [getMethod, methods, List.find?_map]
    exact congrArg (Option.map Registered.toMethod) found
  have accepted : message.signature = entry.callSignature := by
    rw [sent, typed, same]
  simp only [methodOf, method, accepted, ne_eq, not_true_eq_false, and_false, if_false]
  split
  · simp [setError]
  · split
    · simp [setError]
    · nofun

end Registration

/-- The values of a type have its signature if it agrees, registration fails no assertion if the
arguments have the room that they need, a method has the signature of its arguments if there was
none of its name with another, and calls with such arguments are not refused. -/
theorem signatures_registered (doubles : Doubles) :
    (∀ type signature, plainSignature type = some signature →
      ((∀ node var, serializeXml doubles type node = .ok var →
        variantSignature var = some signature) ↔ Agreeing type)) ∧
    (∀ methods schema, (∃ registered, registerMethods methods schema = .ok registered) ↔
      ∀ method ∈ schema, method.publicName ≠ none → Room 0 method.arguments) ∧
    (∀ methods method schema registered name signature,
      registerMethods methods (method :: schema) = .ok registered →
      method.publicName = some name → argumentsSignature method.arguments = some signature →
      (signatureOf registered name = some (some (ascii signature)) ↔
        ∀ own, signatureOf methods name = some own → own = some (ascii signature))) ∧
    ∀ (arguments : List (Argument doubles)) registered name signature values,
      argumentsSignature (arguments.map Argument.type) = some signature →
      (∀ argument ∈ arguments, Agreeing argument.type) →
      signatureOf registered name = some (some (ascii signature)) →
      appendValues none (arguments.map Argument.var) = some values →
      ∀ (svc : Dbus.Dispatch.Service) (message : Dbus.Dispatch.Message),
        svc.methods = registered.map Registered.toMethod →
        message.signature = some (ascii (Value.signatures values)) →
        ∀ object course text args, Dbus.Dispatch.methodOf object svc name message course ≠
          .error (Dbus.Dispatch.setError .invalidSignature text args) :=
  ⟨signature_agrees doubles, registerMethods_isOk,
    fun _ _ _ _ _ _ done shown known => method_registered done shown known,
    fun _ _ _ _ _ known agree own appended _ _ methods sent =>
      call_accepted known agree own appended methods sent⟩

def flagMethod : XsMethod where
  name := some countName
  arguments := [.scalar {} { type := none }]

def longMethod : XsMethod where
  name := some countName
  arguments := List.replicate 64 (.scalar {} { type := some .string })

/-- A flag has the signature of no value, and is serialized as a byte: a call of a method with a
flag is refused. After 63 strings there is room for one character, but not for a signature. -/
theorem signatures_differ : plainSignature (.scalar {} { type := none }) = some [] ∧
      (∃ var, serializeXml default (.scalar {} { type := none }) (.new none) = .ok var ∧
        variantSignature var = some ['y']) ∧
      (registerMethods [] [flagMethod]).map (signatureOf · countName) = .ok (some (some [])) ∧
      registerMethods [] [longMethod] = .error .assertion ∧
      ¬ ∀ schema, ∃ registered, registerMethods [] schema = .ok registered := by
  have failed : registerMethods [] [longMethod] = .error .assertion := rfl
  refine ⟨rfl, ⟨_, rfl, rfl⟩, rfl, failed, fun all => ?_⟩
  obtain ⟨registered, done⟩ := all [longMethod]
  cases failed.symm.trans done

end Testbus.Schema
