import Testbus.Schema.Text

namespace Testbus.Schema

open Dbus.Marshal Xml

variable (doubles : Doubles)

/-- `1 << bb`, an `int` that is made an `unsigned long`. -/
def bit (bb : UInt32) : UInt64 := (1 <<< bb).toInt32.toInt64.toUInt64

/-- The bit that a child of a bitmap names. -/
def parseBit (bits : IntMap) (name : Option CString) : Option UInt32 :=
  (parseUintMapped name bits).filter (· < 32)

/-- `ni_dbus_serialize_xml_bitmap`. -/
def serializeBitmap (bits : IntMap) (value : UInt64) : List Node → Result UInt64
  | [] => return value
  | child :: rest => do
    let bb ← orRefused (parseBit bits child.name)
    serializeBitmap bits (value ||| bit bb) rest

/-- `ni_dbus_serialize_xml_enum`. -/
def serializeEnum (names : IntMap) (node : Node) : Result UInt32 :=
  orRefused (parseUintMaybeMapped node.cdata names)

/-- `ni_dbus_validate_xml_scalar`. -/
def validateScalar (info : ScalarInfo) (node : Node) : Result Unit :=
  match info.bitmap with
  | some bits => do
    let _ ← serializeBitmap bits 0 node.children
  | none =>
    match info.type with
    | none => check node.cdata.isNone
    | some _ => do
      check node.cdata.isSome
      match info.enums with
      | some names => do
        let _ ← serializeEnum names node
      | none => return ()

/-- `ni_dbus_serialize_xml_scalar`. -/
def serializeScalar (info : ScalarInfo) (node : Node) : Result Variant :=
  match info.type with
  | none => return .scalar (.byte 0)
  | some type =>
    match info.bitmap with
    | some bits => do
      orRefused (setUlong doubles type (← serializeBitmap bits 0 node.children))
    | none => do
      let text ← orRefused node.cdata
      match info.enums with
      | some names => do
        orRefused (setUint doubles type (← serializeEnum names node))
      | none => orRefused (variantParse doubles type text)

/-- The bits from `bb` on that are set and have a name, each as a child. -/
def showBits (bits : IntMap) (value : UInt64) (bb : Nat) : Nat → Node → Node
  | 0, node => node
  | left + 1, node =>
    let node := if value &&& bit (UInt32.ofNat bb) = 0 then node
      else match formatUintMapped (UInt32.ofNat bb) bits with
        | some bitname => node.addChild (.new (some bitname))
        | none => node
    showBits bits value (bb + 1) left node

/-- Arrays and dicts have the type `DBUS_TYPE_ARRAY`. -/
def isArray : Variant → Bool
  | .byteArray _ | .stringArray _ | .objectPathArray _ | .basicArray _ | .variantArray _ | .dict _
  | .arrayArray _ _ => true
  | _ => false

/-- `ni_dbus_deserialize_xml_scalar`. -/
def deserializeScalar (info : ScalarInfo) (var : Variant) (node : Node) : Result Node := do
  check (!isArray var)
  match info.type with
  | none =>
    match var with
    | .scalar (.byte _) => return node
    | _ => throw .refused
  | some _ =>
    match info.bitmap with
    | some bits => do
      let value ← orRefused (getUlong doubles var)
      return showBits bits value 0 32 node
    | none =>
      match info.enums with
      | some names => do
        let value ← orRefused (getUint doubles var)
        match formatUintMapped value names with
        | some enumName => return node.setCdata (some enumName)
        | none => return node.setCdata (some (formatNat value.toNat))
      | none => do
        let value ← orRefused (variantSprint doubles var)
        return node.setCdata (some value)

/-- `ni_dbus_serialize_byte_array_notation`. -/
def serializeNotation (form : Notation) (node : Node) : Result (List UInt8) := do
  check (form.arrayElementType = some .byte)
  orRefused (form.parse (← orRefused node.cdata))

/-- `ni_dbus_variant_init_signature`, with the signature of an array type. -/
def initArray : Signature → Result Variant
  | ['a'] => throw .refused
  | ['a', code] =>
    match basicType code with
    | some .byte => return .byteArray []
    | some .string => return .stringArray []
    | some .objectPath => return .objectPathArray []
    | some _ => return .basicArray code
    | none => return .arrayArray [] []
  | 'a' :: 'a' :: inner => return .arrayArray inner []
  | _ => throw .refused

/-- The signature of a type where `ni_dbus_variant_init_signature` reads it: there is no check that
there is one. -/
def initSignature (type : XsType) : Result Variant :=
  match dbusSignature type with
  | .ok signature => initArray signature
  | .error .refused => throw .null
  | .error failure => throw failure

/-- `ni_dbus_variant_array_parse_and_append_string`. -/
def arrayParseAndAppend (text : CString) : Variant → Result Variant
  | .byteArray bytes => do
    let value ← orRefused (whole (unsignedText text))
    return .byteArray (bytes ++ [UInt8.ofNat value])
  | .stringArray strings => return .stringArray (strings ++ [text])
  | .objectPathArray paths => return .objectPathArray (paths ++ [text])
  | _ => throw .refused

/-- The loop of `ni_dbus_serialize_xml_array` over scalars. -/
def serializeElements (var : Variant) : List Node → Result Variant
  | [] => return var
  | child :: rest => do
    let text ← orRefused child.cdata
    serializeElements (← arrayParseAndAppend text var) rest

def isDictArray : Variant → Bool
  | .arrayArray inner _ => inner = dictEntrySignature
  | _ => false

/-- The element of `ni_dbus_dict_array_add`, as it is in the end. -/
def dictArrayAdd (element : Variant) : Variant → Variant
  | .arrayArray inner elements => .arrayArray inner (elements ++ [element])
  | var => var

/-- The loop of `ni_dbus_serialize_xml_array` over dicts. -/
def serializeDicts (serialize : Node → Result Variant) (var : Variant) : List Node → Result Variant
  | [] => return var
  | child :: rest => do
    check (isDictArray var)
    let element ← serialize child
    serializeDicts serialize (dictArrayAdd element var) rest

/-- `ni_dbus_variant_array_print_element`, for all elements. -/
def arrayPrintElements : Variant → Result (List CString)
  | .byteArray bytes => return bytes.map formatByte
  | .stringArray strings => return strings
  | .objectPathArray paths => return paths
  | .dict [] | .arrayArray _ [] | .struct [] => return []
  | .dict _ | .arrayArray _ _ | .struct _ | .variantArray _ => throw .refused
  | _ => return []

/-- The name of the children of an array. -/
def elementNodeName (elementName : Option CString) (elementType : XsType) : CString :=
  (elementName.or elementType.common.origdefName).getD (ascii ['e'])

/-- The loop of `ni_dbus_deserialize_xml_array` over scalars. -/
def deserializeElements (name : CString) (node : Node) : List CString → Node
  | [] => node
  | text :: rest =>
    deserializeElements name (node.addChild ((Node.new (some name)).setCdata (some text))) rest

/-- The elements of an array of variants or of dicts. -/
def dictElements : Variant → Result (List Variant)
  | .variantArray elements => return elements
  | .arrayArray inner elements => do
    check (isDictArray (.arrayArray inner elements))
    return elements
  | _ => throw .refused

/-- The loop of `ni_dbus_deserialize_xml_array` over dicts. -/
def deserializeDicts (deserialize : Variant → Node → Result Node) (name : CString) (node : Node) :
    List Variant → Result Node
  | [] => return node
  | element :: rest => do
    let child ← deserialize element (.new (some name))
    deserializeDicts deserialize name (node.addChild child) rest

/-- The loop of `ni_dbus_validate_xml_dict` over the children of the node. -/
def validateChildren (validate : Option CString → Node → Result Unit) : List Node → Result Unit
  | [] => return ()
  | child :: rest => do
    validate child.name child
    validateChildren validate rest

/-- `xml_node_get_child`. -/
def hasChild (name : CString) : List Node → Result Bool
  | [] => return false
  | child :: rest =>
    match child.name with
    | none => throw .null
    | some own => if own = name then return true else hasChild name rest

/-- The loop of `ni_dbus_validate_xml_dict` over the members. Without a context there is no
`prompt_callback` to read. -/
def validateMandatory (nodes : List Node) : List (CString × XsType) → Result Unit
  | [] => return ()
  | (name, type) :: rest => do
    if type.common.mandatory then
      if !(← hasChild name nodes) then throw .null
    validateMandatory nodes rest

/-- How many children of the node are in a group, an `unsigned int`. -/
def groupCount (children : List (CString × XsType)) (group : Group) : List Node → Result UInt32
  | [] => return 0
  | child :: rest => do
    let counts ← match ← find children child.name with
      | some type => pure (type.common.group.any (·.addr = group.addr))
      | none => pure false
    let later ← groupCount children group rest
    return if counts then later + 1 else later

/-- The check of the groups in `ni_dbus_validate_xml_dict`. -/
def validateGroups (children : List (CString × XsType)) (nodes : List Node) : List Group → Result Unit
  | [] => return ()
  | group :: rest => do
    let count ← groupCount children group nodes
    match group.relation with
    | .require => check (count ≠ 0)
    | .conflict => check (count ≤ 1)
    validateGroups children nodes rest

/-- The loop of `ni_dbus_serialize_xml_dict`. An unknown element is ignored. -/
def serializeEntries (serialize : Option CString → Node → Result (Option Variant)) :
    List Node → Result (List (CString × Variant))
  | [] => return []
  | child :: rest => do
    match ← serialize child.name child with
    | none => serializeEntries serialize rest
    | some datum => return (child.name.getD [], datum) :: (← serializeEntries serialize rest)

/-- The loop of `ni_dbus_deserialize_xml_dict`. -/
def deserializeEntries (deserialize : CString → Variant → Node → Result (Option Node))
    (node : Node) : List (CString × Variant) → Result Node
  | [] => return node
  | (key, datum) :: rest => do
    match ← deserialize key datum (.new (some key)) with
    | none => deserializeEntries deserialize node rest
    | some child => deserializeEntries deserialize (node.addChild child) rest

mutual

/-- `ni_dbus_validate_xml`, without a context. -/
def validateXml : XsType → Node → Result Unit
  | .void _, node => do
    check node.cdata.isNone
    check node.children.isEmpty
  | .scalar _ info, node => validateScalar info node
  | .struct _, _ => throw .refused
  | .union _ discriminant children, node => do
    let kind ← orRefused (node.getAttr discriminant)
    match ← validateMember children (some kind) node with
    | some () => return ()
    | none => throw .refused
  | .notated _ _ form _, node => do
    let _ ← serializeNotation form node
  | .array _ _ elementType, node =>
    validateChildren (fun _ child => validateXml elementType child) node.children
  | .dict _ children groups, node => do
    validateChildren (fun name child => do let _ ← validateMember children name child) node.children
    validateMandatory node.children children
    validateGroups children node.children groups

/-- A node checked against the type of a member, if there is such a member. -/
def validateMember : List (CString × XsType) → Option CString → Node → Result (Option Unit)
  | [], _, _ => return none
  | _ :: _, none, _ => throw .null
  | (own, type) :: rest, some name, node =>
    if own = name then do return some (← validateXml type node)
    else validateMember rest (some name) node

end

mutual

def serializeXml : XsType → Node → Result Variant
  | .void _, _ => return .invalid
  | .scalar _ info, node => serializeScalar doubles info node
  | .struct _, _ => throw .refused
  | .union _ discriminant children, node => do
    let kind ← orRefused (node.getAttr discriminant)
    match ← find children (some kind) with
    | none => throw .refused
    | some (.void _) => return .struct [.string (some kind)]
    | some _ => do
      let child ← orRefused (← serializeMember children (some kind) node)
      return .struct [.string (some kind), child]
  | .notated _ _ form _, node => do
    return .byteArray (← serializeNotation form node)
  | .array common elementName elementType, node => do
    let var ← initSignature (.array common elementName elementType)
    match elementType with
    | .scalar _ _ => serializeElements var node.children
    | .dict _ _ _ => serializeDicts (fun child => serializeXml elementType child) var node.children
    | _ => do
      check node.children.isEmpty
      return var
  | .dict _ children _, node => do
    return .dict (← serializeEntries
      (fun name child => serializeMember children name child) node.children)

/-- A node serialized with the type of a member, if there is such a member. -/
def serializeMember : List (CString × XsType) → Option CString → Node → Result (Option Variant)
  | [], _, _ => return none
  | _ :: _, none, _ => throw .null
  | (own, type) :: rest, some name, node =>
    if own = name then do return some (← serializeXml type node)
    else serializeMember rest (some name) node

end

mutual

def deserializeXml : XsType → Variant → Node → Result Node
  | .void _, _, node => return node
  | .scalar _ info, var, node => deserializeScalar doubles info var node
  | .struct _, _, _ => throw .refused
  | .union _ discriminant children, var, node =>
    match var with
    | .struct (.string kind :: members) => do
      let node := node.addAttr discriminant kind
      let kind ← orRefused (node.getAttr discriminant)
      match ← find children (some kind) with
      | none => throw .refused
      | some (.void _) => return node
      | some _ => do
        let child ← orRefused members.head?
        orRefused (← deserializeMember children (some kind) child node)
    | _ => throw .refused
  | .notated _ _ form _, var, node => do
    check (form.arrayElementType = some .byte)
    match var with
    | .byteArray bytes => return node.setCdata (some (← orRefused (form.print bytes)))
    | _ => throw .refused
  | .array _ elementName elementType, var, node =>
    match elementType with
    | .scalar _ _ => do
      let texts ← arrayPrintElements var
      return deserializeElements (elementNodeName elementName elementType) node texts
    | .dict _ _ _ => do
      let elements ← dictElements var
      deserializeDicts (fun element child => deserializeXml elementType element child)
        (elementNodeName elementName elementType) node elements
    | _ => throw .refused
  | .dict _ children _, var, node =>
    match var with
    | .dict entries => deserializeEntries
        (fun key datum child => deserializeMember children (some key) datum child) node entries
    | _ => throw .refused

/-- A value deserialized with the type of a member, if there is such a member. -/
def deserializeMember : List (CString × XsType) → Option CString → Variant → Node →
    Result (Option Node)
  | [], _, _, _ => return none
  | _ :: _, none, _, _ => throw .null
  | (own, type) :: rest, some name, var, node =>
    if own = name then do return some (← deserializeXml type var node)
    else deserializeMember rest (some name) var node

end

section Members

variable {children : List (CString × XsType)} {name : Option CString}

theorem validateMember_eq (node : Node) : validateMember children name node = (do
    match ← find children name with
    | some type => return some (← validateXml type node)
    | none => return none) := by
  induction children with
  | nil => cases name <;> rfl
  | cons child rest ih =>
    cases name with
    | none => rfl
    | some name =>
      simp only [validateMember, find]
      split
      · rfl
      · exact ih

theorem serializeMember_eq (node : Node) : serializeMember doubles children name node = (do
    match ← find children name with
    | some type => return some (← serializeXml doubles type node)
    | none => return none) := by
  induction children with
  | nil => cases name <;> rfl
  | cons child rest ih =>
    cases name with
    | none => rfl
    | some name =>
      simp only [serializeMember, find]
      split
      · rfl
      · exact ih

theorem deserializeMember_eq (var : Variant) (node : Node) : deserializeMember doubles children name var node = (do
    match ← find children name with
    | some type => return some (← deserializeXml doubles type var node)
    | none => return none) := by
  induction children with
  | nil => cases name <;> rfl
  | cons child rest ih =>
    cases name with
    | none => rfl
    | some name =>
      simp only [deserializeMember, find]
      split
      · rfl
      · exact ih

end Members

end Testbus.Schema
