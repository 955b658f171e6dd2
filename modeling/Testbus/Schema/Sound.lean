import Testbus.Schema.Convert

namespace Testbus.Schema

open Dbus.Marshal Xml

variable (doubles : Doubles)

def BasicType.isNumber : BasicType → Bool
  | .string | .objectPath => false
  | _ => true

/-- The text of a value is read to its end. -/
def textReads (type : BasicType) (text : CString) : Bool :=
  match type with
  | .string | .objectPath => true
  | .boolean => text = trueText || text = falseText || (strtoul 0 text).2.1.isEmpty
  | .byte | .uint16 | .uint32 | .uint64 => (strtoul 0 text).2.1.isEmpty
  | .int16 | .int32 | .int64 => (strtol 0 text).2.isEmpty
  | .double => (doubles.strtod text).2.isEmpty

/-- The same for an element of an array, which can have three types only. -/
def elementReads (type : BasicType) (text : CString) : Bool :=
  match type with
  | .string | .objectPath => true
  | .byte => (strtoul 0 text).2.1.isEmpty
  | _ => false

/-- An enum or a bitmap is a number, and the text of any other scalar is read to its end. -/
def ScalarReads (info : ScalarInfo) (node : Node) : Prop :=
  ∀ type, info.type = some type →
    if info.bitmap.isSome || info.enums.isSome then type.isNumber = true
    else ∀ text, node.cdata = some text → textReads doubles type text = true

/-- Each element is text that is read, as a value of one of the types that arrays can have. -/
def ElementsRead (info : ScalarInfo) (node : Node) : Prop :=
  ∃ type, info.type = some type ∧
    ∀ child ∈ node.children, ∃ text, child.cdata = some text ∧ elementReads type text = true

mutual

/-- What serialization needs and validation does not ask for. -/
def Readable : XsType → Node → Prop
  | .void _, _ | .struct _, _ | .notated _ _ _ _, _ => True
  | .scalar _ info, node => ScalarReads doubles info node
  | .union _ discriminant children, node => ReadableMember children (node.getAttr discriminant) node
  | .array common elementName elementType, node =>
    match elementType with
    | .scalar _ info => ElementsRead info node
    | .dict _ _ _ => ∀ child ∈ node.children, Readable elementType child
    | _ => node.children = [] ∧
        ∃ signature, dbusSignature (.array common elementName elementType) = .ok signature
  | .dict _ children _, node => ∀ child ∈ node.children, ReadableMember children child.name child

/-- The same for the type of a member, if there is such a member. -/
def ReadableMember : List (CString × XsType) → Option CString → Node → Prop
  | [], _, _ => True
  | (own, type) :: rest, name, node =>
    (name = some own → Readable type node) ∧ (name ≠ some own → ReadableMember rest name node)

end

theorem readableMember_iff (looked : find children name = .ok found) (node : Node) :
    ReadableMember doubles children name node ↔ ∀ type, found = some type → Readable doubles type node := by
  induction children with
  | nil =>
    cases name <;> cases looked <;> simp [ReadableMember]
  | cons child rest ih =>
    cases name with
    | none => cases looked
    | some name =>
      simp only [find] at looked
      split at looked
      · rename_i same
        cases looked
        simp [ReadableMember, same]
      · rename_i other
        rw [← ih looked]
        simp [ReadableMember, Ne.symm other]

section Scalars

variable {doubles}

theorem whole_isSome (number : α × CString) (make : α → β) :
    ((whole number).bind fun value => some (make value)).isSome = number.2.isEmpty := by
  obtain ⟨value, rest⟩ := number
  cases rest <;> rfl

theorem variantParse_isSome (type : BasicType) (text : CString) :
    (variantParse doubles type text).isSome = textReads doubles type text := by
  cases type with
  | boolean =>
    simp only [variantParse, textReads]
    split
    · simp [*]
    · split
      · simp [*]
      · rename_i notTrue notFalse
        simp only [notTrue, notFalse, decide_false, Bool.false_or]
        exact whole_isSome (unsignedText text) _
  | string | objectPath => rfl
  | double => exact whole_isSome (doubles.strtod text) _
  | byte | uint16 | uint32 | uint64 => exact whole_isSome (unsignedText text) _
  | int16 | int32 | int64 => exact whole_isSome (strtol 0 text) _

variable (doubles) in
theorem setUlong_isSome (type : BasicType) (value : UInt64) : (setUlong doubles type value).isSome = type.isNumber := by
  cases type <;> rfl

theorem scalar_serializes (valid : validateScalar info node = .ok ()) :
    (∃ var, serializeScalar doubles info node = .ok var) ↔ ScalarReads doubles info node := by
  obtain ⟨type, enums, bitmap⟩ := info
  cases type with
  | none => simp [serializeScalar, ScalarReads]
  | some type =>
    cases bitmap with
    | some bits =>
      obtain ⟨value, known, -⟩ : ∃ value, serializeBitmap bits 0 node.children = .ok value ∧ _ := bind_ok.mp valid
      simp [serializeScalar, ScalarReads, known, ← setUlong_isSome doubles type value, Option.isSome_iff_exists]
    | none =>
      cases enums with
      | some names =>
        obtain ⟨⟨⟩, present, rest⟩ := bind_ok.mp valid
        obtain ⟨value, known, -⟩ := bind_ok.mp rest
        obtain ⟨text, here⟩ := Option.isSome_iff_exists.mp (check_ok.mp present)
        simp [serializeScalar, ScalarReads, known, here, ← setUlong_isSome doubles type value.toUInt64, setUint,
          Option.isSome_iff_exists]
      | none =>
        obtain ⟨⟨⟩, present, -⟩ := bind_ok.mp valid
        obtain ⟨text, here⟩ := Option.isSome_iff_exists.mp (check_ok.mp present)
        simp [serializeScalar, ScalarReads, here, ← variantParse_isSome, Option.isSome_iff_exists]

end Scalars

section Arrays

variable {nodes : List Node}

/-- What `ni_dbus_variant_init_signature` makes of an array of a basic type, with any elements. -/
def isArrayOf : BasicType → Variant → Bool
  | .byte, .byteArray _ | .string, .stringArray _ | .objectPath, .objectPathArray _ => true
  | .byte, _ | .string, _ | .objectPath, _ => false
  | type, .basicArray code => code = type.code
  | _, _ => false

theorem initArray_basic (type : BasicType) : ∃ var, initArray ['a', type.code] = .ok var ∧ isArrayOf type var = true := by
  cases type <;> exact ⟨_, rfl, rfl⟩

theorem append_reads (kind : isArrayOf type var = true) :
    (∃ var', arrayParseAndAppend text var = .ok var') ↔ elementReads type text = true := by
  cases var with
  | byteArray bytes =>
    cases type <;> try cases kind
    simp only [arrayParseAndAppend, bind_ok, orRefused_ok, return_ok, whole, unsignedText, elementReads, List.isEmpty_iff]
    by_cases empty : (strtoul 0 text).2.1 = [] <;> simp [empty]
  | _ => cases type <;> simp_all [isArrayOf, arrayParseAndAppend, elementReads]

theorem append_isArrayOf (kind : isArrayOf type var = true)
    (appended : arrayParseAndAppend text var = .ok var') : isArrayOf type var' = true := by
  cases var with
  | byteArray bytes =>
    obtain ⟨value, -, same⟩ := bind_ok.mp appended
    cases return_ok.mp same
    cases type <;> exact kind
  | stringArray | objectPathArray =>
    cases appended
    cases type <;> exact kind
  | _ => cases appended

theorem elements_isArrayOf (kind : isArrayOf type var = true) (serialized : serializeElements var nodes = .ok var') :
    isArrayOf type var' = true := by
  induction nodes generalizing var with
  | nil => exact return_ok.mp serialized ▸ kind
  | cons child rest ih =>
    obtain ⟨text, -, rest⟩ := bind_ok.mp serialized
    obtain ⟨next, appended, after⟩ := bind_ok.mp rest
    exact ih (append_isArrayOf kind appended) after

theorem elements_serialize (kind : isArrayOf type var = true) :
    (∃ var', serializeElements var nodes = .ok var') ↔
      ∀ child ∈ nodes, ∃ text, child.cdata = some text ∧ elementReads type text = true := by
  induction nodes generalizing var with
  | nil => simp [serializeElements]
  | cons child rest ih =>
    simp only [serializeElements, bind_ok, orRefused_ok, List.forall_mem_cons]
    constructor
    · rintro ⟨var', text, here, next, appended, after⟩
      exact ⟨⟨text, here, (append_reads kind).mp ⟨next, appended⟩⟩,
        (ih (append_isArrayOf kind appended)).mp ⟨var', after⟩⟩
    · rintro ⟨⟨text, here, reads⟩, later⟩
      obtain ⟨next, appended⟩ := (append_reads kind).mpr reads
      obtain ⟨var', after⟩ := (ih (append_isArrayOf kind appended)).mpr later
      exact ⟨var', text, here, next, appended, after⟩

def XsType.isScalar : XsType → Bool
  | .scalar _ _ => true
  | _ => false

def XsType.isDict : XsType → Bool
  | .dict _ _ _ => true
  | _ => false

theorem signature_of_array (compound : type.isScalar = false)
    (known : xsTypeToDbusSignature type buflen = .ok signature) : ∃ inner, signature = 'a' :: inner := by
  cases type with
  | void | struct | union =>
    obtain ⟨_, _, thrown⟩ := bind_ok.mp known
    cases thrown
  | scalar => cases compound
  | array | notated =>
    obtain ⟨_, _, rest⟩ := bind_ok.mp known
    obtain ⟨inner, _, same⟩ := bind_ok.mp rest
    exact ⟨inner, (return_ok.mp same).symm⟩
  | dict =>
    obtain ⟨_, _, rest⟩ := bind_ok.mp known
    obtain ⟨_, _, same⟩ := bind_ok.mp rest
    exact ⟨dictEntrySignature, (return_ok.mp same).symm⟩

theorem initSignature_compound (compound : type.isScalar = false) :
    (∃ var, initSignature (.array common elementName type) = .ok var) ↔
      ∃ signature, dbusSignature (.array common elementName type) = .ok signature := by
  unfold initSignature
  split
  · rename_i signature known
    refine iff_of_true ?_ ⟨signature, known⟩
    obtain ⟨_, _, rest⟩ := bind_ok.mp known
    obtain ⟨element, inside, same⟩ := bind_ok.mp rest
    obtain ⟨inner, rfl⟩ := signature_of_array compound inside
    cases return_ok.mp same
    cases inner with
    | nil => exact ⟨_, rfl⟩
    | cons => exact ⟨_, rfl⟩
  · rename_i refused
    exact iff_of_false nofun fun ⟨_, known⟩ => nomatch refused.symm.trans known
  · rename_i failure _ failed
    exact iff_of_false nofun fun ⟨_, known⟩ => nomatch failed.symm.trans known

theorem dictArrayAdd_isDictArray (kind : isDictArray var = true) : isDictArray (dictArrayAdd element var) = true := by
  cases var <;> simp_all [isDictArray, dictArrayAdd]

theorem dicts_serialize (kind : isDictArray var = true) :
    (∃ var', serializeDicts serialize var nodes = .ok var') ↔
      ∀ child ∈ nodes, ∃ element, serialize child = .ok element := by
  induction nodes generalizing var with
  | nil => simp [serializeDicts]
  | cons child rest ih =>
    simp only [serializeDicts, bind_ok, check_ok, List.forall_mem_cons]
    constructor
    · rintro ⟨var', ⟨⟩, -, element, made, after⟩
      exact ⟨⟨element, made⟩, (ih (dictArrayAdd_isDictArray kind)).mp ⟨var', after⟩⟩
    · rintro ⟨⟨element, made⟩, later⟩
      obtain ⟨var', after⟩ := (ih (dictArrayAdd_isDictArray kind)).mpr later
      exact ⟨var', (), kind, element, made, after⟩

end Arrays

section Dicts

variable {nodes : List Node}

theorem entries_serialize :
    (∃ entries, serializeEntries serialize nodes = .ok entries) ↔
      ∀ child ∈ nodes, ∃ datum, serialize child.name child = .ok datum := by
  induction nodes with
  | nil => simp [serializeEntries]
  | cons child rest ih =>
    simp only [serializeEntries, bind_ok, List.forall_mem_cons, ← ih]
    constructor
    · rintro ⟨entries, datum, here, later⟩
      refine ⟨⟨datum, here⟩, ?_⟩
      cases datum with
      | none => exact ⟨entries, later⟩
      | some datum =>
        obtain ⟨others, after, -⟩ := bind_ok.mp later
        exact ⟨others, after⟩
    · rintro ⟨⟨datum, here⟩, entries, later⟩
      cases datum with
      | none => exact ⟨entries, none, here, later⟩
      | some datum =>
        exact ⟨_, some datum, here, bind_ok.mpr ⟨entries, later, rfl⟩⟩

theorem children_validate :
    validateChildren validate nodes = .ok () ↔ ∀ child ∈ nodes, validate child.name child = .ok () := by
  induction nodes with
  | nil => simp [validateChildren]
  | cons child rest ih =>
    simp only [validateChildren, bind_ok, List.forall_mem_cons, ih]
    constructor
    · rintro ⟨⟨⟩, here, later⟩
      exact ⟨here, later⟩
    · rintro ⟨here, later⟩
      exact ⟨(), here, later⟩

end Dicts

section Members

variable {children : List (CString × XsType)} {name : Option CString}

/-- A type whose validated nodes are serialized exactly if they are readable. -/
def Agrees (type : XsType) : Prop := ∀ node, validateXml type node = .ok () →
  ((∃ var, serializeXml doubles type node = .ok var) ↔ Readable doubles type node)

theorem validateMember_find (valid : validateMember children name node = .ok checked) : ∃ found,
      find children name = .ok found ∧ checked.isSome = found.isSome ∧
        ∀ type, found = some type → validateXml type node = .ok () := by
  rw [validateMember_eq] at valid
  obtain ⟨found, looked, rest⟩ := bind_ok.mp valid
  cases found with
  | none =>
    cases rest
    exact ⟨none, looked, rfl, nofun⟩
  | some type =>
    obtain ⟨⟨⟩, here, same⟩ := bind_ok.mp rest
    cases same
    exact ⟨some type, looked, rfl, fun _ same => by cases same; exact here⟩

variable {doubles}

theorem member_serializes (agree : ∀ child ∈ children, Agrees doubles child.2)
    (valid : validateMember children name node = .ok checked) :
    (∃ datum, serializeMember doubles children name node = .ok datum) ↔
      ReadableMember doubles children name node := by
  obtain ⟨found, looked, -, each⟩ := validateMember_find valid
  rw [serializeMember_eq, readableMember_iff doubles looked, looked]
  cases found with
  | none => exact iff_of_true ⟨none, rfl⟩ nofun
  | some type =>
    obtain ⟨own, -, member⟩ := find_mem looked
    have agrees := agree _ member node (each type rfl)
    simp only [ok_bind, Option.some.injEq, forall_eq', ← agrees]
    constructor
    · intro ⟨datum, made⟩
      obtain ⟨var, made, -⟩ := bind_ok.mp made
      exact ⟨var, made⟩
    · intro ⟨var, made⟩
      exact ⟨some var, bind_ok.mpr ⟨var, made, rfl⟩⟩

end Members

theorem array_serializes (ih : ∀ child ∈ node.children, (∃ var, serializeXml doubles elementType child = .ok var) ↔
      Readable doubles elementType child) :
    (∃ var, serializeXml doubles (.array common elementName elementType) node = .ok var) ↔
      Readable doubles (.array common elementName elementType) node := by
  cases elementType with
  | scalar own info =>
    obtain ⟨_ | type, enums, bitmap⟩ := info
    · refine iff_of_false ?_ ?_
      · rintro ⟨_, ⟨⟩⟩
      · rintro ⟨_, ⟨⟩, -⟩
    · obtain ⟨var, made, kind⟩ := initArray_basic type
      have begun : initSignature (.array common elementName (.scalar own ⟨some type, enums, bitmap⟩)) = .ok var := made
      simp only [serializeXml, begun, ok_bind, elements_serialize kind, Readable, ElementsRead,
        Option.some.injEq, exists_eq_left']
  | dict own children groups =>
    have begun : initSignature (.array common elementName (.dict own children groups)) =
        .ok (.arrayArray dictEntrySignature []) := rfl
    simp only [serializeXml, begun, ok_bind, Readable]
    exact (dicts_serialize rfl).trans (forall_congr' fun child => forall_congr' fun member => ih child member)
  | _ =>
    simp only [serializeXml, Readable, bind_ok, check_ok, return_ok, List.isEmpty_iff]
    refine Iff.trans ?_ (and_congr_right fun _ => initSignature_compound rfl)
    constructor
    · rintro ⟨_, var, begun, _, empty, -⟩
      exact ⟨empty, var, begun⟩
    · rintro ⟨empty, var, begun⟩
      exact ⟨var, var, begun, (), empty, rfl⟩

/-- A node that was validated is serialized exactly if it is also readable. -/
theorem serializes_iff (type : XsType) (node : Node) (valid : validateXml type node = .ok ()) :
    (∃ var, serializeXml doubles type node = .ok var) ↔ Readable doubles type node := by
  induction type using XsType.induct generalizing node with
  | void => simp [serializeXml, Readable]
  | scalar common info => exact scalar_serializes valid
  | struct => cases valid
  | notated common element form compatible =>
    obtain ⟨bytes, parsed, -⟩ := bind_ok.mp valid
    exact iff_of_true ⟨.byteArray bytes, bind_ok.mpr ⟨bytes, parsed, rfl⟩⟩ trivial
  | array common elementName elementType ih =>
    have each := children_validate.mp valid
    exact array_serializes doubles fun child member => ih child (each child member)
  | dict common children groups ih =>
    obtain ⟨⟨⟩, checked, -⟩ := bind_ok.mp valid
    have each := children_validate.mp checked
    have members : (∃ entries, serializeEntries
        (fun name child => serializeMember doubles children name child) node.children =
          .ok entries) ↔
        ∀ child ∈ node.children, ReadableMember doubles children child.name child := by
      rw [entries_serialize]
      refine forall_congr' fun child => forall_congr' fun member => ?_
      obtain ⟨known, validated, -⟩ := bind_ok.mp (each child member)
      exact member_serializes ih validated
    simp only [serializeXml, Readable, ← members]
    constructor
    · rintro ⟨_, made⟩
      obtain ⟨entries, made, -⟩ := bind_ok.mp made
      exact ⟨entries, made⟩
    · rintro ⟨entries, made⟩
      exact ⟨_, bind_ok.mpr ⟨entries, made, rfl⟩⟩
  | union common discriminant children ih =>
    obtain ⟨kind, given, rest⟩ := bind_ok.mp valid
    obtain ⟨checked, validated, rest⟩ := bind_ok.mp rest
    cases checked with
    | none => cases rest
    | some checked =>
      obtain ⟨found, looked, some_, each⟩ := validateMember_find validated
      cases found with
      | none => cases some_
      | some type =>
        have agrees := member_serializes ih validated
        simp only [serializeXml, Readable, orRefused_ok.mp given, ← agrees, looked, ok_bind,
          orRefused, pure_bind]
        split
        · rename_i same
          cases same
        · rename_i void same
          cases same
          refine iff_of_true ⟨_, rfl⟩ ⟨some .invalid, ?_⟩
          rw [serializeMember_eq, looked]
          rfl
        · constructor
          · rintro ⟨var, made⟩
            obtain ⟨datum, made, -⟩ := bind_ok.mp made
            exact ⟨datum, made⟩
          · rintro ⟨datum, made⟩
            have serialized := made
            rw [serializeMember_eq, looked, ok_bind] at made
            obtain ⟨var, -, same⟩ := bind_ok.mp made
            cases return_ok.mp same
            exact ⟨_, bind_ok.mpr ⟨some var, serialized, rfl⟩⟩

def countName : CString := ascii ['c', 'o', 'u', 'n', 't']

/-- A dict with a number. -/
def countType : XsType := .dict {} [(countName, .scalar {} { type := some .uint32 })] []

def countNode (text : CString) : Node :=
  (Node.new (some countName)).addChild ((Node.new (some countName)).setCdata (some text))

theorem count_serializes :
    (∃ var, serializeXml default countType (countNode (ascii ['7'])) = .ok var) ↔
      Readable default countType (countNode (ascii ['7'])) :=
  serializes_iff default countType (countNode (ascii ['7'])) rfl

/-- Text that is no number is valid, and so are elements of an array of numbers. An array of unions
is valid and has no signature, which serialization does not check. -/
theorem not_serialized :
    serializeXml default countType (countNode (ascii ['x'])) = .error .refused ∧
      serializeXml default (.array {} none (.scalar {} { type := some .uint32 }))
        (countNode (ascii ['7'])) = .error .refused ∧
      serializeXml default (.array {} none (.union {} countName [])) (.new (some countName)) =
        .error .null ∧
      ¬ ∀ doubles type node, validateXml type node = .ok () →
        ∃ var, serializeXml doubles type node = .ok var := by
  have refused : serializeXml default countType (countNode (ascii ['x'])) = .error .refused := rfl
  refine ⟨refused, rfl, rfl, fun sound => ?_⟩
  obtain ⟨var, serialized⟩ := sound default countType (countNode (ascii ['x'])) rfl
  cases refused.symm.trans serialized

end Testbus.Schema
