import Testbus.Dbus.Marshal

namespace Testbus.Dbus.Decoding

open Marshal

/-- What a peer can put into a message: any type of D-Bus, and dictionaries with any keys. -/
inductive Item
  | scalar (value : Scalar)
  | string (value : CString)
  | objectPath (value : CString)
  | signature (value : Signature)
  | unixFd (index : UInt32)
  | array (elementSignature : Signature) (elements : List Item)
  | struct (fields : List Item)
  | dictEntry (key value : Item)
  | variant (value : Item)

/-- What `ni_dbus_message_iter_get_array` tells apart by the first character of a signature. -/
inductive ElementType
  | byte
  | string
  | objectPath
  | dictEntry
  | array
  | variant
  | other
  deriving DecidableEq

def elementType : Signature → ElementType
  | 'y' :: _ => .byte
  | 's' :: _ => .string
  | 'o' :: _ => .objectPath
  | '{' :: _ => .dictEntry
  | 'a' :: _ => .array
  | 'v' :: _ => .variant
  | _ => .other

def Item.byte? : Item → Option UInt8
  | .scalar (.byte byte) => some byte
  | _ => none

def Item.string? : Item → Option CString
  | .string value => some value
  | _ => none

def Item.objectPath? : Item → Option CString
  | .objectPath value => some value
  | _ => none

/-- Elements of one basic type, up to the first of another. -/
def getBasicArray {α : Type} (basic : Item → Option α) : List Item → List α
  | [] => []
  | element :: rest =>
    match basic element with
    | some value => value :: getBasicArray basic rest
    | none => []

def getByteArray : List Item → List UInt8 := getBasicArray Item.byte?

def getStringArray : List Item → List CString := getBasicArray Item.string?

def getObjectPathArray : List Item → List CString := getBasicArray Item.objectPath?

mutual

/-- `ni_dbus_message_iter_get_variant_data`, with `ni_dbus_message_iter_get_array` for arrays. -/
def getVariantData : Item → Option Marshal.Variant
  | .scalar value => some (.scalar value)
  | .string value => some (.string (some value))
  | .objectPath value => some (.objectPath (some value))
  | .array elementSignature elements =>
    match elementType elementSignature with
    | .byte => some (.byteArray (getByteArray elements))
    | .string => some (.stringArray (getStringArray elements))
    | .objectPath => some (.objectPathArray (getObjectPathArray elements))
    | .dictEntry => some (.dict (getEntries elements))
    | .array => do
      return .arrayArray elementSignature.tail (← getArrayArray elements)
    | .variant => do
      return .variantArray (← getVariantArray elements)
    | .other => none
  | .struct fields => do
    return .struct (← getStruct fields)
  | .signature _ | .unixFd _ | .dictEntry _ _ | .variant _ => none

/-- The loop of `ni_dbus_message_iter_get_dict` over `ni_dbus_message_get_next_dict_entry`, which
fails at the end and for an entry with another key than a string, with another value than a variant,
or with a value that cannot be read. -/
def getEntries : List Item → List (CString × Marshal.Variant)
  | .dictEntry (.string key) (.variant value) :: rest =>
    match getVariantData value with
    | some datum => (key, datum) :: getEntries rest
    | none => []
  | _ => []

def getArrayArray : List Item → Option (List Marshal.Variant)
  | .array elementSignature elements :: rest => do
    let element ← getVariantData (.array elementSignature elements)
    return element :: (← getArrayArray rest)
  | _ => some []

def getVariantArray : List Item → Option (List Marshal.Variant)
  | .variant value :: rest => do
    let element ← getVariantData value
    return element :: (← getVariantArray rest)
  | _ => some []

def getStruct : List Item → Option (List Marshal.Variant)
  | [] => some []
  | field :: rest => do
    let member ← getVariantData field
    return member :: (← getStruct rest)

end

/-- `ni_dbus_message_iter_get_dict`, with `ni_dbus_message_open_dict_read`. `none` is `FALSE`. -/
def getDict : Item → Option Marshal.Variant
  | .array elementSignature elements =>
    if elementType elementSignature = .dictEntry then some (.dict (getEntries elements)) else none
  | _ => none

mutual

/-- The value that is in a message, with all that is in it. -/
def decode : Item → Option Marshal.Variant
  | .scalar value => some (.scalar value)
  | .string value => some (.string (some value))
  | .objectPath value => some (.objectPath (some value))
  | .array elementSignature elements =>
    match elementType elementSignature with
    | .byte => (elements.mapM Item.byte?).map .byteArray
    | .string => (elements.mapM Item.string?).map .stringArray
    | .objectPath => (elements.mapM Item.objectPath?).map .objectPathArray
    | .dictEntry => (decodeEntries elements).map .dict
    | .array => (decodeArrays elements).map (.arrayArray elementSignature.tail)
    | .variant => (decodeVariants elements).map .variantArray
    | .other => none
  | .struct fields => (decodeFields fields).map .struct
  | .signature _ | .unixFd _ | .dictEntry _ _ | .variant _ => none

def decodeEntries : List Item → Option (List (CString × Marshal.Variant))
  | [] => some []
  | .dictEntry (.string key) (.variant value) :: rest => do
    let datum ← decode value
    return (key, datum) :: (← decodeEntries rest)
  | _ :: _ => none

def decodeArrays : List Item → Option (List Marshal.Variant)
  | [] => some []
  | .array elementSignature elements :: rest => do
    let element ← decode (.array elementSignature elements)
    return element :: (← decodeArrays rest)
  | _ :: _ => none

def decodeVariants : List Item → Option (List Marshal.Variant)
  | [] => some []
  | .variant value :: rest => do
    let element ← decode value
    return element :: (← decodeVariants rest)
  | _ :: _ => none

def decodeFields : List Item → Option (List Marshal.Variant)
  | [] => some []
  | field :: rest => do
    let member ← decode field
    return member :: (← decodeFields rest)

end

/-- A dictionary with all its entries. -/
def decodeDict : Item → Option Marshal.Variant
  | .array elementSignature elements =>
    if elementType elementSignature = .dictEntry then (decodeEntries elements).map .dict else none
  | _ => none

section Induction

/-- What is read for an element: the value of an entry or a variant, or the element itself. -/
def Item.content : Item → Item
  | .dictEntry _ (.variant value) => value
  | .variant value => value
  | item => item

variable {motive : Item → Prop}

@[elab_as_elim]
theorem Item.induct (scalar : ∀ value, motive (.scalar value))
    (string : ∀ value, motive (.string value)) (objectPath : ∀ value, motive (.objectPath value))
    (signature : ∀ value, motive (.signature value)) (unixFd : ∀ index, motive (.unixFd index))
    (array : ∀ elementSignature elements, (∀ element ∈ elements, motive element.content) →
      motive (.array elementSignature elements))
    (struct : ∀ fields, (∀ field ∈ fields, motive field) → motive (.struct fields))
    (dictEntry : ∀ key value, motive (.dictEntry key value))
    (variant : ∀ value, motive (.variant value)) (item : Item) : motive item := by
  refine (@Item.rec (fun item => motive item ∧ motive item.content)
    (fun list => ∀ item ∈ list, motive item ∧ motive item.content)
    (fun value => ⟨scalar value, scalar value⟩) (fun value => ⟨string value, string value⟩)
    (fun value => ⟨objectPath value, objectPath value⟩)
    (fun value => ⟨signature value, signature value⟩) (fun index => ⟨unixFd index, unixFd index⟩)
    (fun elementSignature elements ih => ?_) (fun fields ih => ?_) (fun key value _ ih => ?_)
    (fun value ih => ⟨variant value, ih.1⟩) (fun _ member => nomatch member)
    (fun _ _ here later => List.forall_mem_cons.mpr ⟨here, later⟩) item).1
  · have here := array elementSignature elements fun element member => (ih element member).2
    exact ⟨here, here⟩
  · have here := struct fields fun field member => (ih field member).1
    exact ⟨here, here⟩
  · refine ⟨dictEntry key value, ?_⟩
    cases value with
    | variant inner => exact ih.2
    | _ => exact dictEntry key _

end Induction

/-- The key of an entry that a dictionary of the library can have. -/
def Item.entryKey? : Item → Option CString
  | .dictEntry (.string key) (.variant _) => some key
  | _ => none

/-- An element that is read in an array. -/
def Item.fits (item : Item) : ElementType → Bool
  | .byte => item.byte?.isSome
  | .string => item.string?.isSome
  | .objectPath => item.objectPath?.isSome
  | .dictEntry => item.entryKey?.isSome
  | .array => match item with
    | .array _ _ => true
    | _ => false
  | .variant => match item with
    | .variant _ => true
    | _ => false
  | .other => false

/-- The library has a value for it: no file descriptor or signature, no array of other elements than
bytes, strings, object paths, arrays, variants or entries, no variant right inside another one, and in
a dictionary only strings for keys and only variants for values, at every depth. -/
inductive Readable : Item → Prop
  | scalar (value : Scalar) : Readable (.scalar value)
  | string (value : CString) : Readable (.string value)
  | objectPath (value : CString) : Readable (.objectPath value)
  | array {elementSignature : Signature} {elements : List Item}
    (known : elementType elementSignature ≠ .other)
    (fit : ∀ element ∈ elements, element.fits (elementType elementSignature))
    (contents : ∀ element ∈ elements, Readable element.content) :
    Readable (.array elementSignature elements)
  | struct {fields : List Item} (contents : ∀ field ∈ fields, Readable field) :
    Readable (.struct fields)

theorem decodeEntries_eq (elements : List Item) : decodeEntries elements =
    elements.mapM fun element => do
      let key ← element.entryKey?
      return (key, ← decode element.content) := by
  induction elements with
  | nil => rfl
  | cons element rest ih =>
    rw [List.mapM_cons, ← ih]
    cases element with
    | dictEntry key value =>
      cases key with
      | string key =>
        cases value with
        | variant value =>
          simp only [decodeEntries, Item.entryKey?, Item.content]
          cases decode value <;> rfl
        | _ => rfl
      | _ => rfl
    | _ => rfl

theorem decodeArrays_eq (elements : List Item) : decodeArrays elements =
    elements.mapM fun element => if element.fits .array then decode element.content else none := by
  induction elements with
  | nil => rfl
  | cons element rest ih =>
    rw [List.mapM_cons, ← ih]
    cases element <;> rfl

theorem decodeVariants_eq (elements : List Item) : decodeVariants elements =
    elements.mapM fun element => if element.fits .variant then decode element.content else none := by
  induction elements with
  | nil => rfl
  | cons element rest ih =>
    rw [List.mapM_cons, ← ih]
    cases element <;> rfl

theorem decodeFields_eq (fields : List Item) : decodeFields fields = fields.mapM decode := by
  induction fields with
  | nil => rfl
  | cons field rest ih =>
    rw [List.mapM_cons, ← ih]
    rfl

theorem mapM_isSome {α β : Type} {f : α → Option β} {l : List α} : (l.mapM f).isSome ↔ ∀ x ∈ l, (f x).isSome := by
  induction l with
  | nil => simp
  | cons x rest ih =>
    rw [List.mapM_cons, List.forall_mem_cons, ← ih]
    cases f x <;> cases rest.mapM f <;> simp

theorem and_iff_left_of_decode {element : Item} {basic : Bool}
    (decoded : basic = true → (decode element.content).isSome) :
    basic = true ↔ basic = true ∧ (decode element.content).isSome := ⟨fun here => ⟨here, decoded here⟩, And.left⟩

theorem decode_array (elementSignature : Signature) (elements : List Item) :
    (decode (.array elementSignature elements)).isSome ↔
      elementType elementSignature ≠ .other ∧ ∀ element ∈ elements,
        element.fits (elementType elementSignature) ∧ (decode element.content).isSome := by
  rw [decode]
  cases elementType elementSignature with
  | other => simp
  | byte | string | objectPath =>
    simp only [Option.isSome_map, mapM_isSome, ne_eq, reduceCtorEq, not_false_eq_true, true_and, Item.fits]
    refine forall₂_congr fun element _ => and_iff_left_of_decode fun basic => ?_
    cases element <;> first | rfl | cases basic
  | dictEntry =>
    simp only [Option.isSome_map, decodeEntries_eq, mapM_isSome, ne_eq, reduceCtorEq,
      not_false_eq_true, true_and, Item.fits]
    refine forall₂_congr fun element _ => ?_
    cases element.entryKey? <;> cases decode element.content <;> simp
  | array | variant =>
    simp only [Option.isSome_map, decodeArrays_eq, decodeVariants_eq, mapM_isSome, ne_eq,
      reduceCtorEq, not_false_eq_true, true_and]
    refine forall₂_congr fun element _ => ?_
    split <;> simp [*]

theorem decode_isSome (item : Item) : (decode item).isSome ↔ Readable item := by
  induction item using Item.induct with
  | scalar value => exact ⟨fun _ => .scalar value, fun _ => rfl⟩
  | string value => exact ⟨fun _ => .string value, fun _ => rfl⟩
  | objectPath value => exact ⟨fun _ => .objectPath value, fun _ => rfl⟩
  | signature value => exact ⟨nofun, nofun⟩
  | unixFd index => exact ⟨nofun, nofun⟩
  | dictEntry key value => exact ⟨nofun, nofun⟩
  | variant value => exact ⟨nofun, nofun⟩
  | struct fields ih =>
    rw [decode, Option.isSome_map, decodeFields_eq, mapM_isSome]
    constructor
    · exact fun each => .struct fun field member => (ih field member).mp (each field member)
    · rintro (_ | _ | _ | _ | each)
      exact fun field member => (ih field member).mpr (each field member)
  | array elementSignature elements ih =>
    rw [decode_array]
    constructor
    · rintro ⟨known, each⟩
      exact .array known (fun element member => (each element member).1)
        fun element member => (ih element member).mp (each element member).2
    · rintro (_ | _ | _ | ⟨known, fit, contents⟩)
      exact ⟨known, fun element member =>
        ⟨fit element member, (ih element member).mpr (contents element member)⟩⟩

/-- What can be decoded is read. -/
def Sound (item : Item) : Prop := ∀ value, decode item = some value → getVariantData item = some value

theorem getBasicArray_of_decode (decoded : elements.mapM basic = some values) : getBasicArray basic elements = values := by
  induction elements generalizing values with
  | nil =>
    cases decoded
    rfl
  | cons element rest ih =>
    rw [List.mapM_cons] at decoded
    obtain ⟨value, here, later⟩ := Option.bind_eq_some_iff.mp decoded
    obtain ⟨values, found, same⟩ := Option.bind_eq_some_iff.mp later
    cases same
    rw [getBasicArray, here, ih found]

theorem decodeEntries_cons (decoded : decodeEntries (element :: rest) = some entries) :
    ∃ key value datum later, element = .dictEntry (.string key) (.variant value) ∧
      entries = (key, datum) :: later ∧ decode value = some datum ∧ decodeEntries rest = some later := by
  unfold decodeEntries at decoded
  split at decoded
  · contradiction
  next key value _ same =>
    cases same
    obtain ⟨datum, here, rest⟩ := Option.bind_eq_some_iff.mp decoded
    obtain ⟨later, found, same⟩ := Option.bind_eq_some_iff.mp rest
    cases same
    exact ⟨key, value, datum, later, rfl, rfl, here, found⟩
  · cases decoded

theorem getEntries_of_decode (each : ∀ element ∈ elements, Sound element.content)
    (decoded : decodeEntries elements = some entries) : getEntries elements = entries := by
  induction elements generalizing entries with
  | nil =>
    cases decoded
    rfl
  | cons element rest ih =>
    obtain ⟨sound, others⟩ := List.forall_mem_cons.mp each
    obtain ⟨key, value, datum, entries, rfl, rfl, here, found⟩ := decodeEntries_cons decoded
    have read : getVariantData value = some datum := sound datum here
    simp only [getEntries, read, ih others found]

theorem getArrayArray_of_decode (each : ∀ element ∈ elements, Sound element.content)
    (decoded : decodeArrays elements = some values) : getArrayArray elements = some values := by
  induction elements generalizing values with
  | nil => exact decoded
  | cons element rest ih =>
    obtain ⟨sound, others⟩ := List.forall_mem_cons.mp each
    unfold decodeArrays at decoded
    split at decoded
    · contradiction
    next same =>
      cases same
      obtain ⟨value, here, later⟩ := Option.bind_eq_some_iff.mp decoded
      obtain ⟨values, found, same⟩ := Option.bind_eq_some_iff.mp later
      cases same
      have read : getVariantData (.array _ _) = some value := sound value here
      rw [getArrayArray, read, ih others found]
      rfl
    · cases decoded

theorem getVariantArray_of_decode (each : ∀ element ∈ elements, Sound element.content)
    (decoded : decodeVariants elements = some values) : getVariantArray elements = some values := by
  induction elements generalizing values with
  | nil => exact decoded
  | cons element rest ih =>
    obtain ⟨sound, others⟩ := List.forall_mem_cons.mp each
    unfold decodeVariants at decoded
    split at decoded
    · contradiction
    next inner _ same =>
      cases same
      obtain ⟨value, here, later⟩ := Option.bind_eq_some_iff.mp decoded
      obtain ⟨values, found, same⟩ := Option.bind_eq_some_iff.mp later
      cases same
      have read : getVariantData inner = some value := sound value here
      rw [getVariantArray, read, ih others found]
      rfl
    · cases decoded

theorem getStruct_of_decode (each : ∀ element ∈ elements, Sound element)
    (decoded : decodeFields elements = some values) : getStruct elements = some values := by
  induction elements generalizing values with
  | nil => exact decoded
  | cons field rest ih =>
    obtain ⟨sound, others⟩ := List.forall_mem_cons.mp each
    obtain ⟨value, here, later⟩ := Option.bind_eq_some_iff.mp decoded
    obtain ⟨values, found, same⟩ := Option.bind_eq_some_iff.mp later
    cases same
    rw [getStruct, sound value here, ih others found]
    rfl

theorem getVariantData_of_decode (item : Item) : Sound item := by
  induction item using Item.induct with
  | scalar | string | objectPath | signature | unixFd | dictEntry | variant =>
    exact fun value decoded => decoded
  | struct fields ih =>
    intro value decoded
    obtain ⟨members, found, same⟩ := Option.map_eq_some_iff.mp decoded
    rw [getVariantData, getStruct_of_decode ih found, ← same]
    rfl
  | array elementSignature elements ih =>
    intro value decoded
    rw [decode] at decoded
    rw [getVariantData]
    cases type : elementType elementSignature with
    | other => simp [type] at decoded
    | byte | string | objectPath =>
      simp only [type, Option.map_eq_some_iff] at decoded
      obtain ⟨values, found, rfl⟩ := decoded
      exact congrArg _ (congrArg _ (getBasicArray_of_decode found))
    | dictEntry =>
      simp only [type, Option.map_eq_some_iff] at decoded
      obtain ⟨entries, found, rfl⟩ := decoded
      simp only [getEntries_of_decode ih found]
    | array =>
      simp only [type, Option.map_eq_some_iff] at decoded
      obtain ⟨values, found, rfl⟩ := decoded
      simp [getArrayArray_of_decode ih found]
    | variant =>
      simp only [type, Option.map_eq_some_iff] at decoded
      obtain ⟨values, found, rfl⟩ := decoded
      simp [getVariantArray_of_decode ih found]

/-! ## Dictionaries -/

def Item.isDict : Item → Bool
  | .array elementSignature _ => elementType elementSignature = .dictEntry
  | _ => false

/-- A call that returns `TRUE` has all of the dictionary, and one for a dictionary that cannot be
decoded returns `FALSE`. -/
def Whole (item : Item) : Prop :=
  (∀ result, getDict item = some result → decodeDict item = some result) ∧
    (decodeDict item = none → getDict item = none)

theorem decodeDict_of_isDict (dict : item.isDict) : decodeDict item = decode item := by
  cases item with
  | array elementSignature elements =>
    have type : elementType elementSignature = .dictEntry := of_decide_eq_true dict
    rw [decodeDict, decode, if_pos type, type]
  | _ => cases dict

theorem getDict_of_isDict (dict : item.isDict) : getDict item = getVariantData item := by
  cases item with
  | array elementSignature elements =>
    have type : elementType elementSignature = .dictEntry := of_decide_eq_true dict
    rw [getDict, getVariantData, if_pos type, type]
  | _ => cases dict

theorem getDict_isSome (item : Item) : (getDict item).isSome = item.isDict := by
  cases item with
  | array elementSignature elements =>
    by_cases type : elementType elementSignature = .dictEntry <;> simp [getDict, Item.isDict, type]
  | _ => rfl

/-- A dictionary comes out whole exactly if the library has values for all that is in it. -/
theorem whole_iff (item : Item) : Whole item ↔ (item.isDict → Readable item) := by
  by_cases dict : item.isDict = true
  · simp only [dict, true_imp_iff, Whole, decodeDict_of_isDict dict]
    constructor
    · intro ⟨whole, _⟩
      obtain ⟨result, found⟩ := Option.isSome_iff_exists.mp ((getDict_isSome item).trans dict)
      exact (decode_isSome item).mp (whole result found ▸ rfl)
    · intro readable
      obtain ⟨value, decoded⟩ := Option.isSome_iff_exists.mp ((decode_isSome item).mpr readable)
      rw [getDict_of_isDict dict, getVariantData_of_decode item value decoded, decoded]
      exact ⟨fun result same => same, fun nothing => nothing⟩
  · have refused : getDict item = none :=
      Option.not_isSome_iff_eq_none.mp ((getDict_isSome item).symm ▸ dict)
    simp [Whole, refused, dict]

/-- The first entry has an array of numbers. -/
def numbers : Item :=
  .array dictEntrySignature [
    .dictEntry (.string (ascii ['a'])) (.variant (.array ['i'] [.scalar (.int32 1)])),
    .dictEntry (.string (ascii ['b'])) (.variant (.string (ascii ['x'])))]

/-- The call returns `TRUE` and an empty dictionary. -/
theorem numbers_not_whole : getDict numbers = some (.dict []) ∧ decodeDict numbers = none ∧
    ¬ Whole numbers := by
  have read : getDict numbers = some (.dict []) := rfl
  have refused : decodeDict numbers = none := rfl
  refine ⟨read, refused, fun whole => ?_⟩
  have same := whole.1 _ read
  rw [refused] at same
  cases same

mutual

/-- What the library itself writes. -/
def ofValue : Value → Item
  | .scalar value => .scalar value
  | .string value => .string value
  | .objectPath value => .objectPath value
  | .array elementSignature elements => .array elementSignature (ofValues elements)
  | .struct fields => .struct (ofValues fields)
  | .dictEntry key value => .dictEntry (.string key) (ofValue value)
  | .variant value => .variant (ofValue value)

def ofValues : List Value → List Item
  | [] => []
  | value :: rest => ofValue value :: ofValues rest

end

theorem getByteArray_ofValues (elements : List Value) :
    getByteArray (ofValues elements) = Marshal.getByteArray elements := by
  fun_induction Marshal.getByteArray elements with
  | case1 byte rest ih => exact congrArg (byte :: ·) ih
  | case2 elements other =>
    cases elements with
    | nil => rfl
    | cons element rest =>
      cases element with
      | scalar value => cases value <;> first | rfl | exact absurd rfl (other _ _)
      | _ => rfl

theorem getStringArray_ofValues (elements : List Value) :
    getStringArray (ofValues elements) = Marshal.getStringArray elements := by
  fun_induction Marshal.getStringArray elements with
  | case1 value rest ih => exact congrArg (value :: ·) ih
  | case2 elements other =>
    cases elements with
    | nil => rfl
    | cons element rest => cases element <;> first | rfl | exact absurd rfl (other _ _)

theorem getObjectPathArray_ofValues (elements : List Value) :
    getObjectPathArray (ofValues elements) = Marshal.getObjectPathArray elements := by
  fun_induction Marshal.getObjectPathArray elements with
  | case1 value rest ih => exact congrArg (value :: ·) ih
  | case2 elements other =>
    cases elements with
    | nil => rfl
    | cons element rest => cases element <;> first | rfl | exact absurd rfl (other _ _)

/-- What the library writes itself is read as `Marshal.getVariantData` has it. -/
theorem getVariantData_ofValue : (∀ value, getVariantData (ofValue value) = Marshal.getVariantData value) ∧
    (∀ fields, getStruct (ofValues fields) = Marshal.getStruct fields) ∧
    (∀ elements, getVariantArray (ofValues elements) = Marshal.getVariantArray elements) ∧
    (∀ elements, getArrayArray (ofValues elements) = Marshal.getArrayArray elements) ∧
    (∀ elements, getEntries (ofValues elements) = Marshal.getDict elements) := by
  apply Marshal.getVariantData.mutual_induct
  case case10 =>
    intro elementSignature elements byte string objectPath dictEntry array variant
    have type : elementType elementSignature = .other := by
      unfold elementType
      split
      · exact absurd rfl (byte _)
      · exact absurd rfl (string _)
      · exact absurd rfl (objectPath _)
      · exact absurd rfl (dictEntry _)
      · exact absurd rfl (array _)
      · exact absurd rfl (variant _)
      · rfl
    rw [ofValue, getVariantData, type, Marshal.getVariantData] <;> assumption
  case case17 =>
    intro elements other
    cases elements with
    | nil => rfl
    | cons element rest => cases element <;> first | rfl | exact absurd rfl (other _ _)
  case case19 =>
    intro elements other
    cases elements with
    | nil => rfl
    | cons element rest => cases element <;> first | rfl | exact absurd rfl (other _ _ _)
  case case22 =>
    intro elements other
    cases elements with
    | nil => rfl
    | cons element rest =>
      cases element with
      | dictEntry key value => cases value <;> first | rfl | exact absurd rfl (other _ _ _)
      | _ => rfl
  case case18 =>
    intro elementSignature elements rest here later
    change (do
      let element ← getVariantData (ofValue (.array elementSignature elements))
      return element :: (← getArrayArray (ofValues rest))) = _
    rw [here, later]
    rfl
  all_goals
    intros
    simp only [ofValue, ofValues, getVariantData, Marshal.getVariantData, elementType,
      getByteArray_ofValues, getStringArray_ofValues, getObjectPathArray_ofValues, List.tail_cons,
      getStruct, getVariantArray, getEntries, Marshal.getStruct, Marshal.getVariantArray,
      Marshal.getDict, *]

end Testbus.Dbus.Decoding
