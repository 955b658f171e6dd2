import Testbus.Dbus.Marshal

namespace Testbus.Dbus.Marshal

section Induction

variable {motive : Variant → Prop}

@[elab_as_elim]
theorem Variant.induct (invalid : motive .invalid) (scalar : ∀ value, motive (.scalar value))
    (string : ∀ value, motive (.string value)) (objectPath : ∀ value, motive (.objectPath value))
    (byteArray : ∀ bytes, motive (.byteArray bytes)) (stringArray : ∀ strings, motive (.stringArray strings))
    (objectPathArray : ∀ paths, motive (.objectPathArray paths)) (basicArray : ∀ type, motive (.basicArray type))
    (variantArray : ∀ elements, (∀ element ∈ elements, motive element) → motive (.variantArray elements))
    (dict : ∀ entries, (∀ entry ∈ entries, motive entry.2) → motive (.dict entries))
    (arrayArray : ∀ inner elements, (∀ element ∈ elements, motive element) → motive (.arrayArray inner elements))
    (struct : ∀ members, (∀ member ∈ members, motive member) → motive (.struct members))
    (variant : Variant) : motive variant := by
  refine @Variant.rec motive (fun list => ∀ element ∈ list, motive element)
    (fun entries => ∀ entry ∈ entries, motive entry.2) (fun entry => motive entry.2)
    invalid scalar string objectPath byteArray stringArray objectPathArray basicArray
    (fun elements ih => variantArray elements ih) (fun entries ih => dict entries ih)
    (fun inner elements ih => arrayArray inner elements ih) (fun members ih => struct members ih)
    ?_ ?_ ?_ ?_ (fun _ _ ih => ih) variant
  · exact fun _ member => nomatch member
  · intro head tail here later
    exact List.forall_mem_cons.mpr ⟨here, later⟩
  · exact fun _ member => nomatch member
  · intro head tail here later
    exact List.forall_mem_cons.mpr ⟨here, later⟩

end Induction

section Signatures

mutual

/-- The signature that a value has in a message. -/
def typeSignature : Variant → Signature
  | .invalid => []
  | .scalar value => [value.type]
  | .string _ => ['s']
  | .objectPath _ => ['o']
  | .byteArray _ => ['a', 'y']
  | .stringArray _ => ['a', 's']
  | .objectPathArray _ => ['a', 'o']
  | .basicArray type => ['a', type]
  | .variantArray _ => ['a', 'v']
  | .dict _ => 'a' :: dictEntrySignature
  | .arrayArray inner _ => 'a' :: 'a' :: inner
  | .struct members => '(' :: (typeSignatures members ++ [')'])

def typeSignatures : List Variant → Signature
  | [] => []
  | member :: rest => typeSignature member ++ typeSignatures rest

end

/-- `ni_dbus_variant_signature` knows the type: it is no array of object paths or of another basic
type, and has no element signature of more than 14 characters, nor does a member of a struct. -/
inductive Signed : Variant → Prop
  | scalar (value : Scalar) : Signed (.scalar value)
  | string (value : Option CString) : Signed (.string value)
  | objectPath (value : Option CString) : Signed (.objectPath value)
  | byteArray (bytes : List UInt8) : Signed (.byteArray bytes)
  | stringArray (strings : List CString) : Signed (.stringArray strings)
  | variantArray (elements : List Variant) : Signed (.variantArray elements)
  | dict (entries : List (CString × Variant)) : Signed (.dict entries)
  | arrayArray {inner : Signature} (elements : List Variant) (short : inner.length ≤ 13) :
    Signed (.arrayArray inner elements)
  | struct {members : List Variant} (signed : ∀ member ∈ members, Signed member) :
    Signed (.struct members)

variable {signature : Signature}

theorem memberSignatures_of_signed (signed : ∀ member ∈ members, variantSignature member = some (typeSignature member)) :
    memberSignatures members = some (typeSignatures members) := by
  induction members with
  | nil => rfl
  | cons member rest ih =>
    obtain ⟨here, later⟩ := List.forall_mem_cons.mp signed
    simp [memberSignatures, typeSignatures, here, ih later]

theorem Signed.known (signed : Signed variant) : variantSignature variant = some (typeSignature variant) := by
  induction signed with
  | arrayArray elements short =>
    refine congrArg some (List.take_of_length_le ?_)
    simp only [List.length_cons]
    omega
  | struct signed ih =>
    simp [variantSignature, typeSignature, memberSignatures_of_signed ih]
  | _ => rfl

theorem memberSignatures_length (each : ∀ member ∈ members, ∀ signature, variantSignature member = some signature →
      signature.length ≤ (typeSignature member).length ∧
        (signature.length = (typeSignature member).length → Signed member))
    (known : memberSignatures members = some signature) :
    signature.length ≤ (typeSignatures members).length ∧
      (signature.length = (typeSignatures members).length → ∀ member ∈ members, Signed member) := by
  induction members generalizing signature with
  | nil =>
    cases known
    exact ⟨Nat.le_refl _, fun _ _ member => nomatch member⟩
  | cons member rest ih =>
    obtain ⟨here, later⟩ := List.forall_mem_cons.mp each
    obtain ⟨first, own, others⟩ := Option.bind_eq_some_iff.mp known
    obtain ⟨second, rest', same⟩ := Option.bind_eq_some_iff.mp others
    cases same
    obtain ⟨le₁, signed₁⟩ := here first own
    obtain ⟨le₂, signed₂⟩ := ih later rest'
    simp only [typeSignatures, List.length_append, List.forall_mem_cons]
    exact ⟨by omega, fun whole => ⟨signed₁ (by omega), signed₂ (by omega)⟩⟩

/-- A signature is never too long, and it is too short if it is wrong. -/
theorem variantSignature_length (known : variantSignature variant = some signature) :
    signature.length ≤ (typeSignature variant).length ∧
      (signature.length = (typeSignature variant).length → Signed variant) := by
  induction variant using Variant.induct generalizing signature with
  | invalid | objectPathArray | basicArray => cases known
  | arrayArray inner elements _ =>
    cases known
    simp only [typeSignature, List.length_take, List.length_cons]
    exact ⟨by omega, fun whole => .arrayArray elements (by omega)⟩
  | struct members ih =>
    obtain ⟨inside, found, same⟩ := Option.bind_eq_some_iff.mp known
    cases same
    obtain ⟨le, signed⟩ := memberSignatures_length (fun m mem _ => ih m mem) found
    simp only [typeSignature, List.length_cons, List.length_append]
    exact ⟨by omega, fun whole => .struct (signed (by omega))⟩
  | _ =>
    cases known
    exact ⟨Nat.le_refl _, fun _ => by constructor⟩

theorem signed_iff : variantSignature variant = some (typeSignature variant) ↔ Signed variant :=
  ⟨fun known => (variantSignature_length known).2 rfl, Signed.known⟩

end Signatures

section Contents

variable {value : Value} {values : List Value} {elements : List Variant}

/-- Every part that needs a value has one, no boolean is other than 0 or 1, an array of arrays has elements of the type that it
declares, and the elements of a variant array and the data of a dictionary have known types. -/
inductive Complete : Variant → Prop
  | scalar {value : Scalar} (valid : value.valid = true) : Complete (.scalar value)
  | string (value : CString) : Complete (.string (some value))
  | objectPath (value : CString) : Complete (.objectPath (some value))
  | byteArray (bytes : List UInt8) : Complete (.byteArray bytes)
  | stringArray (strings : List CString) : Complete (.stringArray strings)
  | objectPathArray (paths : List CString) : Complete (.objectPathArray paths)
  | variantArray {elements : List Variant} (complete : ∀ element ∈ elements, Complete element)
    (signed : ∀ element ∈ elements, Signed element) : Complete (.variantArray elements)
  | dict {entries : List (CString × Variant)} (complete : ∀ entry ∈ entries, Complete entry.2)
    (signed : ∀ entry ∈ entries, Signed entry.2) : Complete (.dict entries)
  | arrayArray {inner : Signature} {elements : List Variant}
    (complete : ∀ element ∈ elements, Complete element)
    (typed : ∀ element ∈ elements, typeSignature element = 'a' :: inner) :
    Complete (.arrayArray inner elements)
  | struct {members : List Variant} (complete : ∀ member ∈ members, Complete member) :
    Complete (.struct members)

section Complete

variable {entries : List (CString × Variant)} {inner : Signature}

theorem complete_variantArray : Complete (.variantArray elements) ↔
    (∀ element ∈ elements, Complete element) ∧ ∀ element ∈ elements, Signed element := by
  constructor
  · rintro ⟨⟩
    exact ⟨by assumption, by assumption⟩
  · intro ⟨complete, signed⟩
    exact .variantArray complete signed

theorem complete_dict : Complete (.dict entries) ↔
    (∀ entry ∈ entries, Complete entry.2) ∧ ∀ entry ∈ entries, Signed entry.2 := by
  constructor
  · rintro ⟨⟩
    exact ⟨by assumption, by assumption⟩
  · intro ⟨complete, signed⟩
    exact .dict complete signed

theorem complete_arrayArray : Complete (.arrayArray inner elements) ↔
    (∀ element ∈ elements, Complete element) ∧ ∀ element ∈ elements, typeSignature element = 'a' :: inner := by
  constructor
  · rintro ⟨⟩
    exact ⟨by assumption, by assumption⟩
  · intro ⟨complete, typed⟩
    exact .arrayArray complete typed

theorem complete_struct : Complete (.struct elements) ↔ ∀ element ∈ elements, Complete element := by
  constructor
  · rintro ⟨⟩
    assumption
  · exact .struct

theorem signed_struct : Signed (.struct elements) ↔ ∀ element ∈ elements, Signed element := by
  constructor
  · rintro ⟨⟩
    assumption
  · exact .struct

end Complete

theorem closeArray_some (closed : closeArray elementSignature values = some value) :
    value = .array elementSignature values ∧ ∀ element ∈ values, element.signature = elementSignature := by
  unfold closeArray at closed
  split at closed
  · rename_i matching
    cases closed
    exact ⟨rfl, matching⟩
  · cases closed

theorem array_of_signature {inner : Signature} (typed : value.signature = 'a' :: inner) :
    ∃ elements, value = .array inner elements := by
  cases value with
  | array elementSignature elements =>
    cases typed
    exact ⟨elements, rfl⟩
  | scalar scalar => cases scalar <;> simp [Value.signature, Scalar.type] at typed
  | _ => simp [Value.signature] at typed

theorem enclose_variant (appended : enclose (some ['v']) variant contents = some value) :
    ∃ inside, contents = some inside ∧ value = .variant inside ∧ variantSignature variant = some inside.signature := by
  obtain ⟨signature, known, rest⟩ := Option.bind_eq_some_iff.mp appended
  obtain ⟨inside, found, closed⟩ := Option.bind_eq_some_iff.mp rest
  unfold closeVariant at closed
  split at closed
  · rename_i matching
    cases closed
    exact ⟨inside, found, rfl, matching ▸ known⟩
  · cases closed

/-- What was appended for a value, and when it is read back. -/
def Reads (variant : Variant) (value : Value) : Prop :=
  value.signature = typeSignature variant ∧ (getVariantData value = some variant ↔ Complete variant)

theorem bind_cons_some :
    (do let x ← first; let xs ← others; return x :: xs) = some (head :: tail) ↔
      first = some head ∧ others = some tail := by
  cases first <;> cases others <;> simp

theorem appendValues_cons (appended : appendValues signature (element :: rest) = some values) :
    ∃ first others, values = first :: others ∧ appendValues signature rest = some others ∧
      enclose signature element (appendContents element) = some first := by
  obtain ⟨first, here, after⟩ := Option.bind_eq_some_iff.mp appended
  obtain ⟨others, later, same⟩ := Option.bind_eq_some_iff.mp after
  cases same
  exact ⟨first, others, rfl, later, here⟩

variable (each : ∀ element ∈ elements, ∀ value, appendContents element = some value →
  Reads element value)

include each

theorem variants_read (appended : appendValues (some ['v']) elements = some values) :
    getVariantArray values = some elements ↔
      (∀ element ∈ elements, Complete element) ∧ ∀ element ∈ elements, Signed element := by
  induction elements generalizing values with
  | nil =>
    cases appended
    simp [getVariantArray]
  | cons element rest ih =>
    obtain ⟨here, later⟩ := List.forall_mem_cons.mp each
    obtain ⟨first, others, rfl, tail, enclosed⟩ := appendValues_cons appended
    obtain ⟨inside, found, rfl, known⟩ := enclose_variant enclosed
    obtain ⟨typed, read⟩ := here inside found
    have signed : Signed element := signed_iff.mp (typed ▸ known)
    simp only [getVariantArray, List.forall_mem_cons, bind_cons_some, read, ih later tail, signed, true_and]
    exact and_assoc.symm

theorem elements_read {inner : Signature} (appended : appendValues (some ('a' :: inner)) elements = some values)
    (typed : ∀ value ∈ values, value.signature = 'a' :: inner) :
    getArrayArray values = some elements ↔
      (∀ element ∈ elements, Complete element) ∧ ∀ element ∈ elements, typeSignature element = 'a' :: inner := by
  induction elements generalizing values with
  | nil =>
    cases appended
    simp [getArrayArray]
  | cons element rest ih =>
    obtain ⟨here, later⟩ := List.forall_mem_cons.mp each
    obtain ⟨first, others, rfl, tail, found⟩ := appendValues_cons appended
    obtain ⟨typed₁, typed₂⟩ := List.forall_mem_cons.mp typed
    obtain ⟨same, read⟩ := here first found
    obtain ⟨elements', rfl⟩ := array_of_signature typed₁
    simp only [getArrayArray, List.forall_mem_cons, bind_cons_some, read, ih later tail typed₂, ← same, typed₁, true_and]
    exact and_assoc.symm

theorem members_read (appended : appendValues none elements = some values) :
    getStruct values = some elements ↔ ∀ element ∈ elements, Complete element := by
  induction elements generalizing values with
  | nil =>
    cases appended
    simp [getStruct]
  | cons element rest ih =>
    obtain ⟨here, later⟩ := List.forall_mem_cons.mp each
    obtain ⟨first, others, rfl, tail, enclosed⟩ := appendValues_cons appended
    obtain ⟨signature, known, found⟩ := Option.bind_eq_some_iff.mp enclosed
    obtain ⟨same, read⟩ := here first found
    simp only [getStruct, List.forall_mem_cons, bind_cons_some, read, ih later tail]

omit each

theorem entries_read (each : ∀ entry ∈ entries, ∀ value, appendContents entry.2 = some value → Reads entry.2 value)
    (appended : appendDictEntries entries = some values) :
    getDict values = entries ↔ (∀ entry ∈ entries, Complete entry.2) ∧ ∀ entry ∈ entries, Signed entry.2 := by
  induction entries generalizing values with
  | nil =>
    cases appended
    simp [getDict]
  | cons entry rest ih =>
    obtain ⟨here, later⟩ := List.forall_mem_cons.mp each
    obtain ⟨first, enclosed, after⟩ := Option.bind_eq_some_iff.mp appended
    obtain ⟨others, tail, same⟩ := Option.bind_eq_some_iff.mp after
    cases same
    obtain ⟨inside, found, rfl, known⟩ := enclose_variant enclosed
    obtain ⟨typed, read⟩ := here inside found
    have signed : Signed entry.2 := signed_iff.mp (typed ▸ known)
    have reads : getDict (.dictEntry entry.1 (.variant inside) :: others) = entry :: rest ↔
        getVariantData inside = some entry.2 ∧ getDict others = rest := by
      simp only [getDict]
      cases getVariantData inside with
      | none => simp
      | some datum => simp [Prod.ext_iff]
    simp only [reads, List.forall_mem_cons, read, ih later tail, signed, true_and]
    exact and_assoc.symm

theorem getByteArray_map (bytes : List UInt8) : getByteArray (bytes.map fun byte => .scalar (.byte byte)) = bytes := by
  induction bytes with
  | nil => rfl
  | cons byte rest ih => exact congrArg (byte :: ·) ih

theorem getStringArray_map (strings : List CString) : getStringArray (strings.map .string) = strings := by
  induction strings with
  | nil => rfl
  | cons value rest ih => exact congrArg (value :: ·) ih

theorem getObjectPathArray_map (paths : List CString) : getObjectPathArray (paths.map .objectPath) = paths := by
  induction paths with
  | nil => rfl
  | cons path rest ih => exact congrArg (path :: ·) ih

theorem fields_signature (each : ∀ element ∈ elements, ∀ value, appendContents element = some value → Reads element value)
    (appended : appendValues none elements = some fields) : Value.signatures fields = typeSignatures elements := by
  induction elements generalizing fields with
  | nil =>
    cases appended
    rfl
  | cons element rest ih =>
    obtain ⟨here, later⟩ := List.forall_mem_cons.mp each
    obtain ⟨first, others, rfl, tail, enclosed⟩ := appendValues_cons appended
    obtain ⟨signature, known, found⟩ := Option.bind_eq_some_iff.mp enclosed
    simp only [Value.signatures, typeSignatures, (here first found).1, ih later tail]

/-- The contents of a message have the type of the value, and are read back as the value if it is
complete. -/
theorem appendContents_reads (appended : appendContents variant = some value) : Reads variant value := by
  induction variant using Variant.induct generalizing value with
  | invalid | basicArray => cases appended
  | scalar scalar =>
    simp only [appendContents] at appended
    split at appended
    · rename_i valid
      cases appended
      exact ⟨rfl, iff_of_true rfl (.scalar valid)⟩
    · cases appended
  | string string =>
    cases appended
    refine ⟨rfl, ?_⟩
    cases string with
    | none => exact iff_of_false nofun nofun
    | some value => exact iff_of_true rfl (.string value)
  | objectPath path =>
    obtain ⟨path, rfl, rfl⟩ := Option.map_eq_some_iff.mp appended
    exact ⟨rfl, iff_of_true rfl (.objectPath path)⟩
  | byteArray bytes =>
    obtain ⟨rfl, -⟩ := closeArray_some appended
    exact ⟨rfl, iff_of_true (by simp only [getVariantData, getByteArray_map]) (.byteArray bytes)⟩
  | stringArray strings =>
    obtain ⟨rfl, -⟩ := closeArray_some appended
    refine ⟨rfl, iff_of_true ?_ (.stringArray strings)⟩
    simp only [getVariantData, getStringArray_map]
  | objectPathArray paths =>
    obtain ⟨rfl, -⟩ := closeArray_some appended
    refine ⟨rfl, iff_of_true ?_ (.objectPathArray paths)⟩
    simp only [getVariantData, getObjectPathArray_map]
  | variantArray elements ih =>
    obtain ⟨values, inside, closed⟩ := Option.bind_eq_some_iff.mp appended
    obtain ⟨rfl, -⟩ := closeArray_some closed
    refine ⟨rfl, Iff.trans ?_ ((variants_read ih inside).trans complete_variantArray.symm)⟩
    simp only [getVariantData]
    cases getVariantArray values <;> simp
  | dict entries ih =>
    obtain ⟨values, inside, closed⟩ := Option.bind_eq_some_iff.mp appended
    obtain ⟨rfl, -⟩ := closeArray_some closed
    refine ⟨rfl, Iff.trans ?_ ((entries_read ih inside).trans complete_dict.symm)⟩
    simp only [dictEntrySignature, getVariantData, Option.some.injEq, Variant.dict.injEq]
  | arrayArray inner elements ih =>
    obtain ⟨values, inside, closed⟩ := Option.bind_eq_some_iff.mp appended
    obtain ⟨rfl, typed⟩ := closeArray_some closed
    refine ⟨rfl, Iff.trans ?_ ((elements_read ih inside typed).trans complete_arrayArray.symm)⟩
    simp only [getVariantData]
    cases getArrayArray values <;> simp
  | struct members ih =>
    obtain ⟨fields, inside, same⟩ := Option.bind_eq_some_iff.mp appended
    cases same
    refine ⟨?_, Iff.trans ?_ ((members_read ih inside).trans complete_struct.symm)⟩
    · simp only [Value.signature, typeSignature, fields_signature ih inside]
    · simp only [getVariantData]
      cases getStruct fields <;> simp

theorem closeArray_of (matching : ∀ element ∈ values, element.signature = elementSignature) :
    closeArray elementSignature values = some (.array elementSignature values) := if_pos matching

theorem enclose_signed (signed : Signed variant) (appended : appendContents variant = some value) :
    enclose (some ['v']) variant (appendContents variant) = some (.variant value) := by
  have same := (appendContents_reads appended).1
  simp [enclose, signed.known, appended, closeVariant, same]

theorem appendValues_of (signature : Option Signature) (P : Value → Prop)
    (each : ∀ element ∈ elements, ∃ value, enclose signature element (appendContents element) = some value ∧ P value) :
    ∃ values, appendValues signature elements = some values ∧ ∀ value ∈ values, P value := by
  induction elements with
  | nil => exact ⟨[], rfl, by simp⟩
  | cons element rest ih =>
    obtain ⟨⟨value, here, p⟩, later⟩ := List.forall_mem_cons.mp each
    obtain ⟨values, tail, ps⟩ := ih later
    exact ⟨value :: values, by simp [appendValues, here, tail], List.forall_mem_cons.mpr ⟨p, ps⟩⟩

theorem appendDictEntries_of (each : ∀ entry ∈ entries, ∃ value, appendContents entry.2 = some value)
    (signed : ∀ entry ∈ entries, Signed entry.2) :
    ∃ values, appendDictEntries entries = some values ∧ ∀ value ∈ values, value.signature = dictEntrySignature := by
  induction entries with
  | nil => exact ⟨[], rfl, by simp⟩
  | cons entry rest ih =>
    obtain ⟨⟨value, here⟩, later⟩ := List.forall_mem_cons.mp each
    obtain ⟨signed₁, signed₂⟩ := List.forall_mem_cons.mp signed
    obtain ⟨values, tail, typed⟩ := ih later signed₂
    refine ⟨.dictEntry entry.1 (.variant value) :: values, ?_, ?_⟩
    · simp [appendDictEntries, enclose_signed signed₁ here, tail]
    · exact List.forall_mem_cons.mpr ⟨rfl, typed⟩

/-- Complete contents can be appended where their type is known or declared. -/
theorem appendContents_of (complete : Complete variant)
    (typed : Signed variant ∨ ∃ inner, typeSignature variant = 'a' :: inner) :
    ∃ value, appendContents variant = some value := by
  induction complete with
  | scalar valid => exact ⟨_, if_pos valid⟩
  | string | objectPath => exact ⟨_, rfl⟩
  | byteArray bytes => exact ⟨_, closeArray_of (by simp [Value.signature, Scalar.type])⟩
  | stringArray strings => exact ⟨_, closeArray_of (by simp [Value.signature])⟩
  | objectPathArray paths => exact ⟨_, closeArray_of (by simp [Value.signature])⟩
  | variantArray _ signed ih =>
    obtain ⟨values, appended, matching⟩ := appendValues_of (some ['v']) (·.signature = ['v'])
      fun element member =>
        have ⟨value, found⟩ := ih element member (.inl (signed element member))
        ⟨.variant value, enclose_signed (signed element member) found, rfl⟩
    exact ⟨.array ['v'] values, by simp [appendContents, appended, closeArray_of matching]⟩
  | dict _ signed ih =>
    obtain ⟨values, appended, matching⟩ := appendDictEntries_of
      (fun entry member => ih entry member (.inl (signed entry member))) signed
    exact ⟨.array dictEntrySignature values, by
      simp [appendContents, appended, closeArray_of matching]⟩
  | @arrayArray inner elements _ same ih =>
    obtain ⟨values, appended, matching⟩ := appendValues_of (some ('a' :: inner))
      (·.signature = 'a' :: inner) fun element member =>
        have ⟨value, found⟩ := ih element member (.inr ⟨inner, same element member⟩)
        ⟨value, found, ((appendContents_reads found).1).trans (same element member)⟩
    exact ⟨.array ('a' :: inner) values, by simp [appendContents, appended, closeArray_of matching]⟩
  | struct _ ih =>
    rcases typed with signed | ⟨inner, same⟩
    · have members := signed_struct.mp signed
      obtain ⟨fields, appended, -⟩ := appendValues_of none (fun _ => True) fun element member =>
        have ⟨value, found⟩ := ih element member (.inl (members element member))
        ⟨value, by simp [enclose, (members element member).known, found], trivial⟩
      exact ⟨.struct fields, by simp [appendContents, appended]⟩
    · simp [typeSignature] at same

end Contents

/-- A value is read back as it was if its parts are set, its arrays of arrays have the elements that
they declare, and no type in it is one that `ni_dbus_variant_signature` does not know. -/
theorem roundTrip_iff (variant : Variant) :
    roundTrip variant = some variant ↔ Complete variant ∧ Signed variant := by
  constructor
  · intro read
    obtain ⟨value, appended, got⟩ := Option.bind_eq_some_iff.mp read
    obtain ⟨inside, found, rfl, known⟩ := enclose_variant appended
    obtain ⟨same, complete⟩ := appendContents_reads found
    exact ⟨complete.mp got, signed_iff.mp (same ▸ known)⟩
  · intro ⟨complete, signed⟩
    obtain ⟨value, found⟩ := appendContents_of complete (.inl signed)
    have got := (appendContents_reads found).2.mpr complete
    simp [roundTrip, appendVariant, enclose_signed signed found, getVariant, got]

/-- Both kinds of types without a right signature: an array of object paths, and an array of arrays
whose element signature has 15 characters. -/
theorem roundTrip_refused : roundTrip (.objectPathArray [ascii ['/']]) = none ∧
    roundTrip (.arrayArray (List.replicate 13 'a' ++ ['s']) []) = none ∧
    ¬ ∀ variant, Complete variant → roundTrip variant = some variant := by
  have refused : roundTrip (.objectPathArray [ascii ['/']]) = none := by rfl
  refine ⟨refused, by rfl, fun all => ?_⟩
  cases refused.symm.trans (all _ (.objectPathArray _))

end Testbus.Dbus.Marshal
