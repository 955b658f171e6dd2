import Testbus.Schema.Mapped

namespace Testbus.Schema

open Dbus.Marshal Environ Xml

variable {α : Type}

section Texts

variable {doubles : Doubles} {type : BasicType} {text : CString}

theorem whole_some : whole number = some value ↔ number = (value, []) := by
  obtain ⟨own, rest⟩ := number
  cases rest <;> simp [whole]

theorem formatByte_reads (value : UInt8) : whole (unsignedText (formatByte value)) = some value.toNat := by
  revert value
  exact forall_byte (by decide +kernel)

theorem formatChar_reads (value : UInt8) :
    ∃ n, whole (unsignedText (formatChar value)) = some n ∧ UInt8.ofNat n = value := by
  have all : ∀ value, (whole (unsignedText (formatChar value))).map UInt8.ofNat = some value :=
    forall_byte (by decide +kernel)
  obtain ⟨n, read, same⟩ := Option.map_eq_some_iff.mp (all value)
  exact ⟨n, read, same⟩

theorem formatNat_reads (fits : n < 2 ^ 64) : whole (unsignedText (formatNat n)) = some n := by
  simp [whole, unsignedText, strtoul_formatNat fits]

theorem formatInt_reads (low : -2 ^ 63 ≤ n) (high : n < 2 ^ 63) : whole (strtol 0 (formatInt n)) = some n := by
  simp [whole, strtol_formatInt low high]

variable (doubles) in
/-- The text of a boolean is `true`, `false`, 0 or 1 (in 32 bits), and the digits that a double is
printed with make the double. -/
def TextKept (type : BasicType) (text : CString) : Prop :=
  match type with
  | .boolean => text = trueText ∨ text = falseText ∨ UInt32.ofNat (strtoul 0 text).1 ≤ 1
  | .double => doubles.strtod (doubles.format (doubles.strtod text).1) =
      ((doubles.strtod text).1, [])
  | _ => True

theorem boolean_restored (value : UInt32) :
    (∃ again, variantSprint doubles (.scalar (.boolean value)) = some again ∧
      variantParse doubles .boolean again = some (.scalar (.boolean value))) ↔ value ≤ 1 := by
  simp only [variantSprint, Option.some.injEq, exists_eq_left']
  by_cases zero : value = 0
  · subst zero
    exact iff_of_true rfl (by decide)
  · have parsed : variantParse doubles .boolean trueText = some (.scalar (.boolean 1)) := rfl
    simp only [ne_eq, zero, not_false_eq_true, if_true, parsed, Option.some.injEq,
      Variant.scalar.injEq, Scalar.boolean.injEq]
    grind

theorem text_restored (parsed : variantParse doubles type text = some var) :
    (∃ again, variantSprint doubles var = some again ∧
      variantParse doubles type again = some var) ↔ TextKept doubles type text := by
  cases type with
  | string | objectPath =>
    cases parsed
    exact iff_of_true ⟨text, rfl, rfl⟩ trivial
  | byte =>
    obtain ⟨n, -, same⟩ := Option.bind_eq_some_iff.mp parsed
    cases same
    obtain ⟨m, read, same⟩ := formatChar_reads (UInt8.ofNat n)
    exact iff_of_true ⟨_, rfl, by simp [variantParse, read, same]⟩ trivial
  | uint16 | uint32 | uint64 =>
    obtain ⟨n, -, same⟩ := Option.bind_eq_some_iff.mp parsed
    cases same
    refine iff_of_true ⟨_, rfl, ?_⟩ trivial
    simp (disch := grind) [variantParse, formatNat_reads]
    simp [UInt16.ofNat_eq_iff_mod_eq_toNat, UInt32.ofNat_eq_iff_mod_eq_toNat, UInt64.ofNat_eq_iff_mod_eq_toNat]
  | int16 | int32 | int64 =>
    obtain ⟨n, -, same⟩ := Option.bind_eq_some_iff.mp parsed
    cases same
    refine iff_of_true ⟨_, rfl, ?_⟩ trivial
    simp (disch := grind) [variantParse, formatInt_reads]
    simp [Int16.ofInt_eq_iff_bmod_eq_toInt, Int32.ofInt_eq_iff_bmod_eq_toInt, Int64.ofInt_eq_iff_bmod_eq_toInt]
  | boolean =>
    simp only [TextKept]
    simp only [variantParse] at parsed
    split at parsed
    · rename_i same
      cases parsed
      exact iff_of_true ⟨_, rfl, rfl⟩ (.inl same)
    · split at parsed
      · rename_i same
        cases parsed
        exact iff_of_true ⟨_, rfl, rfl⟩ (.inr (.inl same))
      · rename_i notTrue notFalse
        obtain ⟨n, read, same⟩ := Option.bind_eq_some_iff.mp parsed
        cases same
        obtain rfl : (strtoul 0 text).1 = n := congrArg Prod.fst (whole_some.mp read)
        simp only [notTrue, notFalse, false_or]
        exact boolean_restored _
  | double =>
    obtain ⟨value, read, same⟩ := Option.bind_eq_some_iff.mp parsed
    cases same
    simp only [TextKept, whole_some.mp read, ← whole_some, variantSprint, Option.some.injEq,
      exists_eq_left', variantParse]
    cases whole (doubles.strtod (doubles.format value)) <;> simp

end Texts

section Nodes

variable (node child : Node) (text : Option CString)

@[simp] theorem name_setCdata : (node.setCdata text).name = node.name := by cases node; rfl

@[simp] theorem attrs_setCdata : (node.setCdata text).attrs = node.attrs := by cases node; rfl

@[simp] theorem cdata_setCdata : (node.setCdata text).cdata = text := by cases node; rfl

@[simp] theorem name_addChild : (node.addChild child).name = node.name := by cases node; rfl

@[simp] theorem attrs_addChild : (node.addChild child).attrs = node.attrs := by cases node; rfl

@[simp] theorem children_addChild : (node.addChild child).children = node.children ++ [child] := by cases node; rfl

@[simp] theorem children_new : (Node.new text).children = [] := rfl

variable (attr : CString) (value : CString)

@[simp] theorem name_addAttr : (node.addAttr attr text).name = node.name := by cases node; rfl

@[simp] theorem children_addAttr : (node.addAttr attr text).children = node.children := by
  cases node; rfl

theorem getAttr_addAttr (other : CString) : (node.addAttr attr (some value)).getAttr other =
    if other = attr then some value else node.getAttr other := by
  cases node
  simp only [Node.addAttr, Node.getAttr, Node.attrs, get_set]
  split <;> rfl

end Nodes

/-- What a function that fills a node leaves: the name and the attributes that it has. -/
structure Fills (node filled : Node) : Prop where
  name : filled.name = node.name
  attrs : ∀ attr value, node.getAttr attr = some value → filled.getAttr attr = some value

variable {node filled : Node}

theorem Fills.of_attrs (name : filled.name = node.name) (attrs : filled.attrs = node.attrs) : Fills node filled :=
  ⟨name, fun attr value found => by rw [Node.getAttr, attrs]; exact found⟩

theorem Fills.trans (first : Fills node filled) (second : Fills filled last) : Fills node last :=
  ⟨second.name.trans first.name, fun attr value found =>
    second.attrs attr value (first.attrs attr value found)⟩

variable {type : BasicType}

section Scalars

variable (doubles : Doubles)

def ScalarKept (info : ScalarInfo) (node : Node) : Prop :=
  ∀ type, info.type = some type →
    match info.bitmap, info.enums with
    | some bits, _ => BitsKept doubles type bits node.children
    | none, some names => ∀ text, node.cdata = some text → EnumKept doubles type names text
    | none, none => ∀ text, node.cdata = some text → TextKept doubles type text

variable {doubles} {node base : Node}

theorem showBits_shown (bits : IntMap) (value : UInt64) (bb left : Nat) (node : Node) :
    Fills node (showBits bits value bb left node) ∧
      (showBits bits value bb left node).children =
        node.children ++ ((List.range' bb left).filterMap fun bb =>
          if value &&& bit (UInt32.ofNat bb) = 0 then none else formatUintMapped (UInt32.ofNat bb) bits).map
            fun name => Node.new (some name) := by
  induction left generalizing bb node with
  | zero => exact ⟨.of_attrs rfl rfl, by simp [showBits]⟩
  | succ left ih =>
    simp only [showBits, List.range'_succ, List.filterMap_cons]
    split
    · exact ih (bb + 1) node
    · split
      · rename_i name found
        obtain ⟨fills, children⟩ := ih (bb + 1) (node.addChild (.new (some name)))
        refine ⟨.trans (.of_attrs (name_addChild _ _) (attrs_addChild _ _)) fills, ?_⟩
        simp [children, found]
      · rename_i missing
        simp only [missing]
        exact ih (bb + 1) node

theorem setUlong_isArray (set : setUlong doubles type value = some var) :
    isArray var = false ∧ ∃ shown, getUlong doubles var = some shown := by
  cases type <;> cases set <;> exact ⟨rfl, _, rfl⟩

theorem setUint_getUint (set : setUint doubles type value = some var) : ∃ shown, getUint doubles var = some shown := by
  cases type <;> cases set <;> exact ⟨_, rfl⟩

theorem variantParse_isArray (parsed : variantParse doubles type text = some var) : isArray var = false := by
  have number : ∀ {α : Type} {number : Option α} {make : α → Scalar},
      (number.bind fun value => some (.scalar (make value))) = some var → isArray var = false := by
    intro α number make made
    obtain ⟨value, -, same⟩ := Option.bind_eq_some_iff.mp made
    cases same
    rfl
  cases type with
  | string | objectPath =>
    cases parsed
    rfl
  | boolean =>
    simp only [variantParse] at parsed
    split at parsed
    · cases parsed
      rfl
    · split at parsed
      · cases parsed
        rfl
      · exact number parsed
  | _ => exact number parsed

theorem orRefused_bind (option : Option α) (next : α → Option β) :
    (orRefused option >>= fun value => orRefused (next value)) = orRefused (option.bind next) := by
  cases option <;> rfl

theorem bitmap_restored (serialized : serializeScalar doubles ⟨some type, enums, some bits⟩ node = .ok var) (empty : base.children = []) :
    ∃ filled, deserializeScalar doubles ⟨some type, enums, some bits⟩ var base = .ok filled ∧ Fills base filled ∧
      (serializeScalar doubles ⟨some type, enums, some bits⟩ filled = .ok var ↔ BitsKept doubles type bits node.children) := by
  obtain ⟨value, known, set⟩ := bind_ok.mp serialized
  rw [orRefused_ok] at set
  obtain ⟨scalar, shown, got⟩ := setUlong_isArray set
  obtain ⟨fills, children⟩ := showBits_shown bits shown 0 32 base
  refine ⟨showBits bits shown 0 32 base, ?_, fills, ?_⟩
  · simp [deserializeScalar, scalar, check, got, orRefused]
  obtain ⟨-, mask⟩ := serializeBitmap_mask known
  generalize showBits bits shown 0 32 base = filled at *
  -- the names of the bits that come back
  have names {name : CString} : Node.new (some name) ∈ filled.children ↔
      ∃ bb < 32, shownIn doubles type (fun bb => ∃ child ∈ node.children, Stands bits child bb) bb ∧
        Labels bits (UInt32.ofNat bb) name := by
    rw [children, empty, List.nil_append, List.mem_map]
    simp only [List.mem_filterMap, List.mem_range'_1, ← formatUintMapped_iff]
    constructor
    · rintro ⟨_, ⟨bb, low, made⟩, same⟩
      obtain rfl := Option.some.inj (congrArg Node.name same)
      split at made
      · cases made
      · exact ⟨bb, by omega, (shownIn_iff set got mask (by omega)).mpr ‹_›, made⟩
    · rintro ⟨bb, low, held, made⟩
      refine ⟨name, ⟨bb, by omega, ?_⟩, rfl⟩
      rw [if_neg ((shownIn_iff set got mask low).mp held), made]
  have only {child : Node} (member : child ∈ filled.children) : ∃ name, child = .new (some name) := by
    rw [children, empty, List.nil_append, List.mem_map] at member
    obtain ⟨name, -, rfl⟩ := member
    exact ⟨name, rfl⟩
  have again (cc : Nat) : (∃ child ∈ filled.children, Stands bits child cc) ↔ ∃ bb < 32,
      shownIn doubles type (fun bb => ∃ child ∈ node.children, Stands bits child bb) bb ∧
        ∃ name, Labels bits (UInt32.ofNat bb) name ∧ Names bits name (UInt32.ofNat cc) := by
    constructor
    · rintro ⟨child, member, name, named, stands⟩
      obtain ⟨_, rfl⟩ := only member
      cases named
      obtain ⟨bb, low, held, labels⟩ := names.mp member
      exact ⟨bb, low, held, name, labels, stands⟩
    · rintro ⟨bb, low, held, name, labels, stands⟩
      exact ⟨_, names.mpr ⟨bb, low, held, labels⟩, name, rfl, stands⟩
  unfold BitsKept
  simp only [← again, serializeScalar, bind_ok, orRefused_ok]
  constructor
  · rintro ⟨value', made, same⟩
    obtain ⟨all, mask'⟩ := serializeBitmap_mask made
    refine ⟨?_, (sameBits_iff set mask mask').mpr same⟩
    rintro cc ⟨bb, low, held, name, labels, stands⟩
    obtain ⟨cc', low', name', named, stands'⟩ := all _ (names.mpr ⟨bb, low, held, labels⟩)
    cases named
    rw [stands.unique stands', UInt32.toNat_ofNat_of_lt' (Nat.lt_trans low' (by decide))]
    exact low'
  · rintro ⟨all, same⟩
    have stand (child : Node) (member : child ∈ filled.children) : ∃ bb < 32, Stands bits child bb := by
      obtain ⟨name, rfl⟩ := only member
      obtain ⟨bb, low, held, labels⟩ := names.mp member
      obtain ⟨cc, stands⟩ := labels.names
      exact ⟨cc.toNat, all cc ⟨bb, low, held, name, labels, stands⟩, name, rfl, by rwa [UInt32.ofNat_toNat]⟩
    obtain ⟨value', made⟩ := serializeBitmap_total 0 stand
    obtain ⟨-, mask'⟩ := serializeBitmap_mask made
    exact ⟨value', made, (sameBits_iff set mask mask').mp same⟩

variable (base) in
theorem enum_restored {names : IntMap}
    (serialized : serializeScalar doubles ⟨some type, some names, none⟩ node = .ok var) :
    ∃ filled, deserializeScalar doubles ⟨some type, some names, none⟩ var base = .ok filled ∧ Fills base filled ∧
      (serializeScalar doubles ⟨some type, some names, none⟩ filled = .ok var ↔
        ∀ text, node.cdata = some text → EnumKept doubles type names text) := by
  obtain ⟨text, here, rest⟩ := bind_ok.mp serialized
  rw [orRefused_ok] at here
  obtain ⟨value, known, set⟩ := bind_ok.mp rest
  rw [serializeEnum, here, orRefused_ok] at known
  rw [orRefused_ok] at set
  obtain ⟨scalar, -⟩ := setUlong_isArray set
  obtain ⟨shown, got⟩ := setUint_getUint set
  refine ⟨base.setCdata (some ((formatUintMapped shown names).getD (formatNat shown.toNat))), ?_,
    .of_attrs (name_setCdata _ _) (attrs_setCdata _ _), ?_⟩
  · simp only [deserializeScalar, scalar, Bool.not_false, check_true, got, orRefused_some, ok_bind]
    cases formatUintMapped shown names <;> rfl
  · have spelled := spells_iff.mp (rfl : (formatUintMapped shown names).getD (formatNat shown.toNat) = _)
    generalize (formatUintMapped shown names).getD _ = spelling at spelled ⊢
    rw [wrapped_eq set got] at spelled
    rw [readAs_iff] at known
    simp only [serializeScalar, serializeEnum, cdata_setCdata, orRefused_some, ok_bind, here,
      Option.some.injEq, forall_eq', orRefused_bind, orRefused_ok, Option.bind_eq_some_iff, readAs_iff]
    constructor
    · rintro ⟨again, read, same⟩ value' shown' again' known' spelled' read'
      cases known.unique known'
      cases spelled.unique spelled'
      cases read.unique read'
      exact (congruent_iff set).mpr same
    · intro kept
      obtain ⟨again, read⟩ := spelled.readAs
      exact ⟨again, read, (congruent_iff set).mp (kept _ _ _ known spelled read)⟩

theorem plain_restored (serialized : serializeScalar doubles ⟨some type, none, none⟩ node = .ok var) :
    (∀ filled, deserializeScalar doubles ⟨some type, none, none⟩ var base = .ok filled → Fills base filled) ∧
    ((∃ filled, deserializeScalar doubles ⟨some type, none, none⟩ var base = .ok filled ∧
      serializeScalar doubles ⟨some type, none, none⟩ filled = .ok var) ↔
        ∀ text, node.cdata = some text → TextKept doubles type text) := by
  obtain ⟨text, here, parsed⟩ := bind_ok.mp serialized
  rw [orRefused_ok] at here parsed
  have made : deserializeScalar doubles ⟨some type, none, none⟩ var base =
      orRefused ((variantSprint doubles var).map fun text => base.setCdata (some text)) := by
    simp only [deserializeScalar, variantParse_isArray parsed]
    cases variantSprint doubles var <;> rfl
  simp only [made, orRefused_ok, here, Option.some.injEq, forall_eq', ← text_restored parsed]
  constructor
  · intro filled same
    obtain ⟨text, -, rfl⟩ := Option.map_eq_some_iff.mp same
    exact .of_attrs (name_setCdata _ _) (attrs_setCdata _ _)
  · simp [serializeScalar]

theorem scalar_restored (serialized : serializeScalar doubles info node = .ok var) (empty : base.children = []) :
    (∀ filled, deserializeScalar doubles info var base = .ok filled → Fills base filled) ∧
    ((∃ filled, deserializeScalar doubles info var base = .ok filled ∧
      serializeScalar doubles info filled = .ok var) ↔ ScalarKept doubles info node) := by
  obtain ⟨_ | type, enums, bitmap⟩ := info
  · cases return_ok.mp serialized
    refine ⟨fun filled made => ?_, iff_of_true ⟨base, rfl, rfl⟩ nofun⟩
    cases return_ok.mp (made : (return base : Result Node) = _)
    exact .of_attrs rfl rfl
  · cases bitmap with
    | some bits =>
      obtain ⟨filled, made, fills, again⟩ := bitmap_restored serialized empty
      simp only [made, ScalarKept, Option.some.injEq, forall_eq', Except.ok.injEq,
        exists_eq_left', again, iff_self, and_true]
      exact fills
    | none =>
      cases enums with
      | some names =>
        obtain ⟨filled, made, fills, again⟩ := enum_restored base serialized
        simp only [made, ScalarKept, Option.some.injEq, forall_eq', Except.ok.injEq,
          exists_eq_left', again, iff_self, and_true]
        exact fills
      | none =>
        simp only [ScalarKept, Option.some.injEq, forall_eq']
        exact plain_restored serialized

end Scalars

variable {nodes : List Node}

section Arrays

variable {base : Node} {var first : Variant}

def textNode (name text : CString) : Node := (Node.new (some name)).setCdata (some text)

theorem deserializeElements_shown (name : CString) (node : Node) (texts : List CString) :
    Fills node (deserializeElements name node texts) ∧
      (deserializeElements name node texts).children = node.children ++ texts.map (textNode name) := by
  induction texts generalizing node with
  | nil => exact ⟨.of_attrs rfl rfl, by simp [deserializeElements]⟩
  | cons text rest ih =>
    obtain ⟨fills, children⟩ := ih (node.addChild (textNode name text))
    refine ⟨.trans (.of_attrs (name_addChild _ _) (attrs_addChild _ _)) fills, ?_⟩
    simp only [deserializeElements, List.map_cons]
    rw [← textNode, children, children_addChild, List.append_assoc, List.singleton_append]

theorem bytes_again (name : CString) (before bytes : List UInt8) :
    serializeElements (.byteArray before) ((bytes.map formatByte).map (textNode name)) =
      .ok (.byteArray (before ++ bytes)) := by
  induction bytes generalizing before with
  | nil => simp [serializeElements]
  | cons byte rest ih =>
    simp only [List.map_cons, serializeElements, textNode, cdata_setCdata, orRefused_some, ok_bind,
      arrayParseAndAppend, formatByte_reads, UInt8.ofNat_toNat, pure_bind]
    rw [ih, List.append_assoc, List.singleton_append]

theorem texts_again (name : CString) (before texts : List CString) :
    serializeElements (.stringArray before) (texts.map (textNode name)) = .ok (.stringArray (before ++ texts)) ∧
      serializeElements (.objectPathArray before) (texts.map (textNode name)) =
        .ok (.objectPathArray (before ++ texts)) := by
  induction texts generalizing before with
  | nil => simp [serializeElements]
  | cons text rest ih =>
    simp only [List.map_cons, serializeElements, textNode, cdata_setCdata, orRefused_some, ok_bind,
      arrayParseAndAppend, pure_bind]
    simp [(ih _).1, (ih _).2]

theorem elements_again (made : initArray ['a', type.code] = .ok first)
    (kind : isArrayOf type var = true) (name : CString) :
    ∃ texts, arrayPrintElements var = .ok texts ∧ serializeElements first (texts.map (textNode name)) = .ok var := by
  cases var with
  | byteArray bytes =>
    cases type <;> try cases kind
    cases made
    exact ⟨_, rfl, bytes_again name [] bytes⟩
  | stringArray strings =>
    cases type <;> try cases kind
    cases made
    exact ⟨_, rfl, (texts_again name [] strings).1⟩
  | objectPathArray paths =>
    cases type <;> try cases kind
    cases made
    exact ⟨_, rfl, (texts_again name [] paths).2⟩
  | basicArray code =>
    cases type <;> try cases kind
    all_goals
      obtain rfl := of_decide_eq_true kind
      cases made
      exact ⟨[], rfl, rfl⟩
  | _ => cases type <;> cases kind

theorem addChildren (node : Node) (kids : List Node) :
    Fills node (kids.foldl Node.addChild node) ∧ (kids.foldl Node.addChild node).children = node.children ++ kids := by
  induction kids generalizing node with
  | nil => exact ⟨.of_attrs rfl rfl, by simp⟩
  | cons kid rest ih =>
    obtain ⟨fills, children⟩ := ih (node.addChild kid)
    refine ⟨.trans (.of_attrs (name_addChild _ _) (attrs_addChild _ _)) fills, ?_⟩
    simp [children]

theorem serializeDicts_ok :
    serializeDicts serialize (.arrayArray dictEntrySignature before) nodes = .ok var ↔
      ∃ elements, List.Forall₂ (fun node element => serialize node = .ok element) nodes elements ∧
        var = .arrayArray dictEntrySignature (before ++ elements) := by
  induction nodes generalizing before with
  | nil =>
    simp only [serializeDicts, return_ok, List.forall₂_nil_left_iff, exists_eq_left, List.append_nil]
    exact eq_comm
  | cons node rest ih =>
    have kind : check (isDictArray (.arrayArray dictEntrySignature before)) = .ok () := rfl
    simp only [serializeDicts, kind, ok_bind, bind_ok, dictArrayAdd, ih]
    constructor
    · rintro ⟨element, here, elements, later, same⟩
      exact ⟨element :: elements, .cons here later, by rw [same]; simp⟩
    · rintro ⟨_, _ | ⟨here, later⟩, same⟩
      exact ⟨_, here, _, later, by rw [same]; simp⟩

theorem deserializeDicts_ok :
    deserializeDicts deserialize name base elements = .ok filled ↔
      ∃ kids, List.Forall₂ (fun element kid => deserialize element (.new (some name)) = .ok kid)
        elements kids ∧ filled = kids.foldl Node.addChild base := by
  induction elements generalizing base with
  | nil =>
    simp only [deserializeDicts, return_ok, List.forall₂_nil_left_iff, exists_eq_left, List.foldl_nil]
    exact eq_comm
  | cons element rest ih =>
    simp only [deserializeDicts, bind_ok, ih]
    constructor
    · rintro ⟨kid, here, kids, later, same⟩
      exact ⟨kid :: kids, .cons here later, same⟩
    · rintro ⟨_, _ | ⟨here, later⟩, same⟩
      exact ⟨_, here, _, later, same⟩

theorem all_again {P : Node → Prop} {elements : List α}
    (each : List.Forall₂ (fun node element => (∃ kid, made element kid ∧ again kid element) ↔ P node) nodes elements) :
    (∃ kids, List.Forall₂ made elements kids ∧ List.Forall₂ again kids elements) ↔ ∀ node ∈ nodes, P node := by
  induction each with
  | nil => exact iff_of_true ⟨[], .nil, .nil⟩ (by simp)
  | cons here _ ih =>
    rw [List.forall_mem_cons, ← here, ← ih]
    constructor
    · rintro ⟨_, _ | ⟨made, mades⟩, _ | ⟨again, agains⟩⟩
      exact ⟨⟨_, made, again⟩, _, mades, agains⟩
    · intro ⟨⟨kid, made, again⟩, kids, mades, agains⟩
      exact ⟨kid :: kids, .cons made mades, .cons again agains⟩

theorem forall_right {β : Type} {P : β → Prop} {first : List α} {second : List β}
    (each : List.Forall₂ (fun _ b => P b) first second) : ∀ b ∈ second, P b := by
  induction each with
  | nil => simp
  | cons here _ ih => exact List.forall_mem_cons.mpr ⟨here, ih⟩

end Arrays

section Dicts

variable {base : Node} {entries : List (CString × Variant)}
  {serialize : Option CString → Node → Result (Option Variant)}
  {deserialize : CString → Variant → Node → Result (Option Node)}

theorem deserializeEntries_ok (known : ∀ entry ∈ entries, ∀ node result,
      deserialize entry.1 entry.2 node = .ok result → result ≠ none) :
    deserializeEntries deserialize base entries = .ok filled ↔
      ∃ kids, List.Forall₂ (fun entry kid =>
          deserialize entry.1 entry.2 (.new (some entry.1)) = .ok (some kid)) entries kids ∧
        filled = kids.foldl Node.addChild base := by
  induction entries generalizing base with
  | nil =>
    simp only [deserializeEntries, return_ok, List.forall₂_nil_left_iff, exists_eq_left, List.foldl_nil]
    exact eq_comm
  | cons entry rest ih =>
    obtain ⟨here, later⟩ := List.forall_mem_cons.mp known
    simp only [deserializeEntries, bind_ok]
    constructor
    · rintro ⟨_ | kid, made, after⟩
      · exact absurd rfl (here _ _ made)
      · obtain ⟨kids, mades, same⟩ := (ih later).mp after
        exact ⟨kid :: kids, .cons made mades, same⟩
    · rintro ⟨_, _ | ⟨made, mades⟩, same⟩
      exact ⟨some _, made, (ih later).mpr ⟨_, mades, same⟩⟩

/-- What is serialized for an entry. -/
def Entry (serialize : Option CString → Node → Result (Option Variant)) (node : Node)
    (entry : CString × Variant) : Prop :=
  node.name = some entry.1 ∧ serialize node.name node = .ok (some entry.2)

theorem serializeEntries_ok (known : ∀ node ∈ nodes, node.name ≠ none ∧ serialize node.name node ≠ .ok none) :
    serializeEntries serialize nodes = .ok entries ↔ List.Forall₂ (Entry serialize) nodes entries := by
  induction nodes generalizing entries with
  | nil =>
    simp only [serializeEntries, return_ok, List.forall₂_nil_left_iff]
    exact eq_comm
  | cons node rest ih =>
    obtain ⟨⟨named, here⟩, later⟩ := List.forall_mem_cons.mp known
    obtain ⟨name, named⟩ := Option.ne_none_iff_exists'.mp named
    simp only [serializeEntries, bind_ok]
    constructor
    · rintro ⟨_ | datum, made, after⟩
      · exact absurd made here
      · obtain ⟨others, mades, same⟩ := bind_ok.mp after
        cases return_ok.mp same
        exact .cons ⟨by simp [named], made⟩ ((ih later).mp mades)
    · rintro (_ | ⟨⟨own, made⟩, mades⟩)
      exact ⟨some _, made, bind_ok.mpr ⟨_, (ih later).mpr mades, by simp [own]⟩⟩

/-- Nodes are serialized except those that have no type. -/
theorem serializeEntries_known {P : Node → Prop}
    (named : ∀ node datum, serialize node.name node = .ok (some datum) → node.name ≠ none)
    (unknown : ∀ node, serialize node.name node = .ok none → P node)
    (serialized : serializeEntries serialize nodes = .ok entries) :
    ∃ known, List.Forall₂ (Entry serialize) known entries ∧ ((∀ node ∈ nodes, P node) ↔ ∀ node ∈ known, P node) := by
  induction nodes generalizing entries with
  | nil =>
    cases return_ok.mp serialized
    exact ⟨[], .nil, Iff.rfl⟩
  | cons node rest ih =>
    obtain ⟨datum, made, after⟩ := bind_ok.mp serialized
    cases datum with
    | none =>
      obtain ⟨known, mades, same⟩ := ih after
      refine ⟨known, mades, ?_⟩
      rw [List.forall_mem_cons, same]
      exact and_iff_right (unknown node made)
    | some datum =>
      obtain ⟨others, later, same⟩ := bind_ok.mp after
      cases return_ok.mp same
      obtain ⟨known, mades, same⟩ := ih later
      obtain ⟨name, own⟩ := Option.ne_none_iff_exists'.mp (named node datum made)
      refine ⟨node :: known, .cons ⟨by simp [own], made⟩ mades, ?_⟩
      rw [List.forall_mem_cons, List.forall_mem_cons, same]

end Dicts

mutual

/-- The texts of booleans and doubles, the names of bits and enums and the forms of notations are
kept, and there is no array of arrays. -/
def Restorable (doubles : Doubles) : XsType → Node → Prop
  | .void _, _ | .struct _, _ => True
  | .scalar _ info, node => ScalarKept doubles info node
  | .union _ discriminant children, node =>
    RestorableMember doubles children (node.getAttr discriminant) node
  | .notated _ _ form _, node => ∀ text bytes, node.cdata = some text →
      form.parse text = some bytes →
      ∃ shown, form.print bytes = some shown ∧ form.parse shown = some bytes
  | .array _ _ elementType, node =>
    match elementType with
    | .scalar _ _ => True
    | .dict _ _ _ => ∀ child ∈ node.children, Restorable doubles elementType child
    | _ => False
  | .dict _ children _, node =>
    ∀ child ∈ node.children, RestorableMember doubles children child.name child

/-- The same for the type of a member, if there is such a member. -/
def RestorableMember (doubles : Doubles) : List (CString × XsType) → Option CString → Node → Prop
  | [], _, _ => True
  | (own, type) :: rest, name, node =>
    (name = some own → Restorable doubles type node) ∧
      (name ≠ some own → RestorableMember doubles rest name node)

end

theorem restorableMember_iff (doubles : Doubles) (looked : find children name = .ok found)
    (node : Node) : RestorableMember doubles children name node ↔
      ∀ type, found = some type → Restorable doubles type node := by
  induction children with
  | nil =>
    cases name <;> cases looked <;> simp [RestorableMember]
  | cons child rest ih =>
    cases name with
    | none => cases looked
    | some name =>
      simp only [find] at looked
      split at looked
      · rename_i same
        cases looked
        simp [RestorableMember, same]
      · rename_i other
        rw [← ih looked]
        simp [RestorableMember, Ne.symm other]

section Types

variable (doubles : Doubles)

/-- What is made of a node is made a node again, from a `base` that has nothing else to show, just
where it can be. -/
def Restores (type : XsType) : Prop := ∀ {node base : Node} {var : Variant},
  serializeXml doubles type node = .ok var → base.children = [] →
  (∀ attr value, base.getAttr attr = some value → node.getAttr attr = some value) →
  (∀ filled, deserializeXml doubles type var base = .ok filled → Fills base filled) ∧
  ((∃ filled, deserializeXml doubles type var base = .ok filled ∧
    serializeXml doubles type filled = .ok var) ↔ Restorable doubles type node)

variable {doubles} {type elementType : XsType} {common : Common}

variable {var : Variant}

theorem Restores.new (restores : Restores doubles type)
    (serialized : serializeXml doubles type node = .ok var) (name : Option CString) :
    (∀ filled, deserializeXml doubles type var (.new name) = .ok filled → filled.name = name) ∧
    ((∃ filled, deserializeXml doubles type var (.new name) = .ok filled ∧
      serializeXml doubles type filled = .ok var) ↔ Restorable doubles type node) := by
  obtain ⟨fills, again⟩ := restores serialized (children_new name) nofun
  exact ⟨fun filled made => (fills filled made).name, again⟩

theorem restores_void : Restores doubles (.void common) := by
  intro node base var serialized empty same
  cases return_ok.mp serialized
  refine ⟨fun filled made => ?_, iff_of_true ⟨base, rfl, rfl⟩ trivial⟩
  cases return_ok.mp made
  exact .of_attrs rfl rfl

theorem restores_notated : Restores doubles (.notated common element form compatible) := by
  intro node base var serialized empty same
  obtain ⟨bytes, made, known⟩ := bind_ok.mp serialized
  cases return_ok.mp known
  obtain ⟨_, byte, rest⟩ := bind_ok.mp made
  obtain ⟨text, here, parsed⟩ := bind_ok.mp rest
  rw [orRefused_ok] at here parsed
  have kept : Restorable doubles (.notated common element form compatible) node ↔
      ∃ shown, form.print bytes = some shown ∧ form.parse shown = some bytes := by
    simp only [Restorable, here, Option.some.injEq]
    constructor
    · intro kept
      exact kept text bytes rfl parsed
    · rintro again _ _ rfl parsed'
      cases parsed.symm.trans parsed'
      exact again
  rw [kept]
  simp only [serializeXml, deserializeXml, serializeNotation, byte, ok_bind, bind_ok, orRefused_ok, return_ok]
  constructor
  · rintro filled ⟨shown, -, rfl⟩
    exact .of_attrs (name_setCdata _ _) (attrs_setCdata _ _)
  · constructor
    · rintro ⟨_, ⟨shown, printed, rfl⟩, again, ⟨text, here, parsed⟩, same⟩
      cases same
      rw [cdata_setCdata] at here
      cases here
      exact ⟨shown, printed, parsed⟩
    · rintro ⟨shown, printed, parsed⟩
      exact ⟨_, ⟨shown, printed, rfl⟩, bytes, ⟨shown, cdata_setCdata _ _, parsed⟩, rfl⟩

theorem restores_elements : Restores doubles (.array common elementName (.scalar own info)) := by
  intro node base var serialized empty same
  obtain ⟨_ | element, enums, bitmap⟩ := info
  · cases serialized
  · obtain ⟨first, init, kind⟩ := initArray_basic element
    have begun : initSignature (.array common elementName (.scalar own ⟨some element, enums, bitmap⟩)) = .ok first := init
    have serialize (node : Node) : serializeXml doubles
        (.array common elementName (.scalar own ⟨some element, enums, bitmap⟩)) node =
          serializeElements first node.children := by
      rw [serializeXml, begun, ok_bind]
    rw [serialize] at serialized
    obtain ⟨texts, printed, again⟩ := elements_again init (elements_isArrayOf kind serialized)
      (elementNodeName elementName (.scalar own ⟨some element, enums, bitmap⟩))
    obtain ⟨fills, children⟩ := deserializeElements_shown
      (elementNodeName elementName (.scalar own ⟨some element, enums, bitmap⟩)) base texts
    rw [deserializeXml, printed, ok_bind]
    constructor
    · intro filled made
      cases return_ok.mp made
      exact fills
    · refine iff_of_true ⟨_, rfl, ?_⟩ trivial
      rw [serialize, children, empty]
      exact again

/-- An array of other types is serialized if it has no elements, and never made a node. -/
theorem restores_arrays (refused : ∀ var base, deserializeXml doubles (.array common elementName elementType) var base = throw .refused)
    (dropped : ∀ node, ¬Restorable doubles (.array common elementName elementType) node) :
    Restores doubles (.array common elementName elementType) := by
  intro node base var serialized empty same
  constructor
  · intro filled made
    rw [refused] at made
    cases made
  · refine iff_of_false ?_ (dropped node)
    rintro ⟨filled, made, -⟩
    rw [refused] at made
    cases made

section

variable {elementName : Option CString} {children : List (CString × XsType)} {groups : List Group}
  {own : Common}

theorem serializeXml_dicts (node : Node) :
    serializeXml doubles (.array common elementName (.dict own children groups)) node =
      serializeDicts (serializeXml doubles (.dict own children groups))
        (.arrayArray dictEntrySignature []) node.children := by
  rw [serializeXml]
  rfl

theorem deserializeXml_dicts (elements : List Variant) (node : Node) :
    deserializeXml doubles (.array common elementName (.dict own children groups))
        (.arrayArray dictEntrySignature elements) node =
      deserializeDicts (deserializeXml doubles (.dict own children groups))
        (elementNodeName elementName (.dict own children groups)) node elements := by
  rw [deserializeXml]
  rfl

theorem restores_dicts (element : Restores doubles (.dict own children groups)) :
    Restores doubles (.array common elementName (.dict own children groups)) := by
  intro node base var serialized empty same
  rw [serializeXml_dicts] at serialized
  obtain ⟨elements, each, rfl⟩ := serializeDicts_ok.mp serialized
  simp only [List.nil_append, deserializeXml_dicts, deserializeDicts_ok]
  constructor
  · rintro filled ⟨kids, -, rfl⟩
    exact (addChildren base kids).1
  · have kept : Restorable doubles (.array common elementName (.dict own children groups)) node ↔
        ∀ child ∈ node.children, Restorable doubles (.dict own children groups) child := by
      rw [Restorable]
    rw [kept, ← all_again (each.imp fun child value made => (Restores.new element made (some _)).2)]
    constructor
    · rintro ⟨_, ⟨kids, mades, rfl⟩, again⟩
      rw [serializeXml_dicts, (addChildren base kids).2, empty, serializeDicts_ok] at again
      obtain ⟨elements', agains, same⟩ := again
      cases same
      exact ⟨kids, mades, agains⟩
    · rintro ⟨kids, mades, agains⟩
      refine ⟨_, ⟨kids, mades, rfl⟩, ?_⟩
      rw [serializeXml_dicts, (addChildren base kids).2, empty, serializeDicts_ok]
      exact ⟨elements, agains, rfl⟩

end

section

variable {children : List (CString × XsType)} {name : Option CString}

theorem serializeMember_ok :
    serializeMember doubles children name node = .ok result ↔ ∃ found,
      find children name = .ok found ∧ match found with
        | none => result = none
        | some type => ∃ var, serializeXml doubles type node = .ok var ∧ result = some var := by
  rw [serializeMember_eq, bind_ok]
  refine exists_congr fun found => and_congr_right fun _ => ?_
  cases found with
  | none => exact return_ok.trans eq_comm
  | some type => exact bind_ok.trans (exists_congr fun var => and_congr_right fun _ =>
      return_ok.trans eq_comm)

theorem deserializeMember_ok :
    deserializeMember doubles children name var base = .ok result ↔ ∃ found,
      find children name = .ok found ∧ match found with
        | none => result = none
        | some type => ∃ node, deserializeXml doubles type var base = .ok node ∧ result = some node := by
  rw [deserializeMember_eq, bind_ok]
  refine exists_congr fun found => and_congr_right fun _ => ?_
  cases found with
  | none => exact return_ok.trans eq_comm
  | some type => exact bind_ok.trans (exists_congr fun node => and_congr_right fun _ =>
      return_ok.trans eq_comm)

variable (each : ∀ child ∈ children, Restores doubles child.2)

include each in
theorem member_restored (found : find children name = .ok (some type))
    (serialized : serializeXml doubles type node = .ok var) (empty : base.children = [])
    (same : ∀ attr value, base.getAttr attr = some value → node.getAttr attr = some value) :
    (∀ filled, deserializeMember doubles children name var base = .ok (some filled) → Fills base filled) ∧
    ((∃ filled, deserializeMember doubles children name var base = .ok (some filled) ∧
      serializeMember doubles children name filled = .ok (some var)) ↔ RestorableMember doubles children name node) := by
  obtain ⟨own, -, member⟩ := find_mem found
  have made {filled : Node} : deserializeMember doubles children name var base = .ok (some filled) ↔
      deserializeXml doubles type var base = .ok filled := by
    simp [deserializeMember_ok, found]
  have again {filled : Node} : serializeMember doubles children name filled = .ok (some var) ↔
      serializeXml doubles type filled = .ok var := by
    simp [serializeMember_ok, found]
  have kept : RestorableMember doubles children name node ↔ Restorable doubles type node := by
    simp [restorableMember_iff doubles found]
  simp only [made, again, kept]
  exact each _ member serialized empty same

variable (doubles children) in
/-- What a value is an entry of, so that the node it is made has the name of the entry. -/
def EntryShown (entry : CString × Variant) : Prop :=
  ∃ type, find children (some entry.1) = .ok (some type) ∧
    ∀ kid, deserializeMember doubles children (some entry.1) entry.2 (.new (some entry.1)) =
      .ok (some kid) → kid.name = some entry.1

theorem EntryShown.deserialized (shown : EntryShown doubles children entry) (made : deserializeMember doubles children (some entry.1) entry.2 node = .ok result) : result ≠ none := by
  obtain ⟨type, found, -⟩ := shown
  obtain ⟨found', looked, known⟩ := deserializeMember_ok.mp made
  cases found.symm.trans looked
  obtain ⟨_, -, rfl⟩ := known
  exact nofun

theorem EntryShown.serialized (shown : EntryShown doubles children entry) (made : deserializeMember doubles children (some entry.1) entry.2 (.new (some entry.1)) = .ok (some kid)) :
    kid.name ≠ none ∧ serializeMember doubles children kid.name kid ≠ .ok none := by
  obtain ⟨type, found, named⟩ := shown
  rw [named kid made]
  refine ⟨nofun, fun again => ?_⟩
  obtain ⟨found', looked, known⟩ := serializeMember_ok.mp again
  cases found.symm.trans looked
  obtain ⟨_, -, same⟩ := known
  cases same

include each in
theorem restores_dict {groups : List Group} : Restores doubles (.dict common children groups) := by
  intro node base var serialized empty same
  obtain ⟨entries, made, known⟩ := bind_ok.mp serialized
  cases return_ok.mp known
  have named (child : Node) (datum : Variant)
      (made : serializeMember doubles children child.name child = .ok (some datum)) :
      child.name ≠ none := by
    obtain ⟨_ | type, found, result⟩ := serializeMember_ok.mp made
    · cases result
    · obtain ⟨own, same, -⟩ := find_mem found
      simp [same]
  have unknown (child : Node) (made : serializeMember doubles children child.name child = .ok none) :
      RestorableMember doubles children child.name child := by
    obtain ⟨_ | type, found, result⟩ := serializeMember_ok.mp made
    · exact (restorableMember_iff doubles found child).mpr (by simp)
    · obtain ⟨_, -, result⟩ := result
      cases result
  obtain ⟨known, mades, all⟩ := serializeEntries_known named unknown made
  have restored (child : Node) (entry : CString × Variant) (made : Entry (serializeMember doubles children) child entry) :
      EntryShown doubles children entry ∧
      ((∃ kid, deserializeMember doubles children (some entry.1) entry.2 (.new (some entry.1)) =
          .ok (some kid) ∧ Entry (serializeMember doubles children) kid entry) ↔
        RestorableMember doubles children child.name child) := by
    obtain ⟨own, made⟩ := made
    rw [own] at made
    obtain ⟨_ | type, found, result⟩ := serializeMember_ok.mp made
    · cases result
    · obtain ⟨_, made, result⟩ := result
      cases result
      obtain ⟨fills, again⟩ := member_restored each found made
        (children_new (some entry.1)) nofun
      have shown (kid : Node) (made : deserializeMember doubles children (some entry.1) entry.2
          (.new (some entry.1)) = .ok (some kid)) : kid.name = some entry.1 := (fills kid made).name
      refine ⟨⟨type, found, shown⟩, ?_⟩
      rw [own, ← again]
      refine exists_congr fun kid => and_congr_right fun made => ?_
      simp [Entry, shown kid made]
  have shown := forall_right (mades.imp fun child entry made => (restored child entry made).1)
  have kept : Restorable doubles (.dict common children groups) node ↔
      ∀ child ∈ known, RestorableMember doubles children child.name child := by
    rw [Restorable, all]
  rw [kept, ← all_again (mades.imp fun child entry made => (restored child entry made).2)]
  have deserialize (filled : Node) : deserializeEntries
      (fun key datum child => deserializeMember doubles children (some key) datum child) base entries = .ok filled ↔
      ∃ kids, List.Forall₂ (fun entry kid => deserializeMember doubles children (some entry.1)
          entry.2 (.new (some entry.1)) = .ok (some kid)) entries kids ∧
        filled = kids.foldl Node.addChild base :=
    deserializeEntries_ok fun entry member node result => (shown entry member).deserialized
  have serialize {kids : List Node} (made : List.Forall₂ (fun entry kid =>
      deserializeMember doubles children (some entry.1) entry.2 (.new (some entry.1)) = .ok (some kid)) entries kids) :
      serializeXml doubles (.dict common children groups) (kids.foldl Node.addChild base) = .ok (.dict entries) ↔
      List.Forall₂ (Entry (serializeMember doubles children)) kids entries := by
    have typed := forall_right (((List.forall₂_and_left _ _).mpr ⟨shown, made⟩).imp
      fun entry kid shown => shown.1.serialized shown.2)
    rw [← serializeEntries_ok typed, serializeXml, (addChildren base kids).2, empty, List.nil_append]
    simp only [bind_ok, return_ok, Variant.dict.injEq, exists_eq_right]
  simp only [deserializeXml, deserialize]
  constructor
  · rintro filled ⟨kids, -, rfl⟩
    exact (addChildren base kids).1
  · constructor
    · rintro ⟨_, ⟨kids, made, rfl⟩, again⟩
      exact ⟨kids, made, (serialize made).mp again⟩
    · rintro ⟨kids, made, again⟩
      exact ⟨_, ⟨kids, made, rfl⟩, (serialize made).mpr again⟩

include each in
theorem restores_union : Restores doubles (.union common discriminant children) := by
  intro node base var serialized empty same
  obtain ⟨kind, here, rest⟩ := bind_ok.mp serialized
  rw [orRefused_ok] at here
  obtain ⟨found, looked, made⟩ := bind_ok.mp rest
  have kept : Restorable doubles (.union common discriminant children) node ↔
      RestorableMember doubles children (some kind) node := by
    rw [Restorable, here]
  -- The node is filled from one that has the discriminant.
  have marked : (base.addAttr discriminant (some kind)).getAttr discriminant = some kind := by
    simp [getAttr_addAttr]
  have fills : Fills base (base.addAttr discriminant (some kind)) := by
    refine ⟨name_addAttr _ _ _, fun attr value found => ?_⟩
    rw [getAttr_addAttr]
    split
    · rename_i discriminates
      rw [← here, ← discriminates]
      exact same attr value found
    · exact found
  have same' (attr value : CString) (found : (base.addAttr discriminant (some kind)).getAttr attr = some value) :
      node.getAttr attr = some value := by
    rw [getAttr_addAttr] at found
    split at found
    · rename_i discriminates
      rw [discriminates, here, found]
    · exact same attr value found
  rw [kept]
  cases found with
  | none => cases made
  | some type =>
    cases type with
    | void own =>
      cases return_ok.mp made
      rw [deserializeXml, marked, orRefused_some, ok_bind, looked, ok_bind]
      constructor
      · intro filled made
        cases return_ok.mp made
        exact fills
      · refine iff_of_true ⟨_, rfl, ?_⟩ ?_
        · rw [serializeXml, marked, orRefused_some, ok_bind, looked]
          rfl
        · simp [restorableMember_iff doubles looked, Restorable]
    | _ =>
      obtain ⟨child, member, made⟩ := bind_ok.mp made
      obtain ⟨datum, known, made⟩ := bind_ok.mp made
      cases return_ok.mp made
      rw [orRefused_ok] at known
      subst known
      obtain ⟨_, looked', made⟩ := serializeMember_ok.mp member
      cases looked.symm.trans looked'
      obtain ⟨_, made, known⟩ := made
      cases known
      obtain ⟨fills', restored⟩ := member_restored each looked made ((children_addAttr _ _ _).trans empty) same'
      have shown (filled : Node) : deserializeXml doubles (.union common discriminant children)
          (.struct [.string (some kind), datum]) base = .ok filled ↔
          deserializeMember doubles children (some kind) datum
            (base.addAttr discriminant (some kind)) = .ok (some filled) := by
        rw [deserializeXml, marked, orRefused_some, ok_bind, looked, ok_bind]
        simp only [List.head?_cons, orRefused_some, ok_bind, bind_ok, orRefused_ok, exists_eq_right]
      have again {filled : Node} (marked : filled.getAttr discriminant = some kind) :
          serializeXml doubles (.union common discriminant children) filled = .ok (.struct [.string (some kind), datum]) ↔
          serializeMember doubles children (some kind) filled = .ok (some datum) := by
        rw [serializeXml, marked, orRefused_some, ok_bind, looked, ok_bind]
        simp only [bind_ok, orRefused_ok, return_ok, Variant.struct.injEq, List.cons.injEq,
          and_true, true_and, exists_eq_right]
      simp only [shown]
      constructor
      · intro filled made
        exact fills.trans (fills' filled made)
      · rw [← restored]
        refine exists_congr fun filled => and_congr_right fun made => ?_
        exact again ((fills' filled made).attrs _ _ marked)

end

theorem restores (type : XsType) : Restores doubles type := by
  induction type using XsType.induct with
  | void common => exact restores_void
  | scalar common info =>
    intro node base var serialized empty _
    exact scalar_restored serialized empty
  | struct common =>
    nofun
  | array common elementName elementType ih =>
    cases elementType with
    | scalar own info => exact restores_elements
    | dict own children groups => exact restores_dicts ih
    | _ => exact restores_arrays (fun _ _ => rfl) (fun _ => id)
  | notated common element form compatible => exact restores_notated
  | dict common children groups ih => exact restores_dict ih
  | union common discriminant children ih => exact restores_union ih

end Types

end Testbus.Schema
