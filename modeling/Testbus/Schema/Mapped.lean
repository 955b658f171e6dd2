import Testbus.Schema.Sound

/-! What the names of bits and of enum values stand for, and what is left of a number in a scalar type. -/

namespace Testbus.Schema

open Dbus.Marshal Xml

section Names

variable {map : IntMap} {name text : CString} {value again : UInt32}

/-- A name stands for the value of the first entry that has it, in upper or lower case. -/
def Names (map : IntMap) (name : CString) (value : UInt32) : Prop :=
  ∃ before entry after, map = before ++ entry :: after ∧ strcaseeq entry.name name = true ∧ entry.value = value ∧
    ∀ other ∈ before, strcaseeq other.name name = false

/-- The name that is shown for a value is that of its first entry. -/
def Labels (map : IntMap) (value : UInt32) (name : CString) : Prop :=
  ∃ before entry after, map = before ++ entry :: after ∧ entry.value = value ∧ entry.name = name ∧
    ∀ other ∈ before, other.value ≠ value

/-- A text is read as the value that it names, or as a number if it is not a name. -/
def ReadAs (map : IntMap) (text : CString) (value : UInt32) : Prop :=
  Names map text value ∨ (∀ other, ¬Names map text other) ∧ parseUint text = some value

/-- The text that is shown for a value, its digits if it has no name. -/
def Spells (map : IntMap) (value : UInt32) (text : CString) : Prop :=
  Labels map value text ∨ (∀ name, ¬Labels map value name) ∧ text = formatNat value.toNat

/-- The name of a node stands for a bit. -/
def Stands (bits : IntMap) (node : Node) (bb : Nat) : Prop :=
  ∃ name, node.name = some name ∧ Names bits name (UInt32.ofNat bb)

theorem parseUintMapped_iff : parseUintMapped (some name) map = some value ↔ Names map name value := by
  simp only [parseUintMapped, Option.bind_some, Option.map_eq_some_iff, List.find?_eq_some_iff_append, Names]
  constructor
  · rintro ⟨entry, ⟨named, before, after, rfl, first⟩, rfl⟩
    exact ⟨before, entry, after, rfl, named, rfl, by simpa using first⟩
  · rintro ⟨before, entry, after, rfl, named, rfl, first⟩
    exact ⟨entry, ⟨named, before, after, rfl, by simpa using first⟩, rfl⟩

theorem formatUintMapped_iff : formatUintMapped value map = some name ↔ Labels map value name := by
  simp only [formatUintMapped, Option.map_eq_some_iff, List.find?_eq_some_iff_append, Labels, decide_eq_true_eq]
  constructor
  · rintro ⟨entry, ⟨valued, before, after, rfl, first⟩, rfl⟩
    exact ⟨before, entry, after, rfl, valued, rfl, by simpa using first⟩
  · rintro ⟨before, entry, after, rfl, valued, rfl, first⟩
    exact ⟨entry, ⟨valued, before, after, rfl, by simpa using first⟩, rfl⟩

theorem Names.unique (one : Names map name value) (other : Names map name again) : value = again :=
  Option.some.inj ((parseUintMapped_iff.mpr one).symm.trans (parseUintMapped_iff.mpr other))

theorem Labels.names (labels : Labels map value name) : ∃ again, Names map name again := by
  obtain ⟨before, entry, after, rfl, -, rfl, -⟩ := labels
  cases read : parseUintMapped (some entry.name) (before ++ entry :: after) with
  | some again => exact ⟨again, parseUintMapped_iff.mp read⟩
  | none => simp [parseUintMapped, strcaseeq] at read

theorem readAs_iff : parseUintMaybeMapped (some text) map = some value ↔ ReadAs map text value := by
  unfold parseUintMaybeMapped ReadAs
  simp only [← parseUintMapped_iff]
  cases parseUintMapped (some text) map <;> simp

theorem spells_iff : (formatUintMapped value map).getD (formatNat value.toNat) = text ↔ Spells map value text := by
  unfold Spells
  simp only [← formatUintMapped_iff]
  cases formatUintMapped value map <;> simp [eq_comm]

theorem ReadAs.unique (one : ReadAs map text value) (other : ReadAs map text again) : value = again :=
  Option.some.inj ((readAs_iff.mpr one).symm.trans (readAs_iff.mpr other))

theorem Spells.unique (one : Spells map value text) (other : Spells map value text') : text = text' :=
  (spells_iff.mpr one).symm.trans (spells_iff.mpr other)

theorem parseUint_formatNat (value : UInt32) : parseUint (formatNat value.toNat) = some value := by
  obtain ⟨c, rest, same, digit, -⟩ := formatNat_head value.toNat
  have small := value.toNat_lt
  have read := strtoul_formatNat (n := value.toNat) (by omega)
  rw [same] at read ⊢
  simp [parseUint, read, digit, small]

theorem Spells.readAs (spells : Spells map value text) : ∃ again, ReadAs map text again := by
  rcases spells with labels | ⟨-, rfl⟩
  · obtain ⟨again, stands⟩ := labels.names
    exact ⟨again, .inl stands⟩
  · by_cases named : ∃ other, Names map (formatNat value.toNat) other
    · exact named.imp fun _ => .inl
    · exact ⟨value, .inr ⟨not_exists.mp named, parseUint_formatNat value⟩⟩

theorem parseBit_iff {bits : IntMap} :
    parseBit bits node.name = some bb ↔ bb.toNat < 32 ∧ Stands bits node bb.toNat := by
  unfold parseBit Stands
  rw [Option.filter_eq_some_iff, UInt32.ofNat_toNat]
  cases node.name with
  | none => simp [parseUintMapped]
  | some name => simp [parseUintMapped_iff, UInt32.lt_iff_toNat_lt, and_comm]

theorem Stands.unique {bits : IntMap} (one : Stands bits node bb) (other : Stands bits node cc) (low : bb < 32)
    (low' : cc < 32) : bb = cc := by
  obtain ⟨name, named, stands⟩ := one
  obtain ⟨name', named', stands'⟩ := other
  cases named.symm.trans named'
  have same := congrArg UInt32.toNat (stands.unique stands')
  simp only [UInt32.toNat_ofNat'] at same
  omega

end Names

section Numbers

variable (doubles : Doubles) (type : BasicType)

/-- The width of an integer type, and if it has a sign. A byte is read as a `char`, which has one. -/
def integerWidth : BasicType → Option (Nat × Bool)
  | .byte => some (8, true)
  | .int16 => some (16, true)
  | .uint16 => some (16, false)
  | .int32 => some (32, true)
  | .boolean | .uint32 => some (32, false)
  | .int64 => some (64, true)
  | .uint64 => some (64, false)
  | .double | .string | .objectPath => none

/-- A number that bits below 32 make as masks in an `int`: bit 31 is its sign. -/
def Mask (set : Nat → Prop) (value : UInt64) : Prop := ∀ j < 64, value.toBitVec.getLsbD j = true ↔ set (min j 31)

/-- The bits that come back when some bits have been a value of the type. -/
def shownIn (set : Nat → Prop) (bb : Nat) : Prop :=
  match integerWidth type with
  | some (width, sign) => if bb < width then set bb else sign ∧ set (width - 1)
  | none => ∃ value, Mask set value ∧
      ∃ j < 64, min j 31 = bb ∧ (doubles.toUlong (doubles.ofUlong value)).toBitVec.getLsbD j = true

/-- Bits make the same value of the type. -/
def SameBits (a b : Nat → Prop) : Prop :=
  match integerWidth type with
  | some (width, _) => ∀ bb < min width 32, a bb ↔ b bb
  | none => ∃ x y, Mask a x ∧ Mask b y ∧ doubles.ofUlong x = doubles.ofUlong y

/-- The number that comes back when a number has been a value of the type. -/
def wrapped (value : UInt32) : UInt32 :=
  match integerWidth type with
  | some (width, true) => .ofInt (Int.bmod value.toNat (2 ^ width))
  | some (width, false) => .ofNat (value.toNat % 2 ^ width)
  | none => doubles.toUint (doubles.ofUlong value.toUInt64)

/-- Numbers make the same value of the type. -/
def Congruent (value again : UInt32) : Prop :=
  match integerWidth type with
  | some (width, _) => value.toNat % 2 ^ width = again.toNat % 2 ^ width
  | none => doubles.ofUlong value.toUInt64 = doubles.ofUlong again.toUInt64

/-- The names of the bits that come back stand for bits below 32 that make the same value. -/
def BitsKept (bits : IntMap) (nodes : List Node) : Prop :=
  let set bb := ∃ child ∈ nodes, Stands bits child bb
  let again value := ∃ bb < 32, shownIn doubles type set bb ∧
    ∃ name, Labels bits (UInt32.ofNat bb) name ∧ Names bits name value
  (∀ value, again value → value.toNat < 32) ∧ SameBits doubles type set fun bb => again (UInt32.ofNat bb)

/-- The text for the number that comes back stands for one that makes the same value. -/
def EnumKept (map : IntMap) (text : CString) : Prop :=
  ∀ value shown again, ReadAs map text value → Spells map (wrapped doubles type value) shown →
    ReadAs map shown again → Congruent doubles type value again

variable {doubles type} {width : Nat} {x y : UInt64} {value again : UInt32} {bits : IntMap}
  {nodes : List Node}

theorem setUlong_congr (integer : integerWidth type = some (width, sign)) :
    setUlong doubles type x = setUlong doubles type y ↔ x.toBitVec.setWidth width = y.toBitVec.setWidth width := by
  cases type <;> cases integer
  all_goals simp [setUlong, ← UInt8.toBitVec_inj, ← UInt16.toBitVec_inj, ← UInt32.toBitVec_inj, ← Int16.toBitVec_inj,
    ← Int32.toBitVec_inj, ← Int64.toBitVec_inj, ← UInt64.toBitVec_inj]

theorem setWidth_congr : x.toBitVec.setWidth width = y.toBitVec.setWidth width ↔
    ∀ j < width, x.toBitVec.getLsbD j = y.toBitVec.getLsbD j := by
  constructor
  · intro same j low
    simpa [low] using congrArg (BitVec.getLsbD · j) same
  · intro same
    refine BitVec.eq_of_getLsbD_eq fun j low => ?_
    simp [low, same j low]

theorem getUlong_bits (integer : integerWidth type = some (width, sign)) (set : setUlong doubles type x = some var)
    (got : getUlong doubles var = some shown) (low : j < 64) :
    shown.toBitVec.getLsbD j = if j < width then x.toBitVec.getLsbD j else sign && x.toBitVec.getLsbD (width - 1) := by
  cases type <;> cases integer <;> cases set <;> cases got
  all_goals simp [low, BitVec.getElem_signExtend, BitVec.msb_eq_getLsbD_last, -UInt64.toUInt64_toUInt32,
    -UInt64.toUInt64_toUInt16]

theorem Mask.unique (one : Mask a x) (other : Mask a y) : x = y := by
  rw [← UInt64.toBitVec_inj]
  refine BitVec.eq_of_getLsbD_eq fun j low => ?_
  rw [Bool.eq_iff_iff, one j low, other j low]

theorem sameBits_iff (set : setUlong doubles type x = some var) (one : Mask a x) (other : Mask b y) :
    SameBits doubles type a b ↔ setUlong doubles type y = some var := by
  rw [← set, eq_comm (a := setUlong doubles type y)]
  unfold SameBits
  cases integer : integerWidth type with
  | none =>
    cases type <;> cases integer
    case none.double.refl =>
      simp only [setUlong, Option.some.injEq, Variant.scalar.injEq, Scalar.double.injEq]
      constructor
      · rintro ⟨x', y', one', other', same⟩
        rwa [one.unique one', other.unique other']
      · exact fun same => ⟨x, y, one, other, same⟩
    all_goals cases set
  | some info =>
    obtain ⟨width, sign⟩ := info
    rw [setUlong_congr integer, setWidth_congr]
    have room : width ≤ 64 := by cases type <;> cases integer <;> decide
    dsimp only
    constructor
    · intro same j low
      rw [Bool.eq_iff_iff, one j (by omega), other j (by omega)]
      exact same _ (by omega)
    · intro same bb low
      have bits := same bb (by omega)
      rw [Bool.eq_iff_iff, one bb (by omega), other bb (by omega)] at bits
      rwa [Nat.min_eq_left (by omega)] at bits

theorem bit_getLsbD (known : bb < 32) (low : j < 64) :
    (bit (UInt32.ofNat bb)).toBitVec.getLsbD j = true ↔ min j 31 = bb := by
  have each : ∀ bb : Fin 32, ∀ j : Fin 64, (bit (UInt32.ofNat bb)).toBitVec.getLsbD j = decide (min j.val 31 = bb) := by
    decide +kernel
  rw [each ⟨bb, known⟩ ⟨j, low⟩, decide_eq_true_eq]

theorem and_bit (known : bb < 32) : x &&& bit (UInt32.ofNat bb) = 0 ↔
    ∀ j < 64, min j 31 = bb → x.toBitVec.getLsbD j = false := by
  rw [← UInt64.toBitVec_inj]
  constructor
  · intro none_ j low place
    have clear : (x &&& bit (UInt32.ofNat bb)).toBitVec.getLsbD j = false := by simp [none_]
    rwa [UInt64.toBitVec_and, BitVec.getLsbD_and, (bit_getLsbD known low).mpr place, Bool.and_true] at clear
  · intro clear
    refine BitVec.eq_of_getLsbD_eq fun j low => ?_
    rw [UInt64.toBitVec_and, BitVec.getLsbD_and]
    by_cases place : min j 31 = bb
    · simp [clear j low place]
    · rw [Bool.eq_false_of_not_eq_true (mt (bit_getLsbD known low).mp place), Bool.and_false]
      simp

theorem shownIn_iff (set : setUlong doubles type x = some var) (got : getUlong doubles var = some shown)
    (mask : Mask a x) (known : bb < 32) :
    shownIn doubles type a bb ↔ shown &&& bit (UInt32.ofNat bb) ≠ 0 := by
  simp only [ne_eq, and_bit known, not_forall, Bool.not_eq_false, exists_prop]
  unfold shownIn
  cases integer : integerWidth type with
  | none =>
    cases type <;> cases integer <;> cases set
    cases got
    constructor
    · rintro ⟨x', mask', rest⟩
      rwa [mask.unique mask']
    · exact fun rest => ⟨x, mask, rest⟩
  | some info =>
    obtain ⟨width, sign⟩ := info
    have wide : width = 32 ∨ width = 64 ∨ 0 < width ∧ width ≤ 16 := by cases type <;> cases integer <;> decide
    have bits {j : Nat} (low : j < 64) : shown.toBitVec.getLsbD j = true ↔
        if j < width then a (min j 31) else sign ∧ a (min (width - 1) 31) := by
      rw [getUlong_bits integer set got low]
      split
      · exact mask j low
      · rw [Bool.and_eq_true, mask (width - 1) (by omega)]
    dsimp only
    constructor
    · intro held
      refine ⟨bb, by omega, by omega, (bits (by omega)).mpr ?_⟩
      split_ifs with inside
      · rwa [if_pos inside, ← Nat.min_eq_left (by omega : bb ≤ 31)] at held
      · rwa [if_neg inside, ← Nat.min_eq_left (by omega : width - 1 ≤ 31)] at held
    · rintro ⟨j, low, place, held⟩
      rw [bits low, place] at held
      by_cases inside : bb < width
      · rw [if_pos inside]
        split_ifs at held
        · exact held
        · -- bit 31 stands for all from there on
          rw [show min (width - 1) 31 = bb by omega] at held
          exact held.2
      · rw [if_neg inside]
        rwa [if_neg (by omega), Nat.min_eq_left (by omega)] at held

theorem congruent_iff (set : setUint doubles type value = some var) :
    Congruent doubles type value again ↔ setUint doubles type again = some var := by
  rw [← set, eq_comm (a := setUint doubles type again)]
  unfold Congruent setUint at *
  cases integer : integerWidth type with
  | none =>
    cases type <;> cases integer
    case none.double.refl => simp [setUlong]
    all_goals cases set
  | some info =>
    rw [setUlong_congr integer, ← BitVec.toNat_inj]
    simp

theorem wrapped_eq (set : setUint doubles type value = some var) (got : getUint doubles var = some shown) :
    shown = wrapped doubles type value := by
  unfold wrapped
  cases integer : integerWidth type with
  | none =>
    cases type <;> cases integer <;> cases set
    cases got
    rfl
  | some info =>
    obtain ⟨width, sign⟩ := info
    have long : getUint doubles var = (getUlong doubles var).map UInt64.toUInt32 := by
      cases type <;> cases integer <;> cases set <;> rfl
    obtain ⟨number, read, rfl⟩ := Option.map_eq_some_iff.mp (long ▸ got)
    have bits {j : Nat} (low : j < 32) := getUlong_bits integer set read (j := j) (by omega)
    rw [← UInt32.toBitVec_inj]
    refine BitVec.eq_of_getLsbD_eq fun j low => ?_
    have room : 0 < width ∧ width ≤ 64 := by cases type <;> cases integer <;> decide
    have back : number.toUInt32.toBitVec.getLsbD j = if j < width then value.toBitVec.getLsbD j
        else sign && value.toBitVec.getLsbD (width - 1) := by
      rw [UInt64.toBitVec_toUInt32, BitVec.getLsbD_setWidth, bits low]
      simp [low, show j < 64 by omega, show width - 1 < 64 by omega]
    rw [back]
    cases sign with
    | false =>
      have cut : (UInt32.ofNat (value.toNat % 2 ^ width)).toBitVec = (value.toBitVec.setWidth width).setWidth 32 := by
        rw [← BitVec.toNat_inj]
        simp
      simp only [cut, BitVec.getLsbD_setWidth, low, decide_true, Bool.true_and, Bool.false_and]
      split <;> simp [*]
    | true =>
      have extended : (UInt32.ofInt (Int.bmod value.toNat (2 ^ width))).toBitVec =
          (value.toBitVec.setWidth width).signExtend 32 := by
        rw [BitVec.signExtend, BitVec.toInt_setWidth, ← BitVec.toNat_inj, BitVec.toNat_ofInt]
        simp only [UInt32.ofInt, UInt32.toNat_toBitVec, UInt32.toNat_ofNat']
        exact Nat.mod_eq_of_lt (by omega)
      simp only [extended, BitVec.getLsbD_signExtend, BitVec.msb_eq_getLsbD_last, BitVec.getLsbD_setWidth, low,
        decide_true, Bool.true_and]
      split <;> simp [*]

theorem serializeBitmap_bits {start value : UInt64} (made : serializeBitmap bits start nodes = .ok value) :
    (∀ child ∈ nodes, ∃ bb < 32, Stands bits child bb) ∧
      ∀ j < 64, value.toBitVec.getLsbD j = true ↔
        start.toBitVec.getLsbD j = true ∨ ∃ child ∈ nodes, Stands bits child (min j 31) := by
  induction nodes generalizing start with
  | nil =>
    cases made
    simp
  | cons child rest ih =>
    obtain ⟨bb, read, made⟩ := bind_ok.mp made
    rw [orRefused_ok, parseBit_iff] at read
    obtain ⟨low, stands⟩ := read
    obtain ⟨all, known⟩ := ih made
    refine ⟨List.forall_mem_cons.mpr ⟨⟨_, low, stands⟩, all⟩, fun j small => ?_⟩
    have here : Stands bits child (min j 31) ↔ min j 31 = bb.toNat :=
      ⟨fun other => other.unique stands (by omega) low, fun place => place ▸ stands⟩
    have mask := bit_getLsbD low small
    rw [UInt32.ofNat_toNat] at mask
    rw [known j small, UInt64.toBitVec_or, BitVec.getLsbD_or, Bool.or_eq_true, mask, List.exists_mem_cons_iff, here,
      or_assoc]

/-- What a bitmap is serialized to. -/
theorem serializeBitmap_mask {value : UInt64} (made : serializeBitmap bits 0 nodes = .ok value) :
    (∀ child ∈ nodes, ∃ bb < 32, Stands bits child bb) ∧ Mask (fun bb => ∃ child ∈ nodes, Stands bits child bb) value := by
  simpa [Mask] using serializeBitmap_bits made

theorem serializeBitmap_total (start : UInt64) (all : ∀ child ∈ nodes, ∃ bb < 32, Stands bits child bb) :
    ∃ value, serializeBitmap bits start nodes = .ok value := by
  induction nodes generalizing start with
  | nil => exact ⟨start, rfl⟩
  | cons child rest ih =>
    obtain ⟨⟨bb, low, stands⟩, all⟩ := List.forall_mem_cons.mp all
    have read : parseBit bits child.name = some (UInt32.ofNat bb) := by
      have same : (UInt32.ofNat bb).toNat = bb := UInt32.toNat_ofNat_of_lt' (Nat.lt_trans low (by decide))
      rw [parseBit_iff, same]
      exact ⟨low, stands⟩
    obtain ⟨value, made⟩ := ih (start ||| bit (UInt32.ofNat bb)) all
    exact ⟨value, by rw [serializeBitmap, read, orRefused_some, ok_bind, made]⟩

end Numbers

end Testbus.Schema
