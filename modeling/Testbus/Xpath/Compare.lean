import Testbus.Xpath.Result

namespace Testbus.Xpath

/-- What the comparison functions are made for, by `__xpath_comparison_set`. -/
inductive Comparison
  | eq
  | ne
  | lt
  | gt
  | le
  | ge
  deriving DecidableEq

/-- `left xop right` -/
def Comparison.Holds {α : Type} [LinearOrder α] (xop : Comparison) (left right : α) : Prop :=
  match xop with
  | eq => left = right
  | ne => left ≠ right
  | lt => left < right
  | gt => right < left
  | le => left ≤ right
  | ge => right ≤ left

instance {α : Type} [LinearOrder α] (xop : Comparison) (left right : α) :
    Decidable (xop.Holds left right) :=
  match xop with
  | .eq => inferInstanceAs (Decidable (left = right))
  | .ne => inferInstanceAs (Decidable (left ≠ right))
  | .lt => inferInstanceAs (Decidable (left < right))
  | .gt => inferInstanceAs (Decidable (right < left))
  | .le => inferInstanceAs (Decidable (left ≤ right))
  | .ge => inferInstanceAs (Decidable (right ≤ left))

/-- `xstrcmp`. Of what `strcmp` returns, only the sign matters. -/
def xstrcmp (s1 s2 : Option CString) : Int :=
  match Environ.strcmp (s1.getD []) (s2.getD []) with
  | .lt => -1
  | .eq => 0
  | .gt => 1

/-- The comparison table of an operator. Each function is given two nodes of its type. -/
def nodecomp (xop : Comparison) : Value → Value → Bool
  | .element left, .element right => xop.Holds (xstrcmp left.node.cdata right.node.cdata) 0
  | .string left, .string right => xop.Holds (xstrcmp left right) 0
  | .integer left, .integer right => xop.Holds left.toInt right.toInt
  | .boolean left, .boolean right => xop.Holds left.toNat right.toNat
  | _, _ => false

/-- `"%lu"`, of what is no `unsigned long`. -/
def formatUnsigned (value : Int64) : CString := formatNat value.toUInt64.toNat

def booleanText (truth : Bool) : CString := ascii (if truth then "true" else "false").toList

def resultToStrings : Contents → List Value
  | .elements values => values.map fun element => .string element.node.cdata
  | .strings values => values.map fun value => .string (some value)
  | .boolean truth => [.string (some (booleanText truth))]
  | .integers values => values.map fun value => .string (some (formatUnsigned value))

/-- The loops over the nodes of both sides. -/
def anyPair (nodecomp : Value → Value → Bool) (left right : List Value) : Bool :=
  left.any fun ln => right.any fun rn => nodecomp ln rn

def genericComparison (xop : Comparison) (left right : Contents) : Bool :=
  if left.type ≠ right.type then anyPair (nodecomp xop) (resultToStrings left) (resultToStrings right)
  else anyPair (nodecomp xop) left.nodes right.nodes

/-- The values of a result. A boolean one has its truth as its value, also when it is false. -/
def Contents.values : Contents → List Value
  | .boolean truth => [.boolean truth]
  | other => other.nodes

/-- The text that a value has, with the decimal form of a number. -/
def Value.text : Value → CString
  | .element value => value.node.cdata.getD []
  | .string value => value.getD []
  | .boolean value => booleanText value
  | .integer value => formatInt value.toInt

/-- Texts are ordered by their bytes. -/
def Comparison.HoldsOfTexts (xop : Comparison) (left right : CString) : Prop :=
  xop.Holds (left.map UInt8.toNat) (right.map UInt8.toNat)

/-- Values of one type are compared directly, which means by their texts for elements and strings;
others are compared by their texts. -/
def Value.Satisfies (xop : Comparison) : Value → Value → Prop
  | .integer left, .integer right => xop.Holds left.toInt right.toInt
  | .boolean left, .boolean right => xop.Holds left right
  | left, right => xop.HoldsOfTexts left.text right.text

/-- A comparison finds the pairs that satisfy the operator, and equality and order can be read from
either side. -/
structure Compares (xop : Comparison) (left right : Contents) : Prop where
  pairs : genericComparison xop left right = true ↔
    ∃ v ∈ left.values, ∃ w ∈ right.values, v.Satisfies xop w
  symmetric : genericComparison .eq left right = genericComparison .eq right left
  mirrored : genericComparison .lt left right = genericComparison .gt right left

/-- A number that is below zero. -/
def Value.Negative : Value → Prop
  | .integer value => value.toInt < 0
  | _ => False

/-- The text of a value where the number is read as one without a sign. -/
def Value.unsignedText : Value → CString
  | .integer value => formatUnsigned value
  | other => other.text

/-- Some pair of a left and a right value satisfies the operator by their texts. -/
def PairOfTexts (xop : Comparison) (text : Value → CString) (which : Value → Value → Prop)
    (left right : Contents) : Prop :=
  ∃ v ∈ left.values, ∃ w ∈ right.values, which v w ∧ xop.HoldsOfTexts (text v) (text w)

/-- Two booleans are both true, or do not satisfy the operator. Between different types, either a
pair without a number below zero satisfies it, or pairs with one do so by the numbers if and only
if pairs with one do so by the numbers read without a sign. -/
def Decided (xop : Comparison) (left right : Contents) : Prop :=
  match left, right with
  | .boolean a, .boolean b => (a = true ∧ b = true) ∨ ¬ xop.Holds a b
  | left, right => left.type = right.type ∨
      PairOfTexts xop Value.text (fun v w => ¬ v.Negative ∧ ¬ w.Negative) left right ∨
      (PairOfTexts xop Value.text (fun v w => v.Negative ∨ w.Negative) left right ↔
        PairOfTexts xop Value.unsignedText (fun v w => v.Negative ∨ w.Negative) left right)

section Texts

variable {xop : Comparison}

theorem compare_bytes (c d : UInt8) :
    match compare c d with
    | .lt => c.toNat < d.toNat
    | .eq => c = d
    | .gt => d.toNat < c.toNat := by
  cases order : compare c d with
  | lt => exact UInt8.lt_iff_toNat_lt.mp (Std.LawfulLTCmp.eq_lt_iff_lt.mp order)
  | eq => exact Std.LawfulEqOrd.eq_of_compare order
  | gt => exact UInt8.lt_iff_toNat_lt.mp (Std.LawfulLTCmp.eq_gt_iff_gt.mp order)

theorem strcmp_order (s t : CString) :
    match Environ.strcmp s t with
    | .lt => s.map UInt8.toNat < t.map UInt8.toNat
    | .eq => s.map UInt8.toNat = t.map UInt8.toNat
    | .gt => t.map UInt8.toNat < s.map UInt8.toNat := by
  induction s generalizing t with
  | nil =>
    cases t with
    | nil => exact rfl
    | cons d t => exact List.nil_lt_cons _ _
  | cons c s ih =>
    cases t with
    | nil => exact List.nil_lt_cons _ _
    | cons d t =>
      have bytes := compare_bytes c d
      have rest := ih t
      simp only [Environ.strcmp, List.compareLex, List.map_cons] at rest ⊢
      cases order : compare c d with
      | lt =>
        rw [order] at bytes
        exact List.cons_lt_cons_iff.mpr (.inl bytes)
      | gt =>
        rw [order] at bytes
        exact List.cons_lt_cons_iff.mpr (.inl bytes)
      | eq =>
        rw [order] at bytes
        subst bytes
        cases later : List.compareLex compare s t <;> rw [later] at rest
        · exact List.cons_lt_cons_iff.mpr (.inr ⟨rfl, rest⟩)
        · exact congrArg _ rest
        · exact List.cons_lt_cons_iff.mpr (.inr ⟨rfl, rest⟩)

theorem holds_xstrcmp : xop.Holds (xstrcmp s t) 0 ↔ xop.HoldsOfTexts (s.getD []) (t.getD []) := by
  unfold Comparison.HoldsOfTexts xstrcmp
  have order := strcmp_order (s.getD []) (t.getD [])
  cases result : Environ.strcmp (s.getD []) (t.getD []) with
  | lt =>
    rw [result] at order
    cases xop <;> simp [Comparison.Holds, order.ne, order, order.not_gt, order.le]
  | eq =>
    rw [result] at order
    cases xop <;> simp [Comparison.Holds, order]
  | gt =>
    rw [result] at order
    cases xop <;> simp [Comparison.Holds, order.ne', order, order.not_gt, order.le]

end Texts

section Pairs

variable {xop : Comparison} {left right : Contents} {v w : Value}

def Value.type : Value → ResultType
  | .element _ => .element
  | .string _ => .string
  | .boolean _ => .boolean
  | .integer _ => .integer

theorem type_of_values {contents : Contents} (member : v ∈ contents.values) : v.type = contents.type := by
  cases contents with
  | boolean truth => rw [List.mem_singleton.mp member]; rfl
  | elements values => obtain ⟨_, _, rfl⟩ := List.mem_map.mp member; rfl
  | strings values => obtain ⟨_, _, rfl⟩ := List.mem_map.mp member; rfl
  | integers values => obtain ⟨_, _, rfl⟩ := List.mem_map.mp member; rfl

theorem anyPair_iff {left right : List Value} :
    anyPair test left right = true ↔ ∃ v ∈ left, ∃ w ∈ right, test v w = true := by
  simp [anyPair]

/-- Of two values of one type, the comparison function tells whether they satisfy the operator. -/
theorem nodecomp_iff (same : v.type = w.type) : nodecomp xop v w = true ↔ v.Satisfies xop w := by
  cases v <;> cases w <;> try cases same
  case element.element v w => exact decide_eq_true_iff.trans holds_xstrcmp
  case string.string v w => exact decide_eq_true_iff.trans holds_xstrcmp
  case integer.integer v w => exact decide_eq_true_iff
  case boolean.boolean v w =>
    have all : ∀ v w : Bool, xop.Holds v.toNat w.toNat ↔ xop.Holds v w := by
      cases xop <;> decide
    exact decide_eq_true_iff.trans (all v w)

/-- The strings that stand for values of one type. -/
theorem resultToStrings_eq (contents : Contents) : ∃ strings : Value → Option CString,
    resultToStrings contents = contents.values.map (fun v => .string (strings v)) ∧
      ∀ v ∈ contents.values, (strings v).getD [] = v.unsignedText := by
  refine ⟨fun v => match v with
    | .element value => value.node.cdata
    | .string value => value
    | .boolean value => some (booleanText value)
    | .integer value => some (formatUnsigned value), ?_, fun v _ => ?_⟩
  · cases contents <;> simp [resultToStrings, Contents.values, Contents.nodes]
  · cases v <;> rfl

/-- Values of different types are compared by their texts, where numbers have no sign. -/
theorem genericComparison_apart (apart : left.type ≠ right.type) :
    genericComparison xop left right = true ↔ PairOfTexts xop Value.unsignedText (fun _ _ => True) left right := by
  obtain ⟨strings, lefts, text⟩ := resultToStrings_eq left
  obtain ⟨strings', rights, text'⟩ := resultToStrings_eq right
  rw [genericComparison, if_pos apart, lefts, rights, anyPair_iff]
  simp only [List.mem_map, exists_exists_and_eq_and, PairOfTexts, true_and]
  refine exists_congr fun v => and_congr_right fun member => ?_
  refine exists_congr fun w => and_congr_right fun member' => ?_
  rw [← text v member, ← text' w member']
  exact nodecomp_iff rfl

theorem genericComparison_same (same : left.type = right.type) :
    genericComparison xop left right = true ↔ ∃ v ∈ left.nodes, ∃ w ∈ right.nodes, nodecomp xop v w = true := by
  rw [genericComparison, if_neg (not_not.mpr same), anyPair_iff]

theorem satisfies_apart (apart : v.type ≠ w.type) : v.Satisfies xop w ↔ xop.HoldsOfTexts v.text w.text := by
  cases v <;> cases w <;> first | exact absurd rfl apart | rfl

theorem unsignedText_of_nonneg (nonneg : ¬ v.Negative) : v.unsignedText = v.text := by
  cases v with
  | integer value =>
    have nonneg : 0 ≤ value.toInt := not_lt.mp nonneg
    obtain ⟨n, same⟩ := Int.eq_ofNat_of_zero_le nonneg
    have bits : value.toUInt64.toNat = n := by
      have cases_ := BitVec.toInt_eq_toNat_cond value.toBitVec
      have bound := value.toBitVec.isLt
      have read : value.toBitVec.toInt = n := same
      change value.toBitVec.toNat = n
      split_ifs at cases_ <;> omega
    simp [Value.unsignedText, Value.text, formatUnsigned, bits, same, formatInt]
  | _ => rfl

/-- The operator for the two sides in the other order. -/
def Comparison.swap : Comparison → Comparison
  | eq => eq
  | ne => ne
  | lt => gt
  | gt => lt
  | le => ge
  | ge => le

theorem holds_swap {α : Type} [LinearOrder α] {a b : α} : xop.swap.Holds b a ↔ xop.Holds a b := by
  cases xop with
  | eq => exact eq_comm
  | ne => exact ne_comm
  | _ => exact Iff.rfl

theorem satisfies_swap : w.Satisfies xop.swap v ↔ v.Satisfies xop w := by
  cases v <;> cases w <;> exact holds_swap

theorem nodecomp_swap : nodecomp xop.swap w v = nodecomp xop v w := by
  by_cases same : v.type = w.type
  · rw [Bool.eq_iff_iff, nodecomp_iff same, nodecomp_iff (Eq.symm same), satisfies_swap]
  · cases v <;> cases w <;> first | exact absurd rfl same | rfl

theorem genericComparison_swap : genericComparison xop left right = genericComparison xop.swap right left := by
  have turned (first second : List Value) :
      anyPair (nodecomp xop) first second = anyPair (nodecomp xop.swap) second first := by
    rw [Bool.eq_iff_iff, anyPair_iff, anyPair_iff]
    constructor
    · rintro ⟨v, inFirst, w, inSecond, test⟩
      exact ⟨w, inSecond, v, inFirst, nodecomp_swap.trans test⟩
    · rintro ⟨w, inSecond, v, inFirst, test⟩
      exact ⟨v, inFirst, w, inSecond, nodecomp_swap.symm.trans test⟩
  simp only [genericComparison, turned, ne_comm (a := left.type)]

/-- The pairs are those without a number below zero, which has one text, and those with one. -/
theorem pairOfTexts_iff :
    (PairOfTexts xop Value.text (fun _ _ => True) left right ↔
      PairOfTexts xop Value.text (fun v w => ¬ v.Negative ∧ ¬ w.Negative) left right ∨
        PairOfTexts xop Value.text (fun v w => v.Negative ∨ w.Negative) left right) ∧
    (PairOfTexts xop Value.unsignedText (fun _ _ => True) left right ↔
      PairOfTexts xop Value.text (fun v w => ¬ v.Negative ∧ ¬ w.Negative) left right ∨
        PairOfTexts xop Value.unsignedText (fun v w => v.Negative ∨ w.Negative) left right) := by
  have split (text : Value → CString) : PairOfTexts xop text (fun _ _ => True) left right ↔
      PairOfTexts xop text (fun v w => ¬ v.Negative ∧ ¬ w.Negative) left right ∨
        PairOfTexts xop text (fun v w => v.Negative ∨ w.Negative) left right := by
    constructor
    · rintro ⟨v, inLeft, w, inRight, -, holds⟩
      by_cases negative : v.Negative ∨ w.Negative
      · exact .inr ⟨v, inLeft, w, inRight, negative, holds⟩
      · exact .inl ⟨v, inLeft, w, inRight, not_or.mp negative, holds⟩
    · rintro (⟨v, inLeft, w, inRight, -, holds⟩ | ⟨v, inLeft, w, inRight, -, holds⟩)
      · exact ⟨v, inLeft, w, inRight, trivial, holds⟩
      · exact ⟨v, inLeft, w, inRight, trivial, holds⟩
  refine ⟨split _, (split _).trans (or_congr_left ?_)⟩
  refine exists_congr fun v => and_congr_right fun _ => exists_congr fun w =>
    and_congr_right fun _ => and_congr_right fun nonneg => ?_
  rw [unsignedText_of_nonneg nonneg.1, unsignedText_of_nonneg nonneg.2]

theorem values_apart (apart : left.type ≠ right.type) :
    (∃ v ∈ left.values, ∃ w ∈ right.values, v.Satisfies xop w) ↔
      PairOfTexts xop Value.text (fun _ _ => True) left right := by
  refine exists_congr fun v => and_congr_right fun member => exists_congr fun w =>
    and_congr_right fun member' => ?_
  rw [true_and, satisfies_apart]
  rwa [type_of_values member, type_of_values member']

theorem nodes_of_type (type : left.type ≠ .boolean) : left.nodes = left.values := by
  cases left with
  | boolean truth => exact absurd rfl type
  | _ => rfl

theorem boolean_of_type (type : left.type = .boolean) : ∃ truth, left = .boolean truth := by
  cases left with
  | boolean truth => exact ⟨truth, rfl⟩
  | _ => cases type

/-- The pairs that a comparison finds are those that satisfy the operator if and only if numbers
below zero and the missing node of a false result make no difference. -/
theorem pairs_iff :
    (genericComparison xop left right = true ↔
      ∃ v ∈ left.values, ∃ w ∈ right.values, v.Satisfies xop w) ↔ Decided xop left right := by
  by_cases apart : left.type = right.type
  · by_cases boolean : left.type = .boolean
    · obtain ⟨a, rfl⟩ := boolean_of_type boolean
      obtain ⟨b, rfl⟩ := boolean_of_type (apart ▸ boolean)
      simp only [Contents.values, List.mem_singleton, exists_eq_left, Value.Satisfies, Decided]
      revert a b
      cases xop <;> decide
    · refine iff_of_true ?_ ?_
      · rw [genericComparison_same apart, nodes_of_type boolean, nodes_of_type (apart ▸ boolean)]
        refine exists_congr fun v => and_congr_right fun member => exists_congr fun w =>
          and_congr_right fun member' => nodecomp_iff ?_
        rw [type_of_values member, type_of_values member', apart]
      · unfold Decided
        split
        · exact absurd rfl boolean
        · exact .inl apart
  · have decided : Decided xop left right ↔
        PairOfTexts xop Value.text (fun v w => ¬ v.Negative ∧ ¬ w.Negative) left right ∨
        (PairOfTexts xop Value.text (fun v w => v.Negative ∨ w.Negative) left right ↔
          PairOfTexts xop Value.unsignedText (fun v w => v.Negative ∨ w.Negative) left right) := by
      cases left <;> cases right <;> first | exact absurd rfl apart | exact or_iff_right apart
    rw [genericComparison_apart apart, values_apart apart, pairOfTexts_iff.1, pairOfTexts_iff.2, decided]
    tauto

end Pairs

/-- The pairs that satisfy the operator are found exactly where the condition holds. Every comparison can be read
from either side. -/
theorem compares_iff (xop : Comparison) (left right : Contents) :
    (Compares xop left right ↔ Decided xop left right) ∧
      genericComparison xop left right = genericComparison xop.swap right left :=
  ⟨⟨fun compares => pairs_iff.mp compares.pairs, fun decided =>
    ⟨pairs_iff.mpr decided, genericComparison_swap, genericComparison_swap⟩⟩, genericComparison_swap⟩

/-- The number -5 is not equal to the text that denotes it. -/
theorem compares_negative : ¬ ∀ (xop : Comparison) (left right : Contents),
    Compares xop left right := by
  intro claimed
  have pairs := (claimed .eq (.integers [-5]) (.strings [ascii "-5".toList])).pairs
  have found : genericComparison .eq (.integers [-5]) (.strings [ascii "-5".toList]) = true := by
    refine pairs.mpr ⟨.integer (-5), by simp [Contents.values, Contents.nodes],
      .string (some (ascii "-5".toList)), by simp [Contents.values, Contents.nodes], ?_⟩
    rfl
  revert found
  decide

end Testbus.Xpath
