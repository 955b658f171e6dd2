import Testbus.Xpath.Eval

namespace Testbus.Xpath

open Lib

/-- A set of elements in some order. -/
structure NodeSet where
  elements : List Element
  once : elements.Nodup

/-- The value of a subscript at the element with index `m`, counted from 0, is its position or casts
to true. -/
def choose (m : Nat) : Option Contents → Bool
  | some (.integers values) => values.any fun value => value.toInt = (m : Int) + 1
  | some value => value.castBoolean
  | none => false

/-- The subscript, with `last()` as the size of the set, has a value at an element that chooses
it. -/
def chosen (subscript : Enode) (left : List Element) (m : Nat) (xn : Element) : Bool :=
  match evaluate (fun _ => left.length) subscript [xn] with
  | .ok right => choose m right
  | .error _ => false

/-- The elements that a subscript chooses, in order. -/
def selected (subscript : Enode) (left : List Element) : List Element :=
  (left.zipIdx.filter fun p => chosen subscript left p.2 p.1).map Prod.fst

/-- The predicate gives the elements that its subscript chooses. -/
def Selects (subscript : Enode) (left : NodeSet) : Prop :=
  predicateEvaluate subscript.constant (eval subscript) left.elements =
    .ok (some (.elements (selected subscript left.elements)))

/-- A value has no text other than the empty one. -/
def Contents.Textless (contents : Contents) : Prop :=
  ∀ values, contents = .strings values → ∀ text ∈ values, text = []

/-- A constant subscript has a value, which is not true and no text. -/
def ConstantFits (subscript : Enode) (left : List Element) : Prop :=
  ∃ right, eval subscript left = .ok (some right) ∧ right ≠ .boolean true ∧ right.Textless

/-- At each element, the subscript is evaluated without a crash, to no text and to no number twice
that is the position, and with `last()` as 1 it chooses as it does with the size of the set. -/
def EachFits (subscript : Enode) (left : List Element) : Prop :=
  ∀ p ∈ left.zipIdx, ∃ right, eval subscript [p.1] = .ok right ∧
    (∀ value, right = some value → value.Textless) ∧
    (∀ values, right = some (.integers values) →
      values.countP (fun value => value.toInt = (p.2 : Int) + 1) ≤ 1) ∧
    choose p.2 right = chosen subscript left p.2 p.1

section Constant

variable {left right subscript : Enode}

theorem constant_both (both : (do
    let constant ← left.constant
    let constant' ← right.constant
    .ok (constant && constant')) = Except.ok (ε := Fault) true) :
    left.constant = .ok true ∧ right.constant = .ok true := by
  obtain ⟨first, here, rest⟩ := bind_ok.mp both
  obtain ⟨second, there, done⟩ := bind_ok.mp rest
  obtain ⟨rfl, rfl⟩ := Bool.and_eq_true_iff.mp (Except.ok.inj done)
  exact ⟨here, there⟩

/-- What is constant depends on the size of a set only. -/
theorem evaluate_constant (constant : subscript.constant = .ok true) (some_ : a ≠ [])
    (some' : b ≠ []) (same : f a = g b) : evaluate f subscript a = evaluate g subscript b := by
  induction subscript with
  | node => cases constant
  | stringconst identifier => rfl
  | intconst integer => rfl
  | noOperator => cases constant
  | call func =>
    cases func with
    | last => simp [evaluate, cast, Func.intype, Contents.type, Func.evaluate, same, bind, Except.bind]
    | _ => simp [evaluate, cast, Func.intype, Contents.type, Func.evaluate, Contents.castBoolean,
        some_, some', bind, Except.bind]
  | callOn func left ih => simp only [evaluate, ih constant]
  | step axis identifier left ih => simp only [evaluate, ih constant]
  | predicate left right ih _ => simp only [evaluate, ih (constant_both constant).1]
  | binary op left right ih ih' =>
    obtain ⟨first, second⟩ := constant_both constant
    simp only [evaluate, ih first, ih' second]

/-- No elements, and one value at most. -/
def Contents.Small : Contents → Prop
  | .elements _ => False
  | .strings values => values.length ≤ 1
  | .integers values => values.length ≤ 1
  | .boolean _ => True

theorem length_parseIntegers (parsed : parseIntegers texts = .ok values) : values.length ≤ texts.length := by
  induction texts generalizing values with
  | nil =>
    cases parsed
    exact le_rfl
  | cons text rest ih =>
    cases text with
    | none => cases parsed
    | some strval =>
      obtain ⟨later, found, same⟩ := bind_ok.mp parsed
      have bound := ih found
      dsimp only at same
      split_ifs at same <;> cases same <;> simp only [List.length_cons] <;> omega

theorem length_arithPairs (computed : arithPairs oper pairs = .ok values) : values.length ≤ pairs.length := by
  induction pairs generalizing values with
  | nil =>
    cases computed
    exact le_rfl
  | cons pair rest ih =>
    obtain ⟨rv, -, computed⟩ := bind_ok.mp computed
    obtain ⟨later, found, same⟩ := bind_ok.mp computed
    cases same
    have bound := ih found
    have one := Option.length_toList_le (o := rv)
    simp only [List.length_append, List.length_cons]
    omega

theorem cast_small (small : na.Small) (converted : cast expected na = .ok (some value)) : value.Small := by
  rcases cast_ok converted with rfl | rfl | ⟨texts, values, found, parsed, rfl⟩
  · exact small
  · trivial
  · refine (length_parseIntegers parsed).trans ?_
    cases na with
    | elements _ => exact small.elim
    | integers _ => cases found
    | strings values =>
      cases found
      rw [List.length_map]
      exact small
    | boolean truth =>
      cases truth <;> cases found
      exact Nat.zero_le 1

theorem operator_small {op : Operator} {first second value : Contents} (small : first.Small)
    (small' : second.Small) (computed : op.evaluate first second = .ok value) : value.Small := by
  unfold Operator.evaluate at computed
  split at computed
  next oper left right =>
    obtain ⟨values, found, same⟩ := map_ok.mp computed
    cases same
    have few : (pairsOf left right).length ≤ 1 * 1 := by
      simpa [pairsOf, List.length_flatMap] using Nat.mul_le_mul small small'
    exact (length_arithPairs found).trans few
  all_goals cases computed
  · trivial
  · trivial
  · trivial
  · exact Nat.zero_le 1

/-- A constant expression has no elements, and one value at most. -/
theorem constant_small {value : Contents} (constant : subscript.constant = .ok true)
    (evaluated : evaluate f subscript a = .ok (some value)) : value.Small := by
  have func_small (func : Func) (size : List Element → Nat) (operand : Contents) :
      (func.evaluate size operand).Small := by
    cases func <;> cases operand <;> first | trivial | exact le_rfl
  induction subscript generalizing value with
  | node => cases constant
  | stringconst identifier => cases evaluated; exact le_rfl
  | intconst integer => cases evaluated; exact le_rfl
  | noOperator => cases constant
  | call func =>
    obtain ⟨operand, rfl⟩ := evaluate_call evaluated
    exact func_small ..
  | callOn func left =>
    obtain ⟨operand, rfl⟩ := evaluate_callOn evaluated
    exact func_small ..
  | step axis identifier left ih =>
    obtain ⟨elements, found, -⟩ := evaluate_step evaluated
    exact (ih constant found).elim
  | predicate left right ih =>
    obtain ⟨elements, found, -⟩ := evaluate_predicate evaluated
    exact (ih (constant_both constant).1 found).elim
  | binary op left right ih ih' =>
    obtain ⟨first, second, first', second', found, found', converted, converted', computed⟩ := evaluate_binary evaluated
    obtain ⟨constant, constant'⟩ := constant_both constant
    exact operator_small (cast_small (ih constant found) converted)
      (cast_small (ih' constant' found') converted') computed

end Constant

section Sizes

variable {input : List Element} {value : Contents}

theorem func_type (func : Func) (size : List Element → Nat) (operand : Contents) :
    (func.evaluate size operand).type ≠ .element ∧ (func.evaluate size operand).type ≠ .string := by
  cases func <;> cases operand <;> exact ⟨nofun, nofun⟩

theorem operator_type {op : Operator} {first second : Contents}
    (computed : op.evaluate first second = .ok value) : value.type ≠ .element ∧ value.type ≠ .string := by
  unfold Operator.evaluate at computed
  split at computed
  · obtain ⟨values, -, same⟩ := map_ok.mp computed
    cases same
    exact ⟨nofun, nofun⟩
  all_goals
    cases computed
    exact ⟨nofun, nofun⟩

/-- What `last()` is has no part in elements and strings. -/
theorem evaluate_size (evaluated : evaluate f subscript input = .ok (some value))
    (type : value.type = .element ∨ value.type = .string) : evaluate g subscript input = .ok (some value) := by
  induction subscript generalizing value with
  | node => exact evaluated
  | stringconst identifier => exact evaluated
  | intconst integer => exact evaluated
  | noOperator => cases evaluated
  | call func =>
    obtain ⟨operand, rfl⟩ := evaluate_call evaluated
    exact absurd type (not_or.mpr (func_type ..))
  | callOn func left =>
    obtain ⟨operand, rfl⟩ := evaluate_callOn evaluated
    exact absurd type (not_or.mpr (func_type ..))
  | step axis identifier left ih =>
    obtain ⟨elements, found, reached⟩ := evaluate_step evaluated
    have found' := ih found (.inl rfl)
    simp [evaluate, onElements, found', reached, bind, Except.bind, Except.map]
  | predicate left right ih =>
    obtain ⟨elements, found, selected⟩ := evaluate_predicate evaluated
    have found' := ih found (.inl rfl)
    simpa [evaluate, onElements, found', bind, Except.bind] using selected
  | binary op left right =>
    obtain ⟨_, _, _, _, -, -, -, -, computed⟩ := evaluate_binary evaluated
    exact absurd type (not_or.mpr (operator_type computed))

end Sizes

section Each

variable {pick : Nat → Element → Bool}

/-- How often an element is added to the result. -/
def copies (m : Nat) : Option Contents → Nat
  | some (.elements values) => if values = [] then 0 else 1
  | some (.integers values) => values.countP fun value => value.toInt = (m : Int) + 1
  | some (.boolean truth) => truth.toNat
  | _ => 0

theorem appended_eq (m : Nat) (xn : Element) (right : Option Contents) :
    appended m xn right = List.replicate (copies m right) xn := by
  match right with
  | none => rfl
  | some (.strings _) => rfl
  | some (.boolean truth) => cases truth <;> rfl
  | some (.elements values) =>
    by_cases empty : values = [] <;> simp [appended, copies, empty]
  | some (.integers values) =>
    simp only [appended, copies, List.map_const', List.countP_eq_length_filter]

theorem replicate_append_inj (notA : x ∉ a)
    (notB : x ∉ b) (same : List.replicate k x ++ a = List.replicate j x ++ b) : k = j ∧ a = b := by
  induction k generalizing j with
  | zero =>
    cases j with
    | zero => exact ⟨rfl, same⟩
    | succ j => exact absurd (show x ∈ a by simp [show a = _ from same]) notA
  | succ k ih =>
    cases j with
    | zero => exact absurd (show x ∈ b by simp [show b = _ from same.symm]) notB
    | succ j =>
      obtain ⟨rfl, rest⟩ := ih (List.cons.inj same).2
      exact ⟨rfl, rest⟩

theorem mem_eachElement (evaluated : eachElement subscript m xs = .ok result) (member : x ∈ result) : x ∈ xs := by
  induction xs generalizing m result with
  | nil =>
    cases evaluated
    exact member
  | cons xn rest ih =>
    obtain ⟨right, -, evaluated⟩ := bind_ok.mp evaluated
    obtain ⟨later, found, same⟩ := bind_ok.mp evaluated
    cases same
    rw [appended_eq, List.mem_append] at member
    rcases member with here | later
    · rw [List.eq_of_mem_replicate here]
      exact List.mem_cons_self
    · exact List.mem_cons_of_mem _ (ih found later)

theorem mem_picked {xs : List Element}
    (member : x ∈ ((xs.zipIdx m).filter fun p => pick p.2 p.1).map Prod.fst) : x ∈ xs := by
  obtain ⟨p, inside, rfl⟩ := List.mem_map.mp member
  exact List.fst_mem_of_mem_zipIdx (List.mem_of_mem_filter inside)

/-- The loop gives a choice of elements if and only if it adds each that is chosen once. -/
theorem eachElement_iff (once : xs.Nodup) :
    eachElement subscript m xs = .ok (((xs.zipIdx m).filter fun p => pick p.2 p.1).map Prod.fst) ↔
      ∀ p ∈ xs.zipIdx m, ∃ right, subscript [p.1] = .ok right ∧ copies p.2 right = (pick p.2 p.1).toNat := by
  induction xs generalizing m with
  | nil => exact iff_of_true rfl (by simp)
  | cons xn rest ih =>
    obtain ⟨absent, once⟩ := List.nodup_cons.mp once
    have picked : (((xn :: rest).zipIdx m).filter fun p => pick p.2 p.1).map Prod.fst =
        List.replicate (pick m xn).toNat xn ++ (((rest.zipIdx (m + 1)).filter fun p => pick p.2 p.1).map Prod.fst) := by
      cases here : pick m xn <;> simp [List.zipIdx_cons, here]
    rw [picked, List.zipIdx_cons, List.forall_mem_cons, ← ih once]
    constructor
    · intro evaluated
      obtain ⟨right, found, evaluated⟩ := bind_ok.mp evaluated
      obtain ⟨later, behind, same⟩ := bind_ok.mp evaluated
      rw [appended_eq] at same
      obtain ⟨count, rfl⟩ := replicate_append_inj (fun inside => absent (mem_eachElement behind inside))
        (fun inside => absent (mem_picked inside)) (Except.ok.inj same)
      exact ⟨⟨right, found, count⟩, behind⟩
    · rintro ⟨⟨right, found, count⟩, behind⟩
      simp only [eachElement, found, behind, appended_eq, count, bind, Except.bind]

end Each

section Fits

variable {left : List Element}

theorem toNat_eq_iff {a b : Bool} : a.toNat = b.toNat ↔ a = b := by
  cases a <;> cases b <;> decide

theorem chosen_eq (found : evaluate (fun _ => left.length) subscript [xn] = .ok right) :
    chosen subscript left m xn = choose m right := by
  rw [chosen, found]

theorem textless_iff (values : List CString) :
    (Contents.strings values).Textless ↔ (Contents.strings values).castBoolean = false := by
  simp [Contents.Textless, Contents.castBoolean]

/-- An element is added as it should be if the value of the subscript there fits. -/
theorem copies_iff (found : eval subscript [xn] = .ok right) :
    copies m right = (chosen subscript left m xn).toNat ↔ (∀ value, right = some value → value.Textless) ∧
      (∀ values, right = some (.integers values) → values.countP (fun value => value.toInt = (m : Int) + 1) ≤ 1) ∧
      choose m right = chosen subscript left m xn := by
  match right with
  | none => simp [copies, choose, ← toNat_eq_iff]
  | some (.boolean truth) =>
    simp [copies, choose, Contents.castBoolean, Contents.Textless, toNat_eq_iff]
  | some (.elements values) =>
    rw [chosen_eq (evaluate_size found (.inl rfl))]
    by_cases empty : values = [] <;>
      simp [copies, choose, Contents.castBoolean, Contents.Textless, empty]
  | some (.strings values) =>
    rw [chosen_eq (evaluate_size found (.inr rfl))]
    have textless := textless_iff values
    cases truth : (Contents.strings values).castBoolean <;> simp [copies, choose, textless, truth]
  | some (.integers values) =>
    have some_ : choose m (some (.integers values)) =
        decide (0 < values.countP fun value => value.toInt = (m : Int) + 1) := by
      rw [Bool.eq_iff_iff]
      simp [choose, List.countP_pos_iff]
    have once : ∀ (n : Nat) (c : Bool), n = c.toNat ↔ n ≤ 1 ∧ decide (0 < n) = c := by
      intro n c
      cases c <;> simp <;> omega
    simp only [some_, copies, Contents.Textless, Option.some.injEq, Contents.integers.injEq,
      reduceCtorEq, forall_eq', IsEmpty.forall_iff, implies_true, true_and, once]

theorem filter_position (left : List Element) (start j : Nat) :
    ((left.zipIdx start).filter fun p => p.2 = j).map Prod.fst =
      if start ≤ j then left[j - start]?.toList else [] := by
  induction left generalizing start with
  | nil => simp
  | cons xn rest ih =>
    rw [List.zipIdx_cons, List.filter_cons]
    rcases Nat.lt_trichotomy start j with before | rfl | behind
    · have next : j - start = (j - (start + 1)) + 1 := by omega
      rw [if_neg (by simpa using before.ne), ih, if_pos (by omega), if_pos before.le, next, List.getElem?_cons_succ]
    · simp [ih]
    · rw [if_neg (by simpa using behind.ne'), ih, if_neg (by omega), if_neg (by omega)]

/-- A number below 1 or behind the last position chooses nothing. -/
theorem filter_index (left : List Element) (index : Int64) :
    (left.zipIdx.filter fun p => index.toInt = (p.2 : Int) + 1).map Prod.fst =
      (if 0 < index.toInt then left[index.toInt.toNat - 1]? else none).toList := by
  by_cases positive : 0 < index.toInt
  · have position (p : Element × Nat) :
        decide (index.toInt = (p.2 : Int) + 1) = decide (p.2 = index.toInt.toNat - 1) := by
      rw [decide_eq_decide]
      omega
    simp only [position, filter_position, if_pos positive, Nat.zero_le, if_true, Nat.sub_zero]
  · have position (p : Element × Nat) : decide (index.toInt = (p.2 : Int) + 1) = false := by
      rw [decide_eq_false_iff_not]
      omega
    simp [position, if_neg positive]

/-- What a constant subscript selects, by its value. -/
theorem constantSubscript_iff {right : Contents} (small : right.Small) (some_ : left ≠ []) :
    constantSubscript left right = .ok ((left.zipIdx.filter fun p => choose p.2 (some right)).map Prod.fst) ↔
      right ≠ .boolean true ∧ right.Textless := by
  match right with
  | .elements _ => exact small.elim
  | .boolean truth => cases truth <;> simp [constantSubscript, choose, Contents.castBoolean, Contents.Textless]
  | .strings values =>
    rw [textless_iff]
    cases truth : (Contents.strings values).castBoolean <;>
      simp [constantSubscript, choose, truth, Ne.symm some_]
  | .integers [] => simp [constantSubscript, choose, Contents.Textless]
  | .integers [index] =>
    refine iff_of_true ?_ ⟨nofun, nofun⟩
    have only (p : Element × Nat) : choose p.2 (some (.integers [index])) = decide (index.toInt = (p.2 : Int) + 1) := by
      simp [choose]
    simp only [only, filter_index]
    simp only [constantSubscript, List.filterMap_cons, List.filterMap_nil]
    split <;> simp_all
  | .integers (_ :: _ :: _) => exact absurd small (by simp [Contents.Small])

end Fits

/-- The predicate selects as it should if and only if the set is empty or the value of the subscript
fits, at the set if it is constant and at each element if it is not. -/
theorem selects_iff (subscript : Enode) (left : NodeSet) :
    Selects subscript left ↔ left.elements = [] ∨
      (subscript.constant = .ok true ∧ ConstantFits subscript left.elements) ∨
      (subscript.constant = .ok false ∧ EachFits subscript left.elements) := by
  obtain ⟨left, once⟩ := left
  by_cases empty : left = []
  · subst empty
    exact iff_of_true rfl (.inl rfl)
  unfold Selects predicateEvaluate
  simp only [empty, if_false, false_or]
  match constant : subscript.constant with
  | .error fault => simp [bind, Except.bind]
  | .ok false =>
    have wrap {first : Except Fault (List Element)} {result : List Element} :
        (first.map fun result => some (Contents.elements result)) = .ok (some (.elements result)) ↔
          first = .ok result := by
      rw [map_ok]
      simp
    simp only [bind, Except.bind, Bool.false_eq_true, if_false, wrap, Except.ok.injEq, false_and,
      false_or, true_and]
    refine (eachElement_iff once).trans (forall₂_congr fun p _ => exists_congr fun right => ?_)
    exact and_congr_right fun found => copies_iff found
  | .ok true =>
    have anywhere (xn : Element) : evaluate (fun _ => left.length) subscript [xn] = eval subscript left :=
      evaluate_constant constant (by simp) empty rfl
    simp only [bind, Except.bind, if_true, Except.ok.injEq, Bool.true_eq_false, false_and, or_false,
      true_and, ConstantFits]
    match found : eval subscript left with
    | .error fault => simp
    | .ok none => simp
    | .ok (some right) =>
      have chosen_ (p : Element × Nat) : chosen subscript left p.2 p.1 = choose p.2 (some right) :=
        chosen_eq ((anywhere p.1).trans found)
      simp only [selected, chosen_, map_ok, Option.some.injEq, Contents.elements.injEq,
        exists_eq_right, Except.ok.injEq, exists_eq_left', constantSubscript_iff
          (constant_small constant found) empty]

/-- The attribute `x` of an element as the subscript, as in `a[@x]`. -/
theorem selects_attribute : ¬ ∀ (subscript : Enode) (left : NodeSet), Selects subscript left := by
  intro claimed
  let a : Element := ⟨[], .mk (some (ascii ['a'])) [⟨ascii ['x'], some (ascii ['1'])⟩] none [] none⟩
  have selects := claimed (.step .attribute (some (ascii ['x'])) .node) ⟨[a], by simp⟩
  have count : (Except.ok (some (Contents.elements [])) : Except Fault _) =
      .ok (some (.elements [a])) := selects
  simp at count

end Testbus.Xpath
