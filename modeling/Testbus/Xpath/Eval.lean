import Testbus.Xpath.Compare

namespace Testbus.Xpath

open Xml

/-- The axes of `xpath_get_axis_ops`. -/
inductive Axis
  | child
  | descendant
  | attribute
  | self
  deriving DecidableEq

/-- The functions of `xpath_get_function`. -/
inductive Func
  | true_
  | false_
  | last
  | not_
  deriving DecidableEq

inductive Arith
  | add
  | subtract
  | multiply
  | divide
  | modulo
  deriving DecidableEq

/-- The operators between two operands, those of `xpath_get_infix_ops` and
`xpath_get_comparison_ops`. -/
inductive Operator
  | and
  | or
  | arith (oper : Arith)
  | compare (xop : Comparison)
  deriving DecidableEq

/-- `struct xpath_enode`, in the shapes that the parser builds. A function may be without an
operand; `noOperator` is a node whose `ops` are `NULL`. -/
inductive Enode
  | node
  | stringconst (identifier : CString)
  | intconst (integer : Int64)
  | noOperator
  | call (func : Func)
  | callOn (func : Func) (left : Enode)
  | step (axis : Axis) (identifier : Option CString) (left : Enode)
  | predicate (left right : Enode)
  | binary (op : Operator) (left right : Enode)
  deriving DecidableEq

/-- `ops->intype` -/
inductive InputType
  | void
  | any
  | of (type : ResultType)
  deriving DecidableEq

def Func.intype : Func → InputType
  | true_ => .void
  | false_ => .void
  | last => .of .element
  | not_ => .of .boolean

def Operator.intype : Operator → InputType
  | and => .of .boolean
  | or => .of .boolean
  | arith _ => .of .integer
  | compare _ => .any

namespace Enode

/-- `ops->outtype` -/
def outtype : Enode → Option ResultType
  | node => some .element
  | stringconst _ => some .string
  | intconst _ => some .integer
  | noOperator => none
  | call func => some (if func = .last then .integer else .boolean)
  | callOn func _ => some (if func = .last then .integer else .boolean)
  | step axis _ _ => some (if axis = .attribute then .string else .element)
  | predicate _ _ => some .element
  | binary (.arith _) _ _ => some .integer
  | binary _ _ _ => some .boolean

end Enode

/-- What ends an evaluation with a crash: a name or a text that is `NULL` is compared or parsed, a
division traps, there are no `ops`, or a result that is no longer referenced is used. -/
inductive Fault
  | nullName
  | nullText
  | trap
  | noOperator
  | freed
  deriving DecidableEq

def Enode.constant : Enode → Except Fault Bool
  | node => .ok false
  | stringconst _ => .ok true
  | intconst _ => .ok true
  | noOperator => .error .noOperator
  | call _ => .ok true
  | callOn _ left => left.constant
  | step _ _ left => left.constant
  | predicate left right => do
    let constant ← left.constant
    let constant' ← right.constant
    .ok (constant && constant')
  | binary _ left right => do
    let constant ← left.constant
    let constant' ← right.constant
    .ok (constant && constant')

/-- The loop of the cast to boolean. -/
def Contents.castBoolean : Contents → Bool
  | .elements values => values ≠ []
  | .strings values => values.any (· ≠ [])
  | .integers values => values.any (· ≠ 0)
  | .boolean truth => truth

/-- The loop of the cast to integer, over the texts. One that does not end behind the number is
left out. -/
def parseIntegers : List (Option CString) → Except Fault (List Int64)
  | [] => .ok []
  | none :: _ => .error .nullText
  | some strval :: rest => do
    let later ← parseIntegers rest
    let (ival, behind) := strtol 0 strval
    .ok (if behind = [] then Int64.ofInt ival :: later else later)

/-- The texts that the cast to integer reads, or nothing when it cannot convert. The loop over a
result that is false has no rounds. -/
def Contents.integerTexts : Contents → Option (List (Option CString))
  | .elements values => some (values.map fun element => element.node.cdata)
  | .strings values => some (values.map some)
  | .boolean truth => if truth then none else some []
  | .integers _ => none

/-- `__xpath_expression_cast`, or nothing when it fails. -/
def cast (expected : InputType) (na : Contents) : Except Fault (Option Contents) :=
  match expected with
  | .void => .ok (some na)
  | .any => .ok (some na)
  | .of type =>
    if type = na.type then .ok (some na)
    else match type with
      | .boolean => .ok (some (.boolean na.castBoolean))
      | .integer =>
        match na.integerTexts with
        | some texts => (parseIntegers texts).map fun values => some (.integers values)
        | none => .ok none
      | _ => .ok none

/-- `!match_name || !strcmp(xn->name, match_name)` -/
def matchName (matchName : Option CString) (element : Element) : Except Fault Bool :=
  match matchName with
  | none => .ok true
  | some name =>
    match element.node.name with
    | none => .error .nullName
    | some own => .ok (own = name)

/-- The elements, one after the other, that match a name. -/
def matching (identifier : Option CString) : List Element → Except Fault (List Element)
  | [] => .ok []
  | element :: rest => do
    let here ← matchName identifier element
    let later ← matching identifier rest
    .ok (if here then element :: later else later)

mutual

/-- What is below a node, in the order of `__xpath_enode_descendants_match`. -/
def descendants (p : Position) : Node → List Element
  | .mk _ _ _ children _ => descendantsOf p 0 children

def descendantsOf (p : Position) (i : Nat) : List Node → List Element
  | [] => []
  | child :: rest =>
    ⟨p ++ [i], child⟩ :: (descendants (p ++ [i]) child ++ descendantsOf p (i + 1) rest)

end

/-- `xml_node_get_attr`, which compares the names of the attributes with what it is given. -/
def getAttr (identifier : Option CString) (element : Element) : Except Fault (Option CString) :=
  match identifier with
  | none => if element.node.attrs = [] then .ok none else .error .nullName
  | some name => .ok (element.node.getAttr name)

/-- `__xpath_enode_getattr_evaluate` -/
def getattrs (identifier : Option CString) : List Element → Except Fault (List CString)
  | [] => .ok []
  | element :: rest => do
    let attrval ← getAttr identifier element
    let later ← getattrs identifier rest
    .ok (attrval.toList ++ later)

/-- The elements whose names an axis looks at. -/
def Axis.reach (axis : Axis) (input : List Element) : List Element :=
  match axis with
  | .child => input.flatMap Element.children
  | .descendant => input.flatMap fun element => descendants element.position element.node
  | _ => input

/-- The functions that evaluate the axes. -/
def Axis.evaluate (axis : Axis) (identifier : Option CString) (input : List Element) :
    Except Fault Contents :=
  if axis = .attribute then (getattrs identifier input).map .strings
  else (matching identifier (axis.reach input)).map .elements

/-- `__xpath_arith_add` and the like, on a `long`; the smallest number divided by -1 traps. -/
def Arith.evaluate (oper : Arith) (lint rint : Int64) : Except Fault (Option Int64) :=
  match oper with
  | add => .ok (some (lint + rint))
  | subtract => .ok (some (lint - rint))
  | multiply => .ok (some (lint * rint))
  | divide =>
    if rint = 0 then .ok none
    else if lint = Int64.minValue ∧ rint = -1 then .error .trap
    else .ok (some (lint / rint))
  | modulo =>
    if rint = 0 then .ok none
    else if lint = Int64.minValue ∧ rint = -1 then .error .trap
    else .ok (some (lint % rint))

/-- Apply an operation to pairs in order. -/
def arithPairs (oper : Arith) : List (Int64 × Int64) → Except Fault (List Int64)
  | [] => .ok []
  | (lint, rint) :: rest => do
    let rv ← oper.evaluate lint rint
    let later ← arithPairs oper rest
    .ok (rv.toList ++ later)

/-- The pairs in the order of the two loops. -/
def pairsOf (left right : List Int64) : List (Int64 × Int64) :=
  left.flatMap fun lint => right.map fun rint => (lint, rint)

/-- `evaluate2`, of operands that the casts let through. -/
def Operator.evaluate (op : Operator) (left right : Contents) : Except Fault Contents :=
  match op, left, right with
  | arith oper, .integers left, .integers right =>
    (arithPairs oper (pairsOf left right)).map .integers
  | and, left, right => .ok (.boolean (left.castBoolean && right.castBoolean))
  | or, left, right => .ok (.boolean (left.castBoolean || right.castBoolean))
  | compare xop, left, right => .ok (.boolean (genericComparison xop left right))
  | arith _, _, _ => .ok (.integers [])

/-- The functions, with what `last()` is for the operand. -/
def Func.evaluate (func : Func) (size : List Element → Nat) (input : Contents) : Contents :=
  match func, input with
  | .true_, _ => .boolean true
  | .false_, _ => .boolean false
  | .last, .elements input => .integers [Int64.ofNat (size input)]
  | .last, input => .integers [Int64.ofNat input.count]
  | .not_, input => .boolean (!input.castBoolean)

/-- The loop over what a constant subscript gave. A true one makes the function return the operand
itself, without a reference of its own. -/
def constantSubscript (left : List Element) : Contents → Except Fault (List Element)
  | .integers values =>
    .ok (values.filterMap fun index =>
      if 0 < index.toInt then left[index.toInt.toNat - 1]? else none)
  | .boolean true => .error .freed
  | _ => .ok []

/-- What the `m`-th element adds to the result, by the value of the subscript at it. -/
def appended (m : Nat) (xn : Element) : Option Contents → List Element
  | some (.elements values) => if values = [] then [] else [xn]
  | some (.integers values) => (values.filter fun value => value.toInt = (m : Int) + 1).map fun _ => xn
  | some (.boolean truth) => if truth then [xn] else []
  | _ => []

/-- The loop over the elements when the subscript is not constant. -/
def eachElement (subscript : List Element → Except Fault (Option Contents)) (m : Nat) :
    List Element → Except Fault (List Element)
  | [] => .ok []
  | xn :: rest => do
    let right ← subscript [xn]
    let later ← eachElement subscript (m + 1) rest
    .ok (appended m xn right ++ later)

/-- `__xpath_enode_predicate_evaluate`, with the evaluation of the subscript. -/
def predicateEvaluate (constant : Except Fault Bool)
    (subscript : List Element → Except Fault (Option Contents)) (left : List Element) :
    Except Fault (Option Contents) :=
  if left = [] then .ok (some (.elements []))
  else do
    if ← constant then
      match ← subscript left with
      | none => .ok none
      | some right => (constantSubscript left right).map fun result => some (.elements result)
    else (eachElement subscript 0 left).map fun result => some (.elements result)

/-- An operator on elements. The cast of anything else fails. -/
def onElements (operand : Except Fault (Option Contents))
    (operate : List Element → Except Fault (Option Contents)) : Except Fault (Option Contents) := do
  match ← operand with
  | some (.elements left) => operate left
  | _ => .ok none

/-- The casts of both operands, the second one after the first did not fail, and the operator. -/
def binaryEvaluate (op : Operator) : Option Contents → Option Contents →
    Except Fault (Option Contents)
  | none, _ => .ok none
  | some left, right => do
    match ← cast op.intype left, right with
    | some left, some right =>
      match ← cast op.intype right with
      | some right => (op.evaluate left right).map some
      | none => .ok none
    | _, _ => .ok none

/-- `__xpath_expression_eval`, on the elements of its input and with the size that they have
for `last()`. Each operator has results of its `outtype`, which need no check. -/
def evaluate (size : List Element → Nat) : Enode → List Element → Except Fault (Option Contents)
  | .node, input => .ok (some (.elements input))
  | .stringconst identifier, _ => .ok (some (.strings [identifier]))
  | .intconst integer, _ => .ok (some (.integers [integer]))
  | .noOperator, _ => .error .noOperator
  | .call func, input => do
    match ← cast func.intype (.elements input) with
    | some left => .ok (some (func.evaluate size left))
    | none => .ok none
  | .callOn func left, input => do
    match ← evaluate size left input with
    | none => .ok none
    | some left =>
      match ← cast func.intype left with
      | some left => .ok (some (func.evaluate List.length left))
      | none => .ok none
  | .step axis identifier left, input =>
    onElements (evaluate size left input) fun left => (axis.evaluate identifier left).map some
  | .predicate left right, input =>
    onElements (evaluate size left input)
      (predicateEvaluate right.constant (evaluate List.length right))
  | .binary op left right, input => do
    let left ← evaluate size left input
    let right ← evaluate size right input
    binaryEvaluate op left right

/-- The value of an expression at a set of elements. -/
abbrev eval : Enode → List Element → Except Fault (Option Contents) := evaluate List.length

section Inversion

open Lib

variable {size : List Element → Nat} {left right : Enode} {input : List Element} {value : Contents}

/-- A cast leaves a value as it is or makes a boolean or integers of it. -/
theorem cast_ok (converted : cast expected na = .ok (some value)) :
    value = na ∨ value = .boolean na.castBoolean ∨ ∃ texts values,
      na.integerTexts = some texts ∧ parseIntegers texts = .ok values ∧ value = .integers values := by
  unfold cast at converted
  split at converted
  · cases converted; exact .inl rfl
  · cases converted; exact .inl rfl
  · split_ifs at converted
    · cases converted; exact .inl rfl
    · split at converted
      · cases converted; exact .inr (.inl rfl)
      · split at converted
        next texts found =>
          obtain ⟨values, parsed, same⟩ := map_ok.mp converted
          cases same
          exact .inr (.inr ⟨texts, values, found, parsed, rfl⟩)
        next => cases converted
      · cases converted

theorem evaluate_call (evaluated : evaluate size (.call func) input = .ok (some value)) :
    ∃ operand, value = func.evaluate size operand := by
  obtain ⟨operand, -, given⟩ := bind_ok.mp evaluated
  cases operand with
  | none => cases given
  | some operand => cases given; exact ⟨operand, rfl⟩

theorem evaluate_callOn (evaluated : evaluate size (.callOn func left) input = .ok (some value)) :
    ∃ operand, value = func.evaluate List.length operand := by
  obtain ⟨result, -, given⟩ := bind_ok.mp evaluated
  cases result with
  | none => cases given
  | some result =>
    obtain ⟨operand, -, given⟩ := bind_ok.mp given
    cases operand with
    | none => cases given
    | some operand => cases given; exact ⟨operand, rfl⟩

/-- A path has elements to start from. -/
theorem evaluate_step (evaluated : evaluate size (.step axis identifier left) input = .ok (some value)) :
    ∃ elements, evaluate size left input = .ok (some (.elements elements)) ∧
      axis.evaluate identifier elements = .ok value := by
  obtain ⟨result, found, given⟩ := bind_ok.mp evaluated
  match result with
  | some (.elements elements) =>
    obtain ⟨reached, there, same⟩ := map_ok.mp given
    cases same
    exact ⟨elements, found, there⟩
  | none => cases given
  | some (.strings _) => cases given
  | some (.integers _) => cases given
  | some (.boolean _) => cases given

theorem evaluate_predicate (evaluated : evaluate size (.predicate left right) input = .ok (some value)) :
    ∃ elements, evaluate size left input = .ok (some (.elements elements)) ∧
      predicateEvaluate right.constant (eval right) elements = .ok (some value) := by
  obtain ⟨result, found, given⟩ := bind_ok.mp evaluated
  match result with
  | some (.elements elements) => exact ⟨elements, found, given⟩
  | none => cases given
  | some (.strings _) => cases given
  | some (.integers _) => cases given
  | some (.boolean _) => cases given

/-- Both operands have values that can be cast. -/
theorem evaluate_binary (evaluated : evaluate size (.binary op left right) input = .ok (some value)) :
    ∃ first second first' second', evaluate size left input = .ok (some first) ∧
      evaluate size right input = .ok (some second) ∧ cast op.intype first = .ok (some first') ∧
      cast op.intype second = .ok (some second') ∧ op.evaluate first' second' = .ok value := by
  obtain ⟨first, foundFirst, given⟩ := bind_ok.mp evaluated
  obtain ⟨second, foundSecond, given⟩ := bind_ok.mp given
  cases first with
  | none => cases given
  | some first =>
    obtain ⟨first', castFirst, given⟩ := bind_ok.mp given
    cases first' with
    | none => cases given
    | some first' =>
      cases second with
      | none => cases given
      | some second =>
        obtain ⟨second', castSecond, given⟩ := bind_ok.mp given
        cases second' with
        | none => cases given
        | some second' =>
          obtain ⟨result, computed, same⟩ := map_ok.mp given
          cases same
          exact ⟨first, second, first', second', foundFirst, foundSecond, castFirst, castSecond, computed⟩

end Inversion

end Testbus.Xpath
