import Testbus.Xpath.Eval
import Testbus.Lib.Blocks

namespace Testbus.Xpath

open Lib Blocks

/-- An `xpath_result_t *` that is not `NULL`. -/
abbrev ResultRef := Nat

abbrev Memory := Heap Contents

abbrev Action (β : Type) : Type := Blocks.Action Contents Fault β

def resultNew (contents : Contents) : Action ResultRef := new contents

/-- The node array of a result. -/
def resultRead (na : ResultRef) : Action Contents := read .freed na

/-- What appending to a result makes of it. -/
def resultWrite (na : ResultRef) (contents : Contents) : Action Unit := write .freed na contents

def resultDup (na : ResultRef) : Action Unit := dup .freed na

/-- `xpath_result_free`, of a result that may be `NULL`. -/
def resultFree (na : Option ResultRef) : Action Unit :=
  match na with
  | some na => release .freed na
  | none => pure ()

/-- `__xpath_expression_cast`, with what it leaves in `*nap`. When it finds that it cannot convert
to integers, it has a new result already. -/
def expressionCast (expected : InputType) (na : ResultRef) : Action (Bool × ResultRef) :=
  match expected with
  | .void => pure (true, na)
  | .any => pure (true, na)
  | .of type => do
    let contents ← resultRead na
    if type = contents.type then pure (true, na)
    else match type with
      | .boolean => do
        resultFree (some na)
        let result ← resultNew (.boolean contents.castBoolean)
        pure (true, result)
      | .integer => do
        let result ← resultNew (.integers [])
        match contents.integerTexts with
        | none => pure (false, na)
        | some texts => do
          let values ← lift (parseIntegers texts)
          resultWrite result (.integers values)
          resultFree (some na)
          pure (true, result)
      | _ => pure (false, na)

/-- The cast of a result that may be `NULL`. -/
def operandCast (expected : InputType) (na : Option ResultRef) : Action (Bool × Option ResultRef) :=
  match na with
  | none => pure (false, none)
  | some na => do
    let (fine, na) ← expressionCast expected na
    pure (fine, some na)

/-- `xpath_result_to_strings`. An element without text has the empty one here, which is what
`xstrcmp` takes for its `NULL`. -/
def Contents.asStrings : Contents → Contents
  | .elements values => .strings (values.map fun element => element.node.cdata.getD [])
  | .strings values => .strings values
  | .boolean truth => .strings [booleanText truth]
  | .integers values => .strings (values.map formatUnsigned)

def toStrings (na : ResultRef) : Action ResultRef := do
  let contents ← resultRead na
  if contents.type = .string then do
    resultDup na
    pure na
  else resultNew contents.asStrings

/-- The operands of a comparison: strings, or the results themselves with one more user. -/
def comparisonOperands (left right : ResultRef) : Action (ResultRef × ResultRef) := do
  let leftContents ← resultRead left
  let rightContents ← resultRead right
  if leftContents.type ≠ rightContents.type then do
    let left ← toStrings left
    let right ← toStrings right
    pure (left, right)
  else do
    resultDup left
    resultDup right
    pure (left, right)

/-- `__xpath_enode_generic_comparison` -/
def comparisonEvaluate (xop : Comparison) (left right : ResultRef) : Action (Option ResultRef) := do
  let (left, right) ← comparisonOperands left right
  let leftContents ← resultRead left
  let rightContents ← resultRead right
  let bv := anyPair (nodecomp xop) leftContents.nodes rightContents.nodes
  resultFree (some left)
  resultFree (some right)
  let result ← resultNew (.boolean bv)
  pure (some result)

/-- `__xpath_enode_generic_arith` -/
def arithEvaluate (oper : Arith) (left right : ResultRef) : Action (Option ResultRef) := do
  let result ← resultNew (.integers [])
  let leftContents ← resultRead left
  let rightContents ← resultRead right
  let contents ← lift ((Operator.arith oper).evaluate leftContents rightContents)
  resultWrite result contents
  pure (some result)

/-- `evaluate2` -/
def operatorEvaluate (op : Operator) (left right : ResultRef) : Action (Option ResultRef) :=
  match op with
  | .compare xop => comparisonEvaluate xop left right
  | .arith oper => arithEvaluate oper left right
  | op => do
    let leftContents ← resultRead left
    let rightContents ← resultRead right
    let contents ← lift (op.evaluate leftContents rightContents)
    let result ← resultNew contents
    pure (some result)

/-- `__xpath_enode_stringconst_evaluate` and `__xpath_enode_intconst_evaluate` -/
def constEvaluate (contents : Contents) : Action (Option ResultRef) := do
  let result ← resultNew contents
  pure (some result)

def nodeEvaluate (left : ResultRef) : Action (Option ResultRef) := do
  resultDup left
  pure (some left)

/-- The functions, which make a result of what they read. -/
def funcEvaluate (func : Func) (left : ResultRef) : Action (Option ResultRef) := do
  let contents ← resultRead left
  let result ← resultNew (func.evaluate List.length contents)
  pure (some result)

/-- The loops of the axes, which append to a result. -/
def axisLoop (axis : Axis) (identifier : Option CString) (result : ResultRef) : Contents → Action Unit
  | .elements elements => do
    let contents ← lift (axis.evaluate identifier elements)
    resultWrite result contents
  | _ => pure ()

/-- The functions that evaluate the axes. -/
def axisEvaluate (axis : Axis) (identifier : Option CString) (left : ResultRef) :
    Action (Option ResultRef) := do
  let result ← resultNew (if axis = .attribute then .strings [] else .elements [])
  let contents ← resultRead left
  axisLoop axis identifier result contents
  pure (some result)

/-- The loop over the elements in a predicate, which appends to its result. -/
def eachEvaluate (subscript : ResultRef → Action (Option ResultRef)) (result : ResultRef)
    (found : List Element) (m : Nat) : List Element → Action Unit
  | [] => pure ()
  | xn :: rest => do
    let tmp ← resultNew (.elements [xn])
    let right ← subscript tmp
    resultFree (some tmp)
    match right with
    | none => eachEvaluate subscript result found (m + 1) rest
    | some right => do
      let contents ← resultRead right
      resultWrite result (.elements (found ++ appended m xn (some contents)))
      resultFree (some right)
      eachEvaluate subscript result (found ++ appended m xn (some contents)) (m + 1) rest

/-- The loop over a constant subscript. When it is true, neither is it released nor is there one
more user of the operand that is returned. -/
def applyConstant (elements : List Element) (left result right : ResultRef) :
    Contents → Action (Option ResultRef)
  | .boolean true => do
    resultFree (some result)
    pure (some left)
  | contents => do
    let found ← lift (constantSubscript elements contents)
    resultWrite result (.elements found)
    resultFree (some right)
    pure (some result)

/-- `__xpath_enode_predicate_evaluate` -/
def predicateAction (constant : Except Fault Bool)
    (subscript : ResultRef → Action (Option ResultRef)) (left : ResultRef) :
    Action (Option ResultRef) := do
  let result ← resultNew (.elements [])
  match ← resultRead left with
  | .elements [] => pure (some result)
  | .elements elements => do
    if ← lift constant then do
      match ← subscript left with
      | none => do
        resultFree (some result)
        pure none
      | some right => do
        let contents ← resultRead right
        applyConstant elements left result right contents
    else do
      eachEvaluate subscript result [] 0 elements
      pure (some result)
  | _ => pure (some result)

/-- What is done only after a cast that did not fail. -/
def whenFine (fine : Bool) (action : Action (Option ResultRef)) : Action (Option ResultRef) :=
  if fine then action else pure none

/-- What `__xpath_expression_eval` does with the operand of an operator that has one. -/
def applyOperator (intype : InputType) (operator : ResultRef → Action (Option ResultRef))
    (left : ResultRef) : Action (Option ResultRef) := do
  let (fine, left) ← expressionCast intype left
  let result ← whenFine fine (operator left)
  resultFree (some left)
  pure result

/-- An operator without an operand is given the input. -/
def applyInput (intype : InputType) (operator : ResultRef → Action (Option ResultRef))
    (input : ResultRef) : Action (Option ResultRef) := do
  resultDup input
  applyOperator intype operator input

/-- The same, after the operand was evaluated. -/
def applyLeft (intype : InputType) (operator : ResultRef → Action (Option ResultRef))
    (left : Action (Option ResultRef)) : Action (Option ResultRef) := do
  match ← left with
  | none => pure none
  | some left => applyOperator intype operator left

/-- The second cast is not made when the first fails. -/
def castRight (intype : InputType) (right : Option ResultRef) (cast : Bool × Option ResultRef) :
    Action (Bool × Option ResultRef × Option ResultRef) :=
  if cast.1 then do
    let (fine, right) ← operandCast intype right
    pure (fine, cast.2, right)
  else pure (false, cast.2, right)

def castBoth (intype : InputType) (left right : Option ResultRef) :
    Action (Bool × Option ResultRef × Option ResultRef) := do
  let cast ← operandCast intype left
  castRight intype right cast

def combine (op : Operator) (fine : Bool) : Option ResultRef → Option ResultRef → Action (Option ResultRef)
  | some left, some right => whenFine fine (operatorEvaluate op left right)
  | _, _ => pure none

/-- What follows the casts: the operator, and that both operands are released. -/
def combineFree (op : Operator) (cast : Bool × Option ResultRef × Option ResultRef) :
    Action (Option ResultRef) := do
  let result ← combine op cast.1 cast.2.1 cast.2.2
  resultFree cast.2.1
  resultFree cast.2.2
  pure result

/-- What it does with both operands of an operator. -/
def finishBinary (op : Operator) (left right : Option ResultRef) : Action (Option ResultRef) := do
  let cast ← castBoth op.intype left right
  combineFree op cast

def applyBinary (op : Operator) (left right : Action (Option ResultRef)) : Action (Option ResultRef) := do
  let left ← left
  let right ← right
  finishBinary op left right

def expressionEval : Enode → ResultRef → Action (Option ResultRef)
  | .node, input =>
    applyInput (.of .element) nodeEvaluate input
  | .stringconst identifier, input =>
    applyInput .void (fun _ => constEvaluate (.strings [identifier])) input
  | .intconst integer, input =>
    applyInput .void (fun _ => constEvaluate (.integers [integer])) input
  | .noOperator, _ => lift (.error .noOperator)
  | .call func, input => applyInput func.intype (funcEvaluate func) input
  | .callOn func left, input => applyLeft func.intype (funcEvaluate func) (expressionEval left input)
  | .step axis identifier left, input =>
    applyLeft (.of .element) (axisEvaluate axis identifier) (expressionEval left input)
  | .predicate left right, input =>
    applyLeft (.of .element) (predicateAction right.constant (expressionEval right))
      (expressionEval left input)
  | .binary op left right, input =>
    applyBinary op (expressionEval left input) (expressionEval right input)

def xpathExpressionEval (enode : Enode) (xn : Element) : Action (Option ResultRef) := do
  let input ← resultNew (.elements [xn])
  let result ← expressionEval enode input
  resultFree (some input)
  pure result

section Frame

variable {held : List ResultRef} {na left right input : ResultRef}

theorem confined_free {na : Option ResultRef} (own : ∀ r ∈ na, r ∈ held) : Confined held (resultFree na) fun _ => [] := by
  cases na with
  | none => exact Confined.pure (List.nil_subset _)
  | some na => exact confined_release (own na rfl)

theorem confined_cast (own : na ∈ held) : Confined held (expressionCast expected na) fun value => [value.2] := by
  have keep {fine : Bool} {more : List ResultRef} : Confined (held ++ more)
      (pure (fine, na) : Action (Bool × ResultRef)) fun value => [value.2] := Confined.pure (by simp [own])
  cases expected with
  | void => exact Confined.pure (by simp [own])
  | any => exact Confined.pure (by simp [own])
  | of type =>
    refine Confined.bind confined_read fun contents => ?_
    split_ifs
    · exact keep
    · cases type with
      | boolean =>
        refine Confined.bind (confined_free (by simp [own])) fun _ => ?_
        exact Confined.bind (confined_new _) fun result => Confined.pure (by simp)
      | integer =>
        refine Confined.bind (confined_new _) fun result => ?_
        cases contents.integerTexts with
        | none => exact Confined.pure (by simp [own])
        | some texts =>
          refine Confined.bind (confined_lift fun _ => rfl) fun values => ?_
          refine Confined.bind confined_write fun _ => ?_
          exact Confined.bind (confined_free (by simp [own])) fun _ => Confined.pure (by simp)
      | element => exact keep
      | string => exact keep

theorem confined_operandCast {na : Option ResultRef} (own : ∀ r ∈ na, r ∈ held) :
    Confined held (operandCast expected na) fun value => value.2.toList := by
  cases na with
  | none => exact Confined.pure (List.nil_subset _)
  | some na => exact Confined.bind (confined_cast (own na rfl)) fun value => Confined.pure (by simp)

/-- An operator has its operand and what it makes. -/
def Operates (operator : ResultRef → Action (Option ResultRef)) : Prop :=
  ∀ left, Confined [left] (operator left) Option.toList

theorem confined_whenFine (confined : Confined held action Option.toList) : Confined held (whenFine fine action) Option.toList := by
  cases fine with
  | true => exact confined
  | false => exact Confined.pure (List.nil_subset _)

theorem confined_applyOperator
    (operates : Operates operator) (own : left ∈ held) :
    Confined held (applyOperator expected operator left) Option.toList := by
  refine Confined.bind (confined_cast own) fun value => ?_
  obtain ⟨fine, left⟩ := value
  refine Confined.bind (confined_whenFine ((operates left).weaken (by simp) fun _ =>
    List.Subset.refl _)) fun result => ?_
  exact Confined.bind (confined_free (by simp)) fun _ => Confined.pure (by simp)

theorem operates_const (contents : Contents) : Operates fun _ => constEvaluate contents :=
  fun _ => Confined.bind (confined_new _) fun _ => Confined.pure (by simp)

theorem operates_node : Operates nodeEvaluate :=
  fun _ => Confined.bind (confined_dup (by simp)) fun _ => Confined.pure (by simp)

theorem operates_func (func : Func) : Operates (funcEvaluate func) :=
  fun _ => Confined.bind confined_read fun _ =>
    Confined.bind (confined_new _) fun _ => Confined.pure (by simp)

theorem operates_axis (axis : Axis) (identifier : Option CString) : Operates (axisEvaluate axis identifier) := by
  intro left
  refine Confined.bind (confined_new _) fun result => Confined.bind confined_read fun contents => ?_
  have loop : Confined ([left] ++ [result] ++ []) (axisLoop axis identifier result contents) fun _ => [] := by
    cases contents with
    | elements elements => exact Confined.bind (confined_lift fun _ => rfl) fun _ => confined_write
    | _ => exact Confined.pure (List.nil_subset _)
  exact Confined.bind loop fun _ => Confined.pure (by simp)

theorem confined_each (operates : Operates subscript) {result : ResultRef} (own : result ∈ held)
    (found : List Element) (m : Nat) (elements : List Element) :
    Confined held (eachEvaluate subscript result found m elements) fun _ => [] := by
  induction elements generalizing held found m with
  | nil => exact Confined.pure (List.nil_subset _)
  | cons xn rest ih =>
    refine Confined.bind (confined_new _) fun tmp => ?_
    refine Confined.bind ((operates tmp).weaken (by simp) fun _ => List.Subset.refl _) fun right => ?_
    refine Confined.bind (confined_free (by simp)) fun _ => ?_
    cases right with
    | none => exact ih (by simp [own]) found (m + 1)
    | some right =>
      refine Confined.bind confined_read fun contents => Confined.bind confined_write fun _ => ?_
      exact Confined.bind (confined_free (by simp)) fun _ => ih (by simp [own]) _ _

theorem operates_predicate (operates : Operates subscript) (constant : Except Fault Bool) :
    Operates (predicateAction constant subscript) := by
  intro left
  refine Confined.bind (confined_new _) fun result => Confined.bind confined_read fun contents => ?_
  split
  · exact Confined.pure (by simp)
  · refine Confined.bind (confined_lift fun _ => rfl) fun constant => ?_
    split
    · refine Confined.bind ((operates left).weaken (by simp) fun _ => List.Subset.refl _) fun right => ?_
      cases right with
      | none => exact Confined.bind (confined_free (by simp)) fun _ => Confined.pure (List.nil_subset _)
      | some right =>
        refine Confined.bind confined_read fun contents => ?_
        unfold applyConstant
        split
        · exact Confined.bind (confined_free (by simp)) fun _ => Confined.pure (by simp)
        · refine Confined.bind (confined_lift fun _ => rfl) fun found => ?_
          refine Confined.bind confined_write fun _ => ?_
          exact Confined.bind (confined_free (by simp)) fun _ => Confined.pure (by simp)
    · exact Confined.bind (confined_each operates (by simp) _ _ _) fun _ => Confined.pure (by simp)
  · exact Confined.pure (by simp)

theorem confined_toStrings (own : na ∈ held) : Confined held (toStrings na) fun r => [r] := by
  refine Confined.bind confined_read fun contents => ?_
  split_ifs
  · exact Confined.bind (confined_dup (by simp [own])) fun _ => Confined.pure (by simp [own])
  · exact (confined_new _).weaken (List.nil_subset _) fun _ => List.Subset.refl _

theorem confined_operator (op : Operator) (own : left ∈ held) (own' : right ∈ held) :
    Confined held (operatorEvaluate op left right) Option.toList := by
  have plain (op : Operator) : Confined held (do
      let leftContents ← resultRead left
      let rightContents ← resultRead right
      let contents ← lift (op.evaluate leftContents rightContents)
      let result ← resultNew contents
      pure (some result)) Option.toList :=
    Confined.bind confined_read fun _ => Confined.bind confined_read fun _ =>
      Confined.bind (confined_lift fun _ => rfl) fun _ =>
        Confined.bind (confined_new _) fun _ => Confined.pure (by simp)
  cases op with
  | and => exact plain .and
  | or => exact plain .or
  | arith oper =>
    exact Confined.bind (confined_new _) fun result =>
      Confined.bind confined_read fun _ => Confined.bind confined_read fun _ =>
        Confined.bind (confined_lift fun _ => rfl) fun _ =>
          Confined.bind confined_write fun _ => Confined.pure (by simp)
  | compare xop =>
    have operands : Confined held (comparisonOperands left right) fun operands => [operands.1, operands.2] := by
      refine Confined.bind confined_read fun _ => Confined.bind confined_read fun _ => ?_
      split_ifs
      · exact Confined.bind (confined_toStrings (by simp [own])) fun _ =>
          Confined.bind (confined_toStrings (by simp [own'])) fun _ => Confined.pure (by simp)
      · exact Confined.bind (confined_dup (by simp [own])) fun _ =>
          Confined.bind (confined_dup (by simp [own'])) fun _ =>
            Confined.pure (by simp [own, own'])
    exact Confined.bind operands fun operands =>
      Confined.bind confined_read fun _ => Confined.bind confined_read fun _ =>
        Confined.bind (confined_free (by simp)) fun _ =>
          Confined.bind (confined_free (by simp)) fun _ =>
            Confined.bind (confined_new _) fun _ => Confined.pure (by simp)

theorem confined_castRight {right : Option ResultRef} {cast : Bool × Option ResultRef}
    (own : ∀ r ∈ cast.2, r ∈ held) (own' : ∀ r ∈ right, r ∈ held) :
    Confined held (castRight expected right cast) fun value =>
      value.2.1.toList ++ value.2.2.toList := by
  have first : cast.2.toList ⊆ held := fun r member => own r (Option.mem_toList.mp member)
  unfold castRight
  split_ifs
  · refine Confined.bind (confined_operandCast own') fun value => Confined.pure ?_
    exact List.append_subset.mpr ⟨List.subset_append_of_subset_left _ first, List.subset_append_right _ _⟩
  · exact Confined.pure (List.append_subset.mpr ⟨first, fun r member => own' r (Option.mem_toList.mp member)⟩)

theorem confined_combineFree (op : Operator) {cast : Bool × Option ResultRef × Option ResultRef} :
    Confined (cast.2.1.toList ++ cast.2.2.toList) (combineFree op cast) Option.toList := by
  obtain ⟨fine, left, right⟩ := cast
  have combined : Confined (left.toList ++ right.toList) (combine op fine left right)
      Option.toList := by
    cases left with
    | none => exact Confined.pure (List.nil_subset _)
    | some left =>
      cases right with
      | none => exact Confined.pure (List.nil_subset _)
      | some right => exact confined_whenFine (confined_operator op (by simp) (by simp))
  refine Confined.bind combined fun result => ?_
  exact Confined.bind (confined_free (by simp +contextual)) fun _ =>
    Confined.bind (confined_free (by simp +contextual)) fun _ =>
      Confined.pure (by simp +contextual [List.subset_def])

theorem confined_finishBinary (op : Operator) {left right : Option ResultRef}
    (own : ∀ r ∈ left, r ∈ held) (own' : ∀ r ∈ right, r ∈ held) :
    Confined held (finishBinary op left right) Option.toList := by
  have both : Confined held (castBoth op.intype left right) fun value =>
      value.2.1.toList ++ value.2.2.toList :=
    Confined.bind (confined_operandCast own) fun value =>
      confined_castRight (by simp +contextual) fun r member => List.mem_append_left _ (own' r member)
  exact Confined.bind both fun value =>
    (confined_combineFree op).weaken (List.subset_append_right _ _) fun _ => List.Subset.refl _

theorem operates_eval (enode : Enode) : Operates (expressionEval enode) := by
  have input {expected : InputType} {operator : ResultRef → Action (Option ResultRef)}
      (operates : Operates operator) : Operates (applyInput expected operator) :=
    fun _ => Confined.bind (confined_dup (by simp)) fun _ =>
      confined_applyOperator operates (by simp)
  have operand {expected : InputType} {operator : ResultRef → Action (Option ResultRef)}
      {left : Enode} (operates : Operates operator) (ih : Operates (expressionEval left)) :
      Operates fun input => applyLeft expected operator (expressionEval left input) := by
    intro input
    refine Confined.bind (ih input) fun left => ?_
    cases left with
    | none => exact Confined.pure (List.nil_subset _)
    | some left => exact confined_applyOperator operates (by simp)
  induction enode with
  | node => exact input operates_node
  | stringconst identifier => exact input (operates_const _)
  | intconst integer => exact input (operates_const _)
  | noOperator => exact fun _ _ _ _ ran => nomatch ran
  | call func => exact input (operates_func func)
  | callOn func left ih => exact operand (operates_func func) ih
  | step axis identifier left ih => exact operand (operates_axis axis identifier) ih
  | predicate left right ih ih' => exact operand (operates_predicate ih' _) ih
  | binary op left right ih ih' =>
    intro input
    refine Confined.bind (ih input) fun left => ?_
    refine Confined.bind ((ih' input).weaken (by simp) fun _ => List.Subset.refl _) fun right => ?_
    exact confined_finishBinary op (by simp +contextual) (by simp +contextual)

end Frame

end Testbus.Xpath
