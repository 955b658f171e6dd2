import Testbus.Xpath.Eval

namespace Testbus.Xpath

open Lib

/-- The parser rejects a text, crashes on an operator that is `NULL`, or was given too few rounds. -/
inductive ParseStop
  | rejected
  | crash
  | outOfRounds
  deriving DecidableEq

/-- The `XPATH_INFIXPRIO` of an operator. -/
def Operator.priority : Operator → Nat
  | or => 1
  | and => 2
  | compare _ => 3
  | arith .add => 4
  | arith .subtract => 4
  | arith _ => 5

def getAxisOps (name : CString) : Option Axis :=
  if name = ascii "child".toList then some .child
  else if name = ascii "descendant".toList then some .descendant
  else if name = ascii "attribute".toList then some .attribute
  else if name = ascii "self".toList then some .self
  else none

def getInfixOps (name : CString) : Option Operator :=
  if name = ascii "and".toList then some .and
  else if name = ascii "or".toList then some .or
  else if name = ascii ['+'] then some (.arith .add)
  else if name = ascii ['-'] then some (.arith .subtract)
  else if name = ascii ['*'] then some (.arith .multiply)
  else if name = ascii "div".toList then some (.arith .divide)
  else if name = ascii "mod".toList then some (.arith .modulo)
  else none

def getFunction (name : CString) : Option Func :=
  if name = ascii "true".toList then some .true_
  else if name = ascii "false".toList then some .false_
  else if name = ascii "last".toList then some .last
  else if name = ascii "not".toList then some .not_
  else none

/-- `xpath_get_comparison_ops`, which takes `<` and `>` before it looks for `<=` and `>=`. -/
def getComparisonOps : CString → Option (Comparison × CString)
  | 61 :: rest => some (.eq, rest)
  | 60 :: rest => some (.lt, rest)
  | 62 :: rest => some (.gt, rest)
  | 33 :: 61 :: rest => some (.ne, rest)
  | _ => none

def nextIdentifier (pos : CString) : Option (CString × CString) :=
  if isalpha (pos.headD 0) then
    let part (c : UInt8) : Bool := isalnum c || c = 45 || c = 58
    let ident := pos.takeWhile part
    if 1025 ≤ ident.length then none
    else some (ident, (pos.dropWhile part).dropWhile isspace)
  else none

/-- `strstr (ident, "::")`, with what is before and behind it. -/
def colons : CString → Option (CString × CString)
  | 58 :: 58 :: rest => some ([], rest)
  | c :: rest => (colons rest).map fun (before, behind) => (c :: before, behind)
  | [] => none

def assertElement : Option Enode → Except ParseStop Enode
  | none => .ok .node
  | some enode =>
    match enode.outtype with
    | none => .error .crash
    | some type => if type = .element then .ok enode else .error .rejected

/-- What the parser has read: an expression to go on with, or the beginning of something that has
an expression in it. -/
inductive Piece
  | expression (current : Enode) (pos : CString)
  | subscript (left : Enode) (pos : CString)
  | parenthesis (pos : CString)
  | function (func : Func) (left : Option Enode) (pos : CString)
  | operator (op : Operator) (left : Enode) (pos : CString)

def handleFunction (ident : CString) (current : Option Enode) (pos : CString) : Except ParseStop Piece :=
  match getFunction ident with
  | none => .error .rejected
  | some func => .ok (.function func current pos)

def handleNameOrAxis (ops : Option Axis) (ident : CString) (current : Option Enode)
    (pos : CString) : Except ParseStop Piece := do
  let left ← assertElement current
  match ops, colons ident, pos with
  | some axis, _, pos => .ok (.expression (.step axis (some ident) left) pos)
  | none, some (name, behind), pos =>
    match getAxisOps name, behind, pos with
    | none, _, _ => .error .rejected
    | some axis, _ :: _, pos => .ok (.expression (.step axis (some behind) left) pos)
    | some axis, [], 42 :: pos => .ok (.expression (.step axis none left) pos)
    | some _, [], _ => .error .rejected
  | none, none, 40 :: pos => handleFunction ident (some left) pos
  | none, none, pos => .ok (.expression (.step .child (some ident) left) pos)

/-- The identifier after a slash or an at-sign. -/
def handlePath (ops : Option Axis) (current : Option Enode) (pos : CString) : Except ParseStop Piece :=
  match nextIdentifier pos with
  | none => .error .rejected
  | some (ident, pos) => handleNameOrAxis ops ident current pos

def handleInfixOperator (op : Operator) (current : Option Enode) (pos : CString) : Except ParseStop Piece :=
  match current with
  | none => .error .rejected
  | some left => .ok (.operator op left pos)

/-- What begins with a letter. -/
def handleWord (current : Option Enode) (pos : CString) : Except ParseStop Piece :=
  match nextIdentifier pos with
  | none => .error .rejected
  | some (ident, pos) =>
    if (colons ident).isSome then handleNameOrAxis none ident current pos
    else if ["and", "or", "div", "mod"].any fun name => strcaseeq ident (ascii name.toList) then
      match getInfixOps ident with
      | none => .error .rejected
      | some op => handleInfixOperator op current pos
    else match pos with
      | 40 :: pos => handleFunction ident current pos
      | pos =>
        if ["true", "false"].any fun name => strcaseeq ident (ascii name.toList) then
          if current.isSome then .error .rejected
          else match getFunction ident with
            | some func => .ok (.expression (.call func) pos)
            | none => .ok (.expression .noOperator pos)
        else handleNameOrAxis none ident current pos

/-- A constant stands where there is no expression yet. -/
def handleConstant (constant : Enode) (current : Option Enode) (pos : CString) : Except ParseStop Piece :=
  if current.isSome then .error .rejected else .ok (.expression constant pos)

/-- The cases of `__xpath_build_expr`, at what is no white space. -/
def nextPiece (current : Option Enode) : CString → Except ParseStop Piece
  | [] => .error .rejected
  | 47 :: 47 :: pos => handlePath (some .descendant) current pos
  | 47 :: 64 :: pos => handlePath (some .attribute) current pos
  | 47 :: pos => handlePath none current pos
  | 64 :: pos => handlePath (some .attribute) current pos
  | 91 :: pos => do
    let left ← assertElement current
    .ok (.subscript left pos)
  | 40 :: pos => if current.isSome then .error .rejected else .ok (.parenthesis pos)
  | c :: rest =>
    match getComparisonOps (c :: rest) with
    | some (xop, pos) => handleInfixOperator (.compare xop) current pos
    | none =>
      if current.isSome && [43, 45, 42].contains c then
        match getInfixOps [c] with
        | none => .error .rejected
        | some op => handleInfixOperator op current rest
      else if isalpha c then handleWord current (c :: rest)
      else if c = 39 then
        match rest.dropWhile (· ≠ 39) with
        | [] => .error .rejected
        | _ :: pos => handleConstant (.stringconst (rest.takeWhile (· ≠ 39))) current pos
      else if isdigit c then
        let (integer, pos) := strtol 0 (c :: rest)
        handleConstant (.intconst (Int64.ofInt integer)) current pos
      else .error .rejected

/-- An expression in brackets, with what is behind the bracket. -/
def closing (terminator : UInt8) (built : Option Enode × CString) : Except ParseStop (Enode × CString) :=
  match built with
  | (some enode, c :: pos) => if c = terminator then .ok (enode, pos) else .error .rejected
  | _ => .error .rejected

/-- The loop of `__xpath_build_expr`, which gives what it has built and where it stopped. -/
def buildExpr : Nat → UInt8 → Nat → Option Enode → CString →
    Except ParseStop (Option Enode × CString)
  | 0, _, _, _, _ => .error .outOfRounds
  | rounds + 1, terminator, infixprio, current, pos =>
    if pos.headD 0 = terminator then .ok (current, pos)
    else do
      let tokenBegin := pos.dropWhile isspace
      match ← nextPiece current tokenBegin with
      | .expression current pos => buildExpr rounds terminator infixprio (some current) pos
      | .subscript left pos => do
        let (right, pos) ← closing 93 (← buildExpr rounds 93 0 none pos)
        buildExpr rounds terminator infixprio (some (.predicate left right)) pos
      | .parenthesis pos => do
        let (inner, pos) ← closing 41 (← buildExpr rounds 41 0 none pos)
        buildExpr rounds terminator infixprio (some inner) pos
      | .function func left pos =>
        match left, pos.dropWhile isspace with
        | none, 41 :: pos => buildExpr rounds terminator infixprio (some (.call func)) pos
        | some left, 41 :: pos =>
          buildExpr rounds terminator infixprio (some (.callOn func left)) pos
        | some _, _ => .error .rejected
        | none, pos => do
          let (operand, pos) ← closing 41 (← buildExpr rounds 41 0 none pos)
          buildExpr rounds terminator infixprio (some (.callOn func operand)) pos
      | .operator op left pos =>
        if op.priority ≤ infixprio then .ok (some left, tokenBegin)
        else do
          match ← buildExpr rounds terminator op.priority none pos with
          | (none, _) => .error .rejected
          | (some right, pos) =>
            buildExpr rounds terminator infixprio (some (.binary op left right)) pos

def xpathExpressionParse (expr : CString) : Except ParseStop Enode :=
  if expr = ascii ['/'] ∨ expr = ascii "//".toList then .ok .node
  else do
    match ← buildExpr (expr.length + 1) 0 0 none expr with
    | (some tree, []) => .ok tree
    | _ => .error .rejected

example : xpathExpressionParse (ascii "//a[@n < last() - 1]".toList) = .ok
    (.predicate (.step .descendant (some (ascii ['a'])) .node)
      (.binary (.compare .lt) (.step .attribute (some (ascii ['n'])) .node)
        (.binary (.arith .subtract) (.call .last) (.intconst 1)))) := by decide +kernel

section Digits

variable {base d : Nat} {rest : CString}

theorem digits_shorter (value : Nat) (rest : CString) (digit : digitValue c = some d) (lt : d < base) :
    (digits base value (c :: rest)).2.length < (c :: rest).length := by
  rw [digits, digit]
  simp only [lt, if_true, List.length_cons]
  exact Nat.lt_succ_of_le (digits_suffix ..).length_le

/-- What follows the prefix of a number begins with a digit of its base. -/
theorem numberBase_digit (rest : CString) (digit : isdigit c = true) :
    ∃ c' rest' d, (numberBase (c :: rest)).2 = c' :: rest' ∧ digitValue c' = some d ∧
      d < (numberBase (c :: rest)).1 ∧ (c' :: rest').length ≤ (c :: rest).length := by
  have range : 48 ≤ c.toNat ∧ c.toNat ≤ 57 := by
    simpa [isdigit, UInt8.le_iff_toNat_le] using digit
  have own : digitValue c = some (c.toNat - 48) := by rw [digitValue, if_pos digit]
  have zero : digitValue 48 = some 0 := by decide
  unfold numberBase
  split
  · next x c' rest' same =>
    obtain ⟨rfl, rfl⟩ := List.cons.inj same
    split_ifs with hex
    · obtain ⟨d, digit'⟩ := Option.isSome_iff_exists.mp ((Bool.and_eq_true _ _).mp hex).2
      refine ⟨c', rest', d, rfl, digit', digitValue_lt digit', ?_⟩
      simp only [List.length_cons]
      omega
    · exact ⟨_, _, 0, rfl, zero, Nat.zero_lt_succ _, le_rfl⟩
  · next same =>
    obtain ⟨rfl, rfl⟩ := List.cons.inj same
    exact ⟨_, _, 0, rfl, zero, Nat.zero_lt_succ _, le_rfl⟩
  · exact ⟨_, _, _, rfl, own, by dsimp only; omega, le_rfl⟩

theorem strtol_shorter (digit : isdigit c = true) : (strtol 0 (c :: rest)).2.length < (c :: rest).length := by
  obtain ⟨space, plus, minus⟩ := isdigit_plain digit
  have unspaced : ¬ isspace c = true := by simp [space]
  obtain ⟨c', rest', d, number, digit', lt, le⟩ := numberBase_digit rest digit
  have shorter := digits_shorter 0 rest' digit' lt
  simp only [strtol, List.dropWhile_cons_of_neg unspaced, takeSign_plain plus minus, if_true, number]
  rw [if_neg (Nat.ne_of_lt shorter)]
  simp only [Bool.false_eq_true, if_false]
  omega

end Digits

section Rounds

def Piece.pos : Piece → CString
  | .expression _ pos => pos
  | .subscript _ pos => pos
  | .parenthesis pos => pos
  | .function _ _ pos => pos
  | .operator _ _ pos => pos

/-- What is read leaves less than `length` of the text, unless it is rejected. -/
def Leaves {α : Type} (behind : α → CString) (length : Nat) : Except ParseStop α → Prop
  | .ok value => (behind value).length < length
  | .error stop => stop ≠ .outOfRounds

variable {behind : α → CString} {current : Option Enode} {pos : CString}

theorem leaves_bind (first : Leaves behind length result)
    (later : ∀ value, (behind value).length < length → Leaves behind' more (rest value)) :
    Leaves behind' more (result >>= rest) := by
  cases result with
  | error stop => exact first
  | ok value => exact later value first

theorem leaves_rejected : Leaves behind length (.error .rejected) := nofun

theorem Leaves.weaken (leaves : Leaves behind length result) (le : length ≤ more) : Leaves behind more result := by
  cases result with
  | error stop => exact leaves
  | ok value => exact Nat.lt_of_lt_of_le leaves le

theorem nextIdentifier_shorter (found : nextIdentifier pos = some (ident, rest)) : rest.length < pos.length := by
  unfold nextIdentifier at found
  cases pos with
  | nil => simp [isalpha] at found
  | cons c pos =>
    split_ifs at found with letter
    dsimp only at found
    split_ifs at found
    cases found
    rw [List.headD_cons] at letter
    rw [List.dropWhile_cons_of_pos (by simp [isalnum, letter])]
    have := dropWhile_le isspace (pos.dropWhile fun c => isalnum c || c = 45 || c = 58)
    have := dropWhile_le (fun c => isalnum c || c = 45 || c = 58) pos
    rw [List.length_cons]
    omega

theorem leaves_element (current : Option Enode) : Leaves (fun _ => []) 1 (assertElement current) := by
  cases current with
  | none => exact Nat.one_pos
  | some enode =>
    unfold assertElement
    dsimp only
    cases enode.outtype with
    | none => nofun
    | some type =>
      dsimp only
      split_ifs
      · exact Nat.one_pos
      · exact leaves_rejected

theorem leaves_function (ident : CString) (left : pos.length < length) :
    Leaves Piece.pos length (handleFunction ident current pos) := by
  unfold handleFunction
  cases getFunction ident with
  | none => exact leaves_rejected
  | some func => exact left

theorem leaves_operator (op : Operator) (left : pos.length < length) :
    Leaves Piece.pos length (handleInfixOperator op current pos) := by
  cases current with
  | none => exact leaves_rejected
  | some _ => exact left

theorem leaves_constant (constant : Enode) (left : pos.length < length) :
    Leaves Piece.pos length (handleConstant constant current pos) := by
  unfold handleConstant
  split_ifs
  · exact leaves_rejected
  · exact left

theorem leaves_nameOrAxis (ops : Option Axis) (ident : CString) (left : pos.length < length) :
    Leaves Piece.pos length (handleNameOrAxis ops ident current pos) := by
  refine leaves_bind (leaves_element current) fun enode _ => ?_
  split
  · exact left
  · split
    · exact leaves_rejected
    · exact left
    · exact Nat.lt_of_succ_lt left
    · exact leaves_rejected
  · exact leaves_function ident (Nat.lt_of_succ_lt left)
  · exact left

theorem leaves_path (ops : Option Axis) (le : pos.length ≤ length) :
    Leaves Piece.pos length (handlePath ops current pos) := by
  unfold handlePath
  cases found : nextIdentifier pos with
  | none => exact leaves_rejected
  | some result =>
    exact leaves_nameOrAxis ops _ (Nat.lt_of_lt_of_le (nextIdentifier_shorter found) le)

theorem leaves_word (le : pos.length ≤ length) : Leaves Piece.pos length (handleWord current pos) := by
  unfold handleWord
  cases found : nextIdentifier pos with
  | none => exact leaves_rejected
  | some result =>
    obtain ⟨ident, rest⟩ := result
    have left : rest.length < length := Nat.lt_of_lt_of_le (nextIdentifier_shorter found) le
    dsimp only
    split_ifs
    · exact leaves_nameOrAxis none ident left
    · cases getInfixOps ident with
      | none => exact leaves_rejected
      | some op => exact leaves_operator op left
    · split
      · exact leaves_function ident (Nat.lt_of_succ_lt left)
      · exact leaves_rejected
    · split
      · exact leaves_function ident (Nat.lt_of_succ_lt left)
      · split <;> exact left
    · split
      · exact leaves_function ident (Nat.lt_of_succ_lt left)
      · exact leaves_nameOrAxis none ident left

theorem comparison_shorter (found : getComparisonOps pos = some (xop, rest)) : rest.length < pos.length := by
  unfold getComparisonOps at found
  split at found <;> cases found
  · exact Nat.lt_succ_self _
  · exact Nat.lt_succ_self _
  · exact Nat.lt_succ_self _
  · exact Nat.lt_succ_of_lt (Nat.lt_succ_self _)

theorem leaves_piece (current : Option Enode) (pos : CString) : Leaves Piece.pos pos.length (nextPiece current pos) := by
  unfold nextPiece
  split
  · exact leaves_rejected
  · exact leaves_path _ (by simp only [List.length_cons]; omega)
  · exact leaves_path _ (by simp only [List.length_cons]; omega)
  · exact leaves_path _ (Nat.le_succ _)
  · exact leaves_path _ (Nat.le_succ _)
  · exact leaves_bind (leaves_element current) fun _ _ => Nat.lt_succ_self _
  · split_ifs
    · exact leaves_rejected
    · exact Nat.lt_succ_self _
  · next c rest _ _ _ _ _ _ =>
    cases compared : getComparisonOps (c :: rest) with
    | some result => exact leaves_operator _ (comparison_shorter compared)
    | none =>
      dsimp only
      split_ifs with operator letter quote digit
      · cases getInfixOps [c] with
        | none => exact leaves_rejected
        | some op => exact leaves_operator op (Nat.lt_succ_self _)
      · exact leaves_word le_rfl
      · cases closed : rest.dropWhile (· ≠ 39) with
        | nil => exact leaves_rejected
        | cons _ pos =>
          have le := dropWhile_le (· ≠ 39) rest
          rw [closed, List.length_cons] at le
          refine leaves_constant _ ?_
          rw [List.length_cons]
          omega
      · exact leaves_constant _ (strtol_shorter digit)
      · exact leaves_rejected

theorem leaves_closing (terminator : UInt8) (le : built.2.length ≤ length) : Leaves Prod.snd length (closing terminator built) := by
  unfold closing
  split
  · split_ifs
    · exact le
    · exact leaves_rejected
  · exact leaves_rejected

/-- A round for every character of the text is enough. -/
theorem leaves_build (terminator : UInt8) (infixprio : Nat) (current : Option Enode) (enough : pos.length < rounds) :
    Leaves Prod.snd (pos.length + 1) (buildExpr rounds terminator infixprio current pos) := by
  induction rounds generalizing terminator infixprio current pos with
  | zero => omega
  | succ rounds ih =>
    have again {terminator : UInt8} {infixprio : Nat} {current : Option Enode} {rest : CString}
        (shorter : rest.length < pos.length) :
        Leaves Prod.snd pos.length (buildExpr rounds terminator infixprio current rest) :=
      (ih terminator infixprio current (by omega)).weaken shorter
    have further {terminator : UInt8} {infixprio : Nat} {current : Option Enode} {rest : CString}
        (shorter : rest.length < pos.length) :
        Leaves Prod.snd (pos.length + 1) (buildExpr rounds terminator infixprio current rest) :=
      (again shorter).weaken (Nat.le_succ _)
    have inner {bracket : UInt8} {rest : CString} (next : Enode → Enode) (shorter : rest.length < pos.length) :
        Leaves Prod.snd (pos.length + 1) (do
          let (enode, pos) ← closing bracket (← buildExpr rounds bracket 0 none rest)
          buildExpr rounds terminator infixprio (some (next enode)) pos) := by
      refine leaves_bind (again shorter) fun built left => ?_
      refine leaves_bind (leaves_closing bracket (Nat.le_of_lt left)) fun closed left => ?_
      exact further left
    unfold buildExpr
    split_ifs
    · exact Nat.lt_succ_self _
    have blank := dropWhile_le isspace pos
    refine leaves_bind (leaves_piece current _) fun piece left => ?_
    cases piece with
    | expression current rest => exact further (Nat.lt_of_lt_of_le left blank)
    | subscript left' rest =>
      exact inner (.predicate left') (Nat.lt_of_lt_of_le left blank)
    | parenthesis rest => exact inner id (Nat.lt_of_lt_of_le left blank)
    | function func left' rest =>
      have shorter : (rest.dropWhile isspace).length < pos.length :=
        Nat.lt_of_le_of_lt (dropWhile_le isspace rest) (Nat.lt_of_lt_of_le left blank)
      dsimp only
      split
      · next closed =>
        rw [closed, List.length_cons] at shorter
        exact further (Nat.lt_of_succ_lt shorter)
      · next closed =>
        rw [closed, List.length_cons] at shorter
        exact further (Nat.lt_of_succ_lt shorter)
      · exact leaves_rejected
      · exact inner (.callOn func) shorter
    | operator op left' rest =>
      dsimp only
      split_ifs
      · exact Nat.lt_succ_of_le blank
      · refine leaves_bind (again (Nat.lt_of_lt_of_le left blank)) fun built left => ?_
        split
        · exact leaves_rejected
        · exact further left

/-- The parser accepts a text, rejects it or crashes; it does not go on forever. -/
theorem xpathExpressionParse_ends (expr : CString) : xpathExpressionParse expr ≠ .error .outOfRounds := by
  have ends : Leaves (fun _ => []) 1 (xpathExpressionParse expr) := by
    unfold xpathExpressionParse
    split_ifs
    · exact Nat.one_pos
    refine leaves_bind (leaves_build 0 0 none (Nat.lt_succ_self _)) fun built _ => ?_
    split
    · exact Nat.one_pos
    · exact leaves_rejected
  intro stopped
  rw [stopped] at ends
  exact ends rfl

end Rounds

end Testbus.Xpath
