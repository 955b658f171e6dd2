import Testbus.Xpath.Memory

namespace Testbus.Xpath

open Lib Blocks

/-- The names that an axis compares are there. -/
def Axis.Named (axis : Axis) (identifier : Option CString) (input : List Element) : Prop :=
  if axis = .attribute then identifier = none → ∀ element ∈ input, element.node.attrs = []
  else identifier = none ∨ ∀ element ∈ axis.reach input, element.node.name ≠ none

/-- A value is cast to integers without a text that is missing, and is not true. -/
def Contents.Numeric : Contents → Prop
  | .elements values => ∀ element ∈ values, element.node.cdata ≠ none
  | .boolean truth => truth = false
  | _ => True

/-- The smallest number is not divided by -1. -/
def Arith.Untrapped (oper : Arith) (left right : List Int64) : Prop :=
  (oper = .divide ∨ oper = .modulo) → ¬ (Int64.minValue ∈ left ∧ -1 ∈ right)

/-- The operands can be cast, and the division does not trap. -/
def Operator.Fits (op : Operator) (left : Contents) (right : Option Contents) : Prop :=
  ∀ oper, op = .arith oper → left.Numeric ∧ ∀ value, right = some value → value.Numeric ∧
    ∀ lefts rights, cast (.of .integer) left = .ok (some (.integers lefts)) →
      cast (.of .integer) value = .ok (some (.integers rights)) → oper.Untrapped lefts rights

/-- Every operator in the evaluation is one, and has operands that fit. A constant subscript of a
set that is not empty is not true. -/
def Sound : Enode → List Element → Prop
  | .node, _ => True
  | .stringconst _, _ => True
  | .intconst _, _ => True
  | .noOperator, _ => False
  | .call _, _ => True
  | .callOn _ left, input => Sound left input
  | .step axis identifier left, input => Sound left input ∧
      ∀ elements, eval left input = .ok (some (.elements elements)) → axis.Named identifier elements
  | .predicate left right, input => Sound left input ∧
      ∀ elements, eval left input = .ok (some (.elements elements)) → elements ≠ [] →
        (right.constant = .ok true ∧ Sound right elements ∧
          eval right elements ≠ .ok (some (.boolean true))) ∨
        (right.constant = .ok false ∧ ∀ xn ∈ elements, Sound right [xn])
  | .binary op left right, input => Sound left input ∧ Sound right input ∧
      ∀ first second, eval left input = .ok (some first) → eval right input = .ok second →
        op.Fits first second

section Runs

variable {h : Memory} {contents : Contents}

theorem read_run (live : 0 < h.users na) : resultRead na h = .ok (h.contents na, h) := if_pos live

theorem write_run (live : 0 < h.users na) : resultWrite na contents h = .ok ((), h.put na contents) := if_pos live

theorem dup_run (live : 0 < h.users na) : resultDup na h = .ok ((), h.setUsers na (h.users na + 1) live) := dif_pos live

theorem free_run (live : 0 < h.users na) :
    resultFree (some na) h = .ok ((), h.setUsers na (h.users na - 1) live) := dif_pos live

theorem lift_run {β : Type} {value : Except Fault β} {result : β} (given : value = .ok result) :
    (lift value : Action β) h = .ok (result, h) := by
  rw [given]
  rfl

theorem lift_stops {β : Type} {value : Except Fault β}
    (given : value = .error fault) : (lift value : Action β) h = .error fault := by
  rw [given]
  rfl

theorem alloc_contents (live : 0 < h.users na) (value : Contents) :
    (h.alloc value).contents na = h.contents na := if_neg (h.lt_next live).ne

theorem alloc_self (value : Contents) : (h.alloc value).contents h.next = value := if_pos rfl

theorem alloc_live (live : 0 < h.users na) (value : Contents) : 0 < (h.alloc value).users na := by
  rwa [show (h.alloc value).users na = h.users na from if_neg (h.lt_next live).ne]

theorem alloc_self_live (value : Contents) : 0 < (h.alloc value).users h.next := by
  rw [show (h.alloc value).users h.next = 1 from if_pos rfl]
  exact Nat.one_pos

end Runs

section Gives

/-- From references that went, an action has made a result of its own with the value, or none. -/
def Gives (base : Nat) (h : Memory) (went : Multiset ResultRef) (result : Option ResultRef)
    (value : Option Contents) (h' : Memory) : Prop :=
  match result, value with
  | none, none => Moves base h went 0 h'
  | some r, some contents => Moves base h went {r} h' ∧ h'.contents r = contents
  | _, _ => False

/-- An operator makes of an operand what it should. -/
def Makes (operator : ResultRef → Action (Option ResultRef)) (contents : Contents)
    (made : Except Fault (Option Contents)) : Prop :=
  ∀ (h : Memory) left, 0 < h.users left → h.contents left = contents →
    ∃ result h' value, operator left h = .ok (result, h') ∧ made = .ok value ∧
      Gives h.next h 0 result value h'

variable {na left right : ResultRef} {contents : Contents} {base : Nat}

theorem gives_new (contents : Contents) : Gives h.next h 0 (some h.next) (some contents) (h.alloc contents) :=
  ⟨Moves.alloc _ _ _ le_rfl, alloc_self _⟩

theorem parse_texts (present : none ∉ texts) : ∃ values, parseIntegers texts = .ok values := by
  induction texts with
  | nil => exact ⟨[], rfl⟩
  | cons text rest ih =>
    cases text with
    | none => exact absurd List.mem_cons_self present
    | some strval =>
      obtain ⟨values, later⟩ := ih fun member => present (List.mem_cons_of_mem _ member)
      simp [parseIntegers, later, bind, Except.bind]

theorem parse_missing (missing : none ∈ texts) : ∃ fault, parseIntegers texts = .error fault := by
  induction texts with
  | nil => cases missing
  | cons text rest ih =>
    cases text with
    | none => exact ⟨_, rfl⟩
    | some strval =>
      obtain ⟨fault, later⟩ := ih (by simpa using missing)
      exact ⟨fault, by simp [parseIntegers, later, bind, Except.bind]⟩

theorem numeric_parse (numeric : contents.Numeric) (other : contents.type ≠ .integer) :
    ∃ texts values, contents.integerTexts = some texts ∧ parseIntegers texts = .ok values := by
  have parsed {texts : List (Option CString)} (found : contents.integerTexts = some texts) (present : none ∉ texts) :
      ∃ texts values, contents.integerTexts = some texts ∧ parseIntegers texts = .ok values := by
    obtain ⟨values, parsed⟩ := parse_texts present
    exact ⟨texts, values, found, parsed⟩
  cases contents with
  | integers _ => exact absurd rfl other
  | elements values =>
    refine parsed rfl fun missing => ?_
    obtain ⟨element, member, none_⟩ := List.mem_map.mp missing
    exact numeric element member none_
  | strings values => exact parsed rfl (by simp)
  | boolean truth =>
    obtain rfl : truth = false := numeric
    exact parsed rfl (by simp)

/-- A cast that leaves nothing behind takes its operand and gives the value that the cast has. -/
theorem cast_gives (live : 0 < h.users na) (numeric : expected = .of .integer → (h.contents na).Numeric) :
    ∃ fine na' h' value, expressionCast expected na h = .ok ((fine, na'), h') ∧
      cast expected (h.contents na) = .ok value ∧ Moves h.next h {na} {na'} h' ∧
      fine = value.isSome ∧ ∀ contents, value = some contents → h'.contents na' = contents := by
  have same : Moves h.next h {na} {na} h := (Moves.refl _ h).recount fun _ => by simp
  cases expected with
  | void => exact ⟨true, na, h, some (h.contents na), rfl, rfl, same, rfl, fun _ => Option.some.inj⟩
  | any => exact ⟨true, na, h, some (h.contents na), rfl, rfl, same, rfl, fun _ => Option.some.inj⟩
  | of type =>
    simp only [expressionCast, bind_run (read_run live), cast]
    by_cases type_ : type = (h.contents na).type
    · rw [if_pos type_, if_pos type_]
      exact ⟨true, na, h, some (h.contents na), rfl, rfl, same, rfl, fun _ => Option.some.inj⟩
    rw [if_neg type_, if_neg type_]
    cases type with
    | element => exact ⟨false, na, h, none, rfl, rfl, same, rfl, by simp⟩
    | string => exact ⟨false, na, h, none, rfl, rfl, same, rfl, by simp⟩
    | boolean =>
      dsimp only
      rw [bind_run (free_run live), bind_run (show resultNew _ _ = _ from rfl)]
      refine ⟨true, _, _, some _, rfl, rfl, ?_, rfl, fun _ given => ?_⟩
      · exact ((Moves.release _ live).trans (Moves.alloc _ _ _ le_rfl)).recount fun _ => by simp
      · cases given
        exact alloc_self _
    | integer =>
      obtain ⟨texts, values, found, parsed⟩ := numeric_parse (numeric rfl) (Ne.symm type_)
      dsimp only
      rw [bind_run (show resultNew _ _ = _ from rfl), found]
      dsimp only
      rw [bind_run (lift_run parsed), bind_run (write_run (alloc_self_live _)), parsed]
      have there : 0 < ((h.alloc (.integers [])).put h.next (.integers values)).users na := alloc_live live (.integers [])
      rw [bind_run (free_run there)]
      refine ⟨true, _, _, some _, rfl, rfl, ?_, rfl, fun _ given => ?_⟩
      · refine (((Moves.alloc h.next h (.integers []) le_rfl).trans
          (Moves.put _ (.integers values) (le_refl h.next))).trans
          (Moves.release _ there)).recount fun _ => by simp
      · cases given
        exact if_pos rfl

theorem makes_const (made contents : Contents) : Makes (fun _ => constEvaluate made) contents (.ok (some made)) :=
  fun h _ _ _ => ⟨_, _, _, rfl, rfl, gives_new (h := h) made⟩

theorem makes_node : Makes nodeEvaluate contents (.ok (some contents)) := by
  intro h left live at_
  refine ⟨some left, _, some contents, ?_, rfl, Moves.dup _ live, at_⟩
  rw [nodeEvaluate, bind_run (dup_run live)]
  rfl

theorem makes_func (func : Func) :
    Makes (funcEvaluate func) contents (.ok (some (func.evaluate List.length contents))) := by
  intro h left live at_
  refine ⟨_, _, _, ?_, rfl, gives_new (h := h) _⟩
  rw [funcEvaluate, bind_run (read_run live), at_]
  rfl

theorem matching_ok :
    (∃ found, matching identifier elements = .ok found) ↔
      identifier = none ∨ ∀ element ∈ elements, element.node.name ≠ none := by
  cases identifier with
  | none =>
    refine iff_of_true ?_ (.inl rfl)
    induction elements with
    | nil => exact ⟨[], rfl⟩
    | cons element rest ih =>
      obtain ⟨found, later⟩ := ih
      simp [matching, matchName, later, bind, Except.bind]
  | some name =>
    induction elements with
    | nil => simp [matching]
    | cons element rest ih =>
      rw [List.forall_mem_cons]
      cases own : element.node.name with
      | none => simp [matching, matchName, own, bind, Except.bind]
      | some other =>
        have step : (∃ found, matching (some name) (element :: rest) = .ok found) ↔
            ∃ found, matching (some name) rest = .ok found := by
          simp only [matching, matchName, own, bind, Except.bind]
          cases matching (some name) rest <;> simp
        simp [step, ih]

theorem getattrs_ok :
    (∃ values, getattrs identifier elements = .ok values) ↔
      (identifier = none → ∀ element ∈ elements, element.node.attrs = []) := by
  induction elements with
  | nil => simp [getattrs]
  | cons element rest ih =>
    cases identifier with
    | some name =>
      have step : ∃ values, getattrs (some name) rest = .ok values := ih.mpr nofun
      obtain ⟨values, later⟩ := step
      simp [getattrs, getAttr, later, bind, Except.bind]
    | none =>
      simp only [true_implies, List.forall_mem_cons] at ih ⊢
      by_cases empty : element.node.attrs = []
      · have step : (∃ values, getattrs none (element :: rest) = .ok values) ↔
            ∃ values, getattrs none rest = .ok values := by
          simp only [getattrs, getAttr, empty, if_true, bind, Except.bind]
          cases getattrs none rest <;> simp
        rw [step, ih]
        simp [empty]
      · simp [getattrs, getAttr, empty, bind, Except.bind]

theorem named_iff {axis : Axis} :
    (∃ reached, axis.evaluate identifier elements = .ok reached) ↔ axis.Named identifier elements := by
  unfold Axis.evaluate Axis.Named
  split_ifs
  · rw [← getattrs_ok]
    cases getattrs identifier elements <;> simp [Except.map]
  · rw [← matching_ok]
    cases matching identifier (axis.reach elements) <;> simp [Except.map]

theorem makes_axis (named : axis.Named identifier elements) :
    Makes (axisEvaluate axis identifier) (.elements elements) ((axis.evaluate identifier elements).map some) := by
  intro h left live at_
  obtain ⟨reached, found⟩ := named_iff.mpr named
  let first : Contents := if axis = .attribute then .strings [] else .elements []
  refine ⟨some h.next, (h.alloc first).put h.next reached, some reached, ?_, by rw [found]; rfl, ?_, if_pos rfl⟩
  · rw [axisEvaluate, bind_run (show resultNew first h = .ok (h.next, h.alloc first) from rfl),
      bind_run (read_run (alloc_live live first)), alloc_contents live, at_]
    have filled : axisLoop axis identifier h.next (.elements elements) (h.alloc first) =
        .ok ((), (h.alloc first).put h.next reached) := by
      rw [axisLoop, bind_run (lift_run found), write_run (alloc_self_live _)]
    rw [bind_run filled]
    rfl
  · exact ((Moves.alloc h.next h first le_rfl).trans (Moves.put _ reached (le_refl h.next))).recount fun _ => by simp

/-- What comes of an operand that is cast and then given to an operator. -/
def castThen (expected : InputType) (operate : Contents → Except Fault (Option Contents))
    (contents : Contents) : Except Fault (Option Contents) := do
  match ← cast expected contents with
  | some contents => operate contents
  | none => .ok none

/-- The same, after the operand was evaluated. -/
def operandThen (expected : InputType) (operate : Contents → Except Fault (Option Contents))
    (evaluated : Except Fault (Option Contents)) : Except Fault (Option Contents) := do
  match ← evaluated with
  | none => .ok none
  | some operand => castThen expected operate operand

variable {result : Option ResultRef} {value : Option Contents}

theorem gives_free (gives : Gives base h went result value middle) (live : 0 < middle.users na) :
    Gives base h (na ::ₘ went) result value (middle.setUsers na (middle.users na - 1) live) := by
  have freed := Moves.release base live
  cases result with
  | none =>
    cases value with
    | some _ => exact gives.elim
    | none =>
      have moves : Moves base h went 0 middle := gives
      exact (moves.trans freed).recount fun _ => by simp [Multiset.count_cons, Multiset.count_singleton]
  | some r =>
    cases value with
    | none => exact gives.elim
    | some contents =>
      obtain ⟨moves, at_⟩ := gives
      exact ⟨(moves.trans freed).recount fun _ => by
        simp [Multiset.count_cons, Multiset.count_singleton], at_⟩

/-- What came before and what an action then gives. -/
theorem Gives.after
    (moves : Moves base h went came middle)
    (gives : Gives base' middle went' result value h') (below : base ≤ base')
    (same : ∀ r, went.count r + went'.count r = went''.count r + came.count r) : Gives base h went'' result value h' := by
  cases result with
  | none =>
    cases value with
    | some _ => exact gives.elim
    | none =>
      have later : Moves base' middle went' 0 h' := gives
      exact (moves.trans (later.lower below)).recount fun r => by
        have := same r
        simp only [Multiset.count_add, Multiset.count_zero]
        omega
  | some r =>
    cases value with
    | none => exact gives.elim
    | some contents =>
      obtain ⟨later, at_⟩ := gives
      refine ⟨(moves.trans (later.lower below)).recount fun r => ?_, at_⟩
      have := same r
      simp only [Multiset.count_add]
      omega

theorem Gives.still_live (gives : Gives base h 0 result value h') (live : 0 < h.users na) : 0 < h'.users na := by
  cases result <;> cases value <;> first | exact gives.elim | skip
  · exact Moves.still_live gives live
  · exact gives.1.still_live live

theorem Gives.grown (gives : Gives base h went result value h') : h.next ≤ h'.next := by
  cases result <;> cases value <;> first | exact gives.elim | skip
  · exact Moves.grown gives
  · exact gives.1.grown

theorem Gives.result_live (gives : Gives base h 0 result value h') (same : result = some r) : 0 < h'.users r := by
  subst same
  cases value with
  | none => exact gives.elim
  | some _ => exact gives.1.came_live (by simp)

theorem Gives.kept (gives : Gives base h went result value h') (r : ResultRef) (below : r < base) :
    h'.contents r = h.contents r := by
  cases result <;> cases value <;> first | exact gives.elim | skip
  · exact Moves.kept gives r below
  · exact gives.1.kept r below

theorem apply_gives (live : 0 < h.users na) (numeric : expected = .of .integer → (h.contents na).Numeric)
    (makes : ∀ made, cast expected (h.contents na) = .ok (some made) → Makes operator made (operate made)) :
    ∃ result h' value, applyOperator expected operator na h = .ok (result, h') ∧
      castThen expected operate (h.contents na) = .ok value ∧ Gives h.next h {na} result value h' := by
  obtain ⟨fine, na', middle, converted, ran, cast_, moves, isSome, at_⟩ := cast_gives live numeric
  have live' : 0 < middle.users na' := moves.live (by
    rw [Multiset.count_singleton, Multiset.count_singleton]
    split_ifs <;> simp_all)
  rw [applyOperator, bind_run ran]
  dsimp only
  cases converted with
  | none =>
    cases isSome
    refine ⟨none, middle.setUsers na' (middle.users na' - 1) live', none, ?_,
      by simp [castThen, cast_, bind, Except.bind], ?_⟩
    · rw [bind_run (show whenFine (none : Option Contents).isSome (operator na') middle = .ok (none, middle) from rfl),
        bind_run (free_run live')]
      rfl
    · exact (moves.trans (Moves.release h.next live')).recount fun _ => by
        simp [Multiset.count_cons, Multiset.count_singleton, Nat.add_comm]
  | some made =>
    cases isSome
    obtain ⟨result, h', value, applied, same, gives⟩ := makes made cast_ middle na' live' (at_ made rfl)
    have live'' := gives.still_live live'
    refine ⟨result, h'.setUsers na' (h'.users na' - 1) live'', value, ?_,
      by simpa [castThen, cast_, bind, Except.bind] using same, ?_⟩
    · rw [bind_run (show whenFine (some made).isSome (operator na') middle = .ok (result, h') from applied),
        bind_run (free_run live'')]
      rfl
    · exact Gives.after moves (gives_free gives live'') moves.grown fun r => by
        simp [Multiset.count_singleton]

variable {contents : Contents}

section Predicates

variable {pure_ : List Element → Except Fault (Option Contents)}

theorem eachElement_cons (here : pure_ [xn] = .ok value) (behind : eachElement pure_ (m + 1) rest = .ok later) :
    eachElement pure_ m (xn :: rest) = .ok (appended m xn value ++ later) := by
  simp [eachElement, here, behind, bind, Except.bind]

theorem each_step {xn : Element} (rest : List Element) {result : ResultRef} {found : List Element}
    (makes : Makes subscript (.elements [xn]) (pure_ [xn])) (live : 0 < h.users result)
    (at_ : h.contents result = .elements found) (above : base ≤ result) :
    ∃ h' value, pure_ [xn] = .ok value ∧ Moves base h 0 0 h' ∧
      h'.contents result = .elements (found ++ appended m xn value) ∧
      eachEvaluate subscript result found m (xn :: rest) h =
        eachEvaluate subscript result (found ++ appended m xn value) (m + 1) rest h' := by
  have inside := h.lt_next live
  let first := h.alloc (.elements [xn])
  obtain ⟨right, second, value, ran, evaluated, gives⟩ := makes first h.next (alloc_self_live _) (alloc_self _)
  have tmp : 0 < second.users h.next := gives.still_live (alloc_self_live _)
  have freed := gives_free gives tmp
  have start : Moves base h 0 {h.next} first := Moves.alloc _ _ _ (by omega)
  rw [eachEvaluate, bind_run (show resultNew _ h = .ok (h.next, first) from rfl), bind_run ran, bind_run (free_run tmp)]
  cases right with
  | none =>
    cases value with
    | some _ => exact gives.elim
    | none =>
      have moves : Moves first.next first {h.next} 0 _ := freed
      have kept : second.contents result = .elements found :=
        ((moves.kept result (by simp [first, Heap.alloc]; omega)).trans (alloc_contents live _)).trans at_
      refine ⟨second.setUsers h.next (second.users h.next - 1) tmp, none, evaluated, ?_, ?_, ?_⟩
      · exact (start.trans (moves.lower (by simp [first, Heap.alloc]; omega))).recount fun _ => by simp
      · rw [show appended m xn none = [] from rfl, List.append_nil]
        exact kept
      · rw [show appended m xn none = [] from rfl, List.append_nil]
  | some r =>
    cases value with
    | none => exact gives.elim
    | some contents =>
      let third := second.setUsers h.next (second.users h.next - 1) tmp
      have moves : Moves first.next first {h.next} {r} third := freed.1
      have liveRight : 0 < third.users r := moves.live (by
        rw [Multiset.count_singleton, Multiset.count_singleton, if_pos rfl]
        split_ifs with same
        · have some_ : 0 < first.users h.next := alloc_self_live _
          rw [same]
          omega
        · omega)
      have all : Moves base h 0 {r} third :=
        (start.trans (moves.lower (by simp [first, Heap.alloc]; omega))).recount fun _ => by
          simp [Multiset.count_cons, Multiset.count_singleton, Nat.add_comm]
      let more := found ++ appended m xn (some contents)
      let fourth := third.put result (.elements more)
      have given : third.contents r = contents := freed.2
      refine ⟨fourth.setUsers r (fourth.users r - 1) liveRight, some contents, evaluated, ?_, if_pos rfl, ?_⟩
      · exact ((all.trans (Moves.put third (.elements more) above)).trans
          (Moves.release (h := fourth) base liveRight)).recount fun _ => by simp
      · dsimp only
        rw [bind_run (read_run liveRight), given, bind_run (write_run (all.still_live live)),
          bind_run (free_run (show 0 < fourth.users r from liveRight))]

/-- The loop over the elements appends to its result, and leaves nothing else behind. -/
theorem each_gives (makes : ∀ xn ∈ elements, Makes subscript (.elements [xn]) (pure_ [xn]))
    {result : ResultRef} {found : List Element} (live : 0 < h.users result)
    (at_ : h.contents result = .elements found) (above : base ≤ result) :
    ∃ h' later, eachEvaluate subscript result found m elements h = .ok ((), h') ∧
      eachElement pure_ m elements = .ok later ∧ Moves base h 0 0 h' ∧
      h'.contents result = .elements (found ++ later) := by
  induction elements generalizing h found m with
  | nil => exact ⟨h, [], rfl, rfl, Moves.refl _ _, by rw [at_, List.append_nil]⟩
  | cons xn rest ih =>
    obtain ⟨here, behind⟩ := List.forall_mem_cons.mp makes
    obtain ⟨middle, value, evaluated, moves, at_', step⟩ := each_step rest here live at_ above
    obtain ⟨h', later, ran, evaluated', moves', at_''⟩ := ih behind (m := m + 1) (moves.still_live live) at_'
    refine ⟨h', appended m xn value ++ later, step.trans ran, eachElement_cons evaluated evaluated',
      (moves.trans moves').recount fun _ => rfl, ?_⟩
    rw [at_'', List.append_assoc]

/-- The value of a constant subscript that is sound. -/
def ConstantSound (subscript : ResultRef → Action (Option ResultRef))
    (pure_ : List Element → Except Fault (Option Contents)) (elements : List Element) : Prop :=
  Makes subscript (.elements elements) (pure_ elements) ∧
    pure_ elements ≠ .ok (some (.boolean true))

theorem applyConstant_eq (untrue : contents ≠ .boolean true) (elements : List Element) (left result right : ResultRef) :
    applyConstant elements left result right contents = (do
      let found ← lift (constantSubscript elements contents)
      resultWrite result (.elements found)
      resultFree (some right)
      pure (some result)) := by
  unfold applyConstant
  split
  · exact absurd rfl untrue
  · rfl

theorem constantSubscript_ok (untrue : contents ≠ .boolean true)
    (elements : List Element) : ∃ found, constantSubscript elements contents = .ok found := by
  unfold constantSubscript
  split
  · exact ⟨_, rfl⟩
  · exact absurd rfl untrue
  · exact ⟨_, rfl⟩

theorem makes_predicate {constant : Except Fault Bool}
    (sound : elements ≠ [] → (constant = .ok true ∧ ConstantSound subscript pure_ elements) ∨
      (constant = .ok false ∧ ∀ xn ∈ elements, Makes subscript (.elements [xn]) (pure_ [xn]))) :
    Makes (predicateAction constant subscript) (.elements elements) (predicateEvaluate constant pure_ elements) := by
  intro h left live at_
  let first := h.alloc (.elements [])
  have liveLeft : 0 < first.users left := alloc_live live _
  have liveResult : 0 < first.users h.next := alloc_self_live _
  have atLeft : first.contents left = .elements elements := (alloc_contents live _).trans at_
  have start : Moves h.next h 0 {h.next} first := Moves.alloc _ _ _ le_rfl
  rw [predicateAction, bind_run (show resultNew _ h = .ok (h.next, first) from rfl), bind_run (read_run liveLeft), atLeft]
  unfold predicateEvaluate
  cases elements with
  | nil => exact ⟨some h.next, first, some (.elements []), rfl, rfl, start, alloc_self _⟩
  | cons xn rest =>
    rcases sound (by simp) with ⟨rfl, makes, untrue⟩ | ⟨rfl, makes⟩
    · obtain ⟨right, second, value, ran, evaluated, gives⟩ := makes first left liveLeft atLeft
      have liveResult' : 0 < second.users h.next := gives.still_live liveResult
      dsimp only
      rw [bind_run (lift_run rfl), if_pos rfl, bind_run ran, if_neg (by simp)]
      cases right with
      | none =>
        cases value with
        | some _ => exact gives.elim
        | none =>
          have moves : Moves first.next first 0 0 second := gives
          refine ⟨none, second.setUsers h.next (second.users h.next - 1) liveResult', none, ?_, ?_, ?_⟩
          · dsimp only
            rw [bind_run (free_run liveResult')]
            rfl
          · simp [evaluated, bind, Except.bind]
          · exact ((start.trans (moves.lower start.grown)).trans (Moves.release _ liveResult')).recount fun _ => by simp
      | some r =>
        cases value with
        | none => exact gives.elim
        | some contents =>
          obtain ⟨moves, given⟩ := gives
          have untrue' : contents ≠ .boolean true := fun same => untrue (same ▸ evaluated)
          obtain ⟨found, chosen⟩ := constantSubscript_ok untrue' (xn :: rest)
          have liveRight : 0 < second.users r := moves.came_live (by simp)
          let third := second.put h.next (.elements found)
          refine ⟨some h.next, third.setUsers r (third.users r - 1) liveRight, some (.elements found),
            ?_, ?_, ?_, if_pos rfl⟩
          · dsimp only
            rw [bind_run (read_run liveRight), given, applyConstant_eq untrue',
              bind_run (lift_run chosen), bind_run (write_run liveResult'),
              bind_run (free_run (show 0 < third.users r from liveRight))]
            rfl
          · simp [evaluated, chosen, bind, Except.bind, Except.map]
          · exact (((start.trans (moves.lower start.grown)).trans
              (Moves.put second (.elements found) (le_refl h.next))).trans
              (Moves.release (h := third) _ liveRight)).recount fun _ => by
                simp [Multiset.count_cons, Multiset.count_singleton]
    · obtain ⟨h', later, ran, evaluated, moves, at_'⟩ := each_gives makes liveResult (alloc_self _) le_rfl
      refine ⟨some h.next, h', some (.elements later), ?_, ?_, ?_, at_'⟩
      · dsimp only
        rw [bind_run (lift_run rfl), if_neg (by simp), bind_run ran]
        rfl
      · rw [if_neg (by simp)]
        simp [evaluated, bind, Except.bind, Except.map]
      · exact (start.trans moves).recount fun _ => by simp

end Predicates

section Binary

theorem toStrings_gives (live : 0 < h.users na) :
    ∃ s h', toStrings na h = .ok (s, h') ∧ Moves h.next h 0 {s} h' ∧ h'.contents s = (h.contents na).asStrings := by
  rw [toStrings, bind_run (read_run live)]
  by_cases type : (h.contents na).type = .string
  · rw [if_pos type, bind_run (dup_run live)]
    refine ⟨na, _, rfl, Moves.dup _ live, ?_⟩
    cases at_ : h.contents na <;> rw [at_] at type <;> first | exact at_ | cases type
  · rw [if_neg type]
    exact ⟨_, _, rfl, Moves.alloc _ _ _ le_rfl, alloc_self _⟩

/-- A missing text as the empty one. -/
def Value.filled : Value → Value
  | .string text => .string (some (text.getD []))
  | other => other

/-- The strings of a comparison, with the empty text in place of a missing one. -/
theorem anyPair_asStrings (xop : Comparison) (first second : Contents) :
    anyPair (nodecomp xop) (resultToStrings first) (resultToStrings second) =
      anyPair (nodecomp xop) first.asStrings.nodes second.asStrings.nodes := by
  have nodes (contents : Contents) : contents.asStrings.nodes = (resultToStrings contents).map Value.filled := by
    cases contents <;> simp [Contents.asStrings, Contents.nodes, resultToStrings, Value.filled]
  have same (v w : Value) : nodecomp xop v.filled w.filled = nodecomp xop v w := by
    cases v <;> cases w <;> rfl
  simp only [nodes, anyPair, List.any_map, Function.comp_def, same]

theorem comparison_gives (xop : Comparison) (live : 0 < h.users left) (live' : 0 < h.users right) :
    ∃ q h', comparisonEvaluate xop left right h = .ok (some q, h') ∧ Moves h.next h 0 {q} h' ∧
      h'.contents q = .boolean (genericComparison xop (h.contents left) (h.contents right)) := by
  obtain ⟨l, r, middle, ran, moves, same⟩ : ∃ l r middle,
      comparisonOperands left right h = .ok ((l, r), middle) ∧ Moves h.next h 0 ({l} + {r}) middle ∧
        anyPair (nodecomp xop) (middle.contents l).nodes (middle.contents r).nodes =
          genericComparison xop (h.contents left) (h.contents right) := by
    rw [comparisonOperands, bind_run (read_run live), bind_run (read_run live')]
    unfold genericComparison
    by_cases apart : (h.contents left).type ≠ (h.contents right).type
    · obtain ⟨l, first, ran, moves, at_⟩ := toStrings_gives live
      obtain ⟨r, second, ran', moves', at_'⟩ := toStrings_gives (moves.still_live live')
      rw [if_pos apart, if_pos apart, bind_run ran, bind_run ran']
      refine ⟨l, r, second, rfl, moves.trans (moves'.lower moves.grown), ?_⟩
      rw [at_', moves.kept right (h.lt_next live'),
        moves'.kept l (first.lt_next (moves.came_live (by simp))), at_, anyPair_asStrings]
    · let first := h.setUsers left (h.users left + 1) live
      have moves : Moves h.next h 0 {left} first := Moves.dup _ live
      have live'' : 0 < first.users right := moves.still_live live'
      rw [if_neg apart, if_neg apart, bind_run (dup_run live), bind_run (dup_run live'')]
      exact ⟨left, right, _, rfl, moves.trans (Moves.dup _ live''), rfl⟩
  have liveL : 0 < middle.users l := moves.came_live (by simp)
  have liveR : 0 < middle.users r := moves.came_live (by simp)
  let third := middle.setUsers l (middle.users l - 1) liveL
  have moves' : Moves h.next h 0 {r} third := (moves.trans (Moves.release _ liveL)).recount
    fun _ => by simp [Multiset.count_cons, Multiset.count_singleton, Nat.add_comm]
  have liveR' : 0 < third.users r := moves'.came_live (by simp)
  let fourth := third.setUsers r (third.users r - 1) liveR'
  have moves'' : Moves h.next h 0 0 fourth := (moves'.trans (Moves.release _ liveR')).recount fun _ => by simp
  refine ⟨fourth.next, fourth.alloc _, ?_,
    (moves''.trans (Moves.alloc _ _ _ moves''.grown)).recount fun _ => by simp, alloc_self _⟩
  rw [comparisonEvaluate, bind_run ran]
  dsimp only
  rw [bind_run (read_run liveL), bind_run (read_run liveR), bind_run (free_run liveL), bind_run (free_run liveR'), same]
  rfl

variable {op : Operator}

/-- An operator makes a result of its own of two operands that it leaves. -/
theorem operator_gives {value : Contents} (live : 0 < h.users left) (live' : 0 < h.users right)
    (computed : op.evaluate (h.contents left) (h.contents right) = .ok value) :
    ∃ q h', operatorEvaluate op left right h = .ok (some q, h') ∧ Moves h.next h 0 {q} h' ∧ h'.contents q = value := by
  have plain : ∃ q h', (do
      let leftContents ← resultRead left
      let rightContents ← resultRead right
      let contents ← lift (op.evaluate leftContents rightContents)
      let result ← resultNew contents
      pure (some result) : Action (Option ResultRef)) h = .ok (some q, h') ∧
        Moves h.next h 0 {q} h' ∧ h'.contents q = value := by
    refine ⟨h.next, h.alloc value, ?_, Moves.alloc _ _ _ le_rfl, alloc_self _⟩
    rw [bind_run (read_run live), bind_run (read_run live'), bind_run (lift_run computed)]
    rfl
  cases op with
  | and => exact plain
  | or => exact plain
  | compare xop =>
    cases computed
    exact comparison_gives xop live live'
  | arith oper =>
    let first := h.alloc (.integers [])
    refine ⟨h.next, first.put h.next value, ?_, ?_, if_pos rfl⟩
    · rw [operatorEvaluate, arithEvaluate, bind_run (show resultNew _ h = .ok (h.next, first) from rfl),
        bind_run (read_run (alloc_live live _)), bind_run (read_run (alloc_live live' _)),
        alloc_contents live, alloc_contents live', bind_run (lift_run computed),
        bind_run (write_run (alloc_self_live _))]
      rfl
    · exact ((Moves.alloc h.next h (.integers []) le_rfl).trans
        (Moves.put _ value (le_refl h.next))).recount fun _ => by simp

variable {start : Memory} {rest : Multiset ResultRef}

theorem held_live (moves : Moves start.next start 0 ({na} + rest) h) : 0 < h.users na := moves.came_live (by simp)

theorem held_cast (expected : InputType) (moves : Moves start.next start 0 ({na} + rest) h)
    (numeric : expected = .of .integer → (h.contents na).Numeric) :
    ∃ fine na' h' value, expressionCast expected na h = .ok ((fine, na'), h') ∧
      cast expected (h.contents na) = .ok value ∧ Moves start.next start 0 ({na'} + rest) h' ∧
      (∀ r, 0 < h.users r → h'.contents r = h.contents r) ∧ fine = value.isSome ∧
      ∀ contents, value = some contents → h'.contents na' = contents := by
  obtain ⟨fine, na', h', value, ran, cast_, moves', isSome, at_⟩ := cast_gives (held_live moves) numeric
  refine ⟨fine, na', h', value, ran, cast_, ?_, fun r live => moves'.kept r (h.lt_next live), isSome, at_⟩
  exact (moves.trans (moves'.lower moves.grown)).recount fun r => by
    simp [Multiset.count_cons, Multiset.count_singleton]
    omega

variable (rest) in
theorem held_free (moves : Moves start.next start 0 ({na} + rest) h) :
    ∃ h', resultFree (some na) h = .ok ((), h') ∧ Moves start.next start 0 rest h' ∧ h'.contents = h.contents := by
  refine ⟨_, free_run (held_live moves), ?_, rfl⟩
  exact (moves.trans (Moves.release _ (held_live moves))).recount fun r => by
    simp [Multiset.count_cons, Multiset.count_singleton]
    omega

theorem operandCast_run (ran : expressionCast expected na h = .ok ((fine, na'), h')) :
    operandCast expected (some na) h = .ok ((fine, some na'), h') := by
  rw [operandCast, bind_run ran]
  rfl

theorem fits_numeric (fits : op.Fits first second) (integer : op.intype = .of .integer) : first.Numeric := by
  cases op <;> first | exact (fits _ rfl).1 | cases integer

variable {oper : Arith}

theorem arith_ok :
    (∃ rv, oper.evaluate lint rint = .ok rv) ↔
      ((oper = .divide ∨ oper = .modulo) → ¬ (lint = Int64.minValue ∧ rint = -1)) := by
  have nonzero : (-1 : Int64) ≠ 0 := by decide
  cases oper <;> simp only [Arith.evaluate, reduceCtorEq, or_self, or_true, true_or, true_implies,
    false_implies, Except.ok.injEq, exists_eq']
  all_goals
    split_ifs with zero smallest
    · refine iff_of_true ⟨_, rfl⟩ fun both => ?_
      exact nonzero (both.2.symm.trans zero)
    · exact iff_of_false (by simp) (not_not.mpr smallest)
    · exact iff_of_true ⟨_, rfl⟩ smallest

theorem arithPairs_ok :
    (∃ values, arithPairs oper pairs = .ok values) ↔ ∀ p ∈ pairs, ∃ rv, oper.evaluate p.1 p.2 = .ok rv := by
  induction pairs with
  | nil => simp [arithPairs]
  | cons pair rest ih =>
    rw [List.forall_mem_cons, ← ih]
    constructor
    · rintro ⟨values, computed⟩
      obtain ⟨rv, here, computed⟩ := bind_ok.mp computed
      obtain ⟨later, behind, -⟩ := bind_ok.mp computed
      exact ⟨⟨rv, here⟩, later, behind⟩
    · rintro ⟨⟨rv, here⟩, later, behind⟩
      exact ⟨rv.toList ++ later, by simp [arithPairs, here, behind, bind, Except.bind]⟩

theorem untrapped_iff :
    (∃ values, arithPairs oper (pairsOf lefts rights) = .ok values) ↔ oper.Untrapped lefts rights := by
  rw [arithPairs_ok]
  simp only [pairsOf, List.mem_flatMap, List.mem_map, arith_ok, Arith.Untrapped]
  constructor
  · rintro safe division ⟨smallest, minusOne⟩
    exact safe _ ⟨_, smallest, _, minusOne, rfl⟩ division ⟨rfl, rfl⟩
  · rintro safe _ ⟨lint, inLeft, rint, inRight, rfl⟩ division ⟨rfl, rfl⟩
    exact safe division ⟨inLeft, inRight⟩

theorem cast_integer (cast_ : cast (.of .integer) contents = .ok (some made)) : ∃ values, made = .integers values := by
  rw [cast] at cast_
  split_ifs at cast_ with type
  · cases cast_
    cases contents <;> first | exact ⟨_, rfl⟩ | cases type
  · split at cast_
    · obtain ⟨values, -, same⟩ := map_ok.mp cast_
      cases same
      exact ⟨values, rfl⟩
    · cases cast_

theorem operator_ok (fits : op.Fits first (some second)) (cast_ : cast op.intype first = .ok (some first'))
    (cast_' : cast op.intype second = .ok (some second')) : ∃ value, op.evaluate first' second' = .ok value := by
  cases op with
  | and => exact ⟨_, rfl⟩
  | or => exact ⟨_, rfl⟩
  | compare xop => exact ⟨_, rfl⟩
  | arith oper =>
    obtain ⟨lefts, rfl⟩ := cast_integer cast_
    obtain ⟨rights, rfl⟩ := cast_integer cast_'
    obtain ⟨values, computed⟩ := untrapped_iff.mpr (((fits oper rfl).2 second rfl).2 lefts rights cast_ cast_')
    exact ⟨.integers values, by simp [Operator.evaluate, computed, Except.map]⟩

/-- Without the first operand, the second one is given back. -/
theorem finish_absent {right : Option ResultRef} {first : Memory} (moves : Moves start.next start 0 0 first)
    (gives : Gives first.next first 0 right value h) :
    ∃ h', finishBinary op none right h = .ok (none, h') ∧ Moves start.next start 0 0 h' := by
  have before (h' : Memory) (freed : resultFree right h = .ok ((), h')) :
      finishBinary op none right h = .ok (none, h') := by
    rw [finishBinary, bind_run (show castBoth op.intype none right h =
      .ok ((false, none, right), h) from rfl), combineFree,
      bind_run (show combine op false none right h = .ok (none, h) from rfl),
      bind_run (show resultFree none h = .ok ((), h) from rfl), bind_run freed]
    rfl
  cases right with
  | none =>
    cases value with
    | some _ => exact gives.elim
    | none =>
      have moves' : Moves first.next first 0 0 h := gives
      exact ⟨h, before h rfl, (moves.trans (moves'.lower moves.grown)).recount fun _ => by simp⟩
  | some r =>
    cases value with
    | none => exact gives.elim
    | some contents =>
      have both : Moves start.next start 0 ({r} + 0) h :=
        (moves.trans (gives.1.lower moves.grown)).recount fun _ => by simp
      obtain ⟨h', freed, left_, -⟩ := held_free 0 both
      exact ⟨h', before h' freed, left_⟩

theorem finish_none (moves : Moves start.next start 0 ({left} + 0) h) (fits : op.Fits (h.contents left) none) :
    ∃ h', finishBinary op (some left) none h = .ok (none, h') ∧
      binaryEvaluate op (some (h.contents left)) none = .ok none ∧ Moves start.next start 0 0 h' := by
  obtain ⟨fine, left', first, value, ran, cast_, moves₁, -, -, -⟩ := held_cast _ moves (fits_numeric fits)
  obtain ⟨second, freed, moves₂, -⟩ := held_free 0 moves₁
  refine ⟨second, ?_, ?_, moves₂⟩
  · have both : castBoth op.intype (some left) none h = .ok ((false, some left', none), first) := by
      rw [castBoth, bind_run (operandCast_run ran)]
      cases fine <;> rfl
    rw [finishBinary, bind_run both, combineFree,
      bind_run (show combine op false (some left') none first = .ok (none, first) from rfl),
      bind_run freed]
    rfl
  · simp only [binaryEvaluate, cast_, bind, Except.bind]

theorem finish_run (both : castBoth op.intype (some left) right h = .ok ((fine, some left', some right'), first))
    (combined : whenFine fine (operatorEvaluate op left' right') first = .ok (result, second))
    (freed : resultFree (some left') second = .ok ((), third))
    (freed' : resultFree (some right') third = .ok ((), fourth)) :
    finishBinary op (some left) right h = .ok (result, fourth) := by
  rw [finishBinary, bind_run both]
  rw [combineFree, bind_run (show combine op fine (some left') (some right') first = .ok (result, second) from
    combined), bind_run freed, bind_run freed']
  rfl

theorem finish_some (moves : Moves start.next start 0 ({left} + {right}) h)
    (fits : op.Fits (h.contents left) (some (h.contents right))) :
    ∃ result h' value, finishBinary op (some left) (some right) h = .ok (result, h') ∧
      binaryEvaluate op (some (h.contents left)) (some (h.contents right)) = .ok value ∧
      Gives start.next start 0 result value h' := by
  have liveRight : 0 < h.users right := moves.came_live (by simp)
  obtain ⟨fine, left', first, value, ran, cast₁, moves₁, kept, isSome, at_⟩ := held_cast _ moves (fits_numeric fits)
  subst isSome
  simp only [binaryEvaluate, cast₁, bind, Except.bind]
  cases value with
  | none =>
    obtain ⟨second, freed, moves₂, -⟩ := held_free _ moves₁
    obtain ⟨third, freed', moves₃, -⟩ := held_free 0 moves₂
    have both : castBoth op.intype (some left) (some right) h = .ok ((false, some left', some right), first) := by
      rw [castBoth, bind_run (operandCast_run ran)]
      rfl
    exact ⟨none, third, none, finish_run both rfl freed freed', rfl, moves₃⟩
  | some c =>
    have numeric (integer : op.intype = .of .integer) : (first.contents right).Numeric := by
      rw [kept right liveRight]
      cases op <;> first | exact ((fits _ rfl).2 _ rfl).1 | cases integer
    rw [add_comm] at moves₁
    obtain ⟨fine', right', second, value', ran', cast₂, moves₂, kept', isSome, at_'⟩ := held_cast _ moves₁ numeric
    subst isSome
    rw [kept right liveRight] at cast₂
    have both : castBoth op.intype (some left) (some right) h =
        .ok ((value'.isSome, some left', some right'), second) := by
      rw [castBoth, bind_run (operandCast_run ran), castRight, if_pos (by rfl), bind_run (operandCast_run ran')]
      rfl
    have liveLeft : 0 < first.users left' := moves₁.came_live (by simp)
    rw [add_comm] at moves₂
    cases value' with
    | none =>
      obtain ⟨third, freed, moves₃, -⟩ := held_free _ moves₂
      obtain ⟨fourth, freed', moves₄, -⟩ := held_free 0 moves₃
      exact ⟨none, fourth, none, finish_run both rfl freed freed', by simp only [cast₂], moves₄⟩
    | some d =>
      obtain ⟨made, computed⟩ := operator_ok fits cast₁ cast₂
      have liveLeft' : 0 < second.users left' := moves₂.came_live (by simp)
      have liveRight' : 0 < second.users right' := moves₂.came_live (by simp)
      have computed' : op.evaluate (second.contents left') (second.contents right') = .ok made := by
        rw [kept' left' liveLeft, at_ c rfl, at_' d rfl, computed]
      obtain ⟨q, third, combined, moves₃, given⟩ := operator_gives liveLeft' liveRight' computed'
      have moves₄ : Moves start.next start 0 ({left'} + ({right'} + {q})) third :=
        (moves₂.trans (moves₃.lower moves₂.grown)).recount fun r => by
          simp [Multiset.count_cons, Multiset.count_singleton, Nat.add_comm, Nat.add_left_comm]
      obtain ⟨fourth, freed, moves₅, same⟩ := held_free _ moves₄
      obtain ⟨fifth, freed', moves₆, same'⟩ := held_free _ moves₅
      refine ⟨some q, fifth, some made, finish_run both combined freed freed', ?_, moves₆, ?_⟩
      · simp only [cast₂, computed, Except.map]
      · rw [same', same, given]

end Binary

section Evaluation

variable (operate : Contents → Except Fault (Option Contents))

theorem makes_input (unary : expected ≠ .of .integer)
    (makes : ∀ made, cast expected contents = .ok (some made) → Makes operator made (operate made)) :
    Makes (applyInput expected operator) contents (castThen expected operate contents) := by
  intro h left live at_
  let first := h.setUsers left (h.users left + 1) live
  have live' : 0 < first.users left := by simp [first, Heap.setUsers]
  have at_' : first.contents left = contents := at_
  obtain ⟨result, h', value, ran, same, gives⟩ :=
    apply_gives (h := first) live' (fun integer => absurd integer unary) (at_' ▸ makes)
  refine ⟨result, h', value, ?_, at_' ▸ same, ?_⟩
  · rw [applyInput, bind_run (dup_run live)]
    exact ran
  · exact Gives.after (Moves.dup _ live) gives le_rfl fun _ => by simp

theorem makes_left (unary : expected ≠ .of .integer) (left : Makes evaluation contents evaluated)
    (makes : ∀ operand, evaluated = .ok (some operand) →
      ∀ made, cast expected operand = .ok (some made) → Makes operator made (operate made)) :
    Makes (fun input => applyLeft expected operator (evaluation input)) contents
      (operandThen expected operate evaluated) := by
  intro h input live at_
  obtain ⟨result, first, value, ran, same, gives⟩ := left h input live at_
  dsimp only
  rw [applyLeft, bind_run ran]
  simp only [operandThen, same, bind, Except.bind]
  cases result with
  | none =>
    cases value with
    | some _ => exact gives.elim
    | none => exact ⟨none, first, none, rfl, rfl, gives⟩
  | some r =>
    cases value with
    | none => exact gives.elim
    | some operand =>
      obtain ⟨moves, given⟩ := gives
      have live' : 0 < first.users r := moves.came_live (by simp)
      obtain ⟨result, h', value, ran', same', gives'⟩ :=
        apply_gives live' (fun integer => absurd integer unary) (given ▸ makes operand same)
      exact ⟨result, h', value, ran', given ▸ same', Gives.after moves gives' moves.grown fun _ => by simp⟩

theorem onElements_eq (evaluated : Except Fault (Option Contents))
    (operate : List Element → Except Fault (Option Contents)) :
    onElements evaluated operate = operandThen (.of .element) (fun contents => match contents with
      | .elements elements => operate elements
      | _ => .ok none) evaluated := by
  unfold onElements operandThen
  congr 1
  funext value
  match value with
  | none => rfl
  | some (.elements elements) => rfl
  | some (.strings _) => rfl
  | some (.integers _) => rfl
  | some (.boolean _) => rfl

/-- A sound evaluation gives the value of the expression, and leaves nothing else behind. -/
theorem makes_eval {enode : Enode} (sound : Sound enode elements) :
    Makes (expressionEval enode) (.elements elements) (eval enode elements) := by
  induction enode generalizing elements with
  | node => exact makes_input (fun made => .ok (some made)) nofun fun made _ => makes_node
  | stringconst identifier =>
    exact makes_input (fun _ => .ok (some (.strings [identifier]))) nofun fun made _ => makes_const _ made
  | intconst integer =>
    exact makes_input (fun _ => .ok (some (.integers [integer]))) nofun fun made _ => makes_const _ made
  | noOperator => exact sound.elim
  | call func =>
    refine makes_input (fun made => .ok (some (func.evaluate List.length made))) ?_ fun made _ => makes_func func
    cases func <;> nofun
  | callOn func left ih =>
    refine makes_left (fun made => .ok (some (func.evaluate List.length made))) ?_
      (ih sound) fun _ _ made _ => makes_func func
    cases func <;> nofun
  | step axis identifier left ih =>
    obtain ⟨here, named⟩ := sound
    rw [show eval (.step axis identifier left) elements = _ from onElements_eq _ _]
    refine makes_left _ nofun (ih here) fun operand found made converted => ?_
    cases operand with
    | elements reached =>
      cases converted
      exact makes_axis (named reached found)
    | _ => cases converted
  | predicate left right ih ih' =>
    obtain ⟨here, subscript⟩ := sound
    rw [show eval (.predicate left right) elements = _ from onElements_eq _ _]
    refine makes_left _ nofun (ih here) fun operand found made converted => ?_
    cases operand with
    | elements reached =>
      cases converted
      refine makes_predicate fun some_ => ?_
      rcases subscript reached found some_ with ⟨constant, sound, untrue⟩ | ⟨varying, each⟩
      · exact .inl ⟨constant, ih' sound, untrue⟩
      · exact .inr ⟨varying, fun xn member => ih' (each xn member)⟩
    | _ => cases converted
  | binary op left right ih ih' =>
    obtain ⟨here, there, fits⟩ := sound
    intro h input live at_
    obtain ⟨result, first, value, ran, same, gives⟩ := ih here h input live at_
    have live' : 0 < first.users input := gives.still_live live
    have at_' : first.contents input = .elements elements := (gives.kept input (h.lt_next live)).trans at_
    obtain ⟨result', second, value', ran', same', gives'⟩ := ih' there first input live' at_'
    rw [expressionEval, applyBinary, bind_run ran, bind_run ran']
    rw [show eval (.binary op left right) elements = binaryEvaluate op value value' by
      simp only [eval, evaluate] at same same' ⊢
      simp only [same, same', bind, Except.bind]]
    cases result with
    | none =>
      cases value with
      | some _ => exact gives.elim
      | none =>
        have moves : Moves h.next h 0 0 first := gives
        obtain ⟨h', ran'', gives''⟩ := finish_absent moves gives'
        exact ⟨none, h', none, ran'', rfl, gives''⟩
    | some r =>
      cases value with
      | none => exact gives.elim
      | some operand =>
        obtain ⟨moves, given⟩ := gives
        have liveR : 0 < first.users r := moves.came_live (by simp)
        have fits' := fits operand value' same same'
        have kept : second.contents r = operand := (gives'.kept r (first.lt_next liveR)).trans given
        cases result' with
        | none =>
          cases value' with
          | some _ => exact gives'.elim
          | none =>
            have moves' : Moves first.next first 0 0 second := gives'
            have both : Moves h.next h 0 ({r} + 0) second :=
              (moves.trans (moves'.lower moves.grown)).recount fun _ => by simp
            obtain ⟨h', ran'', evaluated, left_⟩ := finish_none both (kept ▸ fits')
            exact ⟨none, h', none, ran'', kept ▸ evaluated, left_⟩
        | some r' =>
          cases value' with
          | none => exact gives'.elim
          | some operand' =>
            obtain ⟨moves', given'⟩ := gives'
            have both : Moves h.next h 0 ({r} + {r'}) second :=
              (moves.trans (moves'.lower moves.grown)).recount fun _ => by simp
            obtain ⟨result, h', value, ran'', evaluated, gives''⟩ := finish_some both (kept ▸ given' ▸ fits')
            exact ⟨result, h', value, ran'', kept ▸ given' ▸ evaluated, gives''⟩

end Evaluation

end Gives

end Testbus.Xpath
