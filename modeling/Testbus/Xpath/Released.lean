import Testbus.Xpath.Parse
import Testbus.Xpath.Sound

namespace Testbus.Xpath

open Lib Blocks

section Loses

/-- An operator does not end, or loses a block, on an operand. -/
def Fails (operator : ResultRef → Action (Option ResultRef)) (contents : Contents) : Prop :=
  ∀ (h : Memory) left, 0 < h.users left → h.contents left = contents →
    Loses h.next (operator left) Option.toList h

variable {left right : ResultRef}

theorem fails_apply (type : expected = .of contents.type)
    (fails : Fails operator contents) : Fails (applyOperator expected operator) contents := by
  intro h left live at_
  have converted : expressionCast expected left h = .ok ((true, left), h) := by
    subst type
    rw [expressionCast, bind_run (read_run live), at_, if_pos rfl]
    rfl
  refine Loses.after converted ?_
  refine Loses.bind [left] (show Loses h.next (whenFine true (operator left)) _ h from
    fails h left live at_) ?_ fun result => ?_
  · intro r member
    rw [List.mem_singleton.mp member]
    exact h.lt_next live
  · exact Confined.bind (confined_free (by simp)) fun _ => Confined.pure (by simp)

theorem fails_left (operates : Operates operator) (fails : Fails evaluation contents) :
    Fails (fun input => applyLeft expected operator (evaluation input)) contents := by
  intro h input live at_
  refine Loses.bind [] (fails h input live at_) (by simp) fun left => ?_
  cases left with
  | none => exact Confined.pure (List.nil_subset _)
  | some left => exact confined_applyOperator operates (by simp)

theorem fails_after (makes : Makes evaluation contents evaluated)
    (value : evaluated = .ok (some operand)) (fails : Fails (applyOperator expected operator) operand) :
    Fails (fun input => applyLeft expected operator (evaluation input)) contents := by
  intro h input live at_
  obtain ⟨result, first, value', ran, same, gives⟩ := makes h input live at_
  cases value.symm.trans same
  cases result with
  | none => exact gives.elim
  | some r =>
    obtain ⟨moves, given⟩ := gives
    exact Loses.after ran ((fails first r (moves.came_live (by simp)) given).lower moves.grown)

theorem fails_axis (unnamed : ¬ axis.Named identifier elements) : Fails (axisEvaluate axis identifier) (.elements elements) := by
  intro h left live at_
  have stopped : ∃ fault, axis.evaluate identifier elements = .error fault := by
    cases result : axis.evaluate identifier elements with
    | ok reached => exact absurd (named_iff.mp ⟨reached, result⟩) unnamed
    | error fault => exact ⟨fault, rfl⟩
  obtain ⟨fault, stopped⟩ := stopped
  refine Loses.after (show resultNew _ h = .ok (h.next, h.alloc _) from rfl) ?_
  refine Loses.after (read_run (alloc_live live _)) ?_
  rw [alloc_contents live, at_]
  exact loses_fault (bind_fault (bind_fault (lift_stops stopped)))

section Predicates

variable {pure_ : List Element → Except Fault (Option Contents)}

theorem each_head (operates : Operates subscript) (rest : List Element)
    (fails : Fails subscript (.elements [xn])) (live : 0 < h.users result) : Loses h.next (eachEvaluate subscript result found m (xn :: rest)) (fun _ => []) h := by
  let first := h.alloc (.elements [xn])
  have beyond : first.next = h.next + 1 := rfl
  have inside := h.lt_next live
  refine Loses.after (show resultNew _ h = .ok (h.next, first) from rfl) ?_
  refine Loses.lower ?_ (show h.next ≤ first.next by omega)
  refine Loses.bind [h.next, result] (fails first h.next (alloc_self_live _) (alloc_self _)) ?_ fun right => ?_
  · intro r member
    simp only [List.mem_cons, List.not_mem_nil, or_false] at member
    omega
  · refine Confined.bind (confined_free (by simp)) fun _ => ?_
    cases right with
    | none => exact confined_each operates (by simp) _ _ _
    | some right =>
      refine Confined.bind confined_read fun contents => Confined.bind confined_write fun _ => ?_
      exact Confined.bind (confined_free (by simp)) fun _ => confined_each operates (by simp) _ _ _

theorem each_loses (operates : Operates subscript)
    (each : ∀ xn ∈ elements, Makes subscript (.elements [xn]) (pure_ [xn]) ∨ Fails subscript (.elements [xn]))
    (some_ : ∃ xn ∈ elements, Fails subscript (.elements [xn])) (live : 0 < h.users result) (at_ : h.contents result = .elements found) :
    Loses h.next (eachEvaluate subscript result found m elements) (fun _ => []) h := by
  induction elements generalizing h found m with
  | nil => simp at some_
  | cons xn rest ih =>
    obtain ⟨here, behind⟩ := List.forall_mem_cons.mp each
    obtain ⟨other, member, fails⟩ := some_
    rcases List.mem_cons.mp member with rfl | member
    · exact each_head operates rest fails live
    rcases here with makes | fails'
    · obtain ⟨middle, value, -, moves, at_', step⟩ := each_step rest makes live at_ (Nat.zero_le _)
      intro ended h' ran
      rw [step] at ran
      exact ((ih behind ⟨other, member, fails⟩ (moves.still_live live) at_').lower moves.grown) ended h' ran
    · exact each_head operates rest fails' live

variable (pure_) in
/-- A predicate fails where its subscript does, and where a constant one is true. -/
theorem fails_predicate (operates : Operates subscript) (some_ : elements ≠ [])
    (unsound : (∃ fault, constant = .error fault) ∨
      (constant = .ok true ∧ (Fails subscript (.elements elements) ∨
        (Makes subscript (.elements elements) (pure_ elements) ∧ pure_ elements = .ok (some (.boolean true))))) ∨
      (constant = .ok false ∧ (∀ xn ∈ elements, Makes subscript (.elements [xn]) (pure_ [xn]) ∨
        Fails subscript (.elements [xn])) ∧ ∃ xn ∈ elements, Fails subscript (.elements [xn]))) :
    Fails (predicateAction constant subscript) (.elements elements) := by
  intro h left live at_
  let first := h.alloc (.elements [])
  have beyond : first.next = h.next + 1 := rfl
  have inside := h.lt_next live
  have liveLeft : 0 < first.users left := alloc_live live _
  have liveResult : 0 < first.users h.next := alloc_self_live _
  have atLeft : first.contents left = .elements elements := (alloc_contents live _).trans at_
  refine Loses.after (show resultNew _ h = .ok (h.next, first) from rfl) ?_
  refine Loses.lower ?_ (show h.next ≤ first.next by omega)
  refine Loses.after (read_run liveLeft) ?_
  rw [atLeft]
  have held : ∀ r ∈ [left, h.next], r < first.next := by
    intro r member
    simp only [List.mem_cons, List.not_mem_nil, or_false] at member
    omega
  cases elements with
  | nil => exact absurd rfl some_
  | cons xn rest =>
    dsimp only
    rcases unsound with ⟨fault, rfl⟩ | ⟨rfl, fails⟩ | ⟨rfl, each, fails⟩
    · exact loses_fault (bind_fault (lift_stops rfl))
    · refine Loses.after (lift_run rfl) ?_
      rw [if_pos rfl]
      rcases fails with fails | ⟨makes, true_⟩
      · refine Loses.bind [left, h.next] (fails first left liveLeft atLeft) held fun right => ?_
        cases right with
        | none =>
          exact Confined.bind (confined_free (by simp)) fun _ => Confined.pure (List.nil_subset _)
        | some right =>
          refine Confined.bind confined_read fun contents => ?_
          unfold applyConstant
          split
          · exact Confined.bind (confined_free (by simp)) fun _ => Confined.pure (by simp)
          · refine Confined.bind (confined_lift fun _ => rfl) fun found => ?_
            refine Confined.bind confined_write fun _ => ?_
            exact Confined.bind (confined_free (by simp)) fun _ => Confined.pure (by simp)
      · obtain ⟨right, second, value, ran, evaluated, gives⟩ := makes first left liveLeft atLeft
        cases true_.symm.trans evaluated
        cases right with
        | none => exact gives.elim
        | some r =>
          obtain ⟨moves, given⟩ := gives
          have apart : r ≠ left := by
            rintro rfl
            have kept := (moves.kept r (first.lt_next liveLeft)).trans atLeft
            cases given.symm.trans kept
          have beyond' : first.next ≤ r := by
            obtain ⟨-, -, own⟩ := operates left first (some r) second ran
            exact (own r (by simp)).resolve_left (by simpa using apart)
          have liveRight : 0 < second.users r := moves.came_live (by simp)
          refine Loses.after ran (Loses.after (read_run liveRight) ?_)
          rw [given]
          refine Loses.after (free_run (moves.still_live liveResult)) ?_
          rintro _ _ ⟨⟩
          refine ⟨r, beyond', ?_, by simpa using apart⟩
          rwa [show (second.setUsers h.next _ _).users r = second.users r from if_neg (by omega)]
    · refine Loses.after (lift_run rfl) ?_
      rw [if_neg (by simp)]
      exact Loses.bind [left, h.next]
        (each_loses operates each fails liveResult (alloc_self _)) held fun _ => Confined.pure (by simp)

end Predicates

/-- A cast to integers that meets a missing text does not end; one of what is true loses the result
that it has begun. -/
theorem cast_loses (live : 0 < h.users left) (unfit : ¬ (h.contents left).Numeric) :
    Loses h.next (expressionCast (.of .integer) left) (fun value => [value.2]) h := by
  have inside := h.lt_next live
  refine Loses.after (read_run live) ?_
  have other : ResultType.integer ≠ (h.contents left).type := by
    intro same
    cases at_ : h.contents left <;> rw [at_] at same unfit <;> first | exact unfit trivial | cases same
  rw [if_neg other]
  dsimp only
  refine Loses.after (show resultNew _ h = .ok (h.next, h.alloc (.integers [])) from rfl) ?_
  cases at_ : h.contents left with
  | integers _ => exact absurd (at_ ▸ rfl) other
  | strings _ => exact absurd (at_ ▸ trivial) unfit
  | boolean truth =>
    cases truth with
    | false => exact absurd (at_ ▸ rfl) unfit
    | true =>
      rintro _ _ ⟨⟩
      refine ⟨h.next, le_rfl, alloc_self_live _, ?_⟩
      rw [List.mem_singleton]
      omega
  | elements values =>
    have missing : none ∈ values.map fun element => element.node.cdata := by
      rw [at_] at unfit
      simpa [Contents.Numeric] using unfit
    obtain ⟨fault, stopped⟩ := parse_missing missing
    exact loses_fault (bind_fault (lift_stops stopped))

theorem numeric_cast (numeric : contents.Numeric) :
    ∃ values, cast (.of .integer) contents = .ok (some (.integers values)) := by
  by_cases type : ResultType.integer = contents.type
  · cases contents <;> first | exact ⟨_, rfl⟩ | cases type
  · obtain ⟨texts, values, found, parsed⟩ := numeric_parse numeric (Ne.symm type)
    exact ⟨values, by simp [cast, type, found, parsed, Except.map]⟩

theorem operand_loses (live : 0 < h.users left) (unfit : ¬ (h.contents left).Numeric) :
    Loses h.next (operandCast (.of .integer) (some left)) (fun value => value.2.toList) h :=
  Loses.bind [] (cast_loses live unfit) (by simp) fun _ => Confined.pure (by simp)

theorem finish_first {right : Option ResultRef} (live : 0 < h.users left)
    (below : ∀ r ∈ right.toList, r < h.next) (integer : op.intype = .of .integer)
    (unfit : ¬ (h.contents left).Numeric) : Loses h.next (finishBinary op (some left) right) Option.toList h := by
  have both : Loses h.next (castBoth op.intype (some left) right)
      (fun value => value.2.1.toList ++ value.2.2.toList) h := by
    rw [integer]
    refine Loses.bind (right.toList) (operand_loses live unfit) below fun value => ?_
    obtain ⟨fine, left'⟩ := value
    exact confined_castRight (by simp +contextual) (by simp +contextual)
  exact Loses.bind [] both (by simp) fun value => confined_combineFree op

theorem finish_second (moves : Moves start.next start 0 ({left} + {right}) h)
    (integer : op.intype = .of .integer) (numeric : (h.contents left).Numeric) (unfit : ¬ (h.contents right).Numeric) :
    Loses start.next (finishBinary op (some left) (some right)) Option.toList h := by
  obtain ⟨values, converted⟩ := numeric_cast numeric
  obtain ⟨fine, left', first, value, ran, cast_, moves₁, kept, isSome, -⟩ := held_cast op.intype moves fun _ => numeric
  rw [integer] at cast_
  cases converted.symm.trans cast_
  subst isSome
  have liveRight : 0 < h.users right := moves.came_live (by simp)
  have liveLeft : 0 < first.users left' := moves₁.came_live (by simp)
  have both : Loses first.next (castBoth op.intype (some left) (some right))
      (fun value => value.2.1.toList ++ value.2.2.toList) h := by
    refine Loses.after (operandCast_run ran) ?_
    have here : Loses first.next (operandCast op.intype (some right)) (fun value => value.2.toList) first := by
      rw [integer]
      refine operand_loses (moves₁.came_live (by simp)) ?_
      rwa [kept right liveRight]
    refine Loses.bind [left'] here ?_ fun value => Confined.pure (by simp)
    intro r member
    rw [List.mem_singleton.mp member]
    exact first.lt_next liveLeft
  exact (Loses.bind [] both (by simp) fun value => confined_combineFree op).lower moves₁.grown

theorem finish_trapped (moves : Moves start.next start 0 ({left} + {right}) h)
    (numeric : (h.contents left).Numeric) (numeric' : (h.contents right).Numeric)
    (cast_ : cast (.of .integer) (h.contents left) = .ok (some (.integers lefts)))
    (cast_' : cast (.of .integer) (h.contents right) = .ok (some (.integers rights)))
    (trapped : ¬ oper.Untrapped lefts rights) :
    Loses start.next (finishBinary (.arith oper) (some left) (some right)) Option.toList h := by
  have liveRight : 0 < h.users right := moves.came_live (by simp)
  obtain ⟨fine, left', first, value, ran, same, moves₁, kept, isSome, at_⟩ :=
    held_cast (.of .integer) moves fun _ => numeric
  cases cast_.symm.trans same
  subst isSome
  have liveLeft : 0 < first.users left' := moves₁.came_live (by simp)
  rw [add_comm] at moves₁
  obtain ⟨fine', right', second, value', ran', same', moves₂, kept', isSome, at_'⟩ :=
    held_cast (.of .integer) moves₁ fun _ => by rwa [kept right liveRight]
  rw [kept right liveRight] at same'
  cases cast_'.symm.trans same'
  subst isSome
  have liveLeft' : 0 < second.users left' := moves₂.came_live (by simp)
  have liveRight' : 0 < second.users right' := moves₂.came_live (by simp)
  have stopped : ∃ fault, (Operator.arith oper).evaluate (second.contents left')
      (second.contents right') = .error fault := by
    rw [kept' left' liveLeft, at_ _ rfl, at_' _ rfl]
    cases result : arithPairs oper (pairsOf lefts rights) with
    | ok values => exact absurd (untrapped_iff.mp ⟨values, result⟩) trapped
    | error fault => exact ⟨fault, by simp [Operator.evaluate, result, Except.map]⟩
  obtain ⟨fault, stopped⟩ := stopped
  have both : castBoth (.of .integer) (some left) (some right) h = .ok ((true, some left', some right'), second) := by
    rw [castBoth, bind_run (operandCast_run ran), castRight, if_pos (by rfl), bind_run (operandCast_run ran')]
    rfl
  have ended : combine (.arith oper) true (some left') (some right') second = .error fault := by
    change operatorEvaluate (.arith oper) left' right' second = _
    rw [operatorEvaluate, arithEvaluate, bind_run (show resultNew _ second = .ok (second.next, second.alloc _) from rfl),
      bind_run (read_run (alloc_live liveLeft' _)), bind_run (read_run (alloc_live liveRight' _)),
      alloc_contents liveLeft', alloc_contents liveRight']
    exact bind_fault (lift_stops stopped)
  exact Loses.after both (loses_fault (bind_fault ended))

theorem finish_loses {start first : Memory} {result result' : Option ResultRef}
    {value value' : Option Contents} (gives : Gives start.next start 0 result value first)
    (gives' : Gives first.next first 0 result' value' h)
    (unfit : ¬ ∀ operand, value = some operand → op.Fits operand value') :
    Loses start.next (finishBinary op result result') Option.toList h := by
  cases result with
  | none =>
    cases value with
    | some _ => exact gives.elim
    | none => exact absurd nofun unfit
  | some r =>
    cases value with
    | none => exact gives.elim
    | some operand =>
      obtain ⟨moves, given⟩ := gives
      have live : 0 < first.users r := moves.came_live (by simp)
      have live' : 0 < h.users r := gives'.still_live live
      have kept : h.contents r = operand := (gives'.kept r (first.lt_next live)).trans given
      have grown : start.next ≤ h.next := moves.grown.trans gives'.grown
      obtain ⟨oper, rfl, unfit'⟩ : ∃ oper, op = .arith oper ∧ ¬ (operand.Numeric ∧
          ∀ value, value' = some value → value.Numeric ∧
            ∀ lefts rights, cast (.of .integer) operand = .ok (some (.integers lefts)) →
              cast (.of .integer) value = .ok (some (.integers rights)) → oper.Untrapped lefts rights) := by
        by_contra fits
        refine unfit fun _ same oper arith => ?_
        cases same
        by_contra unfit
        exact fits ⟨oper, arith, unfit⟩
      by_cases numeric : operand.Numeric
      · cases value' with
        | none => exact absurd ⟨numeric, nofun⟩ unfit'
        | some operand' =>
          cases result' with
          | none => exact gives'.elim
          | some r' =>
            obtain ⟨moves', given'⟩ := gives'
            have both : Moves start.next start 0 ({r} + {r'}) h :=
              (moves.trans (moves'.lower moves.grown)).recount fun _ => by simp
            by_cases numeric' : operand'.Numeric
            · obtain ⟨lefts, rights, cast_, cast_', trapped⟩ : ∃ lefts rights,
                  cast (.of .integer) operand = .ok (some (.integers lefts)) ∧
                  cast (.of .integer) operand' = .ok (some (.integers rights)) ∧
                  ¬ oper.Untrapped lefts rights := by
                by_contra safe
                refine unfit' ⟨numeric, fun value same => ?_⟩
                cases same
                refine ⟨numeric', fun lefts rights cast_ cast_' => ?_⟩
                by_contra trapped
                exact safe ⟨lefts, rights, cast_, cast_', trapped⟩
              exact finish_trapped both (kept ▸ numeric) (given' ▸ numeric') (kept ▸ cast_) (given' ▸ cast_') trapped
            · exact finish_second both rfl (kept ▸ numeric) (given' ▸ numeric')
      · refine (finish_first live' ?_ rfl (kept ▸ numeric)).lower grown
        intro other member
        exact h.lt_next (gives'.result_live (Option.mem_toList.mp member))

/-- An evaluation that is not sound does not end, or loses a block. -/
theorem fails_eval (unsound : ¬ Sound enode elements) : Fails (expressionEval enode) (.elements elements) := by
  have decided (enode : Enode) (elements : List Element)
      (ih : ¬ Sound enode elements → Fails (expressionEval enode) (.elements elements)) :
      Makes (expressionEval enode) (.elements elements) (eval enode elements) ∨
        Fails (expressionEval enode) (.elements elements) := by
    by_cases sound : Sound enode elements
    · exact .inl (makes_eval sound)
    · exact .inr (ih sound)
  induction enode generalizing elements with
  | node => exact absurd trivial unsound
  | stringconst identifier => exact absurd trivial unsound
  | intconst integer => exact absurd trivial unsound
  | noOperator => exact fun h left live at_ => loses_fault rfl
  | call func => exact absurd trivial unsound
  | callOn func left ih => exact fails_left (operates_func func) (ih unsound)
  | step axis identifier left ih =>
    by_cases here : Sound left elements
    · obtain ⟨reached, found, unnamed⟩ : ∃ reached,
          eval left elements = .ok (some (.elements reached)) ∧ ¬ axis.Named identifier reached := by
        by_contra none_
        refine unsound ⟨here, fun reached found => ?_⟩
        by_contra unnamed
        exact none_ ⟨reached, found, unnamed⟩
      exact fails_after (makes_eval here) found (fails_apply rfl (fails_axis unnamed))
    · exact fails_left (operates_axis axis identifier) (ih here)
  | predicate left right ih ih' =>
    by_cases here : Sound left elements
    · obtain ⟨reached, found, some_, unsound'⟩ : ∃ reached,
          eval left elements = .ok (some (.elements reached)) ∧ reached ≠ [] ∧
            ¬ ((right.constant = .ok true ∧ Sound right reached ∧ eval right reached ≠ .ok (some (.boolean true))) ∨
              (right.constant = .ok false ∧ ∀ xn ∈ reached, Sound right [xn])) := by
        by_contra none_
        refine unsound ⟨here, fun reached found some_ => ?_⟩
        by_contra unsound'
        exact none_ ⟨reached, found, some_, unsound'⟩
      refine fails_after (makes_eval here) found (fails_apply rfl (fails_predicate (eval right)
        (operates_eval right) some_ ?_))
      obtain ⟨notConstant, notEach⟩ := not_or.mp unsound'
      match constant : right.constant with
      | .error fault => exact .inl ⟨fault, rfl⟩
      | .ok true =>
        refine .inr (.inl ⟨rfl, ?_⟩)
        rcases decided right reached ih' with makes | fails
        · by_cases sound : Sound right reached
          · refine .inr ⟨makes, ?_⟩
            by_contra untrue
            exact notConstant ⟨constant, sound, untrue⟩
          · exact .inl (ih' sound)
        · exact .inl fails
      | .ok false =>
        refine .inr (.inr ⟨rfl, fun xn _ => decided right [xn] ih', ?_⟩)
        by_contra none_
        refine notEach ⟨constant, fun xn member => ?_⟩
        by_contra unsound'
        exact none_ ⟨xn, member, ih' unsound'⟩
    · exact fails_left (operates_predicate (operates_eval right) _) (ih here)
  | binary op left right ih ih' =>
    intro h input live at_
    have inside := h.lt_next live
    by_cases here : Sound left elements
    · obtain ⟨result, first, value, ran, same, gives⟩ := makes_eval here h input live at_
      have live' : 0 < first.users input := gives.still_live live
      have at_' : first.contents input = .elements elements := (gives.kept input inside).trans at_
      by_cases there : Sound right elements
      · obtain ⟨result', second, value', ran', same', gives'⟩ := makes_eval there first input live' at_'
        have unfit : ¬ ∀ operand, value = some operand → op.Fits operand value' := by
          intro fits
          refine unsound ⟨here, there, fun operand operand' found found' => ?_⟩
          cases same.symm.trans found
          cases same'.symm.trans found'
          exact fits operand rfl
        exact Loses.after ran (Loses.after ran' (finish_loses gives gives' unfit))
      · refine Loses.after ran (Loses.lower
          (Loses.bind (result.toList) (ih' there first input live' at_') ?_ fun right =>
            confined_finishBinary op (by simp +contextual) (by simp +contextual)) gives.grown)
        intro r member
        exact first.lt_next (gives.result_live (Option.mem_toList.mp member))
    · refine Loses.bind [input] (ih here h input live at_) ?_ fun left => ?_
      · intro r member
        rwa [List.mem_singleton.mp member]
      · refine Confined.bind ((operates_eval right input).weaken (by simp) fun _ =>
          List.Subset.refl _) fun right => ?_
        exact confined_finishBinary op (by simp +contextual) (by simp +contextual)

end Loses

/-- The evaluation at an element ends with a result that has one user, or with none, and nothing
else is in use. -/
def Safe (enode : Enode) (xn : Element) : Prop :=
  ∃ result h, xpathExpressionEval enode xn (Heap.empty (.elements [])) = .ok (result, h) ∧
    ∀ r, h.users r = if result = some r then 1 else 0

/-- An evaluation is safe if and only if it is sound. -/
theorem safe_iff (enode : Enode) (xn : Element) : Safe enode xn ↔ Sound enode [xn] := by
  let start : Memory := Heap.empty (.elements [])
  let first := start.alloc (.elements [xn])
  have live : 0 < first.users 0 := alloc_self_live (h := start) _
  have at_ : first.contents 0 = .elements [xn] := alloc_self (h := start) _
  have begins : Moves 0 start 0 {0} first := Moves.alloc 0 start _ le_rfl
  constructor
  · rintro ⟨result, h, ran, users⟩
    by_contra unsound
    have loses : Loses first.next (xpathExpressionEval enode xn) Option.toList start := by
      refine Loses.after (show resultNew _ start = .ok (0, first) from rfl) ?_
      refine Loses.bind [0] (fails_eval unsound first 0 live at_) ?_ fun result => ?_
      · intro r member
        rw [List.mem_singleton.mp member]
        exact first.lt_next live
      · exact Confined.bind (confined_free (by simp)) fun _ => Confined.pure (by simp)
    obtain ⟨r, -, inUse, other⟩ := loses result h ran
    rw [users r] at inUse
    split_ifs at inUse with same
    · exact other (Option.mem_toList.mpr same)
    · omega
  · intro sound
    obtain ⟨result, second, value, ran, -, gives⟩ := makes_eval sound first 0 live at_
    have live' : 0 < second.users 0 := gives.still_live live
    let final := second.setUsers 0 (second.users 0 - 1) live'
    have all : Gives 0 start 0 result value final :=
      Gives.after begins (gives_free gives live') (Nat.zero_le _) fun _ => by simp
    refine ⟨result, final, ?_, fun r => ?_⟩
    · rw [xpathExpressionEval, bind_run (show resultNew _ start = .ok (0, first) from rfl),
        bind_run ran, bind_run (free_run live')]
      rfl
    · cases result with
      | none =>
        cases value with
        | some _ => exact all.elim
        | none =>
          have moves : Moves 0 start 0 0 final := all
          simpa [start, Heap.empty] using moves.balance r
      | some q =>
        cases value with
        | none => exact all.elim
        | some contents =>
          simpa [start, Heap.empty, Multiset.count_singleton, eq_comm] using all.1.balance r

/-- The name of the unnamed root is compared. -/
theorem safe_unnamed : ¬ ∀ expr enode (xn : Element),
    xpathExpressionParse expr = .ok enode → Safe enode xn := by
  intro safe
  have parsed : xpathExpressionParse (ascii "self::a".toList) =
      .ok (.step .self (some (ascii ['a'])) .node) := by decide
  obtain ⟨result, h, ran, -⟩ := safe _ _ ⟨[], .mk none [] none [] none⟩ parsed
  have stopped : xpathExpressionEval (.step .self (some (ascii ['a'])) .node)
      ⟨[], .mk none [] none [] none⟩ (Heap.empty (.elements [])) = .error .nullName := rfl
  cases stopped.symm.trans ran

end Testbus.Xpath
