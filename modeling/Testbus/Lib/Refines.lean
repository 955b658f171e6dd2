import Testbus.Lib.Machine

/-! Machines that answer, next to a specification of what they should answer and hold. -/

namespace Lib.Machine

variable {State Abstract Input Output Fault : Type}

/-- No input faults, each is answered as the specification says, and the states it leads to hold
what the specification says. -/
def Refines (step : State → Input → Except Fault (Output × State))
    (spec : Abstract → Input → Output × Abstract) (Rel : Abstract → State → Prop)
    (abstract : Abstract) (state : State) : List Input → Prop
  | [] => True
  | input :: rest => ∃ next, step state input = .ok ((spec abstract input).1, next) ∧
      Rel (spec abstract input).2 next ∧ Refines step spec Rel (spec abstract input).2 next rest

/-- Every input meets `guard` in the states that the machine and the specification are in then. -/
def Guarded (step : State → Input → Except Fault (Output × State))
    (spec : Abstract → Input → Output × Abstract) (guard : Abstract → State → Input → Prop)
    (abstract : Abstract) (state : State) : List Input → Prop
  | [] => True
  | input :: rest => guard abstract state input ∧ ∀ output next,
      step state input = .ok (output, next) →
        Guarded step spec guard (spec abstract input).2 next rest

/-- Every input meets `guard` in the state that the specification is in then. -/
def Meets (spec : Abstract → Input → Output × Abstract) (guard : Abstract → Input → Prop)
    (abstract : Abstract) : List Input → Prop
  | [] => True
  | input :: rest => guard abstract input ∧ Meets spec guard (spec abstract input).2 rest

variable {step : State → Input → Except Fault (Output × State)} {Inv Rel : Abstract → State → Prop}
  {guard : Abstract → State → Input → Prop}

theorem meets_of_forall {guard : Abstract → Input → Prop} (always : ∀ abstract input, guard abstract input) :
    Meets spec guard abstract inputs := by
  induction inputs generalizing abstract with
  | nil => trivial
  | cons input rest ih => exact ⟨always abstract input, ih⟩

/-- A machine whose guarded steps are as specified and keep an invariant, and whose other steps
are not as specified, takes whole runs as specified exactly if they are guarded. -/
theorem refines_iff (weaker : ∀ abstract state, Inv abstract state → Rel abstract state)
    (kept : ∀ abstract state input, Inv abstract state → guard abstract state input →
      ∃ next, step state input = .ok ((spec abstract input).1, next) ∧ Inv (spec abstract input).2 next)
    (forced : ∀ abstract state input next, Inv abstract state → step state input = .ok ((spec abstract input).1, next) →
      Rel (spec abstract input).2 next → guard abstract state input)
    (initial : Inv abstract state) (inputs : List Input) :
    Refines step spec Rel abstract state inputs ↔
      Guarded step spec guard abstract state inputs := by
  induction inputs generalizing abstract state with
  | nil => rfl
  | cons input rest ih =>
    constructor
    · rintro ⟨next, moved, related, later⟩
      have here := forced abstract state input next initial moved related
      refine ⟨here, fun output other moved' => ?_⟩
      obtain ⟨good, moved'', invariant⟩ := kept abstract state input initial here
      obtain ⟨-, rfl⟩ := Prod.mk.inj (Except.ok.inj (moved.symm.trans moved'))
      obtain ⟨-, rfl⟩ := Prod.mk.inj (Except.ok.inj (moved.symm.trans moved''))
      exact (ih invariant).mp later
    · rintro ⟨guarded, later⟩
      obtain ⟨next, moved, invariant⟩ := kept abstract state input initial guarded
      exact ⟨next, moved, weaker _ _ invariant, (ih invariant).mpr (later _ _ moved)⟩

/-- A guard that does not look at the state of the machine. -/
theorem guarded_iff_meets {guard : Abstract → Input → Prop}
    (kept : ∀ abstract state input, Inv abstract state → guard abstract input →
      ∃ next, step state input = .ok ((spec abstract input).1, next) ∧ Inv (spec abstract input).2 next) {state : State} (initial : Inv abstract state) (inputs : List Input) :
    Guarded step spec (fun abstract _ input => guard abstract input) abstract state inputs ↔
      Meets spec guard abstract inputs := by
  induction inputs generalizing abstract state with
  | nil => rfl
  | cons input rest ih =>
    refine and_congr_right fun here => ?_
    obtain ⟨next, moved, invariant⟩ := kept abstract state input initial here
    constructor
    · intro later
      exact (ih invariant).mp (later _ _ moved)
    · intro later output other moved'
      obtain ⟨-, rfl⟩ := Prod.mk.inj (Except.ok.inj (moved.symm.trans moved'))
      exact (ih invariant).mpr later

end Lib.Machine
