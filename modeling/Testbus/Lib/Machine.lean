import Mathlib

/-! Deterministic machines with faults: a step consumes one input and either
moves to a state or stops the run with a fault. -/

namespace Lib

variable {first : Except ε α}

theorem bind_ok : (first >>= next) = .ok result ↔ ∃ value, first = .ok value ∧ next value = .ok result := by
  cases first <;> simp [bind, Except.bind]

theorem bind_error :
    (first >>= next) = .error fault ↔ first = .error fault ∨ ∃ value, first = .ok value ∧ next value = .error fault := by
  cases first <;> simp [bind, Except.bind]

theorem map_ok : first.map f = .ok result ↔ ∃ value, first = .ok value ∧ f value = result := by
  cases first <;> simp [Except.map]

namespace Machine

variable {State Input Fault : Type}

/-- The fault of an input that is not possible in a state. -/
inductive Disabled
  | disabled
  deriving DecidableEq

/-- Feed the inputs one by one; the first fault ends the run. -/
def run (step : State → Input → Except Fault State) (state : State) : List Input → Except Fault State
  | [] => .ok state
  | input :: rest => step state input >>= fun next => run step next rest

/-- Read a value off the last state of a run that was evaluated. -/
theorem run_view (step : State → Input → Except Fault State) (state : State)
    (inputs : List Input) (view : State → α) (value : α)
    (evaluated : (run step state inputs).toOption.map view = some value) :
    ∃ final, run step state inputs = .ok final ∧ view final = value := by
  cases ran : run step state inputs with
  | error fault => simp [ran, Except.toOption] at evaluated
  | ok final => exact ⟨final, rfl, by simpa [ran, Except.toOption] using evaluated⟩

/-- Every step of the run is taken from a state and an input that meet `guard`. -/
def Along (step : State → Input → Except Fault State) (guard : State → Input → Prop)
    (state : State) : List Input → Prop
  | [] => True
  | input :: rest => guard state input ∧
      ∀ next, step state input = .ok next → Along step guard next rest

variable {step : State → Input → Except Fault State} {guard : State → Input → Prop}

theorem run_append (state : State) (first second : List Input) :
    run step state (first ++ second) = run step state first >>= fun middle => run step middle second := by
  induction first generalizing state with
  | nil => rfl
  | cons input rest ih =>
    simp only [List.cons_append, run]
    cases step state input with
    | error fault => rfl
    | ok next => exact ih next

theorem along_true (state : State) (inputs : List Input) : Along step (fun _ _ => True) state inputs := by
  induction inputs generalizing state with
  | nil => trivial
  | cons input rest ih => exact ⟨trivial, fun next _ => ih next⟩

variable {other : State → Input → Prop} {state : State}

theorem Along.weaken (along : Along step guard state inputs)
    (weaker : ∀ state input, guard state input → other state input) :
    Along step other state inputs := by
  induction inputs generalizing state with
  | nil => trivial
  | cons input rest ih =>
    exact ⟨weaker state input along.1, fun next moved => ih (along.2 next moved)⟩

/-- Check the guard of every step of a run by evaluation. -/
def checkAlong (step : State → Input → Except Fault State) (check : State → Input → Bool)
    (state : State) : List Input → Bool
  | [] => true
  | input :: rest => check state input &&
      match step state input with
      | .ok next => checkAlong step check next rest
      | .error _ => true

theorem along_check (sound : ∀ state input, check state input = true → guard state input)
    (checked : checkAlong step check state inputs = true) :
    Along step guard state inputs := by
  induction inputs generalizing state with
  | nil => trivial
  | cons input rest ih =>
    obtain ⟨here, later⟩ := Bool.and_eq_true_iff.mp checked
    refine ⟨sound _ _ here, ?_⟩
    intro next moved
    rw [moved] at later
    exact ih later

/-- What every guarded step preserves holds in the last state of a guarded run. -/
theorem invariant_run (Inv : State → Prop)
    (preserved : ∀ state input next, Inv state → guard state input →
      step state input = .ok next → Inv next) (initial : Inv state)
    (along : Along step guard state inputs) (ran : run step state inputs = .ok final) :
    Inv final := by
  induction inputs generalizing state with
  | nil =>
    cases ran
    exact initial
  | cons input rest ih =>
    obtain ⟨next, moved, tail⟩ := bind_ok.mp ran
    exact ih (preserved _ _ _ initial along.1 moved) (along.2 next moved) tail

/-- Guards that agree on the states of an invariant, which guarded steps keep, guard the same
runs. -/
theorem along_congr_kept (Inv : State → Prop)
    (preserved : ∀ state input next, Inv state → guard state input → step state input = .ok next → Inv next)
    (same : ∀ state input, Inv state → (guard state input ↔ other state input)) (initial : Inv state) :
    Along step guard state inputs ↔ Along step other state inputs := by
  induction inputs generalizing state with
  | nil => rfl
  | cons input rest ih =>
    have here := same state input initial
    constructor
    · rintro ⟨guarded, later⟩
      refine ⟨here.mp guarded, fun next moved => ?_⟩
      exact (ih (preserved state input next initial guarded moved)).mp (later next moved)
    · rintro ⟨guarded, later⟩
      refine ⟨here.mpr guarded, fun next moved => ?_⟩
      exact (ih (preserved state input next initial (here.mpr guarded) moved)).mpr (later next moved)

/-- Guards that agree on the states of an invariant guard the same runs. -/
theorem along_congr (Inv : State → Prop)
    (preserved : ∀ state input next, Inv state → step state input = .ok next → Inv next)
    (same : ∀ state input, Inv state → (guard state input ↔ other state input)) (initial : Inv state) :
    Along step guard state inputs ↔ Along step other state inputs :=
  along_congr_kept Inv (fun state input next inv _ => preserved state input next inv) same initial

/-- What holds in every state of the run. -/
def Throughout (step : State → Input → Except Fault State) (P : State → Prop) (state : State)
    (inputs : List Input) : Prop :=
  ∀ early, early <+: inputs → ∀ middle, run step state early = .ok middle → P middle

theorem throughout_cons (moved : step state input = .ok next) :
    Throughout step P state (input :: rest) ↔ P state ∧ Throughout step P next rest := by
  constructor
  · intro all
    refine ⟨all [] List.nil_prefix state rfl, fun early before middle ran => ?_⟩
    refine all (input :: early) (List.cons_prefix_cons.mpr ⟨rfl, before⟩) middle ?_
    rw [run, moved]
    exact ran
  · rintro ⟨here, later⟩ early before middle ran
    cases early with
    | nil =>
      cases ran
      exact here
    | cons first early =>
      obtain ⟨rfl, ahead⟩ := List.cons_prefix_cons.mp before
      rw [run, moved] at ran
      exact later early ahead middle ran

/-- What a step keeps exactly if it meets the guard, holds throughout the guarded runs and no
others. -/
theorem throughout_iff (Inv P : State → Prop)
    (exact_ : ∀ state input next, Inv state → P state → step state input = .ok next →
      Inv next ∧ (P next ↔ guard state input)) (initial : Inv state) (holds : P state)
    (ran : run step state inputs = .ok final) : Throughout step P state inputs ↔ Along step guard state inputs := by
  induction inputs generalizing state with
  | nil =>
    refine iff_of_true (fun early before middle ran => ?_) trivial
    cases List.prefix_nil.mp before
    cases ran
    exact holds
  | cons input rest ih =>
    obtain ⟨next, moved, tail⟩ := bind_ok.mp ran
    obtain ⟨kept, here⟩ := exact_ state input next initial holds moved
    rw [throughout_cons moved]
    constructor
    · rintro ⟨_, later⟩
      have holds' := later [] List.nil_prefix next rfl
      refine ⟨here.mp holds', fun other moved' => ?_⟩
      obtain rfl := Except.ok.inj (moved.symm.trans moved')
      exact (ih kept holds' tail).mp later
    · rintro ⟨guarded, later⟩
      exact ⟨holds, (ih kept (here.mpr guarded) tail).mpr (later next moved)⟩

/-- A fault that no guarded step raises from an invariant state is raised by no
guarded run. -/
theorem fault_run (Inv : State → Prop) {Harmful : Fault → Prop}
    (preserved : ∀ state input next, Inv state → guard state input → step state input = .ok next → Inv next)
    (harmless : ∀ state input fault, Inv state → guard state input →
      step state input = .error fault → ¬ Harmful fault) {fault : Fault} (initial : Inv state)
    (along : Along step guard state inputs) (stopped : run step state inputs = .error fault) : ¬ Harmful fault := by
  induction inputs generalizing state with
  | nil => cases stopped
  | cons input rest ih =>
    rcases bind_error.mp stopped with here | ⟨next, moved, later⟩
    · exact harmless _ _ _ initial along.1 here
    · exact ih (preserved _ _ _ initial along.1 moved) (along.2 next moved) later

end Machine

end Lib
