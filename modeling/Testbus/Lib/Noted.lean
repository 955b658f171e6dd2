import Testbus.Lib.Machine

/-! Programs that note what they come to, and what can be told of a run from its notes. -/

namespace Lib

/-- A program that reads `ρ`, changes `σ`, notes steps `τ` and may stop with a fault `ε`. -/
def Noted (ρ σ τ ε α : Type) : Type := ρ → σ → List τ × Except ε (α × σ)

namespace Noted

def bind (program : Noted ρ σ τ ε α) (rest : α → Noted ρ σ τ ε β) : Noted ρ σ τ ε β :=
  fun reads s =>
    match program reads s with
    | (notes, .error fault) => (notes, .error fault)
    | (notes, .ok (value, s')) =>
      (notes ++ (rest value reads s').1, (rest value reads s').2)

instance : Monad (Noted ρ σ τ ε) where
  pure value := fun _ s => ([], .ok (value, s))
  bind := bind

def note (step : τ) : Noted ρ σ τ ε Unit := fun _ s => ([step], .ok ((), s))

def stop (fault : ε) : Noted ρ σ τ ε α := fun _ _ => ([], .error fault)

def ask : Noted ρ σ τ ε ρ := fun reads s => ([], .ok (reads, s))

def get : Noted ρ σ τ ε σ := fun _ s => ([], .ok (s, s))

def modify (change : σ → σ) : Noted ρ σ τ ε Unit := fun _ s => ([], .ok ((), change s))

/-- A program in other surroundings, from and back to a state of another kind. -/
def inside (reads : ρ → σ → ρ) (enter : σ → σ) (leave : σ → σ → σ) (program : Noted ρ σ τ ε α) :
    Noted ρ σ τ ε α := fun around s =>
  match program (reads around s) (enter s) with
  | (notes, .error fault) => (notes, .error fault)
  | (notes, .ok (value, s')) => (notes, .ok (value, leave s s'))

/-- The run ends with a value. -/
def Ends (result : List τ × Except ε (α × σ)) : Prop := ∃ value s, result.2 = .ok (value, s)

section Exact

variable {fine : τ → Prop} {reads : ρ}

variable (fine) in
/-- The run ends if it takes nothing but fine steps, and only then. -/
def Exact (program : Noted ρ σ τ ε α) (reads : ρ) (s : σ) : Prop :=
  Ends (program reads s) ↔ ∀ step ∈ (program reads s).1, fine step

theorem exact_pure (value : α) : Exact fine (pure value : Noted ρ σ τ ε α) reads s := iff_of_true ⟨value, s, rfl⟩ nofun

theorem exact_get : Exact fine (get : Noted ρ σ τ ε σ) reads s := iff_of_true ⟨s, s, rfl⟩ nofun

theorem exact_modify (change : σ → σ) : Exact fine (modify change : Noted ρ σ τ ε Unit) reads s :=
  iff_of_true ⟨(), change s, rfl⟩ nofun

theorem Exact.bind (first : Exact fine program reads s)
    (later : ∀ value s', Exact fine (rest value) reads s') : Exact fine (program >>= rest) reads s := by
  show Ends (Noted.bind program rest reads s) ↔ ∀ step ∈ (Noted.bind program rest reads s).1, _
  unfold Noted.bind
  unfold Exact at first
  cases ran : program reads s with
  | mk notes result =>
    rw [ran] at first
    cases result with
    | error fault => exact (iff_of_false nofun nofun).trans first
    | ok done =>
      obtain ⟨value, s'⟩ := done
      have begun : ∀ step ∈ notes, fine step := first.mp ⟨value, s', rfl⟩
      rw [List.forall_mem_append]
      exact (later value s').trans (and_iff_right begun).symm

/-- A step is noted, and the program goes on as it should where the step is fine and stops
otherwise. -/
theorem exact_noted (fine_ : fine step → Exact fine program reads s)
    (stops : ¬ fine step → ¬ Ends (program reads s)) : Exact fine (note step >>= fun _ => program) reads s := by
  show Ends ([step] ++ (program reads s).1, (program reads s).2) ↔ ∀ other ∈ [step] ++ (program reads s).1, fine other
  rw [List.singleton_append, List.forall_mem_cons]
  by_cases good : fine step
  · exact (fine_ good).trans (and_iff_right good).symm
  · exact iff_of_false (stops good) fun both => good both.1

theorem Exact.inside (exact_ : Exact fine program (around reads s) (enter s)) :
    Exact fine (inside around enter leave program) reads s := by
  unfold Exact Noted.inside
  unfold Exact at exact_
  cases ran : program (around reads s) (enter s) with
  | mk notes result =>
    rw [ran] at exact_
    cases result with
    | error fault => exact (iff_of_false nofun nofun).trans exact_
    | ok done => exact (iff_of_true ⟨_, _, rfl⟩ ⟨_, _, rfl⟩).trans exact_

end Exact

section Keeps

variable {program : Noted ρ σ τ ε α} {reads : ρ}

/-- If the steps of a run are fine, it ends, if it does, with what is wanted of it. -/
def Keeps (fine : τ → Prop) (program : Noted ρ σ τ ε α) (reads : ρ) (s : σ)
    (post : α → σ → Prop) : Prop :=
  (∀ step ∈ (program reads s).1, fine step) →
    ∀ value s', (program reads s).2 = .ok (value, s') → post value s'

theorem keeps_pure (holds : post value s) : Keeps fine (pure value : Noted ρ σ τ ε α) reads s post := by
  rintro - value s' ⟨⟩
  exact holds

theorem keeps_modify {change : σ → σ} (holds : post () (change s)) :
    Keeps fine (modify change : Noted ρ σ τ ε Unit) reads s post := by
  rintro - value s' ⟨⟩
  exact holds

theorem Keeps.bind (first : Keeps fine program reads s post)
    (later : ∀ value s', post value s' → Keeps fine (rest value) reads s' after) :
    Keeps fine (program >>= rest) reads s after := by
  intro steps final s' done
  change ∀ step ∈ (Noted.bind program rest reads s).1, fine step at steps
  change (Noted.bind program rest reads s).2 = .ok (final, s') at done
  unfold Keeps at first
  unfold Noted.bind at steps done
  cases ran : program reads s with
  | mk notes result =>
    rw [ran] at first steps done
    cases result with
    | error fault => cases done
    | ok middle =>
      obtain ⟨value, s''⟩ := middle
      obtain ⟨begun, more⟩ := List.forall_mem_append.mp steps
      exact later value s'' (first begun value s'' rfl) more final s' done

theorem Keeps.weaken (keeps : Keeps fine program reads s post) (implies : ∀ value s', post value s' → weaker value s') :
    Keeps fine program reads s weaker := fun steps value s' done => implies value s' (keeps steps value s' done)

theorem Keeps.inside (keeps : Keeps fine program (around reads s) (enter s) fun value s' => post value (leave s s')) :
    Keeps fine (inside around enter leave program) reads s post := by
  intro steps value s' done
  unfold Noted.inside at steps done
  unfold Keeps at keeps
  cases ran : program (around reads s) (enter s) with
  | mk notes result =>
    rw [ran] at keeps steps done
    cases result with
    | error fault => cases done
    | ok final =>
      cases done
      exact keeps steps _ _ rfl

end Keeps

end Noted

end Lib
