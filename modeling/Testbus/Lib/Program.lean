import Testbus.Lib.Machine

/-! Programs over a set of operations, what a handler of the operations makes of them, and
handlers that cannot be told apart. -/

namespace Lib

/-- A program either is done with a value or calls an operation and goes on with the answer. -/
inductive Program (Op : Type) (Answer : Op → Type) (α : Type) : Type
  | ret (value : α)
  | call (op : Op) (next : Answer op → Program Op Answer α)

namespace Program

variable {Op : Type} {Answer : Op → Type} {α β σ τ Fault : Type}

def bind (program : Program Op Answer α) (rest : α → Program Op Answer β) : Program Op Answer β :=
  match program with
  | ret value => rest value
  | call op next => call op fun answer => (next answer).bind rest

instance : Monad (Program Op Answer) where
  pure := ret
  bind := bind

/-- Call one operation. -/
def perform (op : Op) : Program Op Answer (Answer op) := call op ret

abbrev Handler (Op : Type) (Answer : Op → Type) (Fault σ : Type) : Type :=
  (op : Op) → σ → Except Fault (Answer op × σ)

def run (handle : Handler Op Answer Fault σ) : Program Op Answer α → σ → Except Fault (α × σ)
  | ret value, s => .ok (value, s)
  | call op next, s => handle op s >>= fun answered => run handle (next answered.1) answered.2

variable {handle : Handler Op Answer Fault σ}

@[simp] theorem run_bind (program : Program Op Answer α) (rest : α → Program Op Answer β) (s : σ) :
    run handle (program >>= rest) s = run handle program s >>= fun done => run handle (rest done.1) done.2 := by
  induction program generalizing s with
  | ret value => rfl
  | call op next ih =>
    simp only [Bind.bind, bind, run]
    cases handle op s with
    | error fault => rfl
    | ok answered => exact ih answered.1 answered.2

@[simp] theorem run_perform (op : Op) (s : σ) : run handle (perform op) s = handle op s := by
  simp only [perform, run]
  cases handle op s <;> rfl

/-- The run of a program ends with what is wanted of it or with a fault that is allowed. -/
def Ensures (handle : Handler Op Answer Fault σ) (allowed : Fault → Prop)
    (program : Program Op Answer α) (s : σ) (post : α → σ → Prop) : Prop :=
  match run handle program s with
  | .ok (value, s') => post value s'
  | .error fault => allowed fault

@[simp] theorem ensures_pure : Ensures handle allowed (pure value) s post ↔ post value s := Iff.rfl

theorem ensures_bind {rest : α → Program Op Answer β} :
    Ensures handle allowed (program >>= rest) s post ↔
      Ensures handle allowed program s fun value s' =>
        Ensures handle allowed (rest value) s' post := by
  unfold Ensures
  rw [run_bind]
  cases run handle program s <;> rfl

theorem ensures_perform :
    Ensures handle allowed (perform op) s post ↔
      match handle op s with
      | .ok (value, s') => post value s'
      | .error fault => allowed fault := by
  unfold Ensures
  rw [run_perform]
  cases handle op s <;> rfl

theorem Ensures.weaken (ensures : Ensures handle allowed program s post)
    (implies : ∀ value s', post value s' → weaker value s') :
    Ensures handle allowed program s weaker := by
  unfold Ensures at *
  cases ran : run handle program s with
  | error fault => simpa [ran] using ensures
  | ok done =>
    rw [ran] at ensures
    exact implies _ _ ensures

theorem Ensures.then {rest : α → Program Op Answer β} {after : β → σ → Prop}
    (ensures : Ensures handle allowed program s post)
    (later : ∀ value s', post value s' → Ensures handle allowed (rest value) s' after) :
    Ensures handle allowed (program >>= rest) s after := ensures_bind.mpr (ensures.weaken later)

theorem Ensures.ok (ensures : Ensures handle allowed program s post) (ran : run handle program s = .ok (value, s')) : post value s' := by
  unfold Ensures at ensures
  rwa [ran] at ensures

theorem Ensures.ends (ensures : Ensures handle (fun _ => False) program s post) :
    ∃ value s', run handle program s = .ok (value, s') ∧ post value s' := by
  rw [Ensures] at ensures
  cases ran : run handle program s with
  | ok done =>
    rw [ran] at ensures
    exact ⟨done.1, done.2, rfl, ensures⟩
  | error fault =>
    rw [ran] at ensures
    exact ensures.elim

theorem Ensures.error (ensures : Ensures handle allowed program s post) (stopped : run handle program s = .error fault) : allowed fault := by
  unfold Ensures at ensures
  rwa [stopped] at ensures

/-- In every call the second handler answers as the first one does, and faults as it does where the
fault has an image. -/
structure Simulates {Fault' : Type} (handle : Handler Op Answer Fault σ)
    (handle' : Handler Op Answer Fault' τ) (related : σ → τ → Prop)
    (image : Fault → Option Fault') : Prop where
  answer : ∀ op s t answer s', related s t → handle op s = .ok (answer, s') →
    ∃ t', handle' op t = .ok (answer, t') ∧ related s' t'
  fault : ∀ op s t fault fault', related s t → handle op s = .error fault →
    image fault = some fault' → handle' op t = .error fault'

section Simulates

variable {image : Fault → Option Fault'}

theorem Simulates.ok (simulates : Simulates handle handle' related image)
    (program : Program Op Answer α) (start : related s t) (ran : run handle program s = .ok (value, s')) :
    ∃ t', run handle' program t = .ok (value, t') ∧ related s' t' := by
  induction program generalizing s t with
  | ret other =>
    cases ran
    exact ⟨t, rfl, start⟩
  | call op next ih =>
    obtain ⟨⟨answer, middle⟩, answered, later⟩ := bind_ok.mp ran
    obtain ⟨t', same, kept⟩ := simulates.answer op s t answer middle start answered
    obtain ⟨t'', after, final⟩ := ih answer kept later
    refine ⟨t'', ?_, final⟩
    rw [run, same]
    exact after

theorem Simulates.error (simulates : Simulates handle handle' related image)
    (program : Program Op Answer α) {fault : Fault} (start : related s t)
    (stopped : run handle program s = .error fault) (matched : image fault = some fault') :
    run handle' program t = .error fault' := by
  induction program generalizing s t with
  | ret other => cases stopped
  | call op next ih =>
    rcases bind_error.mp stopped with here | ⟨⟨answer, middle⟩, answered, later⟩
    · rw [run, simulates.fault op s t fault fault' start here matched]
      rfl
    · obtain ⟨t', same, kept⟩ := simulates.answer op s t answer middle start answered
      rw [run, same]
      exact ih answer kept later

/-- A simulation through a handler in between. -/
theorem Simulates.trans (first : Simulates handle handle' related image) (second : Simulates handle' handle'' related' image') :
    Simulates handle handle'' (fun s u => ∃ t, related s t ∧ related' t u) fun fault => (image fault).bind image' where
  answer op s u answer s' := by
    rintro ⟨t, here, there⟩ answered
    obtain ⟨t', answered', here'⟩ := first.answer op s t answer s' here answered
    obtain ⟨u', answered'', there'⟩ := second.answer op t u answer t' there answered'
    exact ⟨u', answered'', t', here', there'⟩
  fault op s u fault fault'' := by
    rintro ⟨t, here, there⟩ stopped matched
    obtain ⟨fault', matched', matched''⟩ := Option.bind_eq_some_iff.mp matched
    exact second.fault op t u fault' fault'' there (first.fault op s t fault fault' here stopped matched') matched''

end Simulates

end Program

end Lib
