import Testbus.Lib.Machine

/-! Iterators: a function that gives the next element, or nothing at the end, and the search for
the elements that pass a test. -/

namespace Lib

/-- From `cur` on, `next` gives exactly the elements of a list, in their order, and then ends. -/
def Visits (next : Option α → Except ε (Option α)) : Option α → List α → Prop
  | cur, [] => next cur = .ok none
  | cur, a :: rest => next cur = .ok (some a) ∧ Visits next (some a) rest

/-- Goes on until an element passes the test, for at most some number of rounds. -/
def search (next : Option α → Except ε (Option α)) (test : α → Except ε Bool) (exhausted : ε) :
    Nat → Option α → Except ε (Option α)
  | 0, _ => .error exhausted
  | rounds + 1, cur => do
    match ← next cur with
    | none => .ok none
    | some a => if ← test a then .ok (some a) else search next test exhausted rounds (some a)

section Search

variable {next : Option α → Except ε (Option α)} {list other : List α}

theorem search_end (step : next cur = .ok none) :
    search next test exhausted (rounds + 1) cur = .ok none := bind_ok.mpr ⟨none, step, rfl⟩

theorem search_pass (step : next cur = .ok (some a)) (passed : test a = .ok true) :
    search next test exhausted (rounds + 1) cur = .ok (some a) :=
  bind_ok.mpr ⟨some a, step, bind_ok.mpr ⟨true, passed, rfl⟩⟩

theorem search_skip (step : next cur = .ok (some a)) (failed : test a = .ok false) :
    search next test exhausted (rounds + 1) cur = search next test exhausted rounds (some a) := by
  rw [search, step]
  show (test a >>= _) = _
  rw [failed]
  rfl

/-- What a search that ends has done first. -/
theorem search_cases (done : search next test exhausted rounds cur = .ok found) :
    ∃ rounds', rounds = rounds' + 1 ∧
      ((next cur = .ok none ∧ found = none) ∨
        ∃ a, next cur = .ok (some a) ∧
          ((test a = .ok true ∧ found = some a) ∨
            test a = .ok false ∧ search next test exhausted rounds' (some a) = .ok found)) := by
  cases rounds with
  | zero => cases done
  | succ rounds =>
    refine ⟨rounds, rfl, ?_⟩
    obtain ⟨answer, step, done⟩ := bind_ok.mp done
    cases answer with
    | none =>
      cases done
      exact .inl ⟨step, rfl⟩
    | some a =>
      obtain ⟨pass, tested, done⟩ := bind_ok.mp done
      refine .inr ⟨a, step, ?_⟩
      cases pass with
      | true =>
        cases done
        exact .inl ⟨tested, rfl⟩
      | false => exact .inr ⟨tested, done⟩

/-- A search that ends would also end with more rounds. -/
theorem search_succ (done : search next test exhausted rounds cur = .ok found) :
    search next test exhausted (rounds + 1) cur = .ok found := by
  induction rounds generalizing cur with
  | zero => cases done
  | succ rounds ih =>
    obtain ⟨_, same, ⟨step, rfl⟩ | ⟨a, step, ⟨passed, rfl⟩ | ⟨failed, done⟩⟩⟩ := search_cases done
    · exact search_end step
    · exact search_pass step passed
    · cases same
      rw [search_skip step failed]
      exact ih done

end Search

namespace Visits

variable {next : Option α → Except ε (Option α)} {list other : List α}

/-- Only the first step depends on where a list of elements is given from. -/
theorem restart (same : ∀ found, next cur = .ok found → next from_ = .ok found)
    (visits : Visits next cur list) : Visits next from_ list := by
  cases list with
  | nil => exact same none visits
  | cons a rest => exact ⟨same (some a) visits.1, visits.2⟩

/-- A search along a list that is long enough for it gives what passes the test, if the test can
be made on each element. -/
theorem search_filter (visits : Visits next cur list) (enough : list.length < rounds)
    (tests : ∀ a ∈ list, test a = .ok (kept a)) : Visits (search next test exhausted rounds) cur (list.filter kept) := by
  induction list generalizing cur rounds with
  | nil =>
    obtain ⟨rounds, rfl⟩ := Nat.exists_eq_succ_of_ne_zero (Nat.ne_of_gt enough)
    exact search_end visits
  | cons a rest ih =>
    obtain ⟨step, later⟩ := visits
    obtain ⟨here, others⟩ := List.forall_mem_cons.mp tests
    obtain ⟨rounds, rfl⟩ := Nat.exists_eq_succ_of_ne_zero (Nat.ne_of_gt (Nat.zero_lt_of_lt enough))
    simp only [List.length_cons] at enough
    have whole : Visits (search next test exhausted (rounds + 1)) (some a) (rest.filter kept) :=
      ih later (by omega) others
    cases kept_ : kept a with
    | true =>
      rw [List.filter_cons_of_pos kept_]
      exact ⟨search_pass step (kept_ ▸ here), whole⟩
    | false =>
      rw [List.filter_cons_of_neg (by simp [kept_])]
      -- one round less is enough for the rest, too
      have shorter : Visits (search next test exhausted rounds) (some a) (rest.filter kept) := ih later (by omega) others
      cases left : rest.filter kept with
      | nil =>
        rw [left] at shorter
        exact (search_skip step (kept_ ▸ here)).trans shorter
      | cons b more =>
        rw [left] at shorter whole
        exact ⟨(search_skip step (kept_ ▸ here)).trans shorter.1, whole.2⟩

/-- To find what passes the test, the search has made it on each element. -/
theorem search_tests (visits : Visits next cur list) (keeps : ∀ a pass, test a = .ok pass → kept a = pass)
    (searched : Visits (search next test exhausted rounds) cur (list.filter kept)) :
    ∀ a ∈ list, ∃ pass, test a = .ok pass := by
  induction list generalizing cur with
  | nil => nofun
  | cons a rest ih =>
    obtain ⟨step, later⟩ := visits
    have ends : ∃ found, search next test exhausted rounds cur = .ok found := by
      cases left : (a :: rest).filter kept with
      | nil =>
        rw [left] at searched
        exact ⟨none, searched⟩
      | cons b more =>
        rw [left] at searched
        exact ⟨some b, searched.1⟩
    obtain ⟨found, ended⟩ := ends
    obtain ⟨rounds', rfl, ⟨none_, -⟩ | ⟨b, step', tested⟩⟩ := search_cases ended
    · cases step.symm.trans none_
    cases step.symm.trans step'
    rcases tested with ⟨passed, -⟩ | ⟨failed, rest_⟩
    · rw [List.filter_cons_of_pos (keeps a true passed)] at searched
      exact List.forall_mem_cons.mpr ⟨⟨true, passed⟩, ih later searched.2⟩
    · rw [List.filter_cons_of_neg (by simp [keeps a false failed])] at searched
      refine List.forall_mem_cons.mpr ⟨⟨false, failed⟩, ih later (searched.restart ?_)⟩
      intro found done
      rw [search_skip step failed] at done
      exact search_succ done

end Visits

end Lib
