import Testbus.Lib.Machine

/-! Blocks that count their users: what a computation over them takes and gives back, and blocks
that it can never give back. -/

namespace Lib

namespace Blocks

/-- Blocks are given out in order. One without users was not given out yet, or was released. -/
structure Heap (α : Type) where
  next : Nat
  users : Nat → Nat
  contents : Nat → α
  fresh : ∀ r, next ≤ r → users r = 0

variable {α β γ Fault : Type}

variable {h : Heap α}

namespace Heap

def empty (value : α) : Heap α where
  next := 0
  users _ := 0
  contents _ := value
  fresh _ _ := rfl

theorem lt_next (live : 0 < h.users r) : r < h.next := by
  by_contra beyond
  have := h.fresh r (not_lt.mp beyond)
  omega

def alloc (h : Heap α) (value : α) : Heap α where
  next := h.next + 1
  users r := if r = h.next then 1 else h.users r
  contents r := if r = h.next then value else h.contents r
  fresh r beyond := by
    rw [if_neg (by omega)]
    exact h.fresh r (by omega)

/-- The users of a live block, changed. -/
def setUsers (h : Heap α) (r : Nat) (count : Nat) (live : 0 < h.users r) : Heap α where
  next := h.next
  users other := if other = r then count else h.users other
  contents := h.contents
  fresh other beyond := by
    have inside := lt_next live
    rw [if_neg (by omega)]
    exact h.fresh other beyond

def put (h : Heap α) (r : Nat) (value : α) : Heap α where
  next := h.next
  users := h.users
  contents other := if other = r then value else h.contents other
  fresh := h.fresh

end Heap

abbrev Action (α Fault β : Type) : Type := StateT (Heap α) (Except Fault) β

/-- An action that does not touch the blocks. -/
def lift (value : Except Fault β) : Action α Fault β := fun h => value.map fun value => (value, h)

/-- A new block has one user. -/
def new (value : α) : Action α Fault Nat := fun h => .ok (h.next, h.alloc value)

section Operations

variable (gone : Fault)

def read (r : Nat) : Action α Fault α := fun h =>
  if 0 < h.users r then .ok (h.contents r, h) else .error gone

def write (r : Nat) (value : α) : Action α Fault Unit := fun h =>
  if 0 < h.users r then .ok ((), h.put r value) else .error gone

def dup (r : Nat) : Action α Fault Unit := fun h =>
  if live : 0 < h.users r then .ok ((), h.setUsers r (h.users r + 1) live) else .error gone

def release (r : Nat) : Action α Fault Unit := fun h =>
  if live : 0 < h.users r then .ok ((), h.setUsers r (h.users r - 1) live) else .error gone

end Operations

variable {first : Action α Fault β} {rest : β → Action α Fault γ}

theorem bind_run (ran : first h = .ok (value, middle)) : (first >>= rest) h = rest value middle := by
  change (first h >>= fun done => rest done.1 done.2) = _
  rw [ran]
  rfl

theorem bind_fault (stopped : first h = .error fault) : (first >>= rest) h = .error fault := by
  change (first h >>= fun done => rest done.1 done.2) = _
  rw [stopped]
  rfl

theorem bind_inv (ran : (first >>= rest) h = .ok (result, final)) :
    ∃ value middle, first h = .ok (value, middle) ∧ rest value middle = .ok (result, final) := by
  obtain ⟨⟨value, middle⟩, here, later⟩ := bind_ok.mp (show (first h >>= fun done =>
    rest done.1 done.2) = .ok (result, final) from ran)
  exact ⟨value, middle, here, later⟩

/-- Between two heaps, some references went and some came; blocks below `base` have kept their
contents. -/
structure Moves (base : Nat) (h : Heap α) (went came : Multiset Nat) (h' : Heap α) : Prop where
  grown : h.next ≤ h'.next
  kept : ∀ r < base, h'.contents r = h.contents r
  balance : ∀ r, h'.users r + went.count r = h.users r + came.count r

namespace Moves

variable {base : Nat} {value : α}

theorem refl (base : Nat) (h : Heap α) : Moves base h 0 0 h := ⟨le_rfl, fun _ _ => rfl, fun _ => rfl⟩

theorem trans (first : Moves base h went came middle) (second : Moves base middle went' came' h') :
    Moves base h (went + went') (came + came') h' where
  grown := first.grown.trans second.grown
  kept r below := (second.kept r below).trans (first.kept r below)
  balance r := by
    have := first.balance r
    have := second.balance r
    simp only [Multiset.count_add]
    omega

theorem lower {lower : Nat} (moves : Moves base h went came h') (below : lower ≤ base) : Moves lower h went came h' :=
  ⟨moves.grown, fun r inside => moves.kept r (by omega), moves.balance⟩

theorem recount (moves : Moves base h went came h')
    (same : ∀ r, went.count r + came'.count r = went'.count r + came.count r) : Moves base h went' came' h' :=
  ⟨moves.grown, moves.kept, fun r => by have := moves.balance r; have := same r; omega⟩

theorem live (moves : Moves base h went came h') (left : went.count r < h.users r + came.count r) : 0 < h'.users r := by
  have := moves.balance r
  omega

theorem came_live (moves : Moves base h 0 came h') (member : r ∈ came) : 0 < h'.users r := by
  refine moves.live ?_
  have := Multiset.count_pos.mpr member
  rw [Multiset.count_zero]
  omega

theorem still_live (moves : Moves base h 0 came h') (live : 0 < h.users r) : 0 < h'.users r := by
  refine moves.live ?_
  rw [Multiset.count_zero]
  omega

theorem alloc (base : Nat) (h : Heap α) (value : α) (below : base ≤ h.next) :
    Moves base h 0 {h.next} (h.alloc value) where
  grown := Nat.le_succ _
  kept r inside := if_neg (by omega)
  balance r := by
    have := h.fresh r
    simp only [Heap.alloc, Multiset.count_zero, Multiset.count_singleton]
    split_ifs <;> omega

theorem put (h : Heap α) (value : α) (above : base ≤ r) : Moves base h 0 0 (h.put r value) where
  grown := le_rfl
  kept other inside := if_neg (by omega)
  balance _ := rfl

theorem dup (base : Nat) (live : 0 < h.users r) : Moves base h 0 {r} (h.setUsers r (h.users r + 1) live) where
  grown := le_rfl
  kept _ _ := rfl
  balance other := by
    simp only [Heap.setUsers, Multiset.count_zero, Multiset.count_singleton]
    split_ifs with same <;> simp [same]

theorem release (base : Nat) (live : 0 < h.users r) : Moves base h {r} 0 (h.setUsers r (h.users r - 1) live) where
  grown := le_rfl
  kept _ _ := rfl
  balance other := by
    simp only [Heap.setUsers, Multiset.count_zero, Multiset.count_singleton]
    split_ifs with same
    · subst same
      omega
    · rfl

end Moves

/-- Some block from `base` on is in use and not among the references that are held. -/
def Lost (base : Nat) (held : List Nat) (h : Heap α) : Prop :=
  ∃ r, base ≤ r ∧ 0 < h.users r ∧ r ∉ held

/-- An action has no other blocks than those that it was given and new ones, and gives references
to such. -/
def Confined (held : List Nat) (action : Action α Fault β) (given : β → List Nat) : Prop :=
  ∀ h value h', action h = .ok (value, h') →
    h.next ≤ h'.next ∧ (∀ r < h.next, r ∉ held → h'.users r = h.users r) ∧
      ∀ r ∈ given value, r ∈ held ∨ h.next ≤ r

/-- An action that does not end, or loses a block. -/
def Loses (base : Nat) (action : Action α Fault β) (given : β → List Nat) (h : Heap α) : Prop :=
  ∀ value h', action h = .ok (value, h') → Lost base (given value) h'

section Confined

variable {held held' : List Nat} {rest : β → Action α Fault γ} {given : β → List Nat} {value : β}
  {base : Nat}

theorem Confined.weaken (confined : Confined held action given)
    (more : held ⊆ held') (less : ∀ value, fewer value ⊆ given value) : Confined held' action fewer := by
  intro h value h' ran
  obtain ⟨grown, frame, own⟩ := confined h value h' ran
  refine ⟨grown, fun r inside out => frame r inside fun member => out (more member), ?_⟩
  intro r member
  exact (own r (less value member)).imp_left fun inside => more inside

theorem Confined.bind (confined : Confined held action given)
    (later : ∀ value, Confined (held ++ given value) (rest value) given') : Confined held (action >>= rest) given' := by
  intro h result final ran
  obtain ⟨value, middle, first, second⟩ := bind_inv ran
  obtain ⟨grown, frame, own⟩ := confined h value middle first
  obtain ⟨grown', frame', own'⟩ := later value middle result final second
  refine ⟨grown.trans grown', fun r inside out => ?_, fun r member => ?_⟩
  · rw [← frame r inside out]
    refine frame' r (by omega) fun member => ?_
    rcases List.mem_append.mp member with member | member
    · exact out member
    · have := (own r member).resolve_left out
      omega
  · rcases own' r member with member | beyond
    · rcases List.mem_append.mp member with member | member
      · exact .inl member
      · exact own r member
    · exact .inr (by omega)

theorem Confined.pure (own : given value ⊆ held) : Confined held (pure value : Action α Fault β) given := by
  rintro h _ _ ⟨⟩
  exact ⟨le_rfl, fun _ _ _ => rfl, fun r member => .inl (own member)⟩

theorem confined_lift {value : Except Fault β} (none_ : ∀ value, given value = []) :
    Confined held (lift value : Action α Fault β) given := by
  intro h result h' ran
  obtain ⟨value, -, same⟩ := map_ok.mp ran
  cases same
  refine ⟨le_rfl, fun _ _ _ => rfl, fun r member => ?_⟩
  rw [none_] at member
  cases member

theorem confined_new (value : α) : Confined held (new value : Action α Fault Nat) fun r => [r] := by
  rintro h _ _ ⟨⟩
  refine ⟨Nat.le_succ _, fun r inside _ => if_neg (by omega), fun r member => .inr ?_⟩
  rw [List.mem_singleton.mp member]

variable {gone : Fault}

theorem confined_read : Confined held (read gone r : Action α Fault α) fun _ => [] := by
  intro h value h' ran
  unfold read at ran
  split_ifs at ran
  cases ran
  exact ⟨le_rfl, fun _ _ _ => rfl, nofun⟩

theorem confined_write {value : α} : Confined held (write gone r value : Action α Fault Unit) fun _ => [] := by
  intro h value h' ran
  unfold write at ran
  split_ifs at ran
  cases ran
  exact ⟨le_rfl, fun _ _ _ => rfl, nofun⟩

theorem confined_dup (member : r ∈ held) : Confined held (dup gone r : Action α Fault Unit) fun _ => [] := by
  intro h value h' ran
  unfold dup at ran
  split_ifs at ran
  cases ran
  exact ⟨le_rfl, fun other _ out => if_neg (by rintro rfl; exact out member), nofun⟩

theorem confined_release (member : r ∈ held) : Confined held (release gone r : Action α Fault Unit) fun _ => [] := by
  intro h value h' ran
  unfold release at ran
  split_ifs at ran
  cases ran
  exact ⟨le_rfl, fun other _ out => if_neg (by rintro rfl; exact out member), nofun⟩

theorem Confined.lost (confined : Confined held action given) (lost : Lost base held h)
    (ran : action h = .ok (value, h')) : Lost base (given value) h' := by
  obtain ⟨r, above, live, out⟩ := lost
  obtain ⟨-, frame, own⟩ := confined h value h' ran
  have inside := Heap.lt_next live
  refine ⟨r, above, by rwa [frame r inside out], fun member => ?_⟩
  have := (own r member).resolve_left out
  omega

variable (held) in
/-- What the rest of a computation holds besides is from before `base`. -/
theorem Loses.bind (loses : Loses base action given h) (below : ∀ r ∈ held, r < base)
    (later : ∀ value, Confined (held ++ given value) (rest value) given') : Loses base (action >>= rest) given' h := by
  intro result final ran
  obtain ⟨value, middle, first, second⟩ := bind_inv ran
  obtain ⟨r, above, live, out⟩ := loses value middle first
  refine (later value).lost ⟨r, above, live, fun member => ?_⟩ second
  rcases List.mem_append.mp member with member | member
  · have := below r member
    omega
  · exact out member

theorem Loses.after {middle : Heap α} (ran : action h = .ok (value, middle))
    (loses : Loses base (rest value) given' middle) : Loses base (action >>= rest) given' h := by
  intro result final ran'
  rw [bind_run ran] at ran'
  exact loses result final ran'

theorem Loses.lower {lower : Nat} (loses : Loses base action given h) (below : lower ≤ base) :
    Loses lower action given h := by
  intro value h' ran
  obtain ⟨r, above, live, out⟩ := loses value h' ran
  exact ⟨r, below.trans above, live, out⟩

theorem loses_fault (stopped : action h = .error fault) : Loses base action given h := by
  intro value h' ran
  cases stopped.symm.trans ran

end Confined

end Blocks

end Lib
