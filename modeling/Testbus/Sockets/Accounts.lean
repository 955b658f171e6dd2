import Testbus.Sockets.Table

namespace Testbus.Sockets

open Lib

variable {s s' : State} {table table' : List (Option Addr)}

/-- A socket in its `slots` slots, with `extra` references from elsewhere in this file. -/
structure Entry (sock : Socket) (slots extra : Nat) : Prop where
  active : slots = if sock.active then 1 else 0
  refs : sock.refcount = sock.holders + slots + extra
  positive : 0 < sock.refcount
  closed : sock.closed = if sock.fd.isSome then 0 else 1
  callback : sock.close = true → sock.fd.isSome = true

/-- The slots of the table. -/
structure Shows (s : State) (table : List (Option Addr)) : Prop where
  count : s.count = table.length
  slots : s.memory.take table.length = table.map some
  room : table.length ≤ s.memory.length
  size : s.memory.length % 16 = 0

structure Ledger (s : State) (table : List (Option Addr)) (extra : Addr → Nat) : Prop where
  shown : Shows s table
  entry : ∀ a sock, s.sockets.cells a = some sock → Entry sock (table.count (some a)) (extra a)
  gone : ∀ a, s.sockets.cells a = none → some a ∉ table ∧ extra a = 0
  freed : ∀ last ∈ s.freed, last.2 = 1

/-- The rest of a state is as it was. -/
structure Same (s s' : State) : Prop where
  frames : s'.frames = s.frames
  invoked : s'.invoked = s.invoked

/-- Slots were emptied and added, but none was filled again. -/
structure Follows (table table' : List (Option Addr)) : Prop where
  length : table.length ≤ table'.length
  slots : ∀ i a, i < table.length → table'[i]? = some (some a) → table[i]? = some (some a)

theorem Follows.refl (table : List (Option Addr)) : Follows table table := ⟨le_rfl, fun _ _ _ => id⟩

theorem Shows.memory (shown : Shows s table) (short : i < table.length) : s.memory[i]? = some (some table[i]) := by
  rw [← List.getElem?_take_of_lt short, shown.slots]
  simp [short]

theorem Shows.slot (shown : Shows s table) (short : i < table.length) : s.slot i = .ok table[i] := by
  rw [State.slot, shown.memory short]

theorem Shows.empty (shown : Shows s table) (i : Nat) : Shows (s.setSlot i none) (table.set i none) where
  count := by simpa [State.setSlot] using shown.count
  slots := by
    rw [List.length_set, State.setSlot, List.take_set, shown.slots, List.map_set]
  room := by simpa [State.setSlot] using shown.room
  size := by simpa [State.setSlot] using shown.size

theorem Shows.grow (shown : Shows s table) :
    let t := if s.count % 16 = 0 then s.realloc (s.count + 16) else s
    Shows t table ∧ table.length < t.memory.length := by
  have count := shown.count
  have room := shown.room
  have size := shown.size
  split
  next full =>
    have length : (s.realloc (s.count + 16)).memory.length = s.count + 16 := by
      simp only [State.realloc, List.length_append, List.length_take, List.length_replicate]
      omega
    refine ⟨⟨count, ?_, ?_, ?_⟩, ?_⟩
    · rw [State.realloc, List.take_append_of_le_length (by simp; omega), List.take_take, Nat.min_eq_left (by omega)]
      exact shown.slots
    · rw [length]
      omega
    · rw [length]
      omega
    · rw [length]
      omega
  next => exact ⟨shown, by omega⟩

theorem Shows.append (shown : Shows s table) (room : table.length < s.memory.length) (a : Addr) :
    Shows { s.setSlot s.count (some a) with count := s.count + 1 } (table ++ [some a]) where
  count := by simp [shown.count]
  slots := by
    have same := shown.slots
    rw [List.length_append, List.length_singleton, State.setSlot, shown.count,
      List.take_add_one, List.take_set_of_le le_rfl, same, List.getElem?_set_self room]
    simp
  room := by
    simp only [State.setSlot, List.length_set, List.length_append, List.length_singleton]
    omega
  size := by
    simp only [State.setSlot, List.length_set]
    exact shown.size

theorem follows_append (table : List (Option Addr)) (entry : Option Addr) : Follows table (table ++ [entry]) where
  length := by simp
  slots i a short here := by rwa [List.getElem?_append_left short] at here

theorem follows_set (table : List (Option Addr)) (i : Nat) : Follows table (table.set i none) where
  length := by simp
  slots j a short here := by
    rw [List.getElem?_set] at here
    split_ifs at here with same
    · cases here
    · exact here

/-- Change one socket, with its slots and the references to it. -/
theorem Ledger.change (ledger : Ledger s table extra) (found : s.sockets.cells a = some sock)
    {change : Socket → Socket} (sockets : s'.sockets = s.sockets.modify a change)
    (freed : s'.freed = s.freed) (shown : Shows s' table')
    (entry : Entry (change sock) (table'.count (some a)) (extra' a))
    (others : ∀ b, b ≠ a → extra' b = extra b ∧ table'.count (some b) = table.count (some b)) :
    Ledger s' table' extra' where
  shown := shown
  entry b other there := by
    by_cases same : b = a
    · subst same
      rw [sockets, Store.modify_self, found] at there
      cases there
      exact entry
    · rw [sockets, Store.modify_of_ne same] at there
      rw [(others b same).1, (others b same).2]
      exact ledger.entry b other there
  gone b absent := by
    by_cases same : b = a
    · subst same
      rw [sockets, Store.modify_self, found] at absent
      cases absent
    · rw [sockets, Store.modify_of_ne same] at absent
      obtain ⟨outside, unheld⟩ := ledger.gone b absent
      rw [(others b same).1, ← List.count_eq_zero, (others b same).2, List.count_eq_zero]
      exact ⟨outside, unheld⟩
  freed := by
    rw [freed]
    exact ledger.freed

theorem Ledger.modify (ledger : Ledger s table extra) (found : s.sockets.cells a = some sock)
    (change : Socket → Socket) (entry : Entry (change sock) (table.count (some a)) (extra' a))
    (others : ∀ b, b ≠ a → extra' b = extra b) : Ledger (s.modify a change) table extra' :=
  ledger.change found rfl rfl ⟨ledger.shown.count, ledger.shown.slots, ledger.shown.room, ledger.shown.size⟩ entry
    fun b other => ⟨others b other, rfl⟩

theorem Ledger.live (ledger : Ledger s table extra) (held : 0 < extra a) : ∃ sock, s.sockets.cells a = some sock := by
  cases found : s.sockets.cells a with
  | some sock => exact ⟨sock, rfl⟩
  | none =>
    have none_ := (ledger.gone a found).2
    omega

theorem release_eq (found : s.sockets.cells a = some sock) (several : 1 < sock.refcount) :
    s.release a = .ok (s.modify a fun sock => { sock with refcount := sock.refcount - 1 }) := by
  simp only [State.release, State.get, found, bind, Except.bind]
  rw [if_neg (by omega), if_pos (by omega)]

theorem release_last (found : s.sockets.cells a = some sock) (single : sock.refcount = 1) (idle : sock.active = false) :
    ∃ s', s.release a = .ok s' ∧ Same s s' ∧ s'.memory = s.memory ∧ s'.count = s.count ∧
      s'.sockets.cells = Function.update s.sockets.cells a none ∧ s'.freed = (a, sock.shut.closed) :: s.freed := by
  set shut := (s.modify a fun sock => { sock with refcount := sock.refcount - 1 }).shut a with eq
  have there : shut.sockets.cells a = some (Socket.shut { sock with refcount := sock.refcount - 1 }) := by
    simp [eq, State.shut, State.modify, found]
  refine ⟨{ shut with
    sockets := shut.sockets.free a, freed := (a, sock.shut.closed) :: s.freed }, ?_, ?_⟩
  · simp only [State.release, State.get, found, bind, Except.bind]
    rw [if_neg (by omega), if_neg (by omega), ← eq, there]
    simp only [Socket.shut, idle, Bool.false_eq_true, if_false]
    rfl
  refine ⟨⟨rfl, rfl⟩, rfl, rfl, ?_, rfl⟩
  funext b
  by_cases same : b = a
  · subst same
    simp
  · simp [eq, State.shut, State.modify, Store.free_of_ne same, Store.modify_of_ne same, same]

/-- One of the other references is given up. -/
theorem Ledger.release (ledger : Ledger s table extra) (held : 0 < extra a) :
    ∃ s', s.release a = .ok s' ∧ Same s s' ∧ Ledger s' table (Function.update extra a (extra a - 1)) := by
  obtain ⟨sock, found⟩ := ledger.live held
  have entry := ledger.entry a sock found
  have refs := entry.refs
  have others : ∀ b, b ≠ a → Function.update extra a (extra a - 1) b = extra b :=
    fun b other => Function.update_of_ne other _ _
  by_cases single : sock.refcount = 1
  · have idle : sock.active = false := by
      by_contra busy
      have slot := entry.active
      rw [if_pos (by simpa using busy)] at slot
      omega
    have slot : table.count (some a) = 0 := by rw [entry.active, idle]; rfl
    obtain ⟨s', released, same, memory, count, cells, freed⟩ := release_last found single idle
    refine ⟨s', released, same, ?_, ?_, ?_, ?_⟩
    · have shown := ledger.shown
      exact ⟨count.trans shown.count, memory ▸ shown.slots, memory ▸ shown.room, memory ▸ shown.size⟩
    · intro b other there
      have apart : b ≠ a := by
        rintro rfl
        rw [cells, Function.update_self] at there
        cases there
      rw [cells, Function.update_of_ne apart] at there
      rw [others b apart]
      exact ledger.entry b other there
    · intro b absent
      by_cases same : b = a
      · subst same
        rw [Function.update_self]
        exact ⟨List.count_eq_zero.mp slot, by omega⟩
      · rw [cells, Function.update_of_ne same] at absent
        rw [others b same]
        exact ledger.gone b absent
    · intro last member
      rw [freed, List.mem_cons] at member
      rcases member with rfl | member
      · have closed := entry.closed
        have callback := entry.callback
        cases custom : sock.close <;> cases open_ : sock.fd <;> simp_all [Socket.shut]
      · exact ledger.freed last member
  · have positive := entry.positive
    refine ⟨_, release_eq found (by omega), ⟨rfl, rfl⟩, ledger.modify found _ ?_ others⟩
    refine ⟨entry.active, ?_, ?_, entry.closed, entry.callback⟩
    · simp only [Function.update_self]
      omega
    · simp only
      omega

theorem count_set_none (here : table[i]? = some (some a)) (b : Addr) :
    (table.set i none).count (some b) = table.count (some b) - if b = a then 1 else 0 := by
  obtain ⟨short, same⟩ := List.getElem?_eq_some_iff.mp here
  rw [List.count_set short, same]
  by_cases eq : a = b
  · subst eq
    simp
  · simp [eq, Ne.symm eq]

theorem Ledger.table_live (ledger : Ledger s table extra) {i : Nat} (here : table[i]? = some (some a)) :
    ∃ sock, s.sockets.cells a = some sock ∧ table.count (some a) = 1 ∧ sock.active = true := by
  have member : some a ∈ table := List.mem_of_getElem? here
  cases found : s.sockets.cells a with
  | none => exact absurd member (ledger.gone a found).1
  | some sock =>
    have slot := (ledger.entry a sock found).active
    have positive := List.count_pos_iff.mpr member
    split_ifs at slot with active
    · exact ⟨sock, rfl, slot, active⟩
    · omega

theorem Ledger.deactivateSlot (ledger : Ledger s table extra) (here : table[i]? = some (some a)) :
    ∃ s', s.deactivateSlot i = .ok s' ∧ Same s s' ∧ Ledger s' (table.set i none) extra := by
  obtain ⟨short, same⟩ := List.getElem?_eq_some_iff.mp here
  obtain ⟨sock, found, slot, active⟩ := ledger.table_live here
  have entry := ledger.entry a sock found
  have refs := entry.refs
  -- the reference of the slot is dropped after the slot is empty
  have between : Ledger ((s.setSlot i none).modify a fun sock => { sock with active := false })
      (table.set i none) (Function.update extra a (extra a + 1)) := by
    refine ledger.change found rfl rfl ?_ ?_ ?_
    · have shown := ledger.shown.empty i
      exact ⟨shown.count, shown.slots, shown.room, shown.size⟩
    · rw [count_set_none here, slot, if_pos rfl, Function.update_self]
      exact ⟨rfl, by simp only; omega, entry.positive, entry.closed, entry.callback⟩
    · intro b other
      rw [count_set_none here, if_neg other, Function.update_of_ne other]
      exact ⟨rfl, rfl⟩
  obtain ⟨s', released, rest, ledger'⟩ := between.release (a := a) (by simp)
  refine ⟨s', ?_, ⟨rest.frames, rest.invoked⟩, by simpa using ledger'⟩
  simp only [State.deactivateSlot, ledger.shown.slot short, same, State.get, found, bind, Except.bind]
  exact released

theorem Ledger.deactivate (ledger : Ledger s table extra) (found : s.sockets.cells a = some sock) :
    ∃ s' table', s.deactivate a = .ok s' ∧ Same s s' ∧ Ledger s' table' extra ∧ Follows table table' := by
  simp only [State.deactivate, State.get, found, bind, Except.bind]
  split
  next active =>
    have slot := (ledger.entry a sock found).active
    rw [if_pos active] at slot
    have member : some a ∈ table := List.count_pos_iff.mp (by omega)
    obtain ⟨j, short, there⟩ := List.getElem_of_mem member
    have occupied : ∃ i ∈ List.range s.count, decide (s.memory[i]? = some (some (some a))) = true :=
      ⟨j, by simpa [ledger.shown.count] using short, by
        rw [ledger.shown.memory short, there]
        simp⟩
    obtain ⟨i, first⟩ := Option.isSome_iff_exists.mp (List.find?_isSome.mpr occupied)
    have short' : i < table.length := by
      have inside := List.mem_of_find?_eq_some first
      rwa [List.mem_range, ledger.shown.count] at inside
    have here : table[i]? = some (some a) := by
      have held := List.find?_some first
      rw [decide_eq_true_eq, ledger.shown.memory short'] at held
      rw [List.getElem?_eq_getElem short', Option.some.inj held]
    obtain ⟨s', ran, same, ledger'⟩ := ledger.deactivateSlot here
    rw [first]
    exact ⟨s', _, ran, same, ledger', follows_set table i⟩
  next => exact ⟨s, table, rfl, ⟨rfl, rfl⟩, ledger, .refl table⟩

theorem Ledger.activate (ledger : Ledger s table extra) (found : s.sockets.cells a = some sock) :
    ∃ s' table', s.activate a = .ok s' ∧ Same s s' ∧ Ledger s' table' extra ∧ Follows table table' := by
  simp only [State.activate, State.get, found, bind, Except.bind]
  split
  next => exact ⟨s, table, rfl, ⟨rfl, rfl⟩, ledger, .refl table⟩
  next idle =>
    have entry := ledger.entry a sock found
    have slot := entry.active
    have refs := entry.refs
    rw [if_neg idle] at slot
    obtain ⟨shown, room⟩ := ledger.shown.grow
    set t := if s.count % 16 = 0 then s.realloc (s.count + 16) else s with eq
    have rest : t.sockets = s.sockets ∧ t.frames = s.frames ∧ t.invoked = s.invoked ∧
        t.freed = s.freed ∧ t.count = s.count := by
      rw [eq]
      split <;> exact ⟨rfl, rfl, rfl, rfl, rfl⟩
    rw [if_neg (by rw [shown.count]; omega)]
    refine ⟨_, table ++ [some a], rfl, ⟨rest.2.1, rest.2.2.1⟩, ?_, follows_append table _⟩
    refine ledger.change found (congrArg (Store.modify · a _) rest.1) rest.2.2.2.1 ?_ ?_ ?_
    · have shown' := shown.append room a
      exact ⟨shown'.count, shown'.slots, shown'.room, shown'.size⟩
    · rw [List.count_append, slot]
      refine ⟨by simp, ?_, ?_, entry.closed, entry.callback⟩
      · simp only [List.count_singleton_self]
        omega
      · exact Nat.succ_pos _
    · intro b other
      refine ⟨rfl, ?_⟩
      rw [List.count_append, List.count_singleton]
      simp [Ne.symm other]

/-- A reference that was held outside is about to be dropped. -/
theorem Ledger.drop (ledger : Ledger s table extra) (found : s.sockets.cells a = some sock) (held : sock.holders ≠ 0) :
    Ledger (s.modify a fun sock => { sock with holders := sock.holders - 1 }) table
      (Function.update extra a (extra a + 1)) := by
  have entry := ledger.entry a sock found
  have refs := entry.refs
  refine ledger.modify found _ ?_ fun b other => Function.update_of_ne other _ _
  refine ⟨entry.active, ?_, entry.positive, entry.closed, entry.callback⟩
  rw [Function.update_self]
  simp only
  omega

theorem Ledger.shut (ledger : Ledger s table extra) (found : s.sockets.cells a = some sock)
    (plain : sock.close = false) : Ledger (s.shut a) table extra := by
  have entry := ledger.entry a sock found
  have closed := entry.closed
  refine ledger.modify found _ ⟨entry.active, entry.refs, entry.positive, ?_, ?_⟩ fun _ _ => rfl
  · cases open_ : sock.fd <;> simp_all [Socket.shut]
  · intro custom
    rw [show sock.shut.close = sock.close from rfl, plain] at custom
    cases custom

/-- A reference that was held outside is given up with the socket closed. -/
theorem Ledger.close (ledger : Ledger s table extra) (held : 0 < extra a)
    (plain : ∀ sock, s.sockets.cells a = some sock → sock.close = false) :
    ∃ s' table', s.close a = .ok s' ∧ Same s s' ∧
      Ledger s' table' (Function.update extra a (extra a - 1)) ∧ Follows table table' := by
  obtain ⟨sock, found⟩ := ledger.live held
  have shut := ledger.shut found (plain sock found)
  obtain ⟨sock', found'⟩ := shut.live held
  obtain ⟨t, table', deactivated, same, ledger', follows⟩ := shut.deactivate found'
  obtain ⟨s', released, same', ledger''⟩ := ledger'.release held
  refine ⟨s', table', ?_, ⟨same'.frames.trans same.frames, same'.invoked.trans same.invoked⟩, ledger'', follows⟩
  simp only [State.close, State.get, found, bind, Except.bind, deactivated]
  exact released

end Testbus.Sockets
