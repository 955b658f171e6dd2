import Testbus.Sockets.Accounts

namespace Testbus.Sockets

open Lib

variable {s s' : State} {frame : Frame} {rest : List Frame}

/-- The slot and the socket that the loop is busy with. -/
def Stage.place : Stage → Option (Nat × Addr)
  | check _ i a | handle _ i a | release i a => some (i, a)
  | _ => none

/-- The references that the calls of `ni_socket_wait` hold. -/
def loops (frames : List Frame) (a : Addr) : Nat :=
  frames.countP fun frame => frame.stage.place.any fun place => place.2 = a

/-- What `poll` was told about is still at its index, or was removed. -/
structure Aligned (table : List (Option Addr)) (frame : Frame) : Prop where
  short : frame.pfd.length ≤ table.length
  own : ∀ (i : Nat) reported a, frame.pfd[i]? = some reported → table[i]? = some (some a) →
    reported.owner = a
  here : ∀ (i : Nat) a, frame.stage.place = some (i, a) →
    ∃ reported, frame.pfd[i]? = some reported ∧ reported.owner = a

/-- A handler was called for an event of its own socket. -/
def Invocation.Own (call : Invocation) : Prop :=
  call.reported.owner = call.sock ∧ call.handler.flag call.reported.revents = true

structure Tidy (s : State) (table : List (Option Addr)) : Prop where
  ledger : Ledger s table (loops s.frames)
  aligned : ∀ frame ∈ s.frames, Aligned table frame
  invoked : ∀ call ∈ s.invoked, call.Own

theorem Aligned.follows (aligned : Aligned table frame) (follows : Follows table table') : Aligned table' frame where
  short := aligned.short.trans follows.length
  own i reported a entry here := by
    have inside := (List.getElem?_eq_some_iff.mp entry).1
    exact aligned.own i reported a entry (follows.slots i a (Nat.lt_of_lt_of_le inside aligned.short) here)
  here := aligned.here

theorem Tidy.same (tidy : Tidy s table) (same : Same s s') (ledger : Ledger s' table' (loops s.frames))
    (follows : Follows table table') : Tidy s' table' where
  ledger := by rwa [same.frames]
  aligned := by
    rw [same.frames]
    exact fun frame member => (tidy.aligned frame member).follows follows
  invoked := by
    rw [same.invoked]
    exact tidy.invoked

theorem loops_cons (frame : Frame) (rest : List Frame) :
    loops (frame :: rest) a = loops rest a +
      if (frame.stage.place.any fun place => place.2 = a) = true then 1 else 0 := by
  rw [loops, List.countP_cons, loops]

theorem loops_enter (pfd : List PollFd) (same : stage'.place = stage.place) :
    loops (⟨pfd, stage'⟩ :: rest) = loops (⟨pfd, stage⟩ :: rest) := by
  funext a
  rw [loops_cons, loops_cons, same]

theorem loops_idle (pfd : List PollFd) (idle : stage.place = none) : loops (⟨pfd, stage⟩ :: rest) = loops rest := by
  funext a
  rw [loops_cons, idle]
  rfl

theorem loops_busy (pfd : List PollFd) (busy : stage.place = some (i, a)) :
    loops (⟨pfd, stage⟩ :: rest) = Function.update (loops rest) a (loops rest a + 1) := by
  funext b
  rw [loops_cons, busy]
  by_cases same : b = a
  · subst same
    simp
  · simp [same, Ne.symm same]

structure Check where
  handler : Handler
  slot : Nat
  sock : Addr

/-- The check for an event that comes next. -/
def Stage.checked : Stage → Option Check
  | check handler i a => some ⟨handler, i, a⟩
  | _ => none

/-- What a program has to keep to: it starts no `ni_socket_wait` from a callback while a slot is
empty, it closes no socket with a `close` callback, and a socket without the callback for an event
is still in its slot when the loop wants to deactivate it for that. -/
def Careful (s : State) : Input → Prop
  | .op .wait => s.frames = [] ∨ some none ∉ s.memory.take s.count
  | .op (.close a) => ∀ sock ∈ s.sockets.cells a, sock.close = false
  | .next =>
    ∀ frame ∈ s.frames.head?, ∀ check ∈ frame.stage.checked,
      ∀ reported ∈ frame.pfd[check.slot]?, ∀ sock ∈ s.sockets.cells check.sock,
        check.handler.flag reported.revents = true → sock.missing check.handler = true →
          s.memory[check.slot]? = some (some (some check.sock))
  | _ => True

instance (s : State) (input : Input) : Decidable (Careful s input) := by
  unfold Careful
  cases input with
  | op op => cases op <;> infer_instance
  | _ => infer_instance

/-- An operation of a program that keeps to its references leaves the accounts in order. -/
def Fine (result : Except Fault State) : Prop :=
  result = .error .disabled ∨ ∃ s' table', result = .ok s' ∧ Tidy s' table'

theorem fine_use (tidy : Tidy s table)
    (works : ∀ sock, s.sockets.cells a = some sock → ∃ s' table', operation = .ok s' ∧
      Same s s' ∧ Ledger s' table' (loops s.frames) ∧ Follows table table') :
    Fine (s.use a operation) := by
  rw [State.use]
  cases found : s.sockets.cells a with
  | none => exact .inl rfl
  | some sock =>
    obtain ⟨s', table', ran, same, ledger, follows⟩ := works sock found
    exact .inr ⟨s', table', ran, tidy.same same ledger follows⟩

theorem fine_giveUp (tidy : Tidy s table)
    (works : ∀ (t : State) (extra : Addr → Nat), Ledger t table extra → 0 < extra a →
      (∀ sock ∈ t.sockets.cells a, ∃ old ∈ s.sockets.cells a, sock.close = old.close) →
      ∃ s' table', drop t a = .ok s' ∧ Same t s' ∧
        Ledger s' table' (Function.update extra a (extra a - 1)) ∧ Follows table table') :
    Fine (s.giveUp a drop) := by
  rw [State.giveUp]
  cases found : s.sockets.cells a with
  | none => exact .inl rfl
  | some sock =>
    by_cases unheld : sock.holders = 0
    · exact .inl (if_pos unheld)
    have between := tidy.ledger.drop found unheld
    obtain ⟨s', table', ran, same, ledger, follows⟩ := works _ _ between (by simp) (by
      intro sock' there
      simp only [State.modify, Store.modify_self, found, Option.map_some, Option.mem_some] at there
      exact ⟨sock, found, by rw [← there]⟩)
    refine .inr ⟨s', table', by simp only [if_neg unheld, ran], ?_⟩
    exact tidy.same ⟨same.frames, same.invoked⟩ (by simpa using ledger) follows

theorem fine_wrap (tidy : Tidy s table) (fd : Nat) (close : Bool) : Fine (s.perform (.wrap a fd close)) := by
  rw [State.perform]
  cases found : s.sockets.cells a with
  | some sock => exact .inl rfl
  | none =>
    refine .inr ⟨_, table, rfl, ?_, tidy.aligned, tidy.invoked⟩
    have ledger := tidy.ledger
    obtain ⟨outside, unheld⟩ := ledger.gone a found
    have shown := ledger.shown
    refine ⟨⟨shown.count, shown.slots, shown.room, shown.size⟩, ?_, ?_, ledger.freed⟩
    · intro b sock there
      by_cases same : b = a
      · subst same
        simp only [Store.alloc_self, Option.some.injEq] at there
        subst there
        rw [List.count_eq_zero.mpr outside]
        exact ⟨rfl, by simp [unheld], Nat.one_pos, rfl, fun _ => rfl⟩
      · rw [Store.alloc_of_ne same] at there
        exact ledger.entry b sock there
    · intro b absent
      by_cases same : b = a
      · subst same
        simp at absent
      · rw [Store.alloc_of_ne same] at absent
        exact ledger.gone b absent

theorem fine_hold (tidy : Tidy s table) : Fine (s.perform (.hold a)) := by
  apply fine_use tidy
  intro sock found
  have entry := tidy.ledger.entry a sock found
  have refs := entry.refs
  refine ⟨_, table, rfl, ⟨rfl, rfl⟩, tidy.ledger.modify found _ ?_ fun _ _ => rfl, .refl table⟩
  exact ⟨entry.active, by simp only; omega, Nat.succ_pos _, entry.closed, entry.callback⟩

theorem fine_configure (tidy : Tidy s table) (receive transmit checkTimeout : Bool) (pollFlags : Flags) :
    Fine (s.perform (.configure a receive transmit checkTimeout pollFlags)) := by
  apply fine_use tidy
  intro sock found
  have entry := tidy.ledger.entry a sock found
  refine ⟨_, table, rfl, ⟨rfl, rfl⟩, tidy.ledger.modify found _ ?_ fun _ _ => rfl, .refl table⟩
  exact ⟨entry.active, entry.refs, entry.positive, entry.closed, entry.callback⟩

theorem mapM_ok {α β : Type} {f : α → Except Fault β} {g : α → β} {list : List α}
    (each : ∀ a ∈ list, f a = .ok (g a)) : list.mapM f = .ok (list.map g) := by
  induction list with
  | nil => rfl
  | cons a rest ih =>
    obtain ⟨first, others⟩ := List.forall_mem_cons.mp each
    rw [List.mapM_cons, first, ih others]
    rfl

theorem mapM_slot (shown : Shows s table) : (List.range s.count).mapM s.slot = .ok table := by
  have each : ∀ i ∈ List.range s.count, s.slot i = .ok (table[i]?.getD none) := by
    intro i inside
    rw [List.mem_range, shown.count] at inside
    rw [shown.slot inside]
    simp [inside]
  rw [mapM_ok each, shown.count]
  congr 1
  apply List.ext_getElem
  · simp
  · intro i short short'
    simp [short']

theorem map_some_filterMap (table : List (Option Addr)) : (table.filterMap id).map some = table.filter Option.isSome := by
  induction table with
  | nil => rfl
  | cons entry rest ih =>
    cases entry with
    | none => simpa using ih
    | some a => simpa using ih

/-- The table without its empty slots. -/
theorem Shows.compact (shown : Shows s table) :
    Shows { s with
      memory := (table.filterMap id).map (some ∘ some) ++ s.memory.drop (table.filterMap id).length
      count := (table.filterMap id).length } ((table.filterMap id).map some) where
  count := by simp
  slots := by simp
  room := by simp
  size := by
    have fewer := List.length_filterMap_le id table
    have room := shown.room
    have size := shown.size
    simp only [List.length_append, List.length_map, List.length_drop]
    omega

theorem fine_wait (tidy : Tidy s table) (careful : Careful s (.op .wait)) : Fine (s.perform .wait) := by
  have ledger := tidy.ledger
  have live : ∀ a ∈ table.filterMap id, ∃ sock, s.sockets.cells a = some sock := by
    intro a member
    have inside : some a ∈ table := by simpa using member
    cases found : s.sockets.cells a with
    | some sock => exact ⟨sock, rfl⟩
    | none => exact absurd inside (ledger.gone a found).1
  have count : ∀ a, ((table.filterMap id).map some).count (some a) = table.count (some a) := by
    intro a
    rw [map_some_filterMap, List.count_filter rfl]
  have filled : (table.filterMap id).mapM (fun a => do
      let sock ← s.get a
      .ok { owner := a, fd := sock.fd, events := sock.pollFlags : PollFd }) =
      .ok ((table.filterMap id).map fun a =>
        { owner := a, fd := (s.sockets.cells a).bind Socket.fd,
          events := ((s.sockets.cells a).map Socket.pollFlags).getD {} }) := by
    apply mapM_ok
    intro a member
    obtain ⟨sock, found⟩ := live a member
    simp [State.get, found, bind, Except.bind]
  simp only [State.get, bind, Except.bind] at filled
  simp only [State.perform, State.wait, State.get, mapM_slot ledger.shown, bind, Except.bind, filled]
  have compact := ledger.shown.compact
  refine .inr ⟨_, (table.filterMap id).map some, rfl, ⟨?_, ?_, ?_, ledger.freed⟩, ?_, tidy.invoked⟩
  · exact ⟨compact.count, compact.slots, compact.room, compact.size⟩
  · intro a sock found
    rw [count, loops_idle _ rfl]
    exact ledger.entry a sock found
  · intro a absent
    rw [← List.count_eq_zero, count, List.count_eq_zero, loops_idle _ rfl]
    exact ledger.gone a absent
  · intro frame member
    rcases List.mem_cons.mp member with rfl | member
    · refine ⟨by simp, ?_, by rintro _ _ ⟨⟩⟩
      intro i reported a entry here
      simp only [List.getElem?_map, Option.map_eq_some_iff] at entry here
      obtain ⟨b, there, rfl⟩ := entry
      obtain ⟨c, there', same⟩ := here
      exact Option.some.inj ((there.symm.trans there').trans (congrArg some (Option.some.inj same)))
    · -- an outer call goes on with the table as it is
      have occupied : none ∉ table := by
        have outer : s.frames ≠ [] := List.ne_nil_of_mem member
        have full := careful.resolve_left outer
        rw [ledger.shown.count, ledger.shown.slots] at full
        simpa using full
      have same : (table.filterMap id).map some = table := by
        rw [map_some_filterMap, List.filter_eq_self]
        intro entry inside
        cases entry with
        | none => exact absurd inside occupied
        | some a => rfl
      rw [same]
      exact tidy.aligned frame member

theorem fine_perform (tidy : Tidy s table) (careful : Careful s (.op op)) : Fine (s.perform op) := by
  cases op with
  | wrap a fd close => exact fine_wrap tidy fd close
  | configure a receive transmit checkTimeout pollFlags =>
    exact fine_configure tidy receive transmit checkTimeout pollFlags
  | activate a => exact fine_use tidy fun sock found => tidy.ledger.activate found
  | deactivate a => exact fine_use tidy fun sock found => tidy.ledger.deactivate found
  | hold a => exact fine_hold tidy
  | release a =>
    apply fine_giveUp tidy
    intro t extra ledger held _
    obtain ⟨s', released, same, ledger'⟩ := ledger.release held
    exact ⟨s', table, released, same, ledger', .refl table⟩
  | close a =>
    apply fine_giveUp tidy
    intro t extra ledger held old
    apply ledger.close held
    intro sock found
    obtain ⟨before, there, same⟩ := old sock found
    exact same.trans (careful before there)
  | wait => exact fine_wait tidy careful

section Loop

variable {frame : Frame}

theorem Tidy.enter (tidy : Tidy s table)
    (frames : s.frames = frame :: rest) (ledger : Ledger t table' extra) (same : Same s t)
    (follows : Follows table table') (stage : Stage) (loops : extra = loops ({ frame with stage } :: rest))
    (here : ∀ (i : Nat) a, stage.place = some (i, a) → ∃ reported, frame.pfd[i]? = some reported ∧ reported.owner = a) :
    Tidy (t.enter frame rest stage) table' where
  ledger := by
    subst loops
    exact ⟨⟨ledger.shown.count, ledger.shown.slots, ledger.shown.room, ledger.shown.size⟩,
      ledger.entry, ledger.gone, ledger.freed⟩
  aligned := by
    have aligned := tidy.aligned
    rw [frames] at aligned
    obtain ⟨first, others⟩ := List.forall_mem_cons.mp aligned
    refine List.forall_mem_cons.mpr ⟨?_, fun other member => (others other member).follows follows⟩
    have followed := first.follows follows
    exact ⟨followed.short, followed.own, here⟩
  invoked := by
    show ∀ call ∈ t.invoked, call.Own
    rw [same.invoked]
    exact tidy.invoked

theorem Tidy.invoke (tidy : Tidy (s.enter frame rest (.handle handler i a)) table) (own : reported.owner = a)
    (flag : handler.flag reported.revents = true) : Tidy (s.invoke frame rest handler i a reported) table where
  ledger :=
    have ledger := tidy.ledger
    ⟨⟨ledger.shown.count, ledger.shown.slots, ledger.shown.room, ledger.shown.size⟩,
      ledger.entry, ledger.gone, ledger.freed⟩
  aligned := tidy.aligned
  invoked := List.forall_mem_cons.mpr ⟨⟨own, flag⟩, tidy.invoked⟩

theorem fine_visit (tidy : Tidy s table)
    (frames : s.frames = ⟨pfd, .slot i⟩ :: rest) : Fine (s.visit ⟨pfd, .slot i⟩ rest i) := by
  have ledger := tidy.ledger
  rw [frames, loops_idle _ rfl] at ledger
  have aligned : Aligned table ⟨pfd, .slot i⟩ := tidy.aligned _ (frames ▸ List.mem_cons_self)
  have onward : ∀ stage : Stage, stage.place = none → Tidy (s.enter ⟨pfd, .slot i⟩ rest stage) table :=
    fun stage idle => tidy.enter frames ledger ⟨rfl, rfl⟩ (.refl table) stage
      (loops_idle _ idle).symm (by rw [idle]; nofun)
  rw [State.visit]
  cases entry : pfd[i]? with
  | none => exact .inr ⟨_, table, rfl, onward _ rfl⟩
  | some reported =>
    have short : i < table.length := Nat.lt_of_lt_of_le (List.getElem?_eq_some_iff.mp entry).1 aligned.short
    simp only [ledger.shown.slot short, bind, Except.bind]
    cases here : table[i] with
    | none => exact .inr ⟨_, table, rfl, onward _ rfl⟩
    | some a =>
      have here' : table[i]? = some (some a) := by rw [List.getElem?_eq_getElem short, here]
      obtain ⟨sock, found, slot, active⟩ := ledger.table_live here'
      have own := aligned.own i reported a entry here'
      have entry' := ledger.entry a sock found
      have refs := entry'.refs
      -- the loop takes a reference of its own
      have held : Ledger (s.modify a fun sock => { sock with refcount := sock.refcount + 1 }) table
          (Function.update (loops rest) a (loops rest a + 1)) := by
        refine ledger.modify found _ ?_ fun b other => Function.update_of_ne other _ _
        refine ⟨entry'.active, ?_, Nat.succ_pos _, entry'.closed, entry'.callback⟩
        rw [Function.update_self]
        simp only
        omega
      have busy : ∀ stage : Stage, stage.place = some (i, a) → ∀ (j : Nat) b,
          stage.place = some (j, b) → ∃ reported, pfd[j]? = some reported ∧ reported.owner = b := by
        intro stage place j b same
        rw [place] at same
        cases same
        exact ⟨reported, entry, own⟩
      simp only [State.get, found, active, not_true, if_false]
      split
      next error =>
        obtain ⟨t, ran, same, ledger'⟩ := held.deactivateSlot here'
        rw [ran]
        refine .inr ⟨_, table.set i none, rfl, Tidy.invoke ?_ own error⟩
        exact tidy.enter frames ledger' ⟨same.frames, same.invoked⟩ (follows_set table i) _
          (loops_busy _ rfl).symm (busy _ rfl)
      next =>
        refine .inr ⟨_, table, rfl, ?_⟩
        exact tidy.enter frames held ⟨rfl, rfl⟩ (.refl table) (.check .receive i a) (loops_busy _ rfl).symm (busy _ rfl)

theorem place_behind (handler : Handler) (i : Nat) (a : Addr) : (Stage.behind i a handler).place = some (i, a) := by
  cases handler <;> rfl

theorem fine_checkEvent (tidy : Tidy s table)
    (frames : s.frames = ⟨pfd, .check handler i a⟩ :: rest) (careful : Careful s .next) :
    Fine (s.checkEvent ⟨pfd, .check handler i a⟩ rest handler i a) := by
  have ledger := tidy.ledger
  have aligned : Aligned table ⟨pfd, .check handler i a⟩ := tidy.aligned _ (frames ▸ List.mem_cons_self)
  obtain ⟨reported, entry, own⟩ := aligned.here i a rfl
  have held : 0 < loops s.frames a := by
    rw [frames, loops_busy _ rfl, Function.update_self]
    exact Nat.succ_pos _
  obtain ⟨sock, found⟩ := ledger.live held
  have here : ∀ stage : Stage, stage.place = some (i, a) → ∀ (j : Nat) b,
      stage.place = some (j, b) → ∃ reported, pfd[j]? = some reported ∧ reported.owner = b := by
    intro stage place j b same
    rw [place] at same
    cases same
    exact ⟨reported, entry, own⟩
  have loops_same : ∀ stage : Stage, stage.place = some (i, a) → loops s.frames = loops (⟨pfd, stage⟩ :: rest) := by
    intro stage place
    rw [frames]
    exact (loops_enter pfd (place.trans rfl)).symm
  rw [State.checkEvent, entry]
  simp only [State.get, found, bind, Except.bind]
  split
  next =>
    refine .inr ⟨_, table, rfl, ?_⟩
    exact tidy.enter frames ledger ⟨rfl, rfl⟩ (.refl table) _
      (loops_same _ (place_behind handler i a)) (here _ (place_behind handler i a))
  next flag =>
    have flag' : handler.flag reported.revents = true := not_not.mp flag
    split
    next missing =>
      have slot : table[i]? = some (some a) := by
        have memory := careful ⟨pfd, .check handler i a⟩ (by rw [frames]; rfl) ⟨handler, i, a⟩ rfl
          reported entry sock found flag' missing
        have short := Nat.lt_of_lt_of_le (List.getElem?_eq_some_iff.mp entry).1 aligned.short
        rw [ledger.shown.memory short] at memory
        rw [List.getElem?_eq_getElem short, Option.some.inj (Option.some.inj memory)]
      obtain ⟨t, ran, same, ledger'⟩ := ledger.deactivateSlot slot
      rw [ran]
      refine .inr ⟨_, table.set i none, rfl, ?_⟩
      exact tidy.enter frames ledger' same (follows_set table i) _
        (loops_same _ (place_behind handler i a)) (here _ (place_behind handler i a))
    next =>
      refine .inr ⟨_, table, rfl, Tidy.invoke ?_ own flag'⟩
      exact tidy.enter frames ledger ⟨rfl, rfl⟩ (.refl table) _ (loops_same _ rfl) (here _ rfl)

theorem fine_release (tidy : Tidy s table) (frames : s.frames = ⟨pfd, .release i a⟩ :: rest) :
    Fine ((s.enter ⟨pfd, .release i a⟩ rest (.slot (i + 1))).release a) := by
  have ledger := tidy.ledger
  rw [frames, loops_busy _ rfl] at ledger
  have shown := ledger.shown
  have entered : Ledger (s.enter ⟨pfd, .release i a⟩ rest (.slot (i + 1))) table
      (Function.update (loops rest) a (loops rest a + 1)) :=
    ⟨⟨shown.count, shown.slots, shown.room, shown.size⟩, ledger.entry, ledger.gone, ledger.freed⟩
  obtain ⟨t, released, same, ledger'⟩ := entered.release (a := a) (by simp)
  have aligned := tidy.aligned
  rw [frames] at aligned
  obtain ⟨first, others⟩ := List.forall_mem_cons.mp aligned
  refine .inr ⟨t, table, released, ?_, ?_, ?_⟩
  · rw [same.frames]
    show Ledger t table (loops (⟨pfd, .slot (i + 1)⟩ :: rest))
    rw [loops_idle _ rfl]
    simpa using ledger'
  · rw [same.frames]
    exact List.forall_mem_cons.mpr ⟨⟨first.short, first.own, nofun⟩, others⟩
  · rw [same.invoked]
    exact tidy.invoked

theorem Tidy.stay (tidy : Tidy s table) (frames : s.frames = frame :: rest)
    (stage : Stage) (same : stage.place = frame.stage.place) : Tidy (s.enter frame rest stage) table := by
  have ledger := tidy.ledger
  have aligned : Aligned table frame := tidy.aligned _ (frames ▸ List.mem_cons_self)
  apply tidy.enter frames ledger ⟨rfl, rfl⟩ (.refl table)
  · rw [frames]
    exact (loops_enter _ same).symm
  · rw [same]
    exact aligned.here

theorem fine_visitTimeout (tidy : Tidy s table) (frames : s.frames = ⟨pfd, .timeouts i⟩ :: rest) :
    Fine (s.visitTimeout ⟨pfd, .timeouts i⟩ rest i) := by
  have ledger := tidy.ledger
  have aligned : Aligned table ⟨pfd, .timeouts i⟩ := tidy.aligned _ (frames ▸ List.mem_cons_self)
  rw [State.visitTimeout]
  split
  next => exact .inr ⟨_, table, rfl, tidy.stay frames _ rfl⟩
  next inside =>
    have short : i < table.length := Nat.lt_of_lt_of_le (Nat.lt_of_not_le inside) aligned.short
    simp only [ledger.shown.slot short, bind, Except.bind]
    cases here : table[i] with
    | none => exact .inr ⟨_, table, rfl, tidy.stay frames _ rfl⟩
    | some a =>
      have here' : table[i]? = some (some a) := by rw [List.getElem?_eq_getElem short, here]
      obtain ⟨sock, found, -⟩ := ledger.table_live here'
      simp only [State.get, found]
      refine .inr ⟨_, table, rfl, tidy.stay frames _ ?_⟩
      split <;> rfl

theorem Tidy.leave (tidy : Tidy s table) (frames : s.frames = frame :: rest)
    (idle : frame.stage.place = none) : Tidy { s with frames := rest } table where
  ledger := by
    have ledger := tidy.ledger
    rw [frames, loops_idle _ idle] at ledger
    have shown := ledger.shown
    exact ⟨⟨shown.count, shown.slots, shown.room, shown.size⟩, ledger.entry, ledger.gone, ledger.freed⟩
  aligned := fun other member => tidy.aligned other (frames ▸ List.mem_cons_of_mem _ member)
  invoked := tidy.invoked

theorem Tidy.ready (tidy : Tidy s table) (frames : s.frames = ⟨pfd, .arming⟩ :: rest) :
    Tidy { s with frames :=
      ⟨pfd.zipWith (fun entry revents => { entry with revents }) revents, .reaping⟩ :: rest }
      table where
  ledger := by
    have ledger := tidy.ledger
    have shown := ledger.shown
    rw [frames, loops_idle _ rfl] at ledger
    rw [loops_idle _ rfl]
    exact ⟨⟨shown.count, shown.slots, shown.room, shown.size⟩, ledger.entry, ledger.gone, ledger.freed⟩
  aligned := by
    have aligned := tidy.aligned
    rw [frames] at aligned
    obtain ⟨first, others⟩ := List.forall_mem_cons.mp aligned
    refine List.forall_mem_cons.mpr ⟨⟨?_, ?_, nofun⟩, others⟩
    · have short : pfd.length ≤ table.length := first.short
      simp only [List.length_zipWith]
      omega
    · intro i reported a entry here
      obtain ⟨before, flags, there, -, rfl⟩ := List.getElem?_zipWith_eq_some.mp entry
      exact first.own i before a there here
  invoked := tidy.invoked

end Loop

theorem fine_step (tidy : Tidy s table) (careful : Careful s input) : Fine (s.step input) := by
  cases input with
  | op op =>
    rw [State.step]
    split
    · exact fine_perform tidy careful
    · exact .inl rfl
  | poll polled =>
    simp only [State.step]
    split
    next pfd rest frames =>
      cases polled with
      | failed => exact .inr ⟨_, table, rfl, tidy.leave frames rfl⟩
      | interrupted => exact .inr ⟨_, table, rfl, tidy.stay frames _ rfl⟩
      | ready revents =>
        simp only
        split
        · exact .inl rfl
        · exact .inr ⟨_, table, rfl, tidy.ready frames⟩
    next => exact .inl rfl
  | ret =>
    cases frames : s.frames with
    | nil =>
      simp only [State.step, frames]
      exact .inl rfl
    | cons frame rest =>
      obtain ⟨pfd, stage⟩ := frame
      cases stage with
      | reaping =>
        simp only [State.step, frames]
        exact .inr ⟨_, table, rfl, tidy.stay frames _ rfl⟩
      | handle handler i a =>
        simp only [State.step, frames]
        exact .inr ⟨_, table, rfl, tidy.stay frames _ (place_behind handler i a)⟩
      | timeout i =>
        simp only [State.step, frames]
        exact .inr ⟨_, table, rfl, tidy.stay frames _ rfl⟩
      | interrupted | timers =>
        simp only [State.step, frames]
        exact .inr ⟨_, table, rfl, tidy.leave frames rfl⟩
      | _ =>
        simp only [State.step, frames]
        exact .inl rfl
  | next =>
    cases frames : s.frames with
    | nil =>
      simp only [State.step, frames]
      exact .inl rfl
    | cons frame rest =>
      obtain ⟨pfd, stage⟩ := frame
      cases stage with
      | slot i =>
        simp only [State.step, frames]
        exact fine_visit tidy frames
      | check handler i a =>
        simp only [State.step, frames]
        exact fine_checkEvent tidy frames careful
      | release i a =>
        simp only [State.step, frames]
        exact fine_release tidy frames
      | timeouts i =>
        simp only [State.step, frames]
        exact fine_visitTimeout tidy frames
      | _ =>
        simp only [State.step, frames]
        exact .inl rfl

/-- How many slots of the table a socket has. -/
def State.slots (s : State) (a : Addr) : Nat := (s.memory.take s.count).count (some (some a))

/-- What is to hold of the table in any state. -/
structure Accounted (s : State) : Prop where
  active : ∀ a sock, s.sockets.cells a = some sock →
    s.slots a = if sock.active = true then 1 else 0
  refcount : ∀ a sock, s.sockets.cells a = some sock →
    sock.refcount = sock.holders + loops s.frames a + s.slots a
  gone : ∀ a, s.sockets.cells a = none → s.slots a = 0
  closed : (∀ a sock, s.sockets.cells a = some sock → sock.closed ≤ 1) ∧ ∀ last ∈ s.freed, last.2 = 1
  own : ∀ call ∈ s.invoked, call.Own

theorem Tidy.accounted (tidy : Tidy s table) : Accounted s := by
  have ledger := tidy.ledger
  have slots : ∀ a, s.slots a = table.count (some a) := by
    intro a
    rw [State.slots, ledger.shown.count, ledger.shown.slots]
    exact List.count_map_of_injective _ _ (Option.some_injective _) _
  constructor
  · intro a sock found
    rw [slots]
    exact (ledger.entry a sock found).active
  · intro a sock found
    have refs := (ledger.entry a sock found).refs
    rw [slots]
    omega
  · intro a absent
    rw [slots, List.count_eq_zero]
    exact (ledger.gone a absent).1
  · refine ⟨?_, ledger.freed⟩
    intro a sock found
    rw [(ledger.entry a sock found).closed]
    split <;> omega
  · exact tidy.invoked

theorem tidy_start : Tidy {} [] where
  ledger :=
    { shown := ⟨rfl, rfl, le_rfl, rfl⟩
      entry := fun _ sock found => absurd found.symm (Option.some_ne_none sock)
      gone := fun _ _ => ⟨List.not_mem_nil, rfl⟩
      freed := List.forall_mem_nil _ }
  aligned := List.forall_mem_nil _
  invoked := List.forall_mem_nil _

/-- A careful program finds the table in order in each state, and no step of it goes wrong. -/
theorem sockets_run (inputs : List Input) (careful : Machine.Along State.step Careful {} inputs) :
    (∀ final, Machine.run State.step {} inputs = .ok final → Accounted final) ∧
      ∀ fault, Machine.run State.step {} inputs = .error fault → fault = .disabled := by
  have preserved : ∀ s input s', (∃ table, Tidy s table) → Careful s input →
      s.step input = .ok s' → ∃ table, Tidy s' table := by
    rintro s input s' ⟨table, tidy⟩ careful ran
    rcases fine_step tidy careful with disabled | ⟨t, table', moved, tidy'⟩
    · cases disabled.symm.trans ran
    · obtain rfl := Except.ok.inj (moved.symm.trans ran)
      exact ⟨table', tidy'⟩
  have harmless : ∀ s input fault, (∃ table, Tidy s table) → Careful s input →
      s.step input = .error fault → ¬ fault ≠ .disabled := by
    rintro s input fault ⟨table, tidy⟩ careful stopped
    rcases fine_step tidy careful with disabled | ⟨t, table', moved, -⟩
    · obtain rfl := Except.error.inj (disabled.symm.trans stopped)
      exact not_not.mpr rfl
    · cases moved.symm.trans stopped
  constructor
  · intro final ran
    obtain ⟨table, tidy⟩ :=
      Machine.invariant_run (fun s => ∃ table, Tidy s table) preserved ⟨[], tidy_start⟩ careful ran
    exact tidy.accounted
  · intro fault stopped
    exact not_not.mp (Machine.fault_run (fun s => ∃ table, Tidy s table) preserved harmless
      ⟨[], tidy_start⟩ careful stopped)

/-- Three active sockets with a `receive` callback. -/
def three : List Input :=
  [.op (.wrap 0 3 false), .op (.configure 0 true false false {}), .op (.activate 0),
    .op (.wrap 1 4 false), .op (.configure 1 true false false {}), .op (.activate 1),
    .op (.wrap 2 5 false), .op (.configure 2 true false false {}), .op (.activate 2)]

def readable : Flags := { input := true }

/-- The handler of the first socket waits itself, with all slots occupied, and closes the second
socket afterwards. -/
def orderly : List Input :=
  three ++ [.op .wait, .poll (.ready [readable, readable, {}]), .ret, .next, .next] ++
    [.op .wait, .poll (.ready [{}, {}, readable]), .ret] ++ List.replicate 12 .next ++ [.ret] ++
    List.replicate 8 .next ++ [.ret, .op (.close 1), .ret] ++ List.replicate 14 .next ++ [.ret]

theorem sockets_run_orderly : ∃ final, Machine.run State.step {} orderly = .ok final ∧
    final.invoked.map Invocation.sock = [2, 0] ∧ final.freed = [(1, 1)] ∧ Accounted final := by
  obtain ⟨final, ran, view⟩ := Machine.run_view State.step {} orderly
    (fun final => (final.invoked.map Invocation.sock, final.freed)) ([2, 0], [(1, 1)])
    (by decide +kernel)
  obtain ⟨invoked, freed⟩ := Prod.mk.inj view
  have careful : Machine.Along State.step Careful {} orderly :=
    Machine.along_check (fun _ _ => of_decide_eq_true) (by decide +kernel)
  exact ⟨final, ran, invoked, freed, (sockets_run orderly careful).1 final ran⟩

/-- The handler of the first socket deactivates it and waits: the other sockets move, and the
handler of the third is called for what `poll` reported of the second. -/
def shifted : List Input :=
  three ++ [.op .wait, .poll (.ready [readable, readable, {}]), .ret, .next, .next] ++
    [.op (.deactivate 0), .op .wait, .poll .failed, .ret] ++ List.replicate 5 .next

theorem sockets_shifted : ∃ final, Machine.run State.step {} shifted = .ok final ∧
    ¬ Accounted final := by
  obtain ⟨final, ran, view⟩ := Machine.run_view State.step {} shifted
    (fun final => final.invoked.map fun call => (call.sock, call.reported.owner)) [(2, 1), (0, 0)]
    (by decide +kernel)
  refine ⟨final, ran, ?_⟩
  intro accounted
  have owns : ∀ pair ∈ final.invoked.map fun call => (call.sock, call.reported.owner),
      pair.2 = pair.1 := by
    intro pair member
    obtain ⟨call, inside, rfl⟩ := List.mem_map.mp member
    exact (accounted.own call inside).1
  rw [view] at owns
  exact absurd (owns (2, 1) List.mem_cons_self) (by decide)

end Testbus.Sockets
