import Mathlib

namespace Testbus.Timing

/-- `ni_timer_t`; times are in microseconds. -/
structure Timer where
  handle : Nat
  expires : Nat
  deriving DecidableEq

/-- `ni_timer_list`, which is in the order of expiry. -/
structure Timers where
  list : List Timer
  sorted : list.Pairwise fun a b => a.expires ≤ b.expires

/-- A clock that never goes backwards, read by read. -/
structure Clock where
  time : Nat → Nat
  monotone : Monotone time

namespace Timers

def empty : Timers := ⟨[], List.Pairwise.nil⟩

/-- The place of a timer is in front of the first one that expires later. -/
def insert (timer : Timer) : List Timer → List Timer
  | [] => [timer]
  | tail :: rest =>
    if timer.expires < tail.expires then timer :: tail :: rest else tail :: insert timer rest

theorem mem_insert {timer other : Timer} {list : List Timer} :
    other ∈ insert timer list ↔ other = timer ∨ other ∈ list := by
  induction list with
  | nil => simp [insert]
  | cons tail rest ih =>
    rw [insert]
    split
    · simp
    · rw [List.mem_cons, ih, List.mem_cons]
      exact or_left_comm

theorem sorted_insert {list : List Timer} (sorted : list.Pairwise fun a b => a.expires ≤ b.expires) :
    (insert timer list).Pairwise fun a b => a.expires ≤ b.expires := by
  induction list with
  | nil => exact List.pairwise_singleton _ _
  | cons tail rest ih =>
    obtain ⟨first, others⟩ := List.pairwise_cons.mp sorted
    rw [insert]
    split
    next before =>
      refine List.pairwise_cons.mpr ⟨?_, sorted⟩
      intro other member
      rcases List.mem_cons.mp member with rfl | member
      · exact Nat.le_of_lt before
      · exact (Nat.le_of_lt before).trans (first other member)
    next behind =>
      refine List.pairwise_cons.mpr ⟨?_, ih others⟩
      intro other member
      rcases mem_insert.mp member with rfl | member
      · exact Nat.le_of_not_lt behind
      · exact first other member

/-- `__ni_timer_arm`, for a time of expiry -/
def arm (timers : Timers) (timer : Timer) : Timers :=
  ⟨insert timer timers.list, sorted_insert timers.sorted⟩

def disarm (timers : Timers) (handle : Nat) : Timers :=
  ⟨timers.list.eraseP fun timer => timer.handle = handle,
    timers.sorted.sublist List.eraseP_sublist⟩

/-- The list without its first timer. -/
def rest (timers : Timers) : Timers :=
  ⟨timers.list.tail, timers.sorted.sublist (List.tail_sublist _)⟩

theorem head_le {timers : Timers} (first : timers.list.head? = some timer) :
    ∀ other ∈ timers.list, timer.expires ≤ other.expires := by
  obtain ⟨list, sorted⟩ := timers
  obtain ⟨others, rfl⟩ := List.head?_eq_some_iff.mp first
  intro other member
  rcases List.mem_cons.mp member with rfl | member
  · exact le_rfl
  · exact (List.pairwise_cons.mp sorted).1 other member

end Timers

/-- What a callback or a handler does with timers. -/
inductive Action
  | register (timeout : UInt64)
  | cancel (handle : Nat)
  | rearm (handle : Nat) (timeout : UInt64)
  deriving DecidableEq

/-- What a call of `ni_socket_wait` does, seen from outside. -/
inductive Event
  | fired (timer : Timer)
  /-- `poll` is entered, with its `int` timeout, while some timers are armed. -/
  | poll (start : Nat) (timeout : Int) (armed : List Timer)
  deriving DecidableEq

structure State where
  timers : Timers
  /-- How often the clock was read. -/
  reads : Nat := 0
  /-- The handle of the next timer. -/
  fresh : Nat := 0
  /-- How many callbacks ran. -/
  calls : Nat := 0
  events : List Event := []

/-- A conversion to `long`. -/
def long (value : Int) : Int := value.bmod (2 ^ 64)

/-- A conversion to `int`. -/
def int (value : Int) : Int := value.bmod (2 ^ 32)

namespace State

variable (clock : Clock)

def getTime (s : State) : Nat × State := (clock.time s.reads, { s with reads := s.reads + 1 })

def arm (s : State) (handle : Nat) (timeout : UInt64) : State :=
  let (now, s) := s.getTime clock
  { s with timers := s.timers.arm ⟨handle, now + 1000 * timeout.toNat⟩ }

def act (s : State) : Action → State
  -- `ni_timer_register`
  | .register timeout => ({ s with fresh := s.fresh + 1 }).arm clock s.fresh timeout
  -- `ni_timer_cancel`
  | .cancel handle => { s with timers := s.timers.disarm handle }
  -- `ni_timer_rearm`
  | .rearm handle timeout =>
    if s.timers.list.any (fun timer => timer.handle = handle) then
      ({ s with timers := s.timers.disarm handle }).arm clock handle timeout
    else s

/-- `work` is what the callbacks do, one after the other. -/
def fire (work : Nat → List Action) (s : State) (timer : Timer) : State :=
  (work s.calls).foldl (act clock)
    { s with
      timers := s.timers.rest
      calls := s.calls + 1
      events := s.events ++ [.fired timer] }

end State

/-- The milliseconds to the expiry of a timer, if that is not before `now`. -/
def remaining (now : Nat) (timer : Timer) : Option Int :=
  if timer.expires < now then none
  else some (long ((timer.expires - now) / 1000 : Nat))

/-- The loop of `ni_timer_next_timeout`. -/
def nextTimeoutLoop (clock : Clock) (work : Nat → List Action) (now : Nat) :
    Nat → State → Option (Int × State)
  | 0, _ => none
  | fuel + 1, s =>
    match s.timers.list with
    | [] => some (-1, s)
    | timer :: _ =>
      match remaining now timer with
      | some timeout =>
        if 0 < timeout then some (timeout, s)
        else nextTimeoutLoop clock work now fuel (s.fire clock work timer)
      | none => nextTimeoutLoop clock work now fuel (s.fire clock work timer)

/-- `ni_timer_next_timeout`; a callback can keep it busy for ever, hence the rounds. -/
def nextTimeout (clock : Clock) (work : Nat → List Action) (fuel : Nat) (s : State) : Option (Int × State) :=
  let (now, s) := s.getTime clock
  nextTimeoutLoop clock work now fuel s

def timeoutMin (a b : Int) : Int :=
  if a < 0 then b else if b < 0 then a else if a < b then a else b

def leftToWait (clock : Clock) (expires : Nat) (s : State) : Int × State :=
  let (now, s) := s.getTime clock
  (if expires ≤ now then 0 else long ((expires - now) / 1000 : Nat), s)

/-- What `poll` returns. -/
inductive Polled
  | interrupted
  | failed
  | ready
  deriving DecidableEq

/-- A call of `ni_socket_wait` as it meets the sockets: what their `get_timeout` gives, what `poll`
returns, and what the exit callbacks and the handlers do with timers. -/
structure Call where
  timeout : Int
  sockets : List (Option Nat)
  polled : Polled
  reaped : List Action
  handled : List Action

/-- The earliest expiry of the sockets, with zero for none. -/
def socketExpires (sockets : List (Option Nat)) : Nat :=
  sockets.foldl (fun expires socket =>
    match socket with
    | none => expires
    | some socketExpires =>
      if expires = 0 || socketExpires < expires then socketExpires else expires) 0

/-- The requested timeout, but no longer than the sockets want to wait. -/
def Call.limit (call : Call) (clock : Clock) (s : State) : Int × State :=
  let expires := socketExpires call.sockets
  if expires ≠ 0 then
    let (left, s) := leftToWait clock expires s
    (timeoutMin call.timeout left, s)
  else (call.timeout, s)

/-- `ni_socket_wait` from `poll` on -/
def Call.poll (call : Call) (clock : Clock) (work : Nat → List Action) (fuel : Nat) (timeout : Int)
    (s : State) : Option (Int × State) :=
  let (start, s) := s.getTime clock
  let s := { s with events := s.events ++ [.poll start (int timeout) s.timers.list] }
  match call.polled with
  | .failed => some (-1, s)
  | .interrupted => some (0, call.reaped.foldl (State.act clock) s)
  | .ready => do
    let s := (call.reaped ++ call.handled).foldl (State.act clock) s
    let (_, s) ← nextTimeout clock work fuel s
    some (0, s)

def Call.wait (call : Call) (clock : Clock) (work : Nat → List Action) (fuel : Nat) (s : State) :
    Option (Int × State) := do
  let (limit, s) := call.limit clock s
  let (next, s) ← nextTimeout clock work fuel s
  let timeout := timeoutMin limit next
  if call.sockets = [] && timeout < 0 then some (-1, s)
  else call.poll clock work fuel timeout s

end Testbus.Timing
