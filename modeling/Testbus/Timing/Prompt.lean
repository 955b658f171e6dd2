import Testbus.Timing.State

namespace Testbus.Timing

variable {call : Call}

/-- A call that misses no timer: it does not wait in `poll` behind a callback, so that its caller
can look at the flag of an alarm, and it does not wait for longer than until the earliest expiry. -/
def Prompt (events : List Event) : Prop :=
  ∀ before (start : Nat) timeout armed after, events = before ++ .poll start timeout armed :: after →
    timeout ≠ 0 → (∀ timer, .fired timer ∉ before) ∧
      ∀ timer ∈ armed, 0 ≤ timeout ∧ (start : Int) + 1000 * timeout ≤ timer.expires

/-! ## The limits of a wait -/

/-- Milliseconds in a `long`, if they do not come out negative there. -/
def countable (ms : Nat) : Option Nat := if ms % 2 ^ 64 < 2 ^ 63 then some (ms % 2 ^ 64) else none

/-- The milliseconds from a time to an expiry. -/
def msLeft (now expires : Nat) : Option Nat := countable ((expires - now) / 1000)

/-- The earliest expiry of the sockets, of those behind the last one that is zero. -/
def leastExpiry (sockets : List (Option Nat)) : Option Nat :=
  (sockets.reduceOption.rtakeWhile (· ≠ 0)).min?

/-- The limits that a call has at a time: the one that was asked for, and that of the sockets. -/
def Call.limits (call : Call) (now : Nat) : List Nat :=
  (if 0 ≤ call.timeout then [call.timeout.toNat] else []) ++
    ((leastExpiry call.sockets).bind (msLeft now)).toList

/-- The limit that is set by the first timer. -/
def Timers.limits (timers : Timers) (now : Nat) : List Nat :=
  (timers.list.head?.bind fun timer => msLeft now timer.expires).toList

/-- No millisecond is left of the timer. -/
def overdue (now : Nat) (timer : Timer) : Bool := (msLeft now timer.expires).all (· = 0)

/-- The first timers are called back, as long as they are overdue. -/
inductive CallsBack (clock : Clock) (work : Nat → List Action) (now : Nat) : State → State → Prop
  | done {s : State} (rest : s.timers.list.head?.any (overdue now) = false) : CallsBack clock work now s s
  | fire {s s' : State} {timer : Timer} (first : s.timers.list.head? = some timer) (late : overdue now timer = true)
    (later : CallsBack clock work now (s.fire clock work timer) s') : CallsBack clock work now s s'

/-- How often the clock has been read when the timers are looked at. -/
def Call.looks (call : Call) (s : State) : Nat :=
  s.reads + if (leastExpiry call.sockets).isSome then 1 else 0

/-- The call does not miss a timer. While the first one is not overdue, the least limit, as an `int`, is zero
or ends in time, counted from when `poll` is entered; otherwise the callbacks leave nothing to wait for. -/
def Timely (call : Call) (clock : Clock) (work : Nat → List Action) (s : State) : Prop :=
  let now := clock.time (call.looks s)
  let limits (timers : Timers) := call.limits (clock.time s.reads) ++ timers.limits now
  if s.timers.list.head?.any (overdue now) then
    ∀ s', CallsBack clock work now { s with reads := call.looks s + 1 } s' →
      call.sockets = [] ∧ limits s'.timers = [] ∨ ∃ ms, (limits s'.timers).min? = some ms ∧ ms % 2 ^ 32 = 0
  else
    ∀ timer, s.timers.list.head? = some timer → ∀ ms, (limits s.timers).min? = some ms →
      ms % 2 ^ 32 = 0 ∨ ms % 2 ^ 32 < 2 ^ 31 ∧ clock.time (call.looks s + 1) + 1000 * (ms % 2 ^ 32) ≤ timer.expires

/-- A `long` stands for the least of some limits, and for none if it is negative. -/
def Stands (value : Int) (limits : List Nat) : Prop := limits.min? = if value < 0 then none else some value.toNat

section Limits

variable {left right : List Nat}

theorem Stands.append (first : Stands a left) (second : Stands b right) : Stands (timeoutMin a b) (left ++ right) := by
  unfold Stands timeoutMin at *
  by_cases negative : a < 0
  · rw [if_pos negative, List.min?_eq_none_iff] at first
    rw [first, List.nil_append, if_pos negative, second]
  by_cases negative' : b < 0
  · rw [if_pos negative', List.min?_eq_none_iff] at second
    rw [second, List.append_nil, if_neg negative, if_pos negative', first]
  rw [if_neg negative, List.min?_eq_some_iff] at first
  rw [if_neg negative', List.min?_eq_some_iff] at second
  rw [if_neg negative, if_neg negative']
  split <;> simp only [*, List.min?_eq_some_iff] <;> grind

theorem stands_long (ms : Nat) : Stands (long ms) (countable ms).toList := by
  unfold Stands long countable
  rw [Int.bmod_def]
  split_ifs <;> simp <;> omega

theorem socketExpires_eq (sockets : List (Option Nat)) : socketExpires sockets = (leastExpiry sockets).getD 0 := by
  induction sockets using List.reverseRecOn with
  | nil => rfl
  | append_singleton sockets socket ih =>
    unfold socketExpires leastExpiry at *
    rw [List.foldl_append, List.foldl_cons, List.foldl_nil, ih, List.reduceOption_append]
    cases socket with
    | none => simp
    | some expires =>
      rw [List.reduceOption_singleton, Option.toList_some, List.rtakeWhile_concat]
      by_cases zero : expires = 0
      · simp only [zero, ne_eq, not_true, decide_false, Bool.false_eq_true, if_false, List.min?_nil, Option.getD_none]
        split <;> simp_all
      · simp only [zero, ne_eq, not_false_eq_true, decide_true, if_true]
        cases least : (sockets.reduceOption.rtakeWhile (· ≠ 0)).min? with
        | none =>
          rw [List.min?_eq_none_iff] at least
          rw [least]
          simp
        | some earlier =>
          obtain ⟨member, before⟩ := List.min?_eq_some_iff.mp least
          have nonzero : earlier ≠ 0 := by simpa using List.mem_rtakeWhile_imp member
          have both : (sockets.reduceOption.rtakeWhile (· ≠ 0) ++ [expires]).min? = some (min expires earlier) := by
            rw [List.min?_eq_some_iff]
            grind
          simp only [ne_eq] at both
          simp only [both, Option.getD_some, nonzero]
          grind

theorem leastExpiry_pos (least : leastExpiry sockets = some expires) : expires ≠ 0 := by
  obtain ⟨member, -⟩ := List.min?_eq_some_iff.mp least
  simpa using List.mem_rtakeWhile_imp member

end Limits

/-- The timer has expired or has less than a millisecond left. -/
def due (now : Nat) (timer : Timer) : Bool := (remaining now timer).all (· ≤ 0)

/-- What `ni_timer_next_timeout` returns when no timer is due. -/
def left (now : Nat) (timers : Timers) : Int :=
  (timers.list.head?.bind (remaining now)).getD (-1)

theorem act_events (s : State) (action : Action) : (s.act clock action).events = s.events := by
  cases action with
  | register timeout => rfl
  | cancel handle => rfl
  | rearm handle timeout =>
    rw [State.act]
    split <;> rfl

theorem actions_events (actions : List Action) (s : State) : (actions.foldl (State.act clock) s).events = s.events := by
  induction actions generalizing s with
  | nil => rfl
  | cons action actions ih => rw [List.foldl_cons, ih, act_events]

theorem fire_events (s : State) (timer : Timer) : (s.fire clock work timer).events = s.events ++ [.fired timer] := by
  rw [State.fire, actions_events]

theorem nextTimeoutLoop_none (none_ : s.timers.list = []) :
    nextTimeoutLoop clock work now (fuel + 1) s = some (-1, s) := by
  rw [nextTimeoutLoop, none_]

theorem nextTimeoutLoop_due (first : s.timers.list = timer :: others) (late : due now timer = true) :
    nextTimeoutLoop clock work now (fuel + 1) s = nextTimeoutLoop clock work now fuel (s.fire clock work timer) := by
  rw [nextTimeoutLoop, first]
  cases same : remaining now timer with
  | none => simp only [same]
  | some timeout =>
    have small : timeout ≤ 0 := by simpa [due, same] using late
    simp only [same, if_neg (Int.not_lt.mpr small)]

theorem nextTimeoutLoop_early (first : s.timers.list = timer :: others) (early : due now timer = false) :
    nextTimeoutLoop clock work now (fuel + 1) s = some (left now s.timers, s) := by
  rw [nextTimeoutLoop, left, first]
  cases same : remaining now timer with
  | none => simp [due, same] at early
  | some timeout =>
    have large : 0 < timeout := by simpa [due, same] using early
    simp [same, large]

theorem due_eq (now : Nat) (timer : Timer) : due now timer = overdue now timer := by
  unfold due remaining overdue msLeft countable long
  rw [Int.bmod_def]
  split_ifs <;> simp <;> omega

/-- What the loop over the timers leaves: it has called those that were due. -/
theorem loop_callsBack (ran : nextTimeoutLoop clock work now fuel s = some (timeout, s')) :
    timeout = left now s'.timers ∧ CallsBack clock work now s s' := by
  induction fuel generalizing s with
  | zero => cases ran
  | succ fuel ih =>
    cases first : s.timers.list with
    | nil =>
      rw [nextTimeoutLoop_none first] at ran
      cases ran
      exact ⟨by simp [left, first], .done (by simp [first])⟩
    | cons timer others =>
      cases late : due now timer with
      | false =>
        rw [nextTimeoutLoop_early first late] at ran
        cases ran
        exact ⟨rfl, .done (by simp [first, ← due_eq, late])⟩
      | true =>
        rw [nextTimeoutLoop_due first late] at ran
        obtain ⟨timeout_, later⟩ := ih ran
        exact ⟨timeout_, .fire (by rw [first]; rfl) (due_eq now timer ▸ late) later⟩

theorem CallsBack.rest (fires : CallsBack clock work now s s') : s'.timers.list.head?.any (overdue now) = false := by
  induction fires with
  | done rest => exact rest
  | fire _ _ _ ih => exact ih

theorem CallsBack.events (fires : CallsBack clock work now s s') : ∃ fired : List Timer,
    s'.events = s.events ++ fired.map .fired ∧ (fired = [] ↔ s.timers.list.head?.any (overdue now) = false) := by
  induction fires with
  | done rest => exact ⟨[], by simp, by simp [rest]⟩
  | @fire s s' timer first late _ ih =>
    obtain ⟨fired, events, -⟩ := ih
    refine ⟨timer :: fired, ?_, by simp [first, late]⟩
    rw [events, fire_events, List.append_assoc]
    rfl

theorem CallsBack.unique (one : CallsBack clock work now s s') (other : CallsBack clock work now s s'') : s' = s'' := by
  induction one with
  | done rest =>
    cases other with
    | done _ => rfl
    | fire first late _ => simp [first, late] at rest
  | fire first late _ ih =>
    cases other with
    | done rest => simp [first, late] at rest
    | fire first' _ later =>
      cases first.symm.trans first'
      exact ih later

/-- What `ni_timer_next_timeout` returns stands for the limit that the first timer sets. -/
theorem stands_left (rest : timers.list.head?.any (overdue now) = false) :
    -1 ≤ left now timers ∧ Stands (left now timers) (timers.limits now) := by
  unfold left Timers.limits
  cases first : timers.list.head? with
  | none => exact ⟨Int.le_refl _, rfl⟩
  | some timer =>
    have early : due now timer = false := by simpa [first, due_eq] using rest
    cases same : remaining now timer with
    | none => simp [due, same] at early
    | some timeout =>
      have large : 0 < timeout := by simpa [due, same] using early
      simp only [Option.bind_some, same, Option.getD_some]
      refine ⟨by omega, ?_⟩
      unfold remaining at same
      split at same
      · cases same
      · exact Option.some.inj same ▸ stands_long _

/-- The least of the limits of a call, and the reading of the clock that it takes. -/
theorem limit_stands (call : Call) (clock : Clock) (s : State) :
    Stands (call.limit clock s).1 (call.limits (clock.time s.reads)) ∧
      (call.limit clock s).2 = { s with reads := call.looks s } := by
  have asked : Stands call.timeout (if 0 ≤ call.timeout then [call.timeout.toNat] else []) := by
    unfold Stands
    split_ifs <;> first | omega | simp
  unfold Call.limit Call.limits Call.looks
  rw [socketExpires_eq]
  cases least : leastExpiry call.sockets with
  | none => exact ⟨by simpa using asked, rfl⟩
  | some expires =>
    have set := leastExpiry_pos least
    have left : Stands (leftToWait clock expires s).1 (msLeft (clock.time s.reads) expires).toList := by
      unfold leftToWait State.getTime msLeft
      dsimp only
      split
      case isTrue past =>
        rw [Nat.sub_eq_zero_of_le past]
        exact stands_long 0
      · exact stands_long _
    rw [Option.getD_some, if_pos set]
    exact ⟨asked.append left, rfl⟩

theorem timeoutMin_least (bound : -1 ≤ b) : -1 ≤ timeoutMin a b := by
  unfold timeoutMin
  split_ifs <;> omega

theorem Stands.neg_iff (stands : Stands value limits) : value < 0 ↔ limits = [] := by
  rw [← List.min?_eq_none_iff, stands]
  split <;> simp [*]

theorem Stands.int_eq_zero (stands : Stands value limits) (bound : -1 ≤ value) :
    int value = 0 ↔ ∃ ms, limits.min? = some ms ∧ ms % 2 ^ 32 = 0 := by
  rw [stands, int, Int.bmod_def]
  split <;> simp <;> omega

/-- A wait for the timers that are armed ends in time. -/
def Fits (start : Nat) (timeout : Int) (timers : Timers) : Prop :=
  ∀ timer ∈ timers.list.head?, 0 ≤ timeout ∧ (start : Int) + 1000 * timeout ≤ timer.expires

theorem fits_iff :
    Fits start timeout timers ↔ ∀ timer ∈ timers.list, 0 ≤ timeout ∧ (start : Int) + 1000 * timeout ≤ timer.expires := by
  constructor
  · intro fits other member
    cases first : timers.list.head? with
    | none =>
      rw [List.head?_eq_none_iff] at first
      rw [first] at member
      cases member
    | some timer =>
      obtain ⟨forward, ends⟩ := fits timer first
      have least := Timers.head_le first other member
      exact ⟨forward, by omega⟩
  · intro each timer first
    exact each timer (List.mem_of_mem_head? first)

theorem poll_not_fired {fired : List Timer} {start : Nat} {timeout : Int} {armed : List Timer} :
    Event.poll start timeout armed ∉ fired.map Event.fired := by
  intro member
  obtain ⟨timer, -, same⟩ := List.mem_map.mp member
  cases same

theorem prompt_fired (fired : List Timer) : Prompt (fired.map .fired) := by
  intro before start timeout armed after split
  have member : Event.poll start timeout armed ∈ fired.map Event.fired := by
    rw [split]
    exact List.mem_append_right _ List.mem_cons_self
  exact absurd member poll_not_fired

theorem prompt_iff {fired later : List Timer} {start : Nat} {timeout : Int} {timers : Timers} :
    Prompt (fired.map .fired ++ .poll start timeout timers.list :: later.map .fired) ↔
      timeout = 0 ∨ fired = [] ∧ Fits start timeout timers := by
  constructor
  · intro prompt
    by_cases zero : timeout = 0
    · exact .inl zero
    obtain ⟨quiet, fits⟩ := prompt _ _ _ _ _ rfl zero
    refine .inr ⟨?_, fits_iff.mpr fits⟩
    rw [List.eq_nil_iff_forall_not_mem]
    exact fun timer member => quiet timer (List.mem_map_of_mem member)
  · intro kept before start' timeout' armed after split nonzero
    -- the one `poll` of the call is at the one place where the two texts agree
    have place : before = fired.map .fired ∧
        Event.poll start timeout timers.list :: later.map .fired = .poll start' timeout' armed :: after := by
      rcases List.append_eq_append_iff.mp split with ⟨c, front, back⟩ | ⟨c, front, back⟩
      · cases c with
        | nil => exact ⟨by simpa using front, by simpa using back⟩
        | cons event c =>
          obtain ⟨rfl, rest⟩ := List.cons.inj back
          have member : Event.poll start' timeout' armed ∈ later.map Event.fired := by
            rw [rest]
            exact List.mem_append_right _ List.mem_cons_self
          exact absurd member poll_not_fired
      · cases c with
        | nil => exact ⟨by simpa using front.symm, by simpa using back.symm⟩
        | cons event c =>
          obtain ⟨rfl, rest⟩ := List.cons.inj back
          have member : Event.poll start' timeout' armed ∈ fired.map Event.fired := by
            rw [front]
            exact List.mem_append_right _ List.mem_cons_self
          exact absurd member poll_not_fired
    obtain ⟨rfl, same⟩ := place
    obtain ⟨same, -⟩ := List.cons.inj same
    cases same
    obtain ⟨rfl, fits⟩ := kept.resolve_left nonzero
    exact ⟨nofun, fits_iff.mp fits⟩

theorem nextTimeout_events (ran : nextTimeout clock work fuel s = some (next, s')) :
    ∃ fired : List Timer, s'.events = s.events ++ fired.map .fired := by
  obtain ⟨fired, events, -⟩ := (loop_callsBack ran).2.events
  exact ⟨fired, events⟩

theorem poll_events (ran : call.poll clock work fuel timeout s = some (result, s')) :
    ∃ later : List Timer, s'.events = s.events ++
      .poll (clock.time s.reads) (int timeout) s.timers.list :: later.map .fired := by
  unfold Call.poll at ran
  cases polled : call.polled with
  | failed =>
    simp only [polled] at ran
    cases ran
    exact ⟨[], rfl⟩
  | interrupted =>
    simp only [polled] at ran
    cases ran
    exact ⟨[], by rw [actions_events]; rfl⟩
  | ready =>
    simp only [polled, Option.bind_eq_bind, Option.bind_eq_some_iff] at ran
    obtain ⟨⟨next, s₂⟩, passed, ended⟩ := ran
    cases ended
    obtain ⟨later, events⟩ := nextTimeout_events passed
    refine ⟨later, ?_⟩
    rw [events, actions_events, List.append_assoc]
    rfl

/-- A call that returns has kept to the timers exactly when it was timely. -/
theorem wait_prompt_iff {result : Int} (returns : call.wait clock work fuel s = some (result, s')) :
    Prompt (s'.events.drop s.events.length) ↔ Timely call clock work s := by
  unfold Call.wait at returns
  unfold Timely
  obtain ⟨asked, read⟩ := limit_stands call clock s
  generalize call.limit clock s = limited at *
  obtain ⟨limit, s₁⟩ := limited
  simp only at asked read
  subst read
  simp only [Option.bind_eq_bind, Option.bind_eq_some_iff] at returns
  obtain ⟨⟨next, s₂⟩, ran, returns⟩ := returns
  obtain ⟨rfl, fires⟩ := loop_callsBack ran
  obtain ⟨fired, log, idle_iff⟩ := fires.events
  obtain ⟨bound, least⟩ := stands_left fires.rest
  have stands := asked.append least
  have bound' := timeoutMin_least (a := limit) bound
  generalize timeoutMin limit (left _ s₂.timers) = timeout at returns stands bound'
  -- what came of the call
  have outcome : Prompt (s'.events.drop s.events.length) ↔
      (call.sockets = [] ∧ timeout < 0) ∨ int timeout = 0 ∨
        fired = [] ∧ Fits (clock.time s₂.reads) (int timeout) s₂.timers := by
    by_cases idle : call.sockets = [] ∧ timeout < 0
    · rw [if_pos (by simpa using idle)] at returns
      cases returns
      rw [log, List.drop_left]
      exact ⟨fun _ => .inl idle, fun _ => prompt_fired fired⟩
    · rw [if_neg (by simpa using idle)] at returns
      obtain ⟨later, events'⟩ := poll_events returns
      rw [events', log, List.append_assoc, List.drop_left, prompt_iff]
      exact ⟨.inr, fun kept => kept.resolve_left idle⟩
  rw [outcome, stands.neg_iff, stands.int_eq_zero bound']
  dsimp only
  cases late : s.timers.list.head?.any (overdue (clock.time (call.looks s))) with
  | true =>
    have called : fired ≠ [] := fun none_ => by
      have early := idle_iff.mp none_
      rw [late] at early
      cases early
    rw [if_pos rfl]
    constructor
    · rintro kept other fires'
      obtain rfl := fires.unique fires'
      exact kept.imp_right fun kept => kept.resolve_right fun none_ => called none_.1
    · exact fun all => (all s₂ fires).imp_right .inl
  | false =>
    obtain rfl : s₂ = { s with reads := call.looks s + 1 } := (fires.unique (.done late))
    have silent : fired = [] := idle_iff.mpr late
    rw [if_neg nofun]
    simp only [silent, true_and]
    -- a first timer that is not overdue sets a limit of its own
    have limited : ∀ timer ∈ s.timers.list.head?, 0 ≤ timeout := by
      intro timer first
      have early : overdue (clock.time (call.looks s)) timer = false := by simpa [Option.mem_def.mp first] using late
      have set : (msLeft (clock.time (call.looks s)) timer.expires).toList ≠ [] := by
        intro none_
        simp [overdue, Option.toList_eq_nil_iff.mp none_] at early
      by_contra negative
      have empty := stands.neg_iff.mp (by omega)
      rw [List.append_eq_nil_iff, Timers.limits, Option.mem_def.mp first] at empty
      exact set empty.2
    unfold Fits
    cases first : s.timers.list.head? with
    | none => exact iff_of_true (.inr (.inr nofun)) nofun
    | some timer =>
      have forward := limited timer first
      have least : List.min? _ = _ := stands.trans (if_neg (by omega))
      have wraps : int timeout = ((timeout.toNat % 2 ^ 32 : Nat) : Int) ∧ timeout.toNat % 2 ^ 32 < 2 ^ 31 ∨
          int timeout < 0 ∧ 2 ^ 31 ≤ timeout.toNat % 2 ^ 32 := by
        rw [int, Int.bmod_def]
        split_ifs <;> omega
      have some_ : call.limits (clock.time s.reads) ++ s.timers.limits (clock.time (call.looks s)) ≠ [] := by
        rintro none_
        simp [none_] at least
      simp only [least, Option.some.injEq, exists_eq_left', forall_eq', Option.mem_def, some_, and_false, false_or]
      omega

/-- One socket, and an alarm that expires after a millisecond. -/
def alarmState : State := { timers := Timers.empty.arm ⟨0, 1000⟩, fresh := 1 }

def alarmCall : Call :=
  { timeout := -1, sockets := [none], polled := .ready, reaped := [], handled := [] }

/-- The clock stands still: the wait ends when the alarm expires. -/
theorem wait_prompt_in_time : ∃ result s', alarmCall.wait ⟨fun _ => 0, monotone_const⟩
    (fun _ => []) 4 alarmState = some (result, s') ∧
      Prompt (s'.events.drop alarmState.events.length) := by
  have returns : (alarmCall.wait ⟨fun _ => 0, monotone_const⟩ (fun _ => []) 4
      alarmState).isSome = true := by decide +kernel
  obtain ⟨⟨result, s'⟩, ran⟩ := Option.isSome_iff_exists.mp returns
  refine ⟨result, s', ran, (wait_prompt_iff ran).mpr ?_⟩
  rintro timer ⟨rfl⟩ ms ⟨rfl⟩
  decide

/-- The alarm expires before the timers are looked at: `poll` waits without an end behind its
callback. -/
theorem wait_not_prompt : ¬ ∀ (clock : Clock) (work : Nat → List Action) (fuel : Nat) (s s' : State)
    (call : Call) (result : Int), call.wait clock work fuel s = some (result, s') →
      Prompt (s'.events.drop s.events.length) := by
  intro claimed
  have log : (alarmCall.wait ⟨fun _ => 2000, monotone_const⟩ (fun _ => []) 4 alarmState).map
      (fun returned => returned.2.events) =
        some [.fired ⟨0, 1000⟩, .poll 2000 (-1) []] := by decide +kernel
  obtain ⟨⟨result, s'⟩, ran, events⟩ := Option.map_eq_some_iff.mp log
  have prompt := claimed _ _ _ _ _ _ _ ran
  rw [events] at prompt
  have quiet := (prompt [.fired ⟨0, 1000⟩] 2000 (-1) [] [] rfl (by decide)).1 ⟨0, 1000⟩
  exact quiet List.mem_cons_self

end Testbus.Timing
