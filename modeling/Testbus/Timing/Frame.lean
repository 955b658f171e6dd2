import Testbus.Timing.State

namespace Testbus.Timing

variable {s s' : State} {handle : Nat} {timer other : Timer} {armed : Option Nat}
  {before : List Timer}

/-- Callbacks that leave the timers alone. -/
def silent : Nat → List Action := fun _ => []

/-- The timers that fired, in their order. -/
def firings (events : List Event) : List Timer :=
  events.filterMap fun event =>
    match event with
    | .fired timer => some timer
    | .poll _ _ _ => none

/-- The timer of that handle has fired. -/
def State.hasFired (s : State) (handle : Nat) : Bool :=
  (firings s.events).any fun timer => timer.handle = handle

/-- Every timer has a handle of its own, and none that was given out fires twice. -/
structure State.Sound (s : State) : Prop where
  given : ∀ timer ∈ s.timers.list, timer.handle < s.fresh
  once : (s.timers.list.map Timer.handle).Nodup
  fired : ∀ timer ∈ firings s.events,
    timer.handle < s.fresh ∧ timer.handle ∉ s.timers.list.map Timer.handle

theorem State.Sound.initial (timers : Timers) (empty : timers.list = []) : State.Sound { timers } where
  given := by simp [empty]
  once := by simp [empty]
  fired := by simp [firings]

/-- Some of the first timers fired, and nothing else happened to the list. -/
def Fires (s s' : State) : Prop :=
  ∃ gone, s.timers.list = gone ++ s'.timers.list ∧ firings s'.events = firings s.events ++ gone ∧
    s'.fresh = s.fresh

theorem Fires.refl (s : State) : Fires s s := ⟨[], rfl, by simp, rfl⟩

theorem Fires.trans {first second third : State} (left : Fires first second)
    (right : Fires second third) : Fires first third := by
  obtain ⟨early, list, shown, fresh⟩ := left
  obtain ⟨late, list', shown', fresh'⟩ := right
  exact ⟨early ++ late, by rw [list, list', List.append_assoc],
    by rw [shown', shown, List.append_assoc], fresh'.trans fresh⟩

theorem Fires.same (timers : s'.timers = s.timers) (events : firings s'.events = firings s.events)
    (fresh : s'.fresh = s.fresh) : Fires s s' :=
  ⟨[], by rw [timers, List.nil_append], by rw [events, List.append_nil], fresh⟩

theorem Fires.hasFired (fires : Fires s s') (fired : s.hasFired handle = true) : s'.hasFired handle = true := by
  obtain ⟨gone, _, shown, _⟩ := fires
  rw [State.hasFired, shown, List.any_append, Bool.or_eq_true]
  exact .inl fired

theorem Fires.sound (fires : Fires s s') (sound : s.Sound) : s'.Sound := by
  obtain ⟨gone, list, shown, fresh⟩ := fires
  obtain ⟨given, once, fired⟩ := sound
  rw [list] at given once fired
  rw [List.map_append] at once fired
  refine ⟨fun timer member => ?_, (List.nodup_append.mp once).2.1, fun timer member => ?_⟩
  · rw [fresh]
    exact given timer (List.mem_append_right _ member)
  · rw [fresh]
    rw [shown] at member
    rcases List.mem_append.mp member with early | late
    · exact ⟨(fired timer early).1, fun again => (fired timer early).2 (List.mem_append_right _ again)⟩
    · refine ⟨given timer (List.mem_append_left _ late), fun again => ?_⟩
      exact (List.nodup_append.mp once).2.2 _ (List.mem_map_of_mem late) _ again rfl

theorem fires_fire (first : s.timers.list = timer :: s'.timers.list)
    (same : s' = s.fire clock silent timer) : Fires s s' :=
  ⟨[timer], first, by rw [same]; simp [State.fire, silent, firings], by rw [same]; rfl⟩

/-- The loop ends after at most as many callbacks as there are timers. -/
theorem nextTimeoutLoop_fires (clock : Clock) (now : Nat) (enough : s.timers.list.length < fuel) :
    ∃ timeout s', nextTimeoutLoop clock silent now fuel s = some (timeout, s') ∧ Fires s s' := by
  induction fuel generalizing s with
  | zero => cases enough
  | succ fuel ih =>
    rw [nextTimeoutLoop]
    cases list : s.timers.list with
    | nil => exact ⟨-1, s, rfl, .refl s⟩
    | cons timer others =>
      have popped : (s.fire clock silent timer).timers.list = others := by
        simp [State.fire, silent, Timers.rest, list]
      have first : Fires s (s.fire clock silent timer) := fires_fire (by rw [popped, list]) rfl
      have shorter : (s.fire clock silent timer).timers.list.length < fuel := by
        rw [list, List.length_cons] at enough
        rw [popped]
        exact Nat.lt_of_succ_lt_succ enough
      obtain ⟨timeout, after, looped, later⟩ := ih shorter
      dsimp only
      split
      · split
        · exact ⟨_, s, rfl, .refl s⟩
        · exact ⟨timeout, after, looped, first.trans later⟩
      · exact ⟨timeout, after, looped, first.trans later⟩

theorem Fires.length_le (fires : Fires s s') : s'.timers.list.length ≤ s.timers.list.length := by
  obtain ⟨gone, list, _⟩ := fires
  rw [list, List.length_append]
  exact Nat.le_add_left _ _

theorem nextTimeout_fires (clock : Clock) (enough : s.timers.list.length < fuel) :
    ∃ timeout s', nextTimeout clock silent fuel s = some (timeout, s') ∧ Fires s s' := by
  have read : Fires s (s.getTime clock).2 := .same rfl rfl rfl
  obtain ⟨timeout, after, looped, fires⟩ :=
    nextTimeoutLoop_fires clock (s.getTime clock).1 (Nat.lt_of_le_of_lt read.length_le enough)
  exact ⟨timeout, after, looped, read.trans fires⟩

/-- A wait whose handlers leave the timers alone comes to an end, and some timers have fired. -/
theorem wait_fires (clock : Clock) (call : Call) (reaped : call.reaped = []) (handled : call.handled = [])
    (enough : s.timers.list.length < fuel) :
    ∃ result s', call.wait clock silent fuel s = some (result, s') ∧ Fires s s' := by
  have limited : Fires s (call.limit clock s).2 := by
    rw [Call.limit]
    split
    · exact .same rfl rfl rfl
    · exact .refl s
  unfold Call.wait
  generalize call.limit clock s = limits at limited
  obtain ⟨limit, start⟩ := limits
  obtain ⟨next, middle, passed, fires⟩ := nextTimeout_fires clock (Nat.lt_of_le_of_lt limited.length_le enough)
  dsimp only at passed ⊢
  rw [passed]
  simp only [Option.bind_eq_bind, Option.bind_some]
  split
  · exact ⟨-1, middle, rfl, limited.trans fires⟩
  · let polling : State := { (middle.getTime clock).2 with
      events := middle.events ++ [.poll (middle.getTime clock).1 (int (timeoutMin limit next)) middle.timers.list] }
    have polled : Fires s polling := (limited.trans fires).trans (.same rfl (by simp [polling, firings]) rfl)
    cases ended : call.polled with
    | failed => exact ⟨-1, polling, by simp only [Call.poll, ended]; rfl, polled⟩
    | interrupted => exact ⟨0, polling, by simp only [Call.poll, ended, reaped]; rfl, polled⟩
    | ready =>
      obtain ⟨_, after, passed', fires'⟩ := nextTimeout_fires clock (Nat.lt_of_le_of_lt polled.length_le enough)
      refine ⟨0, after, ?_, polled.trans fires'⟩
      simp only [Call.poll, ended, reaped, handled, List.append_nil, List.foldl_nil]
      change (nextTimeout clock silent fuel polling).bind _ = _
      rw [passed']
      rfl

theorem perm_insert (timer : Timer) (list : List Timer) : (Timers.insert timer list).Perm (timer :: list) := by
  induction list with
  | nil => exact .refl _
  | cons tail rest ih =>
    rw [Timers.insert]
    split
    · exact .refl _
    · exact (ih.cons tail).trans (.swap timer tail rest)

/-- A timer that is not asked for may be left out before or after it is inserted. -/
theorem filter_insert (out : keep timer = false) : (Timers.insert timer list).filter keep = list.filter keep := by
  induction list with
  | nil => simp [Timers.insert, out]
  | cons tail rest ih =>
    rw [Timers.insert]
    split
    · rw [List.filter_cons, if_neg (by simp [out])]
    · rw [List.filter_cons, List.filter_cons, ih]

theorem firings_act (action : Action) : firings (s.act clock action).events = firings s.events := by
  cases action with
  | register timeout => rfl
  | cancel handle => rfl
  | rearm handle timeout =>
    rw [State.act]
    split <;> rfl

/-- Handles that are not used otherwise go with the timer that they are disarmed with. -/
theorem list_disarm {timers : Timers} (once : (timers.list.map Timer.handle).Nodup) (handle : Nat) :
    (timers.disarm handle).list = timers.list.filter fun timer => timer.handle ≠ handle := by
  obtain ⟨list, sorted⟩ := timers
  change list.eraseP _ = _
  induction list with
  | nil => rfl
  | cons timer rest ih =>
    obtain ⟨apart, once⟩ := List.nodup_cons.mp once
    rw [List.eraseP_cons, List.filter_cons]
    by_cases same : timer.handle = handle
    · rw [if_neg (by simp [same]), show decide (timer.handle = handle) = true by simp [same]]
      refine (List.filter_eq_self.mpr fun other member => ?_).symm
      have different : other.handle ≠ handle := by
        rintro rfl
        exact apart (same ▸ List.mem_map_of_mem member)
      simpa using different
    · rw [if_pos (by simp [same]), show decide (timer.handle = handle) = false by simp [same]]
      exact congrArg (timer :: ·) (ih (List.pairwise_cons.mp sorted).2 once)

theorem sound_arm (sound : s.Sound) (apart : handle ∉ s.timers.list.map Timer.handle)
    (given : handle < s.fresh) (unfired : ∀ timer ∈ firings s.events, timer.handle ≠ handle)
    (timeout : UInt64) : (s.arm clock handle timeout).Sound := by
  have members := perm_insert ⟨handle, clock.time s.reads + 1000 * timeout.toNat⟩ s.timers.list
  refine ⟨fun timer member => ?_, ?_, fun timer member => ?_⟩
  · rcases List.mem_cons.mp (members.mem_iff.mp member) with rfl | member
    · exact given
    · exact sound.given timer member
  · refine ((members.map Timer.handle).nodup_iff).mpr ?_
    exact List.nodup_cons.mpr ⟨apart, sound.once⟩
  · refine ⟨(sound.fired timer member).1, fun again => ?_⟩
    rcases List.mem_cons.mp ((members.map Timer.handle).mem_iff.mp again) with same | old
    · exact unfired timer member same
    · exact (sound.fired timer member).2 old

theorem sound_disarm (sound : s.Sound) (handle : Nat) : State.Sound { s with timers := s.timers.disarm handle } := by
  have fewer : (s.timers.disarm handle).list.Sublist s.timers.list := List.eraseP_sublist
  exact ⟨fun timer member => sound.given timer (fewer.subset member), sound.once.sublist (fewer.map Timer.handle),
    fun timer member => ⟨(sound.fired timer member).1,
      fun again => (sound.fired timer member).2 ((fewer.map Timer.handle).subset again)⟩⟩

theorem State.Sound.act (sound : s.Sound) (action : Action) : (s.act clock action).Sound := by
  cases action with
  | register timeout =>
    have more : State.Sound { s with fresh := s.fresh + 1 } :=
      ⟨fun timer member => Nat.lt_succ_of_lt (sound.given timer member), sound.once,
        fun timer member => ⟨Nat.lt_succ_of_lt (sound.fired timer member).1, (sound.fired timer member).2⟩⟩
    refine sound_arm more ?_ (Nat.lt_succ_self _) ?_ timeout
    · intro member
      obtain ⟨timer, listed, same⟩ := List.mem_map.mp member
      exact absurd (sound.given timer listed) (by omega)
    · intro timer member same
      exact absurd (sound.fired timer member).1 (by omega)
  | cancel handle => exact sound_disarm sound handle
  | rearm handle timeout =>
    rw [State.act]
    split
    · rename_i armed
      obtain ⟨timer, member, same⟩ := List.any_eq_true.mp armed
      have same : timer.handle = handle := by simpa using same
      refine sound_arm (sound_disarm sound handle) ?_ (same ▸ sound.given timer member) ?_ timeout
      · intro again
        change handle ∈ (s.timers.disarm handle).list.map Timer.handle at again
        rw [list_disarm sound.once handle] at again
        obtain ⟨other, listed, equal⟩ := List.mem_map.mp again
        simp [equal] at listed
      · rintro other fired rfl
        exact (sound.fired other fired).2 (same ▸ List.mem_map_of_mem member)
    · exact sound

/-- The timers that were there before and have not fired are there still, and beside them at most
the one that was armed meanwhile. -/
structure Frame (before : List Timer) (armed : Option Nat) (s : State) : Prop where
  sound : s.Sound
  rest : s.timers.list.filter (fun timer => armed ≠ some timer.handle) =
    before.filter fun timer => timer ∉ firings s.events
  there : ∀ handle, armed = some handle → handle ∈ s.timers.list.map Timer.handle
  new : ∀ handle, armed = some handle → handle ∉ before.map Timer.handle
  old : ∀ timer ∈ before, timer.handle < s.fresh

/-- The timers are the ones from before, apart from those that fired. -/
def State.Restored (s : State) (before : List Timer) : Prop :=
  s.timers.list = before.filter fun timer => timer ∉ firings s.events

theorem State.Sound.frame (sound : s.Sound) : Frame s.timers.list none s where
  sound := sound
  rest := by
    refine List.filter_congr fun timer member => ?_
    have unfired : timer ∉ firings s.events := fun fired =>
      (sound.fired timer fired).2 (List.mem_map_of_mem member)
    simp [unfired]
  there := nofun
  new := nofun
  old := sound.given

theorem Frame.restored_iff (frame : Frame before armed s) : s.Restored before ↔ armed = none := by
  constructor
  · intro restored
    cases own : armed with
    | none => rfl
    | some handle =>
      obtain ⟨timer, member, same⟩ := List.mem_map.mp (frame.there handle own)
      rw [restored] at member
      exact absurd (same ▸ List.mem_map_of_mem (List.mem_of_mem_filter member)) (frame.new handle own)
  · rintro rfl
    simpa [State.Restored] using frame.rest

theorem Frame.register (frame : Frame before none s) (clock : Clock) (timeout : UInt64) :
    Frame before (some s.fresh) (s.act clock (.register timeout)) where
  sound := frame.sound.act _
  rest := by
    have others : s.timers.list.filter (fun timer => some s.fresh ≠ some timer.handle) =
        s.timers.list.filter fun timer => none ≠ some timer.handle := by
      refine List.filter_congr fun timer member => ?_
      have given := frame.sound.given timer member
      simpa using (Nat.ne_of_gt given)
    change (Timers.insert _ s.timers.list).filter _ = _
    rw [filter_insert (by simp), others, frame.rest]
    rfl
  there handle own := by
    obtain rfl := Option.some.inj own
    exact List.mem_map.mpr ⟨_, (perm_insert _ s.timers.list).mem_iff.mpr (List.mem_cons_self ..), rfl⟩
  new handle own member := by
    obtain rfl := Option.some.inj own
    obtain ⟨timer, listed, same⟩ := List.mem_map.mp member
    exact absurd (frame.old timer listed) (by omega)
  old timer member := Nat.lt_succ_of_lt (frame.old timer member)

theorem Frame.cancel (frame : Frame before (some handle) s) : Frame before none (s.act clock (.cancel handle)) where
  sound := frame.sound.act _
  rest := by
    change (s.timers.disarm handle).list.filter _ = _
    rw [list_disarm frame.sound.once, List.filter_eq_self.mpr (by simp)]
    refine Eq.trans (List.filter_congr fun timer _ => ?_) frame.rest
    by_cases same : timer.handle = handle
    · simp [same]
    · simp [same, Ne.symm same]
  there := nofun
  new := nofun
  old := frame.old

/-- Timers that fire are gone, the one that was armed meanwhile as well. -/
theorem Frame.fires (frame : Frame before armed s) (fires : Fires s s') :
    Frame before (armed.filter fun handle => handle ∈ s'.timers.list.map Timer.handle) s' := by
  have sound := fires.sound frame.sound
  obtain ⟨gone, list, shown, fresh⟩ := fires
  refine ⟨sound, ?_, ?_, ?_, fun timer member => fresh ▸ frame.old timer member⟩
  · have left : ∀ timer ∈ s'.timers.list, timer ∉ gone := by
      intro timer member early
      have fired : timer ∈ firings s'.events := by simp [shown, early]
      exact (sound.fired timer fired).2 (List.mem_map_of_mem member)
    calc s'.timers.list.filter (fun timer => armed.filter (fun handle =>
          handle ∈ s'.timers.list.map Timer.handle) ≠ some timer.handle)
        = (s.timers.list.filter fun timer => armed ≠ some timer.handle).filter fun timer => timer ∉ gone := by
          rw [list, List.filter_append, List.filter_append]
          have none' : ((gone.filter fun timer => armed ≠ some timer.handle).filter fun timer => timer ∉ gone) = [] := by
            refine List.filter_eq_nil_iff.mpr fun timer member => ?_
            simp [List.mem_of_mem_filter member]
          rw [none', List.nil_append, List.filter_filter]
          refine List.filter_congr fun timer member => ?_
          have stays := left timer member
          cases armed with
          | none => simp [stays]
          | some handle =>
            by_cases same : timer.handle = handle
            · have listed : handle ∈ s'.timers.list.map Timer.handle := same ▸ List.mem_map_of_mem member
              simp [Option.filter, listed, same]
            · by_cases listed : handle ∈ s'.timers.list.map Timer.handle
              · simp [Option.filter, listed, stays, Ne.symm same]
              · simp [Option.filter, listed, stays, Ne.symm same]
      _ = (before.filter fun timer => timer ∉ firings s.events).filter fun timer => timer ∉ gone := by
          rw [frame.rest]
      _ = before.filter fun timer => timer ∉ firings s'.events := by
          rw [List.filter_filter, shown]
          exact List.filter_congr fun timer _ => by simp [and_comm]
  · intro handle own
    have own := (Option.filter_eq_some_iff.mp own).2
    simpa using own
  · intro handle own
    exact frame.new handle (Option.filter_eq_some_iff.mp own).1

theorem Frame.expire (frame : Frame before armed s) (fires : Fires s s') :
    Frame before (armed.filter fun handle => !s'.hasFired handle) s' := by
  have later := frame.fires fires
  cases armed with
  | none => exact later
  | some handle =>
    have exact_ : decide (handle ∈ s'.timers.list.map Timer.handle) = !s'.hasFired handle := by
      obtain ⟨gone, list, shown, _⟩ := fires
      have there := frame.there handle rfl
      rw [list, List.map_append, List.mem_append] at there
      by_cases listed : handle ∈ s'.timers.list.map Timer.handle
      · have unfired : s'.hasFired handle = false := by
          by_contra fired
          obtain ⟨timer, member, same⟩ := List.any_eq_true.mp (Bool.not_eq_false _ ▸ fired)
          have same : timer.handle = handle := by simpa using same
          exact (later.sound.fired timer member).2 (same ▸ listed)
        rw [unfired, decide_eq_true listed, Bool.not_false]
      · obtain ⟨timer, member, same⟩ := List.mem_map.mp (there.resolve_right listed)
        have fired : s'.hasFired handle = true := by
          refine List.any_eq_true.mpr ⟨timer, ?_, by simp [same]⟩
          rw [shown]
          exact List.mem_append_right _ member
        rw [fired, decide_eq_false listed, Bool.not_true]
    simp only [Option.filter, exact_] at later
    exact later

end Testbus.Timing
