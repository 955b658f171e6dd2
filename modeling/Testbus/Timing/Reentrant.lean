import Testbus.Lib.Machine
import Testbus.Timing.Frame
import Testbus.Timing.Prompt

namespace Testbus.Timing.Reentrant

open Lib

/-- A call of `ni_timer_next_timeout` with the time that it read, and the timer whose callback it
is in. That timer is off the list, and its memory is freed afterwards. -/
structure Call where
  now : Nat
  running : Option Timer := none
  deriving DecidableEq

/-- The timers and the calls that have not returned, the innermost one first. The armings are
numbered: `serial` has the last one of each handle, and the others are behind a timer that `fired`
or were `dropped` by `ni_timer_cancel` or `ni_timer_rearm`. -/
structure State where
  timers : Timers := .empty
  calls : List Call := []
  clock : Nat := 0
  armings : Nat := 0
  serial : Nat → Nat := fun _ => 0
  fired : List Nat := []
  dropped : List Nat := []

inductive Op
  /-- The memory of the timer is at `handle`. -/
  | register (handle : Nat) (timeout : UInt64) (now : Nat)
  | cancel (handle : Nat)
  | rearm (handle : Nat) (timeout : UInt64) (now : Nat)
  | nextTimeout (now : Nat)
  /-- A round in the loop of the innermost call. -/
  | round
  /-- The callback comes to its end. -/
  | finish
  deriving DecidableEq

namespace State

/-- No timer is armed. -/
def initial : State := {}

def handles (s : State) : List Nat := s.timers.list.map Timer.handle

def running (s : State) : List Timer := s.calls.filterMap Call.running

/-- It is the program's turn: nothing is being called, or a callback runs. -/
def ready (s : State) : Bool :=
  match s.calls with
  | [] => true
  | call :: _ => call.running.isSome

def arm (s : State) (handle : Nat) (timeout : UInt64) (now : Nat) : State :=
  { s with
    timers := s.timers.arm ⟨handle, now + 1000 * timeout.toNat⟩
    clock := now
    armings := s.armings + 1
    serial := Function.update s.serial handle s.armings }

def disarm (s : State) (handle : Nat) : State :=
  if handle ∈ s.handles then
    { s with
      timers := s.timers.disarm handle
      dropped := s.dropped ++ [s.serial handle] }
  else s

/-- The loop of `ni_timer_next_timeout` calls back the first timer if it is due, and otherwise
returns. -/
def loop (s : State) (now : Nat) (outer : List Call) : State :=
  match s.timers.list with
  | [] => { s with calls := outer }
  | timer :: _ =>
    if due now timer then
      { s with
        timers := s.timers.rest
        calls := ⟨now, some timer⟩ :: outer
        fired := s.fired ++ [s.serial timer.handle] }
    else { s with calls := outer }

end State

/-- The clock does not go backwards, and `xcalloc` returns memory that is not in use. -/
def step (s : State) : Op → Except Machine.Disabled State
  | .register handle timeout now =>
    if s.ready ∧ s.clock ≤ now ∧ handle ∉ s.handles ++ s.running.map Timer.handle then
      .ok (s.arm handle timeout now)
    else .error .disabled
  | .cancel handle => if s.ready then .ok (s.disarm handle) else .error .disabled
  | .rearm handle timeout now =>
    if s.ready ∧ s.clock ≤ now then
      .ok (if handle ∈ s.handles then (s.disarm handle).arm handle timeout now else s)
    else .error .disabled
  | .nextTimeout now =>
    if s.ready ∧ s.clock ≤ now then .ok { s with calls := ⟨now, none⟩ :: s.calls, clock := now }
    else .error .disabled
  | .round =>
    match s.calls with
    | ⟨now, none⟩ :: outer => .ok (s.loop now outer)
    | _ => .error .disabled
  | .finish =>
    match s.calls with
    | ⟨now, some _⟩ :: outer => .ok { s with calls := ⟨now, none⟩ :: outer }
    | _ => .error .disabled

/-- What an operation does where it is possible. -/
def Moves (s : State) (op : Op) (s' : State) : Prop :=
  match op with
  | .register handle timeout now =>
    handle ∉ s.handles ∧ handle ∉ s.running.map Timer.handle ∧ s' = s.arm handle timeout now
  | .cancel handle => s' = s.disarm handle
  | .rearm handle timeout now =>
    s' = if handle ∈ s.handles then (s.disarm handle).arm handle timeout now else s
  | .nextTimeout now => s' = { s with calls := ⟨now, none⟩ :: s.calls, clock := now }
  | .round => ∃ now outer, s.calls = ⟨now, none⟩ :: outer ∧ s' = s.loop now outer
  | .finish => ∃ now timer outer, s.calls = ⟨now, some timer⟩ :: outer ∧
      s' = { s with calls := ⟨now, none⟩ :: outer }

theorem of_possible [Decidable possible] (moved : (if possible then .ok s else .error .disabled : Except Machine.Disabled State) = .ok s') :
    possible ∧ s = s' := by
  split at moved
  next here => exact ⟨here, Except.ok.inj moved⟩
  next => cases moved

theorem moves_of_step (moved : step s op = .ok s') : Moves s op s' := by
  cases op with
  | register | cancel | rearm | nextTimeout =>
    obtain ⟨possible, rfl⟩ := of_possible moved
    first
    | exact rfl
    | exact ⟨fun listed => possible.2.2 (List.mem_append_left _ listed),
        fun running => possible.2.2 (List.mem_append_right _ running), rfl⟩
  | round =>
    simp only [step] at moved
    split at moved
    next calls => exact ⟨_, _, calls, (Except.ok.inj moved).symm⟩
    next => cases moved
  | finish =>
    simp only [step] at moved
    split at moved
    next calls => exact ⟨_, _, _, calls, (Except.ok.inj moved).symm⟩
    next => cases moved

/-- What holds between the new timer and the others, on the side where they come to be, holds
between any two in the order of the list. -/
theorem pairwise_insert
    (sorted : list.Pairwise fun a b => a.expires ≤ b.expires)
    (before : ∀ other ∈ list, other.expires ≤ timer.expires → R other timer)
    (behind : ∀ other ∈ list, timer.expires < other.expires → R timer other)
    (related : list.Pairwise R) : (Timers.insert timer list).Pairwise R := by
  induction list with
  | nil => exact List.pairwise_singleton _ _
  | cons tail rest ih =>
    obtain ⟨first, others⟩ := List.pairwise_cons.mp sorted
    obtain ⟨here, later⟩ := List.pairwise_cons.mp related
    rw [Timers.insert]
    split
    next early =>
      refine List.pairwise_cons.mpr ⟨fun other member => ?_, related⟩
      refine behind other member ?_
      rcases List.mem_cons.mp member with rfl | member
      · exact early
      · exact Nat.lt_of_lt_of_le early (first other member)
    next late =>
      refine List.pairwise_cons.mpr ⟨fun other member => ?_, ?_⟩
      · rcases Timers.mem_insert.mp member with rfl | member
        · exact before tail List.mem_cons_self (Nat.le_of_not_lt late)
        · exact here other member
      · exact ih others (fun other member => before other (List.mem_cons_of_mem _ member))
          (fun other member => behind other (List.mem_cons_of_mem _ member)) later

section Invariant

namespace State

/-- The armings of the timers that are listed. -/
def serials (s : State) : List Nat := s.timers.list.map fun timer => s.serial timer.handle

/-- Sorted by expiry, and in the order of arming where two expire at once. -/
def Ordered (s : State) : Prop :=
  s.timers.list.Pairwise fun a b => a.expires < b.expires ∨
    a.expires = b.expires ∧ s.serial a.handle < s.serial b.handle

/-- Each arming is in one of three places, and there once: its timer is listed, or has fired, or
was dropped. -/
def Accounted (s : State) : Prop :=
  (s.serials ++ s.fired ++ s.dropped).Perm (List.range s.armings)

/-- No two timers that are listed or run have the same memory. -/
def Apart (s : State) : Prop := (s.handles ++ s.running.map Timer.handle).Nodup

end State

structure Inv (s : State) : Prop where
  apart : s.Apart
  ordered : s.Ordered
  accounted : s.Accounted

theorem Inv.initial : Inv .initial where
  apart := List.nodup_nil
  ordered := List.Pairwise.nil
  accounted := .nil

variable {s : State} {handle : Nat}

theorem Inv.once (inv : Inv s) : s.handles.Nodup := (List.nodup_append.mp inv.apart).1

theorem Inv.serial_lt (inv : Inv s) (listed : timer ∈ s.timers.list) : s.serial timer.handle < s.armings := by
  have member : s.serial timer.handle ∈ s.serials ++ s.fired ++ s.dropped :=
    List.mem_append_left _ (List.mem_append_left _ (List.mem_map_of_mem listed))
  exact List.mem_range.mp (inv.accounted.mem_iff.mp member)

theorem serial_update {list : List Timer} (unlisted : handle ∉ list.map Timer.handle)
    (serial : Nat → Nat) (arming : Nat) (member : timer ∈ list) :
    Function.update serial handle arming timer.handle = serial timer.handle := by
  refine Function.update_of_ne ?_ _ _
  rintro rfl
  exact unlisted (List.mem_map_of_mem member)

theorem Inv.arm (inv : Inv s) (unlisted : handle ∉ s.handles)
    (idle : handle ∉ s.running.map Timer.handle) (timeout : UInt64) (now : Nat) : Inv (s.arm handle timeout now) := by
  have members := perm_insert ⟨handle, now + 1000 * timeout.toNat⟩ s.timers.list
  have same : ∀ timer ∈ s.timers.list, Function.update s.serial handle s.armings timer.handle = s.serial timer.handle :=
    fun timer => serial_update unlisted s.serial s.armings
  refine ⟨?_, ?_, ?_⟩
  · have all : ((s.arm handle timeout now).handles ++ s.running.map Timer.handle).Perm
        (handle :: (s.handles ++ s.running.map Timer.handle)) := (members.map Timer.handle).append_right _
    refine all.nodup_iff.mpr (List.nodup_cons.mpr ⟨?_, inv.apart⟩)
    exact List.not_mem_append unlisted idle
  · refine pairwise_insert s.timers.sorted (fun other listed le => ?_) (fun other listed lt => .inl lt) ?_
    · rcases Nat.lt_or_eq_of_le le with lt | eq
      · exact .inl lt
      · refine .inr ⟨eq, ?_⟩
        simp only [State.arm, same other listed, Function.update_self]
        exact inv.serial_lt listed
    · refine inv.ordered.imp_of_mem fun first second related => ?_
      simpa only [State.arm, same _ first, same _ second] using related
  · have listed : (s.arm handle timeout now).serials.Perm (s.armings :: s.serials) := by
      refine (members.map _).trans ?_
      rw [List.map_cons]
      simp only [State.arm, Function.update_self]
      exact .cons _ (.of_eq (List.map_congr_left same))
    have counted : ((s.arm handle timeout now).serials ++ s.fired ++ s.dropped).Perm
        (s.armings :: (s.serials ++ s.fired ++ s.dropped)) := (listed.append_right s.fired).append_right s.dropped
    refine (counted.trans (inv.accounted.cons s.armings)).trans ?_
    rw [show (s.arm handle timeout now).armings = s.armings + 1 from rfl, List.range_succ]
    exact (List.perm_append_singleton s.armings _).symm

theorem perm_disarm {timers : Timers} (listed : handle ∈ timers.list.map Timer.handle) :
    ∃ timer, timer.handle = handle ∧ timers.list.Perm (timer :: (timers.disarm handle).list) := by
  obtain ⟨timer, member, same⟩ := List.mem_map.mp listed
  obtain ⟨found, early, late, -, owner, list, erased⟩ :=
    List.exists_of_eraseP (p := fun timer => timer.handle = handle) member (by simpa using same)
  refine ⟨found, of_decide_eq_true owner, ?_⟩
  have left : (timers.disarm handle).list = early ++ late := erased
  rw [left, list]
  exact List.perm_middle

theorem Inv.disarm (inv : Inv s) (handle : Nat) : Inv (s.disarm handle) := by
  unfold State.disarm
  split
  next listed =>
    have fewer : (s.timers.disarm handle).list.Sublist s.timers.list := List.eraseP_sublist
    refine ⟨?_, inv.ordered.sublist fewer, ?_⟩
    · exact inv.apart.sublist ((fewer.map Timer.handle).append_right _)
    · obtain ⟨timer, same, moved⟩ := perm_disarm listed
      have serials : s.serials.Perm (s.serial handle ::
          (s.timers.disarm handle).list.map fun timer => s.serial timer.handle) := by
        have moved := moved.map fun timer => s.serial timer.handle
        rwa [List.map_cons, same] at moved
      refine List.Perm.trans ?_ inv.accounted
      change (_ ++ s.fired ++ (s.dropped ++ [s.serial handle])).Perm _
      rw [← List.append_assoc]
      refine (List.perm_append_singleton _ _).trans ?_
      exact ((serials.append_right s.fired).append_right s.dropped).symm
  next => exact inv

theorem Inv.called (inv : Inv s) (fewer : (calls.filterMap Call.running).Sublist s.running) (clock : Nat) : Inv { s with calls, clock } where
  apart := inv.apart.sublist ((fewer.map Timer.handle).append_left _)
  ordered := inv.ordered
  accounted := inv.accounted

theorem Inv.loop (inv : Inv s) (calls : s.calls = ⟨now, none⟩ :: outer) : Inv (s.loop now outer) := by
  have running : s.running = outer.filterMap Call.running := by rw [State.running, calls]; rfl
  have stopped : Inv { s with calls := outer } := inv.called (running ▸ .refl _) s.clock
  unfold State.loop
  split
  next => exact stopped
  next timer rest list =>
    split
    next late =>
      have popped : s.timers.rest.list = rest := congrArg List.tail list
      refine ⟨?_, ?_, ?_⟩
      · have apart := inv.apart
        rw [State.Apart, State.handles, running, list] at apart
        change (s.timers.rest.list.map Timer.handle ++ (timer :: outer.filterMap Call.running).map Timer.handle).Nodup
        rw [popped]
        exact (List.perm_middle.nodup_iff).mpr apart
      · have ordered := inv.ordered
        rw [State.Ordered, list] at ordered
        change s.timers.rest.list.Pairwise _
        rw [popped]
        exact (List.pairwise_cons.mp ordered).2
      · have accounted := inv.accounted
        rw [State.Accounted, State.serials, list] at accounted
        refine List.Perm.trans (List.Perm.append_right _ ?_) accounted
        change (s.timers.rest.list.map _ ++ (s.fired ++ [s.serial timer.handle])).Perm _
        rw [popped, ← List.append_assoc]
        exact List.perm_append_singleton _ _
    next => exact stopped

theorem running_disarm (s : State) (handle : Nat) : (s.disarm handle).running = s.running := by
  unfold State.disarm
  split <;> rfl

theorem list_disarm_state (once : s.handles.Nodup) (handle : Nat) :
    (s.disarm handle).timers.list = s.timers.list.filter fun timer => timer.handle ≠ handle := by
  unfold State.disarm
  split
  next => exact list_disarm once handle
  next unlisted =>
    refine (List.filter_eq_self.mpr fun timer member => ?_).symm
    have different : timer.handle ≠ handle := fun same =>
      unlisted (same ▸ List.mem_map_of_mem member)
    simpa using different

theorem Inv.step (inv : Inv s) (moved : step s op = .ok s') : Inv s' := by
  have moves := moves_of_step moved
  cases op with
  | register handle timeout now =>
    obtain ⟨unlisted, idle, rfl⟩ := moves
    exact inv.arm unlisted idle timeout now
  | cancel handle =>
    obtain rfl := moves
    exact inv.disarm handle
  | rearm handle timeout now =>
    obtain rfl := moves
    split
    next listed =>
      refine (inv.disarm handle).arm ?_ ?_ timeout now
      · rw [State.handles, list_disarm_state inv.once]
        simp
      · rw [running_disarm]
        exact fun running => (List.nodup_append.mp inv.apart).2.2 _ listed _ running rfl
    next => exact inv
  | nextTimeout now =>
    obtain rfl := moves
    have same : ((⟨now, none⟩ :: s.calls : List Call).filterMap Call.running).Sublist s.running := .refl _
    exact inv.called same now
  | round =>
    obtain ⟨now, outer, calls, rfl⟩ := moves
    exact inv.loop calls
  | finish =>
    obtain ⟨now, timer, outer, calls, rfl⟩ := moves
    refine inv.called ?_ s.clock
    rw [State.running, calls]
    exact List.sublist_cons_self _ _

end Invariant

section Effect

/-- No timer but that of the handle is touched, and none fires. -/
structure Others (handle : Nat) (s s' : State) : Prop where
  listed : s'.timers.list.filter (fun timer => timer.handle ≠ handle) =
    s.timers.list.filter fun timer => timer.handle ≠ handle
  serial : ∀ other, other ≠ handle → s'.serial other = s.serial other
  fired : s'.fired = s.fired

/-- The calls change, the timers do not. -/
def Untouched (s s' : State) : Prop :=
  s'.timers = s.timers ∧ s'.serial = s.serial ∧ s'.fired = s.fired ∧ s'.dropped = s.dropped

/-- A round calls back the first timer that is listed, less than a millisecond before its expiry at
the earliest if the milliseconds until then are in the range of a `long`, or it ends the call when
no timer that is listed has less than a millisecond left. -/
def Fires (now : Nat) (outer : List Call) (s s' : State) : Prop :=
  (∃ timer rest, s.timers.list = timer :: rest ∧ s'.timers.list = rest ∧
      s'.serial = s.serial ∧ s'.fired = s.fired ++ [s.serial timer.handle] ∧
      s'.dropped = s.dropped ∧ s'.calls = ⟨now, some timer⟩ :: outer ∧
      (timer.expires < 1000 * 2 ^ 63 → timer.expires < now + 1000)) ∨
    Untouched s s' ∧ s'.calls = outer ∧ ∀ timer ∈ s.timers.list, now + 1000 ≤ timer.expires

def Effect (s : State) (op : Op) (s' : State) : Prop :=
  match op with
  | .register handle timeout now =>
    handle ∉ s.handles ∧ Others handle s s' ∧ s'.dropped = s.dropped ∧
      ⟨handle, now + 1000 * timeout.toNat⟩ ∈ s'.timers.list
  | .cancel handle =>
    Others handle s s' ∧ handle ∉ s'.handles ∧
      s'.dropped = s.dropped ++ if handle ∈ s.handles then [s.serial handle] else []
  | .rearm handle timeout now =>
    Others handle s s' ∧
      if handle ∈ s.handles then
        ⟨handle, now + 1000 * timeout.toNat⟩ ∈ s'.timers.list ∧
          s'.dropped = s.dropped ++ [s.serial handle]
      else s' = s
  | .nextTimeout _ | .finish => Untouched s s'
  | .round => ∃ now outer, s.calls = ⟨now, none⟩ :: outer ∧ Fires now outer s s'

variable {handle : Nat}

theorem Others.arm (s : State) (handle : Nat) (timeout : UInt64) (now : Nat) :
    Others handle s (s.arm handle timeout now) where
  listed := filter_insert (by simp)
  serial other apart := Function.update_of_ne apart _ _
  fired := rfl

theorem mem_arm (s : State) (handle : Nat) (timeout : UInt64) (now : Nat) :
    ⟨handle, now + 1000 * timeout.toNat⟩ ∈ (s.arm handle timeout now).timers.list := Timers.mem_insert.mpr (.inl rfl)

theorem Others.disarm (inv : Inv s) (handle : Nat) : Others handle s (s.disarm handle) where
  listed := by rw [list_disarm_state inv.once, List.filter_filter]; simp
  serial other apart := by unfold State.disarm; split <;> rfl
  fired := by unfold State.disarm; split <;> rfl

theorem Others.trans {first second third : State} (left : Others handle first second)
    (right : Others handle second third) : Others handle first third where
  listed := right.listed.trans left.listed
  serial other apart := (right.serial other apart).trans (left.serial other apart)
  fired := right.fired.trans left.fired

theorem dropped_disarm (s : State) (handle : Nat) : (s.disarm handle).dropped =
    s.dropped ++ if handle ∈ s.handles then [s.serial handle] else [] := by
  unfold State.disarm
  split <;> simp

/-- A timer that is due has less than a millisecond left. -/
theorem expires_of_due (late : due now timer = true)
    (small : timer.expires < 1000 * 2 ^ 63) : timer.expires < now + 1000 := by
  by_contra early
  have ahead : ¬ timer.expires < now := by omega
  have positive : long (((timer.expires - now) / 1000 : Nat) : Int) = ((timer.expires - now) / 1000 : Nat) := by
    refine Int.bmod_eq_of_le ?_ ?_ <;> omega
  simp only [due, remaining, if_neg ahead, positive, Option.all_some, decide_eq_true_eq] at late
  omega

/-- A timer that is not due has a millisecond left. -/
theorem expires_of_early (early : due now timer = false) : now + 1000 ≤ timer.expires := by
  by_contra late
  have soon : (timer.expires - now) / 1000 = 0 := by omega
  unfold due remaining at early
  split at early
  next => simp at early
  next => simp [soon, long] at early

theorem fires_loop (s : State) (now : Nat) (outer : List Call) : Fires now outer s (s.loop now outer) := by
  unfold State.loop
  split
  next list => exact .inr ⟨⟨rfl, rfl, rfl, rfl⟩, rfl, by simp [list]⟩
  next timer rest list =>
    split
    next late =>
      exact .inl ⟨timer, rest, list, congrArg List.tail list, rfl, rfl, rfl, rfl, expires_of_due late⟩
    next early =>
      refine .inr ⟨⟨rfl, rfl, rfl, rfl⟩, rfl, fun other listed => ?_⟩
      have first := expires_of_early (Bool.eq_false_iff.mpr early)
      exact first.trans (Timers.head_le (by rw [list]; rfl) other listed)

theorem effect_of_step (inv : Inv s) (moved : step s op = .ok s') : Effect s op s' := by
  have moves := moves_of_step moved
  cases op with
  | register handle timeout now =>
    obtain ⟨unlisted, _, rfl⟩ := moves
    exact ⟨unlisted, .arm s handle timeout now, rfl, mem_arm s handle timeout now⟩
  | cancel handle =>
    obtain rfl := moves
    refine ⟨.disarm inv handle, ?_, dropped_disarm s handle⟩
    rw [State.handles, list_disarm_state inv.once]
    simp
  | rearm handle timeout now =>
    obtain rfl := moves
    by_cases listed : handle ∈ s.handles
    · simp only [Effect, listed, if_true]
      refine ⟨(Others.disarm inv handle).trans (.arm _ handle timeout now), mem_arm _ handle timeout now, ?_⟩
      have dropped := dropped_disarm s handle
      rwa [if_pos listed] at dropped
    · simp only [Effect, listed, if_false]
      exact ⟨⟨rfl, fun _ _ => rfl, rfl⟩, trivial⟩
  | nextTimeout now =>
    obtain rfl := moves
    exact ⟨rfl, rfl, rfl, rfl⟩
  | round =>
    obtain ⟨now, outer, calls, rfl⟩ := moves
    exact ⟨now, outer, calls, fires_loop s now outer⟩
  | finish =>
    obtain ⟨now, timer, outer, calls, rfl⟩ := moves
    exact ⟨rfl, rfl, rfl, rfl⟩

end Effect

/-- However callbacks and calls are nested, the timers are listed by expiry and then by arming,
each arming is listed, has fired once or was dropped once, and the next operation has no other effect
than its own. -/
theorem reentrant {ops : List Op} {s : State} (ran : Machine.run step .initial ops = .ok s) :
    s.Ordered ∧ s.Accounted ∧ ∀ op s', step s op = .ok s' → Effect s op s' := by
  have inv : Inv s := Machine.invariant_run Inv (fun _ _ _ inv _ moved => inv.step moved)
    .initial (Machine.along_true State.initial ops) ran
  exact ⟨inv.ordered, inv.accounted, fun op s' => effect_of_step inv⟩

/-- A timer is armed for a millisecond, and a callback rearms it, cancels another one and waits. -/
def sampleOps : List Op :=
  [.register 0 5 0, .register 1 1 0, .register 2 1 0, .nextTimeout 1500, .round,
    .rearm 0 2 1600, .cancel 2, .rearm 1 3 1700, .register 3 0 1700, .nextTimeout 1800, .round,
    .finish, .round, .finish, .round]

theorem reentrant_sample : ∃ s, Machine.run step .initial sampleOps = .ok s ∧
    s.timers.list = [⟨0, 3600⟩] ∧ s.fired = [1, 4] ∧ s.Ordered ∧ s.Accounted ∧
    ∀ op s', step s op = .ok s' → Effect s op s' := by
  have viewed := Machine.run_view step .initial sampleOps
    (fun s => (s.timers.list, s.fired)) ([⟨0, 3600⟩], [1, 4]) (by decide +kernel)
  obtain ⟨s, ran, same⟩ := viewed
  exact ⟨s, ran, congrArg Prod.fst same, congrArg Prod.snd same, reentrant ran⟩

/-- A timer fires at one microsecond although it expires after a millisecond. -/
theorem fires_early : ∃ s s', Machine.run step .initial [.register 0 1 0, .nextTimeout 1] = .ok s ∧
    step s .round = .ok s' ∧ s.timers.list = [⟨0, 1000⟩] ∧
    s'.calls = [⟨1, some ⟨0, 1000⟩⟩] ∧ s'.fired = [0] :=
  ⟨_, _, rfl, rfl, rfl, by decide +kernel, by decide +kernel⟩

end Testbus.Timing.Reentrant
