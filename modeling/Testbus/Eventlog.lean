import Testbus.Dbus.Records
import Testbus.Lib.Refines

namespace Testbus

open Dbus Lib.Machine

structure Eventlog where
  consumed : Nat := 0
  seqno : UInt32 := 1
  events : List Event := []

namespace Eventlog

/-- The events that are not consumed. -/
def pending (log : Eventlog) : List Event := log.events.drop log.consumed

/-- The loop over the events that are not consumed. -/
def consumeUptoLoop (events : List Event) (seq : UInt32) (i : Nat) : Nat :=
  if room : i < events.length then
    if seq < events[i].sequence then i else consumeUptoLoop events seq (i + 1)
  else i
termination_by events.length - i

def consumeUpto (log : Eventlog) (seq : UInt32) : Eventlog :=
  let i := consumeUptoLoop log.events seq log.consumed
  if log.consumed < i then { log with consumed := i } else log

def flush (log : Eventlog) : Eventlog := { log with events := [], consumed := 0 }

end Eventlog

inductive Reply
  | done
  | invalidArgs
  | noProperty
  | events (dicts : Variant)

/-- `Eventlog.add`. The new event is in the array while its argument is read, and is
taken out of it if that fails. -/
def eventlogAdd (raw : Variant → Nat → UInt8) (eventlog : Option Eventlog)
    (argv : List Variant) : Reply × Option Eventlog :=
  let log := eventlog.getD {}
  match argv with
  | [arg] =>
    match eventDeserialize raw arg with
    | none => (.invalidArgs, some log)
    | some ev => (.done, some { log with events := log.events ++ [ev] })
  | _ => (.invalidArgs, some log)

/-- `Eventlog.purge`; a sequence number of zero means all events. -/
def eventlogPurge (eventlog : Option Eventlog) (argv : List Variant) : Reply × Option Eventlog :=
  let log := eventlog.getD {}
  match argv with
  | [arg] =>
    match arg.getUint32 with
    | none => (.invalidArgs, some log)
    | some uptoSeq =>
      (.done, some (if uptoSeq = 0 then log.flush else log.consumeUpto uptoSeq))
  | _ => (.invalidArgs, some log)

/-- The property `events`. -/
def eventlogGetEvents (eventlog : Option Eventlog) : Reply × Option Eventlog :=
  match eventlog with
  | none => (.noProperty, none)
  | some log => (.events (.dictArray (log.pending.map eventSerialize)), some log)

inductive EventlogCall
  | add (argv : List Variant)
  | getEvents
  | purge (argv : List Variant)

def EventlogCall.apply (raw : Variant → Nat → UInt8) (eventlog : Option Eventlog) :
    EventlogCall → Reply × Option Eventlog
  | .add argv => eventlogAdd raw eventlog argv
  | .getEvents => eventlogGetEvents eventlog
  | .purge argv => eventlogPurge eventlog argv

/-- The calls on a log, none of which faults. -/
def eventlogStep (raw : Variant → Nat → UInt8) (eventlog : Option Eventlog) (call : EventlogCall) :
    Except Empty (Reply × Option Eventlog) := .ok (call.apply raw eventlog)

/-- What a purge leaves, as a reader of the log sees it. -/
def purged (uptoSeq : UInt32) (pending : List Event) : List Event :=
  if uptoSeq = 0 then [] else pending.dropWhile fun ev => ev.sequence ≤ uptoSeq

/-- The events behind a number, which a purge up to it should leave. -/
def unconsumed (uptoSeq : UInt32) (pending : List Event) : List Event :=
  pending.filter fun ev => uptoSeq < ev.sequence

/-- The log as a reader sees it: the events that were not purged, in the order in which
they were added. `purge` tells what a purge leaves. -/
def EventlogCall.meaning (raw : Variant → Nat → UInt8) (purge : UInt32 → List Event → List Event)
    (pending : Option (List Event)) : EventlogCall → Reply × Option (List Event)
  | .add [arg] => match eventDeserialize raw arg with
    | none => (.invalidArgs, some (pending.getD []))
    | some ev => (.done, some (pending.getD [] ++ [ev]))
  | .purge [.uint32 uptoSeq] => (.done, some (purge uptoSeq (pending.getD [])))
  | .add _ | .purge _ => (.invalidArgs, some (pending.getD []))
  | .getEvents => match pending with
    | none => (.noProperty, none)
    | some events => (.events (.dictArray (events.map eventSerialize)), some events)

/-- The events that a log holds for its readers. -/
structure Holds (pending : Option (List Event)) (eventlog : Option Eventlog) : Prop where
  pending : eventlog.map Eventlog.pending = pending
  bounded : ∀ log, eventlog = some log → log.consumed ≤ log.events.length

/-- No event up to the number of a purge stands behind one with a greater number; and zero, which
stands for all numbers, is the only number if it is purged. -/
def Leading (uptoSeq : UInt32) (pending : List Event) : Prop :=
  (uptoSeq = 0 → ∀ ev ∈ pending, ev.sequence = 0) ∧
    pending.Pairwise fun a b => uptoSeq < a.sequence → uptoSeq < b.sequence

/-- What a call that purges asks of the events. -/
def EventlogCall.Asks (settled : UInt32 → List Event → Prop) (pending : Option (List Event))
    (call : EventlogCall) : Prop :=
  ∀ seq, call = .purge [.uint32 seq] → settled seq (pending.getD [])

section Refinement

variable {log : Eventlog} {purge : UInt32 → List Event → List Event}
  {settled : UInt32 → List Event → Prop}

/-- The invariant of a log. -/
def Eventlog.Bounded (log : Eventlog) : Prop := log.consumed ≤ log.events.length

theorem consumeUptoLoop_spec (events : List Event) (seq : UInt32) (i : Nat) (inside : i ≤ events.length) :
    i ≤ Eventlog.consumeUptoLoop events seq i ∧ Eventlog.consumeUptoLoop events seq i ≤ events.length ∧
      events.drop (Eventlog.consumeUptoLoop events seq i) = (events.drop i).dropWhile fun ev => ev.sequence ≤ seq := by
  fun_induction Eventlog.consumeUptoLoop events seq i with
  | case1 i room later =>
    have stays : ¬ events[i].sequence ≤ seq := UInt32.not_le.mpr later
    refine ⟨Nat.le_refl _, inside, ?_⟩
    rw [List.drop_eq_getElem_cons room, List.dropWhile_cons, if_neg (by simpa using stays)]
  | case2 i room reached ih =>
    obtain ⟨lower, upper, left⟩ := ih room
    have goes : events[i].sequence ≤ seq := UInt32.not_lt.mp reached
    refine ⟨by omega, upper, ?_⟩
    rw [left, List.drop_eq_getElem_cons room, List.dropWhile_cons, if_pos (by simpa using goes)]
  | case3 i beyond =>
    have last : events.drop i = [] := List.drop_eq_nil_of_le (Nat.le_of_not_lt beyond)
    exact ⟨Nat.le_refl _, inside, by rw [last]; rfl⟩

theorem consumeUpto_pending (bounded : log.Bounded) (seq : UInt32) :
    (log.consumeUpto seq).Bounded ∧
      (log.consumeUpto seq).pending = log.pending.dropWhile fun ev => ev.sequence ≤ seq := by
  obtain ⟨lower, upper, left⟩ := consumeUptoLoop_spec log.events seq log.consumed bounded
  unfold Eventlog.consumeUpto
  dsimp only
  split
  · exact ⟨upper, left⟩
  · rename_i idle
    have same : Eventlog.consumeUptoLoop log.events seq log.consumed = log.consumed := by omega
    rw [same] at left
    exact ⟨bounded, left⟩

theorem purge_pending (bounded : log.Bounded) (seq : UInt32) :
    ∃ left : Eventlog, eventlogPurge (some log) [.uint32 seq] = (.done, some left) ∧
      left.Bounded ∧ left.pending = purged seq log.pending := by
  by_cases all : seq = 0
  · refine ⟨log.flush, by simp [eventlogPurge, Variant.getUint32, all], Nat.le_refl _, ?_⟩
    simp [purged, all, Eventlog.flush, Eventlog.pending]
  · obtain ⟨kept, left⟩ := consumeUpto_pending bounded seq
    refine ⟨log.consumeUpto seq, by simp [eventlogPurge, Variant.getUint32, all], kept, ?_⟩
    rw [left, purged, if_neg all]

theorem bounded_getD (bounded : ∀ log, eventlog = some log → log.Bounded) :
    (eventlog.getD {}).Bounded ∧ (eventlog.map Eventlog.pending).getD [] = (eventlog.getD {}).pending := by
  cases eventlog with
  | none => exact ⟨Nat.le_refl _, rfl⟩
  | some log => exact ⟨bounded log rfl, rfl⟩

theorem add_pending (bounded : log.Bounded) (ev : Event) :
    Eventlog.Bounded { log with events := log.events ++ [ev] } ∧
      Eventlog.pending { log with events := log.events ++ [ev] } = log.pending ++ [ev] := by
  have short : log.consumed ≤ log.events.length := bounded
  constructor
  · simp only [Eventlog.Bounded, List.length_append]
    omega
  · exact List.drop_append_of_le_length short

theorem call_refines (raw : Variant → Nat → UInt8) (call : EventlogCall)
    (bounded : ∀ log, eventlog = some log → log.Bounded) :
    call.meaning raw purged (eventlog.map Eventlog.pending) =
        ((call.apply raw eventlog).1, (call.apply raw eventlog).2.map Eventlog.pending) ∧
      ∀ log, (call.apply raw eventlog).2 = some log → log.Bounded := by
  obtain ⟨here, events⟩ := bounded_getD bounded
  have refused : ∀ log, some (eventlog.getD {}) = some log → log.Bounded := by
    intro log same
    cases same
    exact here
  cases call with
  | getEvents =>
    cases eventlog with
    | none => exact ⟨rfl, by simp [EventlogCall.apply, eventlogGetEvents]⟩
    | some log => exact ⟨rfl, refused⟩
  | add argv =>
    match argv with
    | [] | _ :: _ :: _ =>
      simp only [EventlogCall.apply, EventlogCall.meaning, eventlogAdd, events, Option.map_some]
      exact ⟨trivial, refused⟩
    | [arg] =>
      simp only [EventlogCall.apply, EventlogCall.meaning, eventlogAdd, events]
      cases read : eventDeserialize raw arg with
      | none => exact ⟨rfl, refused⟩
      | some ev =>
        obtain ⟨grown, pending⟩ := add_pending here ev
        refine ⟨by simp [pending], ?_⟩
        intro log same
        cases same
        exact grown
  | purge argv =>
    match argv with
    | [] | _ :: _ :: _ =>
      simp only [EventlogCall.apply, EventlogCall.meaning, eventlogPurge, events, Option.map_some]
      exact ⟨trivial, refused⟩
    | [arg] =>
      cases arg with
      | uint32 seq =>
        obtain ⟨left, done, kept, pending⟩ := purge_pending here seq
        have same : eventlogPurge eventlog [.uint32 seq] = (.done, some left) := done
        simp only [EventlogCall.apply, EventlogCall.meaning, same, events, Option.map_some, pending]
        refine ⟨trivial, ?_⟩
        intro log equal
        cases equal
        exact kept
      | _ =>
        simp only [EventlogCall.apply, EventlogCall.meaning, eventlogPurge, events, Variant.getUint32, Option.map_some]
        exact ⟨trivial, refused⟩

/-- A purge leaves the events behind its number just if those up to it come first. -/
theorem purged_eq_unconsumed (seq : UInt32) (events : List Event) :
    purged seq events = unconsumed seq events ↔ Leading seq events := by
  by_cases all : seq = 0
  · subst all
    have zeros : [] = events.filter (fun ev => (0 : UInt32) < ev.sequence) ↔ ∀ ev ∈ events, ev.sequence = 0 := by
      rw [eq_comm, List.filter_eq_nil_iff]
      simp [UInt32.pos_iff_ne_zero]
    rw [purged, if_pos rfl, unconsumed, zeros, Leading]
    refine ⟨fun zero => ⟨fun _ => zero, ?_⟩, fun leading => leading.1 rfl⟩
    exact List.pairwise_of_forall_mem_list fun a member b _ greater => absurd greater (by simp [zero a member])
  rw [purged, if_neg all, unconsumed, Leading, and_iff_right fun zero => absurd zero all]
  induction events with
  | nil => simp
  | cons ev rest ih =>
    rw [List.pairwise_cons, List.dropWhile_cons, List.filter_cons]
    by_cases reached : ev.sequence ≤ seq
    · simp only [reached, decide_true, if_true, UInt32.not_lt.mpr reached, decide_false, Bool.false_eq_true, if_false,
        false_imp_iff, implies_true, true_and]
      exact ih
    · have beyond : seq < ev.sequence := UInt32.not_le.mp reached
      simp only [reached, decide_false, Bool.false_eq_true, if_false, beyond, decide_true, if_true, List.cons.injEq,
        true_and, true_imp_iff]
      rw [eq_comm, List.filter_eq_self]
      simp only [decide_eq_true_eq]
      refine ⟨fun greater => ⟨greater, ?_⟩, And.left⟩
      exact List.pairwise_of_forall_mem_list fun _ _ b member _ => greater b member

/-- A call means the same with another purge just if this leaves the same there. -/
theorem meaning_eq_iff (same : ∀ seq events, purged seq events = purge seq events ↔ settled seq events)
    (pending : Option (List Event)) (call : EventlogCall) :
    call.meaning raw purged pending = call.meaning raw purge pending ↔ call.Asks settled pending := by
  match call with
  | .getEvents | .add [] | .add [_] | .add (_ :: _ :: _) => exact iff_of_true rfl nofun
  | .purge [] | .purge (_ :: _ :: _) => exact iff_of_true (by simp only [EventlogCall.meaning]) nofun
  | .purge [arg] =>
    cases arg with
    | uint32 seq => simp [EventlogCall.meaning, EventlogCall.Asks, same]
    | _ => exact iff_of_true rfl nofun

/-- The calls of a run do what they mean just if every purge of it is settled. -/
theorem refines_iff_asks (same : ∀ seq events, purged seq events = purge seq events ↔ settled seq events)
    (calls : List EventlogCall) :
    Refines (eventlogStep raw) (fun pending call => call.meaning raw purge pending) Holds none none calls ↔
      Meets (fun pending call => call.meaning raw purge pending) (fun pending call => call.Asks settled pending)
        none calls := by
  have initial : Holds none none := ⟨rfl, nofun⟩
  have kept (pending : Option (List Event)) (eventlog : Option Eventlog) (call : EventlogCall)
      (holds : Holds pending eventlog) (asks : call.Asks settled pending) :
      ∃ next, eventlogStep raw eventlog call = .ok ((call.meaning raw purge pending).1, next) ∧
        Holds (call.meaning raw purge pending).2 next := by
    obtain ⟨rfl, bounded⟩ := holds
    obtain ⟨means, bounded'⟩ := call_refines raw call bounded
    rw [← (meaning_eq_iff same _ call).mpr asks, means]
    exact ⟨_, rfl, rfl, bounded'⟩
  rw [← guarded_iff_meets kept initial calls]
  refine refines_iff (fun _ _ holds => holds) kept (fun pending eventlog call next holds moved holds' => ?_) initial calls
  obtain ⟨rfl, bounded⟩ := holds
  obtain ⟨means, -⟩ := call_refines raw call bounded
  obtain ⟨reply, rfl⟩ := Prod.mk.inj (Except.ok.inj moved)
  exact (meaning_eq_iff same _ call).mp (means.trans (Prod.ext reply holds'.pending))

/-- Over any sequence of calls the log holds the events that were added and not purged, in order, and a
purge takes the first of them up to its number; it takes all up to its number just if these come first.
A refused event changes nothing. -/
theorem eventlog_pending (raw : Variant → Nat → UInt8) (calls : List EventlogCall) :
    Refines (eventlogStep raw) (fun pending call => call.meaning raw purged pending) Holds none none calls ∧
      (Refines (eventlogStep raw) (fun pending call => call.meaning raw unconsumed pending) Holds none none calls ↔
        Meets (fun pending call => call.meaning raw unconsumed pending) (fun pending call => call.Asks Leading pending)
          none calls) ∧
      ∀ log argv, (eventlogAdd raw (some log) argv).1 ≠ .done → (eventlogAdd raw (some log) argv).2 = some log := by
  refine ⟨?_, refines_iff_asks purged_eq_unconsumed calls, fun log argv refused => ?_⟩
  · rw [refines_iff_asks fun _ _ => iff_of_true rfl trivial]
    exact meets_of_forall fun _ _ _ _ => trivial
  · unfold eventlogAdd at refused ⊢
    split at refused
    · split at refused
      · rfl
      · exact absurd rfl refused
    · rfl

def numbered (sequence : UInt32) : Event where
  sequence
  timestamp := .zero

/-- Purging up to 1 leaves the event 1 behind the event 5. -/
theorem purge_leaves_earlier : ¬ ∀ (raw : Variant → Nat → UInt8) (calls : List EventlogCall),
    Refines (eventlogStep raw) (fun pending call => call.meaning raw unconsumed pending) Holds none none calls := by
  intro claimed
  obtain ⟨-, -, asks, -⟩ := (refines_iff_asks purged_eq_unconsumed _).mp (claimed (fun _ _ => 0)
    [.add [eventSerialize (numbered 5)], .add [eventSerialize (numbered 1)], .purge [.uint32 1]])
  exact absurd (asks 1 rfl).2 (by decide)

end Refinement

end Testbus
