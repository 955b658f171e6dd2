import Testbus.Eventlog
import Testbus.Lib.Machine

namespace Testbus

open Dbus Lib

/-- The fields of `struct ni_event_class` that name the events of a monitor. -/
structure EventClass where
  name : CString
  typeNames : List (Option CString)

namespace Eventlog

/-- `ni_eventlog_add_event`. An event whose type has no name is not logged. -/
def addEvent (log : Eventlog) (cls : EventClass) (source : CString) (id : Nat)
    (data : Option NiBuffer) (now : Timeval) : Eventlog :=
  match cls.typeNames[id]? with
  | some (some type) =>
    { log with
      events := log.events ++ [{ cls := some cls.name, source := some source, type := some type
                                 sequence := log.seqno, timestamp := now, data := data }]
      seqno := log.seqno + 1 }
  | _ => log

def consume (log : Eventlog) : Option (Event × Eventlog) :=
  if room : log.consumed < log.events.length then
    some (log.events[log.consumed], { log with consumed := log.consumed + 1 })
  else none

/-- Takes out all events; it only warns of those that are not consumed. -/
def prune (log : Eventlog) : Eventlog := { log with events := [], consumed := 0 }

def pendingCount (log : Eventlog) : Nat := log.events.length - log.consumed

end Eventlog

/-- What becomes of a call to the master: it is answered, the answer gets lost, or it is
not handled at all. The agent sees no difference, it does not look at the result. -/
inductive Rpc
  | answered
  | unanswered
  | lost
  deriving DecidableEq

/-- The agent and what the master has for its host. The last four fields are a record of
the run: the events that were logged and pruned by the agent, those that the master has
added, those whose call was lost, and how many of the added ones a purge of all events
has taken out. -/
structure Delivery where
  log : Eventlog := {}
  flushing : Bool := false
  eventlog : Option Eventlog := none
  logged : List Event := []
  pruned : List Event := []
  accepted : List Event := []
  lost : List Event := []
  purged : Nat := 0

inductive DeliveryAct
  | event (cls : EventClass) (source : CString) (id : Nat) (data : Option NiBuffer)
      (now : Timeval)
  | flush
  | send (rpc : Rpc)
  | prune
  | purge (argv : List Variant)

namespace Delivery

/-- A monitor logs an event. -/
def logEvent (w : Delivery) (cls : EventClass) (source : CString) (id : Nat)
    (data : Option NiBuffer) (now : Timeval) : Delivery :=
  let log := w.log.addEvent cls source id data now
  { w with log := log, logged := w.logged ++ log.events.drop w.log.events.length }

/-- `Eventlog.add` with an event that the agent has sent. -/
def handle (raw : Variant → Nat → UInt8) (w : Delivery) (ev : Event) : Delivery :=
  { w with
    eventlog := (eventlogAdd raw w.eventlog [eventSerialize ev]).2
    accepted := w.accepted ++ (eventDeserialize raw (eventSerialize ev)).toList }

/-- `Eventlog.purge` by some client. -/
def clientPurge (w : Delivery) (argv : List Variant) : Delivery :=
  { w with
    eventlog := (eventlogPurge w.eventlog argv).2
    purged := if argv.map Variant.getUint32 = [some 0] then w.accepted.length else w.purged }

/-- The agent has one thread: it logs no event while it flushes its log. -/
def step (raw : Variant → Nat → UInt8) (w : Delivery) : DeliveryAct → Except Machine.Disabled Delivery
  | .event cls source id data now =>
    if w.flushing then .error .disabled else .ok (w.logEvent cls source id data now)
  | .flush =>
    if w.flushing then .error .disabled
    else .ok { w with flushing := w.log.pendingCount ≠ 0 }
  | .send rpc =>
    match w.flushing, w.log.consume with
    | true, some (ev, log) =>
      let w := { w with log := log }
      match rpc with
      | .lost => .ok { w with lost := w.lost ++ [ev] }
      | .answered | .unanswered => .ok (w.handle raw ev)
    | _, _ => .error .disabled
  | .prune =>
    match w.flushing, w.log.consume with
    | true, none =>
      .ok { w with log := w.log.prune, pruned := w.pruned ++ w.log.events, flushing := false }
    | _, _ => .error .disabled
  | .purge argv => .ok (w.clientPurge argv)

/-- What the log of a host is for: the master has added the first events that the agent
has logged, each of them once and in order, its log has what the purges have left of them,
and the agent has pruned only events that the master has added. -/
structure Faithful (w : Delivery) : Prop where
  added : List.Forall₂ Event.Same w.accepted (w.logged.take w.accepted.length)
  kept : (w.eventlog.getD {}).events = w.accepted.drop w.purged
  pruned : w.pruned = w.logged.take w.pruned.length ∧ w.pruned.length ≤ w.accepted.length

/-- The invariant. Every event of the agent that was consumed was sent, and the events that
are consumed are pruned before the next ones are logged. -/
structure Sound (w : Delivery) : Prop where
  whole : w.logged = w.pruned ++ w.log.events
  bounded : w.log.Bounded
  counted : w.pruned.length + w.log.consumed = w.accepted.length + w.lost.length
  idle : w.flushing = false → w.log.consumed = 0
  arrived : w.lost = [] → List.Forall₂ Event.Same w.accepted (w.logged.take w.accepted.length)
  kept : (w.eventlog.getD {}).events = w.accepted.drop w.purged
  purged : w.purged ≤ w.accepted.length

variable {w w' : Delivery}

theorem Sound.initial : Sound {} where
  whole := rfl
  bounded := Nat.le_refl _
  counted := rfl
  idle := by intro; rfl
  arrived := by intro; exact List.Forall₂.nil
  kept := rfl
  purged := Nat.le_refl _

/-- An event is added behind the others, or not at all. -/
theorem addEvent_cases (log : Eventlog) (cls : EventClass) (source : CString) (id : Nat)
    (data : Option NiBuffer) (now : Timeval) :
    ∃ added, (log.addEvent cls source id data now).events = log.events ++ added ∧
      (log.addEvent cls source id data now).consumed = log.consumed := by
  unfold Eventlog.addEvent
  split
  · exact ⟨_, rfl, rfl⟩
  · exact ⟨[], (List.append_nil _).symm, rfl⟩

theorem Sound.logEvent (sound : w.Sound) (cls : EventClass) (source : CString) (id : Nat)
    (data : Option NiBuffer) (now : Timeval) : (w.logEvent cls source id data now).Sound := by
  obtain ⟨added, events, consumed⟩ := addEvent_cases w.log cls source id data now
  have logged : (w.logEvent cls source id data now).logged = w.logged ++ added := by
    simp [Delivery.logEvent, events]
  have bounded : w.log.consumed ≤ w.log.events.length := sound.bounded
  constructor
  case whole =>
    rw [logged, sound.whole, List.append_assoc]
    exact congrArg (w.pruned ++ ·) events.symm
  case bounded =>
    have longer := congrArg List.length events
    rw [List.length_append] at longer
    change (w.log.addEvent cls source id data now).consumed ≤ _
    rw [consumed]
    exact Nat.le_trans bounded (Nat.le.intro longer.symm)
  case counted => exact (congrArg (w.pruned.length + ·) consumed).trans sound.counted
  case idle =>
    intro quiet
    exact consumed.trans (sound.idle quiet)
  case arrived =>
    intro complete
    have short : w.accepted.length ≤ w.logged.length := by
      have total := sound.counted
      rw [show w.lost = [] from complete] at total
      rw [sound.whole, List.length_append]
      simp only [List.length_nil] at total
      omega
    rw [logged]
    change List.Forall₂ Event.Same w.accepted ((w.logged ++ added).take w.accepted.length)
    rw [List.take_append_of_le_length short]
    exact sound.arrived complete
  case kept => exact sound.kept
  case purged => exact sound.purged

theorem consume_some {log log' : Eventlog} (consumed : log.consume = some (ev, log')) :
    log.events[log.consumed]? = some ev ∧ log' = { log with consumed := log.consumed + 1 } := by
  unfold Eventlog.consume at consumed
  split at consumed
  · obtain ⟨rfl, rfl⟩ := Prod.mk.inj (Option.some.inj consumed)
    exact ⟨List.getElem?_eq_getElem _, rfl⟩
  · cases consumed

theorem consume_none {log : Eventlog} (bounded : log.Bounded) (consumed : log.consume = none) :
    log.consumed = log.events.length := by
  unfold Eventlog.consume at consumed
  split at consumed
  · cases consumed
  · rename_i full
    exact Nat.le_antisymm bounded (Nat.le_of_not_lt full)

theorem Sound.next (sound : w.Sound) (at_ : w.log.events[w.log.consumed]? = some ev) :
    w.logged[w.pruned.length + w.log.consumed]? = some ev := by
  rw [sound.whole, List.getElem?_append_right (Nat.le_add_right _ _), Nat.add_sub_cancel_left]
  exact at_

theorem Sound.lose {log : Eventlog} (sound : w.Sound) (busy : w.flushing = true)
    (consumed : w.log.consume = some (ev, log)) : Sound { w with log := log, lost := w.lost ++ [ev] } := by
  obtain ⟨at_, rfl⟩ := consume_some consumed
  constructor
  case whole => exact sound.whole
  case bounded => exact (List.getElem?_eq_some_iff.mp at_).1
  case counted =>
    have total := sound.counted
    simp only [List.length_append, List.length_singleton]
    omega
  case idle =>
    intro quiet
    exact absurd (busy.symm.trans quiet) (by decide)
  case arrived =>
    intro complete
    exact absurd complete (by simp)
  case kept => exact sound.kept
  case purged => exact sound.purged

/-- The master can read every event that it is sent. -/
theorem handle_adds (raw : Variant → Nat → UInt8) (w : Delivery) (ev : Event) :
    ∃ result, result.Same ev ∧ (w.handle raw ev).accepted = w.accepted ++ [result] ∧
      ((w.handle raw ev).eventlog.getD {}).events = (w.eventlog.getD {}).events ++ [result] := by
  obtain ⟨result, read, same⟩ := event_roundtrip raw ev
  refine ⟨result, same, ?_, ?_⟩
  · simp [handle, read]
  · simp [handle, eventlogAdd, read]

theorem Sound.accept {log : Eventlog} (sound : w.Sound) (busy : w.flushing = true)
    (consumed : w.log.consume = some (ev, log)) : Sound (handle raw { w with log := log } ev) := by
  obtain ⟨at_, rfl⟩ := consume_some consumed
  obtain ⟨result, same, accepted, events⟩ :=
    handle_adds raw { w with log := { w.log with consumed := w.log.consumed + 1 } } ev
  have next := sound.next at_
  constructor
  case whole => exact sound.whole
  case bounded => exact (List.getElem?_eq_some_iff.mp at_).1
  case counted =>
    have total := sound.counted
    have longer := congrArg List.length accepted
    rw [List.length_append, List.length_singleton] at longer
    calc w.pruned.length + (w.log.consumed + 1)
      _ = w.accepted.length + w.lost.length + 1 := congrArg (· + 1) total
      _ = w.accepted.length + 1 + w.lost.length := Nat.add_right_comm _ _ _
      _ = _ := congrArg (· + w.lost.length) longer.symm
  case idle =>
    intro quiet
    exact absurd (busy.symm.trans quiet) (by decide)
  case arrived =>
    intro complete
    have total := sound.counted
    rw [show w.lost = [] from complete] at total
    have place : w.pruned.length + w.log.consumed = w.accepted.length := total
    rw [place] at next
    rw [accepted]
    change List.Forall₂ Event.Same (w.accepted ++ [result]) (w.logged.take (w.accepted ++ [result]).length)
    rw [List.length_append, List.length_singleton, List.take_add_one, next]
    exact List.rel_append (sound.arrived complete) (List.Forall₂.cons same List.Forall₂.nil)
  case kept =>
    rw [events, accepted]
    change (w.eventlog.getD {}).events ++ _ = (w.accepted ++ _).drop w.purged
    rw [List.drop_append_of_le_length sound.purged, sound.kept]
  case purged =>
    rw [accepted, List.length_append]
    exact Nat.le_trans sound.purged (Nat.le_add_right _ _)

theorem Sound.prune (sound : w.Sound) (consumed : w.log.consume = none) :
    Sound { w with log := w.log.prune, pruned := w.pruned ++ w.log.events, flushing := false } := by
  have all := consume_none sound.bounded consumed
  constructor
  case whole => exact sound.whole.trans (List.append_nil _).symm
  case bounded => exact Nat.le_refl _
  case counted =>
    rw [List.length_append, ← all]
    exact sound.counted
  case idle => intro; rfl
  case arrived => exact sound.arrived
  case kept => exact sound.kept
  case purged => exact sound.purged

theorem purge_events (eventlog : Option Eventlog) (argv : List Variant) :
    ((eventlogPurge eventlog argv).2.getD {}).events =
      if argv.map Variant.getUint32 = [some 0] then [] else (eventlog.getD {}).events := by
  match argv with
  | [] | _ :: _ :: _ => simp [eventlogPurge]
  | [arg] =>
    cases read : arg.getUint32 with
    | none => simp [eventlogPurge, read]
    | some uptoSeq =>
      by_cases zero : uptoSeq = 0
      · simp [eventlogPurge, read, zero, Eventlog.flush]
      · simp only [eventlogPurge, read, zero, if_false, Option.getD_some, List.map_cons,
          List.map_nil, List.cons.injEq, Option.some.injEq, and_true, Eventlog.consumeUpto]
        split <;> rfl

theorem Sound.clientPurge (sound : w.Sound) (argv : List Variant) : (w.clientPurge argv).Sound := by
  have events := purge_events w.eventlog argv
  constructor
  case whole => exact sound.whole
  case bounded => exact sound.bounded
  case counted => exact sound.counted
  case idle => exact sound.idle
  case arrived => exact sound.arrived
  case kept =>
    change ((eventlogPurge w.eventlog argv).2.getD {}).events = w.accepted.drop (ite _ _ _)
    rw [events]
    split
    · exact (List.drop_length).symm
    · exact sound.kept
  case purged =>
    change ite _ _ _ ≤ w.accepted.length
    split
    · exact Nat.le_refl _
    · exact sound.purged

theorem Sound.flush (sound : w.Sound) (quiet : w.flushing = false) :
    Sound { w with flushing := w.log.pendingCount ≠ 0 } := by
  refine { sound with idle := ?_ }
  intro
  exact sound.idle quiet


theorem step_sound {act : DeliveryAct} (sound : w.Sound) (moved : step raw w act = .ok w') :
    w'.Sound ∧ (w'.lost = [] ↔ w.lost = [] ∧ act ≠ .send .lost) := by
  cases act with
  | event cls source id data now =>
    simp only [Delivery.step] at moved
    split at moved
    · cases moved
    · cases moved
      exact ⟨sound.logEvent cls source id data now, by simp [Delivery.logEvent]⟩
  | flush =>
    simp only [Delivery.step] at moved
    split at moved
    · cases moved
    · rename_i quiet
      cases moved
      exact ⟨sound.flush (Bool.eq_false_iff.mpr quiet), by simp⟩
  | send rpc =>
    simp only [Delivery.step] at moved
    split at moved
    · rename_i ev log busy consumed
      cases rpc with
      | lost =>
        cases moved
        exact ⟨sound.lose busy consumed, by simp⟩
      | answered | unanswered =>
        cases moved
        exact ⟨sound.accept busy consumed, by simp [handle]⟩
    · cases moved
  | prune =>
    simp only [Delivery.step] at moved
    split at moved
    · rename_i busy consumed
      cases moved
      exact ⟨sound.prune consumed, by simp⟩
    · cases moved
  | purge argv =>
    cases moved
    exact ⟨sound.clientPurge argv, by simp [clientPurge]⟩

theorem run_sound (sound : w.Sound) (ran : Machine.run (step raw) w acts = .ok w') :
    w'.Sound ∧ (w'.lost = [] ↔ w.lost = [] ∧ .send .lost ∉ acts) := by
  induction acts generalizing w with
  | nil =>
    cases ran
    exact ⟨sound, by simp⟩
  | cons act rest ih =>
    obtain ⟨next, moved, tail⟩ := bind_ok.mp ran
    obtain ⟨here, lost⟩ := step_sound sound moved
    obtain ⟨final, lost'⟩ := ih here tail
    refine ⟨final, lost'.trans ?_⟩
    rw [lost, List.mem_cons, not_or, and_assoc]
    exact and_congr_right' (and_congr_left' ⟨Ne.symm, Ne.symm⟩)

/-- Nothing is lost, so what was pruned was added before. -/
theorem Sound.faithful (sound : w.Sound) (complete : w.lost = []) : w.Faithful where
  added := sound.arrived complete
  kept := sound.kept
  pruned := by
    have total := sound.counted
    rw [complete, List.length_nil, Nat.add_zero] at total
    refine ⟨?_, total ▸ Nat.le_add_right _ _⟩
    rw [sound.whole, List.take_left']
    rfl

theorem Sound.complete (sound : w.Sound) (quiet : w.flushing = false) (faithful : w.Faithful) : w.lost = [] := by
  have total := sound.counted
  rw [sound.idle quiet, Nat.add_zero] at total
  have accepted := faithful.pruned.2
  exact List.eq_nil_of_length_eq_zero (by omega)

/-- The master's log is a prefix of the agent's in every state of a run of which no call was
lost; and when the agent has flushed its log after one that was, it is not. -/
theorem events_delivered (raw : Variant → Nat → UInt8) (acts : List DeliveryAct) (w : Delivery)
    (ran : Machine.run (step raw) {} acts = .ok w) :
    (.send .lost ∉ acts → w.Faithful) ∧
      (w.flushing = false → (w.Faithful ↔ .send .lost ∉ acts)) := by
  obtain ⟨sound, lost⟩ := run_sound Sound.initial ran
  have faithful (none_ : .send .lost ∉ acts) : w.Faithful := sound.faithful (lost.mpr ⟨rfl, none_⟩)
  refine ⟨faithful, ?_⟩
  intro quiet
  exact ⟨fun kept => (lost.mp (sound.complete quiet kept)).2, faithful⟩

/-- A class of events as the monitor of a file has it. -/
def fileEventClass : EventClass where
  name := [0x66]
  typeNames := [some [0x64], some [0x74]]

/-- Two events, each flushed at once; the call for the first one ends as given. -/
def twoFlushes (first : Rpc) : List DeliveryAct :=
  let event (id : Nat) : DeliveryAct :=
    .event fileEventClass [0x6d] id none .zero
  [event 0, .flush, .send first, .prune, event 1, .flush, .send .answered, .prune]

theorem events_delivered_two : ∃ w : Delivery,
    Machine.run (step fun _ _ => 0) {} (twoFlushes .unanswered) = .ok w ∧
      w.accepted.length = 2 ∧ w.Faithful := by
  obtain ⟨w, ran, two⟩ : ∃ w,
      Machine.run (step fun _ _ => 0) {} (twoFlushes .unanswered) = .ok w ∧
        w.accepted.length = 2 := ⟨_, rfl, rfl⟩
  exact ⟨w, ran, two, (events_delivered _ _ w ran).1 (by simp [twoFlushes])⟩

/-- The first event never gets to the master, and the second one does. -/
theorem event_lost : ¬ ∀ (raw : Variant → Nat → UInt8) (acts : List DeliveryAct) (w : Delivery),
    Machine.run (step raw) {} acts = .ok w → w.Faithful := by
  intro claimed
  have faithful := claimed (fun _ _ => 0) (twoFlushes .lost) _ rfl
  obtain ⟨same, _⟩ := List.forall₂_cons.mp faithful.added
  exact absurd same.sequence (by decide)

end Delivery

end Testbus
