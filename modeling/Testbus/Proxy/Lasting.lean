import Testbus.Proxy.Frames
import Testbus.Proxy.Runs

namespace Testbus.Proxy

open Lib World

variable {w w' : World} {events : List Event}

/-- The descriptors of an endpoint are what they were, or closed. -/
structure Endpoint.Ages (old new : Endpoint) : Prop where
  transport : new.transport = old.transport
  rfd : new.rfd = old.rfd ∨ new.rfd = none
  wfd : new.wfd = old.wfd ∨ new.wfd = none

theorem Endpoint.Ages.rfl {old : Endpoint} : old.Ages old := ⟨Eq.refl _, .inl (.refl _), .inl (.refl _)⟩

theorem Endpoint.Ages.trans {first second third : Endpoint} (left : first.Ages second)
    (right : second.Ages third) : first.Ages third where
  transport := right.transport.trans left.transport
  rfd := by
    rcases right.rfd with same | gone
    · rcases left.rfd with same' | gone'
      · exact .inl (same.trans same')
      · exact .inr (same.trans gone')
    · exact .inr gone
  wfd := by
    rcases right.wfd with same | gone
    · rcases left.wfd with same' | gone'
      · exact .inl (same.trans same')
      · exact .inr (same.trans gone')
    · exact .inr gone

/-- The endpoint at the address is there still, and was not freed meanwhile. -/
def World.Lasts (a : Addr) (w w' : World) : Prop :=
  ∀ old, w.heap.cells a = some old → (∃ new, w'.heap.cells a = some new ∧ old.Ages new) ∧
    ∃ events, w'.trace = w.trace ++ events ∧ .freed a ∉ events

theorem World.Lasts.refl (a : Addr) (w : World) : w.Lasts a w := fun old found => ⟨⟨old, found, .rfl⟩, [], by simp⟩

theorem World.Lasts.trans {first second third : World} (left : first.Lasts a second)
    (right : second.Lasts a third) : first.Lasts a third := by
  intro old found
  obtain ⟨⟨middle, cell, ages⟩, early, shown, spared⟩ := left old found
  obtain ⟨⟨new, cell', ages'⟩, late, shown', spared'⟩ := right middle cell
  refine ⟨⟨new, cell', ages.trans ages'⟩, early ++ late, by rw [shown', shown, List.append_assoc], ?_⟩
  simp [spared, spared']

theorem World.Lasts.modify {change : Endpoint → Endpoint}
    (ages : ∀ old : Endpoint, old.Ages (change old)) : w.Lasts a (w.modify ep change) := by
  intro old found
  refine ⟨⟨if a = ep then change old else old, ?_, ?_⟩, [], by simp⟩
  · rw [cells_modify, found, Option.map_some]
  · split
    · exact ages old
    · exact .rfl

theorem World.Lasts.emit (spared : event ≠ .freed a) : w.Lasts a (w.emit event) :=
  fun old found => ⟨⟨old, found, .rfl⟩, [event], rfl, by simpa using spared.symm⟩

theorem World.Lasts.charge (sink : Addr) (mbuf : Mbuf) : w.Lasts a (w.charge sink mbuf) := by
  intro old found
  have cell := cells_charge w sink mbuf a
  rw [found] at cell
  exact ⟨⟨_, cell, rfl, .inl rfl, .inl rfl⟩, _, trace_charge .., by simp⟩

theorem World.Lasts.clear : w.Lasts a (w.clear ep) := .modify fun _ => ⟨rfl, .inl rfl, .inl rfl⟩

/-- The bytes that were read from an endpoint since it is there, and the packets of it that were
carried out. -/
structure Heard where
  received : Bytes := []
  dispatched : List Bytes := []
  deriving DecidableEq

def hear (ep : Addr) (heard : Heard) : Event → Heard
  | .received a bytes =>
    if a = ep then { heard with received := heard.received ++ bytes } else heard
  | .dispatched a packet =>
    if a = ep then { heard with dispatched := heard.dispatched ++ [packet] } else heard
  | .freed a => if a = ep then {} else heard
  | _ => heard

def heardFrom (ep : Addr) (events : List Event) : Heard := events.foldl (hear ep) {}

theorem heardFrom_append (ep : Addr) (early late : List Event) :
    heardFrom ep (early ++ late) = late.foldl (hear ep) (heardFrom ep early) := List.foldl_append

/-- An event that tells nothing about what is read from an endpoint. -/
def Event.Spares (ep : Addr) : Event → Prop
  | .received a _ | .dispatched a _ | .freed a => a ≠ ep
  | _ => True

theorem hear_spares (spares : event.Spares a) (heard : Heard) : hear a heard event = heard := by
  cases event with
  | received b bytes => exact if_neg spares
  | dispatched b packet => exact if_neg spares
  | freed b => exact if_neg spares
  | _ => rfl

theorem heardFrom_spares (spared : ∀ event ∈ events, event.Spares a) (early : List Event) :
    heardFrom a (early ++ events) = heardFrom a early := by
  rw [heardFrom_append]
  generalize heardFrom a early = heard
  induction events with
  | nil => rfl
  | cons event rest ih =>
    obtain ⟨here, later⟩ := List.forall_mem_cons.mp spared
    rw [List.foldl_cons, hear_spares here]
    exact ih later

/-- Nothing is read from an endpoint meanwhile, and it is not freed; a new one has not received
anything. -/
structure World.Spares (a : Addr) (w w' : World) : Prop where
  present : ∀ old, w.heap.cells a = some old →
    (∃ new, w'.heap.cells a = some new ∧ old.Ages new ∧ new.rbuf = old.rbuf) ∧
      ∃ events, w'.trace = w.trace ++ events ∧ ∀ event ∈ events, event.Spares a
  silent : w.heap.cells a = none → heardFrom a w.trace = {} → heardFrom a w'.trace = {}
  born : w.heap.cells a = none → ∀ new, w'.heap.cells a = some new → new.rbuf = none

theorem World.Spares.refl (a : Addr) (w : World) : w.Spares a w where
  present old found := ⟨⟨old, found, .rfl, rfl⟩, [], by simp⟩
  silent _ silent := silent
  born gone new found := by cases gone.symm.trans found

theorem World.Spares.heard (spares : w.Spares a w') (found : w.heap.cells a = some self) :
    heardFrom a w'.trace = heardFrom a w.trace := by
  obtain ⟨-, events, shown, spared⟩ := spares.present self found
  rw [shown, heardFrom_spares spared]

theorem World.Spares.trans {first second third : World} (left : first.Spares a second)
    (right : second.Spares a third) : first.Spares a third where
  present old found := by
    obtain ⟨⟨middle, cell, ages, kept⟩, early, shown, spared⟩ := left.present old found
    obtain ⟨⟨new, cell', ages', kept'⟩, late, shown', spared'⟩ := right.present middle cell
    refine ⟨⟨new, cell', ages.trans ages', kept'.trans kept⟩, early ++ late, ?_, ?_⟩
    · rw [shown', shown, List.append_assoc]
    · exact List.forall_mem_append.mpr ⟨spared, spared'⟩
  silent gone silent := by
    cases cell : second.heap.cells a with
    | none => exact right.silent cell (left.silent gone silent)
    | some middle => exact (right.heard cell).trans (left.silent gone silent)
  born gone new found := by
    cases cell : second.heap.cells a with
    | none => exact right.born cell new found
    | some middle =>
      obtain ⟨⟨_, found', _, kept⟩, -⟩ := right.present middle cell
      cases found'.symm.trans found
      exact kept.trans (left.born gone middle cell)

theorem World.Spares.lasts (spares : w.Spares a w') : w.Lasts a w' := by
  intro old found
  obtain ⟨⟨new, cell, ages, -⟩, events, shown, spared⟩ := spares.present old found
  exact ⟨⟨new, cell, ages⟩, events, shown, fun freed => spared _ freed rfl⟩

theorem World.Spares.map {change : Addr → Endpoint → Endpoint}
    (changed : ∀ b, w'.heap.cells b = (w.heap.cells b).map (change b))
    (shown : w'.trace = w.trace ++ events) (spared : ∀ event ∈ events, event.Spares a)
    (kept : ∀ old : Endpoint, old.Ages (change a old) ∧ (change a old).rbuf = old.rbuf) : w.Spares a w' where
  present old found := ⟨⟨change a old, by rw [changed, found]; rfl, kept old⟩, events, shown, spared⟩
  silent _ silent := by rw [shown, heardFrom_spares spared, silent]
  born gone new found := by
    rw [changed, gone] at found
    cases found

/-- Nothing is noted, and an endpoint is kept but for its queues. -/
theorem World.Spares.quiet {change : Addr → Endpoint → Endpoint}
    (changed : ∀ b, w'.heap.cells b = (w.heap.cells b).map (change b)) (shown : w'.trace = w.trace)
    (kept : ∀ old : Endpoint, old.Ages (change a old) ∧ (change a old).rbuf = old.rbuf) :
    w.Spares a w' := .map changed (shown.trans (List.append_nil _).symm) nofun kept

theorem World.Spares.modify {change : Endpoint → Endpoint}
    (kept : ∀ old : Endpoint, old.Ages (change old) ∧ (change old).rbuf = old.rbuf) :
    w.Spares a (w.modify ep change) := by
  refine .quiet (cells_modify w ep · change) (trace_modify ..) fun old => ?_
  split
  · exact kept old
  · exact ⟨.rfl, rfl⟩

theorem World.Spares.note (spared : ∀ event ∈ events, event.Spares a) : w.Spares a (w.note events) :=
  have changed (b : Addr) : w.heap.cells b = (w.heap.cells b).map ((fun _ old => old) b) := (Option.map_id' ..).symm
  .map changed rfl spared fun _ => ⟨.rfl, rfl⟩

theorem World.Spares.same (heap : w'.heap = w.heap) (shown : w'.trace = w.trace) : w.Spares a w' :=
  have changed (b : Addr) : w'.heap.cells b = (w.heap.cells b).map ((fun _ old => old) b) := by
    rw [heap, Option.map_id']
  .quiet changed shown fun _ => ⟨.rfl, rfl⟩

theorem World.Spares.emit (spares : event.Spares a) : w.Spares a (w.emit event) := .note (by simpa using spares)

theorem World.Spares.settle : w.Spares a (w.settle ep) := .same (by simp) (by simp)

theorem World.Spares.closeFd (fd : Fd) (other : Option Fd) : w.Spares a (w.closeFd fd other) := by
  unfold World.closeFd
  split
  · exact .refl a w
  · exact .emit trivial

theorem World.Spares.shutRead (fd : Fd) : w.Spares a ((w.shutRead ep self fd).settle ep) := by
  have closed : w.Spares a (w.closeFd fd self.wfd) := .closeFd fd self.wfd
  have shut : (w.closeFd fd self.wfd).Spares a (w.shutRead ep self fd) :=
    .modify fun _ => ⟨⟨rfl, .inr rfl, .inl rfl⟩, rfl⟩
  exact (closed.trans shut).trans .settle

theorem World.Spares.shutWrite (found : w.heap.cells ep = some self) (fd : Fd) :
    w.Spares a ((w.shutWrite ep self fd).settle ep) := by
  have emptied : w.Spares a (w.discard ep self.wqueue) :=
    .quiet (cells_discard found) (by simp) fun _ => ⟨⟨rfl, .inl rfl, .inl rfl⟩, rfl⟩
  have closed : (w.discard ep self.wqueue).Spares a
      ((w.discard ep self.wqueue).closeFd fd self.rfd) := .closeFd fd self.rfd
  have shut : ((w.discard ep self.wqueue).closeFd fd self.rfd).Spares a (w.shutWrite ep self fd) :=
    .modify fun _ => ⟨⟨rfl, .inl rfl, .inr rfl⟩, rfl⟩
  exact ((emptied.trans closed).trans shut).trans .settle

theorem World.Spares.charge (sink : Addr) (mbuf : Mbuf) : w.Spares a (w.charge sink mbuf) := by
  refine .map (cells_charge w sink mbuf) (trace_charge ..) ?_ fun _ => ?_
  · simp [Event.Spares]
  · exact ⟨⟨rfl, .inl rfl, .inl rfl⟩, rfl⟩

theorem World.Spares.clear (other : a ≠ ep) : w.Spares a (w.clear ep) :=
  .quiet (cells_clear w ep) rfl fun _ => ⟨⟨rfl, .inl rfl, .inl rfl⟩, if_neg other⟩

theorem World.Spares.adopt (sink : Addr) : w.Spares a (w.adopt ep t sink) :=
  .quiet (cells_adopt w ep t sink) (by simp) fun _ => ⟨⟨rfl, .inl rfl, .inl rfl⟩, rfl⟩

theorem World.Spares.spawn {next : UInt32} (absent : w.heap.cells ep = none)
    (blank : self.rbuf = none) (spared : ∀ event ∈ events, event.Spares a) :
    w.Spares a (w.spawn t ep self next events) where
  present old found := by
    have different : a ≠ ep := by
      rintro rfl
      cases absent.symm.trans found
    exact ⟨⟨old, by rw [cells_spawn, if_neg different, found], .rfl, rfl⟩, events, trace_spawn .., spared⟩
  silent _ silent := (heardFrom_spares spared _).trans silent
  born gone new found := by
    rw [cells_spawn] at found
    split at found
    · cases found
      exact blank
    · cases gone.symm.trans found

/-- A packet of an endpoint is carried out: it was the one it had completed. -/
structure World.Dispatches (a : Addr) (w : World) (old : Endpoint) (bp : NiBuffer) (w' : World) :
    Prop where
  found : w.heap.cells a = some old
  buffer : old.rbuf = some bp
  whole : Whole bp.contents
  heard : heardFrom a w'.trace = hear a (heardFrom a w.trace) (.dispatched a bp.contents)
  lasts : w.Lasts a w'
  cleared : ∀ new, w'.heap.cells a = some new → new.rbuf = none

/-- What an action is for one endpoint. -/
inductive Heeds (G : Guard) (a : Addr) (w : World) : World → Prop
  | spares {w' : World} (spares : w.Spares a w') : Heeds G a w w'
  | copies {w' : World} {old : Endpoint} (found : w.heap.cells a = some old)
      (other : (w.xprt old.transport).dataAvailable ≠ .recvDemux) (lasts : w.Lasts a w') :
      Heeds G a w w'
  | receive {self : Endpoint} {bp : NiBuffer} {bytes : Bytes} (found : w.heap.cells a = some self)
      (contents : bp.contents = self.unread ++ bytes) (allowed : G.receive w a) :
      Heeds G a w (w.receive a bp bytes)
  | dispatches {w' : World} {self : Endpoint} {bp : NiBuffer} {sys : Syscalls}
      (dispatches : w.Dispatches a self bp w') (allowed : G.frame w a bp sys) : Heeds G a w w'

theorem heeds_dispatch {source : Addr} {bp : NiBuffer} (arrived : Arrived G w source self bp sys)
    (spares : (w.emit (.dispatched source bp.contents)).Spares a w') : Heeds G a w (w'.clear source) := by
  by_cases here : a = source
  · subst here
    have found := arrived.found
    have told : w.Lasts a (w.emit (.dispatched a bp.contents)) := .emit (by simp)
    refine .dispatches ⟨found, arrived.buffer, (packetComplete_iff arrived.fits).mp arrived.complete,
      ?_, (told.trans spares.lasts).trans .clear, fun new cell => ?_⟩ arrived.allowed
    · exact (spares.heard found).trans (heardFrom_append a w.trace _)
    · rw [cells_clear] at cell
      obtain ⟨old, -, rfl⟩ := Option.map_eq_some_iff.mp cell
      exact if_pos rfl
  · have told : w.Spares a (w.emit (.dispatched source bp.contents)) := .emit (Ne.symm here)
    exact .spares ((told.trans spares).trans (.clear here))

theorem hear_administrative (admin : ∀ event ∈ events, event.Administrative w) : events.foldl (hear a) {} = {} := by
  induction events with
  | nil => rfl
  | cons event rest ih =>
    obtain ⟨here, later⟩ := List.forall_mem_cons.mp admin
    have silent : hear a {} event = {} := by
      cases event with
      | freed b => exact ite_self _
      | received | dispatched => cases here
      | _ => rfl
    rw [List.foldl_cons, silent]
    exact ih later

theorem Quiet.spares (moved : Quiet w w') : w.Spares a w' := by
  cases moved with
  | @pull ep self mbuf rest =>
    exact .quiet (cells_pull w ep mbuf rest) (by simp) fun _ => ⟨⟨rfl, .inl rfl, .inl rfl⟩, rfl⟩
  | closeRead => exact .shutRead _
  | closeWrite found => exact .shutWrite found _
  | rebury => exact .settle

/-- What the actions are for an endpoint that they do not release. -/
theorem Act.heeds (acted : Act G w w') (kept : ∀ w ep, G.release w ep → ep ≠ a) : Heeds G a w w' := by
  cases acted with
  | quiet moved => exact .spares moved.spares
  | mark | connect | detach => exact .spares (.modify fun _ => ⟨⟨rfl, .inl rfl, .inl rfl⟩, rfl⟩)
  | transmit =>
    refine .spares ((World.Spares.emit ?_).trans (.modify fun _ => ?_))
    · trivial
    · exact ⟨⟨rfl, .inl rfl, .inl rfl⟩, rfl⟩
  | @copied ep self sink other bp found target present handler =>
    by_cases here : ep = a
    · subst here
      refine .copies found (by simp [handler]) ((World.Lasts.emit ?_).trans (.charge _ _))
      simp
    · refine .spares ((World.Spares.emit ?_).trans (.charge _ _))
      exact here
  | framed =>
    refine .spares ((World.Spares.emit ?_).trans (.charge _ _))
    trivial
  | leave => exact .spares ((World.Spares.charge _ _).trans (.shutRead _))
  | @receive ep self bp bytes found handler fits contents allowed =>
    by_cases here : ep = a
    · subst here
      exact .receive found contents allowed
    · have read : w.Spares a (w.modify ep fun self => { self with rbuf := some bp }) := by
        refine .quiet (cells_modify w ep · _) rfl fun old => ?_
        rw [if_neg (Ne.symm here)]
        exact ⟨.rfl, rfl⟩
      exact .spares (read.trans (.emit here))
  | @opened source self bp sys born next arrived cmd absent fresh =>
    refine heeds_dispatch arrived ((World.Spares.spawn ?_ ?_ ?_).trans (.adopt _))
    · exact absent
    · exact fresh.rbuf
    · simp [Event.Spares]
  | ignored arrived => exact heeds_dispatch arrived (.refl _ _)
  | closing arrived =>
    exact heeds_dispatch arrived (.modify fun _ => ⟨⟨rfl, .inl rfl, .inl rfl⟩, rfl⟩)
  | deliver arrived =>
    refine heeds_dispatch arrived ((World.Spares.emit ?_).trans (.charge _ _))
    trivial
  | @administer t next events admin =>
    refine .spares ⟨fun old found => ⟨⟨old, found, .rfl, rfl⟩, events, rfl, ?_⟩,
      fun _ silent => ?_, fun gone new found => ?_⟩
    · intro event member
      have about := admin event member
      cases event with
      | freed b =>
        rintro rfl
        have absent : w.heap.cells b = none := about
        cases absent.symm.trans found
      | received | dispatched => cases about
      | _ => trivial
    · change heardFrom a (w.trace ++ events) = {}
      rw [heardFrom_append, silent]
      exact hear_administrative admin
    · cases gone.symm.trans found
  | announced _ absent fresh =>
    refine .spares (((World.Spares.spawn absent fresh.rbuf ?_).trans (.charge _ _)).trans (.adopt _))
    simp [Event.Spares]
  | paired _ absent fresh _ _ _ vacant different partner =>
    refine .spares ((((World.Spares.spawn absent fresh.rbuf ?_).trans
      (.spawn ?_ partner.rbuf ?_)).trans (.adopt _)).trans (.adopt _))
    · simp [Event.Spares]
    · rw [cells_spawn, if_neg different, vacant]
    · simp [Event.Spares]
  | multiplexed _ _ absent fresh =>
    refine .spares ((World.Spares.spawn absent fresh.rbuf ?_).trans (.same rfl rfl))
    simp [Event.Spares]
  | @flush ep self t found dead allowed =>
    refine .spares (.quiet (cells_flush found t) (by simp [World.flush, World.clear]) fun old => ?_)
    exact ⟨⟨rfl, .inl rfl, .inl rfl⟩, if_neg (kept w ep allowed).symm⟩
  | @release ep self found dead empty allowed =>
    have other := kept w ep allowed
    have spared : ∀ event ∈ [Event.freed ep], event.Spares a := by simpa [Event.Spares] using other
    refine .spares ⟨fun old here => ⟨⟨old, ?_, .rfl, rfl⟩, _, trace_release .., spared⟩,
      fun _ silent => ?_, fun gone new here => ?_⟩
    · rw [cells_release, if_neg other.symm, here]
    · rw [trace_release]
      exact (heardFrom_spares spared _).trans silent
    · rw [cells_release, if_neg other.symm, gone] at here
      cases here

/-- Every other endpoint may be freed. -/
def Guard.sparing (a : Addr) : Guard where
  accept _ _ := True
  receive _ _ := True
  frame _ _ _ _ := True
  release _ ep := ep ≠ a

/-- No action but the release of the endpoint itself ends it. -/
theorem Act.lasts (acted : Act (.sparing a) w w') : w.Lasts a w' := by
  cases acted.heeds fun _ _ other => other with
  | spares spares => exact spares.lasts
  | copies _ _ lasts => exact lasts
  | receive =>
    refine (World.Lasts.modify fun _ => ?_).trans (.emit ?_)
    · exact ⟨rfl, .inl rfl, .inl rfl⟩
    · simp
  | dispatches dispatches => exact dispatches.lasts

theorem Acts.lasts (acted : Acts (.sparing a) w w') : w.Lasts a w' := by
  induction acted with
  | refl => exact .refl a w
  | tail _ last ih => exact ih.trans last.lasts

end Testbus.Proxy
