import Testbus.Proxy.MainLoop

namespace Testbus.Proxy

open Lib

namespace World

variable {w : World}

theorem cells_modify (w : World) (ep a : Addr) (change : Endpoint → Endpoint) :
    (w.modify ep change).heap.cells a = (w.heap.cells a).map fun self => if a = ep then change self else self := by
  rw [modify, Store.cells_modify]
  split <;> simp

@[simp] theorem xprt_modify (w : World) (ep : Addr) (change : Endpoint → Endpoint) :
    (w.modify ep change).xprt = w.xprt := rfl

@[simp] theorem trace_modify (w : World) (ep : Addr) (change : Endpoint → Endpoint) :
    (w.modify ep change).trace = w.trace := rfl

@[simp] theorem heap_emit (w : World) (event : Event) : (w.emit event).heap = w.heap := rfl

@[simp] theorem heap_modifyXprt (w : World) (t : Side) (change : Transport → Transport) :
    (w.modifyXprt t change).heap = w.heap := rfl

@[simp] theorem trace_modifyXprt (w : World) (t : Side) (change : Transport → Transport) :
    (w.modifyXprt t change).trace = w.trace := rfl

@[simp] theorem xprt_modifyXprt_self (w : World) (t : Side) (change : Transport → Transport) :
    (w.modifyXprt t change).xprt t = change (w.xprt t) := by
  simp [modifyXprt]

theorem xprt_modifyXprt_of_ne (different : other ≠ t) : (w.modifyXprt t change).xprt other = w.xprt other := by
  simp [modifyXprt, Function.update_of_ne different]

/-- An update of a transport that leaves a field alone. -/
theorem field_modifyXprt (field : Transport → β) (s : Side) (same : ∀ xprt, field (change xprt) = field xprt) :
    field ((w.modifyXprt t change).xprt s) = field (w.xprt s) := by
  by_cases here : s = t
  · rw [here, xprt_modifyXprt_self, same]
  · rw [xprt_modifyXprt_of_ne here]

theorem modify_eq_self (found : w.heap.cells ep = some self) (same : change self = self) : w.modify ep change = w := by
  have cells : (w.heap.modify ep change) = w.heap := by
    apply Store.ext_cells
    funext other
    by_cases equal : other = ep
    · subst equal; simp [found, same]
    · exact Store.modify_of_ne equal
  simp [modify, cells]

theorem deref_ok : w.deref ep = .ok self ↔ w.heap.cells ep = some self := by
  unfold deref
  cases w.heap.cells ep <;> simp

/-- Give the credit of a message back to its source. -/
def refund (w : World) (mbuf : Mbuf) : World :=
  match mbuf.source with
  | none => w
  | some source => w.modify source fun ep => { ep with rxCredit := ep.rxCredit + mbuf.credit }

def pull (w : World) (ep : Addr) (mbuf : Mbuf) (rest : List Mbuf) : World :=
  (w.refund mbuf).modify ep fun self => { self with wbuf := some mbuf.buffer, wqueue := rest }

def dropQueue (w : World) (ep : Addr) : List Mbuf → World
  | [] => w
  | mbuf :: rest =>
    ((w.modify ep fun self => { self with wqueue := rest }).refund mbuf).dropQueue ep rest

def discard (w : World) (ep : Addr) (queue : List Mbuf) : World :=
  (w.modify ep fun self => { self with wbuf := none }).dropQueue ep queue

def closeFd (w : World) (fd : Fd) (other : Option Fd) : World :=
  if other = some fd then w else w.emit (.closed fd)

def shutRead (w : World) (ep : Addr) (self : Endpoint) (fd : Fd) : World :=
  (w.closeFd fd self.wfd).modify ep fun self => { self with rfd := none }

def shutWrite (w : World) (ep : Addr) (self : Endpoint) (fd : Fd) : World :=
  ((w.discard ep self.wqueue).closeFd fd self.rfd).modify ep fun self => { self with wfd := none }

def bury (w : World) (ep : Addr) (t : Side) : World :=
  ioEndpointLink (ioEndpointUnlink w ep t) ep t .garbageList

/-- Move the endpoint to the garbage list if both its descriptors are closed. -/
def settle (w : World) (ep : Addr) : World :=
  match w.heap.cells ep with
  | none => w
  | some self => if self.dead then w.bury ep self.transport else w

/-- Charge a message to its source and put it on the sink's queue. -/
def charge (w : World) (sink : Addr) (mbuf : Mbuf) : World :=
  ((match mbuf.source with
    | none => w
    | some source => w.modify source fun ep => { ep with rxCredit := ep.rxCredit - mbuf.credit }).modify
    sink fun self => { self with wqueue := self.wqueue ++ [mbuf] }).emit (.queued sink mbuf.bytes)

def note (w : World) (events : List Event) : World := { w with trace := w.trace ++ events }

def counter (w : World) (t : Side) (next : UInt32) : World :=
  w.modifyXprt t fun xprt => { xprt with nextChannelId := next }

def spawn (w : World) (t : Side) (ep : Addr) (self : Endpoint) (next : UInt32)
    (events : List Event) : World :=
  ({ w with heap := w.heap.alloc ep self }.counter t next).note events

/-- Give an endpoint its sink and put it on its transport's list. -/
def adopt (w : World) (ep : Addr) (t : Side) (sink : Addr) : World :=
  ioEndpointLink (w.modify ep fun self => { self with sink := some sink }) ep t .epList

/-- Bytes were read into the packet under construction. -/
def receive (w : World) (ep : Addr) (bp : NiBuffer) (bytes : Bytes) : World :=
  (w.modify ep fun self => { self with rbuf := some bp }).emit (.received ep bytes)

/-- The packet under construction is taken from the endpoint. -/
def clear (w : World) (ep : Addr) : World :=
  w.modify ep fun self => { self with rbuf := none }

/-- Take an endpoint off the garbage list and empty it. -/
def flush (w : World) (ep : Addr) (t : Side) (queue : List Mbuf) : World :=
  ((w.modifyXprt t fun xprt => { xprt with garbageList := xprt.garbageList.erase ep }).clear
    ep).discard ep queue

def release (w : World) (ep : Addr) (t : Side) : World :=
  let w := ioEndpointUnlink w ep t
  { w with heap := w.heap.free ep, trace := w.trace ++ [Event.freed ep] }

/-- The credit the messages of a queue carry for one source. -/
def owed (queue : List Mbuf) (source : Addr) : Nat :=
  (queue.map fun mbuf => if mbuf.source = some source then mbuf.credit else 0).sum

@[simp] theorem owed_nil (source : Addr) : owed [] source = 0 := rfl

@[simp] theorem owed_cons (mbuf : Mbuf) (queue : List Mbuf) (source : Addr) :
    owed (mbuf :: queue) source = (if mbuf.source = some source then mbuf.credit else 0) + owed queue source := rfl

@[simp] theorem owed_append (first second : List Mbuf) (source : Addr) :
    owed (first ++ second) source = owed first source + owed second source := by
  simp [owed]

theorem cells_refund (w : World) (mbuf : Mbuf) (a : Addr) :
    (w.refund mbuf).heap.cells a = (w.heap.cells a).map fun self =>
      { self with rxCredit := self.rxCredit + if mbuf.source = some a then mbuf.credit else 0 } := by
  cases origin : mbuf.source with
  | none => simp [refund, origin]
  | some source =>
    simp only [refund, origin, cells_modify]
    congr 1
    funext self
    by_cases same : a = source
    · simp [same]
    · simp [same, Ne.symm same]

@[simp] theorem xprt_refund (w : World) (mbuf : Mbuf) : (w.refund mbuf).xprt = w.xprt := by
  unfold refund
  split <;> rfl

@[simp] theorem trace_refund (w : World) (mbuf : Mbuf) : (w.refund mbuf).trace = w.trace := by
  unfold refund
  split <;> rfl

theorem cells_pull (w : World) (ep : Addr) (mbuf : Mbuf) (rest : List Mbuf) (a : Addr) :
    (w.pull ep mbuf rest).heap.cells a = (w.heap.cells a).map fun self =>
      { self with
        rxCredit := self.rxCredit + if mbuf.source = some a then mbuf.credit else 0
        wbuf := if a = ep then some mbuf.buffer else self.wbuf
        wqueue := if a = ep then rest else self.wqueue } := by
  rw [pull, cells_modify, cells_refund, Option.map_map]
  congr 1
  funext self
  by_cases same : a = ep <;> simp [same]

@[simp] theorem xprt_pull (w : World) (ep : Addr) (mbuf : Mbuf) (rest : List Mbuf) :
    (w.pull ep mbuf rest).xprt = w.xprt := by simp [pull]

@[simp] theorem trace_pull (w : World) (ep : Addr) (mbuf : Mbuf) (rest : List Mbuf) :
    (w.pull ep mbuf rest).trace = w.trace := by simp [pull]

theorem cells_dropQueue (w : World) (ep : Addr) (queue : List Mbuf) (a : Addr) :
    (w.dropQueue ep queue).heap.cells a = (w.heap.cells a).map fun self =>
      { self with
        rxCredit := self.rxCredit + owed queue a
        wqueue := if a = ep ∧ queue ≠ [] then [] else self.wqueue } := by
  induction queue generalizing w with
  | nil => simp [dropQueue]
  | cons mbuf rest ih =>
    rw [dropQueue, ih, cells_refund, cells_modify, Option.map_map, Option.map_map]
    congr 1
    funext self
    by_cases same : a = ep <;> cases rest <;> simp [same, Nat.add_assoc]

@[simp] theorem xprt_dropQueue (w : World) (ep : Addr) (queue : List Mbuf) : (w.dropQueue ep queue).xprt = w.xprt := by
  induction queue generalizing w with
  | nil => rfl
  | cons mbuf rest ih => simp [dropQueue, ih]

@[simp] theorem trace_dropQueue (w : World) (ep : Addr) (queue : List Mbuf) : (w.dropQueue ep queue).trace = w.trace := by
  induction queue generalizing w with
  | nil => rfl
  | cons mbuf rest ih => simp [dropQueue, ih]

theorem cells_discard (found : w.heap.cells ep = some self) (a : Addr) :
    (w.discard ep self.wqueue).heap.cells a = (w.heap.cells a).map fun other =>
      { other with
        rxCredit := other.rxCredit + owed self.wqueue a
        wbuf := if a = ep then none else other.wbuf
        wqueue := if a = ep then [] else other.wqueue } := by
  rw [discard, cells_dropQueue, cells_modify, Option.map_map]
  by_cases same : a = ep
  · subst same
    rw [found]
    cases queue : self.wqueue <;> simp [queue]
  · simp [same, Function.comp_def]

@[simp] theorem xprt_discard (w : World) (ep : Addr) (queue : List Mbuf) :
    (w.discard ep queue).xprt = w.xprt := by simp [discard]

@[simp] theorem trace_discard (w : World) (ep : Addr) (queue : List Mbuf) :
    (w.discard ep queue).trace = w.trace := by simp [discard]

@[simp] theorem heap_closeFd (w : World) (fd : Fd) (other : Option Fd) : (w.closeFd fd other).heap = w.heap := by
  unfold closeFd
  split <;> rfl

@[simp] theorem xprt_closeFd (w : World) (fd : Fd) (other : Option Fd) : (w.closeFd fd other).xprt = w.xprt := by
  unfold closeFd
  split <;> rfl

theorem cells_shutRead (w : World) (ep : Addr) (self : Endpoint) (fd : Fd) (a : Addr) :
    (w.shutRead ep self fd).heap.cells a = (w.heap.cells a).map fun other =>
      { other with rfd := if a = ep then none else other.rfd } := by
  rw [shutRead, cells_modify, heap_closeFd]
  congr 1
  funext other
  by_cases same : a = ep <;> simp [same]

@[simp] theorem xprt_shutRead (w : World) (ep : Addr) (self : Endpoint) (fd : Fd) :
    (w.shutRead ep self fd).xprt = w.xprt := by simp [shutRead]

theorem cells_shutWrite (found : w.heap.cells ep = some self) (fd : Fd) (a : Addr) :
    (w.shutWrite ep self fd).heap.cells a = (w.heap.cells a).map fun other =>
      { other with
        rxCredit := other.rxCredit + owed self.wqueue a
        wfd := if a = ep then none else other.wfd
        wbuf := if a = ep then none else other.wbuf
        wqueue := if a = ep then [] else other.wqueue } := by
  rw [shutWrite, cells_modify, heap_closeFd, cells_discard found, Option.map_map]
  congr 1
  funext other
  by_cases same : a = ep <;> simp [same]

@[simp] theorem xprt_shutWrite (w : World) (ep : Addr) (self : Endpoint) (fd : Fd) :
    (w.shutWrite ep self fd).xprt = w.xprt := by simp [shutWrite]

@[simp] theorem heap_link (w : World) (ep : Addr) (t : Side) (list : ListName) :
    (ioEndpointLink w ep t list).heap = w.heap := by cases list <;> rfl

@[simp] theorem trace_link (w : World) (ep : Addr) (t : Side) (list : ListName) :
    (ioEndpointLink w ep t list).trace = w.trace := by cases list <;> rfl

@[simp] theorem heap_unlink (w : World) (ep : Addr) (t : Side) : (ioEndpointUnlink w ep t).heap = w.heap := by
  unfold ioEndpointUnlink
  split <;> rfl

@[simp] theorem trace_unlink (w : World) (ep : Addr) (t : Side) : (ioEndpointUnlink w ep t).trace = w.trace := by
  unfold ioEndpointUnlink
  split <;> rfl

@[simp] theorem heap_bury (w : World) (ep : Addr) (t : Side) : (w.bury ep t).heap = w.heap := by
  simp [bury]

@[simp] theorem trace_bury (w : World) (ep : Addr) (t : Side) : (w.bury ep t).trace = w.trace := by
  simp [bury]

@[simp] theorem heap_settle (w : World) (ep : Addr) : (w.settle ep).heap = w.heap := by
  unfold settle
  split
  · rfl
  · split <;> simp

@[simp] theorem trace_settle (w : World) (ep : Addr) : (w.settle ep).trace = w.trace := by
  unfold settle
  split
  · rfl
  · split <;> simp

theorem cells_charge (w : World) (sink : Addr) (mbuf : Mbuf) (a : Addr) :
    (w.charge sink mbuf).heap.cells a = (w.heap.cells a).map fun self =>
      { self with
        rxCredit := self.rxCredit - if mbuf.source = some a then mbuf.credit else 0
        wqueue := if a = sink then self.wqueue ++ [mbuf] else self.wqueue } := by
  rw [charge, heap_emit, cells_modify]
  cases origin : mbuf.source with
  | none =>
    simp only [reduceCtorEq, if_false, Nat.sub_zero]
    congr 1
    funext self
    by_cases same : a = sink <;> simp [same]
  | some source =>
    simp only [cells_modify, Option.map_map]
    congr 1
    funext self
    by_cases same : a = source
    · subst same
      by_cases target : a = sink <;> simp [target]
    · by_cases target : a = sink
      · subst target
        simp [same, Ne.symm same]
      · simp [same, Ne.symm same, target]

@[simp] theorem xprt_charge (w : World) (sink : Addr) (mbuf : Mbuf) : (w.charge sink mbuf).xprt = w.xprt := by
  unfold charge
  split <;> rfl

@[simp] theorem trace_charge (w : World) (sink : Addr) (mbuf : Mbuf) :
    (w.charge sink mbuf).trace = w.trace ++ [.queued sink mbuf.bytes] := by
  unfold charge
  split <;> rfl

@[simp] theorem heap_note (w : World) (events : List Event) : (w.note events).heap = w.heap := rfl

@[simp] theorem xprt_note (w : World) (events : List Event) : (w.note events).xprt = w.xprt := rfl

@[simp] theorem heap_counter (w : World) (t : Side) (next : UInt32) : (w.counter t next).heap = w.heap := rfl

theorem cells_spawn (w : World) (t : Side) (ep : Addr) (self : Endpoint) (next : UInt32)
    (events : List Event) (a : Addr) :
    (w.spawn t ep self next events).heap.cells a =
      if a = ep then some self else w.heap.cells a := by
  by_cases same : a = ep
  · subst same; simp [spawn]
  · simp [spawn, same, Store.alloc_of_ne same]

@[simp] theorem trace_spawn (w : World) (t : Side) (ep : Addr) (self : Endpoint) (next : UInt32)
    (events : List Event) : (w.spawn t ep self next events).trace = w.trace ++ events := rfl

theorem cells_adopt (w : World) (ep : Addr) (t : Side) (sink a : Addr) :
    (w.adopt ep t sink).heap.cells a = (w.heap.cells a).map fun self =>
      { self with sink := if a = ep then some sink else self.sink } := by
  rw [adopt, heap_link, cells_modify]
  congr 1
  funext self
  by_cases same : a = ep <;> simp [same]

@[simp] theorem trace_adopt (w : World) (ep : Addr) (t : Side) (sink : Addr) :
    (w.adopt ep t sink).trace = w.trace := by simp [adopt]

theorem cells_receive (w : World) (ep : Addr) (bp : NiBuffer) (bytes : Bytes) (a : Addr) :
    (w.receive ep bp bytes).heap.cells a = (w.heap.cells a).map fun self =>
      { self with rbuf := if a = ep then some bp else self.rbuf } := by
  rw [receive, heap_emit, cells_modify]
  congr 1
  funext self
  by_cases same : a = ep <;> simp [same]

theorem cells_clear (w : World) (ep a : Addr) :
    (w.clear ep).heap.cells a = (w.heap.cells a).map fun self =>
      { self with rbuf := if a = ep then none else self.rbuf } := by
  rw [clear, cells_modify]
  congr 1
  funext self
  by_cases same : a = ep <;> simp [same]

@[simp] theorem xprt_clear (w : World) (ep : Addr) : (w.clear ep).xprt = w.xprt := rfl

theorem cells_flush (found : w.heap.cells ep = some self) (t : Side) (a : Addr) :
    (w.flush ep t self.wqueue).heap.cells a = (w.heap.cells a).map fun other =>
      { other with
        rxCredit := other.rxCredit + owed self.wqueue a
        rbuf := if a = ep then none else other.rbuf
        wbuf := if a = ep then none else other.wbuf
        wqueue := if a = ep then [] else other.wqueue } := by
  have emptied := cells_clear (w.modifyXprt t fun xprt => { xprt with garbageList := xprt.garbageList.erase ep }) ep
  have found' : ((w.modifyXprt t fun xprt =>
      { xprt with garbageList := xprt.garbageList.erase ep }).clear ep).heap.cells ep =
        some { self with rbuf := none } := by
    simp [emptied, found]
  have same := cells_discard found' a
  rw [flush, same, emptied, Option.map_map]
  rfl

theorem cells_release (w : World) (ep : Addr) (t : Side) (a : Addr) :
    (w.release ep t).heap.cells a = if a = ep then none else w.heap.cells a := by
  by_cases same : a = ep
  · subst same; simp [release]
  · simp [release, same, Store.free_of_ne same]

@[simp] theorem trace_release (w : World) (ep : Addr) (t : Side) :
    (w.release ep t).trace = w.trace ++ [.freed ep] := by simp [release]

end World

open World

theorem takeBuffer_ok (taken : ioMbufTakeBuffer w mbuf = .ok (bp, w')) : bp = mbuf.buffer ∧ w' = w.refund mbuf := by
  unfold ioMbufTakeBuffer at taken
  unfold World.refund
  cases origin : mbuf.source with
  | none =>
    simp only [origin] at taken
    cases taken
    exact ⟨rfl, rfl⟩
  | some source =>
    simp only [origin] at taken
    obtain ⟨_, _, done⟩ := bind_ok.mp taken
    cases done
    exact ⟨rfl, rfl⟩

theorem ioMbufFree_ok (freed : ioMbufFree w mbuf = .ok w') : w' = w.refund mbuf := by
  obtain ⟨⟨bp, middle⟩, taken, done⟩ := bind_ok.mp freed
  cases done
  exact (takeBuffer_ok taken).2

theorem pullup_ok (pulled : ioEndpointPullup w ep = .ok (pending, w')) :
    ∃ self, w.heap.cells ep = some self ∧
      ((∃ bp, self.wbuf = some bp ∧ bp.count ≠ 0 ∧ pending = some bp ∧ w' = w) ∨
        (self.wbuf = none ∧ self.wqueue = [] ∧ pending = none ∧ w' = w) ∨
        ∃ mbuf rest, self.wbuf = none ∧ self.wqueue = mbuf :: rest ∧
          pending = some mbuf.buffer ∧ w' = w.pull ep mbuf rest) := by
  obtain ⟨self, found, rest⟩ := bind_ok.mp pulled
  refine ⟨self, deref_ok.mp found, ?_⟩
  cases buffer : self.wbuf with
  | some bp =>
    simp only [buffer] at rest
    split at rest
    · cases rest
    · rename_i full
      cases rest
      exact .inl ⟨bp, rfl, full, rfl, rfl⟩
  | none =>
    simp only [buffer] at rest
    cases queue : self.wqueue with
    | nil =>
      simp only [queue] at rest
      cases rest
      exact .inr (.inl ⟨rfl, rfl, rfl, rfl⟩)
    | cons mbuf others =>
      simp only [queue] at rest
      obtain ⟨⟨bp, middle⟩, taken, done⟩ := bind_ok.mp rest
      obtain ⟨rfl, rfl⟩ := takeBuffer_ok taken
      cases done
      exact .inr (.inr ⟨mbuf, others, rfl, rfl, rfl, rfl⟩)

theorem discardQueue_ok (dropped : discardQueue w ep queue = .ok w') : w' = w.dropQueue ep queue := by
  induction queue generalizing w with
  | nil => cases dropped; rfl
  | cons mbuf rest ih =>
    obtain ⟨middle, freed, later⟩ := bind_ok.mp dropped
    rw [ih later, ioMbufFree_ok freed]
    rfl

theorem writeQueueDiscard_ok (dropped : ioEndpointWriteQueueDiscard w ep = .ok w') :
    ∃ self, w.heap.cells ep = some self ∧ w' = w.discard ep self.wqueue := by
  obtain ⟨self, found, rest⟩ := bind_ok.mp dropped
  exact ⟨self, deref_ok.mp found, discardQueue_ok rest⟩

theorem shutdownRead_ok (shut : shutdownRead w ep = .ok w') :
    ∃ self, w.heap.cells ep = some self ∧
      ((self.rfd = none ∧ w' = w) ∨ ∃ fd, self.rfd = some fd ∧ w' = w.shutRead ep self fd) := by
  obtain ⟨self, found, rest⟩ := bind_ok.mp shut
  refine ⟨self, deref_ok.mp found, ?_⟩
  cases reading : self.rfd with
  | none =>
    simp only [reading] at rest
    cases rest
    exact .inl ⟨rfl, rfl⟩
  | some fd =>
    simp only [reading] at rest
    cases rest
    exact .inr ⟨fd, rfl, rfl⟩

theorem buryDead_ok (buried : buryDead w ep = .ok w') : ∃ self, w.heap.cells ep = some self ∧ w' = w.settle ep := by
  obtain ⟨self, found, rest⟩ := bind_ok.mp buried
  have cell := deref_ok.mp found
  refine ⟨self, cell, ?_⟩
  simp only [World.settle, cell]
  split at rest
  · rename_i dead
    cases rest
    simp [dead, World.bury]
  · rename_i alive
    cases rest
    simp [alive]

end Testbus.Proxy
