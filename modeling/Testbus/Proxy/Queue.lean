import Testbus.Proxy.Steps

namespace Testbus.Proxy

open Lib World

variable {w w' : World}

/-- What the events show to be written to an endpoint's descriptor. -/
def writtenTo (ep : Addr) (events : List Event) : Bytes :=
  events.flatMap fun
    | .wrote a bytes => if a = ep then bytes else []
    | _ => []

@[simp] theorem writtenTo_nil (ep : Addr) : writtenTo ep [] = [] := rfl

@[simp] theorem writtenTo_append (ep : Addr) (first second : List Event) :
    writtenTo ep (first ++ second) = writtenTo ep first ++ writtenTo ep second := List.flatMap_append

/-- The calls that work on write queues. A message that is queued has a well-formed
buffer; `write(2)` takes any number of bytes. -/
inductive QueueCall
  | queueWrite (sink : Addr) (mbuf : Mbuf) (fits : mbuf.buffer.Fits) (sys : Syscalls)
  | pullup (ep : Addr)
  | write (ep : Addr) (count : Nat)

/-- The bytes that a call queues to an endpoint. -/
def QueueCall.queues (ep : Addr) : QueueCall → Bytes
  | .queueWrite sink mbuf _ _ => if sink = ep then mbuf.bytes else []
  | .pullup _ | .write _ _ => []

def QueueCall.apply (w : World) : QueueCall → Except Fault World
  | .queueWrite sink mbuf _ sys => ioEndpointQueueWrite w sink mbuf sys
  | .pullup ep => do
    let (_, w) ← ioEndpointPullup w ep
    .ok w
  | .write ep count => transmit w ep { write := .wrote count }

/-- Every buffer of the endpoint is well-formed. -/
structure Endpoint.Buffered (ep : Endpoint) : Prop where
  wbuf : ∀ bp, ep.wbuf = some bp → bp.Fits
  wqueue : ∀ mbuf ∈ ep.wqueue, mbuf.buffer.Fits

def World.Buffered (w : World) : Prop :=
  ∀ a self, w.heap.cells a = some self → self.Buffered

theorem World.Buffered.map (buffered : w.Buffered) {change : Addr → Endpoint → Endpoint}
    (changed : ∀ a, w'.heap.cells a = (w.heap.cells a).map (change a))
    (kept : ∀ a self, w.heap.cells a = some self → self.Buffered → (change a self).Buffered) : w'.Buffered := by
  intro a new found
  rw [changed] at found
  obtain ⟨old, cell, rfl⟩ := Option.map_eq_some_iff.mp found
  exact kept a old cell (buffered a old cell)

/-- Calls that queue `queued` to each endpoint, from one world to another: what the events show to be
written to an endpoint, and what is still pending there, are what was pending before and what is
queued. -/
structure Flows (queued : Addr → Bytes) (w w' : World) : Prop where
  buffered : w'.Buffered
  shown : ∃ events, w'.trace = w.trace ++ events ∧
    ∀ a self, w.heap.cells a = some self → ∃ left, w'.heap.cells a = some left ∧
      writtenTo a events ++ left.pending = self.pending ++ queued a

theorem Flows.refl (buffered : w.Buffered) : Flows (fun _ => []) w w :=
  ⟨buffered, [], (List.append_nil _).symm, fun _ self found => ⟨self, found, by simp⟩⟩

theorem Flows.trans {first second third : World} (before : Flows queued first second)
    (after : Flows queued' second third) : Flows (fun a => queued a ++ queued' a) first third := by
  obtain ⟨_, early, trace, flow⟩ := before
  obtain ⟨buffered, late, trace', flow'⟩ := after
  refine ⟨buffered, early ++ late, by rw [trace', trace, List.append_assoc], ?_⟩
  intro a self found
  obtain ⟨middle, found', equal⟩ := flow a self found
  obtain ⟨left, found'', equal'⟩ := flow' a middle found'
  refine ⟨left, found'', ?_⟩
  calc writtenTo a (early ++ late) ++ left.pending = writtenTo a early ++ (writtenTo a late ++ left.pending) := by simp
    _ = (writtenTo a early ++ middle.pending) ++ queued' a := by rw [equal', List.append_assoc]
    _ = self.pending ++ (queued a ++ queued' a) := by rw [equal, List.append_assoc]

/-- Connecting a sink that was not connected moves no bytes. -/
theorem flows_connect (buffered : w.Buffered) (ep : Addr) : Flows (fun _ => []) w (w.connect ep) := by
  have changed := fun a => cells_modify w ep a fun self => { self with connected := true }
  refine ⟨buffered.map changed ?_, [], (List.append_nil _).symm, ?_⟩
  · intro a self _ here
    by_cases same : a = ep
    · simpa [same] using ⟨here.wbuf, here.wqueue⟩
    · simpa [same] using here
  · intro a self found
    refine ⟨_, by rw [World.connect, changed, found]; rfl, ?_⟩
    by_cases same : a = ep <;> simp [same, Endpoint.pending]

theorem flows_charge (buffered : w.Buffered) (sink : Addr)
    (fits : mbuf.buffer.Fits) : Flows (fun a => if sink = a then mbuf.bytes else []) w (w.charge sink mbuf) := by
  refine ⟨buffered.map (cells_charge w sink mbuf) ?_, [.queued sink mbuf.bytes], trace_charge w sink mbuf, ?_⟩
  · intro a self _ here
    refine ⟨here.wbuf, ?_⟩
    by_cases same : a = sink
    · intro other member
      rcases List.mem_append.mp (show other ∈ self.wqueue ++ [mbuf] by simpa [same] using member)
        with old | new
      · exact here.wqueue other old
      · rw [List.mem_singleton.mp new]
        exact fits
    · simpa [same] using here.wqueue
  · intro a self found
    refine ⟨_, by rw [cells_charge, found]; rfl, ?_⟩
    by_cases same : a = sink
    · subst same
      simp [Endpoint.pending, writtenTo]
    · simp [same, Ne.symm same, Endpoint.pending, writtenTo]

theorem flows_pull (buffered : w.Buffered) {rest : List Mbuf}
    (found : w.heap.cells ep = some self) (idle : self.wbuf = none)
    (queue : self.wqueue = mbuf :: rest) : Flows (fun _ => []) w (w.pull ep mbuf rest) := by
  have here := buffered ep self found
  refine ⟨buffered.map (cells_pull w ep mbuf rest) ?_, [], by rw [trace_pull, List.append_nil], ?_⟩
  · intro a other cell old
    by_cases same : a = ep
    · refine ⟨?_, ?_⟩
      · intro bp buffer
        obtain rfl : mbuf.buffer = bp := by simpa [same] using buffer
        exact here.wqueue mbuf (by simp [queue])
      · intro later member
        exact here.wqueue later (by simp [queue, show later ∈ rest by simpa [same] using member])
    · exact ⟨by simpa [same] using old.wbuf, by simpa [same] using old.wqueue⟩
  · intro a other cell
    refine ⟨_, by rw [cells_pull, cell]; rfl, ?_⟩
    by_cases same : a = ep
    · subst same
      cases found.symm.trans cell
      simp [Endpoint.pending, idle, queue, Mbuf.bytes]
    · simp [same, Endpoint.pending]

theorem flows_write (buffered : w.Buffered)
    (found : w.heap.cells ep = some self) (buffer : self.wbuf = some bp) (bound : n ≤ bp.count) :
    Flows (fun _ => []) w ((w.emit (.wrote ep (bp.load bp.head n))).modify ep fun self =>
      { self with wbuf := if (bp.pullHead n).2.count = 0 then none else some (bp.pullHead n).2 }) := by
  have fits := (buffered ep self found).wbuf bp buffer
  have enough : n ≤ bp.contents.length := Nat.le_trans bound bp.count_le
  have pulled := NiBuffer.fits_pullHead fits enough
  have changed := fun a => cells_modify (w.emit (.wrote ep (bp.load bp.head n))) ep a fun self =>
    { self with wbuf := if (bp.pullHead n).2.count = 0 then none else some (bp.pullHead n).2 }
  refine ⟨buffered.map changed ?_, [.wrote ep (bp.load bp.head n)], rfl, ?_⟩
  · intro a other _ old
    by_cases same : a = ep
    · refine ⟨?_, by simpa [same] using old.wqueue⟩
      intro left kept
      simp only [same, if_true] at kept
      split at kept
      · cases kept
      · cases kept
        exact pulled
    · simpa [same] using old
  · intro a other cell
    refine ⟨_, by rw [changed]; exact congrArg (Option.map _) cell, ?_⟩
    by_cases same : a = ep
    · subst same
      cases found.symm.trans cell
      have left : ((if (bp.pullHead n).2.count = 0 then none
          else some (bp.pullHead n).2).map NiBuffer.contents).getD [] = bp.contents.drop n := by
        rw [← NiBuffer.contents_pullHead fits.toWellFormed enough]
        split
        · rename_i empty
          rw [pulled.count_eq] at empty
          rw [List.length_eq_zero_iff.mp empty]
          rfl
        · rfl
      simp only [Endpoint.pending, if_true, left, buffer]
      simp only [writtenTo, List.flatMap_cons, List.flatMap_nil, if_true, List.append_nil,
        NiBuffer.load_head enough, Option.map_some, Option.getD_some]
      rw [← List.append_assoc, List.take_append_drop]
    · simp [same, Ne.symm same, Endpoint.pending, writtenTo]

theorem QueueCall.flows {call : QueueCall} (buffered : w.Buffered) (done : call.apply w = .ok w') :
    Flows (fun a => call.queues a) w w' := by
  cases call with
  | queueWrite sink mbuf fits sys =>
    obtain ⟨self, middle, found, linked, _, rfl⟩ := queueWrite_ok done
    cases linked with
    | already => exact flows_charge buffered sink fits
    | now =>
      have connected := flows_connect buffered sink
      exact connected.trans (flows_charge connected.buffered sink fits)
  | pullup ep =>
    obtain ⟨⟨pending, middle⟩, pulled, rest⟩ := bind_ok.mp done
    cases rest
    cases pullup_pulled pulled with
    | same => exact .refl buffered
    | pull found idle queue => exact flows_pull buffered found idle queue
  | write ep count =>
    obtain ⟨self, dereffed, rest⟩ := bind_ok.mp done
    cases buffer : self.wbuf with
    | none => simp [buffer] at rest
    | some bp =>
      simp only [buffer] at rest
      split at rest
      · cases rest
        exact .refl buffered
      · cases rest
        exact flows_write buffered (deref_ok.mp dereffed) buffer (Nat.min_le_right _ _)

/-- Over any sequence of calls, what was written to an endpoint and what it still holds is what it held
at first and the messages that the calls queued to it, in order. -/
theorem queue_in_order {calls : List QueueCall} (buffered : w.Buffered)
    (ran : Machine.run QueueCall.apply w calls = .ok w') (found : w.heap.cells ep = some self) :
    ∃ events left, w'.trace = w.trace ++ events ∧ w'.heap.cells ep = some left ∧
      writtenTo ep events ++ left.pending = self.pending ++ calls.flatMap (QueueCall.queues ep) := by
  have flows : Flows (fun a => calls.flatMap (QueueCall.queues a)) w w' := by
    clear found
    induction calls generalizing w with
    | nil =>
      cases ran
      exact .refl buffered
    | cons call rest ih =>
      obtain ⟨next, moved, later⟩ := bind_ok.mp ran
      have first := call.flows buffered moved
      exact first.trans (ih first.buffered later)
  obtain ⟨_, events, trace, flow⟩ := flows
  obtain ⟨left, cell, equal⟩ := flow ep self found
  exact ⟨events, left, trace, cell, equal⟩

/-- A world with one idle endpoint. -/
def idleWorld : World where
  heap := Store.empty.alloc 1
    { type := .simplex, transport := .downstream, channelId := 1, rfd := some 4, wfd := some 4,
      rxCredit := defaultCreditSimplex, connected := true }
  xprt := fun _ => ioTransportInitKind (.unix "down")

theorem idleWorld_buffered : idleWorld.Buffered := by
  intro a self found
  have here : a = 1 := Finset.mem_singleton.mp (Store.mem_live found)
  subst here
  cases found
  exact ⟨by simp, by simp⟩

/-- A message of the given bytes that charges nobody. -/
def plainMessage (bytes : Bytes) : Mbuf :=
  ioMbufWrap ((NiBuffer.new bytes.length).fill bytes) none

def shortWrite : List QueueCall :=
  [.queueWrite 1 (plainMessage [7, 8]) (copy_buffer (by decide) (by decide)).1 {}, .pullup 1,
    .queueWrite 1 (plainMessage [9]) (copy_buffer (by decide) (by decide)).1 {}, .write 1 1]

theorem queue_in_order_short_write : ∃ (w' : World) (events : List Event) (left : Endpoint),
    Machine.run QueueCall.apply idleWorld shortWrite = .ok w' ∧
      w'.trace = idleWorld.trace ++ events ∧ w'.heap.cells 1 = some left ∧
      left.pending = [8, 9] ∧ writtenTo 1 events ++ left.pending = [] ++ shortWrite.flatMap (QueueCall.queues 1) := by
  have view : (Machine.run QueueCall.apply idleWorld shortWrite).toOption.map
      (fun w => (w.heap.cells 1).map Endpoint.pending) = some (some [8, 9]) := by decide +kernel
  cases ran : Machine.run QueueCall.apply idleWorld shortWrite with
  | error fault => simp [ran, Except.toOption] at view
  | ok w' =>
    obtain ⟨events, left, trace, cell, equal⟩ :=
      queue_in_order idleWorld_buffered ran (Store.alloc_self _ 1 _)
    refine ⟨w', events, left, rfl, trace, cell, ?_, equal⟩
    simpa [ran, Except.toOption, cell] using view

end Testbus.Proxy
