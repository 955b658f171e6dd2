import Testbus.Proxy.Actions
import Testbus.Proxy.Demux

namespace Testbus.Proxy

open Lib World

variable {w w' : World} {self : Endpoint}

variable {next : UInt32}

/-- One new endpoint, made by `__io_endpoint_new` and not yet on any list. -/
structure Spawned (w : World) (t : Side) (ep : Addr) (channel : UInt32) (events : List Event)
    (born : Endpoint) (next : UInt32) (w' : World) : Prop where
  absent : w.heap.cells ep = none
  fresh : born.Fresh (w.xprt t) t
  channelId : born.channelId = channel
  counter : next =
    if channel > (w.xprt t).nextChannelId then channel + 1 else (w.xprt t).nextChannelId
  result : w' = w.spawn t ep born next events

theorem spawn_modify (w : World) (t : Side) (ep : Addr) (self : Endpoint) (next : UInt32)
    (events : List Event) (change : Endpoint → Endpoint) :
    (w.spawn t ep self next events).modify ep change = w.spawn t ep (change self) next events := by
  simp only [World.spawn, World.modify, World.counter, World.note, World.modifyXprt, Store.modify_alloc]

@[simp] theorem note_nil (w : World) : w.note [] = w := by simp [World.note]

theorem counter_self (w : World) (t : Side) : w.counter t (w.xprt t).nextChannelId = w := by
  simp [World.counter, World.modifyXprt]

theorem ioEndpointNew_ok (made : ioEndpointNew w t channel rfd wfd connected ep = .ok w') :
    ∃ next, w.heap.cells ep = none ∧
      next = (if channel > (w.xprt t).nextChannelId then channel + 1
        else (w.xprt t).nextChannelId) ∧
      w' = w.spawn t ep
        { type := (w.xprt t).type, transport := t, channelId := channel, connected := connected,
          rfd := some rfd, wfd := some wfd, rxCredit := grant (w.xprt t).type }
        next [.created ep] := by
  unfold ioEndpointNew at made
  split at made
  · cases made
  · rename_i absent
    cases made
    refine ⟨_, ?_, rfl, ?_⟩
    · simpa [w.heap.filled, ← Option.isNone_iff_eq_none] using absent
    · simp only [World.spawn, World.counter, World.note, World.modifyXprt]
      congr 2
      split <;> rfl

/-- A connector gives a fresh endpoint, or nothing where there is nothing to open. -/
theorem connector_ok (connected : (w.xprt t).ops.connector w t channel sys = .ok (created, w')) :
    (created = none ∧ w' = w) ∨ ∃ self next middle, created = some sys.connectedAddr ∧
      w' = middle ∧ w.heap.cells sys.connectedAddr = none ∧
      ({ self with type := (w.xprt t).type } : Endpoint).Fresh (w.xprt t) t ∧
      self.channelId = channel ∧ next = (if channel > (w.xprt t).nextChannelId then channel + 1
        else (w.xprt t).nextChannelId) ∧
      middle = w.spawn t sys.connectedAddr self next [.created sys.connectedAddr] := by
  cases ops : (w.xprt t).ops with
  | unix =>
    simp only [ops, TransportOps.connector, ioEndpointSocketNew] at connected
    cases opens : sys.opens with
    | none => simp [opens] at connected
    | some fd =>
      simp only [opens] at connected
      obtain ⟨middle, made, done⟩ := bind_ok.mp connected
      cases done
      obtain ⟨next, absent, counted, rfl⟩ := ioEndpointNew_ok made
      exact .inr ⟨_, next, _, rfl, rfl, absent,
        ⟨rfl, rfl, rfl, rfl, rfl, .inl rfl, rfl, rfl, rfl, rfl, rfl, .inr ops⟩, rfl, counted, rfl⟩
  | serial =>
    simp only [ops, TransportOps.connector, ioEndpointSerialNew] at connected
    cases opens : sys.opens with
    | none => simp [opens] at connected
    | some fd =>
      simp only [opens] at connected
      obtain ⟨middle, made, done⟩ := bind_ok.mp connected
      cases done
      obtain ⟨next, absent, counted, rfl⟩ := ioEndpointNew_ok made
      exact .inr ⟨_, next, _, rfl, rfl, absent,
        ⟨rfl, rfl, rfl, rfl, rfl, .inl rfl, rfl, rfl, rfl, rfl, rfl, .inl rfl⟩, rfl, counted, rfl⟩
  | stdio =>
    simp only [ops, TransportOps.connector, ioEndpointPipeNew] at connected
    split at connected
    · cases connected
      exact .inl ⟨rfl, rfl⟩
    · obtain ⟨middle, made, done⟩ := bind_ok.mp connected
      obtain ⟨next, absent, counted, rfl⟩ := ioEndpointNew_ok made
      cases done
      exact .inr ⟨_, next, _, rfl, spawn_modify .., absent,
        ⟨rfl, rfl, rfl, rfl, rfl, .inl rfl, rfl, rfl, rfl, rfl, rfl, .inl rfl⟩, rfl, counted, rfl⟩
    · obtain ⟨middle, made, done⟩ := bind_ok.mp connected
      obtain ⟨next, absent, counted, rfl⟩ := ioEndpointNew_ok made
      cases done
      exact .inr ⟨_, next, _, rfl, spawn_modify .., absent,
        ⟨rfl, rfl, rfl, rfl, rfl, .inr ops, rfl, rfl, rfl, rfl, rfl, .inl rfl⟩, rfl, counted, rfl⟩

/-- A fresh endpoint that is on no list leaves nothing behind. -/
theorem free_fresh {xprt : Transport} (cell : w.heap.cells ep = some self)
    (fresh : self.Fresh xprt t) (unlisted : w.Unlisted ep) (freed : ioEndpointFree w ep = .ok w') :
    w' = { w with heap := w.heap.free ep, trace := w.trace ++ [Event.freed ep] } := by
  obtain ⟨same, middle, found, detached, rfl⟩ := free_ok freed
  cases cell.symm.trans found
  rw [fresh.sink, fresh.wqueue] at detached
  cases detached
  have blank : (w.clear ep).discard ep [] = w := by
    rw [World.clear, modify_eq_self cell (by rw [← fresh.rbuf])]
    exact modify_eq_self cell (by rw [← fresh.wbuf])
  have apart : ioEndpointUnlink w ep self.transport = w := by
    rw [ioEndpointUnlink, if_neg (unlisted.multiplex _), World.modifyXprt,
      List.erase_of_not_mem (unlisted.epList _), List.erase_of_not_mem (unlisted.garbageList _),
      Function.update_eq_self]
  rw [blank, World.release, apart]

theorem free_spawned (lists : w.Lists) (absent : w.heap.cells ep = none) (fresh : self.Fresh (w.xprt t) t)
    (freed : ioEndpointFree (w.spawn t ep self next events) ep = .ok w') :
    w' = (w.counter t next).note (events ++ [.freed ep]) := by
  rw [free_fresh (by rw [cells_spawn, if_pos rfl]) fresh (unlisted_spawn (lists.unlisted absent)) freed]
  simp only [World.spawn, World.counter, World.note, World.modifyXprt, List.append_assoc]
  rw [Store.free_alloc absent]

theorem ops_spawn (w : World) (t s : Side) (ep : Addr) (self : Endpoint) (next : UInt32)
    (events : List Event) : ((w.spawn t ep self next events).xprt s).ops = (w.xprt s).ops :=
  (sameSetup_spawn (d := True) ep self next events s).ops

theorem type_spawn (w : World) (t s : Side) (ep : Addr) (self : Endpoint) (next : UInt32)
    (events : List Event) : ((w.spawn t ep self next events).xprt s).type = (w.xprt s).type :=
  (sameSetup_spawn (d := True) ep self next events s).type

theorem Endpoint.Fresh.connect {xprt : Transport} (fresh : self.Fresh xprt t) :
    ({ self with connected := true } : Endpoint).Fresh xprt t :=
  ⟨fresh.type, fresh.transport, fresh.sink, fresh.rfd, fresh.wfd, fresh.fds, fresh.rxCredit,
    fresh.rbuf, fresh.wbuf, fresh.wqueue, fresh.shutdownWrite, .inl rfl⟩

/-- `__io_transport_connect` gives a fresh endpoint or leaves nothing behind. -/
theorem connectChannel_ok (lists : w.Lists) {created : Option Addr}
    (connected : ioTransportConnectChannel w t channel now sys = .ok (created, w')) :
    (created = none ∧ ∃ next events, (∀ event ∈ events, event.Administrative w) ∧ w' = (w.counter t next).note events) ∨
    ∃ self next, created = some sys.connectedAddr ∧
      Spawned w t sys.connectedAddr channel [.created sys.connectedAddr] self next w' ∧
      (now = true → self.connected = true) := by
  obtain ⟨⟨made, middle⟩, opened, rest⟩ := bind_ok.mp connected
  obtain ⟨rfl, rfl⟩ | ⟨raw, next, _, rfl, rfl, absent, fresh, channelId, counted, rfl⟩ := connector_ok opened
  · cases rest
    exact .inl ⟨rfl, _, [], by simp, by rw [note_nil, counter_self]⟩
  · simp only [type_spawn, spawn_modify] at rest
    obtain ⟨self, dereffed, rest⟩ := bind_ok.mp rest
    have cell := deref_ok.mp dereffed
    rw [cells_spawn, if_pos rfl] at cell
    obtain rfl := Option.some.inj cell
    split at rest
    · rename_i late
      obtain ⟨⟨success, after⟩, finished, rest⟩ := bind_ok.mp rest
      obtain ⟨same, dereffed', finished⟩ := bind_ok.mp finished
      rw [dereffed] at dereffed'
      cases dereffed'
      have idle : raw.connected = false := by simpa using (Bool.and_eq_true_iff.mp late).1
      have unix : (w.xprt t).ops = .unix := by simpa [idle] using fresh.connected
      simp only [idle, Bool.false_eq_true, if_false, ops_spawn, unix, ioEndpointSocketDelayedConnect] at finished
      by_cases connects : sys.connects = true
      · simp only [connects, if_true, spawn_modify] at finished
        cases finished
        cases rest
        exact .inr ⟨_, next, rfl, ⟨absent, fresh.connect, channelId, counted, rfl⟩, fun _ => rfl⟩
      · simp only [connects, if_false, Bool.false_eq_true] at finished
        cases finished
        obtain ⟨given, freed, done⟩ := bind_ok.mp rest
        cases done
        rw [← idle] at freed
        have gone := free_spawned lists absent fresh freed
        refine .inl ⟨rfl, next, _, ?_, gone⟩
        simp [Event.Administrative, absent]
    · rename_i enough
      cases rest
      refine .inr ⟨_, next, rfl, ⟨absent, fresh, channelId, counted, rfl⟩, ?_⟩
      intro now'
      simpa [now'] using enough

theorem counter_spawn (w : World) (t : Side) (first : UInt32) (ep : Addr) (self : Endpoint)
    (next : UInt32) (events : List Event) :
    (w.counter t first).spawn t ep self next events = w.spawn t ep self next events := by
  simp [World.spawn, World.counter, World.modifyXprt]

theorem spawn_emit (w : World) (t : Side) (ep : Addr) (self : Endpoint) (next : UInt32) (event other : Event) :
    (w.spawn t ep self next [event]).emit other = w.spawn t ep self next [event, other] := by
  simp [World.spawn, World.note, World.emit]

theorem acceptor_ok (taken : (w.xprt t).ops.acceptor w t channel listenFd sys = .ok (accepted, w')) :
    (accepted = none ∧ w' = w) ∨ ∃ self next, accepted = some sys.acceptedAddr ∧
      sys.accepts.isSome ∧ w.heap.cells sys.acceptedAddr = none ∧ self.Fresh (w.xprt t) t ∧ self.connected = true ∧
      next = (if channel > (w.xprt t).nextChannelId then channel + 1
        else (w.xprt t).nextChannelId) ∧ self.channelId = channel ∧
      w' = w.spawn t sys.acceptedAddr self next [.created sys.acceptedAddr, .accepted channel] := by
  cases ops : (w.xprt t).ops with
  | unix =>
    simp only [ops, TransportOps.acceptor, ioEndpointSocketAccept] at taken
    split at taken
    · cases taken
    · cases accepts : sys.accepts with
      | none =>
        simp only [accepts] at taken
        cases taken
        exact .inl ⟨rfl, rfl⟩
      | some fd =>
        simp only [accepts] at taken
        obtain ⟨middle, made, done⟩ := bind_ok.mp taken
        obtain ⟨next, absent, counted, rfl⟩ := ioEndpointNew_ok made
        cases done
        exact .inr ⟨_, next, rfl, rfl, absent,
          ⟨rfl, rfl, rfl, rfl, rfl, .inl rfl, rfl, rfl, rfl, rfl, rfl, .inl rfl⟩, rfl, counted, rfl,
          spawn_emit ..⟩
  | serial => simp [ops, TransportOps.acceptor] at taken
  | stdio => simp [ops, TransportOps.acceptor] at taken

/-- An accepted endpoint is fresh and connected; a simplex one takes the next channel. -/
theorem ioTransportAccept_ok (taken : ioTransportAccept w t listenFd sys = .ok (accepted, w')) :
    (accepted = none ∧ ∃ next, (next = if (w.xprt t).type = .simplex then (w.xprt t).nextChannelId + 1
      else (w.xprt t).nextChannelId) ∧ w' = (w.counter t next).note []) ∨
    ∃ self, accepted = some sys.acceptedAddr ∧ sys.accepts.isSome ∧
      w.heap.cells sys.acceptedAddr = none ∧ self.Fresh (w.xprt t) t ∧ self.connected = true ∧
      w' = w.spawn t sys.acceptedAddr self
        (if (w.xprt t).type = .simplex then (w.xprt t).nextChannelId + 1
          else (w.xprt t).nextChannelId)
        [.created sys.acceptedAddr, .accepted self.channelId] ∧
      self.channelId = if (w.xprt t).type = .simplex then (w.xprt t).nextChannelId else 0 := by
  have counted : (if (w.xprt t).type = .simplex then w.modifyXprt t fun xprt =>
      { xprt with nextChannelId := xprt.nextChannelId + 1 } else w) =
      w.counter t (if (w.xprt t).type = .simplex then (w.xprt t).nextChannelId + 1
        else (w.xprt t).nextChannelId) := by
    split
    · rfl
    · exact (counter_self w t).symm
  obtain ⟨⟨made, middle⟩, opened, rest⟩ := bind_ok.mp taken
  rw [counted] at opened
  have setup := sameSetup_counter (w := w) (t := t) (d := True)
    (if (w.xprt t).type = .simplex then (w.xprt t).nextChannelId + 1
      else (w.xprt t).nextChannelId) t
  obtain ⟨rfl, rfl⟩ | ⟨self, next, rfl, answered, absent, fresh, connected, moved, channel, rfl⟩ := acceptor_ok opened
  · cases rest
    exact .inl ⟨rfl, _, rfl, (note_nil _).symm⟩
  · have kept : next = if (w.xprt t).type = .simplex then (w.xprt t).nextChannelId + 1
        else (w.xprt t).nextChannelId := by
      simp only [World.counter, xprt_modifyXprt_self] at moved
      rw [moved]
      split
      · split <;> simp_all
      · simp [channelIdNone]
    simp only [spawn_modify, type_spawn, counter_spawn] at rest
    cases rest
    refine .inr ⟨{ self with type := (w.xprt t).type, connected := true }, rfl, answered, absent, ?_, rfl, ?_, ?_⟩
    · exact ⟨rfl, fresh.transport, fresh.sink, fresh.rfd, fresh.wfd,
        by rw [← setup.ops]; exact fresh.fds, by rw [fresh.rxCredit, setup.type], fresh.rbuf, fresh.wbuf,
        fresh.wqueue, fresh.shutdownWrite, .inl rfl⟩
    · rw [kept, channel]
    · exact channel

def World.connect (w : World) (ep : Addr) : World :=
  w.modify ep fun self => { self with connected := true }

/-- The sink as it is queued to: connected, if it was not so before. -/
inductive Linked (w : World) (sink : Addr) (self : Endpoint) : World → Prop
  | already (connected : self.connected = true) : Linked w sink self w
  | now (late : self.connected = false) : Linked w sink self (w.connect sink)

theorem Linked.acts (found : w.heap.cells sink = some self) (linked : Linked w sink self w') : Acts G w w' := by
  cases linked with
  | already => exact .refl
  | now => exact .single (.connect found)

theorem Linked.cell (linked : Linked w sink self w') (found : w.heap.cells a = some other) :
    ∃ connected, w'.heap.cells a = some { other with connected := connected } := by
  cases linked with
  | already => exact ⟨other.connected, found⟩
  | now =>
    rw [World.connect, cells_modify, found]
    by_cases same : a = sink
    · exact ⟨true, by simp [same]⟩
    · exact ⟨other.connected, by simp [same]⟩

theorem Linked.xprt (linked : Linked w sink self w') : w'.xprt = w.xprt := by
  cases linked <;> rfl

theorem connectFinish_ok (finished : ioTransportConnectFinish w t ep sys = .ok (success, w')) :
    (success = false ∧ w' = w) ∨ (success = true ∧ w' = w.connect ep) := by
  obtain ⟨self, dereffed, rest⟩ := bind_ok.mp finished
  split at rest
  · cases rest
    exact .inl ⟨rfl, rfl⟩
  · split at rest
    · unfold ioEndpointSocketDelayedConnect at rest
      by_cases connects : sys.connects = true
      · simp only [connects, if_true] at rest
        cases rest
        refine .inr ⟨rfl, ?_⟩
        simp only [World.connect, World.modify, Store.modify_modify]
        rfl
      · simp only [connects, if_false, Bool.false_eq_true] at rest
        cases rest
        exact .inl ⟨rfl, rfl⟩
    · cases rest

/-- The source of a message can pay for it. -/
def Funded (w : World) (mbuf : Mbuf) : Prop :=
  ∀ source, mbuf.source = some source →
    ∃ payer, w.heap.cells source = some payer ∧ mbuf.credit ≤ payer.rxCredit

theorem charge_ok
    (queued : (do
      let w ← match mbuf.source with
        | none => .ok w
        | some source => do
          let origin ← w.deref source
          if mbuf.credit ≤ origin.rxCredit then
            .ok (w.modify source fun origin =>
              { origin with rxCredit := origin.rxCredit - mbuf.credit })
          else .error (.assertion .queueWriteCredit)
      let w := w.modify sink fun self => { self with wqueue := self.wqueue ++ [mbuf] }
      .ok (w.emit (.queued sink mbuf.bytes))) = (.ok w' : Except Fault World)) :
    Funded w mbuf ∧ w' = w.charge sink mbuf := by
  unfold Funded World.charge
  cases origin : mbuf.source with
  | none =>
    simp only [origin] at queued
    cases queued
    exact ⟨by simp, rfl⟩
  | some source =>
    simp only [origin] at queued
    obtain ⟨payer, dereffed, rest⟩ := bind_ok.mp queued
    split at rest
    · rename_i funded
      cases rest
      refine ⟨?_, rfl⟩
      rintro _ ⟨⟩
      exact ⟨payer, deref_ok.mp dereffed, funded⟩
    · cases rest

theorem queueWrite_ok (queued : ioEndpointQueueWrite w sink mbuf sys = .ok w') :
    ∃ self middle, w.heap.cells sink = some self ∧ Linked w sink self middle ∧
      Funded middle mbuf ∧ w' = middle.charge sink mbuf := by
  obtain ⟨self, dereffed, rest⟩ := bind_ok.mp queued
  have found := deref_ok.mp dereffed
  cases connected : self.connected with
  | true =>
    simp only [connected, if_true] at rest
    exact ⟨self, w, found, .already connected, charge_ok rest⟩
  | false =>
    simp only [connected, Bool.false_eq_true, if_false] at rest
    obtain ⟨⟨success, middle⟩, finished, rest⟩ := bind_ok.mp rest
    obtain ⟨failed, _⟩ | ⟨done, rfl⟩ := connectFinish_ok finished
    · simp only [failed, Bool.false_eq_true, if_false] at rest
      cases rest
    · simp only [done, if_true] at rest
      exact ⟨self, _, found, .now connected, charge_ok rest⟩

variable {event : Event}

section Receive

theorem connect_modify (w : World) (a b : Addr) (blind : ∀ self : Endpoint, change { self with connected := true } =
      { change self with connected := true }) :
    (w.connect a).modify b change = (w.modify b change).connect a := modify_comm fun self => (blind self).symm

theorem charge_connect (w : World) (a sink : Addr) (mbuf : Mbuf) :
    (w.connect a).charge sink mbuf = (w.charge sink mbuf).connect a := by
  unfold World.charge
  cases mbuf.source with
  | none =>
    simp only
    rw [connect_modify w a sink fun _ => rfl]
    rfl
  | some source =>
    simp only
    rw [connect_modify w a source fun _ => rfl, connect_modify _ a sink fun _ => rfl]
    rfl

variable {bp : NiBuffer}

theorem pullHead_packet (fits : bp.Fits) (complete : packetComplete bp = true) :
    bp.pullHead dataHeaderSize = (some bp.head, packetPayload bp) := by
  have equal := NiBuffer.pullHead_eq fits.toWellFormed (packetComplete_length complete)
  rw [packetPayload, equal]

theorem header_payload (fits : bp.Fits) (complete : packetComplete bp = true) :
    DataHeader.at (packetPayload bp) bp.head = packetHeader bp := by
  rw [packetPayload, NiBuffer.pullHead_eq fits.toWellFormed (packetComplete_length complete)]
  rfl

theorem demuxPacket_acts (lists : w.Lists) (arrived : Arrived G w source self bp sys)
    (done : proxyDemuxPacket w source bp sys = .ok w') : Acts G w (w'.clear source) := by
  obtain ⟨same, dereffed, rest⟩ := bind_ok.mp done
  cases (deref_ok.mp dereffed).symm.trans arrived.found
  simp only [pullHead_packet arrived.fits arrived.complete, header_payload arrived.fits arrived.complete] at rest
  have before : (w.emit (.dispatched source bp.contents)).Lists := lists.emit _
  split at rest
  · rename_i cmd
    obtain ⟨⟨created, middle⟩, connected, rest⟩ := bind_ok.mp rest
    obtain ⟨rfl, _⟩ | ⟨born, next, rfl, spawned, now⟩ := connectChannel_ok before connected
    · simp only at rest
      cases rest
    · simp only [spawned.result, spawn_modify] at rest
      cases rest
      have opened := Act.opened next arrived cmd spawned.absent spawned.fresh spawned.channelId (now rfl)
        spawned.counter
      simp only [World.adopt, spawn_modify] at opened
      rw [← spawned.channelId]
      exact .single opened
  · rename_i cmd
    split at rest
    · rename_i nobody
      cases rest
      exact .single (.ignored arrived cmd (.inl nobody))
    · rename_i sink member
      split at rest
      · rename_i close
        obtain ⟨_, _, quiets⟩ := halfclose_ok rest
        exact .head (.closing arrived close member) (quiets.clear source).acts
      · rename_i other
        split at rest
        · rename_i data
          obtain ⟨target, middle, found, linked, funded, rfl⟩ := queueWrite_ok rest
          obtain ⟨payer, cell, enough⟩ := funded source rfl
          obtain ⟨connected, kept⟩ := linked.cell arrived.found
          cases kept.symm.trans cell
          have delivered := Act.deliver arrived data member enough
          cases linked with
          | already => exact .single delivered
          | now =>
            have late : ∃ other, ((((w.emit (.dispatched source bp.contents)).emit
                (.delivered (packetHeader bp).channel sink (packetPayload bp).contents)).charge sink
                (ioMbufWrap (packetPayload bp) (some source))).clear source).heap.cells sink =
                  some other := by
              rw [cells_clear, cells_charge, found]
              exact ⟨_, rfl⟩
            obtain ⟨other, here⟩ := late
            have connecting := (Relation.ReflTransGen.single delivered).tail (.connect here)
            rw [charge_connect, World.clear, connect_modify _ sink source fun _ => rfl]
            exact connecting
        · rename_i unknown
          cases rest
          exact .single (.ignored arrived cmd (.inr ⟨other, unknown⟩))

variable {rcount : Nat}

theorem bufsiz_ok (granted : proxyRecvBufsiz self sys = .ok rcount) : rcount < 2 ^ 31 ∧ rcount ≤ self.rxCredit := by
  unfold proxyRecvBufsiz at granted
  split at granted
  · cases granted
  · cases granted
    refine ⟨?_, Nat.min_le_right _ _⟩
    have first : sys.fionread.elim 4096 Fin.val < 2 ^ 31 := by
      cases sys.fionread with
      | none => decide
      | some n => exact n.isLt
    omega

variable {bytes : Bytes}

theorem read_ok (got : Syscalls.read answers count = some bytes) : bytes.length ≤ count := by
  obtain ⟨all, _, rfl⟩ := Option.map_eq_some_iff.mp got
  exact List.length_take_le _ _

/-- What `proxy_recv_copy` read is what its buffer holds. -/
theorem copy_buffer (small : rcount < 2 ^ 31) (short : bytes.length ≤ (NiBuffer.new rcount).tailroom) :
    ((NiBuffer.new rcount).fill bytes).Fits ∧ ((NiBuffer.new rcount).fill bytes).contents = bytes := by
  have wf := NiBuffer.wellFormed_new rcount
  have room := Nat.le_trans short (NiBuffer.tailroom_le _)
  have filled := NiBuffer.contents_fill wf room
  rw [NiBuffer.contents_new, List.nil_append] at filled
  refine ⟨⟨NiBuffer.wellFormed_fill wf room, ?_⟩, filled⟩
  rw [filled]
  exact Nat.lt_of_le_of_lt room (by simp only [NiBuffer.new]; omega)

/-- The buffer of `proxy_recv_mux` as it is read into. -/
def muxBuffer (rcount : Nat) : NiBuffer :=
  (NiBuffer.new (rcount + dataHeaderSize)).reserveHead dataHeaderSize

theorem muxBuffer_eq : muxBuffer rcount =
    { NiBuffer.new (rcount + dataHeaderSize) with head := dataHeaderSize, tail := dataHeaderSize } := rfl

/-- The frame `proxy_recv_mux` builds: a header in front of what was read. -/
theorem mux_buffer (channel : UInt32) (small : rcount < 2 ^ 31) (short : bytes.length ≤ (muxBuffer rcount).tailroom) :
    ((muxBuffer rcount).fill bytes).count = bytes.length ∧
    ∃ out, muxHeader ((muxBuffer rcount).fill bytes) channel = some out ∧ out.Fits ∧
      out.contents = (DataHeader.mk channelData channel (UInt32.ofNat bytes.length)).bytes ++ bytes := by
  have header : dataHeaderSize = 12 := rfl
  have wf : (muxBuffer rcount).WellFormed := by
    rw [muxBuffer_eq]
    exact ⟨Nat.le_refl _, Nat.le_add_left _ _⟩
  have room := Nat.le_trans short (NiBuffer.tailroom_le _)
  have within : bytes.length ≤ rcount := by
    rw [muxBuffer_eq] at room
    simpa [NiBuffer.new] using room
  have empty : (muxBuffer rcount).contents = [] := by
    rw [muxBuffer_eq]
    simp [NiBuffer.contents, NiBuffer.load]
  have filled := NiBuffer.contents_fill wf room
  rw [empty, List.nil_append] at filled
  have wf' := NiBuffer.wellFormed_fill wf room
  have head := (NiBuffer.fill_head wf room).1
  have counted : ((muxBuffer rcount).fill bytes).count = bytes.length := by
    rw [NiBuffer.count_eq (by rw [filled]; omega), filled]
  have front : (DataHeader.mk channelData channel (UInt32.ofNat bytes.length)).bytes.length ≤
      ((muxBuffer rcount).fill bytes).head := by
    rw [head, length_header, muxBuffer_eq]
  have built := NiBuffer.contents_prepend wf' front
  rw [filled, length_header] at built
  have enough : ¬ ((muxBuffer rcount).fill bytes).head < dataHeaderSize := by
    rw [head, muxBuffer_eq]
    simp
  refine ⟨counted, (((muxBuffer rcount).fill bytes).pushHead dataHeaderSize).2.store
    (((muxBuffer rcount).fill bytes).head - dataHeaderSize)
    (DataHeader.mk channelData channel (UInt32.ofNat bytes.length)).bytes, ?_, ⟨?_, ?_⟩, built⟩
  · simp only [muxHeader, NiBuffer.pushHead, if_neg enough, counted]
  · exact NiBuffer.wellFormed_prepend wf' _ _ _
  · rw [built, List.length_append, length_header]
    omega

theorem Linked.emit (linked : Linked (w.emit event) sink self w') :
    ∃ middle, Linked w sink self middle ∧ w' = middle.emit event := by
  cases linked with
  | already connected => exact ⟨w, .already connected, rfl⟩
  | now late => exact ⟨w.connect sink, .now late, rfl⟩

theorem queueWrite_paid (found : w.heap.cells ep = some self) (source : mbuf.source = some ep)
    (queued : ioEndpointQueueWrite (w.emit event) sink mbuf sys = .ok w') :
    ∃ (middle : World) (other : Endpoint) (connected connected' : Bool), Acts G w middle ∧
      middle.heap.cells ep = some { self with connected := connected } ∧
      middle.heap.cells sink = some { other with connected := connected' } ∧
      middle.xprt = w.xprt ∧ mbuf.credit ≤ self.rxCredit ∧
      w' = (middle.emit event).charge sink mbuf := by
  obtain ⟨other, after, present, linked, funded, rfl⟩ := queueWrite_ok queued
  obtain ⟨middle, linked', rfl⟩ := linked.emit
  obtain ⟨connected, cell⟩ := linked'.cell found
  obtain ⟨connected', present'⟩ := linked'.cell present
  obtain ⟨payer, cell', enough⟩ := funded ep source
  cases cell.symm.trans cell'
  exact ⟨middle, other, connected, connected', linked'.acts (w := w) present, cell, present', linked'.xprt, enough, rfl⟩

theorem recvCopy_acts (found : w.heap.cells ep = some self) (handler : (w.xprt self.transport).dataAvailable = .recvCopy)
    (done : proxyRecvCopy w ep sys = .ok w') : Acts G w w' := by
  obtain ⟨same, dereffed, rest⟩ := bind_ok.mp done
  cases (deref_ok.mp dereffed).symm.trans found
  obtain ⟨rcount, granted, rest⟩ := bind_ok.mp rest
  cases target : self.sink with
  | none => simp [target] at rest
  | some sink =>
    simp only [target] at rest
    cases answer : Syscalls.read sys.reads (NiBuffer.new rcount).tailroom with
    | none =>
      simp only [answer] at rest
      cases rest
      exact .refl
    | some bytes =>
      cases bytes with
      | nil =>
        simp only [answer] at rest
        obtain ⟨other, dereffed', shut⟩ := bind_ok.mp rest
        exact .head (.mark (deref_ok.mp dereffed')) (shutdown_quiets shut).acts
      | cons byte more =>
        simp only [answer] at rest
        obtain ⟨fits, filled⟩ := copy_buffer (bufsiz_ok granted).1 (read_ok answer)
        obtain ⟨middle, other, connected, connected', before, cell, present, xprt, enough, rfl⟩ :=
          queueWrite_paid (G := G) found rfl rest
        have copied := Act.copied (G := G) cell target present (by rw [xprt]; exact handler)
          fits (by rw [filled]; simp) enough
        rw [filled] at copied
        exact before.tail copied

theorem recvMux_acts (found : w.heap.cells ep = some self) (reading : self.rfd = some fd)
    (handler : (w.xprt self.transport).dataAvailable = .recvMux)
    (done : proxyRecvMux w ep sys = .ok w') : Acts G w w' := by
  obtain ⟨same, dereffed, rest⟩ := bind_ok.mp done
  cases (deref_ok.mp dereffed).symm.trans found
  obtain ⟨rcount, granted, rest⟩ := bind_ok.mp rest
  cases target : self.sink with
  | none => simp [target] at rest
  | some sink =>
    simp only [target] at rest
    split at rest
    · cases rest
    · rw [← muxBuffer] at rest
      cases answer : Syscalls.read sys.reads (muxBuffer rcount).tailroom with
      | none =>
        simp only [answer] at rest
        cases rest
        exact .refl
      | some bytes =>
        cases bytes with
        | nil =>
          simp only [answer] at rest
          obtain ⟨after, queued, shut⟩ := bind_ok.mp rest
          obtain ⟨other, middle, present, linked, funded, rfl⟩ := queueWrite_ok queued
          obtain ⟨connected, cell⟩ := linked.cell found
          obtain ⟨connected', present'⟩ := linked.cell present
          have left := Act.leave (G := G) cell target present' (by rw [linked.xprt]; exact handler) reading
          obtain ⟨closed, read, buried⟩ := bind_ok.mp shut
          obtain ⟨_, _, rfl⟩ := buryDead_ok buried
          have charged := cells_charge middle sink (proxyChannelCloseNew self.channelId) ep
          rw [cell] at charged
          obtain ⟨after, cell', ⟨shut', _⟩ | ⟨fd', open', rfl⟩⟩ := shutdownRead_ok read
          · cases charged.symm.trans cell'
            simp [reading] at shut'
          · cases charged.symm.trans cell'
            cases reading.symm.trans open'
            exact (linked.acts present).tail left
        | cons byte more =>
          simp only [answer] at rest
          obtain ⟨counted, out, built, fits, contents⟩ := mux_buffer self.channelId (bufsiz_ok granted).1 (read_ok answer)
          simp only [built] at rest
          obtain ⟨middle, other, connected, connected', before, cell, present, xprt, enough, rfl⟩ :=
            queueWrite_paid (G := G) found rfl rest
          have funded' : (byte :: more).length ≤ self.rxCredit := by
            rw [← counted]
            exact enough
          have built' : ({ ioMbufWrap ((muxBuffer rcount).fill (byte :: more)) (some ep) with
              buffer := out } : Mbuf).bytes = (DataHeader.mk channelData self.channelId
                (UInt32.ofNat (byte :: more).length)).bytes ++ (byte :: more) := contents
          have framed := Act.framed (G := G) cell target present
            (by rw [xprt]; exact handler) rfl counted built' fits (List.cons_ne_nil _ _)
            funded'
          exact before.tail framed

/-- What the loop of `proxy_recv_demux` reads within a budget. -/
def demuxRead (self : Endpoint) (rcount : Nat) (sys : Syscalls) : DemuxRead :=
  proxyRecvDemuxLoop rcount (self.rbuf.getD (NiBuffer.new (4096 + dataHeaderSize))) [] sys.reads

theorem demuxRead_spec {xprt : Transport} (sound : self.Sound xprt) (rcount : Nat) (sys : Syscalls) :
    (demuxRead self rcount sys).Spec rcount self.unread := by
  have fresh : (NiBuffer.new (4096 + dataHeaderSize)).Fits := ⟨NiBuffer.wellFormed_new _, by simp⟩
  refine demuxLoop_spec ?_ ?_ (Nat.add_zero rcount)
  · cases blank : self.rbuf with
    | none => exact fresh
    | some bp => exact sound.rbuf bp blank
  · cases blank : self.rbuf with
    | none => simp [Endpoint.unread, blank]
    | some bp => simp [Endpoint.unread, blank]

theorem halfcloseAll_acts (closed : halfcloseAll w t members = .ok w') : Acts G w w' := by
  induction members generalizing w with
  | nil => cases closed; exact .refl
  | cons other rest ih =>
    obtain ⟨middle, first, later⟩ := bind_ok.mp closed
    obtain ⟨self, found, quiets⟩ := halfclose_ok first
    have here : Acts G w middle := .head (.mark found) quiets.acts
    split at later
    · exact here.trans (ih later)
    · cases later
      exact here

/-- What `proxy_recv_demux` does with what its loop read. -/
def afterRead (w : World) (ep : Addr) (t : Side) (bp : NiBuffer) (sys : Syscalls) :
    DemuxEnd → Except Fault World
  | .packet => do
    let w ← proxyDemuxPacket w ep bp sys
    .ok (w.clear ep)
  | .overrun => .error (.assertion .recvDemuxAvail)
  | .endOfFile => do
    let w ← halfcloseAll w t.other (w.xprt t.other).epList
    ioEndpointShutdown w ep .rd
  | .budgetSpent | .readError | .partialPacket => .ok w

theorem recvDemux_eq (found : w.heap.cells ep = some self) (granted : proxyRecvBufsiz self sys = .ok rcount) :
    proxyRecvDemux w ep sys =
      afterRead (w.receive ep (demuxRead self rcount sys).bp (demuxRead self rcount sys).received) ep
        self.transport (demuxRead self rcount sys).bp sys (demuxRead self rcount sys).reason := by
  unfold proxyRecvDemux
  rw [deref_ok.mpr found]
  change (proxyRecvBufsiz self sys >>= _) = _
  rw [granted]
  unfold demuxRead
  dsimp only [bind, Except.bind]
  cases (proxyRecvDemuxLoop rcount (self.rbuf.getD (NiBuffer.new (4096 + dataHeaderSize))) [] sys.reads).reason <;> rfl

/-- A call that returns has left what it read in the packet, or has carried it out. -/
inductive Demuxed (w : World) (ep : Addr) (self : Endpoint) (sys : Syscalls) (rcount : Nat) :
    World → Prop
  | packet {after : World} (reason : (demuxRead self rcount sys).reason = .packet)
      (carried : proxyDemuxPacket (w.receive ep (demuxRead self rcount sys).bp
        (demuxRead self rcount sys).received) ep (demuxRead self rcount sys).bp sys = .ok after) :
      Demuxed w ep self sys rcount (after.clear ep)
  | kept {after : World} (reason : (demuxRead self rcount sys).reason ≠ .packet)
      (whole : (demuxRead self rcount sys).reason ≠ .overrun)
      (later : ∀ G, Acts G (w.receive ep (demuxRead self rcount sys).bp
        (demuxRead self rcount sys).received) after) : Demuxed w ep self sys rcount after

theorem recvDemux_ok (found : w.heap.cells ep = some self) (done : proxyRecvDemux w ep sys = .ok w') :
    ∃ rcount, proxyRecvBufsiz self sys = .ok rcount ∧ Demuxed w ep self sys rcount w' := by
  obtain ⟨same, dereffed, rest⟩ := bind_ok.mp done
  cases (deref_ok.mp dereffed).symm.trans found
  obtain ⟨rcount, granted, _⟩ := bind_ok.mp rest
  rw [recvDemux_eq found granted] at done
  refine ⟨rcount, granted, ?_⟩
  cases reason : (demuxRead self rcount sys).reason with
  | packet =>
    rw [reason] at done
    obtain ⟨after, packet, done'⟩ := bind_ok.mp done
    cases done'
    exact .packet reason packet
  | overrun =>
    rw [reason] at done
    cases done
  | endOfFile =>
    rw [reason] at done
    obtain ⟨after, closed, shut⟩ := bind_ok.mp done
    exact .kept (by simp [reason]) (by simp [reason])
      fun G => (halfcloseAll_acts closed).trans (shutdown_quiets shut).acts
  | budgetSpent | readError | partialPacket =>
    rw [reason] at done
    cases done
    exact .kept (by simp [reason]) (by simp [reason]) fun G => .refl

/-- The packet a call has completed stands in the endpoint when it is carried out. -/
theorem demux_arrived (shape : w.Shape) (found : w.heap.cells ep = some self)
    (handler : (w.xprt self.transport).dataAvailable = .recvDemux) (reason : (demuxRead self rcount sys).reason = .packet)
    (allowed : G.frame (w.receive ep (demuxRead self rcount sys).bp
      (demuxRead self rcount sys).received) ep (demuxRead self rcount sys).bp sys) :
    Arrived G (w.receive ep (demuxRead self rcount sys).bp (demuxRead self rcount sys).received) ep
      { self with rbuf := some (demuxRead self rcount sys).bp } (demuxRead self rcount sys).bp
      sys := by
  have spec := demuxRead_spec (shape.sound ep self found) rcount sys
  have holds := spec.reason
  rw [reason] at holds
  refine ⟨?_, handler, rfl, spec.fits, (packetComplete_iff spec.fits).mpr (spec.contents ▸ holds.2), allowed⟩
  rw [cells_receive, found]
  simp

theorem recvDemux_acts (shape : w.Shape) (found : w.heap.cells ep = some self)
    (handler : (w.xprt self.transport).dataAvailable = .recvDemux) (reading : G.receive w ep)
    (allowed : ∀ rcount, proxyRecvBufsiz self sys = .ok rcount → (demuxRead self rcount sys).reason = .packet →
      G.frame (w.receive ep (demuxRead self rcount sys).bp (demuxRead self rcount sys).received) ep
        (demuxRead self rcount sys).bp sys)
    (done : proxyRecvDemux w ep sys = .ok w') : Acts G w w' := by
  obtain ⟨rcount, granted, demuxed⟩ := recvDemux_ok found done
  have spec := demuxRead_spec (shape.sound ep self found) rcount sys
  have received : Act G w (w.receive ep (demuxRead self rcount sys).bp (demuxRead self rcount sys).received) :=
    .receive found handler spec.fits spec.contents reading
  cases demuxed with
  | packet reason carried =>
    have arrived := demux_arrived shape found handler reason (allowed rcount granted reason)
    exact .head received (demuxPacket_acts (shape.act received).lists arrived carried)
  | kept reason whole later => exact .head received (later G)

end Receive

section Loop

theorem transmit_acts (found : w.heap.cells ep = some self) (writing : self.wfd.isSome)
    (done : transmit w ep sys = .ok w') : Acts G w w' := by
  obtain ⟨same, dereffed, rest⟩ := bind_ok.mp done
  cases (deref_ok.mp dereffed).symm.trans found
  cases buffer : self.wbuf with
  | none => simp [buffer] at rest
  | some bp =>
    simp only [buffer] at rest
    cases answer : sys.write with
    | wrote count =>
      simp only [answer] at rest
      split at rest
      · cases rest
        exact .refl
      · rename_i some'
        cases rest
        exact .single (.transmit found buffer writing (Nat.pos_of_ne_zero some') (Nat.min_le_right _ _))
    | epipe =>
      simp only [answer] at rest
      exact (shutdown_quiets rest).acts
    | failed =>
      simp only [answer] at rest
      cases rest
      exact .refl

/-- A packet that a read of an endpoint completes. -/
def Frames (w : World) (ep : Addr) (sys : Syscalls) (permitted : World → NiBuffer → Prop) : Prop :=
  ∀ self rcount, w.heap.cells ep = some self →
    (w.xprt self.transport).dataAvailable = .recvDemux → proxyRecvBufsiz self sys = .ok rcount →
    (demuxRead self rcount sys).reason = .packet →
    permitted (w.receive ep (demuxRead self rcount sys).bp (demuxRead self rcount sys).received)
      (demuxRead self rcount sys).bp

theorem handler_acts (shape : w.Shape) (found : w.heap.cells ep = some self) (reading : self.rfd = some fd)
    (receives : (w.xprt self.transport).dataAvailable = .recvDemux → G.receive w ep)
    (allowed : Frames w ep sys fun w bp => G.frame w ep bp sys)
    (done : (w.xprt self.transport).dataAvailable.handler w ep sys = .ok w') : Acts G w w' := by
  cases handler : (w.xprt self.transport).dataAvailable with
  | recvCopy =>
    rw [handler] at done
    exact recvCopy_acts found handler done
  | recvMux =>
    rw [handler] at done
    exact recvMux_acts found reading handler done
  | recvDemux =>
    rw [handler] at done
    exact recvDemux_acts shape found handler (receives handler)
      (fun rcount granted reason => allowed self rcount found handler granted reason) done

variable {revents : Revents}

/-- The three parts of `io_endpoint_doio`: reading, writing, hanging up. -/
theorem doio_parts (done : ioEndpointDoio w ep fd revents sys = .ok w') :
    ∃ self middle left after last, w.heap.cells ep = some self ∧
      (if self.rfd = some fd ∧ revents.pollin = true then
        (w.xprt self.transport).dataAvailable.handler w ep sys else .ok w) = .ok middle ∧
      middle.heap.cells ep = some left ∧
      (if left.wfd = some fd ∧ revents.pollout = true then transmit middle ep sys
        else .ok middle) = .ok after ∧ after.heap.cells ep = some last ∧
      (if last.wfd = some fd ∧ revents.pollhup = true then ioEndpointShutdown after ep .wr
        else .ok after) = .ok w' := by
  obtain ⟨self, dereffed, rest⟩ := bind_ok.mp done
  have read : ∃ middle, (if self.rfd = some fd ∧ revents.pollin = true then
        (w.xprt self.transport).dataAvailable.handler w ep sys else .ok w) = .ok middle ∧ (do
      let self ← middle.deref ep
      let w ← if self.wfd = some fd ∧ revents.pollout = true then transmit middle ep sys
        else .ok middle
      let self ← w.deref ep
      if self.wfd = some fd ∧ revents.pollhup = true then ioEndpointShutdown w ep .wr
        else .ok w) = (.ok w' : Except Fault World) := by
    split at rest
    · rename_i ready
      obtain ⟨middle, handled, rest⟩ := bind_ok.mp rest
      exact ⟨middle, by rw [if_pos ready]; exact handled, rest⟩
    · rename_i idle
      exact ⟨w, by rw [if_neg idle], rest⟩
  obtain ⟨middle, handled, rest⟩ := read
  obtain ⟨left, dereffed', rest⟩ := bind_ok.mp rest
  have written : ∃ after, (if left.wfd = some fd ∧ revents.pollout = true then
        transmit middle ep sys else .ok middle) = .ok after ∧ (do
      let self ← after.deref ep
      if self.wfd = some fd ∧ revents.pollhup = true then ioEndpointShutdown after ep .wr
        else .ok after) = (.ok w' : Except Fault World) := by
    split at rest
    · rename_i ready
      obtain ⟨after, sent, rest⟩ := bind_ok.mp rest
      exact ⟨after, by rw [if_pos ready]; exact sent, rest⟩
    · rename_i idle
      exact ⟨middle, by rw [if_neg idle], rest⟩
  obtain ⟨after, sent, rest⟩ := written
  obtain ⟨last, dereffed'', rest⟩ := bind_ok.mp rest
  exact ⟨self, middle, left, after, last, deref_ok.mp dereffed, handled, deref_ok.mp dereffed', sent,
    deref_ok.mp dereffed'', rest⟩

/-- `io_endpoint_doio` calls the receive handler if the endpoint can be read; what it
does then reads nothing more. -/
theorem doio_ok (done : ioEndpointDoio w ep fd revents sys = .ok w') :
    ∃ self middle, w.heap.cells ep = some self ∧ (∀ G, Acts G middle w') ∧
      ((self.rfd = some fd ∧ revents.pollin = true ∧
        (w.xprt self.transport).dataAvailable.handler w ep sys = .ok middle) ∨
        ¬ (self.rfd = some fd ∧ revents.pollin = true) ∧ middle = w) := by
  obtain ⟨self, middle, left, after, last, found, handled, cell, sent, _, hangup⟩ := doio_parts done
  refine ⟨self, middle, found, fun G => ?_, ?_⟩
  · have written : Acts G middle after := by
      split at sent
      · rename_i ready
        exact transmit_acts cell (by simp [ready.1]) sent
      · cases sent
        exact .refl
    refine written.trans ?_
    split at hangup
    · exact (shutdown_quiets hangup).acts
    · cases hangup
      exact .refl
  · split at handled
    · rename_i ready
      exact .inl ⟨ready.1, ready.2, handled⟩
    · rename_i idle
      cases handled
      exact .inr ⟨idle, rfl⟩

theorem doio_acts (shape : w.Shape)
    (allowed : ∀ self, w.heap.cells ep = some self → self.rfd = some fd → revents.pollin = true →
      ((w.xprt self.transport).dataAvailable = .recvDemux → G.receive w ep) ∧
        Frames w ep sys fun w bp => G.frame w ep bp sys)
    (done : ioEndpointDoio w ep fd revents sys = .ok w') : Acts G w w' := by
  obtain ⟨self, middle, found, later, ⟨reading, ready, handled⟩ | ⟨_, rfl⟩⟩ := doio_ok done
  · have permitted := allowed self found reading ready
    exact (handler_acts shape found reading permitted.1 permitted.2 handled).trans (later G)
  · exact later G

theorem pollPrepare_acts (done : ioEndpointPollPrepare w ep = .ok w') : Acts G w w' := by
  obtain ⟨self, dereffed, rest⟩ := bind_ok.mp done
  split at rest
  · obtain ⟨⟨pending, middle⟩, pulled, rest⟩ := bind_ok.mp rest
    have first : Acts G w middle := (pullup_pulled pulled).quiets.acts
    dsimp only at rest
    split at rest
    · exact first.trans (shutdown_quiets rest).acts
    · cases rest
      exact first
  · cases rest
    exact .refl

theorem pollPrepareAll_acts (done : pollPrepareAll w t members = .ok w') : Acts G w w' := by
  induction members generalizing w with
  | nil => cases done; exact .refl
  | cons other rest ih =>
    obtain ⟨middle, first, later⟩ := bind_ok.mp done
    split at later
    · exact (pollPrepare_acts first).trans (ih later)
    · cases later
      exact pollPrepare_acts first

theorem transportPrepare_acts (shape : w.Shape) (done : ioTransportPollPrepare w t = .ok w') : Acts G w w' := by
  unfold ioTransportPollPrepare at done
  have linkFirst : ∃ middle, Acts G w middle ∧ (do
      let w ← pollPrepareAll middle t (middle.xprt t).epList
      ioEndpointListPurge w t .epList) = (.ok w' : Except Fault World) := by
    split at done
    · exact ⟨w, .refl, done⟩
    · obtain ⟨middle, prepared, done⟩ := bind_ok.mp done
      have acted : Acts G w middle := pollPrepare_acts prepared
      rw [purge_multiplex (shape.lists.acts acted)] at done
      exact ⟨middle, acted, done⟩
  obtain ⟨middle, before, rest⟩ := linkFirst
  obtain ⟨after, prepared, purged⟩ := bind_ok.mp rest
  have between : Acts G middle after := pollPrepareAll_acts prepared
  rw [purge_epList ((shape.lists.acts before).acts between)] at purged
  cases purged
  exact before.trans between

theorem pollCollect_ok (done : ioTransportPollCollect w t = .ok (w', info)) :
    ioTransportPurge w t = .ok w' ∧ pollAll w' ((w'.xprt t).multiplex.toList ++ (w'.xprt t).epList) = .ok info := by
  obtain ⟨middle, purged, rest⟩ := bind_ok.mp done
  obtain ⟨infos, polled, rest⟩ := bind_ok.mp rest
  cases rest
  exact ⟨purged, polled⟩

/-- Collecting descriptors changes the world by purging alone. -/
theorem pollCollect_purge (done : ioTransportPollCollect w t = .ok (w', info)) : ioTransportPurge w t = .ok w' := (pollCollect_ok done).1

theorem transportPurge_garbage (lists : w.Lists) (done : ioTransportPurge w t = .ok w') :
    ioEndpointListPurge w t .garbageList = .ok w' := by
  rw [ioTransportPurge_eq lists] at done
  obtain ⟨middle, purged, rest⟩ := bind_ok.mp done
  have acted : Acts .free w middle := purgeGarbage_acts (fun _ _ _ => trivial) purged
  rw [purge_multiplex (lists.acts acted)] at rest
  cases rest
  exact purged

theorem transportPurge_acts (shape : w.Shape) (release : ∀ after, ∀ ep ∈ (w.xprt t).garbageList, G.release after ep)
    (done : ioTransportPurge w t = .ok w') : Acts G w w' :=
  purgeGarbage_acts release (transportPurge_garbage shape.lists done)

theorem modifyXprt_congr (same : first (w.xprt t) = second (w.xprt t)) : w.modifyXprt t first = w.modifyXprt t second := by
  simp only [World.modifyXprt, same]

theorem acceptMultiplex_acts (shape : w.Shape) (allowed : G.accept w sys)
    (absent : w.heap.cells sys.acceptedAddr = none) (fresh : self.Fresh (w.xprt .downstream) .downstream)
    (multiplex : (w.xprt .downstream).type = .multiplex) (connected : self.connected = true)
    (done : acceptMultiplex (w.spawn .downstream sys.acceptedAddr self (w.xprt .downstream).nextChannelId
      [.created sys.acceptedAddr, .accepted self.channelId]) sys.acceptedAddr sys = .ok w') :
    Acts G w w' := by
  have kept := lists_spawn w .downstream sys.acceptedAddr self (w.xprt .downstream).nextChannelId
    [.created sys.acceptedAddr, .accepted self.channelId] .downstream
  have setup := sameSetup_spawn (w := w) (t := .downstream) (d := True) sys.acceptedAddr self
    (w.xprt .downstream).nextChannelId
    [.created sys.acceptedAddr, .accepted self.channelId] .downstream
  unfold acceptMultiplex at done
  rw [kept.2.2, setup.forkOnAccept] at done
  split at done
  · cases done
  · rename_i free
    have vacant : (w.xprt .downstream).multiplex = none := by simpa using free
    dsimp only at done
    split at done
    · rename_i forks
      split at done
      · cases done
        have linked := Act.multiplexed (G := G) none allowed absent fresh multiplex
          connected vacant (by rw [if_pos forks])
        refine .single ?_
        convert linked using 1
        simp [World.modifyXprt]
      · have gone := free_spawned shape.lists absent fresh done
        rw [gone]
        refine .single (.administer _ _ ?_ fun _ => .inl rfl)
        simp [Event.Administrative, absent]
    · rename_i stays
      cases done
      have linked := Act.multiplexed (G := G) (w.xprt .downstream).listenFd allowed
        absent fresh multiplex connected vacant (by rw [if_neg stays])
      refine .single ?_
      convert linked using 1
      apply modifyXprt_congr
      simp [World.spawn, World.counter]

theorem unlisted_counter (unlisted : w.Unlisted ep) : (w.counter t next).Unlisted ep where
  epList s := by rw [(lists_counter w t s next).1]; exact unlisted.epList s
  garbageList s := by rw [(lists_counter w t s next).2.1]; exact unlisted.garbageList s
  multiplex s := by rw [(lists_counter w t s next).2.2]; exact unlisted.multiplex s

theorem World.Unlisted.note (unlisted : w.Unlisted ep) (events : List Event) : (w.note events).Unlisted ep :=
  ⟨unlisted.epList, unlisted.garbageList, unlisted.multiplex⟩

theorem administrative_spawn (admin : event.Administrative (w.spawn t ep self next events)) : event.Administrative w := by
  cases event <;> simp only [Event.Administrative, cells_spawn] at admin ⊢
  all_goals
    split at admin
    · cases admin
    · exact admin

theorem Endpoint.Fresh.congr (fresh : self.Fresh new t)
    (type : new.type = old.type) (ops : new.ops = old.ops) : self.Fresh old t :=
  ⟨fresh.type.trans type, fresh.transport, fresh.sink, fresh.rfd, fresh.wfd,
    by rw [← ops]; exact fresh.fds, by rw [fresh.rxCredit, type], fresh.rbuf, fresh.wbuf,
    fresh.wqueue, fresh.shutdownWrite, by rw [← ops]; exact fresh.connected⟩

theorem acceptSimplex_acts (shape : w.Shape) (allowed : G.accept w sys) (count : G.count w)
    (absent : w.heap.cells sys.acceptedAddr = none) (fresh : self.Fresh (w.xprt .downstream) .downstream)
    (simplex : (w.xprt .downstream).type = .simplex) (channel : self.channelId = (w.xprt .downstream).nextChannelId)
    (done : acceptSimplex (w.spawn .downstream sys.acceptedAddr self ((w.xprt .downstream).nextChannelId + 1)
      [.created sys.acceptedAddr, .accepted self.channelId]) sys.acceptedAddr sys = .ok w') :
    Acts G w w' := by
  have spawned := shape.lists.spawn absent .downstream self ((w.xprt .downstream).nextChannelId + 1)
    [.created sys.acceptedAddr, .accepted self.channelId]
  have kept := lists_spawn w .downstream sys.acceptedAddr self ((w.xprt .downstream).nextChannelId + 1)
    [.created sys.acceptedAddr, .accepted self.channelId] .upstream
  obtain ⟨same, dereffed, rest⟩ := bind_ok.mp done
  have cell := deref_ok.mp dereffed
  rw [cells_spawn, if_pos rfl] at cell
  cases cell
  rw [kept.2.2] at rest
  cases link : (w.xprt .upstream).multiplex with
  | some upstream =>
    simp only [link] at rest
    obtain ⟨after, queued, rest⟩ := bind_ok.mp rest
    obtain ⟨target, middle, found, linked, funded, rfl⟩ := queueWrite_ok queued
    cases rest
    obtain ⟨_, target', found', _, _, connected⟩ := spawned.link .upstream upstream (by rw [kept.2.2, link])
    cases found.symm.trans found'
    cases linked with
    | already => exact .single (.announced allowed absent fresh simplex channel link count)
    | now late => simp [connected] at late
  | none =>
    simp only [link] at rest
    obtain ⟨⟨created, middle⟩, connected, rest⟩ := bind_ok.mp rest
    obtain ⟨rfl, next, events, admin, rfl⟩ | ⟨other, next, rfl, partner, _⟩ := connectChannel_ok spawned connected
    · have unlisted : (w.spawn .downstream sys.acceptedAddr self ((w.xprt .downstream).nextChannelId + 1)
          [.created sys.acceptedAddr, .accepted self.channelId]).Unlisted sys.acceptedAddr :=
        unlisted_spawn (shape.lists.unlisted absent)
      have gone := free_fresh (by rw [heap_note, heap_counter, cells_spawn, if_pos rfl]) fresh
        ((unlisted_counter unlisted).note events) rest
      have first : Act G w ((w.counter .downstream ((w.xprt .downstream).nextChannelId + 1)).note
          [.created sys.acceptedAddr, .accepted self.channelId]) :=
        .administer _ _ (by simp [Event.Administrative, absent]) fun _ => .inr ⟨count, rfl⟩
      have admin' : ∀ event ∈ events ++ [.freed sys.acceptedAddr], event.Administrative w := by
        intro event member
        rcases List.mem_append.mp member with early | last
        · exact administrative_spawn (admin event early)
        · rw [List.mem_singleton.mp last]
          exact absent
      have second := Act.administer (G := G) (w := (w.counter .downstream ((w.xprt .downstream).nextChannelId + 1)).note
          [.created sys.acceptedAddr, .accepted self.channelId]) .upstream next admin' nofun
      have result := (Relation.ReflTransGen.single first).tail second
      rw [gone]
      convert result using 1
      simp only [World.spawn, World.counter, World.note, World.modifyXprt, List.append_assoc]
      rw [Store.free_alloc absent]
    · cases rest
      have vacant := partner.absent
      rw [cells_spawn] at vacant
      split at vacant
      · cases vacant
      · rename_i different
        have counted : next = (w.xprt .upstream).nextChannelId := by
          rw [partner.counter]
          simp [channelIdNone, World.spawn, World.counter, xprt_modifyXprt_of_ne]
        have paired := Act.paired (G := G) allowed absent fresh simplex channel link vacant different
          (partner.fresh.congr (type_spawn ..) (ops_spawn ..)) partner.channelId count
        rw [partner.result, counted]
        exact .single paired

theorem downstreamAccept_acts (shape : w.Shape) (allowed : revents.pollin = true → sys.accepts.isSome → G.accept w sys)
    (count : revents.pollin = true → G.count w)
    (done : proxyDownstreamAccept w fd revents sys = .ok w') : Acts G w w' := by
  unfold proxyDownstreamAccept at done
  split at done
  · rename_i ready
    obtain ⟨⟨accepted, middle⟩, taken, rest⟩ := bind_ok.mp done
    obtain ⟨rfl, next, counted, rfl⟩ | ⟨self, rfl, answered, absent, fresh, connected, rfl, channel⟩ :=
      ioTransportAccept_ok taken
    · cases rest
      refine .single (.administer _ _ (by simp) fun _ => ?_)
      split at counted
      · exact .inr ⟨count ready, counted⟩
      · exact .inl counted
    · obtain ⟨same, dereffed, rest⟩ := bind_ok.mp rest
      have cell := deref_ok.mp dereffed
      rw [cells_spawn, if_pos rfl] at cell
      cases cell
      have typed := fresh.type
      split at rest
      · rename_i multiplex
        have kind : (w.xprt .downstream).type = .multiplex := typed.symm.trans multiplex
        simp only [kind, reduceCtorEq, if_false] at rest
        exact acceptMultiplex_acts shape (allowed ready answered) absent fresh kind connected rest
      · rename_i other
        have simplex : (w.xprt .downstream).type = .simplex := by
          have some' := shape.typed .downstream
          rw [typed] at other
          cases kind : (w.xprt .downstream).type with
          | none => exact absurd kind some'
          | simplex => rfl
          | multiplex => exact absurd kind other
        simp only [simplex, if_true] at rest channel
        exact acceptSimplex_acts shape (allowed ready answered) (count ready) absent fresh simplex channel rest
  · cases done
    exact .refl

end Loop

/-- The endpoint whose receive handler the next step calls. -/
def State.reads (s : State) : Option Addr :=
  match s.phase with
  | .dispatch ((⟨.endpointDoio, some ep, some fd, _, _⟩, revents) :: _) =>
    if revents.pollin && (s.world.heap.cells ep).any fun self => self.rfd = some fd then some ep
    else none
  | _ => none

/-- Whether the next step accepts a connection. -/
def State.accepts (s : State) : Bool :=
  match s.phase with
  | .dispatch ((⟨.downstreamAccept, _, some _, _, _⟩, revents) :: _) => revents.pollin
  | _ => false

/-- The endpoint from which the next step reads frames of the peer. -/
def State.demuxes (s : State) : Option Addr := do
  let ep ← s.reads
  let self ← s.world.heap.cells ep
  if (s.world.xprt self.transport).dataAvailable = .recvDemux then some ep else none

/-- The packet the next step completes and carries out, in the world in which it
was read. -/
def State.packet (s : State) (sys : Syscalls) : Option (World × Addr × NiBuffer) := do
  let ep ← s.demuxes
  let self ← s.world.heap.cells ep
  let rcount ← (proxyRecvBufsiz self sys).toOption
  let read := demuxRead self rcount sys
  if read.reason = .packet then some (s.world.receive ep read.bp read.received, ep, read.bp)
  else none

theorem packet_frames {s : State} {permitted : World → Addr → NiBuffer → Prop} (reads : s.reads = some ep)
    (allowed : ∀ w ep bp, s.packet sys = some (w, ep, bp) → permitted w ep bp) :
    Frames s.world ep sys fun w bp => permitted w ep bp := by
  intro self rcount found handler granted reason
  refine allowed _ _ _ ?_
  simp [State.packet, State.demuxes, reads, found, handler, granted, reason, Except.toOption]

/-- The next step does only what the guard permits. -/
structure Permits (G : Guard) (s : State) (sys : Syscalls) : Prop where
  accept : s.accepts = true → sys.accepts.isSome → G.accept s.world sys
  receive : ∀ ep, s.demuxes = some ep → G.receive s.world ep
  frame : ∀ w ep bp, s.packet sys = some (w, ep, bp) → G.frame w ep bp sys
  release : ∀ t info, s.phase = .collect t info → ∀ w ep, G.release w ep
  count : s.accepts = true → G.count s.world

theorem permits_free (s : State) (sys : Syscalls) : Permits .free s sys :=
  ⟨fun _ _ => trivial, fun _ _ => trivial, fun _ _ _ _ => trivial, fun _ _ _ _ _ => trivial, fun _ => trivial⟩

theorem step_acts {s s' : State} (shape : s.world.Shape) (permits : Permits G s sys)
    (moved : step s sys = .ok s') : Acts G s.world s'.world := by
  obtain ⟨w, phase⟩ := s
  unfold step at moved
  cases phase with
  | prepare t info =>
    obtain ⟨after, prepared, rest⟩ := bind_ok.mp moved
    cases rest
    exact transportPrepare_acts shape prepared
  | collect t info =>
    obtain ⟨⟨after, more⟩, collected, rest⟩ := bind_ok.mp moved
    cases rest
    exact transportPurge_acts shape (fun after ep _ => permits.release t info rfl after ep) (pollCollect_purge collected)
  | poll info =>
    cases info with
    | nil => cases moved; exact .refl
    | cons first others =>
      dsimp only at moved
      split at moved <;> cases moved <;> exact .refl
  | dispatch ready =>
    cases ready with
    | nil => cases moved; exact .refl
    | cons first others =>
      obtain ⟨info, revents⟩ := first
      obtain ⟨after, handled, rest⟩ := bind_ok.mp moved
      cases rest
      unfold PollInfo.handle at handled
      split at handled
      · rename_i fd accept some'
        have accepts (ready : revents.pollin = true) : State.accepts ⟨w, .dispatch ((info, revents) :: others)⟩ = true := by
          obtain ⟨handler, ep, fd', pollin, pollout⟩ := info
          cases accept
          cases some'
          exact ready
        exact downstreamAccept_acts shape (fun ready => permits.accept (accepts ready))
          (fun ready => permits.count (accepts ready)) handled
      · rename_i ep fd doio some' some''
        split at handled
        · cases handled
          exact .refl
        · refine doio_acts shape (fun self found reading ready => ?_) handled
          have here : w.heap.cells ep = some self := found
          have reads : State.reads ⟨w, .dispatch ((info, revents) :: others)⟩ = some ep := by
            obtain ⟨handler, ep', fd', pollin, pollout⟩ := info
            cases doio
            cases some'
            cases some''
            simp [State.reads, ready, here, reading]
          refine ⟨fun demux => permits.receive ep ?_, packet_frames reads permits.frame⟩
          have role : (w.xprt self.transport).dataAvailable = .recvDemux := demux
          simp [State.demuxes, reads, here, role]
      · cases handled
        exact .refl
  | done => cases moved; exact .refl

/-- A step that reads frames of the peer is a call of `proxy_recv_demux`, after which
nothing is read. -/
theorem step_demux (demuxes : s.demuxes = some ep) (moved : step s sys = .ok s') :
    ∃ self middle, s.world.heap.cells ep = some self ∧ (s.world.xprt self.transport).dataAvailable = .recvDemux ∧
      proxyRecvDemux s.world ep sys = .ok middle ∧ ∀ G, Acts G middle s'.world := by
  obtain ⟨w, phase⟩ := s
  simp only [State.demuxes, Option.bind_eq_bind, Option.bind_eq_some_iff] at demuxes
  obtain ⟨a, reads, self, found, here⟩ := demuxes
  split at here
  · rename_i handler
    cases here
    simp only [State.reads] at reads
    split at reads
    · rename_i ep' fd pollin pollout revents others
      split at reads
      · rename_i ready
        cases reads
        obtain ⟨after, handled, rest⟩ := bind_ok.mp moved
        cases rest
        simp only [Bool.and_eq_true] at ready
        have some' : revents ≠ {} := by
          rintro rfl
          simp at ready
        simp only [PollInfo.handle, some', if_false] at handled
        obtain ⟨same, middle, found', later, ⟨reading, _, handled⟩ | ⟨idle, _⟩⟩ := doio_ok handled
        · cases found.symm.trans found'
          rw [handler] at handled
          exact ⟨self, middle, found, handler, handled, later⟩
        · cases found.symm.trans found'
          exact absurd ⟨by simpa [found] using ready.2, ready.1⟩ idle
      · cases reads
    · cases reads
  · cases here

end Testbus.Proxy
