import Testbus.Proxy.Shape

namespace Testbus.Proxy

open Lib World

structure Endpoint.Sound (ep : Endpoint) (xprt : Transport) : Prop where
  type : ep.type = xprt.type
  rbuf : ∀ bp, ep.rbuf = some bp → bp.Fits
  wbuf : ∀ bp, ep.wbuf = some bp → bp.Fits
  wqueue : ∀ mbuf ∈ ep.wqueue, mbuf.buffer.Fits
  connected : ep.connected = true ∨ xprt.ops = .unix
  fds : ∀ a b, ep.rfd = some a → ep.wfd = some b → a = b ∨ xprt.ops = .stdio

/-- What a transport was set up with, and the socket it listens on as long as it accepts nothing. -/
structure Transport.SameSetup (deaf : Prop) (old new : Transport) : Prop where
  ops : new.ops = old.ops
  type : new.type = old.type
  dataAvailable : new.dataAvailable = old.dataAvailable
  forkOnAccept : new.forkOnAccept = old.forkOnAccept
  listenFd : deaf → new.listenFd = old.listenFd

theorem Transport.SameSetup.rfl {deaf : Prop} {xprt : Transport} : xprt.SameSetup deaf xprt :=
  ⟨.refl _, .refl _, .refl _, .refl _, fun _ => .refl _⟩

theorem Transport.SameSetup.trans {deaf : Prop} {first second third : Transport}
    (left : first.SameSetup deaf second) (right : second.SameSetup deaf third) : first.SameSetup deaf third :=
  ⟨right.ops.trans left.ops, right.type.trans left.type,
    right.dataAvailable.trans left.dataAvailable, right.forkOnAccept.trans left.forkOnAccept,
    fun deaf => (right.listenFd deaf).trans (left.listenFd deaf)⟩

/-- No connection is accepted. -/
def Guard.Deaf (G : Guard) : Prop := ∀ w sys, ¬ G.accept w sys

def World.Sound (w : World) : Prop :=
  ∀ a self, w.heap.cells a = some self → self.Sound (w.xprt self.transport)

variable {w w' : World} {self : Endpoint} {change : Addr → Endpoint → Endpoint}

theorem Endpoint.Sound.setup (sound : self.Sound old) (setup : old.SameSetup False new) : self.Sound new where
  type := sound.type.trans setup.type.symm
  rbuf := sound.rbuf
  wbuf := sound.wbuf
  wqueue := sound.wqueue
  connected := by rw [setup.ops]; exact sound.connected
  fds := by rw [setup.ops]; exact sound.fds

theorem sameSetup_modifyXprt {change : Transport → Transport}
    (kept : ∀ xprt : Transport, xprt.SameSetup d (change xprt)) (s : Side) :
    (w.xprt s).SameSetup d ((w.modifyXprt t change).xprt s) := by
  by_cases same : s = t
  · subst same
    rw [xprt_modifyXprt_self]
    exact kept _
  · rw [xprt_modifyXprt_of_ne same]
    exact .rfl

theorem sameSetup_link (ep : Addr) (list : ListName) (s : Side) :
    (w.xprt s).SameSetup d ((ioEndpointLink w ep t list).xprt s) := by
  cases list <;> unfold ioEndpointLink <;> refine sameSetup_modifyXprt ?_ s <;>
    exact fun _ => ⟨rfl, rfl, rfl, rfl, fun _ => rfl⟩

theorem sameSetup_unlink (ep : Addr) (s : Side) : (w.xprt s).SameSetup d ((ioEndpointUnlink w ep t).xprt s) := by
  unfold ioEndpointUnlink
  split <;> refine sameSetup_modifyXprt ?_ s <;> exact fun _ => ⟨rfl, rfl, rfl, rfl, fun _ => rfl⟩

theorem sameSetup_adopt (ep sink : Addr) (s : Side) : (w.xprt s).SameSetup d ((w.adopt ep t sink).xprt s) :=
  sameSetup_link (w := w.modify ep fun self => { self with sink := some sink }) ep .epList s

theorem sameSetup_counter (next : UInt32) (s : Side) : (w.xprt s).SameSetup d ((w.counter t next).xprt s) := by
  refine sameSetup_modifyXprt ?_ s
  exact fun _ => ⟨rfl, rfl, rfl, rfl, fun _ => rfl⟩

theorem sameSetup_flush (ep : Addr) (queue : List Mbuf) (s : Side) :
    (w.xprt s).SameSetup d ((w.flush ep t queue).xprt s) := by
  rw [World.flush, xprt_discard, xprt_clear]
  refine sameSetup_modifyXprt ?_ s
  exact fun _ => ⟨rfl, rfl, rfl, rfl, fun _ => rfl⟩

theorem sameSetup_settle (ep : Addr) (s : Side) : (w.xprt s).SameSetup d ((w.settle ep).xprt s) := by
  unfold World.settle
  split
  · exact .rfl
  · split
    · exact (sameSetup_unlink ep s).trans (sameSetup_link ep _ s)
    · exact .rfl

theorem sameSetup_spawn (ep : Addr) (self : Endpoint) (next : UInt32) (events : List Event)
    (s : Side) : (w.xprt s).SameSetup d ((w.spawn t ep self next events).xprt s) :=
  sameSetup_counter (w := { w with heap := w.heap.alloc ep self }) next s

/-- What the command line set up never changes, and the socket that is listened on only where a
connection is accepted. -/
theorem Act.setup (acted : Act G w w') (s : Side) : (w.xprt s).SameSetup G.Deaf (w'.xprt s) := by
  cases acted with
  | quiet moved =>
    cases moved with
    | pull => rw [xprt_pull]; exact .rfl
    | @closeRead ep self fd =>
      simpa using sameSetup_settle (w := w.shutRead ep self fd) ep s
    | @closeWrite ep self fd =>
      simpa using sameSetup_settle (w := w.shutWrite ep self fd) ep s
    | rebury => exact sameSetup_settle _ s
  | mark | connect | transmit | receive | ignored | closing | detach => exact .rfl
  | copied | framed => rw [xprt_charge]; exact .rfl
  | deliver => rw [xprt_clear, xprt_charge]; exact .rfl
  | @leave ep self sink _ fd =>
    simpa using sameSetup_settle (w := (w.charge sink (proxyChannelCloseNew self.channelId)).shutRead ep self fd) ep s
  | @opened source self bp sys born next =>
    exact (sameSetup_spawn (w := w.emit _) _ _ _ [.created sys.connectedAddr] s).trans (sameSetup_adopt _ _ s)
  | administer => exact sameSetup_counter _ s
  | @announced self sys sink =>
    have charged : (w.xprt s).SameSetup G.Deaf (((w.spawn .downstream sys.acceptedAddr self
        ((w.xprt .downstream).nextChannelId + 1)
        [.created sys.acceptedAddr, .accepted self.channelId]).charge sink
        (proxyChannelOpenNew self.channelId)).xprt s) := by
      rw [xprt_charge]
      exact sameSetup_spawn _ _ _ _ s
    exact charged.trans (sameSetup_adopt _ _ s)
  | paired =>
    exact (((sameSetup_spawn _ _ _ _ s).trans (sameSetup_spawn _ _ _ _ s)).trans
      (sameSetup_adopt _ _ s)).trans (sameSetup_adopt _ _ s)
  | multiplexed _ allowed =>
    refine (sameSetup_spawn _ _ _ _ s).trans (sameSetup_modifyXprt ?_ s)
    exact fun _ => ⟨rfl, rfl, rfl, rfl, fun deaf => absurd allowed (deaf _ _)⟩
  | flush =>
    exact sameSetup_flush _ _ s
  | release => exact sameSetup_unlink _ s

theorem Acts.setup (acted : Acts G w w') (s : Side) : (w.xprt s).SameSetup G.Deaf (w'.xprt s) := by
  induction acted with
  | refl => exact .rfl
  | tail _ last ih => exact ih.trans (last.setup s)

theorem Endpoint.Fresh.sound {xprt : Transport} (fresh : self.Fresh xprt t) : self.Sound xprt where
  type := fresh.type
  rbuf := by simp [fresh.rbuf]
  wbuf := by simp [fresh.wbuf]
  wqueue := by simp [fresh.wqueue]
  connected := fresh.connected
  fds := by
    rcases fresh.fds with same | stdio
    · intro a b reading writing
      rw [same, writing] at reading
      exact .inl (Option.some.inj reading).symm
    · exact fun _ _ _ _ => .inr stdio

/-- A change of the cells that keeps every endpoint sound. -/
theorem World.Sound.map (sound : w.Sound) (setup : ∀ s, (w.xprt s).SameSetup False (w'.xprt s))
    (changed : ∀ a, w'.heap.cells a = (w.heap.cells a).map (change a))
    (kept : ∀ a self, w.heap.cells a = some self → self.Sound (w.xprt self.transport) →
      (change a self).transport = self.transport ∧ (change a self).Sound (w.xprt self.transport)) : w'.Sound := by
  intro a new found
  rw [changed] at found
  obtain ⟨old, cell, rfl⟩ := Option.map_eq_some_iff.mp found
  have keep := kept a old cell (sound a old cell)
  rw [keep.1]
  exact keep.2.setup (setup _)

theorem World.Sound.same (sound : w.Sound) (setup : ∀ s, (w.xprt s).SameSetup False (w'.xprt s))
    (heap : w'.heap = w.heap) : w'.Sound := by
  intro a self found
  rw [heap] at found
  exact (sound a self found).setup (setup _)

theorem World.Sound.spawn (sound : w.Sound) (here : self.Sound (w.xprt t))
    (side : self.transport = t) : (w.spawn t ep self next events).Sound := by
  intro a new found
  rw [cells_spawn] at found
  split at found
  · cases found
    subst side
    exact here.setup (sameSetup_spawn _ _ _ _ _)
  · exact (sound a new found).setup (sameSetup_spawn _ _ _ _ _)

theorem World.Sound.charge (sound : w.Sound) (fits : mbuf.buffer.Fits) (sink : Addr) : (w.charge sink mbuf).Sound := by
  refine sound.map (fun s => by rw [xprt_charge]; exact .rfl) (cells_charge w sink mbuf) ?_
  intro a self _ here
  refine ⟨rfl, ⟨here.type, here.rbuf, here.wbuf, ?_, here.connected, here.fds⟩⟩
  intro other member
  by_cases same : a = sink
  · rcases List.mem_append.mp (show other ∈ self.wqueue ++ [mbuf] by simpa [same] using member) with
      old | new
    · exact here.wqueue other old
    · rw [List.mem_singleton.mp new]
      exact fits
  · exact here.wqueue other (by simpa [same] using member)

theorem World.Sound.adopt (sound : w.Sound) : (w.adopt ep t sink).Sound :=
  sound.map (sameSetup_adopt ep sink) (cells_adopt w ep t sink)
    fun _ _ _ here => ⟨rfl, ⟨here.type, here.rbuf, here.wbuf, here.wqueue, here.connected, here.fds⟩⟩

theorem World.Sound.clear (sound : w.Sound) (ep : Addr) : (w.clear ep).Sound := by
  refine sound.map (fun _ => .rfl) (cells_clear w ep) ?_
  intro a self _ here
  refine ⟨rfl, ⟨here.type, ?_, here.wbuf, here.wqueue, here.connected, here.fds⟩⟩
  intro bp reading
  by_cases same : a = ep
  · simp [same] at reading
  · exact here.rbuf bp (by simpa [same] using reading)

theorem World.Sound.modify (sound : w.Sound) {change : Endpoint → Endpoint}
    (kept : ∀ self, w.heap.cells ep = some self → self.Sound (w.xprt self.transport) →
      (change self).transport = self.transport ∧ (change self).Sound (w.xprt self.transport)) :
    (w.modify ep change).Sound := by
  refine sound.map (fun _ => .rfl) (cells_modify w ep · change) ?_
  intro a self found here
  by_cases same : a = ep
  · subst same
    simpa using kept self found here
  · simpa [same] using here

theorem World.Sound.shutRead (sound : w.Sound) (fd : Fd) : ((w.shutRead ep self fd).settle ep).Sound := by
  refine sound.map (fun s => ?_) (fun a => by rw [heap_settle]; exact cells_shutRead _ _ _ _ a) ?_
  · simpa using sameSetup_settle (w := w.shutRead ep self fd) ep s
  · intro a self _ here
    refine ⟨rfl, ⟨here.type, here.rbuf, here.wbuf, here.wqueue, here.connected, ?_⟩⟩
    intro first second reading
    by_cases same : a = ep
    · simp [same] at reading
    · exact here.fds first second (by simpa [same] using reading)

theorem World.Sound.quiet (sound : w.Sound) (moved : Quiet w w') : w'.Sound := by
  cases moved with
  | @pull ep self mbuf rest found idle queue =>
    refine sound.map (fun s => by rw [xprt_pull]; exact .rfl) (fun a => cells_pull _ _ _ _ a) ?_
    intro a other cell here
    by_cases same : a = ep
    · subst same
      rw [found] at cell
      cases cell
      refine ⟨rfl, ⟨here.type, here.rbuf, ?_, ?_, here.connected, here.fds⟩⟩
      · intro bp buffer
        obtain rfl : mbuf.buffer = bp := by simpa using buffer
        exact here.wqueue mbuf (by simp [queue])
      · intro later member
        exact here.wqueue later (by simp [queue, show later ∈ rest by simpa using member])
    · exact ⟨rfl, ⟨here.type, here.rbuf, by simpa [same] using here.wbuf,
        by simpa [same] using here.wqueue, here.connected, here.fds⟩⟩
  | closeRead => exact sound.shutRead _
  | @closeWrite ep self fd found writing =>
    refine sound.map (fun s => ?_) (fun a => by rw [heap_settle]; exact cells_shutWrite found fd a) ?_
    · simpa using sameSetup_settle (w := w.shutWrite ep self fd) ep s
    · intro a other _ here
      by_cases same : a = ep
      · exact ⟨rfl, ⟨here.type, here.rbuf, by simp [same], by simp [same], here.connected, by simp [same]⟩⟩
      · exact ⟨rfl, ⟨here.type, here.rbuf, by simpa [same] using here.wbuf,
          by simpa [same] using here.wqueue, here.connected, by simpa [same] using here.fds⟩⟩
  | rebury =>
    exact sound.same (sameSetup_settle _) (heap_settle _ _)

@[simp] theorem length_header (hdr : DataHeader) : hdr.bytes.length = dataHeaderSize := by
  simp [DataHeader.bytes, dataHeaderSize]

theorem command_bytes (cmd channel : UInt32) :
    (proxyCommandNew cmd channel 0).buffer.Fits ∧
      (proxyCommandNew cmd channel 0).bytes = (DataHeader.mk cmd channel 0).bytes := by
  have wf : (NiBuffer.new dataHeaderSize).WellFormed := NiBuffer.wellFormed_new _
  have room : (DataHeader.mk cmd channel 0).bytes.length ≤
      (NiBuffer.new dataHeaderSize).size - (NiBuffer.new dataHeaderSize).tail := by
    simp [NiBuffer.new]
  have pushed := NiBuffer.contents_fill wf room
  have filled := NiBuffer.wellFormed_fill wf room
  have same : (proxyCommandNew cmd channel 0).buffer =
      (NiBuffer.new dataHeaderSize).fill (DataHeader.mk cmd channel 0).bytes := rfl
  rw [NiBuffer.contents_new, List.nil_append] at pushed
  refine ⟨⟨by rw [same]; exact filled, ?_⟩, ?_⟩
  · rw [same, pushed, length_header]
    decide
  · rw [Mbuf.bytes, same, pushed]

theorem packetComplete_length (complete : packetComplete bp = true) : dataHeaderSize ≤ bp.contents.length := by
  simp only [packetComplete, Bool.and_eq_true, decide_eq_true_eq] at complete
  exact Nat.le_trans complete.1 bp.count_le

theorem World.Sound.act (sound : w.Sound) (acted : Act G w w') : w'.Sound := by
  cases acted with
  | quiet moved => exact sound.quiet moved
  | mark | detach =>
    exact sound.modify fun _ _ here =>
      ⟨rfl, ⟨here.type, here.rbuf, here.wbuf, here.wqueue, here.connected, here.fds⟩⟩
  | connect =>
    exact sound.modify fun _ _ here =>
      ⟨rfl, ⟨here.type, here.rbuf, here.wbuf, here.wqueue, .inl rfl, here.fds⟩⟩
  | transmit found buffer writing positive bound =>
    refine World.Sound.modify (w := w.emit _) sound ?_
    intro other cell here
    have same := found.symm.trans cell
    cases same
    refine ⟨rfl, ⟨here.type, here.rbuf, ?_, here.wqueue, here.connected, here.fds⟩⟩
    intro bp left
    split at left
    · cases left
    · cases left
      have fits := here.wbuf _ buffer
      exact NiBuffer.fits_pullHead fits (Nat.le_trans bound (NiBuffer.count_le _))
  | copied found target present handler fits =>
    exact World.Sound.charge (w := w.emit _) sound fits _
  | framed found target present handler source credit contents fits =>
    exact World.Sound.charge (w := w.emit _) sound fits _
  | leave =>
    exact (sound.charge (command_bytes channelClose _).1 _).shutRead _
  | @receive ep self bp bytes found handler fits =>
    have filled : (w.modify ep fun self => { self with rbuf := some bp }).Sound := by
      refine sound.modify ?_
      intro other _ here
      exact ⟨rfl, ⟨here.type, by rintro _ ⟨⟩; exact fits, here.wbuf, here.wqueue, here.connected, here.fds⟩⟩
    exact filled
  | @opened source self bp sys born next arrived cmd absent fresh channel connected =>
    have here := fresh.sound
    have newborn : { born with rxCredit := defaultCreditSimplex }.Sound (w.xprt self.transport.other) :=
      ⟨here.type, here.rbuf, here.wbuf, here.wqueue, here.connected, here.fds⟩
    have spawned : ((w.emit (.dispatched source bp.contents)).spawn self.transport.other
        sys.connectedAddr { born with rxCredit := defaultCreditSimplex } next
        [.created sys.connectedAddr]).Sound := World.Sound.spawn (w := w.emit _) sound newborn fresh.transport
    exact spawned.adopt.clear _
  | ignored => exact World.Sound.clear (w := w.emit _) sound _
  | closing =>
    refine World.Sound.clear (World.Sound.modify (w := w.emit _) sound ?_) _
    exact fun _ _ here =>
      ⟨rfl, ⟨here.type, here.rbuf, here.wbuf, here.wqueue, here.connected, here.fds⟩⟩
  | deliver arrived =>
    refine World.Sound.clear (World.Sound.charge (w := (w.emit _).emit _) sound ?_ _) _
    exact NiBuffer.fits_pullHead arrived.fits (packetComplete_length arrived.complete)
  | @administer t next events =>
    exact sound.same (sameSetup_counter next) rfl
  | announced allowed absent fresh =>
    exact ((sound.spawn fresh.sound fresh.transport).charge (command_bytes channelOpen _).1 _).adopt
  | paired allowed absent fresh simplex channel alone vacant different partner =>
    refine World.Sound.adopt (World.Sound.adopt (World.Sound.spawn
      (sound.spawn fresh.sound fresh.transport) ?_ partner.transport))
    exact partner.sound.setup (sameSetup_spawn _ _ _ _ _)
  | multiplexed _ allowed absent fresh =>
    exact (sound.spawn fresh.sound fresh.transport).same (sameSetup_modifyXprt fun _ => ⟨rfl, rfl, rfl, rfl, nofun⟩) rfl
  | @flush ep self t found dead =>
    refine sound.map (fun s => ?_) (cells_flush found _) ?_
    · exact sameSetup_flush _ _ s
    · intro a other _ here
      by_cases same : a = ep
      · exact ⟨rfl, ⟨here.type, by simp [same], by simp [same], by simp [same], here.connected, here.fds⟩⟩
      · exact ⟨rfl, ⟨here.type, by simpa [same] using here.rbuf,
          by simpa [same] using here.wbuf, by simpa [same] using here.wqueue, here.connected,
          here.fds⟩⟩
  | release =>
    intro a other cell
    rw [cells_release] at cell
    split at cell
    · cases cell
    · exact (sound a other cell).setup (sameSetup_unlink _ _)

theorem World.Sound.acts (sound : w.Sound) (acted : Acts G w w') : w'.Sound := by
  induction acted with
  | refl => exact sound
  | tail _ last ih => exact ih.act last

/-- What holds of the world in every run. -/
structure World.Shape (w : World) : Prop where
  lists : w.Lists
  sound : w.Sound
  typed : ∀ s, (w.xprt s).type ≠ .none

theorem World.Shape.acts (shape : w.Shape) (acted : Acts G w w') : w'.Shape :=
  ⟨shape.lists.acts acted, shape.sound.acts acted, fun s => by
    rw [(Acts.setup acted s).type]
    exact shape.typed s⟩

theorem World.Shape.act (shape : w.Shape) (acted : Act G w w') : w'.Shape := shape.acts (.single acted)

end Testbus.Proxy
