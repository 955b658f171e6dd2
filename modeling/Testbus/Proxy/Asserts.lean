import Testbus.Proxy.Steps

namespace Testbus.Proxy

open Lib World

variable {w w' : World} {self : Endpoint}

/-- Whatever assertion fails is one of those that may. -/
def Asserts {α : Type} (S : AssertSite → Prop) (result : Except Fault α) : Prop :=
  ∀ site, result = .error (.assertion site) → S site

theorem asserts_ok (value : α) : Asserts S (.ok value) := by
  nofun

theorem asserts_fails (permitted : S site) : Asserts S (.error (.assertion site) : Except Fault α) := by
  intro other failed
  cases failed
  exact permitted

theorem asserts_fatal (reason : Fatal) : Asserts S (.error (.fatal reason) : Except Fault α) := by
  nofun

theorem asserts_null : Asserts S (.error .nullPointer : Except Fault α) := by
  nofun

theorem Asserts.bind {first : Except Fault α} {next : α → Except Fault β} (here : Asserts S first)
    (later : ∀ value, first = .ok value → Asserts S (next value)) : Asserts S (first >>= next) := by
  intro site failed
  rcases bind_error.mp failed with stopped | ⟨value, done, stopped⟩
  · exact here site stopped
  · exact later value done site stopped

theorem asserts_deref (w : World) (a : Addr) : Asserts S (w.deref a) := by
  unfold World.deref
  split
  · exact asserts_ok _
  · nofun

theorem asserts_at {next : Endpoint → Except Fault β}
    (later : ∀ self, w.heap.cells a = some self → Asserts S (next self)) : Asserts S (w.deref a >>= next) :=
  (asserts_deref w a).bind fun self dereffed => later self (deref_ok.mp dereffed)

/-- No message and no buffer that is to be written is empty. -/
structure Endpoint.Filled (ep : Endpoint) : Prop where
  wbuf : ∀ bp, ep.wbuf = some bp → bp.count ≠ 0
  wqueue : ∀ mbuf ∈ ep.wqueue, mbuf.buffer.count ≠ 0

def World.Filled (w : World) : Prop := ∀ a self, w.heap.cells a = some self → self.Filled

/-- What is dropped need not be looked at. -/
theorem Endpoint.Filled.drop {old new : Endpoint} (filled : old.Filled) (wbuf : new.wbuf = old.wbuf ∨ new.wbuf = none)
    (wqueue : new.wqueue = old.wqueue ∨ new.wqueue = []) : new.Filled where
  wbuf bp here := by
    rcases wbuf with same | gone
    · exact filled.wbuf bp (same ▸ here)
    · cases gone.symm.trans here
  wqueue mbuf member := by
    rcases wqueue with same | empty
    · exact filled.wqueue mbuf (same ▸ member)
    · rw [empty] at member
      cases member

theorem Endpoint.Fresh.filled {xprt : Transport} (fresh : self.Fresh xprt t) : self.Filled where
  wbuf bp here := by cases fresh.wbuf.symm.trans here
  wqueue mbuf member := by
    rw [fresh.wqueue] at member
    cases member

theorem World.Filled.map {change : Addr → Endpoint → Endpoint} (filled : w.Filled)
    (cells : ∀ a, w'.heap.cells a = (w.heap.cells a).map (change a))
    (kept : ∀ a self, w.heap.cells a = some self → self.Filled → (change a self).Filled) : w'.Filled := by
  intro a new found
  rw [cells] at found
  obtain ⟨old, here, rfl⟩ := Option.map_eq_some_iff.mp found
  exact kept a old here (filled a old here)

theorem World.Filled.same (filled : w.Filled) (heap : w'.heap = w.heap) : w'.Filled := by
  intro a self found
  rw [heap] at found
  exact filled a self found

theorem World.Filled.modify (filled : w.Filled) {change : Endpoint → Endpoint}
    (kept : ∀ self : Endpoint, self.Filled → (change self).Filled) : (w.modify ep change).Filled := by
  refine filled.map (cells_modify w ep · change) fun a self _ here => ?_
  split
  · exact kept self here
  · exact here

theorem World.Filled.discard (filled : w.Filled) (found : w.heap.cells ep = some self) :
    (w.discard ep self.wqueue).Filled := by
  refine filled.map (cells_discard found) fun a old _ here => here.drop ?_ ?_
  · by_cases same : a = ep <;> simp [same]
  · by_cases same : a = ep <;> simp [same]

theorem World.Filled.clear (filled : w.Filled) : (w.clear ep).Filled :=
  filled.map (cells_clear w ep) fun _ _ _ here => here.drop (.inl rfl) (.inl rfl)

theorem World.Filled.shutRead (filled : w.Filled) (fd : Fd) : (w.shutRead ep self fd).Filled :=
  filled.map (cells_shutRead w ep self fd) fun _ _ _ here => here.drop (.inl rfl) (.inl rfl)

theorem World.Filled.charge (filled : w.Filled) (full : mbuf.buffer.count ≠ 0)
    (sink : Addr) : (w.charge sink mbuf).Filled := by
  refine filled.map (cells_charge w sink mbuf) fun a old _ here => ?_
  by_cases same : a = sink
  · refine ⟨here.wbuf, fun later member => ?_⟩
    rw [if_pos same] at member
    rcases List.mem_append.mp member with early | last
    · exact here.wqueue later early
    · rw [List.mem_singleton.mp last]
      exact full
  · exact here.drop (.inl rfl) (.inl (if_neg same))

theorem World.Filled.adopt (filled : w.Filled) (sink : Addr) : (w.adopt ep t sink).Filled :=
  filled.map (cells_adopt w ep t sink) fun _ _ _ here => here.drop (.inl rfl) (.inl rfl)

theorem World.Filled.spawn {next : UInt32} {events : List Event} (filled : w.Filled)
    (here : self.Filled) : (w.spawn t ep self next events).Filled := by
  intro a other found
  rw [cells_spawn] at found
  split at found
  · cases found
    exact here
  · exact filled a other found

theorem World.Filled.quiet (filled : w.Filled) (moved : Quiet w w') : w'.Filled := by
  cases moved with
  | @pull ep self mbuf rest found idle queue =>
    refine filled.map (cells_pull w ep mbuf rest) fun a old cell here => ?_
    by_cases same : a = ep
    · subst same
      cases found.symm.trans cell
      refine ⟨fun bp buffer => ?_, fun later member => ?_⟩
      · rw [if_pos rfl] at buffer
        cases buffer
        exact here.wqueue mbuf (by simp [queue])
      · have inside : later ∈ rest := by simpa using member
        exact here.wqueue later (by simp [queue, inside])
    · exact here.drop (.inl (if_neg same)) (.inl (if_neg same))
  | closeRead => exact (filled.shutRead _).same (heap_settle _ _)
  | @closeWrite ep self fd found writing =>
    have shut : (w.shutWrite ep self fd).Filled := by
      refine filled.map (cells_shutWrite found fd) fun a old _ here => here.drop ?_ ?_
      · by_cases same : a = ep <;> simp [same]
      · by_cases same : a = ep <;> simp [same]
    exact shut.same (heap_settle _ _)
  | rebury => exact filled.same (heap_settle _ _)

theorem World.Filled.quiets (filled : w.Filled) (moved : Quiets w w') : w'.Filled := by
  induction moved with
  | refl => exact filled
  | tail _ last ih => exact ih.quiet last

/-- A data frame for a channel that is there has a payload. -/
def Guard.filling : Guard where
  accept _ _ := True
  receive _ _ := True
  frame w source bp _ := ∀ self, w.heap.cells source = some self →
    (packetHeader bp).cmd = channelData →
      (proxyChannelById w self.transport.other (packetHeader bp).channel).isSome →
        (packetPayload bp).count ≠ 0
  release _ _ := True

theorem count_of_contents {bp : NiBuffer} (fits : bp.Fits) (some' : bp.contents ≠ []) : bp.count ≠ 0 := by
  rw [fits.count_eq]
  exact fun none' => some' (List.eq_nil_of_length_eq_zero none')

theorem command_filled (cmd channel : UInt32) : (proxyCommandNew cmd channel 0).buffer.count ≠ 0 := by
  obtain ⟨fits, bytes⟩ := command_bytes cmd channel
  refine count_of_contents fits fun empty => ?_
  cases bytes.symm.trans empty

theorem World.Filled.act (filled : w.Filled) (acted : Act .filling w w') : w'.Filled := by
  cases acted with
  | quiet moved => exact filled.quiet moved
  | mark | detach | connect =>
    exact filled.modify fun _ here => here.drop (.inl rfl) (.inl rfl)
  | transmit found buffer writing positive bound =>
    refine World.Filled.modify (w := w.emit _) filled fun other here => ?_
    refine ⟨fun bp left => ?_, here.wqueue⟩
    split at left
    · cases left
    · rename_i some'
      cases left
      exact some'
  | copied found target present handler fits nonempty =>
    exact World.Filled.charge (w := w.emit _) filled (count_of_contents fits nonempty) _
  | @framed ep self sink other mbuf bytes found target present handler source credit contents fits =>
    refine World.Filled.charge (w := w.emit _) filled (count_of_contents fits fun empty => ?_) _
    have header : mbuf.bytes = [] := empty
    rw [contents] at header
    cases header
  | leave => exact ((filled.charge (command_filled _ _) _).shutRead _).same (heap_settle _ _)
  | @receive ep self bp bytes =>
    have read : (w.modify ep fun self => { self with rbuf := some bp }).Filled :=
      filled.modify fun _ here => here.drop (.inl rfl) (.inl rfl)
    exact read.same rfl
  | opened next arrived cmd absent fresh =>
    have newborn := fresh.filled
    refine World.Filled.clear (World.Filled.adopt (World.Filled.spawn (w := w.emit _) filled ?_) _)
    exact newborn.drop (.inl rfl) (.inl rfl)
  | ignored => exact World.Filled.clear (w := w.emit _) filled
  | closing =>
    refine World.Filled.clear (World.Filled.modify (w := w.emit _) filled fun _ here => ?_)
    exact here.drop (.inl rfl) (.inl rfl)
  | deliver arrived data member =>
    refine World.Filled.clear (World.Filled.charge (w := (w.emit _).emit _) filled ?_ _)
    exact arrived.allowed _ arrived.found data (by rw [member]; rfl)
  | administer => exact filled.same rfl
  | announced _ _ fresh =>
    exact ((filled.spawn fresh.filled).charge (command_filled _ _) _).adopt _
  | paired _ _ fresh _ _ _ _ _ partner =>
    exact (((filled.spawn fresh.filled).spawn partner.filled).adopt _).adopt _
  | @multiplexed self sys _ _ _ fresh =>
    have spawned : (w.spawn .downstream sys.acceptedAddr self (w.xprt .downstream).nextChannelId
        [.created sys.acceptedAddr, .accepted self.channelId]).Filled := filled.spawn fresh.filled
    exact spawned.same rfl
  | @flush ep self t found =>
    refine filled.map (cells_flush found t) fun a old _ here => here.drop ?_ ?_
    · by_cases same : a = ep <;> simp [same]
    · by_cases same : a = ep <;> simp [same]
  | release =>
    intro a other cell
    rw [cells_release] at cell
    split at cell
    · cases cell
    · exact filled a other cell

theorem World.Filled.acts (filled : w.Filled) (acted : Acts .filling w w') : w'.Filled := by
  induction acted with
  | refl => exact filled
  | tail _ last ih => exact ih.act last

/-- An empty buffer may be met, or there is none. -/
def Meets (S : AssertSite → Prop) (w : World) : Prop := (S .pullupCount ∧ S .pollCount) ∨ w.Filled

theorem Meets.quiets (meets : Meets S w) (moved : Quiets w w') : Meets S w' :=
  meets.imp_right fun filled => filled.quiets moved

theorem takeBuffer_asserts (w : World) (mbuf : Mbuf) : Asserts S (ioMbufTakeBuffer w mbuf) := by
  unfold ioMbufTakeBuffer
  split
  · exact asserts_ok _
  · exact asserts_at fun _ _ => asserts_ok _

theorem mbufFree_asserts (w : World) (mbuf : Mbuf) : Asserts S (ioMbufFree w mbuf) :=
  (takeBuffer_asserts w mbuf).bind fun _ _ => asserts_ok _

theorem pullup_asserts (meets : Meets S w) : Asserts S (ioEndpointPullup w ep) := by
  refine asserts_at fun self found => ?_
  cases buffer : self.wbuf with
  | some bp =>
    by_cases empty : bp.count = 0
    · simp only [empty, if_true]
      rcases meets with permitted | filled
      · exact asserts_fails permitted.1
      · exact absurd empty ((filled ep self found).wbuf bp buffer)
    · simp only [empty, if_false]
      exact asserts_ok _
  | none =>
    cases self.wqueue with
    | nil => exact asserts_ok _
    | cons mbuf rest => exact (takeBuffer_asserts w mbuf).bind fun _ _ => asserts_ok _

theorem discardQueue_asserts (w : World) (ep : Addr) (queue : List Mbuf) : Asserts S (discardQueue w ep queue) := by
  induction queue generalizing w with
  | nil => exact asserts_ok _
  | cons mbuf rest ih => exact (mbufFree_asserts _ mbuf).bind fun middle _ => ih middle

theorem writeQueueDiscard_asserts (w : World) (ep : Addr) : Asserts S (ioEndpointWriteQueueDiscard w ep) :=
  asserts_at fun self _ => discardQueue_asserts _ ep self.wqueue

theorem shutdownRead_asserts (w : World) (ep : Addr) : Asserts S (shutdownRead w ep) := by
  refine asserts_at fun self _ => ?_
  split
  · exact asserts_ok _
  · exact asserts_ok _

theorem shutdownWrite_asserts (meets : Meets S w) : Asserts S (shutdownWrite w ep) := by
  refine asserts_at fun self _ => ?_
  split
  · exact asserts_ok _
  · refine (pullup_asserts meets).bind fun ⟨pending, middle⟩ _ => ?_
    dsimp only
    split
    · exact (writeQueueDiscard_asserts middle ep).bind fun _ _ => asserts_ok _
    · exact asserts_ok _

theorem buryDead_asserts (w : World) (ep : Addr) : Asserts S (buryDead w ep) := by
  refine asserts_at fun self _ => ?_
  split
  · exact asserts_ok _
  · exact asserts_ok _

theorem shutdown_rd_asserts (w : World) (ep : Addr) : Asserts S (ioEndpointShutdown w ep .rd) :=
  (shutdownRead_asserts w ep).bind fun middle _ => buryDead_asserts middle ep

theorem shutdown_asserts (meets : Meets S w) (how : How) : Asserts S (ioEndpointShutdown w ep how) := by
  cases how with
  | rd => exact shutdown_rd_asserts w ep
  | wr => exact (shutdownWrite_asserts meets).bind fun middle _ => buryDead_asserts middle ep
  | rdwr =>
    refine (shutdownRead_asserts w ep).bind fun middle read => ?_
    refine (shutdownWrite_asserts ?_).bind fun last _ => buryDead_asserts last ep
    obtain ⟨self, _, ⟨_, rfl⟩ | ⟨fd, _, rfl⟩⟩ := shutdownRead_ok read
    · exact meets
    · exact meets.imp_right fun filled => filled.shutRead fd

theorem halfclose_asserts (meets : Meets S w) : Asserts S (ioEndpointHalfclose w ep) := by
  have marked : Meets S (w.modify ep fun self => { self with shutdownWrite := true }) :=
    meets.imp_right fun filled => filled.modify fun _ here => here.drop (.inl rfl) (.inl rfl)
  refine asserts_at fun _ _ => (pullup_asserts marked).bind fun ⟨pending, middle⟩ pulled => ?_
  exact shutdown_asserts (marked.quiets (pullup_pulled pulled).quiets) _

theorem detachSink_asserts (meets : Meets S w) (sink : Addr) : Asserts S (detachSink w ep sink) := by
  refine asserts_at fun other _ => ?_
  split
  · exact (shutdown_asserts meets .rdwr).bind fun _ _ => asserts_ok _
  · exact asserts_ok _

theorem free_asserts (meets : Meets S w) : Asserts S (ioEndpointFree w ep) := by
  refine asserts_at fun _ _ => (writeQueueDiscard_asserts _ ep).bind fun middle dropped => ?_
  obtain ⟨self, found, rfl⟩ := writeQueueDiscard_ok dropped
  have emptied : Meets S ((w.clear ep).discard ep self.wqueue) := meets.imp_right fun filled => filled.clear.discard found
  refine asserts_at fun left _ => ?_
  dsimp only
  split
  · exact asserts_ok _
  · exact (detachSink_asserts emptied _).bind fun _ _ => asserts_ok _

theorem purgeGarbage_asserts (meets : Meets S w) : Asserts S (purgeMembers w t .garbageList members) := by
  induction members generalizing w with
  | nil => exact asserts_ok _
  | cons cur rest ih =>
    refine asserts_at fun self found => ?_
    split
    · rename_i dead
      have dropped : Meets S (w.modifyXprt t fun xprt => PurgeFrom.garbageList.drop cur xprt) :=
        meets.imp_right fun filled => filled.same (heap_modifyXprt _ _ _)
      refine (free_asserts dropped).bind fun middle freed => ih ?_
      exact meets.imp_right fun filled =>
        filled.acts (freeDead_acts (fun _ => trivial) found dead freed)
    · exact ih meets

theorem transportPurge_asserts (lists : w.Lists) (meets : Meets S w) : Asserts S (ioTransportPurge w t) := by
  rw [ioTransportPurge_eq lists]
  refine (purgeGarbage_asserts meets).bind fun middle purged => ?_
  rw [purge_multiplex (lists.acts (purgeGarbage_acts (G := .free) (fun _ _ _ => trivial) purged))]
  exact asserts_ok _

theorem endpointNew_asserts (w : World) (t : Side) (channel : UInt32) (rfd wfd : Fd)
    (connected : Bool) (ep : Addr) : Asserts S (ioEndpointNew w t channel rfd wfd connected ep) := by
  unfold ioEndpointNew
  split
  · exact asserts_fatal _
  · exact asserts_ok _

theorem connector_asserts (ops : TransportOps) (w : World) (t : Side) (channel : UInt32)
    (sys : Syscalls) : Asserts S (ops.connector w t channel sys) := by
  cases ops with
  | unix =>
    simp only [TransportOps.connector, ioEndpointSocketNew]
    split
    · exact asserts_fatal _
    · exact (endpointNew_asserts _ _ _ _ _ _ _).bind fun _ _ => asserts_ok _
  | serial =>
    simp only [TransportOps.connector, ioEndpointSerialNew]
    split
    · exact asserts_fatal _
    · exact (endpointNew_asserts _ _ _ _ _ _ _).bind fun _ _ => asserts_ok _
  | stdio =>
    simp only [TransportOps.connector, ioEndpointPipeNew]
    split
    · exact asserts_ok _
    · exact (endpointNew_asserts _ _ _ _ _ _ _).bind fun _ _ => asserts_ok _
    · exact (endpointNew_asserts _ _ _ _ _ _ _).bind fun _ _ => asserts_ok _

/-- Only sockets put connecting off. -/
theorem connectFinish_asserts (unix : ∀ self, w.heap.cells ep = some self →
    self.connected = true ∨ (w.xprt t).ops = .unix) : Asserts S (ioTransportConnectFinish w t ep sys) := by
  refine asserts_at fun self found => ?_
  split
  · exact asserts_ok _
  · rename_i late
    rw [(unix self found).resolve_left late]
    simp only
    split
    · exact asserts_ok _
    · exact asserts_ok _

theorem connectChannel_asserts (meets : Meets S w) (now : Bool) :
    Asserts S (ioTransportConnectChannel w t channel now sys) := by
  refine (connector_asserts _ _ _ _ _).bind fun ⟨created, middle⟩ connected => ?_
  obtain ⟨rfl, _⟩ | ⟨raw, next, _, rfl, rfl, _, fresh, _, _, rfl⟩ := connector_ok connected
  · exact asserts_ok _
  · simp only [type_spawn, spawn_modify]
    refine asserts_at fun self found => ?_
    split
    · refine Asserts.bind ?_ fun ⟨success, after⟩ finished => ?_
      · refine connectFinish_asserts fun other cell => ?_
        rw [cells_spawn, if_pos rfl] at cell
        cases cell
        rw [ops_spawn]
        exact fresh.connected
      · split
        · exact asserts_ok _
        · rename_i failed
          obtain ⟨_, rfl⟩ | ⟨succeeded, _⟩ := connectFinish_ok finished
          · refine (free_asserts ?_).bind fun _ _ => asserts_ok _
            exact meets.imp_right fun filled => filled.spawn fresh.filled
          · exact absurd succeeded failed
    · exact asserts_ok _

theorem acceptor_asserts (permitted : S .acceptFd) (ops : TransportOps) (w : World) (t : Side)
    (channel : UInt32) (listenFd : Fd) (sys : Syscalls) : Asserts S (ops.acceptor w t channel listenFd sys) := by
  unfold TransportOps.acceptor
  split
  · unfold ioEndpointSocketAccept
    split
    · exact asserts_fails permitted
    · split
      · exact asserts_ok _
      · exact (endpointNew_asserts _ _ _ _ _ _ _).bind fun _ _ => asserts_ok _
  · exact asserts_null

theorem transportAccept_asserts (permitted : S .acceptFd) : Asserts S (ioTransportAccept w t listenFd sys) := by
  refine (acceptor_asserts permitted _ _ _ _ _ _).bind fun ⟨accepted, middle⟩ _ => ?_
  dsimp only
  split
  · exact asserts_ok _
  · exact asserts_ok _

theorem Linked.back (linked : Linked w sink self w')
    (found : w'.heap.cells a = some new) : ∃ old, w.heap.cells a = some old ∧ new.rxCredit = old.rxCredit := by
  cases linked with
  | already => exact ⟨new, found, rfl⟩
  | now =>
    rw [World.connect, cells_modify] at found
    obtain ⟨old, before, rfl⟩ := Option.map_eq_some_iff.mp found
    refine ⟨old, before, ?_⟩
    split
    · rfl
    · rfl

/-- The source of a message may run out of credit, or can pay for it. -/
def Pays (S : AssertSite → Prop) (w : World) (mbuf : Mbuf) : Prop :=
  S .queueWriteCredit ∨ ∀ source payer, mbuf.source = some source →
    w.heap.cells source = some payer → mbuf.credit ≤ payer.rxCredit

theorem charge_asserts (pays : Pays S w mbuf) (linked : Linked w sink self middle) : Asserts S (do
      let w ← match mbuf.source with
        | none => .ok middle
        | some source => do
          let origin ← middle.deref source
          if mbuf.credit ≤ origin.rxCredit then
            .ok (middle.modify source fun origin =>
              { origin with rxCredit := origin.rxCredit - mbuf.credit })
          else .error (.assertion .queueWriteCredit)
      let w := w.modify sink fun self => { self with wqueue := self.wqueue ++ [mbuf] }
      (.ok (w.emit (.queued sink mbuf.bytes)) : Except Fault World)) := by
  cases origin : mbuf.source with
  | none => exact asserts_ok _
  | some source =>
    refine asserts_at fun payer cell => ?_
    split
    · exact asserts_ok _
    · rename_i poor
      rcases pays with permitted | enough
      · exact asserts_fails permitted
      · obtain ⟨old, before, same⟩ := linked.back cell
        rw [same] at poor
        exact absurd (enough source old origin before) poor

theorem queueWrite_asserts (sound : w.Sound) (pays : Pays S w mbuf) :
    Asserts S (ioEndpointQueueWrite w sink mbuf sys) := by
  refine asserts_at fun self found => ?_
  cases connected : self.connected with
  | true =>
    simp only [if_true]
    exact charge_asserts pays (.already connected)
  | false =>
    simp only [Bool.false_eq_true, if_false]
    refine Asserts.bind ?_ fun result finished => ?_
    · refine connectFinish_asserts fun other cell => ?_
      cases found.symm.trans cell
      exact (sound sink self found).connected
    · obtain ⟨success, middle⟩ := result
      obtain ⟨rfl, rfl⟩ | ⟨rfl, rfl⟩ := connectFinish_ok finished
      · exact asserts_fatal _
      · exact charge_asserts pays (.now connected)

theorem pays_free (free : mbuf.source = none) : Pays S w mbuf := by
  refine .inr fun source payer paid => ?_
  cases free.symm.trans paid

theorem bufsiz_asserts (permitted : S .recvBufsizCredit ∨ self.rxCredit ≠ 0) : Asserts S (proxyRecvBufsiz self sys) := by
  unfold proxyRecvBufsiz
  split
  · rename_i broke
    rcases permitted with here | rich
    · exact asserts_fails here
    · exact absurd broke rich
  · exact asserts_ok _

theorem copy_room (rcount : Nat) : (NiBuffer.new rcount).tailroom ≤ rcount :=
  Nat.le_trans (NiBuffer.tailroom_le _) (by simp [NiBuffer.new])

theorem mux_room (rcount : Nat) : (muxBuffer rcount).tailroom ≤ rcount :=
  Nat.le_trans (NiBuffer.tailroom_le _) (by simp [muxBuffer_eq, NiBuffer.new])

theorem recvCopy_asserts (sound : w.Sound) (permitted : S .recvBufsizCredit)
    (aside : S .recvCopySink) : Asserts S (proxyRecvCopy w ep sys) := by
  refine asserts_at fun self found => ?_
  refine (bufsiz_asserts (.inl permitted)).bind fun rcount granted => ?_
  split
  · exact asserts_fails aside
  · rename_i sink _
    simp only
    split
    · exact asserts_ok _
    · exact asserts_at fun _ _ => shutdown_rd_asserts _ ep
    · rename_i bytes some' answer
      obtain ⟨small, funded⟩ := bufsiz_ok granted
      have short := read_ok answer
      obtain ⟨fits, filled⟩ := copy_buffer small short
      refine queueWrite_asserts (w := w.emit _) sound (.inr fun source payer paid cell => ?_)
      cases paid
      cases found.symm.trans cell
      have credit : ((NiBuffer.new rcount).fill bytes).count = bytes.length := by
        rw [fits.count_eq, filled]
      calc ((NiBuffer.new rcount).fill bytes).count = bytes.length := credit
        _ ≤ rcount := Nat.le_trans short (copy_room rcount)
        _ ≤ self.rxCredit := funded

theorem recvMux_asserts (sound : w.Sound) (permitted : S .recvBufsizCredit)
    (aside : S .recvMuxSink ∧ S .recvMuxChannel) : Asserts S (proxyRecvMux w ep sys) := by
  refine asserts_at fun self found => ?_
  refine (bufsiz_asserts (.inl permitted)).bind fun rcount granted => ?_
  split
  · exact asserts_fails aside.1
  · rename_i sink _
    split
    · exact asserts_fails aside.2
    · dsimp only
      split
      · exact asserts_ok _
      · exact (queueWrite_asserts sound (pays_free rfl)).bind fun middle _ =>
          shutdown_rd_asserts middle ep
      · rename_i bytes some' answer
        obtain ⟨small, funded⟩ := bufsiz_ok granted
        have short := read_ok answer
        obtain ⟨counted, out, built, fits, contents⟩ := mux_buffer self.channelId small short
        rw [muxBuffer] at built
        rw [built]
        refine queueWrite_asserts (w := w.emit _) sound (.inr fun source payer paid cell => ?_)
        cases paid
        cases found.symm.trans cell
        calc ((muxBuffer rcount).fill bytes).count = bytes.length := counted
          _ ≤ rcount := Nat.le_trans short (mux_room rcount)
          _ ≤ self.rxCredit := funded

theorem halfcloseAll_asserts {members : List Addr} (meets : Meets S w) : Asserts S (halfcloseAll w t members) := by
  induction members generalizing w with
  | nil => exact asserts_ok _
  | cons other rest ih =>
    refine (halfclose_asserts meets).bind fun middle closed => ?_
    split
    · obtain ⟨_, _, quiets⟩ := halfclose_ok closed
      have marked : Meets S (w.modify other fun self => { self with shutdownWrite := true }) :=
        meets.imp_right fun filled => filled.modify fun _ here => here.drop (.inl rfl) (.inl rfl)
      exact ih (marked.quiets quiets)
    · exact asserts_ok _

/-- Carrying out a packet fails at most where its payload is charged. -/
theorem demuxPacket_asserts {source : Addr} (sound : w.Sound) (meets : Meets S w)
    (arrived : Arrived G w source self bp sys)
    (pays : (packetHeader bp).cmd = channelData →
      (proxyChannelById w self.transport.other (packetHeader bp).channel).isSome →
        S .queueWriteCredit ∨ (packetPayload bp).count ≤ self.rxCredit) :
    Asserts S (proxyDemuxPacket w source bp sys) := by
  refine asserts_at fun same found => ?_
  cases arrived.found.symm.trans found
  have told : Meets S (w.emit (.dispatched source bp.contents)) := meets
  simp only [pullHead_packet arrived.fits arrived.complete, header_payload arrived.fits arrived.complete]
  split
  · refine (connectChannel_asserts told true).bind fun ⟨created, middle⟩ _ => ?_
    simp only
    split
    · exact asserts_fatal _
    · exact asserts_ok _
  · split
    · exact asserts_ok _
    · rename_i sink member
      split
      · exact halfclose_asserts told
      · split
        · rename_i data
          refine queueWrite_asserts (w := (w.emit _).emit _) sound ?_
          have known : proxyChannelById w self.transport.other (packetHeader bp).channel = some sink := member
          refine (pays data (by rw [known]; rfl)).imp_right fun enough origin payer paid cell => ?_
          cases paid
          cases arrived.found.symm.trans cell
          exact enough
        · exact asserts_ok _

/-- What a call of `proxy_recv_demux` may find wrong with the bytes that arrive. -/
structure Arrives (S : AssertSite → Prop) (w : World) (ep : Addr) (owner : Endpoint) (rcount : Nat)
    (sys : Syscalls) : Prop where
  overrun : (demuxRead owner rcount sys).reason = .overrun → S .recvDemuxAvail
  pays : (demuxRead owner rcount sys).reason = .packet →
    (packetHeader (demuxRead owner rcount sys).bp).cmd = channelData →
      (proxyChannelById (w.receive ep (demuxRead owner rcount sys).bp
        (demuxRead owner rcount sys).received) owner.transport.other
        (packetHeader (demuxRead owner rcount sys).bp).channel).isSome →
          S .queueWriteCredit ∨
            (packetPayload (demuxRead owner rcount sys).bp).count ≤ owner.rxCredit

theorem recvDemux_asserts (shape : w.Shape) (meets : Meets S w) (found : w.heap.cells ep = some self)
    (handler : (w.xprt self.transport).dataAvailable = .recvDemux) (funded : S .recvBufsizCredit ∨ self.rxCredit ≠ 0)
    (arrives : ∀ rcount, proxyRecvBufsiz self sys = .ok rcount → Arrives S w ep self rcount sys) :
    Asserts S (proxyRecvDemux w ep sys) := by
  cases granted : proxyRecvBufsiz self sys with
  | error fault =>
    have stopped : proxyRecvDemux w ep sys = .error fault :=
      bind_error.mpr (.inr ⟨self, deref_ok.mpr found, bind_error.mpr (.inl granted)⟩)
    intro site failed
    cases stopped.symm.trans failed
    exact bufsiz_asserts funded site granted
  | ok rcount =>
    rw [recvDemux_eq found granted]
    have here := arrives rcount granted
    have received : Meets S (w.receive ep (demuxRead self rcount sys).bp (demuxRead self rcount sys).received) :=
      meets.imp_right fun filled => World.Filled.same (w := w.modify ep _) (filled.modify
        fun _ kept => kept.drop (.inl rfl) (.inl rfl)) rfl
    have spec := demuxRead_spec (shape.sound ep self found) rcount sys
    have acted : Act .free w (w.receive ep (demuxRead self rcount sys).bp (demuxRead self rcount sys).received) :=
      .receive found handler spec.fits spec.contents trivial
    cases reason : (demuxRead self rcount sys).reason with
    | packet =>
      refine Asserts.bind ?_ fun _ _ => asserts_ok _
      have arrived := demux_arrived (G := .free) shape found handler reason trivial
      exact demuxPacket_asserts (shape.act acted).sound received arrived (here.pays reason)
    | overrun => exact asserts_fails (here.overrun reason)
    | endOfFile =>
      exact (halfcloseAll_asserts received).bind fun middle _ => shutdown_rd_asserts middle ep
    | budgetSpent | readError | partialPacket => exact asserts_ok _

theorem transmit_asserts (meets : Meets S w) : Asserts S (transmit w ep sys) := by
  refine asserts_at fun self _ => ?_
  split
  · exact asserts_null
  · split
    · simp only
      split
      · exact asserts_ok _
      · exact asserts_ok _
    · exact shutdown_asserts meets .wr
    · exact asserts_ok _

/-- What follows the receive handler is the same for all of them. -/
theorem doio_asserts (handled : ∀ self, w.heap.cells ep = some self → self.rfd = some fd → revents.pollin = true →
      Asserts S ((w.xprt self.transport).dataAvailable.handler w ep sys) ∧
        ∀ middle, (w.xprt self.transport).dataAvailable.handler w ep sys = .ok middle → Meets S middle)
    (meets : Meets S w) : Asserts S (ioEndpointDoio w ep fd revents sys) := by
  have rest : ∀ middle, Meets S middle → Asserts S (do
      let self ← middle.deref ep
      let w ← if self.wfd = some fd ∧ revents.pollout = true then transmit middle ep sys
        else .ok middle
      let self ← w.deref ep
      if self.wfd = some fd ∧ revents.pollhup = true then ioEndpointShutdown w ep .wr
        else .ok w) := by
    intro middle meets'
    refine asserts_at fun left cell => ?_
    have last : ∀ after, Meets S after → Asserts S (do
        let self ← after.deref ep
        if self.wfd = some fd ∧ revents.pollhup = true then ioEndpointShutdown after ep .wr
          else .ok after) := by
      intro after meets''
      refine asserts_at fun _ _ => ?_
      split
      · exact shutdown_asserts meets'' .wr
      · exact asserts_ok _
    split
    · rename_i ready
      refine (transmit_asserts meets').bind fun after sent => last after ?_
      have acted : Acts .filling middle after := transmit_acts cell (by simp [ready.1]) sent
      exact meets'.imp_right fun filled => filled.acts acted
    · exact last middle meets'
  refine asserts_at fun self found => ?_
  split
  · rename_i ready
    obtain ⟨here, later⟩ := handled self found ready.1 ready.2
    exact here.bind fun middle done => rest middle (later middle done)
  · exact rest w meets

theorem poll_asserts (meets : Meets S w) : Asserts S (ioEndpointPoll w ep) := by
  refine asserts_at fun self found => ?_
  split
  · exact asserts_ok _
  · split
    · exact asserts_ok _
    · split
      · rename_i empty
        rcases meets with permitted | filled
        · exact asserts_fails permitted.2
        · obtain ⟨bp, buffer, none'⟩ := (Option.any_eq_true _ _).mp empty
          exact absurd (of_decide_eq_true none') ((filled ep self found).wbuf bp buffer)
      · split
        · simp only
          split
          · exact asserts_ok _
          · exact asserts_ok _
        · exact asserts_ok _

theorem pollAll_asserts (meets : Meets S w) (members : List Addr) : Asserts S (pollAll w members) := by
  induction members with
  | nil => exact asserts_ok _
  | cons ep rest ih => exact (poll_asserts meets).bind fun _ _ => ih.bind fun _ _ => asserts_ok _

theorem pollCollect_asserts (shape : w.Shape) (meets : Meets S w) : Asserts S (ioTransportPollCollect w t) := by
  refine (transportPurge_asserts shape.lists meets).bind fun middle purged => ?_
  refine (pollAll_asserts ?_ _).bind fun _ _ => asserts_ok _
  exact meets.imp_right fun filled =>
    filled.acts (transportPurge_acts shape (fun _ _ _ => trivial) purged)

theorem pollPrepare_asserts (meets : Meets S w) : Asserts S (ioEndpointPollPrepare w ep) := by
  refine asserts_at fun self _ => ?_
  split
  · refine (pullup_asserts meets).bind fun ⟨pending, middle⟩ pulled => ?_
    dsimp only
    split
    · exact shutdown_asserts (meets.quiets (pullup_pulled pulled).quiets) .wr
    · exact asserts_ok _
  · exact asserts_ok _

theorem pollPrepareAll_asserts (meets : Meets S w) : Asserts S (pollPrepareAll w t members) := by
  induction members generalizing w with
  | nil => exact asserts_ok _
  | cons ep rest ih =>
    refine (pollPrepare_asserts meets).bind fun middle prepared => ?_
    split
    · exact ih (meets.imp_right fun filled => filled.acts (pollPrepare_acts prepared))
    · exact asserts_ok _

theorem transportPrepare_asserts (shape : w.Shape) (meets : Meets S w) : Asserts S (ioTransportPollPrepare w t) := by
  have walk : ∀ middle : World, middle.Lists → Meets S middle → Asserts S (do
      let w ← pollPrepareAll middle t (middle.xprt t).epList
      ioEndpointListPurge w t .epList) := by
    intro middle lists meets'
    refine (pollPrepareAll_asserts meets').bind fun after prepared => ?_
    rw [purge_epList (lists.acts (G := .free) (pollPrepareAll_acts prepared))]
    exact asserts_ok _
  unfold ioTransportPollPrepare
  split
  · exact walk w shape.lists meets
  · refine (pollPrepare_asserts meets).bind fun middle prepared => ?_
    have lists := shape.lists.acts (G := .free) (pollPrepare_acts prepared)
    rw [purge_multiplex lists]
    exact walk middle lists (meets.imp_right fun filled => filled.acts (pollPrepare_acts prepared))

theorem acceptMultiplex_asserts (meets : Meets S w) : Asserts S (acceptMultiplex w ep sys) := by
  unfold acceptMultiplex
  split
  · exact asserts_fatal _
  · simp only
    split
    · split
      · exact asserts_ok _
      · exact free_asserts meets
    · exact asserts_ok _

theorem acceptSimplex_asserts (lists : w.Lists) (sound : w.Sound) (meets : Meets S w) :
    Asserts S (acceptSimplex w ep sys) := by
  refine asserts_at fun client _ => ?_
  simp only
  split
  · exact (queueWrite_asserts sound (pays_free rfl)).bind fun _ _ => asserts_ok _
  · refine (connectChannel_asserts meets false).bind fun ⟨created, middle⟩ connected => ?_
    obtain ⟨rfl, _, _, _, rfl⟩ | ⟨_, _, rfl, _, _⟩ := connectChannel_ok lists connected
    · exact free_asserts (meets.imp_right fun filled => filled.same rfl)
    · exact asserts_ok _

theorem downstreamAccept_asserts (shape : w.Shape) (meets : Meets S w)
    (aside : S .acceptFd) : Asserts S (proxyDownstreamAccept w fd revents sys) := by
  unfold proxyDownstreamAccept
  split
  · refine (transportAccept_asserts aside).bind fun ⟨accepted, middle⟩ taken => ?_
    obtain ⟨rfl, _⟩ | ⟨self, rfl, _, absent, fresh, _, rfl, _⟩ := ioTransportAccept_ok taken
    · exact asserts_ok _
    · have spawned : Meets S (w.spawn .downstream sys.acceptedAddr self
          (if (w.xprt .downstream).type = .simplex then (w.xprt .downstream).nextChannelId + 1
            else (w.xprt .downstream).nextChannelId)
          [.created sys.acceptedAddr, .accepted self.channelId]) :=
        meets.imp_right fun filled => filled.spawn fresh.filled
      refine asserts_at fun _ _ => ?_
      split
      · exact acceptMultiplex_asserts spawned
      · exact acceptSimplex_asserts (shape.lists.spawn absent _ self _ _)
          (shape.sound.spawn fresh.sound fresh.transport) spawned
  · exact asserts_ok _

theorem reads_dispatch (doio : info.handler = .endpointDoio) (names : info.ep = some ep) (polled : info.fd = some fd)
    (ready : revents.pollin = true) (found : w.heap.cells ep = some self) (reading : self.rfd = some fd) :
    State.reads ⟨w, .dispatch ((info, revents) :: others)⟩ = some ep := by
  obtain ⟨handler, ep', fd', pollin, pollout⟩ := info
  cases doio
  cases names
  cases polled
  simp [State.reads, ready, found, reading]

theorem demuxes_reads {s : State} (reads : s.reads = some ep) (found : s.world.heap.cells ep = some self) :
    s.demuxes =
      if (s.world.xprt self.transport).dataAvailable = .recvDemux then some ep else none := by
  simp [State.demuxes, reads, found]

/-- Where a step may fail an assertion, and what rules it out elsewhere. -/
structure Allows (S : AssertSite → Prop) (s : State) (sys : Syscalls) : Prop where
  meets : Meets S s.world
  filling : (S .pullupCount ∧ S .pollCount) ∨
    ∀ w ep bp, s.packet sys = some (w, ep, bp) → Guard.filling.frame w ep bp sys
  arrives : ∀ ep self rcount, s.demuxes = some ep → s.world.heap.cells ep = some self →
    proxyRecvBufsiz self sys = .ok rcount → Arrives S s.world ep self rcount sys
  funded : ∀ ep self, s.demuxes = some ep → s.world.heap.cells ep = some self →
    S .recvBufsizCredit ∨ self.rxCredit ≠ 0
  readers : s.demuxes = none → S .recvBufsizCredit
  aside : S .recvCopySink ∧ S .recvMuxSink ∧ S .recvMuxChannel ∧ S .acceptFd

theorem handler_asserts (shape : s.world.Shape)
    (found : s.world.heap.cells ep = some self) (reads : s.reads = some ep) (allows : Allows S s sys) :
    Asserts S ((s.world.xprt self.transport).dataAvailable.handler s.world ep sys) := by
  have demuxes := demuxes_reads reads found
  cases handler : (s.world.xprt self.transport).dataAvailable with
  | recvCopy =>
    rw [handler] at demuxes
    exact recvCopy_asserts shape.sound (allows.readers demuxes) allows.aside.1
  | recvMux =>
    rw [handler] at demuxes
    exact recvMux_asserts shape.sound (allows.readers demuxes) ⟨allows.aside.2.1, allows.aside.2.2.1⟩
  | recvDemux =>
    rw [handler] at demuxes
    exact recvDemux_asserts shape allows.meets found handler (allows.funded ep self demuxes found)
      fun rcount granted => allows.arrives ep self rcount demuxes found granted

theorem step_asserts (shape : s.world.Shape) (allows : Allows S s sys) : Asserts S (step s sys) := by
  obtain ⟨w, phase⟩ := s
  cases phase with
  | prepare t info => exact (transportPrepare_asserts shape allows.meets).bind fun _ _ => asserts_ok _
  | collect t info => exact (pollCollect_asserts shape allows.meets).bind fun _ _ => asserts_ok _
  | poll info =>
    cases info with
    | nil => exact asserts_ok _
    | cons first others =>
      unfold step
      dsimp only
      split
      · exact asserts_ok _
      · exact asserts_ok _
  | dispatch ready =>
    cases ready with
    | nil => exact asserts_ok _
    | cons first others =>
      obtain ⟨info, revents⟩ := first
      refine Asserts.bind ?_ fun _ _ => asserts_ok _
      unfold PollInfo.handle
      split
      · exact downstreamAccept_asserts shape allows.meets allows.aside.2.2.2
      · rename_i ep fd doio some' some''
        split
        · exact asserts_ok _
        · refine doio_asserts (fun self found reading ready => ?_) allows.meets
          have reads : State.reads ⟨w, .dispatch ((info, revents) :: others)⟩ = some ep :=
            reads_dispatch doio some' some'' ready found reading
          refine ⟨handler_asserts shape found reads allows, fun middle done => ?_⟩
          rcases allows.meets with permitted | filled
          · exact .inl permitted
          · refine allows.filling.imp_right fun frames => filled.acts ?_
            exact handler_acts shape found reading (fun _ => trivial) (packet_frames reads frames) done
      · exact asserts_ok _
  | done => exact asserts_ok _

end Testbus.Proxy
