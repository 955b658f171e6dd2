import Testbus.Proxy.HalfClose
import Testbus.Proxy.Lasting

namespace Testbus.Proxy

open Lib World

section Parted

variable {w w' : World} {self : Endpoint}

/-- What was read from a demultiplexing endpoint are the packets that were carried out, and what
it holds. -/
def World.Parted (a : Addr) (w : World) : Prop :=
  (w.heap.cells a = none → heardFrom a w.trace = {}) ∧
    ∀ self, w.heap.cells a = some self → (w.xprt self.transport).dataAvailable = .recvDemux →
      (heardFrom a w.trace).received = (heardFrom a w.trace).dispatched.flatten ++ self.unread ∧
        ∀ packet ∈ (heardFrom a w.trace).dispatched, Whole packet

/-- What a demultiplexing endpoint has not carried out yet is as it should be. -/
def World.Keeps (P : Bytes → Prop) (a : Addr) (w : World) : Prop :=
  ∀ self, w.heap.cells a = some self → (w.xprt self.transport).dataAvailable = .recvDemux →
    P self.unread

theorem unread_blank (blank : self.rbuf = none) : self.unread = [] := by
  rw [Endpoint.unread, blank]
  rfl

theorem World.Parted.present (found : w.heap.cells a = some self)
    (holds : (w.xprt self.transport).dataAvailable = .recvDemux →
      (heardFrom a w.trace).received = (heardFrom a w.trace).dispatched.flatten ++ self.unread ∧
        ∀ packet ∈ (heardFrom a w.trace).dispatched, Whole packet) : w.Parted a := by
  refine ⟨fun gone => absurd (gone.symm.trans found) (by simp), fun same here => ?_⟩
  cases found.symm.trans here
  exact holds

theorem World.Parted.act (parted : w.Parted a) (acted : Act (.sparing a) w w') : w'.Parted a := by
  obtain ⟨silent, split⟩ := parted
  have setup (t : Side) : (w'.xprt t).dataAvailable = (w.xprt t).dataAvailable := (acted.setup t).dataAvailable
  cases acted.heeds fun _ _ other => other with
  | spares spares =>
    cases cell : w.heap.cells a with
    | none =>
      have silent' := spares.silent cell (silent cell)
      refine ⟨fun _ => silent', fun new found _ => ?_⟩
      rw [silent', unread_blank (spares.born cell new found)]
      exact ⟨rfl, List.forall_mem_nil _⟩
    | some old =>
      obtain ⟨⟨new, found, ages, kept⟩, -⟩ := spares.present old cell
      refine .present found fun demux => ?_
      rw [setup, ages.transport] at demux
      rw [spares.heard cell, Endpoint.unread, kept]
      exact split old cell demux
  | @copies _ old found other lasts =>
    obtain ⟨⟨new, found', ages⟩, -⟩ := lasts old found
    refine .present found' fun demux => ?_
    rw [setup, ages.transport] at demux
    exact absurd demux other
  | @receive self bp bytes found contents =>
    have cell := cells_receive w a bp bytes a
    rw [found, Option.map_some, if_pos rfl] at cell
    refine .present cell fun demux => ?_
    obtain ⟨received, whole⟩ := split self found demux
    have heard : heardFrom a (w.receive a bp bytes).trace =
        { heardFrom a w.trace with received := (heardFrom a w.trace).received ++ bytes } :=
      (heardFrom_append a w.trace [.received a bytes]).trans (if_pos rfl)
    have held : Endpoint.unread { self with rbuf := some bp } = self.unread ++ bytes := contents
    rw [heard, held]
    refine ⟨?_, whole⟩
    rw [received, List.append_assoc]
  | @dispatches _ self bp _ dispatches =>
    obtain ⟨⟨new, found', ages⟩, -⟩ := dispatches.lasts self dispatches.found
    refine .present found' fun demux => ?_
    rw [setup, ages.transport] at demux
    obtain ⟨received, whole⟩ := split self dispatches.found demux
    have heard : heardFrom a w'.trace = { heardFrom a w.trace with
        dispatched := (heardFrom a w.trace).dispatched ++ [bp.contents] } := dispatches.heard.trans (if_pos rfl)
    have held : self.unread = bp.contents := by rw [Endpoint.unread, dispatches.buffer]; rfl
    rw [heard, unread_blank (dispatches.cleared new found')]
    constructor
    · simp [received, held]
    · intro packet member
      rcases List.mem_append.mp member with old | last
      · exact whole packet old
      · rw [List.mem_singleton.mp last]
        exact dispatches.whole

/-- Every other endpoint may be read from and freed. -/
def Guard.passing (a : Addr) : Guard where
  accept _ _ := True
  receive _ ep := ep ≠ a
  frame _ ep _ _ := ep ≠ a
  release _ ep := ep ≠ a

/-- What a demultiplexing endpoint holds stays there while only others are read from. -/
theorem Act.holds {old : Endpoint} (acted : Act (.passing a) w w') (found : w.heap.cells a = some old) :
    ∃ new, w'.heap.cells a = some new ∧ new.transport = old.transport ∧
      ((w.xprt old.transport).dataAvailable = .recvDemux → new.rbuf = old.rbuf) := by
  cases acted.heeds fun _ _ other => other with
  | spares spares =>
    obtain ⟨⟨new, found', ages, kept⟩, -⟩ := spares.present old found
    exact ⟨new, found', ages.transport, fun _ => kept⟩
  | @copies _ same found' other lasts =>
    cases found.symm.trans found'
    obtain ⟨⟨new, cell, ages⟩, -⟩ := lasts old found
    exact ⟨new, cell, ages.transport, fun demux => absurd demux other⟩
  | receive _ _ allowed => exact absurd rfl allowed
  | dispatches _ allowed => exact absurd rfl allowed

theorem Acts.holds {old : Endpoint} (acted : Acts (.passing a) w w') (found : w.heap.cells a = some old)
    (demux : (w.xprt old.transport).dataAvailable = .recvDemux) :
    ∃ new, w'.heap.cells a = some new ∧ new.transport = old.transport ∧ new.rbuf = old.rbuf := by
  induction acted with
  | refl => exact ⟨old, found, rfl, rfl⟩
  | tail before last ih =>
    obtain ⟨middle, cell, side, kept⟩ := ih
    obtain ⟨new, cell', side', kept'⟩ := last.holds cell
    refine ⟨new, cell', side'.trans side, (kept' ?_).trans kept⟩
    rw [side, (Acts.setup before _).dataAvailable, demux]

theorem Act.born (acted : Act (.passing a) w w') (gone : w.heap.cells a = none)
    (found : w'.heap.cells a = some new) : new.rbuf = none := by
  cases acted.heeds fun _ _ other => other with
  | spares spares => exact spares.born gone new found
  | copies found' => cases gone.symm.trans found'
  | receive _ _ allowed => exact absurd rfl allowed
  | dispatches _ allowed => exact absurd rfl allowed

theorem World.Keeps.act (blank : P []) (keeps : w.Keeps P a) (acted : Act (.passing a) w w') : w'.Keeps P a := by
  intro new found demux
  cases cell : w.heap.cells a with
  | none =>
    rw [unread_blank (acted.born cell found)]
    exact blank
  | some old =>
    obtain ⟨same, found', side, kept⟩ := acted.holds cell
    cases found'.symm.trans found
    rw [(acted.setup _).dataAvailable, side] at demux
    rw [Endpoint.unread, kept demux]
    exact keeps old cell demux

end Parted

section Runs

variable {self : Endpoint} {t : Side} {sys : Syscalls} {s s' : State}
  {upstream downstream : TransportKind} {P : Bytes → Prop}

theorem World.Keeps.acts (blank : P []) (keeps : w.Keeps P a) (acted : Acts (.passing a) w w') : w'.Keeps P a := by
  induction acted with
  | refl => exact keeps
  | tail _ last ih => exact ih.act blank last

theorem World.Parted.acts (parted : w.Parted a) (acted : Acts (.sparing a) w w') : w'.Parted a := by
  induction acted with
  | refl => exact parted
  | tail _ last ih => exact ih.act last

/-- An endpoint that was freed has not received anything. -/
theorem heardFrom_release (w : World) (a : Addr) (t : Side) : heardFrom a (w.release a t).trace = {} := by
  rw [trace_release, heardFrom_append]
  exact if_pos rfl

/-- What others may do keeps, and what holds of an endpoint that is not there, holds after the
garbage list is purged. -/
theorem purgeGarbage_keeps {P : World → Prop} {members : List Addr}
    (kept : ∀ w w', P w → (∀ G : Guard, (∀ w ep, ep ≠ a → G.release w ep) → Acts G w w') → P w')
    (gone : ∀ w, w.heap.cells a = none → heardFrom a w.trace = {} → P w) (holds : P w)
    (purged : purgeMembers w t .garbageList members = .ok w') : P w' := by
  induction members generalizing w with
  | nil =>
    cases purged
    exact holds
  | cons cur rest ih =>
    obtain ⟨self, dereffed, purged⟩ := bind_ok.mp purged
    split at purged
    · rename_i dead
      obtain ⟨middle, freed, later⟩ := bind_ok.mp purged
      refine ih ?_ later
      by_cases here : cur = a
      · subst here
        obtain ⟨_, emptied, _, _, rfl⟩ := free_ok freed
        refine gone _ ?_ (heardFrom_release _ _ _)
        rw [cells_release, if_pos rfl]
      · refine kept w middle holds fun G allowed => ?_
        exact freeDead_acts (fun w => allowed w cur here) (deref_ok.mp dereffed) dead freed
    · exact ih holds purged

theorem collect_keeps {P : World → Prop} {info : List PollInfo} (shape : s.world.Shape)
    (phase : s.phase = .collect t info)
    (kept : ∀ w w', P w → (∀ G : Guard, (∀ w ep, ep ≠ a → G.release w ep) → Acts G w w') → P w')
    (gone : ∀ w, w.heap.cells a = none → heardFrom a w.trace = {} → P w) (holds : P s.world)
    (moved : step s sys = .ok s') : P s'.world := by
  obtain ⟨w, phase'⟩ := s
  cases phase
  obtain ⟨⟨after, more⟩, collected, rest⟩ := bind_ok.mp moved
  cases rest
  have garbage := transportPurge_garbage shape.lists (pollCollect_purge collected)
  exact purgeGarbage_keeps kept gone holds garbage

theorem World.Parted.step (shape : s.world.Shape) (parted : s.world.Parted a)
    (moved : step s sys = .ok s') : s'.world.Parted a := by
  by_cases purging : ∃ t info, s.phase = .collect t info
  · obtain ⟨t, info, phase⟩ := purging
    refine collect_keeps (P := World.Parted a) (a := a) shape phase ?_ ?_ parted moved
    · intro w w' parted acted
      exact parted.acts (acted _ fun _ _ other => other)
    · intro w absent silent
      exact ⟨fun _ => silent, fun self found => absurd (absent.symm.trans found) (by simp)⟩
  · refine parted.acts (step_acts shape ?_ moved)
    exact ⟨fun _ _ => trivial, fun _ _ => trivial, fun _ _ _ _ => trivial,
      fun t info phase => absurd ⟨t, info, phase⟩ purging, fun _ => trivial⟩

/-- The call reads its budget exactly up to the end of a frame, and returns without looking. -/
def State.lands (s : State) (sys : Syscalls) : Bool :=
  (do
    let ep ← s.demuxes
    let self ← s.world.heap.cells ep
    let rcount ← (proxyRecvBufsiz self sys).toOption
    some (Proxy.lands rcount self.unread sys.reads)).getD false

theorem packet_fits {xprt : Transport} (sound : self.Sound xprt) :
    (self.rbuf.getD (NiBuffer.new (4096 + dataHeaderSize))).Fits ∧
      (self.rbuf.getD (NiBuffer.new (4096 + dataHeaderSize))).contents = self.unread := by
  cases blank : self.rbuf with
  | none =>
    exact ⟨⟨NiBuffer.wellFormed_new _, by simp⟩, by simp [Endpoint.unread, blank]⟩
  | some bp => exact ⟨sound.rbuf bp blank, by simp [Endpoint.unread, blank]⟩

theorem packet_some {bp : NiBuffer} (packet : s.packet sys = some (w, ep, bp)) :
    ∃ self rcount, s.demuxes = some ep ∧ s.world.heap.cells ep = some self ∧
      proxyRecvBufsiz self sys = .ok rcount ∧ (demuxRead self rcount sys).reason = .packet ∧
      w = s.world.receive ep (demuxRead self rcount sys).bp (demuxRead self rcount sys).received ∧
      bp = (demuxRead self rcount sys).bp := by
  simp only [State.packet, Option.bind_eq_bind, Option.bind_eq_some_iff] at packet
  obtain ⟨a, demuxes, self, found, rcount, granted, rest⟩ := packet
  split at rest
  · rename_i reason
    cases rest
    cases budget : proxyRecvBufsiz self sys with
    | error fault => simp [budget, Except.toOption] at granted
    | ok count =>
      obtain rfl : count = rcount := by simpa [budget, Except.toOption] using granted
      exact ⟨self, count, demuxes, found, budget, reason, rfl, rfl⟩
  · cases rest

/-- What a call leaves in its buffer is no complete frame, unless it lands on one. -/
theorem demuxRead_unfinished {xprt : Transport} {rcount : Nat} (sound : self.Sound xprt)
    (unfinished : packets.Unfinished self.unread) (spared : Proxy.lands rcount self.unread sys.reads = false)
    (reason : (demuxRead self rcount sys).reason ≠ .packet) :
    packets.Unfinished (demuxRead self rcount sys).bp.contents := by
  obtain ⟨fits, contents⟩ := packet_fits sound
  rw [← contents] at unfinished spared
  have within := loop_within rcount [] sys.reads fits (within_of_unfinished unfinished)
  refine within.unfinished fun whole => ?_
  have landed := (loop_lands [] fits).mp ⟨reason, whole⟩
  rw [spared] at landed
  cases landed

/-- A step that reads nothing from an endpoint keeps what others may not change, as far as the
endpoint is there. -/
theorem step_passing (Inv : World → Prop) (shape : s.world.Shape) (other : s.demuxes ≠ some a)
    (kept : ∀ w w', Inv w → Acts (.passing a) w w' → Inv w')
    (gone : ∀ w, w.heap.cells a = none → Inv w) (holds : Inv s.world) (moved : step s sys = .ok s') : Inv s'.world := by
  by_cases purging : ∃ t info, s.phase = .collect t info
  · obtain ⟨t, info, phase⟩ := purging
    refine collect_keeps (P := Inv) (a := a) shape phase ?_ ?_ holds moved
    · intro w w' here acted
      exact kept w w' here (acted _ fun _ _ apart => apart)
    · intro w absent _
      exact gone w absent
  · refine kept _ _ holds (step_acts shape ?_ moved)
    refine ⟨fun _ _ => trivial, fun ep demuxes => ?_, fun w ep bp packet => ?_,
      fun t info phase => absurd ⟨t, info, phase⟩ purging, fun _ => trivial⟩
    · rintro rfl
      exact other demuxes
    · rintro rfl
      obtain ⟨_, _, demuxes, _⟩ := packet_some packet
      exact other demuxes

/-- What every call leaves in its buffer is there after each step. -/
theorem World.Keeps.step (blank : P []) (shape : s.world.Shape) (keeps : s.world.Keeps P a)
    (left : ∀ self rcount, s.demuxes = some a → s.world.heap.cells a = some self →
      P self.unread → proxyRecvBufsiz self sys = .ok rcount →
        (demuxRead self rcount sys).reason ≠ .packet → P (demuxRead self rcount sys).bp.contents)
    (moved : step s sys = .ok s') : s'.world.Keeps P a := by
  by_cases here : s.demuxes = some a
  · obtain ⟨self, middle, found, handler, done, later⟩ := step_demux here moved
    refine World.Keeps.acts blank ?_ (later _)
    obtain ⟨rcount, granted, demuxed⟩ := recvDemux_ok found done
    cases demuxed with
    | packet =>
      intro new cell _
      rw [cells_clear] at cell
      obtain ⟨old, _, rfl⟩ := Option.map_eq_some_iff.mp cell
      rw [unread_blank (if_pos rfl)]
      exact blank
    | kept reason _ between =>
      refine World.Keeps.acts blank ?_ (between _)
      intro new cell _
      rw [cells_receive, found, Option.map_some, if_pos rfl] at cell
      cases cell
      exact left self rcount here found (keeps self found handler) granted reason
  · refine step_passing (World.Keeps P a) shape here ?_ ?_ keeps moved
    · intro w w' keeps acted
      exact keeps.acts blank acted
    · intro w absent self found
      exact absurd (absent.symm.trans found) (by simp)

/-- The frame that a call lands on stays in its endpoint. -/
theorem lands_holds (shape : s.world.Shape) (landed : s.lands sys = true) (moved : step s sys = .ok s') :
    ∃ ep self, s'.world.heap.cells ep = some self ∧
      (s'.world.xprt self.transport).dataAvailable = .recvDemux ∧ Whole self.unread := by
  cases demuxes : s.demuxes with
  | none => simp [State.lands, demuxes] at landed
  | some a =>
    obtain ⟨self, middle, found, handler, done, later⟩ := step_demux demuxes moved
    obtain ⟨rcount, granted, demuxed⟩ := recvDemux_ok found done
    simp only [State.lands, demuxes, found, granted, Except.toOption, Option.bind_eq_bind,
      Option.bind_some, Option.getD_some] at landed
    obtain ⟨fits, contents⟩ := packet_fits (shape.sound a self found)
    rw [← contents] at landed
    obtain ⟨reason, whole⟩ := (loop_lands [] fits).mpr landed
    cases demuxed with
    | packet completed => exact absurd completed reason
    | kept _ _ between =>
      have cell := cells_receive s.world a (demuxRead self rcount sys).bp (demuxRead self rcount sys).received a
      rw [found, Option.map_some, if_pos rfl] at cell
      have acted : Acts (.passing a) _ s'.world := (between _).trans (later _)
      obtain ⟨new, cell', side, kept⟩ := acted.holds cell handler
      refine ⟨a, new, cell', ?_, ?_⟩
      · rw [side, (acted.setup _).dataAvailable]
        exact handler
      · rw [Endpoint.unread, kept]
        exact whole

theorem Started.rbuf (started : Started upstream downstream w) (a : Addr) (self : Endpoint)
    (found : w.heap.cells a = some self) : self.rbuf = none := by
  rcases started.endpoints with ⟨_, _, cells, _⟩ | ⟨own, other, _, _, fresh, _, _, cells, _⟩
  · rw [cells] at found
    cases found
  · rw [cells] at found
    split at found
    · cases found
      exact fresh.rbuf
    · cases found

theorem Started.parted (started : Started upstream downstream w) (a : Addr) : w.Parted a := by
  have silent : heardFrom a w.trace = {} := by
    rcases started.endpoints with ⟨_, _, _, shown⟩ | ⟨_, _, _, _, _, _, _, _, shown⟩
    · rw [shown]
      rfl
    · rw [shown]
      rfl
  refine ⟨fun _ => silent, fun self found _ => ?_⟩
  rw [silent, unread_blank (started.rbuf a self found)]
  exact ⟨rfl, List.forall_mem_nil _⟩

/-- Every complete frame that was received has been carried out, and no other. -/
def State.Prompt (s : State) : Prop :=
  ∀ ep self, s.world.heap.cells ep = some self →
    (s.world.xprt self.transport).dataAvailable = .recvDemux →
      packets.Unfinished self.unread ∧
        (heardFrom ep s.world.trace).dispatched = packets.frames (heardFrom ep s.world.trace).received

theorem prompt_iff (parted : ∀ a, s.world.Parted a) : s.Prompt ↔ ∀ a, s.world.Keeps packets.Unfinished a := by
  constructor
  · intro prompt a self found demux
    exact (prompt a self found demux).1
  · intro awaits ep self found demux
    have unfinished := awaits ep self found demux
    obtain ⟨received, whole⟩ := (parted ep).2 self found demux
    refine ⟨unfinished, ?_⟩
    rw [received]
    exact (Framing.frames_flatten (fun packet member => whole_packets.mp (whole packet member)) unfinished).symm

theorem Started.prompt (started : Started upstream downstream s.world) : s.Prompt := by
  refine (prompt_iff started.parted).mpr fun a self found _ => ?_
  rw [unread_blank (started.rbuf a self found)]
  exact unfinished_nil

/-- In a state that is prompt, the next one is exactly if no call lands on the end of a frame. -/
theorem step_prompt (shape : s.world.Shape) (parted : ∀ a, s.world.Parted a) (prompt : s.Prompt)
    (moved : step s sys = .ok s') : s'.Prompt ↔ s.lands sys = false := by
  have awaits := (prompt_iff parted).mp prompt
  rw [prompt_iff fun a => (parted a).step shape moved]
  constructor
  · intro awaits'
    by_contra landed
    obtain ⟨ep, self, found, handler, whole⟩ := lands_holds shape (Bool.not_eq_false _ ▸ landed) moved
    have complete := whole_packets.mp whole
    exact absurd (awaits' ep self found handler _ complete) (Nat.lt_irrefl _)
  · intro spared a
    refine (awaits a).step unfinished_nil shape (fun self rcount here found unfinished granted => ?_) moved
    refine demuxRead_unfinished (shape.sound a self found) unfinished ?_
    simpa [State.lands, here, found, granted, Except.toOption] using spared

/-- All frames are carried out as soon as they are complete exactly in the runs in which no call
of `proxy_recv_demux` uses its budget up at the end of a frame. -/
theorem recvDemux_prompt {setup : Syscalls} {start final : State} {answers : List Syscalls}
    (done : proxyInit upstream downstream setup = .ok start)
    (ran : Machine.run step start answers = .ok final) :
    Machine.Throughout step State.Prompt start answers ↔
      Machine.Along step (fun s sys => s.lands sys = false) start answers := by
  have started := (proxyInit_ok done).2
  refine Machine.throughout_iff (fun s => s.world.Shape ∧ ∀ a, s.world.Parted a) State.Prompt ?_
    ⟨started.shape, started.parted⟩ started.prompt ran
  rintro s sys next ⟨shape, parted⟩ prompt moved
  refine ⟨⟨shape.acts (step_acts shape (permits_free s sys) moved), fun a => ?_⟩, ?_⟩
  · exact (parted a).step shape moved
  · exact step_prompt shape parted prompt moved

end Runs

/-- A data frame for the first channel. -/
def dataFrame (n : Nat) : Bytes :=
  (DataHeader.mk channelData 1 (UInt32.ofNat n)).bytes ++ List.replicate n 120

/-- The frame comes in after a client was accepted, the header first. -/
def frameRound (n : Nat) : List Syscalls :=
  acceptOne ++ pollRound [{}, { pollin := true }]
    [{}, { reads := [some ((dataFrame n).take dataHeaderSize),
      some ((dataFrame n).drop dataHeaderSize)] }, {}]

theorem recvDemux_prompt_short : ∃ start final,
    proxyInit (.unixMux "up") (.unix "down") connectedUpstream = .ok start ∧
      Machine.run step start (frameRound 5) = .ok final ∧
      Machine.Throughout step State.Prompt start (frameRound 5) := by
  obtain ⟨final, ran, _⟩ := run_some (.unixMux "up") (.unix "down") connectedUpstream (frameRound 5)
    (fun s => (heardFrom 1 s.world.trace).dispatched) [dataFrame 5] (by decide +kernel)
  obtain ⟨start, done, moved⟩ := bind_ok.mp ran
  have evaluated : ((proxyInit (.unixMux "up") (.unix "down") connectedUpstream).toOption.all
      (Machine.checkAlong step (fun s sys => !s.lands sys) · (frameRound 5))) = true := by
    decide +kernel
  rw [done] at evaluated
  have checked : Machine.checkAlong step (fun s sys => !s.lands sys) start (frameRound 5) = true :=
    evaluated
  refine ⟨start, final, done, moved, (recvDemux_prompt done moved).mpr ?_⟩
  exact Machine.along_check (fun s sys spared => by simpa using spared) checked

/-- A frame of 4096 bytes is complete, and left where it is. -/
theorem recvDemux_lags : ¬ ∀ (upstream downstream : TransportKind) (s : State),
    Reachable upstream downstream s → s.Prompt := by
  intro claimed
  obtain ⟨s, ran, view⟩ := run_some (.unixMux "up") (.unix "down") connectedUpstream (frameRound 4084)
    (fun s => (s.world.heap.cells 1).map fun self =>
      (decide (Whole self.unread), (s.world.xprt self.transport).dataAvailable))
    (some (true, .recvDemux)) (by decide +kernel)
  obtain ⟨self, found, held⟩ := Option.map_eq_some_iff.mp view
  obtain ⟨whole, handler⟩ := Prod.mk.inj held
  have complete := whole_packets.mp (of_decide_eq_true whole)
  have unfinished := (claimed _ _ s (reachable_of_run ran) 1 self found handler).1
  exact absurd (unfinished _ complete) (Nat.lt_irrefl _)

/-- However the frames of the peer are cut, the packets that are carried out are the first of them. -/
theorem frames_arrive (reached : Reachable upstream downstream s) (found : s.world.heap.cells a = some self)
    (demux : (s.world.xprt self.transport).dataAvailable = .recvDemux) {sent : List Frame}
    (arrived : (heardFrom a s.world.trace).received <+: (sent.map Frame.bytes).flatten) :
    (heardFrom a s.world.trace).dispatched.map unpack <+: sent.map fun frame => (frame.hdr, frame.payload) := by
  have parted : s.world.Parted a := by
    obtain ⟨setup, start, answers, done, ran⟩ := reached
    have started := (proxyInit_ok done).2
    refine (Machine.invariant_run (fun s => s.world.Shape ∧ s.world.Parted a) ?_
      ⟨started.shape, started.parted a⟩ (Machine.along_true start answers) ran).2
    rintro s sys next ⟨shape, parted⟩ - moved
    exact ⟨shape.acts (step_acts shape (permits_free s sys) moved), parted.step shape moved⟩
  obtain ⟨received, whole⟩ := parted.2 self found demux
  have front := Framing.prefix_of_flatten (fun packet member => whole_packets.mp (whole packet member))
    (List.forall_mem_map.mpr fun frame _ => frame.whole)
    ((List.prefix_append _ _).trans (received ▸ arrived))
  have unpacked : unpack ∘ Frame.bytes = fun frame => (frame.hdr, frame.payload) := funext unpack_bytes
  have read := front.map unpack
  rwa [List.map_map, unpacked] at read

theorem frames_arrive_data : ∃ s, Reachable (.unixMux "up") (.unix "down") s ∧
    (heardFrom 1 s.world.trace).dispatched.map unpack <+: [(⟨channelData, 1, 5⟩, List.replicate 5 120)] := by
  obtain ⟨s, ran, view⟩ := run_some (.unixMux "up") (.unix "down") connectedUpstream (frameRound 5)
    (fun s => ((heardFrom 1 s.world.trace).received,
      (s.world.heap.cells 1).map fun self => (s.world.xprt self.transport).dataAvailable))
    (dataFrame 5, some .recvDemux) (by decide +kernel)
  obtain ⟨received, cell⟩ := Prod.mk.inj view
  obtain ⟨self, found, demux⟩ := Option.map_eq_some_iff.mp cell
  have reached := reachable_of_run ran
  let sent : List Frame := [⟨⟨channelData, 1, 5⟩, List.replicate 5 120, rfl, by decide⟩]
  have arrived : (heardFrom 1 s.world.trace).received <+: (sent.map Frame.bytes).flatten := by
    rw [received]
    exact ⟨[], rfl⟩
  exact ⟨s, reached, frames_arrive reached found demux arrived⟩

end Testbus.Proxy
