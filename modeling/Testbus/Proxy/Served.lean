import Testbus.Proxy.Asserts
import Testbus.Proxy.Solvent

namespace Testbus.Proxy

open Lib World

variable {s s' : State}

/-- A header with a size that ends before the header does. -/
def Malformed (packet : Bytes) : Prop :=
  dataHeaderSize ≤ packet.length ∧ sizeOf packet < dataHeaderSize

instance (packet : Bytes) : Decidable (Malformed packet) := by unfold Malformed; infer_instance

/-- The data that the next step queues to a channel, with the endpoint that pays for it. -/
def State.delivers (s : State) (sys : Syscalls) : Option (Endpoint × NiBuffer) := do
  let (w, ep, bp) ← s.packet sys
  let self ← s.world.heap.cells ep
  if (packetHeader bp).cmd = channelData ∧
      (proxyChannelById w self.transport.other (packetHeader bp).channel).isSome then
    some (self, packetPayload bp)
  else none

/-- The header came with an earlier call, and its payload is more than the credit that is left. -/
def State.overdraws (s : State) (sys : Syscalls) : Bool :=
  (s.delivers sys).any fun (self, _) =>
    decide (dataHeaderSize ≤ self.unread.length ∧ self.rxCredit < sizeOf self.unread - dataHeaderSize)

/-- The data has no payload. -/
def State.voids (s : State) (sys : Syscalls) : Bool :=
  (s.delivers sys).any fun (_, payload) => payload.count = 0

/-- The header that the next step has read is malformed. -/
def State.malforms (s : State) (sys : Syscalls) : Bool :=
  (do
    let ep ← s.demuxes
    let self ← s.world.heap.cells ep
    let rcount ← (proxyRecvBufsiz self sys).toOption
    some (decide (Malformed (demuxRead self rcount sys).bp.contents))).getD false

theorem delivers_eq (demuxes : s.demuxes = some ep) (found : s.world.heap.cells ep = some self)
    (granted : proxyRecvBufsiz self sys = .ok rcount) (reason : (demuxRead self rcount sys).reason = .packet)
    (data : (packetHeader (demuxRead self rcount sys).bp).cmd = channelData)
    (known : (proxyChannelById (s.world.receive ep (demuxRead self rcount sys).bp
      (demuxRead self rcount sys).received) self.transport.other
      (packetHeader (demuxRead self rcount sys).bp).channel).isSome) :
    s.delivers sys = some (self, packetPayload (demuxRead self rcount sys).bp) := by
  have packet : s.packet sys = some (s.world.receive ep (demuxRead self rcount sys).bp
      (demuxRead self rcount sys).received, ep, (demuxRead self rcount sys).bp) := by
    simp [State.packet, demuxes, found, granted, reason, Except.toOption]
  simp [State.delivers, packet, found, data, known]

/-- What a call leaves does not reach beyond the frame. -/
theorem demuxRead_within {xprt : Transport} (sound : self.Sound xprt)
    (within : Within self.unread) : Within (demuxRead self rcount sys).bp.contents := by
  obtain ⟨fits, contents⟩ := packet_fits sound
  exact loop_within rcount [] sys.reads fits (by rw [contents]; exact within)

/-- Only a malformed header makes the loop meet more bytes than the frame has. -/
theorem overrun_malformed {xprt : Transport} (sound : self.Sound xprt)
    (within : Within self.unread) (reason : (demuxRead self rcount sys).reason = .overrun) :
    Malformed (demuxRead self rcount sys).bp.contents := by
  have spec := demuxRead_spec sound rcount sys
  have holds := spec.reason
  rw [reason, ← spec.contents] at holds
  obtain ⟨enough, beyond⟩ := holds
  refine ⟨enough, Nat.lt_of_not_le fun room => ?_⟩
  have inside : Within (demuxRead self rcount sys).bp.contents := demuxRead_within sound within
  exact absurd (inside _ (packets_size.mpr ⟨enough, room, rfl⟩)) (Nat.not_le.mpr beyond)

/-- A payload that is more than the credit was announced by an earlier call. -/
theorem payload_funded {xprt : Transport} (sound : self.Sound xprt)
    (granted : proxyRecvBufsiz self sys = .ok rcount) (reason : (demuxRead self rcount sys).reason = .packet)
    (announced : dataHeaderSize ≤ self.unread.length → sizeOf self.unread - dataHeaderSize ≤ self.rxCredit) :
    (packetPayload (demuxRead self rcount sys).bp).count ≤ self.rxCredit := by
  have spec := demuxRead_spec sound rcount sys
  have holds := spec.reason
  rw [reason] at holds
  obtain ⟨short, enough, size⟩ := holds
  have room : dataHeaderSize ≤ (demuxRead self rcount sys).bp.contents.length := by
    rw [spec.contents]
    exact enough
  have payload : (packetPayload (demuxRead self rcount sys).bp).count =
      (self.unread ++ (demuxRead self rcount sys).received).length - dataHeaderSize := by
    rw [packetPayload, (NiBuffer.fits_pullHead spec.fits room).count_eq,
      NiBuffer.contents_pullHead spec.fits.toWellFormed room, List.length_drop, spec.contents]
  obtain ⟨_, funded⟩ := bufsiz_ok granted
  rw [payload]
  by_cases early : dataHeaderSize ≤ self.unread.length
  · rw [size, sizeOf_append early]
    exact announced early
  · rw [List.length_append]
    omega

/-- Whatever frames are not overdrawn are paid for. -/
theorem arrives_pays (shape : s.world.Shape) (spared : s.overdraws sys = false) (demuxes : s.demuxes = some ep)
    (found : s.world.heap.cells ep = some self) (granted : proxyRecvBufsiz self sys = .ok rcount)
    (overrun : (demuxRead self rcount sys).reason = .overrun → S .recvDemuxAvail) :
    Arrives S s.world ep self rcount sys where
  overrun := overrun
  pays reason data known := by
    refine .inr (payload_funded (shape.sound ep self found) granted reason fun announced => ?_)
    rw [State.overdraws, delivers_eq demuxes found granted reason data known] at spared
    have within := of_decide_eq_false spared
    omega

theorem step_credit (shape : s.world.Shape) (spared : s.overdraws sys = false) :
    step s sys ≠ .error (.assertion .queueWriteCredit) := by
  intro failed
  have allows : Allows (· ≠ .queueWriteCredit) s sys := by
    refine ⟨.inl ⟨by simp, by simp⟩, .inl ⟨by simp, by simp⟩, ?_, fun _ _ _ _ => .inl (by simp),
      fun _ => by simp, by simp⟩
    intro ep self rcount demuxes found granted
    exact arrives_pays shape spared demuxes found granted fun _ => by simp
  exact step_asserts shape allows _ failed rfl

/-- Every message can be paid for in the runs in which no frame is completed that was announced
with more bytes than there is credit left. -/
theorem queueWrite_credit {setup : Syscalls} {start : State} {answers : List Syscalls}
    (done : proxyInit upstream downstream setup = .ok start)
    (along : Machine.Along step (fun s sys => s.overdraws sys = false) start answers) :
    Machine.run step start answers ≠ .error (.assertion .queueWriteCredit) := by
  intro stopped
  have never : ¬ Fault.assertion .queueWriteCredit = .assertion .queueWriteCredit := by
    refine Machine.fault_run (fun s => s.world.Shape) ?_ ?_ (proxyInit_ok done).2.shape along stopped
    · intro s sys next shape _ moved
      exact shape.acts (step_acts shape (permits_free s sys) moved)
    · rintro s sys fault shape spared failed rfl
      exact step_credit shape spared failed
  exact never rfl

/-- The assertions of the demultiplexing and of the write path. -/
def State.Guarded (s : State) : AssertSite → Prop
  | .recvBufsizCredit => s.demuxes.isSome
  | .recvCopySink | .recvMuxSink | .recvMuxChannel | .acceptFd => False
  | .queueWriteCredit | .pullupCount | .pollCount | .recvDemuxAvail | .delayedConnector => True

/-- The frame that the next step reads does no harm. -/
def State.tame (s : State) (sys : Syscalls) : Bool :=
  !s.malforms sys && !s.overdraws sys && !s.voids sys

/-- What holds of the states of a run with tame frames. -/
structure State.Sane (s : State) : Prop where
  shape : s.world.Shape
  tabled : s.Tabled
  solvent : s.Solvent
  filled : s.world.Filled
  within : ∀ a, s.world.Keeps Within a

theorem filling_frame (spared : s.voids sys = false)
    (packet : s.packet sys = some (w, ep, bp)) : Guard.filling.frame w ep bp sys := by
  obtain ⟨self, rcount, demuxes, found, granted, reason, rfl, rfl⟩ := packet_some packet
  intro other cell data known
  rw [cells_receive, found, Option.map_some, if_pos rfl] at cell
  cases cell
  rw [State.voids, delivers_eq demuxes found granted reason data known] at spared
  exact of_decide_eq_false spared

theorem State.Sane.step (sane : s.Sane) (tame : s.tame sys = true) (moved : step s sys = .ok s') : s'.Sane := by
  simp only [State.tame, Bool.and_eq_true, Bool.not_eq_true'] at tame
  have shape := sane.shape
  refine ⟨shape.acts (step_acts shape (permits_free s sys) moved), step_tabled shape sane.tabled moved,
    sane.solvent.step shape sane.tabled moved, ?_, fun a => ?_⟩
  · refine sane.filled.acts (step_acts shape ?_ moved)
    exact ⟨fun _ _ => trivial, fun _ _ => trivial, fun w ep bp => filling_frame tame.2, fun _ _ _ _ _ => trivial,
      fun _ => trivial⟩
  · refine (sane.within a).step (within_short (Nat.zero_le _)) shape ?_ moved
    intro self rcount _ found within _ _
    exact demuxRead_within (shape.sound a self found) within

theorem Started.sane (started : Started upstream downstream w) : (loopTop w).Sane := by
  refine ⟨started.shape, tabled_loopTop w, solvent_loopTop w, ?_, ?_⟩
  · intro a self found
    rcases started.endpoints with ⟨_, _, cells, _⟩ | ⟨own, other, _, _, fresh, _, _, cells, _⟩
    · have here : w.heap.cells a = some self := found
      cases (cells a).symm.trans here
    · have here : w.heap.cells a = some self := found
      rw [cells] at here
      split at here
      · cases here
        exact fresh.filled
      · cases here
  · intro a self found _
    rw [unread_blank (started.rbuf a self found)]
    exact within_short (Nat.zero_le _)

theorem step_serves (sane : s.Sane) (tame : s.tame sys = true) (guarded : s.Guarded site) : step s sys ≠ .error (.assertion site) := by
  simp only [State.tame, Bool.and_eq_true, Bool.not_eq_true'] at tame
  obtain ⟨⟨formed, funded⟩, full⟩ := tame
  intro failed
  have allows : Allows (fun site => ¬ s.Guarded site) s sys := by
    refine ⟨.inr sane.filled, .inr fun w ep bp => filling_frame full, ?_, ?_, ?_, ?_⟩
    · intro ep self rcount demuxes found granted
      refine arrives_pays sane.shape funded demuxes found granted fun reason _ => ?_
      have handler := demuxes_handler demuxes found
      have malformed := overrun_malformed (sane.shape.sound ep self found) (sane.within ep self found handler) reason
      simp [State.malforms, demuxes, found, granted, Except.toOption, malformed] at formed
    · intro ep self demuxes found
      have handler := demuxes_handler demuxes found
      exact .inr (sane.solvent.rich ep (demuxes_reader demuxes) self found handler)
    · intro none' reads
      have some' : s.demuxes.isSome := reads
      simp [none'] at some'
    · exact ⟨id, id, id, id⟩
  exact step_asserts sane.shape allows _ failed guarded

theorem sane_run (reached : RunUnder (fun s sys => s.tame sys = true) upstream downstream s) : s.Sane := by
  obtain ⟨setup, start, answers, done, along, ran⟩ := reached
  obtain ⟨top, started⟩ := proxyInit_ok done
  refine Machine.invariant_run State.Sane ?_ (top ▸ started.sane) along ran
  intro s sys next sane tame moved
  exact sane.step tame moved

/-- As long as the frames of the peer are tame, no assertion on their way stops the proxy. -/
theorem recvDemux_serves {site : AssertSite}
    (reached : RunUnder (fun s sys => s.tame sys = true) upstream downstream s)
    (tame : s.tame sys = true) (guarded : s.Guarded site) :
    step s sys ≠ .error (.assertion site) :=
  step_serves (sane_run reached) tame guarded

/-- A poll round in which the peer's bytes come in as the given chunks. -/
def readRound (chunks : List Bytes) : List Syscalls :=
  pollRound [{}, { pollin := true }] [{}, { reads := chunks.map some }, {}]

/-- The first client is there, and poll has found the peer ready. -/
def polledPeer : List Syscalls :=
  acceptOne ++ List.replicate 4 ({} : Syscalls) ++
    ([{ polls := some [{}, { pollin := true }] }, {}] : List Syscalls)

/-- The site of the assertion that failed. -/
def failedAt : Except Fault State → Option AssertSite
  | .error (.assertion site) => some site
  | _ => none

theorem failedAt_some (failed : failedAt result = some site) : result = .error (.assertion site) := by
  unfold failedAt at failed
  split at failed
  · cases failed
    rfl
  · cases failed

theorem recvDemux_serves_frame : ∃ s sys,
    RunUnder (fun s sys => s.tame sys = true) (.unixMux "up") (.unix "down") s ∧
      s.demuxes = some 1 ∧ s.tame sys = true ∧ step s sys ≠ .error (.assertion .recvDemuxAvail) := by
  let sys : Syscalls := { reads := [some ((dataFrame 5).take dataHeaderSize),
    some ((dataFrame 5).drop dataHeaderSize)] }
  obtain ⟨s, ran, view⟩ := run_some (.unixMux "up") (.unix "down") connectedUpstream polledPeer
    (fun s => (s.demuxes, s.tame sys)) (some 1, true) (by decide +kernel)
  obtain ⟨demuxes, tame⟩ := Prod.mk.inj view
  have reached : RunUnder (fun s sys => s.tame sys = true) (.unixMux "up") (.unix "down") s :=
    runUnder_of_check (fun s sys (tame : s.tame sys = true) => tame) (by decide +kernel) ran
  exact ⟨s, sys, reached, demuxes, tame, recvDemux_serves reached tame trivial⟩

/-- A count for which the size of the packet is 11. -/
theorem recvDemux_malformed : ¬ ∀ (upstream downstream : TransportKind) (s : State) (sys : Syscalls)
    (site : AssertSite), Reachable upstream downstream s → s.Guarded site →
      step s sys ≠ .error (.assertion site) := by
  intro claimed
  let sys : Syscalls := { reads := [some (DataHeader.mk channelData 1 0xffffffff).bytes] }
  obtain ⟨s, ran, failed⟩ := run_some (.unixMux "up") (.unix "down") connectedUpstream polledPeer
    (fun s => failedAt (step s sys)) (some .recvDemuxAvail) (by decide +kernel)
  exact claimed _ _ s sys .recvDemuxAvail (reachable_of_run ran) trivial (failedAt_some failed)

/-- A frame that `proxy_recv_mux` puts around what it has read. -/
def Muxed (packet : Bytes) : Prop :=
  ∃ (rcount : Nat) (channel : UInt32) (bytes : Bytes) (bp : NiBuffer),
    rcount ≤ defaultCreditSimplex ∧ bytes ≠ [] ∧ bytes.length ≤ (muxBuffer rcount).tailroom ∧
      muxHeader ((muxBuffer rcount).fill bytes) channel = some bp ∧ packet = bp.contents

theorem muxed_dataFrame (positive : 0 < n) (small : n ≤ defaultCreditSimplex) : Muxed (dataFrame n) := by
  have bound : n < 2 ^ 31 := Nat.lt_of_le_of_lt small (by decide)
  have space : (muxBuffer n).tailroom = n := by
    change (if 12 < n + 12 then (n + 12 - 12) % 2 ^ 32 else 0) = n
    rw [if_pos (by omega), Nat.add_sub_cancel, Nat.mod_eq_of_lt (by omega)]
  have room : (List.replicate n (120 : UInt8)).length ≤ (muxBuffer n).tailroom := by
    rw [List.length_replicate, space]
  obtain ⟨_, bp, built, _, contents⟩ := mux_buffer 1 bound room
  refine ⟨n, 1, List.replicate n 120, bp, small, ?_, room, built, ?_⟩
  · exact List.ne_nil_of_length_pos (by rwa [List.length_replicate])
  · rw [contents, List.length_replicate]
    rfl

/-- The bytes that the system gives to the reads of a run. -/
def readBy (answers : List Syscalls) : Bytes :=
  answers.flatMap fun sys => sys.reads.flatMap fun answer => answer.getD []

/-- All bytes of the step are read from the peer, so the answers are what the peer sent. -/
def State.hears (s : State) (sys : Syscalls) : Bool :=
  (do
    let ep ← s.demuxes
    let self ← s.world.heap.cells ep
    let rcount ← (proxyRecvBufsiz self sys).toOption
    some (demuxRead self rcount sys).received.length).getD 0 = (readBy [sys]).length

theorem readBy_append (first second : List Syscalls) :
    readBy (first ++ second) = readBy first ++ readBy second := List.flatMap_append

theorem readBy_round (chunks : List Bytes) : readBy (readRound chunks) = chunks.flatten := by
  have given : (chunks.map some).flatMap (fun answer => answer.getD []) = chunks.flatten := by
    rw [List.flatMap_map]
    exact List.flatMap_id'
  simp [readRound, pollRound, readBy, given]

theorem readBy_rounds (rounds : List (List Bytes)) : readBy (rounds.flatMap readRound) = rounds.flatMap List.flatten := by
  induction rounds with
  | nil => rfl
  | cons chunks rest ih => rw [List.flatMap_cons, List.flatMap_cons, readBy_append, readBy_round, ih]

/-- The frame comes in whole `n` times, and once more in two parts. -/
def repeatRounds (frame : Bytes) (n first : Nat) : List (List Bytes) :=
  List.replicate n [frame.take dataHeaderSize, frame.drop dataHeaderSize] ++
    [[frame.take dataHeaderSize, (frame.drop dataHeaderSize).take first],
      [(frame.drop dataHeaderSize).drop first]]

theorem readBy_repeat (frame : Bytes) (n first : Nat) :
    readBy ((repeatRounds frame n first).flatMap readRound) = (List.replicate (n + 1) frame).flatten := by
  have whole : (List.replicate n [frame.take dataHeaderSize, frame.drop dataHeaderSize]).flatMap
      List.flatten = (List.replicate n frame).flatten := by
    rw [List.flatMap_replicate]
    simp
  have parts : frame.take dataHeaderSize ++ ((frame.drop dataHeaderSize).take first ++
      (frame.drop dataHeaderSize).drop first) = frame := by
    rw [List.take_append_drop, List.take_append_drop]
  rw [readBy_rounds, repeatRounds, List.flatMap_append, whole, List.replicate_succ', List.flatten_append]
  congr 1
  simpa only [List.flatMap_cons, List.flatMap_nil, List.flatten_cons, List.flatten_nil,
    List.append_nil, List.append_assoc] using parts

/-- The client reads nothing. After 33 frames the peer's endpoint has a credit of 3072 left; the
next one comes in in two parts. -/
def flood : List Syscalls := acceptOne ++ (repeatRounds (dataFrame 4000) 33 3060).flatMap readRound

theorem readBy_flood : readBy flood = (List.replicate 34 (dataFrame 4000)).flatten := by
  have silent : readBy acceptOne = [] := rfl
  rw [flood, readBy_append, silent, readBy_repeat, List.nil_append]

/-- Frames of 4000 bytes, none of them more than a mux would send, are more than the credit. -/
theorem queueWrite_overdrawn : ¬ ∀ (upstream downstream : TransportKind) (setup : Syscalls)
    (start : State) (answers : List Syscalls) (packets : List Bytes),
    proxyInit upstream downstream setup = .ok start →
      Machine.Along step (fun s sys => s.hears sys = true) start answers →
        (∀ packet ∈ packets, Muxed packet) → readBy answers = packets.flatten →
          Machine.run step start answers ≠ .error (.assertion .queueWriteCredit) := by
  intro claimed
  have failed : failedAt (proxyRun (.unixMux "up") (.unix "down") connectedUpstream flood) =
      some .queueWriteCredit := by decide +kernel
  obtain stopped | ⟨start, done, stopped⟩ := bind_error.mp (failedAt_some failed)
  · cases stopped
  · refine claimed _ _ _ start flood (List.replicate 34 (dataFrame 4000)) done ?_ ?_ readBy_flood stopped
    · have evaluated : ((proxyInit (.unixMux "up") (.unix "down") connectedUpstream).toOption.all
          (Machine.checkAlong step State.hears · flood)) = true := by decide +kernel
      rw [done] at evaluated
      exact Machine.along_check (fun s sys hears => hears) evaluated
    · intro packet member
      rw [List.eq_of_mem_replicate member]
      exact muxed_dataFrame (by decide) (by decide)

/-- A frame of five bytes, whole and then in two parts, is paid for. -/
theorem queueWrite_credit_short : ∃ start,
    proxyInit (.unixMux "up") (.unix "down") connectedUpstream = .ok start ∧
      Machine.run step start (acceptOne ++ (repeatRounds (dataFrame 5) 1 2).flatMap readRound) ≠
        .error (.assertion .queueWriteCredit) := by
  have evaluated : ((proxyInit (.unixMux "up") (.unix "down") connectedUpstream).toOption.map
      (Machine.checkAlong step (fun s sys => !s.overdraws sys) ·
        (acceptOne ++ (repeatRounds (dataFrame 5) 1 2).flatMap readRound))) = some true := by
    decide +kernel
  obtain ⟨start, returned, checked⟩ := Option.map_eq_some_iff.mp evaluated
  refine ⟨start, toOption_some returned, queueWrite_credit (toOption_some returned) ?_⟩
  exact Machine.along_check (fun s sys spared => by simpa using spared) checked

end Testbus.Proxy
