import Testbus.Proxy.Prepare

namespace Testbus.Proxy

open Lib World

variable {entries : List PollInfo}

/-- The endpoint is connected, and not throttled. -/
def Endpoint.mayRead (self : Endpoint) : Bool := self.connected && decide (self.rxCredit ≠ 0)

/-- The entries ask for input where the endpoint may read and for output where it has bytes to
write, and for nothing else; and the bytes are written when there is room for them. -/
structure PollsExactly (w : World) (ep : Addr) (owner : Endpoint) (entries : List PollInfo) :
    Prop where
  reads : ∀ fd, (∃ entry ∈ entries, entry.fd = some fd ∧ entry.pollin = true) ↔
    owner.rfd = some fd ∧ owner.mayRead = true
  writes : ∀ fd, (∃ entry ∈ entries, entry.fd = some fd ∧ entry.pollout = true) ↔
    owner.wfd = some fd ∧ owner.wbuf.isSome = true
  asks : ∀ entry ∈ entries, entry.handler = .endpointDoio ∧ entry.ep = some ep ∧
    entry.fd.isSome = true ∧ (entry.pollin = true ∨ entry.pollout = true)
  once : (entries.map PollInfo.fd).Nodup
  drains : owner.wfd.isSome = true → owner.wbuf.isSome = true → ∃ entry ∈ entries,
    ∀ sys n, sys.write = .wrote n → 0 < n → ∃ w' left k,
      entry.handle (entry.reported { pollout := true }) w sys = .ok w' ∧
        w'.heap.cells ep = some left ∧ 0 < k ∧ left.pending = owner.pending.drop k ∧
        w'.trace = w.trace ++ [.wrote ep (owner.pending.take k)]

/-- A write that takes some bytes takes them from the front of what is pending. -/
theorem transmit_pending (found : w.heap.cells ep = some self)
    (buffer : self.wbuf = some bp) (fits : bp.Fits) (full : bp.count ≠ 0)
    (answer : sys.write = .wrote n) (positive : 0 < n) :
    ∃ w' left k, transmit w ep sys = .ok w' ∧ w'.heap.cells ep = some left ∧ 0 < k ∧
      left.wfd = self.wfd ∧ left.pending = self.pending.drop k ∧
      w'.trace = w.trace ++ [.wrote ep (self.pending.take k)] := by
  have some' : min n bp.count ≠ 0 := by omega
  have enough : min n bp.count ≤ bp.contents.length := Nat.le_trans (Nat.min_le_right _ _) bp.count_le
  have pulled := NiBuffer.fits_pullHead fits enough
  have left : ((if (bp.pullHead (min n bp.count)).2.count = 0 then none
      else some (bp.pullHead (min n bp.count)).2).map NiBuffer.contents).getD [] = bp.contents.drop (min n bp.count) := by
    rw [← NiBuffer.contents_pullHead fits.toWellFormed enough]
    split
    · rename_i empty
      rw [pulled.count_eq] at empty
      rw [List.length_eq_zero_iff.mp empty]
      rfl
    · rfl
  have sent : transmit w ep sys =
      .ok ((w.emit (.wrote ep (bp.load bp.head (min n bp.count)))).modify ep fun self =>
        { self with wbuf := if (bp.pullHead (min n bp.count)).2.count = 0 then none
            else some (bp.pullHead (min n bp.count)).2 }) := by
    simp only [transmit, World.deref, found, bind, Except.bind, buffer, answer]
    exact if_neg some'
  generalize (if (bp.pullHead (min n bp.count)).2.count = 0 then none
    else some (bp.pullHead (min n bp.count)).2) = wbuf at left sent
  refine ⟨_, { self with wbuf := wbuf }, min n bp.count, sent, ?_, by omega, rfl, ?_, ?_⟩
  · rw [cells_modify, heap_emit, found, Option.map_some, if_pos rfl]
  · simp only [Endpoint.pending, left, buffer, Option.map_some, Option.getD_some]
    rw [List.drop_append_of_le_length enough]
  · simp only [Endpoint.pending, buffer, Option.map_some, Option.getD_some]
    rw [List.take_append_of_le_length enough, ← NiBuffer.load_head enough]
    rfl

/-- An endpoint that drains has its bytes written as soon as poll reports room for them. -/
theorem handle_drains (found : w.heap.cells ep = some self) (buffer : self.wbuf = some bp) (fits : bp.Fits)
    (full : bp.count ≠ 0) (writing : self.wfd = some fd) (answer : sys.write = .wrote n)
    (positive : 0 < n) : ∃ w' left k,
      (PollInfo.mk .endpointDoio (some ep) (some fd) pollin true).handle { pollout := true } w sys =
        .ok w' ∧ w'.heap.cells ep = some left ∧ 0 < k ∧ left.pending = self.pending.drop k ∧
        w'.trace = w.trace ++ [.wrote ep (self.pending.take k)] := by
  obtain ⟨w', left, k, sent, cell, some', open', pending, shown⟩ :=
    transmit_pending found buffer fits full answer positive
  refine ⟨w', left, k, ?_, cell, some', pending, shown⟩
  simp [PollInfo.handle, ioEndpointDoio, World.deref, found, writing, sent, cell, bind, Except.bind]

/-- The entries of an endpoint that is connected, one of whose descriptors is open. -/
theorem ioEndpointPoll_ok (found : w.heap.cells ep = some self) (polled : ioEndpointPoll w ep = .ok entries) :
    (self.dead = true ∨ self.connected = false) ∧ entries = [] ∨
      self.dead = false ∧ self.connected = true ∧ (∀ bp, self.wbuf = some bp → bp.count ≠ 0) ∧
        ((self.rfd = self.wfd ∧ entries =
            if self.mayRead || self.wbuf.isSome then
              [⟨.endpointDoio, some ep, self.rfd, self.mayRead, self.wbuf.isSome⟩] else []) ∨
          self.rfd ≠ self.wfd ∧ entries =
            (if self.rfd.isSome && self.mayRead then
              [⟨.endpointDoio, some ep, self.rfd, true, false⟩] else []) ++
            if self.wfd.isSome && self.wbuf.isSome then
              [⟨.endpointDoio, some ep, self.rfd, false, true⟩] else []) := by
  obtain ⟨same, dereffed, polled⟩ := bind_ok.mp polled
  cases (deref_ok.mp dereffed).symm.trans found
  split at polled
  · rename_i dead
    cases polled
    exact .inl ⟨.inl dead, rfl⟩
  · rename_i alive
    split at polled
    · rename_i idle
      cases polled
      exact .inl ⟨.inr (by simpa using idle), rfl⟩
    · rename_i linked
      have connected : self.connected = true := by simpa using linked
      split at polled
      · cases polled
      · rename_i full
        have bytes : ∀ bp, self.wbuf = some bp → bp.count ≠ 0 := by
          intro bp buffer
          simpa [buffer] using full
        have any : self.wbuf.any (fun bp => bp.count ≠ 0) = self.wbuf.isSome := by
          cases buffer : self.wbuf with
          | none => rfl
          | some bp => simpa using bytes bp buffer
        have reads : decide (self.rxCredit ≠ 0) = self.mayRead := by
          simp [Endpoint.mayRead, connected]
        refine .inr ⟨by simpa using alive, connected, bytes, ?_⟩
        split at polled
        · rename_i one
          refine .inl ⟨one, ?_⟩
          rw [← reads]
          dsimp only at polled
          split at polled
          · cases polled
            simp_all
          · cases polled
            simp_all
        · rename_i two
          cases polled
          refine .inr ⟨two, ?_⟩
          rw [← reads, any]

theorem pollsExactly_of_drains (found : w.heap.cells ep = some self)
    (fits : ∀ bp, self.wbuf = some bp → bp.Fits) (polled : ioEndpointPoll w ep = .ok entries)
    (drains : self.wfd.isSome = true → self.wbuf.isSome = true → self.drains = true) :
    PollsExactly w ep self entries := by
  simp only [Endpoint.drains, Endpoint.writes, Bool.and_eq_true, decide_eq_true_eq] at drains
  obtain ⟨quiet, rfl⟩ | ⟨alive, connected, full, ⟨one, rfl⟩ | ⟨two, rfl⟩⟩ := ioEndpointPoll_ok found polled
  · have reads : ∀ fd, ¬ (self.rfd = some fd ∧ self.mayRead = true) := by
      rintro fd ⟨reading, may⟩
      rcases quiet with dead | idle
      · simp [Endpoint.dead, reading] at dead
      · simp [Endpoint.mayRead, idle] at may
    have writes : self.wfd.isSome = true → ¬ self.wbuf.isSome = true := by
      intro writing buffer
      rcases quiet with dead | idle
      · simp [Endpoint.dead, Option.isSome_iff_ne_none.mp writing] at dead
      · have connected := (drains writing buffer).1
        simp [idle] at connected
    refine ⟨fun fd => by simpa using fun reading may => reads fd ⟨reading, may⟩, fun fd => ?_,
      by simp, by simp, fun writing buffer => absurd buffer (writes writing)⟩
    simpa using fun writing : self.wfd = some fd => writes (by simp [writing])
  · -- Both directions have one entry.
    obtain ⟨fd, writing⟩ : ∃ fd, self.wfd = some fd := by
      cases writing : self.wfd with
      | some fd => exact ⟨fd, rfl⟩
      | none => simp [Endpoint.dead, one, writing] at alive
    rw [one, writing]
    by_cases asked : (self.mayRead || self.wbuf.isSome) = true
    · rw [if_pos asked]
      refine ⟨fun other => ?_, fun other => ?_, ?_, by simp, fun _ buffer => ?_⟩
      · simp [one, writing]
      · simp [writing]
      · simpa using asked
      · obtain ⟨bp, buffer⟩ := Option.isSome_iff_exists.mp buffer
        refine ⟨_, List.mem_singleton_self _, fun sys n answer positive => ?_⟩
        simpa [PollInfo.reported, buffer] using
          handle_drains found buffer (fits bp buffer) (full bp buffer) writing answer positive
    · rw [if_neg asked]
      simp only [Bool.or_eq_true, not_or, Bool.not_eq_true] at asked
      refine ⟨by simp [asked.1], by simp [asked.2], by simp, by simp, ?_⟩
      simp [asked.2]
  · -- Nothing is written to a descriptor that is not read from as well.
    have idle : (self.wfd.isSome && self.wbuf.isSome) = false := by
      by_contra both
      simp only [Bool.not_eq_false, Bool.and_eq_true] at both
      exact two (drains both.1 both.2).2.2
    rw [idle, if_neg Bool.false_ne_true, List.append_nil]
    have writes : ∀ fd, ¬ (self.wfd = some fd ∧ self.wbuf.isSome = true) := by
      rintro fd ⟨writing, buffer⟩
      simp [writing, buffer] at idle
    by_cases asked : (self.rfd.isSome && self.mayRead) = true
    · rw [if_pos asked]
      simp only [Bool.and_eq_true] at asked
      refine ⟨fun other => by simp [asked.2], fun other => by simpa using writes other,
        by simp [asked.1], by simp, fun writing buffer => ?_⟩
      simp [writing, buffer] at idle
    · rw [if_neg asked]
      refine ⟨fun other => ?_, fun other => by simpa using writes other, by simp, by simp,
        fun writing buffer => by simp [writing, buffer] at idle⟩
      simp only [Bool.and_eq_true, not_and, Bool.not_eq_true] at asked
      simpa using fun reading : self.rfd = some other => asked (by simp [reading])

/-- The entries of an endpoint are the right ones, and its output drains, exactly if output that
waits has a write descriptor that is read from as well, and is connected. -/
theorem polls_exactly {s : State} (reached : Reachable upstream downstream s)
    (found : s.world.heap.cells ep = some self)
    (polled : ioEndpointPoll s.world ep = .ok entries) :
    PollsExactly s.world ep self entries ↔
      (self.wfd.isSome = true → self.wbuf.isSome = true → self.drains = true) := by
  constructor
  · intro exactly writing buffer
    obtain ⟨fd, writing⟩ := Option.isSome_iff_exists.mp writing
    obtain ⟨bp, buffer'⟩ := Option.isSome_iff_exists.mp buffer
    obtain ⟨entry, member, names, asked⟩ := (exactly.writes fd).mpr ⟨writing, buffer⟩
    refine (ioEndpointPoll_drains found buffer' polled).mpr
      ⟨entry, member, (exactly.asks entry member).2.1, asked, by simp [names], ?_⟩
    rw [names, writing]
  · exact pollsExactly_of_drains found (reached.shape.sound ep self found).wbuf polled

/-- What an endpoint has to write, and the descriptors it is polled on for that. -/
def outputView (a : Addr) (s : State) : Option (Option Fd × Bool × List (Option Fd)) := do
  let self ← s.world.heap.cells a
  let entries ← (ioEndpointPoll s.world a).toOption
  return (self.wfd, self.wbuf.isSome,
    (entries.filter fun entry => entry.pollout).map PollInfo.fd)

theorem outputView_some (seen : outputView a s = some view) :
    ∃ self entries, s.world.heap.cells a = some self ∧ ioEndpointPoll s.world a = .ok entries ∧
      (self.wfd, self.wbuf.isSome, (entries.filter fun entry => entry.pollout).map PollInfo.fd) = view := by
  simp only [outputView, Option.bind_eq_bind, Option.bind_eq_some_iff, Option.pure_def, Option.some.injEq] at seen
  obtain ⟨self, found, entries, polled, rfl⟩ := seen
  exact ⟨self, entries, found, toOption_some polled, rfl⟩

/-- The byte of a client waits at its upstream connection. -/
theorem polls_exactly_copied : ∃ s self entries, Reachable (.unix "up") (.unix "down") s ∧
    s.world.heap.cells 2 = some self ∧ ioEndpointPoll s.world 2 = .ok entries ∧
    self.wbuf.isSome = true ∧ (PollsExactly s.world 2 self entries ↔
      (self.wfd.isSome = true → self.wbuf.isSome = true → self.drains = true)) := by
  obtain ⟨s, ran, view⟩ := run_some (.unix "up") (.unix "down") { listens := some 3 }
    (copyOneByte ++ [({} : Syscalls)]) (outputView 2) (some (some 5, true, [some 5])) (by decide +kernel)
  obtain ⟨self, entries, found, polled, shown⟩ := outputView_some view
  have reached := reachable_of_run ran
  exact ⟨s, self, entries, reached, found, polled, (Prod.mk.inj (Prod.mk.inj shown).2).1,
    polls_exactly reached found polled⟩

/-- A client closes its side while its answer comes in. -/
def answerClosed : List Syscalls :=
  copyOneByte ++
  pollRound [{}, { pollin := true }, { pollin := true }]
    [{}, { reads := [some [8]] }, { reads := [some []] }] ++
  List.replicate 3 ({} : Syscalls)

/-- The answer is pulled up, but poll is asked about the descriptor that is closed. -/
theorem output_not_polled : ¬ ∀ (upstream downstream : TransportKind) (s : State) (ep : Addr)
    (self : Endpoint) (entries : List PollInfo), Reachable upstream downstream s →
      s.world.heap.cells ep = some self → ioEndpointPoll s.world ep = .ok entries →
        PollsExactly s.world ep self entries := by
  intro claimed
  obtain ⟨s, ran, view⟩ := run_some (.unix "up") (.unix "down") { listens := some 3 } answerClosed
    (outputView 1) (some (some 4, true, [none])) (by decide +kernel)
  obtain ⟨self, entries, found, polled, shown⟩ := outputView_some view
  obtain ⟨writing, shown⟩ := Prod.mk.inj shown
  obtain ⟨buffer, fds⟩ := Prod.mk.inj shown
  obtain ⟨entry, member, names, asked⟩ :=
    ((claimed _ _ s 1 self entries (reachable_of_run ran) found polled).writes 4).mpr
      ⟨writing, buffer⟩
  have listed : entry.fd ∈ (entries.filter fun entry => entry.pollout).map PollInfo.fd :=
    List.mem_map_of_mem (List.mem_filter.mpr ⟨member, asked⟩)
  rw [fds, names] at listed
  simp at listed

end Testbus.Proxy
