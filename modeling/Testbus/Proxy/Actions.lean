import Testbus.Proxy.Sound

namespace Testbus.Proxy

open Lib World

variable {w w' : World}

abbrev Quiets := Relation.ReflTransGen Quiet

theorem Quiets.acts (moved : Quiets w w') : Acts G w w' := by
  induction moved with
  | refl => exact .refl
  | tail _ last ih => exact ih.tail (.quiet last)

theorem settle_alive (found : w.heap.cells ep = some self) (alive : self.dead = false) : w.settle ep = w := by
  simp [World.settle, found, alive]

theorem settle_quiets (found : w.heap.cells ep = some self) : Quiets w (w.settle ep) := by
  by_cases dead : self.dead = true
  · exact .single (.rebury found dead)
  · rw [settle_alive found (by simpa using dead)]

/-- The write queue as `io_endpoint_pullup` leaves it: as it was, or with its first
message moved to `wbuf`. -/
inductive Pulled (w : World) (ep : Addr) : World → Prop
  | same : Pulled w ep w
  | pull {self : Endpoint} {mbuf : Mbuf} {rest : List Mbuf}
      (found : w.heap.cells ep = some self) (idle : self.wbuf = none)
      (queue : self.wqueue = mbuf :: rest) : Pulled w ep (w.pull ep mbuf rest)

theorem Pulled.quiets (pulled : Pulled w ep w') : Quiets w w' := by
  cases pulled with
  | same => exact .refl
  | pull found idle queue => exact .single (.pull found idle queue)

theorem Pulled.cell (pulled : Pulled w ep w') (found : w.heap.cells ep = some self) :
    ∃ left, w'.heap.cells ep = some left ∧ left.rfd = self.rfd ∧ left.wfd = self.wfd ∧
      left.shutdownWrite = self.shutdownWrite := by
  cases pulled with
  | same => exact ⟨self, found, rfl, rfl, rfl⟩
  | @pull _ mbuf rest =>
    have cell := cells_pull w ep mbuf rest ep
    rw [found] at cell
    exact ⟨_, cell, rfl, rfl, rfl⟩

theorem pullup_pulled (pulled : ioEndpointPullup w ep = .ok (pending, w')) : Pulled w ep w' := by
  obtain ⟨self, found, ⟨_, _, _, _, rfl⟩ | ⟨_, _, _, rfl⟩ | ⟨mbuf, rest, idle, queue, _, rfl⟩⟩ := pullup_ok pulled
  · exact .same
  · exact .same
  · exact .pull found idle queue

theorem discard_nothing (found : w.heap.cells ep = some self) (idle : self.wbuf = none)
    (empty : self.wqueue = []) : w.discard ep self.wqueue = w := by
  rw [empty]
  exact modify_eq_self found (by rw [← idle])

theorem shutdownWrite_ok (shut : shutdownWrite w ep = .ok w') :
    ∃ self, w.heap.cells ep = some self ∧ ((self.wfd = none ∧ w' = w) ∨
      ∃ middle left fd, self.wfd = some fd ∧ Pulled w ep middle ∧
        middle.heap.cells ep = some left ∧ left.rfd = self.rfd ∧ left.wfd = some fd ∧
        left.shutdownWrite = self.shutdownWrite ∧ w' = middle.shutWrite ep left fd) := by
  obtain ⟨self, dereffed, rest⟩ := bind_ok.mp shut
  have found := deref_ok.mp dereffed
  refine ⟨self, found, ?_⟩
  cases writing : self.wfd with
  | none =>
    simp only [writing] at rest
    cases rest
    exact .inl ⟨rfl, rfl⟩
  | some fd =>
    simp only [writing] at rest
    obtain ⟨⟨pending, middle⟩, pulled, rest⟩ := bind_ok.mp rest
    obtain ⟨left, cell, reading, writing', marked⟩ := (pullup_pulled pulled).cell found
    refine .inr ⟨middle, left, fd, rfl, pullup_pulled pulled, cell, reading, writing'.trans writing, marked, ?_⟩
    rw [World.shutWrite, reading]
    cases pending with
    | some bp =>
      obtain ⟨after, dropped, done⟩ := bind_ok.mp rest
      obtain ⟨same, found', rfl⟩ := writeQueueDiscard_ok dropped
      cases cell.symm.trans found'
      cases done
      rfl
    | none =>
      cases rest
      obtain ⟨same, found', ⟨_, _, _, missing, _⟩ | ⟨idle, empty, _, rfl⟩ | ⟨_, _, _, _, missing, _⟩⟩ := pullup_ok pulled
      · cases missing
      · cases cell.symm.trans found'
        rw [discard_nothing cell idle empty]
        rfl
      · cases missing

theorem cells_shutRead_self (found : w.heap.cells ep = some self) (fd : Fd) :
    (w.shutRead ep self fd).heap.cells ep = some { self with rfd := none } := by
  rw [cells_shutRead, found]
  simp

theorem shutdownWrite_settled (shut : shutdownWrite w ep = .ok w') : Quiets w (w'.settle ep) := by
  obtain ⟨self, found, ⟨_, rfl⟩ | ⟨middle, left, fd, _, pulled, cell, _, writing, _, rfl⟩⟩ := shutdownWrite_ok shut
  · exact settle_quiets found
  · exact pulled.quiets.tail (.closeWrite cell writing)

theorem shutdown_quiets (shut : ioEndpointShutdown w ep how = .ok w') : Quiets w w' := by
  cases how with
  | rd =>
    obtain ⟨middle, read, buried⟩ := bind_ok.mp shut
    obtain ⟨_, _, rfl⟩ := buryDead_ok buried
    obtain ⟨self, found, ⟨_, rfl⟩ | ⟨fd, reading, rfl⟩⟩ := shutdownRead_ok read
    · exact settle_quiets found
    · exact .single (.closeRead found reading)
  | wr =>
    obtain ⟨middle, written, buried⟩ := bind_ok.mp shut
    obtain ⟨_, _, rfl⟩ := buryDead_ok buried
    exact shutdownWrite_settled written
  | rdwr =>
    obtain ⟨first, read, rest⟩ := bind_ok.mp shut
    obtain ⟨second, written, buried⟩ := bind_ok.mp rest
    obtain ⟨_, _, rfl⟩ := buryDead_ok buried
    obtain ⟨self, found, ⟨_, rfl⟩ | ⟨fd, reading, rfl⟩⟩ := shutdownRead_ok read
    · exact shutdownWrite_settled written
    · -- The endpoint is buried once, after whichever half was closed last.
      have cell := cells_shutRead_self found fd
      have closed : Quiets w ((w.shutRead ep self fd).settle ep) := .single (.closeRead found reading)
      cases writing : self.wfd with
      | none =>
        obtain ⟨same, found', ⟨_, rfl⟩ | ⟨_, _, _, open', _⟩⟩ := shutdownWrite_ok written
        · exact closed
        · cases cell.symm.trans found'
          simp [writing] at open'
      | some other =>
        rw [settle_alive cell (by simp [Endpoint.dead, writing])] at closed
        exact closed.trans (shutdownWrite_settled written)

theorem halfclose_ok (closed : ioEndpointHalfclose w ep = .ok w') :
    ∃ self, w.heap.cells ep = some self ∧ Quiets (w.modify ep fun self => { self with shutdownWrite := true }) w' := by
  obtain ⟨self, found, rest⟩ := bind_ok.mp closed
  obtain ⟨⟨pending, middle⟩, pulled, shut⟩ := bind_ok.mp rest
  exact ⟨self, deref_ok.mp found, (pullup_pulled pulled).quiets.trans (shutdown_quiets shut)⟩

theorem modify_comm (commute : ∀ self, first (second self) = second (first self)) :
    (w.modify a first).modify b second = (w.modify b second).modify a first := by
  have heap : ((w.modify a first).modify b second).heap = ((w.modify b second).modify a first).heap := by
    apply Store.ext_cells
    funext c
    rw [cells_modify, cells_modify, cells_modify, cells_modify, Option.map_map, Option.map_map]
    congr 1
    funext self
    simp only [Function.comp_apply]
    split <;> split <;> simp [commute]
  exact congrArg (fun heap => ({ w with heap := heap } : World)) heap

theorem clear_refund (w : World) (mbuf : Mbuf) : (w.refund mbuf).clear ep = (w.clear ep).refund mbuf := by
  unfold World.refund
  split
  · rfl
  · exact modify_comm fun _ => rfl

theorem clear_pull (w : World) (a : Addr) (mbuf : Mbuf) (rest : List Mbuf) :
    (w.pull a mbuf rest).clear ep = (w.clear ep).pull a mbuf rest := by
  simp only [World.pull, ← clear_refund]
  exact modify_comm fun _ => rfl

theorem clear_dropQueue (w : World) (a : Addr) (queue : List Mbuf) :
    (w.dropQueue a queue).clear ep = (w.clear ep).dropQueue a queue := by
  induction queue generalizing w with
  | nil => rfl
  | cons mbuf rest ih =>
    simp only [World.dropQueue, ih, clear_refund]
    congr 2
    exact modify_comm fun _ => rfl

theorem clear_discard (w : World) (a : Addr) (queue : List Mbuf) :
    (w.discard a queue).clear ep = (w.clear ep).discard a queue := by
  simp only [World.discard, clear_dropQueue]
  congr 1
  exact modify_comm fun _ => rfl

theorem clear_closeFd (w : World) (fd : Fd) (other : Option Fd) :
    (w.closeFd fd other).clear ep = (w.clear ep).closeFd fd other := by
  unfold World.closeFd
  split <;> rfl

theorem clear_bury (w : World) (a : Addr) (t : Side) : (w.bury a t).clear ep = (w.clear ep).bury a t := by
  have unlinked : (ioEndpointUnlink w a t).clear ep = ioEndpointUnlink (w.clear ep) a t := by
    unfold ioEndpointUnlink
    rw [xprt_clear]
    split <;> rfl
  simp only [World.bury, ← unlinked]
  rfl

theorem clear_settle (w : World) (a : Addr) : (w.settle a).clear ep = (w.clear ep).settle a := by
  have cell := cells_clear w ep a
  unfold World.settle
  rw [cell]
  cases w.heap.cells a with
  | none => rfl
  | some self =>
    change (if self.dead = true then w.bury a self.transport else w).clear ep =
      if self.dead = true then (w.clear ep).bury a self.transport else w.clear ep
    split
    · exact clear_bury w a _
    · rfl

theorem Quiet.clear (moved : Quiet w w') (ep : Addr) : Quiet (w.clear ep) (w'.clear ep) := by
  cases moved with
  | @pull a self mbuf rest found idle queue =>
    have cell := cells_clear w ep a
    rw [found] at cell
    rw [clear_pull]
    exact .pull cell idle queue
  | @closeRead a self fd found reading =>
    have cell := cells_clear w ep a
    rw [found] at cell
    have same : (w.shutRead a self fd).clear ep = (w.clear ep).shutRead a
        { self with rbuf := if a = ep then none else self.rbuf } fd := by
      simp only [World.shutRead, ← clear_closeFd]
      exact modify_comm fun _ => rfl
    rw [clear_settle, same]
    exact .closeRead cell reading
  | @closeWrite a self fd found writing =>
    have cell := cells_clear w ep a
    rw [found] at cell
    have same : (w.shutWrite a self fd).clear ep = (w.clear ep).shutWrite a
        { self with rbuf := if a = ep then none else self.rbuf } fd := by
      simp only [World.shutWrite, ← clear_closeFd, ← clear_discard]
      exact modify_comm fun _ => rfl
    rw [clear_settle, same]
    exact .closeWrite cell writing
  | @rebury a self found dead =>
    have cell := cells_clear w ep a
    rw [found] at cell
    rw [clear_settle]
    exact .rebury cell dead

theorem Quiets.clear (moved : Quiets w w') (ep : Addr) : Quiets (w.clear ep) (w'.clear ep) := by
  induction moved with
  | refl => exact .refl
  | tail _ last ih => exact ih.tail (last.clear ep)

/-- What `io_endpoint_free` does about the sink of an endpoint that is emptied. -/
inductive Detached (w : World) (ep : Addr) : Option Addr → World → Prop
  | single : Detached w ep none w
  | apart {sink : Addr} {other : Endpoint} (found : w.heap.cells sink = some other)
      (different : other.sink ≠ some ep) : Detached w ep (some sink) w
  | partner {sink : Addr} {other : Endpoint} {middle : World}
      (found : w.heap.cells sink = some other) (paired : other.sink = some ep)
      (shut : ioEndpointShutdown w sink .rdwr = .ok middle) :
      Detached w ep (some sink) (middle.modify sink fun other => { other with sink := none })

theorem Detached.acts (detached : Detached w ep sink w') : Acts G w w' := by
  cases detached with
  | single => exact .refl
  | apart => exact .refl
  | partner found paired shut =>
    obtain ⟨_, read, rest⟩ := bind_ok.mp shut
    obtain ⟨_, _, buried⟩ := bind_ok.mp rest
    obtain ⟨self, cell, rfl⟩ := buryDead_ok buried
    rw [← heap_settle _ _] at cell
    exact (shutdown_quiets shut).acts.tail (.detach cell)

theorem free_ok (freed : ioEndpointFree w ep = .ok w') :
    ∃ self middle, w.heap.cells ep = some self ∧ Detached ((w.clear ep).discard ep self.wqueue) ep self.sink middle ∧
      w' = middle.release ep self.transport := by
  obtain ⟨self, dereffed, rest⟩ := bind_ok.mp freed
  obtain ⟨emptied, dropped, rest⟩ := bind_ok.mp rest
  obtain ⟨same, dereffed', rest⟩ := bind_ok.mp rest
  have found := deref_ok.mp dereffed
  have cell := cells_clear w ep ep
  rw [found] at cell
  obtain ⟨left, cell', rfl⟩ := writeQueueDiscard_ok dropped
  cases cell.symm.trans cell'
  have kept := cells_discard cell ep
  rw [cell] at kept
  cases (deref_ok.mp dereffed').symm.trans kept
  cases target : self.sink with
  | none =>
    simp only [target] at rest
    cases rest
    exact ⟨self, _, found, by rw [target]; exact .single, rfl⟩
  | some sink =>
    simp only [target] at rest
    obtain ⟨middle, detached, done⟩ := bind_ok.mp rest
    cases done
    refine ⟨self, middle, found, ?_, rfl⟩
    rw [target]
    obtain ⟨other, dereffed'', rest⟩ := bind_ok.mp detached
    have cell'' := deref_ok.mp dereffed''
    split at rest
    · rename_i paired
      obtain ⟨shut, shutOk, done⟩ := bind_ok.mp rest
      cases done
      exact .partner cell'' paired shutOk
    · rename_i different
      cases rest
      exact .apart cell'' different

/-- A dead endpoint with nothing left in its buffers stays so. -/
def Hollow (w : World) (ep : Addr) (t : Side) : Prop :=
  ∃ self, w.heap.cells ep = some self ∧ self.transport = t ∧ self.dead = true ∧
    self.wbuf = none ∧ self.wqueue = [] ∧ self.rbuf = none

theorem Hollow.map {change : Addr → Endpoint → Endpoint} (hollow : Hollow w ep t)
    (changed : ∀ a, w'.heap.cells a = (w.heap.cells a).map (change a))
    (kept : ∀ self : Endpoint, self.dead = true → self.wqueue = [] → self.wbuf = none →
      (change ep self).transport = self.transport ∧ (change ep self).dead = true ∧
        (change ep self).wbuf = none ∧ (change ep self).wqueue = [] ∧
        (change ep self).rbuf = self.rbuf) : Hollow w' ep t := by
  obtain ⟨self, found, side, dead, idle, empty, blank⟩ := hollow
  obtain ⟨side', dead', idle', empty', blank'⟩ := kept self dead empty idle
  exact ⟨change ep self, by rw [changed, found]; rfl, side'.trans side, dead', idle', empty', blank'.trans blank⟩

theorem Hollow.quiet (hollow : Hollow w ep t) (moved : Quiet w w') : Hollow w' ep t := by
  cases moved with
  | @pull a other mbuf rest found idle queue =>
    obtain ⟨self, cell, _, _, _, empty, _⟩ := id hollow
    have different : ep ≠ a := by
      rintro rfl
      cases cell.symm.trans found
      simp [empty] at queue
    refine hollow.map (fun b => cells_pull _ _ _ _ b) ?_
    intro self dead empty idle
    exact ⟨rfl, dead, by simp [different, idle], by simp [different, empty], rfl⟩
  | @closeRead a other fd =>
    refine hollow.map (fun b => by rw [heap_settle]; exact cells_shutRead _ _ _ _ b) ?_
    intro self dead empty idle
    refine ⟨rfl, ?_, idle, empty, rfl⟩
    simp only [Endpoint.dead, Bool.and_eq_true] at dead ⊢
    exact ⟨by split <;> simp [dead.1], dead.2⟩
  | @closeWrite a other fd found =>
    refine hollow.map (fun b => by rw [heap_settle]; exact cells_shutWrite found fd b) ?_
    intro self dead empty idle
    refine ⟨rfl, ?_, by simp [idle], by simp [empty], rfl⟩
    simp only [Endpoint.dead, Bool.and_eq_true] at dead ⊢
    exact ⟨dead.1, by split <;> simp [dead.2]⟩
  | @rebury a =>
    have unchanged : ∀ b, (w.settle a).heap.cells b = (w.heap.cells b).map fun self => self := fun b => by simp
    exact hollow.map unchanged fun self dead empty idle => ⟨rfl, dead, idle, empty, rfl⟩

theorem Hollow.quiets (hollow : Hollow w ep t) (moved : Quiets w w') : Hollow w' ep t := by
  induction moved with
  | refl => exact hollow
  | tail _ last ih => exact ih.quiet last

theorem Hollow.detached {sink : Option Addr} (hollow : Hollow w ep t)
    (detached : Detached w ep sink w') : Hollow w' ep t := by
  cases detached with
  | single => exact hollow
  | apart => exact hollow
  | @partner sink other middle found paired shut =>
    refine (hollow.quiets (shutdown_quiets shut)).map (cells_modify _ sink · _) ?_
    intro self dead empty idle
    split
    · exact ⟨rfl, dead, idle, empty, rfl⟩
    · exact ⟨rfl, dead, idle, empty, rfl⟩

theorem hollow_flush (found : w.heap.cells ep = some self) (dead : self.dead = true) (t : Side) :
    Hollow (w.flush ep t self.wqueue) ep self.transport := by
  have cell := cells_flush found t ep
  rw [found] at cell
  exact ⟨_, cell, rfl, dead, by simp, by simp, by simp⟩

/-- Freeing a member of the garbage list: it is emptied, detached and released. -/
theorem freeDead_acts (release : ∀ w, G.release w ep) (found : w.heap.cells ep = some self) (dead : self.dead = true)
    (freed : ioEndpointFree (w.modifyXprt t fun xprt =>
      { xprt with garbageList := xprt.garbageList.erase ep }) ep = .ok w') : Acts G w w' := by
  obtain ⟨same, middle, found', detached, rfl⟩ := free_ok freed
  cases found.symm.trans found'
  change Detached (w.flush ep t self.wqueue) ep self.sink middle at detached
  obtain ⟨left, cell, side, dead', idle, empty, blank⟩ := (hollow_flush found dead t).detached detached
  have flushed : Acts G w (w.flush ep t self.wqueue) := .single (.flush found dead (release _))
  refine (flushed.trans detached.acts).tail ?_
  rw [← side]
  exact .release cell dead' ⟨idle, empty, blank⟩ (release _)

theorem purgeGarbage_acts (release : ∀ w, ∀ ep ∈ members, G.release w ep)
    (purged : purgeMembers w t .garbageList members = .ok w') : Acts G w w' := by
  induction members generalizing w with
  | nil => cases purged; exact .refl
  | cons cur rest ih =>
    obtain ⟨self, dereffed, purged⟩ := bind_ok.mp purged
    split at purged
    · rename_i dead
      obtain ⟨middle, freed, later⟩ := bind_ok.mp purged
      have freeing := freeDead_acts (fun w => release w cur (by simp)) (deref_ok.mp dereffed) dead freed
      exact freeing.trans (ih (fun w ep member => release w ep (by simp [member])) later)
    · exact ih (fun w ep member => release w ep (by simp [member])) purged

theorem purgeMembers_alive (alive : ∀ a ∈ members, ∃ self, w.heap.cells a = some self ∧ self.dead = false) :
    purgeMembers w t pos members = .ok w := by
  induction members with
  | nil => rfl
  | cons cur rest ih =>
    obtain ⟨self, found, alive'⟩ := alive cur (by simp)
    rw [purgeMembers, World.deref, found]
    change (if self.dead = true then _ else _) = _
    rw [if_neg (by simp [alive'])]
    exact ih fun a member => alive a (by simp [member])

theorem purge_epList (lists : w.Lists) (t : Side) : ioEndpointListPurge w t .epList = .ok w := by
  refine purgeMembers_alive fun a member => ?_
  obtain ⟨self, found, _, alive⟩ := lists.listed t a member
  exact ⟨self, found, alive⟩

theorem purge_multiplex (lists : w.Lists) (t : Side) : ioEndpointListPurge w t .multiplex = .ok w := by
  refine purgeMembers_alive fun a member => ?_
  obtain ⟨_, self, found, _, alive, _⟩ := lists.link t a (by simpa [PurgeFrom.members] using member)
  exact ⟨self, found, alive⟩

theorem ioTransportPurge_eq (lists : w.Lists) (t : Side) :
    ioTransportPurge w t = ioEndpointListPurge w t .garbageList >>= fun w =>
      ioEndpointListPurge w t .multiplex := by
  rw [ioTransportPurge, purge_epList lists]
  rfl

end Testbus.Proxy
