import Testbus.Proxy.Runs

namespace Testbus.Proxy

open Lib World

variable {w w' : World}

/-- The endpoints a poll round collects descriptors of. -/
def World.Polled (w : World) (t : Side) (a : Addr) : Prop :=
  a ∈ (w.xprt t).epList ∨ (w.xprt t).multiplex = some a

/-- Only the endpoints of `fresh` are still to be listed. -/
def World.Listed (w : World) (fresh : List Addr) : Prop :=
  ∀ a self, w.heap.cells a = some self → self.dead = false → a ∉ fresh →
    w.Polled self.transport a

theorem World.Polled.same (polled : w.Polled t a) (epList : (w'.xprt t).epList = (w.xprt t).epList)
    (multiplex : (w'.xprt t).multiplex = (w.xprt t).multiplex) : w'.Polled t a := by
  rw [World.Polled, epList, multiplex]
  exact polled

theorem World.Polled.unlink (polled : w.Polled t a) (different : a ≠ ep) : (ioEndpointUnlink w ep s).Polled t a := by
  by_cases same : t = s
  · subst same
    rcases polled with listed | link
    · refine .inl ?_
      unfold ioEndpointUnlink
      split
      · simpa using listed
      · simpa using (List.mem_erase_of_ne different).mpr listed
    · refine .inr ?_
      unfold ioEndpointUnlink
      split
      · rename_i here
        exact absurd (Option.some.inj (link.symm.trans here)) different
      · simpa using link
  · exact polled.same (by rw [xprt_unlink_of_ne same]) (by rw [xprt_unlink_of_ne same])

theorem World.Polled.settle (polled : w.Polled t a) (different : a ≠ ep) : (w.settle ep).Polled t a := by
  unfold World.settle
  split
  · exact polled
  · rename_i self _
    split
    · have unlinked := polled.unlink (s := self.transport) different
      rw [World.bury, ioEndpointLink]
      exact unlinked.same (field_modifyXprt Transport.epList t fun _ => by rfl)
        (field_modifyXprt Transport.multiplex t fun _ => by rfl)
    · exact polled

theorem World.Polled.flush (polled : w.Polled t a) (queue : List Mbuf) : (w.flush ep s queue).Polled t a := by
  refine polled.same ?_ ?_ <;> rw [World.flush, xprt_discard, xprt_clear]
  · exact field_modifyXprt Transport.epList t fun _ => by rfl
  · exact field_modifyXprt Transport.multiplex t fun _ => by rfl

theorem World.Polled.adopt (polled : w.Polled t a) (sink : Addr) : (w.adopt ep s sink).Polled t a := by
  by_cases same : t = s
  · subst same
    rcases polled with listed | link
    · exact .inl (by simp [World.adopt, ioEndpointLink, listed])
    · exact .inr (by simp [World.adopt, ioEndpointLink, link])
  · refine polled.same ?_ ?_ <;> simp [World.adopt, ioEndpointLink, xprt_modifyXprt_of_ne same]

theorem polled_adopted (w : World) (ep : Addr) (t : Side) (sink : Addr) : (w.adopt ep t sink).Polled t ep :=
  .inl (by simp [World.adopt, ioEndpointLink])

section Listed

variable {fresh : List Addr}

theorem World.Listed.map {change : Addr → Endpoint → Endpoint}
    (listed : w.Listed fresh) (changed : ∀ a, w'.heap.cells a = (w.heap.cells a).map (change a))
    (kept : ∀ a old, w.heap.cells a = some old → (change a old).dead = false →
      old.dead = false ∧ (change a old).transport = old.transport ∧
        (w.Polled old.transport a → w'.Polled old.transport a)) : w'.Listed fresh := by
  intro a new found alive outside
  rw [changed] at found
  obtain ⟨old, cell, rfl⟩ := Option.map_eq_some_iff.mp found
  obtain ⟨before, side, polled⟩ := kept a old cell alive
  rw [side]
  exact polled (listed a old cell before outside)

theorem World.Listed.calm {change : Addr → Endpoint → Endpoint} (listed : w.Listed fresh) (xprt : w'.xprt = w.xprt)
    (changed : ∀ a, w'.heap.cells a = (w.heap.cells a).map (change a)) (dead : ∀ a old, (change a old).dead = old.dead)
    (side : ∀ a old, (change a old).transport = old.transport) : w'.Listed fresh := by
  refine listed.map changed ?_
  intro a old _ alive
  exact ⟨(dead a old).symm.trans alive, side a old, fun polled => polled.same (by rw [xprt]) (by rw [xprt])⟩

theorem World.Listed.modify (listed : w.Listed fresh)
    {change : Endpoint → Endpoint} (dead : ∀ old, (change old).dead = old.dead)
    (side : ∀ old, (change old).transport = old.transport) : (w.modify ep change).Listed fresh := by
  refine listed.calm rfl (cells_modify w ep · change) ?_ ?_ <;> intro a old <;>
    by_cases same : a = ep <;> simp [same, dead, side]

theorem World.Listed.charge (listed : w.Listed fresh) (sink : Addr) (mbuf : Mbuf) : (w.charge sink mbuf).Listed fresh :=
  listed.calm (xprt_charge w sink mbuf) (cells_charge w sink mbuf) (fun _ _ => rfl) fun _ _ => rfl

theorem World.Listed.clear (listed : w.Listed fresh) (ep : Addr) : (w.clear ep).Listed fresh :=
  listed.calm rfl (cells_clear w ep) (fun _ _ => rfl) fun _ _ => rfl

theorem World.Listed.settle (listed : w.Listed fresh) (ep : Addr) : (w.settle ep).Listed fresh := by
  intro a self found alive outside
  rw [heap_settle] at found
  have polled := listed a self found alive outside
  by_cases same : a = ep
  · subst same
    rwa [settle_alive found alive]
  · exact polled.settle same

theorem World.Listed.shutRead (listed : w.Listed fresh) (fd : Fd) : ((w.shutRead ep self fd).settle ep).Listed fresh := by
  refine World.Listed.settle (listed.map (cells_shutRead w ep self fd) ?_) ep
  intro a old _ alive
  refine ⟨?_, rfl, fun polled => polled.same (by rw [xprt_shutRead]) (by rw [xprt_shutRead])⟩
  by_cases same : a = ep
  · cases writing : old.wfd <;> simp [Endpoint.dead, same, writing] at alive ⊢
  · simpa [Endpoint.dead, same] using alive

theorem World.Listed.quiet (listed : w.Listed fresh) (moved : Quiet w w') : w'.Listed fresh := by
  cases moved with
  | @pull ep self mbuf rest =>
    exact listed.calm (xprt_pull w ep mbuf rest) (cells_pull w ep mbuf rest) (fun _ _ => rfl) fun _ _ => rfl
  | closeRead => exact listed.shutRead _
  | @closeWrite ep self fd found writing =>
    refine World.Listed.settle (listed.map (cells_shutWrite found fd) ?_) ep
    intro a old cell alive
    refine ⟨?_, rfl, fun polled => polled.same (by rw [xprt_shutWrite]) (by rw [xprt_shutWrite])⟩
    by_cases same : a = ep
    · subst same
      cases found.symm.trans cell
      simp [Endpoint.dead, writing]
    · simpa [Endpoint.dead, same] using alive
  | rebury => exact listed.settle _

theorem World.Listed.spawn (listed : w.Listed fresh) (self : Endpoint)
    (t : Side) (ep : Addr) (next : UInt32) (events : List Event) :
    (w.spawn t ep self next events).Listed (ep :: fresh) := by
  intro a new found alive outside
  obtain ⟨different, outside'⟩ : a ≠ ep ∧ a ∉ fresh := by simpa using outside
  rw [cells_spawn, if_neg different] at found
  have lists := lists_spawn w t ep self next events new.transport
  exact (listed a new found alive outside').same lists.1 lists.2.2

theorem World.Listed.adopt (listed : w.Listed (ep :: fresh))
    (side : ∀ self, w.heap.cells ep = some self → self.transport = t) (sink : Addr) :
    (w.adopt ep t sink).Listed fresh := by
  intro a new found alive outside
  rw [cells_adopt] at found
  obtain ⟨old, cell, rfl⟩ := Option.map_eq_some_iff.mp found
  by_cases same : a = ep
  · subst same
    rw [show ({ old with sink := _ } : Endpoint).transport = t from side old cell]
    exact polled_adopted w a t sink
  · exact (listed a old cell alive (by simp [same, outside])).adopt sink

theorem World.Listed.act (listed : w.Listed []) (acted : Act G w w') : w'.Listed [] := by
  cases acted with
  | quiet moved => exact listed.quiet moved
  | mark | connect | detach => exact listed.modify (fun _ => rfl) fun _ => rfl
  | transmit =>
    exact World.Listed.modify (w := w.emit _) listed (fun _ => rfl) fun _ => rfl
  | copied => exact World.Listed.charge (w := w.emit _) listed _ _
  | framed => exact World.Listed.charge (w := w.emit _) listed _ _
  | leave => exact (listed.charge _ _).shutRead _
  | @receive ep self bp =>
    have filled : (w.modify ep fun self => { self with rbuf := some bp }).Listed [] :=
      listed.modify (fun _ => rfl) fun _ => rfl
    exact filled
  | @opened source self bp sys born next arrived cmd absent fresh =>
    have before : (w.emit (.dispatched source bp.contents)).Listed [] := listed
    refine World.Listed.clear (World.Listed.adopt (before.spawn _ _ _ _ _) ?_ _) _
    intro new cell
    rw [cells_spawn, if_pos rfl] at cell
    cases cell
    exact fresh.transport
  | ignored => exact World.Listed.clear (w := w.emit _) listed _
  | closing =>
    refine World.Listed.clear (World.Listed.modify (w := w.emit _) listed ?_ ?_) _ <;> exact fun _ => rfl
  | deliver =>
    exact World.Listed.clear (World.Listed.charge (w := (w.emit _).emit _) listed _ _) _
  | administer t next =>
    intro a self found alive outside
    have lists := lists_counter w t self.transport next
    exact (listed a self found alive outside).same lists.1 lists.2.2
  | @announced self sys sink allowed absent fresh =>
    refine World.Listed.adopt ((listed.spawn self _ _ _ _).charge _ _) ?_ _
    intro new cell
    rw [cells_charge, cells_spawn, if_pos rfl] at cell
    cases cell
    exact fresh.transport
  | @paired self other sys allowed absent fresh simplex channel alone vacant different partner =>
    refine World.Listed.adopt (World.Listed.adopt ((listed.spawn self _ _ _ _).spawn other _ _ _ _) ?_ _) ?_ _
    · intro new cell
      rw [cells_spawn, if_pos rfl] at cell
      cases cell
      exact partner.transport
    · intro new cell
      rw [cells_adopt, cells_spawn, if_neg (Ne.symm different), cells_spawn, if_pos rfl] at cell
      cases cell
      exact fresh.transport
  | @multiplexed self sys listenFd allowed absent fresh multiplex connected vacant =>
    have spawned := listed.spawn self .downstream sys.acceptedAddr
      (w.xprt .downstream).nextChannelId [.created sys.acceptedAddr, .accepted self.channelId]
    intro a new found alive outside
    by_cases same : a = sys.acceptedAddr
    · subst same
      rw [heap_modifyXprt, cells_spawn, if_pos rfl] at found
      cases found
      rw [fresh.transport]
      exact .inr (by simp)
    · rcases spawned a new found alive (by simp [same]) with member | link
      · refine .inl ?_
        by_cases here : new.transport = .downstream
        · rw [here] at member ⊢
          simpa using member
        · rwa [xprt_modifyXprt_of_ne here]
      · by_cases here : new.transport = .downstream
        · rw [here, (lists_spawn w _ _ _ _ _ _).2.2, vacant] at link
          cases link
        · exact .inr (by rwa [xprt_modifyXprt_of_ne here])
  | @flush ep self t found dead =>
    refine listed.map (cells_flush found t) ?_
    intro a old _ alive
    exact ⟨alive, rfl, fun polled => polled.flush _⟩
  | @release ep self found =>
    intro a new cell alive outside
    rw [cells_release] at cell
    split at cell
    · cases cell
    · rename_i different
      exact (listed a new cell alive outside).unlink different

theorem Started.listed {upstream downstream : TransportKind} (started : Started upstream downstream w) : w.Listed [] := by
  intro a self found _ _
  rcases started.endpoints with ⟨_, _, cells, _⟩ | ⟨ep, only, _, link, fresh, _, _, cells, _⟩
  · simp [cells] at found
  · rw [cells] at found
    split at found
    · rename_i here
      cases found
      rw [fresh.transport, here]
      exact .inr link
    · cases found

end Listed

end Testbus.Proxy
