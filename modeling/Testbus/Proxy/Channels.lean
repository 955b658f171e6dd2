import Testbus.Proxy.Runs

/-! The channel numbers of the listed endpoints. They come from the counter of the
accepting transport and from the peer's open frames. -/

namespace Testbus.Proxy

open Lib World

variable {w w' : World}

def World.channelOf (w : World) (ep : Addr) : Option UInt32 :=
  (w.heap.cells ep).map Endpoint.channelId

/-- The sides whose endpoints carry channel numbers. Two plain transports are joined
endpoint by endpoint, and those of the upstream one all carry `CHANNEL_ID_NONE`. -/
def Channeled (upstream downstream : TransportKind) : Side → Prop
  | .upstream => upstream.type = .simplex ∧ downstream.type = .multiplex
  | .downstream => downstream.type = .simplex

/-- The counter of the transport that accepts clients. -/
def World.count (w : World) : Nat := (w.xprt .downstream).nextChannelId.toNat

structure World.Numbered (upstream downstream : TransportKind) (w : World) : Prop where
  distinct : ∀ t, Channeled upstream downstream t → ∀ a ∈ (w.xprt t).epList,
    ∀ b ∈ (w.xprt t).epList, w.channelOf a = w.channelOf b → a = b
  nonzero : ∀ t, Channeled upstream downstream t → ∀ a ∈ (w.xprt t).epList,
    w.channelOf a ≠ some channelIdNone
  counter : downstream.type = .simplex → 0 < w.count ∧
    ∀ a ∈ (w.xprt .downstream).epList, ∀ channel, w.channelOf a = some channel → channel.toNat < w.count
  silent : upstream.type = .simplex → downstream.type = .simplex →
    ∀ a ∈ (w.xprt .upstream).epList, w.channelOf a = some channelIdNone

theorem World.Numbered.shrink (numbered : w.Numbered upstream downstream)
    (lists : ∀ t, (w'.xprt t).epList ⊆ (w.xprt t).epList)
    (same : ∀ t, ∀ a ∈ (w.xprt t).epList, w'.channelOf a = w.channelOf a)
    (grown : downstream.type = .simplex → w.count ≤ w'.count) :
    w'.Numbered upstream downstream where
  distinct t channeled a first b second equal := by
    rw [same t a (lists t first), same t b (lists t second)] at equal
    exact numbered.distinct t channeled a (lists t first) b (lists t second) equal
  nonzero t channeled a member := by
    rw [same t a (lists t member)]
    exact numbered.nonzero t channeled a (lists t member)
  counter simplex := by
    obtain ⟨positive, below⟩ := numbered.counter simplex
    refine ⟨lt_of_lt_of_le positive (grown simplex), fun a member channel given => ?_⟩
    rw [same _ a (lists _ member)] at given
    exact lt_of_lt_of_le (below a (lists _ member) channel given) (grown simplex)
  silent up down a member := by
    rw [same _ a (lists _ member)]
    exact numbered.silent up down a (lists _ member)

/-- What a list may take in: a number that is not zero and on nobody else of the list, with
the counter behind it. -/
structure Admissible (upstream downstream : TransportKind) (w w' : World) (t : Side)
    (channel : UInt32) : Prop where
  unused : Channeled upstream downstream t →
    channel ≠ channelIdNone ∧ ∀ a ∈ (w.xprt t).epList, w.channelOf a ≠ some channel
  silent : t = .upstream → upstream.type = .simplex → downstream.type = .simplex →
    channel = channelIdNone
  counter : downstream.type = .simplex →
    w.count ≤ w'.count ∧ (t = .downstream → channel.toNat < w'.count)

theorem World.Numbered.admit (numbered : w.Numbered upstream downstream) (ep : Addr)
    (admissible : Admissible upstream downstream w w' t channel) (here : (w'.xprt t).epList = (w.xprt t).epList ++ [ep])
    (others : ∀ s, s ≠ t → (w'.xprt s).epList = (w.xprt s).epList)
    (same : ∀ s, ∀ a ∈ (w.xprt s).epList, w'.channelOf a = w.channelOf a)
    (new : w'.channelOf ep = some channel) : w'.Numbered upstream downstream := by
  have members : ∀ s, ∀ a ∈ (w'.xprt s).epList, a ∈ (w.xprt s).epList ∨ s = t ∧ a = ep := by
    intro s a member
    by_cases side : s = t
    · subst side
      rw [here] at member
      simpa using member
    · rw [others s side] at member
      exact .inl member
  constructor
  · intro s channeled a first b second equal
    rcases members s a first with old | ⟨rfl, rfl⟩ <;>
      rcases members s b second with old' | ⟨side, rfl⟩
    · rw [same s a old, same s b old'] at equal
      exact numbered.distinct s channeled a old b old' equal
    · subst side
      rw [same s a old, new] at equal
      exact absurd equal ((admissible.unused channeled).2 a old)
    · rw [new, same _ b old'] at equal
      exact absurd equal.symm ((admissible.unused channeled).2 b old')
    · rfl
  · intro s channeled a member
    rcases members s a member with old | ⟨rfl, rfl⟩
    · rw [same s a old]
      exact numbered.nonzero s channeled a old
    · rw [new]
      exact fun equal => (admissible.unused channeled).1 (Option.some.inj equal)
  · intro simplex
    obtain ⟨positive, below⟩ := numbered.counter simplex
    obtain ⟨grown, behind⟩ := admissible.counter simplex
    refine ⟨lt_of_lt_of_le positive grown, fun a member given held => ?_⟩
    rcases members _ a member with old | ⟨side, rfl⟩
    · rw [same _ a old] at held
      exact lt_of_lt_of_le (below a old given held) grown
    · obtain rfl := Option.some.inj (new.symm.trans held)
      exact behind side.symm
  · intro up down a member
    rcases members _ a member with old | ⟨side, rfl⟩
    · rw [same _ a old]
      exact numbered.silent up down a old
    · rw [new, admissible.silent side.symm up down]

theorem channelOf_map {change : Addr → Endpoint → Endpoint}
    (changed : ∀ a, w'.heap.cells a = (w.heap.cells a).map (change a))
    (kept : ∀ a other, (change a other).channelId = other.channelId) (a : Addr) : w'.channelOf a = w.channelOf a := by
  rw [channelOf, changed, Option.map_map]
  congr 1
  funext other
  exact kept a other

theorem channelOf_heap (same : w'.heap = w.heap) (a : Addr) : w'.channelOf a = w.channelOf a := by
  rw [channelOf, same, channelOf]

theorem epList_settle (w : World) (ep : Addr) (t : Side) : ((w.settle ep).xprt t).epList ⊆ (w.xprt t).epList := by
  unfold World.settle
  split
  · exact List.Subset.refl _
  · rename_i self _
    split
    · rw [World.bury, ioEndpointLink, field_modifyXprt Transport.epList]
      · exact (unlink_sublist w ep self.transport t).1.subset
      · exact fun _ => rfl
    · exact List.Subset.refl _

theorem count_modifyXprt {change : Transport → Transport} (same : ∀ xprt, (change xprt).nextChannelId = xprt.nextChannelId) :
    (w.modifyXprt t change).count = w.count :=
  congrArg UInt32.toNat (field_modifyXprt Transport.nextChannelId .downstream same)

theorem count_unlink (w : World) (ep : Addr) (t : Side) : (ioEndpointUnlink w ep t).count = w.count := by
  unfold ioEndpointUnlink
  split <;> exact count_modifyXprt fun _ => rfl

theorem count_settle (w : World) (ep : Addr) : (w.settle ep).count = w.count := by
  unfold World.settle
  split
  · rfl
  · split
    · rw [World.bury, ioEndpointLink, count_modifyXprt, count_unlink]
      exact fun _ => rfl
    · rfl

theorem epList_flush (queue : List Mbuf) (s : Side) : ((w.flush ep t queue).xprt s).epList = (w.xprt s).epList := by
  rw [World.flush, xprt_discard, xprt_clear]
  exact field_modifyXprt Transport.epList s fun _ => by rfl

theorem count_flush (queue : List Mbuf) : (w.flush ep t queue).count = w.count := by
  rw [World.count, World.flush, xprt_discard, xprt_clear]
  exact count_modifyXprt fun _ => rfl

theorem epList_release (s : Side) : ((w.release ep t).xprt s).epList ⊆ (w.xprt s).epList :=
  (unlink_sublist w ep t s).1.subset

theorem World.Numbered.emit (numbered : w.Numbered upstream downstream) (event : Event) :
    (w.emit event).Numbered upstream downstream :=
  ⟨numbered.distinct, numbered.nonzero, numbered.counter, numbered.silent⟩

theorem World.Numbered.map (numbered : w.Numbered upstream downstream) {change : Addr → Endpoint → Endpoint}
    (lists : ∀ t, (w'.xprt t).epList ⊆ (w.xprt t).epList)
    (changed : ∀ a, w'.heap.cells a = (w.heap.cells a).map (change a))
    (kept : ∀ a other, (change a other).channelId = other.channelId)
    (counted : w'.count = w.count) :
    w'.Numbered upstream downstream :=
  numbered.shrink lists (fun _ a _ => channelOf_map changed kept a) fun _ => counted.ge

theorem World.Numbered.modify (numbered : w.Numbered upstream downstream)
    {change : Endpoint → Endpoint} (kept : ∀ other, (change other).channelId = other.channelId) :
    (w.modify ep change).Numbered upstream downstream := by
  refine numbered.map (fun _ => List.Subset.refl _) (cells_modify w ep · change) ?_ rfl
  intro a other
  by_cases same : a = ep <;> simp [same, kept]

theorem World.Numbered.charge (numbered : w.Numbered upstream downstream) (sink : Addr)
    (mbuf : Mbuf) : (w.charge sink mbuf).Numbered upstream downstream :=
  numbered.map (fun t => by rw [xprt_charge]; exact List.Subset.refl _) (cells_charge w sink mbuf)
    (fun _ _ => rfl) (by rw [World.count, xprt_charge, World.count])

theorem World.Numbered.clear (numbered : w.Numbered upstream downstream) (ep : Addr) :
    (w.clear ep).Numbered upstream downstream :=
  numbered.map (fun _ => List.Subset.refl _) (cells_clear w ep) (fun _ _ => rfl) rfl

theorem World.Numbered.shutRead (numbered : w.Numbered upstream downstream) (fd : Fd) :
    ((w.shutRead ep self fd).settle ep).Numbered upstream downstream := by
  refine numbered.shrink ?_ ?_ fun _ => ?_
  · intro t
    simpa using epList_settle (w.shutRead ep self fd) ep t
  · intro _ a _
    exact (channelOf_heap (heap_settle _ _) a).trans (channelOf_map (cells_shutRead w ep self fd) (fun _ _ => rfl) a)
  · rw [count_settle]
    simp [World.count]

theorem World.Numbered.quiet (numbered : w.Numbered upstream downstream) (moved : Quiet w w') :
    w'.Numbered upstream downstream := by
  cases moved with
  | pull =>
    exact numbered.map (fun t => by rw [xprt_pull]; exact List.Subset.refl _)
      (fun a => cells_pull _ _ _ _ a) (fun _ _ => rfl) (by rw [World.count, xprt_pull, World.count])
  | closeRead => exact numbered.shutRead _
  | @closeWrite ep self fd found =>
    refine numbered.shrink ?_ ?_ fun _ => ?_
    · intro t
      simpa using epList_settle (w.shutWrite ep self fd) ep t
    · intro _ a _
      exact (channelOf_heap (heap_settle _ _) a).trans (channelOf_map (cells_shutWrite found fd) (fun _ _ => rfl) a)
    · rw [count_settle]
      simp [World.count]
  | rebury =>
    exact numbered.shrink (epList_settle _ _) (fun _ a _ => channelOf_heap (heap_settle _ _) a) fun _ =>
      (count_settle ..).ge

/-- The last channel number. -/
def lastChannel : UInt32 := 0xffffffff

/-- A frame opens a channel that is not zero and is not open; where clients are accepted, it is not
the one that the counter is at, nor the last one. The counter is not at the last one when a client
is accepted. -/
def Guard.distinct : Guard where
  accept _ _ := True
  receive _ _ := True
  frame w source bp _ := (packetHeader bp).cmd = channelOpen → ∀ self, w.heap.cells source = some self →
    (packetHeader bp).channel ≠ channelIdNone ∧
      proxyChannelById w self.transport.other (packetHeader bp).channel = none ∧
      (self.transport.other = .downstream → (packetHeader bp).channel ≠ lastChannel ∧
        (packetHeader bp).channel ≠ (w.xprt .downstream).nextChannelId)
  release _ _ := True
  count w := (w.xprt .downstream).type = .simplex → (w.xprt .downstream).nextChannelId ≠ lastChannel

/-- The lookup fails exactly when no listed endpoint has the number. -/
theorem channelById_none :
    proxyChannelById w t channel = none ↔ ∀ a ∈ (w.xprt t).epList, w.channelOf a ≠ some channel := by
  rw [proxyChannelById, List.find?_eq_none]
  refine forall₂_congr fun a _ => ?_
  cases cell : w.heap.cells a <;> simp [channelOf, cell]

theorem epList_adopt_self (sink : Addr) : ((w.adopt ep t sink).xprt t).epList = (w.xprt t).epList ++ [ep] := by
  simp [World.adopt, ioEndpointLink]

theorem epList_adopt_of_ne (different : s ≠ t) (sink : Addr) :
    ((w.adopt ep t sink).xprt s).epList = (w.xprt s).epList := by
  simp [World.adopt, ioEndpointLink, xprt_modifyXprt_of_ne different]

theorem count_adopt (sink : Addr) : (w.adopt ep t sink).count = w.count := by
  rw [World.adopt, ioEndpointLink, count_modifyXprt]
  · rfl
  · exact fun _ => rfl

theorem count_counter (next : UInt32) : (w.counter t next).count = if t = .downstream then next.toNat else w.count := by
  split
  · subst t
    rw [World.count, World.counter, xprt_modifyXprt_self]
  · rename_i different
    rw [World.count, World.counter, xprt_modifyXprt_of_ne (Ne.symm different), World.count]

theorem count_spawn (next : UInt32) (events : List Event) :
    (w.spawn t ep self next events).count = if t = .downstream then next.toNat else w.count :=
  count_counter (w := { w with heap := w.heap.alloc ep self }) next

theorem toNat_next (last : channel ≠ lastChannel) : (channel + 1).toNat = channel.toNat + 1 := by
  rw [ne_eq, ← UInt32.toNat_inj] at last
  rw [UInt32.toNat_add]
  have bound := channel.toNat_lt
  simp only [lastChannel, UInt32.reduceToNat] at *
  omega

/-- The counter is put behind every number but the last one and the one that it is at. -/
theorem behind_counter {channel count next : UInt32} (last : channel ≠ lastChannel) (other : channel ≠ count)
    (counted : next = if channel > count then channel + 1 else count) :
    count.toNat ≤ next.toNat ∧ channel.toNat < next.toNat := by
  have passed := toNat_next last
  rw [ne_eq, ← UInt32.toNat_inj] at other
  subst next
  split <;> rename_i compared <;> rw [gt_iff_lt, UInt32.lt_iff_toNat_lt] at compared <;> omega

/-- The number that the counter is at is free. -/
theorem World.Numbered.free (numbered : w.Numbered upstream downstream) (simplex : downstream.type = .simplex) :
    (w.xprt .downstream).nextChannelId ≠ channelIdNone ∧
      ∀ a ∈ (w.xprt .downstream).epList, w.channelOf a ≠ some (w.xprt .downstream).nextChannelId := by
  obtain ⟨positive, below⟩ := numbered.counter simplex
  refine ⟨fun zero => ?_, fun a member given => lt_irrefl _ (below a member _ given)⟩
  rw [World.count, zero] at positive
  cases positive

theorem World.Numbered.adopt (numbered : w.Numbered upstream downstream) (channel : UInt32)
    (admissible : Admissible upstream downstream w middle t channel)
    (lists : ∀ s, (middle.xprt s).epList = (w.xprt s).epList)
    (same : ∀ s, ∀ a ∈ (w.xprt s).epList, middle.channelOf a = w.channelOf a)
    (new : middle.channelOf ep = some channel) : (middle.adopt ep t sink).Numbered upstream downstream := by
  have adopted := channelOf_map (cells_adopt middle ep t sink) fun _ _ => rfl
  refine numbered.admit ep ⟨admissible.unused, admissible.silent, ?_⟩ ?_ ?_ ?_ ?_
  · rw [count_adopt]
    exact admissible.counter
  · rw [epList_adopt_self, lists]
  · intro s different
    rw [epList_adopt_of_ne different, lists]
  · intro s a member
    rw [adopted, same s a member]
  · rw [adopted, new]

theorem channelOf_spawn {next : UInt32} {events : List Event} (a : Addr) :
    (w.spawn t ep self next events).channelOf a =
      if a = ep then some self.channelId else w.channelOf a := by
  rw [channelOf, cells_spawn]
  split <;> rfl

theorem channelOf_spawn_listed (lists : w.Lists) (absent : w.heap.cells ep = none)
    {next : UInt32} {events : List Event} (s : Side) (a : Addr) (member : a ∈ (w.xprt s).epList) :
    (w.spawn t ep self next events).channelOf a = w.channelOf a := by
  have different : a ≠ ep := by
    rintro rfl
    exact (lists.unlisted absent).epList s member
  rw [channelOf_spawn, if_neg different]

theorem World.Numbered.act (numbered : w.Numbered upstream downstream) (shape : w.Shape)
    (configured : w.Configured upstream downstream) (acted : Act .distinct w w') : w'.Numbered upstream downstream := by
  cases acted with
  | quiet moved => exact numbered.quiet moved
  | mark | connect | detach => exact numbered.modify fun _ => rfl
  | transmit => exact (numbered.emit _).modify fun _ => rfl
  | copied | framed => exact (numbered.emit _).charge _ _
  | leave => exact (numbered.charge _ _).shutRead _
  | @receive ep self bp =>
    have filled : (w.modify ep fun self => { self with rbuf := some bp }).Numbered
        upstream downstream := numbered.modify fun _ => rfl
    exact filled.emit _
  | @opened source self bp sys born next arrived cmd absent fresh channel connected counted =>
    obtain ⟨nonzero, unused, apart⟩ := arrived.allowed cmd self arrived.found
    have roles := configured.demux arrived.handler
    refine World.Numbered.clear (numbered.adopt (packetHeader bp).channel
      ⟨fun _ => ⟨nonzero, channelById_none.mp unused⟩, ?_, fun _ => ?_⟩ ?_ ?_ ?_) _
    · intro side up down
      have other := roles.1
      cases here : self.transport with
      | upstream => simp [here, Side.other] at side
      | downstream => simp [here, configured.downType, down] at other
    · rw [count_spawn]
      split
      · rename_i side
        obtain ⟨last, other⟩ := apart side
        rw [side] at counted
        obtain ⟨grown, behind⟩ := behind_counter last other counted
        exact ⟨grown, fun _ => behind⟩
      · rename_i side
        exact ⟨le_rfl, fun here => absurd here side⟩
    · exact fun s => (lists_spawn (w.emit _) _ _ _ next [.created sys.connectedAddr] s).1
    · exact fun s a member =>
        channelOf_spawn_listed (shape.lists.emit (.dispatched source bp.contents)) absent s a member
    · rw [channelOf_spawn, if_pos rfl, ← channel]
  | ignored => exact (numbered.emit _).clear _
  | closing =>
    refine World.Numbered.clear ((numbered.emit _).modify ?_) _
    exact fun _ => rfl
  | deliver => exact (((numbered.emit _).emit _).charge _ _).clear _
  | @administer t next events admin counted =>
    refine numbered.shrink (fun s => by rw [xprt_note, (lists_counter ..).1]; exact List.Subset.refl _)
      (fun _ a _ => channelOf_heap rfl a) fun simplex => ?_
    refine le_of_le_of_eq ?_ (count_counter (w := w) (t := t) next).symm
    split
    · subst t
      obtain rfl | ⟨last, rfl⟩ := counted rfl
      · exact le_rfl
      · rw [toNat_next (last (configured.downType.trans simplex))]
        exact Nat.le_succ _
    · exact le_rfl
  | @announced self sys sink allowed absent fresh simplex channel link counted =>
    refine numbered.adopt self.channelId ⟨fun channeled => ?_, ?_, fun _ => ?_⟩ ?_ ?_ ?_
    · rw [channel]
      exact numbered.free channeled
    · rintro ⟨⟩
    · have passed := toNat_next (counted simplex)
      have next : ((w.spawn .downstream sys.acceptedAddr self ((w.xprt .downstream).nextChannelId + 1)
          [.created sys.acceptedAddr, .accepted self.channelId]).charge sink (proxyChannelOpenNew self.channelId)).count =
            w.count + 1 := by
        rw [World.count, xprt_charge, ← World.count, count_spawn, if_pos rfl, passed, World.count]
      rw [next, channel]
      exact ⟨Nat.le_succ _, fun _ => Nat.lt_succ_self _⟩
    · intro s
      rw [xprt_charge, (lists_spawn ..).1]
    · intro s a member
      rw [channelOf_map (cells_charge _ _ _) fun _ _ => rfl, channelOf_spawn_listed shape.lists absent s a member]
    · rw [channelOf_map (cells_charge _ _ _) fun _ _ => rfl, channelOf_spawn, if_pos rfl]
  | @paired self other sys allowed absent fresh simplex channel alone vacant different partner silent counted =>
    have passed := toNat_next (counted simplex)
    have vacant' : (w.spawn .downstream sys.acceptedAddr self ((w.xprt .downstream).nextChannelId + 1)
        [.created sys.acceptedAddr, .accepted self.channelId]).heap.cells sys.connectedAddr = none := by
      rw [cells_spawn, if_neg different, vacant]
    generalize both : (w.spawn .downstream sys.acceptedAddr self ((w.xprt .downstream).nextChannelId + 1)
        [.created sys.acceptedAddr, .accepted self.channelId]).spawn .upstream sys.connectedAddr
        other (w.xprt .upstream).nextChannelId [.created sys.connectedAddr] = spawned
    have lists : ∀ s, (spawned.xprt s).epList = (w.xprt s).epList := by
      intro s
      rw [← both, (lists_spawn ..).1, (lists_spawn ..).1]
    have same : ∀ s, ∀ a ∈ (w.xprt s).epList, spawned.channelOf a = w.channelOf a := by
      intro s a member
      have listed := member
      rw [← (lists_spawn w .downstream sys.acceptedAddr self ((w.xprt .downstream).nextChannelId + 1)
        [.created sys.acceptedAddr, .accepted self.channelId] s).1] at listed
      rw [← both, channelOf_spawn_listed (shape.lists.spawn absent ..) vacant' s a listed,
        channelOf_spawn_listed shape.lists absent s a member]
    have next : spawned.count = w.count + 1 := by
      rw [← both, count_spawn, if_neg (by decide), count_spawn, if_pos rfl, passed, World.count]
    have adopted := channelOf_map (cells_adopt spawned sys.connectedAddr .upstream sys.acceptedAddr) fun _ _ => rfl
    have upper : (spawned.adopt sys.connectedAddr .upstream sys.acceptedAddr).Numbered
        upstream downstream := by
      refine numbered.adopt channelIdNone ⟨?_, fun _ _ _ => rfl, fun _ => ?_⟩ lists same ?_
      · rintro ⟨_, multiplex⟩
        rw [configured.downType, multiplex] at simplex
        cases simplex
      · rw [next]
        exact ⟨Nat.le_succ _, fun same => by cases same⟩
      · rw [← both, channelOf_spawn, if_pos rfl, silent]
        rfl
    refine upper.adopt self.channelId ⟨fun channeled => ?_, ?_, fun _ => ?_⟩ (fun _ => rfl) (fun _ _ _ => rfl) ?_
    · obtain ⟨nonzero, unused⟩ := numbered.free channeled
      refine ⟨by rwa [channel], ?_⟩
      intro a member
      rw [epList_adopt_of_ne (by decide), lists] at member
      rw [adopted, same _ a member, channel]
      exact unused a member
    · rintro ⟨⟩
    · refine ⟨le_rfl, fun _ => ?_⟩
      rw [count_adopt, next, channel]
      exact Nat.lt_succ_self _
    · rw [adopted, ← both, channelOf_spawn, if_neg different.symm, channelOf_spawn, if_pos rfl]
  | @multiplexed self sys listenFd allowed absent fresh multiplex =>
    refine numbered.shrink ?_ ?_ fun single => ?_
    · intro s
      have kept := (lists_spawn w .downstream sys.acceptedAddr self (w.xprt .downstream).nextChannelId
        [.created sys.acceptedAddr, .accepted self.channelId] s).1
      rw [field_modifyXprt Transport.epList, kept]
      · exact List.Subset.refl _
      · exact fun _ => rfl
    · intro s a member
      have same : (w.spawn .downstream sys.acceptedAddr self (w.xprt .downstream).nextChannelId
          [.created sys.acceptedAddr, .accepted self.channelId]).channelOf a = w.channelOf a :=
        channelOf_spawn_listed shape.lists absent s a member
      exact same
    · rw [configured.downType, single] at multiplex
      cases multiplex
  | @flush ep self t found dead =>
    exact numbered.map (fun s => by rw [epList_flush]; exact List.Subset.refl _) (cells_flush found t)
      (fun _ _ => rfl) (count_flush _)
  | @release ep self found dead empty =>
    refine numbered.shrink epList_release (fun s a member => ?_) fun _ => ?_
    · have different : a ≠ ep := by
        rintro rfl
        exact (shape.lists.dead_unlisted found dead s).1 member
      rw [channelOf, cells_release, if_neg different]
      rfl
    · exact (count_unlink w ep self.transport).ge

theorem Started.numbered (started : Started upstream downstream w) : w.Numbered upstream downstream := by
  constructor <;> intros <;> simp_all [started.epList, World.count, started.counter]

/-- As long as no channel is opened that is open, or zero, or just what the counter is at, the
listed endpoints of a transport that carries channels have distinct numbers other than zero, and
those of the upstream one of two plain transports have none. -/
theorem channels_distinct {s : State}
    (reached : RunUnder (Permits .distinct) upstream downstream s) :
    s.world.Numbered upstream downstream :=
  (RunUnder.invariant (G := .distinct) _ (fun _ started => started.numbered)
    (fun _ _ shape configured numbered acted => numbered.act shape configured acted)
    (fun _ _ permits => permits) reached).2.2

/-- Two clients are accepted, and the peer opens a third channel. -/
def openChannels : List Syscalls :=
  pollRound [{ pollin := true }, {}] [{ accepts := some 5, acceptedAddr := 2 }, {}] ++
  pollRound [{ pollin := true }, { pollin := true }]
    [{ accepts := some 6, acceptedAddr := 3 },
     { reads := [some (DataHeader.mk channelOpen 7 0).bytes], opens := some 7, connectedAddr := 8 }]

/-- Evaluates `Permits .distinct`. -/
def distinctCheck (s : State) (sys : Syscalls) : Bool :=
  decide ((s.world.xprt .downstream).nextChannelId ≠ lastChannel) &&
  (s.packet sys).all fun (w, source, bp) => (w.heap.cells source).all fun self =>
    decide ((packetHeader bp).channel ≠ channelIdNone ∧
      proxyChannelById w self.transport.other (packetHeader bp).channel = none ∧
      (packetHeader bp).channel ≠ lastChannel ∧
      (packetHeader bp).channel ≠ (w.xprt .downstream).nextChannelId)

theorem distinctCheck_sound (s : State) (sys : Syscalls) (checked : distinctCheck s sys = true) :
    Permits .distinct s sys := by
  simp only [distinctCheck, Bool.and_eq_true, decide_eq_true_eq] at checked
  refine ⟨fun _ _ => trivial, fun _ _ => trivial, ?_, fun _ _ _ _ _ => trivial, fun _ _ => checked.1⟩
  intro w ep bp packet _ self found
  have fresh := checked.2
  simp only [packet, Option.all_some, found, decide_eq_true_eq] at fresh
  exact ⟨fresh.1, fresh.2.1, fun _ => fresh.2.2⟩

theorem channels_distinct_opened : ∃ s,
    RunUnder (Permits .distinct) (.unixMux "up") (.unix "down") s ∧
      (s.world.xprt .downstream).epList = [2, 3, 8] ∧
      s.world.Numbered (.unixMux "up") (.unix "down") := by
  obtain ⟨s, ran, listed⟩ := run_some (.unixMux "up") (.unix "down")
    { opens := some 4, connectedAddr := 1, listens := some 3 } openChannels
    (fun s => (s.world.xprt .downstream).epList) [2, 3, 8] (by decide +kernel)
  have reached := runUnder_of_check distinctCheck_sound (by decide +kernel) ran
  exact ⟨s, reached, listed, channels_distinct reached⟩

/-- The peer opens a channel twice. -/
def openTwice : List Syscalls :=
  pollRound [{}, { pollin := true }]
    [{}, { reads := [some (DataHeader.mk channelOpen 7 0).bytes], opens := some 7, connectedAddr := 8 }] ++
  pollRound [{}, { pollin := true }]
    [{}, { reads := [some (DataHeader.mk channelOpen 7 0).bytes], opens := some 8, connectedAddr := 9 }, {}]

/-- The duplicate is logged and opened. -/
theorem channels_not_distinct : ¬ ∀ (upstream downstream : TransportKind) (s : State),
    Reachable upstream downstream s → ∀ (t : Side), ∀ a ∈ (s.world.xprt t).epList,
      ∀ self, s.world.heap.cells a = some self → self.type = .simplex →
        self.channelId ≠ channelIdNone ∧
          ∀ b ∈ (s.world.xprt t).epList, ∀ other, s.world.heap.cells b = some other →
            other.type = .simplex → other.channelId = self.channelId → b = a := by
  intro claimed
  obtain ⟨s, ran, view⟩ := run_some (.unixMux "up") (.unix "down")
    { opens := some 4, connectedAddr := 1, listens := some 3 } openTwice
    (fun s => ((s.world.xprt .downstream).epList, (s.world.heap.cells 8).map fun self => (self.type, self.channelId),
      (s.world.heap.cells 9).map fun self => (self.type, self.channelId)))
    ([8, 9], some (.simplex, 7), some (.simplex, 7)) (by decide +kernel)
  simp only [Prod.mk.injEq, Option.map_eq_some_iff] at view
  obtain ⟨listed, ⟨self, found, simplex, channel⟩, other, found', simplex', channel'⟩ := view
  have same := (claimed _ _ s (reachable_of_run ran) .downstream 8 (by simp [listed]) self found simplex).2
    9 (by simp [listed]) other found' simplex' (channel'.trans channel.symm)
  cases same

end Testbus.Proxy
