import Testbus.Proxy.Channels
import Testbus.Proxy.HalfClose

namespace Testbus.Proxy

open Lib World

variable {w w' : World}

/-- Whatever is queued to an open endpoint has a buffer at hand in front of it. -/
def Endpoint.pulledUp (self : Endpoint) : Bool :=
  self.wfd.isNone || self.wqueue.isEmpty || self.wbuf.isSome

/-- The endpoint is to be shut down as soon as everything is written, and everything is. -/
def Endpoint.spent (self : Endpoint) : Bool :=
  self.shutdownWrite && self.wbuf.isNone && self.wqueue.isEmpty

/-- Preparing the endpoint would change nothing. -/
def Endpoint.prepared (self : Endpoint) : Bool :=
  self.pulledUp && (self.wfd.isNone || !self.spent)

/-- Preparing the endpoint closes the last descriptor that it has. -/
def Endpoint.leaves (self : Endpoint) : Bool :=
  self.spent && self.wfd.isSome && self.rfd.isNone

/-- The endpoints behind the first one of a list that leaves it when it is prepared. -/
def unprepared (w : World) : List Addr → List Addr
  | [] => []
  | ep :: rest => if (w.heap.cells ep).any Endpoint.leaves then rest else unprepared w rest

/-- What preparing the endpoints of a transport is for. -/
structure Prepared (t : Side) (w w' : World) : Prop where
  pulledUp : ∀ a self, w'.Polled t a → w'.heap.cells a = some self → self.pulledUp = true
  shutDown : ∀ a self, w.Polled t a → w.heap.cells a = some self → self.spent = true →
    ∃ left, w'.heap.cells a = some left ∧ left.wfd = none

theorem unprepared_eq (w : World) (members : List Addr) :
    unprepared w members = behindFirst Endpoint.leaves w members := by
  induction members with
  | nil => rfl
  | cons ep rest ih => rw [unprepared, behindFirst, ih]

theorem unprepared_subset (w : World) (members : List Addr) : unprepared w members ⊆ members := by
  rw [unprepared_eq]
  exact behindFirst_subset _ _ _

theorem unprepared_aside (aside : ∀ a ∈ members, Aside a w w')
    (live : ∀ a ∈ members, (w.heap.cells a).isSome) : unprepared w' members = unprepared w members := by
  rw [unprepared_eq, unprepared_eq]
  exact behindFirst_aside (fun _ _ => rfl) aside live

theorem polled_settle (polled : (w.settle ep).Polled t a) : w.Polled t a := by
  rcases polled with listed | link
  · exact .inl (epList_settle w ep t listed)
  · refine .inr ?_
    unfold World.settle at link
    split at link
    · exact link
    · rename_i self _
      split at link
      · by_cases same : t = self.transport
        · subst same
          rw [multiplex_bury] at link
          split at link
          · cases link
          · exact link
        · rwa [xprt_bury_of_ne same] at link
      · exact link

theorem epList_settle_outside (outside : ep ∉ (w.xprt t).epList) : ((w.settle ep).xprt t).epList = (w.xprt t).epList := by
  unfold World.settle
  split
  · rfl
  · rename_i self _
    split
    · by_cases same : t = self.transport
      · subst same
        rw [epList_bury fun _ => outside, List.erase_of_not_mem outside]
      · rw [xprt_bury_of_ne same]
    · rfl

/-- Preparing an endpoint pulls a message up, or closes the write side, or does nothing. -/
theorem pollPrepare_ok (done : ioEndpointPollPrepare w ep = .ok w') :
    ∃ self, w.heap.cells ep = some self ∧
      ((self.prepared = true ∧ w' = w) ∨
        (∃ mbuf rest, self.wbuf = none ∧ self.wqueue = mbuf :: rest ∧ w' = w.pull ep mbuf rest) ∨
        ∃ fd, self.wfd = some fd ∧ self.spent = true ∧ w' = (w.shutWrite ep self fd).settle ep) := by
  obtain ⟨self, dereffed, rest⟩ := bind_ok.mp done
  have found := deref_ok.mp dereffed
  refine ⟨self, found, ?_⟩
  split at rest
  · rename_i writing
    obtain ⟨fd, opened⟩ := Option.isSome_iff_exists.mp writing
    obtain ⟨⟨pending, middle⟩, pulled, last⟩ := bind_ok.mp rest
    obtain ⟨same, found', ⟨bp, buffer, _, rfl, rfl⟩ | ⟨blank, empty, rfl, rfl⟩ |
      ⟨mbuf, others, blank, queue, rfl, rfl⟩⟩ := pullup_ok pulled
    · cases found.symm.trans found'
      cases last
      exact .inl ⟨by simp [Endpoint.prepared, Endpoint.pulledUp, Endpoint.spent, buffer], rfl⟩
    · cases found.symm.trans found'
      by_cases marked : self.shutdownWrite = true
      · have shut : ioEndpointShutdown middle ep .wr = .ok w' := by simpa [marked] using last
        refine .inr (.inr ⟨fd, opened, by simp [Endpoint.spent, marked, blank, empty], ?_⟩)
        obtain ⟨after, written, buried⟩ := bind_ok.mp shut
        obtain ⟨_, _, rfl⟩ := buryDead_ok buried
        obtain ⟨same, found'', ⟨closed, _⟩ | ⟨half, left, fd', opened', pulled', cell, _, _, _, rfl⟩⟩ :=
          shutdownWrite_ok written
        · cases found.symm.trans found''
          cases opened.symm.trans closed
        · cases found.symm.trans found''
          cases opened.symm.trans opened'
          cases pulled' with
          | same =>
            cases found.symm.trans cell
            rfl
          | pull found' _ queue =>
            cases found.symm.trans found'
            cases empty.symm.trans queue
      · have kept : middle = w' := by simpa [marked] using last
        subst kept
        exact .inl ⟨by simp [Endpoint.prepared, Endpoint.pulledUp, Endpoint.spent, empty, marked], rfl⟩
    · cases found.symm.trans found'
      cases last
      exact .inr (.inl ⟨mbuf, others, blank, queue, rfl⟩)
  · rename_i closed
    cases rest
    exact .inl ⟨by simp_all [Endpoint.prepared, Endpoint.pulledUp], rfl⟩

theorem pollPrepare_aside (different : a ≠ ep) (done : ioEndpointPollPrepare w ep = .ok w') : Aside a w w' := by
  obtain ⟨self, found, ⟨_, rfl⟩ | ⟨mbuf, rest, _, _, rfl⟩ | ⟨fd, _, _, rfl⟩⟩ := pollPrepare_ok done
  · exact .heap rfl
  · exact .map (cells_pull w ep mbuf rest) fun old => ⟨_, by simp [different]; rfl⟩
  · have shut : Aside a w (w.shutWrite ep self fd) :=
      .map (cells_shutWrite found fd) fun old => ⟨_, by simp [different]; rfl⟩
    exact shut.trans (.heap (heap_settle _ _))

theorem pollPrepare_self (found : w.heap.cells ep = some self) (done : ioEndpointPollPrepare w ep = .ok w') :
    ∃ left, w'.heap.cells ep = some left ∧ left.pulledUp = true ∧ (self.spent = true → left.wfd = none) := by
  obtain ⟨same, found', ⟨prepared, rfl⟩ | ⟨mbuf, rest, blank, queue, rfl⟩ | ⟨fd, _, _, rfl⟩⟩ := pollPrepare_ok done
  · cases found.symm.trans found'
    simp only [Endpoint.prepared, Bool.and_eq_true, Bool.or_eq_true, Option.isNone_iff_eq_none,
      Bool.not_eq_true'] at prepared
    refine ⟨self, found, prepared.1, fun spent => ?_⟩
    exact prepared.2.resolve_right (by simp [spent])
  · cases found.symm.trans found'
    have cell := cells_pull w ep mbuf rest ep
    rw [found, Option.map_some] at cell
    refine ⟨_, cell, by simp [Endpoint.pulledUp], fun spent => ?_⟩
    simp [Endpoint.spent, queue] at spent
  · cases found.symm.trans found'
    have cell := cells_shutWrite found fd ep
    rw [found, Option.map_some] at cell
    refine ⟨_, by rw [heap_settle]; exact cell, by simp [Endpoint.pulledUp], fun _ => by simp⟩

theorem pollPrepare_stays (found : w.heap.cells ep = some self) (stays : self.leaves = false)
    (done : ioEndpointPollPrepare w ep = .ok w') : w'.xprt = w.xprt := by
  obtain ⟨same, found', ⟨_, rfl⟩ | ⟨mbuf, rest, _, _, rfl⟩ | ⟨fd, writing, spent, rfl⟩⟩ := pollPrepare_ok done
  · rfl
  · rw [xprt_pull]
  · cases found.symm.trans found'
    have cell := cells_shutWrite found fd ep
    rw [found, Option.map_some] at cell
    have reading : self.rfd.isNone = false := by simpa [Endpoint.leaves, spent, writing] using stays
    rw [settle_alive cell (by simp [Endpoint.dead, reading]), xprt_shutWrite]

theorem pollPrepare_leaves (found : w.heap.cells ep = some self) (leaves : self.leaves = true)
    (done : ioEndpointPollPrepare w ep = .ok w') : ∃ left, w'.heap.cells ep = some left ∧ left.dead = true := by
  simp only [Endpoint.leaves, Bool.and_eq_true, Option.isNone_iff_eq_none] at leaves
  obtain ⟨⟨spent, writing⟩, closed⟩ := leaves
  obtain ⟨same, found', ⟨prepared, _⟩ | ⟨_, _, _, queue, _⟩ | ⟨fd, _, _, rfl⟩⟩ := pollPrepare_ok done
  · cases found.symm.trans found'
    simp [Endpoint.prepared, spent, Option.isSome_iff_ne_none.mp writing] at prepared
  · cases found.symm.trans found'
    simp [Endpoint.spent, queue] at spent
  · cases found.symm.trans found'
    have cell := cells_shutWrite found fd ep
    rw [found, Option.map_some] at cell
    exact ⟨_, by rw [heap_settle]; exact cell, by simp [Endpoint.dead, closed]⟩

/-- Nobody new is polled, and all others still are. -/
theorem pollPrepare_polled (done : ioEndpointPollPrepare w ep = .ok w') :
    (w'.Polled t a → w.Polled t a) ∧ (a ≠ ep → w.Polled t a → w'.Polled t a) := by
  obtain ⟨self, _, ⟨_, rfl⟩ | ⟨mbuf, rest, _, _, rfl⟩ | ⟨fd, _, _, rfl⟩⟩ := pollPrepare_ok done
  · exact ⟨id, fun _ => id⟩
  · have same : (w.pull ep mbuf rest).Polled t a ↔ w.Polled t a := by
      rw [World.Polled, xprt_pull, World.Polled]
    exact ⟨same.mp, fun _ => same.mpr⟩
  · have same : (w.shutWrite ep self fd).Polled t a ↔ w.Polled t a := by
      rw [World.Polled, xprt_shutWrite, World.Polled]
    exact ⟨fun polled => same.mp (polled_settle polled), fun different polled => (same.mpr polled).settle different⟩

theorem pollPrepare_epList (outside : ep ∉ (w.xprt t).epList)
    (done : ioEndpointPollPrepare w ep = .ok w') : (w'.xprt t).epList = (w.xprt t).epList := by
  obtain ⟨self, _, ⟨_, rfl⟩ | ⟨mbuf, rest, _, _, rfl⟩ | ⟨fd, _, _, rfl⟩⟩ := pollPrepare_ok done
  · rfl
  · rw [xprt_pull]
  · rw [epList_settle_outside (by rwa [xprt_shutWrite]), xprt_shutWrite]

section Walk

variable {members : List Addr}

theorem pollPrepareAll_aside (outside : a ∉ members) (done : pollPrepareAll w t members = .ok w') : Aside a w w' := by
  induction members generalizing w with
  | nil => cases done; exact .heap rfl
  | cons ep rest ih =>
    obtain ⟨middle, first, later⟩ := bind_ok.mp done
    obtain ⟨different, outside'⟩ : a ≠ ep ∧ a ∉ rest := by simpa using outside
    have here := pollPrepare_aside different first
    split at later
    · exact here.trans (ih outside' later)
    · cases later
      exact here

theorem pollPrepareAll_polled (done : pollPrepareAll w t members = .ok w') :
    (w'.Polled t a → w.Polled t a) ∧ (a ∉ members → w.Polled t a → w'.Polled t a) := by
  induction members generalizing w with
  | nil => cases done; exact ⟨id, fun _ => id⟩
  | cons ep rest ih =>
    obtain ⟨middle, first, later⟩ := bind_ok.mp done
    obtain ⟨back, forth⟩ := pollPrepare_polled (t := t) (a := a) first
    split at later
    · refine ⟨fun polled => back ((ih later).1 polled), fun outside polled => ?_⟩
      obtain ⟨different, outside'⟩ : a ≠ ep ∧ a ∉ rest := by simpa using outside
      exact (ih later).2 outside' (forth different polled)
    · cases later
      exact ⟨back, fun outside polled => forth (fun same => outside (by simp [same])) polled⟩

/-- The endpoint is as preparing should leave it. -/
def Readied (a : Addr) (w w' : World) : Prop :=
  ∀ self, w.heap.cells a = some self → ∃ left, w'.heap.cells a = some left ∧
    left.pulledUp = true ∧ (self.spent = true → left.wfd = none)

theorem Readied.aside (readied : Readied a w middle) (aside : Aside a middle w') : Readied a w w' := by
  intro self found
  obtain ⟨left, cell, pulledUp, closed⟩ := readied self found
  obtain ⟨credit, cell'⟩ := aside left cell
  exact ⟨_, cell', pulledUp, closed⟩

theorem Aside.readied (aside : Aside a w middle) (readied : Readied a middle w') : Readied a w w' := by
  intro self found
  obtain ⟨credit, cell⟩ := aside self found
  obtain ⟨left, cell', pulledUp, closed⟩ := readied _ cell
  exact ⟨left, cell', pulledUp, closed⟩

/-- Where preparing has nothing to do, leaving an endpoint aside is as good, and only there. -/
theorem Aside.readied_iff (aside : Aside a w w') (found : w.heap.cells a = some self) :
    Readied a w w' ↔ self.prepared = true := by
  obtain ⟨credit, cell⟩ := aside self found
  constructor
  · intro readied
    obtain ⟨left, cell', pulledUp, closed⟩ := readied self found
    cases cell.symm.trans cell'
    have up : self.pulledUp = true := pulledUp
    by_cases spent : self.spent = true
    · have shut : self.wfd = none := closed spent
      simp [Endpoint.prepared, up, shut]
    · simp [Endpoint.prepared, up, spent]
  · intro prepared same found'
    cases found.symm.trans found'
    simp only [Endpoint.prepared, Bool.and_eq_true, Bool.or_eq_true, Option.isNone_iff_eq_none,
      Bool.not_eq_true'] at prepared
    refine ⟨_, cell, prepared.1, fun spent => ?_⟩
    exact prepared.2.resolve_right (by simp [spent])

/-- The walk prepares the endpoints up to the first that leaves, and leaves the others as they
were and where they were. -/
theorem pollPrepareAll_visits (lists : w.Lists) (once : members.Nodup)
    (listed : ∀ a ∈ members, a ∈ (w.xprt t).epList) (done : pollPrepareAll w t members = .ok w') :
    ∀ a ∈ members, (a ∉ unprepared w members → Readied a w w') ∧
      (a ∈ unprepared w members → Aside a w w' ∧ w'.Polled t a) := by
  induction members generalizing w with
  | nil => intro a member; cases member
  | cons ep rest ih =>
    obtain ⟨middle, first, later⟩ := bind_ok.mp done
    obtain ⟨self, found, _, _⟩ := lists.listed t ep (listed ep (by simp))
    obtain ⟨outside, once'⟩ := List.nodup_cons.mp once
    have lists' : middle.Lists := lists.acts (G := .free) (pollPrepare_acts first)
    have readied : Readied ep w middle := by
      intro same found'
      exact pollPrepare_self found' first
    have apart : ∀ a ∈ rest, a ≠ ep := by
      rintro a member rfl
      exact outside member
    have aside : ∀ a ∈ rest, Aside a w middle := fun a member =>
      pollPrepare_aside (apart a member) first
    have polled : ∀ a ∈ rest, middle.Polled t a := fun a member =>
      (pollPrepare_polled first).2 (apart a member) (.inl (listed a (by simp [member])))
    have live : ∀ a ∈ rest, (w.heap.cells a).isSome := by
      intro a member
      obtain ⟨other, cell, _⟩ := lists.listed t a (listed a (by simp [member]))
      rw [cell]
      rfl
    simp only [unprepared, found, Option.any_some]
    cases leaves : self.leaves with
    | true =>
      -- It has left the list, and the walk is over.
      obtain ⟨left, cell, dead⟩ := pollPrepare_leaves found leaves first
      have gone : ep ∉ (middle.xprt t).epList := by
        intro stays
        obtain ⟨same, cell', _, alive⟩ := lists'.listed t ep stays
        cases cell.symm.trans cell'
        simp [dead] at alive
      rw [if_neg gone] at later
      cases later
      rw [if_pos rfl]
      intro a member
      refine ⟨fun visited => ?_, fun skipped => ⟨aside a skipped, polled a skipped⟩⟩
      rcases List.mem_cons.mp member with rfl | behind
      · exact readied
      · exact absurd behind visited
    | false =>
      have kept := pollPrepare_stays found leaves first
      rw [if_pos (by rw [kept]; exact listed ep (by simp))] at later
      have visits := ih lists' once' (by rw [kept]; exact fun a member => listed a (by simp [member])) later
      rw [unprepared_aside aside live] at visits
      rw [if_neg (by simp)]
      intro a member
      rcases List.mem_cons.mp member with rfl | behind
      · exact ⟨fun _ => readied.aside (pollPrepareAll_aside outside later),
          fun skipped => absurd (unprepared_subset w rest skipped) outside⟩
      · obtain ⟨visited, left⟩ := visits a behind
        refine ⟨fun here => (aside a behind).readied (visited here), fun skipped => ?_⟩
        obtain ⟨apart', polled'⟩ := left skipped
        exact ⟨(aside a behind).trans apart', polled'⟩

end Walk

theorem transportPrepare_ok (lists : w.Lists) (done : ioTransportPollPrepare w t = .ok w') :
    ∃ middle, (∀ ep, (w.xprt t).multiplex = some ep → ioEndpointPollPrepare w ep = .ok middle) ∧
      ((w.xprt t).multiplex = none → middle = w) ∧ middle.Lists ∧
      pollPrepareAll middle t (middle.xprt t).epList = .ok w' := by
  unfold ioTransportPollPrepare at done
  have walk : ∀ middle : World, middle.Lists → (do
      let w ← pollPrepareAll middle t (middle.xprt t).epList
      ioEndpointListPurge w t .epList) = (.ok w' : Except Fault World) →
        pollPrepareAll middle t (middle.xprt t).epList = .ok w' := by
    intro middle lists' rest
    obtain ⟨after, walked, purged⟩ := bind_ok.mp rest
    rw [purge_epList (lists'.acts (G := .free) (pollPrepareAll_acts walked))] at purged
    cases purged
    exact walked
  cases link : (w.xprt t).multiplex with
  | none =>
    simp only [link] at done
    exact ⟨w, by simp, fun _ => rfl, lists, walk w lists done⟩
  | some ep =>
    simp only [link] at done
    obtain ⟨middle, first, done⟩ := bind_ok.mp done
    have lists' : middle.Lists := lists.acts (G := .free) (pollPrepare_acts first)
    rw [purge_multiplex lists'] at done
    exact ⟨middle, fun other same => by cases same; exact first, by simp, lists', walk middle lists' done⟩

theorem World.Lists.polled (lists : w.Lists) (polled : w.Polled t a) : ∃ self, w.heap.cells a = some self := by
  rcases polled with listed | link
  · obtain ⟨self, found, _⟩ := lists.listed t a listed
    exact ⟨self, found⟩
  · obtain ⟨_, self, found, _⟩ := lists.link t a link
    exact ⟨self, found⟩

/-- Every endpoint of the transport is either prepared or left as it was. -/
theorem transportPrepare_visits (lists : w.Lists) (done : ioTransportPollPrepare w t = .ok w') :
    (∀ a, w'.Polled t a → w.Polled t a) ∧ ∀ a, w.Polled t a → (a ∉ unprepared w (w.xprt t).epList → Readied a w w') ∧
      (a ∈ unprepared w (w.xprt t).epList → Aside a w w' ∧ w'.Polled t a) := by
  obtain ⟨middle, first, idle, lists', walked⟩ := transportPrepare_ok lists done
  have before : (middle.xprt t).epList = (w.xprt t).epList ∧ (∀ a, middle.Polled t a → w.Polled t a) ∧
      (∀ a ∈ (w.xprt t).epList, Aside a w middle) ∧
      ∀ a, (w.xprt t).multiplex = some a → Readied a w middle := by
    cases link : (w.xprt t).multiplex with
    | none =>
      cases idle link
      exact ⟨rfl, fun _ => id, fun _ _ => .heap rfl, nofun⟩
    | some ep =>
      have outside := (lists.link t ep link).1
      have prepared := first ep link
      refine ⟨pollPrepare_epList outside prepared, fun a => (pollPrepare_polled prepared).1,
        fun a member => pollPrepare_aside (by rintro rfl; exact outside member) prepared, ?_⟩
      intro a same self found
      cases same
      exact pollPrepare_self found prepared
  obtain ⟨same, back, aside, readied⟩ := before
  have visits := pollPrepareAll_visits lists' (lists'.listedOnce t) (fun _ member => member) walked
  have live : ∀ a ∈ (w.xprt t).epList, (w.heap.cells a).isSome := by
    intro a member
    obtain ⟨self, found⟩ := lists.polled (.inl member)
    rw [found]
    rfl
  rw [same, unprepared_aside aside live] at visits
  refine ⟨fun a polled => back a ((pollPrepareAll_polled walked).1 polled), fun a polled => ?_⟩
  by_cases listed : a ∈ (w.xprt t).epList
  · obtain ⟨visited, left⟩ := visits a listed
    refine ⟨fun here => (aside a listed).readied (visited here), fun skipped => ?_⟩
    obtain ⟨apart, polled'⟩ := left skipped
    exact ⟨(aside a listed).trans apart, polled'⟩
  · have link := polled.resolve_left listed
    refine ⟨fun _ => (readied a link).aside (pollPrepareAll_aside (by rwa [same]) walked),
      fun skipped => absurd (unprepared_subset w _ skipped) listed⟩

/-- Preparing a transport does what it is for exactly if nothing was to be done behind the first
endpoint that left the list. -/
theorem prepare_iff (lists : w.Lists) (done : ioTransportPollPrepare w t = .ok w') :
    Prepared t w w' ↔ ∀ a ∈ unprepared w (w.xprt t).epList,
      (w.heap.cells a).all Endpoint.prepared = true := by
  obtain ⟨back, visits⟩ := transportPrepare_visits lists done
  constructor
  · intro prepared a skipped
    have polled : w.Polled t a := .inl (unprepared_subset w _ skipped)
    obtain ⟨self, found⟩ := lists.polled polled
    obtain ⟨aside, polled'⟩ := (visits a polled).2 skipped
    have readied : Readied a w w' := by
      intro same found'
      obtain ⟨credit, cell⟩ := aside same found'
      refine ⟨_, cell, prepared.pulledUp a _ polled' cell, fun spent => ?_⟩
      obtain ⟨left, cell', closed⟩ := prepared.shutDown a same polled found' spent
      cases cell.symm.trans cell'
      exact closed
    simpa [found] using (aside.readied_iff found).mp readied
  · intro idle
    have all : ∀ a, w.Polled t a → Readied a w w' := by
      intro a polled
      by_cases skipped : a ∈ unprepared w (w.xprt t).epList
      · obtain ⟨self, found⟩ := lists.polled polled
        have prepared := idle a skipped
        rw [found, Option.all_some] at prepared
        exact (((visits a polled).2 skipped).1.readied_iff found).mpr prepared
      · exact (visits a polled).1 skipped
    constructor
    · intro a left polled' cell
      obtain ⟨self, found⟩ := lists.polled (back a polled')
      obtain ⟨same, cell', pulledUp, _⟩ := all a (back a polled') self found
      cases cell.symm.trans cell'
      exact pulledUp
    · intro a self polled found spent
      obtain ⟨left, cell, _, closed⟩ := all a polled self found
      exact ⟨left, cell, closed spent⟩

/-- The first of two clients and its upstream connection both close when all is written, and the
second client sends a byte. -/
def closeBoth : List Syscalls :=
  pollRound [{ pollin := true }]
    [{ accepts := some 4, acceptedAddr := 1, opens := some 5, connectedAddr := 2 }] ++
  pollRound [{ pollin := true }]
    [{ accepts := some 6, acceptedAddr := 3, opens := some 7, connectedAddr := 4 }, {}] ++
  pollRound [{}, { pollin := true }] [{}, { reads := [some [7]] }, {}] ++
  pollRound [{}, { pollin := true, pollout := true }, { pollin := true }, { pollin := true }]
    [{}, { reads := [some []], write := .wrote 1 }, { reads := [some []] },
      { reads := [some [8]] }]

/-- The upstream endpoints are about to be prepared. -/
def preparesUpstream (s : State) : Bool :=
  match s.phase with
  | .prepare .upstream _ => true
  | _ => false

/-- What preparing the upstream endpoints leaves of one of them. -/
def preparedView (a : Addr) (s : State) : Option (Bool × Bool) := do
  guard (preparesUpstream s)
  let w ← (ioTransportPollPrepare s.world .upstream).toOption
  let self ← w.heap.cells a
  return (self.pulledUp, decide (a ∈ (w.xprt .upstream).epList))

theorem preparedView_some (seen : preparedView a s = some view) :
    ∃ w' self, preparesUpstream s = true ∧ ioTransportPollPrepare s.world .upstream = .ok w' ∧
      w'.heap.cells a = some self ∧ (self.pulledUp, decide (a ∈ (w'.xprt .upstream).epList)) = view := by
  simp only [preparedView, Option.bind_eq_bind, Option.bind_eq_some_iff, Option.pure_def, Option.some.injEq] at seen
  obtain ⟨_, due, w', done, self, cell, rfl⟩ := seen
  refine ⟨w', self, ?_, toOption_some done, cell, rfl⟩
  by_contra other
  simp [guard, other] at due

/-- The byte of a client is pulled up. -/
theorem prepare_iff_copied : ∃ s w', Reachable (.unix "up") (.unix "down") s ∧
    ioTransportPollPrepare s.world .upstream = .ok w' ∧ w'.Polled .upstream 2 ∧
    (Prepared .upstream s.world w' ↔
      ∀ a ∈ unprepared s.world (s.world.xprt .upstream).epList,
        (s.world.heap.cells a).all Endpoint.prepared = true) := by
  obtain ⟨s, ran, view⟩ := run_some (.unix "up") (.unix "down") { listens := some 3 } copyOneByte
    (preparedView 2) (some (true, true)) (by decide +kernel)
  obtain ⟨w', self, _, done, _, pair⟩ := preparedView_some view
  have reached := reachable_of_run ran
  exact ⟨s, w', reached, done, .inl (of_decide_eq_true (Prod.mk.inj pair).2),
    prepare_iff reached.shape.lists done⟩

/-- Behind the connection that leaves the list a message waits without a buffer. -/
theorem prepare_skips : ¬ ∀ (upstream downstream : TransportKind) (s : State) (w' : World),
    Reachable upstream downstream s → preparesUpstream s = true →
      ioTransportPollPrepare s.world .upstream = .ok w' → Prepared .upstream s.world w' := by
  intro claimed
  obtain ⟨s, ran, view⟩ := run_some (.unix "up") (.unix "down") { listens := some 3 } closeBoth
    (preparedView 4) (some (false, true)) (by decide +kernel)
  obtain ⟨w', self, due, done, cell, pair⟩ := preparedView_some view
  obtain ⟨behind, listed⟩ := Prod.mk.inj pair
  have prepared := claimed _ _ s w' (reachable_of_run ran) due done
  have up := prepared.pulledUp 4 self (.inl (of_decide_eq_true listed)) cell
  simp [behind] at up

end Testbus.Proxy
