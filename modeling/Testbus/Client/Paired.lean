import Testbus.Client.Wait

namespace Testbus.Client

open Testbus.Dbus Lib

variable {s s' : State}

/-- A wait on the process is under way. -/
def State.Awaits (s : State) (objectPath : CString) : Prop :=
  (∃ wq timeout, s.call = .asking objectPath wq timeout) ∨
    ∃ wq timeout, s.call = .waiting objectPath wq timeout

/-- Every wait that returned gave what was signalled, and a wait on a process whose
signal was handled, whenever that was, returns it next. -/
structure Paired (s : State) : Prop where
  returned : ∀ r ∈ s.returned, r.source ≠ .alarm →
    ∃ info, s.exited r.objectPath = some info ∧ r.info = info.used
  prompt : ∀ objectPath info, s.exited objectPath = some info → ¬ s.UnderWay objectPath →
    s.Awaits objectPath → ∃ next, proceed s = .ok next ∧
      next.returned.map (fun r => (r.objectPath, r.info)) =
        s.returned.map (fun r => (r.objectPath, r.info)) ++ [(objectPath, info.used)]

/-- A wait was answered from the property of the process and left its entry behind, whose
signal will not come any more. -/
def State.LeftBehind (s : State) (objectPath : CString) : Prop :=
  (∃ r ∈ s.returned, r.objectPath = objectPath ∧ r.source = .property) ∧
    ¬ s.UnderWay objectPath ∧
      ∃ wq ∈ s.waitq, wq.objectPath = objectPath ∧ wq.done = false

/-- No other entry has the address, no other entry of the main queue the path, and an
entry is there for the wait under way. -/
structure Shape (s : State) : Prop where
  addrs : ((s.waitq ++ s.spuriousWaitq.getD []).map Waitq.addr).Nodup
  below : ∀ wq ∈ s.waitq ++ s.spuriousWaitq.getD [], wq.addr < s.next
  paths : (s.waitq.map Waitq.objectPath).Nodup
  known : ∀ wq ∈ s.waitq, s.processes wq.objectPath ≠ none
  listening : s.call ≠ .idle ∨ s.waitq ≠ [] → s.initialized = true
  target : ∀ objectPath wq timeout, s.call = .asking objectPath wq timeout ∨
    s.call = .waiting objectPath wq timeout →
      ∃ entry ∈ s.waitq, entry.addr = wq ∧ entry.objectPath = objectPath
  collecting : ∀ made, s.call = .running made → ∃ q, s.spuriousWaitq = some q ∧
    ∀ wq ∈ q, ∀ other ∈ s.waitq, other.objectPath ≠ wq.objectPath
  made : ∀ objectPath, s.call = .running (some objectPath) →
    s.processes objectPath ≠ none ∧ ∀ wq ∈ s.waitq, wq.objectPath ≠ objectPath
  quiet : (∀ made, s.call ≠ .running made) → s.call ≠ .fetching → s.spuriousWaitq = none

/-- What is under way, noted or returned is what the master has. -/
structure Truthful (s : State) : Prop where
  signals : ∀ objectPath arg, (objectPath, arg) ∈ s.signals →
    ∃ info, s.exited objectPath = some info ∧ arg = exitInfoSerialize info
  single : (s.signals.map Prod.fst).Nodup
  finished : ∀ wq ∈ s.waitq ++ s.spuriousWaitq.getD [], wq.done = true →
    ∃ info, s.exited wq.objectPath = some info ∧ wq.exitInfo = some info.used
  collected : ∀ wq ∈ s.spuriousWaitq.getD [], wq.done = true
  returned : ∀ r ∈ s.returned, r.source ≠ .alarm →
    ∃ info, s.exited r.objectPath = some info ∧ r.info = info.used

/-- The exit signal of the process was handled by the client. -/
def State.Handled (s : State) (objectPath : CString) : Prop :=
  s.exited objectPath ≠ none ∧ ¬ s.UnderWay objectPath

/-- An entry that is not done waits for a signal that is still to come, unless it was left
behind, or the wait that made it is still asking. -/
structure Alert (s : State) : Prop where
  pending : ∀ wq ∈ s.waitq, wq.done = false → s.Handled wq.objectPath →
    (∃ timeout, s.call = .asking wq.objectPath wq.addr timeout) ∨
      ∃ r ∈ s.returned, r.objectPath = wq.objectPath ∧ r.source = .property
  waiting : ∀ objectPath addr timeout, s.call = .waiting objectPath addr timeout →
    ∀ wq ∈ s.waitq, wq.addr = addr → wq.done = false → ¬ s.Handled objectPath
  collected : ∀ objectPath, s.call = .running (some objectPath) → s.Handled objectPath →
    ∃ wq ∈ s.spuriousWaitq.getD [], wq.objectPath = objectPath

structure Inv (s : State) : Prop where
  shape : Shape s
  truthful : Truthful s
  alert : Alert s

section Master

variable {objectPath other : CString}

theorem exited_running (running : s.processes objectPath = some { how := notExited }) : s.exited objectPath = none := by
  simp [State.exited, running]

theorem exited_make (absent : s.processes objectPath = none) :
    State.exited { s with
      processes := Function.update s.processes objectPath (some { how := notExited }) } =
      s.exited := by
  funext other
  by_cases same : other = objectPath
  · subst same
    simp [State.exited, absent]
  · simp [State.exited, Function.update_of_ne same]

theorem known_update (known : s.processes other ≠ none) :
    Function.update s.processes objectPath (some info) other ≠ none := by
  by_cases same : other = objectPath
  · subst same
    simp
  · rwa [Function.update_of_ne same]

theorem Inv.make (inv : Inv s) (absent : s.processes objectPath = none) :
    Inv { s with
      processes := Function.update s.processes objectPath (some { how := notExited }) } where
  shape := { inv.shape with
    known := fun wq member => known_update (inv.shape.known wq member)
    made := fun path running =>
      ⟨known_update (inv.shape.made path running).1, (inv.shape.made path running).2⟩ }
  truthful := by
    have exited := exited_make absent
    constructor
    · rw [exited]
      exact inv.truthful.signals
    · exact inv.truthful.single
    · rw [exited]
      exact inv.truthful.finished
    · exact inv.truthful.collected
    · rw [exited]
      exact inv.truthful.returned
  alert := by
    have exited := exited_make absent
    constructor
    · simp only [State.Handled, exited]
      exact inv.alert.pending
    · simp only [State.Handled, exited]
      exact inv.alert.waiting
    · simp only [State.Handled, exited]
      exact inv.alert.collected

theorem Inv.schedule (inv : Inv s) (running : s.call = .running none) (absent : s.processes objectPath = none) :
    Inv { s with
      processes := Function.update s.processes objectPath (some { how := notExited })
      call := .running (some objectPath) } := by
  have made := inv.make absent
  have unknown : ∀ wq ∈ s.waitq, wq.objectPath ≠ objectPath := by
    intro wq member same
    exact inv.shape.known wq member (same ▸ absent)
  refine ⟨{ made.shape with
    listening := fun _ => inv.shape.listening (.inl (by simp [running]))
    target := nofun
    collecting := fun _ _ => inv.shape.collecting none running
    made := ?_
    quiet := fun apart => absurd rfl (apart _) }, { made.truthful with }, ?_⟩
  · intro path same
    cases same
    exact ⟨by simp, unknown⟩
  · constructor
    · intro wq member open_ handled
      rcases made.alert.pending wq member open_ handled with ⟨timeout, asking⟩ | left
      · simp [running] at asking
      · exact .inr left
    · nofun
    · intro path same handled
      cases same
      simp [State.Handled, State.exited] at handled

theorem Inv.exit (inv : Inv s) (running : s.processes objectPath = some { how := notExited })
    (ended : info.how ≠ notExited) :
    Inv { s with
      processes := Function.update s.processes objectPath (some info)
      signals := s.signals ++ [(objectPath, exitInfoSerialize info)] } := by
  have before := exited_running running
  have now : State.exited { s with
      processes := Function.update s.processes objectPath (some info)
      signals := s.signals ++ [(objectPath, exitInfoSerialize info)] } =
      Function.update s.exited objectPath (some info) := by
    funext other
    by_cases same : other = objectPath
    · subst same
      simp [State.exited, ended]
    · simp [State.exited, Function.update_of_ne same]
  have stays : ∀ {path old}, s.exited path = some old →
      Function.update s.exited objectPath (some info) path = some old := by
    intro path old exited
    rw [Function.update_of_ne, exited]
    rintro rfl
    simp [before] at exited
  have handled : ∀ {path}, State.Handled { s with
      processes := Function.update s.processes objectPath (some info)
      signals := s.signals ++ [(objectPath, exitInfoSerialize info)] } path → s.Handled path := by
    intro path handled
    have apart : path ≠ objectPath := by
      rintro rfl
      exact handled.2 (by simp [State.UnderWay])
    refine ⟨?_, ?_⟩
    · have := handled.1
      rwa [now, Function.update_of_ne apart] at this
    · intro underWay
      exact handled.2 (by simpa [State.UnderWay, apart] using underWay)
  refine ⟨{ inv.shape with
    known := fun wq member => known_update (inv.shape.known wq member)
    made := fun path called =>
      ⟨known_update (inv.shape.made path called).1, (inv.shape.made path called).2⟩ }, ?_, ?_⟩
  · constructor
    · rw [now]
      intro path arg member
      rcases List.mem_append.mp member with old | new
      · obtain ⟨sent, exited, same⟩ := inv.truthful.signals path arg old
        exact ⟨sent, stays exited, same⟩
      · obtain ⟨rfl, rfl⟩ := by simpa using new
        exact ⟨info, by simp, rfl⟩
    · rw [List.map_append, List.nodup_append]
      refine ⟨inv.truthful.single, by simp, ?_⟩
      intro path old _ new
      obtain rfl := by simpa using new
      obtain ⟨⟨path, arg⟩, member, rfl⟩ := List.mem_map.mp old
      obtain ⟨sent, exited, -⟩ := inv.truthful.signals path arg member
      rintro rfl
      simp [before] at exited
    · rw [now]
      intro wq member done
      obtain ⟨old, exited, same⟩ := inv.truthful.finished wq member done
      exact ⟨old, stays exited, same⟩
    · exact inv.truthful.collected
    · rw [now]
      intro r member inTime
      obtain ⟨old, exited, same⟩ := inv.truthful.returned r member inTime
      exact ⟨old, stays exited, same⟩
  · constructor
    · intro wq member open_ done
      exact inv.alert.pending wq member open_ (handled done)
    · intro path addr timeout called wq member same open_ done
      exact inv.alert.waiting path addr timeout called wq member same open_ (handled done)
    · intro path called done
      exact inv.alert.collected path called (handled done)

end Master

section Signal

variable {place : Nat}

theorem exitInfoSerialize_dict (info : ExitInfo) : ∃ entries, exitInfoSerialize info = .dict entries := by
  unfold exitInfoSerialize
  split
  · exact ⟨_, rfl⟩
  · split <;> exact ⟨_, rfl⟩

/-- What is still under way after a signal was taken. -/
theorem handled_eraseIdx (found : s.signals[place]? = some (objectPath, arg)) (handled : State.Handled { s with signals := s.signals.eraseIdx place } path) :
    path = objectPath ∨ s.Handled path := by
  by_cases same : path = objectPath
  · exact .inl same
  · refine .inr ⟨handled.1, ?_⟩
    intro underWay
    apply handled.2
    obtain ⟨⟨_, other⟩, member, rfl⟩ := List.mem_map.mp underWay
    obtain ⟨index, bound, at_⟩ := List.getElem_of_mem member
    refine List.mem_map.mpr ⟨_, List.mem_eraseIdx_iff_getElem?.mpr ⟨index, ?_, ?_⟩, rfl⟩
    · rintro rfl
      rw [List.getElem?_eq_getElem bound, at_] at found
      cases found
      exact same rfl
    · rw [List.getElem?_eq_getElem bound, at_]

theorem Truthful.take (truthful : Truthful s) (place : Nat) :
    Truthful { s with signals := s.signals.eraseIdx place } where
  signals path arg member := truthful.signals path arg (List.mem_of_mem_eraseIdx member)
  single := truthful.single.sublist ((List.eraseIdx_sublist _ _).map _)
  finished := truthful.finished
  collected := truthful.collected
  returned := truthful.returned

/-- A client without the handler waits for nothing and runs nothing. -/
theorem Shape.silent (shape : Shape s) (silent : s.initialized = false) : s.call = .idle ∧ s.waitq = [] := by
  by_contra busy
  have := shape.listening (by tauto)
  simp [silent] at this

theorem Inv.signalFound (inv : Inv s) (found : s.signals[place]? = some (objectPath, arg))
    (entry : waitqFind objectPath s.waitq = some wq) :
    Inv { s with
      signals := s.signals.eraseIdx place
      waitq := waitqFinish wq.addr (exitInfoDeserialize arg) s.waitq } := by
  obtain ⟨info, exited, rfl⟩ := inv.truthful.signals objectPath arg (List.mem_of_getElem? found)
  rw [exitInfo_roundtrip]
  obtain ⟨member, path⟩ := waitqFind_some entry
  have unique : ∀ other ∈ s.waitq, other.objectPath = objectPath → other.addr = wq.addr := by
    intro other otherMember otherPath
    rw [List.inj_on_of_nodup_map inv.shape.paths otherMember member (otherPath.trans path.symm)]
  have truthful := inv.truthful.take place
  refine ⟨?_, ?_, ?_⟩
  · constructor
    · simpa using inv.shape.addrs
    · intro other otherMember
      rcases List.mem_append.mp otherMember with main | spurious
      · obtain ⟨old, oldMember, rfl⟩ := mem_waitqFinish.mp main
        have := inv.shape.below old (List.mem_append.mpr (.inl oldMember))
        split <;> exact this
      · exact inv.shape.below other (List.mem_append.mpr (.inr spurious))
    · simpa using inv.shape.paths
    · intro other otherMember
      obtain ⟨old, oldMember, rfl⟩ := mem_waitqFinish.mp otherMember
      have := inv.shape.known old oldMember
      split <;> exact this
    · intro _
      exact inv.shape.listening (.inr (List.ne_nil_of_mem member))
    · intro path addr timeout called
      obtain ⟨target, targetMember, rfl, rfl⟩ := inv.shape.target path addr timeout called
      refine ⟨_, mem_waitqFinish.mpr ⟨target, targetMember, rfl⟩, ?_⟩
      split <;> exact ⟨rfl, rfl⟩
    · intro made called
      obtain ⟨q, spurious, apart⟩ := inv.shape.collecting made called
      refine ⟨q, spurious, ?_⟩
      intro other otherMember entry entryMember
      obtain ⟨old, oldMember, rfl⟩ := mem_waitqFinish.mp entryMember
      have := apart other otherMember old oldMember
      split <;> exact this
    · intro path called
      refine ⟨(inv.shape.made path called).1, ?_⟩
      intro other otherMember
      obtain ⟨old, oldMember, rfl⟩ := mem_waitqFinish.mp otherMember
      have := (inv.shape.made path called).2 old oldMember
      split <;> exact this
    · exact inv.shape.quiet
  · refine ⟨truthful.signals, truthful.single, ?_, truthful.collected, truthful.returned⟩
    intro other otherMember done
    rcases List.mem_append.mp otherMember with main | spurious
    · obtain ⟨old, oldMember, rfl⟩ := mem_waitqFinish.mp main
      by_cases same : old.addr = wq.addr
      · have := eq_of_addr (List.nodup_append.mp (List.map_append ▸ inv.shape.addrs)).1 oldMember member same
        subst this
        refine ⟨info, ?_, by simp⟩
        rw [if_pos rfl]
        exact path.symm ▸ exited
      · rw [if_neg same] at done ⊢
        exact truthful.finished old (List.mem_append.mpr (.inl oldMember)) done
    · exact truthful.finished other (List.mem_append.mpr (.inr spurious)) done
  · -- An entry that is still not done is not that of the signal's process.
    have open_ : ∀ other ∈ waitqFinish wq.addr info.used s.waitq, other.done = false →
        other ∈ s.waitq ∧ other.objectPath ≠ objectPath := by
      intro other otherMember notDone
      obtain ⟨old, oldMember, rfl⟩ := mem_waitqFinish.mp otherMember
      by_cases same : old.addr = wq.addr
      · simp [same] at notDone
      · rw [if_neg same]
        exact ⟨oldMember, fun oldPath => same (unique old oldMember oldPath)⟩
    constructor
    · intro other otherMember notDone handled
      obtain ⟨old, apart⟩ := open_ other otherMember notDone
      rcases handled_eraseIdx found handled with same | before
      · exact absurd same apart
      · exact inv.alert.pending other old notDone before
    · intro path addr timeout called other otherMember same notDone handled
      obtain ⟨old, apart⟩ := open_ other otherMember notDone
      obtain ⟨target, targetMember, targetAddr, targetPath⟩ := inv.shape.target path addr timeout (.inr called)
      have := eq_of_addr (List.nodup_append.mp (List.map_append ▸ inv.shape.addrs)).1
        old targetMember (same.trans targetAddr.symm)
      subst this
      rcases handled_eraseIdx found handled with here | before
      · exact apart (targetPath.trans here)
      · exact inv.alert.waiting path addr timeout called other old same notDone before
    · intro made called handled
      rcases handled_eraseIdx found handled with rfl | before
      · exact absurd path ((inv.shape.made made called).2 wq member)
      · exact inv.alert.collected made called before

theorem Inv.pending_apart (inv : Inv s) (found : s.signals[place]? = some (objectPath, arg))
    (apart : ∀ wq ∈ s.waitq, wq.objectPath ≠ objectPath) :
    ∀ wq ∈ s.waitq, wq.done = false → State.Handled { s with signals := s.signals.eraseIdx place } wq.objectPath →
      (∃ timeout, s.call = .asking wq.objectPath wq.addr timeout) ∨
        ∃ r ∈ s.returned, r.objectPath = wq.objectPath ∧ r.source = .property := by
  intro wq member open_ handled
  rcases handled_eraseIdx found handled with same | before
  · exact absurd same (apart wq member)
  · exact inv.alert.pending wq member open_ before

/-- A call that waits has an entry, so a signal with no entry is not the one it waits for. -/
theorem Inv.waiting_apart (inv : Inv s) (found : s.signals[place]? = some (objectPath, arg))
    (apart : ∀ wq ∈ s.waitq, wq.objectPath ≠ objectPath) :
    ∀ path addr timeout, s.call = .waiting path addr timeout →
      ∀ wq ∈ s.waitq, wq.addr = addr → wq.done = false →
        ¬ State.Handled { s with signals := s.signals.eraseIdx place } path := by
  intro path addr timeout called wq member same open_ handled
  rcases handled_eraseIdx found handled with rfl | before
  · obtain ⟨target, targetMember, targetAddr, targetPath⟩ := inv.shape.target path addr timeout (.inr called)
    exact apart target targetMember targetPath
  · exact inv.alert.waiting path addr timeout called wq member same open_ before

/-- The signal finds no entry, and `Host.run` collects such signals. -/
theorem Inv.signalCollected (inv : Inv s) (found : s.signals[place]? = some (objectPath, arg))
    (missing : waitqFind objectPath s.waitq = none) (collects : s.spuriousWaitq = some spurious) :
    Inv { s with
      signals := s.signals.eraseIdx place
      spuriousWaitq := some ({ addr := s.next, objectPath := objectPath, done := true,
                               exitInfo := some (exitInfoDeserialize arg) } :: spurious)
      next := s.next + 1 } := by
  obtain ⟨info, exited, rfl⟩ := inv.truthful.signals objectPath arg (List.mem_of_getElem? found)
  rw [exitInfo_roundtrip]
  have truthful := inv.truthful.take place
  have below := inv.shape.below
  have addrs := inv.shape.addrs
  have finished := truthful.finished
  have collected := truthful.collected
  simp only [collects, Option.getD_some] at below addrs finished collected
  have apart := waitqFind_none missing
  refine ⟨{ inv.shape with
    addrs := ?_, below := ?_, collecting := ?_, quiet := ?_ }, ?_, ?_⟩
  · refine (List.perm_middle.map Waitq.addr).nodup_iff.mpr ?_
    refine List.nodup_cons.mpr ⟨?_, addrs⟩
    intro member
    obtain ⟨wq, wqMember, same⟩ := List.mem_map.mp member
    exact absurd (below wq wqMember) (same ▸ Nat.lt_irrefl _)
  · intro wq member
    rcases List.mem_cons.mp (List.perm_middle.mem_iff.mp member) with rfl | old
    · exact Nat.lt_succ_self _
    · exact Nat.lt_succ_of_lt (below wq old)
  · intro made called
    obtain ⟨q, same, others⟩ := inv.shape.collecting made called
    rw [collects] at same
    cases same
    refine ⟨_, rfl, ?_⟩
    intro wq member
    rcases List.mem_cons.mp member with rfl | old
    · exact apart
    · exact others wq old
  · intro apart fetched
    simp [inv.shape.quiet apart fetched] at collects
  · refine ⟨truthful.signals, truthful.single, ?_, ?_, truthful.returned⟩
    · intro wq member done
      rcases List.mem_cons.mp (List.perm_middle.mem_iff.mp member) with rfl | old
      · exact ⟨info, exited, rfl⟩
      · exact finished wq old done
    · intro wq member
      rcases List.mem_cons.mp member with rfl | old
      · rfl
      · exact collected wq old
  · constructor
    · exact inv.pending_apart found apart
    · exact inv.waiting_apart found apart
    · intro made called handled
      rcases handled_eraseIdx found handled with rfl | before
      · exact ⟨_, List.mem_cons_self, rfl⟩
      · obtain ⟨wq, member, path⟩ := inv.alert.collected made called before
        rw [collects] at member
        exact ⟨wq, List.mem_cons_of_mem _ member, path⟩

theorem Inv.signalDropped (inv : Inv s) (found : s.signals[place]? = some (objectPath, arg))
    (missing : waitqFind objectPath s.waitq = none) (drops : s.spuriousWaitq = none) :
    Inv { s with signals := s.signals.eraseIdx place } := by
  have apart := waitqFind_none missing
  refine ⟨{ inv.shape with }, inv.truthful.take place, ?_⟩
  constructor
  · exact inv.pending_apart found apart
  · exact inv.waiting_apart found apart
  · intro made called _
    obtain ⟨q, collects, -⟩ := inv.shape.collecting _ called
    simp [drops] at collects

theorem Inv.signalUnheard (inv : Inv s) (silent : s.initialized = false) :
    Inv { s with signals := s.signals.eraseIdx place } := by
  obtain ⟨idle, empty⟩ := inv.shape.silent silent
  refine ⟨{ inv.shape with }, inv.truthful.take place, ?_⟩
  constructor
  · simp [empty]
  · simp [idle]
  · simp [idle]

theorem Inv.signal (inv : Inv s) (found : s.signals[place]? = some (objectPath, arg)) :
    Inv (processSignal objectPath arg { s with signals := s.signals.eraseIdx place }) := by
  unfold processSignal
  split
  · split
    · rename_i wq entry
      exact inv.signalFound found entry
    · rename_i missing
      split
      · rename_i spurious collects
        exact inv.signalCollected found missing collects
      · rename_i drops
        exact inv.signalDropped found missing drops
  · rename_i unheard
    apply inv.signalUnheard
    obtain ⟨info, -, sent⟩ := inv.truthful.signals _ _ (List.mem_of_getElem? found)
    obtain ⟨entries, dict⟩ := exitInfoSerialize_dict info
    by_contra heard
    exact unheard entries (by simpa using heard) (sent.trans dict)

end Signal

theorem Inv.entryOf (inv : Inv s) (left : first ∈ s.waitq)
    (right : second ∈ s.waitq) (same : first.addr = second.addr) : first = second :=
  eq_of_addr (List.nodup_append.mp (List.map_append ▸ inv.shape.addrs)).1 left right same

theorem Inv.run (inv : Inv s) (idle : s.call = .idle) :
    Inv { s with initialized := true, spuriousWaitq := some [], call := .running none } := by
  have quiet := inv.shape.quiet (by simp [idle]) (by simp [idle])
  have addrs := inv.shape.addrs
  have below := inv.shape.below
  have finished := inv.truthful.finished
  simp only [quiet, Option.getD_none] at addrs below finished
  refine ⟨{ inv.shape with
    addrs := addrs
    below := below
    listening := fun _ => rfl
    target := nofun
    collecting := fun _ _ => ⟨[], rfl, by simp⟩
    made := nofun
    quiet := fun apart => absurd rfl (apart _) }, { inv.truthful with
    finished := finished
    collected := by simp }, ?_⟩
  constructor
  · intro wq member open_ handled
    rcases inv.alert.pending wq member open_ handled with ⟨_, asking⟩ | left
    · simp [idle] at asking
    · exact .inr left
  · nofun
  · nofun

theorem Inv.hangUp (inv : Inv s) (busy : (∃ made, s.call = .running made) ∨ s.call = .fetching) :
    Inv { s with spuriousWaitq := none, call := .idle } := by
  refine ⟨{ inv.shape with
    addrs := ?_
    below := fun wq member => inv.shape.below wq (List.mem_append.mpr (.inl (by simpa using member)))
    listening := fun waits => inv.shape.listening (.inr (by simpa using waits))
    target := nofun
    collecting := nofun
    made := nofun
    quiet := fun _ _ => rfl }, { inv.truthful with
    finished := fun wq member =>
      inv.truthful.finished wq (List.mem_append.mpr (.inl (by simpa using member)))
    collected := by simp }, ?_⟩
  · have := inv.shape.addrs
    rw [List.map_append] at this
    simpa using (List.nodup_append.mp this).1
  · constructor
    · intro wq member open_ handled
      rcases inv.alert.pending wq member open_ handled with ⟨_, asking⟩ | left
      · rcases busy with ⟨_, running⟩ | fetching
        · simp [running] at asking
        · simp [fetching] at asking
      · exact .inr left
    · nofun
    · nofun

theorem Inv.adopt (inv : Inv s) (running : s.call = .running (some objectPath))
    (collects : s.spuriousWaitq = some q) (member : wq ∈ q) (path : wq.objectPath = objectPath) :
    Inv { s with spuriousWaitq := some (waitqUnlink wq.addr q), waitq := wq :: s.waitq
                 call := .fetching } := by
  obtain ⟨known, fresh⟩ := inv.shape.made objectPath running
  have addrs := inv.shape.addrs
  have below := inv.shape.below
  have finished := inv.truthful.finished
  have collected := inv.truthful.collected
  simp only [collects, Option.getD_some] at addrs below finished collected
  -- Every entry that is there now was there before, in one of the queues.
  have old : ∀ entry ∈ wq :: s.waitq ++ waitqUnlink wq.addr q, entry ∈ s.waitq ++ q := by
    intro entry entryMember
    rcases List.mem_append.mp entryMember with front | spurious
    · rcases List.mem_cons.mp front with rfl | main
      · exact List.mem_append.mpr (.inr member)
      · exact List.mem_append.mpr (.inl main)
    · exact List.mem_append.mpr (.inr (mem_waitqUnlink.mp spurious).1)
  refine ⟨{ inv.shape with
    addrs := ?_
    below := fun entry entryMember => below entry (old entry entryMember)
    paths := ?_
    known := ?_
    listening := fun _ => inv.shape.listening (.inl (by simp [running]))
    target := nofun
    collecting := nofun
    made := nofun
    quiet := fun _ fetched => absurd rfl fetched }, { inv.truthful with
    finished := fun entry entryMember => finished entry (old entry entryMember)
    collected := fun entry entryMember => collected entry (mem_waitqUnlink.mp entryMember).1 }, ?_⟩
  · refine List.nodup_cons.mpr ⟨?_, ?_⟩
    · intro twice
      obtain ⟨other, otherMember, same⟩ := List.mem_map.mp twice
      rcases List.mem_append.mp otherMember with main | spurious
      · rw [List.map_append] at addrs
        exact (List.nodup_append.mp addrs).2.2 _ (List.mem_map_of_mem main) _ (List.mem_map_of_mem member) same
      · exact (mem_waitqUnlink.mp spurious).2 same
    · exact addrs.sublist (((List.Sublist.refl _).append List.filter_sublist).map _)
  · refine List.nodup_cons.mpr ⟨?_, inv.shape.paths⟩
    intro twice
    obtain ⟨other, otherMember, same⟩ := List.mem_map.mp twice
    exact fresh other otherMember (same.trans path)
  · intro entry entryMember
    rcases List.mem_cons.mp entryMember with rfl | main
    · rwa [path]
    · exact inv.shape.known entry main
  · constructor
    · intro entry entryMember open_ handled
      rcases List.mem_cons.mp entryMember with rfl | main
      · simp [collected entry member] at open_
      · rcases inv.alert.pending entry main open_ handled with ⟨_, asking⟩ | left
        · simp [running] at asking
        · exact .inr left
    · nofun
    · nofun

/-- A new entry in the main queue, for a process whose signal is still to come or for a
wait that will ask. -/
theorem Inv.enter (timeout : Bool) (inv : Inv s) (known : s.processes objectPath ≠ none)
    (fresh : ∀ wq ∈ s.waitq, wq.objectPath ≠ objectPath) (before : ∀ path wq timeout, s.call ≠ .asking path wq timeout)
    (now : call = .fetching ∧ ¬ s.Handled objectPath ∨
      call = .asking objectPath s.next timeout ∧ s.spuriousWaitq = none) :
    Inv { s with initialized := true, next := s.next + 1, call := call
                 waitq := { addr := s.next, objectPath := objectPath } :: s.waitq } := by
  have apart : ∀ made, call ≠ .running made := by
    rintro made rfl
    simp at now
  refine ⟨?_, { inv.truthful with finished := ?_ }, ?_⟩
  · constructor
    · refine List.nodup_cons.mpr ⟨?_, inv.shape.addrs⟩
      intro twice
      obtain ⟨other, otherMember, same⟩ := List.mem_map.mp twice
      exact absurd (inv.shape.below other otherMember) (same ▸ Nat.lt_irrefl _)
    · intro wq member
      rcases List.mem_cons.mp member with rfl | old
      · exact Nat.lt_succ_self _
      · exact Nat.lt_succ_of_lt (inv.shape.below wq old)
    · refine List.nodup_cons.mpr ⟨?_, inv.shape.paths⟩
      intro twice
      obtain ⟨other, otherMember, same⟩ := List.mem_map.mp twice
      exact fresh other otherMember same
    · intro wq member
      rcases List.mem_cons.mp member with rfl | old
      · exact known
      · exact inv.shape.known wq old
    · exact fun _ => rfl
    · intro path wq timeout called
      rcases now with ⟨rfl, -⟩ | ⟨rfl, -⟩
      · simp at called
      · obtain ⟨rfl, rfl, rfl⟩ := by simpa using called
        exact ⟨_, List.mem_cons_self, rfl, rfl⟩
    · exact fun made called => absurd called (apart made)
    · exact fun path called => absurd called (apart _)
    · intro _ fetched
      rcases now with ⟨rfl, -⟩ | ⟨-, quiet⟩
      · exact absurd rfl fetched
      · exact quiet
  · intro wq member done
    rcases List.mem_cons.mp member with rfl | old
    · simp at done
    · exact inv.truthful.finished wq old done
  · constructor
    · intro wq member open_ handled
      rcases List.mem_cons.mp member with rfl | old
      · rcases now with ⟨-, unhandled⟩ | ⟨rfl, -⟩
        · exact absurd handled unhandled
        · exact .inl ⟨timeout, rfl⟩
      · rcases inv.alert.pending wq old open_ handled with ⟨_, asking⟩ | left
        · exact absurd asking (before _ _ _)
        · exact .inr left
    · intro path wq late called
      rcases now with ⟨rfl, -⟩ | ⟨rfl, -⟩ <;> simp at called
    · exact fun path called => absurd called (apart _)

theorem Inv.reply (inv : Inv s) (running : s.call = .running (some objectPath)) :
    Inv { (processWait objectPath s).2 with call := .fetching } := by
  obtain ⟨known, fresh⟩ := inv.shape.made objectPath running
  obtain ⟨q, collects, -⟩ := inv.shape.collecting _ running
  unfold processWait
  cases entry : waitqFind objectPath q with
  | some wq =>
    obtain ⟨member, path⟩ := waitqFind_some entry
    simpa [collects, entry] using inv.adopt running collects member path
  | none =>
    have absent : waitqFind objectPath s.waitq = none := by
      simpa [waitqFind] using fresh
    have unhandled : ¬ s.Handled objectPath := by
      intro handled
      obtain ⟨wq, member, path⟩ := inv.alert.collected objectPath running handled
      rw [collects] at member
      exact waitqFind_none entry wq member path
    have ready := inv.shape.listening (.inl (by simp [running]))
    have entered := Inv.enter false inv known fresh (by simp [running]) (.inl ⟨rfl, unhandled⟩)
    simpa [collects, entry, absent, ← ready] using entered

/-- A wait finds an entry, which was not left behind. -/
theorem Inv.waitFound (inv : Inv s) (idle : s.call = .idle) (entry : waitqFind objectPath s.waitq = some wq) (allowed : ¬ s.LeftBehind objectPath) :
    Inv { s with call := .waiting objectPath wq.addr timeout } := by
  obtain ⟨member, path⟩ := waitqFind_some entry
  have quiet := inv.shape.quiet (by simp [idle]) (by simp [idle])
  refine ⟨{ inv.shape with
    listening := fun _ => inv.shape.listening (.inr (List.ne_nil_of_mem member))
    target := ?_
    collecting := nofun
    made := nofun
    quiet := fun _ _ => quiet }, { inv.truthful with }, ?_⟩
  · intro other addr late called
    obtain ⟨rfl, rfl, rfl⟩ := by simpa using called
    exact ⟨wq, member, rfl, path⟩
  · constructor
    · intro other otherMember open_ handled
      rcases inv.alert.pending other otherMember open_ handled with ⟨_, asking⟩ | left
      · simp [idle] at asking
      · exact .inr left
    · intro other addr late called found foundMember same open_ handled
      obtain ⟨rfl, rfl, rfl⟩ := by simpa using called
      rw [inv.entryOf foundMember member same] at open_
      rcases inv.alert.pending wq member open_ (path ▸ handled) with ⟨_, asking⟩ | left
      · simp [idle] at asking
      · rw [path] at left
        exact allowed ⟨left, handled.2, wq, member, path, open_⟩
    · nofun

/-- A wait without an entry makes one and asks. -/
theorem Inv.waitMissing (inv : Inv s) (idle : s.call = .idle)
    (known : s.processes objectPath ≠ none) (missing : waitqFind objectPath s.waitq = none) :
    Inv { (processWait objectPath { s with initialized := true }).2 with
      call := .asking objectPath (processWait objectPath { s with initialized := true }).1 timeout } := by
  have quiet := inv.shape.quiet (by simp [idle]) (by simp [idle])
  have entered := Inv.enter timeout inv known (waitqFind_none missing) (by simp [idle]) (.inr ⟨rfl, quiet⟩)
  simpa [processWait, quiet, missing] using entered

/-- The properties came: the wait is over, or it enters its loop. -/
theorem Inv.asked (inv : Inv s) (asking : s.call = .asking objectPath addr timeout) :
    (∀ info, s.exited objectPath = some info → Inv { s with
      call := .idle
      returned := s.returned ++ [{ objectPath := objectPath, source := .property, info := info.used }] }) ∧
      (s.exited objectPath = none → Inv { s with call := .waiting objectPath addr timeout }) := by
  have quiet := inv.shape.quiet (by simp [asking]) (by simp [asking])
  have ready := inv.shape.listening (.inl (by simp [asking]))
  obtain ⟨target, targetMember, targetAddr, targetPath⟩ := inv.shape.target objectPath addr timeout (.inl asking)
  -- The entry of this wait is the only one that may be open because a wait asks.
  have mine : ∀ wq ∈ s.waitq, (∃ timeout, s.call = .asking wq.objectPath wq.addr timeout) →
      wq.objectPath = objectPath := by
    rintro wq - ⟨late, other⟩
    rw [asking] at other
    cases other
    rfl
  constructor
  · intro info exited
    refine ⟨{ inv.shape with
      listening := fun _ => ready
      target := nofun
      collecting := nofun
      made := nofun
      quiet := fun _ _ => quiet }, { inv.truthful with returned := ?_ }, ?_⟩
    · intro r member inTime
      rcases List.mem_append.mp member with old | new
      · exact inv.truthful.returned r old inTime
      · obtain rfl := by simpa using new
        exact ⟨info, exited, rfl⟩
    · constructor
      · intro wq member open_ handled
        right
        rcases inv.alert.pending wq member open_ handled with asks | ⟨r, old, path, cached⟩
        · exact ⟨_, List.mem_append.mpr (.inr (List.mem_singleton.mpr rfl)), (mine wq member asks).symm, rfl⟩
        · exact ⟨r, List.mem_append.mpr (.inl old), path, cached⟩
      · nofun
      · nofun
  · intro running
    refine ⟨{ inv.shape with
      listening := fun _ => ready
      target := ?_
      collecting := nofun
      made := nofun
      quiet := fun _ _ => quiet }, { inv.truthful with }, ?_⟩
    · intro path wq late called
      obtain ⟨rfl, rfl, rfl⟩ := by simpa using called
      exact ⟨target, targetMember, targetAddr, targetPath⟩
    · constructor
      · intro wq member open_ handled
        rcases inv.alert.pending wq member open_ handled with asks | left
        · rw [mine wq member asks] at handled
          exact absurd running handled.1
        · exact .inr left
      · intro path wq late called _ _ _ _ handled
        obtain ⟨rfl, rfl, rfl⟩ := by simpa using called
        exact handled.1 running
      · nofun

/-- A wait ends in its loop: with the information of its entry, or in time. -/
theorem Inv.ends (inv : Inv s) (waiting : s.call = .waiting objectPath addr timeout)
    (rest : q.Sublist s.waitq) (right : r.source ≠ .alarm → ∃ info, s.exited r.objectPath = some info ∧ r.info = info.used) :
    Inv { s with waitq := q, call := .idle, returned := s.returned ++ [r] } := by
  have quiet := inv.shape.quiet (by simp [waiting]) (by simp [waiting])
  have both := rest.append (List.Sublist.refl (s.spuriousWaitq.getD []))
  refine ⟨{ inv.shape with
    addrs := inv.shape.addrs.sublist (both.map _)
    below := fun wq member => inv.shape.below wq (both.subset member)
    paths := inv.shape.paths.sublist (rest.map _)
    known := fun wq member => inv.shape.known wq (rest.subset member)
    listening := fun _ => inv.shape.listening (.inl (by simp [waiting]))
    target := nofun
    collecting := nofun
    made := nofun
    quiet := fun _ _ => quiet }, { inv.truthful with
    finished := fun wq member => inv.truthful.finished wq (both.subset member)
    returned := ?_ }, ?_⟩
  · intro other member inTime
    rcases List.mem_append.mp member with old | new
    · exact inv.truthful.returned other old inTime
    · obtain rfl := by simpa using new
      exact right inTime
  · constructor
    · intro wq member open_ handled
      rcases inv.alert.pending wq (rest.subset member) open_ handled with
        ⟨_, asking⟩ | ⟨other, old, path, cached⟩
      · simp [waiting] at asking
      · exact .inr ⟨other, List.mem_append.mpr (.inl old), path, cached⟩
    · nofun
    · nofun

theorem Inv.proceed (inv : Inv s) (moved : proceed s = .ok s') : Inv s' := by
  unfold Client.proceed at moved
  split at moved
  · rename_i fetching
    cases moved
    exact inv.hangUp (.inr fetching)
  · rename_i objectPath addr timeout asking
    obtain ⟨answered, open_⟩ := inv.asked asking
    split at moved
    · rename_i info exited
      cases moved
      rw [exitInfo_roundtrip]
      exact answered info exited
    · rename_i running
      cases moved
      exact open_ running
  · rename_i objectPath addr timeout waiting
    split at moved
    · rename_i wq found
      split at moved
      · rename_i done
        cases moved
        have member := List.mem_of_find?_eq_some found
        have same : wq.addr = addr := by simpa using List.find?_some found
        obtain ⟨target, targetMember, targetAddr, targetPath⟩ := inv.shape.target objectPath addr timeout (.inr waiting)
        obtain rfl := inv.entryOf member targetMember (same.trans targetAddr.symm)
        obtain ⟨info, exited, noted⟩ := inv.truthful.finished wq (List.mem_append.mpr (.inl member)) done
        refine inv.ends waiting List.filter_sublist fun _ => ⟨info, ?_, ?_⟩
        · exact targetPath ▸ exited
        · simp [noted]
      · cases moved
    · cases moved
  · cases moved

/-- The program waits for no process whose entry was left behind. -/
def Permitted (s : State) (input : Input) : Prop :=
  ∀ objectPath timeout, input = .wait objectPath timeout → ¬ s.LeftBehind objectPath

theorem Inv.step (inv : Inv s) (permitted : Permitted s input) (moved : step s input = .ok s') : Inv s' := by
  cases input with
  | create objectPath =>
    simp only [Client.step] at moved
    split at moved
    · rename_i absent
      cases moved
      exact inv.make absent
    · cases moved
  | schedule objectPath =>
    simp only [Client.step] at moved
    split at moved
    · rename_i fits
      cases moved
      exact inv.schedule fits.1 fits.2
    · cases moved
  | exit objectPath info =>
    simp only [Client.step] at moved
    split at moved
    · rename_i fits
      cases moved
      exact inv.exit fits.1 fits.2
    · cases moved
  | signal place =>
    simp only [Client.step] at moved
    split at moved
    · rename_i objectPath arg found
      cases moved
      exact inv.signal found
    · cases moved
  | run =>
    simp only [Client.step] at moved
    split at moved
    · rename_i idle
      cases moved
      exact inv.run idle
    · cases moved
  | reply usable =>
    simp only [Client.step] at moved
    split at moved
    · rename_i made running
      split at moved
      · cases moved
        exact inv.reply running
      · cases moved
      · cases moved
        exact inv.hangUp (.inl ⟨_, running⟩)
    · cases moved
  | wait objectPath timeout =>
    simp only [Client.step] at moved
    split at moved
    · rename_i fits
      split at moved
      · rename_i wq entry
        cases moved
        exact inv.waitFound fits.1 entry (permitted objectPath timeout rfl)
      · rename_i missing
        cases moved
        exact inv.waitMissing fits.1 fits.2 missing
    · cases moved
  | proceed => exact inv.proceed moved
  | alarm =>
    simp only [Client.step] at moved
    split at moved
    · rename_i waiting
      cases moved
      exact inv.ends waiting (List.Sublist.refl _) (by simp)
    · cases moved

theorem Inv.initial : Inv {} := by
  constructor <;> constructor <;> simp [State.exited, State.Handled]

theorem Inv.paired (inv : Inv s) : Paired s where
  returned := inv.truthful.returned
  prompt := by
    intro objectPath info exited arrived awaits
    rcases awaits with ⟨addr, timeout, asking⟩ | ⟨addr, timeout, waiting⟩
    · simp [Client.proceed, asking, exited, exitInfo_roundtrip]
    · obtain ⟨wq, member, rfl, path⟩ := inv.shape.target objectPath addr timeout (.inr waiting)
      have found : s.waitq.find? (fun other => other.addr = wq.addr) = some wq := by
        obtain ⟨other, found⟩ : ∃ other, s.waitq.find? (fun other => other.addr = wq.addr) =
            some other := Option.isSome_iff_exists.mp (List.find?_isSome.mpr ⟨wq, member, by simp⟩)
        have same : other.addr = wq.addr := by simpa using List.find?_some found
        rw [found, inv.entryOf (List.mem_of_find?_eq_some found) member same]
      have done : wq.done = true := by
        by_contra open_
        exact inv.alert.waiting objectPath wq.addr timeout waiting wq member rfl
          (by simpa using open_) ⟨by simp [exited], arrived⟩
      obtain ⟨noted, same, has⟩ := inv.truthful.finished wq (List.mem_append.mpr (.inl member)) done
      rw [path, exited] at same
      cases same
      refine ⟨waitReturn objectPath wq s, ?_, ?_⟩
      · simp [Client.proceed, waiting, found, done]
      · simp [waitReturn, has]

/-- An entry that was left behind makes the next wait on its process wait for good. -/
theorem Inv.stuck (inv : Inv s) (left : s.LeftBehind objectPath)
    (moved : Client.step s (.wait objectPath timeout) = .ok s') : ¬ Paired s' := by
  obtain ⟨⟨r, answered, rfl, property⟩, arrived, wq, member, path, open_⟩ := left
  obtain ⟨info, exited, -⟩ := inv.truthful.returned r answered (by simp [property])
  have only : ∀ other ∈ s.waitq, other.objectPath = r.objectPath → other = wq := by
    intro other otherMember otherPath
    exact List.inj_on_of_nodup_map inv.shape.paths otherMember member (otherPath.trans path.symm)
  obtain ⟨first, found⟩ := waitqFind_isSome member path
  obtain rfl := only first (waitqFind_some found).1 (waitqFind_some found).2
  simp only [Client.step, found] at moved
  split at moved
  · cases moved
    intro paired
    obtain ⟨next, went, -⟩ := paired.prompt r.objectPath info exited arrived (.inr ⟨first.addr, timeout, rfl⟩)
    simp only [Client.proceed] at went
    split at went
    · rename_i entry at_
      have same : entry.addr = first.addr := by simpa using List.find?_some at_
      obtain rfl := inv.entryOf (List.mem_of_find?_eq_some at_) member same
      simp [open_] at went
    · cases went
  · cases moved

/-- As long as no wait comes upon an entry that was left behind, every wait gets what was
signalled; the first one that does waits for good. -/
theorem waits_paired {inputs : List Input} {final : State}
    (along : Machine.Along step Permitted {} inputs)
    (ran : Machine.run step {} inputs = .ok final) :
    Paired final ∧ ∀ objectPath timeout next, final.LeftBehind objectPath →
      step final (.wait objectPath timeout) = .ok next → ¬ Paired next := by
  have inv : Inv final := Machine.invariant_run Inv
    (fun _ _ _ inv permitted moved => inv.step permitted moved) Inv.initial along ran
  exact ⟨inv.paired, fun _ _ _ left moved => inv.stuck left moved⟩

instance (objectPath : CString) : Decidable (s.LeftBehind objectPath) :=
  inferInstanceAs (Decidable (_ ∧ _ ∧ _))

def permits (s : State) : Input → Bool
  | .wait objectPath _ => !decide (s.LeftBehind objectPath)
  | _ => true

theorem permitted_of_permits (s : State) (input : Input) (permitted : permits s input = true) :
    Permitted s input := by
  rintro objectPath timeout rfl
  simpa [permits] using permitted

/-- A process exits while the client still waits for the answer to `Host.run`, and the
client waits for it twice. -/
def exitFirst : List Input :=
  [.run, .schedule [47], .exit [47] { how := processExited, exitCode := 3 }, .signal 0,
    .reply true, .proceed, .wait [47] false, .proceed, .wait [47] false, .proceed]

theorem waits_paired_exitFirst : ∃ final, Machine.run step {} exitFirst = .ok final ∧
    Paired final ∧ final.returned.map Return.source = [.entry, .property] := by
  have allowed : Machine.checkAlong step permits {} exitFirst = true := by decide +kernel
  obtain ⟨final, ran, sources⟩ := Machine.run_view step {} exitFirst
    (fun s => s.returned.map Return.source) [.entry, .property] (by decide +kernel)
  exact ⟨final, ran,
    (waits_paired (Machine.along_check permitted_of_permits allowed) ran).1, sources⟩

/-- A client that waits twice for a process of another client, whose signal came first,
waits for good. -/
theorem second_wait_stuck : ¬ ∀ (inputs : List Input) (final : State),
    Machine.run step {} inputs = .ok final → Paired final := by
  intro always
  have paired := always [.create [47], .exit [47] { how := processExited, exitCode := 3 },
    .signal 0, .wait [47] false, .proceed, .wait [47] false] _ rfl
  obtain ⟨next, went, -⟩ := paired.prompt [47] { how := processExited, exitCode := 3 } rfl
    (by decide) (.inr ⟨0, false, rfl⟩)
  have stuck : (Except.error .disabled : Except Fault State) = .ok next := went
  cases stuck

end Testbus.Client
