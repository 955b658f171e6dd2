import Testbus.Server.Agents
import Testbus.Server.Paths

namespace Testbus.Server

open Lib

/-- The property `generation` of a host object. -/
def World.generation (w : World) (objectPath : CString) : Option UInt32 := do
  let host ← containerUnwrap w.objects objectPath
  let self ← w.heap.cells host
  if self.kind = .host then some self.generation else none

/-- The object of the host that a request announces ready. -/
def announced (w : World) : Request → Option CString
  | .ready sender =>
    match containerFindAgentHost globalContext
        (lookupWellknownBusName w.nameMappings sender) w with
    | .ok (some host) => (w.heap.cells host).bind Container.dbusObjectPath
    | _ => none
  | _ => none

/-- A container that was announced shows how often. -/
def announcement : View (Kind × UInt32) where
  look attended generation :=
    if generation = 0 then none else some (attended.1, generation)
  fresh _ := rfl
  left _ _ := Or.inl rfl

section Generation

variable {w w' : World} {objectPath name sender : CString} {generation : UInt32}

theorem announcement_some :
    announcement.of self = some value ↔ self.generation ≠ 0 ∧ (self.kind, self.generation) = value := by
  simp [View.of, announcement, Container.attended]

/-- A container is found under the path of its object. -/
theorem unwrap_named (settled : Settled w) (found : w.heap.cells h = some self)
    (named : self.dbusObjectPath = some objectPath) : containerUnwrap w.objects objectPath = some h := by
  have member := settled.registered.named h self objectPath found named
  exact Option.bind_eq_some_iff.mpr ⟨_, settled.registered.tree.find_path member, rfl⟩

theorem announcement_eq (kind : new.kind = old.kind)
    (same : new.generation = old.generation) : announcement.of new = announcement.of old := by
  simp only [View.of, announcement, Container.attended, kind, same]

/-- An object that is for a host, and the host. -/
theorem generation_some (settled : Settled w) :
    w.generation objectPath = some generation ↔ ∃ h self, w.heap.cells h = some self ∧
      self.dbusObjectPath = some objectPath ∧ self.kind = .host ∧ self.generation = generation := by
  constructor
  · intro shown
    obtain ⟨h, unwrapped, shown⟩ := Option.bind_eq_some_iff.mp shown
    obtain ⟨self, found, shown⟩ := Option.bind_eq_some_iff.mp shown
    split at shown
    · rename_i kind
      obtain ⟨object, looked, handle⟩ := Option.bind_eq_some_iff.mp unwrapped
      have path : object.path = objectPath := by simpa using List.find?_some looked
      rcases settled.registered.handle object (List.mem_of_find?_eq_some looked) h handle with
        ⟨rfl, _⟩ | ⟨_, self', found', named⟩
      · have root := settled.wf.rootKind
        rw [kind_graph found, kind] at root
        cases root
      · obtain rfl := Option.some.inj (found.symm.trans found')
        exact ⟨h, self, found, path ▸ named, kind, Option.some.inj shown⟩
    · cases shown
  · rintro ⟨h, self, found, named, kind, rfl⟩
    refine Option.bind_eq_some_iff.mpr ⟨h, unwrap_named settled found named, ?_⟩
    exact Option.bind_eq_some_iff.mpr ⟨self, found, if_pos kind⟩

theorem World.Shrink.tame (shrink : w.Shrink ∅ loose given w') : w.Tame announcement w' where
  shown c new value found shows := by
    obtain ⟨old, there, kept⟩ := shrink.kept found
    exact ⟨old, there, announcement_eq kept.less.kind kept.less.generation ▸ shows⟩
  aged c new found := by
    obtain ⟨old, there, kept⟩ := shrink.kept found
    exact .inr ⟨old, there, kept.less.kind.symm, kept.less.generation.symm⟩
  next := Nat.le_of_eq shrink.next.symm
  nameMappings := shrink.nameMappings
  owned := shrink.owned

theorem tame_setAgent (w : World) (h : Addr) : w.Tame announcement (hostSetAgent h sender w) :=
  World.Tame.modify w h fun _ => ⟨Or.inl (announcement_eq rfl rfl), rfl, rfl⟩

theorem tame_createHost (ran : createHost name sender uuid w = .ok (w', answer)) : w.Tame announcement w' := by
  obtain ⟨made, created, rest⟩ := bind_ok.mp ran
  cases made with
  | none =>
    cases rest
    exact World.Tame.refl announcement w
  | some made =>
    obtain ⟨h, w₁⟩ := made
    obtain ⟨wrapped, named, rest⟩ := bind_ok.mp rest
    cases rest
    have agent : w.Tame announcement (hostSetAgent h sender w₁) := (tame_hostNew created).trans (tame_setAgent w₁ h)
    exact agent.trans ((World.Tame.modify _ h (by intro; exact ⟨Or.inl rfl, rfl, rfl⟩)).trans
      (tame_containerWrap named))

theorem tame_hostReconnect (ran : hostReconnect h uuid generated sender w = .ok (w', answer)) : w.Tame announcement w' := by
  obtain ⟨self, _, rest⟩ := bind_ok.mp ran
  cases rest
  exact (World.Tame.modify w h (by intro; exact ⟨Or.inl rfl, rfl, rfl⟩)).trans (tame_setAgent _ h)

theorem tame_reconnect (ran : reconnect name uuid generated sender w = .ok (w', answer)) : w.Tame announcement w' := by
  obtain ⟨known, _, rest⟩ := bind_ok.mp ran
  cases known with
  | none =>
    obtain ⟨made, created, rest⟩ := bind_ok.mp rest
    cases made with
    | none =>
      cases rest
      exact World.Tame.refl announcement w
    | some made =>
      obtain ⟨h, w₁⟩ := made
      obtain ⟨wrapped, named, rest⟩ := bind_ok.mp rest
      exact ((tame_hostNew created).trans (tame_containerWrap named)).trans (tame_hostReconnect rest)
  | some h =>
    obtain ⟨self, _, rest⟩ := bind_ok.mp rest
    obtain ⟨self', _, rest⟩ := bind_ok.mp rest
    have gone : w.Tame announcement (if uuid ≠ 0 ∧ self.uuid = uuid ∧ self.agentBusName ≠ none then
        hostAgentDisconnected h w else w) := by
      split
      · exact tame_disconnected w h
      · exact World.Tame.refl announcement w
    split at rest
    · cases rest
      exact gone
    · exact gone.trans (tame_hostReconnect rest)

theorem ages_nameOwnerChanged (steady : Steady w)
    (moved : step w (.nameOwnerChanged name newOwner) = .ok w') : w.Ages announcement w' := by
  obtain ⟨root, foundRoot, _⟩ := steady.settled.root
  have heard : w.Ages announcement (w.heard name newOwner) :=
    ⟨fun _ new _ found shows => ⟨new, found, shows⟩, fun _ new found => .inr ⟨new, found, rfl, rfl⟩, Nat.le_refl _⟩
  rcases nameOwnerChanged_cases steady foundRoot moved with
    ⟨_, rfl⟩ | ⟨_, ⟨x, _, _, _, _, rfl⟩ | ⟨rfl, _⟩⟩
  · exact heard
  · have tame : (w.heard name newOwner).Tame announcement (hostAgentDisconnected x (w.heard name newOwner)) :=
      tame_disconnected (w.heard name newOwner) x
    exact ⟨tame.shown, tame.aged, tame.next⟩
  · exact heard

/-- Every request but the announcement of a host leaves the generations of the hosts. -/
theorem step_ages (steady : Steady w) (moved : step w request = .ok w')
    (quiet : ∀ sender, request ≠ .ready sender) : w.Ages announcement w' := by
  obtain ⟨answer, ran⟩ := step_ok moved
  cases request with
  | ready sender => exact absurd rfl (quiet sender)
  | nameOwnerChanged name newOwner => exact ages_nameOwnerChanged steady moved
  | createHost name sender uuid => exact (tame_createHost (fromOwned_inv ran).2).toAges
  | reconnect name uuid generated sender => exact (tame_reconnect (fromOwned_inv ran).2).toAges
  | removeHost name =>
    obtain ⟨_, shrink⟩ := removeHost_shrink steady ran
    exact shrink.tame.toAges
  | delete objectPath =>
    rcases delete_ran steady ran with rfl | ⟨c, _, _, _, _, _, deleted⟩
    · exact (World.Tame.refl announcement w').toAges
    · exact deleted.shrink.tame.toAges
  | createTest objectPath name => exact (tame_createTest ran).toAges
  | createCommand objectPath => exact (tame_createCommand ran).toAges
  | addHost objectPath name hostPath => exact (tame_addHost ran).toAges
  | run objectPath commandPath => exact (tame_run ran).toAges
  | setenv objectPath name value => exact (tame_setenv ran).toAges
  | addCapability objectPath capability =>
    simp only [serve, addCapability] at ran
    exact (tame_update (by intro; exact ⟨rfl, rfl, rfl⟩) ran).toAges
  | setExitInfo objectPath info =>
    simp only [serve, setExitInfo] at ran
    exact (tame_update (by intro; exact ⟨rfl, rfl, rfl⟩) ran).toAges
  | shutdown objectPath => exact (tame_shutdown ran).toAges

/-- A request gives no container that is there an object. -/
theorem Served.path_back (served : Served w request w')
    (steady : Steady w) (found : w'.heap.cells h = some self) (there : w.heap.cells h = some old)
    (named : self.dbusObjectPath = some path) : old.dbusObjectPath = some path := by
  have shrunk {loose : Set Addr} {given : Set (Addr × Kind)} (shrink : w.Shrink ∅ loose given w') :
      old.dbusObjectPath = some path := by
    obtain ⟨old', found', kept⟩ := shrink.kept found
    obtain rfl := Option.some.inj (there.symm.trans found')
    exact kept.less.path named
  cases served with
  | alike alike =>
    obtain ⟨old', found', same⟩ := alike.back found
    obtain rfl := Option.some.inj (there.symm.trans found')
    exact same.path.symm.trans named
  | created _ _ fresh inserted wrapped _ alike =>
    rcases created_back steady fresh inserted alike found with
      ⟨rfl, _⟩ | ⟨_, old', found', _, _, path, _⟩
    · exact absurd (steady.settled.wf.bound (kind_graph there)) (lt_irrefl _)
    · obtain rfl := Option.some.inj (there.symm.trans found')
      exact path.symm.trans named
  | @claimed _ role _ x p host above claims inside apart settled =>
    by_cases here : h = x
    · subst here
      obtain rfl := Option.some.inj (found.symm.trans (claim_host apart claims.found))
      obtain rfl := Option.some.inj (there.symm.trans claims.found)
      exact named
    · by_cases under : h = p
      · subst under
        obtain rfl := Option.some.inj (found.symm.trans (claim_above apart inside))
        obtain rfl := Option.some.inj (there.symm.trans inside)
        exact named
      · rw [claim_other here under, there] at found
        obtain rfl := Option.some.inj found
        exact named
  | removed looked found kind removed => exact shrunk removed.shrink
  | deleted unwrapped found apart parented deleted => exact shrunk deleted.shrink

theorem announced_ready (steady : Steady w)
    (foundRoot : w.heap.cells globalContext = some root) (moved : step w (.ready sender) = .ok w') :
    w' = w ∨ ∃ x host, w.heap.cells x = some host ∧ w' = hostAgentReady x w ∧
      announced w (.ready sender) = host.dbusObjectPath := by
  obtain ⟨answer, ran⟩ := step_ok moved
  change fromOwned sender w (fun w => agentReady sender w >>= fun w => .ok (w, .done)) = _ at ran
  obtain ⟨_, ran⟩ := fromOwned_inv ran
  obtain ⟨w₁, ready, rest⟩ := bind_ok.mp ran
  cases rest
  obtain ⟨host, looked, rest⟩ := bind_ok.mp ready
  rcases findAgentHost_cases steady.settled foundRoot (lookupWellknownBusName w.nameMappings sender) with
    ⟨x, host, looked', _, there, _⟩ | ⟨looked', _⟩
  · obtain rfl := Except.ok.inj (looked'.symm.trans looked)
    cases rest
    refine Or.inr ⟨x, host, there, rfl, ?_⟩
    simp only [announced, looked', there, Option.bind_some]
  · obtain rfl := Except.ok.inj (looked'.symm.trans looked)
    cases rest
    exact Or.inl rfl

/-- The object is for a host that was made after the addresses below a bound were given out. -/
def World.NewHost (w : World) (bound : Addr) (objectPath : CString) : Prop :=
  ∃ h, containerUnwrap w.objects objectPath = some h ∧ bound ≤ h

/-- The generation of a host is what it was, unless the host is announced, or it is new and has none. -/
theorem generation_step (steady : Steady w) (moved : step w request = .ok w')
    (shown : w'.generation objectPath = some generation) :
    generation = 0 ∧ w'.NewHost w.next objectPath ∨
      w.generation objectPath = some generation ∧
        containerUnwrap w'.objects objectPath = containerUnwrap w.objects objectPath ∨
      announced w request = some objectPath := by
  have served := step_served steady moved
  have settled := (served.steady steady).settled
  obtain ⟨h, self, found, named, kind, rfl⟩ := (generation_some settled).mp shown
  have unwrapped := unwrap_named settled found named
  have back {old : Container} (there : w.heap.cells h = some old) (kind' : old.kind = self.kind)
      (same : old.generation = self.generation) : w.generation objectPath = some self.generation ∧
        containerUnwrap w'.objects objectPath = containerUnwrap w.objects objectPath := by
    have named' := served.path_back steady found there named
    exact ⟨(generation_some steady.settled).mpr ⟨h, old, there, named', kind'.trans kind, same⟩,
      unwrapped.trans (unwrap_named steady.settled there named').symm⟩
  by_cases ready : ∃ sender, request = .ready sender
  · obtain ⟨sender, rfl⟩ := ready
    obtain ⟨root, foundRoot, _⟩ := steady.settled.root
    rcases announced_ready steady foundRoot moved with rfl | ⟨x, host, there, rfl, path⟩
    · exact .inr (.inl ⟨shown, rfl⟩)
    · by_cases here : h = x
      · subst here
        exact .inr (.inr (path.trans (served.path_back steady found there named)))
      · exact .inr (.inl (back ((Store.modify_of_ne here).symm.trans found) rfl rfl))
  · have ages := step_ages steady moved (not_exists.mp ready)
    rcases ages.aged h self found with late | ⟨old, there, kind', same⟩
    · refine .inl ⟨?_, h, unwrapped, late⟩
      by_contra counted
      obtain ⟨old, there, -⟩ := ages.shown h self _ found (announcement_some.mpr ⟨counted, rfl⟩)
      exact absurd (steady.settled.wf.bound (kind_graph there)) (Nat.not_lt.mpr late)
    · exact .inr (.inl (back there kind' same))

theorem step_next (steady : Steady w) (moved : step w request = .ok w') : w.next ≤ w'.next := by
  by_cases ready : ∃ sender, request = .ready sender
  · obtain ⟨sender, rfl⟩ := ready
    obtain ⟨root, foundRoot, _⟩ := steady.settled.root
    rcases announced_ready steady foundRoot moved with rfl | ⟨x, host, there, rfl, path⟩
    · exact Nat.le_refl _
    · exact Nat.le_refl _
  · exact (step_ages steady moved (not_exists.mp ready)).next

/-- Over a run in which a host is not announced, its generation stays; it has none only if the host is one that
the run made. -/
theorem generation_stays {requests : List Request} (reachable : Reachable w)
    (silent : Machine.Along step (fun w request => announced w request ≠ some objectPath) w requests)
    (ran : Machine.run step w requests = .ok w') (shown : w'.generation objectPath = some generation) :
    w.generation objectPath = some generation ∨ generation = 0 ∧ w'.NewHost w.next objectPath := by
  have kept := Machine.invariant_run (fun between => Steady between ∧ w.next ≤ between.next ∧ ∀ generation,
      between.generation objectPath = some generation →
        w.generation objectPath = some generation ∨ generation = 0 ∧ between.NewHost w.next objectPath) ?_
    ⟨reachable.steady, Nat.le_refl _, fun _ => Or.inl⟩ silent ran
  · exact kept.2.2 generation shown
  rintro between request next ⟨steady, later, before⟩ quiet moved
  refine ⟨(step_served steady moved).steady steady, later.trans (step_next steady moved), fun generation shown => ?_⟩
  rcases generation_step steady moved shown with ⟨first, h, unwrapped, late⟩ | ⟨same, unwrapped⟩ | again
  · exact .inr ⟨first, h, unwrapped, later.trans late⟩
  · refine (before generation same).imp_right (And.imp_right ?_)
    rintro ⟨h, there, late⟩
    exact ⟨h, unwrapped.trans there, late⟩
  · exact absurd again quiet

theorem generation_stays_new : ∃ (w' : World) (objectPath : CString), w'.generation objectPath = some 0 ∧
    (World.initial.generation objectPath = some 0 ∨
      (0 : UInt32) = 0 ∧ w'.NewHost World.initial.next objectPath) := by
  let requests : List Request :=
    [.nameOwnerChanged (ascii ['a']) (ascii ['a']), .createHost (ascii ['h']) (ascii ['a']) 0]
  let path := childPath hostlistPath (ascii "Host0".toList)
  obtain ⟨w', ran, shown⟩ := Machine.run_view step World.initial requests
    (fun w => w.generation path) (some 0) (by decide +kernel)
  have checked : Machine.checkAlong step (fun w request => announced w request ≠ some path)
      World.initial requests = true := by decide +kernel
  exact ⟨w', path, shown, generation_stays ⟨[], rfl⟩
    (Machine.along_check (fun w request passed => of_decide_eq_true passed) checked) ran shown⟩

end Generation

end Testbus.Server
