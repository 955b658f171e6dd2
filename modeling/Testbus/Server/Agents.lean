import Testbus.Server.Deletion
import Testbus.Server.Tame

namespace Testbus.Server

open Lib Testbus.Environ Testbus.Dbus

/-- No host gets ready, and what is ready keeps its agent. -/
structure World.Calm (w w' : World) : Prop where
  hosts : ∀ h new, w'.heap.cells h = some new → new.kind = .host → new.ready = true →
    ∃ old, w.heap.cells h = some old ∧ old.kind = .host ∧ old.ready = true ∧
      old.agentBusName = new.agentBusName
  nameMappings : w'.nameMappings = w.nameMappings
  owned : w'.owned = w.owned

section Calm

variable {w w' w'' : World} {objectPath name : CString}

/-- A host that is ready shows its agent. -/
def readiness : View (Option CString) where
  look attended _ :=
    if attended.1 = .host ∧ attended.2.1 = true then some attended.2.2 else none
  fresh _ := if_neg (by simp)
  left _ _ := Or.inr (if_neg (by simp))

theorem readiness_some :
    readiness.of self = some agent ↔ (self.kind = .host ∧ self.ready = true) ∧ self.agentBusName = agent := by
  simp [View.of, readiness, Container.attended]

theorem World.Tame.calm (tame : w.Tame readiness w') : w.Calm w' where
  hosts h new found kind ready := by
    obtain ⟨old, there, shown⟩ := tame.shown h new new.agentBusName found (readiness_some.mpr ⟨⟨kind, ready⟩, rfl⟩)
    obtain ⟨⟨kind', ready'⟩, agent⟩ := readiness_some.mp shown
    exact ⟨old, there, kind', ready', agent⟩
  nameMappings := tame.nameMappings
  owned := tame.owned

theorem World.Calm.shrink (shrink : w.Shrink ∅ loose given w')
    (gone : ∀ c ∈ loose, ∀ new, w'.heap.cells c = some new → new.kind = .host → new.ready = false) : w.Calm w' where
  hosts h new found kind ready := by
    obtain ⟨old, found', kept⟩ := shrink.kept found
    have outside : h ∉ loose := by
      intro inside
      rw [gone h inside new found kind] at ready
      cases ready
    exact ⟨old, found', kept.less.kind ▸ kind, kept.less.ready ▸ ready, (kept.agent outside kind).symm⟩
  nameMappings := shrink.nameMappings
  owned := shrink.owned

theorem removeHost_shrink (steady : Steady w) (ran : removeHost name w = .ok (w', answer)) :
    ∃ given, w.Shrink ∅ ∅ given w' := by
  obtain ⟨root, foundRoot, _⟩ := steady.settled.root
  obtain ⟨host, looked, rest⟩ := bind_ok.mp ran
  rcases getHostByName_cases steady.settled foundRoot name with
    ⟨h, _, looked', member, _⟩ | looked'
  · obtain rfl := Except.ok.inj (looked'.symm.trans looked)
    obtain ⟨w₁, removed, effect⟩ := removeHost_ok steady.settled foundRoot member
    obtain ⟨_, removed', rest⟩ := bind_ok.mp rest
    obtain rfl := Except.ok.inj (removed.symm.trans removed')
    cases rest
    exact ⟨_, effect.shrink⟩
  · obtain rfl := Except.ok.inj (looked'.symm.trans looked)
    cases rest
    exact ⟨∅, World.Shrink.refl ∅ ∅ ∅ w⟩

theorem calm_removeHost (steady : Steady w) (ran : removeHost name w = .ok (w', answer)) : w.Calm w' := by
  obtain ⟨_, shrink⟩ := removeHost_shrink steady ran
  exact World.Calm.shrink shrink fun _ inside => inside.elim

/-- A deletion that is not refused takes the container of the object. -/
theorem delete_ran (steady : Steady w) (ran : delete objectPath w = .ok (w', answer)) :
    w' = w ∨ ∃ c self, containerUnwrap w.objects objectPath = some c ∧
      w.heap.cells c = some self ∧ c ≠ globalContext ∧ self.parent ≠ none ∧ Deleted w w' c := by
  cases unwrapped : containerUnwrap w.objects objectPath with
  | none =>
    simp only [delete, unwrapped] at ran
    cases ran
    exact Or.inl rfl
  | some c =>
    obtain ⟨⟨self, found⟩, _⟩ := unwrap_place steady.settled unwrapped
    rcases delete_cases steady unwrapped found with ⟨_, same⟩ | ⟨apart, parented, w₁, done, deleted⟩
    · rw [same] at ran
      cases ran
      exact Or.inl rfl
    · rw [done] at ran
      cases ran
      exact Or.inr ⟨c, self, rfl, found, apart, parented, deleted⟩

end Calm

/-- The names that stand for their owners have owners. -/
structure Mapped (mappings : List (CString × CString)) (owned : List CString) : Prop where
  distinct : (mappings.map Prod.fst).Nodup
  known : ∀ name ∈ mappings.map Prod.fst, name ∈ owned ∧ testbusNamespace.isPrefixOf name = true

section Mappings

variable {owned : List CString} {name owner : CString}

theorem Mapped.lookup (mapped : Mapped mappings owned) (member : owner ∈ owned) :
    lookupWellknownBusName mappings owner ∈ owned := by
  unfold lookupWellknownBusName
  split
  · rename_i map found
    exact (mapped.known map.1 (List.mem_map_of_mem (List.mem_of_find?_eq_some found))).1
  · exact member

theorem record_names (name owner : CString) (mappings : List (CString × CString)) :
    ((recordWellknownBusName name owner mappings).map Prod.fst).Sublist (mappings.map Prod.fst) ∨
      owner ≠ [] ∧ name ∉ mappings.map Prod.fst ∧
        (recordWellknownBusName name owner mappings).map Prod.fst = mappings.map Prod.fst ++ [name] := by
  induction mappings with
  | nil =>
    unfold recordWellknownBusName
    split
    · exact Or.inl (List.Sublist.refl _)
    · rename_i owner
      exact Or.inr ⟨owner, List.not_mem_nil, rfl⟩
  | cons map rest ih =>
    unfold recordWellknownBusName
    by_cases same : map.1 = name
    · rw [if_pos same]
      split
      · exact Or.inl (List.sublist_cons_self _ _)
      · simp [same]
    · rw [if_neg same]
      rcases ih with fewer | ⟨owner, absent, more⟩
      · exact Or.inl (fewer.cons_cons map.1)
      · refine Or.inr ⟨owner, ?_, by simp [more]⟩
        simp only [List.map_cons, List.mem_cons, not_or]
        exact ⟨Ne.symm same, absent⟩

theorem record_released (distinct : (mappings.map Prod.fst).Nodup) :
    name ∉ (recordWellknownBusName name [] mappings).map Prod.fst := by
  induction mappings with
  | nil => simp [recordWellknownBusName]
  | cons map rest ih =>
    obtain ⟨absent, later⟩ := List.nodup_cons.mp distinct
    unfold recordWellknownBusName
    by_cases same : map.1 = name
    · rw [if_pos same, if_pos rfl, ← same]
      exact absent
    · rw [if_neg same]
      simp only [List.map_cons, List.mem_cons, not_or]
      exact ⟨Ne.symm same, ih later⟩

/-- The names with an owner after a change. -/
def ownedAfter (name newOwner : CString) (owned : List CString) : List CString :=
  if newOwner = [] then owned.filter fun other => other ≠ name
  else if name ∈ owned then owned else owned ++ [name]

theorem mem_ownedAfter : other ∈ ownedAfter name newOwner owned ↔
    if newOwner = [] then other ∈ owned ∧ other ≠ name else other ∈ owned ∨ other = name := by
  unfold ownedAfter
  split
  · simp
  · split
    · rename_i member
      exact ⟨Or.inl, fun either => either.elim id fun same => same ▸ member⟩
    · simp

theorem Mapped.changed (mapped : Mapped mappings owned) (name newOwner : CString) :
    Mapped (if testbusNamespace.isPrefixOf name then recordWellknownBusName name newOwner mappings
      else mappings) (ownedAfter name newOwner owned) := by
  by_cases ours : testbusNamespace.isPrefixOf name = true
  · rw [if_pos ours]
    have names := record_names name newOwner mappings
    constructor
    · rcases names with fewer | ⟨_, absent, more⟩
      · exact fewer.nodup mapped.distinct
      · rw [more]
        refine List.nodup_append.mpr ⟨mapped.distinct, List.nodup_singleton name, ?_⟩
        rintro x member y same rfl
        exact absent (List.mem_singleton.mp same ▸ member)
    · intro other member
      by_cases released : newOwner = []
      · subst released
        have old := (names.resolve_right fun more => more.1 rfl).subset member
        have apart : other ≠ name := by
          rintro rfl
          exact record_released mapped.distinct member
        rw [mem_ownedAfter, if_pos rfl]
        exact ⟨⟨(mapped.known other old).1, apart⟩, (mapped.known other old).2⟩
      · rw [mem_ownedAfter, if_neg released]
        rcases names with fewer | ⟨_, _, more⟩
        · have known := mapped.known other (fewer.subset member)
          exact ⟨Or.inl known.1, known.2⟩
        · rw [more] at member
          rcases List.mem_append.mp member with old | new
          · have known := mapped.known other old
            exact ⟨Or.inl known.1, known.2⟩
          · obtain rfl := List.mem_singleton.mp new
            exact ⟨Or.inr rfl, ours⟩
  · rw [if_neg ours]
    refine ⟨mapped.distinct, fun other member => ?_⟩
    obtain ⟨known, prefixed⟩ := mapped.known other member
    have apart : other ≠ name := by
      rintro rfl
      exact ours prefixed
    rw [mem_ownedAfter]
    split
    · exact ⟨⟨known, apart⟩, prefixed⟩
    · exact ⟨Or.inl known, prefixed⟩

end Mappings

/-- What is ready has an agent that is on the bus. -/
structure Attended (w : World) : Prop where
  mapped : Mapped w.nameMappings w.owned
  ready : ∀ h host, w.heap.cells h = some host → host.kind = .host → host.ready = true →
    ∃ name ∈ w.owned, host.agentBusName = some name

/-- A host with an agent of that name is not in the list of all hosts, or is not the only one
there. -/
def Missed (w : World) (name : CString) : Prop :=
  ∃ h host root, w.heap.cells h = some host ∧ host.kind = .host ∧ host.agentBusName = some name ∧
    w.heap.cells globalContext = some root ∧ (h ∉ (root.children .host).data ∨
      ∃ x other, x ≠ h ∧ x ∈ (root.children .host).data ∧ w.heap.cells x = some other ∧
        other.agentBusName = some name)

/-- The request takes the agent of a host away, and leaves the host ready. -/
def Unheard (w : World) : Request → Prop
  | .nameOwnerChanged name newOwner => newOwner = [] ∧ Missed w name
  | .delete objectPath => ∃ c self, containerUnwrap w.objects objectPath = some c ∧
      w.heap.cells c = some self ∧ self.kind = .host ∧ self.ready = true ∧ self.parent ≠ none ∧
      self.refcount ≠ 1
  | _ => False

/-- The hosts that had an agent of that name are not ready, and do not have it any more. -/
def Forgotten (w w' : World) (name : CString) : Prop :=
  ∀ h host host', w.heap.cells h = some host → host.kind = .host →
    host.agentBusName = some name → w'.heap.cells h = some host' →
    host'.ready = false ∧ host'.agentBusName ≠ some name

section Attended

variable {objectPath name sender : CString}

theorem Attended.calm (attended : Attended w) (calm : w.Calm w') : Attended w' where
  mapped := calm.nameMappings ▸ calm.owned ▸ attended.mapped
  ready h new found kind ready := by
    obtain ⟨old, there, kind', ready', agent⟩ := calm.hosts h new found kind ready
    obtain ⟨name, member, agent'⟩ := attended.ready h old there kind' ready'
    exact ⟨name, calm.owned ▸ member, agent.symm.trans agent'⟩

theorem Attended.setAgent (attended : Attended w) (h : Addr) (member : sender ∈ w.owned) :
    Attended (hostSetAgent h sender w) where
  mapped := attended.mapped
  ready x new found kind ready := by
    rw [hostSetAgent, World.cells_modify_heap, Store.cells_modify] at found
    split at found
    · obtain ⟨old, _, rfl⟩ := Option.map_eq_some_iff.mp found
      exact ⟨_, attended.mapped.lookup member, rfl⟩
    · exact attended.ready x new found kind ready

theorem Attended.readied (attended : Attended w)
    (found : w.heap.cells h = some host) (agent : host.agentBusName = some name)
    (member : name ∈ w.owned) : Attended (hostAgentReady h w) where
  mapped := attended.mapped
  ready x new there kind ready := by
    rw [hostAgentReady, World.cells_modify_heap, Store.cells_modify] at there
    split at there
    · rename_i here
      subst here
      rw [show w.heap.cells x = some host from found] at there
      obtain rfl := Option.some.inj there
      exact ⟨name, member, agent⟩
    · exact attended.ready x new there kind ready

theorem Attended.created {uuid : Uuid} (attended : Attended w) (member : sender ∈ w.owned)
    (ran : createHost name sender uuid w = .ok (w', answer)) : Attended w' := by
  obtain ⟨made, created, rest⟩ := bind_ok.mp ran
  cases made with
  | none =>
    cases rest
    exact attended
  | some made =>
    obtain ⟨h, w₁⟩ := made
    have calm := (tame_hostNew created).calm
    obtain ⟨wrapped, named, rest⟩ := bind_ok.mp rest
    cases rest
    have agent := (attended.calm calm).setAgent h (calm.owned ▸ member)
    exact (agent.calm (World.Tame.modify _ h (by intro; exact ⟨Or.inl rfl, rfl, rfl⟩)).calm).calm
      (tame_containerWrap named).calm

theorem Attended.registered (attended : Attended w) (member : sender ∈ w.owned)
    (ran : hostReconnect h uuid generated sender w = .ok (w', answer)) : Attended w' := by
  obtain ⟨self, _, rest⟩ := bind_ok.mp ran
  cases rest
  exact (attended.calm (World.Tame.modify w h (by intro; exact ⟨Or.inl rfl, rfl, rfl⟩)).calm).setAgent h member

theorem Attended.reconnected (attended : Attended w) (member : sender ∈ w.owned)
    (ran : reconnect name uuid generated sender w = .ok (w', answer)) : Attended w' := by
  obtain ⟨known, _, rest⟩ := bind_ok.mp ran
  cases known with
  | none =>
    obtain ⟨made, created, rest⟩ := bind_ok.mp rest
    cases made with
    | none =>
      cases rest
      exact attended
    | some made =>
      obtain ⟨h, w₁⟩ := made
      obtain ⟨wrapped, named, rest⟩ := bind_ok.mp rest
      have calm := ((tame_hostNew created).trans (tame_containerWrap named)).calm
      exact (attended.calm calm).registered (calm.owned ▸ member) rest
  | some h =>
    obtain ⟨self, _, rest⟩ := bind_ok.mp rest
    obtain ⟨self', _, rest⟩ := bind_ok.mp rest
    have calm : w.Calm (if uuid ≠ 0 ∧ self.uuid = uuid ∧ self.agentBusName ≠ none then
        hostAgentDisconnected h w else w) := by
      split
      · exact (tame_disconnected w h).calm
      · exact (World.Tame.refl readiness w).calm
    split at rest
    · cases rest
      exact attended.calm calm
    · exact (attended.calm calm).registered (calm.owned ▸ member) rest

theorem Attended.announced (attended : Attended w) (settled : Settled w)
    (member : sender ∈ w.owned) (ran : agentReady sender w = .ok w') : Attended w' := by
  obtain ⟨root, foundRoot, _⟩ := settled.root
  obtain ⟨found, looked, rest⟩ := bind_ok.mp ran
  rcases findAgentHost_cases settled foundRoot (lookupWellknownBusName w.nameMappings sender) with
    ⟨h, host, looked', _, there, agent⟩ | ⟨looked', _⟩
  · obtain rfl := Except.ok.inj (looked'.symm.trans looked)
    cases rest
    exact attended.readied there agent (attended.mapped.lookup member)
  · obtain rfl := Except.ok.inj (looked'.symm.trans looked)
    cases rest
    exact attended

theorem calm_deleted (settled : Settled w)
    (found : w.heap.cells c = some self) (apart : c ≠ globalContext) (parented : self.parent ≠ none)
    (heard : self.kind = .host → self.ready = true → self.refcount = 1) (deleted : Deleted w w' c) : w.Calm w' := by
  refine World.Calm.shrink deleted.shrink fun x inside new there kind => ?_
  obtain rfl := Set.mem_singleton_iff.mp inside
  obtain ⟨old, found', kept⟩ := deleted.shrink.kept there
  obtain rfl := Option.some.inj (found.symm.trans found')
  rw [kept.less.kind] at kind
  rw [kept.less.ready]
  by_contra ready
  rw [Bool.not_eq_false] at ready
  rw [deleted.dead settled found apart parented fun _ => heard kind ready] at there
  cases there

theorem calm_delete (steady : Steady w) (guarded : ¬ Unheard w (.delete objectPath))
    (ran : delete objectPath w = .ok (w', answer)) : w.Calm w' := by
  rcases delete_ran steady ran with rfl | ⟨c, self, unwrapped, found, apart, parented, deleted⟩
  · exact (World.Tame.refl readiness w').calm
  · refine calm_deleted steady.settled found apart parented (fun kind ready => ?_) deleted
    by_contra more
    exact guarded ⟨c, self, unwrapped, found, kind, ready, parented, more⟩

/-- The bus after a change of an owner. -/
def World.heard (w : World) (name newOwner : CString) : World :=
  { w with
    owned := ownedAfter name newOwner w.owned
    nameMappings := if testbusNamespace.isPrefixOf name then
      recordWellknownBusName name newOwner w.nameMappings else w.nameMappings }

/-- The first host in the list of all hosts whose agent has left loses it. -/
theorem nameOwnerChanged_cases (steady : Steady w) (foundRoot : w.heap.cells globalContext = some root) (moved : step w (.nameOwnerChanged name newOwner) = .ok w') :
    newOwner ≠ [] ∧ w' = w.heard name newOwner ∨
      newOwner = [] ∧ ((∃ h host, h ∈ (root.children .host).data ∧ w.heap.cells h = some host ∧
          host.agentBusName = some name ∧ w' = hostAgentDisconnected h (w.heard name newOwner)) ∨
        w' = w.heard name newOwner ∧ ∀ h ∈ (root.children .host).data, ∀ host,
          w.heap.cells h = some host → host.agentBusName ≠ some name) := by
  have start : (if testbusNamespace.isPrefixOf name then
      { w with
        owned := ownedAfter name newOwner w.owned
        nameMappings := recordWellknownBusName name newOwner w.nameMappings }
      else { w with owned := ownedAfter name newOwner w.owned } : World) = w.heard name newOwner := by
    unfold World.heard
    split <;> rfl
  have settled : Settled (w.heard name newOwner) :=
    (bus_alike w (w.heard name newOwner).owned (w.heard name newOwner).nameMappings).settled steady.settled
  unfold step at moved
  cases served : serve w (.nameOwnerChanged name newOwner) with
  | error fault =>
    rw [served] at moved
    cases moved
  | ok result =>
    rw [served] at moved
    cases moved
    obtain ⟨w₁, changed, rest⟩ := bind_ok.mp served
    cases rest
    change nameOwnerChanged name newOwner
      { w with owned := ownedAfter name newOwner w.owned } = .ok w₁ at changed
    unfold nameOwnerChanged at changed
    simp only [start] at changed
    by_cases released : newOwner = []
    · rw [if_pos released] at changed
      refine Or.inr ⟨released, ?_⟩
      obtain ⟨host, looked, rest⟩ := bind_ok.mp changed
      rcases findAgentHost_cases settled (w := w.heard name newOwner) foundRoot name with
        ⟨h, host, looked', member, there, agent⟩ | ⟨looked', none_⟩
      · obtain rfl := Except.ok.inj (looked'.symm.trans looked)
        cases rest
        exact Or.inl ⟨h, host, member, there, agent, rfl⟩
      · obtain rfl := Except.ok.inj (looked'.symm.trans looked)
        cases rest
        exact Or.inr ⟨rfl, none_⟩
    · rw [if_neg released] at changed
      cases changed
      exact Or.inl ⟨released, rfl⟩

/-- A host keeps its agent when another one loses its. -/
theorem disconnected_other (other : x ≠ h) : (hostAgentDisconnected h w).heap.cells x = w.heap.cells x :=
  Store.modify_of_ne other

theorem disconnected_self (found : (hostAgentDisconnected h w).heap.cells h = some host')
    (there : w.heap.cells h = some host) : host'.ready = false ∧ host'.agentBusName = none := by
  rw [hostAgentDisconnected, World.cells_modify_heap, Store.modify_self, there] at found
  obtain rfl := Option.some.inj found
  exact ⟨rfl, rfl⟩

theorem Attended.changed (attended : Attended w) (steady : Steady w)
    (guarded : ¬ Unheard w (.nameOwnerChanged name newOwner))
    (moved : step w (.nameOwnerChanged name newOwner) = .ok w') : Attended w' := by
  obtain ⟨root, foundRoot, _⟩ := steady.settled.root
  have mapped : Mapped (w.heard name newOwner).nameMappings (w.heard name newOwner).owned :=
    attended.mapped.changed name newOwner
  rcases nameOwnerChanged_cases steady foundRoot moved with
    ⟨given, rfl⟩ | ⟨rfl, ⟨h, host, member, there, agent, rfl⟩ | ⟨rfl, none_⟩⟩
  · refine ⟨mapped, fun x new found kind ready => ?_⟩
    obtain ⟨n, owned, named⟩ := attended.ready x new found kind ready
    exact ⟨n, mem_ownedAfter.mpr (by rw [if_neg given]; exact Or.inl owned), named⟩
  · refine ⟨mapped, fun x new found kind ready => ?_⟩
    by_cases here : x = h
    · subst here
      rw [(disconnected_self found there).1] at ready
      cases ready
    · rw [disconnected_other here] at found
      obtain ⟨n, owned, named⟩ := attended.ready x new found kind ready
      have apart : n ≠ name := by
        rintro rfl
        exact guarded ⟨rfl, x, new, root, found, kind, named, foundRoot,
          Or.inr ⟨h, host, Ne.symm here, member, there, agent⟩⟩
      exact ⟨n, mem_ownedAfter.mpr (by rw [if_pos rfl]; exact ⟨owned, apart⟩), named⟩
  · refine ⟨mapped, fun x new found kind ready => ?_⟩
    obtain ⟨n, owned, named⟩ := attended.ready x new found kind ready
    have apart : n ≠ name := by
      rintro rfl
      exact guarded ⟨rfl, x, new, root, found, kind, named, foundRoot,
        Or.inl fun member => none_ x member new found named⟩
    exact ⟨n, mem_ownedAfter.mpr (by rw [if_pos rfl]; exact ⟨owned, apart⟩), named⟩

theorem forgotten_iff (steady : Steady w) (moved : step w (.nameOwnerChanged name []) = .ok w') :
    Forgotten w w' name ↔ ¬ Missed w name := by
  obtain ⟨root, foundRoot, _⟩ := steady.settled.root
  have kinds : ∀ x ∈ (root.children .host).data, ∀ other, w.heap.cells x = some other → other.kind = .host := by
    intro x member other found
    have kind := (steady.settled.wf.entry (p := globalContext) (k := .host) (c := x) (by rwa [slot_graph foundRoot])).1
    rw [kind_graph found] at kind
    exact Option.some.inj kind
  rcases nameOwnerChanged_cases steady foundRoot moved with
    ⟨given, _⟩ | ⟨_, ⟨h, host, member, there, agent, rfl⟩ | ⟨rfl, none_⟩⟩
  · exact absurd rfl given
  · constructor
    · -- Whoever else had the agent still has it.
      rintro forgotten ⟨x, other, root', found, kind, named, foundRoot', place⟩
      obtain rfl := Option.some.inj (foundRoot.symm.trans foundRoot')
      have only : ∀ y new, w.heap.cells y = some new → new.kind = .host → new.agentBusName = some name → y = h := by
        intro y new found kind named
        by_contra apart
        exact (forgotten y new new found kind named ((disconnected_other apart).trans found)).2 named
      obtain rfl := only x other found kind named
      rcases place with absent | ⟨y, new, apart, member', found', named'⟩
      · exact absent member
      · exact apart (only y new found' (kinds y member' new found') named')
    · intro missed x other new found kind named found'
      obtain rfl : x = h := by
        by_contra apart
        exact missed ⟨x, other, root, found, kind, named, foundRoot,
          Or.inr ⟨h, host, Ne.symm apart, member, there, agent⟩⟩
      obtain ⟨ready, gone⟩ := disconnected_self found' there
      exact ⟨ready, by simp [gone]⟩
  · constructor
    · rintro forgotten ⟨x, other, root', found, kind, named, _⟩
      exact (forgotten x other other found kind named found).2 named
    · intro missed x other new found kind named
      exact absurd ⟨x, other, root, found, kind, named, foundRoot,
        Or.inl fun member => none_ x member other found named⟩ missed

theorem step_ok (moved : step w request = .ok w') : ∃ answer, serve w request = .ok (w', answer) := by
  unfold step at moved
  cases served : serve w request with
  | error fault =>
    rw [served] at moved
    cases moved
  | ok result =>
    rw [served] at moved
    cases moved
    exact ⟨result.2, rfl⟩

theorem fromOwned_inv (ran : fromOwned sender w handle = .ok (w', answer)) :
    sender ∈ w.owned ∧ handle w = .ok (w', answer) := by
  unfold fromOwned at ran
  split at ran
  · rename_i member
    exact ⟨member, ran⟩
  · cases ran

theorem Attended.served (attended : Attended w) (steady : Steady w)
    (guarded : ¬ Unheard w request) (moved : step w request = .ok w') : Attended w' := by
  obtain ⟨answer, ran⟩ := step_ok moved
  cases request with
  | createHost name sender uuid =>
    obtain ⟨member, ran⟩ := fromOwned_inv ran
    exact attended.created member ran
  | reconnect name uuid generated sender =>
    obtain ⟨member, ran⟩ := fromOwned_inv ran
    exact attended.reconnected member ran
  | ready sender =>
    change fromOwned sender w (fun w => agentReady sender w >>= fun w => .ok (w, .done)) = _ at ran
    obtain ⟨member, ran⟩ := fromOwned_inv ran
    obtain ⟨w₁, announced, rest⟩ := bind_ok.mp ran
    cases rest
    exact attended.announced steady.settled member announced
  | nameOwnerChanged name newOwner => exact attended.changed steady guarded moved
  | removeHost name => exact attended.calm (calm_removeHost steady ran)
  | createTest objectPath name => exact attended.calm (tame_createTest ran).calm
  | createCommand objectPath => exact attended.calm (tame_createCommand ran).calm
  | addHost objectPath name hostPath => exact attended.calm (tame_addHost ran).calm
  | run objectPath commandPath => exact attended.calm (tame_run ran).calm
  | delete objectPath => exact attended.calm (calm_delete steady guarded ran)
  | setenv objectPath name value => exact attended.calm (tame_setenv ran).calm
  | addCapability objectPath capability =>
    simp only [serve, addCapability] at ran
    exact attended.calm (tame_update (by intro; exact ⟨rfl, rfl, rfl⟩) ran).calm
  | setExitInfo objectPath info =>
    simp only [serve, setExitInfo] at ran
    exact attended.calm (tame_update (by intro; exact ⟨rfl, rfl, rfl⟩) ran).calm
  | shutdown objectPath => exact attended.calm (tame_shutdown ran).calm

theorem attended_initial : Attended World.initial where
  mapped := ⟨List.nodup_nil, by simp [World.initial]⟩
  ready h host found kind := by
    obtain ⟨_, rfl⟩ := initial_cell found
    cases kind

end Attended

/-- As long as the one host of an agent that leaves is in the list of all hosts, and no host is
deleted that is ready and claimed, what is ready has an agent on the bus. -/
theorem ready_agents_owned {w : World} {requests : List Request}
    (guarded : Machine.Along step (fun w request => ¬ Unheard w request) World.initial requests)
    (ran : Machine.run step World.initial requests = .ok w) :
    (∀ h host, w.heap.cells h = some host → host.kind = .host → host.ready = true →
      ∃ name ∈ w.owned, host.agentBusName = some name) ∧
    ∀ name w', step w (.nameOwnerChanged name []) = .ok w' →
      (Forgotten w w' name ↔ ¬ Unheard w (.nameOwnerChanged name [])) := by
  have kept : Steady w ∧ Attended w := by
    refine Machine.invariant_run (fun w => Steady w ∧ Attended w) ?_
      ⟨Steady.initial, attended_initial⟩ guarded ran
    intro w request w' before guard moved
    exact ⟨(step_served before.1 moved).steady before.1, before.2.served before.1 guard moved⟩
  refine ⟨kept.2.ready, fun name w' moved => ?_⟩
  rw [forgotten_iff kept.1 moved]
  exact not_congr ⟨fun missed => ⟨rfl, missed⟩, And.right⟩

theorem ready_agents_owned_announced : ∃ w, (w.heap.cells 1).map Container.ready = some true ∧
    (∀ h host, w.heap.cells h = some host → host.kind = .host → host.ready = true →
      ∃ name ∈ w.owned, host.agentBusName = some name) ∧
    ∀ name w', step w (.nameOwnerChanged name []) = .ok w' →
      (Forgotten w w' name ↔ ¬ Unheard w (.nameOwnerChanged name [])) := by
  let requests : List Request :=
    [.nameOwnerChanged (ascii ['a']) (ascii ['a']),
      .createHost (ascii ['h']) (ascii ['a']) 0,
      .ready (ascii ['a'])]
  obtain ⟨w, ran, cell⟩ := Machine.run_view step World.initial requests
    (fun w => (w.heap.cells 1).map Container.ready) (some true) (by decide +kernel)
  let check (_ : World) : Request → Bool
    | .nameOwnerChanged _ newOwner => newOwner ≠ []
    | .delete _ => false
    | _ => true
  have sound : ∀ w request, check w request = true → ¬ Unheard w request := by
    intro w request checked unheard
    cases request with
    | nameOwnerChanged name newOwner => simp [check, unheard.1] at checked
    | delete objectPath => cases checked
    | _ => exact unheard
  have checked : Machine.checkAlong step check World.initial requests = true := by decide +kernel
  exact ⟨w, cell, ready_agents_owned (Machine.along_check sound checked) ran⟩

/-- One agent has two hosts; when it leaves, the second one keeps it. -/
theorem agent_not_forgotten : ∃ w w' name, Reachable w ∧
    step w (.nameOwnerChanged name []) = .ok w' ∧ ¬ Forgotten w w' name := by
  let requests : List Request :=
    [.nameOwnerChanged (ascii ['a']) (ascii ['a']),
      .createHost (ascii ['h']) (ascii ['a']) 0,
      .createHost (ascii ['i']) (ascii ['a']) 0]
  obtain ⟨w, ran, view⟩ := Machine.run_view step World.initial requests
    (fun w => ((w.heap.cells 2).map fun host => (host.kind, host.agentBusName),
      (step w (.nameOwnerChanged (ascii ['a']) [])).toOption.map fun w' =>
        (w'.heap.cells 2).map Container.agentBusName))
    (some (.host, some (ascii ['a'])), some (some (some (ascii ['a'])))) (by decide +kernel)
  obtain ⟨cell, after⟩ := Prod.mk.inj view
  obtain ⟨host, found, same⟩ := Option.map_eq_some_iff.mp cell
  obtain ⟨kind, agent⟩ := Prod.mk.inj same
  cases moved : step w (.nameOwnerChanged (ascii ['a']) []) with
  | error fault =>
    rw [moved] at after
    cases after
  | ok w' =>
    rw [moved] at after
    obtain ⟨host', found', agent'⟩ := Option.map_eq_some_iff.mp (Option.some.inj after)
    exact ⟨w, w', ascii ['a'], ⟨requests, ran⟩, moved, fun forgotten =>
      (forgotten 2 host host' found kind agent found').2 agent'⟩

end Testbus.Server
