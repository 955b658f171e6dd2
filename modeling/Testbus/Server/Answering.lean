import Testbus.Server.Serving

namespace Testbus.Server

open Lib Testbus.Environ Testbus.Dbus

variable {name sender objectPath : CString}

theorem Serves.same (request : Request) (answer : Answer) : Serves w request (.ok (w, answer)) :=
  .done (.alike (World.Alike.refl w))

section Data

variable (w : World) (h : Addr)

theorem setAgent_alike (owner : CString) : w.Alike (hostSetAgent h owner w) :=
  World.Alike.modify (fun _ => rfl) fun _ _ full => full

theorem setUuid_alike (uuid : Uuid) : w.Alike (w.modify h fun self => { self with uuid := uuid }) :=
  World.Alike.modify (fun _ => rfl) fun _ _ full => full

theorem agentReady_alike : w.Alike (hostAgentReady h w) := World.Alike.modify (fun _ => rfl) fun _ _ full => full

theorem disconnected_alike : w.Alike (hostAgentDisconnected h w) :=
  World.Alike.modify (fun _ => rfl) fun _ _ _ => full_empty

end Data

theorem hostlist_place (settled : Settled w) : w.Place globalContext hostlistPath :=
  ⟨⟨_, settled.registered.hostlist, rfl⟩, Or.inl ⟨rfl, Or.inr rfl⟩⟩

/-- A new host, before clients and its agent know of it. -/
theorem hostNew_cases (steady : Steady w) (name : CString) :
    hostNew globalContext name w = .ok none ∨ ∃ root new,
      containerGetHostByName globalContext name w = .ok none ∧ hostNew globalContext name w = .ok (some (w.next, w.insert globalContext root new)) ∧
        new.kind = .host ∧ new.command = none ∧ Fresh (w.take new.command) globalContext root new := by
  obtain ⟨root, foundRoot, kind⟩ := steady.settled.root
  rcases getHostByName_cases steady.settled foundRoot name with ⟨h, _, looked, _⟩ | looked
  · exact Or.inl (bind_ok.mpr ⟨some h, looked, rfl⟩)
  · have apart : globalContext ≠ w.next := Nat.ne_of_lt (steady.settled.wf.bound (kind_graph foundRoot))
    have has : root.kind.has .host = true := by rw [kind]; rfl
    have made : containerInit globalContext { kind := .host, name := some name } w = _ :=
      containerInit_eq foundRoot apart has
    refine Or.inr ⟨root, _, looked, bind_ok.mpr ⟨none, looked, bind_ok.mpr ⟨_, made, rfl⟩⟩, rfl, rfl, ?_⟩
    exact {
      found := foundRoot
      has := has
      home := fun _ => rfl
      links := ⟨rfl, rfl⟩
      parent := rfl
      one := rfl
      id := rfl
      role := rfl
      nameless := rfl
      children := rfl
      full := full_empty
      ready := rfl }

/-- The data that a new host gets before its object, and after it. -/
theorem hostNew_serves (steady : Steady w) (accepted : Accepted w request)
    (target : request.target w = some (globalContext, .host, hostlistPath)) (kind : new.kind = .host)
    (command : new.command = none) (fresh : Fresh (w.take new.command) globalContext root new)
    (before : (w.insert globalContext root new).Alike w₁) :
    (∃ path, containerWrap hostlistPath w.next w₁ = .ok (path, w₁.wrap w.next path) ∧
        ∀ {w'}, (w₁.wrap w.next path).Alike w' → Served w request w') ∨
      containerWrap hostlistPath w.next w₁ = .error .fatal ∧ Blocked w request := by
  rw [command] at fresh
  have apart : globalContext ≠ w.next := Nat.ne_of_lt (steady.settled.wf.bound (kind_graph fresh.found))
  obtain ⟨made, found, same⟩ := before.forth (insert_self apart)
  have served := create_cases steady accepted (kind ▸ target) (hostlist_place steady.settled)
    (command ▸ fresh) found same.kind same.id before.objects
  rw [command] at served
  exact served.imp_left fun ⟨path, _, wrapped, serves⟩ => ⟨path, wrapped, serves before⟩

theorem createHost_ok (steady : Steady w) (name : CString) (owned : sender ∈ w.owned) (uuid : Uuid) :
    Serves w (.createHost name sender uuid) (createHost name sender uuid w) := by
  rcases hostNew_cases steady name with taken | ⟨root, new, looked, made, kind, command, fresh⟩
  · have same : createHost name sender uuid w =
        .ok (w, .error .nameExists "unable to create new host \"%s\"" [name]) := bind_ok.mpr ⟨none, taken, rfl⟩
    exact same ▸ Serves.same _ _
  · have target : (Request.createHost name sender uuid).target w = some (globalContext, .host, hostlistPath) := rfl
    have data := (setAgent_alike (w.insert globalContext root new) w.next sender).trans (setUuid_alike _ w.next uuid)
    have accepted : Accepted w (.createHost name sender uuid) := ⟨owned, looked⟩
    rcases hostNew_serves steady accepted target kind command fresh data with
      ⟨path, wrapped, serves⟩ | ⟨failed, blocked⟩
    · have same : createHost name sender uuid w = .ok (_, .path (some path)) :=
        bind_ok.mpr ⟨_, made, bind_ok.mpr ⟨_, wrapped, rfl⟩⟩
      exact same ▸ Serves.done (serves (World.Alike.refl _))
    · have same : createHost name sender uuid w = .error .fatal :=
        bind_error.mpr (Or.inr ⟨_, made, bind_error.mpr (Or.inl failed)⟩)
      exact same ▸ Serves.blocked blocked

theorem removeHost_serves (steady : Steady w) (name : CString) : Serves w (.removeHost name) (removeHost name w) := by
  obtain ⟨root, foundRoot, _⟩ := steady.settled.root
  rcases getHostByName_cases steady.settled foundRoot name with
    ⟨h, host, looked, member, found, kind, _⟩ | looked
  · obtain ⟨w', ran, removed⟩ := removeHost_ok steady.settled foundRoot member
    have same : removeHost name w = .ok (w', .done) := bind_ok.mpr ⟨some h, looked, bind_ok.mpr ⟨_, ran, rfl⟩⟩
    exact same ▸ Serves.done (.removed looked found kind removed)
  · have same : removeHost name w = .ok (w, .error .nameUnknown "unknown host \"%s\"" [name]) :=
      bind_ok.mpr ⟨none, looked, rfl⟩
    exact same ▸ Serves.same _ _

/-- The end of a reconnect changes data, and reads the path. -/
theorem hostReconnect_ok (found : w₁.heap.cells h = some host) (uuid generated : Uuid) (sender : CString) :
    ∃ w₂ answer, hostReconnect h uuid generated sender w₁ = .ok (w₂, answer) ∧ w₁.Alike w₂ := by
  have data := (setUuid_alike w₁ h (if uuid = 0 then generated else uuid)).trans (setAgent_alike _ h sender)
  obtain ⟨self, there, _⟩ := data.forth found
  exact ⟨_, _, bind_ok.mpr ⟨self, World.deref_ok.mpr there, rfl⟩, data⟩

theorem reconnect_ok (steady : Steady w) (name : CString) (uuid generated : Uuid) (owned : sender ∈ w.owned) :
    Serves w (.reconnect name uuid generated sender) (reconnect name uuid generated sender w) := by
  obtain ⟨root, foundRoot, _⟩ := steady.settled.root
  rcases getHostByName_cases steady.settled foundRoot name with
    ⟨h, host, looked, _, found, _⟩ | looked
  · -- The host is known.
    let w₁ := if uuid ≠ 0 ∧ host.uuid = uuid ∧ host.agentBusName ≠ none then
      hostAgentDisconnected h w else w
    have data : w.Alike w₁ := by
      by_cases again : uuid ≠ 0 ∧ host.uuid = uuid ∧ host.agentBusName ≠ none
      · simp only [w₁, if_pos again]
        exact disconnected_alike w h
      · simp only [w₁, if_neg again]
        exact World.Alike.refl w
    obtain ⟨self, found₁, _⟩ := data.forth found
    obtain ⟨w₂, answer, ran, later⟩ := hostReconnect_ok found₁ uuid generated sender
    have same : reconnect name uuid generated sender w =
        if self.agentBusName ≠ none then .ok (w₁, .error .nameExists
          "host name \"%s\" already taken (duplicate registration)" [name])
        else hostReconnect h uuid generated sender w₁ := by
      rw [reconnect, looked]
      change (w.deref h >>= _) = _
      rw [World.deref_ok.mpr found]
      change (w₁.deref h >>= _) = _
      rw [World.deref_ok.mpr found₁]
      rfl
    rw [same]
    split
    · exact Serves.done (.alike data)
    · rw [ran]
      exact Serves.done (.alike (data.trans later))
  · rcases hostNew_cases steady name with taken | ⟨root, new, _, made, kind, command, fresh⟩
    · have same : reconnect name uuid generated sender w =
          .ok (w, .error .nameExists "unable to create new host \"%s\"" [name]) :=
        bind_ok.mpr ⟨none, looked, bind_ok.mpr ⟨none, taken, rfl⟩⟩
      exact same ▸ Serves.same _ _
    · have target : (Request.reconnect name uuid generated sender).target w =
          some (globalContext, .host, hostlistPath) := rfl
      have accepted : Accepted w (.reconnect name uuid generated sender) := ⟨owned, looked⟩
      rcases hostNew_serves steady accepted target kind command fresh (World.Alike.refl _) with
        ⟨path, wrapped, serves⟩ | ⟨failed, blocked⟩
      · obtain ⟨w₂, answer, ran, later⟩ : ∃ w₂ answer, hostReconnect w.next uuid generated sender
            ((w.insert globalContext root new).wrap w.next path) = .ok (w₂, answer) ∧
            ((w.insert globalContext root new).wrap w.next path).Alike w₂ := by
          have apart : globalContext ≠ w.next := Nat.ne_of_lt (steady.settled.wf.bound (kind_graph foundRoot))
          have there : ((w.insert globalContext root new).wrap w.next path).heap.cells w.next =
              some { new with dbusObjectPath := some path } := by
            rw [World.wrap, World.cells_modify_heap, Store.modify_self]
            exact congrArg (Option.map _) (insert_self apart)
          exact hostReconnect_ok there uuid generated sender
        have same : reconnect name uuid generated sender w = .ok (w₂, answer) :=
          bind_ok.mpr ⟨none, looked, bind_ok.mpr ⟨_, made, bind_ok.mpr ⟨_, wrapped, ran⟩⟩⟩
        exact same ▸ Serves.done (serves later)
      · have same : reconnect name uuid generated sender w = .error .fatal :=
          bind_error.mpr (Or.inr ⟨_, looked, bind_error.mpr (Or.inr ⟨_, made, bind_error.mpr (Or.inl failed)⟩)⟩)
        exact same ▸ Serves.blocked blocked

/-- A test as it is made below another container. -/
def Container.newTest (name : CString) (p : Addr) (above : Container) : Container :=
  ({ kind := .testcase, name := some name } : Container).placed p above

theorem newTest_fresh (found : w.heap.cells p = some above)
    (has : above.kind.has .testcase = true) (name : CString) : Fresh w p above (Container.newTest name p above) where
  found := found
  has := has
  home := nofun
  links := ⟨rfl, rfl⟩
  parent := rfl
  one := rfl
  id := rfl
  role := rfl
  nameless := rfl
  children := rfl
  full := full_empty
  ready := rfl

/-- A test is made where nothing is wrong with the request, or none can be made there. -/
theorem createTest_cases (steady : Steady w) (unwrapped : containerUnwrap w.objects objectPath = some p)
    (found : w.heap.cells p = some above) (has : above.kind.has .testcase = true)
    (valid : identifierValid name = true) (free : containerGetTestByName p name w = .ok none) :
    (∃ path, path = childPath objectPath (Kind.objectName .testcase (above.children .testcase).nextId) ∧
        createTest objectPath name w =
        .ok ((w.insert p above (.newTest name p above)).wrap w.next path, .path (some path)) ∧
        Served w (.createTest objectPath name) ((w.insert p above (.newTest name p above)).wrap w.next path)) ∨
      createTest objectPath name w = .error .fatal ∧ Blocked w (.createTest objectPath name) := by
  have apart : p ≠ w.next := Nat.ne_of_lt (steady.settled.wf.bound (kind_graph found))
  have made : containerInit p { kind := .testcase, name := some name } w =
      .ok (w.next, w.insert p above (.newTest name p above)) := containerInit_eq found apart has
  have target : (Request.createTest objectPath name).target w = some (p, .testcase, objectPath) := by
    simp [Request.target, unwrapped]
  have accepted : Accepted w (.createTest objectPath name) := ⟨p, above, unwrapped, found, has, valid, free⟩
  have fresh : Fresh (w.take (Container.newTest name p above).command) p above
      (.newTest name p above) := newTest_fresh found has name
  have there : (w.insert p above (.newTest name p above)).heap.cells w.next =
      some (.newTest name p above) := insert_self apart
  have place := (unwrap_place steady.settled unwrapped).2
  have same : createTest objectPath name w =
      containerWrap objectPath w.next (w.insert p above (.newTest name p above)) >>= fun made =>
        .ok (made.2, .path (some made.1)) := by
    simp only [createTest, unwrapped, World.deref_ok.mpr found, bind, Except.bind, has, valid, free,
      made, Bool.true_eq_false, if_false]
  rw [same]
  rcases create_cases steady accepted target place fresh there rfl rfl rfl with
    ⟨path, spelled, wrapped, serves⟩ | ⟨failed, blocked⟩
  · exact Or.inl ⟨path, spelled, bind_ok.mpr ⟨_, wrapped, rfl⟩, serves (World.Alike.refl _) (World.Alike.refl _)⟩
  · exact Or.inr ⟨bind_error.mpr (Or.inl failed), blocked⟩

theorem createTest_ok (steady : Steady w) (objectPath name : CString) :
    Serves w (.createTest objectPath name) (createTest objectPath name w) := by
  cases unwrapped : containerUnwrap w.objects objectPath with
  | none =>
    have same : createTest objectPath name w = .ok (w, unknownObject objectPath) := by
      simp only [createTest, unwrapped]
    exact same ▸ Serves.same _ _
  | some p =>
    obtain ⟨⟨above, found⟩, place⟩ := unwrap_place steady.settled unwrapped
    have read := World.deref_ok.mpr found
    by_cases has : above.kind.has .testcase = true
    swap
    · rw [Bool.not_eq_true] at has
      have same : createTest objectPath name w = .ok (w, unknownMethod objectPath) := by
        simp only [createTest, unwrapped, read, bind, Except.bind, has, if_true]
      exact same ▸ Serves.same _ _
    by_cases valid : identifierValid name = true
    swap
    · rw [Bool.not_eq_true] at valid
      have same : createTest objectPath name w = .ok (w, invalidIdentifier name) := by
        simp only [createTest, unwrapped, read, bind, Except.bind, has, valid, Bool.true_eq_false, if_false, if_true]
      exact same ▸ Serves.same _ _
    have looks : containerGetTestByName p name w =
        arrayFind w (fun test => test.name = some name) (above.children .testcase).data := by
      simp only [containerGetTestByName, read, bind, Except.bind, if_pos has]
    rcases arrayFind_cases (fun test => test.name = some name)
        (steady.settled.children_live found .testcase) with ⟨x, _, looked, _⟩ | ⟨looked, _⟩
    · have same : createTest objectPath name w =
          .ok (w, .error .nameExists "test case with this name already exists" []) := by
        simp only [createTest, unwrapped, read, bind, Except.bind, has, valid, looks, looked,
          Bool.true_eq_false, if_false]
      exact same ▸ Serves.same _ _
    · rcases createTest_cases steady unwrapped found has valid (looks.trans looked) with
        ⟨path, _, same, served⟩ | ⟨same, blocked⟩
      · exact same ▸ Serves.done served
      · exact same ▸ Serves.blocked blocked

theorem wrap_modify (w : World) (c o : Addr) (path : CString) :
    (w.wrap c path).modify c (fun self => { self with owner := some o }) =
      (w.modify c fun self => { self with owner := some o }).wrap c path := by
  simp only [World.wrap, World.modify, Store.modify_modify]
  rfl

theorem createCommand_ok (steady : Steady w) (objectPath : CString) :
    Serves w (.createCommand objectPath) (createCommand objectPath w) := by
  unfold createCommand
  cases unwrapped : containerUnwrap w.objects objectPath with
  | none => exact Serves.same _ _
  | some p =>
    obtain ⟨⟨above, found⟩, place⟩ := unwrap_place steady.settled unwrapped
    simp only [World.deref_ok.mpr found, bind, Except.bind]
    split
    · exact Serves.same _ _
    rename_i has
    rw [Bool.not_eq_false] at has
    have apart : p ≠ w.next := Nat.ne_of_lt (steady.settled.wf.bound (kind_graph found))
    have made : containerInit p { kind := .command } w = _ := containerInit_eq found apart has
    have target : (Request.createCommand objectPath).target w = some (p, .command, objectPath) := by
      simp [Request.target, unwrapped]
    let bare := ({ kind := .command } : Container).placed p above
    let new : Container := { bare with owner := some p }
    have fresh : Fresh (w.take new.command) p above new := {
      found := found
      has := has
      home := nofun
      links := ⟨rfl, rfl⟩
      parent := rfl
      one := rfl
      id := rfl
      role := rfl
      nameless := rfl
      children := rfl
      full := full_empty
      ready := rfl }
    have there : (w.insert p above bare).heap.cells w.next = some bare := insert_self apart
    have accepted : Accepted w (.createCommand objectPath) := ⟨p, above, unwrapped, found, has⟩
    rcases create_cases steady accepted target place fresh there rfl rfl rfl with
      ⟨path, _, wrapped, serves⟩ | ⟨failed, blocked⟩
    · -- The command gets its owner last.
      have at_ : ((w.insert p above bare).wrap w.next path).heap.cells w.next =
          some { bare with dbusObjectPath := some path } := by
        rw [World.wrap, World.cells_modify_heap, Store.modify_self]
        exact congrArg (Option.map _) there
      have owned : containerSetOwner w.next p ((w.insert p above bare).wrap w.next path) =
          .ok ((w.insert p above new).wrap w.next path) := by
        refine bind_ok.mpr ⟨_, World.deref_ok.mpr at_, ?_⟩
        rw [if_neg (by simp [bare, Container.placed]), wrap_modify, insert_modify apart (by rfl)]
      simp only [made, bare, wrapped]
      change Serves w _ ((containerSetOwner w.next p ((w.insert p above bare).wrap w.next path)) >>= _)
      rw [owned]
      exact Serves.done (serves (World.Alike.refl _) (World.Alike.refl _))
    · simp only [made, bare, failed]
      exact Serves.blocked blocked

section Processes

variable {command host : Addr}

theorem processNew_ok (steady : Steady w) (foundC : w.heap.cells command = some commandSelf)
    (kindC : commandSelf.kind = .command) (foundH : w.heap.cells host = some hostSelf) (kindH : hostSelf.kind = .host) :
    ∃ new, processNew host command w =
        .ok (w.next, (w.take (some command)).insert host hostSelf new) ∧ new.kind = .process ∧
      new.command = some command ∧ new.env = {} ∧ Fresh (w.take new.command) host hostSelf new := by
  have apart : host ≠ w.next := Nat.ne_of_lt (steady.settled.wf.bound (kind_graph foundH))
  have other : ∀ x, some command = some x → x ≠ host := by
    rintro x ⟨⟩ rfl
    obtain rfl := Option.some.inj (foundC.symm.trans foundH)
    simp [kindC] at kindH
  have there : (w.take (some command)).heap.cells host = some hostSelf := (take_cell other).trans foundH
  have has : hostSelf.kind.has .process = true := by rw [kindH]; rfl
  let bare := ({ kind := .process, command := some command } : Container).placed host hostSelf
  let new : Container := { bare with owner := some command }
  have made : containerInit host { kind := .process, command := some command }
      (w.take (some command)) = .ok (w.next, (w.take (some command)).insert host hostSelf bare) :=
    containerInit_eq there apart has
  have at_ : ((w.take (some command)).insert host hostSelf bare).heap.cells w.next = some bare :=
    insert_self (w := w.take (some command)) apart
  have owned : containerSetOwner w.next command ((w.take (some command)).insert host hostSelf bare) =
      .ok ((w.take (some command)).insert host hostSelf new) := by
    refine bind_ok.mpr ⟨bare, World.deref_ok.mpr at_, ?_⟩
    rw [if_neg (by simp [bare, Container.placed])]
    exact congrArg Except.ok (insert_modify (w := w.take (some command)) apart (by rfl))
  refine ⟨new, ?_, rfl, rfl, rfl, ?_⟩
  · exact bind_ok.mpr ⟨_, (steady.settled.get foundC).1, bind_ok.mpr ⟨_, made, bind_ok.mpr ⟨_, owned, rfl⟩⟩⟩
  · exact {
      found := there
      has := has
      home := by rintro ⟨⟩
      links := by
        refine ⟨command, ?_, rfl, rfl⟩
        rw [graph_take, kind_graph foundC, kindC]
      parent := rfl
      one := rfl
      id := rfl
      role := rfl
      nameless := rfl
      children := rfl
      full := full_empty
      ready := rfl }

theorem insert_keeps (settled : Settled w) (fresh : Fresh (w.take new.command) p above new) : w.Keeps ((w.take new.command).insert p above new) := by
  obtain ⟨top, foundP, sameP⟩ := take_back fresh.found
  have apart : p ≠ (w.take new.command).next := by
    rw [next_take]
    exact Nat.ne_of_lt (settled.wf.bound (kind_graph foundP))
  intro c old found
  have live : c ≠ (w.take new.command).next := by
    rw [next_take]
    exact Nat.ne_of_lt (settled.wf.bound (kind_graph found))
  by_cases under : c = p
  · subst under
    obtain rfl := Option.some.inj (found.symm.trans foundP)
    refine ⟨_, insert_parent fresh.found apart, ?_, fun name => ?_⟩
    · change above.parent = _
      rw [sameP]
    · change getenv above.env name = _
      rw [sameP]
  · rw [insert_other live under]
    cases new.command with
    | none => exact ⟨old, found, rfl, fun _ => rfl⟩
    | some x =>
      rw [World.take, World.cells_modify_heap, Store.cells_modify]
      split
      · rw [found]
        exact ⟨_, rfl, rfl, fun _ => rfl⟩
      · exact ⟨old, found, rfl, fun _ => rfl⟩

theorem run_ok (steady : Steady w) (objectPath commandPath : CString) :
    Serves w (.run objectPath commandPath) (run objectPath commandPath w) := by
  unfold run
  cases unwrapped : containerUnwrap w.objects objectPath with
  | none => exact Serves.same _ _
  | some host =>
    obtain ⟨⟨hostSelf, foundH⟩, place⟩ := unwrap_place steady.settled unwrapped
    simp only [World.deref_ok.mpr foundH, bind, Except.bind]
    split
    · exact Serves.same _ _
    rename_i kindH
    rw [ne_eq, not_not] at kindH
    split
    · exact Serves.same _ _
    rename_i ready
    rw [Bool.not_eq_false] at ready
    cases looked : objectLookup w.objects commandPath with
    | none => exact Serves.same _ _
    | some object =>
      cases handle : object.handle with
      | none => simpa only [handle] using Serves.same _ _
      | some command =>
        obtain ⟨commandSelf, foundC, _⟩ := lookup_handle steady.settled looked handle
        simp only [handle, World.deref_ok.mpr foundC]
        split
        · exact Serves.same _ _
        rename_i kindC
        rw [ne_eq, not_not] at kindC
        obtain ⟨new, made, kind, runs, _, fresh⟩ := processNew_ok steady foundC kindC foundH kindH
        have target : (Request.run objectPath commandPath).target w = some (host, new.kind, objectPath) := by
          simp [Request.target, unwrapped, kind]
        have inserts := steady.insert fresh
        have apart : host ≠ (w.take new.command).next := by
          rw [next_take]
          exact Nat.ne_of_lt (steady.settled.wf.bound (kind_graph foundH))
        have there : ((w.take new.command).insert host hostSelf new).heap.cells
            (w.take new.command).next = some new := insert_self apart
        rw [next_take] at there
        have keeps := insert_keeps steady.settled fresh
        obtain ⟨commandSelf₁, foundC₁, _⟩ := keeps command commandSelf foundC
        obtain ⟨hostSelf₁, foundH₁, _⟩ := keeps host hostSelf foundH
        obtain ⟨_, _, w₂, _, _, applied, alike, process, found₂, _⟩ :=
          processApplyContext_ok inserts there foundC₁ foundH₁
        obtain ⟨process', found₂', same⟩ := alike.forth there
        have objects : w₂.objects = w.objects := alike.objects.trans (objects_take w new.command)
        have accepted : Accepted w (.run objectPath commandPath) :=
          ⟨host, hostSelf, command, commandSelf, unwrapped, foundH, kindH, ready,
            by rw [looked]; exact handle, foundC, kindC⟩
        rcases create_cases steady accepted target place fresh found₂' same.kind same.id objects with
          ⟨path, _, wrapped, serves⟩ | ⟨failed, blocked⟩
        · rw [← runs] at made
          simp only [made, applied, wrapped]
          exact Serves.done (serves alike (World.Alike.refl _))
        · rw [← runs] at made
          simp only [made, applied, failed]
          exact Serves.blocked blocked

end Processes

section Claims

variable {host context : Addr}

theorem getHostByRole_cases (settled : Settled w) (found : w.heap.cells context = some self)
    (has : self.kind.has .host = true) (role : CString) :
    (∃ h, containerGetHostByRole context role w = .ok (some h)) ∨
      containerGetHostByRole context role w = .ok none ∧ ∀ h ∈ (self.children .host).data,
        ∀ other, w.heap.cells h = some other → other.role ≠ some role := by
  obtain ⟨chain, walked, cells⟩ := settled.chain_ok found
  have first : ∃ rest, chain = (context, self) :: rest := by
    obtain ⟨other, read, rest⟩ := bind_ok.mp walked
    obtain rfl := Option.some.inj (found.symm.trans (World.deref_ok.mp read))
    cases parent : self.parent with
    | none =>
      simp only [parent] at rest
      exact ⟨[], (Except.ok.inj rest).symm⟩
    | some p =>
      simp only [parent] at rest
      obtain ⟨above, _, same⟩ := bind_ok.mp rest
      exact ⟨above, (Except.ok.inj same).symm⟩
  obtain ⟨rest, rfl⟩ := first
  have looks : containerGetHostByRole context role w =
      findHostAbove w (fun host => host.role = some role) ((context, self) :: rest) := by
    simp only [containerGetHostByRole, walked, bind, Except.bind]
  rw [looks, findHostAbove_cons, if_pos has]
  rcases arrayFind_cases (fun host => host.role = some role) (settled.children_live found .host) with
    ⟨h, _, looked, _⟩ | ⟨looked, none_⟩
  · rw [looked]
    exact Or.inl ⟨h, rfl⟩
  · have higher : ∀ above ∈ rest, w.heap.cells above.1 = some above.2 :=
      fun above member => cells above (List.mem_cons_of_mem _ member)
    obtain ⟨later, ran⟩ := findHostAbove_ok settled (fun host => host.role = some role) higher
    rw [looked]
    cases later with
    | some h => exact Or.inl ⟨h, ran⟩
    | none =>
      refine Or.inr ⟨ran, fun h member other there => ?_⟩
      simpa using none_ h member other there

/-- A host is in the array of the container that claimed it. -/
theorem Settled.claimed_listed (settled : Settled w) (found : w.heap.cells host = some hostSelf)
    (kind : hostSelf.kind = .host) (owner : hostSelf.owner = some context) : host ∈ (w.graph ∅).slot context .host := by
  obtain ⟨k, kind', owns⟩ := settled.wf.owned (c := host) (o := context) (by rw [owner_graph found, owner])
  rw [kind_graph found, kind] at kind'
  obtain rfl := Option.some.inj kind'
  rcases owns with rfl | member
  · -- What is claimed by the global context is nowhere else.
    have other : host ≠ globalContext := settled.wf.not_root ((kind_graph found).trans (congrArg some kind)) (by decide)
    rcases settled.referred found other with ⟨p, member⟩ | ⟨p, command⟩
    · rw [kind] at member
      by_cases top : p = globalContext
      · exact top ▸ member
      · rcases settled.wf.claimed member top with same | begun
        · rw [owner_graph found, owner] at same
          exact absurd (Option.some.inj same).symm top
        · exact absurd begun (Finset.notMem_empty p)
    · have command := (settled.wf.running command).2.1
      rw [kind_graph found, kind] at command
      cases command
  · exact member

theorem addHost_ok (steady : Steady w) (objectPath name hostPath : CString) :
    Serves w (.addHost objectPath name hostPath) (addHost objectPath name hostPath w) := by
  unfold addHost
  cases unwrapped : containerUnwrap w.objects objectPath with
  | none => exact Serves.same _ _
  | some context =>
    obtain ⟨⟨self, found⟩, _⟩ := unwrap_place steady.settled unwrapped
    simp only [World.deref_ok.mpr found, bind, Except.bind]
    split
    · exact Serves.same _ _
    rename_i has
    rw [Bool.not_eq_false] at has
    split
    · exact Serves.same _ _
    rename_i valid
    rw [Bool.not_eq_false] at valid
    rcases getHostByRole_cases steady.settled found has name with ⟨h, looked⟩ | ⟨unused, none_⟩
    · simp only [looked]
      exact Serves.same _ _
    simp only [unused]
    cases looked : objectLookup w.objects hostPath with
    | none => exact Serves.same _ _
    | some object =>
      cases handle : object.handle with
      | none => simpa only [handle] using Serves.same _ _
      | some host =>
        obtain ⟨hostSelf, foundH, known⟩ := lookup_handle steady.settled looked handle
        have read := World.deref_ok.mpr foundH
        simp only [handle, read]
        split
        · exact Serves.same _ _
        rename_i kind
        rw [ne_eq, not_not] at kind
        by_cases roleless : hostSelf.role = none
        · have other : host ≠ globalContext :=
            steady.settled.wf.not_root ((kind_graph foundH).trans (congrArg some kind)) (by decide)
          have free := steady.roles foundH kind (known other) roleless
          have apart : context ≠ host := by
            rintro rfl
            obtain rfl := Option.some.inj (found.symm.trans foundH)
            simp [kind, Kind.has] at has
          obtain ⟨⟨w₁, set, appended⟩, settled⟩ := claim_ok steady.settled name foundH kind roleless free found has
          have claims : Claims w objectPath name hostPath host context hostSelf :=
            ⟨unwrapped, valid, unused, by rw [looked]; exact handle, foundH, kind, roleless⟩
          simp only [set, appended]
          exact Serves.done (.claimed claims found apart settled)
        · -- The role of a host that the container has would have been found.
          have refused : hostSetRole host (some name) (some context) w = .ok (false, w) := by
            refine bind_ok.mpr ⟨hostSelf, read, ?_⟩
            dsimp only
            rw [if_pos roleless]
            have taken : ¬ (hostSelf.role = some name ∧ hostSelf.owner = some context) := by
              rintro ⟨role, owner⟩
              have listed := steady.settled.claimed_listed foundH kind owner
              rw [slot_graph found] at listed
              exact none_ host listed hostSelf foundH role
            rw [decide_eq_false taken]
          simp only [refused]
          exact Serves.same _ _

end Claims

/-- A container is destroyed unless it has no parent. -/
theorem delete_cases (steady : Steady w) (unwrapped : containerUnwrap w.objects objectPath = some c)
    (found : w.heap.cells c = some self) :
    (c = globalContext ∨ self.parent = none) ∧ delete objectPath w =
        .ok (w, .error .permissionDenied "cannot delete global context" []) ∨
      c ≠ globalContext ∧ self.parent ≠ none ∧ ∃ w', delete objectPath w = .ok (w', .done) ∧ Deleted w w' c := by
  unfold delete
  simp only [unwrapped, World.deref_ok.mpr found, bind, Except.bind]
  split
  · rename_i refused
    exact Or.inl ⟨refused, rfl⟩
  · rename_i allowed
    obtain ⟨apart, parented⟩ := not_or.mp allowed
    obtain ⟨w₁, w₂, w', got, destroyed, putted, deleted⟩ := delete_ok steady.settled found apart
    simp only [got, destroyed, putted]
    exact Or.inr ⟨apart, parented, w', rfl, deleted⟩

theorem delete_serves (steady : Steady w) (objectPath : CString) :
    Serves w (.delete objectPath) (delete objectPath w) := by
  cases unwrapped : containerUnwrap w.objects objectPath with
  | none =>
    have same : delete objectPath w = .ok (w, unknownObject objectPath) := by
      simp only [delete, unwrapped]
    exact same ▸ Serves.same _ _
  | some c =>
    obtain ⟨⟨self, found⟩, _⟩ := unwrap_place steady.settled unwrapped
    rcases delete_cases steady unwrapped found with ⟨_, same⟩ | ⟨apart, parented, w', ran, deleted⟩
    · exact same ▸ Serves.same _ _
    · exact ran ▸ Serves.done (.deleted unwrapped found apart parented deleted)

theorem update_ok (steady : Steady w) (request : Request) (objectPath : CString)
    (kinds : Kind → Bool) (data : ∀ c, w.Alike (w.modify c change)) :
    Serves w request (update objectPath kinds change w) := by
  unfold update
  cases unwrapped : containerUnwrap w.objects objectPath with
  | none => exact Serves.same _ _
  | some c =>
    obtain ⟨⟨self, found⟩, _⟩ := unwrap_place steady.settled unwrapped
    simp only [World.deref_ok.mpr found, bind, Except.bind]
    split
    · exact Serves.same _ _
    · exact Serves.done (.alike (data c))

theorem setenv_ok (steady : Steady w) (objectPath name value : CString) :
    Serves w (.setenv objectPath name value) (setenv objectPath name value w) := by
  unfold setenv
  split
  · exact Serves.same _ _
  split
  · exact Serves.same _ _
  · exact update_ok steady _ objectPath _ fun c =>
      World.Alike.modify (fun _ => rfl) fun _ _ full => full_setenv full name value

theorem shutdown_ok (steady : Steady w) (objectPath : CString) :
    Serves w (.shutdown objectPath) (shutdown objectPath w) := by
  unfold shutdown
  cases unwrapped : containerUnwrap w.objects objectPath with
  | none => exact Serves.same _ _
  | some host =>
    obtain ⟨⟨self, found⟩, _⟩ := unwrap_place steady.settled unwrapped
    simp only [World.deref_ok.mpr found, bind, Except.bind]
    split
    · exact Serves.same _ _
    · exact Serves.done (.alike (disconnected_alike w host))

/-- The host of an agent is looked for in the list of all hosts. -/
theorem findAgentHost_cases (settled : Settled w) (foundRoot : w.heap.cells globalContext = some root) (dbusName : CString) :
    (∃ h host, containerFindAgentHost globalContext dbusName w = .ok (some h) ∧
        h ∈ (root.children .host).data ∧ w.heap.cells h = some host ∧ host.agentBusName = some dbusName) ∨
      containerFindAgentHost globalContext dbusName w = .ok none ∧
        ∀ h ∈ (root.children .host).data, ∀ host, w.heap.cells h = some host → host.agentBusName ≠ some dbusName := by
  have kind : root.kind = .globalContext := by
    have kind := settled.wf.rootKind
    rw [kind_graph foundRoot] at kind
    exact Option.some.inj kind
  have has : root.kind.has .host = true := by rw [kind]; rfl
  have looks : containerFindAgentHost globalContext dbusName w =
      arrayFind w (fun host => host.agentBusName = some dbusName) (root.children .host).data := by
    simp only [containerFindAgentHost, World.deref_ok.mpr foundRoot, bind, Except.bind, if_pos has]
  rw [looks]
  rcases arrayFind_cases (fun host => host.agentBusName = some dbusName)
      (settled.children_live foundRoot .host) with ⟨h, host, looked, member, there, yes⟩ | ⟨looked, none_⟩
  · exact Or.inl ⟨h, host, looked, member, there, by simpa using yes⟩
  · exact Or.inr ⟨looked, fun h member host there => by simpa using none_ h member host there⟩

theorem ready_ok (steady : Steady w) (sender : CString) : ∃ w', agentReady sender w = .ok w' ∧ w.Alike w' := by
  obtain ⟨root, foundRoot, _⟩ := steady.settled.root
  rcases findAgentHost_cases steady.settled foundRoot
      (lookupWellknownBusName w.nameMappings sender) with ⟨h, _, looked, _⟩ | ⟨looked, _⟩
  · exact ⟨_, bind_ok.mpr ⟨some h, looked, rfl⟩, agentReady_alike w h⟩
  · exact ⟨w, bind_ok.mpr ⟨none, looked, rfl⟩, World.Alike.refl w⟩

theorem bus_alike (w : World) (owned : List CString) (mappings : List (CString × CString)) :
    w.Alike { w with owned := owned, nameMappings := mappings } where
  cells _ := rfl
  envs found found' := by
    obtain rfl := Option.some.inj (found.symm.trans found')
    exact id
  next := rfl
  objects := rfl
  made := rfl

theorem nameOwnerChanged_ok (steady : Steady w) (name newOwner : CString) (owned : List CString) :
    ∃ w', nameOwnerChanged name newOwner { w with owned := owned } = .ok w' ∧ w.Alike w' := by
  let mappings := if testbusNamespace.isPrefixOf name then
    recordWellknownBusName name newOwner w.nameMappings else w.nameMappings
  let w₁ : World := { w with owned := owned, nameMappings := mappings }
  have bus : w.Alike w₁ := bus_alike w owned mappings
  have start : (if testbusNamespace.isPrefixOf name then
      { w with
        owned := owned
        nameMappings := recordWellknownBusName name newOwner w.nameMappings }
      else { w with owned := owned } : World) = w₁ := by
    simp only [w₁, mappings]
    split <;> rfl
  simp only [nameOwnerChanged, start]
  split
  · have steady₁ := steady.alike bus
    obtain ⟨root, foundRoot, _⟩ := steady₁.settled.root
    rcases findAgentHost_cases steady₁.settled foundRoot name with ⟨h, _, looked, _⟩ | ⟨looked, _⟩
    · exact ⟨_, bind_ok.mpr ⟨some h, looked, rfl⟩, bus.trans (disconnected_alike w₁ h)⟩
    · exact ⟨w₁, bind_ok.mpr ⟨none, looked, rfl⟩, bus⟩
  · exact ⟨w₁, rfl, bus⟩

theorem fromOwned_ok (serves : sender ∈ w.owned → Serves w request (handle w)) : Serves w request (fromOwned sender w handle) := by
  unfold fromOwned
  split
  · rename_i owned
    exact serves owned
  · exact Serves.disabled

/-- Every request has one of the effects, or its container gets no path. -/
theorem serve_ok (steady : Steady w) (request : Request) : Serves w request (serve w request) := by
  cases request with
  | createHost name sender uuid => 
    exact fromOwned_ok fun owned => createHost_ok steady name owned uuid
  | removeHost name => exact removeHost_serves steady name
  | reconnect name uuid generated sender =>
    exact fromOwned_ok fun owned => reconnect_ok steady name uuid generated owned
  | createTest objectPath name => exact createTest_ok steady objectPath name
  | createCommand objectPath => exact createCommand_ok steady objectPath
  | addHost objectPath name hostPath => exact addHost_ok steady objectPath name hostPath
  | run objectPath commandPath => exact run_ok steady objectPath commandPath
  | delete objectPath => exact delete_serves steady objectPath
  | setenv objectPath name value => exact setenv_ok steady objectPath name value
  | addCapability objectPath capability =>
    simp only [serve, addCapability]
    exact update_ok steady _ objectPath _ fun c =>
      World.Alike.modify (by intro; rfl) fun _ _ full => full
  | setExitInfo objectPath info =>
    simp only [serve, setExitInfo]
    exact update_ok steady _ objectPath _ fun c =>
      World.Alike.modify (by intro; rfl) fun _ _ full => full
  | shutdown objectPath => exact shutdown_ok steady objectPath
  | ready sender =>
    simp only [serve]
    refine fromOwned_ok fun _ => ?_
    obtain ⟨w', ran, alike⟩ := ready_ok steady sender
    simp only [ran, bind, Except.bind]
    exact Serves.done (.alike alike)
  | nameOwnerChanged name newOwner =>
    obtain ⟨w', ran, alike⟩ := nameOwnerChanged_ok steady name newOwner
      (if newOwner = [] then w.owned.filter fun other => other ≠ name
        else if name ∈ w.owned then w.owned else w.owned ++ [name])
    simp only [serve, ran, bind, Except.bind]
    exact Serves.done (.alike alike)

theorem step_served (steady : Steady w) (moved : step w request = .ok w') : Served w request w' := by
  have serves := serve_ok steady request
  unfold step at moved
  cases outcome : serve w request with
  | error fault =>
    rw [outcome] at moved
    cases moved
  | ok result =>
    obtain ⟨next, answer⟩ := result
    rw [outcome] at moved serves
    cases moved
    cases serves with
    | done served => exact served

theorem initial_cell (found : World.initial.heap.cells c = some self) :
    c = globalContext ∧ self = {
      kind := .globalContext
      name := some (ascii ['g', 'l', 'o', 'b', 'a', 'l', 'c', 'o', 'n', 't', 'e', 'x', 't']) } := by
  by_cases root : c = globalContext
  · subst root
    exact ⟨rfl, (Option.some.inj ((Store.alloc_self _ _ _).symm.trans found)).symm⟩
  · rw [World.initial, Store.alloc_of_ne root] at found
    cases found

theorem initial_tree : Tree World.initial.objects := by
  have named : ∀ object ∈ World.initial.objects, ∃ names ∈ [[], [ascii ['H', 'o', 's', 't']],
      [ascii ['G', 'l', 'o', 'b', 'a', 'l', 'C', 'o', 'n', 't', 'e', 'x', 't']]],
      (∀ name ∈ names, Plain name) ∧ object.path = pathOf names := by decide
  constructor
  · decide
  · intro object member
    obtain ⟨names, _, plain, path⟩ := named object member
    exact ⟨names, plain, path⟩
  · intro object member names name plain path
    refine ⟨⟨rootPath, none⟩, by decide, ?_⟩
    obtain ⟨names', short, plain', path'⟩ := named object member
    obtain rfl := pathOf_inj plain plain' (path.symm.trans path')
    have single : (names ++ [name]).length ≤ 1 := by
      simp only [List.mem_cons, List.not_mem_nil, or_false] at short
      rcases short with short | short | short <;> simp [short]
    obtain rfl : names = [] := by
      rw [List.length_append, List.length_singleton] at single
      exact List.eq_nil_of_length_eq_zero (by omega)
    rfl
  · decide
  · decide

theorem initial_silent (x : Addr) : (∀ k, (World.initial.graph ∅).slot x k = []) ∧
    (World.initial.graph ∅).parent x = none ∧ (World.initial.graph ∅).owner x = none ∧
    (World.initial.graph ∅).command x = none ∧ (World.initial.graph ∅).role x = none := by
  cases found : World.initial.heap.cells x with
  | none => simp [World.graph, found]
  | some self =>
    obtain ⟨_, rfl⟩ := initial_cell found
    simp [World.graph, found]

theorem initial_kind : (World.initial.graph ∅).kind x = some k ↔ x = globalContext ∧ k = .globalContext := by
  constructor
  · intro kind
    obtain ⟨self, found, rfl⟩ := found_of_kind kind
    obtain ⟨root, rfl⟩ := initial_cell found
    exact ⟨root, rfl⟩
  · rintro ⟨rfl, rfl⟩
    have found : ∃ self, World.initial.heap.cells globalContext = some self ∧
        self.kind = .globalContext := ⟨_, Store.alloc_self Store.empty globalContext _, by rfl⟩
    obtain ⟨self, found, kind⟩ := found
    exact (kind_graph found).trans (congrArg some kind)

theorem initial_wf : (World.initial.graph ∅).Wf 1 ∅ 0 := by
  have unlisted : ∀ {x p k}, x ∉ (World.initial.graph ∅).slot p k := by
    intro x p k
    rw [(initial_silent p).1 k]
    exact List.not_mem_nil
  exact {
    root := fun {x} => by simp only [initial_kind, and_true]
    bound := by
      intro x k kind
      obtain ⟨rfl, _⟩ := initial_kind.mp kind
      exact Nat.zero_lt_one
    entry := fun member => absurd member unlisted
    below := fun member => absurd member unlisted
    nodup := by
      intro p k _
      rw [(initial_silent p).1]
      exact List.nodup_nil
    listed := by
      intro c p parent
      simp [(initial_silent c).2.1] at parent
    home := fun member => absurd member unlisted
    owned := by
      intro c p owner
      simp [(initial_silent c).2.2.1] at owner
    claimed := fun member => absurd member unlisted
    commands := fun member => absurd member unlisted
    running := by
      intro c p command
      simp [(initial_silent c).2.2.2.1] at command
    idle := fun {c} _ _ => (initial_silent c).2.1
    doomed := by
      intro c p command
      simp [(initial_silent c).2.2.2.1] at command
    role := fun {c} cast => absurd (initial_silent c).2.2.2.2 cast
    begun := fun member => absurd member (Finset.notMem_empty _)
    aside := fun member => absurd member (Multiset.notMem_zero _) }

theorem initial_counted : Counted (Container.outRefs ∅) Container.refcount World.initial.heap
    (globalContext ::ₘ (0 + 0)) := by
  have empty : Counted (Container.outRefs ∅) Container.refcount Store.empty 0 := by
    constructor
    · intro c self found
      cases found
    · intro c self found
      cases found
    · intro c _
      simp [Store.refs, Store.total, Store.tag, Store.empty]
  have silent : ∀ self : Container, (∀ k, (self.children k).data = []) → self.command = none →
      Container.outRefs ∅ globalContext self + 0 = 0 := by
    intro self childless idle
    simp [Container.outRefs, Container.allChildren, childless, idle]
  rw [add_zero, World.initial]
  apply Counted.alloc
  · rw [silent _ (by intro k; cases k <;> rfl) rfl]
    exact empty
  · rfl
  · rfl

theorem initial_registered : Registered World.initial where
  tree := initial_tree
  hostlist := by decide
  handle := by
    have root : ∀ object ∈ World.initial.objects, object.handle = none ∨
        object.handle = some globalContext ∧ object.path = globalContextPath := by decide
    intro object member c handle
    rcases root object member with none | ⟨some, path⟩
    · rw [none] at handle
      cases handle
    · rw [some] at handle
      exact Or.inl ⟨(Option.some.inj handle).symm, path⟩
  named := by
    intro c self path found has
    obtain ⟨_, rfl⟩ := initial_cell found
    cases has
  nested := by
    intro c self path p found has
    obtain ⟨_, rfl⟩ := initial_cell found
    cases has

theorem Settled.initial : Settled World.initial where
  counted := initial_counted
  wf := initial_wf
  registered := initial_registered
  beneath := fun {c} member => absurd member (Finset.notMem_empty c)

theorem Steady.initial : Steady World.initial where
  settled := Settled.initial
  roles := by
    intro c self found host
    obtain ⟨_, rfl⟩ := initial_cell found
    cases host
  envs := by
    intro c self found
    obtain ⟨_, rfl⟩ := initial_cell found
    exact full_empty

theorem steady_run (requests : List Request) (steady : Steady w)
    (ran : Machine.run step w requests = .ok w') : Steady w' :=
  Machine.invariant_run Steady (fun _ _ _ steady _ moved => (step_served steady moved).steady steady) steady
    (Machine.along_true w requests) ran

theorem Reachable.steady (reachable : Reachable w) : Steady w := by
  obtain ⟨requests, ran⟩ := reachable
  exact steady_run requests Steady.initial ran

end Testbus.Server
