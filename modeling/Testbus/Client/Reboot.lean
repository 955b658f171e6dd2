import Testbus.Server.Announcing

namespace Testbus.Client.Reboot

open Testbus.Dbus Lib

structure HostState where
  objectPath : CString
  hostGen : UInt32
  ready : Bool := false
  deriving DecidableEq

/-- The call that a client is in. -/
inductive Call
  | idle
  /-- `ni_testbus_client_host_shutdown` was called for the last host. -/
  | rebooting
  /-- In a round of `ni_testbus_client_host_wait_for_reboot`, before the host at `index`. -/
  | waiting (index nfailed nready : Nat)
  /-- The wait is over. -/
  | returned (rv : Bool)
  deriving DecidableEq

/-- The client may call something. -/
def Call.ended : Call → Bool
  | .idle | .returned _ => true
  | _ => false

/-- What happens at the master, in its order. -/
inductive Event
  /-- The reboot call for the host at `index` was handled. -/
  | rebooted (index : Nat)
  /-- The host of that object was announced ready by its agent. -/
  | announced (objectPath : CString)
  deriving DecidableEq

/-- The master and a client: the generations in the properties that the client has cached, the
hosts that it reboots, and those whose reboot call is still on the way. -/
structure State where
  master : Server.World
  cached : CString → Option UInt32 := fun _ => none
  hosts : List HostState := []
  pending : List Nat := []
  call : Call := .idle
  log : List Event := []

def State.initial : State where
  master := Server.World.initial

/-- The cache after the properties of an object and of those below it were fetched. -/
def State.refreshed (s : State) (objectPath : CString) : CString → Option UInt32 :=
  if s.master.objects.any fun object => object.path = objectPath then fun other =>
    if Server.relativePath objectPath other = none then s.cached other else s.master.generation other
  else s.cached

inductive Input
  /-- The master handles something that is not from this client. -/
  | master (request : Server.Request)
  /-- `ni_dbus_object_refresh_children`. -/
  | refresh (objectPath : CString)
  /-- `ni_testbus_client_host_shutdown`, for a reboot. -/
  | shutdown (objectPath : CString)
  /-- The master handles the first reboot call that is on the way. -/
  | reboot
  /-- The client has an answer to its reboot call, or gives up. -/
  | returns
  /-- `ni_testbus_client_host_wait_for_reboot` with the hosts that were rebooted. -/
  | wait
  /-- The next host of the round. An answer to `Properties.Get` arrives or not; the master
  handles the calls of the client in their order. -/
  | next (arrived : Bool)
  /-- The end of a round, where the time may be up. -/
  | round (timedout : Bool)
  deriving DecidableEq

/-- What the wait does with the host at `index`, whose generation it asks for. -/
def look (s : State) (index nfailed nready : Nat) (h : HostState) (generation : Option UInt32) : State :=
  if h.ready then { s with call := .waiting (index + 1) nfailed (nready + 1) }
  else
    match generation with
    | some currentGen =>
      if h.hostGen < currentGen then
        { s with hosts := s.hosts.set index { h with hostGen := currentGen, ready := true }
                 call := .waiting (index + 1) nfailed (nready + 1) }
      else { s with call := .waiting (index + 1) nfailed nready }
    | none => { s with call := .waiting (index + 1) (nfailed + 1) nready }

def step (s : State) : Input → Except Machine.Disabled State
  | .master request =>
    match Server.step s.master request with
    | .ok master =>
      .ok { s with master := master
                   log := s.log ++ ((Server.announced s.master request).map .announced).toList }
    | .error _ => .error .disabled
  | .refresh objectPath =>
    if s.call.ended then .ok { s with cached := s.refreshed objectPath } else .error .disabled
  | .shutdown objectPath =>
    if s.call.ended then
      -- Without the property in the cache the generation is taken to be 0.
      .ok { s with hosts := s.hosts ++ [{ objectPath, hostGen := (s.cached objectPath).getD 0 }]
                   pending := s.pending ++ [s.hosts.length], call := .rebooting }
    else .error .disabled
  | .reboot =>
    match s.pending with
    | [] => .error .disabled
    | index :: pending =>
      match s.hosts[index]? with
      | none => .error .disabled
      | some h =>
        match Server.step s.master (.shutdown h.objectPath) with
        | .ok master =>
          .ok { s with master, pending
                       log := if s.master.generation h.objectPath = none then s.log
                         else s.log ++ [.rebooted index] }
        | .error _ => .error .disabled
  | .returns => if s.call = .rebooting then .ok { s with call := .idle } else .error .disabled
  | .wait => if s.call.ended then .ok { s with call := .waiting 0 0 0 } else .error .disabled
  | .next arrived =>
    match s.call with
    | .waiting index nfailed nready =>
      match s.hosts[index]? with
      | some h =>
        if arrived = false then .ok (look s index nfailed nready h none)
        else if s.pending = [] then
          .ok (look s index nfailed nready h (s.master.generation h.objectPath))
        else .error .disabled
      | none => .error .disabled
    | _ => .error .disabled
  | .round timedout =>
    match s.call with
    | .waiting index nfailed nready =>
      if index < s.hosts.length then .error .disabled
      else if s.hosts.length ≤ nready then .ok { s with call := .returned true }
      else if s.hosts.length ≤ nfailed + nready ∨ timedout then
        .ok { s with call := .returned false }
      else .ok { s with call := .waiting 0 0 0 }
    | _ => .error .disabled

/-- The host at `index` was announced ready after the master had handled its reboot call. -/
def Awaited (log : List Event) (index : Nat) (h : HostState) : Prop :=
  [.rebooted index, .announced h.objectPath].Sublist log

/-- When the master handles a reboot call, it is for a host that was not announced more often
than the client knew of when it sent the call. -/
def Timely (s : State) : Input → Prop
  | .reboot => ∀ index ∈ s.pending.head?, ∀ h ∈ s.hosts[index]?,
      ∃ generation ∈ s.master.generation h.objectPath, generation ≤ h.hostGen
  | _ => True

instance (s : State) : DecidablePred (Timely s)
  | .reboot => inferInstanceAs (Decidable (∀ index ∈ s.pending.head?, ∀ h ∈ s.hosts[index]?,
      ∃ generation ∈ s.master.generation h.objectPath, generation ≤ h.hostGen))
  | .master _ | .refresh _ | .shutdown _ | .returns | .wait | .next _ | .round _ => .isTrue trivial

theorem Awaited.append (awaited : Awaited log index h) (more : List Event) : Awaited (log ++ more) index h :=
  awaited.trans (List.sublist_append_left log more)

/-- What is announced after the reboot call of its host. -/
theorem Awaited.announce (rebooted : .rebooted index ∈ log)
    (announced : .announced h.objectPath ∈ more) : Awaited (log ++ more) index h :=
  (List.singleton_sublist.mpr rebooted).append (List.singleton_sublist.mpr announced)

/-- A host that is not announced after its reboot has no higher generation than the client
knows. -/
structure Watched (s : State) (index : Nat) (h : HostState) : Prop where
  rebooted : .rebooted index ∈ s.log
  ready : h.ready = true → Awaited s.log index h
  unready : h.ready = false → Awaited s.log index h ∨
    ∀ generation, s.master.generation h.objectPath = some generation → generation ≤ h.hostGen

structure Inv (s : State) : Prop where
  steady : Server.Steady s.master
  watched : ∀ index h, s.hosts[index]? = some h → index ∈ s.pending ∧ h.ready = false ∨
    Watched s index h
  counted : ∀ index nfailed nready, s.call = .waiting index nfailed nready →
    nready ≤ (s.hosts.take index).countP HostState.ready
  returned : s.call = .returned true → ∀ h ∈ s.hosts, h.ready = true

theorem Inv.initial : Inv State.initial where
  steady := Server.Steady.initial
  watched _ _ found := by simp [State.initial] at found
  counted _ _ _ waiting := nomatch waiting
  returned ended := nomatch ended

/-- What the master does to a host that the client watches. -/
theorem Watched.master (watched : Watched s index h)
    (steady : Server.Steady s.master) (moved : Server.step s.master request = .ok s'.master)
    (log : s'.log = s.log ++ more)
    (heard : ((Server.announced s.master request).map Event.announced).toList ⊆ more) : Watched s' index h where
  rebooted := log ▸ List.mem_append_left _ watched.rebooted
  ready is := log ▸ (watched.ready is).append more
  unready not := by
    rw [log]
    rcases watched.unready not with awaited | bound
    · exact Or.inl (awaited.append more)
    · by_cases announced : Server.announced s.master request = some h.objectPath
      · exact Or.inl (Awaited.announce watched.rebooted (heard (by simp [announced])))
      · refine Or.inr fun generation shown => ?_
        rcases Server.generation_step steady moved shown with ⟨rfl, -⟩ | ⟨old, -⟩ | again
        · exact UInt32.zero_le
        · exact bound generation old
        · exact absurd again announced

theorem Watched.of_eq (watched : Watched s index h) (master : s'.master = s.master)
    (log : s'.log = s.log) : Watched s' index h where
  rebooted := log ▸ watched.rebooted
  ready is := log ▸ watched.ready is
  unready not := log ▸ master ▸ watched.unready not

theorem Inv.master {master : Server.World} (inv : Inv s)
    (moved : Server.step s.master request = .ok master) :
    Inv { s with master, log := s.log ++ ((Server.announced s.master request).map Event.announced).toList } where
  steady := (Server.step_served inv.steady moved).steady inv.steady
  watched i h found := (inv.watched i h found).imp_right fun watched =>
    watched.master inv.steady moved rfl (List.Subset.refl _)
  counted := inv.counted
  returned := inv.returned

theorem Inv.shutdown (inv : Inv s) (objectPath : CString) (hostGen : UInt32) :
    Inv { s with hosts := s.hosts ++ [{ objectPath, hostGen }]
                 pending := s.pending ++ [s.hosts.length], call := .rebooting } where
  steady := inv.steady
  watched i h found := by
    rcases Nat.lt_or_ge i s.hosts.length with old | new
    · rw [List.getElem?_append_left old] at found
      rcases inv.watched i h found with ⟨pending, not⟩ | watched
      · exact Or.inl ⟨List.mem_append_left _ pending, not⟩
      · exact Or.inr (watched.of_eq rfl rfl)
    · rw [List.getElem?_append_right new] at found
      have last : i - s.hosts.length = 0 := by
        by_contra more
        rw [List.getElem?_eq_none (by simp; omega)] at found
        cases found
      rw [last] at found
      cases found
      refine Or.inl ⟨List.mem_append_right _ ?_, rfl⟩
      simp only [List.mem_singleton]
      omega
  counted _ _ _ waiting := nomatch waiting
  returned ended := nomatch ended

theorem Inv.reboot {pending : List Nat} {master : Server.World} (inv : Inv s)
    (first : s.pending = index :: pending) (found : s.hosts[index]? = some h) (timely : Timely s .reboot)
    (moved : Server.step s.master (.shutdown h.objectPath) = .ok master) :
    Inv { s with master, pending, log := s.log ++ [.rebooted index] } where
  steady := (Server.step_served inv.steady moved).steady inv.steady
  watched i other there := by
    by_cases here : i = index
    · subst here
      obtain rfl := Option.some.inj (found.symm.trans there)
      obtain ⟨generation, shown, bound⟩ := timely i (by simp [first]) h found
      rcases inv.watched i h found with ⟨_, not⟩ | watched
      · have watched : Watched { s with log := s.log ++ [.rebooted i] } i h := {
          rebooted := by simp
          ready := fun is => by
            rw [not] at is
            cases is
          unready := fun _ => Or.inr fun other again => by
            obtain rfl := Option.some.inj (shown.symm.trans again)
            exact bound }
        exact Or.inr (watched.master inv.steady moved (List.append_nil _).symm (List.nil_subset _))
      · exact Or.inr (watched.master inv.steady moved rfl (List.nil_subset _))
    · rcases inv.watched i other there with ⟨member, not⟩ | watched
      · rw [first] at member
        exact Or.inl ⟨(List.mem_cons.mp member).resolve_left here, not⟩
      · exact Or.inr (watched.master inv.steady moved rfl (List.nil_subset _))
  counted := inv.counted
  returned := inv.returned

theorem countP_next {hosts : List HostState} (found : hosts[index]? = some h) :
    (hosts.take (index + 1)).countP HostState.ready =
      (hosts.take index).countP HostState.ready + if h.ready then 1 else 0 := by
  rw [List.take_add_one, found, List.countP_append, Option.toList_some, List.countP_singleton]

/-- A host that the client does not take for ready leaves the round as it is. -/
theorem Inv.skip (inv : Inv s) (waiting : s.call = .waiting index nfailed nready)
    (found : s.hosts[index]? = some h) (more : Nat) :
    Inv { s with call := .waiting (index + 1) (nfailed + more) nready } where
  steady := inv.steady
  watched i other there := (inv.watched i other there).imp_right fun watched => watched.of_eq rfl rfl
  counted _ _ _ now := by
    cases now
    have before := inv.counted index nfailed nready waiting
    have next := countP_next found
    change nready ≤ (s.hosts.take (index + 1)).countP HostState.ready
    omega
  returned ended := nomatch ended

theorem Inv.look {generation : Option UInt32} (inv : Inv s)
    (waiting : s.call = .waiting index nfailed nready) (found : s.hosts[index]? = some h)
    (asked : generation = none ∨ s.pending = [] ∧ generation = s.master.generation h.objectPath) :
    Inv (look s index nfailed nready h generation) := by
  have before := inv.counted index nfailed nready waiting
  have next := countP_next found
  unfold Reboot.look
  split
  · rename_i ready
    refine ⟨inv.steady, ?_, ?_, fun ended => nomatch ended⟩
    · exact fun i other there => (inv.watched i other there).imp_right fun watched =>
        watched.of_eq rfl rfl
    · intro _ _ _ now
      cases now
      rw [if_pos ready] at next
      change nready + 1 ≤ (s.hosts.take (index + 1)).countP HostState.ready
      omega
  · rename_i unready
    split
    · rename_i currentGen
      split
      · rename_i newer
        -- The host has a higher generation than the client knew, so it was announced.
        have awaited : Awaited s.log index h := by
          rcases asked with none_ | ⟨answered, shown⟩
          · cases none_
          rcases inv.watched index h found with ⟨pending, _⟩ | watched
          · simp [answered] at pending
          · refine (watched.unready (by simpa using unready)).resolve_right fun bound => ?_
            exact absurd newer (UInt32.not_lt.mpr (bound currentGen shown.symm))
        have inside : index < s.hosts.length := (List.getElem?_eq_some_iff.mp found).1
        refine ⟨inv.steady, fun i other there => ?_, ?_, fun ended => nomatch ended⟩
        · by_cases here : i = index
          · subst here
            rw [List.getElem?_set_self inside] at there
            obtain rfl := Option.some.inj there
            exact Or.inr ⟨awaited.subset (by simp), fun _ => awaited, nofun⟩
          · rw [List.getElem?_set_ne (Ne.symm here)] at there
            exact (inv.watched i other there).imp_right fun watched => watched.of_eq rfl rfl
        · intro _ _ _ now
          cases now
          have last := countP_next (List.getElem?_set_self (a := { h with
            hostGen := currentGen, ready := true }) inside)
          rw [List.take_set_of_le (Nat.le_refl index), if_pos rfl] at last
          change nready + 1 ≤ ((s.hosts.set index _).take (index + 1)).countP HostState.ready
          omega
      · exact inv.skip waiting found 0
    · exact inv.skip waiting found 1

/-- The wait is over with all hosts ready when it has counted as many as there are. -/
theorem Inv.round (inv : Inv s) (waiting : s.call = .waiting index nfailed nready)
    (enough : s.hosts.length ≤ nready) : Inv { s with call := .returned true } where
  steady := inv.steady
  watched i other there := (inv.watched i other there).imp_right fun watched => watched.of_eq rfl rfl
  counted _ _ _ now := nomatch now
  returned _ := by
    have before := inv.counted index nfailed nready waiting
    have some_ := (List.take_sublist index s.hosts).countP_le (p := HostState.ready)
    have all := List.countP_le_length (p := HostState.ready) (l := s.hosts)
    have whole : s.hosts.countP HostState.ready = s.hosts.length := by omega
    exact List.countP_eq_length.mp whole

theorem Inv.next (inv : Inv s)
    (fresh : ∀ index nfailed nready, call = .waiting index nfailed nready → nready = 0)
    (ended : call = .returned true → ∀ h ∈ s.hosts, h.ready = true) : Inv { s with cached, call } where
  steady := inv.steady
  watched i other there := (inv.watched i other there).imp_right fun watched => watched.of_eq rfl rfl
  counted index nfailed nready now := fresh index nfailed nready now ▸ Nat.zero_le _
  returned := ended

theorem Inv.step (inv : Inv s) (timely : Timely s input) (moved : step s input = .ok s') : Inv s' := by
  cases input with
  | master request =>
    simp only [Reboot.step] at moved
    split at moved
    · rename_i served
      cases moved
      exact inv.master served
    · cases moved
  | refresh objectPath =>
    simp only [Reboot.step] at moved
    split at moved
    · rename_i ended
      cases moved
      refine inv.next (fun _ _ _ waiting => ?_) inv.returned
      rw [waiting] at ended
      cases ended
    · cases moved
  | shutdown objectPath =>
    simp only [Reboot.step] at moved
    split at moved
    · cases moved
      exact inv.shutdown objectPath _
    · cases moved
  | reboot =>
    simp only [Reboot.step] at moved
    split at moved
    · cases moved
    rename_i index pending first
    split at moved
    · cases moved
    rename_i h found
    split at moved
    · rename_i served
      cases moved
      obtain ⟨generation, shown, _⟩ := timely index (by simp [first]) h found
      have known : ¬ s.master.generation h.objectPath = none := by
        rw [Option.mem_def.mp shown]
        exact nofun
      rw [if_neg known]
      exact inv.reboot first found timely served
    · cases moved
  | returns =>
    simp only [Reboot.step] at moved
    split at moved
    · cases moved
      exact inv.next nofun nofun
    · cases moved
  | wait =>
    simp only [Reboot.step] at moved
    split at moved
    · cases moved
      refine inv.next (fun _ _ _ waiting => ?_) nofun
      cases waiting
      rfl
    · cases moved
  | next arrived =>
    simp only [Reboot.step] at moved
    split at moved
    · rename_i waiting
      split at moved
      · rename_i h found
        split at moved
        · cases moved
          exact inv.look waiting found (Or.inl rfl)
        · split at moved
          · rename_i answered
            cases moved
            exact inv.look waiting found (Or.inr ⟨answered, rfl⟩)
          · cases moved
      · cases moved
    · cases moved
  | round timedout =>
    simp only [Reboot.step] at moved
    split at moved
    · rename_i waiting
      split at moved
      · cases moved
      split at moved
      · rename_i enough
        cases moved
        exact inv.round waiting enough
      split at moved
      · cases moved
        exact inv.next nofun nofun
      · cases moved
        refine inv.next (fun _ _ _ waiting => ?_) nofun
        cases waiting
        rfl
    · cases moved

/-- When the wait returns `TRUE` and no reboot call came to the master after an announcement that
the client did not know of, each of the hosts was announced ready after its reboot call. -/
theorem reboots_awaited {s : State} {inputs : List Input}
    (timely : Machine.Along step Timely .initial inputs)
    (ran : Machine.run step .initial inputs = .ok s) (returned : s.call = .returned true) :
    ∀ index h, s.hosts[index]? = some h → Awaited s.log index h := by
  have inv : Inv s := Machine.invariant_run Inv
    (fun _ _ _ inv timely moved => inv.step timely moved) Inv.initial timely ran
  intro index h found
  have ready := inv.returned returned h (List.mem_of_getElem? found)
  rcases inv.watched index h found with ⟨_, not⟩ | watched
  · rw [ready] at not
    cases not
  · exact watched.ready ready

/-- The only host, with an agent that announces it, and the agent after the reboot. -/
def agentUp : List Input :=
  [.master (.nameOwnerChanged (ascii ['a']) (ascii ['a'])),
    .master (.createHost (ascii ['h']) (ascii ['a']) 0),
    .master (.ready (ascii ['a']))]

def hostPath : CString := Server.childPath Server.hostlistPath (Server.Kind.host.objectName 0)

theorem reboots_awaited_again : ∃ s : State, s.call = .returned true ∧ s.hosts.length = 1 ∧
    ∀ index h, s.hosts[index]? = some h → Awaited s.log index h := by
  let inputs : List Input := agentUp ++
    [.refresh hostPath, .shutdown hostPath, .reboot, .returns, .wait, .next true, .round false,
      .master (.reconnect (ascii ['h']) 0 1 (ascii ['a'])), .master (.ready (ascii ['a'])),
      .next true, .round false]
  obtain ⟨s, ran, view⟩ := Machine.run_view step .initial inputs
    (fun s => (s.call, s.hosts.length)) (.returned true, 1) (by decide +kernel)
  obtain ⟨returned, one⟩ := Prod.mk.inj view
  have checked : Machine.checkAlong step (fun s input => decide (Timely s input)) .initial
      inputs = true := by decide +kernel
  have timely : Machine.Along step Timely .initial inputs :=
    Machine.along_check (fun _ _ here => of_decide_eq_true here) checked
  exact ⟨s, returned, one, reboots_awaited timely ran returned⟩

/-- The agent announces its host once more before the reboot call, which the client does not
know of; the wait takes that for the announcement that it waits for. -/
theorem reboot_not_awaited : ∃ s inputs, Machine.run step .initial inputs = .ok s ∧
    s.call = .returned true ∧ ∃ h, s.hosts[0]? = some h ∧ .rebooted 0 ∈ s.log ∧
      ¬ Awaited s.log 0 h := by
  let inputs : List Input := agentUp ++
    [.refresh hostPath, .master (.ready (ascii ['a'])), .shutdown hostPath, .reboot, .returns,
      .wait, .next true, .round false]
  obtain ⟨s, ran, view⟩ := Machine.run_view step .initial inputs (fun s => (s.call, s.hosts, s.log))
    (.returned true, [{ objectPath := hostPath, hostGen := 2, ready := true }],
      [.announced hostPath, .announced hostPath, .rebooted 0]) (by decide +kernel)
  obtain ⟨returned, rest⟩ := Prod.mk.inj view
  obtain ⟨hosts, log⟩ := Prod.mk.inj rest
  refine ⟨s, inputs, ran, returned, { objectPath := hostPath, hostGen := 2, ready := true }, ?_⟩
  rw [hosts, log]
  exact ⟨rfl, by simp, by unfold Awaited; decide⟩

end Testbus.Client.Reboot
