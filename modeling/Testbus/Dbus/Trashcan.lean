import Testbus.Dbus.Objects

namespace Testbus.Dbus.Objects

open Lib Testbus.Server

variable {s s' : State} {pending : List Object} {object parent child : Object} {a : Addr}
  {path : CString}

/-- What holds while the `pending` objects are still to be freed. -/
structure Sound (pending : List Object) (s : State) : Prop where
  rooted : s.tree ≠ .nil
  nodup : ((pending ++ s.objects).map Object.addr).Nodup
  fresh : ∀ object ∈ pending ++ s.objects, object.addr < s.next
  mapped : ∀ path a, s.registered path = some a → ∃ object ∈ pending ++ s.objects,
    object.addr = a ∧ object.path = path ∧ object.serverObject = true

namespace State

@[simp] theorem objects_modify (s : State) (a : Addr) (change : Object → Object) :
    (s.modify a change).objects = s.objects.map fun self => if self.addr = a then change self else self := by
  simp [objects, modify]

end State

theorem Sound.unique (sound : Sound pending s)
    (mem₁ : first ∈ pending ++ s.objects) (mem₂ : second ∈ pending ++ s.objects)
    (same : first.addr = second.addr) : first = second := List.inj_on_of_nodup_map sound.nodup mem₁ mem₂ same

theorem Sound.perm (sound : Sound pending s) (rooted : s'.tree ≠ .nil)
    (perm : (rest ++ s'.objects).Perm (pending ++ s.objects)) (table : s'.registered = s.registered)
    (next : s'.next = s.next) : Sound rest s' where
  rooted := rooted
  nodup := ((perm.map Object.addr).nodup_iff).mpr sound.nodup
  fresh object member := next ▸ sound.fresh object (perm.mem_iff.mp member)
  mapped path a registered := by
    obtain ⟨object, member, rest⟩ := sound.mapped path a (table ▸ registered)
    exact ⟨object, perm.mem_iff.mpr member, rest⟩

/-- The objects of `s'` are those of `s`, changed in place. -/
structure Rewritten (f : Object → Object) (s s' : State) : Prop where
  addr : ∀ self, (f self).addr = self.addr
  path : ∀ self, (f self).path = self.path
  tree : s'.tree = s.tree.map f
  trashcan : s'.trashcan = s.trashcan.map f
  next : s'.next = s.next

namespace Rewritten

theorem refl (s : State) : Rewritten id s s where
  addr _ := rfl
  path _ := rfl
  tree := by simp
  trashcan := by simp
  next := rfl

theorem trans (first : Rewritten f s s') (second : Rewritten g s' s'') : Rewritten (g ∘ f) s s'' where
  addr self := (second.addr _).trans (first.addr self)
  path self := (second.path _).trans (first.path self)
  tree := by rw [second.tree, first.tree, Forest.map_map]
  trashcan := by rw [second.trashcan, first.trashcan, Forest.map_map]
  next := second.next.trans first.next

theorem modify (s : State) (registered : CString → Option Addr) (a : Addr)
    (change : Object → Object) (addr : ∀ self, (change self).addr = self.addr)
    (path : ∀ self, (change self).path = self.path) :
    Rewritten (fun self => if self.addr = a then change self else self) s ({ s with registered }.modify a change) where
  addr self := by split <;> simp [addr]
  path self := by split <;> simp [path]
  tree := rfl
  trashcan := rfl
  next := rfl

theorem addrs (rewritten : Rewritten f s s') (objects : List Object) :
    (objects.map f).map Object.addr = objects.map Object.addr := by
  rw [List.map_map]
  exact List.map_congr_left fun self _ => rewritten.addr self

theorem objects (rewritten : Rewritten f s s') : s'.objects = s.objects.map f := by
  simp [State.objects, rewritten.tree, rewritten.trashcan]

theorem addresses (rewritten : Rewritten f s s') : s'.addresses = s.addresses := by
  rw [State.addresses, rewritten.objects, rewritten.addrs, State.addresses]

end Rewritten

/-- Changes in place are sound if registered objects keep their `server_object`. -/
theorem Sound.rewritten (sound : Sound pending s) (rewritten : Rewritten f s s')
    (kept : ∀ path a, s'.registered path = some a → s.registered path = some a ∧
      ∀ self, self.addr = a → (f self).serverObject = self.serverObject) :
    Sound pending s' where
  rooted := rewritten.tree ▸ Forest.map_ne_nil sound.rooted
  nodup := by
    simpa [rewritten.objects, rewritten.addrs s.objects] using sound.nodup
  fresh object member := by
    rw [rewritten.next]
    rcases List.mem_append.mp member with mem | mem
    · exact sound.fresh _ (List.mem_append_left _ mem)
    · rw [rewritten.objects] at mem
      obtain ⟨old, before, rfl⟩ := List.mem_map.mp mem
      rw [rewritten.addr]
      exact sound.fresh _ (List.mem_append_right _ before)
  mapped path a registered := by
    obtain ⟨before, same⟩ := kept path a registered
    obtain ⟨object, member, rfl, rfl, server⟩ := sound.mapped path a before
    rcases List.mem_append.mp member with mem | mem
    · exact ⟨object, List.mem_append_left _ mem, rfl, rfl, server⟩
    · refine ⟨f object, List.mem_append_right _ ?_, rewritten.addr object, rewritten.path object, ?_⟩
      · rw [rewritten.objects]
        exact List.mem_map_of_mem mem
      · rw [same object rfl, server]

theorem unregistered_le (registered : Function.update table path none other = some a) : table other = some a := by
  rw [Function.update_apply] at registered
  split at registered
  · cases registered
  · exact registered

theorem unregister_ok (sound : Sound pending s) (path : CString) :
    ∃ s' f, s.unregister pending path = .ok s' ∧ Sound pending s' ∧ Rewritten f s s' ∧
      s'.registered = Function.update s.registered path none := by
  unfold State.unregister
  split
  · rename_i free
    exact ⟨s, id, rfl, sound, .refl s, by rw [← free, Function.update_eq_self]⟩
  · rename_i a registered
    obtain ⟨object, member, rfl, -, -⟩ := sound.mapped path a registered
    have live : object.addr ∈ pending.map Object.addr ++ s.addresses := by
      rw [State.addresses, ← List.map_append]
      exact List.mem_map_of_mem member
    have rewritten := Rewritten.modify s (Function.update s.registered path none) object.addr
      (fun self => { self with handle := none }) (by intro; rfl) (by intro; rfl)
    rw [if_pos live]
    refine ⟨_, _, rfl, sound.rewritten rewritten ?_, rewritten, rfl⟩
    intro other a registered
    refine ⟨unregistered_le registered, fun self _ => ?_⟩
    split <;> rfl

/-- The `server_object` of an object that is destroyed leaves no path to the object. -/
theorem serverObjectDestroy_ok (sound : Sound pending s) (member : object ∈ pending ++ s.objects) :
    ∃ s' f, s.serverObjectDestroy pending object = .ok s' ∧ Sound pending s' ∧ Rewritten f s s' ∧
      ∀ path, s'.registered path ≠ some object.addr := by
  have only : ∀ path, s.registered path = some object.addr → path = object.path ∧ object.serverObject = true := by
    intro path registered
    obtain ⟨other, mem, same, rfl, server⟩ := sound.mapped path _ registered
    obtain rfl := sound.unique mem member same
    exact ⟨rfl, server⟩
  unfold State.serverObjectDestroy
  split
  · obtain ⟨s₁, f, done, sound₁, rewritten, table⟩ := unregister_ok sound object.path
    have gone : ∀ path, s₁.registered path ≠ some object.addr := by
      intro path registered
      rw [table] at registered
      obtain rfl := (only path (unregistered_le registered)).1
      rw [Function.update_self] at registered
      cases registered
    have emptied := Rewritten.modify s₁ s₁.registered object.addr
      (fun self => { self with serverObject := false }) (by intro; rfl) (by intro; rfl)
    refine ⟨_, _, by rw [done]; rfl, sound₁.rewritten emptied ?_, rewritten.trans emptied, gone⟩
    intro path a registered
    refine ⟨registered, fun self same => ?_⟩
    rw [if_neg]
    intro here
    exact gone path (here ▸ same ▸ registered)
  · rename_i without
    exact ⟨s, id, rfl, sound, .refl s, fun path registered => without (only path registered).2⟩

/-- Freeing the pending objects never reads one that is gone, and leaves the others. -/
theorem freeObjects_ok (sound : Sound pending s) :
    ∃ s' f, s.freeObjects pending = .ok s' ∧ Sound [] s' ∧ Rewritten f s s' := by
  induction pending generalizing s with
  | nil => exact ⟨s, id, rfl, sound, .refl s⟩
  | cons object rest ih =>
    obtain ⟨s₁, f, done, sound₁, rewritten, gone⟩ :=
      serverObjectDestroy_ok sound (List.mem_append_left _ List.mem_cons_self)
    have freed : Sound rest s₁ := by
      refine ⟨sound₁.rooted, (List.nodup_cons.mp sound₁.nodup).2, ?_, ?_⟩
      · intro other member
        exact sound₁.fresh other (List.mem_cons_of_mem _ member)
      · intro path a registered
        obtain ⟨other, member, here, rest⟩ := sound₁.mapped path a registered
        rcases List.mem_cons.mp member with rfl | member
        · exact absurd (here ▸ registered) (gone path)
        · exact ⟨other, member, here, rest⟩
    obtain ⟨s', g, freed', sound', rewritten'⟩ := ih freed
    refine ⟨s', g ∘ f, ?_, sound', rewritten.trans rewritten'⟩
    simp only [State.freeObjects, done]
    exact freed'

theorem garbageCollect_ok (sound : Sound [] s) : ∃ s', s.garbageCollect = .ok s' ∧
    Sound [] s' ∧ s'.addresses = s.tree.flatten.map Object.addr := by
  have perm : (s.trashcan.flatten ++ { s with trashcan := .nil }.objects).Perm s.objects := by
    simpa [State.objects, Forest.flatten] using List.perm_append_comm
  have emptied : Sound s.trashcan.flatten { s with trashcan := .nil } := sound.perm sound.rooted perm rfl rfl
  obtain ⟨s', f, freed, sound', rewritten⟩ := freeObjects_ok emptied
  refine ⟨s', freed, sound', rewritten.addresses.trans ?_⟩
  simp [State.addresses, State.objects, Forest.flatten]

/-- An object survives a collection if it is not below a deleted one. -/
theorem survives_iff (sound : Sound [] s) (live : a ∈ s.addresses) :
    (∃ s', s.garbageCollect = .ok s' ∧ a ∈ s'.addresses) ↔ a ∉ s.deleted := by
  obtain ⟨s', collected, -, left⟩ := garbageCollect_ok sound
  have apart : (s.tree.flatten.map Object.addr ++ s.deleted).Nodup := by
    simpa [State.objects, State.deleted] using sound.nodup
  have either : a ∈ s.tree.flatten.map Object.addr ∨ a ∈ s.deleted := by
    simpa [State.addresses, State.objects, State.deleted] using live
  constructor
  · intro ⟨s'', collected', inside⟩ gone
    obtain rfl := Except.ok.inj (collected'.symm.trans collected)
    exact (List.disjoint_of_nodup_append apart) (left ▸ inside) gone
  · intro kept
    exact ⟨s', collected, left ▸ either.resolve_right kept⟩

theorem Sound.unlinked (sound : Sound [] s) (unlinked : s.unlink a = some (object, children, s')) :
    Sound [] { s' with trashcan := .cons object children s'.trashcan } := by
  unfold State.unlink at unlinked
  split at unlinked
  · rename_i detached
    cases unlinked
    refine sound.perm (Forest.detachInner_ne_nil detached) (List.perm_iff_count.mpr fun x => ?_) rfl rfl
    have moved := (Forest.detachInner_perm detached).count_eq x
    simp only [State.objects, Forest.flatten, List.nil_append, List.count_append, List.count_cons] at moved ⊢
    omega
  · obtain ⟨⟨first, tree, trashcan⟩, detached, same⟩ := Option.map_eq_some_iff.mp unlinked
    cases same
    refine sound.perm sound.rooted (List.perm_iff_count.mpr fun x => ?_) rfl rfl
    have moved := (Forest.detachInner_perm detached).count_eq x
    simp only [State.objects, Forest.flatten, List.nil_append, List.count_append, List.count_cons] at moved ⊢
    omega

theorem unregisterObject_ok (sound : Sound [] s) (a : Addr) :
    s.unregisterObject a = .error .disabled ∨ ∃ s', s.unregisterObject a = .ok s' ∧ Sound [] s' := by
  unfold State.unregisterObject
  split
  · exact .inl rfl
  · rename_i self found
    right
    split
    · exact ⟨s, rfl, sound⟩
    · obtain ⟨s₁, f, done, sound₁, -⟩ := serverObjectDestroy_ok sound (List.mem_of_find?_eq_some found)
      simp only [done, bind, Except.bind]
      split
      · rename_i unlinked
        exact ⟨_, rfl, sound₁.unlinked unlinked⟩
      · exact ⟨s₁, rfl, sound₁⟩

theorem Sound.created (sound : Sound [] s) (rooted : s'.tree ≠ .nil)
    (perm : s'.objects.Perm (child :: s.objects)) (addr : child.addr = s.next) (next : s'.next = s.next + 1)
    (table : ∀ path a, s'.registered path = some a → s.registered path = some a ∨
      path = child.path ∧ a = child.addr ∧ child.serverObject = true) :
    Sound [] s' where
  rooted := rooted
  nodup := by
    rw [List.nil_append, (perm.map Object.addr).nodup_iff, List.map_cons, List.nodup_cons]
    refine ⟨fun again => ?_, sound.nodup⟩
    obtain ⟨object, member, same⟩ := List.mem_map.mp again
    have old : object.addr < s.next := sound.fresh object member
    exact absurd (same.trans addr) (Nat.ne_of_lt old)
  fresh object member := by
    rw [next]
    rcases List.mem_cons.mp (perm.mem_iff.mp member) with rfl | member
    · exact addr ▸ Nat.lt_succ_self _
    · exact Nat.lt_succ_of_lt (sound.fresh object member)
  mapped path a registered := by
    rcases table path a registered with before | ⟨rfl, rfl, server⟩
    · obtain ⟨object, member, rest⟩ := sound.mapped path a before
      exact ⟨object, perm.mem_iff.mpr (List.mem_cons_of_mem _ member), rest⟩
    · exact ⟨child, perm.mem_iff.mpr List.mem_cons_self, rfl, rfl, server⟩

@[simp] theorem tree_register (s : State) (path : CString) (a : Addr) : (s.register path a).tree = s.tree := by
  unfold State.register
  split <;> rfl

@[simp] theorem trashcan_register (s : State) (path : CString) (a : Addr) :
    (s.register path a).trashcan = s.trashcan := by
  unfold State.register
  split <;> rfl

@[simp] theorem next_register (s : State) (path : CString) (a : Addr) : (s.register path a).next = s.next := by
  unfold State.register
  split <;> rfl

theorem register_le {object : Addr} {new : CString} (registered : (s.register new object).registered path = some a) :
    s.registered path = some a ∨ path = new ∧ a = object := by
  unfold State.register at registered
  split at registered
  · simp only [Function.update_apply] at registered
    split at registered
    · rename_i here
      exact .inr ⟨here, (Option.some.inj registered).symm⟩
    · exact .inl registered
  · exact .inl registered

theorem newChild_ok (sound : Sound [] s) (inside : parent.addr ∈ s.tree.flatten.map Object.addr) :
    s.newChild parent class_ name handle = .error .fatal ∨
      ∃ s' child, s.newChild parent class_ name handle = .ok (s', child) ∧ Sound [] s' ∧ child ∈ s'.tree.flatten := by
  unfold State.newChild
  split
  · exact .inl rfl
  · right
    set child : Object := Object.mk s.next name (childPath parent.path name)
      (class_.getD anonymousClass) handle parent.serverObject
    have grows : (s.tree.insertUnder (fun self => self.addr = parent.addr) child).isSome := by
      rw [Forest.insertUnder_isSome, List.any_eq_true]
      obtain ⟨self, member, same⟩ := List.mem_map.mp inside
      exact ⟨self, member, decide_eq_true same⟩
    obtain ⟨tree, grown⟩ := Option.isSome_iff_exists.mp grows
    have perm := Forest.insertUnder_perm grown
    have rooted := Forest.insertUnder_ne_nil grown
    have placed : ∀ s' : State, s'.tree = tree → s'.trashcan = s.trashcan → s'.objects.Perm (child :: s.objects) := by
      intro s' same trash
      rw [State.objects, same, trash]
      exact perm.append_right _
    have member : child ∈ tree.flatten := perm.mem_iff.mpr List.mem_cons_self
    simp only [grown]
    refine ⟨_, _, rfl, ?_⟩
    split
    · rename_i server
      have created := placed (State.register { s with tree, next := s.next + 1 } child.path child.addr)
      refine ⟨sound.created (by rwa [tree_register])
        (created (tree_register ..) (trashcan_register ..)) rfl (next_register ..)
        fun path a registered => ?_, by rwa [tree_register]⟩
      exact (register_le registered).imp_right fun ⟨here, same⟩ => ⟨here, same, server⟩
    · refine ⟨sound.created rooted (placed _ rfl rfl) rfl rfl ?_, member⟩
      exact fun _ _ registered => .inl registered

theorem getChild_mem (looked : s.getChild parent name = some child) : child ∈ s.tree.flatten := by
  obtain ⟨⟨self, children⟩, found, rest⟩ := Option.bind_eq_some_iff.mp looked
  obtain ⟨⟨first, own⟩, below, same⟩ := Option.bind_eq_some_iff.mp rest
  cases same
  exact Forest.node?_subset found (Forest.sibling?_mem below)

theorem createFrom_ok (sound : Sound [] s) (inside : parent.addr ∈ s.tree.flatten.map Object.addr) :
    s.createFrom parent class_ handle names = .error .fatal ∨
      ∃ s' child, s.createFrom parent class_ handle names = .ok (s', child) ∧ Sound [] s' := by
  induction names generalizing s parent with
  | nil => exact .inr ⟨s, parent, rfl, sound⟩
  | cons name rest ih =>
    simp only [State.createFrom]
    split
    · rename_i child looked
      exact ih sound (List.mem_map_of_mem (getChild_mem looked))
    · have grows : ∀ class' handle', (do
            let made ← s.newChild parent class' name handle'
            made.1.createFrom made.2 class_ handle rest) = .error .fatal ∨
          ∃ s' child, (do
            let made ← s.newChild parent class' name handle'
            made.1.createFrom made.2 class_ handle rest) = .ok (s', child) ∧ Sound [] s' := by
        intro class' handle'
        rcases newChild_ok sound inside with failed | ⟨s', child, made, sound', member⟩
        · exact .inl (by rw [failed]; rfl)
        · rw [made]
          exact ih sound' (List.mem_map_of_mem member)
      split <;> exact grows _ _

theorem registerObject_ok (sound : Sound [] s) (path : CString) (class_ : Option Class) (handle : Option Addr) :
    s.registerObject path class_ handle = .error .fatal ∨
      ∃ s' made, s.registerObject path class_ handle = .ok (s', made) ∧ Sound [] s' := by
  unfold State.registerObject
  split
  · rename_i gone
    exact absurd gone sound.rooted
  · rename_i root children next here
    have inside : root.addr ∈ s.tree.flatten.map Object.addr := by simp [here, Forest.flatten]
    split
    · exact .inr ⟨s, none, rfl, sound⟩
    · split
      · split
        · exact .inr ⟨s, none, rfl, sound⟩
        · exact .inr ⟨s, _, rfl, sound⟩
      · rcases createFrom_ok sound inside with failed | ⟨s', child, made, sound'⟩
        · rw [failed]
          exact .inl rfl
        · rw [made]
          exact .inr ⟨s', some child, rfl, sound'⟩

/-- The registered object of a call has not been deleted with one above it. -/
def Undeleted (s : State) : Input → Prop
  | .message path _ => ∀ object, s.registered path = some object → object ∉ s.deleted
  | _ => True

/-- The object of a call is there after the collection at its start. -/
def Survives (s : State) : Input → Prop
  | .message path _ => ∀ object, s.registered path = some object →
      ∃ s', s.garbageCollect = .ok s' ∧ object ∈ s'.addresses
  | _ => True

theorem Sound.registered_live (sound : Sound [] s) (registered : s.registered path = some a) : a ∈ s.addresses := by
  obtain ⟨object, member, rfl, -, -⟩ := sound.mapped path a registered
  exact List.mem_map_of_mem member

theorem Sound.survives (sound : Sound [] s) (input : Input) : Survives s input ↔ Undeleted s input := by
  cases input with
  | message path complete =>
    exact forall₂_congr fun object registered =>
      survives_iff sound (sound.registered_live registered)
  | _ => rfl

/-- A step that reads a freed object is a call of a deleted one. -/
theorem step_cases (sound : Sound [] s) (input : Input) :
    (∃ s', step s input = .ok s' ∧ Sound [] s') ∨ step s input = .error .fatal ∨
      step s input = .error .disabled ∨ (step s input = .error .freed ∧ ¬ Undeleted s input) := by
  cases input with
  | registerObject path class_ handle =>
    simp only [step]
    rcases registerObject_ok sound path class_ handle with failed | ⟨s', made, done, sound'⟩
    · rw [failed]
      exact .inr (.inl rfl)
    · rw [done]
      exact .inl ⟨s', rfl, sound'⟩
  | unregisterObject object =>
    rcases unregisterObject_ok sound object with failed | done
    · exact .inr (.inr (.inl failed))
    · exact .inl done
  | message path complete =>
    simp only [step]
    split
    · exact .inr (.inr (.inl rfl))
    · rename_i object registered
      obtain ⟨s', done, sound', -⟩ := garbageCollect_ok sound
      simp only [State.objectMessage, done, bind, Except.bind]
      split
      · rename_i gone
        refine .inr (.inr (.inr ⟨rfl, fun undeleted => ?_⟩))
        obtain ⟨other, collected, inside⟩ := (sound.survives (.message path complete)).mpr undeleted object registered
        cases done.symm.trans collected
        exact gone.2 inside
      · exact .inl ⟨s', rfl, sound'⟩
  | mainLoop =>
    obtain ⟨s', done, sound', -⟩ := garbageCollect_ok sound
    exact .inl ⟨s', done, sound'⟩

theorem Sound.step {input : Input} (sound : Sound [] s) (moved : step s input = .ok s') : Sound [] s' := by
  rcases step_cases sound input with ⟨next, done, sound'⟩ | failed | failed | ⟨failed, -⟩
  · cases done.symm.trans moved
    exact sound'
  all_goals cases failed.symm.trans moved

theorem Sound.open_ (rootPath : CString) (handle : Option Addr) : Sound [] (State.open_ rootPath handle) where
  rooted := by simp [State.open_]
  nodup := by simp [State.open_, State.objects, Forest.flatten]
  fresh object member := by
    simp only [State.open_, State.objects, Forest.flatten] at member ⊢
    simp_all
  mapped path a registered := by
    simp only [State.open_, Function.update_apply] at registered
    split at registered
    · rename_i here
      cases registered
      exact ⟨_, List.mem_cons_self, rfl, here.symm, rfl⟩
    · cases registered

theorem run_survives (rootPath : CString) (handle : Option Addr) (inputs : List Input) :
    Machine.Along step Survives (.open_ rootPath handle) inputs ↔
      Machine.Along step Undeleted (.open_ rootPath handle) inputs :=
  Machine.along_congr (Sound []) (fun _ _ _ sound moved => sound.step moved)
    (fun _ input sound => sound.survives input) (Sound.open_ rootPath handle)

theorem run_not_freed {rootPath : CString} {handle : Option Addr} {inputs : List Input}
    (along : Machine.Along step Undeleted (.open_ rootPath handle) inputs) :
    Machine.run step (.open_ rootPath handle) inputs ≠ .error .freed := by
  intro ran
  have harmless : ∀ s input fault, Sound [] s → Undeleted s input → step s input = .error fault → fault ≠ .freed := by
    intro s input fault sound undeleted stopped
    rintro rfl
    rcases step_cases sound input with ⟨s', done, -⟩ | failed | failed | ⟨-, deleted⟩
    · cases done.symm.trans stopped
    · cases failed.symm.trans stopped
    · cases failed.symm.trans stopped
    · exact deleted undeleted
  exact Machine.fault_run (Sound []) (fun _ _ _ sound _ moved => sound.step moved) harmless
    (Sound.open_ rootPath handle) along ran rfl

/-- Every registered path has an object that exists. Every object survives the collection at the
start of its calls exactly in the runs in which no call is for an object below a deleted one that
was not collected yet, and nothing is read in them after it was freed. -/
theorem messages_survive (rootPath : CString) (handle : Option Addr) (inputs : List Input) :
    (∀ s, Machine.run step (.open_ rootPath handle) inputs = .ok s → ∀ path object,
      s.registered path = some object → object ∈ s.addresses) ∧
    (Machine.Along step Survives (.open_ rootPath handle) inputs ↔
      Machine.Along step Undeleted (.open_ rootPath handle) inputs) ∧
    (Machine.Along step Undeleted (.open_ rootPath handle) inputs →
      Machine.run step (.open_ rootPath handle) inputs ≠ .error .freed) := by
  refine ⟨?_, run_survives rootPath handle inputs, run_not_freed⟩
  intro s ran path object registered
  have sound : Sound [] s := Machine.invariant_run (Sound []) (fun _ _ _ sound _ => sound.step)
    (Sound.open_ rootPath handle) (Machine.along_true _ _) ran
  exact sound.registered_live registered

def hostPath : CString := childPath rootPath (ascii ['H', 'o', 's', 't', '0'])

def processPath : CString := childPath hostPath (ascii ['P', 'r', 'o', 'c', 'e', 's', 's', '0'])

/-- A host is deleted, and before the main loop is back a call for a process of the host arrives. -/
def lateCall : List Input :=
  [.registerObject hostPath none (some 7), .registerObject processPath none (some 8),
    .unregisterObject 1, .message processPath true]

/-- The call is for an object that the collection at its start frees. -/
theorem message_freed :
    ¬ (∀ inputs, Machine.Along step Survives (.open_ rootPath none) inputs) ∧
      Machine.run step (.open_ rootPath none) lateCall = .error .freed :=
  have stopped : Machine.run step (.open_ rootPath none) lateCall = .error .freed := rfl
  ⟨fun all => run_not_freed ((run_survives ..).mp (all lateCall)) stopped, stopped⟩

end Testbus.Dbus.Objects
