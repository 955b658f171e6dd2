import Testbus.Server.Answering

namespace Testbus.Server

open Lib Testbus.Environ Testbus.Dbus

/-- What a change that is about no agent leaves. -/
def Container.attended (self : Container) : Kind × Bool × Option CString :=
  (self.kind, self.ready, self.agentBusName)

/-- Something that a container shows of its agent. A new one does not, and one that loses its
agent shows nothing else. -/
structure View (α : Type) where
  look : Kind × Bool × Option CString → UInt32 → Option α
  fresh : ∀ kind, look (kind, false, none) 0 = none
  left : ∀ attended generation,
    look (attended.1, false, none) generation = look attended generation ∨
      look (attended.1, false, none) generation = none

def View.of {α : Type} (view : View α) (self : Container) : Option α :=
  view.look self.attended self.generation

/-- What is shown was shown before, and every container is new or has the generation that it had. -/
structure World.Ages {α : Type} (view : View α) (w w' : World) : Prop where
  shown : ∀ c new value, w'.heap.cells c = some new → view.of new = some value →
    ∃ old, w.heap.cells c = some old ∧ view.of old = some value
  aged : ∀ c new, w'.heap.cells c = some new → w.next ≤ c ∨
    ∃ old, w.heap.cells c = some old ∧ old.kind = new.kind ∧ old.generation = new.generation
  next : w.next ≤ w'.next

/-- The names on the bus are the same, too. -/
structure World.Tame {α : Type} (view : View α) (w w' : World) : Prop extends w.Ages view w' where
  nameMappings : w'.nameMappings = w.nameMappings
  owned : w'.owned = w.owned

section Tame

variable {α : Type} {view : View α} {w w' w'' : World} {objectPath name : CString}

theorem View.of_new (unready : self.ready = false) (alone : self.agentBusName = none)
    (first : self.generation = 0) : view.of self = none := by
  rw [View.of, Container.attended, unready, alone, first]
  exact view.fresh self.kind

theorem World.Tame.refl (view : View α) (w : World) : w.Tame view w where
  shown _ new _ found shows := ⟨new, found, shows⟩
  aged _ new found := .inr ⟨new, found, rfl, rfl⟩
  next := Nat.le_refl _
  nameMappings := rfl
  owned := rfl

theorem World.Tame.trans (first : w.Tame view w') (second : w'.Tame view w'') : w.Tame view w'' where
  shown c new value found shows := by
    obtain ⟨middle, found', shows'⟩ := second.shown c new value found shows
    exact first.shown c middle value found' shows'
  aged c new found := by
    rcases second.aged c new found with late | ⟨middle, found', kind, generation⟩
    · exact .inl (first.next.trans late)
    · rcases first.aged c middle found' with late | ⟨old, there, kind', generation'⟩
      · exact .inl late
      · exact .inr ⟨old, there, kind'.trans kind, generation'.trans generation⟩
  next := first.next.trans second.next
  nameMappings := second.nameMappings.trans first.nameMappings
  owned := second.owned.trans first.owned

theorem World.Tame.modify (w : World) (c : Addr)
    (same : ∀ self, (view.of (change self) = view.of self ∨ view.of (change self) = none) ∧
      self.kind = (change self).kind ∧ self.generation = (change self).generation) :
    w.Tame view (w.modify c change) where
  shown h new value found shows := by
    rw [World.cells_modify_heap, Store.cells_modify] at found
    split at found
    · obtain ⟨old, there, rfl⟩ := Option.map_eq_some_iff.mp found
      rcases (same old).1 with same | nothing
      · exact ⟨old, there, same.symm.trans shows⟩
      · rw [nothing] at shows
        cases shows
    · exact ⟨new, found, shows⟩
  aged h new found := by
    rw [World.cells_modify_heap, Store.cells_modify] at found
    split at found
    · obtain ⟨old, there, rfl⟩ := Option.map_eq_some_iff.mp found
      exact .inr ⟨old, there, (same old).2⟩
    · exact .inr ⟨new, found, rfl, rfl⟩
  next := Nat.le_refl _
  nameMappings := rfl
  owned := rfl

theorem tame_get (ran : containerGet c w = .ok w') : w.Tame view w' := by
  obtain ⟨self, _, rest⟩ := bind_ok.mp ran
  split at rest
  · cases rest
  · cases rest
    exact World.Tame.modify w c fun _ => ⟨Or.inl rfl, rfl, rfl⟩

theorem tame_arrayAppend (ran : arrayAppend k p c w = .ok w') : w.Tame view w' := by
  obtain ⟨w₁, got, rest⟩ := bind_ok.mp ran
  obtain ⟨above, _, rest⟩ := bind_ok.mp rest
  cases rest
  exact (tame_get got).trans (World.Tame.modify w₁ p fun _ => ⟨Or.inl rfl, rfl, rfl⟩)

/-- What has just been appended to an array is put without being destroyed. -/
theorem tame_put_append (appended : arrayAppend k p c w = .ok w') (putted : put c w' = .ok w'') : w'.Tame view w'' := by
  obtain ⟨w₁, got, rest⟩ := bind_ok.mp appended
  obtain ⟨self, found, rest'⟩ := bind_ok.mp got
  split at rest'
  · cases rest'
  rename_i counted
  cases rest'
  obtain ⟨above, _, rest⟩ := bind_ok.mp rest
  cases rest
  obtain ⟨self', found', rest⟩ := bind_ok.mp putted
  have more : 1 < self'.refcount := by
    rw [World.deref_ok, World.cells_modify_heap, Store.cells_modify] at found'
    rw [World.deref_ok] at found
    have bumped : (w.modify c fun self => { self with refcount := self.refcount + 1 }).heap.cells c =
        some { self with refcount := self.refcount + 1 } := by simp [found]
    split at found'
    · obtain ⟨old, there, rfl⟩ := Option.map_eq_some_iff.mp found'
      obtain rfl := Option.some.inj (bumped.symm.trans there)
      change 1 < self.refcount + 1
      omega
    · obtain rfl := Option.some.inj (bumped.symm.trans found')
      change 1 < self.refcount + 1
      omega
  rw [if_neg (by omega), if_pos more] at rest
  cases rest
  exact World.Tame.modify _ c fun _ => ⟨Or.inl rfl, rfl, rfl⟩

theorem tame_containerInit (quiet : view.of self = none)
    (ran : containerInit p self w = .ok (c, w')) : w.Tame view w' := by
  have made : w.Tame view { w with
      heap := w.heap.alloc w.next { self with parent := some p, refcount := 1 }
      next := w.next + 1 } := by
    refine ⟨⟨fun h new value found shows => ?_, fun h new found => ?_, Nat.le_succ _⟩, rfl, rfl⟩
    · by_cases fresh : h = w.next
      · subst fresh
        obtain rfl := Option.some.inj ((Store.alloc_self _ _ _).symm.trans found)
        change view.of self = some value at shows
        rw [quiet] at shows
        cases shows
      · have found : w.heap.cells h = some new := (Store.alloc_of_ne fresh).symm.trans found
        exact ⟨new, found, shows⟩
    · by_cases fresh : h = w.next
      · exact .inl (Nat.le_of_eq fresh.symm)
      · exact .inr ⟨new, (Store.alloc_of_ne fresh).symm.trans found, rfl, rfl⟩
  obtain ⟨above, _, rest⟩ := bind_ok.mp ran
  split at rest
  · cases rest
  obtain ⟨w₁, appended, rest⟩ := bind_ok.mp rest
  obtain ⟨w₂, putted, rest⟩ := bind_ok.mp rest
  cases rest
  refine made.trans (World.Tame.trans ?_ ((tame_arrayAppend appended).trans (tame_put_append appended putted)))
  exact (World.Tame.modify _ _ (by intro; exact ⟨Or.inl rfl, rfl, rfl⟩)).trans
    (World.Tame.modify _ _ (by intro; exact ⟨Or.inl rfl, rfl, rfl⟩))

theorem tame_containerWrap (ran : containerWrap parentPath c w = .ok (path, w')) : w.Tame view w' := by
  obtain ⟨self, _, rest⟩ := bind_ok.mp ran
  obtain ⟨made, _, rest⟩ := bind_ok.mp rest
  cases rest
  have objects : w.Tame view { w with objects := made.1, made := w.made ++ [made.2.path] } :=
    ⟨⟨fun _ new _ found shows => ⟨new, found, shows⟩, fun _ new found => .inr ⟨new, found, rfl, rfl⟩,
      Nat.le_refl _⟩, rfl, rfl⟩
  exact objects.trans (World.Tame.modify _ c fun _ => ⟨Or.inl rfl, rfl, rfl⟩)

theorem tame_setOwner (ran : containerSetOwner c o w = .ok w') : w.Tame view w' := by
  obtain ⟨self, _, rest⟩ := bind_ok.mp ran
  split at rest
  · cases rest
  · cases rest
    exact World.Tame.modify w c fun _ => ⟨Or.inl rfl, rfl, rfl⟩

theorem tame_sort (chain : List Addr) (w : World) : w.Tame view (chain.foldl World.sortEnv w) := by
  induction chain generalizing w with
  | nil => exact World.Tame.refl view w
  | cons c rest ih =>
    refine (World.Tame.modify w c fun self => ?_).trans (ih (w.sortEnv c))
    split
    · exact ⟨Or.inl rfl, rfl, rfl⟩
    · exact ⟨Or.inl rfl, rfl, rfl⟩

theorem tame_applyContext (ran : applyContext c env w = .ok (merged, w')) : w.Tame view w' := by
  obtain ⟨chain, _, rest⟩ := bind_ok.mp ran
  split at rest
  · cases rest
  · cases rest
    exact tame_sort (chain.map Prod.fst) w

theorem tame_processApplyContext (ran : processApplyContext c command host w = .ok w') : w.Tame view w' := by
  obtain ⟨self, _, rest⟩ := bind_ok.mp ran
  obtain ⟨first, applied, rest⟩ := bind_ok.mp rest
  obtain ⟨second, applied', rest⟩ := bind_ok.mp rest
  cases rest
  exact (tame_applyContext applied).trans ((tame_applyContext applied').trans
    (World.Tame.modify _ c (by intro; exact ⟨Or.inl rfl, rfl, rfl⟩)))

theorem tame_processNew (ran : processNew p command w = .ok (c, w')) : w.Tame view w' := by
  obtain ⟨w₁, got, rest⟩ := bind_ok.mp ran
  obtain ⟨made, created, rest⟩ := bind_ok.mp rest
  obtain ⟨w₃, owned, rest⟩ := bind_ok.mp rest
  cases rest
  exact (tame_get got).trans ((tame_containerInit (View.of_new rfl rfl rfl) created).trans (tame_setOwner owned))

theorem tame_hostNew (ran : hostNew p name w = .ok (some (c, w'))) : w.Tame view w' := by
  obtain ⟨known, _, rest⟩ := bind_ok.mp ran
  cases known with
  | some _ => cases rest
  | none =>
    obtain ⟨made, created, rest⟩ := bind_ok.mp rest
    cases rest
    exact tame_containerInit (View.of_new rfl rfl rfl) created

theorem tame_createTest (ran : createTest objectPath name w = .ok (w', answer)) : w.Tame view w' := by
  unfold createTest at ran
  split at ran
  · cases ran
    exact World.Tame.refl view w
  obtain ⟨self, _, rest⟩ := bind_ok.mp ran
  split at rest
  · cases rest
    exact World.Tame.refl view w
  split at rest
  · cases rest
    exact World.Tame.refl view w
  obtain ⟨test, _, rest⟩ := bind_ok.mp rest
  cases test with
  | some _ =>
    cases rest
    exact World.Tame.refl view w
  | none =>
    obtain ⟨made, created, rest⟩ := bind_ok.mp rest
    obtain ⟨wrapped, named, rest⟩ := bind_ok.mp rest
    cases rest
    exact (tame_containerInit (View.of_new rfl rfl rfl) created).trans (tame_containerWrap named)

theorem tame_createCommand (ran : createCommand objectPath w = .ok (w', answer)) : w.Tame view w' := by
  unfold createCommand at ran
  split at ran
  · cases ran
    exact World.Tame.refl view w
  obtain ⟨self, _, rest⟩ := bind_ok.mp ran
  split at rest
  · cases rest
    exact World.Tame.refl view w
  obtain ⟨made, created, rest⟩ := bind_ok.mp rest
  obtain ⟨wrapped, named, rest⟩ := bind_ok.mp rest
  obtain ⟨w₃, owned, rest⟩ := bind_ok.mp rest
  cases rest
  exact (tame_containerInit (View.of_new rfl rfl rfl) created).trans
    ((tame_containerWrap named).trans (tame_setOwner owned))

theorem tame_setRole (ran : hostSetRole host role owner w = .ok (claimed, w')) : w.Tame view w' := by
  obtain ⟨self, _, rest⟩ := bind_ok.mp ran
  cases owner with
  | none =>
    cases rest
    exact World.Tame.modify w host fun _ => ⟨Or.inl rfl, rfl, rfl⟩
  | some o =>
    dsimp only at rest
    split at rest
    · cases rest
      exact World.Tame.refl view w
    · cases rest
      exact World.Tame.modify w host fun _ => ⟨Or.inl rfl, rfl, rfl⟩

theorem tame_addHost (ran : addHost objectPath name hostPath w = .ok (w', answer)) : w.Tame view w' := by
  unfold addHost at ran
  split at ran
  · cases ran
    exact World.Tame.refl view w
  obtain ⟨self, _, rest⟩ := bind_ok.mp ran
  split at rest
  · cases rest
    exact World.Tame.refl view w
  split at rest
  · cases rest
    exact World.Tame.refl view w
  obtain ⟨known, _, rest⟩ := bind_ok.mp rest
  cases known with
  | some _ =>
    cases rest
    exact World.Tame.refl view w
  | none =>
    dsimp only at rest
    split at rest
    · cases rest
      exact World.Tame.refl view w
    split at rest
    · cases rest
      exact World.Tame.refl view w
    obtain ⟨hostSelf, _, rest⟩ := bind_ok.mp rest
    split at rest
    · cases rest
      exact World.Tame.refl view w
    obtain ⟨claim, set, rest⟩ := bind_ok.mp rest
    split at rest
    · cases rest
      exact tame_setRole set
    · obtain ⟨w₂, appended, rest⟩ := bind_ok.mp rest
      cases rest
      exact (tame_setRole set).trans (tame_arrayAppend appended)

theorem tame_run (ran : run objectPath commandPath w = .ok (w', answer)) : w.Tame view w' := by
  unfold run at ran
  split at ran
  · cases ran
    exact World.Tame.refl view w
  obtain ⟨self, _, rest⟩ := bind_ok.mp ran
  iterate 4
    split at rest
    · cases rest
      exact World.Tame.refl view w
  obtain ⟨command, _, rest⟩ := bind_ok.mp rest
  split at rest
  · cases rest
    exact World.Tame.refl view w
  obtain ⟨made, created, rest⟩ := bind_ok.mp rest
  obtain ⟨w₂, applied, rest⟩ := bind_ok.mp rest
  obtain ⟨wrapped, named, rest⟩ := bind_ok.mp rest
  cases rest
  exact (tame_processNew created).trans ((tame_processApplyContext applied).trans (tame_containerWrap named))

theorem tame_update (same : ∀ self, view.of (change self) = view.of self ∧
      self.kind = (change self).kind ∧ self.generation = (change self).generation)
    (ran : update objectPath kinds change w = .ok (w', answer)) : w.Tame view w' := by
  unfold update at ran
  split at ran
  · cases ran
    exact World.Tame.refl view w
  obtain ⟨self, _, rest⟩ := bind_ok.mp ran
  split at rest
  · cases rest
    exact World.Tame.refl view w
  · cases rest
    exact World.Tame.modify w _ fun self => ⟨Or.inl (same self).1, (same self).2⟩

theorem tame_setenv (ran : setenv objectPath name value w = .ok (w', answer)) : w.Tame view w' := by
  unfold setenv at ran
  split at ran
  · cases ran
    exact World.Tame.refl view w
  split at ran
  · cases ran
    exact World.Tame.refl view w
  · exact tame_update (by intro; exact ⟨rfl, rfl, rfl⟩) ran

theorem tame_disconnected (w : World) (h : Addr) : w.Tame view (hostAgentDisconnected h w) :=
  World.Tame.modify w h fun self => ⟨view.left self.attended self.generation, rfl, rfl⟩

theorem tame_shutdown (ran : shutdown objectPath w = .ok (w', answer)) : w.Tame view w' := by
  unfold shutdown at ran
  split at ran
  · cases ran
    exact World.Tame.refl view w
  obtain ⟨self, _, rest⟩ := bind_ok.mp ran
  split at rest
  · cases rest
    exact World.Tame.refl view w
  · cases rest
    exact tame_disconnected w _

end Tame

end Testbus.Server
