import Testbus.Schema.Document

namespace Testbus.Schema.Build

open Lib Noted Xml Environ

section Scopes

/-- A scope is another one or somewhere in it. -/
inductive Scope.Below : Scope → Scope → Prop
  | self (scope : Scope) : Below scope scope
  | child {inner child scope : Scope} (member : child ∈ scope.children) (below : Below inner child) :
      Below inner scope

def Method.types (method : Method) : List XsType :=
  method.arguments.map Prod.snd ++ method.retval.toList

def Service.types (service : Service) : List XsType :=
  service.methods.flatMap Method.types ++ service.signals.flatMap Method.types

/-- The types that a scope refers to itself, by its table and by its services. -/
def Scope.roots (scope : Scope) : List XsType :=
  scope.types.map Prod.snd ++ scope.services.flatMap Service.types

/-- A scope that was not freed has the address, and the name in its table. -/
def Live (scopes : List Scope) (origdef : Origdef) : Prop :=
  ∃ root ∈ scopes, ∃ scope : Scope, scope.Below root ∧ scope.addr = origdef.scope ∧
    origdef.name ∈ scope.types.map Prod.fst

/-- Whatever a type refers to, and itself, has its definition, if any, in a place like this. -/
def DefinedIn (place : Origdef → Prop) (type : XsType) : Prop :=
  ∀ part, XsType.Part part type → ∀ origdef, part.common.origdef = some origdef → place origdef

/-- All that a type refers to has its definition in a scope that was not freed. -/
def Held (scopes : List Scope) (type : XsType) : Prop := DefinedIn (Live scopes) type

/-- All types that are reachable from scopes have their definitions in scopes that were not freed. -/
def Lasting (scopes : List Scope) : Prop :=
  ∀ root ∈ scopes, ∀ scope : Scope, scope.Below root → ∀ type ∈ scope.roots, Held scopes type

/-- Nothing that a type refers to was defined in a scope or in one that is in it. -/
def Apart (scope : Scope) (type : XsType) : Prop :=
  DefinedIn (fun origdef => ∀ inner : Scope, inner.Below scope → inner.addr ≠ origdef.scope) type

/-- A step that nothing goes wrong at. -/
def Harmless : Step → Prop
  | .named name => name ≠ none
  | .looked name types => 58 ∈ name → tokens name = [] → types.isEmpty = true
  | .changed ref => ref.sole = true ∨ ref.type.isVoid = false
  | .constrained value => value ≠ none
  | .grouped groups => groups ≠ none
  | .ranged node => attr node "min" = none ∧ attr node "max" = none
  | .joined node => hasClassOrType node = true
  | .included depth => depth ≠ 0
  | .freed _ _ => True

/-- What was built in a scope that is freed has nothing that was defined there. -/
def LeavesNothing : Step → Prop
  | .freed scope built => ∀ type ∈ built, Apart scope type
  | _ => True

variable {scopes scopes' outer : List Scope} {scope child : Scope} {type : XsType}

theorem below_children {inner : Scope} :
    inner.Below scope ↔ inner = scope ∨ ∃ child ∈ scope.children, inner.Below child := by
  constructor
  · intro below
    cases below with
    | self => exact .inl rfl
    | child member below => exact .inr ⟨_, member, below⟩
  · rintro (rfl | ⟨child, member, below⟩)
    · exact .self _
    · exact .child member below

theorem definedIn_iff : DefinedIn place type ↔
    (∀ origdef, type.common.origdef = some origdef → place origdef) ∧
      ∀ component ∈ type.components, DefinedIn place component := by
  constructor
  · intro everywhere
    exact ⟨everywhere type (.self type), fun component member part inner =>
      everywhere part (.component member inner)⟩
  · rintro ⟨own, components⟩ part inner
    cases inner with
    | self => exact own
    | component member inner => exact components _ member part inner

theorem held_iff : Held scopes type ↔
    (∀ origdef, type.common.origdef = some origdef → Live scopes origdef) ∧
      ∀ component ∈ type.components, Held scopes component := definedIn_iff

theorem Held.mono (held : Held scopes type) (live : ∀ origdef, Live scopes origdef → Live scopes' origdef) :
    Held scopes' type := fun part inner origdef defined => live origdef (held part inner origdef defined)

@[simp] theorem common_setCommon (type : XsType) (common : Common) :
    (type.setCommon common).common = common := by cases type <;> rfl

@[simp] theorem components_setCommon (type : XsType) (common : Common) :
    (type.setCommon common).components = type.components := by cases type <;> rfl

theorem Held.setCommon (held : Held scopes type)
    (defined : ∀ origdef, common.origdef = some origdef → Live scopes origdef) : Held scopes (type.setCommon common) := by
  rw [held_iff, common_setCommon, components_setCommon]
  exact ⟨defined, (held_iff.mp held).2⟩

theorem Held.changed (held : Held scopes type)
    (same : common.origdef = type.common.origdef) : Held scopes (type.setCommon common) :=
  held.setCommon fun origdef defined => (held_iff.mp held).1 origdef (same ▸ defined)

theorem live_cons : Live (scope :: outer) origdef ↔ Live [scope] origdef ∨ Live outer origdef := by
  simp [Live]

theorem live_outer (live : Live outer origdef) : Live (scope :: outer) origdef := live_cons.mpr (.inr live)

theorem live_grown (live : Live [scope] origdef) (addr : scope'.addr = scope.addr)
    (types : scope.types ⊆ scope'.types) (children : scope.children ⊆ scope'.children) : Live [scope'] origdef := by
  obtain ⟨root, member, inner, below, same, name⟩ := live
  cases List.mem_singleton.mp member
  refine ⟨scope', List.mem_singleton_self _, ?_⟩
  rcases below_children.mp below with rfl | ⟨child, member, below⟩
  · exact ⟨scope', .self _, addr.trans same, List.map_subset _ types name⟩
  · exact ⟨inner, .child (children member) below, same, name⟩

theorem live_parent (live : Live [scope] origdef) : Live [scope.addChild child] origdef :=
  live_grown live rfl (List.Subset.refl _) (List.subset_append_left _ _)

theorem live_addChild (live : Live [child] origdef) : Live [scope.addChild child] origdef := by
  obtain ⟨root, member, inner, below, found⟩ := live
  cases List.mem_singleton.mp member
  exact ⟨scope.addChild child, List.mem_singleton_self _, inner, .child (by simp [Scope.addChild]) below, found⟩

/-- What was defined in a scope or around it, and not in the scope, was defined around it. -/
theorem Held.apart (held : Held (scope :: outer) type) (apart : Apart scope type) : Held outer type := by
  intro part inner origdef defined
  rcases live_cons.mp (held part inner origdef defined) with live | live
  · obtain ⟨root, member, found, below, same, -⟩ := live
    cases List.mem_singleton.mp member
    exact absurd same (apart part inner origdef defined found below)
  · exact live

end Scopes

section Lookup

variable {outer : List Scope} {scope : Scope} {type : XsType} {name : CString}

theorem lookupLocal_mem (found : scope.lookupLocal name = some type) : type ∈ scope.types.map Prod.snd := by
  obtain ⟨entry, first, rfl⟩ := Option.map_eq_some_iff.mp found
  exact List.mem_map_of_mem (List.mem_of_find?_eq_some first)

theorem lookupPath_below (found : lookupPath scope parts = some type) :
    ∃ inner : Scope, inner.Below scope ∧ type ∈ inner.types.map Prod.snd := by
  induction parts generalizing scope with
  | nil => cases found
  | cons first rest ih =>
    cases rest with
    | nil => exact ⟨scope, .self scope, lookupLocal_mem found⟩
    | cons next rest =>
      obtain ⟨child, named, found⟩ := Option.bind_eq_some_iff.mp found
      obtain ⟨inner, below, member⟩ := ih found
      exact ⟨inner, .child (List.mem_of_find?_eq_some named) below, member⟩

/-- With the scopes that are being built in their places the tables are still the same. -/
theorem outermost_below {inner : Scope} (below : inner.Below (outermost scope outer)) :
    ∃ root ∈ scope :: outer, ∃ found : Scope, found.Below root ∧ found.types = inner.types := by
  induction outer generalizing scope with
  | nil => exact ⟨scope, List.mem_singleton_self _, inner, below, rfl⟩
  | cons parent outer ih =>
    obtain ⟨root, member, found, below, same⟩ := ih below
    rcases List.mem_cons.mp member with rfl | member
    · split at below
      · rcases below_children.mp below with rfl | ⟨child, member, below⟩
        · exact ⟨parent, by simp, parent, .self _, same⟩
        · rcases List.mem_append.mp member with member | member
          · exact ⟨parent, by simp, found, .child member below, same⟩
          · cases List.mem_singleton.mp member
            exact ⟨scope, by simp, found, below, same⟩
      · exact ⟨parent, by simp, found, below, same⟩
    · exact ⟨root, by simp [member], found, below, same⟩

theorem Lasting.lookup (lasting : Lasting (scope :: outer)) {inner : Scope}
    (below : inner.Below (outermost scope outer)) (member : type ∈ inner.types.map Prod.snd) :
    Held (scope :: outer) type := by
  obtain ⟨root, inside, found, below, same⟩ := outermost_below below
  rw [← same] at member
  exact lasting root inside found below type (List.mem_append_left _ member)

end Lookup

section Runs

variable {around : Surroundings} {built : α → List XsType} {after : β → List XsType}

/-- The scopes in use, innermost first. -/
def scopesOf (around : Surroundings) (s : Building) : List Scope := s.scope :: around.outer

/-- If all is well, all types have their definitions. -/
def AllHeld (well : Prop) (around : Surroundings) (s : Building) (types : List XsType) : Prop :=
  ∀ type ∈ types, well → Held (scopesOf around s) type

theorem allHeld_nil : AllHeld well around s [] := nofun

theorem held_bare (components : AllHeld well around s type.components)
    (undefined : type.common.origdef = none) : AllHeld well around s [type] := by
  refine List.forall_mem_singleton.mpr fun here => held_iff.mpr ⟨fun origdef defined => ?_,
    fun component member => components component member here⟩
  rw [undefined] at defined
  cases defined

/-- From one state to another no definition is lost, and all types have theirs. -/
structure Stays (around : Surroundings) (s s' : Building) : Prop where
  live : ∀ origdef, Live [s.scope] origdef → Live [s'.scope] origdef
  lasting : Lasting (scopesOf around s')

theorem Stays.scopes (stays : Stays around s s') (live : Live (scopesOf around s) origdef) : Live (scopesOf around s') origdef :=
  live_cons.mpr ((live_cons.mp live).imp (stays.live origdef) id)

theorem Stays.trans (first : Stays around s s') (later : Stays around s' s'') : Stays around s s'' :=
  ⟨fun origdef live => later.live origdef (first.live origdef live), later.lasting⟩

/-- All is well in a state only if it was in the one before, and no definition was lost. -/
def Carries (well well' : Prop) (around : Surroundings) (s s' : Building) : Prop :=
  well' → well ∧ Stays around s s'

theorem Carries.held (carries : Carries well well' around s s')
    (held : AllHeld well around s types) : AllHeld well' around s' types :=
  fun type member here => (held type member (carries here).1).mono fun _ => (carries here).2.scopes

/-- A program ends if its steps are harmless, and only then. If all is well and nothing is left
behind, it keeps the definitions of all types, and those of the types that it builds are there. -/
structure Lasts (well : Prop) (built : α → List XsType) (program : Builder α) (around : Surroundings)
    (s : Building) : Prop where
  exact : Exact Harmless program around s
  keeps : well → Lasting (scopesOf around s) → Keeps LeavesNothing program around s fun value s' =>
    Stays around s s' ∧ AllHeld well around s' (built value)

theorem lasts_known (held : Lasting (scopesOf around s) → AllHeld well around s (built value)) :
    Lasts well built (pure value) around s where
  exact := exact_pure value
  keeps _ lasting := keeps_pure ⟨⟨fun _ => id, lasting⟩, held lasting⟩

theorem lasts_pure (held : AllHeld well around s (built value)) :
    Lasts well built (pure value) around s := lasts_known fun _ => held

theorem Lasts.bind (first : Lasts well built program around s)
    (later : ∀ {well' : Prop} value s', Carries well well' around s s' →
      AllHeld well' around s' (built value) → Lasts well' after (rest value) around s') :
    Lasts well after (program >>= rest) around s where
  exact := first.exact.bind fun value s' => (@later False value s' nofun fun _ _ => nofun).exact
  keeps here lasting := by
    refine (first.keeps here lasting).bind fun value s' ⟨stays, held⟩ => ?_
    have rest := later value s' (fun here => ⟨here, stays⟩) held
    exact (rest.keeps here stays.lasting).weaken fun _ _ final => ⟨stays.trans final.1, final.2⟩

theorem lasts_ask (later : Lasts well after (rest around) around s) :
    Lasts well after (ask >>= rest) around s := ⟨later.exact, later.keeps⟩

theorem lasts_get (later : Lasts well after (rest s) around s) :
    Lasts well after (get >>= rest) around s := ⟨later.exact, later.keeps⟩

theorem lasts_modify (stays : well → Lasting (scopesOf around s) → Stays around s (change s))
    (later : Lasts well after (rest ()) around (change s)) : Lasts well after (modify change >>= rest) around s where
  exact := later.exact
  keeps here lasting := (later.keeps here (stays here lasting).lasting).weaken fun _ _ final =>
    ⟨(stays here lasting).trans final.1, final.2⟩

/-- A step is noted, where the program stops if it is not harmless. -/
theorem lasts_noted (fine : Harmless step → Lasts well built program around s)
    (stops : ¬ Harmless step → ¬ Ends (program around s)) :
    Lasts well built (note step >>= fun _ => program) around s where
  exact := exact_noted (fun harmless => (fine harmless).exact) stops
  keeps here lasting steps value s' done := by
    by_cases harmless : Harmless step
    · exact (fine harmless).keeps here lasting (List.forall_mem_cons.mp steps).2 value s' done
    · exact absurd ⟨value, s', done⟩ (stops harmless)

theorem lasts_fine (fine : Harmless step) (later : Lasts well built program around s) :
    Lasts well built (note step >>= fun _ => program) around s :=
  lasts_noted (fun _ => later) fun harm => absurd fine harm

theorem lasts_stops (harm : ¬ Harmless step) (stops : ¬ Ends (program around s)) :
    Lasts well built (note step >>= fun _ => program) around s :=
  lasts_noted (fun fine => absurd fine harm) fun _ => stops

theorem Lasting.inside (lasting : Lasting (scopesOf around s)) (name : Option CString) :
    Lasting ({ addr := s.nextScope, name } :: scopesOf around s) := by
  intro root member scope below type inside
  rcases List.mem_cons.mp member with rfl | member
  · rcases below_children.mp below with rfl | ⟨child, member, -⟩
    · nomatch inside
    · nomatch member
  · exact (lasting root member scope below type inside).mono fun _ => live_outer

/-- The state in which a program in a new scope begins. -/
def entered (name : Option CString) (s : Building) : Building :=
  { s with scope := { addr := s.nextScope, name }, nextScope := s.nextScope + 1 }

def surrounded (around : Surroundings) (s : Building) : Surroundings :=
  { around with outer := scopesOf around s }

theorem AllHeld.inside (held : AllHeld well around s types)
    (name : Option CString) : AllHeld well (surrounded around s) (entered name s) types :=
  fun type member here => (held type member here).mono fun _ => live_outer

theorem lasts_inNamedScope (inner : Lasts well built program (surrounded around s) (entered (some name) s)) :
    Lasts well built (inNamedScope name program) around s := by
  refine ⟨inner.exact.inside, fun here lasting => ?_⟩
  refine Keeps.inside ((inner.keeps here (lasting.inside (some name))).weaken ?_)
  intro value s' ⟨stays, held⟩
  have live (origdef : Origdef) (live : Live (s'.scope :: scopesOf around s) origdef) :
      Live (scopesOf around { s' with scope := s.scope.addChild s'.scope }) origdef := by
    rcases live_cons.mp live with live | live
    · exact live_cons.mpr (.inl (live_addChild live))
    · exact live_cons.mpr ((live_cons.mp live).imp live_parent id)
  refine ⟨⟨fun _ => live_parent, ?_⟩, fun type member here => (held type member here).mono live⟩
  intro root member scope below type inside
  refine Held.mono ?_ live
  rcases List.mem_cons.mp member with rfl | member
  · rcases below_children.mp below with rfl | ⟨child, member, below⟩
    · exact stays.lasting s.scope (by simp [scopesOf, surrounded]) s.scope (.self _) type inside
    · rcases List.mem_append.mp member with member | member
      · exact stays.lasting s.scope (by simp [scopesOf, surrounded]) scope (.child member below) type inside
      · cases List.mem_singleton.mp member
        exact stays.lasting s'.scope List.mem_cons_self scope below type inside
  · exact stays.lasting root (by simp [scopesOf, surrounded, member]) scope below type inside

/-- What is left of a scope without a name was not defined in it. -/
theorem lasts_inTempScope (inner : Lasts well built program (surrounded around s) (entered none s)) :
    Lasts well built (inTempScope built program) around s := by
  constructor
  · refine Exact.inside (inner.exact.bind fun value _ => exact_get.bind fun _ _ => ?_)
    exact exact_noted (fun _ => exact_pure value) fun harm => absurd trivial harm
  · intro here lasting
    refine Keeps.inside (Keeps.bind (inner.keeps here (lasting.inside none)) ?_)
    intro value s' ⟨stays, held⟩ steps final s'' done
    obtain ⟨apart, -⟩ := List.forall_mem_cons.mp steps
    cases done
    refine ⟨⟨fun _ => id, lasting⟩, fun type member here => ?_⟩
    exact (held type member here).apart (apart type member)

theorem live_changed (live : Live (scope :: outer) origdef) (addr : scope'.addr = scope.addr)
    (types : scope.types ⊆ scope'.types) (children : scope'.children = scope.children) :
    Live (scope' :: outer) origdef := by
  rcases live_cons.mp live with live | live
  · exact live_cons.mpr (.inl (live_grown live addr types (children ▸ List.Subset.refl _)))
  · exact live_outer live

theorem live_entry (live : Live (scope :: outer) origdef) : Live ({ scope with types := scope.types ++ [entry] } :: outer) origdef := by
  apply live_changed live
  · rfl
  · exact List.subset_append_left _ _
  · rfl

theorem stays_change (lasting : Lasting (scopesOf around s))
    (addr : scope.addr = s.scope.addr) (types : s.scope.types ⊆ scope.types)
    (children : scope.children = s.scope.children)
    (added : ∀ type ∈ scope.roots, type ∈ s.scope.roots ∨ Held (scope :: around.outer) type) :
    Stays around s { scope, nextScope, nextGroup } := by
  have live (origdef : Origdef) (live : Live [s.scope] origdef) : Live [scope] origdef :=
    live_grown live addr types (children ▸ List.Subset.refl _)
  have scopes (origdef : Origdef) (live : Live (scopesOf around s) origdef) :
      Live (scope :: around.outer) origdef := live_changed live addr types children
  refine ⟨live, ?_⟩
  intro root member inner below type inside
  rcases List.mem_cons.mp member with rfl | member
  · rcases below_children.mp below with rfl | ⟨child, member, below⟩
    · rcases added type inside with old | held
      · exact (lasting s.scope List.mem_cons_self s.scope (.self _) type old).mono scopes
      · exact held
    · rw [children] at member
      exact (lasting s.scope List.mem_cons_self inner (.child member below) type inside).mono scopes
  · exact (lasting root (List.mem_cons_of_mem _ member) inner below type inside).mono scopes

end Runs

end Testbus.Schema.Build
