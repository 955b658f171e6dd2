import Testbus.Dbus.Trashcan
import Testbus.Server.Tree

namespace Testbus.Dbus.Objects

open Lib Testbus.Server

section Texts

variable {path rest root : CString} {names : List CString}

/-- No two slashes in a row, and none at the end. -/
def Clean (path : CString) : Prop :=
  path.IsChain (fun c next => c = slash → next ≠ slash) ∧ path.getLast? ≠ some slash

instance (path : CString) : Decidable (Clean path) :=
  inferInstanceAs (Decidable (_ ∧ _))

/-- A text is a single name, or goes on after its first slash. -/
theorem slash_split (path : CString) : slash ∉ path ∨ ∃ front rest, path = front ++ slash :: rest ∧ slash ∉ front := by
  by_cases slashed : slash ∈ path
  · exact .inr (List.eq_append_cons_of_mem slashed)
  · exact .inl slashed

theorem strtok_front (plain : slash ∉ front) : strtok front = if front = [] then [] else [front] := by
  split
  · rename_i empty
    rw [empty]
    decide
  · rename_i full
    exact strtok_plain ⟨full, plain⟩

theorem plain_strtok (path : CString) : ∀ name ∈ strtok path, Server.Plain name := by
  intro name member
  rcases slash_split path with plain | ⟨front, rest, whole, plain⟩
  · rw [strtok_front plain] at member
    split at member
    · cases member
    · obtain rfl := List.mem_singleton.mp member
      exact ⟨‹_›, plain⟩
  · have shorter : rest.length < path.length := by simp [whole]; omega
    rw [whole, strtok_append, strtok_front plain] at member
    rcases List.mem_append.mp member with member | member
    · split at member
      · cases member
      · obtain rfl := List.mem_singleton.mp member
        exact ⟨‹_›, plain⟩
    · exact plain_strtok rest name member
termination_by path.length

theorem pathBelow_cons (name : CString) (names : List CString) :
    pathBelow (name :: names) = slash :: name ++ pathBelow names := by
  simp [pathBelow]

theorem clean_plain (plain : Server.Plain name) : Clean (slash :: name) := by
  obtain ⟨full, plain⟩ := plain
  obtain ⟨c, rest, rfl⟩ := List.exists_cons_of_ne_nil full
  constructor
  · refine List.isChain_cons_cons.mpr ⟨fun _ same => plain (same ▸ List.mem_cons_self), ?_⟩
    rw [List.isChain_iff_getElem]
    intro i bound same
    exact absurd (same ▸ List.getElem_mem _) plain
  · intro last
    have member := List.mem_of_getLast? last
    rcases List.mem_cons.mp member with same | member
    · rw [List.getLast?_cons_cons] at last
      exact plain (List.mem_of_getLast? last)
    · exact plain member

theorem clean_pathBelow (plain : ∀ name ∈ names, Server.Plain name) : Clean (pathBelow names) := by
  induction names with
  | nil => decide
  | cons name names ih =>
    have first := clean_plain (plain name List.mem_cons_self)
    have later := ih fun other member => plain other (List.mem_cons_of_mem _ member)
    rw [pathBelow_cons]
    constructor
    · refine List.isChain_append.mpr ⟨first.1, later.1, fun c ends next begins same => ?_⟩
      exact absurd (same ▸ ends) first.2
    · rw [List.getLast?_append]
      cases ends : (pathBelow names).getLast? with
      | none => exact first.2
      | some c =>
        intro same
        exact later.2 (ends.trans same)

theorem pathBelow_strtok (rest : CString) (clean : Clean (slash :: rest)) : pathBelow (strtok rest) = slash :: rest := by
  obtain ⟨chain, ends⟩ := clean
  rcases slash_split rest with plain | ⟨front, more, whole, plain⟩
  · have full : rest ≠ [] := by
      rintro rfl
      exact ends rfl
    rw [strtok_front plain, if_neg full, pathBelow_cons]
    simp [pathBelow]
  · have shorter : more.length < rest.length := by simp [whole]; omega
    subst whole
    have full : front ≠ [] := by
      rintro rfl
      exact (List.isChain_cons_cons.mp chain).1 rfl rfl
    have clean : Clean (slash :: more) := by
      have whole : (slash :: front ++ slash :: more).IsChain _ := chain
      refine ⟨whole.right_of_append, ?_⟩
      rwa [← List.cons_append, List.getLast?_append_cons] at ends
    rw [strtok_append, strtok_front plain, if_neg full, List.singleton_append, pathBelow_cons,
      pathBelow_strtok more clean, List.cons_append]
termination_by rest.length

theorem pathBelow_strtok_iff (begins : rest = [] ∨ ∃ more, rest = slash :: more) :
    pathBelow (strtok rest) = rest ↔ Clean rest := by
  constructor
  · intro same
    rw [← same]
    exact clean_pathBelow (plain_strtok rest)
  · intro clean
    rcases begins with rfl | ⟨more, rfl⟩
    · decide
    · rw [strtok_slash]
      exact pathBelow_strtok more clean

/-- A path is relative to an object if it is that of the object or goes on with a slash. -/
theorem relativePath_isSome : (relativePath root path).isSome ↔ path = root ∨ childPath root [] <+: path := by
  constructor
  · intro relative
    unfold relativePath at relative
    split at relative
    · rename_i front
      obtain ⟨rest, rfl⟩ := List.isPrefixOf_iff_prefix.mp front
      rw [List.drop_left] at relative
      cases rest with
      | nil => exact .inl (List.append_nil root)
      | cons c more =>
        right
        by_cases same : c = slash
        · exact ⟨more, by simp [childPath, same]⟩
        · simp [same] at relative
    · cases relative
  · intro within
    have begins : ∃ rest, path = root ++ rest ∧ (rest = [] ∨ ∃ more, rest = slash :: more) := by
      rcases within with same | ⟨more, whole⟩
      · exact ⟨[], by simp [same], .inl rfl⟩
      · exact ⟨slash :: more, by simp [← whole, childPath], .inr ⟨more, rfl⟩⟩
    obtain ⟨rest, rfl, begins⟩ := begins
    rw [← Option.isSome_map (f := strtok), relativePath_append begins]
    rfl

end Texts

/-- `ni_dbus_object_lookup` from the root object. -/
def State.lookup (s : State) (path : CString) : Option Object :=
  match s.tree with
  | .nil => none
  | .cons root _ _ => (names root path).bind (s.lookupFrom root)

def Child (parent child : Object) : Prop := child.path = childPath parent.path child.name

/-- Where the objects are says what their paths are. -/
structure Placed (rootPath : CString) (s : State) : Prop where
  root : s.tree.siblings.map Object.path = [rootPath]
  tree : s.tree.Links Child
  trashcan : s.trashcan.Links Child
  within : ∀ object ∈ s.objects, object.path = rootPath ∨
    object.path.getLast? ≠ some slash ∧ object.path.length < 255

variable {s s' : State} {pending : List Object} {parent child object : Object}
  {rootPath path name : CString} {handle : Option Addr} {names : List CString}

namespace Placed

theorem open_ (rootPath : CString) (handle : Option Addr) : Placed rootPath (.open_ rootPath handle) where
  root := rfl
  tree := ⟨fun child member => absurd member List.not_mem_nil, trivial, trivial⟩
  trashcan := trivial
  within object member := by
    simp only [State.open_, State.objects, Forest.flatten, List.append_nil, List.mem_singleton] at member
    exact .inl (member ▸ rfl)

/-- The table of the registered paths does not matter. -/
theorem modify (placed : Placed rootPath s) (registered : CString → Option Addr) (a : Addr)
    (change : Object → Object) (kept : ∀ self, (change self).name = self.name ∧
      (change self).path = self.path) : Placed rootPath ({ s with registered }.modify a change) := by
  have names : ∀ self : Object, (if self.addr = a then change self else self).name = self.name := by
    intro self
    split <;> simp [kept]
  have paths : ∀ self : Object, (if self.addr = a then change self else self).path = self.path := by
    intro self
    split <;> simp [kept]
  have linked : ∀ parent child : Object, Child parent child →
      Child (if parent.addr = a then change parent else parent) (if child.addr = a then change child else child) := by
    intro parent child related
    rw [Child, names, paths, paths]
    exact related
  refine ⟨?_, placed.tree.map linked, placed.trashcan.map linked, ?_⟩
  · rw [State.modify, Forest.siblings_map, List.map_map, ← placed.root]
    exact List.map_congr_left fun self _ => paths self
  · intro object member
    rw [State.objects_modify] at member
    obtain ⟨before, inside, rfl⟩ := List.mem_map.mp member
    rw [paths]
    exact placed.within before inside

theorem unregister (placed : Placed rootPath s) (done : s.unregister pending path = .ok s') : Placed rootPath s' := by
  unfold State.unregister at done
  split at done
  · cases done
    exact placed
  · split at done
    · cases done
      exact placed.modify _ _ _ fun self => ⟨rfl, rfl⟩
    · cases done

theorem serverObjectDestroy (placed : Placed rootPath s)
    (done : s.serverObjectDestroy pending object = .ok s') : Placed rootPath s' := by
  unfold State.serverObjectDestroy at done
  split at done
  · obtain ⟨s₁, unregistered, rest⟩ := bind_ok.mp done
    cases rest
    exact (placed.unregister unregistered).modify _ _ _ fun self => ⟨rfl, rfl⟩
  · cases done
    exact placed

theorem freeObjects (placed : Placed rootPath s) (done : s.freeObjects pending = .ok s') : Placed rootPath s' := by
  induction pending generalizing s with
  | nil =>
    cases done
    exact placed
  | cons object rest ih =>
    obtain ⟨s₁, destroyed, rest⟩ := bind_ok.mp done
    exact ih (placed.serverObjectDestroy destroyed) rest

theorem garbageCollect (placed : Placed rootPath s) (done : s.garbageCollect = .ok s') : Placed rootPath s' := by
  have emptied : Placed rootPath { s with trashcan := .nil } :=
    ⟨placed.root, placed.tree, trivial, fun object member =>
      placed.within object (List.mem_append_left _ (by simpa [State.objects, Forest.flatten] using member))⟩
  exact emptied.freeObjects done

theorem unlinked (placed : Placed rootPath s) (unlinked : s.unlink a = some (object, children, s')) :
    Placed rootPath { s' with trashcan := .cons object children s'.trashcan } := by
  have moved : ∀ {tree trashcan : Forest Object},
      (∀ other, other ∈ tree.flatten ++ (object :: children.flatten ++ trashcan.flatten) →
        other ∈ s.objects) → tree.siblings = s.tree.siblings → tree.Links Child →
      (Forest.cons object children .nil).Links Child → trashcan.Links Child →
      Placed rootPath { s with tree, trashcan := .cons object children trashcan } :=
    fun same level tree apart trashcan =>
      ⟨level ▸ placed.root, tree, ⟨apart.1, apart.2.1, trashcan⟩,
        fun other member => placed.within other (same other member)⟩
  unfold State.unlink at unlinked
  split at unlinked
  · rename_i detached
    cases unlinked
    obtain ⟨apart, tree, level⟩ := placed.tree.detachInner detached
    refine moved (fun other member => ?_) level tree apart placed.trashcan
    have perm := (Forest.detachInner_perm detached).mem_iff (a := other)
    simp only [State.objects, List.mem_append, List.mem_cons] at member perm ⊢
    tauto
  · obtain ⟨⟨first, tree, trashcan⟩, detached, same⟩ := Option.map_eq_some_iff.mp unlinked
    cases same
    obtain ⟨apart, left, -⟩ := placed.trashcan.detachInner detached
    refine moved (fun other member => ?_) rfl placed.tree apart left
    have perm := (Forest.detachInner_perm detached).mem_iff (a := other)
    simp only [State.objects, List.mem_append, List.mem_cons] at member perm ⊢
    tauto

theorem unregisterObject (placed : Placed rootPath s) (done : s.unregisterObject a = .ok s') : Placed rootPath s' := by
  unfold State.unregisterObject at done
  split at done
  · cases done
  · split at done
    · cases done
      exact placed
    · obtain ⟨s₁, destroyed, rest⟩ := bind_ok.mp done
      have placed₁ := placed.serverObjectDestroy destroyed
      split at rest
      · rename_i unlinked
        cases rest
        exact placed₁.unlinked unlinked
      · cases rest
        exact placed₁

end Placed

/-- What creating objects leaves as it is. -/
structure Grows (s s' : State) : Prop where
  level : s'.tree.siblings = s.tree.siblings
  subset : s.tree.flatten ⊆ s'.tree.flatten
  child : ∀ parent name child, s.getChild parent name = some child →
    s'.getChild parent name = some child

theorem Grows.refl (s : State) : Grows s s := ⟨rfl, List.Subset.refl _, fun _ _ _ looked => looked⟩

theorem Grows.trans (first : Grows s s') (second : Grows s' s'') : Grows s s'' where
  level := second.level.trans first.level
  subset := List.Subset.trans first.subset second.subset
  child _ _ _ looked := second.child _ _ _ (first.child _ _ _ looked)

/-- What `__ni_dbus_object_new_child` makes, and where it puts it. -/
theorem newChild_made (made : s.newChild parent class_ name handle = .ok (s', child)) :
    child = Object.mk s.next name (childPath parent.path name) (class_.getD anonymousClass) handle parent.serverObject ∧
    child.path.length < 255 ∧ s.tree.insertUnder (fun self => self.addr = parent.addr) child = some s'.tree ∧
    s'.trashcan = s.trashcan := by
  unfold State.newChild at made
  split at made
  · cases made
  · rename_i short
    set new := Object.mk s.next name (childPath parent.path name) (class_.getD anonymousClass) handle parent.serverObject
    cases grown : s.tree.insertUnder (fun self => self.addr = parent.addr) new with
    | none =>
      simp only [grown] at made
      cases made
    | some tree =>
      simp only [grown, Except.ok.injEq, Prod.mk.injEq] at made
      obtain ⟨rfl, same⟩ := made
      rw [← same]
      refine ⟨rfl, by simp [new, childPath]; omega, ?_, ?_⟩
      · split <;> simp [grown]
      · split <;> simp

theorem Sound.same (sound : Sound [] s) (mem₁ : first ∈ s.tree.flatten)
    (mem₂ : second ∈ s.tree.flatten) (same : first.addr = second.addr) : first = second :=
  sound.unique (List.mem_append_right _ (List.mem_append_left _ mem₁))
    (List.mem_append_right _ (List.mem_append_left _ mem₂)) same

theorem Sound.old (sound : Sound [] s) (member : object ∈ s.tree.flatten) : object.addr < s.next :=
  sound.fresh object (List.mem_append_right _ (List.mem_append_left _ member))

theorem getChild_child (sound : Sound [] s) (placed : Placed rootPath s)
    (inside : parent ∈ s.tree.flatten) (looked : s.getChild parent name = some child) :
    child.path = childPath parent.path name := by
  obtain ⟨⟨self, children⟩, found, rest⟩ := Option.bind_eq_some_iff.mp looked
  obtain ⟨⟨first, own⟩, below, same⟩ := Option.bind_eq_some_iff.mp rest
  cases same
  have ⟨member, here⟩ := Forest.node?_mem found
  obtain rfl := sound.same member inside (of_decide_eq_true here)
  obtain ⟨level, named⟩ := Forest.sibling?_siblings below
  rw [placed.tree.node? found child level, of_decide_eq_true named]

theorem lookupFrom_path (sound : Sound [] s) (placed : Placed rootPath s)
    (inside : parent ∈ s.tree.flatten) (looked : s.lookupFrom parent names = some object) :
    object.path = parent.path ++ pathBelow names ∧ object ∈ s.tree.flatten := by
  induction names generalizing parent with
  | nil =>
    cases looked
    exact ⟨by simp [pathBelow], inside⟩
  | cons name rest ih =>
    simp only [State.lookupFrom] at looked
    split at looked
    · rename_i child found
      obtain ⟨path, member⟩ := ih (getChild_mem found) looked
      refine ⟨?_, member⟩
      rw [path, getChild_child sound placed inside found, pathBelow_cons, childPath, List.append_assoc]
    · cases looked

theorem newChild_grows (sound : Sound [] s)
    (made : s.newChild parent class_ name handle = .ok (s', child)) : Grows s s' := by
  obtain ⟨rfl, -, inserted, -⟩ := newChild_made made
  refine ⟨Forest.siblings_insertUnder inserted, fun object member => ?_, ?_⟩
  · exact (Forest.insertUnder_perm inserted).mem_iff.mpr (List.mem_cons_of_mem _ member)
  · intro above other found looked
    obtain ⟨⟨self, children⟩, present, rest⟩ := Option.bind_eq_some_iff.mp looked
    obtain ⟨⟨first, own⟩, below, same⟩ := Option.bind_eq_some_iff.mp rest
    cases same
    have ⟨member, here⟩ := Forest.node?_mem present
    have old : above.addr < s.next := of_decide_eq_true here ▸ sound.old member
    have stays : s.tree.Stays (fun self => self.addr = above.addr) _ :=
      Forest.stays_insertUnder inserted (decide_eq_false (Nat.ne_of_gt old))
    obtain ⟨own', present', kept⟩ := stays.2 _ _ present
    obtain ⟨below', found'⟩ := kept _ _ _ below
    simp [State.getChild, present', found']

/-- The new child is found by its name, and has no children. -/
theorem newChild_found (sound : Sound [] s) (absent : s.getChild parent name = none)
    (made : s.newChild parent class_ name handle = .ok (s', child)) :
    s'.getChild parent name = some child ∧ ∀ other, s'.getChild child other = none := by
  obtain ⟨rfl, -, inserted, -⟩ := newChild_made made
  constructor
  · obtain ⟨self, children, before, after⟩ := Forest.node?_insertUnder_self inserted
    have unnamed : children.sibling? (fun self => self.name = name) = none := by
      cases looked : children.sibling? fun self => self.name = name with
      | none => rfl
      | some found => simp [State.getChild, before, looked] at absent
    simp only [State.getChild, after, bind, Option.bind]
    rw [Forest.sibling?_snoc_new unnamed (decide_eq_true rfl)]
    rfl
  · intro other
    have fresh : ∀ object ∈ s.tree.flatten, ¬ decide (object.addr = s.next) := by
      intro object member
      rw [decide_eq_true_iff]
      exact Nat.ne_of_lt (sound.old member)
    have childless := Forest.node?_insertUnder_new inserted fresh (decide_eq_true rfl)
    simp [State.getChild, childless, Forest.sibling?]

theorem Placed.newChild (sound : Sound [] s) (placed : Placed rootPath s)
    (inside : parent ∈ s.tree.flatten) (plain : Server.Plain name)
    (made : s.newChild parent class_ name handle = .ok (s', child)) : Placed rootPath s' := by
  obtain ⟨rfl, short, inserted, trash⟩ := newChild_made made
  have related : ∀ other ∈ s.tree.flatten, decide (other.addr = parent.addr) →
      Child other (Object.mk s.next name (childPath parent.path name)
        (class_.getD anonymousClass) handle parent.serverObject) := by
    intro other member here
    obtain rfl := sound.same member inside (of_decide_eq_true here)
    rfl
  refine ⟨Forest.siblings_insertUnder inserted ▸ placed.root,
    placed.tree.insertUnder inserted related, trash ▸ placed.trashcan, ?_⟩
  intro object member
  have perm := (Forest.insertUnder_perm inserted).mem_iff (a := object)
  have either : object = Object.mk s.next name (childPath parent.path name)
      (class_.getD anonymousClass) handle parent.serverObject ∨ object ∈ s.objects := by
    simp only [State.objects, List.mem_append, List.mem_cons, trash] at member perm ⊢
    tauto
  rcases either with rfl | old
  · refine .inr ⟨?_, short⟩
    have ends := (clean_plain plain).2
    have last : (childPath parent.path name).getLast? = (slash :: name).getLast? := List.getLast?_append_cons ..
    rwa [last]
  · exact placed.within object old

theorem newChild_sound (sound : Sound [] s) (inside : parent ∈ s.tree.flatten)
    (made : s.newChild parent class_ name handle = .ok (s', child)) : Sound [] s' ∧ child ∈ s'.tree.flatten := by
  have addr := List.mem_map_of_mem (f := Object.addr) inside
  rcases newChild_ok sound addr with failed | ⟨_, _, same, sound', member⟩
  · cases failed.symm.trans made
  · cases same.symm.trans made
    exact ⟨sound', member⟩

/-- Only a path that does not fit into the buffer is fatal. -/
theorem newChild_short (sound : Sound [] s) (inside : parent ∈ s.tree.flatten)
    (short : parent.path.length + name.length + 2 < 256) : ∃ made, s.newChild parent class_ name handle = .ok made := by
  have addr := List.mem_map_of_mem (f := Object.addr) inside
  have outcome : s.newChild parent class_ name handle = .error .fatal ∨ _ := newChild_ok sound addr
  rcases outcome with failed | ⟨_, _, made, _⟩
  · rw [State.newChild, if_neg (Nat.not_le.mpr short)] at failed
    cases grown : s.tree.insertUnder (fun self => self.addr = parent.addr)
      (Object.mk s.next name (childPath parent.path name) (class_.getD anonymousClass) handle parent.serverObject) with
    | none => simp [grown] at failed
    | some tree => simp [grown] at failed
  · exact ⟨_, made⟩

/-- The final component of a path consumes the handle and the class. -/
def Consumed (class_ : Option Class) (handle : Option Addr) (object : Object) : Prop :=
  object.class_ = class_.getD anonymousClass ∧ object.handle = handle

theorem createFrom_made (sound : Sound [] s) (placed : Placed rootPath s)
    (inside : parent ∈ s.tree.flatten) (plain : ∀ name ∈ names, Server.Plain name)
    (made : s.createFrom parent class_ handle names = .ok (s', object)) :
    Sound [] s' ∧ Placed rootPath s' ∧ Grows s s' ∧ s'.lookupFrom parent names = some object ∧
      (s.lookupFrom parent names = none → Consumed class_ handle object) := by
  induction names generalizing s parent with
  | nil =>
    cases made
    exact ⟨sound, placed, .refl _, rfl, nofun⟩
  | cons name rest ih =>
    have plain_rest : ∀ name ∈ rest, Server.Plain name := fun other member =>
      plain other (List.mem_cons_of_mem _ member)
    simp only [State.createFrom] at made
    split at made
    · rename_i child found
      obtain ⟨sound', placed', grows, looked, consumed⟩ := ih sound placed (getChild_mem found) plain_rest made
      refine ⟨sound', placed', grows, ?_, ?_⟩
      · rw [State.lookupFrom, grows.child _ _ _ found]
        exact looked
      · rw [State.lookupFrom, found]
        exact consumed
    · rename_i absent
      have created : ∀ class' handle' s₁ child, s.newChild parent class' name handle' = .ok (s₁, child) →
          s₁.createFrom child class_ handle rest = .ok (s', object) →
          Sound [] s' ∧ Placed rootPath s' ∧ Grows s s' ∧ s'.lookupFrom parent (name :: rest) = some object ∧
            (rest ≠ [] → Consumed class_ handle object) := by
        intro class' handle' s₁ child new later
        obtain ⟨sound₁, member⟩ := newChild_sound sound inside new
        have placed₁ := placed.newChild sound inside (plain name List.mem_cons_self) new
        obtain ⟨found, childless⟩ := newChild_found sound absent new
        obtain ⟨sound', placed', grows, looked, consumed⟩ := ih sound₁ placed₁ member plain_rest later
        refine ⟨sound', placed', (newChild_grows sound new).trans grows, ?_, fun more => ?_⟩
        · rw [State.lookupFrom, grows.child _ _ _ found]
          exact looked
        · obtain ⟨next, rest, rfl⟩ := List.exists_cons_of_ne_nil more
          exact consumed (by rw [State.lookupFrom, childless])
      split at made
      · rename_i last
        obtain ⟨⟨s₁, child⟩, new, later⟩ := bind_ok.mp made
        obtain ⟨sound', placed', grows, looked, -⟩ := created _ _ _ _ new later
        refine ⟨sound', placed', grows, looked, fun _ => ?_⟩
        subst last
        cases later
        obtain ⟨rfl, -⟩ := newChild_made new
        exact ⟨rfl, rfl⟩
      · rename_i more
        obtain ⟨⟨s₁, child⟩, new, later⟩ := bind_ok.mp made
        obtain ⟨sound', placed', grows, looked, consumed⟩ := created _ _ _ _ new later
        exact ⟨sound', placed', grows, looked, fun _ => consumed more⟩

theorem createFrom_short (sound : Sound [] s) (placed : Placed rootPath s)
    (inside : parent ∈ s.tree.flatten) (plain : ∀ name ∈ names, Server.Plain name)
    (short : (parent.path ++ pathBelow names).length < 255) :
    ∃ made, s.createFrom parent class_ handle names = .ok made := by
  induction names generalizing s parent with
  | nil => exact ⟨_, rfl⟩
  | cons name rest ih =>
    have plain_rest : ∀ name ∈ rest, Server.Plain name := fun other member =>
      plain other (List.mem_cons_of_mem _ member)
    have below : ∀ child : Object, child.path = childPath parent.path name →
        (child.path ++ pathBelow rest).length < 255 := by
      intro child path
      rw [pathBelow_cons] at short
      simpa [path, childPath] using short
    simp only [State.createFrom]
    split
    · rename_i child found
      exact ih sound placed (getChild_mem found) plain_rest (below child (getChild_child sound placed inside found))
    · have created : ∀ class' handle', ∃ made, (do
            let made ← s.newChild parent class' name handle'
            made.1.createFrom made.2 class_ handle rest) = .ok made := by
        intro class' handle'
        have fits : parent.path.length + name.length + 2 < 256 := by
          rw [pathBelow_cons] at short
          simp only [List.length_append, List.length_cons] at short
          omega
        obtain ⟨⟨s₁, child⟩, new⟩ : ∃ made, s.newChild parent class' name handle' = .ok made :=
          newChild_short sound inside fits
        obtain ⟨sound₁, member⟩ := newChild_sound sound inside new
        rw [new]
        have path : child.path = childPath parent.path name := by
          rw [(newChild_made new).1]
        exact ih sound₁ (placed.newChild sound inside (plain name List.mem_cons_self) new) member
          plain_rest (below child path)
      split <;> exact created _ _

/-- What a path asks for below the path of the root object; nothing if that refuses it. -/
def requested (rootPath path : CString) : Option CString :=
  if path = [] then some []
  else if path.head? = some slash then
    if path = rootPath then some []
    else if childPath rootPath [] <+: path then some (path.drop rootPath.length)
    else none
  else some (slash :: path)

theorem requested_begins (asked : requested rootPath path = some rest) : rest = [] ∨ ∃ more, rest = slash :: more := by
  unfold requested at asked
  split at asked
  · exact .inl (Option.some.inj asked).symm
  · split at asked
    · split at asked
      · exact .inl (Option.some.inj asked).symm
      · split at asked
        · rename_i below
          obtain ⟨more, rfl⟩ := below
          refine .inr ⟨more, (Option.some.inj asked).symm.trans ?_⟩
          simp [childPath]
        · cases asked
    · exact .inr ⟨path, (Option.some.inj asked).symm⟩

theorem names_requested (root : Object) (path : CString) :
    State.names root path = (requested root.path path).map strtok := by
  unfold State.names requested
  cases path with
  | nil => rfl
  | cons c more =>
    by_cases absolute : c = slash
    · simp only [absolute, List.cons_ne_nil, List.head?_cons, if_true, if_false]
      split
      · rename_i same
        rw [← same]
        have empty : (relativePath (slash :: more) ((slash :: more) ++ [])).map strtok =
            some (strtok []) := relativePath_append (.inl rfl)
        simpa using empty
      · split
        · rename_i below
          obtain ⟨rest, whole⟩ := below
          have split : slash :: more = root.path ++ slash :: rest := by
            rw [← whole]
            simp [childPath]
          rw [split, relativePath_append (.inr ⟨rest, rfl⟩), List.drop_left]
          rfl
        · rename_i other apart
          have refused : ¬ (relativePath root.path (slash :: more)).isSome := by
            rw [relativePath_isSome]
            exact fun within => within.elim other apart
          rw [Option.not_isSome_iff_eq_none.mp refused]
    · simp [absolute, strtok_slash]

theorem plain_requested (named : State.names root path = some names) : ∀ name ∈ names, Server.Plain name := by
  rw [names_requested] at named
  obtain ⟨rest, -, rfl⟩ := Option.map_eq_some_iff.mp named
  exact plain_strtok rest

/-- A registered object is found by its path, which has the names that were asked for, and it is
not made again. -/
theorem registerObject_made (sound : Sound [] s) (placed : Placed rootPath s)
    (made : s.registerObject path class_ handle = .ok (s', some object)) :
    Placed rootPath s' ∧ object ∈ s'.objects ∧
      (∃ rest, requested rootPath path = some rest ∧ object.path = rootPath ++ pathBelow (strtok rest)) ∧
      s'.lookup path = some object ∧ s'.registerObject path class_ handle = .ok (s', some object) := by
  cases tree : s.tree with
  | nil => exact absurd tree sound.rooted
  | cons root children next =>
    have inside : root ∈ s.tree.flatten := by simp [tree, Forest.flatten]
    have rooted : root.path = rootPath ∧ next.siblings = [] := by
      simpa [tree, Forest.siblings] using placed.root
    simp only [State.registerObject, tree] at made
    split at made
    · cases made
    · rename_i way named
      obtain ⟨rest, asked, told⟩ := Option.map_eq_some_iff.mp (names_requested root path ▸ named)
      rw [rooted.1] at asked
      -- What has been found in the grown tree has the path and is found again.
      have again : ∀ s', Sound [] s' → Placed rootPath s' → Grows s s' → s'.lookupFrom root way = some object →
          ¬ ((handle.isSome ∧ object.handle ≠ handle) ∨ (class_.isSome ∧ some object.class_ ≠ class_)) →
          Placed rootPath s' ∧ object ∈ s'.objects ∧
          (∃ rest, requested rootPath path = some rest ∧ object.path = rootPath ++ pathBelow (strtok rest)) ∧
          s'.lookup path = some object ∧
          s'.registerObject path class_ handle = .ok (s', some object) := by
        intro s' sound' placed' grows looked agrees
        obtain ⟨place, member⟩ := lookupFrom_path sound' placed' (grows.subset inside) looked
        obtain ⟨children', next', tree'⟩ : ∃ children' next', s'.tree = .cons root children' next' := by
          have level := grows.level
          rw [tree] at level
          cases tree' : s'.tree with
          | nil => exact absurd tree' sound'.rooted
          | cons data children' next' =>
            rw [tree'] at level
            exact ⟨children', next', by rw [(List.cons.inj level).1]⟩
        refine ⟨placed', List.mem_append_left _ member, ⟨rest, asked, ?_⟩, ?_, ?_⟩
        · rw [place, rooted.1, told]
        · simp only [State.lookup, tree', named, Option.bind_some, looked]
        · simp only [State.registerObject, tree', named, looked, if_neg agrees]
      split at made
      · rename_i found looked
        split at made
        · cases made
        · rename_i agrees
          cases made
          exact again s sound placed (.refl s) looked agrees
      · rename_i absent
        cases created : s.createFrom root class_ handle way with
        | error fault => simp [created, Except.map] at made
        | ok pair =>
          rw [created] at made
          cases made
          obtain ⟨sound', placed', grows, looked, consumed⟩ :=
            createFrom_made sound placed inside (plain_requested named) created
          refine again _ sound' placed' grows looked ?_
          obtain ⟨kind, held⟩ := consumed absent
          rw [kind, held]
          cases class_ <;> simp

theorem registerObject_none (made : s.registerObject path class_ handle = .ok (s', none)) : s' = s := by
  unfold State.registerObject at made
  split at made
  · cases made
  · split at made
    · cases made
      rfl
    · split at made
      · split at made
        · cases made
          rfl
        · cases made
      · unfold Except.map at made
        split at made <;> cases made

/-- Registering a path fails when the path is too long, or when an object is there that is not
the one to register. -/
theorem registerObject_exists (sound : Sound [] s) (placed : Placed rootPath s)
    (asked : requested rootPath path = some rest)
    (short : strtok rest = [] ∨ (rootPath ++ pathBelow (strtok rest)).length < 255) :
    ∃ s' object, s.registerObject path none none = .ok (s', some object) := by
  cases tree : s.tree with
  | nil => exact absurd tree sound.rooted
  | cons root children next =>
    have inside : root ∈ s.tree.flatten := by simp [tree, Forest.flatten]
    have rooted : root.path = rootPath ∧ next.siblings = [] := by
      simpa [tree, Forest.siblings] using placed.root
    have named : State.names root path = some (strtok rest) := by
      rw [names_requested, rooted.1, asked]
      rfl
    simp only [State.registerObject, tree, named]
    split
    · exact ⟨s, _, if_neg (by simp)⟩
    · rename_i absent
      rcases short with empty | short
      · rw [empty] at absent
        cases absent
      · have made : ∃ made, s.createFrom root none none (strtok rest) = .ok made :=
          createFrom_short sound placed inside (plain_strtok rest) (rooted.1 ▸ short)
        obtain ⟨⟨s', object⟩, created⟩ := made
        exact ⟨s', object, by rw [created]; rfl⟩

/-- The path that a path, absolute or relative, means. -/
def absolutePath (rootPath path : CString) : CString :=
  if path = [] then rootPath
  else if path.head? = some slash then path
  else if rootPath.getLast? = some slash then rootPath ++ path
  else childPath rootPath path

/-- The path is that of the ancestor, or goes on with a slash, which the ancestor may end with. -/
def AtOrBelow (ancestor path : CString) : Prop :=
  path = ancestor ∨ if ancestor.getLast? = some slash then ancestor <+: path
    else childPath ancestor [] <+: path

instance (ancestor path : CString) : Decidable (AtOrBelow ancestor path) :=
  inferInstanceAs (Decidable (path = ancestor ∨ if ancestor.getLast? = some slash
    then ancestor <+: path else childPath ancestor [] <+: path))

/-- Objects can be made by the path, which leads to them then, each has the path of its parent and
its name, and the path is relative to those it lies below. -/
structure Faithful (rootPath : CString) (s : State) (path : CString) : Prop where
  created : ∀ class_ handle s' object,
    s.registerObject path class_ handle = .ok (s', some object) →
    object.path = absolutePath rootPath path ∧ s'.lookup path = some object ∧
      s'.registerObject path class_ handle = .ok (s', some object)
  children : s.tree.Links Child ∧ s.trashcan.Links Child
  relative : ∀ object ∈ s.objects,
    (relativePath object.path path).isSome ↔ AtOrBelow object.path path

/-- A name follows the slash that ends the path of the root object. -/
def Glued (rootPath path : CString) : Prop :=
  rootPath.getLast? = some slash ∧ rootPath <+: path ∧ path ≠ rootPath ∧
    ¬ childPath rootPath [] <+: path

/-- What is asked for below the root object is told by its names, after the path of the root
object, or it is too long to be made. -/
def Regular (rootPath path : CString) : Prop :=
  ∀ rest, requested rootPath path = some rest →
    (Clean rest ∧ rootPath ++ rest = absolutePath rootPath path) ∨
      strtok rest ≠ [] ∧ 255 ≤ (rootPath ++ pathBelow (strtok rest)).length

instance (rootPath path : CString) : Decidable (Glued rootPath path) :=
  inferInstanceAs (Decidable (_ ∧ _))

instance (rootPath path : CString) : Decidable (Regular rootPath path) :=
  inferInstanceAs (Decidable (∀ rest ∈ requested rootPath path, _))

theorem relative_iff (ends : object.path = rootPath ∨ object.path.getLast? ≠ some slash)
    (apart : ¬ Glued rootPath path) : (relativePath object.path path).isSome ↔ AtOrBelow object.path path := by
  rw [relativePath_isSome, AtOrBelow]
  split
  · rename_i slashed
    obtain rfl := ends.resolve_right (· slashed)
    constructor
    · rintro (same | ⟨more, rfl⟩)
      · exact .inl same
      · exact .inr ⟨slash :: more, by simp [childPath]⟩
    · rintro (same | below)
      · exact .inl same
      · by_cases same : path = object.path
        · exact .inl same
        · exact .inr (not_not.mp fun outside => apart ⟨slashed, below, same, outside⟩)
  · rfl

theorem not_glued (glued : Glued rootPath path) (path_eq : object.path = rootPath) :
    ¬ ((relativePath object.path path).isSome ↔ AtOrBelow object.path path) := by
  obtain ⟨slashed, below, other, apart⟩ := glued
  subst path_eq
  rw [relativePath_isSome, AtOrBelow, if_pos slashed]
  exact fun same => (same.mpr (.inr below)).elim other apart

/-- The names tell a path that is asked for exactly if it is clean and follows that of the root. -/
theorem told_iff (asked : requested rootPath path = some rest) :
    rootPath ++ pathBelow (strtok rest) = absolutePath rootPath path ↔
      Clean rest ∧ rootPath ++ rest = absolutePath rootPath path := by
  have begins := requested_begins asked
  constructor
  · intro told
    have same : rootPath ++ rest = absolutePath rootPath path := by
      unfold requested at asked
      unfold absolutePath at told ⊢
      split at asked
      · rename_i empty
        cases asked
        rw [List.append_nil, if_pos empty]
      · rename_i full
        rw [if_neg full] at told ⊢
        split at asked
        · rename_i absolute
          rw [if_pos absolute] at told ⊢
          split at asked
          · rename_i here
            cases asked
            rw [List.append_nil, here]
          · split at asked
            · rename_i below
              obtain ⟨more, rfl⟩ := below
              cases asked
              simp [childPath]
            · cases asked
        · rename_i relative
          cases asked
          rw [if_neg relative] at told ⊢
          split at told
          · -- The names are told with a slash before the first of them.
            have whole : pathBelow (strtok path) = path := strtok_slash path ▸ List.append_cancel_left told
            rcases pathBelow_begins (strtok path) with empty | ⟨more, front⟩
            · exact absurd (whole.symm.trans empty) full
            · exact absurd (by rw [← whole, front]; rfl) relative
          · rw [if_neg ‹_›]
            rfl
    rw [← same] at told
    exact ⟨(pathBelow_strtok_iff begins).mp (List.append_cancel_left told), same⟩
  · rintro ⟨clean, same⟩
    rw [(pathBelow_strtok_iff begins).mpr clean, same]

theorem Placed.faithful (sound : Sound [] s) (placed : Placed rootPath s) (path : CString) :
    Faithful rootPath s path ↔ ¬ Glued rootPath path ∧ Regular rootPath path := by
  constructor
  · intro faithful
    refine ⟨fun glued => ?_, fun rest asked => ?_⟩
    · cases tree : s.tree with
      | nil => exact sound.rooted tree
      | cons root children next =>
        have rooted : root.path = rootPath ∧ next.siblings = [] := by
          simpa [tree, Forest.siblings] using placed.root
        exact not_glued glued rooted.1 (faithful.relative root (by simp [State.objects, tree, Forest.flatten]))
    · rw [← told_iff asked]
      by_cases long : strtok rest ≠ [] ∧ 255 ≤ (rootPath ++ pathBelow (strtok rest)).length
      · exact .inr long
      · left
        have short : strtok rest = [] ∨ (rootPath ++ pathBelow (strtok rest)).length < 255 := by
          rwa [not_and_or, not_not, not_le] at long
        obtain ⟨s', object, made⟩ := registerObject_exists sound placed asked short
        obtain ⟨-, -, ⟨rest', asked', told⟩, -⟩ := registerObject_made sound placed made
        cases asked.symm.trans asked'
        exact told.symm.trans (faithful.created none none s' object made).1
  · rintro ⟨apart, regular⟩
    refine ⟨fun class_ handle s' object made => ?_, ⟨placed.tree, placed.trashcan⟩, fun object member => ?_⟩
    · obtain ⟨placed', member, ⟨rest, asked, told⟩, found, again⟩ := registerObject_made sound placed made
      refine ⟨?_, found, again⟩
      rcases regular rest asked with clean | ⟨full, long⟩
      · exact told.trans ((told_iff asked).mpr clean)
      · rcases placed'.within object member with same | ⟨-, short⟩
        · rw [told] at same
          have empty := List.append_right_eq_self.mp same
          obtain ⟨name, more, front⟩ := List.exists_cons_of_ne_nil full
          rw [front, pathBelow_cons] at empty
          cases empty
        · rw [told] at short
          omega
    · exact relative_iff ((placed.within object member).imp_right And.left) apart

theorem Placed.step (sound : Sound [] s) (placed : Placed rootPath s)
    (moved : step s input = .ok s') : Placed rootPath s' := by
  cases input with
  | registerObject path class_ handle =>
    cases made : s.registerObject path class_ handle with
    | error fault => simp [Objects.step, made, Except.map] at moved
    | ok pair =>
      obtain ⟨s₁, found⟩ := pair
      simp only [Objects.step, made, Except.map, Except.ok.injEq] at moved
      subst moved
      cases found with
      | some object => exact (registerObject_made sound placed made).1
      | none => rwa [registerObject_none made]
  | unregisterObject object => exact placed.unregisterObject moved
  | message path complete =>
    simp only [Objects.step] at moved
    split at moved
    · cases moved
    · obtain ⟨s₁, collected, rest⟩ := bind_ok.mp moved
      split at rest
      · cases rest
      · cases rest
        exact placed.garbageCollect collected
  | mainLoop => exact placed.garbageCollect moved

/-- In every state that a server reaches, a path makes objects of just this path and is relative
to the objects above it, unless a name follows the slash that ends the path of the root object, or
the path is not told by its names and not too long. -/
theorem run_faithful_iff (handle : Option Addr) (inputs : List Input)
    (ran : Machine.run step (.open_ rootPath handle) inputs = .ok s) (path : CString) :
    Faithful rootPath s path ↔ ¬ Glued rootPath path ∧ Regular rootPath path := by
  have ⟨sound, placed⟩ : Sound [] s ∧ Placed rootPath s :=
    Machine.invariant_run (fun s => Sound [] s ∧ Placed rootPath s)
      (fun _ _ _ ⟨sound, placed⟩ _ moved => ⟨sound.step moved, placed.step sound moved⟩)
      ⟨.open_ rootPath handle, .open_ rootPath handle⟩ (Machine.along_true _ _) ran
  exact placed.faithful sound path

/-- A process of a host can be made before the host. -/
theorem process_faithful : ∃ s, Machine.run step (.open_ Server.rootPath none)
    [.registerObject processPath none (some 8)] = .ok s ∧ Faithful Server.rootPath s hostPath :=
  have ran : Machine.run step (.open_ Server.rootPath none)
      [.registerObject processPath none (some 8)] = .ok _ := rfl
  ⟨_, ran, (run_faithful_iff none _ ran hostPath).mpr (by decide +kernel)⟩

/-- Below a root object without a path of its own, an object is not made by its path, and the path
is not taken for one below the root. -/
theorem slash_not_faithful :
    ¬ ∀ (rootPath : CString) (handle : Option Addr) (inputs : List Input) (s : State),
      Machine.run step (.open_ rootPath handle) inputs = .ok s →
        ∀ path, Faithful rootPath s path := by
  intro all
  have faithful := all [slash] none [] _ rfl (slash :: ascii ['H', 'o', 's', 't'])
  have relative := faithful.relative ⟨0, [], [slash], rootObjectClass, none, true⟩ (by decide)
  revert relative
  decide

end Testbus.Dbus.Objects
