import Testbus.Server.Answering

namespace Testbus.Server

open Lib

/-- The last number that an array gives. -/
def lastId : UInt32 := 0xffffffff

/-- The request gets a container made whose path does not fit into the buffer, or after the
parent has given all its numbers. -/
def Exhausts (w : World) (request : Request) : Prop :=
  Accepted w request ∧ ∃ p k parentPath above, request.target w = some (p, k, parentPath) ∧
    w.heap.cells p = some above ∧
    (255 ≤ (childPath parentPath (k.objectName (above.children k).nextId)).length ∨
      childPath parentPath (k.objectName lastId) ∈ w.made)

/-- Objects stand for one container each, lie below those of the parents, and no path is given
twice. -/
structure Placed (w : World) : Prop where
  distinct : ∀ c d self other path, w.heap.cells c = some self → w.heap.cells d = some other →
    self.dbusObjectPath = some path → other.dbusObjectPath = some path → c = d
  nested : ∀ c self path p, w.heap.cells c = some self → self.dbusObjectPath = some path →
    self.parent = some p → ∃ q, path = childPath q (self.kind.objectName self.id) ∧
      (p = globalContext ∧ (q = globalContextPath ∨ q = hostlistPath) ∨
        ∃ above, w.heap.cells p = some above ∧ above.dbusObjectPath = some q)
  given : ∀ c self path, w.heap.cells c = some self → self.dbusObjectPath = some path →
    path ∈ w.made
  once : w.made.Nodup

theorem childPath_inj (plain : Plain name) (plain' : Plain name')
    (same : childPath q name = childPath q' name') : q = q' ∧ name = name' := by
  rcases List.append_eq_append_iff.mp same with ⟨rest, rfl, tail⟩ | ⟨rest, rfl, tail⟩
  · cases rest with
    | nil =>
      rw [List.nil_append] at tail
      exact ⟨(List.append_nil q).symm, (List.cons.inj tail).2⟩
    | cons c rest =>
      obtain ⟨_, inside⟩ := List.cons.inj tail
      exact absurd (inside ▸ (by simp : slash ∈ rest ++ slash :: name')) plain.2
  · cases rest with
    | nil =>
      rw [List.nil_append] at tail
      exact ⟨List.append_nil q', ((List.cons.inj tail).2).symm⟩
    | cons c rest =>
      obtain ⟨_, inside⟩ := List.cons.inj tail
      exact absurd (inside ▸ (by simp : slash ∈ rest ++ slash :: name)) plain'.2

/-- Below which object a container numbers its children of a kind. -/
def Numbers (p : Addr) (above : Container) (k : Kind) (q : CString) : Prop :=
  k ≠ .globalContext ∧
    (p = globalContext ∧ (k = .host ∧ q = hostlistPath ∨ k ≠ .host ∧ q = globalContextPath) ∨
      p ≠ globalContext ∧ above.dbusObjectPath = some q)

/-- The paths that were given, and the numbers that come next. -/
structure Numbered (w : World) : Prop where
  once : w.made.Nodup
  deep : ∀ path ∈ w.made, ∃ names, (∀ name ∈ names, Plain name) ∧ path = pathOf names ∧
    2 ≤ names.length
  above : ∀ names name, (∀ other ∈ names ++ [name], Plain other) →
    pathOf (names ++ [name]) ∈ w.made → 2 ≤ names.length → pathOf names ∈ w.made
  recorded : ∀ object ∈ w.objects,
    object.path ∈ w.made ∨ object.path ∈ [rootPath, hostlistPath, globalContextPath]
  spelled : ∀ c self path, w.heap.cells c = some self → self.dbusObjectPath = some path →
    path ∈ w.made ∧ ∃ q, path = childPath q (self.kind.objectName self.id)
  issued : ∀ p above k q, w.heap.cells p = some above → Numbers p above k q →
    childPath q (k.objectName lastId) ∉ w.made →
    ∀ id, childPath q (k.objectName id) ∈ w.made → id < (above.children k).nextId

section Steps

variable {request : Request} {above : Container}

theorem static_names : ∀ path ∈ [rootPath, hostlistPath, globalContextPath], ∃ names,
    (∀ name ∈ names, Plain name) ∧ path = pathOf names ∧ names.length < 2 := by
  have all : ∀ path ∈ [rootPath, hostlistPath, globalContextPath], ∃ names ∈ [[], [ascii ['H', 'o', 's', 't']],
      [ascii ['G', 'l', 'o', 'b', 'a', 'l', 'C', 'o', 'n', 't', 'e', 'x', 't']]],
      (∀ name ∈ names, Plain name) ∧ path = pathOf names ∧ names.length < 2 := by decide
  intro path member
  obtain ⟨names, _, rest⟩ := all path member
  exact ⟨names, rest⟩

/-- What the master starts with is no path of a container. -/
theorem Numbered.not_static (numbered : Numbered w) (made : path ∈ w.made) :
    path ∉ [rootPath, hostlistPath, globalContextPath] := by
  intro static
  obtain ⟨names, plain, rfl, deep⟩ := numbered.deep path made
  obtain ⟨names', plain', same, flat⟩ := static_names _ static
  obtain rfl := pathOf_inj plain plain' same
  omega

theorem Numbered.alike (numbered : Numbered w) (alike : w.Alike w') : Numbered w' where
  once := alike.made ▸ numbered.once
  deep := alike.made ▸ numbered.deep
  above := alike.made ▸ numbered.above
  recorded := by
    rw [alike.objects, alike.made]
    exact numbered.recorded
  spelled c self path found has := by
    obtain ⟨old, found', same⟩ := alike.back found
    rw [alike.made, same.kind, same.id]
    exact numbered.spelled c old path found' (same.path.symm.trans has)
  issued p above k q found numbers := by
    obtain ⟨old, found', same⟩ := alike.back found
    rw [alike.made, same.children]
    exact numbered.issued p old k q found' ⟨numbers.1, numbers.2.imp_right fun named =>
      ⟨named.1, same.path.symm.trans named.2⟩⟩

theorem Numbered.shrink (numbered : Numbered w) (shrink : w.Shrink ∅ loose given w')
    (gone : ∀ c ∈ loose, c ≠ globalContext ∧
      ∀ self, w'.heap.cells c = some self → self.dbusObjectPath = none) : Numbered w' where
  once := shrink.made ▸ numbered.once
  deep := shrink.made ▸ numbered.deep
  above := shrink.made ▸ numbered.above
  recorded object member := by
    rw [shrink.made]
    exact numbered.recorded object (shrink.objects.subset member)
  spelled c self path found has := by
    obtain ⟨old, found', kept⟩ := shrink.kept found
    rw [shrink.made, kept.less.kind, kept.less.id]
    exact numbered.spelled c old path found' (kept.less.path has)
  issued p above k q found numbers := by
    obtain ⟨old, found', kept⟩ := shrink.kept found
    have outside : p ∉ loose := by
      intro inside
      obtain ⟨apart, nameless⟩ := gone p inside
      rcases numbers.2 with top | ⟨_, named⟩
      · exact apart top.1
      · rw [nameless above found] at named
        cases named
    have known : above.dbusObjectPath ≠ none ∨ p = globalContext := by
      rcases numbers.2 with top | ⟨_, named⟩
      · exact Or.inr top.1
      · exact Or.inl (by simp [named])
    rw [shrink.made, kept.nextId outside known k]
    exact numbered.issued p old k q found' ⟨numbers.1, numbers.2.imp_right fun named =>
      ⟨named.1, kept.less.path named.2⟩⟩

/-- A new container is made where its parent numbers the like. -/
theorem target_numbers (steady : Steady w)
    (target : request.target w = some (p, k, parentPath)) (found : w.heap.cells p = some above) :
    Numbers p above k parentPath := by
  have unwrapped : ∀ {objectPath}, containerUnwrap w.objects objectPath = some p →
      p = globalContext ∧ objectPath = globalContextPath ∨
        p ≠ globalContext ∧ above.dbusObjectPath = some objectPath := by
    intro objectPath unwrapped
    obtain ⟨object, looked, handle⟩ := Option.bind_eq_some_iff.mp unwrapped
    have path : object.path = objectPath := by simpa using List.find?_some looked
    rcases steady.settled.registered.handle object (List.mem_of_find?_eq_some looked) p handle with
      ⟨top, static⟩ | ⟨other, self, there, named⟩
    · exact Or.inl ⟨top, path.symm.trans static⟩
    · obtain rfl := Option.some.inj (found.symm.trans there)
      exact Or.inr ⟨other, path ▸ named⟩
  have below : ∀ {objectPath}, containerUnwrap w.objects objectPath = some p →
      ∀ {kind : Kind}, kind ≠ .host → kind ≠ .globalContext → Numbers p above kind objectPath := by
    intro objectPath here kind noHost notRoot
    exact ⟨notRoot, (unwrapped here).imp_left fun top => ⟨top.1, Or.inr ⟨noHost, top.2⟩⟩⟩
  cases request with
  | createHost name sender uuid | reconnect name uuid generated sender =>
    cases target
    exact ⟨by decide, Or.inl ⟨rfl, Or.inl ⟨rfl, rfl⟩⟩⟩
  | createTest objectPath name | createCommand objectPath | run objectPath commandPath =>
    obtain ⟨q, here, same⟩ := Option.map_eq_some_iff.mp target
    cases same
    exact below here (by decide) (by decide)
  | _ => cases target

theorem created_back (steady : Steady w)
    (fresh : Fresh (w.take new.command) p above new) (inserted : ((w.take new.command).insert p above new).Alike w₁)
    (alike : (w₁.wrap w.next path).Alike w') (found : w'.heap.cells x = some self) :
    x = w.next ∧ self.kind = new.kind ∧ self.id = new.id ∧ self.dbusObjectPath = some path ∧
        (∀ l, (self.children l).nextId = 0) ∨
      x ≠ w.next ∧ ∃ old, w.heap.cells x = some old ∧ self.kind = old.kind ∧ self.id = old.id ∧
        self.dbusObjectPath = old.dbusObjectPath ∧ ∀ l, (self.children l).nextId =
          if x = p ∧ l = new.kind then (old.children l).nextId + 1 else (old.children l).nextId := by
  obtain ⟨top, foundP, _⟩ := take_back fresh.found
  have apart : p ≠ (w.take new.command).next := by
    rw [next_take]
    exact Nat.ne_of_lt (steady.settled.wf.bound (kind_graph foundP))
  obtain ⟨last, foundL, same⟩ := alike.back found
  by_cases here : x = w.next
  · subst here
    rw [World.wrap, World.cells_modify_heap, Store.modify_self] at foundL
    obtain ⟨made, foundM, rfl⟩ := Option.map_eq_some_iff.mp foundL
    obtain ⟨old, foundI, same'⟩ := inserted.back (show w₁.heap.cells w.next = some made from foundM)
    have there : ((w.take new.command).insert p above new).heap.cells
        (w.take new.command).next = some new := insert_self apart
    rw [next_take, foundI] at there
    obtain rfl := Option.some.inj there
    refine Or.inl ⟨rfl, same.kind.trans same'.kind, same.id.trans same'.id, same.path, fun l => ?_⟩
    rw [same.children]
    change (made.children l).nextId = 0
    rw [same'.children, fresh.children]
  · have foundM : w₁.heap.cells x = some last := by
      rw [World.wrap, World.cells_modify_heap, Store.modify_of_ne here] at foundL
      exact foundL
    obtain ⟨middle, foundI, same'⟩ := inserted.back foundM
    have other : x ≠ (w.take new.command).next := next_take w new.command ▸ here
    refine Or.inr ⟨here, ?_⟩
    by_cases under : x = p
    · subst under
      rw [insert_parent fresh.found apart] at foundI
      obtain rfl := Option.some.inj foundI
      obtain ⟨old, foundO, equal⟩ := take_back fresh.found
      refine ⟨old, foundO, ?_, ?_, ?_, fun l => ?_⟩
      · exact (same.kind.trans same'.kind).trans (congrArg Container.kind equal :)
      · exact (same.id.trans same'.id).trans (congrArg Container.id equal :)
      · exact (same.path.trans same'.path).trans (congrArg Container.dbusObjectPath equal :)
      · have children : above.children = old.children := (congrArg Container.children equal :)
        rw [same.children, same'.children, ← children]
        by_cases kind : l = new.kind
        · subst kind
          simp [Container.setChildren]
        · simp [Container.setChildren, kind]
    · rw [insert_other other under] at foundI
      obtain ⟨old, foundO, equal⟩ := take_back foundI
      refine ⟨old, foundO, ?_, ?_, ?_, fun l => ?_⟩
      · exact (same.kind.trans same'.kind).trans (congrArg Container.kind equal :)
      · exact (same.id.trans same'.id).trans (congrArg Container.id equal :)
      · exact (same.path.trans same'.path).trans (congrArg Container.dbusObjectPath equal :)
      · have children : middle.children = old.children := (congrArg Container.children equal :)
        rw [same.children, same'.children, if_neg fun both => under both.1, children]

/-- Two containers with objects of one path are the same. -/
theorem Settled.path_inj (settled : Settled w) (found : w.heap.cells c = some self) (found' : w.heap.cells d = some other)
    (has : self.dbusObjectPath = some path) (has' : other.dbusObjectPath = some path) : c = d := by
  have here := settled.registered.named c self path found has
  have there := settled.registered.named d other path found' has'
  have same := List.inj_on_of_nodup_map settled.registered.tree.nodup here there rfl
  cases same
  rfl

theorem Numbered.numbers_inj (numbered : Numbered w) (settled : Settled w) (found : w.heap.cells p = some above) (found' : w.heap.cells q = some beside)
    (numbers : Numbers p above k parentPath) (numbers' : Numbers q beside k parentPath) : p = q := by
  have static : ∀ {x : Addr} {self : Container}, w.heap.cells x = some self → self.dbusObjectPath = some parentPath →
      (k = .host ∧ parentPath = hostlistPath ∨ k ≠ .host ∧ parentPath = globalContextPath) →
      False := by
    intro x self there named top
    refine numbered.not_static (numbered.spelled x self parentPath there named).1 ?_
    rcases top with ⟨_, rfl⟩ | ⟨_, rfl⟩ <;> simp
  rcases numbers.2 with ⟨top, place⟩ | ⟨_, named⟩ <;>
    rcases numbers'.2 with ⟨top', place'⟩ | ⟨_, named'⟩
  · exact top.trans top'.symm
  · exact (static found' named' place).elim
  · exact (static found named place').elim
  · exact settled.path_inj found found' named named'

theorem numbers_path (numbers : Numbers p above k q) (numbers' : Numbers p above k q') : q = q' := by
  rcases numbers.2 with ⟨top, ⟨host, rfl⟩ | ⟨noHost, rfl⟩⟩ | ⟨other, named⟩ <;>
    rcases numbers'.2 with ⟨top', ⟨host', rfl⟩ | ⟨noHost', rfl⟩⟩ | ⟨other', named'⟩
  · rfl
  · exact absurd host noHost'
  · exact absurd top other'
  · exact absurd host' noHost
  · rfl
  · exact absurd top other'
  · exact absurd top' other
  · exact absurd top' other
  · exact Option.some.inj (named.symm.trans named')

theorem lt_next (more : n ≠ lastId) : n < n + 1 := by
  have bound := UInt32.toNat_lt n
  have apart : n.toNat ≠ 4294967295 := fun same => more (UInt32.toNat_inj.mp same)
  rw [UInt32.lt_iff_toNat_lt, UInt32.toNat_add]
  change n.toNat < (n.toNat + 1) % 4294967296
  omega

/-- Where children are numbered, as names below the root. -/
theorem Numbered.parent_names (numbered : Numbered w) (found : w.heap.cells p = some above)
    (numbers : Numbers p above k parentPath) : ∃ names, (∀ name ∈ names, Plain name) ∧
      parentPath = pathOf names ∧ 1 ≤ names.length ∧ (2 ≤ names.length → parentPath ∈ w.made) := by
  have single : ∀ name, Plain name → parentPath = pathOf [name] → ∃ names,
      (∀ name ∈ names, Plain name) ∧ parentPath = pathOf names ∧ 1 ≤ names.length ∧
        (2 ≤ names.length → parentPath ∈ w.made) := by
    intro name plain same
    refine ⟨[name], by simpa using plain, same, Nat.le_refl 1, fun two => ?_⟩
    exact absurd two (by simp)
  rcases numbers.2 with ⟨_, ⟨_, rfl⟩ | ⟨_, rfl⟩⟩ | ⟨_, named⟩
  · exact single (ascii ['H', 'o', 's', 't']) (by decide) (by decide)
  · exact single (ascii ['G', 'l', 'o', 'b', 'a', 'l', 'C', 'o', 'n', 't', 'e', 'x', 't']) (by decide) (by decide)
  · have made := (numbered.spelled p above parentPath found named).1
    obtain ⟨names, plain, same, deep⟩ := numbered.deep parentPath made
    exact ⟨names, plain, same, by omega, fun _ => made⟩

theorem Numbered.created {w₁ : World} {new self : Container} {path : CString}
    (numbered : Numbered w) (steady : Steady w) (guarded : ¬ Exhausts w request)
    (accepted : Accepted w request) (target : request.target w = some (p, new.kind, parentPath))
    (fresh : Fresh (w.take new.command) p above new) (inserted : ((w.take new.command).insert p above new).Alike w₁)
    (wrapped : Wrapped w₁ w.next self parentPath path) (alike : (w₁.wrap w.next path).Alike w') : Numbered w' := by
  obtain ⟨top, foundP, same⟩ := take_back fresh.found
  have apart : p ≠ (w.take new.command).next := by
    rw [next_take]
    exact Nat.ne_of_lt (steady.settled.wf.bound (kind_graph foundP))
  have numbers := target_numbers steady target foundP
  have room : childPath parentPath (new.kind.objectName lastId) ∉ w.made := fun last =>
    guarded ⟨accepted, p, new.kind, parentPath, top, target, foundP, Or.inr last⟩
  have id : new.id = (top.children new.kind).nextId := by
    rw [fresh.id, same]
  have whole : path = childPath parentPath (new.kind.objectName new.id) := by
    have there : ((w.take new.command).insert p above new).heap.cells
        (w.take new.command).next = some new := insert_self apart
    rw [next_take] at there
    obtain ⟨made, foundM, like⟩ := inserted.forth there
    obtain rfl := Option.some.inj (foundM.symm.trans wrapped.found)
    rw [← wrapped.whole, like.kind, like.id]
  have unused : path ∉ w.made := by
    intro made
    rw [whole, id] at made
    exact absurd (numbered.issued p top new.kind parentPath foundP numbers room _ made) (UInt32.lt_irrefl _)
  have made : w'.made = w.made ++ [path] := by
    have before : w₁.made = w.made := inserted.made.trans (by cases new.command <;> rfl)
    rw [alike.made, ← before]
    rfl
  have objects : w'.objects = w.objects ++ [⟨path, some w.next⟩] := by
    have before : w₁.objects = w.objects := inserted.objects.trans (objects_take w new.command)
    rw [alike.objects, ← before]
    rfl
  obtain ⟨names, plain, base, some_, known⟩ := numbered.parent_names foundP numbers
  have plainName := objectName_plain new.kind new.id
  have plainAll : ∀ name ∈ names ++ [new.kind.objectName new.id], Plain name := by
    intro name member
    rcases List.mem_append.mp member with old | last
    · exact plain name old
    · exact List.mem_singleton.mp last ▸ plainName
  have spelled : path = pathOf (names ++ [new.kind.objectName new.id]) := by
    rw [whole, base, childPath_pathOf]
  constructor
  · rw [made]
    refine List.nodup_append.mpr ⟨numbered.once, List.nodup_singleton path, ?_⟩
    rintro x member y last rfl
    exact unused (List.mem_singleton.mp last ▸ member)
  · intro other member
    rw [made] at member
    rcases List.mem_append.mp member with old | last
    · exact numbered.deep other old
    · obtain rfl := List.mem_singleton.mp last
      refine ⟨_, plainAll, spelled, ?_⟩
      rw [List.length_append, List.length_singleton]
      omega
  · intro front name plain' member deep
    rw [made] at member ⊢
    refine List.mem_append_left _ ?_
    rcases List.mem_append.mp member with old | last
    · exact numbered.above front name plain' old deep
    · have equal := pathOf_inj plain' plainAll ((List.mem_singleton.mp last).trans spelled)
      obtain ⟨rfl, _⟩ := List.append_inj' equal rfl
      exact base ▸ known deep
  · intro object member
    rw [objects] at member
    rw [made]
    rcases List.mem_append.mp member with old | last
    · exact (numbered.recorded object old).imp_left (List.mem_append_left _)
    · obtain rfl := List.mem_singleton.mp last
      exact Or.inl (by simp)
  · intro c cell q found has
    rw [made]
    rcases created_back steady fresh inserted alike found with
      ⟨rfl, kind, idC, pathC, _⟩ | ⟨_, old, found', kind, idC, pathC, _⟩
    · obtain rfl := Option.some.inj (pathC.symm.trans has)
      exact ⟨by simp, parentPath, by rw [kind, idC]; exact whole⟩
    · rw [kind, idC]
      exact (numbered.spelled c old q found' (pathC.symm.trans has)).imp_left (List.mem_append_left _)
  · intro c cell k q found numbersC unspent id' member
    rw [made] at unspent member
    have unspent' := fun last => unspent (List.mem_append_left _ last)
    rcases created_back steady fresh inserted alike found with
      ⟨rfl, _, _, pathC, _⟩ | ⟨_, old, found', _, _, pathC, nextId⟩
    · -- Nothing was made below the new path.
      rcases numbersC.2 with ⟨root, _⟩ | ⟨_, named⟩
      · exact absurd root wrapped.apart
      · obtain rfl := Option.some.inj (pathC.symm.trans named)
        rcases List.mem_append.mp member with below | here
        · rw [spelled, childPath_pathOf] at below
          refine absurd (numbered.above _ _ ?_ below (by
            rw [List.length_append, List.length_singleton]
            omega)) (spelled ▸ unused)
          intro name inside
          rcases List.mem_append.mp inside with old | last
          · exact plainAll name old
          · exact List.mem_singleton.mp last ▸ objectName_plain k id'
        · have lengths := congrArg List.length (List.mem_singleton.mp here)
          simp [childPath] at lengths
    · have numbersO : Numbers c old k q := ⟨numbersC.1, numbersC.2.imp_right fun named =>
        ⟨named.1, pathC.symm.trans named.2⟩⟩
      have before := numbered.issued c old k q found' numbersO unspent'
      -- The number that was just given is not the last one.
      have more : c = p ∧ k = new.kind → (old.children k).nextId < (old.children k).nextId + 1 := by
        rintro ⟨rfl, rfl⟩
        obtain rfl := Option.some.inj (found'.symm.trans foundP)
        refine lt_next fun last => unspent (List.mem_append_right _ ?_)
        rw [numbers_path numbersO numbers, whole, id, last]
        exact List.mem_singleton_self _
      rw [nextId]
      rcases List.mem_append.mp member with given | here
      · split
        · rename_i both
          exact UInt32.lt_trans (before id' given) (more both)
        · exact before id' given
      · obtain ⟨rfl, equal⟩ := childPath_inj (objectName_plain k id') plainName ((List.mem_singleton.mp here).trans whole)
        obtain ⟨rfl, rfl⟩ := objectName_inj numbersC.1 numbers.1 equal
        obtain rfl := numbered.numbers_inj steady.settled found' foundP numbersO numbers
        obtain rfl := Option.some.inj (found'.symm.trans foundP)
        rw [if_pos ⟨rfl, rfl⟩, id]
        exact more ⟨rfl, rfl⟩

theorem Numbered.served (numbered : Numbered w) (steady : Steady w)
    (guarded : ¬ Exhausts w request) (served : Served w request w') : Numbered w' := by
  cases served with
  | alike alike => exact numbered.alike alike
  | created accepted target fresh inserted wrapped place alike =>
    exact numbered.created steady guarded accepted target fresh inserted wrapped alike
  | @claimed objectPath role hostPath h p host above claims there apart settled =>
    have cell : ∀ {c new}, (w.claim h p role above).heap.cells c = some new → ∃ old,
        w.heap.cells c = some old ∧ new.kind = old.kind ∧ new.id = old.id ∧
        new.dbusObjectPath = old.dbusObjectPath ∧
        ∀ l, (new.children l).nextId = (old.children l).nextId := by
      intro c new found
      by_cases here : c = h
      · subst here
        obtain rfl := Option.some.inj (found.symm.trans (claim_host apart claims.found))
        exact ⟨host, claims.found, rfl, rfl, rfl, fun _ => rfl⟩
      · by_cases under : c = p
        · subst under
          obtain rfl := Option.some.inj (found.symm.trans (claim_above apart there))
          refine ⟨above, there, rfl, rfl, rfl, fun l => ?_⟩
          by_cases host : l = .host
          · subst host
            simp [Container.setData, Container.setChildren]
          · simp [Container.setData, Container.setChildren, host]
        · rw [claim_other here under] at found
          exact ⟨new, found, rfl, rfl, rfl, fun _ => rfl⟩
    refine ⟨numbered.once, numbered.deep, numbered.above, numbered.recorded, ?_, ?_⟩
    · intro c new path found has
      obtain ⟨old, found', kind, id, named, _⟩ := cell found
      rw [kind, id]
      exact numbered.spelled c old path found' (named.symm.trans has)
    · intro c new k q found numbers
      obtain ⟨old, found', _, _, named, nextId⟩ := cell found
      rw [nextId]
      exact numbered.issued c old k q found' ⟨numbers.1, numbers.2.imp_right fun known =>
        ⟨known.1, named.symm.trans known.2⟩⟩
  | removed looked found kind removed =>
    exact numbered.shrink removed.shrink fun _ inside => inside.elim
  | deleted unwrapped found apart parented deleted =>
    refine numbered.shrink deleted.shrink fun c inside => ?_
    obtain rfl := Set.mem_singleton_iff.mp inside
    exact ⟨apart, deleted.nameless⟩

/-- A path that is not used up is no object's. -/
theorem Numbered.not_blocked (numbered : Numbered w) (steady : Steady w)
    (guarded : ¬ Exhausts w request) : ¬ Blocked w request := by
  rintro ⟨accepted, p, k, parentPath, above, target, found, long | ⟨object, member, same⟩⟩
  · exact guarded ⟨accepted, p, k, parentPath, above, target, found, Or.inl long⟩
  have numbers := target_numbers steady target found
  rcases numbered.recorded object member with made | static
  · rw [same] at made
    refine UInt32.lt_irrefl _ (numbered.issued p above k parentPath found numbers (fun last => ?_) _ made)
    exact guarded ⟨accepted, p, k, parentPath, above, target, found, Or.inr last⟩
  · obtain ⟨names, plain, base, some_, _⟩ := numbered.parent_names found numbers
    obtain ⟨names', plain', equal, flat⟩ := static_names _ static
    rw [same, base, childPath_pathOf] at equal
    have plainAll : ∀ name ∈ names ++ [k.objectName (above.children k).nextId], Plain name := by
      intro name inside
      rcases List.mem_append.mp inside with old | last
      · exact plain name old
      · exact List.mem_singleton.mp last ▸ objectName_plain k _
    obtain rfl := pathOf_inj plainAll plain' equal
    rw [List.length_append, List.length_singleton] at flat
    omega

theorem Numbered.placed (numbered : Numbered w) (settled : Settled w) : Placed w where
  distinct _ _ _ _ _ found found' has has' := settled.path_inj found found' has has'
  nested c self path p found has parent := by
    obtain ⟨_, q, spelled⟩ := numbered.spelled c self path found has
    obtain ⟨name, plain, place⟩ := settled.registered.nested c self path p found has parent
    refine ⟨q, spelled, ?_⟩
    rcases place with ⟨top, global | hosts⟩ | ⟨above, r, there, named, below⟩
    · obtain ⟨rfl, _⟩ := childPath_inj (objectName_plain _ _) plain (spelled.symm.trans global)
      exact Or.inl ⟨top, Or.inl rfl⟩
    · obtain ⟨rfl, _⟩ := childPath_inj (objectName_plain _ _) plain (spelled.symm.trans hosts)
      exact Or.inl ⟨top, Or.inr rfl⟩
    · obtain ⟨rfl, _⟩ := childPath_inj (objectName_plain _ _) plain (spelled.symm.trans below)
      exact Or.inr ⟨above, there, named⟩
  given c self path found has := (numbered.spelled c self path found has).1
  once := numbered.once

end Steps

theorem numbered_initial : Numbered World.initial where
  once := List.nodup_nil
  deep := by simp [World.initial]
  above := by simp [World.initial]
  recorded := by decide
  spelled c self path found has := by
    obtain ⟨_, rfl⟩ := initial_cell found
    cases has
  issued := by simp [World.initial]

/-- As long as no path gets too long and no number is given again, paths are never given twice,
and no request stops the master. -/
theorem paths_distinct {w : World} {requests : List Request}
    (guarded : Machine.Along step (fun w request => ¬ Exhausts w request) World.initial requests)
    (ran : Machine.run step World.initial requests = .ok w) :
    Placed w ∧ ∀ request, ¬ Exhausts w request →
      ∀ fault, serve w request = .error fault → fault = .disabled := by
  have kept : Steady w ∧ Numbered w := by
    refine Machine.invariant_run (fun w => Steady w ∧ Numbered w) ?_
      ⟨Steady.initial, numbered_initial⟩ guarded ran
    intro w request w' before guard moved
    have served := step_served before.1 moved
    exact ⟨served.steady before.1, before.2.served before.1 guard served⟩
  refine ⟨kept.2.placed kept.1.settled, fun request guard fault stopped => ?_⟩
  have serves := serve_ok kept.1 request
  rw [stopped] at serves
  cases serves with
  | disabled => rfl
  | blocked blocked => exact absurd blocked (kept.2.not_blocked kept.1 guard)

theorem paths_distinct_nested : ∃ w, w.made.length = 3 ∧ Placed w ∧
    ∀ request, ¬ Exhausts w request →
      ∀ fault, serve w request = .error fault → fault = .disabled := by
  let path := childPath globalContextPath (ascii ['T', 'e', 's', 't', '0'])
  let requests : List Request :=
    [.createTest globalContextPath (ascii ['t']),
      .createTest path (ascii ['t']),
      .delete path,
      .createTest globalContextPath (ascii ['t'])]
  obtain ⟨w, ran, made⟩ := Machine.run_view step World.initial requests
    (fun w => w.made.length) 3 (by decide +kernel)
  let check (w : World) (request : Request) : Bool :=
    match request.target w with
    | none => true
    | some (p, k, parentPath) => match w.heap.cells p with
      | none => true
      | some above =>
        (childPath parentPath (k.objectName (above.children k).nextId)).length < 255 ∧
          childPath parentPath (k.objectName lastId) ∉ w.made
  have sound : ∀ w request, check w request = true → ¬ Exhausts w request := by
    rintro w request checked ⟨_, p, k, parentPath, above, target, found, spent⟩
    simp only [check, target, found, decide_eq_true_eq] at checked
    rcases spent with long | last
    · exact absurd checked.1 (Nat.not_lt.mpr long)
    · exact checked.2 last
  have checked : Machine.checkAlong step check World.initial requests = true := by decide +kernel
  exact ⟨w, made, paths_distinct (Machine.along_check sound checked) ran⟩

/-- Tests within tests, one level more each time, unless the master has stopped. -/
theorem nest (depth : Nat) :
    (∃ requests, Machine.run step World.initial requests = .error .fatal) ∨
      ∃ requests w p above objectPath, Machine.run step World.initial requests = .ok w ∧
        containerUnwrap w.objects objectPath = some p ∧ w.heap.cells p = some above ∧
        above.kind.has .testcase = true ∧ above.children .testcase = {} ∧ depth ≤ objectPath.length := by
  induction depth with
  | zero =>
    refine Or.inr ⟨[], World.initial, globalContext, _, globalContextPath, rfl, by decide,
      Store.alloc_self _ _ _, rfl, rfl, Nat.zero_le _⟩
  | succ depth ih =>
    rcases ih with stopped | ⟨requests, w, p, above, objectPath, ran, unwrapped, found, has, none_, long⟩
    · exact Or.inl stopped
    have steady : Steady w := steady_run requests Steady.initial ran
    let name := ascii ['t']
    have free : containerGetTestByName p name w = .ok none := by
      simp only [containerGetTestByName, World.deref_ok.mpr found, bind, Except.bind, has, if_true, none_]
      rfl
    rcases createTest_cases steady unwrapped found has (by decide) free with
      ⟨path, spelled, made, served⟩ | ⟨failed, _⟩
    · have apart : p ≠ w.next := Nat.ne_of_lt (steady.settled.wf.bound (kind_graph found))
      let w' := (w.insert p above (.newTest name p above)).wrap w.next path
      have steady' : Steady w' := served.steady steady
      have there : w'.heap.cells w.next = some { Container.newTest name p above with dbusObjectPath := some path } := by
        change ((w.insert p above (.newTest name p above)).heap.modify w.next _).cells w.next = _
        rw [Store.modify_self]
        exact congrArg (Option.map _) (insert_self apart)
      have known := steady'.settled.registered.named w.next _ path there rfl
      have looked := steady'.settled.registered.tree.find_path known
      refine Or.inr ⟨requests ++ [.createTest objectPath name], w', w.next, _, path, ?_, ?_, there, rfl, rfl, ?_⟩
      · rw [Machine.run_append, ran]
        refine bind_ok.mpr ⟨w, rfl, bind_ok.mpr ⟨w', ?_, rfl⟩⟩
        exact congrArg (Except.map Prod.fst) made
      · simp only [containerUnwrap, looked]
        rfl
      · rw [spelled, childPath, List.length_append, List.length_cons]
        omega
    · refine Or.inl ⟨requests ++ [.createTest objectPath name], ?_⟩
      rw [Machine.run_append, ran]
      refine bind_error.mpr (Or.inr ⟨w, rfl, bind_error.mpr (Or.inl ?_)⟩)
      exact congrArg (Except.map Prod.fst) failed

/-- A path is too long in the end. -/
theorem nesting_fatal : ∃ requests, Machine.run step World.initial requests = .error .fatal := by
  rcases nest 255 with stopped | ⟨requests, w, p, above, objectPath, ran, unwrapped, _, _, _, long⟩
  · exact stopped
  · have steady : Steady w := steady_run requests Steady.initial ran
    obtain ⟨⟨object, member, rfl⟩, _⟩ := (unwrap_place steady.settled unwrapped).2
    exact absurd (steady.settled.registered.tree.short object member) (Nat.not_lt.mpr long)

end Testbus.Server
