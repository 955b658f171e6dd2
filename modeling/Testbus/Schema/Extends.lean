import Testbus.Schema.Counters

namespace Testbus.Schema

open Xml

def requiredText : CString := ascii "required".toList

/-- What an attribute `constraint` asks for. Others than these two are about scalars. -/
inductive Constraint
  | required
  | group (relation : Relation) (name : CString)
  | other
  deriving DecidableEq

/-- The comparisons of `ni_xs_type_build_constraints`. -/
def constraint (value : CString) : Constraint :=
  if value = requiredText then .required
  else if ascii "required:".toList <+: value then .group .require (value.drop 9)
  else if ascii "exclusive:".toList <+: value then .group .conflict (value.drop 10)
  else .other

/-- A child element of a dict definition, with a type of its own name. The types that the attribute
`type` can name are in no group, and neither is one that the attribute `class` builds. -/
structure Member where
  name : CString
  type : XsType
  byClass : Bool := false
  constraints : List CString := []
  ungrouped : type.common.group = none

namespace Member

def asks (m : Member) (asked : Constraint) : Bool := m.constraints.any (constraint · = asked)

/-- Whether the code reads a constraint: it reads none of a member that is defined by its class. -/
def reads (m : Member) (asked : Constraint) : Bool := !m.byClass && m.asks asked

def required (m : Member) : Bool := m.type.common.mandatory || m.asks .required

end Member

section Building

namespace XsType

def withCommon : XsType → Common → XsType
  | void _, common => .void common
  | scalar _ info, common => .scalar common info
  | struct _, common => .struct common
  | array _ elementName elementType, common => .array common elementName elementType
  | notated _ element form compatible, common => .notated common element form compatible
  | dict _ children groups, common => .dict common children groups
  | union _ discriminant children, common => .union common discriminant children

@[simp] theorem common_withCommon (type : XsType) (common : Common) : (type.withCommon common).common = common := by
  cases type <;> rfl

/-- `ni_xs_type_clone`, which dereferences `NULL` for a void. -/
def clone : XsType → Result XsType
  | void _ => throw .null
  | type => return type.withCommon { type.common with origdefName := none }

end XsType

/-- A `ni_xs_group_array_t`, and where the next group is allocated. -/
structure GroupArray where
  groups : List Group := []
  next : Nat := 0

def groupGet (array : GroupArray) (relation : Relation) (name : CString) : Group × GroupArray :=
  match array.groups.find? fun group => group.relation = relation ∧ group.name = name with
  | some group => (group, array)
  | none =>
    let group : Group := ⟨array.next, relation, name⟩
    (group, ⟨array.groups ++ [group], array.next + 1⟩)

-- What a constraint other than these makes of a scalar: a bitmap, an enumeration or a range.
variable (scalars : CString → ScalarInfo → Result ScalarInfo)

/-- A pass of the loop of `ni_xs_type_build_constraints`. -/
def buildConstraint (value : CString) (type : XsType) (array : GroupArray) :
    Result (XsType × GroupArray) := do
  let type ← type.clone
  match constraint value with
  | .required => return (type.withCommon { type.common with mandatory := true }, array)
  | .group relation name =>
    check type.common.group.isNone
    let (group, array) := groupGet array relation name
    return (type.withCommon { type.common with group := some group }, array)
  | .other =>
    match type with
    | .scalar common info => return (.scalar common (← scalars value info), array)
    | type => return (type, array)

def buildConstraints : List CString → XsType → GroupArray → Result (XsType × GroupArray)
  | [], type, array => return (type, array)
  | value :: rest, type, array => do
    let (type, array) ← buildConstraint scalars value type array
    buildConstraints rest type array

/-- The type of a member: only `ni_xs_build_simple_type` reads constraints,
`ni_xs_build_complex_type` reads none. -/
def buildMember (m : Member) (array : GroupArray) : Result (XsType × GroupArray) :=
  if m.byClass then return (m.type, array)
  else buildConstraints scalars m.constraints m.type array

def buildTypelist : List Member → GroupArray → Result (List (CString × XsType) × GroupArray)
  | [], array => return ([], array)
  | m :: rest, array => do
    let (type, array) ← buildMember scalars m array
    let (later, array) ← buildTypelist rest array
    return ((m.name, type) :: later, array)

/-- A dict type. -/
structure Built where
  children : List (CString × XsType) := []
  array : GroupArray := {}

def Built.type (dict : Built) : XsType := .dict {} dict.children dict.array.groups

/-- `ni_xs_build_complex_type` for a dict that extends another: `ni_xs_dict_new` copies the children
and not the groups. -/
def buildComplexType (parent : Built) (own : List Member) : Result Built := do
  let (children, array) ← buildTypelist scalars own { next := parent.array.next }
  return { children := parent.children ++ children, array }

/-- The dict type that the last of some definitions makes, each of which extends the one before. -/
def buildChain (levels : List (List Member)) : Result Built :=
  levels.foldlM (buildComplexType scalars) {}

end Building

/-- Whether a number of members is what a group asks for. -/
def Met : Relation → Nat → Prop
  | .require, count => count ≠ 0
  | .conflict, count => count ≤ 1

instance (relation : Relation) (count : Nat) : Decidable (Met relation count) := by
  cases relation <;> unfold Met <;> infer_instance

/-- Whether a child has the name of a member of a group. -/
def belongs (members : List Member) (relation : Relation) (name : CString) (child : Node) : Bool :=
  members.any fun m => child.name = some m.name ∧ m.asks (.group relation name)

/-- How many children of a node are in a group. -/
def occurrences (members : List Member) (relation : Relation) (name : CString) (node : Node) :
    Nat := node.children.countP (belongs members relation name)

def HasChild (node : Node) (name : CString) : Prop := ∃ child ∈ node.children, child.name = some name

/-- The constraints of all members of a chain, with the groups joined by relation and name. -/
structure Satisfies (members : List Member) (node : Node) : Prop where
  required : ∀ m ∈ members, m.required = true → HasChild node m.name
  groups : ∀ m ∈ members, ∀ relation name, m.asks (.group relation name) = true →
    Met relation (occurrences members relation name node)

/-- Whether the code counts a child in a group of the own members: it takes the first member of
the name. -/
def counted (inherited own : List Member) (relation : Relation) (name : CString) (child : Node) : Bool :=
  if inherited.any fun m => child.name = some m.name then false
  else (own.find? fun m => child.name = some m.name).any (·.reads (.group relation name))

section Arrays

/-- A group array whose groups were allocated from an address on. -/
structure GroupArray.Sound (start : Nat) (array : GroupArray) : Prop where
  bounded : start ≤ array.next
  allocated : ∀ group ∈ array.groups, start ≤ group.addr ∧ group.addr < array.next
  distinct : ∀ group ∈ array.groups, ∀ other ∈ array.groups, group.addr = other.addr →
    group = other
  named : ∀ group ∈ array.groups, ∀ other ∈ array.groups, group.relation = other.relation →
    group.name = other.name → group = other

/-- A group array that got groups for constraints that were asked for. -/
structure GroupArray.Grown (asked : Constraint → Prop) (array later : GroupArray) : Prop where
  kept : ∀ group ∈ array.groups, group ∈ later.groups
  fresh : ∀ group ∈ later.groups, group ∈ array.groups ∨ asked (.group group.relation group.name)
  sound : ∀ start, array.Sound start → later.Sound start

namespace GroupArray.Grown

variable {asked more : Constraint → Prop} {array middle later : GroupArray}

theorem refl (array : GroupArray) : Grown asked array array :=
  ⟨fun _ member => member, fun _ member => .inl member, fun _ sound => sound⟩

theorem trans (first : Grown asked array middle) (second : Grown more middle later) :
    Grown (fun c => asked c ∨ more c) array later where
  kept group member := second.kept group (first.kept group member)
  fresh group member := by
    rcases second.fresh group member with earlier | new
    · rcases first.fresh group earlier with earliest | new
      · exact .inl earliest
      · exact .inr (.inl new)
    · exact .inr (.inr new)
  sound start sound := second.sound start (first.sound start sound)

theorem mono (grown : Grown asked array later) (weaker : ∀ c, asked c → more c) : Grown more array later where
  kept := grown.kept
  fresh group member := (grown.fresh group member).imp_right (weaker _)
  sound := grown.sound

end GroupArray.Grown

/-- What tells the groups apart tells a new one apart that differs from all of them. -/
theorem told_apart_snoc (f : Group → β) (new : Group)
    (apart : ∀ group ∈ groups, ∀ other ∈ groups, f group = f other → group = other)
    (foreign : ∀ group ∈ groups, f group ≠ f new) :
    ∀ group ∈ groups ++ [new], ∀ other ∈ groups ++ [new], f group = f other → group = other := by
  intro group member other among same
  rcases List.mem_append.mp member with earlier | here <;>
    rcases List.mem_append.mp among with otherEarlier | otherHere
  · exact apart group earlier other otherEarlier same
  · cases List.mem_singleton.mp otherHere
    exact absurd same (foreign group earlier)
  · cases List.mem_singleton.mp here
    exact absurd same.symm (foreign other otherEarlier)
  · cases List.mem_singleton.mp here
    exact (List.mem_singleton.mp otherHere).symm

theorem groupGet_spec (array : GroupArray) (relation : Relation) (name : CString) :
    (groupGet array relation name).1 ∈ (groupGet array relation name).2.groups ∧
      (groupGet array relation name).1.relation = relation ∧ (groupGet array relation name).1.name = name ∧
      array.Grown (· = .group relation name) (groupGet array relation name).2 := by
  unfold groupGet
  split
  · rename_i group found
    have same := List.find?_some found
    simp only [decide_eq_true_eq] at same
    exact ⟨List.mem_of_find?_eq_some found, same.1, same.2, .refl array⟩
  · rename_i absent
    have foreign : ∀ group ∈ array.groups, group.relation = relation → group.name ≠ name := by
      intro group member related named
      have none := List.find?_eq_none.mp absent group member
      exact none (by simp [related, named])
    refine ⟨by simp, rfl, rfl, ?_, ?_, ?_⟩
    · intro group member
      exact List.mem_append_left _ member
    · intro group member
      rcases List.mem_append.mp member with earlier | new
      · exact .inl earlier
      · cases List.mem_singleton.mp new
        exact .inr rfl
    · intro start sound
      have older : ∀ group ∈ array.groups, group.addr ≠ array.next := fun group member =>
        (sound.allocated group member).2.ne
      constructor
      · exact Nat.le_succ_of_le sound.bounded
      · intro group member
        rcases List.mem_append.mp member with earlier | new
        · obtain ⟨low, high⟩ := sound.allocated group earlier
          exact ⟨low, Nat.lt_succ_of_lt high⟩
        · cases List.mem_singleton.mp new
          exact ⟨sound.bounded, Nat.lt_succ_self _⟩
      · exact told_apart_snoc Group.addr _ sound.distinct older
      · have apart := told_apart_snoc (fun group => (group.relation, group.name)) ⟨array.next, relation, name⟩
          (fun group member other among same => sound.named group member other among
            (congrArg Prod.fst same) (congrArg Prod.snd same))
          fun group member same =>
            foreign group member (congrArg Prod.fst same) (congrArg Prod.snd same)
        exact fun group member other among related same =>
          apart group member other among (Prod.ext related same)

end Arrays

section Types

/-- The type is in a group of this relation and name. -/
def XsType.InGroup (type : XsType) (relation : Relation) (name : CString) : Prop :=
  ∃ group, type.common.group = some group ∧ group.relation = relation ∧ group.name = name

/-- A type that got the constraints that were asked for, with their groups in the array. -/
structure Constrained (asked : Constraint → Prop) (type : XsType) (array : GroupArray)
    (after : XsType) (later : GroupArray) : Prop where
  mandatory : after.common.mandatory = true ↔ type.common.mandatory = true ∨ asked .required
  inGroup : ∀ relation name, after.InGroup relation name ↔
    type.InGroup relation name ∨ asked (.group relation name)
  listed : ∀ group, after.common.group = some group →
    type.common.group = some group ∨ group ∈ later.groups
  grown : array.Grown asked later

namespace Constrained

variable {asked more : Constraint → Prop} {type between after : XsType}
  {array middle later : GroupArray}

/-- A type whose constraints were left as they are, by one that asked for none of these. -/
theorem unasked (mandatory : after.common.mandatory = type.common.mandatory)
    (group : after.common.group = type.common.group) (none : ∀ c, asked c → c = .other) :
    Constrained asked type array after array where
  mandatory := by
    have unasked : ¬ asked .required := fun asks => nomatch none .required asks
    rw [mandatory, or_iff_left unasked]
  inGroup relation name := by
    have unasked : ¬ asked (.group relation name) := fun asks => nomatch none (.group _ _) asks
    rw [XsType.InGroup, XsType.InGroup, group, or_iff_left unasked]
  listed found belongs := .inl (group ▸ belongs)
  grown := .refl array

theorem trans (first : Constrained asked type array between middle)
    (second : Constrained more between middle after later) :
    Constrained (fun c => asked c ∨ more c) type array after later where
  mandatory := by rw [second.mandatory, first.mandatory, or_assoc]
  inGroup relation name := by rw [second.inGroup, first.inGroup, or_assoc]
  listed group belongs := by
    rcases second.listed group belongs with earlier | new
    · exact (first.listed group earlier).imp_right (second.grown.kept group)
    · exact .inr new
  grown := first.grown.trans second.grown

theorem congr (constrained : Constrained asked type array after later)
    (same : ∀ c, asked c ↔ more c) : Constrained more type array after later where
  mandatory := by rw [constrained.mandatory, same]
  inGroup relation name := by rw [constrained.inGroup, same]
  listed := constrained.listed
  grown := constrained.grown.mono fun c => (same c).mp

end Constrained

variable {type after : XsType} {array later : GroupArray}

theorem XsType.clone_spec (cloned : type.clone = .ok copy) :
    copy.common.mandatory = type.common.mandatory ∧ copy.common.group = type.common.group := by
  cases type <;> cases cloned <;> exact ⟨rfl, rfl⟩

theorem buildConstraint_spec (built : buildConstraint scalars value type array = .ok (after, later)) :
    Constrained (· = constraint value) type array after later := by
  obtain ⟨copy, cloned, rest⟩ := bind_ok.mp built
  obtain ⟨mandatory, group⟩ := XsType.clone_spec cloned
  cases asked : constraint value with
  | required =>
    simp only [asked, return_ok, Prod.mk.injEq] at rest
    obtain ⟨rfl, rfl⟩ := rest
    refine ⟨by simp, fun relation name => ?_, fun found belongs => ?_, .refl array⟩
    · simp [XsType.InGroup, group]
    · exact .inl (by simpa [group] using belongs)
  | group relation name =>
    simp only [asked] at rest
    obtain ⟨⟨⟩, free, rest⟩ := bind_ok.mp rest
    have free : type.common.group = none := by
      rw [← group]
      simpa using free
    obtain ⟨member, related, named, grown⟩ := groupGet_spec array relation name
    simp only [return_ok, Prod.mk.injEq] at rest
    obtain ⟨rfl, rfl⟩ := rest
    refine ⟨by simp [mandatory], fun other own => ?_, fun found belongs => ?_, grown⟩
    · simp [XsType.InGroup, free, related, named, eq_comm]
    · refine .inr ?_
      simp only [XsType.common_withCommon, Option.some.injEq] at belongs
      exact belongs ▸ member
  | other =>
    simp only [asked] at rest
    split at rest
    · obtain ⟨info, -, rest⟩ := bind_ok.mp rest
      simp only [return_ok, Prod.mk.injEq] at rest
      obtain ⟨rfl, rfl⟩ := rest
      exact .unasked mandatory group fun c same => same
    · simp only [return_ok, Prod.mk.injEq] at rest
      obtain ⟨rfl, rfl⟩ := rest
      exact .unasked mandatory group fun c same => same

theorem buildConstraints_spec (built : buildConstraints scalars values type array = .ok (after, later)) :
    Constrained (fun c => ∃ value ∈ values, constraint value = c) type array after later := by
  induction values generalizing type array with
  | nil =>
    simp only [buildConstraints, return_ok, Prod.mk.injEq] at built
    obtain ⟨rfl, rfl⟩ := built
    exact .unasked rfl rfl (by simp)
  | cons value rest ih =>
    obtain ⟨⟨between, middle⟩, here, tail⟩ := bind_ok.mp built
    refine ((buildConstraint_spec here).trans (ih tail)).congr fun c => ?_
    simp [eq_comm]

theorem buildMember_spec (built : buildMember scalars m array = .ok (after, later)) :
    Constrained (m.reads · = true) m.type array after later := by
  unfold buildMember at built
  split at built
  · rename_i byClass
    simp only [return_ok, Prod.mk.injEq] at built
    obtain ⟨rfl, rfl⟩ := built
    exact .unasked rfl rfl fun c reads => by simp [Member.reads, byClass] at reads
  · rename_i byType
    refine (buildConstraints_spec built).congr fun c => ?_
    simp [Member.reads, Member.asks, byType]

end Types

section Dicts

/-- A child of a dict type that is what a member made. -/
structure MadeBy (m : Member) (child : CString × XsType) : Prop where
  name : child.1 = m.name
  mandatory : child.2.common.mandatory = true ↔
    m.type.common.mandatory = true ∨ m.reads .required = true
  inGroup : ∀ relation name, child.2.InGroup relation name ↔
    m.reads (.group relation name) = true

/-- All groups of the children are in the array. -/
def Listed (children : List (CString × XsType)) (array : GroupArray) : Prop :=
  ∀ child ∈ children, ∀ group, child.2.common.group = some group → group ∈ array.groups

variable {array later : GroupArray} {parent built : Built} {inherited own members : List Member}

theorem buildTypelist_spec (built : buildTypelist scalars own array = .ok (children, later)) :
    List.Forall₂ MadeBy own children ∧ Listed children later ∧
      array.Grown (fun c => ∃ m ∈ own, m.reads c = true) later := by
  induction own generalizing array children with
  | nil =>
    simp only [buildTypelist, return_ok, Prod.mk.injEq] at built
    obtain ⟨rfl, rfl⟩ := built
    exact ⟨.nil, fun _ member => absurd member List.not_mem_nil, .refl array⟩
  | cons m rest ih =>
    obtain ⟨⟨type, middle⟩, here, tail⟩ := bind_ok.mp built
    obtain ⟨⟨others, last⟩, among, same⟩ := bind_ok.mp tail
    simp only [return_ok, Prod.mk.injEq] at same
    obtain ⟨rfl, rfl⟩ := same
    have constrained := buildMember_spec here
    obtain ⟨entries, listed, grown⟩ := ih among
    have entry : MadeBy m (m.name, type) := by
      refine ⟨rfl, constrained.mandatory, fun relation name => ?_⟩
      rw [constrained.inGroup]
      simp [XsType.InGroup, m.ungrouped]
    refine ⟨.cons entry entries, List.forall_mem_cons.mpr ⟨fun group belongs => ?_, listed⟩, ?_⟩
    · rcases constrained.listed group belongs with unasked | new
      · rw [m.ungrouped] at unasked
        cases unasked
      · exact grown.kept group new
    · refine (constrained.grown.trans grown).mono fun c asked => ?_
      rcases asked with reads | ⟨other, member, reads⟩
      · exact ⟨m, List.mem_cons_self, reads⟩
      · exact ⟨other, List.mem_cons_of_mem _ member, reads⟩

/-- What a chain of definitions made, with all groups older than those to come. -/
structure Made (members : List Member) (built : Built) : Prop where
  entries : List.Forall₂ MadeBy members built.children
  older : ∀ child ∈ built.children, ∀ group, child.2.common.group = some group →
    group.addr < built.array.next

/-- A dict type whose own children are in the groups of its array, and its inherited ones are in
older groups. -/
structure Extended (inherited own : List Member) (built : Built) : Prop where
  entries : ∃ first last, built.children = first ++ last ∧ List.Forall₂ MadeBy inherited first ∧
    List.Forall₂ MadeBy own last ∧ Listed last built.array ∧
    ∀ child ∈ first, ∀ group, child.2.common.group = some group →
      ∀ other ∈ built.array.groups, group.addr < other.addr
  sound : built.array.Sound 0
  asked : ∀ group ∈ built.array.groups, ∃ m ∈ own,
    m.reads (.group group.relation group.name) = true

theorem buildComplexType_spec (made : Made inherited parent)
    (extending : buildComplexType scalars parent own = .ok built) :
    Extended inherited own built ∧ Made (inherited ++ own) built := by
  obtain ⟨⟨children, array⟩, listing, same⟩ := bind_ok.mp extending
  cases return_ok.mp same
  obtain ⟨entries, listed, grown⟩ := buildTypelist_spec listing
  have fresh : GroupArray.Sound parent.array.next { next := parent.array.next } := ⟨le_rfl, nofun, nofun, nofun⟩
  have sound := grown.sound _ fresh
  refine ⟨⟨⟨parent.children, children, rfl, made.entries, entries, listed, ?_⟩, ?_, ?_⟩, ?_, ?_⟩
  · intro child member group belongs other among
    exact (made.older child member group belongs).trans_le (sound.allocated other among).1
  · exact ⟨Nat.zero_le _, fun group member => ⟨Nat.zero_le _, (sound.allocated group member).2⟩,
      sound.distinct, sound.named⟩
  · intro group member
    exact (grown.fresh group member).resolve_left nofun
  · exact List.rel_append made.entries entries
  · intro child member group belongs
    rcases List.mem_append.mp member with inherited | own
    · exact (made.older child inherited group belongs).trans_le sound.bounded
    · exact (sound.allocated group (listed child own group belongs)).2

theorem made_run (made : Made members parent) {levels : List (List Member)}
    (chain : levels.foldlM (buildComplexType scalars) parent = .ok built) : Made (members ++ levels.flatten) built := by
  induction levels generalizing parent members with
  | nil =>
    cases return_ok.mp chain
    simpa using made
  | cons level rest ih =>
    obtain ⟨next, extended, chain⟩ := bind_ok.mp (List.foldlM_cons.symm.trans chain)
    simpa using ih (buildComplexType_spec made extended).2 chain

theorem buildChain_spec
    (chain : buildChain scalars (levels ++ [own]) = .ok built) : Extended levels.flatten own built := by
  rw [buildChain, List.foldlM_append] at chain
  obtain ⟨parent, upper, last⟩ := bind_ok.mp chain
  obtain ⟨final, extended, same⟩ := bind_ok.mp (List.foldlM_cons.symm.trans last)
  cases return_ok.mp same
  have none : Made [] {} := ⟨.nil, nofun⟩
  exact (buildComplexType_spec (made_run none upper) extended).1

end Dicts

section Counts

variable {children first last : List (CString × XsType)} {members inherited own : List Member}
  {built : Built} {name : CString}

theorem find_append : find (first ++ last) (some name) = (do
    match ← find first (some name) with
    | some type => return some type
    | none => find last (some name)) := by
  induction first with
  | nil => cases last <;> rfl
  | cons child rest ih =>
    simp only [List.cons_append, find]
    split
    · rfl
    · exact ih

/-- The child that is found is made from the first member of the name. -/
theorem find_entries (entries : List.Forall₂ MadeBy members children) (name : CString) :
    match members.find? fun m => some name = some m.name with
    | none => find children (some name) = .ok none
    | some m => ∃ type, find children (some name) = .ok (some type) ∧ MadeBy m (name, type) ∧
        (name, type) ∈ children := by
  induction entries with
  | nil => rfl
  | @cons m child rest others entry _ ih =>
    obtain ⟨own, type⟩ := child
    have named : own = m.name := entry.name
    by_cases here : name = m.name
    · subst here
      rw [List.find?_cons_of_pos (by simp)]
      refine ⟨type, if_pos named, named ▸ entry, named ▸ List.mem_cons_self⟩
    · rw [List.find?_cons_of_neg (by simpa using here)]
      simp only [find, named, if_neg (Ne.symm here)]
      split at ih
      · exact ih
      · obtain ⟨type, found, entry, member⟩ := ih
        exact ⟨type, found, entry, List.mem_cons_of_mem _ member⟩

/-- Whether the code counts a child in a group, by its address. -/
def countedAt (children : List (CString × XsType)) (group : Group) (child : Node) : Bool :=
  match find children child.name with
  | .ok (some type) => type.common.group.any (·.addr = group.addr)
  | _ => false

theorem groupCount_eq (named : ∀ child ∈ nodes, ∃ found, find children child.name = .ok found) :
    groupCount children group nodes = .ok (UInt32.ofNat (nodes.countP (countedAt children group))) := by
  induction nodes with
  | nil => rfl
  | cons child rest ih =>
    obtain ⟨⟨found, looked⟩, later⟩ := List.forall_mem_cons.mp named
    simp only [groupCount, looked, ok_bind, ih later, List.countP_cons, countedAt]
    cases found with
    | none => simp [pure, Except.pure, ok_bind]
    | some type =>
      by_cases counts : type.common.group.any (·.addr = group.addr) = true
      · simp [counts, pure, Except.pure, UInt32.ofNat_add]
      · simp [counts, pure, Except.pure]

/-- A group of the array is the group of exactly the own members that ask for it. -/
theorem countedAt_eq (extended : Extended inherited own built) (member : group ∈ built.array.groups)
    (named : child.name = some name) :
    countedAt built.children group child = counted inherited own group.relation group.name child := by
  obtain ⟨first, last, whole, older, entries, listed, apart⟩ := extended.entries
  have above := find_entries older name
  have below := find_entries entries name
  simp only [countedAt, counted, named, whole, find_append]
  cases upper : inherited.find? fun m => some name = some m.name with
  | some m =>
    rw [upper] at above
    obtain ⟨type, found, -, among⟩ := above
    have hidden : inherited.any (fun m => some name = some m.name) = true :=
      List.any_eq_true.mpr ⟨m, List.mem_of_find?_eq_some upper, by simpa using List.find?_some upper⟩
    have foreign : type.common.group.any (·.addr = group.addr) = false := by
      rw [Option.any_eq_false]
      intro own belongs
      simpa using (apart _ among own belongs group member).ne
    simp only [found, ok_bind, hidden, if_true]
    exact foreign
  | none =>
    rw [upper] at above
    have shown : inherited.any (fun m => some name = some m.name) = false := by
      rw [List.any_eq_false]
      exact List.find?_eq_none.mp upper
    simp only [above, ok_bind, shown]
    cases lower : own.find? fun m => some name = some m.name with
    | none =>
      rw [lower] at below
      simp [below]
    | some m =>
      rw [lower] at below
      obtain ⟨type, found, entry, among⟩ := below
      have listed := listed _ among
      have same : (∃ other, type.common.group = some other ∧ other.addr = group.addr) ↔
          type.InGroup group.relation group.name := by
        constructor
        · intro ⟨other, belongs, same⟩
          have equal := extended.sound.distinct other (listed other belongs) group member same
          exact ⟨other, belongs, by rw [equal], by rw [equal]⟩
        · intro ⟨other, belongs, related, same⟩
          have equal := extended.sound.named other (listed other belongs) group member related same
          exact ⟨other, belongs, by rw [equal]⟩
      simp only [found, Option.any_some, Bool.false_eq_true, if_false]
      rw [Bool.eq_iff_iff, ← entry.inGroup, ← same]
      simp [Option.any_eq_true]

end Counts

section Validation

/-- The checks of `ni_dbus_validate_xml_dict` on a node. It checks the groups of the own members
only, and counts the own members only. -/
structure Passes (children : List (CString × XsType)) (inherited own : List Member) (node : Node) :
    Prop where
  nested : validateChildren (fun name child => do let _ ← validateMember children name child)
    node.children = .ok ()
  required : ∀ m ∈ inherited ++ own, m.type.common.mandatory = true ∨ m.reads .required = true →
    HasChild node m.name
  groups : ∀ m ∈ own, ∀ relation name, m.reads (.group relation name) = true →
    Met relation (node.children.countP (counted inherited own relation name) % 2 ^ 32)

variable {children : List (CString × XsType)} {nodes : List Node} {built : Built} {node : Node}

theorem hasChild_eq (named : ∀ child ∈ nodes, ∃ own, child.name = some own) (name : CString) :
    hasChild name nodes = .ok (decide (∃ child ∈ nodes, child.name = some name)) := by
  induction nodes with
  | nil => simp [hasChild, pure, Except.pure]
  | cons child rest ih =>
    obtain ⟨⟨own, here⟩, later⟩ := List.forall_mem_cons.mp named
    simp only [hasChild, here]
    split
    · rename_i same
      simp [here, same, pure, Except.pure]
    · rename_i other
      rw [ih later]
      simp [here, other]

theorem validateMandatory_ok (named : ∀ child ∈ nodes, ∃ own, child.name = some own) :
    validateMandatory nodes children = .ok () ↔
      ∀ child ∈ children, child.2.common.mandatory = true → ∃ other ∈ nodes, other.name = some child.1 := by
  induction children with
  | nil => simp [validateMandatory]
  | cons child rest ih =>
    rw [List.forall_mem_cons, ← ih, validateMandatory, hasChild_eq named]
    by_cases mandatory : child.2.common.mandatory = true
    · by_cases present : ∃ other ∈ nodes, other.name = some child.1
      · simp [mandatory, present]
      · simp [mandatory, present]
    · simp [mandatory]

theorem validateGroups_ok (named : ∀ child ∈ nodes, ∃ found, find children child.name = .ok found) :
    validateGroups children nodes groups = .ok () ↔
      ∀ group ∈ groups, Met group.relation (nodes.countP (countedAt children group) % 2 ^ 32) := by
  induction groups with
  | nil => simp [validateGroups]
  | cons group rest ih =>
    rw [List.forall_mem_cons, ← ih, validateGroups, groupCount_eq named, ok_bind]
    generalize nodes.countP (countedAt children group) = count
    have value : (UInt32.ofNat count).toNat = count % 2 ^ 32 := UInt32.toNat_ofNat'
    cases group.relation with
    | require => simp [Met, bind_ok, ← UInt32.toNat_inj, value]
    | conflict => simp [Met, bind_ok, UInt32.le_iff_toNat_le, value]

/-- What the children of the node are called is known once they were validated. -/
theorem nested_named (nested : validateChildren
    (fun name child => do let _ ← validateMember children name child) nodes = .ok ()) :
    (∀ child ∈ nodes, ∃ found, find children child.name = .ok found) ∧
      (children ≠ [] → ∀ child ∈ nodes, ∃ own, child.name = some own) := by
  have known : ∀ child ∈ nodes, ∃ found, find children child.name = .ok found := by
    intro child member
    obtain ⟨checked, validated, -⟩ := bind_ok.mp (children_validate.mp nested child member)
    obtain ⟨found, looked, -⟩ := validateMember_find validated
    exact ⟨found, looked⟩
  refine ⟨known, fun some_ child member => ?_⟩
  obtain ⟨found, looked⟩ := known child member
  cases children with
  | nil => exact absurd rfl some_
  | cons first rest =>
    cases named : child.name with
    | none =>
      rw [named] at looked
      cases looked
    | some own => exact ⟨own, rfl⟩

theorem mem_entries (entries : List.Forall₂ MadeBy members children) :
    (∀ child ∈ children, ∃ m ∈ members, MadeBy m child) ∧ ∀ m ∈ members, ∃ child ∈ children, MadeBy m child := by
  induction entries with
  | nil => exact ⟨nofun, nofun⟩
  | @cons m child rest others entry _ ih =>
    refine ⟨List.forall_mem_cons.mpr ⟨⟨m, List.mem_cons_self, entry⟩, ?_⟩,
      List.forall_mem_cons.mpr ⟨⟨child, List.mem_cons_self, entry⟩, ?_⟩⟩
    · intro other member
      obtain ⟨own, among, entry⟩ := ih.1 other member
      exact ⟨own, List.mem_cons_of_mem _ among, entry⟩
    · intro other member
      obtain ⟨own, among, entry⟩ := ih.2 other member
      exact ⟨own, List.mem_cons_of_mem _ among, entry⟩

namespace Extended

theorem whole (extended : Extended inherited own built) : List.Forall₂ MadeBy (inherited ++ own) built.children := by
  obtain ⟨first, last, whole, older, entries, -, -⟩ := extended.entries
  rw [whole]
  exact List.rel_append older entries

/-- The array has the groups that own members ask for. -/
theorem group_iff (extended : Extended inherited own built) (relation : Relation) (name : CString) :
    (∃ group ∈ built.array.groups, group.relation = relation ∧ group.name = name) ↔
      ∃ m ∈ own, m.reads (.group relation name) = true := by
  constructor
  · rintro ⟨group, member, rfl, rfl⟩
    exact extended.asked group member
  · intro ⟨m, member, reads⟩
    obtain ⟨first, last, -, -, entries, listed, -⟩ := extended.entries
    obtain ⟨child, among, entry⟩ := (mem_entries entries).2 m member
    obtain ⟨group, belongs, related, same⟩ := (entry.inGroup relation name).mpr reads
    exact ⟨group, listed child among group belongs, related, same⟩

theorem counts (extended : Extended inherited own built) (member : group ∈ built.array.groups)
    (named : ∀ child ∈ node.children, ∃ name, child.name = some name) :
    node.children.countP (countedAt built.children group) =
      node.children.countP (counted inherited own group.relation group.name) := by
  refine List.countP_congr fun child among => ?_
  obtain ⟨name, named⟩ := named child among
  rw [countedAt_eq extended member named]

end Extended

theorem mandatory_iff (extended : Extended inherited own built)
    (nested : validateChildren (fun name child => do
      let _ ← validateMember built.children name child) node.children = .ok ()) :
    validateMandatory node.children built.children = .ok () ↔
      ∀ m ∈ inherited ++ own, m.type.common.mandatory = true ∨ m.reads .required = true → HasChild node m.name := by
  obtain ⟨back, forth⟩ := mem_entries extended.whole
  by_cases empty : built.children = []
  · have none : ∀ m ∈ inherited ++ own, False := by
      intro m member
      obtain ⟨child, among, -⟩ := forth m member
      rw [empty] at among
      cases among
    rw [empty]
    exact iff_of_true rfl fun m member => (none m member).elim
  · rw [validateMandatory_ok ((nested_named nested).2 empty)]
    constructor
    · intro each m member required
      obtain ⟨child, among, entry⟩ := forth m member
      have present := each child among (entry.mandatory.mpr required)
      rwa [entry.name] at present
    · intro each child among mandatory
      obtain ⟨m, member, entry⟩ := back child among
      rw [entry.name]
      exact each m member (entry.mandatory.mp mandatory)

theorem groups_iff (extended : Extended inherited own built)
    (nested : validateChildren (fun name child => do
      let _ ← validateMember built.children name child) node.children = .ok ()) :
    validateGroups built.children node.children built.array.groups = .ok () ↔
      ∀ m ∈ own, ∀ relation name, m.reads (.group relation name) = true →
        Met relation (node.children.countP (counted inherited own relation name) % 2 ^ 32) := by
  obtain ⟨known, named⟩ := nested_named nested
  have some_ : ∀ m ∈ own, built.children ≠ [] := by
    intro m member empty
    obtain ⟨child, among, -⟩ := (mem_entries extended.whole).2 m (List.mem_append_right _ member)
    rw [empty] at among
    cases among
  rw [validateGroups_ok known]
  constructor
  · intro each m member relation name reads
    obtain ⟨group, among, rfl, rfl⟩ := (extended.group_iff relation name).mpr ⟨m, member, reads⟩
    have met := each group among
    rwa [extended.counts among (named (some_ m member))] at met
  · intro each group among
    obtain ⟨m, member, reads⟩ := extended.asked group among
    rw [extended.counts among (named (some_ m member))]
    exact each m member _ _ reads

theorem valid_iff (extended : Extended inherited own built) :
    validateXml built.type node = .ok () ↔ Passes built.children inherited own node := by
  have shown : validateXml built.type node = (do
      validateChildren (fun name child => do let _ ← validateMember built.children name child)
        node.children
      validateMandatory node.children built.children
      validateGroups built.children node.children built.array.groups) := rfl
  rw [shown]
  constructor
  · intro valid
    obtain ⟨⟨⟩, nested, valid⟩ := bind_ok.mp valid
    obtain ⟨⟨⟩, mandatory, groups⟩ := bind_ok.mp valid
    exact ⟨nested, (mandatory_iff extended nested).mp mandatory, (groups_iff extended nested).mp groups⟩
  · intro passes
    rw [passes.nested, ok_bind, (mandatory_iff extended passes.nested).mpr passes.required, ok_bind]
    exact (groups_iff extended passes.nested).mpr passes.groups

end Validation

section Chains

/-- The code passes over a group: no own member asks for it in a place that is read, a child that
belongs to it is not counted, or the counter overflows. -/
def Overlooked (inherited own : List Member) (relation : Relation) (name : CString) (node : Node) : Prop :=
  (∀ m ∈ own, m.reads (.group relation name) = false) ∨
    (∃ child ∈ node.children, belongs (inherited ++ own) relation name child = true ∧
      counted inherited own relation name child = false) ∨
    2 ^ 32 ≤ occurrences (inherited ++ own) relation name node

/-- The node meets the constraints that the code does not check. -/
structure MeetsOverlooked (inherited own : List Member) (node : Node) : Prop where
  required : ∀ m ∈ inherited ++ own, m.byClass = true → m.asks .required = true →
    HasChild node m.name
  groups : ∀ m ∈ inherited ++ own, ∀ relation name, m.asks (.group relation name) = true →
    Overlooked inherited own relation name node →
    Met relation (occurrences (inherited ++ own) relation name node)

variable {children : List (CString × XsType)} {name : CString}

theorem belongs_of_counted (counts : counted inherited own relation name child = true) :
    belongs (inherited ++ own) relation name child = true := by
  unfold counted at counts
  split at counts
  · cases counts
  · obtain ⟨m, found, reads⟩ := (Option.any_eq_true _ _).mp counts
    have named := List.find?_some found
    simp only [Member.reads, Bool.and_eq_true] at reads
    refine List.any_eq_true.mpr ⟨m, List.mem_append_right _ (List.mem_of_find?_eq_some found), ?_⟩
    simpa using ⟨by simpa using named, reads.2⟩

/-- A group that the code does not pass over is counted right. -/
theorem counted_all (seen : ¬ Overlooked inherited own relation name node) :
    node.children.countP (counted inherited own relation name) % 2 ^ 32 =
      occurrences (inherited ++ own) relation name node := by
  simp only [Overlooked, not_or, not_exists, not_and, Nat.not_le] at seen
  obtain ⟨-, each, small⟩ := seen
  have same : node.children.countP (counted inherited own relation name) =
      occurrences (inherited ++ own) relation name node := by
    refine List.countP_congr fun child member => ?_
    exact ⟨belongs_of_counted, fun inGroup => by simpa using each child member inGroup⟩
  rw [same, Nat.mod_eq_of_lt small]

theorem satisfies_iff (passes : Passes children inherited own node) :
    Satisfies (inherited ++ own) node ↔ MeetsOverlooked inherited own node := by
  constructor
  · intro satisfies
    refine ⟨fun m member _ asks => satisfies.required m member ?_,
      fun m member relation name asks _ => satisfies.groups m member relation name asks⟩
    simp [Member.required, asks]
  · intro meets
    refine ⟨fun m member required => ?_, fun m member relation name asks => ?_⟩
    · by_cases byClass : m.byClass = true
      · rcases Bool.or_eq_true_iff.mp required with mandatory | asks
        · exact passes.required m member (.inl mandatory)
        · exact meets.required m member byClass asks
      · refine passes.required m member ?_
        simpa [Member.reads, byClass, Member.required] using required
    · by_cases overlooked : Overlooked inherited own relation name node
      · exact meets.groups m member relation name asks overlooked
      · have counts := counted_all overlooked
        simp only [Overlooked, not_or, not_forall] at overlooked
        obtain ⟨⟨reader, among, reads⟩, -⟩ := overlooked
        rw [← counts]
        exact passes.groups reader among relation name (by simpa using reads)

/-- Validation against an extended type lets only nodes pass that satisfy the constraints of the
whole chain, and whatever was validated before, exactly if a node that passes the checks of the code
meets the constraints that the code overlooks. -/
theorem extended_iff (scalars : CString → ScalarInfo → Result ScalarInfo)
    (levels : List (List Member)) (own : List Member) (built : Built)
    (chain : buildChain scalars (levels ++ [own]) = .ok built) (node : Node) :
    ((∀ counters, (∃ after, validate built.type node counters = .ok after) →
        Satisfies (levels.flatten ++ own) node) ∧
      ∀ counters other,
        verdict (validate built.type node counters) = verdict (validate built.type node other)) ↔
      (Passes built.children levels.flatten own node →
        MeetsOverlooked levels.flatten own node) := by
  have extended := buildChain_spec chain
  have accepts : ∀ counters, (∃ after, validate built.type node counters = .ok after) ↔
      Passes built.children levels.flatten own node := by
    intro counters
    rw [← verdict_ok, verdict_validate, valid_iff extended]
  have same : ∀ counters other,
      verdict (validate built.type node counters) = verdict (validate built.type node other) := by
    intro counters other
    rw [verdict_validate, verdict_validate]
  constructor
  · intro ⟨sound, _⟩ passes
    exact (satisfies_iff passes).mp (sound (fun _ => 0) ((accepts _).mpr passes))
  · intro meets
    refine ⟨fun counters accepted => ?_, same⟩
    have passes := (accepts counters).mp accepted
    exact (satisfies_iff passes).mpr (meets passes)

def textMember (name : Char) (constraint : String) : Member where
  name := ascii [name]
  type := .scalar {} { type := some .string }
  constraints := [ascii constraint.toList]
  ungrouped := rfl

def childNode (name : Char) : Node :=
  (Node.new (some (ascii [name]))).setCdata (some (ascii ['t']))

/-- The groups of the two are different ones, each with the address that it was allocated at. -/
def splitType : Built where
  children := [(ascii ['a'], .scalar { group := some ⟨0, .conflict, ascii ['g']⟩ }
      { type := some .string }),
    (ascii ['b'], .scalar { group := some ⟨1, .conflict, ascii ['g']⟩ } { type := some .string })]
  array := ⟨[⟨1, .conflict, ascii ['g']⟩], 2⟩

def splitNode : Node :=
  ((Node.new (some (ascii ['x']))).addChild (childNode 'a')).addChild (childNode 'b')

theorem splitType_built (scalars : CString → ScalarInfo → Result ScalarInfo) :
    buildChain scalars ([[textMember 'a' "exclusive:g"]] ++ [[textMember 'b' "exclusive:g"]]) = .ok splitType := rfl

theorem split_extended :
    ((∀ counters, (∃ after, validate splitType.type splitNode counters = .ok after) →
        Satisfies [textMember 'a' "exclusive:g", textMember 'b' "exclusive:g"] splitNode) ∧
      ∀ counters other, verdict (validate splitType.type splitNode counters) =
        verdict (validate splitType.type splitNode other)) ↔
      (Passes splitType.children [textMember 'a' "exclusive:g"] [textMember 'b' "exclusive:g"]
          splitNode →
        MeetsOverlooked [textMember 'a' "exclusive:g"] [textMember 'b' "exclusive:g"] splitNode) :=
  extended_iff (fun _ info => return info) [[textMember 'a' "exclusive:g"]]
    [textMember 'b' "exclusive:g"] splitType (splitType_built _) splitNode

/-- Two children of an exclusive group are accepted if the base type defines the one and the
extended type the other. -/
theorem split_group_accepted :
    (∀ counters, ∃ after, validate splitType.type splitNode counters = .ok after) ∧
      ¬ Satisfies [textMember 'a' "exclusive:g", textMember 'b' "exclusive:g"] splitNode ∧
      ¬ ∀ scalars levels own built, buildChain scalars (levels ++ [own]) = .ok built →
        ∀ node counters, (∃ after, validate built.type node counters = .ok after) →
          Satisfies (levels.flatten ++ own) node := by
  have accepted : ∀ counters, ∃ after,
      validate splitType.type splitNode counters = .ok after := by
    intro counters
    rw [← verdict_ok, verdict_validate]
    rfl
  have violated : ¬ Satisfies [textMember 'a' "exclusive:g", textMember 'b' "exclusive:g"] splitNode := by
    intro satisfies
    have met := satisfies.groups _ List.mem_cons_self .conflict (ascii ['g']) rfl
    exact absurd met (by decide)
  refine ⟨accepted, violated, fun claim => violated ?_⟩
  exact claim (fun _ info => return info) [[textMember 'a' "exclusive:g"]]
    [textMember 'b' "exclusive:g"] splitType (splitType_built _) splitNode (fun _ => 0)
    (accepted _)

end Chains

end Testbus.Schema
