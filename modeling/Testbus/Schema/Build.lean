import Testbus.Lib.Noted
import Testbus.Schema.Types

namespace Testbus.Schema.Build

open Lib Noted Xml Environ

/-- Where a type was defined first: the address of the scope, and its entry there. -/
structure Origdef where
  scope : Nat
  name : CString
  deriving DecidableEq

structure Range where
  min : Nat
  max : Nat

structure ScalarInfo where
  basicName : CString
  type : Option BasicType
  enums : Option IntMap := none
  range : Option Range := none
  bitmap : Option IntMap := none

/-- What processing asks of an `ni_xs_notation`. -/
structure ArrayNotation where
  name : CString
  arrayElementType : Option BasicType

/-- What the types of all classes have, but for the reference count. -/
structure Common where
  description : Option CString := none
  mandatory : Bool := false
  group : Option Group := none
  origdef : Option Origdef := none
  meta_ : Option Node := none

/-- The name and the description in an `ni_xs_name_type`. -/
structure Label where
  name : Option CString
  description : Option CString

/-- `struct ni_xs_type`. A member always has a type: one without is released when it was appended. -/
inductive XsType
  | void (common : Common)
  | scalar (common : Common) (info : ScalarInfo)
  | struct (common : Common) (children : List (Label × XsType))
  | array (common : Common) (elementType : XsType) (elementName : Option CString)
      (minlen maxlen : Nat) (form : Option ArrayNotation)
  | dict (common : Common) (children : List (Label × XsType)) (groups : List Group)
  | union (common : Common) (children : List (Label × XsType)) (discriminant : CString)

abbrev Members : Type := List (Label × XsType)

namespace XsType

def common : XsType → Common
  | void common | scalar common _ | struct common _ | array common _ _ _ _ _ | dict common _ _
  | union common _ _ => common

def setCommon (common : Common) : XsType → XsType
  | void _ => void common
  | scalar _ info => scalar common info
  | struct _ children => struct common children
  | array _ elementType elementName minlen maxlen form =>
    array common elementType elementName minlen maxlen form
  | dict _ children groups => dict common children groups
  | union _ children discriminant => union common children discriminant

def isVoid : XsType → Bool
  | void _ => true
  | _ => false

/-- What `ni_xs_type_clone` copies of a type of any class. -/
def clonedCommon (type : XsType) : Common :=
  { mandatory := type.common.mandatory, group := type.common.group }

/-- The types that a type refers to. -/
def components : XsType → List XsType
  | void _ | scalar _ _ => []
  | struct _ children | dict _ children _ | union _ children _ => children.map Prod.snd
  | array _ elementType _ _ _ _ => [elementType]

/-- A type or one that it refers to, directly or through others. -/
inductive Part : XsType → XsType → Prop
  | self (type : XsType) : Part type type
  | component {part component whole : XsType} (member : component ∈ whole.components)
      (inner : Part part component) : Part part whole

end XsType

/-- A reference to a type, and whether it is the only one: `refcount == 1`. -/
structure Ref where
  type : XsType
  sole : Bool

structure Method where
  name : CString
  description : Option CString := none
  arguments : Members := []
  retval : Option XsType := none
  meta_ : Option Node := none

structure Service where
  name : CString
  interface : CString
  description : Option CString := none
  attributes : List NiVar := []
  methods : List Method := []
  signals : List Method := []

/-- `ni_xs_class` -/
structure ClassDef where
  name : CString
  baseName : Option CString

/-- `ni_xs_scope`, with an address that no other scope ever has. -/
structure Scope where
  addr : Nat
  name : Option CString
  types : List (CString × XsType) := []
  services : List Service := []
  classes : List ClassDef := []
  constants : List NiVar := []
  children : List Scope := []

def Scope.addChild (scope child : Scope) : Scope :=
  { scope with children := scope.children ++ [child] }

def Scope.lookupLocal (scope : Scope) (name : CString) : Option XsType :=
  (scope.types.find? fun entry => entry.1 = name).map Prod.snd

def Scope.lookupScope (scope : Scope) (name : CString) : Option Scope :=
  scope.children.find? fun child => child.name = some name

/-- The outermost scope, with those that are being built in their places. A scope without a name is
in no list. -/
def outermost : Scope → List Scope → Scope
  | scope, [] => scope
  | scope, parent :: outer =>
    outermost (if scope.name.isSome then parent.addChild scope else parent) outer

/-- What processing comes to, each before it is done. -/
inductive Step
  /-- The name of an element is read. -/
  | named (name : Option CString)
  /-- A name is looked up, with the types of the outermost scope. -/
  | looked (name : CString) (types : List (CString × XsType))
  /-- A type is changed, which is cloned before if there are other references to it. -/
  | changed (ref : Ref)
  /-- The value of a constraint attribute is read. -/
  | constrained (value : Option CString)
  /-- A group is looked for in a table. -/
  | grouped (groups : Option (List Group))
  /-- The bounds of a range are read. -/
  | ranged (node : Node)
  /-- An element is a member of a type that is not named by its own name. -/
  | joined (node : Node)
  /-- A file is read, with the number of files that it may be in. -/
  | included (depth : Nat)
  /-- A scope without a name is freed after types were built in it. -/
  | freed (scope : Scope) (built : List XsType)

/-- A `NULL` pointer is used, an end pointer is stored into a text, or there are too many files in
files. -/
inductive Crash
  | null
  | endPointer
  | tooDeep
  deriving DecidableEq

/-- The scopes around the one in use, innermost first, the file that is processed and the notations
that are registered. -/
structure Surroundings where
  outer : List Scope := []
  filename : CString := []
  notations : List ArrayNotation := []

/-- The scope in use, and the addresses of the next scope and the next group. -/
structure Building where
  scope : Scope
  nextScope : Nat
  nextGroup : Nat := 0

abbrev Builder (α : Type) : Type := Noted Surroundings Building Step Crash α

def inScope (name : Option CString) (leave : Building → Building → Building) (program : Builder α) :
    Builder α :=
  inside (fun around s => { around with outer := s.scope :: around.outer })
    (fun s => { s with scope := { addr := s.nextScope, name }, nextScope := s.nextScope + 1 })
    leave program

/-- In a new scope of some name, which remains. -/
def inNamedScope (name : CString) (program : Builder α) : Builder α :=
  inScope (some name) (fun s s' => { s' with scope := s.scope.addChild s'.scope }) program

/-- In a new scope without a name, which `ni_xs_scope_free` frees with all scopes in it. -/
def inTempScope (built : α → List XsType) (program : Builder α) : Builder α :=
  inScope none (fun s s' => { s' with scope := s.scope }) do
    let value ← program
    let s ← get
    note (.freed s.scope (built value))
    return value

/-- Compare the name of an element, or copy it. -/
def readName (node : Node) : Builder CString := do
  note (.named node.name)
  match node.name with
  | none => stop .null
  | some name => return name

/-- `strtok` for all parts. -/
def tokens (name : CString) : List CString := (name.splitOn 58).filter fun part => part ≠ []

def lookupPath : Scope → List CString → Option XsType
  | _, [] => none
  | scope, [last] => scope.lookupLocal last
  | scope, first :: rest => (scope.lookupScope first).bind fun child => lookupPath child rest

/-- `ni_xs_scope_lookup`. With nothing but colons the name of each type is compared with `NULL`. -/
def lookup (name : CString) : Builder (Option XsType) := do
  let around ← ask
  let s ← get
  let root := outermost s.scope around.outer
  note (.looked name root.types)
  if 58 ∈ name then
    if tokens name = [] then
      if root.types.isEmpty then return none else stop .null
    else return lookupPath root (tokens name)
  else return (s.scope :: around.outer).findSome? fun scope => scope.lookupLocal name

def typedef (name : CString) (type : XsType) : Builder Bool := do
  let s ← get
  if (s.scope.lookupLocal name).isSome then return false
  else
    let origdef := type.common.origdef.getD ⟨s.scope.addr, name⟩
    let type := type.setCommon { type.common with origdef := some origdef }
    modify fun s => { s with scope := { s.scope with types := s.scope.types ++ [(name, type)] } }
    return true

/-- `ni_xs_type_clone_and_release`. There is no clone of a void type. -/
def cloneAndRelease (ref : Ref) : Builder Ref := do
  note (.changed ref)
  if ref.sole then return ref
  else if ref.type.isVoid then stop .null
  else return ⟨ref.type.setCommon ref.type.clonedCommon, true⟩

def isClassName (name : CString) : Bool :=
  name ∈ ["scalar", "dict", "struct", "union", "array"].map fun text => ascii text.toList

def isReservedName (name : CString) : Bool :=
  name ∈ ["dict", "struct", "union", "array", "define", "object-class"].map fun text =>
    ascii text.toList

def getChild (name : CString) : List Node → Builder (Option Node)
  | [] => return none
  | child :: rest => do
    if (← readName child) = name then return some child else getChild name rest

def getDescription (node : Node) : Builder (Option CString) :=
  match node.getAttr (ascii "description".toList) with
  | some description => return some description
  | none => do
    let dnode ← getChild (ascii "description".toList) node.children
    return dnode.bind Node.cdata

def setDescription (ref : Ref) (node : Node) : Builder Ref := do
  match ← getDescription node with
  | none => return ref
  | some description =>
    let ref ← cloneAndRelease ref
    return { ref with type := ref.type.setCommon { ref.type.common with description } }

/-- `__ni_xs_intmap_build`, after an element with a value. -/
def intmapBuild (attrName : CString) : UInt32 → List Node → Builder (Option IntMap)
  | _, [] => return some []
  | lastValue, child :: rest => do
    let (value, ep) := match child.getAttr attrName with
      | none => (lastValue + 1, [])
      | some text => (UInt32.ofNat (strtoul 0 text).1, (strtoul 0 text).2.1)
    if ep ≠ [] then return none
    else
      let name ← readName child
      return (← intmapBuild attrName value rest).map (⟨name, value⟩ :: ·)

/-- `ni_xs_build_range_constraint`. The end pointer of a bound is stored into its text. -/
def buildRangeConstraint (node : Node) : Builder Range := do
  note (.ranged node)
  match node.getAttr (ascii "min".toList), node.getAttr (ascii "max".toList) with
  | none, none => return ⟨0, 2 ^ 64 - 1⟩
  | _, _ => stop .endPointer

def groupGet (groups : Option (List Group)) (relation : Relation) (name : CString) :
    Builder (Group × List Group) := do
  note (.grouped groups)
  match groups with
  | none => stop .null
  | some groups =>
    match groups.find? fun group => group.relation = relation ∧ group.name = name with
    | some group => return (group, groups)
    | none =>
      let s ← get
      modify fun s => { s with nextGroup := s.nextGroup + 1 }
      return (⟨s.nextGroup, relation, name⟩, groups ++ [⟨s.nextGroup, relation, name⟩])

/-- What a type under constraints has become, unless an error was reported, and the table of the
groups. -/
structure Constrained where
  ref : Option Ref
  groups : Option (List Group)

/-- A group constraint. A type may have one. -/
def constrainGroup (relation : Relation) (name : CString) (ref : Ref) (groups : Option (List Group)) :
    Builder Constrained := do
  if ref.type.common.group.isSome then return ⟨none, groups⟩
  else
    let (group, groups) ← groupGet groups relation name
    let common := { ref.type.common with group := some group }
    return ⟨some { ref with type := ref.type.setCommon common }, some groups⟩

/-- A constraint on the values of a scalar. -/
def constrainScalar (node : Node) (value : CString) (common : Common) (info : ScalarInfo) :
    Builder (Option XsType) := do
  if value = ascii "bitmap".toList then
    let map ← intmapBuild (ascii "bit".toList) 0 node.children
    return map.map fun map => .scalar common { info with bitmap := some map }
  else if value = ascii "enum".toList then
    let map ← intmapBuild (ascii "value".toList) 0 node.children
    return map.map fun map => .scalar common { info with enums := some map }
  else if value = ascii "range".toList then
    let range ← buildRangeConstraint node
    return some (.scalar common { info with range := some range })
  else return some (.scalar common info)

/-- The body of the loop in `ni_xs_type_build_constraints`. -/
def buildConstraint (node : Node) (value : CString) (ref : Ref) (groups : Option (List Group)) :
    Builder Constrained :=
  if value = ascii "required".toList then
    let common := { ref.type.common with mandatory := true }
    return ⟨some { ref with type := ref.type.setCommon common }, groups⟩
  else if value.take 9 = ascii "required:".toList then
    constrainGroup .require (value.drop 9) ref groups
  else if value.take 10 = ascii "exclusive:".toList then
    constrainGroup .conflict (value.drop 10) ref groups
  else match ref.type with
    | .scalar common info => do
      let type ← constrainScalar node value common info
      return ⟨type.map fun type => { ref with type }, groups⟩
    | _ => return ⟨some ref, groups⟩

/-- `ni_xs_type_build_constraints`, over the attributes. -/
def buildConstraints (node : Node) : List NiVar → Ref → Option (List Group) → Builder Constrained
  | [], ref, groups => return ⟨some ref, groups⟩
  | attr :: rest, ref, groups =>
    if attr.name ≠ ascii "constraint".toList then buildConstraints node rest ref groups
    else do
      let ref ← cloneAndRelease ref
      note (.constrained attr.value)
      match attr.value with
      | none => stop .null
      | some value =>
        let constrained ← buildConstraint node value ref groups
        match constrained.ref with
        | none => return constrained
        | some ref => buildConstraints node rest ref constrained.groups

end Testbus.Schema.Build
