import Testbus.Schema.Build

namespace Testbus.Schema.Build

open Lib Noted Xml Environ

/-- What `ni_xs_build_typelist` has added to, and whether it goes on. -/
structure Typelist where
  done : Bool := true
  members : Members
  groups : Option (List Group) := none

def Typelist.failed (list : Typelist) : Typelist := { list with done := false }

def Typelist.built (list : Typelist) : List XsType := list.members.map Prod.snd

/-- What can be made of the children of an element. -/
structure Content where
  /-- `ni_xs_build_typelist`, with whether children may be anonymous. -/
  typelist : Bool → Typelist → Builder Typelist
  /-- `ni_xs_build_one_type` -/
  oneType : Builder (Option Ref)

section Types

variable (content : Content) (node : Node)

def attr (node : Node) (name : String) : Option CString := node.getAttr (ascii name.toList)

/-- The type that `extends` names, if it is there. -/
def baseType : Builder (Option (Option XsType)) :=
  match attr node "extends" with
  | none => return some none
  | some name => return (← lookup name).map some

/-- `ni_xs_build_complex_type` for a struct. -/
def buildStruct : Builder (Option XsType) := do
  match ← baseType node with
  | none => return none
  | some base =>
    match base with
    | some (.struct _ inherited) => members inherited
    | some _ => return none
    | none => members []
where
  members (inherited : Members) : Builder (Option XsType) := do
    let list ← content.typelist true { members := inherited }
    if list.done then return some (.struct {} list.members) else return none

/-- `ni_xs_build_complex_type` for a union. -/
def buildUnion : Builder (Option XsType) :=
  match attr node "switch" with
  | none => return none
  | some discriminant => do
    let list ← content.typelist true { members := [] }
    if list.done then return some (.union {} list.members discriminant) else return none

/-- The notation of an array of scalars, if it is known and fits. -/
def arrayNotation (elementType : XsType) : Builder (Option (Option ArrayNotation)) := do
  let around ← ask
  match elementType, attr node "notation" with
  | .scalar _ info, some name =>
    match around.notations.find? fun known => known.name = name with
    | none => return none
    | some known =>
      if known.arrayElementType = info.type then return some (some known) else return none
  | _, _ => return some none

/-- The type of the elements, by its name or as the only type among the children. -/
def arrayElementType : Builder (Option XsType) :=
  match attr node "element-type" with
  | some name => lookup name
  | none => do return (← content.oneType).map Ref.type

/-- `ni_xs_build_complex_type` for an array. -/
def buildArray : Builder (Option XsType) := do
  match ← arrayElementType content node with
  | none => return none
  | some elementType =>
    let elementName := (attr node "element-name").filter fun name => name ≠ []
    let minlen := ((attr node "minlen").map fun text => (strtoul 0 text).1).getD 0
    let maxlen := ((attr node "maxlen").map fun text => (strtoul 0 text).1).getD (2 ^ 64 - 1)
    match ← arrayNotation node elementType with
    | none => return none
    | some form => return some (.array {} elementType elementName minlen maxlen form)

/-- `ni_xs_build_complex_type` for a dict. The groups of the type that it extends are not taken. -/
def buildDict : Builder (Option XsType) := do
  match ← baseType node with
  | none => return none
  | some base =>
    match base with
    | some (.dict _ inherited _) => members inherited
    | some _ => return none
    | none => members []
where
  members (inherited : Members) : Builder (Option XsType) := do
    let list ← content.typelist false { members := inherited, groups := some [] }
    if list.done && list.members.all fun entry => entry.1.name.isSome then
      return some (.dict {} list.members (list.groups.getD []))
    else return none

/-- The type of a class that `ni_xs_build_complex_type` knows. -/
def buildClass (className : CString) : Builder (Option XsType) :=
  if className = ascii "struct".toList then buildStruct content node
  else if className = ascii "union".toList then buildUnion content node
  else if className = ascii "array".toList then buildArray content node
  else if className = ascii "dict".toList then buildDict content node
  else if className = ascii "void".toList then return some (.void {})
  else return none

def buildComplexType (className : CString) : Builder (Option Ref) := do
  match ← buildClass content node className with
  | none => return none
  | some type => return some (← setDescription ⟨type, true⟩ node)

def metaName : CString := ascii "meta".toList

def metaMark : CString := ascii "meta:".toList

/-- A child is moved into the meta element, without the mark in its name. -/
def addMeta (meta_ : Option Node) (name : CString) : Node → Option Node
  | .mk _ attrs cdata children line =>
    some ((meta_.getD (Node.new (some metaName))).addChild
      (.mk (some (name.drop 5)) attrs cdata children line))

/-- The meta element among the children of a simple type. -/
def collectMeta : Option Node → List Node → Builder (Option Node)
  | meta_, [] => return meta_
  | meta_, child :: rest =>
    if child.name = some metaName then collectMeta (meta_ <|> some child) rest
    else do
      let name ← readName child
      if strcaseeq (name.take 5) metaMark then collectMeta (addMeta meta_ name child) rest
      else collectMeta meta_ rest

/-- `ni_xs_build_simple_type`, with the table of the groups. -/
def buildSimpleType (typeName : CString) (groups : Option (List Group)) : Builder Constrained := do
  match ← lookup typeName with
  | none => return ⟨none, groups⟩
  | some type =>
    let constrained ← buildConstraints node node.attrs ⟨type, false⟩ groups
    match constrained.ref with
    | none => return constrained
    | some ref =>
      match ← collectMeta none node.children with
      | none => return constrained
      | some meta_ =>
        let ref ← cloneAndRelease ref
        let common := { ref.type.common with meta_ := ref.type.common.meta_ <|> some meta_ }
        return { constrained with ref := some { ref with type := ref.type.setCommon common } }

end Types

section Definitions

variable (content : Content) (node : Node)

def hasClassOrType : Bool := (attr node "class").isSome || (attr node "type").isSome

/-- The type of a definition with children or with a class or a type. -/
def definedType (name : CString) : Builder (Option Ref) :=
  match attr node "class", attr node "type" with
  | some className, _ => inNamedScope name (buildComplexType content node className)
  | none, some typeName => do
    let constrained ← inNamedScope name (buildSimpleType node typeName none)
    return constrained.ref
  | none, none => content.oneType

def setConstant (name value : CString) : Builder Unit :=
  modify fun s =>
    { s with scope := { s.scope with constants := niVarArraySet s.scope.constants name (some value) } }

def processDefine : Builder Bool := do
  if node.name ≠ some (ascii "define".toList) then return false
  else match attr node "name" with
  | none => return false
  | some name =>
    if isReservedName name then return false
    else if !hasClassOrType node && node.children.isEmpty then
      setConstant name (node.cdata.getD [])
      return true
    else
      match ← definedType content node name with
      | none => return false
      | some ref =>
        let ref ← setDescription ref node
        typedef name ref.type

/-- The type of a member that has one by an attribute. -/
def memberType (groups : Option (List Group)) : Builder Constrained :=
  match attr node "class", attr node "type" with
  | some className, _ => do return ⟨← buildComplexType content node className, groups⟩
  | none, some typeName => buildSimpleType node typeName groups
  | none, none => return ⟨none, groups⟩

/-- A member of some type is added to a list, and the reference to the type is released. -/
def append (list : Typelist) (name : Option CString) (type : XsType) : Builder Typelist := do
  let description ← getDescription node
  return { list with members := list.members ++ [(⟨name, description⟩, type)] }

/-- A member that has a type or not. Where nothing gave it one it is added all the same, and then
the type is released. -/
def appendMember (name : CString) (list : Typelist) : Option Ref → Builder Typelist
  | some ref => append node list (some name) ref.type
  | none => if hasClassOrType node then return list.failed else stop .null

/-- An element whose name is that of no type. -/
def joinMember (name : CString) (list : Typelist) : Builder Typelist := do
  note (.joined node)
  let constrained ← inNamedScope name (memberType content node list.groups)
  appendMember node name { list with groups := constrained.groups } constrained.ref

/-- The body of the loop in `ni_xs_build_typelist`. -/
def buildMember (allowAnon : Bool) (list : Typelist) : Builder Typelist :=
  match node.name with
  | none => return list
  | some name =>
    if name = ascii "define".toList then
      return if ← processDefine content node then list else list.failed
    else if name = ascii "description".toList then return list
    else if isClassName name then do
      let found ← inTempScope (fun found => (found.map Ref.type).toList)
        (buildComplexType content node name)
      match found with
      | none => return list.failed
      | some ref => append node list none ref.type
    else do
      match ← lookup name with
      | some type =>
        if hasClassOrType node then return list.failed
        else if !allowAnon then return list.failed
        else append node list none type
      | none =>
        if isReservedName name then return list.failed
        else if (← lookup name).isSome then return list.failed
        else joinMember content node name list

/-- `ni_xs_build_typelist`, over children with what can be made of theirs. -/
def buildTypelist : List (Node × Content) → Bool → Typelist → Builder Typelist
  | [], _, list => return list
  | (child, content) :: rest, allowAnon, list => do
    let list ← buildMember content child allowAnon list
    if list.done then buildTypelist rest allowAnon list else return list

/-- The type of an element that has no name of its own. -/
def anonymousType (name : CString) : Builder (Option XsType) :=
  if isClassName name then
    inTempScope Option.toList (do return (← buildComplexType content node name).map Ref.type)
  else lookup name

/-- `ni_xs_build_one_type`, after a type was found or not. -/
def buildOneType : Option XsType → List (Node × Content) → Builder (Option Ref)
  | result, [] => return result.map fun type => ⟨type, false⟩
  | result, (child, content) :: rest => do
    let name ← readName child
    if name = ascii "define".toList then
      if ← processDefine content child then buildOneType result rest else return none
    else if name = ascii "description".toList then buildOneType result rest
    else if result.isSome then return none
    else
      match ← anonymousType content child name with
      | none => return none
      | some type => buildOneType (some type) rest

end Definitions

mutual

/-- What can be made of the children of a node. -/
def contentOf : Node → Content
  | .mk _ _ _ children _ =>
    { typelist := buildTypelist (contents children), oneType := buildOneType none (contents children) }

def contents : List Node → List (Node × Content)
  | [] => []
  | child :: rest => (child, contentOf child) :: contents rest

end

/-- The body of the loop in `ni_xs_process_method`. -/
def methodChild (child : Node) (method : Method) : Builder (Bool × Method) :=
  if child.name = some (ascii "arguments".toList) then do
    let list ← inTempScope Typelist.built
      ((contentOf child).typelist true { members := method.arguments })
    return (list.done, { method with arguments := list.members })
  else if child.name = some (ascii "return".toList) then do
    let found ← inTempScope (fun found => (found.map Ref.type).toList) (contentOf child).oneType
    match found with
    | none => return (false, method)
    | some ref => return (true, { method with retval := some ref.type })
  else if child.name = some (ascii "description".toList) then
    return (true, { method with description := child.cdata })
  else if child.name = some metaName then return (true, { method with meta_ := some child })
  else do
    let name ← readName child
    if name.take 5 = metaMark then
      return (true, { method with meta_ := addMeta method.meta_ name child })
    else return (true, method)

/-- The body of the loop in `ni_xs_process_signal`. -/
def signalChild (child : Node) (signal : Method) : Builder (Bool × Method) :=
  if child.name = some (ascii "arguments".toList) then do
    let list ← inTempScope Typelist.built
      ((contentOf child).typelist true { members := signal.arguments })
    return (list.done, { signal with arguments := list.members })
  else if child.name = some (ascii "description".toList) then
    return (true, { signal with description := child.cdata })
  else return (true, signal)

def eachChild {α : Type} (process : Node → α → Builder (Bool × α)) : List Node → α → Builder (Bool × α)
  | [], a => return (true, a)
  | child :: rest, a => do
    let (done, a) ← process child a
    if done then eachChild process rest a else return (false, a)

/-- `ni_xs_process_method` and `ni_xs_process_signal`, with what is added to the service. -/
def processMethod (process : Node → Method → Builder (Bool × Method)) (node : Node) :
    Builder (Bool × List Method) :=
  match attr node "name" with
  | none => return (false, [])
  | some name => do
    let (done, method) ← eachChild process node.children { name }
    return (done, [method])

/-- The body of the loop in `ni_xs_process_service`. -/
def serviceChild (child : Node) (service : Service) : Builder (Bool × Service) := do
  let name ← readName child
  if name = ascii "define".toList then return (← processDefine (contentOf child) child, service)
  else if name = ascii "method".toList then
    let (done, added) ← processMethod methodChild child
    return (done, { service with methods := service.methods ++ added })
  else if name = ascii "signal".toList then
    let (done, added) ← processMethod signalChild child
    return (done, { service with signals := service.signals ++ added })
  else if name = ascii "description".toList then
    return (true, { service with description := child.cdata })
  else return (true, service)

/-- The attributes that a service keeps. -/
def serviceAttributes (attrs : List NiVar) : List NiVar :=
  (attrs.filter fun var => var.name ≠ ascii "name".toList && var.name ≠ ascii "interface".toList).foldl
    (fun kept var => niVarArraySet kept var.name var.value) []

/-- `ni_xs_process_service`. The service is in its scope from the start, but nothing looks at it. -/
def processService (node : Node) : Builder Bool :=
  match attr node "name", attr node "interface" with
  | some name, some interface =>
    if isReservedName name then return false
    else do
      let (done, service) ← inNamedScope name (eachChild serviceChild node.children
        { name, interface, attributes := serviceAttributes node.attrs })
      modify fun s => { s with scope := { s.scope with services := s.scope.services ++ [service] } }
      return done
  | _, _ => return false

def processClass (node : Node) : Builder Bool :=
  if node.name ≠ some (ascii "object-class".toList) then return false
  else match attr node "name" with
  | none => return false
  | some name => do
    let added := { name, baseName := attr node "base-class" }
    modify fun s => { s with scope := { s.scope with classes := s.scope.classes ++ [added] } }
    return true

/-- The path of an included file, in a buffer of `PATH_MAX` bytes. A name without a slash is taken
for a directory. -/
def includePath (node : Node) (filename name : CString) : CString :=
  if name.head? ≠ some 47 && node.line.isSome then
    let directory :=
      if 47 ∈ filename then ((filename.reverse.dropWhile (· ≠ 47)).drop 1).reverse else filename
    (directory ++ 47 :: name).take 4095
  else name

def processInclude (schemaFile : CString → Builder Bool) (node : Node) : Builder Bool :=
  match attr node "name" with
  | none => return false
  | some name => do
    let around ← ask
    schemaFile (includePath node around.filename name)

/-- The body of the loop in `ni_xs_process_schema`. -/
def schemaElement (schemaFile : CString → Builder Bool) (child : Node) : Builder Bool := do
  let name ← readName child
  if name = ascii "include".toList then processInclude schemaFile child
  else if name = ascii "object-class".toList then processClass child
  else if name = ascii "define".toList then processDefine (contentOf child) child
  else if name = ascii "service".toList then processService child
  else return false

/-- `ni_xs_process_schema`, over the elements. -/
def processSchema (schemaFile : CString → Builder Bool) : List Node → Builder Bool
  | [] => return true
  | child :: rest => do
    if ← schemaElement schemaFile child then processSchema schemaFile rest else return false

/-- `ni_xs_process_schema_file`, with what `xml_document_read` finds at each path. -/
def processSchemaFile (files : CString → Option Node) : Nat → CString → Builder Bool
  | 0, _ => do
    note (.included 0)
    stop .tooDeep
  | depth + 1, filename => do
    note (.included (depth + 1))
    match files filename with
    | none => return false
    | some root =>
      inside (fun around _ => { around with filename }) id (fun _ s => s)
        (processSchema (processSchemaFile files depth) root.children)

def scalarTypes : List (String × Option BasicType) :=
  [("boolean", some .boolean), ("byte", some .byte), ("string", some .string),
    ("double", some .double), ("uint16", some .uint16), ("uint32", some .uint32),
    ("uint64", some .uint64), ("int16", some .int16), ("int32", some .int32),
    ("int64", some .int64), ("object-path", some .objectPath), ("flag", none)]

/-- A scalar, which is defined in the scope that they are all in. -/
def scalarType (scalar : String × Option BasicType) : XsType :=
  .scalar { origdef := some ⟨0, ascii scalar.1.toList⟩ }
    { basicName := ascii scalar.1.toList, type := scalar.2 }

/-- `ni_dbus_xml_init` -/
def initialScope : Scope where
  addr := 0
  name := some (ascii "dbus".toList)
  types := scalarTypes.map fun scalar => (ascii scalar.1.toList, scalarType scalar)

def initialBuilding : Building := { scope := initialScope, nextScope := 1 }

/-- An element with attributes. -/
def element (name : String) (attrs : List (String × String)) (children : List Node) : Node :=
  .mk (some (ascii name.toList))
    (attrs.map fun (name, value) => ⟨ascii name.toList, some (ascii value.toList)⟩) none children none

end Testbus.Schema.Build
