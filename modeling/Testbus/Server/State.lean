import Testbus.Environ
import Testbus.Eventlog
import Testbus.Lib.Counted

namespace Testbus.Server

open Lib Testbus.Environ Testbus.Dbus

/-- What the operations table of a container makes it. -/
inductive Kind
  | globalContext
  | host
  | testcase
  | command
  | process
  deriving DecidableEq

/-- The features that are about children: a container of the first kind may have some of
the second. -/
def Kind.has : Kind → Kind → Bool
  | .globalContext, child => child ≠ .globalContext
  | .testcase, .host | .testcase, .testcase | .testcase, .command => true
  | .host, .command | .host, .process => true
  | _, _ => false

def Kind.dbusNamePrefix : Kind → CString
  | .globalContext => []
  | .host => ascii ['H', 'o', 's', 't']
  | .testcase => ascii ['T', 'e', 's', 't']
  | .command => ascii ['C', 'o', 'm', 'm', 'a', 'n', 'd']
  | .process => ascii ['P', 'r', 'o', 'c', 'e', 's', 's']

/-- `ni_testbus_host_array` and its likes. -/
structure ChildArray where
  data : List Addr := []
  nextId : UInt32 := 0
  deriving DecidableEq

abbrev Uuid := BitVec 128

/-- `struct ni_testbus_container`, with the fields that hosts and processes add to it. -/
structure Container where
  kind : Kind
  dbusObjectPath : Option CString := none
  refcount : Nat := 1
  id : UInt32 := 0
  name : Option CString := none
  parent : Option Addr := none
  owner : Option Addr := none
  env : Env := {}
  children : Kind → ChildArray := fun _ => {}
  uuid : Uuid := 0
  agentBusName : Option CString := none
  role : Option CString := none
  eventlog : Option Eventlog := none
  capabilities : List CString := []
  generation : UInt32 := 0
  ready : Bool := false
  command : Option Addr := none
  exitInfo : Option ExitInfo := none

def Container.setChildren (child : Kind) (array : ChildArray) (self : Container) : Container :=
  { self with children := Function.update self.children child array }

def Container.setData (child : Kind) (data : List Addr) (self : Container) : Container :=
  self.setChildren child { self.children child with data := data }

/-- A D-Bus object; `handle` is its container, if it is for one. -/
structure Object where
  path : CString
  handle : Option Addr := none
  deriving DecidableEq

/-- The master. A new container lies at `next`, and no address is used again. `made` are
the paths that containers ever got, and `owned` the bus names that have an owner. -/
structure World where
  heap : Store Container
  next : Addr
  objects : List Object
  nameMappings : List (CString × CString) := []
  made : List CString := []
  owned : List CString := []

/-- Why the master stops. -/
inductive Fault
  | assertion
  | freed
  | fatal
  | fuel
  /-- The bus does not bring such a message. -/
  | disabled
  deriving DecidableEq

namespace World

/-- Read a container through a pointer. -/
def deref (w : World) (container : Addr) : Except Fault Container :=
  match w.heap.cells container with
  | some self => .ok self
  | none => .error .freed

def modify (w : World) (container : Addr) (change : Container → Container) : World :=
  { w with heap := w.heap.modify container change }

@[simp] theorem cells_modify_heap (w : World) (container : Addr) (change : Container → Container) :
    (w.modify container change).heap = w.heap.modify container change := rfl

theorem deref_ok {w : World} {container : Addr} {self : Container} :
    w.deref container = .ok self ↔ w.heap.cells container = some self := by
  unfold deref
  cases w.heap.cells container <;> simp

end World

/-- The global context lies where no other container does. -/
def globalContext : Addr := 0

def rootPath : CString :=
  ascii ['/', 'o', 'r', 'g', '/', 'o', 'p', 'e', 'n', 's', 'u', 's', 'e', '/', 'T', 'e', 's', 't',
    'b', 'u', 's']

def globalContextPath : CString :=
  rootPath ++ ascii ['/', 'G', 'l', 'o', 'b', 'a', 'l', 'C', 'o', 'n', 't', 'e', 'x', 't']

def hostlistPath : CString := rootPath ++ ascii ['/', 'H', 'o', 's', 't']

/-- The master before its first message. -/
def World.initial : World where
  heap := Store.empty.alloc globalContext
    { kind := .globalContext
      name := some (ascii ['g', 'l', 'o', 'b', 'a', 'l', 'c', 'o', 'n', 't', 'e', 'x', 't']) }
  next := 1
  objects := [⟨rootPath, none⟩, ⟨hostlistPath, none⟩, ⟨globalContextPath, some globalContext⟩]

def slash : UInt8 := 0x2f

/-- `strtok` with slashes. -/
def strtok (path : CString) : List CString :=
  (path.splitOn slash).filter fun name => name ≠ []

def relativePath (ancestor descendant : CString) : Option CString :=
  if ancestor.isPrefixOf descendant then
    match descendant.drop ancestor.length with
    | [] => some []
    | c :: rest => if c = slash then some (rest.dropWhile fun c => c = slash) else none
  else none

def childPath (parent name : CString) : CString := parent ++ slash :: name

def getChild (objects : List Object) (parent name : CString) : Option Object :=
  objects.find? fun object => object.path = childPath parent name

/-- `__ni_dbus_object_lookup` from the object found so far, without creating. -/
def lookupFrom (objects : List Object) (found : Object) : List CString → Option Object
  | [] => some found
  | name :: rest =>
    match getChild objects found.path name with
    | some child => lookupFrom objects child rest
    | none => none

/-- The names on the way from the root to an object, absolute or relative. -/
def lookupNames (path : CString) : Option (List CString) :=
  match path with
  | [] => some []
  | c :: _ =>
    if c = slash then (relativePath rootPath path).map strtok else some (strtok path)

def objectLookup (objects : List Object) (path : CString) : Option Object := do
  let names ← lookupNames path
  let root ← objects.find? fun object => object.path = rootPath
  lookupFrom objects root names

/-- `__ni_dbus_object_lookup` that creates what is missing, with the handle for the last. -/
def createFrom (objects : List Object) (found : Object) (handle : Addr) :
    List CString → Except Fault (List Object × Object)
  | [] => .ok (objects, found)
  | name :: rest =>
    match getChild objects found.path name with
    | some child => createFrom objects child handle rest
    | none =>
      if found.path.length + name.length + 2 ≥ 256 then .error .fatal
      else
        let child : Object :=
          { path := childPath found.path name, handle := if rest = [] then some handle else none }
        createFrom (objects ++ [child]) child handle rest

/-- `ni_dbus_object_create`; that it cannot is fatal to its caller. -/
def objectCreate (objects : List Object) (path : CString) (handle : Addr) :
    Except Fault (List Object × Object) :=
  match objectLookup objects path with
  | some object => if object.handle = some handle then .ok (objects, object) else .error .fatal
  | none =>
    match lookupNames path, objects.find? fun object => object.path = rootPath with
    | some names, some root => createFrom objects root handle names
    | _, _ => .error .fatal

/-- `%u`. -/
def decimal (id : UInt32) : CString := ascii (Nat.toDigits 10 id.toNat)

/-- The name of a container among the children of its parent object. -/
def Kind.objectName (kind : Kind) (id : UInt32) : CString := kind.dbusNamePrefix ++ decimal id

/-- `ni_testbus_container_build_path`, into a buffer of 256 characters. -/
def buildPath (parent : CString) (kind : Kind) (id : UInt32) : CString :=
  (childPath parent (kind.objectName id)).take 255

end Testbus.Server
