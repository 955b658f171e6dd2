import Testbus.Lib.Forest
import Testbus.Lib.Machine
import Testbus.Server.State

namespace Testbus.Dbus.Objects

open Lib Testbus.Server

/-- Known by its name. -/
abbrev Class := CString

def anonymousClass : Class :=
  ascii ['<', 'a', 'n', 'o', 'n', 'y', 'm', 'o', 'u', 's', '>']

def rootObjectClass : Class := ascii ['<', 'r', 'o', 'o', 't', '>']

/-- `struct ni_dbus_object`, at the address `addr`. -/
structure Object where
  addr : Addr
  name : CString := []
  path : CString
  class_ : Class
  handle : Option Addr := none
  /-- It has a `server_object`. -/
  serverObject : Bool := true
  deriving DecidableEq

/-- A new object lies at `next`, and no address is used again. -/
structure State where
  tree : Forest Object
  trashcan : Forest Object := .nil
  /-- The user data that libdbus has for a path. -/
  registered : CString → Option Addr
  next : Addr

/-- Why the server stops. -/
inductive Fault
  | freed
  | fatal
  /-- libdbus and the callers do not do such a thing. -/
  | disabled
  deriving DecidableEq

namespace State

/-- The objects that have not been freed. -/
def objects (s : State) : List Object := s.tree.flatten ++ s.trashcan.flatten

def addresses (s : State) : List Addr := s.objects.map Object.addr

/-- Those that are gone from the tree and that a collection frees. -/
def deleted (s : State) : List Addr := s.trashcan.flatten.map Object.addr

/-- Write to an object, wherever it is. -/
def modify (s : State) (object : Addr) (change : Object → Object) : State :=
  let here := fun self => if self.addr = object then change self else self
  { s with tree := s.tree.map here, trashcan := s.trashcan.map here }

/-- `dbus_connection_register_object_path`, which fails when the path is in use. -/
def register (s : State) (path : CString) (object : Addr) : State :=
  if s.registered path = none then
    { s with registered := Function.update s.registered path (some object) }
  else s

/-- `dbus_connection_unregister_object_path`, with `__ni_dbus_object_unregister` for what was
registered. The objects of a tree that is being freed are `pending`. -/
def unregister (s : State) (pending : List Object) (path : CString) : Except Fault State :=
  match s.registered path with
  | none => .ok s
  | some object =>
    if object ∈ pending.map Object.addr ++ s.addresses then
      .ok ({ s with registered := Function.update s.registered path none }.modify object
        fun self => { self with handle := none })
    else .error .freed

def serverObjectDestroy (s : State) (pending : List Object) (object : Object) : Except Fault State :=
  if object.serverObject then do
    let s ← s.unregister pending object.path
    .ok (s.modify object.addr fun self => { self with serverObject := false })
  else .ok s

/-- `__ni_dbus_object_free` for one object after the other. An object counts as freed as soon
as its children are next. -/
def freeObjects (s : State) : List Object → Except Fault State
  | [] => .ok s
  | object :: rest => do
    let s ← s.serverObjectDestroy (object :: rest) object
    s.freeObjects rest

/-- `ni_dbus_objects_garbage_collect` takes the trees off the trashcan and frees each from its
root on. -/
def garbageCollect (s : State) : Except Fault State :=
  { s with trashcan := .nil }.freeObjects s.trashcan.flatten

/-- Unlink an object that has a parent. -/
def unlink (s : State) (object : Addr) : Option (Object × Forest Object × State) :=
  match s.tree.detachInner fun self => self.addr = object with
  | some (self, children, tree) => some (self, children, { s with tree })
  | none =>
    (s.trashcan.detachInner fun self => self.addr = object).map
      fun (self, children, trashcan) => (self, children, { s with trashcan })

def unregisterObject (s : State) (object : Addr) : Except Fault State :=
  match s.objects.find? fun self => self.addr = object with
  | none => .error .disabled
  | some self =>
    if (s.unlink object).isNone then .ok s
    else do
      let s ← s.serverObjectDestroy [] self
      match s.unlink object with
      | some (self, children, s) => .ok { s with trashcan := .cons self children s.trashcan }
      | none => .ok s

def getChild (s : State) (parent : Object) (name : CString) : Option Object := do
  let (_, children) ← s.tree.node? fun self => self.addr = parent.addr
  let (child, _) ← children.sibling? fun self => self.name = name
  return child

def newChild (s : State) (parent : Object) (class_ : Option Class) (name : CString)
    (handle : Option Addr) : Except Fault (State × Object) :=
  if parent.path.length + name.length + 2 ≥ 256 then .error .fatal
  else
    let child : Object := {
      addr := s.next
      name
      path := childPath parent.path name
      class_ := class_.getD anonymousClass
      handle
      serverObject := parent.serverObject }
    match s.tree.insertUnder (fun self => self.addr = parent.addr) child with
    | none => .error .freed
    | some tree =>
      let s := { s with tree, next := s.next + 1 }
      .ok (if parent.serverObject then s.register child.path child.addr else s, child)

/-- The loop of `__ni_dbus_object_lookup` over the names of a path. -/
def lookupFrom (s : State) (found : Object) : List CString → Option Object
  | [] => some found
  | name :: rest =>
    match s.getChild found name with
    | some child => s.lookupFrom child rest
    | none => none

/-- The same loop when it creates what is missing. -/
def createFrom (s : State) (found : Object) (class_ : Option Class) (handle : Option Addr) :
    List CString → Except Fault (State × Object)
  | [] => .ok (s, found)
  | name :: rest =>
    match s.getChild found name with
    | some child => s.createFrom child class_ handle rest
    | none => do
      let (s, child) ← if rest = [] then s.newChild found class_ name handle
        else s.newChild found none name none
      s.createFrom child class_ handle rest

/-- The names of a path, relative to an object if it is absolute. -/
def names (root : Object) (path : CString) : Option (List CString) :=
  match path with
  | [] => some []
  | c :: _ => if c = slash then (relativePath root.path path).map strtok else some (strtok path)

/-- `ni_dbus_server_register_object`, which is `ni_dbus_object_create` for the root object. A
path that it refuses changes nothing. -/
def registerObject (s : State) (path : CString) (class_ : Option Class)
    (handle : Option Addr) : Except Fault (State × Option Object) :=
  match s.tree with
  | .nil => .error .freed
  | .cons root _ _ =>
    match names root path with
    | none => .ok (s, none)
    | some names =>
      match s.lookupFrom root names with
      | some object =>
        if (handle.isSome ∧ object.handle ≠ handle) ∨
            (class_.isSome ∧ some object.class_ ≠ class_) then .ok (s, none)
        else .ok (s, some object)
      | none => (s.createFrom root class_ handle names).map fun (s, object) => (s, some object)

/-- `__ni_dbus_object_message`, up to where it first reads the object it was given; it does so
for a call with an interface and a member. -/
def objectMessage (s : State) (object : Addr) (complete : Bool) : Except Fault State := do
  let s ← s.garbageCollect
  if complete ∧ object ∉ s.addresses then .error .freed else .ok s

/-- `ni_dbus_server_open`, with the path that the name of the server on the bus gives. -/
def open_ (rootPath : CString) (handle : Option Addr) : State where
  tree := .cons { addr := 0, path := rootPath, class_ := rootObjectClass, handle } .nil .nil
  registered := Function.update (fun _ => none) rootPath (some 0)
  next := 1

end State

inductive Input
  | registerObject (path : CString) (class_ : Option Class) (handle : Option Addr)
  | unregisterObject (object : Addr)
  /-- A method call, which libdbus has for a registered path. -/
  | message (path : CString) (complete : Bool)
  /-- The main loop collects between two waits. -/
  | mainLoop
  deriving DecidableEq

def step (s : State) : Input → Except Fault State
  | .registerObject path class_ handle => (s.registerObject path class_ handle).map Prod.fst
  | .unregisterObject object => s.unregisterObject object
  | .message path complete =>
    match s.registered path with
    | none => .error .disabled
    | some object => s.objectMessage object complete
  | .mainLoop => s.garbageCollect

end Testbus.Dbus.Objects
