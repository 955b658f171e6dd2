import Testbus.Server.State
import Testbus.Lib.Machine

/-! Reference counts, arrays of children and the destruction of containers. What destroys a
container may have to destroy others; the functions here that put references take the
destruction as an argument, and `containerDestroy` ties the knot. -/

namespace Testbus.Server

open Lib

/-- The address, and whatever it does to the world. -/
abbrev Action := Addr → World → Except Fault World

def containerGet (container : Addr) (w : World) : Except Fault World := do
  let self ← w.deref container
  if self.refcount = 0 then .error .assertion
  else .ok (w.modify container fun self => { self with refcount := self.refcount + 1 })

/-- The last reference to a container destroys it once more, and frees it. -/
def containerPut (destroy : Action) (container : Addr) (w : World) : Except Fault World := do
  let self ← w.deref container
  if self.refcount = 0 then .error .assertion
  else if 1 < self.refcount then
    .ok (w.modify container fun self => { self with refcount := self.refcount - 1 })
  else if self.parent ≠ none then .error .assertion
  else do
    let w ← destroy container (w.modify container fun self => { self with owner := none })
    .ok { w with heap := w.heap.free container }

def arrayAppend (child : Kind) (parent container : Addr) (w : World) : Except Fault World := do
  let w ← containerGet container w
  let self ← w.deref parent
  .ok (w.modify parent
    (Container.setData child ((self.children child).data ++ [container])))

/-- `ni_testbus_test_array_remove` and its likes; true if the container was there. -/
def arrayRemove (put : Action) (child : Kind) (parent container : Addr) (w : World) :
    Except Fault (Bool × World) := do
  let self ← w.deref parent
  let array := (self.children child).data
  if container ∈ array then do
    let w := w.modify parent (Container.setData child (array.erase container))
    let w ← put container w
    .ok (true, w)
  else .ok (false, w)

/-- A host that leaves the array it lives in loses its parent. -/
def hostArrayRemove (put : Action) (parent container : Addr) (w : World) : Except Fault (Bool × World) := do
  let self ← w.deref parent
  let array := (self.children .host).data
  if container ∈ array then do
    let taken ← w.deref container
    let w := w.modify parent (Container.setData .host (array.erase container))
    let w := if taken.parent = some parent then
      w.modify container fun self => { self with parent := none } else w
    let w ← put container w
    .ok (true, w)
  else .ok (false, w)

/-- `ni_testbus_container_remove_child`; the global context is no child. -/
def containerRemoveChild (put : Action) (container parent : Addr) (w : World) :
    Except Fault (Bool × World) := do
  let self ← w.deref container
  match self.kind with
  | .host => hostArrayRemove put parent container w
  | .testcase | .command | .process => arrayRemove put self.kind parent container w
  | .globalContext => .error .fatal

/-- `ni_testbus_host_set_role`; false if another container has the host. -/
def hostSetRole (host : Addr) (role : Option CString) (owner : Option Addr) (w : World) :
    Except Fault (Bool × World) := do
  let self ← w.deref host
  match owner with
  | none => .ok (true, w.modify host fun self => { self with role := none, owner := none })
  | some owner =>
    if self.role ≠ none then .ok (self.role = role ∧ self.owner = some owner, w)
    else .ok (true, w.modify host fun self => { self with role := role, owner := some owner })

/-- The loop of `ni_testbus_host_array_destroy`, of at most that many rounds. -/
def hostArrayDrain (put : Action) (parent : Addr) : Nat → World → Except Fault World
  | rounds, w => do
    let self ← w.deref parent
    match (self.children .host).data.getLast? with
    | none => .ok w
    | some host =>
      match rounds with
      | 0 => .error .fuel
      | rounds + 1 => do
        let w := w.modify parent
          (Container.setData .host (self.children .host).data.dropLast)
        let taken ← w.deref host
        let w := if taken.owner = some parent then
          w.modify host fun self => { self with role := none, owner := none } else w
        let w := w.modify host fun self => { self with parent := none }
        let w ← put host w
        hostArrayDrain put parent rounds w

def hostArrayDestroy (put : Action) (parent : Addr) (w : World) : Except Fault World := do
  let self ← w.deref parent
  let w ← hostArrayDrain put parent (self.children .host).data.length w
  .ok (w.modify parent (Container.setChildren .host {}))

/-- The loop of `ni_testbus_command_array_destroy`, of at most that many rounds. -/
def commandArrayDrain (put : Action) (parent : Addr) : Nat → World → Except Fault World
  | rounds, w => do
    let self ← w.deref parent
    match (self.children .command).data.getLast? with
    | none => .ok w
    | some command =>
      match rounds with
      | 0 => .error .fuel
      | rounds + 1 => do
        let w := w.modify parent
          (Container.setData .command (self.children .command).data.dropLast)
        let _ ← w.deref command
        let w := w.modify command fun self => { self with parent := none }
        let w ← put command w
        commandArrayDrain put parent rounds w

def commandArrayDestroy (put : Action) (parent : Addr) (w : World) : Except Fault World := do
  let self ← w.deref parent
  let w ← commandArrayDrain put parent (self.children .command).data.length w
  .ok (w.modify parent (Container.setChildren .command {}))

/-- Put the elements of an array that was set aside, the last one first. -/
def putAside (put : Action) : List Addr → World → Except Fault World
  | [], w => .ok w
  | child :: rest, w => do
    let _ ← w.deref child
    let w := w.modify child fun self => { self with parent := none }
    let w ← put child w
    putAside put rest w

/-- `ni_testbus_test_array_destroy` and its like for processes: the array is empty before the first
element is put. -/
def arrayDestroy (put : Action) (child : Kind) (parent : Addr) (w : World) : Except Fault World := do
  let self ← w.deref parent
  let w := w.modify parent (Container.setChildren child {})
  let w ← putAside put (self.children child).data.reverse w
  let _ ← w.deref parent
  .ok (w.modify parent (Container.setChildren child {}))

/-- The order in which `ni_testbus_container_all_children` collects. -/
def Container.allChildren (self : Container) : List Addr :=
  (self.children .host).data ++ (self.children .testcase).data ++
    (self.children .command).data ++ (self.children .process).data

def getAll : List Addr → World → Except Fault World
  | [], w => .ok w
  | child :: rest, w => do
    let w ← containerGet child w
    getAll rest w

/-- `ni_testbus_container_array_destroy`. -/
def putAll (put : Action) : List Addr → World → Except Fault World
  | [], w => .ok w
  | child :: rest, w => do
    let w ← put child w
    putAll put rest w

/-- `ops->release`: a host is free again, a command or a process is destroyed. -/
def containerRelease (destroy : Action) (container : Addr) (w : World) : Except Fault World := do
  let self ← w.deref container
  match self.kind with
  | .host => .ok (w.modify container fun self =>
      { self with role := none, eventlog := self.eventlog.map Eventlog.flush })
  | .command | .process => destroy container w
  | .testcase | .globalContext => .ok w

/-- The loop over the children of a container that were collected. -/
def releaseEach (destroy : Action) (recur : Action) (owner : Addr) : List Addr → World → Except Fault World
  | [], w => .ok w
  | child :: rest, w => do
    let self ← w.deref child
    let w ← if self.owner = some owner then
      containerRelease destroy child (w.modify child fun self => { self with owner := none })
      else .ok w
    let self ← w.deref child
    let w ← if 1 < self.refcount then recur child w else .ok w
    releaseEach destroy recur owner rest w

/-- `ni_testbus_container_release_owned`, in at most that many levels. -/
def releaseOwned (destroy : Action) (owner : Addr) : Nat → Action
  | 0, _, _ => .error .fuel
  | levels + 1, container, w => do
    let self ← w.deref container
    let children := self.allChildren
    let w ← getAll children w
    let w ← releaseEach destroy (releaseOwned destroy owner levels) owner children w
    putAll (containerPut destroy) children w

/-- The object of a container, and what is below it, leave the tree; what they stand for
loses its path. -/
def containerUnregister (container : Addr) (w : World) : Except Fault World := do
  let self ← w.deref container
  match self.dbusObjectPath with
  | none => .ok w
  | some path =>
    match objectLookup w.objects path with
    | none => .ok w
    | some object =>
      let gone (other : Object) : Bool := other = object ∨ childPath object.path [] <+: other.path
      let w' := { w with objects := w.objects.filter fun other => !gone other }
      ((w.objects.filter gone).filterMap Object.handle).foldlM (fun w handle => do
        let _ ← w.deref handle
        .ok (w.modify handle fun self => { self with dbusObjectPath := none })) w'

/-- `ops->destroy`. -/
def opsDestroy (put : Action) (container : Addr) (w : World) : Except Fault World := do
  let self ← w.deref container
  match self.kind with
  | .host => .ok (w.modify container fun self =>
      { self with eventlog := none, capabilities := [], agentBusName := none, role := none })
  | .process => do
    let w ← match self.command with
      | some command => do
        let w ← put command w
        let _ ← w.deref container
        .ok (w.modify container fun self => { self with command := none })
      | none => .ok w
    .ok (w.modify container fun self => { self with exitInfo := none })
  | .testcase | .command | .globalContext => .ok w

/-- The first thing that happens to a container: it leaves its parent. -/
def containerDetach (put : Action) (container : Addr) (w : World) : Except Fault World := do
  let self ← w.deref container
  match self.parent with
  | none => .ok w
  | some parent => do
    let (_, w) ← containerRemoveChild put container parent
      (w.modify container fun self => { self with parent := none })
    .ok w

/-- `ni_testbus_container_destroy`; `levels` bounds how deep the containers lie. -/
def destroyWith (destroy : Action) (container : Addr) (w : World) : Except Fault World := do
  let put := containerPut destroy
  let levels := w.next + 4
  let w ← containerDetach put container w
  let w ← releaseOwned destroy container levels globalContext w
  let w ← releaseOwned destroy container levels container w
  let w ← opsDestroy put container w
  let w := w.modify container fun self => { self with env := {} }
  let w ← commandArrayDestroy put container w
  let w ← arrayDestroy put .process container w
  let w ← hostArrayDestroy put container w
  let w ← arrayDestroy put .testcase container w
  let w := w.modify container fun self => { self with name := none }
  containerUnregister container w

/-- The destruction, in at most that many nested ones. -/
def containerDestroy : Nat → Action
  | 0, _, _ => .error .fuel
  | depth + 1, container, w => destroyWith (containerDestroy depth) container w

/-- The entries of arrays and the owners that a container has. -/
def Container.links (self : Container) : Nat :=
  self.allChildren.length + self.owner.toList.length

/-- As many nested destructions as there can be. -/
def World.depth (w : World) : Nat := 2 * w.heap.total Container.links + 4

end Testbus.Server
