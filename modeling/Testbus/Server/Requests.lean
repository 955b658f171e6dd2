import Testbus.Server.Container

namespace Testbus.Server

open Lib Testbus.Environ Testbus.Dbus

/-- The D-Bus errors that calls are answered with. -/
inductive ErrorName
  | failed
  | unknownMethod
  | invalidArgs
  | nameExists
  | nameUnknown
  | nameInvalid
  | notCompatible
  | inUse
  | agentOffline
  | permissionDenied
  deriving DecidableEq

/-- The answer to a call; the text of an error has a `%s` for each of its arguments. -/
inductive Answer
  | done
  | path (objectPath : Option CString)
  | error (name : ErrorName) (text : String) (args : List CString)
  deriving DecidableEq

abbrev Outcome := Except Fault (World × Answer)

/-- Put a reference when no destruction is under way. -/
def put (container : Addr) (w : World) : Except Fault World :=
  containerPut (containerDestroy w.depth) container w

def destroy (container : Addr) (w : World) : Except Fault World :=
  containerDestroy w.depth container w

/-- A container and those above it, of which there are at most that many. -/
def ancestors (w : World) : Nat → Addr → Except Fault (List (Addr × Container))
  | 0, _ => .error .fuel
  | levels + 1, container => do
    let self ← w.deref container
    match self.parent with
    | none => .ok [(container, self)]
    | some parent => do
      let above ← ancestors w levels parent
      .ok ((container, self) :: above)

/-- The first element of an array for which the test holds. -/
def arrayFind (w : World) (test : Container → Bool) : List Addr → Except Fault (Option Addr)
  | [] => .ok none
  | container :: rest => do
    let self ← w.deref container
    if test self then .ok (some container) else arrayFind w test rest

/-- Look for a host in a container, and then in those above it. -/
def findHostAbove (w : World) (test : Container → Bool) : List (Addr × Container) → Except Fault (Option Addr)
  | [] => .ok none
  | (_, self) :: above => do
    let found ← if self.kind.has .host then arrayFind w test (self.children .host).data
      else .ok none
    match found with
    | some host => .ok (some host)
    | none => findHostAbove w test above

def containerGetHostByName (container : Addr) (name : CString) (w : World) : Except Fault (Option Addr) := do
  let chain ← ancestors w (w.next + 1) container
  findHostAbove w (fun host => host.name = some name) chain

def containerGetHostByRole (container : Addr) (role : CString) (w : World) : Except Fault (Option Addr) := do
  let chain ← ancestors w (w.next + 1) container
  findHostAbove w (fun host => host.role = some role) chain

/-- `ni_testbus_container_get_test_by_name`, not globally. -/
def containerGetTestByName (container : Addr) (name : CString) (w : World) : Except Fault (Option Addr) := do
  let self ← w.deref container
  if self.kind.has .testcase then
    arrayFind w (fun test => test.name = some name) (self.children .testcase).data
  else .ok none

def containerFindAgentHost (container : Addr) (dbusName : CString) (w : World) :
    Except Fault (Option Addr) := do
  let self ← w.deref container
  if self.kind.has .host then
    arrayFind w (fun host => host.agentBusName = some dbusName) (self.children .host).data
  else .ok none

/-- `ni_testbus_container_init` on memory that was just allocated, with the other fields
as the caller sets them. -/
def containerInit (parent : Addr) (self : Container) (w : World) : Except Fault (Addr × World) := do
  let container := w.next
  let w := { w with
    heap := w.heap.alloc container { self with parent := some parent, refcount := 1 }
    next := w.next + 1 }
  let above ← w.deref parent
  if above.kind.has self.kind = false then .error .assertion
  else do
    let array := above.children self.kind
    let w := w.modify container fun self => { self with id := array.nextId }
    let w := w.modify parent
      (Container.setChildren self.kind { array with nextId := array.nextId + 1 })
    let w ← arrayAppend self.kind parent container w
    let w ← put container w
    .ok (container, w)

/-- `ni_testbus_container_wrap`, below the parent object of that path. -/
def containerWrap (parentPath : CString) (container : Addr) (w : World) : Except Fault (CString × World) := do
  let self ← w.deref container
  let (objects, object) ←
    objectCreate w.objects (buildPath parentPath self.kind self.id) container
  let w := { w with objects := objects, made := w.made ++ [object.path] }
  .ok (object.path,
    w.modify container fun self => { self with dbusObjectPath := some object.path })

/-- The container that an object stands for. -/
def containerUnwrap (objects : List Object) (objectPath : CString) : Option Addr :=
  (objects.find? fun object => object.path = objectPath).bind Object.handle

def unknownObject (objectPath : CString) : Answer :=
  .error .failed "incompatible object %s" [objectPath]

def unknownMethod (objectPath : CString) : Answer :=
  .error .unknownMethod "Unsupported service on object %s" [objectPath]

def isAlpha (c : UInt8) : Bool := (0x41 ≤ c ∧ c ≤ 0x5a) ∨ (0x61 ≤ c ∧ c ≤ 0x7a)

def isAlnum (c : UInt8) : Bool := isAlpha c ∨ (0x30 ≤ c ∧ c ≤ 0x39)

/-- `__ni_testbus_identifier_valid`, which is also what a variable may be called. -/
def identifierValid : CString → Bool
  | [] => false
  | first :: rest => (isAlpha first ∨ first = 0x5f) ∧ rest.all fun c => isAlnum c ∨ c = 0x5f

def invalidIdentifier (name : CString) : Answer :=
  .error .nameInvalid "invalid identifier \"%s\"" [name]

def lookupWellknownBusName (mappings : List (CString × CString)) (owner : CString) : CString :=
  match mappings.find? fun map => map.2 = owner with
  | some map => map.1
  | none => owner

/-- `ni_testbus_record_wellknown_bus_name`; a name without an owner is released. -/
def recordWellknownBusName (busName owner : CString) : List (CString × CString) → List (CString × CString)
  | [] => if owner = [] then [] else [(busName, owner)]
  | map :: rest =>
    if map.1 = busName then if owner = [] then rest else (busName, owner) :: rest
    else map :: recordWellknownBusName busName owner rest

def hostSetAgent (host : Addr) (owner : CString) (w : World) : World :=
  w.modify host fun self =>
    { self with agentBusName := some (lookupWellknownBusName w.nameMappings owner)
                eventlog := none }

def hostAgentReady (host : Addr) (w : World) : World :=
  w.modify host fun self => { self with ready := true, generation := self.generation + 1 }

def hostAgentDisconnected (host : Addr) (w : World) : World :=
  w.modify host fun self =>
    { self with capabilities := [], env := {}, agentBusName := none, ready := false }

/-- `ni_testbus_host_new`; none if the name is taken. -/
def hostNew (parent : Addr) (name : CString) (w : World) : Except Fault (Option (Addr × World)) := do
  match ← containerGetHostByName parent name w with
  | some _ => .ok none
  | none => do
    let made ← containerInit parent { kind := .host, name := some name } w
    .ok (some made)

/-- `Hostlist.createHost`. -/
def createHost (name sender : CString) (uuid : Uuid) (w : World) : Outcome := do
  match ← hostNew globalContext name w with
  | none => .ok (w, .error .nameExists "unable to create new host \"%s\"" [name])
  | some (host, w) => do
    let w := hostSetAgent host sender w
    let w := w.modify host fun self => { self with uuid := uuid }
    let (path, w) ← containerWrap hostlistPath host w
    .ok (w, .path (some path))

/-- `Hostlist.removeHost`. -/
def removeHost (name : CString) (w : World) : Outcome := do
  match ← containerGetHostByName globalContext name w with
  | none => .ok (w, .error .nameUnknown "unknown host \"%s\"" [name])
  | some host => do
    let (_, w) ← hostArrayRemove put globalContext host w
    .ok (w, .done)

/-- The end of `Hostlist.reconnect`. -/
def hostReconnect (host : Addr) (uuid generated : Uuid) (sender : CString) (w : World) : Outcome := do
  let w := w.modify host fun self => { self with uuid := if uuid = 0 then generated else uuid }
  let w := hostSetAgent host sender w
  let self ← w.deref host
  .ok (w, .path self.dbusObjectPath)

/-- `Hostlist.reconnect`. -/
def reconnect (name : CString) (uuid generated : Uuid) (sender : CString) (w : World) : Outcome := do
  match ← containerGetHostByName globalContext name w with
  | none =>
    match ← hostNew globalContext name w with
    | none => .ok (w, .error .nameExists "unable to create new host \"%s\"" [name])
    | some (host, w) => do
      let (_, w) ← containerWrap hostlistPath host w
      hostReconnect host uuid generated sender w
  | some host => do
    let self ← w.deref host
    let w := if uuid ≠ 0 ∧ self.uuid = uuid ∧ self.agentBusName ≠ none then
      hostAgentDisconnected host w else w
    let self ← w.deref host
    if self.agentBusName ≠ none then
      .ok (w, .error .nameExists
        "host name \"%s\" already taken (duplicate registration)" [name])
    else hostReconnect host uuid generated sender w

/-- `Testset.createTest`. -/
def createTest (objectPath name : CString) (w : World) : Outcome := do
  match containerUnwrap w.objects objectPath with
  | none => .ok (w, unknownObject objectPath)
  | some context => do
    let self ← w.deref context
    if self.kind.has .testcase = false then .ok (w, unknownMethod objectPath)
    else if identifierValid name = false then .ok (w, invalidIdentifier name)
    else
      match ← containerGetTestByName context name w with
      | some _ => .ok (w, .error .nameExists "test case with this name already exists" [])
      | none => do
        let (test, w) ← containerInit context { kind := .testcase, name := some name } w
        let (path, w) ← containerWrap objectPath test w
        .ok (w, .path (some path))

def containerSetOwner (container owner : Addr) (w : World) : Except Fault World := do
  let self ← w.deref container
  if self.owner ≠ none then .error .assertion
  else .ok (w.modify container fun self => { self with owner := some owner })

/-- `CommandQueue.createCommand`. -/
def createCommand (objectPath : CString) (w : World) : Outcome := do
  match containerUnwrap w.objects objectPath with
  | none => .ok (w, unknownObject objectPath)
  | some context => do
    let self ← w.deref context
    if self.kind.has .command = false then .ok (w, unknownMethod objectPath)
    else do
      let (command, w) ← containerInit context { kind := .command } w
      let (path, w) ← containerWrap objectPath command w
      let w ← containerSetOwner command context w
      .ok (w, .path (some path))

/-- `Hostset.addHost`. -/
def addHost (objectPath name hostObjectPath : CString) (w : World) : Outcome := do
  match containerUnwrap w.objects objectPath with
  | none => .ok (w, unknownObject objectPath)
  | some context => do
    let self ← w.deref context
    if self.kind.has .host = false then .ok (w, unknownMethod objectPath)
    else if identifierValid name = false then .ok (w, invalidIdentifier name)
    else
      match ← containerGetHostByRole context name w with
      | some _ => .ok (w, .error .nameExists "you already have a host by this role" [])
      | none =>
        match objectLookup w.objects hostObjectPath with
        | none => .ok (w, .error .nameUnknown "unknown host object path %s" [hostObjectPath])
        | some object =>
          match object.handle with
          | none =>
            .ok (w, .error .notCompatible "object %s is not a host object" [hostObjectPath])
          | some host => do
            let hostSelf ← w.deref host
            if hostSelf.kind ≠ .host then
              .ok (w, .error .notCompatible "object %s is not a host object" [hostObjectPath])
            else do
              let (claimed, w) ← hostSetRole host (some name) (some context) w
              if claimed = false then .ok (w, .error .inUse "host already in use" [])
              else do
                let w ← arrayAppend .host context host w
                .ok (w, .done)

/-- The environments of a container and of those above it, sorted for the merge where they
have variables, and the merge of them into an environment. -/
def applyContext (container : Addr) (env : Env) (w : World) : Except Fault (Env × World) := do
  let chain ← ancestors w (w.next + 1) container
  match containerMergeEnvironment (chain.map fun above => some above.2.env) env with
  | .error _ => .error .fatal
  | .ok merged =>
    .ok (merged, (chain.map Prod.fst).foldl (fun w above => w.modify above fun self =>
      if self.env.vars.length ≠ 0 then { self with env := envSort self.env } else self) w)

def processNew (parent command : Addr) (w : World) : Except Fault (Addr × World) := do
  let w ← containerGet command w
  let (process, w) ← containerInit parent { kind := .process, command := some command } w
  let w ← containerSetOwner process command w
  .ok (process, w)

/-- The environment of a process, after the context of its command and then that of the
host it runs on were applied. -/
def processApplyContext (process command host : Addr) (w : World) : Except Fault World := do
  let self ← w.deref process
  let (env, w) ← applyContext command self.env w
  let (env, w) ← applyContext host env w
  .ok (w.modify process fun self => { self with env := env })

/-- `Host.run`. -/
def run (objectPath commandPath : CString) (w : World) : Outcome := do
  match containerUnwrap w.objects objectPath with
  | none => .ok (w, unknownObject objectPath)
  | some host => do
    let self ← w.deref host
    if self.kind ≠ .host then .ok (w, unknownMethod objectPath)
    else if self.ready = false then
      .ok (w, .error .agentOffline "requested host is not ready to execute commands" [])
    else
      match objectLookup w.objects commandPath with
      | none => .ok (w, .error .nameUnknown "unable to look up dbus object %s" [commandPath])
      | some object =>
        match object.handle with
        | none => .ok (w, unknownObject object.path)
        | some command => do
          let commandSelf ← w.deref command
          if commandSelf.kind ≠ .command then .ok (w, unknownObject object.path)
          else do
            let (process, w) ← processNew host command w
            let w ← processApplyContext process command host w
            let (path, w) ← containerWrap objectPath process w
            .ok (w, .path (some path))

/-- `Container.delete`. -/
def delete (objectPath : CString) (w : World) : Outcome := do
  match containerUnwrap w.objects objectPath with
  | none => .ok (w, unknownObject objectPath)
  | some container => do
    let self ← w.deref container
    if container = globalContext ∨ self.parent = none then
      .ok (w, .error .permissionDenied "cannot delete global context" [])
    else do
      let w ← containerGet container w
      let w ← destroy container w
      let w ← put container w
      .ok (w, .done)

/-- A call that changes nothing but data of the container it is about. -/
def update (objectPath : CString) (kinds : Kind → Bool) (change : Container → Container)
    (w : World) : Outcome := do
  match containerUnwrap w.objects objectPath with
  | none => .ok (w, unknownObject objectPath)
  | some container => do
    let self ← w.deref container
    if kinds self.kind = false then .ok (w, unknownMethod objectPath)
    else .ok (w.modify container change, .done)

def reservedPrefix : CString := ascii ['t', 'e', 's', 't', 'b', 'u', 's', '_']

/-- `Environment.setenv`. -/
def setenv (objectPath name value : CString) (w : World) : Outcome :=
  if identifierValid name = false then
    .ok (w, .error .invalidArgs "Bad arguments in call to object %s" [objectPath])
  else if reservedPrefix.isPrefixOf name then
    .ok (w, .error .nameInvalid "Cannot set reserved environment variable name \"%s\"" [name])
  else update objectPath (fun _ => true)
    (fun self => { self with env := Environ.setenv self.env name value }) w

/-- `Host.addCapability`. -/
def addCapability (objectPath capability : CString) (w : World) : Outcome :=
  update objectPath (fun kind => kind = .host) (fun self =>
    { self with capabilities := if capability ∈ self.capabilities then self.capabilities
                  else self.capabilities ++ [capability] }) w

/-- `Process.setExitInfo`, with what the agent says. -/
def setExitInfo (objectPath : CString) (info : ExitInfo) (w : World) : Outcome :=
  update objectPath (fun kind => kind = .process)
    (fun self => { self with exitInfo := some info }) w

/-- `Host.shutdown` and `Host.reboot` simulate a disconnect. -/
def shutdown (objectPath : CString) (w : World) : Outcome := do
  match containerUnwrap w.objects objectPath with
  | none => .ok (w, unknownObject objectPath)
  | some host => do
    let self ← w.deref host
    if self.kind ≠ .host then .ok (w, unknownMethod objectPath)
    else .ok (hostAgentDisconnected host w, .done)

/-- The signal `ready` of an agent. -/
def agentReady (sender : CString) (w : World) : Except Fault World := do
  match ← containerFindAgentHost globalContext
      (lookupWellknownBusName w.nameMappings sender) w with
  | some host => .ok (hostAgentReady host w)
  | none => .ok w

def testbusNamespace : CString :=
  ascii ['o', 'r', 'g', '.', 'o', 'p', 'e', 'n', 's', 'u', 's', 'e', '.', 'T', 'e', 's', 't', 'b',
    'u', 's']

/-- The signal `NameOwnerChanged`; a name without an owner has an empty new one. -/
def nameOwnerChanged (name newOwner : CString) (w : World) : Except Fault World := do
  let w := if testbusNamespace.isPrefixOf name then
    { w with nameMappings := recordWellknownBusName name newOwner w.nameMappings } else w
  if newOwner = [] then
    match ← containerFindAgentHost globalContext name w with
    | some host => .ok (hostAgentDisconnected host w)
    | none => .ok w
  else .ok w

/-- What comes from the bus. -/
inductive Request
  | createHost (name sender : CString) (uuid : Uuid)
  | removeHost (name : CString)
  | reconnect (name : CString) (uuid generated : Uuid) (sender : CString)
  | createTest (objectPath name : CString)
  | createCommand (objectPath : CString)
  | addHost (objectPath name hostObjectPath : CString)
  | run (objectPath commandPath : CString)
  | delete (objectPath : CString)
  | setenv (objectPath name value : CString)
  | addCapability (objectPath capability : CString)
  | setExitInfo (objectPath : CString) (info : ExitInfo)
  | shutdown (objectPath : CString)
  | ready (sender : CString)
  | nameOwnerChanged (name newOwner : CString)
  deriving DecidableEq

/-- A message that has a sender comes while the sender has its name. -/
def fromOwned (sender : CString) (w : World) (handle : World → Outcome) : Outcome :=
  if sender ∈ w.owned then handle w else .error .disabled

/-- The answer to a request, if it is a call. -/
def serve (w : World) : Request → Outcome
  | .createHost name sender uuid => fromOwned sender w (createHost name sender uuid)
  | .removeHost name => removeHost name w
  | .reconnect name uuid generated sender =>
    fromOwned sender w (reconnect name uuid generated sender)
  | .createTest objectPath name => createTest objectPath name w
  | .createCommand objectPath => createCommand objectPath w
  | .addHost objectPath name hostObjectPath => addHost objectPath name hostObjectPath w
  | .run objectPath commandPath => run objectPath commandPath w
  | .delete objectPath => delete objectPath w
  | .setenv objectPath name value => setenv objectPath name value w
  | .addCapability objectPath capability => addCapability objectPath capability w
  | .setExitInfo objectPath info => setExitInfo objectPath info w
  | .shutdown objectPath => shutdown objectPath w
  | .ready sender => fromOwned sender w fun w => do
    let w ← agentReady sender w
    .ok (w, .done)
  | .nameOwnerChanged name newOwner => do
    let owned := if newOwner = [] then w.owned.filter fun other => other ≠ name
      else if name ∈ w.owned then w.owned else w.owned ++ [name]
    let w ← nameOwnerChanged name newOwner { w with owned := owned }
    .ok (w, .done)

def step (w : World) (request : Request) : Except Fault World :=
  (serve w request).map Prod.fst

def firstTest : CString := childPath globalContextPath (ascii "Test0".toList)

def firstHost : CString := childPath hostlistPath (ascii "Host0".toList)

/-- The first host and the first test are made, and the test claims the host. -/
def claimRequests : List Request :=
  [.nameOwnerChanged (ascii ['a']) (ascii ['a']), .createHost (ascii ['h']) (ascii ['a']) 0,
    .createTest globalContextPath (ascii ['t']), .addHost firstTest (ascii ['r']) firstHost]

/-- The states that the master gets into. -/
def Reachable (w : World) : Prop :=
  ∃ requests, Machine.run step World.initial requests = .ok w

end Testbus.Server
