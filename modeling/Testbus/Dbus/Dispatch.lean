import Testbus.Buffer
import Testbus.Lib.Machine

namespace Testbus.Dbus.Dispatch

open Lib

/-- The names of the errors that are set here. A handler or a script gives its own, and an error
number is mapped to one. -/
inductive ErrorName
  | failed
  | unknownMethod
  | invalidSignature
  | invalidArgs
  | serviceUnknown
  | cannotMarshal
  | ofCode (err : Nat)
  | given (name : CString)
  deriving DecidableEq

/-- The text of an error: a format with its arguments, or what a handler or a script gives. -/
inductive ErrorText
  | format (text : String) (args : List CString)
  | given (text : CString)
  deriving DecidableEq

/-- `DBusError`, when it is set. -/
structure DBusError where
  name : ErrorName
  message : ErrorText
  deriving DecidableEq

/-- `dbus_set_error` with a text of the code's own. -/
def setError (name : ErrorName) (text : String) (args : List CString) : DBusError where
  name := name
  message := .format text args

/-- The error has a name and a text of the code's own. -/
def DBusError.Own (error : DBusError) : Prop :=
  (∀ name, error.name ≠ .given name) ∧ ∀ text, error.message ≠ .given text

/-- What libdbus is relied on for: whether `dbus_message_new_error` takes a name and a text. -/
structure Libdbus where
  accepts : DBusError → Bool
  own : ∀ error : DBusError, error.Own → accepts error = true

structure Method where
  name : CString
  callSignature : Option CString := none
  handler : Bool := false
  handlerEx : Bool := false
  asyncHandler : Bool := false
  deriving DecidableEq

structure Service where
  name : CString
  methods : List Method := []
  deriving DecidableEq

/-- `ni_dbus_object_t`, as far as a call needs it. -/
structure Object where
  path : CString
  interfaces : List Service := []
  refresh : Bool := false
  deriving DecidableEq

/-- `ni_extension_t`, with the names of its scripts. -/
structure Extension where
  interface : CString
  actions : List CString := []
  deriving DecidableEq

structure Message where
  methodCall : Bool := true
  interface : Option CString
  member : Option CString
  signature : Option CString := some []
  deriving DecidableEq

inductive Reply
  | methodReturn
  | error (error : DBusError)
  deriving DecidableEq

/-- `ni_process_t` at its address; `freed` while the wait queue still has it. -/
structure Process where
  addr : Nat
  pid : Nat := 0
  freed : Bool := false
  deriving DecidableEq

/-- `ni_dbus_async_server_call_t`, with the number of the call that it is for. -/
structure AsyncServerCall where
  call : Nat
  interface : CString
  method : CString
  subProcess : Nat
  deriving DecidableEq

/-- The connection of the server and its children. Calls are numbered as they come, and `sent`
has the replies with the numbers of their calls. -/
structure State where
  next : Nat := 0
  addr : Nat := 0
  sent : List (Nat × Reply) := []
  asyncServerCalls : List AsyncServerCall := []
  processQueue : List Process := []
  deriving DecidableEq

/-- How `ni_process_run` ends: before the process is in the wait queue, at the fork, or with a
child. -/
inductive Run
  | failed
  | unforked
  | forked (pid : Nat)
  deriving DecidableEq

/-- What a call depends on: the refresh of the object, its arguments, the user of the caller or
an error number, what the handler returns with the error it sets, the files with the arguments and
for the return data of a script, and its process. -/
structure Course where
  refreshed : Bool := true
  argsRead : Bool := true
  callerUid : Except Nat Nat := .ok 0
  rv : Bool := true
  error : Option DBusError := none
  argfile : Bool := true
  retfile : Bool := true
  run : Run := .failed

/-- The element `return` of the return data: `ni_dbus_serialize_return` of it, and whether the
values can be appended to the reply. -/
structure ReturnNode where
  nres : Option Nat
  appended : Bool
  deriving DecidableEq

/-- The element `error` of the return data. -/
structure ErrorNode where
  name : Option CString
  cdata : Option CString
  deriving DecidableEq

/-- What is in the return file of a script, if it is XML. -/
structure Document where
  returnNode : Option ReturnNode := none
  errorNode : Option ErrorNode := none
  deriving DecidableEq

/-- How a child ended. -/
structure Exit where
  okay : Bool
  doc : Option Document
  deriving DecidableEq

inductive Fault
  | freed
  /-- The kernel does not do that. -/
  | disabled
  deriving DecidableEq

/-- `strcasecmp` compares these. -/
def lower (s : CString) : CString :=
  s.map fun c => if 0x41 ≤ c ∧ c ≤ 0x5a then c + 0x20 else c

def getService (object : Object) (interface : CString) : Option Service :=
  object.interfaces.find? fun svc => lower svc.name = lower interface

def getMethod (service : Service) (name : CString) : Option Method :=
  service.methods.find? fun method => method.name = name

def findExtension (config : List Extension) (interface : CString) : Option Extension :=
  config.find? fun extension => extension.interface = interface

/-- `ni_dbus_connection_send_message`; libdbus sends nothing for `NULL`. -/
def sendMessage (call : Nat) (reply : Option Reply) (s : State) : State :=
  { s with sent := s.sent ++ (reply.map fun reply => (call, reply)).toList }

def newError (lib : Libdbus) (error : DBusError) : Option Reply :=
  if lib.accepts error then some (.error error) else none

def unexpected : DBusError := setError .failed "Unexpected error in method call" []

def sendError (lib : Libdbus) (call : Nat) (error : DBusError) (s : State) : State :=
  sendMessage call (newError lib error) s

/-- `ni_process_free`, which leaves the wait queue alone. -/
def processFree (addr : Nat) (s : State) : State :=
  { s with processQueue := s.processQueue.map fun process =>
      if process.addr = addr then { process with freed := true } else process }

def asyncServerCallRunCommand (call : AsyncServerCall) (run : Run) (s : State) : Bool × State :=
  match run with
  | .failed => (false, s)
  | .unforked => (false, { s with processQueue := { addr := call.subProcess } :: s.processQueue })
  | .forked pid =>
    (true, { s with processQueue := { addr := call.subProcess, pid } :: s.processQueue
                    asyncServerCalls := call :: s.asyncServerCalls })

def extensionCall (lib : Libdbus) (config : List Extension) (object : Object) (interface : CString)
    (method : Method) (call : Nat) (course : Course) (s : State) : Bool × State :=
  match findExtension config interface with
  | none =>
    (false, sendError lib call
        (setError .serviceUnknown "ni_dbus_extension_extension_call: no/unknown interface %s"
          [interface]) s)
  | some extension =>
    if method.name ∉ extension.actions then
      (false, sendError lib call
          (setError .failed "ni_dbus_extension_extension_call: no/unknown extension method %s"
            [method.name]) s)
    else
      let addr := s.addr
      let s := { s with addr := s.addr + 1 }
      if course.argfile = false then
        (false, sendError lib call
            (setError .invalidArgs "Bad arguments in call to object %s, %s.%s"
              [object.path, interface, method.name]) s)
      else if course.retfile = false then
        (false, sendError lib call
            (setError .failed "%s - general failure when executing method" [method.name]) s)
      else
        let (ran, s) := asyncServerCallRunCommand
          { call, interface, method := method.name, subProcess := addr } course.run s
        if ran then (true, s)
        else (false, processFree addr (sendError lib call
            (setError .failed "ni_dbus_extension_extension_call: error executing method %s"
              [method.name]) s))

/-- The dispatcher's last part: an error for a call that failed, and whatever reply there is. -/
def finish (lib : Libdbus) (call : Nat) (rv : Bool) (reply : Option Reply)
    (error : Option DBusError) (s : State) : State :=
  sendMessage call (if rv then reply else newError lib (error.getD unexpected)) s

/-- The method of an object that a call is for, unless the dispatcher fails the call first. -/
def methodOf (object : Object) (svc : Service) (member : CString) (message : Message)
    (course : Course) : Except DBusError Method :=
  match getMethod svc member with
  | none => .error
      (setError .unknownMethod "Unknown method in call to object %s, %s.%s"
        [object.path, svc.name, member])
  | some method =>
    if method.handler = false ∧ method.handlerEx = false ∧ method.asyncHandler = false then
      .error
          (setError .unknownMethod "Unknown method in call to object %s, %s.%s"
            [object.path, svc.name, member])
    else if method.callSignature ≠ none ∧ message.signature ≠ method.callSignature then
      .error
          (setError .invalidSignature "Bad call signature in call to object %s, %s.%s"
            [object.path, svc.name, member])
    else if object.refresh ∧ course.refreshed = false then
      .error (setError .failed "Failed to refresh object %s" [object.path])
    else .ok method

/-- What a handler is called with and comes to. -/
def callHandler (object : Object) (svc : Service) (member : CString) (method : Method)
    (course : Course) : Bool × Option Reply × Option DBusError :=
  if course.argsRead = false then
    (false, none, some
        (setError .invalidArgs "Bad arguments in call to object %s, %s.%s"
          [object.path, svc.name, member]))
  else
    match method.handlerEx, course.callerUid with
    | true, .error err =>
      (false, none, some (setError (.ofCode err) "unable to get caller's uid" []))
    | _, _ => (course.rv, some .methodReturn, course.error)

/-- `__ni_dbus_object_message`, for an object that is not collected; `none` when libdbus is left
to answer the call. -/
def objectMessage (lib : Libdbus) (config : List Extension) (object : Object) (message : Message)
    (course : Course) (s : State) : Option State :=
  match message.methodCall, message.interface, message.member with
  | true, some interface, some member =>
    match getService object interface with
    | none => none
    | some svc =>
      let call := s.next
      let s := { s with next := s.next + 1 }
      match methodOf object svc member message course with
      | .error error => some (finish lib call false none (some error) s)
      | .ok method =>
        if method.handler ∨ method.handlerEx then
          let (rv, reply, error) := callHandler object svc member method course
          some (finish lib call rv reply error s)
        else
          let (rv, s) := extensionCall lib config object interface method call course s
          some (finish lib call rv none none s)
  | _, _, _ => none

def serializeError (node : ErrorNode) : DBusError where
  name := (node.name.map ErrorName.given).getD .failed
  message := (node.cdata.map ErrorText.given).getD
    (.format "extension call failed (no error message returned by script)" [])

/-- The reply of `ni_dbus_extension_extension_completion`. -/
def extensionCompletion (lib : Libdbus) (async : AsyncServerCall) (exit : Exit) : Option Reply :=
  if exit.okay then
    match exit.doc.bind Document.returnNode with
    | none => some .methodReturn
    | some node =>
      match node.nres with
      | none => newError lib
          (setError .cannotMarshal "%s.%s: unable to serialize returned data"
            [async.interface, async.method])
      | some _ =>
        if node.appended then some .methodReturn
        else newError lib (setError .failed "Error marshalling message arguments" [])
  else
    match exit.doc.bind Document.errorNode with
    | some node => newError lib (serializeError node)
    | none => newError lib (setError .failed "dbus extension script returns error" [])

/-- Take the process out of the wait queue; the entries before it are read. -/
def takeProcess (pid : Nat) : List Process → Except Fault (Option Process × List Process)
  | [] => .ok (none, [])
  | process :: rest =>
    if process.freed then .error .freed
    else if process.pid = pid then .ok (some process, rest)
    else do
      let (found, rest) ← takeProcess pid rest
      .ok (found, process :: rest)

def asyncServerCallCallback (lib : Libdbus) (process : Nat) (exit : Exit) (s : State) : State :=
  match s.asyncServerCalls.find? fun async => async.subProcess = process with
  | none => s
  | some async =>
    sendMessage async.call (extensionCompletion lib async exit)
      { s with asyncServerCalls :=
          s.asyncServerCalls.eraseP fun async => async.subProcess = process }

inductive Input
  /-- libdbus brings a message to a registered object. -/
  | deliver (object : Object) (message : Message) (course : Course)
  /-- A child has exited, and `ni_process_reap_children` collects it. -/
  | exited (pid : Nat) (exit : Exit)

/-- The kernel numbers a new child as no other one, and not 0. -/
def Run.possible (s : State) : Run → Bool
  | .forked pid => pid ≠ 0 ∧ ∀ process ∈ s.processQueue, process.pid ≠ pid
  | _ => true

def step (lib : Libdbus) (config : List Extension) (s : State) : Input → Except Fault State
  | .deliver object message course =>
    if course.run.possible s then
      .ok ((objectMessage lib config object message course s).getD s)
    else .error .disabled
  | .exited pid exit =>
    if pid = 0 then .error .disabled
    else do
      let (process, queue) ← takeProcess pid s.processQueue
      let s := { s with processQueue := queue }
      match process with
      | some process => .ok (asyncServerCallCallback lib process.addr exit s)
      | none => .ok s

end Testbus.Dbus.Dispatch
