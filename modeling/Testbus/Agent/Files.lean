import Testbus.Dbus.Records
import Testbus.Lib.Machine
import Testbus.Lib.Store

namespace Testbus

open Dbus Lib

def tmpfileSizeMax : Nat := 1024 * 1024

/-- A file of the master, with its data. -/
structure Tmpfile where
  file : File
  data : Bytes := []
  deriving DecidableEq

namespace Tmpfile

/-- `Tmpfile.append`. -/
def append (tmp : Tmpfile) (bytes : Bytes) : Option Tmpfile :=
  if tmpfileSizeMax < bytes.length ∨ tmpfileSizeMax < bytes.length + tmp.data.length then none
  else some { file := { tmp.file with iseq := tmp.file.iseq + 1 }, data := tmp.data ++ bytes }

/-- `Tmpfile.retrieve`. -/
def retrieve (tmp : Tmpfile) (offset count : Nat) : Bytes := (tmp.data.drop offset).take count

def ioblksize : Nat := 4096

theorem retrieve_shorter {tmp : Tmpfile} {offset : Nat} (full : ¬ (tmp.retrieve offset ioblksize).length < ioblksize) :
    tmp.data.length - (offset + (tmp.retrieve offset ioblksize).length) < tmp.data.length - offset := by
  rw [retrieve, List.length_take, List.length_drop] at full ⊢
  have positive : 0 < ioblksize := by decide
  omega

/-- The loop of `ni_testbus_client_download_file`, from a number of calls on. -/
def downloadLoop (tmp : Tmpfile) (answered : Nat → Bool) (calls : Nat) (result : Bytes) : Option Bytes :=
  if answered calls then
    let block := tmp.retrieve result.length ioblksize
    if block.length < ioblksize then some (result ++ block)
    else downloadLoop tmp answered (calls + 1) (result ++ block)
  else none
termination_by tmp.data.length - result.length
decreasing_by
  rw [List.length_append]
  exact retrieve_shorter ‹_›

end Tmpfile

def findByName (files : List Tmpfile) (name : Option CString) : Option Tmpfile :=
  files.find? fun tmp => tmp.file.name = name

def fileArrayMerge (result merge : List Tmpfile) : List Tmpfile :=
  merge.foldl (fun result tmp =>
    if (findByName result tmp.file.name).isSome then result else result ++ [tmp]) result

/-- `struct ni_testbus_file` in an agent. -/
structure AgentFile extends File where
  instancePath : Option CString := none
  data : Option Bytes := none
  deriving DecidableEq

def AgentFile.dropCache (file : AgentFile) : AgentFile :=
  { file with data := none, instancePath := none }

def AgentFile.wanted (file : AgentFile) (mode : UInt32) : Bool := file.mode &&& mode ≠ 0

/-- The file objects of an agent, and `global_files`. -/
structure Agent where
  heap : Store AgentFile := Store.empty
  next : Addr := 0
  globalFiles : List Addr := []

namespace Agent

def modify (agent : Agent) (file : Addr) (change : AgentFile → AgentFile) : Agent :=
  { agent with heap := agent.heap.modify file change }

def numbered (agent : Agent) (inum : UInt32) (a : Addr) : Option (Addr × AgentFile) :=
  match agent.heap.cells a with
  | some file => if file.inum = inum then some (a, file) else none
  | none => none

/-- `ni_testbus_file_array_find_by_inum` on the files of the cache. -/
def findByInum (agent : Agent) (inum : UInt32) : Option (Addr × AgentFile) :=
  agent.globalFiles.findSome? (agent.numbered inum)

/-- The new objects of a file array that was received. -/
def receive (agent : Agent) : List File → Agent × List Addr
  | [] => (agent, [])
  | file :: rest =>
    let here : Agent :=
      { agent with heap := agent.heap.alloc agent.next { file with }, next := agent.next + 1 }
    let (final, addrs) := here.receive rest
    (final, agent.next :: addrs)

/-- Only files that are read are downloaded. -/
def download (fetch : AgentFile → Option Bytes) (agent : Agent) (a : Addr) (file : AgentFile) :
    Agent × Option Addr :=
  if file.wanted fileRead then
    match fetch file with
    | some data => (agent.modify a fun file => { file with data := some data }, some a)
    | none => (agent.modify a fun file => { file with data := none }, none)
  else (agent, some a)

/-- The body of the loop that looks a file of the process up in the cache. It gives the object
that stands in the array of the process then. -/
def attachFile (fetch : AgentFile → Option Bytes) (agent : Agent) (a : Addr) (file : AgentFile) :
    Agent × Option Addr :=
  match agent.findByInum file.inum with
  | none => download fetch { agent with globalFiles := agent.globalFiles ++ [a] } a file
  | some (g, gfile) =>
    if gfile.iseq = file.iseq then (agent, some a)
    else download fetch (agent.modify g AgentFile.dropCache) g gfile.dropCache

/-- The loop over the files of the process; `fetch` knows the place of a file in it. -/
def attachLoop (fetch : Nat → AgentFile → Option Bytes) (i : Nat) (agent : Agent) :
    List Addr → Agent × Option (List Addr)
  | [] => (agent, some [])
  | a :: rest =>
    match agent.heap.cells a with
    | none => (agent, none)
    | some file =>
      match attachFile (fetch i) agent a file with
      | (agent, none) => (agent, none)
      | (agent, some here) =>
        match attachLoop fetch (i + 1) agent rest with
        | (agent, none) => (agent, none)
        | (agent, some others) => (agent, some (here :: others))

/-- What a directory has, by path. -/
abbrev Directory := CString → Option Bytes

def stdoutName : CString := ascii ['s', 't', 'd', 'o', 'u', 't']
def stderrName : CString := ascii ['s', 't', 'd', 'e', 'r', 'r']

/-- Standard output and standard error are not stored in files. -/
def captured (name : Option CString) : Bool := name = some stdoutName ∨ name = some stderrName

def instancePathOf (dirpath : CString) (name : Option CString) : CString :=
  dirpath ++ 0x2f :: name.getD []

/-- `ni_tempstate_mkfile`, where the system does what it is asked to: a file without data is
not written. -/
def mkfile (directory : Directory) (path : CString) (data : Option Bytes) : Directory :=
  match data with
  | some bytes => Function.update directory path (some bytes)
  | none => directory

/-- The loop that writes the files of the process into its directory. -/
def instantiateLoop (dirpath : CString) (made : Nat → Bool) (i : Nat) (agent : Agent)
    (directory : Directory) : List Addr → Agent × Option Directory
  | [] => (agent, some directory)
  | a :: rest =>
    match agent.heap.cells a with
    | none => (agent, none)
    | some file =>
      if captured file.name then instantiateLoop dirpath made (i + 1) agent directory rest
      else if made i then
        let path := instancePathOf dirpath file.name
        instantiateLoop dirpath made (i + 1)
          (agent.modify a fun file => { file with instancePath := some path })
          (mkfile directory path file.data) rest
      else (agent, none)

/-- `ni_testbus_agent_process_attach_files`: the array of the process and its directory, which
is a new one. -/
def attachFiles (fetch : Nat → AgentFile → Option Bytes) (dirpath : CString) (made : Nat → Bool)
    (agent : Agent) (files : List Addr) : Agent × Option (List Addr × Directory) :=
  match attachLoop fetch 0 agent files with
  | (agent, none) => (agent, none)
  | (agent, some files) =>
    match instantiateLoop dirpath made 0 agent (fun _ => none) files with
    | (agent, none) => (agent, none)
    | (agent, some directory) => (agent, some (files, directory))

def discardCachedFile (agent : Agent) (objectPath : CString) : Agent :=
  { agent with globalFiles := agent.globalFiles.filter fun a =>
      match agent.heap.cells a with
      | some file => file.objectPath ≠ some objectPath
      | none => true }

end Agent

end Testbus
