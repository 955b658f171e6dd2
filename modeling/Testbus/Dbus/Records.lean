import Testbus.Dbus.Variant

namespace Testbus.Dbus

/-- The fields of `struct ni_process` that a description of a process has. -/
structure Process where
  argv : List (Option CString) := []
  environ : List (Option CString) := []
  useTerminal : Bool := false
  deriving DecidableEq

/-- The start of an entry of the environment that is about `name`. -/
def envPrefix (name : CString) : CString := name ++ [0x3d]

/-- Replace the first entry that is about the name, or append one. -/
def processSetenv (environ : List (Option CString)) (name value : CString) : List (Option CString) :=
  match environ with
  | [] => [some (envPrefix name ++ value)]
  | entry :: rest =>
    if entry.any fun old => (envPrefix name).isPrefixOf old then
      some (envPrefix name ++ value) :: rest
    else entry :: processSetenv rest name value

def copyEnv : List CString :=
  ["LD_LIBRARY_PATH", "LD_PRELOAD", "PATH"].map fun name =>
    name.toList.map fun c => UInt8.ofNat c.toNat

/-- `__ni_default_environment`, from the environment of the process itself. -/
def defaultEnvironment (getenv : CString → Option CString) : List (Option CString) :=
  copyEnv.foldl (fun environ name => match getenv name with
    | some value => processSetenv environ name value
    | none => environ) []

def processNew (getenv : CString → Option CString) (useDefaultEnv : Bool) : Process :=
  { environ := if useDefaultEnv then defaultEnvironment getenv else [] }

def processSerialize (pi : Process) : Variant :=
  dictAdd "use-terminal" (.boolean pi.useTerminal)
    (dictAdd "env" (Variant.ofStringArray pi.environ)
      (dictAdd "argv" (Variant.ofStringArray pi.argv) (.dict [])))

def processDeserialize (getenv : CString → Option CString) (dict : Variant) : Option Process := do
  let pi := processNew getenv true
  let e ← dictGet "argv" dict
  let argv ← e.getStringArray pi.argv
  let e ← dictGet "env" dict
  let environ ← e.getStringArray pi.environ
  some { argv := argv, environ := environ,
         useTerminal := (dictGetBool "use-terminal" dict).getD pi.useTerminal }

/-- `ni_process_exit_mode_t`, an `int` that any word can come as. -/
abbrev ExitMode := UInt32

def processNonstarter : ExitMode := 0
def processExited : ExitMode := 1
def processCrashed : ExitMode := 2
def processTimedOut : ExitMode := 3
def processTranscended : ExitMode := 4

/-- `struct ni_process_exit_info`. An `int` is kept as the word that is sent for it. -/
structure ExitInfo where
  how : ExitMode
  exitCode : UInt32 := 0
  crashSignal : UInt32 := 0
  coreDumped : Bool := false
  stdoutBytes : UInt32 := 0
  stderrBytes : UInt32 := 0
  deriving DecidableEq

def exitInfoSerialize (info : ExitInfo) : Variant :=
  let dict := dictAdd "how" (.uint32 info.how) (.dict [])
  let dict :=
    if info.how = processExited then dictAdd "exit-code" (.uint32 info.exitCode) dict
    else if info.how = processCrashed then
      dictAdd "core-dumped" (.boolean info.coreDumped)
        (dictAdd "exit-signal" (.uint32 info.crashSignal) dict)
    else dict
  dictAdd "stderr-total-bytes" (.uint32 info.stderrBytes)
    (dictAdd "stdout-total-bytes" (.uint32 info.stdoutBytes) dict)

/-- Whatever `how` says, an exit code makes it an exit and a signal a crash. -/
def exitInfoDeserialize (dict : Variant) : ExitInfo :=
  let info : ExitInfo := { how := (dictGetUint32 "how" dict).getD processTranscended }
  let info := match dictGetUint32 "exit-code" dict, dictGetUint32 "exit-signal" dict with
    | some code, _ => { info with how := processExited, exitCode := code }
    | none, some signal =>
      { info with how := processCrashed, crashSignal := signal
                  coreDumped := (dictGetBool "core-dumped" dict).getD false }
    | none, none => info
  { info with stdoutBytes := (dictGetUint32 "stdout-total-bytes" dict).getD 0
              stderrBytes := (dictGetUint32 "stderr-total-bytes" dict).getD 0 }

/-- The record with only the members that its way of ending uses. -/
def ExitInfo.used (info : ExitInfo) : ExitInfo where
  how := info.how
  exitCode := if info.how = processExited then info.exitCode else 0
  crashSignal := if info.how = processCrashed then info.crashSignal else 0
  coreDumped := if info.how = processCrashed then info.coreDumped else false
  stdoutBytes := info.stdoutBytes
  stderrBytes := info.stderrBytes

def fileRead : UInt32 := 1
def fileWrite : UInt32 := 2
def fileExec : UInt32 := 4

/-- The fields of `struct ni_testbus_file` that describe a file. Its data are not sent. -/
structure File where
  id : UInt32
  objectPath : Option CString := none
  name : Option CString
  mode : UInt32
  inum : UInt32
  iseq : UInt32 := 0
  deriving DecidableEq

structure FileArray where
  files : List File := []
  nextId : UInt32 := 0
  deriving DecidableEq

/-- `ni_testbus_file_new`; `inum` is the next of the numbers counted for all files. -/
def fileNew (name : Option CString) (array : FileArray) (mode inum : UInt32) : File × FileArray :=
  let file : File :=
    { id := array.nextId, name := name, mode := if mode = 0 then fileRead else mode, inum := inum }
  (file, { files := array.files ++ [file], nextId := array.nextId + 1 })

def fileSerialize (file : File) : Variant :=
  let dict := dictAdd "mode" (.uint32 file.mode) (dictAdd "iseq" (.uint32 file.iseq)
    (dictAdd "inum" (.uint32 file.inum) (dictAdd "name" (.string file.name) (.dict []))))
  match file.objectPath with
  | some path => dictAdd "object-path" (.string (some path)) dict
  | none => dict

/-- The new file is the last one of the array; its fields are set after it got there. -/
def fileDeserialize (dict : Variant) (container : FileArray) (counter : UInt32) : Option FileArray := do
  let name ← dictGetString "name" dict
  let inum ← dictGetUint32 "inum" dict
  let iseq ← dictGetUint32 "iseq" dict
  let mode ← dictGetUint32 "mode" dict
  let (file, array) := fileNew name container mode counter
  let file := { file with inum := inum, iseq := iseq }
  let file := match dictGetString "object-path" dict with
    | some path => { file with objectPath := path }
    | none => file
  some { array with files := container.files ++ [file] }

def fileArraySerialize (array : FileArray) : Variant :=
  .dictArray (array.files.map fileSerialize)

/-- The loop over the elements, of which `left` are still to come. -/
def fileArrayDeserializeLoop (dictArray : Variant) (container : FileArray) (counter : UInt32) :
    Nat → Option FileArray
  | 0 => some container
  | left + 1 => do
    let e ← dictArrayAt (dictArray.arrayLen - (left + 1)) dictArray
    let container ← fileDeserialize e container counter
    fileArrayDeserializeLoop dictArray container (counter + 1) left

def fileArrayDeserialize (dictArray : Variant) (counter : UInt32) : Option FileArray :=
  fileArrayDeserializeLoop dictArray {} counter dictArray.arrayLen

/-- `struct timeval` as `gettimeofday` gives it. -/
structure Timeval where
  sec : Nat
  usec : Nat
  normal : usec < 1000000
  fits : 1000000 * sec + usec < 2 ^ 64
  deriving DecidableEq

def Timeval.zero : Timeval := ⟨0, 0, by decide, by decide⟩

def Timeval.word (time : Timeval) : UInt64 := UInt64.ofNat (1000000 * time.sec + time.usec)

def Timeval.ofWord (word : UInt64) : Timeval where
  sec := word.toNat / 1000000
  usec := word.toNat % 1000000
  normal := Nat.mod_lt _ (by decide)
  fits := by rw [Nat.div_add_mod]; exact word.toNat_lt

structure Event where
  cls : Option CString := none
  source : Option CString := none
  type : Option CString := none
  sequence : UInt32
  timestamp : Timeval
  data : Option NiBuffer := none

def eventSerialize (ev : Event) : Variant :=
  let dict := dictAdd "timestamp" (.uint64 ev.timestamp.word)
    (dictAdd "seq" (.uint32 ev.sequence) (dictAdd "type" (.string ev.type)
      (dictAdd "class" (.string ev.cls) (dictAdd "source" (.string ev.source) (.dict [])))))
  match ev.data with
  | some data => dictAdd "data" (.byteArray data.payload) dict
  | none => dict

def eventDeserialize (raw : Variant → Nat → UInt8) (dict : Variant) : Option Event := do
  let cls ← dictGetString "class" dict
  let source ← dictGetString "source" dict
  let type ← dictGetString "type" dict
  let seq ← dictGetUint32 "seq" dict
  let timestamp ← dictGetUint64 "timestamp" dict
  some { cls := cls, source := source, type := type, sequence := seq
         timestamp := .ofWord timestamp
         data := dictGetByteArrayBuffer raw "data" dict }

/-- Two events are the same record: the same fields, and the same payload bytes. -/
structure Event.Same (a b : Event) : Prop where
  cls : a.cls = b.cls
  source : a.source = b.source
  type : a.type = b.type
  sequence : a.sequence = b.sequence
  timestamp : a.timestamp = b.timestamp
  data : a.data.map NiBuffer.payload = b.data.map NiBuffer.payload

theorem getStringArray_of (array data : List (Option CString)) :
    (Variant.ofStringArray data).getStringArray array = some (array ++ data.map fun s => some (s.getD [])) := by
  simp [Variant.ofStringArray, Variant.getStringArray]

/-- The strings arrive behind those that were there: a new process has no arguments yet,
but the environment of its agent. -/
theorem process_roundtrip (getenv : CString → Option CString) (pi : Process) :
    processDeserialize getenv (processSerialize pi) =
      some { argv := pi.argv.map fun s => some (s.getD [])
             environ := defaultEnvironment getenv ++ pi.environ.map fun s => some (s.getD [])
             useTerminal := pi.useTerminal } := by
  simp [processDeserialize, processSerialize, getStringArray_of, dictGetBool, Variant.getBool, processNew]

theorem exitInfo_roundtrip (info : ExitInfo) : exitInfoDeserialize (exitInfoSerialize info) = info.used := by
  have apart : processCrashed ≠ processExited := by decide
  by_cases exited : info.how = processExited
  · simp [exitInfoDeserialize, exitInfoSerialize, exited, apart.symm, dictGetUint32, Variant.getUint32, ExitInfo.used]
  · by_cases crashed : info.how = processCrashed
    · simp [exitInfoDeserialize, exitInfoSerialize, crashed, apart, dictGetUint32, dictGetBool,
        Variant.getUint32, Variant.getBool, ExitInfo.used]
    · simp [exitInfoDeserialize, exitInfoSerialize, exited, crashed, dictGetUint32, Variant.getUint32, ExitInfo.used]

/-- What a receiver makes of a file: `id` is its own, and no mode means reading. -/
def File.received (id : UInt32) (file : File) : File :=
  { file with id := id, mode := if file.mode = 0 then fileRead else file.mode }

theorem file_roundtrip (file : File) (container : FileArray) (counter : UInt32) :
    fileDeserialize (fileSerialize file) container counter =
      some { files := container.files ++ [file.received container.nextId]
             nextId := container.nextId + 1 } := by
  obtain ⟨id, objectPath, name, mode, inum, iseq⟩ := file
  cases objectPath <;>
    simp [fileDeserialize, fileSerialize, fileNew, File.received, dictGetString, dictGetUint32,
      Variant.getString, Variant.getUint32]

theorem fileArrayLoop_roundtrip (done rest : List File) (container : FileArray) (counter : UInt32) :
    fileArrayDeserializeLoop (.dictArray ((done ++ rest).map fileSerialize)) container counter rest.length =
      some { files := container.files ++ rest.mapIdx fun i file => file.received (container.nextId + UInt32.ofNat i)
             nextId := container.nextId + UInt32.ofNat rest.length } := by
  induction rest generalizing done container counter with
  | nil => simp [fileArrayDeserializeLoop]
  | cons file rest ih =>
    have position : dictArrayAt (((done ++ file :: rest).map fileSerialize).length -
        (rest.length + 1)) (.dictArray ((done ++ file :: rest).map fileSerialize)) =
        some (fileSerialize file) := by
      simp [dictArrayAt]
    have later := ih (done ++ [file]) ⟨container.files ++ [file.received container.nextId],
      container.nextId + 1⟩ (counter + 1)
    rw [List.append_assoc, List.singleton_append] at later
    have shift (i : Nat) : container.nextId + 1 + UInt32.ofNat i = container.nextId + UInt32.ofNat (i + 1) := by
      rw [UInt32.ofNat_add, UInt32.add_assoc, UInt32.add_comm 1]
      rfl
    simp only [List.length_cons, fileArrayDeserializeLoop, Variant.arrayLen]
    rw [position]
    simp only [Option.bind_eq_bind, Option.bind_some, file_roundtrip]
    rw [later]
    simp [shift, List.mapIdx_cons]

theorem fileArray_roundtrip (array : FileArray) (counter : UInt32) :
    fileArrayDeserialize (fileArraySerialize array) counter =
      some { files := array.files.mapIdx fun i file => file.received (UInt32.ofNat i)
             nextId := UInt32.ofNat array.files.length } := by
  have whole := fileArrayLoop_roundtrip [] array.files {} counter
  simpa [fileArrayDeserialize, fileArraySerialize, Variant.arrayLen] using whole

theorem timeval_ofWord (time : Timeval) : Timeval.ofWord time.word = time := by
  obtain ⟨sec, usec, normal, fits⟩ := time
  have word : (UInt64.ofNat (1000000 * sec + usec)).toNat = 1000000 * sec + usec := by
    rw [UInt64.toNat_ofNat', Nat.mod_eq_of_lt fits]
  simp only [Timeval.ofWord, Timeval.word, word, Timeval.mk.injEq]
  omega

theorem event_roundtrip (raw : Variant → Nat → UInt8) (ev : Event) :
    ∃ result, eventDeserialize raw (eventSerialize ev) = some result ∧ result.Same ev := by
  obtain ⟨cls, source, type, sequence, timestamp, data⟩ := ev
  cases data with
  | none =>
    refine ⟨_, by simp [eventDeserialize, eventSerialize, dictGetString, dictGetUint32,
      dictGetUint64, Variant.getString, Variant.getUint32, Variant.getUint64,
      dictGetByteArrayBuffer, timeval_ofWord]; rfl, ?_⟩
    exact ⟨rfl, rfl, rfl, rfl, rfl, rfl⟩
  | some bp =>
    refine ⟨_, by simp [eventDeserialize, eventSerialize, dictGetString, dictGetUint32,
      dictGetUint64, Variant.getString, Variant.getUint32, Variant.getUint64,
      dictGetByteArrayBuffer, timeval_ofWord]; rfl, ?_⟩
    refine ⟨rfl, rfl, rfl, rfl, rfl, ?_⟩
    exact congrArg some (NiBuffer.payload_put bp.payload bp.length_payload)

theorem map_some_getD (strings : List (Option CString)) :
    strings.map (fun s => some (s.getD [])) = strings ↔ none ∉ strings := by
  induction strings with
  | nil => simp
  | cons s rest ih => cases s <;> simp [ih]

/-- Every default that is there stays. -/
theorem foldl_setenv_nil (getenv : CString → Option CString) (names : List CString) (environ : List (Option CString)) :
    names.foldl (fun environ name => match getenv name with
      | some value => processSetenv environ name value
      | none => environ) environ = [] ↔ environ = [] ∧ ∀ name ∈ names, getenv name = none := by
  induction names generalizing environ with
  | nil => simp
  | cons name rest ih =>
    rw [List.foldl_cons, ih, List.forall_mem_cons]
    cases getenv name with
    | none => simp
    | some value =>
      have kept : processSetenv environ name value ≠ [] := by
        cases environ <;> simp only [processSetenv] <;> try split
        all_goals exact List.cons_ne_nil _ _
      simp [kept]

/-- The environment is as it was sent just if the receiver has no default of its own. -/
theorem environ_eq_iff (getenv : CString → Option CString) (environ : List (Option CString)) :
    defaultEnvironment getenv ++ environ.map (fun s => some (s.getD [])) = environ ↔
      (∀ name ∈ copyEnv, getenv name = none) ∧ none ∉ environ := by
  have leaked : defaultEnvironment getenv = [] ↔ ∀ name ∈ copyEnv, getenv name = none :=
    (foldl_setenv_nil getenv copyEnv []).trans (and_iff_right rfl)
  rw [← leaked, ← map_some_getD]
  constructor
  · intro same
    have lengths := congrArg List.length same
    rw [List.length_append, List.length_map] at lengths
    have none' : defaultEnvironment getenv = [] := List.eq_nil_of_length_eq_zero (by omega)
    exact ⟨none', by simpa only [none', List.nil_append] using same⟩
  · rintro ⟨none', same⟩
    rw [none', List.nil_append, same]

/-- The ids are as they were sent just if they count the files, and the modes just if there are some. -/
theorem received_eq_iff (files : List File) :
    ((files.mapIdx fun i file => file.received (UInt32.ofNat i)).map File.id = files.map File.id ↔
      ∀ i file, files[i]? = some file → file.id = UInt32.ofNat i) ∧
    ((files.mapIdx fun i file => file.received (UInt32.ofNat i)).map File.mode = files.map File.mode ↔
      ∀ file ∈ files, file.mode ≠ 0) := by
  have no : fileRead ≠ 0 := by decide
  simp only [List.ext_getElem?_iff, List.getElem?_map, List.getElem?_mapIdx, File.received]
  constructor
  · refine forall_congr' fun i => ?_
    cases files[i]? <;> simp [eq_comm]
  · simp only [List.mem_iff_getElem?, forall_exists_index]
    rw [forall_comm]
    refine forall_congr' fun i => ?_
    cases files[i]? with
    | none => simp
    | some file => by_cases unset : file.mode = 0 <;> simp [unset, no]

theorem used_eq_iff (info : ExitInfo) : info.used = info ↔
    (info.how ≠ processExited → info.exitCode = 0) ∧
      (info.how ≠ processCrashed → info.crashSignal = 0 ∧ info.coreDumped = false) := by
  obtain ⟨how, exitCode, crashSignal, coreDumped, stdoutBytes, stderrBytes⟩ := info
  simp only [ExitInfo.used, ExitInfo.mk.injEq, true_and, and_true]
  by_cases exited : how = processExited <;> by_cases crashed : how = processCrashed <;>
    simp only [exited, crashed] <;> grind

/-- What arrives of each kind of record, and what of it is as it was sent. -/
theorem records_roundtrip (getenv : CString → Option CString) (raw : Variant → Nat → UInt8) :
    (∀ pi : Process, ∃ result, processDeserialize getenv (processSerialize pi) = some result ∧
      (result.argv = pi.argv ↔ none ∉ pi.argv) ∧ result.useTerminal = pi.useTerminal ∧
      (result.environ = pi.environ ↔ (∀ name ∈ copyEnv, getenv name = none) ∧ none ∉ pi.environ)) ∧
    (∀ (array : FileArray) (counter : UInt32), ∃ result,
      fileArrayDeserialize (fileArraySerialize array) counter = some result ∧
      result.files.map (fun file => (file.name, file.inum, file.iseq, file.objectPath)) =
        array.files.map (fun file => (file.name, file.inum, file.iseq, file.objectPath)) ∧
      (result.files.map File.id = array.files.map File.id ↔
        ∀ i file, array.files[i]? = some file → file.id = UInt32.ofNat i) ∧
      (result.files.map File.mode = array.files.map File.mode ↔ ∀ file ∈ array.files, file.mode ≠ 0)) ∧
    (∀ ev : Event, ∃ result,
      eventDeserialize raw (eventSerialize ev) = some result ∧ result.Same ev) ∧
    ∀ info : ExitInfo, exitInfoDeserialize (exitInfoSerialize info) = info.used ∧
      (info.used = info ↔ (info.how ≠ processExited → info.exitCode = 0) ∧
        (info.how ≠ processCrashed → info.crashSignal = 0 ∧ info.coreDumped = false)) := by
  refine ⟨fun pi => ?_, fun array counter => ?_, event_roundtrip raw,
    fun info => ⟨exitInfo_roundtrip info, used_eq_iff info⟩⟩
  · exact ⟨_, process_roundtrip getenv pi, map_some_getD pi.argv, rfl, environ_eq_iff getenv pi.environ⟩
  · refine ⟨_, fileArray_roundtrip array counter, ?_, received_eq_iff array.files⟩
    refine List.ext_getElem (by simp) fun i _ _ => by simp [File.received]

/-- A receiver with a `PATH` puts it before the one it is sent. -/
theorem process_not_equal : ¬ ∀ (getenv : CString → Option CString) (pi : Process),
    processDeserialize getenv (processSerialize pi) = some pi := by
  intro claimed
  have equal := claimed (fun name => if name = [0x50, 0x41, 0x54, 0x48] then some [0x2f] else none)
    { argv := [some [0x6c, 0x73]], environ := [some [0x50, 0x41, 0x54, 0x48, 0x3d, 0x2f, 0x78]] }
  have environ := congrArg (Option.map Process.environ) equal
  exact absurd environ (by decide)

end Testbus.Dbus
