import Testbus.Agent.Cache

namespace Testbus

open Dbus Lib

/-- The master's files, the number for the next one, and an agent. `created` is a record of
the run: every file that was created. -/
structure FileWorld where
  files : List Tmpfile := []
  inum : UInt32 := 1
  created : List File := []
  agent : Agent := {}

/-- A process that is scheduled: the paths of the files in the arrays that the master merges
for it, and how the calls and the system answer while the agent attaches them. -/
structure ProcessRun where
  arrays : List (List CString)
  counter : UInt32 := 1
  answered : Nat → Nat → Bool
  dirpath : CString
  made : Nat → Bool

inductive FileAct
  | create (name path : CString) (array : FileArray) (mode : UInt32)
  | append (path : CString) (bytes : Bytes)
  | delete (path : CString)
  | discard (path : CString)
  | run (process : ProcessRun)

namespace FileWorld

/-- The file object that the master has at a path. -/
def lookup (w : FileWorld) (path : CString) : Option Tmpfile :=
  w.files.find? fun tmp => tmp.file.objectPath = some path

/-- `Fileset.createFile`, and the registration of the file's object. -/
def createFile (w : FileWorld) (name path : CString) (array : FileArray) (mode : UInt32) : FileWorld :=
  let file := { (fileNew (some name) array mode w.inum).1 with objectPath := some path }
  { w with files := w.files ++ [⟨file, []⟩], inum := w.inum + 1, created := w.created ++ [file] }

/-- The files of a process, as the master announces them. -/
def scheduled (w : FileWorld) (process : ProcessRun) : List Tmpfile :=
  (process.arrays.map fun paths => paths.filterMap w.lookup).foldl fileArrayMerge []

/-- `ni_testbus_agent_download_file`; `calls` says which calls for the file are answered. -/
def fetch (w : FileWorld) (calls : Nat → Bool) (file : AgentFile) : Option Bytes := do
  let path ← file.objectPath
  if calls 0 then
    let tmp ← w.lookup path
    tmp.downloadLoop calls 1 []
  else none

/-- The agent gets the announcement and attaches the files. -/
def attach (w : FileWorld) (process : ProcessRun) : Agent × Option (List Addr × Agent.Directory) :=
  let announced := fileArraySerialize { files := (w.scheduled process).map Tmpfile.file }
  match fileArrayDeserialize announced process.counter with
  | none => (w.agent, none)
  | some array =>
    let (agent, addrs) := w.agent.receive array.files
    agent.attachFiles (fun i => w.fetch (process.answered i)) process.dirpath process.made addrs

def step (w : FileWorld) : FileAct → Except Machine.Disabled FileWorld
  | .create name path array mode =>
    if (w.lookup path).isSome then .error .disabled else .ok (w.createFile name path array mode)
  | .append path bytes =>
    .ok { w with files := w.files.map fun tmp =>
      if tmp.file.objectPath = some path then (tmp.append bytes).getD tmp else tmp }
  | .delete path =>
    .ok { w with files := w.files.filter fun tmp => tmp.file.objectPath ≠ some path }
  | .discard path => .ok { w with agent := w.agent.discardCachedFile path }
  | .run process => .ok { w with agent := (w.attach process).1 }

/-- The number of the new file is not one that an earlier file got. -/
def Unwrapped (w : FileWorld) : FileAct → Prop
  | .create .. => w.inum ∉ w.created.map File.inum
  | _ => True

/-- What the file of a process has on the disk. -/
def instanceContent (agent : Agent) (directory : Agent.Directory) (a : Addr) : Option Bytes := do
  let file ← agent.heap.cells a
  let path ← file.instancePath
  directory path

/-- The claim about one process: each of its files that is read has the master's data. -/
def Supplied (w : FileWorld) (process : ProcessRun) (agent : Agent) (files : List Addr)
    (directory : Agent.Directory) : Prop :=
  ∀ (k : Nat) (tmp : Tmpfile), (w.scheduled process)[k]? = some tmp → tmp.file.mode &&& fileRead ≠ 0 →
    ∃ a, files[k]? = some a ∧ instanceContent agent directory a = some tmp.data

variable {w w' : FileWorld} {tmp : Tmpfile}

/-- A file that was created. -/
def Known (w : FileWorld) (file : File) : Prop := ∃ c ∈ w.created, c.identity = file.identity

/-- The invariant. Files have one number and one path each, and the cache has only objects
of files that were created. -/
structure Sound (w : FileWorld) : Prop where
  distinct : (w.created.map File.inum).Nodup
  whole : ∀ c ∈ w.created, c.mode ≠ 0 ∧ c.name.isSome ∧ c.objectPath.isSome
  known : ∀ tmp ∈ w.files, w.Known tmp.file
  paths : (w.files.map fun tmp => tmp.file.objectPath).Nodup
  sane : Agent.Sane w.Known w.agent
  bounded : w.agent.Bounded

theorem Sound.initial : Sound {} where
  distinct := List.nodup_nil
  whole := by simp
  known := by simp
  paths := List.nodup_nil
  sane := by simp [Agent.Sane]
  bounded := by simp [Agent.Bounded, Store.empty]

theorem Sound.unique (sound : w.Sound) (first : w.Known f) (second : w.Known g)
    (same : f.inum = g.inum) : f.identity = g.identity := by
  obtain ⟨c, memberC, identityC⟩ := first
  obtain ⟨d, memberD, identityD⟩ := second
  have inumC : c.inum = f.inum := congrArg Prod.fst identityC
  have inumD : d.inum = g.inum := congrArg Prod.fst identityD
  have inums : c.inum = d.inum := inumC.trans (same.trans inumD.symm)
  have equal : c = d := List.inj_on_of_nodup_map sound.distinct memberC memberD inums
  rw [← identityC, equal, identityD]

/-- A download that comes to an end has brought the whole file. -/
theorem downloadLoop_some (downloaded : tmp.downloadLoop calls i result = some data)
    (started : tmp.data.take result.length = result) : data = tmp.data := by
  fun_induction Tmpfile.downloadLoop tmp calls i result with
  | case1 i result answered block last =>
    obtain rfl := Option.some.inj downloaded
    have short : tmp.data.length - result.length < Tmpfile.ioblksize := by
      have shorter : block.length < Tmpfile.ioblksize := last
      rw [show block = tmp.retrieve result.length Tmpfile.ioblksize from rfl, Tmpfile.retrieve,
        List.length_take, List.length_drop] at shorter
      omega
    calc result ++ block
      _ = tmp.data.take result.length ++ tmp.data.drop result.length := by
        rw [started, show block = tmp.retrieve result.length Tmpfile.ioblksize from rfl,
          Tmpfile.retrieve, List.take_of_length_le]
        rw [List.length_drop]
        exact Nat.le_of_lt short
      _ = tmp.data := List.take_append_drop _ _
  | case2 i result answered block full ih =>
    apply ih downloaded
    have size : block.length = Tmpfile.ioblksize := by
      have whole : ¬ block.length < Tmpfile.ioblksize := full
      have most : block.length ≤ Tmpfile.ioblksize := List.length_take_le _ _
      omega
    rw [List.length_append, size, List.take_add, started]
    rfl
  | case3 i result silent => cases downloaded

variable {path : CString}

theorem Sound.lookup (sound : w.Sound) (member : tmp ∈ w.files)
    (at_ : tmp.file.objectPath = some path) : w.lookup path = some tmp := by
  have some' : (w.lookup path).isSome := by
    rw [FileWorld.lookup, List.find?_isSome]
    exact ⟨tmp, member, by simpa using at_⟩
  obtain ⟨other, found⟩ := Option.isSome_iff_exists.mp some'
  have path' : other.file.objectPath = some path := by simpa using List.find?_some found
  rw [found, List.inj_on_of_nodup_map sound.paths (List.mem_of_find?_eq_some found) member (path'.trans at_.symm)]

theorem Sound.fetch (sound : w.Sound) (member : tmp ∈ w.files) (same : source.identity = tmp.file.identity)
    (fetched : w.fetch calls source = some data) : data = tmp.data := by
  have paths : source.objectPath = tmp.file.objectPath := congrArg (fun identity => identity.2.2.2) same
  simp only [FileWorld.fetch, bind, Option.bind_eq_some_iff] at fetched
  obtain ⟨path, there, fetched⟩ := fetched
  split at fetched
  · obtain ⟨other, found, downloaded⟩ := Option.bind_eq_some_iff.mp fetched
    rw [sound.lookup member (paths.symm.trans there)] at found
    obtain rfl := Option.some.inj found
    exact downloadLoop_some downloaded rfl
  · cases fetched

theorem merge_names {files result merge : List Tmpfile} (inside : ∀ tmp ∈ merge, tmp ∈ files)
    (inside' : ∀ tmp ∈ result, tmp ∈ files) (distinct : (result.map fun tmp => tmp.file.name).Nodup) :
    (∀ tmp ∈ fileArrayMerge result merge, tmp ∈ files) ∧
      ((fileArrayMerge result merge).map fun tmp => tmp.file.name).Nodup := by
  unfold fileArrayMerge
  induction merge generalizing result with
  | nil => exact ⟨inside', distinct⟩
  | cons tmp rest ih =>
    have later : ∀ tmp ∈ rest, tmp ∈ files := fun other member =>
      inside other (List.mem_cons_of_mem _ member)
    rw [List.foldl_cons]
    split
    · exact ih later inside' distinct
    · rename_i missed
      apply ih later
      · intro other member
        rcases List.mem_append.mp member with old | new
        · exact inside' other old
        · exact List.mem_singleton.mp new ▸ inside tmp (List.mem_cons_self ..)
      · rw [List.map_append]
        refine List.nodup_append.mpr ⟨distinct, List.nodup_singleton _, ?_⟩
        rintro name old other new rfl
        obtain ⟨first, member, same⟩ := List.mem_map.mp old
        apply missed
        rw [findByName, List.find?_isSome]
        exact ⟨first, member, by simpa [same] using List.mem_singleton.mp new⟩

theorem scheduled_names (w : FileWorld) (process : ProcessRun) :
    (∀ tmp ∈ w.scheduled process, tmp ∈ w.files) ∧ ((w.scheduled process).map fun tmp => tmp.file.name).Nodup := by
  unfold scheduled
  suffices merged : ∀ (arrays : List (List Tmpfile)) (result : List Tmpfile),
      (∀ array ∈ arrays, ∀ tmp ∈ array, tmp ∈ w.files) → (∀ tmp ∈ result, tmp ∈ w.files) →
      (result.map fun tmp => tmp.file.name).Nodup →
      (∀ tmp ∈ arrays.foldl fileArrayMerge result, tmp ∈ w.files) ∧
        ((arrays.foldl fileArrayMerge result).map fun tmp => tmp.file.name).Nodup by
    refine merged _ [] ?_ (by simp) List.nodup_nil
    intro array member tmp inside
    obtain ⟨paths, _, rfl⟩ := List.mem_map.mp member
    obtain ⟨path, _, found⟩ := List.mem_filterMap.mp inside
    exact List.mem_of_find?_eq_some found
  intro arrays
  induction arrays with
  | nil =>
    intro result _ inside distinct
    exact ⟨inside, distinct⟩
  | cons array rest ih =>
    intro result arrays inside distinct
    obtain ⟨inside', distinct'⟩ := merge_names (arrays array (List.mem_cons_self ..)) inside distinct
    exact ih _ (fun other member => arrays other (List.mem_cons_of_mem _ member)) inside' distinct'

theorem Sound.inums (sound : w.Sound) (process : ProcessRun) :
    ((w.scheduled process).map fun tmp => tmp.file.inum).Nodup := by
  obtain ⟨inside, distinct⟩ := scheduled_names w process
  refine List.Nodup.map_on ?_ (List.Nodup.of_map _ distinct)
  intro first memberF second memberS same
  have identity := sound.unique (sound.known first (inside first memberF))
    (sound.known second (inside second memberS)) same
  exact List.inj_on_of_nodup_map distinct memberF memberS (congrArg (fun identity => identity.2.1) identity)

/-- The files of a process as its agent receives them. -/
def announced (w : FileWorld) (process : ProcessRun) : List File :=
  ((w.scheduled process).map Tmpfile.file).mapIdx fun i file => file.received (UInt32.ofNat i)

theorem attach_announced (w : FileWorld) (process : ProcessRun) :
    w.attach process =
      (w.agent.receive (w.announced process)).1.attachFiles
        (fun i => w.fetch (process.answered i)) process.dirpath process.made
        (w.agent.receive (w.announced process)).2 := by
  simp only [attach, fileArray_roundtrip, announced]

theorem announced_at (at_ : (w.scheduled process)[k]? = some tmp) :
    (w.announced process)[k]? = some (tmp.file.received (UInt32.ofNat k)) := by
  simp [announced, List.getElem?_mapIdx, at_]

theorem Sound.received (sound : w.Sound) (known : w.Known tmp.file) (id : UInt32) :
    (tmp.file.received id).identity = tmp.file.identity := by
  obtain ⟨c, member, identity⟩ := known
  have mode : c.mode = tmp.file.mode := congrArg (fun identity => identity.2.2.1) identity
  have nonzero : tmp.file.mode ≠ 0 := mode ▸ (sound.whole c member).1
  simp [File.received, File.identity, nonzero]

theorem announced_inums (w : FileWorld) (process : ProcessRun) :
    (w.announced process).map File.inum = (w.scheduled process).map fun tmp => tmp.file.inum := by
  apply List.ext_getElem
  · simp [announced]
  · intro k first second
    simp [announced, File.received]

theorem Sound.announced_known (sound : w.Sound) (process : ProcessRun) : ∀ f ∈ w.announced process, w.Known f := by
  intro f member
  obtain ⟨k, bound, rfl⟩ := List.mem_iff_getElem.mp member
  have bound' : k < (w.scheduled process).length := by simpa [announced] using bound
  have inside := (scheduled_names w process).1 _ (List.getElem_mem bound')
  have known := sound.known _ inside
  obtain ⟨c, created, identity⟩ := known
  refine ⟨c, created, identity.trans ?_⟩
  rw [← sound.received (sound.known _ inside) (UInt32.ofNat k)]
  simp [announced]

theorem instancePathOf_inj (named : first.isSome) (named' : second.isSome)
    (same : Agent.instancePathOf dirpath first = Agent.instancePathOf dirpath second) : first = second := by
  obtain ⟨one, rfl⟩ := Option.isSome_iff_exists.mp named
  obtain ⟨two, rfl⟩ := Option.isSome_iff_exists.mp named'
  have tails := List.append_cancel_left same
  exact congrArg some (List.cons.inj tails).2

/-- The objects that stand for the files of a process after the look-ups. -/
def Resolves (w : FileWorld) (process : ProcessRun) (agent : Agent) (addrs : List Addr) : Prop :=
  addrs.length = (w.scheduled process).length ∧
    ∀ (k : Nat) (tmp : Tmpfile), (w.scheduled process)[k]? = some tmp →
      ∃ r now, addrs[k]? = some r ∧ agent.heap.cells r = some now ∧
        Agent.Resolved (w.fetch (process.answered k)) (w.agent.Answers tmp.file) tmp.file now

theorem Sound.resolves (sound : w.Sound) {agent : Agent} {addrs : List Addr}
    (looped : Agent.attachLoop (fun i => w.fetch (process.answered i)) 0
      (w.agent.receive (w.announced process)).1 (w.agent.receive (w.announced process)).2 =
        (agent, some addrs)) : w.Resolves process agent addrs := by
  obtain ⟨_, received⟩ := Agent.receive_received (w.announced process) sound.bounded
  have distinct : ((w.announced process).map File.inum).Nodup := by
    rw [announced_inums]
    exact sound.inums process
  obtain ⟨length, resolved⟩ := Agent.attachLoop_some received.fresh distinct
    (received.sane sound.sane sound.bounded) (sound.announced_known process)
    (fun f g first second => sound.unique first second) looped
  refine ⟨by simpa [announced] using length, ?_⟩
  intro k tmp at_
  obtain ⟨r, now, there, found, resolved⟩ := resolved k _ (announced_at at_)
  have member := (scheduled_names w process).1 tmp (List.mem_of_getElem? at_)
  have identity := sound.received (sound.known tmp member) (UInt32.ofNat k)
  have answers : (w.agent.receive (w.announced process)).1.Answers
      (tmp.file.received (UInt32.ofNat k)) ↔ w.agent.Answers tmp.file := received.answers sound.sane sound.bounded _
  rw [Nat.zero_add] at resolved
  refine ⟨r, now, there, found, resolved.same.trans identity, resolved.bare,
    fun hit => resolved.cached (answers.mpr hit), ?_⟩
  intro missed wanted
  obtain ⟨source, same, fetched⟩ := resolved.read (mt answers.mp missed) wanted
  exact ⟨source, same.trans identity, fetched⟩

/-- The objects have paths of their own, as their files have names of their own. -/
theorem Resolves.apart {agent : Agent} {addrs : List Addr} (sound : w.Sound) (resolves : w.Resolves process agent addrs) :
    addrs.Nodup ∧ addrs.Pairwise fun a b => ∀ first second,
      agent.heap.cells a = some first → agent.heap.cells b = some second →
      Agent.instancePathOf process.dirpath first.name ≠ Agent.instancePathOf process.dirpath second.name := by
  obtain ⟨length, resolved⟩ := resolves
  obtain ⟨inside, names⟩ := scheduled_names w process
  have named (tmp : Tmpfile) (member : tmp ∈ w.scheduled process) : tmp.file.name.isSome := by
    obtain ⟨c, created, identity⟩ := sound.known tmp (inside tmp member)
    rw [← show c.name = tmp.file.name from congrArg (fun identity => identity.2.1) identity]
    exact (sound.whole c created).2.1
  have apart (i j : Nat) (boundI : i < addrs.length) (boundJ : j < addrs.length) (less : i < j)
      (first second : AgentFile) (foundI : agent.heap.cells addrs[i] = some first)
      (foundJ : agent.heap.cells addrs[j] = some second) :
      Agent.instancePathOf process.dirpath first.name ≠ Agent.instancePathOf process.dirpath second.name := by
    have boundI' := length ▸ boundI
    have boundJ' := length ▸ boundJ
    obtain ⟨r, now, atI, thereI, resolvedI⟩ := resolved i _ (List.getElem?_eq_getElem boundI')
    obtain ⟨q, now', atJ, thereJ, resolvedJ⟩ := resolved j _ (List.getElem?_eq_getElem boundJ')
    rw [List.getElem?_eq_getElem boundI] at atI
    rw [List.getElem?_eq_getElem boundJ] at atJ
    obtain rfl := Option.some.inj atI
    obtain rfl := Option.some.inj atJ
    obtain rfl := Option.some.inj (foundI.symm.trans thereI)
    obtain rfl := Option.some.inj (foundJ.symm.trans thereJ)
    rw [resolvedI.name, resolvedJ.name]
    intro same
    have equal := instancePathOf_inj (named _ (List.getElem_mem boundI')) (named _ (List.getElem_mem boundJ')) same
    have distinct := List.pairwise_iff_getElem.mp names i j (by simpa using boundI') (by simpa using boundJ') less
    exact distinct (by simpa using equal)
  constructor
  · refine List.pairwise_iff_getElem.mpr ?_
    intro i j boundI boundJ less same
    obtain ⟨r, now, atI, thereI, _⟩ := resolved i _ (List.getElem?_eq_getElem (length ▸ boundI))
    rw [List.getElem?_eq_getElem boundI] at atI
    obtain rfl := Option.some.inj atI
    exact apart i j boundI boundJ less now now thereI (same ▸ thereI) rfl
  · exact List.pairwise_iff_getElem.mpr apart

/-- What the file at a place of the list gets, when the agent has attached them all. -/
theorem attach_some {files : List Addr} {directory : Agent.Directory} (sound : w.Sound)
    (attached : w.attach process = (agent', some (files, directory))) (k : Nat) (tmp : Tmpfile)
    (at_ : (w.scheduled process)[k]? = some tmp) :
    ∃ a now, files[k]? = some a ∧ Agent.Resolved (w.fetch (process.answered k)) (w.agent.Answers tmp.file) tmp.file now ∧
      instanceContent agent' directory a =
        if Agent.captured tmp.file.name then none else now.data := by
  rw [attach_announced, Agent.attachFiles] at attached
  split at attached
  · cases attached
  · rename_i middle addrs looped
    have resolves := sound.resolves looped
    obtain ⟨nodup, apart⟩ := Resolves.apart sound resolves
    split at attached
    · cases attached
    · rename_i final written instantiated
      obtain ⟨rfl, same⟩ := Prod.mk.inj attached
      obtain ⟨rfl, rfl⟩ := Prod.mk.inj (Option.some.inj same)
      obtain ⟨a, now, there, found, resolved⟩ := resolves.2 k tmp at_
      refine ⟨a, now, there, resolved, ?_⟩
      obtain ⟨_, _, instances⟩ := Agent.instantiateLoop_some nodup apart instantiated
      obtain ⟨file, final, before, after, special, ordinary⟩ := instances a (List.mem_of_getElem? there)
      obtain rfl := Option.some.inj (found.symm.trans before)
      rw [resolved.name] at special ordinary
      cases kind : Agent.captured tmp.file.name with
      | true => simp [instanceContent, after, special kind, resolved.bare]
      | false =>
        obtain ⟨path, content⟩ := ordinary kind
        simp [instanceContent, after, path, content]

/-- A process gets what the master has of its files, unless the cache has an entry of the same
number for one of them, or one of them is meant to be read and is called like an output. -/
theorem supplied_iff {files : List Addr} {directory : Agent.Directory} (sound : w.Sound)
    (attached : w.attach process = (agent', some (files, directory))) :
    w.Supplied process agent' files directory ↔
      ∀ tmp ∈ w.scheduled process, tmp.file.mode &&& fileRead ≠ 0 →
        ¬ w.agent.Answers tmp.file ∧ Agent.captured tmp.file.name = false := by
  constructor
  · intro supplied tmp member reads
    obtain ⟨k, at_⟩ := List.mem_iff_getElem?.mp member
    obtain ⟨a, now, there, resolved, content⟩ := attach_some sound attached k tmp at_
    obtain ⟨a', there', content'⟩ := supplied k tmp at_ reads
    obtain rfl := Option.some.inj (there.symm.trans there')
    rw [content] at content'
    constructor
    · intro hit
      rw [resolved.cached hit] at content'
      split at content' <;> cases content'
    · cases kind : Agent.captured tmp.file.name with
      | true => simp [kind] at content'
      | false => rfl
  · intro clean k tmp at_ reads
    have member := List.mem_of_getElem? at_
    obtain ⟨missed, ordinary⟩ := clean tmp member reads
    obtain ⟨a, now, there, resolved, content⟩ := attach_some sound attached k tmp at_
    refine ⟨a, there, ?_⟩
    have mode : now.mode = tmp.file.mode := congrArg (fun identity => identity.2.2.1) resolved.same
    have wanted : now.wanted fileRead = true := by
      simpa [AgentFile.wanted, mode] using reads
    obtain ⟨source, same, fetched, brought⟩ := resolved.read missed wanted
    obtain ⟨data, data'⟩ := Option.isSome_iff_exists.mp brought
    rw [content, ordinary, data']
    rw [data'] at fetched
    exact congrArg some (sound.fetch ((scheduled_names w process).1 tmp member) same fetched)

theorem Known.mono (known : w.Known file) (c : List File) (grown : w'.created = w.created ++ c) : w'.Known file := by
  obtain ⟨old, member, identity⟩ := known
  exact ⟨old, grown ▸ List.mem_append_left _ member, identity⟩

theorem Sound.create (sound : w.Sound) (free : w.lookup path = none) (fresh : w.inum ∉ w.created.map File.inum) :
    (w.createFile name path array mode).Sound := by
  have mono (file : File) (known : w.Known file) : (w.createFile name path array mode).Known file := known.mono _ rfl
  constructor
  case distinct =>
    simp only [createFile, List.map_append]
    refine List.nodup_append.mpr ⟨sound.distinct, List.nodup_singleton _, ?_⟩
    rintro inum old other new rfl
    have number : inum = w.inum := List.mem_singleton.mp new
    exact fresh (number ▸ old)
  case whole =>
    intro c member
    rcases List.mem_append.mp member with old | new
    · exact sound.whole c old
    · obtain rfl := List.mem_singleton.mp new
      refine ⟨?_, rfl, rfl⟩
      change (if mode = 0 then fileRead else mode) ≠ 0
      split
      · decide
      · assumption
  case known =>
    intro tmp member
    rcases List.mem_append.mp member with old | new
    · exact mono _ (sound.known tmp old)
    · obtain rfl := List.mem_singleton.mp new
      exact ⟨_, List.mem_append_right _ (List.mem_singleton_self _), rfl⟩
  case paths =>
    simp only [createFile, List.map_append]
    refine List.nodup_append.mpr ⟨sound.paths, List.nodup_singleton _, ?_⟩
    rintro place old other new rfl
    obtain ⟨tmp, member, at_⟩ := List.mem_map.mp old
    have absent := List.find?_eq_none.mp free tmp member
    exact absent (by simpa [at_] using List.mem_singleton.mp new)
  case sane =>
    intro g member
    obtain ⟨gfile, found, known⟩ := sound.sane g member
    exact ⟨gfile, found, mono _ known⟩
  case bounded => exact sound.bounded

theorem Sound.run (sound : w.Sound) : Sound { w with agent := (w.attach process).1 } := by
  obtain ⟨_, received⟩ := Agent.receive_received (w.announced process) sound.bounded
  have distinct : ((w.announced process).map File.inum).Nodup := by
    rw [announced_inums]
    exact sound.inums process
  have agent : Agent.Sane w.Known (w.attach process).1 ∧ (w.attach process).1.Bounded := by
    rw [attach_announced]
    exact Agent.attachFiles_kept received.fresh distinct
      (received.sane sound.sane sound.bounded) received.bounded (sound.announced_known process)
  exact { sound with sane := agent.1, bounded := agent.2 }

theorem append_identity (appended : tmp.append bytes = some grown) : grown.file.identity = tmp.file.identity := by
  unfold Tmpfile.append at appended
  split at appended
  · cases appended
  · obtain rfl := Option.some.inj appended
    rfl

theorem Sound.append (sound : w.Sound) :
    Sound { w with files := w.files.map fun tmp =>
      if tmp.file.objectPath = some path then (tmp.append bytes).getD tmp else tmp } := by
  have same (tmp : Tmpfile) : (if tmp.file.objectPath = some path then (tmp.append bytes).getD tmp
      else tmp).file.identity = tmp.file.identity := by
    split
    · cases appended : tmp.append bytes with
      | none => rfl
      | some grown => exact append_identity appended
    · rfl
  refine { sound with known := ?_, paths := ?_ }
  · intro tmp member
    obtain ⟨old, inside, rfl⟩ := List.mem_map.mp member
    obtain ⟨c, created, identity⟩ := sound.known old inside
    exact ⟨c, created, identity.trans (same old).symm⟩
  · have paths := sound.paths
    rw [List.map_map]
    have kept : ((fun tmp => tmp.file.objectPath) ∘ fun tmp : Tmpfile =>
        if tmp.file.objectPath = some path then (tmp.append bytes).getD tmp else tmp) =
        fun tmp => tmp.file.objectPath := funext fun tmp => congrArg (fun identity => identity.2.2.2) (same tmp)
    rw [kept]
    exact paths

theorem Sound.delete (sound : w.Sound) :
    Sound { w with files := w.files.filter fun tmp => tmp.file.objectPath ≠ some path } := by
  refine { sound with known := ?_, paths := ?_ }
  · intro tmp member
    exact sound.known tmp (List.mem_of_mem_filter member)
  · exact sound.paths.sublist (List.Sublist.map _ List.filter_sublist)

theorem Sound.discard (sound : w.Sound) : Sound { w with agent := w.agent.discardCachedFile path } := by
  refine { sound with sane := ?_ }
  intro g member
  exact sound.sane g (List.mem_of_mem_filter member)

theorem step_sound {act : FileAct} (sound : w.Sound) (unwrapped : w.Unwrapped act)
    (moved : step w act = .ok w') : w'.Sound := by
  cases act with
  | create name path array mode =>
    simp only [step] at moved
    split at moved
    · cases moved
    · rename_i free
      cases moved
      exact sound.create (Option.not_isSome_iff_eq_none.mp free) unwrapped
  | append path bytes =>
    cases moved
    exact sound.append
  | delete path =>
    cases moved
    exact sound.delete
  | discard path =>
    cases moved
    exact sound.discard
  | run process =>
    cases moved
    exact sound.run

/-- Over every history of files and processes in which no file got the number of another one:
when the agent has attached the files of a process, each of them that is read has the
master's data if and only if the cache had no entry for it that looked current, and it is not
called like an output. -/
theorem files_supplied (acts : List FileAct) (w : FileWorld)
    (ran : Machine.run step {} acts = .ok w) (along : Machine.Along step Unwrapped {} acts)
    (process : ProcessRun) (agent : Agent) (files : List Addr) (directory : Agent.Directory)
    (attached : w.attach process = (agent, some (files, directory))) :
    w.Supplied process agent files directory ↔
      ∀ tmp ∈ w.scheduled process, tmp.file.mode &&& fileRead ≠ 0 →
        ¬ w.agent.Answers tmp.file ∧ Agent.captured tmp.file.name = false :=
  supplied_iff
    (Machine.invariant_run Sound (fun _ _ _ sound unwrapped moved => step_sound sound unwrapped moved)
      Sound.initial along ran)
    attached

/-- A process that has one file, and every call is answered. -/
def script : ProcessRun where
  arrays := [[[0x2f]]]
  answered _ _ := true
  dirpath := [0x74]
  made _ := true

/-- The file is created, and two bytes are put into it. -/
def scriptHistory : List FileAct :=
  [.create [0x73] [0x2f] {} 0, .append [0x2f] [0x68, 0x69]]

theorem files_supplied_once : ∃ w agent files directory,
    Machine.run step {} scriptHistory = .ok w ∧
      w.attach script = (agent, some (files, directory)) ∧
      w.Supplied script agent files directory := by
  obtain ⟨w, ran, view⟩ := Machine.run_view step {} scriptHistory
    (fun w => (w.agent.globalFiles, (w.scheduled script).map fun tmp => tmp.file.name,
      (w.attach script).2.isSome)) ([], [some [0x73]], true) (by decide +kernel)
  obtain ⟨uncached, rest⟩ := Prod.mk.inj view
  obtain ⟨names, attached⟩ := Prod.mk.inj rest
  obtain ⟨⟨files, directory⟩, attached⟩ := Option.isSome_iff_exists.mp attached
  have along : Machine.Along step Unwrapped {} scriptHistory := by
    refine ⟨by simp [Unwrapped], ?_⟩
    intro next moved
    exact ⟨trivial, by intros; trivial⟩
  refine ⟨w, _, files, directory, ran, Prod.ext rfl attached, ?_⟩
  refine (files_supplied scriptHistory w ran along script _ files directory (Prod.ext rfl attached)).mpr ?_
  intro tmp member _
  constructor
  · rintro ⟨g, gfile, found, _⟩
    have member := (Agent.find_mem found).1
    rw [uncached] at member
    cases member
  · have name := List.mem_map_of_mem (f := fun tmp : Tmpfile => tmp.file.name) member
    rw [names] at name
    rw [List.mem_singleton.mp name]
    decide

/-- The second process with the file gets none, since the cache has an entry that is current. -/
theorem cached_file_missing : ¬ ∀ (acts : List FileAct) (w : FileWorld),
    Machine.run step {} acts = .ok w →
    ∀ process agent files directory, w.attach process = (agent, some (files, directory)) →
      w.Supplied process agent files directory := by
  intro claimed
  obtain ⟨w, ran, view⟩ := Machine.run_view step {} (scriptHistory ++ [.run script])
    (fun w => ((w.scheduled script)[0]?.map fun tmp => (tmp.file.mode, tmp.data),
      (w.attach script).2.map fun result =>
        result.1.map (instanceContent (w.attach script).1 result.2)))
    (some (fileRead, [0x68, 0x69]), some [none]) (by decide +kernel)
  obtain ⟨scheduled, attached⟩ := Prod.mk.inj view
  obtain ⟨tmp, at_, same⟩ := Option.map_eq_some_iff.mp scheduled
  obtain ⟨mode, data⟩ := Prod.mk.inj same
  obtain ⟨⟨files, directory⟩, attached, contents⟩ := Option.map_eq_some_iff.mp attached
  obtain ⟨a, there, content⟩ := claimed _ w ran script _ files directory (Prod.ext rfl attached)
    0 tmp at_ (by rw [mode]; decide)
  have nothing := congrArg (fun list => list[0]?) contents
  rw [List.getElem?_map, there, Option.map_some, content] at nothing
  cases nothing

end FileWorld

end Testbus
