import Testbus.Agent.Files
import Testbus.Server.Requests

namespace Testbus

open Dbus Environ Lib

/-- The environments that the master can have: it checks the name of every variable that is
set, and merges the environments of the containers of a process. -/
inductive Assembled : Env → Prop
  | empty : Assembled {}
  | set {env : Env} {name : CString} (own : Assembled env)
      (valid : Server.identifierValid name = true)
      (free : Server.reservedPrefix.isPrefixOf name = false) (value : CString) :
      Assembled (setenv env name value)
  | sort {env : Env} (own : Assembled env) : Assembled (envSort env)
  | merge {chain : List Env} {env merged : Env} (others : ∀ other ∈ chain, Assembled other)
      (own : Assembled env)
      (ran : containerMergeEnvironment (chain.map some) env = .ok merged) : Assembled merged

def processNewExt (argv : List (Option CString)) (useTerminal : Bool) (vars : List NiVar) : Process where
  argv := argv
  environ := vars.foldl
    (fun environ var => processSetenv environ var.name (var.value.getD [])) []
  useTerminal := useTerminal

/-- The argument of `Host.processScheduled` that describes the process. -/
def processScheduled (objectPath : CString) (pi : Process) : Variant :=
  dictAdd "object-path" (.string (some objectPath)) (processSerialize pi)

def testbusPrefix : CString := ascii ['t', 'e', 's', 't', 'b', 'u', 's', '_']

def frobEnviron (environ : List (Option CString)) : List (Option CString) :=
  environ.map fun entry =>
    some (testbusPrefix ++ entry.getD (ascii ['(', 'n', 'u', 'l', 'l', ')']))

/-- The variable for the path of a file; its name is cut to the buffer it is printed to. -/
def exportedName (name : Option CString) : CString :=
  (testbusPrefix ++ ascii ['f', 'i', 'l', 'e', '_'] ++ name.getD []).take 255

/-- The variables that `ni_testbus_agent_process_export_files` sets, in order. -/
def exports (files : List AgentFile) : List (CString × CString) :=
  files.filterMap fun file => file.instancePath.map fun path => (exportedName file.name, path)

def termName : CString := ascii ['T', 'E', 'R', 'M']

def termValue : CString := ascii ['v', 't', '1', '0', '0']

/-- All variables that are set before the process is executed, the last one in the child. -/
def assignments (files : List AgentFile) (useTerminal : Bool) : List (CString × CString) :=
  exports files ++ if useTerminal then [(termName, termValue)] else []

/-- The environment a process is executed with: `files` are those of its array that were
attached. -/
def processEnviron (getenv : CString → Option CString) (files : List AgentFile)
    (announced : Variant) : Option (List (Option CString)) := do
  let pi ← processDeserialize getenv announced
  some ((assignments files pi.useTerminal).foldl
    (fun environ assigned => processSetenv environ assigned.1 assigned.2)
    (frobEnviron pi.environ))

/-- The name in an entry of an environment. -/
def entryName (entry : Option CString) : CString := (entry.getD []).takeWhile (· ≠ 0x3d)

/-- The claim about the environment of one process. -/
structure Transmitted (defaults : List (Option CString)) (vars : List NiVar)
    (environ : List (Option CString)) : Prop where
  sent : ∀ var ∈ vars, ∀ value, var.value = some value →
    some (envPrefix (testbusPrefix ++ var.name) ++ value) ∈ environ
  defaults : ∀ entry ∈ defaults, entry ∈ environ
  distinct : (environ.map entryName).Nodup

/-- The value of the last assignment to a name. -/
def lastAssigned (sets : List (CString × CString)) (name : CString) : Option CString :=
  ((sets.filter fun assigned => assigned.1 = name).getLast?).map Prod.snd

/-- The path a name is exported with: that of the last file which has the name. -/
def exportedPath (files : List AgentFile) (name : CString) : Option CString :=
  lastAssigned (exports files) name

section Render

variable {name value : CString}

/-- The array for a list of variables. -/
def render (vars : List NiVar) : List (Option CString) :=
  vars.map fun var => some (envPrefix var.name ++ var.value.getD [])

/-- A name that ends where its value starts. -/
def Plain (name : CString) : Prop := 0x3d ∉ name

theorem takeWhile_plain (plain : Plain name) (value : CString) :
    (envPrefix name ++ value).takeWhile (· ≠ 0x3d) = name := by
  induction name with
  | nil => rfl
  | cons c rest ih =>
    obtain ⟨different, plain'⟩ := not_or.mp (mt List.mem_cons.mpr plain)
    have tail := ih plain'
    have here : decide (c ≠ 0x3d) = true := by simpa using Ne.symm different
    simp only [envPrefix, List.cons_append] at tail ⊢
    rw [List.takeWhile_cons, here, if_pos rfl, tail]

theorem envPrefix_isPrefixOf (plain : Plain name) (plain' : Plain other) :
    (envPrefix name).isPrefixOf (envPrefix other ++ value) = true ↔ other = name := by
  constructor
  · intro start
    obtain ⟨rest, whole⟩ := List.isPrefixOf_iff_prefix.mp start
    have names := congrArg (fun entry => entry.takeWhile (· ≠ 0x3d)) whole
    simp only [takeWhile_plain plain, takeWhile_plain plain'] at names
    exact names.symm
  · rintro rfl
    exact List.isPrefixOf_iff_prefix.mpr (List.prefix_append _ _)

theorem setenv_render (plain : Plain name) (plains : ∀ var ∈ vars, Plain var.name) :
    processSetenv (render vars) name value = render (niVarArraySet vars name (some value)) := by
  induction vars with
  | nil => rfl
  | cons var rest ih =>
    have later := ih fun other member => plains other (List.mem_cons_of_mem _ member)
    have here := plains var (List.mem_cons_self ..)
    simp only [render, List.map_cons, processSetenv, Option.any_some, niVarArraySet] at later ⊢
    by_cases same : var.name = name
    · rw [if_pos ((envPrefix_isPrefixOf plain here).mpr same), if_pos (strcmp_eq.mpr same)]
      simp [same]
    · rw [if_neg (mt (envPrefix_isPrefixOf plain here).mp same), if_neg (mt strcmp_eq.mp same), later]
      rfl

/-- The list of variables after some assignments. -/
def assign (vars : List NiVar) (sets : List (CString × CString)) : List NiVar :=
  sets.foldl (fun vars assigned => niVarArraySet vars assigned.1 (some assigned.2)) vars

theorem plain_set (plain : Plain name) (plains : ∀ var ∈ vars, Plain var.name) :
    ∀ var ∈ niVarArraySet vars name value, Plain var.name := by
  intro var member
  have named : var.name ∈ names (niVarArraySet vars name value) := List.mem_map_of_mem member
  rw [names_set] at named
  have cases' : var.name ∈ names vars ∨ var.name = name := by
    split at named
    · exact Or.inl named
    · exact (List.mem_append.mp named).imp_right List.mem_singleton.mp
  rcases cases' with old | new
  · obtain ⟨other, inside, same⟩ := List.mem_map.mp old
    exact same ▸ plains other inside
  · exact new ▸ plain

theorem assign_render (plains : ∀ var ∈ vars, Plain var.name) (plain : ∀ assigned ∈ sets, Plain assigned.1) :
    sets.foldl (fun environ assigned => processSetenv environ assigned.1 assigned.2)
        (render vars) = render (assign vars sets) ∧
      ∀ var ∈ assign vars sets, Plain var.name := by
  induction sets generalizing vars with
  | nil => exact ⟨rfl, plains⟩
  | cons assigned rest ih =>
    have here := plain assigned (List.mem_cons_self ..)
    have later := @ih (niVarArraySet vars assigned.1 (some assigned.2)) (plain_set here plains) (fun other member => plain other (List.mem_cons_of_mem _ member))
    rw [List.foldl_cons, setenv_render here plains]
    exact later

theorem nodup_assign (sets : List (CString × CString)) (distinct : (names vars).Nodup) :
    (names (assign vars sets)).Nodup := by
  induction sets generalizing vars with
  | nil => exact distinct
  | cons assigned rest ih => exact ih (nodup_set distinct)

theorem get_assign (vars : List NiVar) (sets : List (CString × CString)) (other : CString) :
    niVarArrayGet (assign vars sets) other =
      match lastAssigned sets other with
      | some value => some ⟨other, some value⟩
      | none => niVarArrayGet vars other := by
  induction sets using List.reverseRecOn with
  | nil => rfl
  | append_singleton rest assigned ih =>
    have last : assign vars (rest ++ [assigned]) = niVarArraySet (assign vars rest) assigned.1 (some assigned.2) := by
      rw [assign, List.foldl_append]
      rfl
    rw [last, get_set, lastAssigned, List.filter_append]
    by_cases same : assigned.1 = other
    · rw [if_pos same.symm]
      simp [same]
    · rw [if_neg (Ne.symm same), ih]
      simp [same, lastAssigned]

theorem mem_render (plains : ∀ var ∈ vars, Plain var.name) (plain : Plain name) :
    some (envPrefix name ++ value) ∈ render vars ↔ ∃ var ∈ vars, var.name = name ∧ var.value.getD [] = value := by
  constructor
  · intro member
    obtain ⟨var, inside, same⟩ := List.mem_map.mp member
    have entry := Option.some.inj same
    have names := congrArg (fun entry => entry.takeWhile (· ≠ 0x3d)) entry
    simp only [takeWhile_plain (plains var inside), takeWhile_plain plain] at names
    rw [names] at entry
    exact ⟨var, inside, names, List.append_cancel_left entry⟩
  · rintro ⟨var, inside, rfl, rfl⟩
    exact List.mem_map_of_mem inside

theorem entryNames_render (plains : ∀ var ∈ vars, Plain var.name) : (render vars).map entryName = names vars := by
  rw [render, List.map_map]
  apply List.map_congr_left
  intro var member
  exact takeWhile_plain (plains var member) _

end Render

section Agent

variable {getenv : CString → Option CString} {vars : List NiVar}

theorem identifier_plain {name : CString} (valid : Server.identifierValid name = true) : Plain name := by
  cases name with
  | nil => cases valid
  | cons first rest =>
    simp only [Server.identifierValid, Bool.decide_and, Bool.and_eq_true, decide_eq_true_eq, List.all_eq_true] at valid
    intro member
    rcases List.mem_cons.mp member with here | later
    · subst here
      exact absurd valid.1 (by decide)
    · exact absurd (valid.2 _ later) (by decide)

theorem Assembled.full (assembled : Assembled env) :
    env.Full ∧ ∀ var ∈ env.vars, Server.identifierValid var.name = true := by
  induction assembled with
  | empty => exact ⟨full_empty, by simp⟩
  | @set env name own valid free value ih =>
    refine ⟨full_setenv ih.1 name value, ?_⟩
    intro var member
    have named : var.name ∈ names (niVarArraySet env.vars name (some value)) := List.mem_map_of_mem member
    rw [names_set] at named
    have cases' : var.name ∈ names env.vars ∨ var.name = name := by
      split at named
      · exact Or.inl named
      · exact (List.mem_append.mp named).imp_right List.mem_singleton.mp
    rcases cases' with old | new
    · obtain ⟨other, inside, same⟩ := List.mem_map.mp old
      exact same ▸ ih.2 other inside
    · exact new ▸ valid
  | @sort env own ih =>
    refine ⟨full_sort ih.1, ?_⟩
    intro var member
    unfold envSort at member
    split at member
    · exact ih.2 var member
    · exact ih.2 var ((sort_perm env.vars).mem_iff.mp member)
  | @merge chain env merged others own ran ihs ih =>
    obtain ⟨merged', ran', full, _⟩ := containerMerge_full ih.1 fun other member => (ihs other member).1
    obtain rfl := Except.ok.inj (ran.symm.trans ran')
    refine ⟨full, ?_⟩
    intro var member
    have same : (chain.map some).filterMap id = chain := by simp
    have valids : ∀ other ∈ (chain.map some).filterMap id, other.Valid := by
      rw [same]
      exact fun other member => (ihs other member).1.valid
    obtain ⟨merged', ran', _, firsts⟩ := containerMerge_first ih.1.valid valids
    obtain rfl := Except.ok.inj (ran.symm.trans ran')
    have found := (get_some_iff full.valid.distinct).mpr ⟨member, rfl⟩
    rw [firsts, same] at found
    obtain ⟨other, inside, here⟩ := List.exists_of_findSome?_eq_some found
    have origin : var ∈ other.vars := List.mem_of_find?_eq_some here
    rcases List.mem_cons.mp inside with rfl | later
    · exact ih.2 var origin
    · exact (ihs other later).2 var origin

theorem processNewExt_environ (distinct : (names vars).Nodup) (plains : ∀ var ∈ vars, Plain var.name)
    (set : ∀ var ∈ vars, var.value ≠ none) : (processNewExt argv useTerminal vars).environ = render vars := by
  suffices grown : ∀ done rest : List NiVar, done ++ rest = vars →
      rest.foldl (fun environ var => processSetenv environ var.name (var.value.getD []))
        (render done) = render vars from grown [] vars rfl
  intro done rest whole
  induction rest generalizing done with
  | nil => rw [← whole, List.append_nil, List.foldl_nil]
  | cons var rest ih =>
    have inside : var ∈ vars := whole ▸ List.mem_append_right _ (List.mem_cons_self ..)
    have new : var.name ∉ names done := by
      rw [← whole, names, List.map_append] at distinct
      intro old
      exact (List.nodup_append.mp distinct).2.2 _ old _ (List.mem_cons_self ..) rfl
    have value : some (var.value.getD []) = var.value := by
      obtain ⟨value, same⟩ := Option.ne_none_iff_exists'.mp (set var inside)
      rw [same, Option.getD_some]
    have plains' : ∀ other ∈ done, Plain other.name := fun other member =>
      plains other (whole ▸ List.mem_append_left _ member)
    rw [List.foldl_cons, setenv_render (plains var inside) plains', value, set_new new]
    exact ih (done ++ [var]) (by rw [List.append_assoc]; exact whole)

theorem announced_environ (getenv : CString → Option CString) (objectPath : CString) (pi : Process) :
    processDeserialize getenv (processScheduled objectPath pi) =
      some { argv := pi.argv.map fun s => some (s.getD [])
             environ := defaultEnvironment getenv ++ pi.environ.map fun s => some (s.getD [])
             useTerminal := pi.useTerminal } := by
  simp [processDeserialize, processScheduled, processSerialize, getStringArray_of, dictGetBool,
    Variant.getBool, processNew]

/-- A variable as the process sees it. -/
def prefixed (var : NiVar) : NiVar := { var with name := testbusPrefix ++ var.name }

theorem frob_render (vars : List NiVar) : frobEnviron (render vars) = render (vars.map prefixed) := by
  simp [frobEnviron, render, prefixed, envPrefix, Function.comp_def]

theorem plain_append (plain : Plain first) (plain' : Plain second) : Plain (first ++ second) := by
  intro member
  rcases List.mem_append.mp member with left | right
  · exact plain left
  · exact plain' right

theorem plain_testbusPrefix : Plain testbusPrefix := by
  unfold Plain
  decide

/-- The files of the master are called by identifiers. -/
def Named (files : List AgentFile) : Prop :=
  ∀ file ∈ files, ∃ name, file.name = some name ∧ Server.identifierValid name = true

theorem plain_assignments (named : Named files) (useTerminal : Bool) :
    ∀ assigned ∈ assignments files useTerminal, Plain assigned.1 := by
  intro assigned member
  rcases List.mem_append.mp member with exported | term
  · obtain ⟨file, inside, made⟩ := List.mem_filterMap.mp exported
    obtain ⟨path, _, rfl⟩ := Option.map_eq_some_iff.mp made
    obtain ⟨name, called, valid⟩ := named file inside
    have plain : Plain (testbusPrefix ++ ascii ['f', 'i', 'l', 'e', '_'] ++ file.name.getD []) := by
      rw [called]
      refine plain_append (plain_append plain_testbusPrefix ?_) (identifier_plain valid)
      unfold Plain
      decide
    exact fun cut => plain (List.mem_of_mem_take cut)
  · cases useTerminal with
    | false => cases term
    | true =>
      obtain rfl := List.mem_singleton.mp term
      unfold Plain
      decide

theorem names_prefixed (vars : List NiVar) : names (vars.map prefixed) = (names vars).map (testbusPrefix ++ ·) := by
  simp [names, prefixed, Function.comp_def]

theorem plain_prefixed (plains : ∀ var ∈ vars, Plain var.name) : ∀ var ∈ vars.map prefixed, Plain var.name := by
  intro var member
  obtain ⟨old, inside, rfl⟩ := List.mem_map.mp member
  exact plain_append plain_testbusPrefix (plains old inside)

/-- With nothing to inherit, the array is that of the prefixed variables and what is set on
top of them. -/
theorem processEnviron_bare (assembled : Assembled env) (named : Named files)
    (objectPath : CString) (argv : List (Option CString)) (useTerminal : Bool) (bare : defaultEnvironment getenv = []) :
    processEnviron getenv files (processScheduled objectPath (processNewExt argv useTerminal env.vars)) =
      some (render (assign (env.vars.map prefixed) (assignments files useTerminal))) ∧
      ∀ var ∈ assign (env.vars.map prefixed) (assignments files useTerminal), Plain var.name := by
  obtain ⟨full, valid⟩ := assembled.full
  have plains : ∀ var ∈ env.vars, Plain var.name := fun var member =>
    identifier_plain (valid var member)
  have sent : (processNewExt argv useTerminal env.vars).environ = render env.vars :=
    processNewExt_environ full.valid.distinct plains full.set
  obtain ⟨rendered, final⟩ := assign_render (plain_prefixed plains) (plain_assignments named useTerminal)
  refine ⟨?_, final⟩
  have received : (render env.vars).map (fun s => some (s.getD [])) = render env.vars := by
    simp [render, Function.comp_def]
  simp only [processEnviron, announced_environ, Option.bind_eq_bind, Option.bind_some, bare,
    List.nil_append, sent, received, frob_render]
  exact congrArg some rendered

theorem mem_setenv (member : entry ∈ processSetenv environ name value) :
    entry ∈ environ ∨ entry = some (envPrefix name ++ value) := by
  induction environ with
  | nil => exact Or.inr (List.mem_singleton.mp member)
  | cons first rest ih =>
    rw [processSetenv] at member
    split at member
    · rcases List.mem_cons.mp member with rfl | later
      · exact Or.inr rfl
      · exact Or.inl (List.mem_cons_of_mem _ later)
    · rcases List.mem_cons.mp member with rfl | later
      · exact Or.inl (List.mem_cons_self ..)
      · exact (ih later).imp_left (List.mem_cons_of_mem _)

theorem mem_setenvs {sets : List (CString × CString)} {entry : Option CString}
    (member : entry ∈ sets.foldl (fun environ assigned => processSetenv environ assigned.1 assigned.2) environ) :
    entry ∈ environ ∨ ∃ assigned ∈ sets, entry = some (envPrefix assigned.1 ++ assigned.2) := by
  induction sets generalizing environ with
  | nil => exact Or.inl member
  | cons assigned rest ih =>
    rcases ih member with before | ⟨other, inside, same⟩
    · rcases mem_setenv before with old | new
      · exact Or.inl old
      · exact Or.inr ⟨assigned, List.mem_cons_self .., new⟩
    · exact Or.inr ⟨other, List.mem_cons_of_mem _ inside, same⟩

/-- Every entry of the array starts with a lower case t, or it is about the terminal. -/
theorem processEnviron_heads {announced : Variant} (ran : processEnviron getenv files announced = some environ) :
    ∀ entry ∈ environ, (entry.getD []).head? = some 0x74 ∨ (entry.getD []).head? = some 0x54 := by
  obtain ⟨pi, _, made⟩ := Option.bind_eq_some_iff.mp ran
  obtain rfl := Option.some.inj made
  intro entry member
  rcases mem_setenvs member with renamed | ⟨assigned, inside, rfl⟩
  · obtain ⟨old, _, rfl⟩ := List.mem_map.mp renamed
    exact Or.inl rfl
  · rcases List.mem_append.mp inside with exported | term
    · obtain ⟨file, _, made⟩ := List.mem_filterMap.mp exported
      obtain ⟨path, _, rfl⟩ := Option.map_eq_some_iff.mp made
      exact Or.inl rfl
    · split at term
      · obtain rfl := List.mem_singleton.mp term
        exact Or.inr rfl
      · cases term

theorem copyEnv_heads : ∀ name ∈ copyEnv, name.head? = some 0x4c ∨ name.head? = some 0x50 := by
  decide +kernel

theorem setenv_ne_nil (name value : CString) : processSetenv environ name value ≠ [] := by
  cases environ with
  | nil => exact List.cons_ne_nil _ _
  | cons entry rest =>
    rw [processSetenv]
    split <;> exact List.cons_ne_nil _ _

theorem defaultEnvironment_nil : defaultEnvironment getenv = [] ↔ ∀ name ∈ copyEnv, getenv name = none := by
  suffices general : ∀ (copied : List CString) (environ : List (Option CString)),
      copied.foldl (fun environ name => match getenv name with
        | some value => processSetenv environ name value
        | none => environ) environ = [] ↔ environ = [] ∧ ∀ name ∈ copied, getenv name = none by
    exact (general copyEnv []).trans (by simp)
  intro copied
  induction copied with
  | nil => simp
  | cons name rest ih =>
    intro environ
    rw [List.foldl_cons, ih, List.forall_mem_cons]
    cases getenv name with
    | none => simp
    | some value => simp [setenv_ne_nil]

theorem defaultEnvironment_heads :
    ∀ entry ∈ defaultEnvironment getenv, (entry.getD []).head? = some 0x4c ∨ (entry.getD []).head? = some 0x50 := by
  suffices general : ∀ (copied : List CString) (environ : List (Option CString)),
      (∀ name ∈ copied, name.head? = some 0x4c ∨ name.head? = some 0x50) →
      (∀ entry ∈ environ, (entry.getD []).head? = some 0x4c ∨ (entry.getD []).head? = some 0x50) →
      ∀ entry ∈ copied.foldl (fun environ name => match getenv name with
        | some value => processSetenv environ name value
        | none => environ) environ,
        (entry.getD []).head? = some 0x4c ∨ (entry.getD []).head? = some 0x50 from
    general copyEnv [] copyEnv_heads (by simp)
  intro copied
  induction copied with
  | nil => exact fun _ _ heads => heads
  | cons name rest ih =>
    intro environ copies heads
    refine ih _ (fun other member => copies other (List.mem_cons_of_mem _ member)) ?_
    intro entry member
    cases found : getenv name with
    | none =>
      simp only [found] at member
      exact heads entry member
    | some value =>
      simp only [found] at member
      rcases mem_setenv member with old | rfl
      · exact heads entry old
      · have head := copies name (List.mem_cons_self ..)
        cases name with
        | nil => simp at head
        | cons c letters => exact head

theorem lastAssigned_append (apart : ∀ assigned ∈ second, assigned.1 ≠ name) : lastAssigned (first ++ second) name = lastAssigned first name := by
  have none' : second.filter (fun assigned => decide (assigned.1 = name)) = [] := by
    rw [List.filter_eq_nil_iff]
    simpa using apart
  rw [lastAssigned, List.filter_append, none', List.append_nil]
  rfl

/-- Only files are exported under the name of a variable of the master. -/
theorem lastAssigned_prefixed (files : List AgentFile) (useTerminal : Bool) (name : CString) :
    lastAssigned (assignments files useTerminal) (testbusPrefix ++ name) =
      exportedPath files (testbusPrefix ++ name) := by
  apply lastAssigned_append
  intro assigned term same
  split at term
  · obtain rfl := List.mem_singleton.mp term
    have heads : some (0x54 : UInt8) = some 0x74 := congrArg List.head? same
    exact absurd heads (by decide)
  · cases term

theorem mem_final {env : Env} (full : env.Full) (plains : ∀ var ∈ env.vars, Plain var.name) (useTerminal : Bool)
    (final : ∀ var ∈ assign (env.vars.map prefixed) (assignments files useTerminal), Plain var.name) (member : var ∈ env.vars) {value : CString} (set : var.value = some value) :
    some (envPrefix (testbusPrefix ++ var.name) ++ value) ∈
        render (assign (env.vars.map prefixed) (assignments files useTerminal)) ↔
      ∀ path, exportedPath files (testbusPrefix ++ var.name) = some path → value = path := by
  have distinct : (names (env.vars.map prefixed)).Nodup := by
    rw [names_prefixed]
    exact full.valid.distinct.map (List.append_right_injective _)
  have own : niVarArrayGet (env.vars.map prefixed) (testbusPrefix ++ var.name) = some (prefixed var) :=
    (get_some_iff distinct).mpr ⟨List.mem_map_of_mem member, rfl⟩
  have got := get_assign (env.vars.map prefixed) (assignments files useTerminal) (testbusPrefix ++ var.name)
  rw [lastAssigned_prefixed, own] at got
  rw [mem_render final (plain_append plain_testbusPrefix (plains var member))]
  have named (other : NiVar) := @get_some_iff (testbusPrefix ++ var.name) _ other
    (nodup_assign (assignments files useTerminal) distinct)
  have value' : var.value.getD [] = value := by rw [set, Option.getD_some]
  constructor
  · rintro ⟨other, inside, called, has⟩ path exported
    have found := (named other).mpr ⟨inside, called⟩
    rw [got, exported] at found
    obtain rfl := Option.some.inj found
    exact has.symm
  · intro kept
    cases exported : exportedPath files (testbusPrefix ++ var.name) with
    | none =>
      rw [exported] at got
      obtain ⟨inside, called⟩ := (named _).mp got
      exact ⟨_, inside, called, value'⟩
    | some path =>
      rw [exported] at got
      obtain ⟨inside, called⟩ := (named _).mp got
      exact ⟨_, inside, called, (kept path exported).symm⟩

/-- The environment of a process is what it should be if and only if the agent has no default
variable, and no file is exported over a variable of the master with another value. -/
theorem environment_transmitted (env : Env) (assembled : Assembled env)
    (getenv : CString → Option CString) (objectPath : CString) (argv : List (Option CString))
    (useTerminal : Bool) (files : List AgentFile) (named : Named files) :
    ∃ environ, processEnviron getenv files
        (processScheduled objectPath (processNewExt argv useTerminal env.vars)) = some environ ∧
      (Transmitted (defaultEnvironment getenv) env.vars environ ↔
        (∀ name ∈ copyEnv, getenv name = none) ∧
          ∀ var ∈ env.vars, ∀ path,
            exportedPath files (testbusPrefix ++ var.name) = some path →
              var.value = some path) := by
  obtain ⟨full, valid⟩ := assembled.full
  have plains : ∀ var ∈ env.vars, Plain var.name := fun var member =>
    identifier_plain (valid var member)
  by_cases bare : defaultEnvironment getenv = []
  · obtain ⟨ran, final⟩ :=
      processEnviron_bare assembled named objectPath argv useTerminal bare
    refine ⟨_, ran, ?_⟩
    have kept (var : NiVar) (member : var ∈ env.vars) (value : CString)
        (set : var.value = some value) := mem_final full plains useTerminal final member set
    constructor
    · intro transmitted
      refine ⟨defaultEnvironment_nil.mp bare, ?_⟩
      intro var member path exported
      obtain ⟨value, set⟩ := Option.ne_none_iff_exists'.mp (full.set var member)
      rw [set, (kept var member value set).mp (transmitted.sent var member value set) path exported]
    · rintro ⟨_, clean⟩
      constructor
      case sent =>
        intro var member value set
        refine (kept var member value set).mpr ?_
        intro path exported
        exact Option.some.inj (set.symm.trans (clean var member path exported))
      case defaults => simp [bare]
      case distinct =>
        rw [entryNames_render final]
        apply nodup_assign
        rw [names_prefixed]
        exact full.valid.distinct.map (List.append_right_injective _)
  · obtain ⟨environ, ran⟩ : ∃ environ, processEnviron getenv files
        (processScheduled objectPath (processNewExt argv useTerminal env.vars)) = some environ := by
      rw [processEnviron, announced_environ]
      exact ⟨_, rfl⟩
    refine ⟨environ, ran, ?_⟩
    constructor
    · intro transmitted
      obtain ⟨entry, member⟩ := List.exists_mem_of_ne_nil _ bare
      have lower := processEnviron_heads ran entry (transmitted.defaults entry member)
      have upper := defaultEnvironment_heads entry member
      rcases lower with t | t <;> rcases upper with l | l <;> rw [l] at t <;> cases t
    · rintro ⟨nothing, _⟩
      exact absurd (defaultEnvironment_nil.mpr nothing) bare

/-- A variable of the master, for an agent that has no default variable. -/
theorem environment_transmitted_one : ∃ environ,
    processEnviron (fun _ => none) []
        (processScheduled [0x2f] (processNewExt [] false [⟨[0x58], some [0x30]⟩])) = some environ ∧
      Transmitted [] [⟨[0x58], some [0x30]⟩] environ := by
  have assembled : Assembled (setenv {} [0x58] [0x30]) :=
    Assembled.set Assembled.empty (by decide) (by decide) [0x30]
  obtain ⟨environ, ran, transmitted⟩ := environment_transmitted _ assembled (fun _ => none) [0x2f]
    [] false [] (by simp [Named])
  refine ⟨environ, ran, transmitted.mpr ⟨by intros; rfl, ?_⟩⟩
  nofun

/-- The search path of an agent, which its processes do not have under its name. -/
def pathEnvironment (name : CString) : Option CString :=
  if name = ascii ['P', 'A', 'T', 'H'] then some [0x2f] else none

theorem path_renamed : ¬ ∀ (env : Env), Assembled env → ∀ getenv objectPath argv useTerminal files,
    Named files → ∀ environ, processEnviron getenv files
        (processScheduled objectPath (processNewExt argv useTerminal env.vars)) = some environ →
      Transmitted (defaultEnvironment getenv) env.vars environ := by
  intro claimed
  have transmitted := claimed {} Assembled.empty pathEnvironment [] [] false [] (by simp [Named])
    _ rfl
  have kept : ∀ entry ∈ defaultEnvironment pathEnvironment,
      entry ∈ frobEnviron (defaultEnvironment pathEnvironment) := transmitted.defaults
  revert kept
  decide +kernel

end Agent

end Testbus
