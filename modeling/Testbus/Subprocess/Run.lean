import Testbus.Subprocess.Environment

namespace Testbus.Subprocess

open Lib Cells Util

/-- What the commands find: the parent's working directory, whether `access` allows to execute a
path from there, whether `chdir` to the root works, and whether `fork` does. -/
structure Host where
  cwd : CString
  executable : CString → Bool
  chdirs : Bool
  forks : Bool

/-- Of a `ni_process_t`. -/
structure Command where
  argv : NiStringArray
  environ : NiStringArray
  pid : Nat := 0
  useTerminal : Bool := false

def pathMax : Nat := 4096

def binPath : List CString :=
  [ascii "/bin".toList, ascii "/sbin".toList, ascii "/usr/bin".toList, ascii "/usr/sbin".toList]

/-- What `snprintf` writes to the path buffer, which is cut at its end. -/
def pathIn (dir name : CString) : CString := (dir ++ 47 :: name).take pathMax

/-- The directory of the default path that has the program, if the name has no slash. -/
def binDir (executable : CString → Bool) (name : CString) : Option CString :=
  if 47 ∈ name then none else binPath.find? fun dir => executable (pathIn dir name)

def processFindPath (executable : CString → Bool) (name : CString) : CString :=
  match binDir executable name with
  | some dir => pathIn dir name
  | none => name

/-- The `arg0` that the parent checks. -/
def resolved (host : Host) (name : CString) : CString :=
  if name.head? = some 47 then name else processFindPath host.executable name

/-- The arguments of `execve`, and the working directory of the child. -/
structure Exec where
  path : CString
  cwd : CString
  argv : List (Option CString)
  envp : List (Option CString)
  deriving DecidableEq

/-- `TERM`, which the child sets in terminal mode. -/
def childSetenv (pi : Command) : Except Cells.Fault NiStringArray :=
  if pi.useTerminal then
    processSetenv pi.environ (ascii "TERM".toList) (ascii "vt100".toList)
  else .ok pi.environ

def childCwd (host : Host) : CString := if host.chdirs then ascii "/".toList else host.cwd

/-- The child, up to `execve`. -/
def childRun (host : Host) (pi : Command) : Except Cells.Fault Exec := do
  let environ ← childSetenv pi
  let (_, argv) ← niStringArrayAppend pi.argv none
  let (_, environ) ← niStringArrayAppend environ none
  match ← load argv.data 0 with
  | none => .error .null
  | some arg0 => .ok ⟨arg0, childCwd host, argv.data, environ.data⟩

inductive Ran
  | refused
  | started (child : Except Cells.Fault Exec)

def processRun (host : Host) (pi : Command) : Except Cells.Fault Ran := do
  let item ← load pi.argv.data 0
  if pi.pid ≠ 0 then .ok .refused
  else
    match item with
    | none => .error .null
    | some name =>
      if ¬ host.executable (resolved host name) then .ok .refused
      else if ¬ host.forks then .ok .refused
      else .ok (.started (childRun host pi))

/-- The file that a path names, by its absolute path. The empty path names none. -/
def located (cwd path : CString) : Option CString :=
  if path = [] then none
  else if path.head? = some 47 then some path
  else some (cwd ++ 47 :: path)

/-- The strings of a vector up to its `NULL`, if it has one. -/
def vector (cells : List (Option CString)) : Option (List CString) :=
  if none ∈ cells then some ((cells.takeWhile Option.isSome).filterMap id) else none

/-- The environment of the process, as the child has it. -/
def childEnviron (pi : Command) (environ : List CString) : List CString :=
  if pi.useTerminal then setString (ascii "TERM".toList) (ascii "vt100".toList) environ else environ

/-- A child that is started executes the file that was resolved, with the arguments and the
environment. -/
def Executes (host : Host) (pi : Command) (args environ : List CString) : Prop :=
  ∀ child, processRun host pi = .ok (.started child) → ∃ exec, child = .ok exec ∧
    located exec.cwd exec.path = located host.cwd (resolved host (args.headD [])) ∧
    vector exec.argv = some args ∧ vector exec.envp = some environ

/-- When a child is started. -/
def Starts (host : Host) (pi : Command) (args : List CString) : Prop :=
  args ≠ [] ∧ pi.pid = 0 ∧ host.executable (resolved host (args.headD [])) = true ∧
    host.forks = true

/-- The name is absolute; or it is not found in the default path, and the child is where the
parent is; or it is found in a directory where both are. -/
def SamePlace (host : Host) (name : CString) : Prop :=
  name.head? = some 47 ∨
  match binDir host.executable name with
  | none => host.chdirs = true → name ≠ [] → host.cwd = ascii "/".toList
  | some dir => name ≠ [] ∧ host.chdirs = false ∧ host.cwd = dir ∧
      dir.length + 1 + name.length ≤ pathMax

/-- No array is at the last chunk of its 32 bits when a string or `NULL` is appended. -/
def Appends (pi : Command) (args environ : List CString) : Prop :=
  args.length ≠ 2 ^ 32 - 16 ∧ environ.length ≠ 2 ^ 32 - 16 ∧
    (childEnviron pi environ).length ≠ 2 ^ 32 - 16

theorem vector_of (strings : List CString) (rest : List (Option CString)) :
    vector (strings.map some ++ none :: rest) = some strings := by
  have taken : (strings.map some ++ none :: rest).takeWhile Option.isSome = strings.map some := by
    rw [List.takeWhile_append_of_pos, List.takeWhile_cons_of_neg (by decide), List.append_nil]
    intro cell mem
    obtain ⟨string, -, rfl⟩ := List.mem_map.mp mem
    rfl
  rw [vector, if_pos (List.mem_append_right _ List.mem_cons_self), taken, List.filterMap_map]
  exact congrArg some List.filterMap_some

/-- A vector for `execve`: the strings and then `NULL`. -/
theorem append_null (holds : Strings strings nsa) (below : strings.length ≠ 2 ^ 32 - 16) :
    ∃ rest longer, niStringArrayAppend nsa none = .ok (0, longer) ∧ longer.data = strings.map some ++ none :: rest := by
  obtain ⟨longer, appended, holds'⟩ := Holds.append holds (by decide) (by rwa [List.length_map]) none
  have data := Holds.data holds'
  rw [List.append_assoc] at data
  exact ⟨_, longer, by rw [niStringArrayAppend, stringArrayAppend, appended]; rfl, data⟩

theorem append_null_below (holds : Strings strings nsa) (appended : niStringArrayAppend nsa none = .ok result) : strings.length ≠ 2 ^ 32 - 16 := by
  intro full
  have stops := Util.append_full holds (by decide) (by rwa [List.length_map]) none
  rw [niStringArrayAppend, stringArrayAppend, stops] at appended
  cases appended

section Running

variable {host : Host} {name : CString}

theorem childSetenv_ok (holds : Strings environ pi.environ) (below : environ.length ≠ 2 ^ 32 - 16) :
    ∃ next, childSetenv pi = .ok next ∧ Strings (childEnviron pi environ) next := by
  rw [childSetenv, childEnviron]
  by_cases terminal : pi.useTerminal = true
  · rw [if_pos terminal, if_pos terminal]
    exact setenv_strings holds (by decide) fun _ => below
  · rw [if_neg terminal, if_neg terminal]
    exact ⟨pi.environ, rfl, holds⟩

/-- At the last chunk there is no room for the variable. -/
theorem childSetenv_strings (holds : Strings environ pi.environ) (set_ : childSetenv pi = .ok next) :
    Strings (childEnviron pi environ) next ∧
      (environ.length = 2 ^ 32 - 16 → (childEnviron pi environ).length = 2 ^ 32 - 16) := by
  rw [childSetenv] at set_
  rw [childEnviron]
  by_cases terminal : pi.useTerminal = true
  · rw [if_pos terminal] at set_ ⊢
    obtain ⟨short, room⟩ := setenv_strings_fits holds set_
    obtain ⟨next', set', strings⟩ := setenv_strings holds short room
    obtain rfl := Except.ok.inj (set_.symm.trans set')
    refine ⟨strings, fun full => ?_⟩
    rw [setString]
    cases place : environ.findIdx? (isVariable (ascii "TERM".toList) (ascii "TERM".toList).length) with
    | none => exact absurd full (room place)
    | some i => rwa [List.length_set]
  · rw [if_neg terminal] at set_ ⊢
    cases set_
    exact ⟨holds, id⟩

theorem childRun_ok (host : Host) (holds : Strings (name :: args) pi.argv)
    (holds' : Strings environ pi.environ) (appends : Appends pi (name :: args) environ) :
    ∃ argv envp, childRun host pi = .ok ⟨name, childCwd host, argv, envp⟩ ∧
      vector argv = some (name :: args) ∧ vector envp = some (childEnviron pi environ) := by
  obtain ⟨next, set_, strings⟩ := childSetenv_ok holds' appends.2.1
  obtain ⟨rest, argv, appended, data⟩ := append_null holds appends.1
  obtain ⟨rest', envp, appended', data'⟩ := append_null strings appends.2.2
  refine ⟨argv.data, envp.data, ?_, by rw [data, vector_of], by rw [data', vector_of]⟩
  have first : load argv.data 0 = .ok (some name) := by rw [data]; rfl
  rw [childRun, set_]
  simp only [bind, Except.bind, appended, appended', first]

theorem childRun_appends (holds : Strings args pi.argv) (holds' : Strings environ pi.environ)
    (ran : childRun host pi = .ok exec) : Appends pi args environ := by
  obtain ⟨next, set_, ran⟩ := bind_ok.mp ran
  obtain ⟨argv, appended, ran⟩ := bind_ok.mp ran
  obtain ⟨envp, appended', -⟩ := bind_ok.mp ran
  obtain ⟨strings, full⟩ := childSetenv_strings holds' set_
  have below := append_null_below strings appended'
  exact ⟨append_null_below holds appended, fun last => below (full last), below⟩

theorem processRun_started (holds : Strings args pi.argv) :
    processRun host pi = .ok (.started child) ↔ Starts host pi args ∧ child = childRun host pi := by
  cases args with
  | nil =>
    refine iff_of_false (fun ran => ?_) fun both => both.1.1 rfl
    obtain ⟨item, found, ran⟩ := bind_ok.mp ran
    obtain ⟨inside, here⟩ := load_ok.mp found
    have blank : item = none := by
      have data := Holds.data holds
      rw [List.map_nil, List.nil_append] at data
      have mem : item ∈ pi.argv.data := here ▸ List.getElem_mem inside
      rw [data] at mem
      exact List.eq_of_mem_replicate mem
    subst blank
    by_cases running : pi.pid ≠ 0
    · rw [if_pos running] at ran
      cases ran
    · rw [if_neg running] at ran
      cases ran
  | cons name args =>
    have here : 0 < ((name :: args).map some).length := Nat.succ_pos _
    have first : load pi.argv.data 0 = .ok (some name) := Holds.load holds here
    rw [processRun, first]
    simp only [bind, Except.bind, Starts, List.headD_cons]
    by_cases running : pi.pid ≠ 0
    · rw [if_pos running]
      exact iff_of_false nofun fun both => running both.1.2.1
    · rw [if_neg running]
      by_cases executable : host.executable (resolved host name) = true
      · rw [if_neg (not_not.mpr executable)]
        by_cases forks : host.forks = true
        · rw [if_neg (not_not.mpr forks), Except.ok.injEq, Ran.started.injEq, eq_comm]
          have starts : name :: args ≠ [] ∧ pi.pid = 0 ∧
              host.executable (resolved host name) = true ∧ host.forks = true :=
            ⟨List.cons_ne_nil _ _, not_not.mp running, executable, forks⟩
          exact (and_iff_right starts).symm
        · rw [if_pos forks]
          exact iff_of_false nofun fun both => forks both.1.2.2.2
      · rw [if_pos executable]
        exact iff_of_false nofun fun both => executable both.1.2.2.1

/-- What is in front of the last slash, and behind it. -/
theorem last_slash (plain : 47 ∉ name) (plain' : 47 ∉ name') :
    dir ++ 47 :: name = dir' ++ 47 :: name' ↔ dir = dir' ∧ name = name' := by
  constructor
  · intro same
    have reversed := congrArg List.reverse same
    simp only [List.reverse_append, List.reverse_cons, List.append_assoc, List.singleton_append] at reversed
    have behind := congrArg (List.takeWhile (· ≠ 47)) reversed
    rw [takeWhile_byte (by rwa [List.mem_reverse]), takeWhile_byte (by rwa [List.mem_reverse]),
      List.reverse_inj] at behind
    subst behind
    exact ⟨List.append_cancel_right same, rfl⟩
  · rintro ⟨rfl, rfl⟩
    rfl

theorem binDir_some (found : binDir executable name = some dir) : 47 ∉ name ∧ dir ∈ binPath := by
  rw [binDir] at found
  by_cases slash : 47 ∈ name
  · rw [if_pos slash] at found
    cases found
  · rw [if_neg slash] at found
    exact ⟨slash, List.mem_of_find?_eq_some found⟩

theorem binPath_absolute : ∀ dir ∈ binPath, dir.head? = some 47 ∧ dir ≠ ascii "/".toList ∧
    dir.length < pathMax := by decide

theorem pathIn_eq (short : dir.length < pathMax) :
    pathIn dir name = dir ++ 47 :: name.take (pathMax - dir.length - 1) := by
  obtain ⟨left, room⟩ : ∃ left, pathMax - dir.length = left + 1 := Nat.exists_eq_succ_of_ne_zero (by omega)
  rw [pathIn, List.take_append, List.take_of_length_le (by omega), room, List.take_succ_cons, Nat.add_sub_cancel]

theorem located_relative (some_ : name ≠ []) (relative : name.head? ≠ some 47) :
    located cwd name = some (cwd ++ 47 :: name) := by
  rw [located, if_neg some_, if_neg relative]

theorem located_absolute (cwd : CString) (absolute : name.head? = some 47) : located cwd name = some name := by
  rw [located, if_neg (by rintro rfl; cases absolute), if_pos absolute]

/-- The child names the file that the parent resolved. -/
theorem samePlace_iff (host : Host) (name : CString) :
    located (childCwd host) name = located host.cwd (resolved host name) ↔ SamePlace host name := by
  rw [SamePlace, resolved]
  by_cases absolute : name.head? = some 47
  · rw [if_pos absolute, located_absolute _ absolute, located_absolute _ absolute]
    exact iff_of_true rfl (.inl absolute)
  · rw [if_neg absolute, or_iff_right absolute, processFindPath]
    cases found : binDir host.executable name with
    | none =>
      by_cases empty : name = []
      · subst name
        exact iff_of_true rfl fun _ some_ => absurd rfl some_
      · simp only [located_relative empty absolute, Option.some.injEq, List.append_cancel_right_eq, childCwd]
        by_cases chdirs : host.chdirs = true
        · rw [if_pos chdirs, eq_comm]
          exact ⟨fun same _ _ => same, fun same => same chdirs empty⟩
        · rw [if_neg chdirs]
          exact iff_of_true rfl fun yes => absurd yes chdirs
    | some dir =>
      obtain ⟨plain, listed⟩ := binDir_some found
      obtain ⟨slash, notRoot, short⟩ := binPath_absolute dir listed
      simp only [pathIn_eq short]
      have absolute' : (dir ++ 47 :: name.take (pathMax - dir.length - 1)).head? = some 47 := by
        rw [List.head?_append, slash]
        rfl
      have plain' : 47 ∉ name.take (pathMax - dir.length - 1) := fun mem =>
        plain (List.mem_of_mem_take mem)
      by_cases empty : name = []
      · subst name
        rw [located_absolute _ absolute']
        exact iff_of_false nofun fun all => all.1 rfl
      · rw [located_absolute _ absolute', located_relative empty absolute, Option.some.injEq,
          last_slash plain plain', and_iff_right empty, eq_comm (a := name), List.take_eq_self_iff,
          childCwd]
        by_cases chdirs : host.chdirs = true
        · rw [if_pos chdirs, chdirs]
          exact iff_of_false (fun both => notRoot both.1.symm) nofun
        · have stays : host.chdirs = false := Bool.eq_false_iff.mpr chdirs
          rw [if_neg chdirs, and_iff_right stays]
          exact and_congr_right fun _ => by omega

theorem setString_self_iff (environ : List CString) (name value : CString) :
    setString name value environ = environ ↔
      environ.find? (isVariable name name.length) = some (name ++ 61 :: value) := by
  rw [setString, List.find?_eq_bind_findIdx?_getElem?]
  cases place : environ.findIdx? (isVariable name name.length) with
  | none => exact iff_of_false (fun same => by simpa using congrArg List.length same) (by simp)
  | some i =>
    obtain ⟨inside, -⟩ := List.findIdx?_eq_some_iff_getElem.mp place
    rw [Option.bind_some, List.getElem?_eq_getElem inside, Option.some.injEq]
    constructor
    · intro same
      have here := List.getElem?_set_self (a := name ++ 61 :: value) inside
      rw [show environ.set i (name ++ 61 :: value) = environ from same, List.getElem?_eq_getElem inside] at here
      exact Option.some.inj here
    · intro right
      change environ.set i (name ++ 61 :: value) = environ
      rw [← right, List.set_getElem_self]

/-- A child that is started executes what was resolved, with the arguments and the environment of
the process, exactly if both see the same file behind the name and there is room for each `NULL`.
In terminal mode that environment is the one of the parent only if `TERM` was right before. -/
theorem run_iff (host : Host) (holds : Strings args pi.argv) (holds' : Strings environ pi.environ) :
    (Executes host pi args (childEnviron pi environ) ↔
        (Starts host pi args → SamePlace host (args.headD []) ∧ Appends pi args environ)) ∧
      (childEnviron pi environ = environ ↔ (pi.useTerminal = true →
        environ.find? (isVariable (ascii "TERM".toList) 4) =
          some (ascii "TERM=vt100".toList))) := by
  constructor
  · constructor
    · intro executes starts
      obtain ⟨exec, ran, file, -⟩ := executes _ ((processRun_started holds).mpr ⟨starts, rfl⟩)
      have appends := childRun_appends holds holds' ran
      cases args with
      | nil => exact absurd rfl starts.1
      | cons name args =>
        obtain ⟨argv, envp, ran', -⟩ := childRun_ok host holds holds' appends
        obtain rfl := Except.ok.inj (ran.symm.trans ran')
        exact ⟨(samePlace_iff host name).mp file, appends⟩
    · intro fits child ran
      obtain ⟨starts, rfl⟩ := (processRun_started holds).mp ran
      obtain ⟨same, appends⟩ := fits starts
      cases args with
      | nil => exact absurd rfl starts.1
      | cons name args =>
        obtain ⟨argv, envp, ran, arguments, variables_⟩ := childRun_ok host holds holds' appends
        exact ⟨_, ran, (samePlace_iff host name).mpr same, arguments, variables_⟩
  · rw [childEnviron]
    by_cases terminal : pi.useTerminal = true
    · rw [if_pos terminal, imp_iff_right terminal]
      exact setString_self_iff environ _ _
    · rw [if_neg terminal]
      exact iff_of_true rfl fun yes => absurd yes terminal

end Running

/-- A command of one word, without variables. -/
def commandOf (name : CString) : Command :=
  ⟨⟨1, some name :: List.replicate 16 none⟩, {}, 0, false⟩

/-- A host with one program. -/
def hostWith (path : CString) : Host := ⟨ascii "/".toList, (· = path), true, true⟩

theorem commandOf_argv (name : CString) : Strings [name] (commandOf name).argv where
  count := rfl
  data := rfl
  room := fun _ => by simp [commandOf]
  most := Nat.le_of_ble_eq_true rfl

theorem run_absolute :
    (Executes (hostWith [47, 97]) (commandOf [47, 97]) [[47, 97]] [] ↔
        (Starts (hostWith [47, 97]) (commandOf [47, 97]) [[47, 97]] →
          SamePlace (hostWith [47, 97]) [47, 97] ∧ Appends (commandOf [47, 97]) [[47, 97]] [])) ∧
      (([] : List CString) = [] ↔ (false = true →
        ([] : List CString).find? (isVariable (ascii "TERM".toList) 4) =
          some (ascii "TERM=vt100".toList))) :=
  run_iff (hostWith [47, 97]) (commandOf_argv [47, 97]) holds_empty

/-- A program found in the default path is looked for in the root. -/
theorem not_executes_found :
    ¬ Executes (hostWith (ascii "/bin/ls".toList)) (commandOf (ascii "ls".toList))
        [ascii "ls".toList] [] := by
  intro executes
  obtain ⟨exec, ran, file, -⟩ := executes _ rfl
  cases ran
  exact absurd file (by decide)

end Testbus.Subprocess
