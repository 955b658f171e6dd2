import Testbus.Lib.Refines
import Testbus.Util.StringArray
import Testbus.Util.VarArray

namespace Testbus.Subprocess

open Lib Cells Machine Util
open Environ (strcmp strcmp_eq NiVar names)

/-- What `snprintf` writes to a new block of the size. A text that is longer than an `int` can say
fails and leaves the block as it is, and a block of no bytes has no string. -/
def snprintf (size : Nat) (text : CString) : Except Cells.Fault CString :=
  if 2 ^ 31 ≤ text.length ∨ size = 0 then .error .outside else .ok (text.take (size - 1))

/-- The two tests of `oldvar`. -/
def isVariable (name : CString) (namelen : Nat) (oldvar : CString) : Bool :=
  strcmp (oldvar.take namelen) (name.take namelen) == .eq && oldvar[namelen]? == some 61

/-- The loop over the array in `__ni_process_setenv` and `__ni_process_getenv`. -/
def findVariable (env : NiStringArray) (name : CString) (namelen : Nat) :
    (left i : Nat) → Except Cells.Fault (Option (Nat × CString))
  | 0, _ => .ok none
  | left + 1, i => do
    match ← load env.data i with
    | none => .error .null
    | some oldvar =>
      if isVariable name namelen oldvar then .ok (some (i, oldvar))
      else findVariable env name namelen left (i + 1)

/-- `strlen`, as an `unsigned int`. -/
def strlen32 (name : CString) : Nat := name.length % 2 ^ 32

def processSetenv (env : NiStringArray) (name value : CString) : Except Cells.Fault NiStringArray := do
  let namelen := strlen32 name
  let totlen := (namelen + value.length + 2) % 2 ^ 32
  let newvar ← snprintf totlen (name ++ 61 :: value)
  match ← findVariable env name namelen env.count 0 with
  | some (i, _) => (store env.data i (some newvar)).map fun data => { env with data }
  | none => (niStringArrayAppend env (some newvar)).map Prod.snd

def processGetenv (env : NiStringArray) (name : CString) : Except Cells.Fault (Option CString) := do
  let namelen := strlen32 name
  match ← findVariable env name namelen env.count 0 with
  | none => .ok none
  | some (_, oldvar) =>
    let value := oldvar.drop (namelen + 1)
    .ok (if value = [] then none else some value)

/-- A name of a variable. -/
def Name : Type := { name : CString // 61 ∉ name }

inductive EnvCall
  | setenv (name : Name) (value : CString)
  | getenv (name : Name)

/-- A call on the environment, and what it returns. -/
def EnvCall.apply (env : NiStringArray) : EnvCall → Except Cells.Fault (Option CString × NiStringArray)
  | .setenv name value => (processSetenv env name.1 value).map fun env => (none, env)
  | .getenv name => (processGetenv env name.1).map fun value => (value, env)

abbrev Variables : Type := CString → Option CString

/-- The same calls on a map. -/
def EnvCall.meaning (known : Variables) : EnvCall → Option CString × Variables
  | .setenv name value => (none, Function.update known name.1 (some value))
  | .getenv name => (known name.1, known)

def entry (var : NiVar) : CString := var.name ++ 61 :: var.value.getD []

/-- The array has a string for each variable of the map, and no name twice. -/
structure Listed (vars : List NiVar) (known : Variables) (env : NiStringArray) : Prop where
  strings : Strings (vars.map entry) env
  distinct : (names vars).Nodup
  plain : ∀ var ∈ vars, 61 ∉ var.name
  values : ∀ var ∈ vars, var.value ≠ none
  map : ∀ name, known name = (Environ.niVarArrayGet vars name).bind NiVar.value

/-- What a call needs. A variable that is read has a value that is not empty; behind 4 GiB a name
is cut, and then no such value may be found. A variable fits into a string of less than 2 GiB,
and a new one does not come at the last chunk of the array. -/
def EnvCall.Fits (known : Variables) (env : NiStringArray) : EnvCall → Prop
  | .setenv name value => name.1.length + value.length + 1 < 2 ^ 31 ∧
      (known name.1 = none → env.count ≠ 2 ^ 32 - 16)
  | .getenv name =>
    if name.1.length < 2 ^ 32 then known name.1 ≠ some []
    else ∀ value, known (name.1.take (strlen32 name.1)) = some value → value = []

section Calls

variable {vars : List NiVar} {known : Variables} {name value : CString}

/-- What is in front of the first byte of a kind. -/
theorem takeWhile_byte (plain : byte ∉ name) (rest : CString) : (name ++ byte :: rest).takeWhile (· ≠ byte) = name := by
  rw [List.takeWhile_append_of_pos, List.takeWhile_cons_of_neg (by simp), List.append_nil]
  intro cc mem
  exact decide_eq_true fun same => plain (same ▸ mem)

/-- With a name that has no `=` the two tests find the variable of that name. -/
theorem isVariable_entry (inside : namelen ≤ name.length) (plain : 61 ∉ name) (plain' : 61 ∉ var.name) :
    isVariable name namelen (entry var) = named (name.take namelen) var := by
  have length : (name.take namelen).length = namelen := by
    rw [List.length_take, Nat.min_eq_left inside]
  have cut : 61 ∉ name.take namelen := fun mem => plain (List.mem_of_mem_take mem)
  rw [Bool.eq_iff_iff, isVariable, named_iff, Bool.and_eq_true, beq_iff_eq, beq_iff_eq, strcmp_eq, entry]
  generalize name.take namelen = wanted at length cut ⊢
  subst length
  constructor
  · rintro ⟨front, equals⟩
    obtain ⟨there, here⟩ := List.getElem?_eq_some_iff.mp equals
    have whole := List.take_append_drop wanted.length (var.name ++ 61 :: var.value.getD [])
    rw [front, List.drop_eq_getElem_cons there, here] at whole
    have before := congrArg (List.takeWhile (· ≠ 61)) whole
    rw [takeWhile_byte cut, takeWhile_byte plain'] at before
    exact before.symm
  · rintro rfl
    refine ⟨List.take_left, ?_⟩
    rw [List.getElem?_append_right (Nat.le_refl _), Nat.sub_self]
    rfl

theorem findVariable_spec (name : CString) (namelen : Nat) (front rest : List CString)
    (holds : Strings (front ++ rest) env) :
    findVariable env name namelen rest.length front.length =
      .ok ((rest.findIdx? (isVariable name namelen)).bind fun i =>
        rest[i]?.map (i + front.length, ·)) := by
  induction rest generalizing front with
  | nil => rfl
  | cons string rest ih =>
    have here : front.length < ((front ++ string :: rest).map some).length := by
      rw [List.length_map, List.length_append, List.length_cons]
      omega
    have found : load env.data front.length = .ok (some string) := by
      rw [Holds.load holds here]
      simp
    rw [List.length_cons, findVariable, found, List.findIdx?_cons]
    simp only [bind, Except.bind]
    by_cases same : isVariable name namelen string = true
    · rw [if_pos same, if_pos same]
      simp
    · have looped := ih (front ++ [string]) (by rwa [List.append_assoc])
      rw [List.length_append, List.length_singleton] at looped
      rw [if_neg same, if_neg same, looped]
      cases rest.findIdx? (isVariable name namelen) with
      | none => rfl
      | some i =>
        simp only [Option.bind, Option.map_some, List.getElem?_cons_succ]
        rw [Nat.add_right_comm, Nat.add_assoc]

theorem find_strings (holds : Strings strings env) (name : CString) (namelen : Nat) :
    findVariable env name namelen env.count 0 =
      .ok ((strings.findIdx? (isVariable name namelen)).bind fun i => strings[i]?.map (i, ·)) := by
  have found := findVariable_spec name namelen [] strings holds
  rwa [List.length_nil, ← holds.count] at found

/-- The strings of an environment once a variable is set. -/
def setString (name value : CString) (strings : List CString) : List CString :=
  match strings.findIdx? (isVariable name name.length) with
  | some i => strings.set i (name ++ 61 :: value)
  | none => strings ++ [name ++ 61 :: value]

theorem snprintf_whole (short : text.length < 2 ^ 31)
    (room : size = text.length + 1) : snprintf size text = .ok text := by
  rw [snprintf, if_neg (by omega), room, Nat.add_sub_cancel, List.take_length]

theorem strlen32_of_lt (short : string.length < 2 ^ 32) : strlen32 string = string.length := Nat.mod_eq_of_lt short

theorem printed_whole (short : name.length + value.length + 1 < 2 ^ 31) :
    snprintf ((strlen32 name + value.length + 2) % 2 ^ 32) (name ++ 61 :: value) = .ok (name ++ 61 :: value) := by
  have text : (name ++ 61 :: value).length = name.length + value.length + 1 := by
    rw [List.length_append, List.length_cons, Nat.add_assoc]
  refine snprintf_whole (by omega) ?_
  rw [strlen32_of_lt (by omega), text, Nat.mod_eq_of_lt (by omega)]

theorem setenv_strings (holds : Strings strings env) (short : name.length + value.length + 1 < 2 ^ 31)
    (room : strings.findIdx? (isVariable name name.length) = none → strings.length ≠ 2 ^ 32 - 16) :
    ∃ next, processSetenv env name value = .ok next ∧ Strings (setString name value strings) next := by
  have found := find_strings holds name name.length
  have strlen : strlen32 name = name.length := strlen32_of_lt (by omega)
  have printed := printed_whole short
  rw [strlen] at printed
  rw [processSetenv, setString]
  simp only [strlen, printed, bind, Except.bind, found]
  cases place : strings.findIdx? (isVariable name name.length) with
  | none =>
    obtain ⟨longer, appended, holds'⟩ := holds.append (room place) (name ++ 61 :: value)
    refine ⟨longer, ?_, holds'⟩
    simp only [Option.bind_none, niStringArrayAppend, appended, bind, Except.bind]
    rfl
  | some i =>
    obtain ⟨inside, -⟩ := List.findIdx?_eq_some_iff_getElem.mp place
    have inside' : i < (strings.map some).length := by rwa [List.length_map]
    obtain ⟨data, stored, holds'⟩ := Holds.store holds inside' (some (name ++ 61 :: value))
    rw [← List.map_set] at holds'
    refine ⟨_, ?_, holds'⟩
    simp only [Option.bind_some, List.getElem?_eq_getElem inside, Option.map_some, stored]
    rfl

variable {next : NiStringArray}

theorem setenv_strings_fits (holds : Strings strings env) (set_ : processSetenv env name value = .ok next) :
    name.length + value.length + 1 < 2 ^ 31 ∧
      (strings.findIdx? (isVariable name name.length) = none → strings.length ≠ 2 ^ 32 - 16) := by
  obtain ⟨newvar, printed, set_⟩ := bind_ok.mp set_
  have short : name.length + value.length + 1 < 2 ^ 31 := by
    rw [snprintf, List.length_append, List.length_cons] at printed
    by_contra long
    rw [if_pos (.inl (by omega))] at printed
    cases printed
  refine ⟨short, fun place full => ?_⟩
  have found := find_strings holds name name.length
  rw [place] at found
  rw [strlen32_of_lt (by omega), found] at set_
  change (niStringArrayAppend env (some newvar)).map Prod.snd = .ok next at set_
  rw [niStringArrayAppend, holds.append_full full newvar] at set_
  cases set_

theorem findIdx?_entries (inside : namelen ≤ name.length) (plain : 61 ∉ name) (plains : ∀ var ∈ vars, 61 ∉ var.name) :
    (vars.map entry).findIdx? (isVariable name namelen) = vars.findIdx? (named (name.take namelen)) := by
  rw [List.findIdx?_map]
  induction vars with
  | nil => rfl
  | cons var rest ih =>
    obtain ⟨here, later⟩ := List.forall_mem_cons.mp plains
    rw [List.findIdx?_cons, List.findIdx?_cons, ih later, Function.comp_apply, isVariable_entry inside plain here]

theorem Listed.find (listed : Listed vars known env) (inside : namelen ≤ name.length) (plain : 61 ∉ name) :
    findVariable env name namelen env.count 0 =
      .ok ((vars.findIdx? (named (name.take namelen))).bind fun i =>
        vars[i]?.map fun var => (i, entry var)) := by
  rw [find_strings listed.strings, findIdx?_entries inside plain listed.plain]
  simp only [List.getElem?_map, Option.map_map]
  rfl

theorem Listed.setString (listed : Listed vars known env) (plain : 61 ∉ name) (value : CString) :
    setString name value (vars.map entry) = (Environ.niVarArraySet vars name (some value)).map entry := by
  have places := findIdx?_entries (Nat.le_refl _) plain listed.plain
  rw [List.take_length] at places
  rw [Subprocess.setString, places]
  cases place : vars.findIdx? (named name) with
  | none =>
    have new : name ∉ names vars := fun mem => mem_names_iff.mp mem place
    rw [Environ.set_new new, List.map_append]
    rfl
  | some i =>
    obtain ⟨inside, -, changed⟩ := set_at (some value) place
    rw [changed, List.map_set]
    rfl

theorem Listed.place (listed : Listed vars known env) (name : CString) :
    known name = none ∧ vars.findIdx? (named name) = none ∨
      ∃ i value, known name = some value ∧ vars.findIdx? (named name) = some i ∧ vars[i]? = some ⟨name, some value⟩ := by
  have searched : known name = ((vars.findIdx? (named name)).bind (vars[·]?)).bind NiVar.value := by
    rw [← List.find?_eq_bind_findIdx?_getElem?]
    exact listed.map name
  cases place : vars.findIdx? (named name) with
  | none =>
    rw [place] at searched
    exact .inl ⟨searched, rfl⟩
  | some i =>
    obtain ⟨inside, same, -⟩ := List.findIdx?_eq_some_iff_getElem.mp place
    have here : vars[i]? = some vars[i] := List.getElem?_eq_getElem inside
    obtain ⟨value, valued⟩ := Option.ne_none_iff_exists'.mp (listed.values vars[i] (List.getElem_mem inside))
    have var : vars[i] = ⟨name, some value⟩ := by
      rw [← named_iff.mp same, ← valued]
    rw [var] at here
    rw [place, Option.bind_some, here] at searched
    exact .inr ⟨i, value, searched, rfl, here⟩

/-- A variable that is read is missing if its value is empty. -/
theorem Listed.getenv (listed : Listed vars known env) (plain : 61 ∉ name) :
    processGetenv env name = .ok ((known (name.take (strlen32 name))).filter (· ≠ [])) := by
  have inside : strlen32 name ≤ name.length := Nat.mod_le ..
  have length : (name.take (strlen32 name)).length = strlen32 name := by
    rw [List.length_take, Nat.min_eq_left inside]
  rw [processGetenv]
  simp only [listed.find inside plain, bind, Except.bind]
  rcases listed.place (name.take (strlen32 name)) with
    ⟨absent, place⟩ | ⟨i, value, present, place, here⟩
  · rw [place, absent]
    rfl
  · rw [place, present]
    have value_eq : (entry ⟨name.take (strlen32 name), some value⟩).drop (strlen32 name + 1) =
        value := by
      rw [entry, List.append_cons, List.drop_left']
      · rfl
      · rw [List.length_append, length]
        rfl
    simp only [Option.bind_some, here, Option.map_some, value_eq]
    by_cases empty : value = []
    · rw [if_pos empty, empty]
      rfl
    · rw [if_neg empty, Option.filter_some, if_pos (decide_eq_true empty)]

theorem Listed.assign (listed : Listed vars known env) (plain : 61 ∉ name) (value : CString)
    (strings : Strings ((Environ.niVarArraySet vars name (some value)).map entry) next) :
    Listed (Environ.niVarArraySet vars name (some value)) (Function.update known name (some value)) next where
  strings := strings
  distinct := Environ.nodup_set listed.distinct
  plain := by
    intro var mem
    have named := List.mem_map_of_mem (f := NiVar.name) mem
    rw [show List.map NiVar.name _ = _ from Environ.names_set] at named
    have old : ∀ other ∈ names vars, 61 ∉ other := by
      intro other mem
      obtain ⟨var, origin, rfl⟩ := List.mem_map.mp mem
      exact listed.plain var origin
    split at named
    · exact old _ named
    · rcases List.mem_append.mp named with earlier | new
      · exact old _ earlier
      · rwa [List.mem_singleton.mp new]
  values := by
    intro var mem
    rcases Environ.mem_set mem with earlier | new
    · exact listed.values var earlier
    · rw [new]
      exact Option.some_ne_none value
  map := by
    intro other
    rw [Environ.get_set, Function.update_apply]
    by_cases same : other = name
    · rw [if_pos same, if_pos same]
      rfl
    · rw [if_neg same, if_neg same]
      exact listed.map other

theorem Listed.new_iff (listed : Listed vars known env) (plain : 61 ∉ name) :
    (vars.map entry).findIdx? (isVariable name name.length) = none ↔ known name = none := by
  rw [findIdx?_entries (Nat.le_refl _) plain listed.plain, List.take_length]
  rcases listed.place name with ⟨absent, place⟩ | ⟨i, old, present, place, -⟩
  · exact iff_of_true place absent
  · rw [place, present]
    exact iff_of_false nofun nofun

theorem Listed.setenv (listed : Listed vars known env) (plain : 61 ∉ name)
    (short : name.length + value.length + 1 < 2 ^ 31) (room : known name = none → env.count ≠ 2 ^ 32 - 16) :
    ∃ next, processSetenv env name value = .ok next ∧
      Listed (Environ.niVarArraySet vars name (some value)) (Function.update known name (some value)) next := by
  obtain ⟨next, set_, strings⟩ := setenv_strings listed.strings short fun new => by
    rw [← listed.strings.count]
    exact room ((listed.new_iff plain).mp new)
  rw [listed.setString plain] at strings
  exact ⟨next, set_, listed.assign plain value strings⟩

theorem Listed.setenv_fits (listed : Listed vars known env) (plain : 61 ∉ name)
    (set_ : processSetenv env name value = .ok next) :
    name.length + value.length + 1 < 2 ^ 31 ∧ (known name = none → env.count ≠ 2 ^ 32 - 16) := by
  obtain ⟨short, room⟩ := setenv_strings_fits listed.strings set_
  refine ⟨short, fun absent => ?_⟩
  rw [listed.strings.count]
  exact room ((listed.new_iff plain).mpr absent)

/-- The map, with names that are not cut. -/
def Mapped (known : Variables) (env : NiStringArray) : Prop :=
  ∃ vars, Listed vars known env ∧ ∀ var ∈ vars, var.name.length < 2 ^ 32

theorem mapped_empty : Mapped (fun _ => none) {} := by
  refine ⟨[], ⟨holds_empty, List.nodup_nil, nofun, nofun, fun _ => rfl⟩, nofun⟩

theorem Mapped.short (mapped : Mapped known env) (long : 2 ^ 32 ≤ name.length) : known name = none := by
  obtain ⟨vars, listed, short⟩ := mapped
  rcases listed.place name with ⟨absent, -⟩ | ⟨i, value, -, -, here⟩
  · exact absent
  · have less := short _ (List.mem_of_getElem? here)
    exact absurd less (Nat.not_lt.mpr long)

/-- What `getenv` returns is right exactly if the call fits. -/
theorem Mapped.getenv_iff (mapped : Mapped known env) (name : Name) :
    (known (name.1.take (strlen32 name.1))).filter (· ≠ []) = known name.1 ↔ EnvCall.Fits known env (.getenv name) := by
  rw [EnvCall.Fits]
  by_cases short : name.1.length < 2 ^ 32
  · rw [if_pos short, strlen32, Nat.mod_eq_of_lt short, List.take_length]
    cases known name.1 with
    | none => exact iff_of_true rfl nofun
    | some value =>
      rw [Option.filter_some]
      by_cases empty : value = []
      · subst value
        exact iff_of_false nofun fun other => other rfl
      · exact iff_of_true (if_pos (decide_eq_true empty)) fun same => empty (Option.some.inj same)
  · rw [if_neg short, mapped.short (Nat.not_lt.mp short)]
    cases known (name.1.take (strlen32 name.1)) with
    | none => exact iff_of_true rfl nofun
    | some value =>
      rw [Option.filter_some]
      by_cases empty : value = []
      · subst value
        refine iff_of_true rfl fun other same => ?_
        cases same
        rfl
      · rw [if_pos (decide_eq_true empty)]
        exact iff_of_false nofun fun all => empty (all value rfl)

theorem Mapped.kept (mapped : Mapped known env) (call : EnvCall) (fits : call.Fits known env) :
    ∃ next, call.apply env = .ok ((call.meaning known).1, next) ∧ Mapped (call.meaning known).2 next := by
  have ⟨vars, listed, short⟩ := mapped
  cases call with
  | setenv name value =>
    obtain ⟨next, set_, listed'⟩ := listed.setenv name.2 fits.1 fits.2
    refine ⟨next, by rw [EnvCall.apply, set_]; rfl, _, listed', fun var mem => ?_⟩
    have named := List.mem_map_of_mem (f := NiVar.name) mem
    rw [show List.map NiVar.name _ = _ from Environ.names_set] at named
    have old : ∀ other ∈ names vars, other.length < 2 ^ 32 := by
      intro other mem
      obtain ⟨var, origin, rfl⟩ := List.mem_map.mp mem
      exact short var origin
    split at named
    · exact old _ named
    · rcases List.mem_append.mp named with earlier | new
      · exact old _ earlier
      · rw [List.mem_singleton.mp new]
        have := fits.1
        omega
  | getenv name =>
    refine ⟨env, ?_, mapped⟩
    rw [EnvCall.apply, listed.getenv name.2, (mapped.getenv_iff name).mpr fits]
    rfl

theorem Mapped.forced (mapped : Mapped known env) (call : EnvCall)
    (applied : call.apply env = .ok ((call.meaning known).1, next)) : call.Fits known env := by
  have ⟨vars, listed, short⟩ := mapped
  cases call with
  | setenv name value =>
    obtain ⟨env', set_, -⟩ := map_ok.mp applied
    exact listed.setenv_fits name.2 set_
  | getenv name =>
    rw [EnvCall.apply, listed.getenv name.2] at applied
    exact (mapped.getenv_iff name).mp (congrArg Prod.fst (Except.ok.inj applied))

end Calls

/-- In a sequence of calls the environment is a map, with a string for each name that was set,
exactly if each call fits. -/
theorem environment_refines_iff (calls : List EnvCall) :
    Refines EnvCall.apply EnvCall.meaning (fun known env => ∃ vars, Listed vars known env)
        (fun _ => none) {} calls ↔
      Guarded EnvCall.apply EnvCall.meaning (fun known env call => call.Fits known env)
        (fun _ => none) {} calls :=
  refines_iff (fun _ _ mapped => ⟨mapped.choose, mapped.choose_spec.1⟩)
    (fun _ _ call mapped => mapped.kept call)
    (fun _ _ call _ mapped applied _ => mapped.forced call applied) mapped_empty calls

/-- A variable that is set to nothing is not found. -/
theorem not_refines_empty_value :
    ¬ Refines EnvCall.apply EnvCall.meaning (fun known env => ∃ vars, Listed vars known env)
        (fun _ => none) {} [.setenv ⟨[65], by decide⟩ [], .getenv ⟨[65], by decide⟩] := by
  rintro ⟨first, set_, -, second, got, -⟩
  cases (Prod.mk.inj (Except.ok.inj set_)).2
  have value : none = some [] := congrArg Prod.fst (Except.ok.inj got)
  cases value

end Testbus.Subprocess
