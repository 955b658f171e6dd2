import Testbus.Buffer
import Testbus.Lib.Machine
import Testbus.Lib.Tapes

namespace Testbus.Environ

open Lib

def strcmp (s t : CString) : Ordering := List.compareLex compare s t

/-- `ni_var_t`; the value of a variable that was unset is `NULL`. -/
structure NiVar where
  name : CString
  value : Option CString
  deriving DecidableEq

def niVarArrayGet (vars : List NiVar) (name : CString) : Option NiVar :=
  vars.find? fun var => strcmp var.name name == .eq

/-- Assign to the first variable of the name, or append one. -/
def niVarArraySet (vars : List NiVar) (name : CString) (value : Option CString) : List NiVar :=
  match vars with
  | [] => [⟨name, value⟩]
  | var :: rest =>
    if strcmp var.name name = .eq then { var with value := value } :: rest
    else var :: niVarArraySet rest name value

/-- `qsort` by name. Names are distinct, so it does not matter that it is not stable. -/
def niVarArraySort (vars : List NiVar) : List NiVar :=
  vars.insertionSort fun a b => (strcmp a.name b.name).isLE

structure Env where
  vars : List NiVar := []
  sorted : Bool := false
  deriving DecidableEq

def setenv (env : Env) (name : CString) (value : CString) : Env :=
  { vars := niVarArraySet env.vars name (some value), sorted := false }

def unsetenv (env : Env) (name : CString) : Env :=
  { vars := niVarArraySet env.vars name none, sorted := false }

def getenv (env : Env) (name : CString) : Option CString :=
  (niVarArrayGet env.vars name).bind NiVar.value

def envSort (env : Env) : Env :=
  if env.sorted then env else { vars := niVarArraySort env.vars, sorted := true }

inductive MergeFault
  | missedVariable (name : CString)
  | outOfFuel
  deriving DecidableEq

/-- An input of the merge is the part of its array from the cursor on. -/
def envMergeSkipDups (name : CString) : List NiVar → Except MergeFault (List NiVar)
  | [] => .ok []
  | var :: rest =>
    match strcmp var.name name with
    | .lt => .error (.missedVariable var.name)
    | .gt => .ok (var :: rest)
    | .eq => envMergeSkipDups name rest

def envMergeNext (best : Option NiVar) : List NiVar → Option NiVar
  | [] => best
  | next :: _ =>
    match best with
    | none => some next
    | some var => if strcmp next.name var.name = .lt then some next else some var

/-- One pass over the inputs: step over the last variable, then look for the best one. -/
def envMergePass (last : Option NiVar) (best : Option NiVar) :
    List (List NiVar) → Except MergeFault (List (List NiVar) × Option NiVar)
  | [] => .ok ([], best)
  | input :: rest => do
    let input ← match last with
      | none => .ok input
      | some var => envMergeSkipDups var.name input
    let (others, best) ← envMergePass last (envMergeNext best input) rest
    .ok (input :: others, best)

/-- `ni_testbus_setenv` on the result, with a value that may be `NULL`. -/
def envMergeLoop (fuel : Nat) (last : Option NiVar) (inputs : List (List NiVar)) (result : Env) :
    Except MergeFault Env :=
  match fuel with
  | 0 => .error .outOfFuel
  | fuel + 1 => do
    let (inputs, best) ← envMergePass last none inputs
    match best with
    | none => .ok result
    | some var =>
      envMergeLoop fuel (some var) inputs
        { vars := niVarArraySet result.vars var.name var.value, sorted := false }

/-- The inputs are sorted in place; every pass but the last takes a variable of them. -/
def envMerge (result : Env) (envArray : List Env) : Except MergeFault (Env × List Env) := do
  let envArray := envArray.map envSort
  let inputs := envArray.map Env.vars
  let result ← envMergeLoop ((inputs.map List.length).sum + 1) none inputs result
  .ok ({ result with sorted := true }, envArray)

/-- `chain` holds the environments of a container and of its parents, where they have one. -/
def containerMergeEnvironment (chain : List (Option Env)) (result : Env) : Except MergeFault Env :=
  let envArray := (if result.vars.length ≠ 0 then [result] else []) ++
    (chain.filterMap id).filter fun env => env.vars.length ≠ 0
  if envArray.length ≠ 0 then do
    let (merged, _) ← envMerge {} envArray
    .ok merged
  else .ok result

/-- The calls an environment is built by. A merge it takes part in sorts it. -/
inductive EnvCall
  | set (name value : CString)
  | unset (name : CString)
  | sort

def EnvCall.apply (env : Env) : EnvCall → Env
  | .set name value => setenv env name value
  | .unset name => unsetenv env name
  | .sort => envSort env

def build (calls : List EnvCall) : Env := calls.foldl EnvCall.apply {}

/-- The variable of the first environment that has one of the name, set or unset. -/
def firstVar (envs : List Env) (name : CString) : Option NiVar :=
  envs.findSome? fun env => niVarArrayGet env.vars name

section Arrays

variable {name : CString} {value : Option CString}

instance : Std.TransCmp strcmp :=
  inferInstanceAs (Std.TransCmp (List.compareLex (compare : UInt8 → UInt8 → Ordering)))

instance : Std.LawfulEqCmp strcmp :=
  inferInstanceAs (Std.LawfulEqCmp (List.compareLex (compare : UInt8 → UInt8 → Ordering)))

theorem strcmp_eq : strcmp s t = .eq ↔ s = t :=
  ⟨Std.LawfulEqCmp.eq_of_compare, by rintro rfl; exact Std.ReflCmp.compare_self⟩

abbrev names (vars : List NiVar) : List CString := vars.map NiVar.name

theorem names_set : names (niVarArraySet vars name value) =
    if name ∈ names vars then names vars else names vars ++ [name] := by
  induction vars with
  | nil => rfl
  | cons var rest ih =>
    rw [niVarArraySet]
    by_cases same : var.name = name
    · simp [names, same]
    · rw [if_neg (mt strcmp_eq.mp same)]
      simp only [names, List.map_cons, List.mem_cons] at ih ⊢
      rw [ih]
      by_cases later : name ∈ rest.map NiVar.name <;> simp [later, Ne.symm same]

theorem set_new (new : name ∉ names vars) : niVarArraySet vars name value = vars ++ [⟨name, value⟩] := by
  induction vars with
  | nil => rfl
  | cons var rest ih =>
    obtain ⟨different, later⟩ := not_or.mp (mt List.mem_cons.mpr new)
    rw [niVarArraySet, if_neg (mt strcmp_eq.mp (Ne.symm different)), ih later]
    rfl

theorem get_set (other : CString) :
    niVarArrayGet (niVarArraySet vars name value) other =
      if other = name then some ⟨name, value⟩ else niVarArrayGet vars other := by
  induction vars with
  | nil =>
    by_cases same : other = name
    · simp [niVarArraySet, niVarArrayGet, same, strcmp_eq.mpr]
    · simp [niVarArraySet, niVarArrayGet, same, mt strcmp_eq.mp (Ne.symm same)]
  | cons var rest ih =>
    simp only [niVarArraySet]
    by_cases here : var.name = name
    · rw [if_pos (strcmp_eq.mpr here)]
      by_cases same : other = name
      · simp [niVarArrayGet, same, here, strcmp_eq.mpr]
      · have different : strcmp name other ≠ .eq := mt strcmp_eq.mp (Ne.symm same)
        simp [niVarArrayGet, same, here, different]
    · rw [if_neg (mt strcmp_eq.mp here)]
      by_cases first : var.name = other
      · have different : other ≠ name := first ▸ here
        simp [niVarArrayGet, first, different, strcmp_eq.mpr]
      · have missed : (strcmp var.name other == .eq) = false := by
          simpa using mt strcmp_eq.mp first
        simp only [niVarArrayGet, List.find?_cons, missed] at ih ⊢
        exact ih

theorem nodup_set (distinct : (names vars).Nodup) : (names (niVarArraySet vars name value)).Nodup := by
  rw [names_set]
  split
  · exact distinct
  · rename_i new
    exact List.nodup_append.mpr ⟨distinct, List.nodup_singleton _, by
      rintro a member b last rfl
      exact new (List.mem_singleton.mp last ▸ member)⟩

theorem get_some_iff (distinct : (names vars).Nodup) :
    niVarArrayGet vars name = some var ↔ var ∈ vars ∧ var.name = name := by
  constructor
  · intro found
    exact ⟨List.mem_of_find?_eq_some found, strcmp_eq.mp (by simpa using List.find?_some found)⟩
  · rintro ⟨member, rfl⟩
    have some' : (niVarArrayGet vars var.name).isSome := by
      rw [niVarArrayGet, List.find?_isSome]
      exact ⟨var, member, by simp [strcmp_eq.mpr]⟩
    obtain ⟨other, found⟩ := Option.isSome_iff_exists.mp some'
    have same : other.name = var.name := strcmp_eq.mp (by simpa using List.find?_some found)
    rw [found, List.inj_on_of_nodup_map distinct (List.mem_of_find?_eq_some found) member same]

theorem get_perm (distinct : (names vars).Nodup) (perm : other.Perm vars) :
    niVarArrayGet other name = niVarArrayGet vars name := by
  have distinct' : (names other).Nodup := (perm.map NiVar.name).nodup_iff.mpr distinct
  apply Option.ext
  intro var
  rw [get_some_iff distinct, get_some_iff distinct', perm.mem_iff]

/-- An environment has one variable a name, and is in order if it says so. -/
structure Env.Valid (env : Env) : Prop where
  distinct : (names env.vars).Nodup
  ordered : env.sorted = true → Tapes.Ascending strcmp NiVar.name env.vars

theorem sort_perm (vars : List NiVar) : (niVarArraySort vars).Perm vars := List.perm_insertionSort _ _

theorem sort_ascending (distinct : (names vars).Nodup) : Tapes.Ascending strcmp NiVar.name (niVarArraySort vars) := by
  have total : Std.Total fun a b : NiVar => (strcmp a.name b.name).isLE := by
    refine ⟨fun a b => ?_⟩
    have swapped : strcmp b.name a.name = (strcmp a.name b.name).swap := Std.OrientedCmp.eq_swap
    rw [swapped]
    cases strcmp a.name b.name <;> simp
  have trans : IsTrans NiVar fun a b => (strcmp a.name b.name).isLE := ⟨fun _ _ _ => Std.TransCmp.isLE_trans⟩
  have sorted : (niVarArraySort vars).Pairwise fun a b => (strcmp a.name b.name).isLE := List.pairwise_insertionSort _ _
  have distinct' : (names (niVarArraySort vars)).Nodup := ((sort_perm vars).map NiVar.name).nodup_iff.mpr distinct
  have apart : (niVarArraySort vars).Pairwise fun a b => a.name ≠ b.name := List.pairwise_map.mp distinct'
  refine (sorted.and apart).imp ?_
  rintro a b ⟨le, different⟩
  cases order : strcmp a.name b.name with
  | lt => rfl
  | eq => exact absurd (strcmp_eq.mp order) different
  | gt => simp [order] at le

theorem get_ascending (ascending : Tapes.Ascending strcmp NiVar.name vars) : (names vars).Nodup := by
  refine List.pairwise_map.mpr (ascending.imp ?_)
  rintro a b less same
  simp [strcmp_eq.mpr same] at less

theorem valid_sort (valid : env.Valid) : (envSort env).Valid ∧ Tapes.Ascending strcmp NiVar.name (envSort env).vars ∧
    ∀ name, niVarArrayGet (envSort env).vars name = niVarArrayGet env.vars name := by
  unfold envSort
  split
  · rename_i sorted
    exact ⟨valid, valid.ordered sorted, fun _ => rfl⟩
  · have ascending := sort_ascending valid.distinct
    exact ⟨⟨get_ascending ascending, fun _ => ascending⟩, ascending, fun _ => get_perm valid.distinct (sort_perm _)⟩

theorem valid_build (calls : List EnvCall) : (build calls).Valid := by
  suffices kept : ∀ env : Env, env.Valid → (calls.foldl EnvCall.apply env).Valid from kept {} ⟨List.nodup_nil, by simp⟩
  induction calls with
  | nil => exact fun _ valid => valid
  | cons call rest ih =>
    intro env valid
    refine ih _ ?_
    cases call with
    | set name value => exact ⟨nodup_set valid.distinct, by simp [EnvCall.apply, setenv]⟩
    | unset name => exact ⟨nodup_set valid.distinct, by simp [EnvCall.apply, unsetenv]⟩
    | sort => exact (valid_sort valid).1

end Arrays

section Merge

variable {name : CString} {last best : Option NiVar} {result : Env}

theorem skipDups_eq (bounded : ∀ var ∈ input, strcmp name var.name ≠ .gt) :
    envMergeSkipDups name input = .ok (Tapes.pass strcmp NiVar.name name input) := by
  induction input with
  | nil => rfl
  | cons var rest ih =>
    have here := bounded var (by simp)
    have later := ih fun var member => bounded var (by simp [member])
    rw [envMergeSkipDups, Tapes.pass]
    cases order : strcmp var.name name with
    | lt => exact absurd (Std.OrientedCmp.gt_of_lt order) here
    | eq => simpa using later
    | gt => simp

theorem envMergeNext_eq (best : Option NiVar) (input : List NiVar) :
    envMergeNext best input = Tapes.prefer strcmp NiVar.name best input := by
  cases input with
  | nil => rfl
  | cons var rest => cases best <;> rfl

/-- The inputs once the last variable was stepped over. -/
def passed (last : Option NiVar) (inputs : List (List NiVar)) : List (List NiVar) :=
  match last with
  | none => inputs
  | some var => inputs.map (Tapes.pass strcmp NiVar.name var.name)

/-- No input is behind the last variable. -/
def Bounded (last : Option NiVar) (inputs : List (List NiVar)) : Prop :=
  ∀ var, last = some var → ∀ input ∈ inputs, ∀ other ∈ input, strcmp var.name other.name ≠ .gt

theorem envMergePass_eq (bounded : Bounded last inputs) :
    envMergePass last best inputs = .ok (passed last inputs,
      (passed last inputs).foldl (Tapes.prefer strcmp NiVar.name) best) := by
  induction inputs generalizing best with
  | nil => cases last <;> rfl
  | cons input rest ih =>
    have later : Bounded last rest := fun var equal input member => bounded var equal input (by simp [member])
    cases last with
    | none =>
      change (envMergePass none (envMergeNext best input) rest >>= _) = _
      rw [ih later, envMergeNext_eq]
      rfl
    | some var =>
      change (envMergeSkipDups var.name input >>= fun input =>
        envMergePass (some var) (envMergeNext best input) rest >>= _) = _
      rw [skipDups_eq (bounded var rfl input (by simp))]
      change (envMergePass (some var) (envMergeNext best _) rest >>= _) = _
      rw [ih later, envMergeNext_eq]
      rfl

/-- The loop appends the merge of what is left of the inputs, and never faults. -/
theorem envMergeLoop_ok (fuel : Nat) (last : Option NiVar) (inputs : List (List NiVar)) (result : Env)
    (ascending : ∀ input ∈ passed last inputs, Tapes.Ascending strcmp NiVar.name input)
    (bounded : Bounded last inputs) (new : ∀ input ∈ passed last inputs, ∀ var ∈ input, var.name ∉ names result.vars)
    (enough : Tapes.size (passed last inputs) < fuel) :
    ∃ emitted final, envMergeLoop fuel last inputs result = .ok final ∧ final.vars = result.vars ++ emitted ∧
      Tapes.Merged strcmp NiVar.name (passed last inputs) emitted := by
  induction fuel generalizing last inputs result with
  | zero => omega
  | succ fuel ih =>
    rw [envMergeLoop, envMergePass_eq bounded]
    generalize passed last inputs = tapes at ascending new enough
    change ∃ emitted final, (match Tapes.leastHead strcmp NiVar.name tapes with
      | none => Except.ok result
      | some var => envMergeLoop fuel (some var) tapes
          { vars := niVarArraySet result.vars var.name var.value, sorted := false }) = .ok final ∧ _
    rcases Tapes.leastHead_spec ascending with ⟨none', empty⟩ | ⟨var, some', least⟩
    · rw [none']
      exact ⟨[], result, rfl, (List.append_nil _).symm, Tapes.merged_nil empty⟩
    · rw [some']
      obtain ⟨tape, inside, item, _⟩ := Tapes.first_some least.leftmost
      have unused := new tape inside var item
      have shorter := Tapes.size_pass least
      obtain ⟨emitted, final, ran, vars, merged⟩ := ih (some var) tapes
        { vars := niVarArraySet result.vars var.name var.value, sorted := false }
        (by
          intro input member
          obtain ⟨tape, origin, rfl⟩ := List.mem_map.mp member
          exact Tapes.ascending_pass (ascending tape origin))
        (by rintro _ ⟨⟩; exact least.bounded)
        (by
          intro input member other inside'
          obtain ⟨tape, origin, rfl⟩ := List.mem_map.mp member
          have above := Tapes.above_pass (ascending tape origin) (least.bounded tape origin) other inside'
          have kept : other ∈ tape := Tapes.mem_of_mem_pass inside'
          rw [set_new unused]
          simp only [names, List.map_append, List.mem_append, not_or]
          refine ⟨new tape origin other kept, ?_⟩
          intro same
          simp [strcmp_eq.mpr (List.mem_singleton.mp same).symm] at above)
        (by change Tapes.size (tapes.map _) < fuel; omega)
      refine ⟨var :: emitted, final, ran, ?_, Tapes.merged_cons ascending least merged⟩
      rw [vars, set_new unused]
      simp

theorem first_sorted (valid : ∀ env ∈ envs, env.Valid) (name : CString) :
    Tapes.first strcmp NiVar.name name ((envs.map envSort).map Env.vars) = firstVar envs name := by
  induction envs with
  | nil => rfl
  | cons env rest ih =>
    have here : Tapes.find strcmp NiVar.name name (envSort env).vars =
        niVarArrayGet env.vars name := (valid_sort (valid env (by simp))).2.2 name
    have later := ih fun env member => valid env (by simp [member])
    simp only [Tapes.first, firstVar, List.map_cons, List.findSome?_cons] at later ⊢
    rw [later, here]

theorem envMerge_ok (valid : ∀ env ∈ envs, env.Valid) :
    ∃ result, envMerge {} envs = .ok (result, envs.map envSort) ∧ result.sorted = true ∧
      Tapes.Ascending strcmp NiVar.name result.vars ∧ ∀ name, niVarArrayGet result.vars name = firstVar envs name := by
  have ascending : ∀ input ∈ (envs.map envSort).map Env.vars, Tapes.Ascending strcmp NiVar.name input := by
    intro input member
    obtain ⟨_, sorted, rfl⟩ := List.mem_map.mp member
    obtain ⟨env, origin, rfl⟩ := List.mem_map.mp sorted
    exact (valid_sort (valid env origin)).2.1
  obtain ⟨emitted, final, ran, vars, merged⟩ := envMergeLoop_ok
    ((((envs.map envSort).map Env.vars).map List.length).sum + 1) none
    ((envs.map envSort).map Env.vars) {}
    ascending (by rintro _ ⟨⟩) (by simp) (Nat.lt_succ_self _)
  rw [List.nil_append] at vars
  refine ⟨{ final with sorted := true }, ?_, rfl, by rw [vars]; exact merged.ascending, ?_⟩
  · simp only [envMerge, ran]
    rfl
  · intro name
    change niVarArrayGet final.vars name = _
    rw [vars]
    refine (merged.firsts name).trans ?_
    exact first_sorted valid name

end Merge

/-- Merging environments gives a variable a name in order of the names: for each name
the variable, set or unset, of the first environment that has one. -/
theorem env_merge_first (arrays : List (List EnvCall)) :
    ∃ result sorted, envMerge {} (arrays.map build) = .ok (result, sorted) ∧
      (result.vars.Pairwise fun a b => strcmp a.name b.name = .lt) ∧
      ∀ var, var ∈ result.vars ↔ firstVar (arrays.map build) var.name = some var := by
  have valid : ∀ env ∈ arrays.map build, env.Valid := by
    intro env member
    obtain ⟨calls, _, rfl⟩ := List.mem_map.mp member
    exact valid_build calls
  obtain ⟨result, merged, _, ascending, firsts⟩ := envMerge_ok valid
  refine ⟨result, _, merged, ascending, fun var => ?_⟩
  rw [← firsts, get_some_iff (get_ascending ascending)]
  simp

/-- An unset variable of one array hides the variable that the next one sets. -/
theorem env_merge_hides : ¬ ∀ arrays : List (List EnvCall),
    ∃ result sorted, envMerge {} (arrays.map build) = .ok (result, sorted) ∧
      (result.vars.Pairwise fun a b => strcmp a.name b.name = .lt) ∧
      ∀ name, getenv result name = (arrays.map build).findSome? fun env => getenv env name := by
  intro claimed
  obtain ⟨result, sorted, merged, _, values⟩ :=
    claimed [[.unset [88]], [.set [88] [49]]]
  have hidden : (envMerge {} ([[.unset [88]], [.set [88] [49]]].map build)).toOption.map
      (fun merged => getenv merged.1 [88]) = some none := by decide +kernel
  rw [merged] at hidden
  have unset : getenv result [88] = none := Option.some.inj hidden
  have value := values [88]
  rw [unset] at value
  revert value
  decide +kernel

theorem firstVar_filter (envs : List Env) (name : CString) :
    firstVar (envs.filter fun env => env.vars.length ≠ 0) name = firstVar envs name := by
  induction envs with
  | nil => rfl
  | cons env rest ih =>
    rw [List.filter_cons]
    by_cases empty : env.vars.length ≠ 0
    · rw [if_pos (by simpa using empty), firstVar, List.findSome?_cons, ← firstVar, ih]
      rfl
    · have nothing : niVarArrayGet env.vars name = none := by
        rw [List.length_eq_zero_iff.mp (not_not.mp empty)]
        rfl
      rw [if_neg (by simpa using empty), ih, firstVar, firstVar, List.findSome?_cons, nothing]

/-- A process gets each variable from its own environment, or else from the nearest
container that has one of the name. -/
theorem containerMerge_first (own : result.Valid) (valid : ∀ env ∈ chain.filterMap id, env.Valid) :
    ∃ merged, containerMergeEnvironment chain result = .ok merged ∧ merged.Valid ∧
      ∀ name, niVarArrayGet merged.vars name = firstVar (result :: chain.filterMap id) name := by
  have gathered : (if result.vars.length ≠ 0 then [result] else []) ++
      (chain.filterMap id).filter (fun env => env.vars.length ≠ 0) =
      (result :: chain.filterMap id).filter fun env => env.vars.length ≠ 0 := by
    rw [List.filter_cons]
    by_cases empty : result.vars.length ≠ 0 <;> simp [empty]
  unfold containerMergeEnvironment
  rw [gathered]
  have kept := firstVar_filter (result :: chain.filterMap id)
  have valid' : ∀ env ∈ (result :: chain.filterMap id).filter fun env => env.vars.length ≠ 0,
      env.Valid := by
    intro env member
    rcases List.mem_cons.mp (List.mem_filter.mp member).1 with rfl | later
    · exact own
    · exact valid env later
  generalize gatheredEnvs : (result :: chain.filterMap id).filter
    (fun env => decide (env.vars.length ≠ 0)) = envs at kept valid'
  by_cases empty : envs = []
  · refine ⟨result, by simp [empty], own, fun name => ?_⟩
    rw [← kept, empty]
    have bare : result.vars = [] := by
      rw [empty, List.filter_eq_nil_iff] at gatheredEnvs
      simpa using gatheredEnvs result (by simp)
    rw [bare]
    rfl
  · obtain ⟨merged, ran, sorted, ascending, firsts⟩ := envMerge_ok valid'
    refine ⟨merged, ?_, ⟨get_ascending ascending, fun _ => ascending⟩, fun name => ?_⟩
    · simp only [empty, ran, ne_eq, List.length_eq_zero_iff, not_false_eq_true, if_true]
      rfl
    · rw [firsts, kept]

/-- A valid environment in which every variable is set. -/
structure Env.Full (env : Env) : Prop where
  valid : env.Valid
  set : ∀ var ∈ env.vars, var.value ≠ none

theorem full_empty : Env.Full {} := ⟨⟨List.nodup_nil, by simp⟩, by simp⟩

theorem mem_set (member : var ∈ niVarArraySet vars name value) : var ∈ vars ∨ var.value = value := by
  induction vars with
  | nil =>
    rw [niVarArraySet, List.mem_singleton] at member
    exact Or.inr (by rw [member])
  | cons first rest ih =>
    rw [niVarArraySet] at member
    split at member
    · rcases List.mem_cons.mp member with rfl | later
      · exact Or.inr rfl
      · exact Or.inl (List.mem_cons_of_mem _ later)
    · rcases List.mem_cons.mp member with rfl | later
      · exact Or.inl (by simp)
      · exact (ih later).imp_left (List.mem_cons_of_mem _)

theorem full_setenv (full : env.Full) (name value : CString) : (setenv env name value).Full where
  valid := ⟨nodup_set full.valid.distinct, by simp [setenv]⟩
  set var member := by
    rcases mem_set member with old | new
    · exact full.set var old
    · simp [new]

theorem full_sort (full : env.Full) : (envSort env).Full where
  valid := (valid_sort full.valid).1
  set var member := by
    unfold envSort at member
    split at member
    · exact full.set var member
    · exact full.set var ((sort_perm env.vars).mem_iff.mp member)

theorem full_first (full : ∀ env ∈ envs, env.Full) (found : firstVar envs name = some var) : var.value ≠ none := by
  obtain ⟨env, member, here⟩ := List.exists_of_findSome?_eq_some found
  exact (full env member).set var (List.mem_of_find?_eq_some here)

/-- The value of a name is that of the first environment which has one. -/
theorem firstVar_value (full : ∀ env ∈ envs, env.Full) (name : CString) :
    (firstVar envs name).bind NiVar.value = envs.findSome? fun env => getenv env name := by
  induction envs with
  | nil => rfl
  | cons env rest ih =>
    have later := ih fun other member => full other (by simp [member])
    rw [firstVar, List.findSome?_cons, List.findSome?_cons, getenv]
    cases here : niVarArrayGet env.vars name with
    | none => exact later
    | some var =>
      obtain ⟨value, has⟩ := Option.ne_none_iff_exists'.mp ((full env (by simp)).set var (List.mem_of_find?_eq_some here))
      simp [has]

/-- The merge of environments in which every variable is set is another one. -/
theorem containerMerge_full (own : result.Full) (full : ∀ env ∈ chain, env.Full) :
    ∃ merged, containerMergeEnvironment (chain.map some) result = .ok merged ∧ merged.Full ∧
      ∀ name, getenv merged name = (result :: chain).findSome? fun env => getenv env name := by
  have same : (chain.map some).filterMap id = chain := by simp
  have valids : ∀ env ∈ (chain.map some).filterMap id, env.Valid := by
    rw [same]
    exact fun env member => (full env member).valid
  obtain ⟨merged, ran, valid, firsts⟩ := containerMerge_first own.valid valids
  rw [same] at firsts
  have all : ∀ env ∈ result :: chain, env.Full := by
    intro env member
    rcases List.mem_cons.mp member with rfl | later
    · exact own
    · exact full env later
  refine ⟨merged, ran, ⟨valid, fun var member => ?_⟩, fun name => ?_⟩
  · have found : niVarArrayGet merged.vars var.name = some var := (get_some_iff valid.distinct).mpr ⟨member, rfl⟩
    exact full_first all ((firsts var.name).symm.trans found)
  · rw [getenv, firsts, firstVar_value all]

end Testbus.Environ
