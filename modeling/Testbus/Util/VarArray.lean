import Testbus.Environ
import Testbus.Util.Chunked

namespace Testbus.Util

open Lib Cells
open Environ (strcmp strcmp_eq NiVar names)

/-- `ni_var_t`; a cell that is not used has no name. -/
structure VarCell where
  name : Option CString := none
  value : Option CString := none
  deriving DecidableEq

/-- A cell that is not used. -/
def noVar : VarCell := {}

abbrev NiVarArray := Chunked VarCell

def varGetLoop (name : CString) (nva : NiVarArray) : (left i : Nat) → Except Fault (Option Nat)
  | 0, _ => .ok none
  | left + 1, i => do
    let var ← load nva.data i
    match var.name with
    | none => .error .null
    | some varName =>
      if strcmp varName name = .eq then .ok (some i) else varGetLoop name nva left (i + 1)

/-- The place of the variable in its array. -/
def niVarArrayGet (nva : NiVarArray) (name : CString) : Except Fault (Option Nat) :=
  varGetLoop name nva nva.count 0

/-- The variable of the name, which is appended without a value if there is none. -/
def varArrayPlace (nva : NiVarArray) (name : CString) : Except Fault (Nat × NiVarArray) := do
  match ← niVarArrayGet nva name with
  | some i => .ok (i, nva)
  | none =>
    let longer ← chunkedAppend 0 noVar nva { name := some name }
    .ok (nva.count, longer)

def niVarArraySet (nva : NiVarArray) (name : CString) (value : Option CString) : Except Fault NiVarArray := do
  let (i, nva) ← varArrayPlace nva name
  let var ← load nva.data i
  let data ← store nva.data i { var with value }
  .ok { nva with data }

def niVarArrayDestroy (nva : NiVarArray) : Except Fault NiVarArray :=
  if nva.count ≤ nva.data.length then .ok {} else .error .outside

def varCopyLoop (src : NiVarArray) : (left i : Nat) → NiVarArray → Except Fault NiVarArray
  | 0, _, dst => .ok dst
  | left + 1, i, dst => do
    let var ← load src.data i
    let data ← store dst.data i var
    varCopyLoop src left (i + 1) { dst with data }

/-- `src` is what the source holds once the destination was destroyed. -/
def niVarArrayCopy (dst src : NiVarArray) : Except Fault NiVarArray := do
  let dst ← niVarArrayDestroy dst
  varCopyLoop src src.count 0 (chunkedRealloc 0 noVar dst src.count)

def varComp (a b : VarCell) : Ordering := strcmp (a.name.getD []) (b.name.getD [])

/-- `qsort` by name, as in `Environ.niVarArraySort`. -/
def niVarArraySort (nva : NiVarArray) : NiVarArray :=
  { nva with data := (nva.data.take nva.count).insertionSort (fun a b => (varComp a b).isLE) ++
      nva.data.drop nva.count }

/-- What the pointer that `ni_var_array_get` returns points to. -/
def lookup (nva : NiVarArray) (name : CString) : Except Fault (Option VarCell) := do
  match ← niVarArrayGet nva name with
  | none => .ok none
  | some i => (load nva.data i).map some

def bindings (nva : NiVarArray) : List VarCell := nva.data.take nva.count

/-- Calls on arrays with numbers. -/
inductive VarCall
  | set (array : Nat) (name : CString) (value : Option CString)
  | sort (array : Nat)
  | copy (dst src : Nat)
  deriving DecidableEq

abbrev VarArrays : Type := Nat → NiVarArray

/-- The array that a call changes. -/
def VarCall.target : VarCall → Nat
  | .set array _ _ | .sort array => array
  | .copy dst _ => dst

def VarCall.result (arrays : VarArrays) : VarCall → Except Fault NiVarArray
  | .set array name value => niVarArraySet (arrays array) name value
  | .sort array => .ok (niVarArraySort (arrays array))
  | .copy dst src => niVarArrayCopy (arrays dst) (Function.update arrays dst {} src)

def VarCall.apply (arrays : VarArrays) (call : VarCall) : Except Fault VarArrays :=
  (call.result arrays).map (Function.update arrays call.target)

/-- An array that is built by assignments alone. -/
def built (sets : List (CString × Option CString)) : Except Fault NiVarArray :=
  Machine.run (fun nva set => niVarArraySet nva set.1 set.2) {} sets

/-- A variable that was set has its value, and the others have theirs. -/
def MapLaw (nva : NiVarArray) (name : CString) (value : Option CString) : Prop :=
  ∃ next, niVarArraySet nva name value = .ok next ∧ lookup next name = .ok (some ⟨some name, value⟩) ∧
    ∀ other, other ≠ name → lookup next other = lookup nva other

/-- A copy has the same variables, and what is done to it later is not done to the source. -/
def Copies (nva : NiVarArray) : Prop :=
  ∀ (arrays : VarArrays) (dst src : Nat), arrays src = nva → dst ≠ src →
    (arrays dst).count ≤ (arrays dst).data.length →
    ∃ next, (VarCall.copy dst src).apply arrays = .ok next ∧ bindings (next dst) = bindings nva ∧
      ∀ calls final, (∀ call ∈ calls, call.target = dst) →
        Machine.run VarCall.apply next calls = .ok final → final src = nva

def cellOf (var : NiVar) : VarCell := ⟨some var.name, var.value⟩

/-- The array holds the variables. -/
abbrev Vars (vars : List NiVar) (nva : NiVarArray) : Prop := Holds 0 noVar (vars.map cellOf) nva

section Reading

variable {vars front rest : List NiVar} {name : CString}

theorem Vars.count (holds : Vars vars nva) : nva.count = vars.length := (Holds.count holds).trans (List.length_map ..)

theorem Vars.bindings_eq (holds : Vars vars nva) : bindings nva = vars.map cellOf := Holds.take_count holds

def named (name : CString) (var : NiVar) : Bool := strcmp var.name name == .eq

theorem varGetLoop_spec (front rest : List NiVar) (holds : Vars (front ++ rest) nva) (name : CString) :
    varGetLoop name nva rest.length front.length = .ok ((rest.findIdx? (named name)).map (· + front.length)) := by
  induction rest generalizing front with
  | nil => rfl
  | cons var rest ih =>
    have inside : front.length < ((front ++ var :: rest).map cellOf).length := by
      rw [List.length_map, List.length_append, List.length_cons]
      omega
    have found : load nva.data front.length = .ok (cellOf var) := by
      rw [Holds.load holds inside]
      simp
    rw [List.length_cons, varGetLoop, found, List.findIdx?_cons]
    by_cases same : strcmp var.name name = .eq
    · simp only [bind, Except.bind, cellOf, named, same, if_true, beq_self_eq_true, Option.map_some, Nat.zero_add]
    · have looped := ih (front ++ [var]) (by rwa [List.append_assoc])
      rw [List.length_append, List.length_singleton] at looped
      have other : named name var = false := beq_false_of_ne same
      simp only [bind, Except.bind, cellOf, if_neg same, looped, other, Bool.false_eq_true, if_false, Option.map_map]
      congr 2
      funext i
      exact (Nat.add_right_comm i 1 front.length).symm ▸ rfl

theorem Vars.get (holds : Vars vars nva) (name : CString) :
    niVarArrayGet nva name = .ok (vars.findIdx? (named name)) := by
  have looped := varGetLoop_spec [] vars holds name
  rw [niVarArrayGet, holds.count]
  simpa using looped

theorem Vars.lookup_eq (holds : Vars vars nva) (name : CString) :
    lookup nva name = .ok ((Environ.niVarArrayGet vars name).map cellOf) := by
  rw [lookup, holds.get, Environ.niVarArrayGet]
  cases place : vars.findIdx? (named name) with
  | none =>
    have none_ : vars.find? (named name) = none :=
      List.find?_eq_none.mpr fun var member => by
        rw [List.findIdx?_eq_none_iff.mp place var member]
        exact Bool.false_ne_true
    exact congrArg (fun found => Except.ok (Option.map cellOf found)) none_.symm
  | some i =>
    obtain ⟨inside, same, before⟩ := List.findIdx?_eq_some_iff_getElem.mp place
    have found : vars.find? (named name) = some vars[i] :=
      List.find?_eq_some_iff_getElem.mpr ⟨same, i, inside, rfl, fun j less => by
        simpa using before j less⟩
    have cell : load nva.data i = .ok (cellOf vars[i]) := by
      rw [Holds.load holds (by rwa [List.length_map])]
      simp
    refine Eq.trans ?_ (congrArg (fun found => Except.ok (Option.map cellOf found)) found.symm)
    simp only [bind, Except.bind, cell]
    rfl

end Reading

section Changing

variable {name : CString} {value : Option CString}

theorem named_iff : named name var = true ↔ var.name = name := by
  rw [named, beq_iff_eq, strcmp_eq]

theorem set_at (value : Option CString) (place : vars.findIdx? (named name) = some i) :
    ∃ inside : i < vars.length, vars[i].name = name ∧
      Environ.niVarArraySet vars name value = vars.set i ⟨name, value⟩ := by
  induction vars generalizing i with
  | nil => cases place
  | cons var rest ih =>
    rw [List.findIdx?_cons] at place
    by_cases same : named name var
    · rw [if_pos same] at place
      cases place
      have equal := named_iff.mp same
      refine ⟨Nat.zero_lt_succ _, equal, ?_⟩
      rw [Environ.niVarArraySet, if_pos (strcmp_eq.mpr equal), List.set_cons_zero, ← equal]
    · rw [if_neg same] at place
      obtain ⟨j, place', rfl⟩ := Option.map_eq_some_iff.mp place
      obtain ⟨inside, equal, changed⟩ := ih place'
      refine ⟨Nat.succ_lt_succ inside, equal, ?_⟩
      rw [Environ.niVarArraySet, if_neg fun equal => same (named_iff.mpr (strcmp_eq.mp equal)),
        changed, List.set_cons_succ]

theorem mem_names_iff : name ∈ names vars ↔ vars.findIdx? (named name) ≠ none := by
  rw [ne_eq, List.findIdx?_eq_none_iff]
  constructor
  · intro member none_
    obtain ⟨var, inside, rfl⟩ := List.mem_map.mp member
    exact Bool.eq_false_iff.mp (none_ var inside) (named_iff.mpr rfl)
  · intro some_
    by_contra new
    refine some_ fun var member => Bool.eq_false_iff.mpr fun same => new ?_
    exact List.mem_map.mpr ⟨var, member, named_iff.mp same⟩

theorem Vars.set (holds : Vars vars nva)
    (below : name ∈ names vars ∨ vars.length ≠ 2 ^ 32 - 16) (value : Option CString) :
    ∃ next, niVarArraySet nva name value = .ok next ∧ Vars (Environ.niVarArraySet vars name value) next := by
  rw [niVarArraySet, varArrayPlace, holds.get]
  cases place : vars.findIdx? (named name) with
  | some i =>
    obtain ⟨inside, equal, changed⟩ := set_at value place
    have inside' : i < (vars.map cellOf).length := by rwa [List.length_map]
    obtain ⟨data, stored, holds'⟩ := Holds.store holds inside' (cellOf ⟨name, value⟩)
    rw [← List.map_set, ← changed] at holds'
    have cell : ({ cellOf vars[i] with value } : VarCell) = cellOf ⟨name, value⟩ := by
      rw [cellOf, equal]
      rfl
    refine ⟨_, ?_, holds'⟩
    have found := Holds.load holds inside'
    rw [List.getElem_map] at found
    simp only [bind, Except.bind, found, cell, stored]
  | none =>
    have new : name ∉ names vars := fun member => mem_names_iff.mp member place
    obtain ⟨longer, appended, holds'⟩ := Holds.append holds (by decide)
      (by rw [List.length_map]; exact below.resolve_left new) ⟨some name, none⟩
    have inside : nva.count < (vars.map cellOf ++ [VarCell.mk (some name) none]).length := by
      rw [Holds.count holds, List.length_append, List.length_singleton]
      omega
    obtain ⟨data, stored, holds''⟩ := Holds.store holds' inside ⟨some name, value⟩
    have found := Holds.load holds' inside
    simp only [Holds.count holds, List.getElem_concat_length] at found stored holds''
    rw [List.set_append_right _ _ (Nat.le_refl _), Nat.sub_self, List.set_cons_zero] at holds''
    refine ⟨_, ?_, by rw [Vars, Environ.set_new new, List.map_append]; exact holds''⟩
    simp only [bind, Except.bind, appended, Holds.count holds, found, stored]

theorem Vars.set_full (holds : Vars vars nva) (new : name ∉ names vars)
    (full : vars.length = 2 ^ 32 - 16) (value : Option CString) : niVarArraySet nva name value = .error .outside := by
  have place : vars.findIdx? (named name) = none := by
    by_contra some_
    exact new (mem_names_iff.mpr some_)
  have stops := append_full holds (by decide) (by rwa [List.length_map]) ⟨some name, none⟩
  rw [niVarArraySet, varArrayPlace, holds.get, place]
  simp only [bind, Except.bind, stops]

theorem Vars.sort (holds : Vars vars nva) : Vars (Environ.niVarArraySort vars) (niVarArraySort nva) := by
  have sorted : (Environ.niVarArraySort vars).map cellOf =
      (vars.map cellOf).insertionSort fun a b => (varComp a b).isLE :=
    List.map_insertionSort _ _ _ _ fun a _ b _ => Iff.rfl
  have length : (Environ.niVarArraySort vars).length = vars.length := (Environ.sort_perm vars).length_eq
  have behind : nva.data.drop nva.count = List.replicate (nva.data.length - (vars.map cellOf).length) noVar := by
    rw [Holds.count holds, holds.data, List.drop_left, List.length_append, List.length_replicate, Nat.add_sub_cancel_left]
  have same : (niVarArraySort nva).data = (Environ.niVarArraySort vars).map cellOf ++
      List.replicate (nva.data.length - ((Environ.niVarArraySort vars).map cellOf).length) noVar := by
    rw [niVarArraySort, behind, Holds.take_count holds, ← sorted, List.length_map, List.length_map, length]
  have kept := holds.replace same (by rw [List.length_map, List.length_map, length])
  rw [List.length_map, length, ← holds.count] at kept
  exact kept

end Changing

section Copying

variable {vars front rest : List NiVar}

theorem varCopyLoop_spec (front rest : List NiVar) (holds : Vars (front ++ rest) src) (spare : Nat) :
    varCopyLoop src rest.length front.length ⟨0, front.map cellOf ++ List.replicate (rest.length + spare) noVar⟩ =
      .ok ⟨0, (front ++ rest).map cellOf ++ List.replicate spare noVar⟩ := by
  induction rest generalizing front with
  | nil => rw [List.append_nil, List.length_nil, Nat.zero_add]; rfl
  | cons var rest ih =>
    have inside : front.length < ((front ++ var :: rest).map cellOf).length := by
      rw [List.length_map, List.length_append, List.length_cons]
      omega
    have found : load src.data front.length = .ok (cellOf var) := by
      rw [Holds.load holds inside]
      simp
    have stored := store_end (front.map cellOf) (rest.length + spare) (cellOf var) noVar
    have looped := ih (front ++ [var]) (by rwa [List.append_assoc])
    rw [List.length_append, List.length_singleton, List.append_assoc, List.map_append] at looped
    rw [List.length_map] at stored
    rw [List.length_cons, varCopyLoop, found, Nat.add_right_comm]
    simp only [bind, Except.bind, stored]
    exact looped

/-- The copy has the variables in its cells, but it counts none of them. -/
theorem Vars.copy (holds : Vars vars nva) (room : dst.count ≤ dst.data.length) (below : vars.length ≠ 2 ^ 32 - 16) :
    niVarArrayCopy dst nva = .ok ⟨0, vars.map cellOf ++ List.replicate 16 noVar⟩ := by
  have most := Holds.most holds
  rw [List.length_map] at most
  have size : (vars.length + 16 + 0) % 2 ^ 32 = vars.length + 16 := Nat.mod_eq_of_lt (by omega)
  have blank : chunkedRealloc 0 noVar ({} : NiVarArray) vars.length = ⟨0, List.replicate (vars.length + 16) noVar⟩ := by
    simp only [chunkedRealloc, size, fillFrom, length_resize]
    rfl
  have looped := varCopyLoop_spec [] vars holds 16
  rw [niVarArrayCopy, niVarArrayDestroy, if_pos room]
  simp only [bind, Except.bind, holds.count, blank]
  exact looped

theorem varCopyLoop_count (looped : varCopyLoop src left i dst = .ok copy) : copy.count = dst.count := by
  induction left generalizing i dst with
  | zero =>
    cases looped
    rfl
  | succ left ih =>
    obtain ⟨var, -, looped⟩ := bind_ok.mp looped
    obtain ⟨data, -, looped⟩ := bind_ok.mp looped
    exact (ih looped :)

theorem copy_count (copied : niVarArrayCopy dst src = .ok copy) : copy.count = 0 := by
  obtain ⟨empty, destroyed, looped⟩ := bind_ok.mp copied
  rw [niVarArrayDestroy] at destroyed
  split at destroyed
  · cases destroyed
    exact varCopyLoop_count looped
  · cases destroyed

theorem run_other (others : ∀ call ∈ calls, call.target ≠ array)
    (ran : Machine.run VarCall.apply arrays calls = .ok final) : final array = arrays array := by
  induction calls generalizing arrays with
  | nil =>
    cases ran
    rfl
  | cons call rest ih =>
    obtain ⟨next, applied, later⟩ := bind_ok.mp ran
    obtain ⟨nva, -, rfl⟩ := map_ok.mp applied
    rw [ih (fun call member => others call (List.mem_cons_of_mem _ member)) later]
    exact Function.update_of_ne (Ne.symm (others call List.mem_cons_self)) _ _

end Copying

theorem Vars.mapLaw_iff (holds : Vars vars nva) (name : CString) (value : Option CString) :
    MapLaw nva name value ↔ name ∈ names vars ∨ vars.length ≠ 2 ^ 32 - 16 := by
  constructor
  · rintro ⟨next, changed, -⟩
    by_contra below
    obtain ⟨new, full⟩ := not_or.mp below
    cases changed.symm.trans (holds.set_full new (not_not.mp full) value)
  · intro below
    obtain ⟨next, changed, holds'⟩ := holds.set below value
    refine ⟨next, changed, ?_, fun other different => ?_⟩
    · rw [holds'.lookup_eq, Environ.get_set, if_pos rfl]
      rfl
    · rw [holds'.lookup_eq, holds.lookup_eq, Environ.get_set, if_neg different]

theorem Vars.nodup (holds : Vars vars nva) (distinct : (names vars).Nodup) : ((bindings nva).map VarCell.name).Nodup := by
  rw [holds.bindings_eq, List.map_map]
  have composed : (VarCell.name ∘ cellOf) = some ∘ NiVar.name := rfl
  rw [composed, ← List.map_map]
  exact (List.nodup_map_iff (Option.some_injective _)).mpr distinct

theorem Vars.sorted (holds : Vars vars nva) (distinct : (names vars).Nodup) :
    (bindings (niVarArraySort nva)).Perm (bindings nva) ∧
      (bindings (niVarArraySort nva)).Pairwise fun a b => varComp a b = .lt := by
  rw [holds.sort.bindings_eq, holds.bindings_eq]
  exact ⟨(Environ.sort_perm vars).map cellOf, List.pairwise_map.mpr (Environ.sort_ascending distinct)⟩

/-- The variables that a sequence of assignments makes. -/
def assigned (vars : List NiVar) (sets : List (CString × Option CString)) : List NiVar :=
  sets.foldl (fun vars set => Environ.niVarArraySet vars set.1 set.2) vars

theorem Vars.run (holds : Vars vars nva)
    (ran : Machine.run (fun nva set => niVarArraySet nva set.1 set.2) nva sets = .ok final) :
    Vars (assigned vars sets) final := by
  induction sets generalizing vars nva with
  | nil =>
    cases ran
    exact holds
  | cons set rest ih =>
    obtain ⟨next, changed, later⟩ := bind_ok.mp ran
    refine ih ?_ later
    by_cases below : set.1 ∈ names vars ∨ vars.length ≠ 2 ^ 32 - 16
    · obtain ⟨next', changed', holds'⟩ := holds.set below set.2
      obtain rfl := Except.ok.inj (changed.symm.trans changed')
      exact holds'
    · obtain ⟨new, full⟩ := not_or.mp below
      cases changed.symm.trans (holds.set_full new (not_not.mp full) set.2)

theorem mem_assigned (sets : List (CString × Option CString)) :
    name ∈ names (assigned vars sets) ↔ name ∈ names vars ∨ name ∈ sets.map Prod.fst := by
  induction sets generalizing vars with
  | nil => simp [assigned]
  | cons set rest ih =>
    rw [assigned, List.foldl_cons, ← assigned, ih, Environ.names_set]
    split <;> simp_all [or_assoc]
    grind

theorem nodup_assigned (sets : List (CString × Option CString)) (distinct : (names vars).Nodup) :
    (names (assigned vars sets)).Nodup := by
  induction sets generalizing vars with
  | nil => exact distinct
  | cons set rest ih => exact ih (Environ.nodup_set distinct)

/-- There is a variable for each name to which something was assigned. -/
theorem length_assigned (sets : List (CString × Option CString)) :
    (assigned [] sets).length = (sets.map Prod.fst).dedup.length := by
  have distinct : (names (assigned [] sets)).Nodup := nodup_assigned sets List.nodup_nil
  have same : (names (assigned [] sets)).Perm (sets.map Prod.fst).dedup :=
    (List.perm_ext_iff_of_nodup distinct (List.nodup_dedup _)).mpr fun name => by
      rw [List.mem_dedup, mem_assigned]
      simp [names]
  exact (List.length_map ..).symm.trans same.length_eq

/-- The copies of an array in which nothing was set are as it is. -/
theorem copies_empty : Copies {} := by
  intro arrays dst src source different room
  have holds : Vars [] {} := holds_empty
  have copied := Vars.copy holds room (by decide)
  have unchanged : Function.update arrays dst {} src = {} := by
    rw [Function.update_of_ne (Ne.symm different), source]
  refine ⟨Function.update arrays dst ⟨0, List.replicate 16 noVar⟩, ?_, ?_, ?_⟩
  · rw [VarCall.apply, VarCall.result, unchanged, copied]
    rfl
  · rw [Function.update_self]
    rfl
  · intro calls final targets ran
    rw [run_other (fun call member => targets call member ▸ different) ran,
      Function.update_of_ne (Ne.symm different), source]

/-- A copy is empty. -/
theorem Copies.bindings_eq_nil (copies : Copies nva) : bindings nva = [] := by
  obtain ⟨next, applied, same, -⟩ := copies (fun array => if array = 0 then nva else {}) 1 0 rfl (by decide) (Nat.le_refl 0)
  obtain ⟨copy, copied, rfl⟩ := map_ok.mp applied
  rw [← same]
  change copy.data.take copy.count = []
  rw [copy_count copied, List.take_zero]

/-- An array that was built by assignments is a map as long as it can grow, its names are distinct, and
it is sorted; but its copies are empty. -/
theorem laws_iff (sets : List (CString × Option CString)) (nva : NiVarArray) (ran : built sets = .ok nva) :
    (∀ name value, MapLaw nva name value ↔
      name ∈ sets.map Prod.fst ∨ (sets.map Prod.fst).dedup.length ≠ 2 ^ 32 - 16) ∧
    ((bindings nva).map VarCell.name).Nodup ∧
    (bindings (niVarArraySort nva)).Perm (bindings nva) ∧
    (bindings (niVarArraySort nva)).Pairwise (fun a b => varComp a b = .lt) ∧
    (Copies nva ↔ sets = []) := by
  have empty : Vars [] {} := holds_empty
  have holds := empty.run ran
  have distinct : (names (assigned [] sets)).Nodup := nodup_assigned sets List.nodup_nil
  obtain ⟨permuted, ascending⟩ := holds.sorted distinct
  refine ⟨fun name value => ?_, holds.nodup distinct, permuted, ascending, ?_, ?_⟩
  · rw [holds.mapLaw_iff, mem_assigned, length_assigned]
    simp [names]
  · intro copies
    have none_ := copies.bindings_eq_nil
    rw [holds.bindings_eq, List.map_eq_nil_iff, ← List.length_eq_zero_iff, length_assigned] at none_
    simpa using none_
  · rintro rfl
    cases ran
    exact copies_empty

theorem laws_one : ((bindings ⟨1, ⟨some [97], some [98]⟩ :: List.replicate 16 noVar⟩).map VarCell.name).Nodup :=
  (laws_iff [([97], some [98])] _ rfl).2.1

/-- An array of one variable. -/
theorem one_not_copied : ¬ ∀ nva, built [([97], some [98])] = .ok nva → Copies nva := by
  intro claimed
  obtain ⟨next, applied, same, -⟩ := claimed _ rfl (fun array => if array = 0 then _ else {}) 1 0
    rfl (by decide) (by decide)
  cases applied
  exact absurd same (by decide)

end Testbus.Util
