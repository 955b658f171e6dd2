import Testbus.Dbus.Dispatch
import Testbus.Dbus.Marshal

namespace Testbus.Dbus.Properties

open Dispatch Marshal

/-- The address of a `get_handle` function. -/
abbrev HandleFn := Nat

/-- `struct ni_dbus_property`. The functions for the value are an `Accessor`, and the children of a
dictionary are in place of the offset. -/
structure Property (Accessor : Type) where
  name : CString
  signature : Option Signature
  getHandle : Option HandleFn := none
  offset : Nat := 0
  dictChildren : Option (List (Property Accessor)) := none
  get : Option Accessor := none
  set : Option Accessor := none

/-- What is called for an object: a function that returns `NULL` or `FALSE` may set an error, and one
that does not leaves it alone. -/
structure Handlers (Object Accessor : Type) where
  path : Object → CString
  getHandle : HandleFn → Object → Except (Option DBusError) Nat
  get : Accessor → Property Accessor → Object → Except (Option DBusError) Marshal.Variant

variable {Object Accessor : Type}

/-- `NI_DBUS_ERROR_PROPERTY_NOT_PRESENT`. -/
def notPresentName : ErrorName :=
  .given (ascii "org.opensuse.PropertyNotPresent".toList)

def propertyNotPresent (path property : CString) : DBusError :=
  setError notPresentName "%s property %s not set" [path, property]

/-- The error is the one that is ignored. -/
def isNotPresent (error : Option DBusError) : Bool :=
  error.any fun error => error.name = notPresentName

def dictSignature : Signature := 'a' :: dictEntrySignature

/-- `ni_dbus_type_as_string` knows the type. -/
def isBasicType (type : Char) : Bool :=
  type ∈ ['y', 'b', 'n', 'q', 'i', 'u', 'x', 't', 'd', 's', 'o']

/-- `ni_dbus_variant_init_signature` has a type for the signature. -/
def canInitSignature : Signature → Bool
  | [] => false
  | [type] => isBasicType type
  | type :: _ => type = 'a'

/-- `__ni_dbus_object_get_one_property`, with the `get` function of the property. -/
def getOneProperty (handlers : Handlers Object Accessor) (object : Object)
    (property : Property Accessor) (get : Accessor) : Except (Option DBusError) Marshal.Variant :=
  if property.signature.any fun signature => !canInitSignature signature then .error none
  else
    match handlers.get get property object with
    | .ok value => .ok value
    | .error error =>
      .error (some (error.getD (propertyNotPresent (handlers.path object) property.name)))

/-- The `get_handle` function of a property that was not present, if it returns `NULL`. -/
def rememberFailed (handlers : Handlers Object Accessor) (object : Object)
    (getHandle : Option HandleFn) : Option HandleFn :=
  getHandle.filter fun fn => (handlers.getHandle fn object).toOption.isNone

/-- The table of the children, for a dictionary that has one. -/
def Property.childTable (property : Property Accessor) : Option (List (Property Accessor)) :=
  if property.signature = some dictSignature then property.dictChildren else none

/-- What the loop of `__ni_dbus_object_get_properties_as_dict` does for a property that is no
dictionary of children, with the `get_handle` function that failed last. -/
def addProperty (handlers : Handlers Object Accessor) (object : Object)
    (getHandleFailed : Option HandleFn) (dict : List (CString × Marshal.Variant))
    (property : Property Accessor) :
    Except (Option DBusError) (Option HandleFn × List (CString × Marshal.Variant)) :=
  match property.signature, property.get with
  | some _, some get =>
    if property.getHandle.isSome ∧ property.getHandle = getHandleFailed then
      .ok (getHandleFailed, dict)
    else
      match getOneProperty handlers object property get with
      | .ok value => .ok (none, dict ++ [(property.name, value)])
      | .error error =>
        if isNotPresent error then
          .ok (rememberFailed handlers object property.getHandle, dict)
        else .error error
  | _, _ => .ok (getHandleFailed, dict)

mutual

/-- One property in the loop of `__ni_dbus_object_get_properties_as_dict`. A dictionary without
entries is left out. -/
def getPropertyFrom (handlers : Handlers Object Accessor) (object : Object)
    (getHandleFailed : Option HandleFn) (dict : List (CString × Marshal.Variant)) :
    Property Accessor →
      Except (Option DBusError) (Option HandleFn × List (CString × Marshal.Variant))
  | ⟨name, signature, getHandle, offset, some childProperties, get, set⟩ =>
    if signature = some dictSignature then do
      let temp ← getPropertiesFrom handlers object none [] childProperties
      return (getHandleFailed, if temp.isEmpty then dict else dict ++ [(name, .dict temp)])
    else
      addProperty handlers object getHandleFailed dict
        ⟨name, signature, getHandle, offset, some childProperties, get, set⟩
  | ⟨name, signature, getHandle, offset, none, get, set⟩ =>
    addProperty handlers object getHandleFailed dict
      ⟨name, signature, getHandle, offset, none, get, set⟩

/-- The loop of `__ni_dbus_object_get_properties_as_dict`. -/
def getPropertiesFrom (handlers : Handlers Object Accessor) (object : Object)
    (getHandleFailed : Option HandleFn) (dict : List (CString × Marshal.Variant)) :
    List (Property Accessor) → Except (Option DBusError) (List (CString × Marshal.Variant))
  | [] => .ok dict
  | property :: rest => do
    let (getHandleFailed, dict) ← getPropertyFrom handlers object getHandleFailed dict property
    getPropertiesFrom handlers object getHandleFailed dict rest

end

/-- `__ni_dbus_object_get_properties_as_dict`, which adds to a dictionary. -/
def getPropertiesAsDict (handlers : Handlers Object Accessor) (object : Object)
    (properties : List (Property Accessor)) (dict : List (CString × Marshal.Variant)) :
    Except (Option DBusError) (List (CString × Marshal.Variant)) :=
  getPropertiesFrom handlers object none dict properties

section Evaluate

variable (handlers : Handlers Object Accessor) (object : Object)

/-- A property on its own: its value, or nothing if it is not present. -/
def evaluateLeaf (property : Property Accessor) : Except (Option DBusError) (Option Marshal.Variant) :=
  match property.signature, property.get with
  | some _, some get =>
    match getOneProperty handlers object property get with
    | .ok value => .ok (some value)
    | .error error => if isNotPresent error then .ok none else .error error
  | _, _ => .ok none

mutual

/-- A property on its own: its value, or nothing if it is not present or an empty dictionary. -/
def evaluate : Property Accessor → Except (Option DBusError) (Option Marshal.Variant)
  | ⟨name, signature, getHandle, offset, some childProperties, get, set⟩ =>
    if signature = some dictSignature then do
      let temp ← evaluateAll childProperties
      return if temp.isEmpty then none else some (.dict temp)
    else
      evaluateLeaf handlers object
        ⟨name, signature, getHandle, offset, some childProperties, get, set⟩
  | ⟨name, signature, getHandle, offset, none, get, set⟩ =>
    evaluateLeaf handlers object ⟨name, signature, getHandle, offset, none, get, set⟩

/-- Each property of a table on its own, and those that are present in a dictionary. -/
def evaluateAll : List (Property Accessor) → Except (Option DBusError) (List (CString × Marshal.Variant))
  | [] => .ok []
  | property :: rest => do
    let value ← evaluate property
    let others ← evaluateAll rest
    return (value.map fun value => (property.name, value)).toList ++ others

end

end Evaluate

section Tables

@[elab_as_elim]
theorem Property.induct {motive : List (Property Accessor) → Prop} (nil : motive [])
    (cons : ∀ property rest, (∀ children, property.childTable = some children → motive children) →
      motive rest → motive (property :: rest))
    (properties : List (Property Accessor)) : motive properties := by
  refine @Property.rec_2 Accessor (fun property => ∀ children, property.childTable = some children → motive children)
    (fun table => ∀ children, table = some children → motive children) motive ?_
    (fun _ same => nomatch same) (fun table here children same => Option.some.inj same ▸ here)
    nil (fun property rest here later => cons property rest here later) properties
  intro name signature getHandle offset dictChildren get set here children table
  refine here children ?_
  unfold Property.childTable at table
  split at table
  · exact table
  · cases table

/-- A property of a table, or of the table of one of its dictionaries. -/
inductive Within : List (Property Accessor) → Property Accessor → Prop
  | here {properties : List (Property Accessor)} {property : Property Accessor}
    (member : property ∈ properties) : Within properties property
  | inside {properties children : List (Property Accessor)} {dict property : Property Accessor}
    (member : dict ∈ properties) (table : dict.childTable = some children)
    (within : Within children property) : Within properties property

variable (handlers : Handlers Object Accessor) (object : Object)

theorem getPropertyFrom_eq (getHandleFailed : Option HandleFn)
    (dict : List (CString × Marshal.Variant)) (property : Property Accessor) :
    getPropertyFrom handlers object getHandleFailed dict property =
      match property.childTable with
      | some children => do
        let temp ← getPropertiesFrom handlers object none [] children
        return (getHandleFailed, if temp.isEmpty then dict else dict ++ [(property.name, .dict temp)])
      | none => addProperty handlers object getHandleFailed dict property := by
  obtain ⟨name, signature, getHandle, offset, dictChildren, get, set⟩ := property
  unfold Property.childTable
  cases dictChildren with
  | none => simp [getPropertyFrom]
  | some children =>
    by_cases dictionary : signature = some dictSignature <;> simp [getPropertyFrom, dictionary]

theorem evaluate_eq (property : Property Accessor) :
    evaluate handlers object property =
      match property.childTable with
      | some children => do
        let temp ← evaluateAll handlers object children
        return if temp.isEmpty then none else some (.dict temp)
      | none => evaluateLeaf handlers object property := by
  obtain ⟨name, signature, getHandle, offset, dictChildren, get, set⟩ := property
  unfold Property.childTable
  cases dictChildren with
  | none => simp [evaluate]
  | some children =>
    by_cases dictionary : signature = some dictSignature <;> simp [evaluate, dictionary]

end Tables

section Shortcut

variable {handlers : Handlers Object Accessor} {object : Object}

/-- The `get_handle` function returns `NULL` for the object. -/
def NoHandle (handlers : Handlers Object Accessor) (object : Object) (fn : HandleFn) : Prop :=
  (handlers.getHandle fn object).toOption = none

/-- No property of the table is present when its `get_handle` function returns `NULL`. -/
def AbsentWithoutHandle (handlers : Handlers Object Accessor) (object : Object)
    (properties : List (Property Accessor)) : Prop :=
  ∀ property, Within properties property → property.childTable = none →
    ∀ fn, property.getHandle = some fn → NoHandle handlers object fn →
      evaluate handlers object property = .ok none

theorem nothing_remembered (fn : HandleFn) (same : none = some fn) : NoHandle handlers object fn := nomatch same

theorem rememberFailed_noHandle (failed : rememberFailed handlers object getHandle = some fn) : NoHandle handlers object fn := by
  obtain ⟨_, nothing⟩ := Option.filter_eq_some_iff.mp failed
  exact Option.isNone_iff_eq_none.mp nothing

/-- The shortcut leaves out only what is not present, and remembers only functions that return
`NULL`. -/
theorem addProperty_eq (leaf : property.childTable = none)
    (absent : ∀ fn, property.getHandle = some fn → NoHandle handlers object fn →
      evaluate handlers object property = .ok none)
    (remembered : ∀ fn, getHandleFailed = some fn → NoHandle handlers object fn)
    (dict : List (CString × Marshal.Variant)) :
    ∃ next, (∀ fn, next = some fn → NoHandle handlers object fn) ∧
      addProperty handlers object getHandleFailed dict property =
        (evaluate handlers object property).map fun value =>
          (next, dict ++ (value.map fun value => (property.name, value)).toList) := by
  have own : evaluate handlers object property = evaluateLeaf handlers object property := by
    rw [evaluate_eq, leaf]
  unfold addProperty
  split
  next signature get typed readable =>
    split
    next skipped =>
      obtain ⟨fn, here⟩ := Option.isSome_iff_exists.mp skipped.1
      rw [absent fn here (remembered fn (skipped.2.symm.trans here))]
      exact ⟨getHandleFailed, remembered, by simp [Except.map]⟩
    next =>
      rw [own, evaluateLeaf]
      simp only [typed, readable]
      cases getOneProperty handlers object property get with
      | ok value => exact ⟨none, nofun, rfl⟩
      | error error =>
        refine ⟨rememberFailed handlers object property.getHandle, fun fn => rememberFailed_noHandle, ?_⟩
        cases ignored : isNotPresent error <;> simp [Except.map, ignored]
  next other =>
    have nothing : evaluateLeaf handlers object property = .ok none := by
      unfold evaluateLeaf
      split
      next signature get typed readable => exact absurd readable (other _ _ typed)
      next => rfl
    rw [own, nothing]
    exact ⟨getHandleFailed, remembered, by simp [Except.map]⟩

theorem AbsentWithoutHandle.tail {rest : List (Property Accessor)}
    (absent : AbsentWithoutHandle handlers object (property :: rest)) :
    AbsentWithoutHandle handlers object rest := by
  intro other within
  refine absent other ?_
  cases within with
  | here member => exact .here (List.mem_cons_of_mem _ member)
  | inside member table within => exact .inside (List.mem_cons_of_mem _ member) table within

/-- The loop makes what the properties are on their own, with the same failure. -/
theorem getPropertiesFrom_eq
    (absent : AbsentWithoutHandle handlers object properties)
    (remembered : ∀ fn, getHandleFailed = some fn → NoHandle handlers object fn)
    (dict : List (CString × Marshal.Variant)) :
    getPropertiesFrom handlers object getHandleFailed dict properties =
      (evaluateAll handlers object properties).map (dict ++ ·) := by
  induction properties using Property.induct generalizing getHandleFailed dict with
  | nil => simp [getPropertiesFrom, evaluateAll, Except.map]
  | cons property rest ih later =>
    rw [getPropertiesFrom, evaluateAll]
    cases table : property.childTable with
    | some children =>
      have inner : getPropertiesFrom handlers object none [] children =
          evaluateAll handlers object children := by
        rw [ih children table (fun other within =>
          absent other (.inside List.mem_cons_self table within)) nothing_remembered]
        cases evaluateAll handlers object children <;> rfl
      simp only [getPropertyFrom_eq, evaluate_eq, table, inner]
      cases evaluateAll handlers object children with
      | error error => rfl
      | ok temp =>
        have next := later absent.tail remembered (if temp.isEmpty then dict else dict ++ [(property.name, .dict temp)])
        simp only [bind, Except.bind, pure, Except.pure, next]
        cases evaluateAll handlers object rest with
        | error error => rfl
        | ok others => by_cases empty : temp.isEmpty <;> simp [Except.map, empty]
    | none =>
      obtain ⟨next, remembered, step⟩ := addProperty_eq table
        (absent property (.here List.mem_cons_self) table) remembered dict
      simp only [getPropertyFrom_eq, table, step]
      cases evaluate handlers object property with
      | error error => rfl
      | ok value =>
        simp only [bind, Except.bind, Except.map, later absent.tail remembered]
        cases evaluateAll handlers object rest <;> simp [pure, Except.pure]

/-- A property that is no dictionary of children fails on its own, for another reason than that it
is not present. -/
def Fails (handlers : Handlers Object Accessor) (object : Object)
    (property : Property Accessor) : Prop :=
  property.childTable = none ∧ ∃ error, evaluate handlers object property = .error error

theorem within_cons {property other : Property Accessor} {rest : List (Property Accessor)} :
    Within (property :: rest) other ↔ other = property ∨
      (∃ children, property.childTable = some children ∧ Within children other) ∨
        Within rest other := by
  constructor
  · intro within
    cases within with
    | here member =>
      rcases List.mem_cons.mp member with same | later
      · exact .inl same
      · exact .inr (.inr (.here later))
    | inside member table within =>
      rcases List.mem_cons.mp member with rfl | later
      · exact .inr (.inl ⟨_, table, within⟩)
      · exact .inr (.inr (.inside later table within))
  · rintro (rfl | ⟨children, table, within⟩ | within)
    · exact .here List.mem_cons_self
    · exact .inside List.mem_cons_self table within
    · cases within with
      | here member => exact .here (List.mem_cons_of_mem _ member)
      | inside member table within => exact .inside (List.mem_cons_of_mem _ member) table within

theorem evaluateAll_cons_error (property : Property Accessor) (rest : List (Property Accessor)) :
    (∃ error, evaluateAll handlers object (property :: rest) = .error error) ↔
      (∃ error, evaluate handlers object property = .error error) ∨
        ∃ error, evaluateAll handlers object rest = .error error := by
  rw [evaluateAll]
  cases evaluate handlers object property <;> cases evaluateAll handlers object rest <;>
    simp [bind, Except.bind, pure, Except.pure]

/-- The evaluation of a table fails exactly if some property in it fails. -/
theorem evaluateAll_error (properties : List (Property Accessor)) :
    (∃ error, evaluateAll handlers object properties = .error error) ↔
      ∃ property, Within properties property ∧ Fails handlers object property := by
  induction properties using Property.induct with
  | nil =>
    simp only [evaluateAll, reduceCtorEq, exists_false, false_iff]
    rintro ⟨property, within, _⟩
    cases within with
    | here member => cases member
    | inside member => cases member
  | cons property rest ih later =>
    rw [evaluateAll_cons_error, later]
    simp only [within_cons, or_and_right, exists_or, exists_eq_left]
    cases table : property.childTable with
    | some children =>
      have own : (∃ error, evaluate handlers object property = .error error) ↔
          ∃ error, evaluateAll handlers object children = .error error := by
        simp only [evaluate_eq, table]
        cases evaluateAll handlers object children <;> simp [bind, Except.bind, pure, Except.pure]
      rw [own, ih children table]
      simp [Fails, table]
    | none => simp [Fails, table]

/-- Where no property is present without its handle, the dictionary has the properties that are
present on their own, and the call fails exactly if one of them fails for another reason. -/
theorem getPropertiesAsDict_eq (properties : List (Property Accessor))
    (absent : AbsentWithoutHandle handlers object properties)
    (dict : List (CString × Marshal.Variant)) :
    getPropertiesAsDict handlers object properties dict =
        (evaluateAll handlers object properties).map (dict ++ ·) ∧
      ((∃ error, getPropertiesAsDict handlers object properties dict = .error error) ↔
        ∃ property, Within properties property ∧ Fails handlers object property) := by
  have same : getPropertiesAsDict handlers object properties dict =
      (evaluateAll handlers object properties).map (dict ++ ·) :=
    getPropertiesFrom_eq absent nothing_remembered dict
  refine ⟨same, ?_⟩
  rw [← evaluateAll_error, same]
  cases evaluateAll handlers object properties <;> simp [Except.map]

end Shortcut

section Generic

/-- `ni_dbus_generic_property_read_handle`, for the function and the name of a property. -/
def readHandle (path : CString) (getHandle : Except (Option DBusError) Nat) (name : CString) :
    Except (Option DBusError) Nat :=
  match getHandle with
  | .ok handle => .ok handle
  | .error error => .error (some (error.getD (propertyNotPresent path name)))

variable {handlers : Handlers Object Accessor} {object : Object}

/-- Properties that begin with `ni_dbus_generic_property_read_handle` are not present without their
handle, if the `get_handle` functions set no other error. -/
theorem absentWithoutHandle_of_generic (typed : ∀ property, Within properties property → property.signature.all canInitSignature)
    (generic : ∀ property, Within properties property → ∀ fn, property.getHandle = some fn →
      ∀ error, readHandle (handlers.path object) (handlers.getHandle fn object) property.name =
        .error error → ∀ get, handlers.get get property object = .error error)
    (silent : ∀ fn error, handlers.getHandle fn object = .error (some error) → error.name = notPresentName) :
    AbsentWithoutHandle handlers object properties := by
  intro property within leaf fn owner nothing
  rw [evaluate_eq, leaf]
  simp only [evaluateLeaf]
  cases signature : property.signature with
  | none => rfl
  | some signature =>
    cases readable : property.get with
    | none => rfl
    | some get =>
      have known := typed property within
      cases called : handlers.getHandle fn object with
      | ok handle => simp [NoHandle, called, Except.toOption] at nothing
      | error error =>
        have failed := generic property within fn owner _ (by rw [called]; rfl) get
        simp only [signature, Option.all_some] at known
        have absent : isNotPresent (some (error.getD
            (propertyNotPresent (handlers.path object) property.name))) = true := by
          cases error with
          | none => simp [isNotPresent, propertyNotPresent, setError]
          | some error => simpa [isNotPresent] using silent fn error called
        simp [getOneProperty, signature, known, failed, absent]

end Generic

/-! ## An object without one of its handles -/

/-- An object has the values behind some of its handles. -/
def sampleHandlers : Handlers (HandleFn → Option Marshal.Variant) Unit where
  path _ := ascii ['/', 'h']
  getHandle fn object := if (object fn).isSome then .ok fn else .error none
  get _ property object :=
    match property.getHandle.bind object with
    | some value => .ok value
    | none => .error (some (propertyNotPresent (ascii ['/', 'h']) property.name))

/-- The last of these has the handle that there is. -/
def sampleTable : List (Property Unit) :=
  [{ name := ascii ['a'], signature := some ['s'], getHandle := some 0, get := some () },
    { name := ascii ['b'], signature := some ['s'], getHandle := some 0, get := some () },
    { name := ascii ['c'], signature := some ['s'], getHandle := some 1, get := some () }]

def sampleObject (fn : HandleFn) : Option Marshal.Variant :=
  if fn = 1 then some (.string (some [])) else none

/-- The second property is skipped, and the third one is there. -/
theorem getPropertiesAsDict_sample :
    getPropertiesAsDict sampleHandlers sampleObject sampleTable [] =
        (evaluateAll sampleHandlers sampleObject sampleTable).map ([] ++ ·) ∧
      ((∃ error, getPropertiesAsDict sampleHandlers sampleObject sampleTable [] = .error error) ↔
        ∃ property, Within sampleTable property ∧
          Fails sampleHandlers sampleObject property) := by
  refine getPropertiesAsDict_eq sampleTable ?_ []
  intro property within leaf fn owner nothing
  have leaves : ∀ property ∈ sampleTable, property.childTable = none := by
    simp [sampleTable, Property.childTable]
  cases within with
  | inside member table => simp [leaves _ member] at table
  | here member =>
    simp only [sampleTable, List.mem_cons, List.not_mem_nil, or_false] at member
    rcases member with rfl | rfl | rfl
    · rfl
    · rfl
    · cases owner
      simp [NoHandle, sampleHandlers, sampleObject, Except.toOption] at nothing

example : getPropertiesAsDict sampleHandlers sampleObject sampleTable [] =
    .ok [(ascii ['c'], .string (some []))] := rfl

end Testbus.Dbus.Properties
