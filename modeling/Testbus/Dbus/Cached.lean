import Testbus.Dbus.Decoding
import Testbus.Dbus.Overloads
import Testbus.Dbus.Properties
import Testbus.Lib.Machine

namespace Testbus.Dbus.Cached

open Lib Marshal Properties Decoding

/-- The address of a `ni_dbus_service_t`. -/
abbrev ServiceId := Nat

abbrev Class := Overloads.Class

/-- The services that a client knows. -/
structure Services (Accessor : Type) where
  properties : ServiceId → Option (List (Property Accessor))
  compatible : ServiceId → Option Class := fun _ => none
  /-- `ni_dbus_anonymous_class`. -/
  anonymous : Class

/-- What is in the datum of a cached property, unless its value could not be read. -/
abbrev Datum := Option Marshal.Variant

/-- A proxy object without a handle. The cached properties are a dictionary for each service. -/
structure Object where
  class_ : Option Class
  interfaces : List ServiceId := []
  cached : List (ServiceId × List (CString × Datum)) := []

def dot : UInt8 := 0x2e

/-- The names between the dots. -/
def components (path : CString) : List CString := path.splitOn dot

def getProperty (table : Option (List (Property Accessor))) (name : CString) :
    Option (Property Accessor) := do
  let table ← table
  table.find? fun property => property.name = name

/-- The loop of `ni_dbus_service_create_property`. -/
def propertyAt (table : Option (List (Property Accessor))) : List CString → Option (Property Accessor)
  | [] => none
  | [name] => getProperty table name
  | name :: next :: rest => do
    let property ← getProperty table name
    propertyAt property.childTable (next :: rest)

def lookupProperty (services : Services Accessor) (service : ServiceId) (path : CString) :
    Option (Property Accessor) :=
  propertyAt (services.properties service) (components path)

def getServiceForProperty (services : Services Accessor) (object : Object) (name : CString) :
    Option ServiceId :=
  object.interfaces.find? fun service => (getProperty (services.properties service) name).isSome

def getPropertyDef (services : Services Accessor) (object : Object) (path : CString)
    (service : Option ServiceId) : Option (ServiceId × Property Accessor) := do
  let service ← service <|>
    getServiceForProperty services object (path.takeWhile fun c => c ≠ dot)
  let property ← lookupProperty services service path
  return (service, property)

def dictGet (dict : List (CString × Datum)) (key : CString) : Option Datum :=
  (dict.find? fun entry => entry.1 = key).map Prod.snd

/-- The datum under a key of the dictionary of a service. -/
def slot (cached : List (ServiceId × List (CString × Datum))) (service : ServiceId)
    (key : CString) : Option Datum := do
  let objprops ← cached.find? fun objprops => objprops.1 = service
  dictGet objprops.2 key

def getCachedProperty (services : Services Accessor) (object : Object) (path : CString)
    (service : Option ServiceId) : Option Datum :=
  if object.cached.isEmpty then none
  else do
    let (service, property) ← getPropertyDef services object path service
    slot object.cached service property.name

/-- `ni_dbus_dict_add` to the dictionary of a service. -/
def addToDict (service : ServiceId) (key : CString) (datum : Datum) :
    List (ServiceId × List (CString × Datum)) → List (ServiceId × List (CString × Datum))
  | [] => [(service, [(key, datum)])]
  | (other, dict) :: rest =>
    if other = service then (other, dict ++ [(key, datum)]) :: rest
    else (other, dict) :: addToDict service key datum rest

/-- A property as it arrives, with its value in a variant. -/
structure Received where
  service : ServiceId
  name : CString
  item : Item

def getVariant : Item → Option Marshal.Variant
  | .variant value => Decoding.getVariantData value
  | _ => none

/-- `__ni_dbus_object_add_cached_property`, and reading the value. -/
def addCachedProperty (services : Services Accessor)
    (cached : List (ServiceId × List (CString × Datum))) (received : Received) :
    List (ServiceId × List (CString × Datum)) :=
  match lookupProperty services received.service received.name with
  | none => cached
  | some property =>
    addToDict received.service property.name (getVariant received.item) cached

/-- The properties of a service in a reply. It is `none` if it is no dictionary with strings for
keys. -/
abbrev Reply := Option (List (CString × Item))

def received (service : ServiceId) (reply : Reply) : List Received :=
  (reply.getD []).map fun (name, item) => { service, name, item }

def refreshProperties (services : Services Accessor) (object : Object) (service : ServiceId)
    (reply : Reply) : Object :=
  { object with cached := (received service reply).foldl (addCachedProperty services) object.cached }

/-- What the class of an object becomes with an interface, unless that is not compatible. -/
def specialize (services : Services Accessor) (object : Object) (service : ServiceId) : Option Object :=
  match services.compatible service with
  | none => some object
  | some compatible =>
    if object.class_ = some services.anonymous then some { object with class_ := some compatible }
    else if Overloads.isSubclass object.class_ (some compatible) then some object
    else if compatible.isSubclassOf object.class_ then some { object with class_ := some compatible }
    else none

/-- `ni_dbus_object_register_service` for a compatible one. -/
def registerService (object : Object) (service : ServiceId) : Object :=
  if service ∈ object.interfaces then object
  else { object with interfaces := object.interfaces ++ [service] }

/-- `__ni_dbus_object_get_managed_object_interfaces`. An unknown service is `none`. -/
def getManagedObjectInterfaces (services : Services Accessor) (object : Object) :
    List (Option ServiceId × Reply) → Object
  | [] => object
  | (none, _) :: rest => getManagedObjectInterfaces services object rest
  | (some service, reply) :: rest =>
    match specialize services object service with
    | none => getManagedObjectInterfaces services object rest
    | some object =>
      let object := refreshProperties services (registerService object service) service reply
      if reply.isNone then object else getManagedObjectInterfaces services object rest

inductive Input
  /-- A reply to `Properties.GetAll`. -/
  | getAll (service : ServiceId) (reply : Reply)
  /-- What a reply to `ObjectManager.GetManagedObjects` has for the object, whose class may be the
  item class of its parent's. It is `none` if it is no dictionary of interfaces. -/
  | getManagedObjects (itemClass : Option Class)
      (interfaces : Option (List (Option ServiceId × Reply)))

/-- An anonymous object takes the item class of its parent's. -/
def adoptClass (services : Services Accessor) (object : Object) (itemClass : Option Class) : Object :=
  if object.class_ = some services.anonymous then
    { object with class_ := itemClass <|> object.class_ }
  else object

/-- `__ni_dbus_object_drop_cached_propeties`. -/
def dropCachedProperties (object : Object) : Object := { object with cached := [] }

/-- Both drop the cached properties of all services. -/
def refresh (services : Services Accessor) (object : Object) : Input → Object
  | .getAll service reply =>
    refreshProperties services (dropCachedProperties object) service reply
  | .getManagedObjects itemClass interfaces =>
    getManagedObjectInterfaces services
      (dropCachedProperties (adoptClass services object itemClass)) (interfaces.getD [])

def step (services : Services Accessor) (object : Object) (input : Input) : Except Machine.Disabled Object :=
  .ok (refresh services object input)

/-- The properties of known services that a refresh brings. -/
def Input.received : Input → List Received
  | .getAll service reply => Cached.received service reply
  | .getManagedObjects _ interfaces => (interfaces.getD []).flatMap fun (service, reply) =>
    match service with
    | none => []
    | some service => Cached.received service reply

/-- What a value has at a path into its dictionaries; what comes later counts. -/
def valueAt (value : Item) : List CString → Option Item
  | [] => some value
  | name :: rest =>
    match value with
    | .array _ elements => do
      let inner ← elements.reverse.findSome? fun
        | .dictEntry (.string key) (.variant inner) => if key = name then some inner else none
        | _ => none
      valueAt inner rest
    | _ => none

/-- What a property that was received has at a path. -/
def Received.valueAt (received : Received) (path : CString) : Option Item :=
  match received.item with
  | .variant value =>
    if components received.name <+: components path then
      Cached.valueAt value ((components path).drop (components received.name).length)
    else none
  | _ => none

/-- The value that was received last for a path of a service. -/
def lastReceived (history : List Received) (service : ServiceId) (path : CString) : Option Item :=
  history.reverse.findSome? fun received =>
    if received.service = service then received.valueAt path else none

/-- For every path of every service, what is cached is the value that was received last. -/
def Latest (services : Services Accessor) (history : List Received) (object : Object) : Prop :=
  ∀ service path, (lookupProperty services service path).isSome →
    match lastReceived history service path with
    | none => getCachedProperty services object path (some service) = none
    | some item => ∃ value, decode item = some value ∧
      getCachedProperty services object path (some service) = some (some value)

theorem dictGet_append (dict : List (CString × Datum)) (key name : CString) (datum : Datum) :
    dictGet (dict ++ [(key, datum)]) name =
      if name = key then (dictGet dict name).or (some datum) else dictGet dict name := by
  rw [dictGet, List.find?_append, dictGet]
  by_cases named : key = name
  · cases dict.find? fun entry => entry.1 = name <;> simp [named]
  · cases dict.find? fun entry => entry.1 = name <;> simp [named, Ne.symm named]

@[simp] theorem slot_cons (first service : ServiceId) (dict : List (CString × Datum)) (key : CString) :
    slot ((first, dict) :: cached) service key =
      if first = service then dictGet dict key else slot cached service key := by
  by_cases here : first = service <;> simp [slot, here]

theorem slot_addToDict (service other : ServiceId) (key name : CString) (datum : Datum) :
    slot (addToDict service key datum cached) other name =
      if other = service ∧ name = key then (slot cached other name).or (some datum)
      else slot cached other name := by
  induction cached with
  | nil =>
    by_cases same : service = other
    · by_cases named : key = name
      · simp [slot, addToDict, dictGet, same, named]
      · simp [slot, addToDict, dictGet, same, named, Ne.symm named]
    · simp [slot, addToDict, same, Ne.symm same]
  | cons objprops rest ih =>
    obtain ⟨first, dict⟩ := objprops
    by_cases same : first = service
    · subst same
      rw [addToDict, if_pos rfl, slot_cons, slot_cons, dictGet_append]
      by_cases here : first = other
      · simp [here]
      · simp [here, Ne.symm here]
    · rw [addToDict, if_neg same, slot_cons, slot_cons, ih]
      by_cases here : first = other
      · subst here
        simp [same]
      · simp [here]

/-- What a property that arrives puts under a key. -/
def Received.stored (services : Services Accessor) (service : ServiceId) (key : CString)
    (received : Received) : Option Datum :=
  if received.service = service ∧
      (lookupProperty services received.service received.name).map Property.name = some key then
    some (getVariant received.item)
  else none

/-- Of several values for a key the first one is found. -/
theorem slot_foldl (list : List Received) (service : ServiceId) (key : CString) :
    slot (list.foldl (addCachedProperty services) cached) service key =
      (slot cached service key).or (list.findSome? (Received.stored services service key)) := by
  induction list generalizing cached with
  | nil => simp
  | cons received rest ih =>
    rw [List.foldl_cons, ih, List.findSome?_cons]
    unfold addCachedProperty
    split
    · rename_i unknown
      simp [Received.stored, unknown]
    · rename_i property known
      rw [slot_addToDict]
      by_cases here : service = received.service ∧ key = property.name
      · obtain ⟨rfl, rfl⟩ := here
        simp only [Received.stored, known, Option.map_some, and_self, if_true]
        cases slot cached received.service property.name <;> rfl
      · have elsewhere : received.stored services service key = none := by
          rw [Received.stored, if_neg]
          rintro ⟨rfl, named⟩
          rw [known, Option.map_some, Option.some.injEq] at named
          exact here ⟨rfl, named.symm⟩
        rw [if_neg here, elsewhere]

section Conditions

variable (services : Services Accessor)

/-- The value of a property can be read, it is no dictionary with properties of its own, and no
other path of the service ends in the name of the property. -/
def Direct (received : Received) : Prop :=
  ∀ property, lookupProperty services received.service received.name = some property →
    ∃ value, received.item = .variant value ∧ Readable value ∧
      (∀ table, property.childTable = some table →
        ∀ child ∈ table, valueAt value [child.name] = none) ∧
      ∀ path other, lookupProperty services received.service path = some other →
        other.name = property.name → path = received.name

/-- No interface is left out: each is compatible with the object, and its properties are a
dictionary. -/
def Accepts (object : Object) : List (Option ServiceId × Reply) → Prop
  | [] => True
  | (none, _) :: rest => Accepts object rest
  | (some service, reply) :: rest =>
    match specialize services object service with
    | none => False
    | some object => reply.isSome ∧
      Accepts (refreshProperties services (registerService object service) service reply) rest

def Whole (object : Object) : Input → Prop
  | .getAll _ reply => reply.isSome
  | .getManagedObjects itemClass interfaces => interfaces.isSome ∧ Accepts services
      (dropCachedProperties (adoptClass services object itemClass)) (interfaces.getD [])

/-- A refresh brings all that is cached again, and each property once. -/
structure Kept (object : Object) (input : Input) : Prop where
  whole : Whole services object input
  direct : ∀ received ∈ input.received, Direct services received
  once : ((input.received.filter fun received =>
      (lookupProperty services received.service received.name).isSome).map fun received =>
    (received.service, received.name)).Nodup
  again : ∀ service key, (slot object.cached service key).isSome →
    ∃ received ∈ input.received, (received.stored services service key).isSome

end Conditions

section Runs

variable {object object' : Object} {input : Input} {path name key : CString}

theorem cached_getManagedObjectInterfaces (accepted : Accepts services object interfaces) :
    (getManagedObjectInterfaces services object interfaces).cached =
      (Input.received (.getManagedObjects none (some interfaces))).foldl (addCachedProperty services) object.cached := by
  induction interfaces generalizing object with
  | nil => rfl
  | cons first rest ih =>
    obtain ⟨service, reply⟩ := first
    cases service with
    | none => exact ih accepted
    | some service =>
      simp only [Accepts] at accepted
      simp only [getManagedObjectInterfaces]
      split at accepted
      · exact accepted.elim
      · rename_i special compatible
        obtain ⟨present, accepted⟩ := accepted
        have same : special.cached = object.cached := by
          unfold specialize at compatible
          grind
        have registered : (registerService special service).cached = object.cached := by
          rw [← same]
          unfold registerService
          split <;> rfl
        obtain ⟨entries, rfl⟩ := Option.isSome_iff_exists.mp present
        simp only [Option.isNone_some, Bool.false_eq_true, if_false]
        rw [ih accepted]
        simp only [Input.received, Option.getD_some, List.flatMap_cons, List.foldl_append, refreshProperties, registered]

theorem cached_refresh (whole : Whole services object input) :
    (refresh services object input).cached = input.received.foldl (addCachedProperty services) [] := by
  cases input with
  | getAll service reply => rfl
  | getManagedObjects itemClass interfaces =>
    obtain ⟨present, accepted⟩ := whole
    obtain ⟨interfaces, rfl⟩ := Option.isSome_iff_exists.mp present
    exact cached_getManagedObjectInterfaces accepted

theorem slot_refresh (whole : Whole services object input) (service : ServiceId) (key : CString) :
    slot (refresh services object input).cached service key =
      input.received.findSome? (Received.stored services service key) := by
  rw [cached_refresh whole, slot_foldl]
  rfl

/-- What is cached, of what has been received. -/
structure Inv (services : Services Accessor) (history : List Received) (object : Object) :
    Prop where
  direct : ∀ received ∈ history, Direct services received
  last : ∀ service key datum, slot object.cached service key = some datum →
    ∃ received property, lookupProperty services service received.name = some property ∧
      property.name = key ∧ datum = getVariant received.item ∧
      history.reverse.find? (fun other => other.service = service ∧ other.name = received.name) =
        some received
  kept : ∀ received ∈ history, ∀ property,
    lookupProperty services received.service received.name = some property →
    (slot object.cached received.service property.name).isSome

theorem stored_isSome (received : Received) :
    (received.stored services service key).isSome ↔ received.service = service ∧
      (lookupProperty services received.service received.name).map Property.name = some key := by
  unfold Received.stored
  split
  · exact iff_of_true rfl ‹_›
  · exact iff_of_false (by simp) ‹_›

/-- Of the properties that a refresh brings, none is found in place of another. -/
theorem Kept.find (kept : Kept services object input) {received : Received} (member : received ∈ input.received)
    (known : (lookupProperty services received.service received.name).isSome) :
    input.received.reverse.find? (fun other =>
      other.service = received.service ∧ other.name = received.name) = some received := by
  cases found : input.received.reverse.find? (fun other =>
      other.service = received.service ∧ other.name = received.name) with
  | none =>
    have absent := List.find?_eq_none.mp found received (List.mem_reverse.mpr member)
    simp at absent
  | some other =>
    have named := List.find?_some found
    rw [decide_eq_true_eq] at named
    have inside := List.mem_reverse.mp (List.mem_of_find?_eq_some found)
    have only := List.inj_on_of_nodup_map kept.once
    have same := @only other (List.mem_filter.mpr ⟨inside, by rw [named.1, named.2]; exact known⟩)
      received (List.mem_filter.mpr ⟨member, known⟩) (Prod.ext named.1 named.2)
    rw [same]

theorem Inv.refresh (inv : Inv services history object) (kept : Kept services object input) :
    Inv services (history ++ input.received) (refresh services object input) where
  direct received member := (List.mem_append.mp member).elim (inv.direct received) (kept.direct received)
  last service key datum found := by
    rw [slot_refresh kept.whole] at found
    obtain ⟨received, member, stored⟩ := List.exists_of_findSome?_eq_some found
    have some_stored : (received.stored services service key).isSome := by rw [stored]; rfl
    obtain ⟨rfl, named⟩ := (stored_isSome received).mp some_stored
    obtain ⟨property, known, rfl⟩ := Option.map_eq_some_iff.mp named
    have same : getVariant received.item = datum := by
      rw [Received.stored, if_pos ⟨rfl, named⟩] at stored
      exact Option.some.inj stored
    refine ⟨received, property, known, rfl, same.symm, ?_⟩
    rw [List.reverse_append, List.find?_append, kept.find member (by rw [known]; rfl)]
    rfl
  kept received member property known := by
    rw [slot_refresh kept.whole, List.findSome?_isSome_iff]
    rcases List.mem_append.mp member with old | new
    · exact kept.again _ _ (inv.kept received old property known)
    · exact ⟨received, new, (stored_isSome received).mpr ⟨rfl, by rw [known]; rfl⟩⟩

end Runs

section Paths

variable {object object' : Object} {path : CString}

theorem components_inj (same : components path = components other) : path = other := by
  have joined := congrArg [dot].intercalate same
  rwa [components, components, List.intercalate_splitOn, List.intercalate_splitOn] at joined

/-- The way to a property leads through those of the dictionaries it is in. -/
theorem propertyAt_append (full : front ≠ []) (there : propertyAt table (front ++ rest) = some property) :
    ∃ upper, propertyAt table front = some upper ∧ (rest ≠ [] → propertyAt upper.childTable rest = some property) := by
  induction front generalizing table with
  | nil => exact absurd rfl full
  | cons name more ih =>
    cases more with
    | nil =>
      cases rest with
      | nil => exact ⟨property, there, fun more => absurd rfl more⟩
      | cons next rest =>
        obtain ⟨upper, found, below⟩ := Option.bind_eq_some_iff.mp there
        exact ⟨upper, found, fun _ => below⟩
    | cons next more =>
      obtain ⟨upper, found, below⟩ := Option.bind_eq_some_iff.mp there
      obtain ⟨inner, found', below'⟩ := ih (List.cons_ne_nil next more) below
      exact ⟨inner, Option.bind_eq_some_iff.mpr ⟨upper, found, found'⟩, below'⟩

theorem propertyAt_cons (there : propertyAt table (name :: rest) = some property) :
    ∃ list, table = some list ∧ ∃ child ∈ list, child.name = name := by
  obtain ⟨first, found, -⟩ := propertyAt_append (List.cons_ne_nil name []) there
  obtain ⟨list, rfl, found⟩ := Option.bind_eq_some_iff.mp found
  have named := List.find?_some found
  exact ⟨list, rfl, first, List.mem_of_find?_eq_some found, of_decide_eq_true named⟩

theorem valueAt_cons (there : valueAt value (name :: rest) = some item) : valueAt value [name] ≠ none := by
  cases value with
  | array elementSignature elements =>
    obtain ⟨inner, found, -⟩ := Option.bind_eq_some_iff.mp there
    intro none
    have below : valueAt (.array elementSignature elements) [name] = some inner :=
      Option.bind_eq_some_iff.mpr ⟨inner, found, rfl⟩
    rw [none] at below
    cases below
  | _ => cases there

/-- A property that is received has nothing at other paths. -/
theorem valueAt_isSome {received : Received} (direct : Direct services received)
    (here : lookupProperty services received.service path = some property) :
    (received.valueAt path).isSome ↔ received.name = path := by
  constructor
  · intro told
    obtain ⟨item, told⟩ := Option.isSome_iff_exists.mp told
    unfold Received.valueAt at told
    split at told
    · rename_i value given
      split at told
      · rename_i before
        obtain ⟨rest, whole⟩ := before
        rw [← whole, List.drop_left] at told
        rw [lookupProperty, ← whole] at here
        obtain ⟨upper, known, below⟩ := propertyAt_append (List.splitOn_ne_nil _ _) here
        obtain ⟨other, given', -, flat, -⟩ := direct upper known
        cases given.symm.trans given'
        cases rest with
        | nil =>
          rw [List.append_nil] at whole
          exact components_inj whole
        | cons name rest =>
          have inner := below (List.cons_ne_nil name rest)
          obtain ⟨list, table, child, member, rfl⟩ := propertyAt_cons inner
          exact absurd (flat list table child member) (valueAt_cons told)
      · cases told
    · cases told
  · rintro rfl
    obtain ⟨value, given, -⟩ := direct property here
    simp [Received.valueAt, given, valueAt]

theorem findSome?_eq_find? {α β : Type} {f : α → Option β} {p : α → Bool} {list : List α}
    (same : ∀ x ∈ list, (f x).isSome ↔ p x) : list.findSome? f = (list.find? p).bind f := by
  induction list with
  | nil => rfl
  | cons x rest ih =>
    rw [List.findSome?_cons, List.find?_cons]
    have here := same x List.mem_cons_self
    have later := ih fun other member => same other (List.mem_cons_of_mem _ member)
    cases found : f x with
    | none =>
      have unmet : p x = false := by
        rw [← Bool.not_eq_true, ← here, found]
        simp
      rw [unmet, later]
    | some value =>
      have met : p x := here.mp (by rw [found]; rfl)
      rw [met, Option.bind_some, found]

theorem getCachedProperty_eq (known : lookupProperty services service path = some property) :
    getCachedProperty services object path (some service) = slot object.cached service property.name := by
  unfold getCachedProperty
  split
  · rename_i empty
    rw [List.isEmpty_iff.mp empty]
    rfl
  · simp [getPropertyDef, known]

theorem Inv.latest (inv : Inv services history object) : Latest services history object := by
  intro service path resolved
  obtain ⟨property, known⟩ := Option.isSome_iff_exists.mp resolved
  rw [getCachedProperty_eq known]
  have last : lastReceived history service path =
      (history.reverse.find? fun received => received.service = service ∧ received.name = path).bind
        fun received => if received.service = service then received.valueAt path else none := by
    refine findSome?_eq_find? fun received member => ?_
    rw [decide_eq_true_eq]
    by_cases here : received.service = service
    · subst here
      simpa using valueAt_isSome (inv.direct received (List.mem_reverse.mp member)) known
    · simp [here]
  -- What is found under the name of the property was received with the path.
  have found : ∀ datum, slot object.cached service property.name = some datum →
      ∃ received ∈ history, received.name = path ∧ datum = getVariant received.item ∧
        history.reverse.find? (fun other => other.service = service ∧ other.name = path) =
          some received := by
    intro datum there
    obtain ⟨received, other, known', named, same, first⟩ := inv.last service _ datum there
    have member := List.mem_reverse.mp (List.mem_of_find?_eq_some first)
    have own : received.service = service := by
      have met := List.find?_some first
      rw [decide_eq_true_eq] at met
      exact met.1
    subst own
    obtain ⟨-, -, -, -, only⟩ := inv.direct received member other known'
    obtain rfl := only path property known named.symm
    exact ⟨received, member, rfl, same, first⟩
  cases first : history.reverse.find? fun received =>
      received.service = service ∧ received.name = path with
  | none =>
    rw [last, first]
    change slot object.cached service property.name = none
    by_contra full
    obtain ⟨datum, there⟩ := Option.ne_none_iff_exists'.mp full
    obtain ⟨received, -, -, -, first'⟩ := found datum there
    cases first.symm.trans first'
  | some received =>
    have member := List.mem_reverse.mp (List.mem_of_find?_eq_some first)
    have met := List.find?_some first
    rw [decide_eq_true_eq] at met
    obtain ⟨rfl, rfl⟩ := met
    obtain ⟨item, given, readable, -⟩ := inv.direct received member property known
    obtain ⟨value, decoded⟩ := Option.isSome_iff_exists.mp ((decode_isSome item).mpr readable)
    have told : received.valueAt received.name = some item := by
      simp [Received.valueAt, given, valueAt]
    rw [last, first, Option.bind_some, if_pos rfl, told]
    refine ⟨value, decoded, ?_⟩
    obtain ⟨datum, there⟩ := Option.isSome_iff_exists.mp (inv.kept received member property known)
    obtain ⟨other, -, -, same, first'⟩ := found datum there
    cases first.symm.trans first'
    rw [there, same, given, getVariant, getVariantData_of_decode item value decoded]

end Paths

section Refreshes

variable {services : Services Accessor} {object object' : Object}

theorem Inv.run (inv : Inv services history object)
    (along : Machine.Along (step services) (Kept services) object inputs)
    (ran : Machine.run (step services) object inputs = .ok object') :
    Inv services (history ++ inputs.flatMap Input.received) object' := by
  induction inputs generalizing history object with
  | nil =>
    cases ran
    simpa using inv
  | cons input rest ih =>
    have later := ih (inv.refresh along.1) (along.2 _ rfl) ran
    rwa [List.append_assoc] at later

/-- A refresh of one service that brings all that is cached finds nothing cached for others. -/
theorem Kept.others (kept : Kept services object (.getAll service reply)) (apart : other ≠ service) (path : CString) :
    getCachedProperty services (refresh services object (.getAll service reply)) path (some other) =
      getCachedProperty services object path (some other) := by
  have foreign : ∀ received ∈ Input.received (.getAll service reply), ∀ key,
      received.stored services other key = none := by
    intro received member key
    obtain ⟨entry, -, rfl⟩ := List.mem_map.mp member
    rw [Received.stored, if_neg]
    exact fun ⟨same, _⟩ => apart same.symm
  cases known : lookupProperty services other path with
  | none => simp [getCachedProperty, getPropertyDef, known]
  | some property =>
    rw [getCachedProperty_eq known, getCachedProperty_eq known, slot_refresh kept.whole]
    have before : slot object.cached other property.name = none := by
      by_contra full
      obtain ⟨received, member, stored⟩ := kept.again other property.name (Option.isSome_iff_ne_none.mpr full)
      rw [foreign received member] at stored
      cases stored
    rw [before, List.findSome?_eq_none_iff]
    exact fun received member => foreign received member _

/-- In a service without dictionaries of properties only the name of a property leads to it. -/
theorem lookupProperty_flat (here : services.properties service = some table)
    (flat : ∀ property ∈ table, property.childTable = none)
    (there : lookupProperty services service path = some property) : property.name = path := by
  rw [lookupProperty, here] at there
  cases names : components path with
  | nil => exact absurd names (List.splitOn_ne_nil _ _)
  | cons name rest =>
    rw [names] at there
    obtain ⟨upper, found, below⟩ := propertyAt_append (List.cons_ne_nil name []) there
    have member : upper ∈ table := List.mem_of_find?_eq_some found
    have named := List.find?_some found
    rw [decide_eq_true_eq] at named
    cases rest with
    | nil =>
      cases there.symm.trans found
      have joined := congrArg [dot].intercalate names
      rw [components, List.intercalate_splitOn] at joined
      rw [named, joined]
      simp [List.intercalate]
    | cons next rest =>
      have inner := below (List.cons_ne_nil next rest)
      obtain ⟨list, children, -⟩ := propertyAt_cons inner
      rw [flat upper member] at children
      cases children

/-- After refreshes that bring all that is cached again, each property once and none within another,
every cached property is the one that was received last, and refreshing one service leaves those of
the others alone. -/
theorem run_latest {inputs : List Input} (fresh : object.cached = [])
    (along : Machine.Along (step services) (Kept services) object inputs)
    (ran : Machine.run (step services) object inputs = .ok object') :
    Latest services (inputs.flatMap Input.received) object' ∧
    ∀ service reply, Kept services object' (.getAll service reply) →
      ∀ other ≠ service, ∀ path,
        getCachedProperty services (refresh services object' (.getAll service reply)) path
          (some other) = getCachedProperty services object' path (some other) := by
  have initial : Inv services [] object := by
    refine ⟨fun _ member => absurd member List.not_mem_nil, fun service key datum found => ?_,
      fun _ member => absurd member List.not_mem_nil⟩
    rw [fresh] at found
    cases found
  exact ⟨(initial.run along ran).latest, fun service reply kept other apart path =>
    kept.others apart path⟩

end Refreshes

def state : CString := ascii ['s', 't', 'a', 't', 'e']

def pid : CString := ascii ['p', 'i', 'd']

/-- Two services with a property `pid`; that of the first is in its dictionary `state`. -/
def processServices : Services Unit where
  properties service :=
    if service = 0 then
      some [{ name := state, signature := some dictSignature,
              dictChildren := some [{ name := pid, signature := some ['u'] }] }]
    else some [{ name := pid, signature := some ['u'] }]
  anonymous := .root 0

/-- The process has another `pid` each time. -/
def pidReply (pid : UInt32) : Reply := some [(Cached.pid, .variant (.scalar (.uint32 pid)))]

theorem pid_kept (pid : UInt32)
    (old : ∀ service key, (slot object.cached service key).isSome → service = 1 ∧ key = Cached.pid) :
    Kept processServices object (.getAll 1 (pidReply pid)) where
  whole := rfl
  direct received member property known := by
    obtain rfl := List.mem_singleton.mp member
    have flat : ∀ path other, lookupProperty processServices 1 path = some other →
        other.name = path := fun path other => lookupProperty_flat rfl fun property member => by
      obtain rfl := List.mem_singleton.mp member
      rfl
    refine ⟨_, rfl, .scalar _, fun table children => ?_, fun path other there same => ?_⟩
    · cases known
      cases children
    · rw [← flat path other there, same, flat _ property known]
  once := (List.filter_sublist.map _).nodup (List.nodup_singleton _)
  again service key cached := by
    obtain ⟨rfl, rfl⟩ := old service key cached
    exact ⟨_, List.mem_singleton_self _, rfl⟩

/-- A service with a property in no dictionary is refreshed twice. -/
theorem pid_latest : ∃ object, Machine.run (step processServices) ⟨none, [], []⟩
      [.getAll 1 (pidReply 7), .getAll 1 (pidReply 8)] = .ok object ∧
    Latest processServices (Input.received (.getAll 1 (pidReply 7)) ++
      Input.received (.getAll 1 (pidReply 8))) object := by
  have along : Machine.Along (step processServices) (Kept processServices) ⟨none, [], []⟩
      [.getAll 1 (pidReply 7), .getAll 1 (pidReply 8)] := by
    refine ⟨pid_kept 7 (fun _ _ cached => nomatch cached), fun next moved =>
      ⟨pid_kept 8 fun service key cached => ?_, fun _ _ => trivial⟩⟩
    cases moved
    have whole : Whole processServices ⟨none, [], []⟩ (.getAll 1 (pidReply 7)) := rfl
    rw [slot_refresh whole, List.findSome?_isSome_iff] at cached
    obtain ⟨received, member, stored⟩ := cached
    obtain rfl := List.mem_singleton.mp member
    obtain ⟨rfl, named⟩ := (stored_isSome _).mp stored
    have known : (lookupProperty processServices 1 pid).map Property.name = some pid := by decide
    exact ⟨rfl, (Option.some.inj (known.symm.trans named)).symm⟩
  exact ⟨_, rfl, (run_latest rfl along rfl).1⟩

/-- The `pid` in the dictionary `state` is not found by its path, and refreshing one service drops
the properties of another. -/
theorem state_not_latest :
    ¬ (∀ (services : Services Unit) (inputs : List Input) (object object' : Object),
      object.cached = [] → Machine.run (step services) object inputs = .ok object' →
        Latest services (inputs.flatMap Input.received) object') ∧
    ∃ object : Object,
      getCachedProperty processServices object pid (some 1) = some (some (.scalar (.uint32 7))) ∧
      getCachedProperty processServices (refresh processServices object (.getAll 0 (some []))) pid
        (some 1) = none := by
  constructor
  · intro all
    have latest := all processServices
      [.getAll 0 (some [(state, .variant (.array dictEntrySignature
        [.dictEntry (.string pid) (.variant (.scalar (.uint32 7)))]))])]
      ⟨none, [], []⟩ _ rfl rfl 0 (state ++ dot :: pid) rfl
    obtain ⟨value, -, found⟩ := latest
    cases found
  · exact ⟨refresh processServices ⟨none, [], []⟩ (.getAll 1 (pidReply 7)), rfl, rfl⟩

end Testbus.Dbus.Cached
