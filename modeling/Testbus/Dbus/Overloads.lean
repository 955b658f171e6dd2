import Testbus.Lib.Least
import Testbus.Dbus.Dispatch

namespace Testbus.Dbus.Overloads

open Lib Dispatch

/-- `ni_dbus_class_t`, known by its address, with the classes above it. -/
inductive Class
  | root (addr : Nat)
  | derived (addr : Nat) (superclass : Class)
  deriving DecidableEq

namespace Class

/-- `ni_dbus_class_is_subclass` for a class. -/
def isSubclassOf (superclass : Option Class) : Class → Bool
  | root addr => some (root addr) = superclass
  | derived addr up => some (derived addr up) = superclass || up.isSubclassOf superclass

end Class

def isSubclass (subclass superclass : Option Class) : Bool :=
  match subclass with
  | none => false
  | some subclass => subclass.isSubclassOf superclass

structure Service extends Dispatch.Service where
  compatible : Option Class := none
  deriving DecidableEq

/-- `ni_dbus_object_t`. No interface is registered twice. -/
structure Object where
  path : CString
  class_ : Option Class := none
  defaultInterface : Option CString := none
  interfaces : List Service := []
  distinct : interfaces.Nodup := by decide

namespace Object

def registerService (object : Object) (svc : Service) : Bool × Object :=
  if svc.compatible ≠ none ∧ ¬ isSubclass object.class_ svc.compatible then (false, object)
  else if listed : svc ∈ object.interfaces then (true, object)
  else (true, { object with
    interfaces := object.interfaces ++ [svc]
    distinct := List.nodup_append.mpr ⟨object.distinct, List.pairwise_singleton _ svc, fun _ old _ new same =>
      listed (List.mem_singleton.mp new ▸ same ▸ old)⟩ })

/-- The interfaces that offer a method. -/
def offering (object : Object) (method : CString) : List Service :=
  object.interfaces.filter fun svc => (getMethod svc.toService method).isSome

end Object

/-- The loop over the interfaces that offer a method, with a choice between the best one so far and
the next. -/
def bestService {ε : Type} (pick : Option Service → Service → Option Service) (ambiguous : ε)
    (object : Object) (method : CString) : Except ε (Option Service) :=
  object.interfaces.foldlM (fun best svc =>
    if (getMethod svc.toService method).isSome then
      match pick best svc with
      | some best => .ok (some best)
      | none => .error ambiguous
    else pure best) none

/-- `__ni_dbus_object_pick_more_specific`. Its last test is the first one again, so it does not
find that the current service is less specific. -/
def pickMoreSpecific (best : Option Service) (cur : Service) : Option Service :=
  match best with
  | none => some cur
  | some best =>
    if best.compatible = none ∨ isSubclass cur.compatible best.compatible then some cur
    else if cur.compatible = none ∨ isSubclass cur.compatible best.compatible then some best
    else none

/-- `ni_dbus_object_get_service_for_method`. An ambiguous method is logged. -/
def getServiceForMethod (object : Object) (method : CString) : Except ErrorText (Option Service) :=
  bestService pickMoreSpecific
    (.format "%s: ambiguous overloaded method \"%s\"" [object.path, method]) object method

/-- What the loop of `ni_dbus_object_call_variant` makes of the best service and the next one. -/
def pickForCall (best : Option Service) (service : Service) : Option Service :=
  match best with
  | none => some service
  | some best =>
    if best.compatible ≠ none ∧ service.compatible ≠ none then
      if isSubclass best.compatible service.compatible then some best
      else if isSubclass service.compatible best.compatible then some service
      else none
    else some best

/-- The loop of `ni_dbus_object_call_variant` over the interfaces of the proxy. -/
def serviceForCall (proxy : Object) (method : CString) : Except DBusError (Option Service) :=
  bestService pickForCall (setError .unknownMethod
    "%s: several dbus interfaces provide method %s" [proxy.path, method]) proxy method

/-! ## The order of the classes -/

namespace Class

theorem isSubclassOf_refl (c : Class) : c.isSubclassOf (some c) = true := by
  cases c <;> simp [isSubclassOf]

theorem isSubclassOf_trans {a b c : Class} (first : a.isSubclassOf (some b) = true)
    (second : b.isSubclassOf (some c) = true) : a.isSubclassOf (some c) = true := by
  induction a with
  | root addr =>
    have same : root addr = b := by simpa [isSubclassOf] using first
    rwa [same]
  | derived addr up ih =>
    simp only [isSubclassOf, Bool.or_eq_true, decide_eq_true_eq, Option.some.injEq] at first
    rcases first with same | later
    · rwa [same]
    · simp [isSubclassOf, ih later]

/-- Two classes above the same one are above each other. -/
theorem isSubclassOf_linear {a b c : Class} (first : a.isSubclassOf (some b) = true)
    (second : a.isSubclassOf (some c) = true) : b.isSubclassOf (some c) = true ∨ c.isSubclassOf (some b) = true := by
  induction a with
  | root addr =>
    obtain rfl : root addr = b := by simpa [isSubclassOf] using first
    exact .inl second
  | derived addr up ih =>
    have first' := first
    have second' := second
    simp only [isSubclassOf, Bool.or_eq_true, decide_eq_true_eq, Option.some.injEq] at first' second'
    rcases first' with rfl | above
    · exact .inl second
    · rcases second' with rfl | above'
      · exact .inr first
      · exact ih above above'

end Class

/-- At least as specific as another: its class is the other's or below it, and no class is above
all. -/
def Below (s t : Service) : Prop :=
  t.compatible = none ∨ isSubclass s.compatible t.compatible = true

instance : DecidableRel Below := fun _ _ => inferInstanceAs (Decidable (_ ∨ _))

theorem Below.refl (s : Service) : Below s s := by
  unfold Below isSubclass
  cases s.compatible with
  | none => exact .inl rfl
  | some c => exact .inr c.isSubclassOf_refl

theorem Below.trans (first : Below s t) (second : Below t u) : Below s u := by
  unfold Below isSubclass at *
  cases third : u.compatible with
  | none => exact .inl rfl
  | some c =>
    cases middle : t.compatible with
    | none => simp [third, middle] at second
    | some b =>
      cases lowest : s.compatible with
      | none => simp [middle, lowest] at first
      | some a =>
        simp only [third, middle, lowest, reduceCtorEq, false_or] at first second ⊢
        exact Class.isSubclassOf_trans first second

/-! ## The choices -/

theorem pickMoreSpecific_retains : Retains fun best cur => pickMoreSpecific (some best) cur := by
  intro best cur next picked
  simp only [pickMoreSpecific] at picked
  split at picked
  · exact .inr (Option.some.inj picked).symm
  · split at picked
    · exact .inl (Option.some.inj picked).symm
    · cases picked

theorem pickMoreSpecific_below (picked : pickMoreSpecific (some best) cur = some next) : Below next best ∧ Below next cur := by
  simp only [pickMoreSpecific] at picked
  split at picked
  next lower =>
    cases picked
    exact ⟨lower, .refl _⟩
  next notLower =>
    split at picked
    next upper =>
      cases picked
      exact ⟨.refl _, .inl (upper.resolve_right fun lower => notLower (.inr lower))⟩
    next => cases picked

theorem pickForCall_retains : Retains fun best cur => pickForCall (some best) cur := by
  intro best cur next picked
  simp only [pickForCall] at picked
  split at picked
  · split at picked
    · exact .inl (Option.some.inj picked).symm
    · split at picked
      · exact .inr (Option.some.inj picked).symm
      · cases picked
  · exact .inl (Option.some.inj picked).symm

theorem pickForCall_below (here : best.compatible ≠ none) (picked : pickForCall (some best) cur = some next) :
    next.compatible ≠ none ∧ Below next best ∧ Below next cur := by
  simp only [pickForCall, ne_eq, here, not_false_eq_true, true_and] at picked
  split at picked
  next there =>
    split at picked
    next upper =>
      cases picked
      exact ⟨here, .refl _, .inr upper⟩
    next =>
      split at picked
      next lower =>
        cases picked
        exact ⟨there, .inr lower, .refl _⟩
      next => cases picked
  next classless =>
    cases picked
    exact ⟨here, .refl _, .inl (not_not.mp classless)⟩

/-- The client keeps a service without a class, and one that is below the next. -/
theorem pickForCall_keeps (kept : best.compatible = none ∨ Below best cur) : pickForCall (some best) cur = some best := by
  unfold pickForCall
  rcases kept with classless | classless | lower
  · simp [classless]
  · simp [classless]
  · simp [lower]

/-! ## The two lookups -/

/-- The loop takes the first interface that offers the method and goes on with the others. -/
theorem bestService_toOption {ε : Type}
    {ambiguous : ε} (first : ∀ cur, pick none cur = some cur) (object : Object) (method : CString) :
    (bestService pick ambiguous object method).toOption =
      match object.offering method with
      | [] => some none
      | best :: rest => (rest.foldlM (fun best cur => pick (some best) cur) best).map some := by
  have later : ∀ (l : List Service) (best : Service),
      (l.foldlM (fun best svc =>
        match pick best svc with
        | some best => (.ok (some best) : Except ε (Option Service))
        | none => .error ambiguous) (some best)).toOption =
      (l.foldlM (fun best cur => pick (some best) cur) best).map some := by
    intro l
    induction l with
    | nil => exact fun best => rfl
    | cons cur rest ih =>
      intro best
      rw [List.foldlM_cons, List.foldlM_cons]
      cases picked : pick (some best) cur with
      | none => rfl
      | some next => exact ih next
  unfold bestService Object.offering
  rw [← List.foldlM_filter]
  cases object.interfaces.filter fun svc => (getMethod svc.toService method).isSome with
  | nil => rfl
  | cons best rest =>
    rw [List.foldlM_cons, first]
    exact later rest best

theorem getServiceForMethod_toOption (object : Object) (method : CString) :
    (getServiceForMethod object method).toOption =
      match object.offering method with
      | [] => some none
      | best :: rest =>
        (rest.foldlM (fun best cur => pickMoreSpecific (some best) cur) best).map some :=
  bestService_toOption (fun _ => rfl) object method

theorem serviceForCall_toOption (proxy : Object) (method : CString) :
    (serviceForCall proxy method).toOption =
      match proxy.offering method with
      | [] => some none
      | best :: rest => (rest.foldlM (fun best cur => pickForCall (some best) cur) best).map some :=
  bestService_toOption (fun _ => rfl) proxy method

section Orders

variable {object reordered : Object}

theorem offering_nodup (object : Object) (method : CString) : (object.offering method).Nodup := object.distinct.filter _

theorem Object.offering_perm (same : reordered.interfaces.Perm object.interfaces)
    (method : CString) : (reordered.offering method).Perm (object.offering method) := same.filter _

/-- Every order of the interfaces that offer a method comes from an order of all interfaces. -/
theorem exists_offering (perm : l.Perm (object.offering method)) :
    ∃ reordered : Object, reordered.interfaces.Perm object.interfaces ∧ reordered.offering method = l := by
  have offers : ∀ svc ∈ l, (getMethod svc.toService method).isSome = true := fun svc member =>
    (List.mem_filter.mp (perm.mem_iff.mp member)).2
  have all : (l ++ object.interfaces.filter fun svc =>
      !(getMethod svc.toService method).isSome).Perm object.interfaces :=
    (perm.append_right _).trans (List.filter_append_perm _ _)
  refine ⟨{ path := object.path, interfaces := _, distinct := all.nodup_iff.mpr object.distinct }, all, ?_⟩
  rw [Object.offering, List.filter_append, List.filter_eq_self.mpr offers, List.filter_filter]
  simp +contextual [Option.isSome_iff_ne_none]

end Orders

/-- What the lookup of a method has to give: the interface that is below all others that offer it,
none where no interface does, and an error where there is no such interface. -/
def Right (offering : List Service) (result : Option (Option Service)) : Prop :=
  match result with
  | some (some best) => Least Below offering best
  | some none => offering = []
  | none => offering ≠ [] ∧ ∀ best, ¬ Least Below offering best

/-- The object has no objection to an interface behind another: one of them has no class, or it is at least
as specific. -/
def Descends (earlier later : Service) : Prop :=
  earlier.compatible = none ∨ later.compatible = none ∨ isSubclass later.compatible earlier.compatible = true

/-- Both lookups give one right result, however the interfaces were registered. -/
def Settled (object : Object) (method : CString) : Prop :=
  ∃ result, ∀ reordered : Object, reordered.interfaces.Perm object.interfaces →
    (getServiceForMethod reordered method).toOption = result ∧
    (serviceForCall reordered method).toOption = result ∧
    Right (reordered.offering method) result

section Right

variable {object : Object} {best cur next later : Service}

theorem pickMoreSpecific_isSome : (pickMoreSpecific (some best) cur).isSome ↔ Descends best cur := by
  unfold pickMoreSpecific Descends
  dsimp only
  split_ifs <;> simp_all
  tauto

theorem Descends.mono (below : Below next cur) (descends : Descends next later) : Descends cur later := by
  rcases descends with classless | classless | lower
  · refine .inl ?_
    rcases below with none_ | lower
    · exact none_
    · rw [classless] at lower
      cases lower
  · exact .inr (.inl classless)
  · have lower' : Below later next := .inr lower
    exact (lower'.trans below).elim .inl fun lower => .inr (.inr lower)

theorem foldlM_pickMoreSpecific (rest : List Service) :
    (rest.foldlM (fun best cur => pickMoreSpecific (some best) cur) best).isSome ↔ (best :: rest).Pairwise Descends := by
  induction rest generalizing best with
  | nil => simp
  | cons cur rest ih =>
    rw [List.foldlM_cons]
    cases picked : pickMoreSpecific (some best) cur with
    | none =>
      have objection : ¬ Descends best cur := by
        rw [← pickMoreSpecific_isSome, picked]
        nofun
      simp [objection]
    | some next =>
      have descends : Descends best cur := pickMoreSpecific_isSome.mp (by rw [picked]; rfl)
      obtain ⟨first, second⟩ := pickMoreSpecific_below picked
      rw [Option.bind_eq_bind, Option.bind_some, ih]
      simp only [List.pairwise_cons, List.forall_mem_cons]
      constructor
      · rintro ⟨front, ordered⟩
        exact ⟨⟨descends, fun x listed => (front x listed).mono first⟩,
          fun x listed => (front x listed).mono second, ordered⟩
      · rintro ⟨⟨-, front⟩, behind, ordered⟩
        rcases pickMoreSpecific_retains picked with rfl | rfl
        · exact ⟨front, ordered⟩
        · exact ⟨behind, ordered⟩

/-- The object finds the interface that is below all others just if none comes behind one that it is not
below; it always finds out that there is no such interface. -/
theorem getServiceForMethod_right (object : Object) (method : CString) :
    Right (object.offering method) (getServiceForMethod object method).toOption ↔
      (∀ best, ¬ Least Below (object.offering method) best) ∨ (object.offering method).Pairwise Descends := by
  rw [getServiceForMethod_toOption]
  cases object.offering method with
  | nil => simp [Right]
  | cons first rest =>
    have ordered := @foldlM_pickMoreSpecific first rest
    cases found : rest.foldlM (fun best cur => pickMoreSpecific (some best) cur) first with
    | none =>
      have broken : ¬ (first :: rest).Pairwise Descends := by simp [← ordered, found]
      rw [or_iff_left broken]
      simp only [found, Option.map_none]
      exact and_iff_right (List.cons_ne_nil _ _)
    | some best =>
      have least : Least Below (first :: rest) best :=
        foldlM_least (fun _ => True) pickMoreSpecific_retains
          (fun _ _ picked => pickMoreSpecific_below picked) .refl .trans (fun _ _ => trivial) found
      rw [found] at ordered
      simp only [found, Option.map_some]
      exact iff_of_true least (.inr (ordered.mp rfl))

theorem Least.of_next (least : Least Below (next :: rest) found) (retained : next = best ∨ next = cur)
    (first : Below next best) (second : Below next cur) : Least Below (best :: cur :: rest) found := by
  obtain ⟨listed, below⟩ := least
  have lower := below next List.mem_cons_self
  refine ⟨?_, List.forall_mem_cons.mpr ⟨lower.trans first, List.forall_mem_cons.mpr ⟨lower.trans second, ?_⟩⟩⟩
  · rcases retained with rfl | rfl
    · exact (List.mem_cons.mp listed).elim (· ▸ List.mem_cons_self) fun old => by simp [old]
    · exact List.mem_cons_of_mem _ listed
  · exact fun x old => below x (List.mem_cons_of_mem _ old)

/-- The next best service may be as low as the lowest one, but not that one. -/
theorem Least.to_next (least : Least Below (best :: cur :: rest) found) (retained : next = best ∨ next = cur)
    (first : Below next best) (second : Below next cur) : ∃ least, Least Below (next :: rest) least := by
  obtain ⟨listed, below⟩ := least
  have others : ∀ x ∈ rest, Below found x := fun x old => below x (List.mem_cons_of_mem _ (List.mem_cons_of_mem _ old))
  by_cases old : found ∈ rest
  · have lower : Below found next := by
      rcases retained with rfl | rfl
      · exact below next List.mem_cons_self
      · exact below next (List.mem_cons_of_mem _ List.mem_cons_self)
    exact ⟨found, List.mem_cons_of_mem _ old, List.forall_mem_cons.mpr ⟨lower, others⟩⟩
  · have lower : Below next found := by
      simp only [List.mem_cons, old, or_false] at listed
      rcases listed with rfl | rfl
      · exact first
      · exact second
    exact ⟨next, List.mem_cons_self, List.forall_mem_cons.mpr ⟨.refl next, fun x old => lower.trans (others x old)⟩⟩

/-- Two classes of which neither is below the other have no class below both. -/
theorem pickForCall_none (picked : pickForCall (some best) cur = none) (first : Below least best)
    (second : Below least cur) : False := by
  simp only [pickForCall] at picked
  split at picked
  next classes =>
    obtain ⟨b, here⟩ := Option.ne_none_iff_exists'.mp classes.1
    obtain ⟨c, there⟩ := Option.ne_none_iff_exists'.mp classes.2
    have above := first.resolve_left classes.1
    have above' := second.resolve_left classes.2
    rw [here, there] at picked
    rw [here] at above
    rw [there] at above'
    cases lowest : least.compatible with
    | none =>
      rw [lowest] at above
      cases above
    | some a =>
      rw [lowest] at above above'
      rcases Class.isSubclassOf_linear above above' with lower | lower
      · simp [isSubclass, lower] at picked
      · split at picked
        · cases picked
        · simp [isSubclass, lower] at picked
  next => cases picked

/-- While the best service so far has a class, the client finds the lowest one, or that there is none. -/
theorem foldlM_pickForCall (rest : List Service) (classes : best.compatible ≠ none) :
    Right (best :: rest) ((rest.foldlM (fun best cur => pickForCall (some best) cur) best).map some) := by
  induction rest generalizing best with
  | nil => exact ⟨List.mem_singleton_self best, fun x listed => List.mem_singleton.mp listed ▸ .refl best⟩
  | cons cur rest ih =>
    rw [List.foldlM_cons]
    cases picked : pickForCall (some best) cur with
    | none =>
      refine ⟨List.cons_ne_nil _ _, fun least lowest => ?_⟩
      exact pickForCall_none picked (lowest.2 best List.mem_cons_self)
        (lowest.2 cur (List.mem_cons_of_mem _ List.mem_cons_self))
    | some next =>
      obtain ⟨classes', first, second⟩ := pickForCall_below classes picked
      have later := ih classes'
      rw [Option.bind_eq_bind, Option.bind_some]
      cases found : rest.foldlM (fun best cur => pickForCall (some best) cur) next with
      | none =>
        rw [found] at later
        refine ⟨List.cons_ne_nil _ _, fun least lowest => ?_⟩
        obtain ⟨other, lowest'⟩ := Least.to_next lowest (pickForCall_retains picked) first second
        exact later.2 other lowest'
      | some found' =>
        rw [found] at later
        exact Least.of_next later (pickForCall_retains picked) first second

/-- The client finds the interface that is below all others, or that there is none, but for a first
interface without a class, which it keeps. -/
theorem serviceForCall_right (object : Object) (method : CString) :
    Right (object.offering method) (serviceForCall object method).toOption ↔
      (∀ first, (object.offering method).head? = some first → first.compatible ≠ none) ∨
        ∀ svc ∈ object.offering method, svc.compatible = none := by
  rw [serviceForCall_toOption]
  cases object.offering method with
  | nil => simp [Right]
  | cons first rest =>
    simp only [List.head?_cons, Option.some.injEq, forall_eq']
    by_cases classless : first.compatible = none
    · have kept : rest.foldlM (fun best cur => pickForCall (some best) cur) first = some first :=
        foldlM_keeps fun cur _ => pickForCall_keeps (.inl classless)
      rw [kept, or_iff_right (not_not.mpr classless)]
      refine ⟨fun lowest svc listed => ?_, fun all => ⟨List.mem_cons_self, fun svc listed => .inl (all svc listed)⟩⟩
      rcases lowest.2 svc listed with none_ | lower
      · exact none_
      · rw [classless] at lower
        cases lower
    · exact iff_of_true (foldlM_pickForCall rest classless) (.inl classless)

end Right

/-- The client keeps a first interface that has no class or is below all others. -/
theorem serviceForCall_first (order : object.offering method = first :: rest)
    (kept : first.compatible = none ∨ ∀ cur ∈ rest, Below first cur) :
    (serviceForCall object method).toOption = some (some first) := by
  rw [serviceForCall_toOption, order]
  have found : rest.foldlM (fun best cur => pickForCall (some best) cur) first = some first :=
    foldlM_keeps fun cur listed => pickForCall_keeps (kept.imp_right fun lower => lower cur listed)
  simp [found]

/-- The object does not keep a first interface with a class where the next one has a class. -/
theorem getServiceForMethod_first (order : object.offering method = first :: next :: rest)
    (here : first.compatible ≠ none) (there : next.compatible ≠ none) :
    (getServiceForMethod object method).toOption ≠ some (some first) := by
  rw [getServiceForMethod_toOption, order]
  intro found
  simp only [Option.map_eq_some_iff, Option.some.injEq, exists_eq_right, List.foldlM_cons] at found
  obtain ⟨second, picked, later⟩ := Option.bind_eq_some_iff.mp found
  have replaced : second = next := by
    simp only [pickMoreSpecific, here, there, false_or] at picked
    split at picked
    · exact (Option.some.inj picked).symm
    · cases picked
  have distinct := offering_nodup object method
  rw [order, List.nodup_cons] at distinct
  exact distinct.1 (replaced ▸ foldlM_mem pickMoreSpecific_retains later)

section Settled

variable {object : Object} {best other : Service}

/-- Any two interfaces come first in some order. -/
theorem exists_first (here : best ∈ object.offering method)
    (there : other ∈ object.offering method) (apart : other ≠ best) :
    ∃ (reordered : Object) (rest : List Service), reordered.interfaces.Perm object.interfaces ∧
      reordered.offering method = best :: other :: rest := by
  have left : other ∈ (object.offering method).erase best := (List.mem_erase_of_ne apart).mpr there
  obtain ⟨reordered, same, order⟩ := exists_offering
    ((List.perm_cons_erase here).trans ((List.perm_cons_erase left).cons best)).symm
  exact ⟨reordered, _, same, order⟩

/-- An interface without a class is one too many. -/
theorem not_settled_of_classless (here : best ∈ object.offering method)
    (there : other ∈ object.offering method) (apart : other ≠ best)
    (classless : best.compatible = none) : ¬ Settled object method := by
  rintro ⟨result, settled⟩
  obtain ⟨reordered, rest, same, order⟩ := exists_first here there apart
  obtain ⟨-, client, right⟩ := settled reordered same
  rw [serviceForCall_first order (.inl classless)] at client
  subst client
  rw [order] at right
  -- The other one has no class either, so the client takes it when it comes first.
  have classless' : other.compatible = none := by
    rcases right.2 other (by simp) with none | lower
    · exact none
    · simp [isSubclass, classless] at lower
  obtain ⟨reordered, rest, same, order⟩ := exists_first there here apart.symm
  obtain ⟨-, client, -⟩ := settled reordered same
  rw [serviceForCall_first order (.inl classless')] at client
  exact apart (Option.some.inj (Option.some.inj client))

/-- With the least class first, only the client finds it. -/
theorem not_settled_of_least (classes : ∀ svc ∈ object.offering method, svc.compatible ≠ none)
    (least : Least Below (object.offering method) best) (there : other ∈ object.offering method)
    (apart : other ≠ best) : ¬ Settled object method := by
  rintro ⟨result, settled⟩
  obtain ⟨reordered, rest, same, order⟩ := exists_first least.1 there apart
  obtain ⟨server, client, -⟩ := settled reordered same
  have listed : ∀ svc ∈ other :: rest, svc ∈ object.offering method := fun svc member =>
    (Object.offering_perm same method).mem_iff.mp (order ▸ List.mem_cons_of_mem _ member)
  rw [serviceForCall_first order (.inr fun cur member => least.2 cur (listed cur member))] at client
  exact getServiceForMethod_first order (classes best least.1) (classes other there) (server.trans client.symm)

/-- Where all have a class and none is below all others, both report the error. -/
theorem settled_of_ambiguous (several : object.offering method ≠ [])
    (classes : ∀ svc ∈ object.offering method, svc.compatible ≠ none)
    (ambiguous : ∀ best, ¬ Least Below (object.offering method) best) : Settled object method := by
  refine ⟨none, fun reordered same => ?_⟩
  have perm := Object.offering_perm same method
  have several' : reordered.offering method ≠ [] := fun nobody => several (List.nil_perm.mp (nobody ▸ perm))
  have nothing : ∀ best, ¬ Least Below (reordered.offering method) best := fun best least =>
    ambiguous best (least.perm perm)
  have refused : ∀ {result}, Right (reordered.offering method) result → result = none := by
    intro result right
    match result with
    | none => rfl
    | some none => exact absurd right several'
    | some (some best) => exact absurd right (nothing best)
  have server := (getServiceForMethod_right reordered method).mpr (.inl nothing)
  have client := (serviceForCall_right reordered method).mpr (.inl fun first head =>
    classes first (perm.mem_iff.mp (List.mem_of_head? head)))
  exact ⟨refused server, refused client, several', nothing⟩

theorem settled_of_nil (nobody : object.offering method = []) : Settled object method := by
  refine ⟨some none, fun reordered same => ?_⟩
  have order : reordered.offering method = [] := List.perm_nil.mp (nobody ▸ Object.offering_perm same method)
  rw [getServiceForMethod_toOption, serviceForCall_toOption, order]
  exact ⟨rfl, rfl, rfl⟩

theorem settled_of_singleton (only : object.offering method = [best]) : Settled object method := by
  refine ⟨some (some best), fun reordered same => ?_⟩
  have order : reordered.offering method = [best] := List.perm_singleton.mp (only ▸ Object.offering_perm same method)
  rw [getServiceForMethod_toOption, serviceForCall_toOption, order]
  exact ⟨rfl, rfl, List.mem_singleton_self best, fun x listed =>
    List.mem_singleton.mp listed ▸ .refl best⟩

theorem settled_of_few (few : (object.offering method).length ≤ 1) : Settled object method := by
  cases offering : object.offering method with
  | nil => exact settled_of_nil offering
  | cons first rest =>
    cases rest with
    | nil => exact settled_of_singleton offering
    | cons second rest => simp [offering] at few

theorem exists_other (several : 1 < (object.offering method).length) (svc : Service) :
    ∃ other ∈ object.offering method, other ≠ svc := by
  have distinct := offering_nodup object method
  cases offering : object.offering method with
  | nil => simp [offering] at several
  | cons first rest =>
    cases rest with
    | nil => simp [offering] at several
    | cons second rest =>
      have apart : second ≠ first := by
        rw [offering, List.nodup_cons] at distinct
        exact fun same => distinct.1 (by simp [same])
      by_cases same : second = svc
      · exact ⟨first, by simp, fun also => apart (same.trans also.symm)⟩
      · exact ⟨second, by simp, same⟩

theorem settled_several (several : 1 < (object.offering method).length) :
    Settled object method ↔ (∀ svc ∈ object.offering method, svc.compatible ≠ none) ∧
      ∀ best, ¬ Least Below (object.offering method) best := by
  constructor
  · intro settled
    have classes : ∀ svc ∈ object.offering method, svc.compatible ≠ none := by
      intro svc listed classless
      obtain ⟨other, listed', apart⟩ := exists_other several svc
      exact not_settled_of_classless listed listed' apart classless settled
    refine ⟨classes, fun best least => ?_⟩
    obtain ⟨other, listed, apart⟩ := exists_other several best
    exact not_settled_of_least classes least listed apart settled
  · rintro ⟨classes, ambiguous⟩
    have nonempty : object.offering method ≠ [] := List.ne_nil_of_length_pos (Nat.zero_lt_of_lt several)
    exact settled_of_ambiguous nonempty classes ambiguous

end Settled

theorem settled_cases (object : Object) (method : CString) :
    Settled object method ↔ (object.offering method).length ≤ 1 ∨
      (∀ svc ∈ object.offering method, svc.compatible ≠ none) ∧
        ∀ best, ¬ Least Below (object.offering method) best := by
  rcases Nat.lt_or_ge 1 (object.offering method).length with several | few
  · rw [settled_several several]
    simp [Nat.not_le.mpr several]
  · simp [few, settled_of_few few]

/-- In the order in which the interfaces were registered, the object's lookup is right exactly where none of
them is below all others or each comes behind those that it is below, and the client's exactly where the first
one has a class or none of them has. Both settle a method in every order exactly where no two interfaces offer
it, or all that do have a class and none of these is below all others. -/
theorem settled_iff (object : Object) (method : CString) :
    (Right (object.offering method) (getServiceForMethod object method).toOption ↔
      (∀ best, ¬ Least Below (object.offering method) best) ∨ (object.offering method).Pairwise Descends) ∧
    (Right (object.offering method) (serviceForCall object method).toOption ↔
      (∀ first, (object.offering method).head? = some first → first.compatible ≠ none) ∨
        ∀ svc ∈ object.offering method, svc.compatible = none) ∧
    (Settled object method ↔ (object.offering method).length ≤ 1 ∨
      (∀ svc ∈ object.offering method, svc.compatible ≠ none) ∧
        ∀ best, ¬ Least Below (object.offering method) best) :=
  ⟨getServiceForMethod_right object method, serviceForCall_right object method, settled_cases object method⟩

/-! ## A method of a class and of the class below it -/

def netif : Class := .root 0
def netifVlan : Class := .derived 1 netif

def linkUp : Method where
  name := ascii ['l', 'i', 'n', 'k', 'U', 'p']

def vlanService : Service where
  name := ascii ['V', 'l', 'a', 'n']
  methods := [linkUp]
  compatible := some netifVlan

def netifService : Service where
  name := ascii ['N', 'e', 't', 'i', 'f']
  methods := [linkUp]
  compatible := some netif

/-- The interface of the lower class is registered first. -/
def vlanObject : Object :=
  let object : Object := { path := ascii ['/', 'v'], class_ := some netifVlan }
  ((object.registerService vlanService).2.registerService netifService).2

/-- The interface of the lower class is the right one, and the client calls it, but to the object
the method is ambiguous. -/
theorem vlanObject_not_settled :
    Least Below (vlanObject.offering linkUp.name) vlanService ∧
    (serviceForCall vlanObject linkUp.name).toOption = some (some vlanService) ∧
    (getServiceForMethod vlanObject linkUp.name).toOption = none ∧
    ¬ Settled vlanObject linkUp.name := by
  have least : Least Below (vlanObject.offering linkUp.name) vlanService := by decide +kernel
  have server : (getServiceForMethod vlanObject linkUp.name).toOption = none := by decide +kernel
  refine ⟨least, by decide +kernel, server, ?_⟩
  rintro ⟨result, settled⟩
  obtain ⟨right, -, spec⟩ := settled vlanObject (.refl _)
  rw [← right, server] at spec
  exact spec.2 vlanService least

end Testbus.Dbus.Overloads
