import Testbus.Schema.Sound

namespace Testbus.Schema

open Xml

/-- The `count` of each group, by its address. -/
abbrev Counters := Nat → UInt32

/-- What a function that also writes the counters returns. -/
def verdict : Result Counters → Result Unit
  | .ok _ => return ()
  | .error failure => throw failure

/-- The loop of `ni_dbus_validate_xml_dict` that resets the counters of the groups of the dict. -/
def resetCounts : List Group → Counters → Counters
  | [], counters => counters
  | group :: rest, counters => resetCounts rest (Function.update counters group.addr 0)

/-- The loop of `ni_dbus_validate_xml_dict` that counts the children of the node, each in the group
of its type. That group need not be one of the groups of the dict. -/
def countChildren (children : List (CString × XsType)) : List Node → Counters → Result Counters
  | [], counters => return counters
  | child :: rest, counters => do
    match ← find children child.name with
    | none => countChildren children rest counters
    | some type =>
      match type.common.group with
      | none => countChildren children rest counters
      | some group =>
        countChildren children rest (Function.update counters group.addr (counters group.addr + 1))

/-- The loop of `ni_dbus_validate_xml_dict` that reads the counters of the groups of the dict. -/
def checkCounts (counters : Counters) : List Group → Result Unit
  | [] => return ()
  | group :: rest => do
    match group.relation with
    | .require => check (counters group.addr ≠ 0)
    | .conflict => check (counters group.addr ≤ 1)
    checkCounts counters rest

/-- The check of the groups in `ni_dbus_validate_xml_dict`, which it leaves out for a dict without
groups. -/
def countGroups (children : List (CString × XsType)) (nodes : List Node) (groups : List Group)
    (counters : Counters) : Result Counters :=
  if groups.isEmpty then return counters
  else do
    let counters ← countChildren children nodes (resetCounts groups counters)
    checkCounts counters groups
    return counters

/-- The loop of `ni_dbus_validate_xml_dict` or `ni_dbus_validate_xml_array` over the children. -/
def validateEach (validate : Option CString → Node → Counters → Result Counters) :
    List Node → Counters → Result Counters
  | [], counters => return counters
  | child :: rest, counters => do validateEach validate rest (← validate child.name child counters)

mutual

/-- `ni_dbus_validate_xml`, without a context, from the counters that earlier validations left. -/
def validate : XsType → Node → Counters → Result Counters
  | .void _, node, counters => do
    check node.cdata.isNone
    check node.children.isEmpty
    return counters
  | .scalar _ info, node, counters => do
    validateScalar info node
    return counters
  | .struct _, _, _ => throw .refused
  | .union _ discriminant children, node, counters => do
    let kind ← orRefused (node.getAttr discriminant)
    match ← validateOne children (some kind) node counters with
    | some counters => return counters
    | none => throw .refused
  | .notated _ _ form _, node, counters => do
    let _ ← serializeNotation form node
    return counters
  | .array _ _ elementType, node, counters =>
    validateEach (fun _ child counters => validate elementType child counters) node.children
      counters
  | .dict _ children groups, node, counters => do
    let counters ← validateEach (fun name child counters => do
      match ← validateOne children name child counters with
      | some counters => return counters
      | none => return counters) node.children counters
    validateMandatory node.children children
    countGroups children node.children groups counters

/-- A node validated against the type of a member, if there is such a member. -/
def validateOne : List (CString × XsType) → Option CString → Node → Counters → Result (Option Counters)
  | [], _, _, _ => return none
  | _ :: _, none, _, _ => throw .null
  | (own, type) :: rest, some name, node, counters =>
    if own = name then do return some (← validate type node counters)
    else validateOne rest (some name) node counters

end

theorem verdict_bind : verdict (first >>= next) = first >>= fun value => verdict (next value) := by
  cases first <;> rfl

/-- What comes next returns the same for all counters. -/
theorem verdict_bind_const (same : ∀ counters, verdict (next counters) = rest) :
    verdict (first >>= next) = verdict first >>= fun _ => rest := by
  cases first with
  | error => rfl
  | ok counters => exact same counters

@[simp] theorem verdict_return (counters : Counters) : verdict (return counters) = return () := rfl

theorem verdict_ok : verdict result = .ok () ↔ ∃ counters, result = .ok counters := by
  cases result <;> simp [verdict]

section Groups

variable {children : List (CString × XsType)} {nodes : List Node}

theorem resetCounts_eq (counters : Counters) (addr : Nat) :
    resetCounts groups counters addr =
      if addr ∈ groups.map Group.addr then 0 else counters addr := by
  induction groups generalizing counters with
  | nil => rfl
  | cons group rest ih =>
    simp only [resetCounts, ih, List.map_cons, List.mem_cons]
    by_cases here : addr = group.addr
    · simp [here]
    · simp [here]

theorem countChildren_eq (group : Group) (counters : Counters) :
    (countChildren children nodes counters).map (· group.addr) =
      (groupCount children group nodes).map (counters group.addr + ·) := by
  induction nodes generalizing counters with
  | nil => simp [countChildren, groupCount, Except.map, pure, Except.pure]
  | cons child rest ih =>
    simp only [countChildren, groupCount]
    cases find children child.name with
    | error failure => rfl
    | ok found =>
      cases found with
      | none =>
        simp only [ok_bind, pure_bind, ih]
        cases groupCount children group rest <;> rfl
      | some type =>
        cases belongs : type.common.group with
        | none =>
          simp only [ok_bind, pure_bind, belongs, ih]
          cases groupCount children group rest <;> rfl
        | some own =>
          simp only [ok_bind, pure_bind, belongs, ih, Option.any_some]
          by_cases same : own.addr = group.addr
          · simp only [same, Function.update_self, decide_true, if_true]
            cases groupCount children group rest with
            | error failure => rfl
            | ok later =>
              have moved : counters group.addr + 1 + later = counters group.addr + (later + 1) := by
                rw [UInt32.add_assoc, UInt32.add_comm 1 later]
              simp [Except.map, pure, Except.pure, moved]
          · simp only [Function.update_of_ne (Ne.symm same), same, decide_false]
            cases groupCount children group rest <;> rfl

theorem checkCounts_eq (counted : ∀ group ∈ groups, groupCount children group nodes = .ok (counters group.addr)) :
    checkCounts counters groups = validateGroups children nodes groups := by
  induction groups with
  | nil => rfl
  | cons group rest ih =>
    obtain ⟨here, later⟩ := List.forall_mem_cons.mp counted
    cases related : group.relation <;>
      simp only [checkCounts, validateGroups, related, here, ok_bind, ih later]

theorem verdict_countGroups (counters : Counters) :
    verdict (countGroups children nodes groups counters) =
      validateGroups children nodes groups := by
  cases groups with
  | nil => rfl
  | cons group rest =>
    set whole := group :: rest with wholeEq
    have started : ∀ other ∈ whole, resetCounts whole counters other.addr = 0 := by
      intro other member
      rw [resetCounts_eq, if_pos (List.mem_map_of_mem member)]
    have each : ∀ other ∈ whole,
        (countChildren children nodes (resetCounts whole counters)).map (· other.addr) =
          groupCount children other nodes := by
      intro other member
      rw [countChildren_eq, started other member]
      cases groupCount children other nodes <;> simp [Except.map]
    have shown : countGroups children nodes whole counters = (do
        let counters ← countChildren children nodes (resetCounts whole counters)
        checkCounts counters whole
        return counters) := rfl
    rw [shown]
    cases ran : countChildren children nodes (resetCounts whole counters) with
    | error failure =>
      have fails := each group (wholeEq ▸ List.mem_cons_self)
      rw [ran] at fails
      simp only [wholeEq, validateGroups, ← fails]
      rfl
    | ok after =>
      have counted : ∀ other ∈ whole, groupCount children other nodes = .ok (after other.addr) := by
        intro other member
        rw [← each other member, ran]
        rfl
      rw [ok_bind, checkCounts_eq counted, verdict_bind]
      cases validateGroups children nodes whole <;> rfl

end Groups

section Verdict

variable {children : List (CString × XsType)} {name : Option CString}

theorem verdict_validateEach {validate : Option CString → Node → Counters → Result Counters}
    {alone : Option CString → Node → Result Unit} {nodes : List Node}
    (same : ∀ child ∈ nodes, ∀ counters, verdict (validate child.name child counters) = alone child.name child)
    (counters : Counters) : verdict (validateEach validate nodes counters) = validateChildren alone nodes := by
  induction nodes generalizing counters with
  | nil => rfl
  | cons child rest ih =>
    obtain ⟨here, later⟩ := List.forall_mem_cons.mp same
    simp only [validateEach, validateChildren]
    rw [verdict_bind_const (ih later), here]

theorem validateOne_eq (node : Node) (counters : Counters) :
    validateOne children name node counters = (do
      match ← find children name with
      | some type => return some (← validate type node counters)
      | none => return none) := by
  induction children with
  | nil => cases name <;> rfl
  | cons child rest ih =>
    cases name with
    | none => rfl
    | some name =>
      simp only [validateOne, find]
      split
      · rfl
      · exact ih

/-- What follows the validation against a member depends on the counters as little as this does. -/
theorem verdict_validateOne
    (same : ∀ child ∈ children, ∀ node counters, verdict (validate child.2 node counters) = validateXml child.2 node)
    (node : Node) (counters : Counters) (missing : verdict (next none) = answer none)
    (known : ∀ counters, verdict (next (some counters)) = answer (some ())) :
    verdict (validateOne children name node counters >>= next) = validateMember children name node >>= answer := by
  rw [validateOne_eq, validateMember_eq]
  cases looked : find children name with
  | error => rfl
  | ok found =>
    cases found with
    | none => exact missing
    | some type =>
      obtain ⟨own, -, member⟩ := find_mem looked
      have here := same (own, type) member node counters
      simp only [ok_bind, bind_assoc, pure_bind]
      rw [← here]
      cases validate type node counters with
      | error => rfl
      | ok counters => exact known counters

theorem verdict_validate (type : XsType) (node : Node) (counters : Counters) :
    verdict (validate type node counters) = validateXml type node := by
  induction type using XsType.induct generalizing node counters with
  | void =>
    simp only [validate, validateXml, verdict_bind, verdict_return]
    exact congrArg (check node.cdata.isNone >>= ·) (funext fun _ => bind_pure _)
  | scalar common info =>
    simp only [validate, validateXml, verdict_bind, verdict_return]
    exact bind_pure _
  | struct => rfl
  | notated common element form compatible =>
    simp only [validate, validateXml, verdict_bind, verdict_return]
  | array common elementName elementType ih =>
    simp only [validate, validateXml]
    exact verdict_validateEach (fun child _ counters => ih child counters) counters
  | dict common children groups ih =>
    have each : ∀ child ∈ node.children, ∀ counters,
        verdict (do
          match ← validateOne children child.name child counters with
          | some counters => return counters
          | none => return counters) =
        (do let _ ← validateMember children child.name child) := by
      exact fun child _ counters => verdict_validateOne ih child counters rfl fun _ => rfl
    simp only [validate, validateXml]
    have rest : ∀ counters, verdict (do
        validateMandatory node.children children
        countGroups children node.children groups counters) = (do
        validateMandatory node.children children
        validateGroups children node.children groups) := by
      intro counters
      simp only [verdict_bind, verdict_countGroups]
    refine (verdict_bind_const rest).trans ?_
    exact congrArg (· >>= fun _ => _) (verdict_validateEach each counters)
  | union common discriminant children ih =>
    simp only [validate, validateXml]
    rw [verdict_bind]
    congr 1
    funext kind
    exact verdict_validateOne ih node counters rfl fun _ => rfl

end Verdict

end Testbus.Schema
