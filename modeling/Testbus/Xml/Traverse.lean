import Testbus.Lib.Iterator
import Testbus.Xml.Node

namespace Testbus.Xml

open Lib

/-- A pointer to a node of a tree: the indices of the children on the way from the root. -/
abbrev Position := List Nat

/-- The node at a position. -/
def Node.at : Node → Position → Option Node
  | node, [] => some node
  | node, i :: rest => node.children[i]?.bind fun child => child.at rest

/-- `node->parent` -/
def Position.parent (p : Position) : Option Position := if p = [] then none else some p.dropLast

/-- `node->next` -/
def nextSibling (root : Node) (p : Position) : Option Position :=
  p.getLast?.bind fun i =>
    let sibling := p.dropLast ++ [i + 1]
    if (root.at sibling).isSome then some sibling else none

/-- The loop down along `cur->children`. -/
def firstLeaf : Node → Position → Position
  | .mk _ _ _ [] _, p => p
  | .mk _ _ _ (child :: _) _, p => firstLeaf child (p ++ [0])

/-- What ends the traversal without an answer: an assertion, a name that is `NULL`, a pointer to
nothing, or a loop that was given too few rounds. -/
inductive TraverseFault
  | assertion
  | nullName
  | dangling
  | outOfRounds
  deriving DecidableEq

def descend (root : Node) (p : Position) : Except TraverseFault (Option Position) :=
  match root.at p with
  | some node => .ok (some (firstLeaf node p))
  | none => .error .dangling

def getNext (root : Node) (top : Position) : Option Position → Except TraverseFault (Option Position)
  | none => descend root top
  | some cur =>
    match nextSibling root cur with
    | none =>
      if cur = top ∨ cur.parent = some top then .ok none
      else match cur.parent with
        | none => .error .assertion
        | some parent => .ok (some parent)
    | some sibling => descend root sibling

/-- `strcmp` of the name of a node with another. -/
def hasName (root : Node) (name : CString) (p : Position) : Except TraverseFault Bool :=
  match root.at p with
  | none => .error .dangling
  | some node =>
    match node.name with
    | none => .error .nullName
    | some own => .ok (own = name)

mutual

/-- A node, and all below it, with the children before their parents. -/
def postOrder (p : Position) : Node → List Position
  | .mk _ _ _ children _ => postOrderChildren p 0 children ++ [p]

def postOrderChildren (p : Position) (i : Nat) : List Node → List Position
  | [] => []
  | child :: rest => postOrder (p ++ [i]) child ++ postOrderChildren p (i + 1) rest

end

/-- `xml_node_get_next_named`. The loop need not go on for more rounds than there are nodes. -/
def getNextNamed (root : Node) (top : Position) (name : CString) :
    Option Position → Except TraverseFault (Option Position) :=
  search (getNext root top) (hasName root name) .outOfRounds ((postOrder [] root).length + 1)

/-- In post-order, what is below a node is before it, and what is below a sibling is before all
that is below a later one. -/
def Before (p q : Position) : Prop :=
  (q <+: p ∧ q ≠ p) ∨ ∃ r i j, i < j ∧ r ++ [i] <+: p ∧ r ++ [j] <+: q

/-- The nodes that are to be visited: those below the top, or the top itself when it is a leaf. -/
def Due (root : Node) (top p : Position) : Prop :=
  ∃ node, root.at top = some node ∧ (root.at p).isSome ∧
    if node.children = [] then p = top else top <+: p ∧ p ≠ top

/-- All that is due, each once, in post-order. -/
structure Complete (root : Node) (top : Position) (visited : List Position) : Prop where
  due : ∀ p, p ∈ visited ↔ Due root top p
  once : visited.Nodup
  order : visited.Pairwise Before

/-- Both traversals from `NULL` on. -/
def Traverses (root : Node) (top : Position) : Prop :=
  ∃ visited, Complete root top visited ∧ Visits (getNext root top) none visited ∧
    ∀ name, Visits (getNextNamed root top name) none
      (visited.filter fun p => (root.at p).bind Node.name = some name)

section Positions

variable {root node : Node}

theorem Before.irrefl (p : Position) : ¬ Before p p := by
  rintro (⟨-, different⟩ | ⟨r, i, j, less, ⟨s, first⟩, ⟨t, second⟩⟩)
  · exact different rfl
  · have same := first.trans second.symm
    simp only [List.append_assoc, List.append_cancel_left_eq, List.cons_append, List.cons.injEq] at same
    omega

theorem Node.at_append (node : Node) (p q : Position) : node.at (p ++ q) = (node.at p).bind fun inner => inner.at q := by
  induction p generalizing node with
  | nil => simp [Node.at]
  | cons i p ih =>
    simp only [List.cons_append, Node.at, Option.bind_assoc]
    exact congrArg _ (funext ih)

theorem at_child (found : root.at p = some node) (i : Nat) : root.at (p ++ [i]) = node.children[i]? := by
  rw [Node.at_append, found]
  simp [Node.at]

theorem nextSibling_child (found : root.at p = some node) (i : Nat) :
    nextSibling root (p ++ [i]) =
      if (node.children[i + 1]?).isSome then some (p ++ [i + 1]) else none := by
  simp [nextSibling, at_child found]

end Positions

mutual

theorem mem_postOrder (p q : Position) : ∀ node, q ∈ postOrder p node ↔ ∃ s, q = p ++ s ∧ (node.at s).isSome
  | .mk name attrs cdata children line => by
    rw [postOrder, List.mem_append, List.mem_singleton, mem_postOrderChildren p 0 q children]
    constructor
    · rintro (⟨i, s, rfl, inside⟩ | rfl)
      · exact ⟨i :: s, by simp, by simpa [Node.at, Node.children] using inside⟩
      · exact ⟨[], by simp, rfl⟩
    · rintro ⟨s, rfl, inside⟩
      cases s with
      | nil => exact .inr (by simp)
      | cons i s => exact .inl ⟨i, s, by simp, by simpa [Node.at, Node.children] using inside⟩

theorem mem_postOrderChildren (p : Position) (i : Nat) (q : Position) :
    ∀ children, q ∈ postOrderChildren p i children ↔
      ∃ j s, q = p ++ (i + j) :: s ∧ (children[j]?.bind fun child => child.at s).isSome
  | [] => by simp [postOrderChildren]
  | child :: rest => by
    rw [postOrderChildren, List.mem_append, mem_postOrder (p ++ [i]) q child, mem_postOrderChildren p (i + 1) q rest]
    constructor
    · rintro (⟨s, rfl, inside⟩ | ⟨j, s, rfl, inside⟩)
      · exact ⟨0, s, by simp, by simpa using inside⟩
      · exact ⟨j + 1, s, by rw [Nat.add_assoc, Nat.add_comm 1 j], by simpa using inside⟩
    · rintro ⟨j, s, rfl, inside⟩
      cases j with
      | zero => exact .inl ⟨s, by simp, by simpa using inside⟩
      | succ j => exact .inr ⟨j, s, by rw [Nat.add_assoc, Nat.add_comm 1 j], by simpa using inside⟩

end

mutual

theorem postOrder_pairwise (p : Position) : ∀ node, (postOrder p node).Pairwise Before
  | .mk name attrs cdata children line => by
    rw [postOrder, List.pairwise_append]
    refine ⟨postOrderChildren_pairwise p 0 children, by simp, ?_⟩
    intro q member last same
    obtain rfl := List.mem_singleton.mp same
    obtain ⟨i, s, rfl, -⟩ := (mem_postOrderChildren last 0 q children).mp member
    exact .inl ⟨List.prefix_append _ _, by simp⟩

theorem postOrderChildren_pairwise (p : Position) (i : Nat) : ∀ children, (postOrderChildren p i children).Pairwise Before
  | [] => by simp [postOrderChildren]
  | child :: rest => by
    rw [postOrderChildren, List.pairwise_append]
    refine ⟨postOrder_pairwise (p ++ [i]) child, postOrderChildren_pairwise p (i + 1) rest, ?_⟩
    intro q here q' there
    obtain ⟨s, rfl, -⟩ := (mem_postOrder (p ++ [i]) q child).mp here
    obtain ⟨j, t, rfl, -⟩ := (mem_postOrderChildren p (i + 1) q' rest).mp there
    exact .inr ⟨p, i, i + 1 + j, by omega, List.prefix_append _ _, t, by simp⟩

end

theorem nodup_of_before {list : List Position} (order : list.Pairwise Before) : list.Nodup := by
  refine order.imp ?_
  rintro p _ before rfl
  exact Before.irrefl p before

section Walk

variable {root node : Node}

/-- A list that starts with a position, from which the traversal gives the rest. -/
def Starts (root : Node) (top p : Position) (list : List Position) : Prop :=
  ∃ rest, list = p :: rest ∧ Visits (getNext root top) (some p) rest

theorem descend_found (found : root.at p = some node) : descend root p = .ok (some (firstLeaf node p)) := by
  rw [descend, found]

theorem parent_append (p : Position) (i : Nat) : Position.parent (p ++ [i]) = some p := by
  simp [Position.parent]

/-- Behind the last child comes the parent, unless it is the top. -/
theorem getNext_last (found : root.at p = some node) (last : i + 1 = node.children.length)
    (inside : top <+: p) : getNext root top (some (p ++ [i])) = .ok (if p = top then none else some p) := by
  have none_ : nextSibling root (p ++ [i]) = none := by
    rw [nextSibling_child found, if_neg]
    rw [List.getElem?_eq_none (by omega)]
    nofun
  have apart : p ++ [i] ≠ top := by
    rintro rfl
    have shorter := inside.length_le
    simp at shorter
  simp only [getNext, none_, parent_append, apart, false_or, Option.some.injEq]
  split <;> rfl

/-- Behind another child come the leaves of the next one. -/
theorem getNext_sibling (found : root.at p = some node) (next : node.children[i + 1]? = some child) :
    getNext root top (some (p ++ [i])) = .ok (some (firstLeaf child (p ++ [i + 1]))) := by
  have sibling : nextSibling root (p ++ [i]) = some (p ++ [i + 1]) := by
    rw [nextSibling_child found, if_pos (by rw [next]; rfl)]
  simp only [getNext, sibling]
  exact descend_found ((at_child found _).trans next)

mutual

/-- A subtree is walked through from its first leaf to its root, and then it goes on there. -/
theorem starts_postOrder : ∀ (node : Node) (p : Position) (last : List Position),
    root.at p = some node → top <+: p → p ≠ top → Visits (getNext root top) (some p) last →
      Starts root top (firstLeaf node p) (postOrder p node ++ last)
  | .mk name attrs cdata children line, p, last, found, inside, below, later => by
    have walk := starts_children children p _ 0 ([p] ++ last) found rfl inside (by
      intro i at_end
      have step := getNext_last found at_end inside
      rw [if_neg below] at step
      exact ⟨step, later⟩)
    rw [postOrder, List.append_assoc]
    cases children with
    | nil => exact ⟨last, rfl, later⟩
    | cons child rest => exact walk child rfl

theorem starts_children : ∀ (children : List Node) (p : Position) (parent : Node) (i : Nat)
    (tail : List Position), root.at p = some parent → parent.children.drop i = children → top <+: p →
      (∀ i, i + 1 = parent.children.length → Visits (getNext root top) (some (p ++ [i])) tail) →
      ∀ child, children.head? = some child →
        Starts root top (firstLeaf child (p ++ [i])) (postOrderChildren p i children ++ tail)
  | [], _, _, _, _, _, _, _, _ => nofun
  | child :: rest, p, parent, i, tail, found, split, inside, later => by
    rintro _ ⟨rfl⟩
    have here : root.at (p ++ [i]) = some child := by
      rw [at_child found, ← List.head?_drop, split]
      rfl
    have behind : parent.children.drop (i + 1) = rest := by
      rw [← List.tail_drop, split]
      rfl
    have walk := starts_children rest p parent (i + 1) tail found behind inside later
    have apart : p ++ [i] ≠ top := by
      rintro rfl
      have shorter := inside.length_le
      simp at shorter
    rw [postOrderChildren, List.append_assoc]
    refine starts_postOrder child (p ++ [i]) _ here (inside.trans (List.prefix_append _ _)) apart ?_
    cases rest with
    | nil =>
      have at_end : i + 1 = parent.children.length := by
        have lengths := congrArg List.length split
        simp only [List.length_drop, List.length_cons, List.length_nil] at lengths
        omega
      exact later i at_end
    | cons next others =>
      obtain ⟨more, same, visits⟩ := walk next rfl
      have sibling : parent.children[i + 1]? = some next := by
        rw [← List.head?_drop, behind]
        rfl
      rw [same]
      exact ⟨getNext_sibling found sibling, visits⟩

end

/-- What the traversal gives, if the top is no leaf that has a sibling behind it. -/
def visited (node : Node) (top : Position) : List Position :=
  if node.children = [] then [top] else postOrderChildren top 0 node.children

theorem visits_visited (found : root.at top = some node) (alone : node.children = [] → nextSibling root top = none) :
    Visits (getNext root top) none (visited node top) := by
  unfold visited
  obtain ⟨name, attrs, cdata, children, line⟩ := node
  cases children with
  | nil =>
    have last : getNext root top (some top) = .ok none := by simp [getNext, alone rfl]
    exact ⟨descend_found found, last⟩
  | cons child rest =>
    rw [if_neg nofun]
    have later : ∀ i, i + 1 = (child :: rest).length → Visits (getNext root top) (some (top ++ [i])) [] := by
      intro i at_end
      exact (getNext_last found at_end List.prefix_rfl).trans (by rw [if_pos rfl])
    obtain ⟨more, same, visits⟩ := starts_children (child :: rest) top _ 0 [] found rfl List.prefix_rfl later child rfl
    rw [List.append_nil] at same
    simp only [Node.children]
    rw [same]
    exact ⟨descend_found found, visits⟩

theorem complete_visited (found : root.at top = some node) : Complete root top (visited node top) := by
  have order : (visited node top).Pairwise Before := by
    unfold visited
    split
    · exact List.pairwise_singleton _ _
    · exact postOrderChildren_pairwise _ _ _
  refine ⟨fun p => ?_, nodup_of_before order, order⟩
  have due : Due root top p ↔ (root.at p).isSome ∧
      if node.children = [] then p = top else top <+: p ∧ p ≠ top := by
    refine ⟨?_, fun rest => ⟨node, found, rest⟩⟩
    rintro ⟨other, found', rest⟩
    cases found.symm.trans found'
    exact rest
  rw [due]
  unfold visited
  split
  · rw [List.mem_singleton]
    refine ⟨?_, And.right⟩
    rintro rfl
    exact ⟨by rw [found]; rfl, rfl⟩
  · rw [mem_postOrderChildren]
    have inner : ∀ i s, root.at (top ++ i :: s) = node.children[i]?.bind fun child => child.at s := by
      intro i s
      rw [Node.at_append, found]
      rfl
    constructor
    · rintro ⟨i, s, rfl, inside⟩
      rw [Nat.zero_add, inner]
      exact ⟨inside, List.prefix_append _ _, by simp⟩
    · rintro ⟨inside, ⟨s, rfl⟩, below⟩
      cases s with
      | nil => simp at below
      | cons i s => exact ⟨i, s, by simp, inner i s ▸ inside⟩

end Walk

section Named

variable {root node : Node} {name : CString}

theorem hasName_ok {p : Position} {pass : Bool} (tested : hasName root name p = .ok pass) :
    decide ((root.at p).bind Node.name = some name) = pass ∧ (root.at p).bind Node.name ≠ none := by
  unfold hasName at tested
  cases found : root.at p with
  | none => simp [found] at tested
  | some inner =>
    cases own : inner.name with
    | none => simp [found, own] at tested
    | some other =>
      simp only [found, own, Except.ok.injEq] at tested
      simp [own, tested]

theorem hasName_named {p : Position} (named : (root.at p).bind Node.name ≠ none) :
    hasName root name p = .ok (decide ((root.at p).bind Node.name = some name)) := by
  unfold hasName
  cases found : root.at p with
  | none => simp [found] at named
  | some inner =>
    cases own : inner.name with
    | none => simp [found, own] at named
    | some other => simp [own]

/-- There are no more nodes to visit than the tree has. -/
theorem length_complete (complete : Complete root top list) : list.length < (postOrder [] root).length + 1 := by
  refine Nat.lt_succ_of_le (List.Nodup.subperm complete.once fun p member => ?_).length_le
  obtain ⟨_, _, inside, _⟩ := (complete.due p).mp member
  exact (mem_postOrder [] p root).mpr ⟨p, rfl, inside⟩

/-- A leaf that is the top is left to its sibling. -/
theorem alone_of_visits (found : root.at top = some node) (complete : Complete root top list)
    (visits : Visits (getNext root top) none list) (leaf : node.children = []) : nextSibling root top = none := by
  have only : ∀ p ∈ list, p = top := by
    intro p member
    obtain ⟨other, found', _, due⟩ := (complete.due p).mp member
    cases found.symm.trans found'
    rwa [if_pos leaf] at due
  have start : getNext root top none = .ok (some (firstLeaf node top)) := descend_found found
  cases list with
  | nil => cases start.symm.trans visits
  | cons p rest =>
    obtain rfl := only p List.mem_cons_self
    cases rest with
    | cons q rest =>
      have twice := (List.nodup_cons.mp complete.once).1
      rw [only q (by simp)] at twice
      exact absurd List.mem_cons_self twice
    | nil =>
      have last : getNext root p (some p) = .ok none := visits.2
      cases sibling : nextSibling root p with
      | none => rfl
      | some q =>
        simp only [getNext, sibling, descend] at last
        split at last <;> cases last

end Named

/-- The traversals are as they should be if and only if the top is not a leaf with a sibling
behind it, and what is visited has names to compare. -/
theorem traverses_iff {root node : Node} {top : Position} (found : root.at top = some node) :
    Traverses root top ↔
      (node.children = [] → nextSibling root top = none) ∧
        ∀ p, Due root top p → (root.at p).bind Node.name ≠ none := by
  constructor
  · rintro ⟨list, complete, visits, named⟩
    refine ⟨alone_of_visits found complete visits, fun p due => ?_⟩
    have searched := visits.search_tests (fun _ _ tested => (hasName_ok tested).1) (named [])
    obtain ⟨pass, tested⟩ := searched p ((complete.due p).mpr due)
    exact (hasName_ok tested).2
  · rintro ⟨alone, named⟩
    have complete := complete_visited found
    have visits := visits_visited found alone
    refine ⟨_, complete, visits, fun name => visits.search_filter (length_complete complete) ?_⟩
    intro p member
    exact hasName_named (named p ((complete.due p).mp member))

/-- A document with an element that has two children. -/
def twoChildren : Node :=
  .mk none [] none [.mk (some (ascii ['a'])) [] none
    [.mk (some (ascii ['b'])) [] none [] none, .mk (some (ascii ['c'])) [] none [] none] none] none

theorem traverses_twoChildren : Traverses twoChildren [] := by
  refine (traverses_iff rfl).mpr ⟨nofun, fun p due => ?_⟩
  have named : ∀ p ∈ visited twoChildren [], (twoChildren.at p).bind Node.name ≠ none := by
    decide +kernel
  exact named p (((complete_visited rfl).due p).mpr due)

/-- From the leaf `b`, the traversal goes on to its sibling. -/
theorem traverses_leaf : ¬ ∀ (root node : Node) (top : Position), root.at top = some node →
    Traverses root top := by
  intro claimed
  obtain ⟨list, complete, visits, -⟩ := claimed twoChildren _ [0, 0] rfl
  have alone := alone_of_visits rfl complete visits rfl
  revert alone
  decide +kernel

end Testbus.Xml
