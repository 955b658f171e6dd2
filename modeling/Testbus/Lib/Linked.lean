import Testbus.Lib.Store

/-! Singly linked lists: what is visited from a head pointer along the links of cells. -/

namespace Lib

/-- From `head` the links visit the addresses of the list, all live, and end. -/
def Linked (link : Addr → Option (Option Addr)) : Option Addr → List Addr → Prop
  | head, [] => head = none
  | head, a :: rest => head = some a ∧ ∃ tail, link a = some tail ∧ Linked link tail rest

namespace Linked

variable {link link' : Addr → Option (Option Addr)} {head : Option Addr}
  {list before after : List Addr}

theorem live (linked : Linked link head list) (member : a ∈ list) : ∃ tail, link a = some tail := by
  induction list generalizing head with
  | nil => cases member
  | cons first rest ih =>
    obtain ⟨-, tail, here, later⟩ := linked
    rcases List.mem_cons.mp member with rfl | member
    · exact ⟨tail, here⟩
    · exact ih later member

theorem congr (linked : Linked link head list) (same : ∀ a ∈ list, link' a = link a) : Linked link' head list := by
  induction list generalizing head with
  | nil => exact linked
  | cons first rest ih =>
    obtain ⟨here, tail, next, later⟩ := linked
    refine ⟨here, tail, ?_, ih later fun a member => same a (List.mem_cons_of_mem _ member)⟩
    rw [same first List.mem_cons_self, next]

theorem unique (linked : Linked link head list) (linked' : Linked link head other) : list = other := by
  induction list generalizing head other with
  | nil =>
    cases other with
    | nil => rfl
    | cons b rest => cases linked.symm.trans linked'.1
  | cons a rest ih =>
    cases other with
    | nil => cases linked.1.symm.trans linked'
    | cons b rest' =>
      obtain ⟨here, tail, next, later⟩ := linked
      obtain ⟨here', tail', next', later'⟩ := linked'
      obtain rfl : a = b := Option.some.inj (here.symm.trans here')
      obtain rfl : tail = tail' := Option.some.inj (next.symm.trans next')
      rw [ih later later']

/-- What a list visits after some cells hangs off a pointer of its own. -/
theorem suffix (linked : Linked link head (before ++ after)) : ∃ tail, Linked link tail after := by
  induction before generalizing head with
  | nil => exact ⟨head, linked⟩
  | cons a rest ih =>
    obtain ⟨-, tail, -, later⟩ := linked
    exact ih later

theorem nodup (linked : Linked link head list) : list.Nodup := by
  induction list generalizing head with
  | nil => exact List.nodup_nil
  | cons a rest ih =>
    have later : ∃ tail, link a = some tail ∧ Linked link tail rest := linked.2
    obtain ⟨tail, next, later⟩ := later
    refine List.nodup_cons.mpr ⟨?_, ih later⟩
    intro again
    -- the second visit would leave the cell along the same link, and so never end
    obtain ⟨before, after, rfl⟩ := List.append_of_mem again
    obtain ⟨pointer, second⟩ := suffix later
    obtain ⟨-, tail', next', short⟩ := second
    obtain rfl : tail = tail' := Option.some.inj (next.symm.trans next')
    have lengths := congrArg List.length (later.unique short)
    simp only [List.length_append, List.length_cons] at lengths
    omega

theorem push (linked : Linked link head list) (apart : a ∉ list) :
    Linked (Function.update link a (some head)) (some a) (a :: list) := by
  refine ⟨rfl, head, Function.update_self .., linked.congr ?_⟩
  intro b member
  exact Function.update_of_ne (ne_of_mem_of_not_mem member apart) _ _

/-- Let the link of a cell on the list lead elsewhere. -/
theorem splice (linked : Linked link head (before ++ a :: after)) (same : ∀ b ∈ before, link' b = link b)
    (next : link' a = some target) (tail : Linked link' target rest) : Linked link' head (before ++ a :: rest) := by
  induction before generalizing head with
  | nil => exact ⟨linked.1, target, next, tail⟩
  | cons b before ih =>
    obtain ⟨here, pointer, link_b, later⟩ := linked
    refine ⟨here, pointer, ?_, ih later fun c member => same c (List.mem_cons_of_mem _ member)⟩
    rw [same b List.mem_cons_self, link_b]

theorem pop (linked : Linked link head (a :: after))
    (next : link a = some tail) : Linked (Function.update link a (some none)) tail after := by
  have apart := (List.nodup_cons.mp linked.nodup).1
  obtain ⟨-, tail', next', later⟩ := linked
  obtain rfl : tail = tail' := Option.some.inj (next.symm.trans next')
  apply later.congr
  intro b member
  exact Function.update_of_ne (ne_of_mem_of_not_mem member apart) _ _

/-- Take a cell out behind another one, whose link then skips it. -/
theorem unlink (linked : Linked link head (before ++ b :: a :: after)) (next : link a = some tail) :
    Linked (Function.update (Function.update link b (some tail)) a (some none)) head (before ++ b :: after) := by
  have distinct := linked.nodup
  obtain ⟨pointer, -, next_b, -, second⟩ := suffix linked
  obtain ⟨-, tail', next', last⟩ := second
  obtain rfl : tail = tail' := Option.some.inj (next.symm.trans next')
  have apart : ∀ c ∈ before ++ b :: after, c ≠ a := by
    rintro c member rfl
    grind
  have behind : ∀ c ∈ before ++ after, c ≠ b := by
    rintro c member rfl
    grind
  have kept : ∀ c ∈ before ++ after, Function.update (Function.update link b (some tail)) a (some none) c = link c := by
    intro c member
    rw [Function.update_of_ne (apart c (by grind)), Function.update_of_ne (behind c member)]
  apply linked.splice
  · exact fun c member => kept c (List.mem_append_left _ member)
  · rw [Function.update_of_ne (apart b (by simp)), Function.update_self]
  · exact last.congr fun c member => kept c (List.mem_append_right _ member)

end Linked

end Lib
