import Testbus.Subprocess.State

namespace Testbus.Subprocess

open Lib

variable {s s' : State} {a b : Addr} {pid : Nat} {head pos : Option Addr}
  {list before after : List Addr}

/-- The wait queue ends, and has the started processes. -/
def Queued (s : State) : Prop :=
  ∃ list, Linked s.link s.queue list ∧ ∀ a, a ∈ list ↔ a ∈ s.started

/-- Every exit was reported once or its child is still to be waited for, which the signal or the
loop that runs will see to. -/
structure Reported (s : State) : Prop where
  once : s.exits.Perm (s.reports ++ s.children.filterMap Child.due)
  pending : ∀ child ∈ s.children, child.ended.isSome → s.sigchldReceived ∨ 0 < s.reaping

/-- A child and the process that it was forked for. -/
structure Runs (processes : Store Process) (child : Child) (pi : Process) : Prop where
  live : processes.cells child.owner = some pi
  pid : pi.pid = child.pid
  callback : pi.exitCallback = child.callback

structure Tidy (s : State) : Prop where
  queued : Queued s
  nodup : s.started.Nodup
  running : ∀ a ∈ s.started, ∃ child ∈ s.children, child.owner = a
  children : ∀ child ∈ s.children, child.pid ≠ 0 ∧ child.owner ∈ s.started ∧
    ∃ pi, Runs s.processes child pi
  pids : (s.children.map Child.pid).Nodup
  idle : ∀ a pi, s.processes.cells a = some pi → a ∉ s.started → pi.pid = 0 ∧ pi.next = none
  handler : s.children ≠ [] → s.handlerEstablished = true
  reported : Reported s

theorem find_some (linked : Linked s.link head (before ++ a :: after))
    (skip : ∀ b ∈ before, ∀ pi, s.processes.cells b = some pi → pi.pid ≠ pid)
    (found : s.processes.cells a = some pi) (here : pi.pid = pid) (enough : before.length < steps) : s.find pid steps pos head = .ok (some (before.getLast?.or pos, a)) := by
  induction before generalizing head pos steps with
  | nil =>
    obtain ⟨rfl, -⟩ := linked
    obtain ⟨steps, rfl⟩ := Nat.exists_eq_succ_of_ne_zero (Nat.ne_of_gt enough)
    simp [State.find, found, here]
  | cons b rest ih =>
    obtain ⟨rfl, tail, next, later⟩ := linked
    obtain ⟨steps, rfl⟩ := Nat.exists_eq_succ_of_ne_zero (Nat.ne_of_gt (Nat.zero_lt_of_lt enough))
    obtain ⟨other, cell, rfl⟩ := Option.map_eq_some_iff.mp next
    have passed : other.pid ≠ pid := skip b List.mem_cons_self other cell
    simp only [State.find, cell, if_neg passed]
    rw [ih later (fun c member => skip c (List.mem_cons_of_mem _ member)) (by simpa using enough)]
    simp [List.getLast?_cons]

theorem filterMap_middle (child : Child) (before after : List Child) :
    (before ++ child :: after).filterMap Child.due =
      before.filterMap Child.due ++ (child.due.toList ++ after.filterMap Child.due) := by
  rw [List.filterMap_append]
  cases due : child.due <;> simp [due]

theorem length_le (linked : Linked s.link head list) : list.length ≤ s.processes.live.card := by
  rw [← List.toFinset_card_of_nodup linked.nodup]
  apply Finset.card_le_card
  intro a member
  obtain ⟨tail, live⟩ := linked.live (List.mem_toFinset.mp member)
  obtain ⟨pi, cell, -⟩ := Option.map_eq_some_iff.mp live
  exact Store.mem_live cell

theorem link_next (modified : s'.processes = s.processes.modify a change) (found : s.processes.cells a = some pi)
    (next : ∀ pi, (change pi).next = target) : s'.link = Function.update s.link a (some target) := by
  funext b
  rw [State.link, modified]
  by_cases same : b = a
  · subst same
    simp [found, next]
  · rw [Store.modify_of_ne same, Function.update_of_ne same, State.link]

/-- What an attempt to start a program does: nothing, a process in the queue without a child, or a
child. -/
theorem runProcess_cases (ran : s.runProcess a attempt = .ok (s', forked)) : (forked = false ∧ s' = s) ∨
    ∃ pi, s.processes.cells a = some pi ∧ pi.pid = 0 ∧ attempt.executable = true ∧
      ((attempt.fork = none ∧ forked = false ∧ s' = s.addWaitq a pi) ∨
      ∃ pid, attempt.fork = some pid ∧ pid ≠ 0 ∧ (∀ child ∈ s.children, child.pid ≠ pid) ∧
        forked = true ∧ s' = (s.addWaitq a pi).fork a pi pid) := by
  unfold State.runProcess at ran
  split at ran
  · cases ran
  next pi found =>
    split_ifs at ran with running command able
    · cases ran
      exact .inl ⟨rfl, rfl⟩
    on_goal 2 =>
      cases ran
      exact .inl ⟨rfl, rfl⟩
    have idle : pi.pid = 0 := not_not.mp running
    refine .inr ⟨pi, found, idle, able, ?_⟩
    split at ran
    next failed =>
      cases ran
      exact .inl ⟨failed, rfl, rfl⟩
    next pid forked_pid =>
      split_ifs at ran with taken
      cases ran
      push Not at taken
      exact .inr ⟨pid, forked_pid, taken.1, taken.2, rfl, rfl⟩

namespace Tidy

theorem running_pid (tidy : Tidy s) (found : s.processes.cells a = some pi) : a ∈ s.started ↔ pi.pid ≠ 0 := by
  constructor
  · intro started
    obtain ⟨child, member, rfl⟩ := tidy.running a started
    obtain ⟨nonzero, -, other, runs⟩ := tidy.children child member
    obtain rfl : other = pi := Option.some.inj (runs.live.symm.trans found)
    rw [runs.pid]
    exact nonzero
  · intro nonzero
    by_contra idle
    exact nonzero (tidy.idle a pi found idle).1

/-- No two children belong to one process. -/
theorem owner_inj (tidy : Tidy s) (member : child ∈ s.children)
    (member' : other ∈ s.children) (same : child.owner = other.owner) : child = other := by
  obtain ⟨-, -, pi, runs⟩ := tidy.children child member
  obtain ⟨-, -, pi', runs'⟩ := tidy.children other member'
  obtain rfl : pi = pi' := by
    apply Option.some.inj
    rw [← runs.live, ← runs'.live, same]
  exact List.inj_on_of_nodup_map tidy.pids member member' (runs.pid.symm.trans runs'.pid)

theorem new (tidy : Tidy s) (absent : s.processes.cells a = none) :
    Tidy { s with processes := s.processes.alloc a { shellcmd, exitCallback } } := by
  have apart : ∀ {b pi}, s.processes.cells b = some pi → b ≠ a := by
    rintro b pi found rfl
    cases absent.symm.trans found
  refine { tidy with queued := ?_, children := ?_, idle := ?_, reported := ⟨tidy.reported.once, tidy.reported.pending⟩ }
  · obtain ⟨list, linked, members⟩ := tidy.queued
    refine ⟨list, linked.congr ?_, members⟩
    intro b member
    obtain ⟨tail, live⟩ := linked.live member
    obtain ⟨pi, found, -⟩ := Option.map_eq_some_iff.mp live
    simp only [State.link, Store.alloc_of_ne (apart found)]
  · intro child member
    obtain ⟨nonzero, started, pi, runs⟩ := tidy.children child member
    refine ⟨nonzero, started, pi, ?_, runs.pid, runs.callback⟩
    exact (Store.alloc_of_ne (apart runs.live)).trans runs.live
  · intro b pi found idle
    by_cases same : b = a
    · subst same
      obtain rfl := Option.some.inj ((Store.alloc_self ..).symm.trans found)
      exact ⟨rfl, rfl⟩
    · exact tidy.idle b pi ((Store.alloc_of_ne same).symm.trans found) idle

theorem free (tidy : Tidy s) (found : s.processes.cells a = some pi) (idle : pi.pid = 0) :
    Tidy { s with processes := s.processes.free a, started := s.started.erase a } := by
  have stopped : a ∉ s.started := fun started => (tidy.running_pid found).mp started idle
  have apart : ∀ b ∈ s.started, b ≠ a := fun b member => ne_of_mem_of_not_mem member stopped
  rw [List.erase_of_not_mem stopped]
  refine { tidy with queued := ?_, children := ?_, idle := ?_, reported := ⟨tidy.reported.once, tidy.reported.pending⟩ }
  · obtain ⟨list, linked, members⟩ := tidy.queued
    refine ⟨list, linked.congr ?_, members⟩
    intro b member
    simp only [State.link, Store.free_of_ne (apart b ((members b).mp member))]
  · intro child member
    obtain ⟨nonzero, started, pi, runs⟩ := tidy.children child member
    refine ⟨nonzero, started, pi, ?_, runs.pid, runs.callback⟩
    exact (Store.free_of_ne (apart _ started)).trans runs.live
  · intro b pi found idle
    by_cases same : b = a
    · subst same
      cases (Store.free_self ..).symm.trans found
    · exact tidy.idle b pi ((Store.free_of_ne same).symm.trans found) idle

theorem fork (tidy : Tidy s) (found : s.processes.cells a = some pi) (idle : pi.pid = 0)
    (nonzero : pid ≠ 0) (fresh : ∀ child ∈ s.children, child.pid ≠ pid) :
    Tidy { (s.addWaitq a pi).fork a pi pid with
      started := a :: ((s.addWaitq a pi).fork a pi pid).started } := by
  have stopped : a ∉ s.started := fun started => (tidy.running_pid found).mp started idle
  have unset : pi.next = none := (tidy.idle a pi found stopped).2
  have added : s.addWaitq a pi = { s with
      handlerEstablished := true
      processes := s.processes.modify a fun pi => { pi with next := s.queue }
      queue := some a } := by
    rw [State.addWaitq, unset]
    exact if_neg (not_not.mpr rfl)
  have same : ((s.addWaitq a pi).fork a pi pid).started = s.started := by rw [added]; rfl
  rw [same]
  have cells : ((s.addWaitq a pi).fork a pi pid).processes =
      s.processes.modify a fun pi => { pi with next := s.queue, pid } := by
    rw [added]
    exact Store.modify_modify ..
  have others : ∀ b, b ≠ a → ((s.addWaitq a pi).fork a pi pid).processes.cells b = s.processes.cells b := by
    intro b different
    rw [cells, Store.modify_of_ne different]
  have children : ((s.addWaitq a pi).fork a pi pid).children =
      s.children ++ [{ pid, owner := a, callback := pi.exitCallback }] := by rw [added]; rfl
  constructor
  · obtain ⟨list, linked, members⟩ := tidy.queued
    refine ⟨a :: list, ?_, by simp [members]⟩
    have queue : ((s.addWaitq a pi).fork a pi pid).queue = some a := by rw [added]; rfl
    have pushed := linked.push (mt (members a).mp stopped)
    rwa [← link_next cells found fun _ => rfl, ← queue] at pushed
  · exact List.nodup_cons.mpr ⟨stopped, tidy.nodup⟩
  · intro b started
    rw [children]
    rcases List.mem_cons.mp started with rfl | started
    · exact ⟨_, List.mem_append_right _ (List.mem_singleton_self _), rfl⟩
    · obtain ⟨child, member, owner⟩ := tidy.running b started
      exact ⟨child, List.mem_append_left _ member, owner⟩
  · intro child member
    rw [children] at member
    rcases List.mem_append.mp member with member | new
    · obtain ⟨nonzero, started, other, runs⟩ := tidy.children child member
      refine ⟨nonzero, List.mem_cons_of_mem _ started, other, ?_, runs.pid, runs.callback⟩
      exact (others _ (ne_of_mem_of_not_mem started stopped)).trans runs.live
    · obtain rfl := List.mem_singleton.mp new
      refine ⟨nonzero, List.mem_cons_self, { pi with next := s.queue, pid }, ?_, rfl, rfl⟩
      rw [cells, Store.modify_self, found]
      rfl
  · rw [children]
    simpa [List.nodup_append, tidy.pids] using fun child member => fresh child member
  · intro b other found idle
    obtain ⟨different, idle⟩ := not_or.mp (mt List.mem_cons.mpr idle)
    exact tidy.idle b other ((others b different).symm.trans found) idle
  · intro _
    rw [added]
    rfl
  · rw [added]
    constructor
    · have silent : Child.due { pid, owner := a, callback := pi.exitCallback } = none := rfl
      simpa [State.fork, List.filterMap_cons, silent] using tidy.reported.once
    · intro child member ended
      rcases List.mem_append.mp member with member | new
      · exact tidy.reported.pending child member ended
      · obtain rfl := List.mem_singleton.mp new
        cases ended

/-- The child with a number, among the others. -/
theorem split (tidy : Tidy s) (found : s.children.find? (·.pid = pid) = some child) :
    child.pid = pid ∧ ∃ before after, s.children = before ++ child :: after ∧
      ∀ other ∈ before ++ after, other.pid ≠ pid := by
  obtain ⟨here, before, after, parts, -⟩ := List.find?_eq_some_iff_append.mp found
  have here : child.pid = pid := by simpa using here
  refine ⟨here, before, after, parts, ?_⟩
  intro other member same
  have pids := tidy.pids
  rw [parts, List.map_append, List.map_cons] at pids
  have moved : (child.pid :: (before.map Child.pid ++ after.map Child.pid)).Nodup := (List.perm_middle.nodup_iff).mp pids
  apply (List.nodup_cons.mp moved).1
  rw [here, ← same, ← List.map_append]
  exact List.mem_map_of_mem member

/-- A child ends, and the signal says so. -/
theorem exits (tidy : Tidy s) (found : s.children.find? (·.pid = pid) = some child) (alive : child.ended = none) :
    Tidy { s.sigchld with
      children := s.children.map fun child =>
        if child.pid = pid then { child with ended := some status } else child
      exits := s.exits ++ (child.report status).toList } := by
  obtain ⟨rfl, before, after, parts, others⟩ := tidy.split found
  have unchanged : ∀ list : List Child, (∀ other ∈ list, other.pid ≠ child.pid) →
      list.map (fun other => if other.pid = child.pid then { other with ended := some status }
        else other) = list := by
    intro list apart
    apply (List.map_congr_left fun other member => if_neg (apart other member)).trans
    exact List.map_id list
  have children : s.children.map (fun other => if other.pid = child.pid then
      { other with ended := some status } else other) =
      before ++ { child with ended := some status } :: after := by
    rw [parts, List.map_append, List.map_cons, if_pos rfl,
      unchanged before fun other member => others other (List.mem_append_left _ member),
      unchanged after fun other member => others other (List.mem_append_right _ member)]
  have kept : ∀ other ∈ before ++ { child with ended := some status } :: after,
      ∃ old ∈ s.children, old.pid = other.pid ∧ old.owner = other.owner ∧ old.callback = other.callback := by
    intro other member
    rw [parts]
    rcases List.mem_append.mp member with member | member
    · exact ⟨other, List.mem_append_left _ member, rfl, rfl, rfl⟩
    rcases List.mem_cons.mp member with rfl | member
    · exact ⟨child, by simp, rfl, rfl, rfl⟩
    · exact ⟨other, by simp [member], rfl, rfl, rfl⟩
  have signalled : s.handlerEstablished = true := by
    apply tidy.handler
    simp [parts]
  rw [children]
  constructor
  · exact tidy.queued
  · exact tidy.nodup
  · intro a started
    obtain ⟨old, member, owner⟩ := tidy.running a started
    rw [parts] at member
    rcases List.mem_append.mp member with member | member
    · exact ⟨old, List.mem_append_left _ member, owner⟩
    rcases List.mem_cons.mp member with rfl | member
    · exact ⟨{ old with ended := some status }, by simp, owner⟩
    · exact ⟨old, by simp [member], owner⟩
  · intro other member
    obtain ⟨old, member, pid, owner, callback⟩ := kept other member
    obtain ⟨nonzero, started, pi, runs⟩ := tidy.children old member
    exact ⟨pid ▸ nonzero, owner ▸ started, pi, owner ▸ runs.live, runs.pid.trans pid, runs.callback.trans callback⟩
  · have pids := tidy.pids
    rw [parts] at pids
    simpa using pids
  · exact tidy.idle
  · exact fun _ => signalled
  · constructor
    · have once := tidy.reported.once
      have silent : child.due = none := by rw [Child.due, alive]; rfl
      rw [parts, filterMap_middle, silent] at once
      rw [filterMap_middle]
      apply (once.append_right _).trans
      rw [List.append_assoc, List.append_assoc]
      exact (List.perm_append_comm.append_left _).append_left _
    · intro other _ _
      exact .inl (by simp [State.sigchld, signalled])

end Tidy

/-- What becomes of the cells when a process is taken off the queue and reaped. -/
theorem reaped_cells (pi : Process) (status : WaitStatus) (c : Addr) :
    ((s.unlink pos a pi).reapProcess a pi status).processes.cells c =
      (s.processes.cells c).map fun self =>
        if c = a then
          { self with next := none, status, pid := 0, exitInfo := fillExitInfo status }
        else if pos = some c then { self with next := pi.next } else self := by
  have reported : ∀ (t : State) (pi : Process), (t.exitCallback a pi).processes = t.processes := by
    intro t pi
    rw [State.exitCallback]
    split <;> rfl
  rw [State.reapProcess, reported]
  cases pos with
  | none =>
    rw [State.unlink, Store.cells_modify, Store.cells_modify]
    by_cases same : c = a <;> simp [same, Function.comp_def]
  | some b =>
    rw [State.unlink, Store.cells_modify, Store.cells_modify, Store.cells_modify]
    cases s.processes.cells c with
    | none => simp
    | some self =>
      rcases eq_or_ne c a with rfl | apart <;> rcases eq_or_ne c b with rfl | behind
      · simp
      · simp [behind]
      · simp [apart]
      · simp [apart, behind, behind.symm]

theorem reaped_queue (pi : Process) (status : WaitStatus) :
    ((s.unlink pos a pi).reapProcess a pi status).queue =
      if pos = none then pi.next else s.queue := by
  have reported : ∀ (t : State) (pi : Process), (t.exitCallback a pi).queue = t.queue := by
    intro t pi
    rw [State.exitCallback]
    split <;> rfl
  rw [State.reapProcess, reported]
  cases pos <;> rfl

theorem reaped_rest (pi : Process) (status : WaitStatus) :
    (s.unlink pos a pi).reapProcess a pi status = { s with
      processes := ((s.unlink pos a pi).reapProcess a pi status).processes
      queue := ((s.unlink pos a pi).reapProcess a pi status).queue
      reports := s.reports ++
        if pi.exitCallback then [⟨a, fillExitInfo status⟩] else [] } := by
  rw [State.reapProcess, State.exitCallback]
  cases pos <;> split <;> simp [State.unlink, *]

theorem reaped_linked (linked : Linked s.link s.queue (before ++ a :: after))
    (found : s.processes.cells a = some pi) (status : WaitStatus) :
    Linked ((s.unlink before.getLast? a pi).reapProcess a pi status).link
      ((s.unlink before.getLast? a pi).reapProcess a pi status).queue (before ++ after) := by
  have next : s.link a = some pi.next := by rw [State.link, found]; rfl
  rw [reaped_queue]
  rcases List.eq_nil_or_concat before with rfl | ⟨before, b, rfl⟩
  · have links : ((s.unlink none a pi).reapProcess a pi status).link = Function.update s.link a (some none) := by
      funext c
      rw [State.link, reaped_cells]
      rcases eq_or_ne c a with rfl | apart
      · simp [found]
      · simp [apart, State.link]
    simp only [List.getLast?_nil, if_true, List.nil_append]
    rw [links]
    exact linked.pop next
  · rw [List.concat_eq_append, List.append_assoc] at linked
    rw [List.concat_eq_append, List.getLast?_append_of_ne_nil _ (List.cons_ne_nil _ _)]
    obtain ⟨tail, live⟩ := linked.live (List.mem_append_right _ List.mem_cons_self)
    obtain ⟨cell, here, rfl⟩ := Option.map_eq_some_iff.mp live
    have links : ((s.unlink (some b) a pi).reapProcess a pi status).link =
        Function.update (Function.update s.link b (some pi.next)) a (some none) := by
      funext c
      rw [State.link, reaped_cells]
      rcases eq_or_ne c a with rfl | apart
      · simp [found]
      rcases eq_or_ne c b with rfl | elsewhere
      · simp [apart, here]
      · simp [apart, elsewhere, elsewhere.symm, State.link]
    simp only [List.getLast?_singleton, reduceCtorEq, if_false, List.append_assoc]
    rw [links]
    exact linked.unlink next

namespace Tidy

theorem reap (tidy : Tidy s) (found : s.children.find? (·.pid = pid) = some child) (ended : child.ended = some status) :
    ∃ s', State.reapChild { s with
      children := s.children.filter (·.pid ≠ pid)
      started := s.started.erase child.owner } pid status = .ok s' ∧ Tidy s' := by
  obtain ⟨rfl, first, last, parts, others⟩ := tidy.split found
  have member : child ∈ s.children := by simp [parts]
  obtain ⟨nonzero, started, pi, runs⟩ := tidy.children child member
  obtain ⟨list, linked, members⟩ := tidy.queued
  obtain ⟨before, after, rfl⟩ := List.append_of_mem ((members child.owner).mpr started)
  have distinct := linked.nodup
  have skip : ∀ b ∈ before, ∀ other, s.processes.cells b = some other → other.pid ≠ child.pid := by
    intro b ahead other cell same
    obtain ⟨rival, mem, rfl⟩ := tidy.running b ((members b).mp (List.mem_append_left _ ahead))
    obtain ⟨-, -, pi', runs'⟩ := tidy.children rival mem
    obtain rfl : pi' = other := Option.some.inj (runs'.live.symm.trans cell)
    obtain rfl := List.inj_on_of_nodup_map tidy.pids mem member (runs'.pid.symm.trans same)
    grind
  have rest : s.children.filter (·.pid ≠ child.pid) = first ++ last := by
    have kept : (first ++ last).filter (·.pid ≠ child.pid) = first ++ last := by
      rw [List.filter_eq_self]
      intro other mem
      simpa using others other mem
    rw [parts, List.filter_append, List.filter_cons_of_neg (by simp), ← List.filter_append, kept]
  rw [rest]
  generalize waited : ({ s with
    children := first ++ last, started := s.started.erase child.owner } : State) = t
  have linked' : Linked t.link t.queue (before ++ child.owner :: after) := by
    subst waited
    exact linked
  have cell : ∀ a, t.processes.cells a = s.processes.cells a := by
    subst waited
    exact fun _ => rfl
  have live : t.processes.cells child.owner = some pi := (cell _).trans runs.live
  have search : t.find child.pid (t.processes.live.card + 1) none t.queue =
      .ok (some (before.getLast?.or none, child.owner)) := by
    apply find_some linked' _ live runs.pid
    · have := length_le linked'
      simp only [List.length_append, List.length_cons] at this
      omega
    · intro b ahead other found
      exact skip b ahead other ((cell b).symm.trans found)
  refine ⟨(t.unlink before.getLast? child.owner pi).reapProcess child.owner pi status, ?_, ?_⟩
  · simp only [State.reapChild, search, live, Option.or_none]
  have queue := reaped_linked linked' live status
  have cells := @reaped_cells t child.owner before.getLast? pi status
  rw [reaped_rest]
  generalize (t.unlink before.getLast? child.owner pi).reapProcess child.owner pi status = u at *
  subst waited
  constructor
  · refine ⟨before ++ after, queue, ?_⟩
    intro a
    rw [tidy.nodup.mem_erase_iff, ← members a]
    grind
  · exact tidy.nodup.erase _
  · intro a started
    obtain ⟨different, started⟩ := tidy.nodup.mem_erase_iff.mp started
    obtain ⟨other, mem, rfl⟩ := tidy.running a started
    rw [parts] at mem
    grind
  · intro other mem
    have old : other ∈ s.children := by
      rw [parts]
      grind
    obtain ⟨nonzero, started, self, runs'⟩ := tidy.children other old
    have different : other.owner ≠ child.owner := by
      intro same
      have : other = child := tidy.owner_inj old member same
      exact others other mem (congrArg Child.pid this)
    refine ⟨nonzero, tidy.nodup.mem_erase_iff.mpr ⟨different, started⟩, ?_⟩
    refine ⟨_, by rw [cells, runs'.live]; rfl, ?_, ?_⟩
    · simp only [if_neg different]
      split <;> exact runs'.pid
    · simp only [if_neg different]
      split <;> exact runs'.callback
  · have pids := tidy.pids
    rw [parts, List.map_append, List.map_cons] at pids
    rw [List.map_append]
    exact ((List.perm_middle.nodup_iff).mp pids).of_cons
  · intro b other found idle
    obtain ⟨self, cell, changed⟩ := Option.map_eq_some_iff.mp ((cells b).symm.trans found)
    by_cases same : b = child.owner
    · rw [if_pos same] at changed
      subst changed
      exact ⟨rfl, rfl⟩
    have stopped : b ∉ s.started := by
      intro started
      exact idle (tidy.nodup.mem_erase_iff.mpr ⟨same, started⟩)
    have behind : before.getLast? ≠ some b := by
      intro last
      apply stopped
      exact (members b).mp (List.mem_append_left _ (List.mem_of_getLast? last))
    rw [if_neg same, if_neg behind] at changed
    subst changed
    exact tidy.idle b self cell stopped
  · intro _
    exact tidy.handler (List.ne_nil_of_mem member)
  · constructor
    · have once := tidy.reported.once
      have due : child.due.toList =
          if pi.exitCallback then [⟨child.owner, fillExitInfo status⟩] else [] := by
        rw [Child.due, ended, runs.callback]
        simp only [Option.bind_some, Child.report]
        split <;> rfl
      rw [parts, filterMap_middle, due] at once
      apply once.trans
      rw [List.filterMap_append, List.append_assoc]
      refine List.Perm.append_left _ ?_
      rw [← List.append_assoc, ← List.append_assoc]
      exact List.perm_append_comm.append_right _
    · intro other mem beyond
      exact tidy.reported.pending other (by rw [parts]; grind) beyond

end Tidy

/-- An attempt to run the process comes to `fork`. -/
def Forks (s : State) (a : Addr) (attempt : Attempt) : Prop :=
  attempt.executable = true ∧ ∃ pi ∈ s.processes.cells a, pi.pid = 0

instance (s : State) (a : Addr) (attempt : Attempt) : Decidable (Forks s a attempt) :=
  inferInstanceAs (Decidable (_ ∧ _))

/-- No `fork` fails, none is waited for in line, and no running process is freed. -/
def Sane (s : State) : Action → Prop
  | .run a opened attempt => opened = true → Forks s a attempt → attempt.fork ≠ none
  | .runAndWait a attempt _ => ¬ Forks s a attempt
  | .free a => ∀ pi ∈ s.processes.cells a, pi.pid = 0
  | _ => True

instance (s : State) (action : Action) : Decidable (Sane s action) :=
  match action with
  | .run .. => inferInstanceAs (Decidable (_ → _ → _))
  | .runAndWait .. => inferInstanceAs (Decidable (¬ _))
  | .free a => inferInstanceAs (Decidable (∀ pi ∈ s.processes.cells a, pi.pid = 0))
  | .new .. | .exits .. | .enter | .reap _ | .done => isTrue trivial

theorem tidy_step (tidy : Tidy s) (sane : Sane s action)
    (moved : step s action = .ok s') : Tidy s' := by
  cases action with
  | new a shellcmd exitCallback =>
    simp only [step] at moved
    split at moved
    · cases moved
    next absent =>
      cases moved
      exact tidy.new (by simpa using absent)
  | run a opened attempt =>
    simp only [step, State.run] at moved
    split at moved
    · cases moved
      exact tidy
    next open_ =>
      split at moved
      · cases moved
      next t ran =>
        cases moved
        rcases runProcess_cases ran with ⟨-, rfl⟩ | ⟨pi, found, idle, able, ⟨failed, -⟩ | ⟨_, _, _, _, h, _⟩⟩
        · exact tidy
        · exact absurd failed (sane (not_not.mp open_) ⟨able, pi, found, idle⟩)
        · cases h
      next t ran =>
        cases moved
        rcases runProcess_cases ran with ⟨h, -⟩ | ⟨pi, found, idle, able, ⟨-, h, -⟩ | ⟨pid, -, nonzero, fresh, -, rfl⟩⟩
        · cases h
        · cases h
        · exact tidy.fork found idle nonzero fresh
  | runAndWait a attempt status =>
    simp only [step, State.runAndWait] at moved
    split at moved
    · cases moved
    next t ran =>
      cases moved
      rcases runProcess_cases ran with ⟨-, rfl⟩ | ⟨pi, found, idle, able, -⟩
      · exact tidy
      · exact absurd ⟨able, pi, found, idle⟩ sane
    next t ran =>
      rcases runProcess_cases ran with ⟨h, -⟩ | ⟨pi, found, idle, able, -⟩
      · cases h
      · exact absurd ⟨able, pi, found, idle⟩ sane
  | free a =>
    simp only [step, State.free] at moved
    split at moved
    · cases moved
    next pi found =>
      cases moved
      exact tidy.free found (sane pi found)
  | exits pid status =>
    simp only [step] at moved
    split at moved
    · cases moved
    next child found =>
      split at moved
      · cases moved
      next alive =>
        cases moved
        exact tidy.exits found (by simpa using alive)
  | enter =>
    simp only [step] at moved
    split at moved
    · cases moved
      exact tidy
    · cases moved
      exact { tidy with reported := ⟨tidy.reported.once, fun _ _ _ => .inr (Nat.succ_pos _)⟩ }
  | reap pid =>
    simp only [step] at moved
    split at moved
    · cases moved
    split at moved
    next child_pid owner callback status found =>
      obtain ⟨t, reaped, kept⟩ := tidy.reap found rfl
      obtain rfl := Except.ok.inj (reaped.symm.trans moved)
      exact kept
    · cases moved
  | done =>
    simp only [step] at moved
    split at moved
    · cases moved
    next beyond =>
      cases moved
      push Not at beyond
      refine { tidy with reported := ⟨tidy.reported.once, ?_⟩ }
      intro child member ended
      exact absurd ended (beyond.2 child member)

/-- Where the pointers of the queue lead. -/
def Fault.Harmful : Fault → Prop
  | .useAfterFree | .endless => True
  | .nullDereference | .disabled => False

theorem harmless_step (tidy : Tidy s) (sane : Sane s action)
    (stopped : step s action = .error fault) : ¬ fault.Harmful := by
  have attempts : ∀ {a attempt fault}, s.runProcess a attempt = .error fault → ¬ fault.Harmful := by
    intro a attempt fault failed
    unfold State.runProcess at failed
    grind [Fault.Harmful]
  cases action with
  | new a shellcmd exitCallback =>
    simp only [step] at stopped
    grind [Fault.Harmful]
  | run a opened attempt =>
    simp only [step, State.run] at stopped
    grind
  | runAndWait a attempt status =>
    simp only [step, State.runAndWait] at stopped
    split at stopped
    next fault failed =>
      cases stopped
      exact attempts failed
    · cases stopped
    next t ran =>
      rcases runProcess_cases ran with ⟨h, -⟩ | ⟨pi, found, idle, able, -⟩
      · cases h
      · exact absurd ⟨able, pi, found, idle⟩ sane
  | free a =>
    simp only [step, State.free] at stopped
    grind [Fault.Harmful]
  | exits pid status =>
    simp only [step] at stopped
    grind [Fault.Harmful]
  | enter =>
    simp only [step] at stopped
    grind
  | reap pid =>
    simp only [step] at stopped
    split at stopped
    · cases stopped
      exact not_false
    split at stopped
    next child_pid owner callback status found =>
      obtain ⟨t, reaped, -⟩ := tidy.reap found rfl
      cases reaped.symm.trans stopped
    · cases stopped
      exact not_false
  | done =>
    simp only [step] at stopped
    grind [Fault.Harmful]

theorem tidy_empty : Tidy {} where
  queued := ⟨[], rfl, by simp⟩
  nodup := List.nodup_nil
  running := by nofun
  children := by nofun
  pids := List.nodup_nil
  idle := by nofun
  handler := by simp
  reported := ⟨by simp, by nofun⟩

/-- The queue ends, has just the started processes and sends each exit to its callback once, and
no pointer of it leads astray. -/
theorem queue_run (actions : List Action) (sane : Machine.Along step Sane {} actions) :
    (∀ final, Machine.run step {} actions = .ok final → Queued final ∧ Reported final) ∧
    ∀ fault, Machine.run step {} actions = .error fault → ¬ fault.Harmful := by
  have preserved := fun s action s' => @tidy_step s s' action
  constructor
  · intro final ran
    have tidy := Machine.invariant_run Tidy preserved tidy_empty sane ran
    exact ⟨tidy.queued, tidy.reported⟩
  · intro fault stopped
    exact Machine.fault_run Tidy preserved (fun s action fault => @harmless_step s action fault)
      tidy_empty sane stopped

/-- Two children that end out of order; the callback of the first one runs another. -/
def overlapping : List Action :=
  [.new 0 false true, .new 1 true true, .run 0 true ⟨true, some 10⟩, .run 1 true ⟨true, some 11⟩,
    .exits 10 (.exited 0), .enter, .reap 10, .free 0, .new 0 false true,
    .run 0 true ⟨true, some 10⟩, .exits 11 (.signaled 9 false), .reap 11, .done]

theorem queue_run_overlapping :
    ∃ final, Machine.run step {} overlapping = .ok final ∧
      final.reports = [⟨0, .exited 0⟩, ⟨1, .crashed 9 false⟩] ∧ final.started = [0] ∧
      Queued final ∧ Reported final := by
  obtain ⟨final, ran, view⟩ := Machine.run_view step {} overlapping
    (fun final => (final.reports, final.started))
    ([⟨0, .exited 0⟩, ⟨1, .crashed 9 false⟩], [0]) (by decide +kernel)
  obtain ⟨reports, started⟩ := Prod.mk.inj view
  have sane : Machine.Along step Sane {} overlapping :=
    Machine.along_check (fun _ _ => of_decide_eq_true) (by decide +kernel)
  exact ⟨final, ran, reports, started, (queue_run overlapping sane).1 final ran⟩

/-- A process whose first `fork` fails is in the queue; run again, it is its own successor. -/
theorem queue_cyclic :
    ∃ final, Machine.run step {} [.new 0 true true, .run 0 true ⟨true, none⟩,
      .run 0 true ⟨true, some 10⟩] = .ok final ∧
      ∀ list, ¬ Linked final.link final.queue list := by
  obtain ⟨final, ran, view⟩ := Machine.run_view step {} [.new 0 true true,
      .run 0 true ⟨true, none⟩, .run 0 true ⟨true, some 10⟩]
    (fun final => (final.queue, final.link 0)) (some 0, some (some 0)) (by decide +kernel)
  refine ⟨final, ran, ?_⟩
  obtain ⟨queue, next⟩ := Prod.mk.inj view
  rw [queue]
  intro list linked
  cases list with
  | nil => cases linked
  | cons a rest =>
    obtain ⟨here, tail, link, later⟩ := id linked
    obtain rfl : 0 = a := Option.some.inj here
    obtain rfl : some 0 = tail := Option.some.inj (next.symm.trans link)
    have same := congrArg List.length (linked.unique later)
    simp at same

end Testbus.Subprocess
