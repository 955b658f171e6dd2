import Testbus.Agent.Cache

namespace Testbus.Agent

open Dbus Lib

/-- The entry of the cache for a file, if it is not of the number that the file has now. -/
def outdated (agent : Agent) (a : Addr) : Option (Addr × AgentFile) :=
  match agent.heap.cells a with
  | none => none
  | some file =>
    match agent.findByInum file.inum with
    | none => none
    | some (g, gfile) => if gfile.iseq = file.iseq then none else some (g, gfile)

/-- What an entry has for its data after it was found outdated. -/
def brought (fetch : AgentFile → Option Bytes) (gfile : AgentFile) : Option Bytes :=
  if gfile.wanted fileRead then fetch gfile.dropCache else none

/-- The download for an outdated entry fails. -/
def fails (fetch : AgentFile → Option Bytes) (gfile : AgentFile) : Bool :=
  gfile.wanted fileRead && (fetch gfile.dropCache).isNone

/-- What an entry has for its data after the files up to the one whose download fails: the last
of them that finds it outdated decides. Nothing, if there is none. -/
def brings (fetch : Nat → AgentFile → Option Bytes) (agent : Agent) (x : Addr) (i : Nat) :
    List Addr → Option (Option Bytes)
  | [] => none
  | a :: rest =>
    match agent.outdated a with
    | none => brings fetch agent x (i + 1) rest
    | some (g, gfile) =>
      let here := if g = x then some (brought (fetch i) gfile) else none
      if fails (fetch i) gfile then here else (brings fetch agent x (i + 1) rest).or here

/-- The cache has an entry for each of the files up to the one whose download fails. -/
def Covers (fetch : Nat → AgentFile → Option Bytes) (agent : Agent) (i : Nat) : List Addr → Prop
  | [] => True
  | a :: rest =>
    (∃ file, agent.heap.cells a = some file ∧ agent.findByInum file.inum ≠ none) ∧
      match agent.outdated a with
      | none => Covers fetch agent (i + 1) rest
      | some (_, gfile) => fails (fetch i) gfile = true ∨ Covers fetch agent (i + 1) rest

/-- The cache is as it was: its list, and the objects on it. -/
structure SameCache (agent agent' : Agent) : Prop where
  list : agent'.globalFiles = agent.globalFiles
  entries : ∀ g ∈ agent.globalFiles, agent'.heap.cells g = agent.heap.cells g

/-- An object that was found outdated has new data, and no instance. -/
def effect (data : Option (Option Bytes)) (file : AgentFile) : AgentFile :=
  match data with
  | none => file
  | some data => { file with data := data, instancePath := none }

theorem effect_toFile (data : Option (Option Bytes)) (file : AgentFile) : (effect data file).toFile = file.toFile := by
  cases data with
  | none => rfl
  | some data => rfl

theorem effect_inum (data : Option (Option Bytes)) (file : AgentFile) : (effect data file).inum = file.inum :=
  congrArg File.inum (effect_toFile data file)

theorem effect_iseq (data : Option (Option Bytes)) (file : AgentFile) : (effect data file).iseq = file.iseq :=
  congrArg File.iseq (effect_toFile data file)

theorem effect_dropCache (data : Option (Option Bytes)) (file : AgentFile) :
    (effect data file).dropCache = file.dropCache := by
  cases data with
  | none => rfl
  | some data => rfl

/-- The agent in the middle of the loop, when no file was missed by the cache so far: `done` is
what its objects have got. -/
structure Past (agent m : Agent) (done : Addr → Option (Option Bytes)) : Prop where
  list : m.globalFiles = agent.globalFiles
  cells : ∀ x, m.heap.cells x = (agent.heap.cells x).map (effect (done x))

variable {agent m m' : Agent}

theorem Past.start (agent : Agent) : Past agent agent fun _ => none where
  list := rfl
  cells x := by
    cases agent.heap.cells x with
    | none => rfl
    | some file => rfl

theorem Past.find (past : Past agent m done) (inum : UInt32) :
    m.findByInum inum = (agent.findByInum inum).map fun entry => (entry.1, effect (done entry.1) entry.2) := by
  have numbered (x : Addr) : m.numbered inum x =
      (agent.numbered inum x).map fun entry => (entry.1, effect (done entry.1) entry.2) := by
    rw [Agent.numbered, Agent.numbered, past.cells x]
    cases agent.heap.cells x with
    | none => rfl
    | some file =>
      simp only [Option.map_some, effect_inum]
      split
      · rfl
      · rfl
  rw [findByInum, findByInum, past.list, funext numbered]
  induction agent.globalFiles with
  | nil => rfl
  | cons x rest ih =>
    rw [List.findSome?_cons, List.findSome?_cons, ih]
    cases agent.numbered inum x with
    | none => rfl
    | some entry => rfl

theorem Past.visit (past : Past agent m done) (fetch : AgentFile → Option Bytes) (gfile : AgentFile) (g : Addr) :
    (download fetch (m.modify g AgentFile.dropCache) g (effect (done g) gfile).dropCache).2 =
        (if fails fetch gfile then none else some g) ∧
      Past agent (download fetch (m.modify g AgentFile.dropCache) g (effect (done g) gfile).dropCache).1
        (Function.update done g (some (brought fetch gfile))) := by
  have twice (data : Option Bytes) :
      Past agent ((m.modify g AgentFile.dropCache).modify g fun file => { file with data := data })
        (Function.update done g (some data)) := by
    refine ⟨past.list, ?_⟩
    intro x
    change (((m.heap.modify g _).modify g _).cells x) = _
    rw [Store.modify_modify, Store.cells_modify, past.cells x]
    by_cases here : x = g
    · subst here
      rw [if_pos rfl, Function.update_self, Option.map_map]
      congr 1
      funext file
      exact (congrArg (fun f : AgentFile => { f with data := data }) (effect_dropCache (done x) file))
    · rw [if_neg here, Function.update_of_ne here]
  have once : Past agent (m.modify g AgentFile.dropCache) (Function.update done g (some none)) := by
    refine ⟨past.list, ?_⟩
    intro x
    change (m.heap.modify g _).cells x = _
    rw [Store.cells_modify, past.cells x]
    by_cases here : x = g
    · subst here
      rw [if_pos rfl, Function.update_self, Option.map_map]
      congr 1
      funext file
      exact effect_dropCache (done x) file
    · rw [if_neg here, Function.update_of_ne here]
  rw [effect_dropCache, download, brought, fails]
  have wanted : gfile.dropCache.wanted fileRead = gfile.wanted fileRead := rfl
  rw [wanted]
  cases read : gfile.wanted fileRead with
  | false => exact ⟨rfl, once⟩
  | true =>
    cases fetched : fetch gfile.dropCache with
    | none => exact ⟨rfl, twice none⟩
    | some data => exact ⟨rfl, twice (some data)⟩

theorem or_update (x : Addr) :
    (if g = x then some data else none : Option (Option Bytes)).or (done x) = Function.update done g (some data) x := by
  by_cases here : g = x
  · subst here
    rw [if_pos rfl, Function.update_self]
    rfl
  · rw [if_neg here, Function.update_of_ne (Ne.symm here)]
    rfl

theorem download_globalFiles (fetch : AgentFile → Option Bytes) (m : Agent) (g : Addr)
    (gfile : AgentFile) : (download fetch m g gfile).1.globalFiles = m.globalFiles := by
  unfold download
  split
  · split
    · rfl
    · rfl
  · rfl

theorem attachLoop_grows (fetch : Nat → AgentFile → Option Bytes) (i : Nat) (m : Agent) (files : List Addr) :
    m.globalFiles.length ≤ (attachLoop fetch i m files).1.globalFiles.length := by
  have once (i : Nat) (m : Agent) (a : Addr) (file : AgentFile) :
      m.globalFiles.length ≤ (attachFile (fetch i) m a file).1.globalFiles.length := by
    unfold attachFile
    split
    · rw [download_globalFiles, List.length_append]
      exact Nat.le_add_right _ _
    · split
      · exact Nat.le_refl _
      · rw [download_globalFiles]
        exact Nat.le_refl _
  induction files generalizing i m with
  | nil => exact Nat.le_refl _
  | cons a rest ih =>
    rw [attachLoop]
    split
    · exact Nat.le_refl _
    · rename_i file _
      have first := once i m a file
      split
      · rename_i left
        rw [left] at first
        exact first
      · rename_i m₁ here left
        rw [left] at first
        have later := ih (i + 1) m₁
        split
        · rename_i left'
          rw [left'] at later
          exact Nat.le_trans first later
        · rename_i left'
          rw [left'] at later
          exact Nat.le_trans first later

theorem attachLoop_cons (now : m.heap.cells a = some file) (failed : attachLoop fetch i m (a :: rest) = (m', none)) :
    attachFile (fetch i) m a file = (m', none) ∨
      ∃ m₁ here, attachFile (fetch i) m a file = (m₁, some here) ∧ attachLoop fetch (i + 1) m₁ rest = (m', none) := by
  rw [attachLoop, now] at failed
  dsimp only at failed
  split at failed
  · rename_i other left
    obtain rfl : other = m' := congrArg Prod.fst failed
    exact Or.inl left
  · rename_i m₁ here left
    split at failed
    · rename_i left'
      exact Or.inr ⟨m₁, here, left, left'.trans failed⟩
    · cases congrArg Prod.snd failed

theorem outdated_some (found : agent.heap.cells a = some file) (entry : agent.findByInum file.inum = some (g, gfile)) :
    agent.outdated a = if gfile.iseq = file.iseq then none else some (g, gfile) := by
  rw [outdated, found]
  dsimp only
  rw [entry]

section Entries

variable {fetch : Nat → AgentFile → Option Bytes} {rest : List Addr}

theorem brings_current (state : agent.outdated a = none) (x : Addr) :
    brings fetch agent x i (a :: rest) = brings fetch agent x (i + 1) rest := by
  rw [brings, state]

theorem brings_fails (state : agent.outdated a = some (g, gfile)) (bad : fails (fetch i) gfile = true) :
    (fun x => (brings fetch agent x i (a :: rest)).or (done x)) =
      Function.update done g (some (brought (fetch i) gfile)) := by
  funext x
  rw [brings, state]
  dsimp only
  rw [if_pos bad]
  exact or_update x

theorem brings_passes (state : agent.outdated a = some (g, gfile)) (good : fails (fetch i) gfile = false) :
    (fun x => (brings fetch agent x i (a :: rest)).or (done x)) =
      fun x => (brings fetch agent x (i + 1) rest).or (Function.update done g (some (brought (fetch i) gfile)) x) := by
  funext x
  rw [brings, state]
  dsimp only
  rw [if_neg (by rw [good]; exact Bool.false_ne_true), Option.or_assoc]
  exact congrArg _ (or_update x)

theorem covers_current (found : agent.heap.cells a = some file)
    (entry : agent.findByInum file.inum = some (g, gfile)) (state : agent.outdated a = none) :
    Covers fetch agent i (a :: rest) ↔ Covers fetch agent (i + 1) rest := by
  rw [Covers, state]
  exact and_iff_right ⟨file, found, by rw [entry]; exact Option.some_ne_none _⟩

theorem covers_outdated (found : agent.heap.cells a = some file)
    (entry : agent.findByInum file.inum = some (g, gfile)) (state : agent.outdated a = some (g, gfile)) :
    Covers fetch agent i (a :: rest) ↔ fails (fetch i) gfile = true ∨ Covers fetch agent (i + 1) rest := by
  rw [Covers, state]
  exact and_iff_right ⟨file, found, by rw [entry]; exact Option.some_ne_none _⟩

/-- A file that the cache does not have is entered before its download, whatever comes of that. -/
theorem Past.missed (past : Past agent m done) (fetch : AgentFile → Option Bytes)
    (entry : agent.findByInum file.inum = none) :
    agent.globalFiles.length < (attachFile fetch m a (effect (done a) file)).1.globalFiles.length := by
  have added : (attachFile fetch m a (effect (done a) file)).1.globalFiles = agent.globalFiles ++ [a] := by
    rw [attachFile, effect_inum, past.find file.inum, entry, ← past.list]
    exact download_globalFiles _ _ _ _
  rw [added, List.length_append]
  exact Nat.lt_succ_self _

theorem Past.current (past : Past agent m done) (fetch : AgentFile → Option Bytes)
    (entry : agent.findByInum file.inum = some (g, gfile)) (same : gfile.iseq = file.iseq) :
    attachFile fetch m a (effect (done a) file) = (m, some a) := by
  rw [attachFile, effect_inum, past.find file.inum, entry]
  exact if_pos (by rw [effect_iseq, effect_iseq, same])

theorem Past.outdated (past : Past agent m done) (fetch : AgentFile → Option Bytes)
    (entry : agent.findByInum file.inum = some (g, gfile)) (other : gfile.iseq ≠ file.iseq) :
    (attachFile fetch m a (effect (done a) file)).2 = (if fails fetch gfile then none else some g) ∧
      Past agent (attachFile fetch m a (effect (done a) file)).1
        (Function.update done g (some (brought fetch gfile))) := by
  have visited : attachFile fetch m a (effect (done a) file) =
      download fetch (m.modify g AgentFile.dropCache) g (effect (done g) gfile).dropCache := by
    rw [attachFile, effect_inum, past.find file.inum, entry]
    exact if_neg (by rwa [effect_iseq, effect_iseq])
  rw [visited]
  exact past.visit fetch gfile g

end Entries

/-- A loop that fails has either met a file that the cache did not have, which is on its list
then, or has left what the files bring. -/
theorem attachLoop_failed (past : Past agent m done)
    (live : ∀ a ∈ files, agent.heap.cells a ≠ none) (failed : attachLoop fetch i m files = (m', none)) :
    (Covers fetch agent i files ∧ Past agent m' fun x => (brings fetch agent x i files).or (done x)) ∨
      (¬ Covers fetch agent i files ∧ agent.globalFiles.length < m'.globalFiles.length) := by
  induction files generalizing i m done with
  | nil => cases failed
  | cons a rest ih =>
    obtain ⟨file, found⟩ := Option.ne_none_iff_exists'.mp (live a List.mem_cons_self)
    have later : ∀ b ∈ rest, agent.heap.cells b ≠ none := fun b member => live b (List.mem_cons_of_mem _ member)
    have now : m.heap.cells a = some (effect (done a) file) := by
      rw [past.cells a, found]
      rfl
    have step := attachLoop_cons now failed
    cases entry : agent.findByInum file.inum with
    | none =>
      right
      constructor
      · intro ⟨⟨other, found', known⟩, _⟩
        obtain rfl := Option.some.inj (found.symm.trans found')
        exact known entry
      · have grown := past.missed (a := a) (fetch i) entry
        rcases step with last | ⟨m₁, here, first, rest'⟩
        · rw [last] at grown
          exact grown
        · have more := attachLoop_grows fetch (i + 1) m₁ rest
          rw [rest'] at more
          rw [first] at grown
          exact Nat.lt_of_lt_of_le grown more
    | some hit =>
      obtain ⟨g, gfile⟩ := hit
      have state := outdated_some found entry
      by_cases same : gfile.iseq = file.iseq
      · rw [if_pos same] at state
        have kept := past.current (a := a) (fetch i) entry same
        rw [covers_current found entry state]
        rcases step with last | ⟨m₁, here, first, rest'⟩
        · cases congrArg Prod.snd (kept.symm.trans last)
        · obtain rfl : m = m₁ := congrArg Prod.fst (kept.symm.trans first)
          simp only [brings_current state]
          exact ih past later rest'
      · rw [if_neg same] at state
        obtain ⟨outcome, past₁⟩ := past.outdated (a := a) (fetch i) entry same
        rw [covers_outdated found entry state]
        cases bad : fails (fetch i) gfile with
        | true =>
          rcases step with last | ⟨m₁, here, first, _⟩
          · rw [last] at past₁
            rw [brings_fails state bad]
            exact Or.inl ⟨Or.inl rfl, past₁⟩
          · rw [first, bad] at outcome
            cases outcome
        | false =>
          rcases step with last | ⟨m₁, here, first, rest'⟩
          · rw [last, bad] at outcome
            cases outcome
          · rw [first] at past₁
            rw [brings_passes state bad, or_iff_right Bool.false_ne_true]
            exact ih past₁ later rest'

/-- When a download fails, the process gets nothing; and the cache is as it was exactly if it had
an entry for every file up to that one, and every entry that one of them found outdated had no
instance and has the data that it had. -/
theorem attachFiles_failed_iff (fetch : Nat → AgentFile → Option Bytes) (dirpath : CString)
    (made : Nat → Bool) (agent agent' : Agent) (files : List Addr)
    (live : ∀ a ∈ files, agent.heap.cells a ≠ none)
    (failed : attachLoop fetch 0 agent files = (agent', none)) :
    agent.attachFiles fetch dirpath made files = (agent', none) ∧
      (SameCache agent agent' ↔ Covers fetch agent 0 files ∧
        ∀ g ∈ agent.globalFiles, ∀ gfile, agent.heap.cells g = some gfile →
          ∀ data, brings fetch agent g 0 files = some data →
            gfile.instancePath = none ∧ gfile.data = data) := by
  refine ⟨by rw [attachFiles, failed], ?_⟩
  rcases attachLoop_failed (Past.start agent) live failed with ⟨covers, past⟩ | ⟨missed, grown⟩
  · constructor
    · intro same
      refine ⟨covers, ?_⟩
      intro g member gfile found data brought
      have cells := past.cells g
      rw [same.entries g member, found, brought] at cells
      have kept : gfile = { gfile with data := data, instancePath := none } := Option.some.inj cells
      exact ⟨congrArg AgentFile.instancePath kept, congrArg AgentFile.data kept⟩
    · rintro ⟨_, bare⟩
      refine ⟨past.list, ?_⟩
      intro g member
      rw [past.cells g]
      cases found : agent.heap.cells g with
      | none => rfl
      | some gfile =>
        refine congrArg some ?_
        cases left : brings fetch agent g 0 files with
        | none => rfl
        | some data =>
          obtain ⟨path, same⟩ := bare g member gfile found data left
          rw [← same]
          change ({ gfile with instancePath := none } : AgentFile) = gfile
          rw [← path]
  · constructor
    · intro same
      rw [same.list] at grown
      exact absurd grown (Nat.lt_irrefl _)
    · rintro ⟨covers, _⟩
      exact absurd covers missed

def sourceFile (iseq : UInt32) : AgentFile :=
  { id := 0, objectPath := some (ascii ['/', 'f']), name := some (ascii ['f']), mode := fileRead,
    inum := 1, iseq := iseq }

/-- An agent whose entry for a file was left without data, and a newer announcement of it. -/
def bareAgent : Agent where
  heap := (Store.empty.alloc 0 (sourceFile 1)).alloc 1 (sourceFile 2)
  next := 2
  globalFiles := [0]

theorem attachFiles_failed_iff_bare : ∃ agent',
    attachLoop (fun _ _ => none) 0 bareAgent [1] = (agent', none) ∧ SameCache bareAgent agent' := by
  have failed : attachLoop (fun _ _ => none) 0 bareAgent [1] =
      ((attachLoop (fun _ _ => none) 0 bareAgent [1]).1, none) := rfl
  have live : ∀ a ∈ [1], bareAgent.heap.cells a ≠ none := by
    intro a member
    obtain rfl := List.mem_singleton.mp member
    exact Option.some_ne_none (sourceFile 2)
  refine ⟨_, failed, (attachFiles_failed_iff _ [] (fun _ => true) _ _ _ live failed).2.mpr ⟨?_, ?_⟩⟩
  · exact ⟨⟨sourceFile 2, rfl, Option.some_ne_none (0, sourceFile 1)⟩, Or.inl rfl⟩
  · intro g member gfile found data brought
    obtain rfl := List.mem_singleton.mp member
    obtain rfl : sourceFile 1 = gfile := Option.some.inj found
    exact ⟨rfl, Option.some.inj brought⟩

/-- A new file is on the list of the cache when its download fails, with the number it has. -/
theorem failed_entry_stays : ¬ ∀ (fetch : Nat → AgentFile → Option Bytes) (dirpath : CString)
    (made : Nat → Bool) (agent agent' : Agent) (files : List Addr),
    (∀ a ∈ files, agent.heap.cells a ≠ none) →
    attachLoop fetch 0 agent files = (agent', none) →
    agent.attachFiles fetch dirpath made files = (agent', none) → SameCache agent agent' := by
  intro claimed
  have live : ∀ a ∈ [0], ((Store.empty.alloc 0 (sourceFile 1)).cells a) ≠ none := by
    intro a member
    obtain rfl := List.mem_singleton.mp member
    exact Option.some_ne_none (sourceFile 1)
  have same := claimed (fun _ _ => none) [] (fun _ => true)
    { heap := Store.empty.alloc 0 (sourceFile 1), next := 1 } _ [0] live rfl rfl
  exact absurd same.list (List.cons_ne_nil 0 [])

end Testbus.Agent
