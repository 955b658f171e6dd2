import Testbus.Agent.Files

namespace Testbus

open Dbus Lib

/-- What is fixed about a file when it is created. -/
def Dbus.File.identity (file : File) : UInt32 × Option CString × UInt32 × Option CString :=
  (file.inum, file.name, file.mode, file.objectPath)

namespace Agent

/-- The cache has an entry for the file, and it is of the number the file has now. -/
def Answers (agent : Agent) (file : File) : Prop :=
  ∃ g gfile, agent.findByInum file.inum = some (g, gfile) ∧ gfile.iseq = file.iseq

/-- Every entry of the cache is an object that is there, of a file that is known. -/
def Sane (known : File → Prop) (agent : Agent) : Prop :=
  ∀ g ∈ agent.globalFiles, ∃ gfile, agent.heap.cells g = some gfile ∧ known gfile.toFile

/-- A change of the agent that leaves alone what is about other files. -/
structure Touches (files : List File) (agent agent' : Agent) : Prop where
  others : ∀ x old, agent.heap.cells x = some old → old.inum ∉ files.map File.inum →
    agent'.heap.cells x = some old
  kept : ∀ x, (agent'.heap.cells x).map AgentFile.toFile = (agent.heap.cells x).map AgentFile.toFile
  added : ∃ added, agent'.globalFiles = agent.globalFiles ++ added ∧
    ∀ x ∈ added, ∃ file, agent.heap.cells x = some file ∧ file.toFile ∈ files
  next : agent'.next = agent.next

variable {known : File → Prop} {agent agent' agent'' : Agent}

theorem Touches.refl (files : List File) (agent : Agent) : Touches files agent agent where
  others x old found _ := found
  kept _ := rfl
  added := ⟨[], (List.append_nil _).symm, by simp⟩
  next := rfl

theorem Touches.before (touches : Touches files agent agent') (found : agent'.heap.cells a = some file) :
    ∃ old, agent.heap.cells a = some old ∧ old.toFile = file.toFile := by
  have kept := touches.kept a
  rw [found] at kept
  exact Option.map_eq_some_iff.mp kept.symm

theorem Touches.trans (one : Touches first agent agent')
    (two : Touches second agent' agent'') : Touches (first ++ second) agent agent'' where
  others x old found apart := by
    rw [List.map_append] at apart
    obtain ⟨notFirst, notSecond⟩ := not_or.mp (mt List.mem_append.mpr apart)
    exact two.others x old (one.others x old found notFirst) notSecond
  kept x := (two.kept x).trans (one.kept x)
  added := by
    obtain ⟨added, grown, there⟩ := one.added
    obtain ⟨added', grown', there'⟩ := two.added
    refine ⟨added ++ added', by rw [grown', grown, List.append_assoc], ?_⟩
    intro x member
    rcases List.mem_append.mp member with old | new
    · obtain ⟨file, found, inside⟩ := there x old
      exact ⟨file, found, List.mem_append_left _ inside⟩
    · obtain ⟨file, found, inside⟩ := there' x new
      obtain ⟨before, found', same⟩ := one.before found
      exact ⟨before, found', List.mem_append_right _ (same ▸ inside)⟩
  next := two.next.trans one.next

theorem Touches.weaken (touches : Touches files agent agent')
    (inside : ∀ f ∈ files, f ∈ more) : Touches more agent agent' where
  others x old found apart := by
    refine touches.others x old found (fun here => apart ?_)
    obtain ⟨f, member, same⟩ := List.mem_map.mp here
    exact List.mem_map.mpr ⟨f, inside f member, same⟩
  kept := touches.kept
  added := by
    obtain ⟨added, grown, there⟩ := touches.added
    refine ⟨added, grown, ?_⟩
    intro x member
    obtain ⟨file, found, here⟩ := there x member
    exact ⟨file, found, inside _ here⟩
  next := touches.next

theorem Touches.numbered (touches : Touches files agent agent')
    (apart : inum ∉ files.map File.inum) (x : Addr) : agent'.numbered inum x = agent.numbered inum x := by
  have kept := touches.kept x
  unfold Agent.numbered
  cases found : agent.heap.cells x with
  | none =>
    rw [found] at kept
    rw [Option.map_eq_none_iff.mp kept]
  | some old =>
    rw [found] at kept
    obtain ⟨new, found', same⟩ := Option.map_eq_some_iff.mp kept
    have inums : new.inum = old.inum := congrArg File.inum same
    by_cases hit : old.inum = inum
    · rw [touches.others x old found (hit ▸ apart)]
    · simp only [found', inums, hit, if_false]

theorem Touches.find (touches : Touches files agent agent')
    (apart : inum ∉ files.map File.inum) : agent'.findByInum inum = agent.findByInum inum := by
  obtain ⟨added, grown, there⟩ := touches.added
  have missed : added.findSome? (agent.numbered inum) = none := by
    rw [List.findSome?_eq_none_iff]
    intro x member
    obtain ⟨file, found, inside⟩ := there x member
    have different : file.inum ≠ inum := by
      rintro rfl
      exact apart (List.mem_map_of_mem inside)
    simp only [Agent.numbered, found, different, if_false]
  rw [findByInum, findByInum, grown, funext (touches.numbered apart), List.findSome?_append, missed, Option.or_none]

theorem Touches.sane (touches : Touches files agent agent') (sane : Sane known agent)
    (allKnown : ∀ f ∈ files, known f) : Sane known agent' := by
  obtain ⟨added, grown, there⟩ := touches.added
  intro g member
  rw [grown] at member
  have before : ∃ gfile, agent.heap.cells g = some gfile ∧ known gfile.toFile := by
    rcases List.mem_append.mp member with old | fresh
    · exact sane g old
    · obtain ⟨file, found, inside⟩ := there g fresh
      exact ⟨file, found, allKnown _ inside⟩
  obtain ⟨gfile, found, isKnown⟩ := before
  have kept := touches.kept g
  rw [found] at kept
  obtain ⟨now, found', same⟩ := Option.map_eq_some_iff.mp kept
  exact ⟨now, found', same ▸ isKnown⟩

theorem Touches.modify (found : agent.heap.cells a = some file)
    (inum : file.inum = f.inum) (same : ∀ file, (change file).toFile = file.toFile) : Touches [f] agent (agent.modify a change) where
  others x old found' apart := by
    have different : x ≠ a := by
      rintro rfl
      obtain rfl := Option.some.inj (found.symm.trans found')
      exact apart (List.mem_singleton.mpr inum)
    exact (Store.modify_of_ne different).trans found'
  kept x := by
    change ((agent.heap.modify a change).cells x).map _ = _
    rw [Store.cells_modify]
    split
    · rw [Option.map_map]
      exact congrArg (fun f => Option.map f (agent.heap.cells x)) (funext same)
    · rfl
  added := ⟨[], (List.append_nil _).symm, by simp⟩
  next := rfl

theorem modify_cell (found : agent.heap.cells a = some file) (change : AgentFile → AgentFile) :
    (agent.modify a change).heap.cells a = some (change file) := by
  rw [modify, Store.modify_self, found, Option.map_some]

theorem find_mem (found : agent.findByInum inum = some (g, gfile)) :
    g ∈ agent.globalFiles ∧ agent.heap.cells g = some gfile ∧ gfile.inum = inum := by
  obtain ⟨x, member, here⟩ := List.exists_of_findSome?_eq_some found
  unfold Agent.numbered at here
  split at here
  · rename_i file there
    split at here
    · rename_i inum
      obtain ⟨rfl, rfl⟩ := Prod.mk.inj (Option.some.inj here)
      exact ⟨member, there, inum⟩
    · cases here
  · cases here

/-- What stands in the array of a process for a file, when the cache has been asked. -/
structure Resolved (fetch : AgentFile → Option Bytes) (answers : Prop) (file : File)
    (now : AgentFile) : Prop where
  same : now.identity = file.identity
  bare : now.instancePath = none
  cached : answers → now.data = none
  read : ¬ answers → now.wanted fileRead = true →
    ∃ source : AgentFile, source.identity = file.identity ∧ fetch source = now.data ∧
      now.data.isSome = true

variable {fetch : AgentFile → Option Bytes}

theorem Resolved.name (resolved : Resolved fetch answers f now) : now.name = f.name :=
  congrArg (fun identity => identity.2.1) resolved.same

theorem download_touches (fetch : AgentFile → Option Bytes)
    (found : agent.heap.cells a = some file) (inum : file.inum = f.inum) :
    Touches [f] agent (download fetch agent a file).1 := by
  unfold download
  split
  · split
    · exact Touches.modify found inum (by intro; rfl)
    · exact Touches.modify found inum (by intro; rfl)
  · exact Touches.refl _ _

theorem download_some (found : agent.heap.cells a = some file) (bare : file.instancePath = none)
    (downloaded : download fetch agent a file = (agent', some r)) :
    ∃ now, agent'.heap.cells r = some now ∧ now.toFile = file.toFile ∧ now.instancePath = none ∧
      (now.wanted fileRead = true → fetch file = now.data ∧ now.data.isSome = true) := by
  unfold download at downloaded
  split at downloaded
  · split at downloaded
    · rename_i data fetched
      obtain ⟨rfl, same⟩ := Prod.mk.inj downloaded
      obtain rfl := Option.some.inj same
      refine ⟨_, modify_cell found _, rfl, bare, ?_⟩
      intro _
      exact ⟨fetched, rfl⟩
    · cases downloaded
  · rename_i unwanted
    obtain ⟨rfl, same⟩ := Prod.mk.inj downloaded
    obtain rfl := Option.some.inj same
    refine ⟨file, found, rfl, bare, ?_⟩
    intro wanted
    exact absurd wanted unwanted

theorem attachFile_touches (fetch : AgentFile → Option Bytes) (found : agent.heap.cells a = some { toFile := f }) :
    Touches [f] agent (attachFile fetch agent a { toFile := f }).1 := by
  unfold attachFile
  split
  · have grown : Touches [f] agent { agent with globalFiles := agent.globalFiles ++ [a] } := by
      refine { Touches.refl _ _ with added := ⟨[a], rfl, ?_⟩ }
      intro x member
      obtain rfl := List.mem_singleton.mp member
      exact ⟨_, found, List.mem_singleton_self _⟩
    have loaded : Touches [f] { agent with globalFiles := agent.globalFiles ++ [a] } _ := download_touches fetch found rfl
    exact (grown.trans loaded).weaken (by simp)
  · rename_i g gfile looked
    obtain ⟨_, there, inum⟩ := find_mem looked
    split
    · exact Touches.refl _ _
    · have dropped : Touches [f] agent (agent.modify g AgentFile.dropCache) := Touches.modify there inum (by intro; rfl)
      have loaded := download_touches fetch (modify_cell there AgentFile.dropCache) inum
      exact (dropped.trans loaded).weaken (by simp)

theorem attachFile_some (found : agent.heap.cells a = some { toFile := f }) (sane : Sane known agent) (isKnown : known f)
    (unique : ∀ f g, known f → known g → f.inum = g.inum → f.identity = g.identity)
    (attached : attachFile fetch agent a { toFile := f } = (agent', some r)) :
    ∃ now, agent'.heap.cells r = some now ∧ Resolved fetch (agent.Answers f) f now := by
  unfold attachFile at attached
  split at attached
  · rename_i missed
    have absent : ¬ agent.Answers f := by
      rintro ⟨g, gfile, looked, _⟩
      exact absurd (missed.symm.trans looked) (by simp)
    obtain ⟨now, found', same, bare, read⟩ := download_some (by exact found) rfl attached
    refine ⟨now, found', congrArg File.identity same, bare, (absurd · absent), ?_⟩
    intro _ wanted
    exact ⟨{ toFile := f }, rfl, read wanted⟩
  · rename_i g gfile looked
    obtain ⟨member, there, inum⟩ := find_mem looked
    split at attached
    · rename_i current
      obtain ⟨rfl, same⟩ := Prod.mk.inj attached
      obtain rfl := Option.some.inj same
      have answers : agent.Answers f := ⟨g, gfile, looked, current⟩
      exact ⟨_, found, rfl, rfl, (by intro; rfl), (absurd answers ·)⟩
    · rename_i stale
      have identity : gfile.identity = f.identity := by
        obtain ⟨gfile', there', known'⟩ := sane g member
        obtain rfl := Option.some.inj (there.symm.trans there')
        exact unique _ _ known' isKnown inum
      have absent : ¬ agent.Answers f := by
        rintro ⟨g', gfile', looked', current⟩
        obtain ⟨_, rfl⟩ := Prod.mk.inj (Option.some.inj (looked.symm.trans looked'))
        exact stale current
      obtain ⟨now, found', same, bare, read⟩ := download_some (modify_cell there AgentFile.dropCache) rfl attached
      refine ⟨now, found', (congrArg File.identity same).trans identity, bare, (absurd · absent), ?_⟩
      intro _ wanted
      exact ⟨gfile.dropCache, identity, read wanted⟩

/-- The objects of a process as they were received. -/
def Fresh (agent : Agent) (addrs : List Addr) (files : List File) : Prop :=
  List.Forall₂ (fun a f => agent.heap.cells a = some { toFile := f }) addrs files

variable {addrs : List Addr}

theorem Fresh.touched (fresh : Fresh agent addrs others)
    (touches : Touches files agent agent') (apart : ∀ f ∈ others, f.inum ∉ files.map File.inum) :
    Fresh agent' addrs others := by
  unfold Fresh at fresh ⊢
  induction fresh with
  | nil => exact List.Forall₂.nil
  | @cons a f rest others found _ ih =>
    exact List.Forall₂.cons (touches.others a _ found (apart f (List.mem_cons_self ..)))
      (ih fun g member => apart g (List.mem_cons_of_mem _ member))

theorem attachLoop_touches (fetch : Nat → AgentFile → Option Bytes) (i : Nat)
    (fresh : Fresh agent addrs files) (distinct : (files.map File.inum).Nodup) :
    Touches files agent (attachLoop fetch i agent addrs).1 := by
  induction addrs generalizing agent files i with
  | nil => exact Touches.refl _ _
  | cons a rest ih =>
    cases fresh with
    | @cons _ f _ others found later =>
      obtain ⟨apart, distinct'⟩ := List.nodup_cons.mp distinct
      have first := attachFile_touches (fetch i) found
      have later' : ∀ g ∈ others, g.inum ∉ [f].map File.inum := by
        intro g member same
        exact apart (List.mem_map.mpr ⟨g, member, List.mem_singleton.mp same⟩)
      simp only [attachLoop, found]
      split
      · rename_i agent' attached
        rw [attached] at first
        exact first.weaken (by simp)
      · rename_i agent' here attached
        rw [attached] at first
        have second := ih (i + 1) (Fresh.touched later first later') distinct'
        have both := first.trans second
        split
        · rename_i looped
          rw [looped] at both
          exact both
        · rename_i looped
          rw [looped] at both
          exact both

theorem attachLoop_some {fetch : Nat → AgentFile → Option Bytes} (fresh : Fresh agent addrs files)
    (distinct : (files.map File.inum).Nodup) (sane : Sane known agent) (allKnown : ∀ f ∈ files, known f)
    (unique : ∀ f g, known f → known g → f.inum = g.inum → f.identity = g.identity)
    (attached : attachLoop fetch i agent addrs = (agent', some addrs')) :
    addrs'.length = files.length ∧ ∀ k f, files[k]? = some f →
      ∃ r now, addrs'[k]? = some r ∧ agent'.heap.cells r = some now ∧
        Resolved (fetch (i + k)) (agent.Answers f) f now := by
  induction addrs generalizing agent files i addrs' with
  | nil =>
    cases fresh
    obtain ⟨rfl, same⟩ := Prod.mk.inj attached
    obtain rfl := Option.some.inj same
    exact ⟨rfl, by simp⟩
  | cons a rest ih =>
    cases fresh with
    | @cons _ f _ others found later =>
      obtain ⟨apart, distinct'⟩ := List.nodup_cons.mp distinct
      have first := attachFile_touches (fetch i) found
      have later' : ∀ g ∈ others, g.inum ∉ [f].map File.inum := by
        intro g member same
        exact apart (List.mem_map.mpr ⟨g, member, List.mem_singleton.mp same⟩)
      have isKnown := allKnown f (List.mem_cons_self ..)
      have othersKnown : ∀ g ∈ others, known g := fun g member =>
        allKnown g (List.mem_cons_of_mem _ member)
      simp only [attachLoop, found] at attached
      split at attached
      · cases attached
      · rename_i middle here attachedHere
        rw [attachedHere] at first
        obtain ⟨now, there, resolved⟩ := attachFile_some found sane isKnown unique attachedHere
        have fresh' := Fresh.touched later first later'
        have sane' : Sane known middle := first.sane sane (by simpa using isKnown)
        split at attached
        · cases attached
        · rename_i final addrs looped
          obtain ⟨rfl, same⟩ := Prod.mk.inj attached
          obtain rfl := Option.some.inj same
          obtain ⟨length, rest'⟩ := ih fresh' distinct' sane' othersKnown looped
          refine ⟨congrArg Nat.succ length, ?_⟩
          intro k g at_
          cases k with
          | zero =>
            obtain rfl := Option.some.inj at_
            have second := attachLoop_touches fetch (i + 1) fresh' distinct'
            rw [looped] at second
            have inum : now.inum = f.inum := congrArg Prod.fst resolved.same
            exact ⟨here, now, rfl, second.others here now there (inum ▸ apart), resolved⟩
          | succ k =>
            obtain ⟨r, now, at', there', resolved'⟩ := rest' k g at_
            have member : g ∈ others := List.mem_of_getElem? at_
            have answers : middle.Answers g = agent.Answers g := by
              rw [Answers, Answers, first.find (later' g member)]
            rw [answers, Nat.add_right_comm] at resolved'
            exact ⟨r, now, at', there', resolved'⟩

/-- No object is where the next one goes. -/
def Bounded (agent : Agent) : Prop := ∀ x file, agent.heap.cells x = some file → x < agent.next

/-- What the array of a received process has, and what its objects leave alone. -/
structure Received (files : List File) (agent agent' : Agent) (addrs : List Addr) : Prop where
  fresh : Fresh agent' addrs files
  nodup : addrs.Nodup
  above : ∀ a ∈ addrs, agent.next ≤ a
  others : ∀ x, x < agent.next → agent'.heap.cells x = agent.heap.cells x
  globals : agent'.globalFiles = agent.globalFiles
  bounded : Bounded agent'

theorem receive_received (files : List File) (bounded : Bounded agent) :
    agent.next ≤ (agent.receive files).1.next ∧ Received files agent (agent.receive files).1 (agent.receive files).2 := by
  induction files generalizing agent with
  | nil => exact ⟨Nat.le_refl _, List.Forall₂.nil, List.nodup_nil, by simp [receive], by intros; rfl, rfl, bounded⟩
  | cons f rest ih =>
    let here : Agent := { agent with heap := agent.heap.alloc agent.next { toFile := f }, next := agent.next + 1 }
    have bounded' : Bounded here := by
      intro x file found
      by_cases same : x = agent.next
      · exact same ▸ Nat.lt_succ_self _
      · exact Nat.lt_succ_of_lt (bounded x file ((Store.alloc_of_ne same).symm.trans found))
    obtain ⟨grown, received⟩ := ih bounded'
    refine ⟨Nat.le_of_succ_le grown, ?_⟩
    constructor
    case fresh =>
      refine List.Forall₂.cons ?_ received.fresh
      exact (received.others _ (Nat.lt_succ_self _)).trans (Store.alloc_self _ _ _)
    case nodup =>
      refine List.nodup_cons.mpr ⟨?_, received.nodup⟩
      intro again
      exact absurd (received.above _ again) (Nat.not_succ_le_self _)
    case above =>
      intro a member
      rcases List.mem_cons.mp member with rfl | later
      · exact Nat.le_refl _
      · exact Nat.le_of_succ_le (received.above a later)
    case others =>
      intro x below
      exact (received.others x (Nat.lt_succ_of_lt below)).trans (Store.alloc_of_ne (Nat.ne_of_lt below))
    case globals => exact received.globals
    case bounded => exact received.bounded

theorem Received.answers (received : Received files agent agent' addrs)
    (sane : Sane known agent) (bounded : Bounded agent) (f : File) : agent'.Answers f ↔ agent.Answers f := by
  have same : ∀ g ∈ agent.globalFiles, agent'.numbered f.inum g = agent.numbered f.inum g := by
    intro g member
    obtain ⟨gfile, found, _⟩ := sane g member
    rw [numbered, numbered, received.others g (bounded g gfile found)]
  have found : agent'.findByInum f.inum = agent.findByInum f.inum := by
    rw [findByInum, findByInum, received.globals]
    rw [← List.head?_filterMap, ← List.head?_filterMap, List.filterMap_congr same]
  rw [Answers, Answers, found]

theorem Received.sane (received : Received files agent agent' addrs)
    (sane : Sane known agent) (bounded : Bounded agent) : Sane known agent' := by
  intro g member
  rw [received.globals] at member
  obtain ⟨gfile, found, isKnown⟩ := sane g member
  exact ⟨gfile, (received.others g (bounded g gfile found)).trans found, isKnown⟩

/-- A file of a process is told its path. -/
def setPath (agent : Agent) (a : Addr) (path : CString) : Agent :=
  agent.modify a fun file => { file with instancePath := some path }

theorem setPath_kept (agent : Agent) (a : Addr) (path : CString) (x : Addr) :
    ((agent.setPath a path).heap.cells x).map AgentFile.toFile = (agent.heap.cells x).map AgentFile.toFile := by
  change ((agent.heap.modify a _).cells x).map _ = _
  rw [Store.cells_modify]
  split
  · rw [Option.map_map]
    rfl
  · rfl

theorem instantiateLoop_kept (dirpath : CString) (made : Nat → Bool) (i : Nat)
    (directory : Directory) (addrs : List Addr) :
    (∀ x, ((instantiateLoop dirpath made i agent directory addrs).1.heap.cells x).map
        AgentFile.toFile = (agent.heap.cells x).map AgentFile.toFile) ∧
      (instantiateLoop dirpath made i agent directory addrs).1.globalFiles = agent.globalFiles ∧
      (instantiateLoop dirpath made i agent directory addrs).1.next = agent.next := by
  induction addrs generalizing agent i directory with
  | nil => exact ⟨by intro; rfl, rfl, rfl⟩
  | cons a rest ih =>
    unfold instantiateLoop
    split
    · exact ⟨by intro; rfl, rfl, rfl⟩
    · rename_i file found
      split
      · exact ih _ _
      · split
        · obtain ⟨kept, globals, next⟩ := @ih (agent.setPath a (instancePathOf dirpath file.name))
            (i + 1) (mkfile directory (instancePathOf dirpath file.name) file.data)
          exact ⟨fun x => (kept x).trans (setPath_kept _ _ _ x), globals, next⟩
        · exact ⟨by intro; rfl, rfl, rfl⟩

theorem mkfile_self (directory : Directory) (path : CString) (data : Option Bytes) :
    mkfile directory path data path = data.or (directory path) := by
  cases data with
  | none => rfl
  | some bytes => exact Function.update_self _ _ _

theorem mkfile_of_ne (different : other ≠ path)
    (data : Option Bytes) : mkfile directory path data other = directory other := by
  cases data with
  | none => rfl
  | some bytes => exact Function.update_of_ne different _ _

/-- The instances of the files of a process, when no two of them have one path. -/
theorem instantiateLoop_some (nodup : addrs.Nodup)
    (apart : addrs.Pairwise fun a b => ∀ first second, agent.heap.cells a = some first →
      agent.heap.cells b = some second → instancePathOf dirpath first.name ≠ instancePathOf dirpath second.name)
    (looped : instantiateLoop dirpath made i agent directory addrs = (agent', some directory')) :
    (∀ x ∉ addrs, agent'.heap.cells x = agent.heap.cells x) ∧
      (∀ path, (∀ a ∈ addrs, ∀ file, agent.heap.cells a = some file →
        instancePathOf dirpath file.name ≠ path) → directory' path = directory path) ∧
      ∀ a ∈ addrs, ∃ file now, agent.heap.cells a = some file ∧ agent'.heap.cells a = some now ∧
        (captured file.name = true → now.instancePath = file.instancePath) ∧
        (captured file.name = false → now.instancePath = some (instancePathOf dirpath file.name) ∧
          directory' (instancePathOf dirpath file.name) =
            file.data.or (directory (instancePathOf dirpath file.name))) := by
  induction addrs generalizing agent i directory with
  | nil =>
    obtain ⟨rfl, same⟩ := Prod.mk.inj looped
    obtain rfl := Option.some.inj same
    exact ⟨by intros; rfl, by intros; rfl, by simp⟩
  | cons a rest ih =>
    obtain ⟨notRest, nodup'⟩ := List.nodup_cons.mp nodup
    obtain ⟨apartHere, apart'⟩ := List.pairwise_cons.mp apart
    unfold instantiateLoop at looped
    split at looped
    · cases looped
    · rename_i file found
      split at looped
      · rename_i special
        obtain ⟨others, paths, instances⟩ := ih nodup' apart' looped
        refine ⟨fun x outside => others x (mt (List.mem_cons_of_mem _) outside), ?_, ?_⟩
        · intro path free
          exact paths path fun b member => free b (List.mem_cons_of_mem _ member)
        · intro b member
          rcases List.mem_cons.mp member with rfl | later
          · exact ⟨file, file, found, (others b notRest).trans found, by intro; rfl,
              fun plain => absurd (special.symm.trans plain) (by decide)⟩
          · exact instances b later
      · rename_i plain
        split at looped
        · have unchanged (b : Addr) (different : b ≠ a) :
              (agent.setPath a (instancePathOf dirpath file.name)).heap.cells b =
                agent.heap.cells b := Store.modify_of_ne different
          have apart'' : rest.Pairwise fun b c => ∀ first second,
              (agent.setPath a (instancePathOf dirpath file.name)).heap.cells b = some first →
              (agent.setPath a (instancePathOf dirpath file.name)).heap.cells c = some second →
              instancePathOf dirpath first.name ≠ instancePathOf dirpath second.name := by
            refine apart'.imp_of_mem ?_
            intro b c memberB memberC distinct first second foundB foundC
            rw [unchanged b (ne_of_mem_of_not_mem memberB notRest)] at foundB
            rw [unchanged c (ne_of_mem_of_not_mem memberC notRest)] at foundC
            exact distinct first second foundB foundC
          obtain ⟨others, paths, instances⟩ := ih nodup' apart'' looped
          have here : agent'.heap.cells a = some { file with instancePath := some (instancePathOf dirpath file.name) } :=
            (others a notRest).trans (modify_cell found _)
          refine ⟨?_, ?_, ?_⟩
          · intro x outside
            obtain ⟨different, later⟩ := not_or.mp (mt List.mem_cons.mpr outside)
            exact (others x later).trans (unchanged x different)
          · intro path free
            have later := paths path fun b member second foundB => by
              rw [unchanged b (ne_of_mem_of_not_mem member notRest)] at foundB
              exact free b (List.mem_cons_of_mem _ member) second foundB
            exact later.trans (mkfile_of_ne (Ne.symm (free a (List.mem_cons_self ..) file found)) _)
          · intro b member
            rcases List.mem_cons.mp member with rfl | later
            · have written := paths (instancePathOf dirpath file.name) fun c member second foundC => by
                rw [unchanged c (ne_of_mem_of_not_mem member notRest)] at foundC
                exact Ne.symm (apartHere c member file second found foundC)
              exact ⟨file, _, found, here, fun special => absurd special plain,
                fun _ => ⟨rfl, written.trans (mkfile_self _ _ _)⟩⟩
            · obtain ⟨second, now, foundB, foundB', special, ordinary⟩ := instances b later
              rw [unchanged b (ne_of_mem_of_not_mem later notRest)] at foundB
              refine ⟨second, now, foundB, foundB', special, ?_⟩
              intro ordinary'
              obtain ⟨path, written⟩ := ordinary ordinary'
              rw [mkfile_of_ne (Ne.symm (apartHere b later file second found foundB))] at written
              exact ⟨path, written⟩
        · cases looped

theorem Touches.bounded (touches : Touches files agent agent') (bounded : Bounded agent) : Bounded agent' := by
  intro x file found
  obtain ⟨old, found', _⟩ := touches.before found
  exact touches.next ▸ bounded x old found'

theorem attachFiles_kept {fetch : Nat → AgentFile → Option Bytes} (fresh : Fresh agent addrs files)
    (distinct : (files.map File.inum).Nodup) (sane : Sane known agent) (bounded : Bounded agent)
    (allKnown : ∀ f ∈ files, known f) :
    Sane known (attachFiles fetch dirpath made agent addrs).1 ∧
      Bounded (attachFiles fetch dirpath made agent addrs).1 := by
  have touches := attachLoop_touches fetch 0 fresh distinct
  have sane' := touches.sane sane allKnown
  have bounded' := touches.bounded bounded
  unfold attachFiles
  split
  · rename_i looped
    rw [looped] at sane' bounded'
    exact ⟨sane', bounded'⟩
  · rename_i middle addrs' looped
    rw [looped] at sane' bounded'
    obtain ⟨kept, globals, next⟩ := @instantiateLoop_kept middle dirpath made 0 (fun _ => none) addrs'
    have final : Sane known (instantiateLoop dirpath made 0 middle (fun _ => none) addrs').1 ∧
        Bounded (instantiateLoop dirpath made 0 middle (fun _ => none) addrs').1 := by
      constructor
      · intro g member
        rw [globals] at member
        obtain ⟨gfile, found, isKnown⟩ := sane' g member
        have same := kept g
        rw [show middle.heap.cells g = some gfile from found] at same
        obtain ⟨now, found', same⟩ := Option.map_eq_some_iff.mp same
        exact ⟨now, found', same ▸ isKnown⟩
      · intro x file found
        have same := kept x
        rw [found] at same
        obtain ⟨old, found', _⟩ := Option.map_eq_some_iff.mp same.symm
        exact next ▸ bounded' x old found'
    split
    · rename_i instantiated
      rw [instantiated] at final
      exact final
    · rename_i instantiated
      rw [instantiated] at final
      exact final

end Agent

end Testbus
