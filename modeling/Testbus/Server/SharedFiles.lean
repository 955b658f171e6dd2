import Testbus.Server.Requests
import Testbus.Lib.Shadow

namespace Testbus.Server

open Lib Dbus

/-- A file object, with its count of references. -/
structure SharedFile where
  file : File
  refcount : Nat := 1

/-- `struct ni_testbus_file_array`. -/
structure FileIndex where
  data : List Addr := []
  nextId : UInt32 := 0

/-- All file objects. A new one lies at `next`, and `inum` is the number it gets. -/
structure FileHeap where
  files : Store SharedFile := Store.empty
  next : Addr := 0
  inum : UInt32 := 1

namespace FileHeap

def deref (h : FileHeap) (a : Addr) : Except Fault SharedFile :=
  match h.files.cells a with
  | some shared => .ok shared
  | none => .error .freed

/-- A new object, with the reference of its maker. -/
def alloc (h : FileHeap) (file : File) : FileHeap where
  files := h.files.alloc h.next { file := file }
  next := h.next + 1
  inum := h.inum + 1

def get (h : FileHeap) (a : Addr) : Except Fault FileHeap := do
  let shared ← h.deref a
  if shared.refcount = 0 then .error .assertion
  else .ok { h with files := h.files.modify a fun f => { f with refcount := f.refcount + 1 } }

def put (h : FileHeap) (a : Addr) : Except Fault FileHeap := do
  let shared ← h.deref a
  if shared.refcount = 0 then .error .assertion
  else if shared.refcount = 1 then .ok { h with files := h.files.free a }
  else .ok { h with files := h.files.modify a fun f => { f with refcount := f.refcount - 1 } }

def findByName (h : FileHeap) (name : Option CString) : List Addr → Except Fault (Option Addr)
  | [] => .ok none
  | a :: rest => do
    let shared ← h.deref a
    if shared.file.name = name then .ok (some a) else h.findByName name rest

/-- The references of an array are put when it is destroyed. -/
def putAll (h : FileHeap) : List Addr → Except Fault FileHeap
  | [] => .ok h
  | a :: rest => do
    let h ← h.put a
    h.putAll rest

end FileHeap

namespace FileIndex

def append (array : FileIndex) (a : Addr) (h : FileHeap) : Except Fault (FileIndex × FileHeap) := do
  let h ← h.get a
  .ok ({ array with data := array.data ++ [a] }, h)

/-- `ni_testbus_file_array_remove`: the first pointer to the file goes. -/
def remove (array : FileIndex) (a : Addr) (h : FileHeap) : Except Fault (FileIndex × FileHeap) :=
  if a ∈ array.data then do
    let h ← h.put a
    .ok ({ array with data := array.data.erase a }, h)
  else .ok (array, h)

def merge (result : FileIndex) : List Addr → FileHeap → Except Fault (FileIndex × FileHeap)
  | [], h => .ok (result, h)
  | a :: rest, h => do
    let shared ← h.deref a
    match ← h.findByName shared.file.name result.data with
    | some _ => result.merge rest h
    | none => do
      let (result, h) ← result.append a h
      result.merge rest h

def fileNew (name : Option CString) (array : FileIndex) (mode : UInt32) (h : FileHeap) :
    Except Fault (Addr × FileIndex × FileHeap) := do
  let file := (Dbus.fileNew name { nextId := array.nextId } mode h.inum).1
  let a := h.next
  let h : FileHeap :=
    { files := h.files.alloc a { file := file }, next := h.next + 1, inum := h.inum + 1 }
  let (array, h) ← append { array with nextId := array.nextId + 1 } a h
  let h ← h.put a
  .ok (a, array, h)

/-- The files that are opened for writing, each with a reference of its own. -/
def outputs : List Addr → FileHeap → Except Fault (List Addr × FileHeap)
  | [], h => .ok ([], h)
  | a :: rest, h => do
    let shared ← h.deref a
    if shared.file.mode &&& fileWrite ≠ 0 then do
      let h ← h.get a
      let (ofiles, h) ← outputs rest h
      .ok (a :: ofiles, h)
    else outputs rest h

/-- The loop that puts a new file in the place of each output. -/
def renew (array : FileIndex) : List Addr → FileHeap → Except Fault (FileIndex × FileHeap)
  | [], h => .ok (array, h)
  | a :: rest, h => do
    let shared ← h.deref a
    let (_, array, h) ← fileNew shared.file.name array shared.file.mode h
    let (array, h) ← array.remove a h
    array.renew rest h

/-- `ni_testbus_process_finalize`, on the files of the process. -/
def finalize (array : FileIndex) (h : FileHeap) : Except Fault (FileIndex × FileHeap) := do
  let (ofiles, h) ← outputs array.data h
  let (array, h) ← array.renew ofiles h
  let h ← h.putAll ofiles
  .ok (array, h)

end FileIndex

def Kind.hasFiles : Kind → Bool
  | .globalContext | .host | .testcase | .command | .process => true

/-- The master, its file objects and the array of each container. -/
structure Filesets where
  world : World
  heap : FileHeap
  arrays : Addr → FileIndex

namespace Filesets

/-- The loop of `ni_testbus_container_merge_files`, up from a container. -/
def mergeChain (s : Filesets) (result : FileIndex) :
    List (Addr × Container) → FileHeap → Except Fault (FileIndex × FileHeap)
  | [], h => .ok (result, h)
  | (container, self) :: above, h => do
    let (result, h) ←
      if self.kind.hasFiles then result.merge (s.arrays container).data h else .ok (result, h)
    s.mergeChain result above h

def setArray (s : Filesets) (container : Addr) (array : FileIndex) (h : FileHeap) : Filesets :=
  { s with heap := h, arrays := Function.update s.arrays container array }

/-- `ni_testbus_process_apply_context`, the files. -/
def applyContext (process container : Addr) (s : Filesets) : Except Fault Filesets := do
  let chain ← ancestors s.world (s.world.next + 1) container
  let (array, h) ← s.mergeChain (s.arrays process) chain s.heap
  .ok (s.setArray process array h)

/-- A new process of a command on a host, with its files. -/
def processFiles (host command : Addr) (s : Filesets) : Except Fault (Addr × Filesets) := do
  let (process, world) ← processNew host command s.world
  let s := setArray { s with world := world } process {} s.heap
  let s ← applyContext process command s
  let s ← applyContext process host s
  let (array, h) ← (s.arrays process).finalize s.heap
  .ok (process, s.setArray process array h)

end Filesets

namespace FileHeap

variable {base h h' : FileHeap} {held : Multiset Addr}

theorem deref_ok : h.deref a = .ok shared ↔ h.files.cells a = some shared := by
  unfold deref
  cases h.files.cells a <;> simp

def fileOf (h : FileHeap) (a : Addr) : Option File := (h.files.cells a).map SharedFile.file

def nameOf (h : FileHeap) (a : Addr) : Option (Option CString) := (h.fileOf a).map File.name

/-- An object that something has a reference to. -/
def Alive (h : FileHeap) (a : Addr) : Prop :=
  ∃ shared, h.files.cells a = some shared ∧ shared.refcount ≠ 0

/-- No object lies where the next one will. -/
def Bounded (h : FileHeap) : Prop := ∀ a shared, h.files.cells a = some shared → a < h.next

/-- The objects that there are keep their fields. -/
def Keeps (h h' : FileHeap) : Prop := ∀ a file, h.fileOf a = some file → h'.fileOf a = some file

theorem Keeps.refl (h : FileHeap) : h.Keeps h := fun _ _ there => there

theorem Keeps.trans (first : h.Keeps h') (second : h'.Keeps h'') : h.Keeps h'' :=
  fun a file there => second a file (first a file there)

theorem Alive.fileOf (alive : h.Alive a) : ∃ file, h.fileOf a = some file := by
  obtain ⟨shared, found, _⟩ := alive
  exact ⟨shared.file, by rw [FileHeap.fileOf, found]; rfl⟩

/-- The objects of an earlier heap are there, each with the references that were added: those
that are held. What came later has a reference. -/
structure Counted (base h : FileHeap) (held : Multiset Addr) : Prop where
  cells : ∀ a shared, base.files.cells a = some shared →
    h.files.cells a = some { shared with refcount := shared.refcount + held.count a }
  fresh : ∀ a shared, base.next ≤ a → h.files.cells a = some shared → shared.refcount ≠ 0
  later : base.next ≤ h.next
  early : base.Bounded
  bounded : h.Bounded

theorem Counted.start (bounded : base.Bounded) : Counted base base 0 where
  cells := by
    intro a shared found
    simpa using found
  fresh := by
    intro a shared late found
    exact absurd (bounded a shared found) (Nat.not_lt.mpr late)
  later := Nat.le_refl _
  early := bounded
  bounded := bounded

theorem Counted.fileOf (counted : Counted base h held) : base.Keeps h := by
  intro a file there
  obtain ⟨shared, found, same⟩ := Option.map_eq_some_iff.mp there
  rw [FileHeap.fileOf, counted.cells a shared found]
  exact congrArg some same

theorem keeps_modify (h : FileHeap) (a : Addr) (change : SharedFile → SharedFile)
    (same : ∀ f, (change f).file = f.file) : h.Keeps { h with files := h.files.modify a change } := by
  intro b file there
  rw [FileHeap.fileOf, Store.cells_modify]
  split
  · rw [Option.map_map]
    have fields : SharedFile.file ∘ change = SharedFile.file := funext same
    rw [fields]
    exact there
  · exact there

theorem bounded_modify (bounded : h.Bounded) (a : Addr) (change : SharedFile → SharedFile) :
    Bounded { h with files := h.files.modify a change } := by
  intro b shared found
  rw [Store.cells_modify] at found
  split at found
  · obtain ⟨old, there, _⟩ := Option.map_eq_some_iff.mp found
    exact bounded b old there
  · exact bounded b shared found

theorem fresh_modify (change : SharedFile → SharedFile) (early : a < base.next)
    (fresh : ∀ a shared, base.next ≤ a → h.files.cells a = some shared → shared.refcount ≠ 0) :
    ∀ b shared, base.next ≤ b → (h.files.modify a change).cells b = some shared → shared.refcount ≠ 0 := by
  intro b shared late found
  rw [Store.modify_of_ne (Nat.ne_of_gt (Nat.lt_of_lt_of_le early late))] at found
  exact fresh b shared late found

theorem Counted.get (counted : Counted base h held) (alive : base.Alive a) :
    ∃ h', h.get a = .ok h' ∧ Counted base h' (a ::ₘ held) ∧ h.Keeps h' ∧ h'.next = h.next := by
  obtain ⟨shared, found, positive⟩ := alive
  have now := counted.cells a shared found
  refine ⟨_, bind_ok.mpr ⟨_, deref_ok.mpr now, if_neg (by simp only; omega)⟩, ?_, keeps_modify _ _ _ (fun _ => rfl), rfl⟩
  refine ⟨?_, fresh_modify _ (counted.early a shared found) counted.fresh, counted.later,
    counted.early, bounded_modify counted.bounded _ _⟩
  intro b other there
  rw [Store.cells_modify, counted.cells b other there]
  by_cases same : b = a
  · subst same
    rw [if_pos rfl, Option.map_some, Multiset.count_cons_self]
    rfl
  · rw [if_neg same, Multiset.count_cons_of_ne same]

theorem Counted.put (counted : Counted base h held) (alive : base.Alive a) (member : a ∈ held) :
    ∃ h', h.put a = .ok h' ∧ Counted base h' (held.erase a) ∧ h.Keeps h' ∧ h'.next = h.next := by
  obtain ⟨shared, found, positive⟩ := alive
  have now := counted.cells a shared found
  have some' : 0 < held.count a := Multiset.count_pos.mpr member
  refine ⟨_, bind_ok.mpr ⟨_, deref_ok.mpr now, ?_⟩, ?_,
    keeps_modify h a (fun f => { f with refcount := f.refcount - 1 }) (fun _ => rfl), rfl⟩
  · rw [if_neg (by simp only; omega), if_neg (by simp only; omega)]
  · refine ⟨?_, fresh_modify _ (counted.early a shared found) counted.fresh, counted.later,
      counted.early, bounded_modify counted.bounded _ _⟩
    intro b other there
    rw [Store.cells_modify, counted.cells b other there]
    by_cases same : b = a
    · subst same
      rw [if_pos rfl, Option.map_some, Multiset.count_erase_self, Nat.add_sub_assoc some']
    · rw [if_neg same, Multiset.count_erase_of_ne same]

theorem Counted.putAll {addrs : List Addr} (counted : Counted base h held) (alive : ∀ a ∈ addrs, base.Alive a)
    (member : (addrs : Multiset Addr) ≤ held) :
    ∃ h', h.putAll addrs = .ok h' ∧ Counted base h' (held - addrs) ∧ h.Keeps h' ∧ h'.next = h.next := by
  induction addrs generalizing h held with
  | nil => exact ⟨h, rfl, by simpa using counted, Keeps.refl h, rfl⟩
  | cons a rest ih =>
    have inside : a ∈ held := Multiset.mem_of_le member (by simp)
    obtain ⟨h₁, made, counted₁, keeps₁, next₁⟩ := counted.put (alive a List.mem_cons_self) inside
    have rest' : (rest : Multiset Addr) ≤ held.erase a := by
      rw [← Multiset.cons_coe] at member
      rw [← Multiset.erase_cons_head a (rest : Multiset Addr)]
      exact Multiset.erase_le_erase a member
    obtain ⟨h₂, puts, counted₂, keeps₂, next₂⟩ :=
      ih counted₁ (fun b later => alive b (List.mem_cons_of_mem _ later)) rest'
    refine ⟨h₂, bind_ok.mpr ⟨h₁, made, puts⟩, ?_, keeps₁.trans keeps₂, next₂.trans next₁⟩
    rw [← Multiset.cons_coe, Multiset.sub_cons]
    exact counted₂

theorem findByName_eq (alive : ∀ a ∈ addrs, (h.fileOf a).isSome) (name : Option CString) :
    h.findByName name addrs = .ok (Shadow.lookup h.nameOf (some name) addrs) := by
  induction addrs with
  | nil => rfl
  | cons a rest ih =>
    obtain ⟨file, there⟩ := Option.isSome_iff_exists.mp (alive a List.mem_cons_self)
    obtain ⟨shared, found, same⟩ := Option.map_eq_some_iff.mp there
    rw [findByName, deref_ok.mpr found, ih fun b later => alive b (List.mem_cons_of_mem _ later)]
    have key : h.nameOf a = some shared.file.name := by rw [nameOf, there, ← same]; rfl
    change (if shared.file.name = name then _ else _) = _
    rw [Shadow.lookup_cons, key]
    by_cases this : shared.file.name = name
    · rw [if_pos this, if_pos (congrArg some this)]
    · rw [if_neg this, if_neg fun same => this (Option.some.inj same)]

end FileHeap

end Testbus.Server
