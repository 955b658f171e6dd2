import Testbus.Server.SharedFiles
import Testbus.Server.Inherited

namespace Testbus.Server

open Lib Dbus FileHeap

namespace FileHeap

variable {base h h' : FileHeap} {held : Multiset Addr}

/-- The file is opened for writing. -/
def writes (h : FileHeap) (a : Addr) : Bool :=
  match h.fileOf a with
  | some file => file.mode &&& fileWrite ≠ 0
  | none => false

theorem Keeps.nameOf (keeps : h.Keeps h') (there : (h.fileOf a).isSome) : h'.nameOf a = h.nameOf a := by
  obtain ⟨file, found⟩ := Option.isSome_iff_exists.mp there
  rw [FileHeap.nameOf, FileHeap.nameOf, keeps a file found, found]

theorem Keeps.writes (keeps : h.Keeps h') (there : (h.fileOf a).isSome) : h'.writes a = h.writes a := by
  obtain ⟨file, found⟩ := Option.isSome_iff_exists.mp there
  rw [FileHeap.writes, FileHeap.writes, keeps a file found, found]

theorem Keeps.isSome (keeps : h.Keeps h') (there : (h.fileOf a).isSome) : (h'.fileOf a).isSome := by
  obtain ⟨file, found⟩ := Option.isSome_iff_exists.mp there
  rw [keeps a file found]
  rfl

theorem Alive.isSome (alive : h.Alive a) : (h.fileOf a).isSome := Option.isSome_iff_exists.mpr alive.fileOf

theorem Counted.alive (counted : Counted base h held) (alive : base.Alive a) : h.Alive a := by
  obtain ⟨shared, found, positive⟩ := alive
  exact ⟨_, counted.cells a shared found, by simp only; omega⟩

/-- What came later and is there has a reference. -/
theorem Counted.alive_fresh (counted : Counted base h held) (late : base.next ≤ b)
    (there : (h.fileOf b).isSome) : h.Alive b := by
  obtain ⟨file, found⟩ := Option.isSome_iff_exists.mp there
  obtain ⟨shared, cell, _⟩ := Option.map_eq_some_iff.mp found
  exact ⟨shared, cell, counted.fresh b shared late cell⟩

theorem Alive.lt (alive : h.Alive a) (bounded : h.Bounded) : a < h.next := by
  obtain ⟨shared, found, _⟩ := alive
  exact bounded a shared found

/-- A file that has the name and the mode of another one. -/
def Copy (base h : FileHeap) (a b : Addr) : Prop :=
  ∃ old new, base.fileOf a = some old ∧ h.fileOf b = some new ∧ new.name = old.name ∧
    new.mode = old.mode

theorem Copy.keeps (copy : Copy base h a b) (keeps : h.Keeps h') : Copy base h' a b := by
  obtain ⟨old, new, there, found, name, mode⟩ := copy
  exact ⟨old, new, there, keeps b new found, name, mode⟩

theorem Copy.nameOf (copy : Copy base h a b) : h.nameOf b = base.nameOf a := by
  obtain ⟨old, new, there, found, name, _⟩ := copy
  rw [FileHeap.nameOf, FileHeap.nameOf, there, found, Option.map_some, Option.map_some, name]

theorem Copy.writes (copy : Copy base h a b) : h.writes b = base.writes a := by
  obtain ⟨old, new, there, found, _, mode⟩ := copy
  rw [FileHeap.writes, FileHeap.writes, there, found]
  simp only [mode]

theorem bounded_alloc (bounded : h.Bounded) (file : File) : (h.alloc file).Bounded := by
  intro a shared found
  by_cases new : a = h.next
  · exact new ▸ Nat.lt_succ_self _
  · rw [FileHeap.alloc, Store.alloc_of_ne new] at found
    exact Nat.lt_succ_of_lt (bounded a shared found)

theorem Counted.alloc (counted : Counted base h held) (file : File) :
    Counted base (h.alloc file) held ∧ h.Keeps (h.alloc file) := by
  have apart {a : Addr} {shared : SharedFile} (found : h.files.cells a = some shared) :
      a ≠ h.next := Nat.ne_of_lt (counted.bounded a shared found)
  refine ⟨⟨?_, ?_, Nat.le_succ_of_le counted.later, counted.early, bounded_alloc counted.bounded file⟩, ?_⟩
  · intro a shared found
    have now := counted.cells a shared found
    rw [FileHeap.alloc, Store.alloc_of_ne (apart now)]
    exact now
  · intro a shared late found
    by_cases new : a = h.next
    · subst new
      rw [FileHeap.alloc, Store.alloc_self] at found
      obtain rfl := Option.some.inj found
      exact Nat.one_ne_zero
    · rw [FileHeap.alloc, Store.alloc_of_ne new] at found
      exact counted.fresh a shared late found
  · intro a file' there
    obtain ⟨shared, found, _⟩ := Option.map_eq_some_iff.mp there
    rw [FileHeap.fileOf, FileHeap.alloc, Store.alloc_of_ne (apart found)]
    exact there

end FileHeap

namespace FileIndex

variable {base h h' : FileHeap} {held : Multiset Addr} {array result : FileIndex}

theorem coe_append_singleton (list : List Addr) (a : Addr) :
    ((list ++ [a] : List Addr) : Multiset Addr) = a ::ₘ (list : Multiset Addr) := by
  rw [← Multiset.coe_add, Multiset.coe_singleton, add_comm, Multiset.singleton_add]

/-- A merge takes the files whose names the array does not have, each with a reference. -/
theorem merge_spec (result : FileIndex) (counted : Counted base h result.data)
    (inside : ∀ a ∈ result.data, base.Alive a) (alive : ∀ a ∈ more, base.Alive a) :
    ∃ array h', result.merge more h = .ok (array, h') ∧
      array.data = Shadow.merge base.nameOf result.data more ∧ Counted base h' array.data := by
  induction more generalizing result h with
  | nil => exact ⟨result, h, rfl, rfl, counted⟩
  | cons a rest ih =>
    have here : base.Alive a := alive a List.mem_cons_self
    have later : ∀ b ∈ rest, base.Alive b := fun b member => alive b (List.mem_cons_of_mem _ member)
    obtain ⟨shared, found, positive⟩ := here
    have name : base.nameOf a = some shared.file.name := by
      rw [nameOf, fileOf, found]
      rfl
    have looked : h.findByName shared.file.name result.data =
        .ok (Shadow.lookup base.nameOf (base.nameOf a) result.data) := by
      rw [findByName_eq fun b member => counted.fileOf.isSome (inside b member).isSome, name]
      congr 1
      exact Shadow.lookup_congr fun b member => counted.fileOf.nameOf (inside b member).isSome
    have read : h.deref a = .ok _ := deref_ok.mpr (counted.cells a shared found)
    rw [Shadow.merge_cons]
    cases known : Shadow.lookup base.nameOf (base.nameOf a) result.data with
    | some b =>
      obtain ⟨array, h', merged, data, counted'⟩ := ih result counted inside later
      refine ⟨array, h', bind_ok.mpr ⟨_, read, bind_ok.mpr ⟨some b, ?_, merged⟩⟩, data, counted'⟩
      rw [looked, known]
    | none =>
      obtain ⟨h₁, got, counted₁, _⟩ := counted.get ⟨shared, found, positive⟩
      rw [← coe_append_singleton] at counted₁
      have inside₁ : ∀ b ∈ result.data ++ [a], base.Alive b := by
        intro b member
        rcases List.mem_append.mp member with old | new
        · exact inside b old
        · obtain rfl := List.mem_singleton.mp new
          exact ⟨shared, found, positive⟩
      obtain ⟨array, h', merged, data, counted'⟩ := ih { result with data := result.data ++ [a] } counted₁ inside₁ later
      refine ⟨array, h', bind_ok.mpr ⟨_, read, bind_ok.mpr ⟨none, ?_, ?_⟩⟩, data, counted'⟩
      · rw [looked, known]
      · exact bind_ok.mpr ⟨_, bind_ok.mpr ⟨h₁, got, rfl⟩, merged⟩

theorem outputs_spec {addrs : List Addr} (counted : Counted base h held) (alive : ∀ a ∈ addrs, base.Alive a) :
    ∃ h', outputs addrs h = .ok (addrs.filter base.writes, h') ∧
      Counted base h' (held + (addrs.filter base.writes : List Addr)) ∧ h.Keeps h' := by
  induction addrs generalizing h held with
  | nil => exact ⟨h, rfl, by simpa using counted, Keeps.refl h⟩
  | cons a rest ih =>
    have later : ∀ b ∈ rest, base.Alive b := fun b member => alive b (List.mem_cons_of_mem _ member)
    obtain ⟨shared, found, positive⟩ := alive a List.mem_cons_self
    have read : h.deref a = .ok _ := deref_ok.mpr (counted.cells a shared found)
    have writes : base.writes a = decide (shared.file.mode &&& fileWrite ≠ 0) := by
      rw [FileHeap.writes, fileOf, found]
      rfl
    by_cases output : shared.file.mode &&& fileWrite ≠ 0
    · have taken : base.writes a = true := writes.trans (decide_eq_true output)
      obtain ⟨h₁, got, counted₁, keeps₁, _⟩ := counted.get ⟨shared, found, positive⟩
      obtain ⟨h₂, rest', counted₂, keeps₂⟩ := ih counted₁ later
      refine ⟨h₂, ?_, ?_, keeps₁.trans keeps₂⟩
      · rw [List.filter_cons_of_pos taken]
        refine bind_ok.mpr ⟨_, read, ?_⟩
        rw [if_pos output]
        exact bind_ok.mpr ⟨h₁, got, bind_ok.mpr ⟨_, rest', rfl⟩⟩
      · rw [List.filter_cons_of_pos taken, ← Multiset.cons_coe, Multiset.add_cons, ← Multiset.cons_add]
        exact counted₂
    · have left : ¬ base.writes a = true := by
        rw [writes, decide_eq_true_eq]
        exact output
      obtain ⟨h₂, rest', counted₂, keeps₂⟩ := ih counted later
      refine ⟨h₂, ?_, ?_, keeps₂⟩
      · rw [List.filter_cons_of_neg left]
        refine bind_ok.mpr ⟨_, read, ?_⟩
        rw [if_neg output]
        exact rest'
      · rw [List.filter_cons_of_neg left]
        exact counted₂

theorem fileNew_eq (name : Option CString) (array : FileIndex) (mode : UInt32) (h : FileHeap) :
    fileNew name array mode h =
      .ok (h.next, { data := array.data ++ [h.next], nextId := array.nextId + 1 },
        h.alloc (Dbus.fileNew name { nextId := array.nextId } mode h.inum).1) := by
  unfold fileNew
  dsimp only
  generalize (Dbus.fileNew name { nextId := array.nextId } mode h.inum).1 = file
  let cell (refcount : Nat) : FileHeap :=
    { files := h.files.alloc h.next { file := file, refcount := refcount }
      next := h.next + 1, inum := h.inum + 1 }
  have found (refcount : Nat) : (cell refcount).files.cells h.next = some { file := file, refcount := refcount } :=
    Store.alloc_self _ _ _
  have got : (cell 1).get h.next = .ok (cell 2) := by
    refine bind_ok.mpr ⟨_, deref_ok.mpr (found 1), ?_⟩
    rw [if_neg (by simp), Store.modify_alloc]
  have dropped : (cell 2).put h.next = .ok (cell 1) := by
    refine bind_ok.mpr ⟨_, deref_ok.mpr (found 2), ?_⟩
    rw [if_neg (by simp), if_neg (by simp), Store.modify_alloc]
    rfl
  exact bind_ok.mpr ⟨_, bind_ok.mpr ⟨_, got, rfl⟩, bind_ok.mpr ⟨_, dropped, rfl⟩⟩

/-- What stands in an array after some of its files were replaced by new ones. -/
structure Renewed (base h : FileHeap) (ofiles old new : List Addr) : Prop where
  distinct : (new.map h.nameOf).Nodup
  there : ∀ b ∈ new, (h.fileOf b).isSome
  kept : ∀ a ∈ old, a ∉ ofiles → a ∈ new
  replaced : ∀ a ∈ ofiles, ∃ b ∈ new, base.next ≤ b ∧ Copy base h a b
  origin : ∀ b ∈ new, (b ∈ old ∧ b ∉ ofiles) ∨
    (base.next ≤ b ∧ ∃ a ∈ ofiles, Copy base h a b)

theorem Renewed.keeps (renewed : Renewed base h ofiles old new) (keeps : h.Keeps h') :
    Renewed base h' ofiles old new where
  distinct := by
    have same : new.map h'.nameOf = new.map h.nameOf :=
      List.map_congr_left fun b member => keeps.nameOf (renewed.there b member)
    rw [same]
    exact renewed.distinct
  there b member := keeps.isSome (renewed.there b member)
  kept := renewed.kept
  replaced a member := by
    obtain ⟨b, inside, late, copy⟩ := renewed.replaced a member
    exact ⟨b, inside, late, copy.keeps keeps⟩
  origin b member := by
    rcases renewed.origin b member with old | ⟨late, a, inside, copy⟩
    · exact Or.inl old
    · exact Or.inr ⟨late, a, inside, copy.keeps keeps⟩

/-- A file with the name of one of an array may take its place. -/
theorem nodup_swap {old : List Addr} (distinct : (old.map h.nameOf).Nodup)
    (there : ∀ b ∈ old, (h.fileOf b).isSome) (keeps : h.Keeps h') (member : a ∈ old)
    (name : h'.nameOf n = h.nameOf a) : ((old.erase a ++ [n]).map h'.nameOf).Nodup := by
  have same : (old.erase a).map h'.nameOf = (old.erase a).map h.nameOf :=
    List.map_congr_left fun b inside => keeps.nameOf (there b (List.mem_of_mem_erase inside))
  rw [List.map_append, same]
  refine List.Nodup.append ((List.erase_sublist.map _).nodup distinct) (List.nodup_singleton _) ?_
  intro k inside single
  obtain rfl := List.mem_singleton.mp single
  obtain ⟨b, memberB, sameB⟩ := List.mem_map.mp inside
  obtain rfl := List.inj_on_of_nodup_map distinct (List.mem_of_mem_erase memberB) member (sameB.trans name)
  exact (distinct.of_map).not_mem_erase memberB

theorem Renewed.nil (distinct : (old.map h.nameOf).Nodup)
    (there : ∀ b ∈ old, (h.fileOf b).isSome) : Renewed base h [] old old where
  distinct := distinct
  there := there
  kept _ member _ := member
  replaced _ member := absurd member List.not_mem_nil
  origin _ member := Or.inl ⟨member, List.not_mem_nil⟩

/-- One output was replaced by a new file before the others were. -/
theorem Renewed.cons (renewed : Renewed base h ofiles (old.erase a ++ [n]) new)
    (nodup : old.Nodup) (late : base.next ≤ n) (other : n ∉ ofiles) (copy : Copy base h a n) :
    Renewed base h (a :: ofiles) old new where
  distinct := renewed.distinct
  there := renewed.there
  kept b member missing := by
    have apart : b ≠ a := fun same => missing (same ▸ List.mem_cons_self)
    refine renewed.kept b (List.mem_append_left _ ((List.mem_erase_of_ne apart).mpr member)) ?_
    exact fun later => missing (List.mem_cons_of_mem _ later)
  replaced b member := by
    rcases List.mem_cons.mp member with rfl | later
    · exact ⟨n, renewed.kept n (List.mem_append_right _ List.mem_cons_self) other, late, copy⟩
    · exact renewed.replaced b later
  origin b member := by
    rcases renewed.origin b member with ⟨stays, missing⟩ | ⟨late', c, later, copy'⟩
    · rcases List.mem_append.mp stays with left | last
      · refine Or.inl ⟨List.mem_of_mem_erase left, ?_⟩
        intro again
        rcases List.mem_cons.mp again with rfl | later
        · exact nodup.not_mem_erase left
        · exact missing later
      · obtain rfl := List.mem_singleton.mp last
        exact Or.inr ⟨late, a, List.mem_cons_self, copy⟩
    · exact Or.inr ⟨late', c, List.mem_cons_of_mem _ later, copy'⟩

theorem replace_spec (array : FileIndex) (counted : Counted base h held) (alive : base.Alive a)
    (output : base.writes a = true) (member : a ∈ array.data) (ref : a ∈ held) :
    ∃ h', Counted base h' (held.erase a) ∧ h.Keeps h' ∧ Copy base h' a h.next ∧
      ∀ rest, array.renew (a :: rest) h =
        renew { data := array.data.erase a ++ [h.next], nextId := array.nextId + 1 } rest h' := by
  obtain ⟨shared, found, positive⟩ := alive
  have file : base.fileOf a = some shared.file := by
    rw [fileOf, found]
    rfl
  have written : shared.file.mode ≠ 0 := by
    intro zero
    rw [FileHeap.writes, file] at output
    dsimp only at output
    rw [zero] at output
    exact absurd output (by decide)
  have read : h.deref a = .ok _ := deref_ok.mpr (counted.cells a shared found)
  obtain ⟨counted₁, keeps₁⟩ := counted.alloc
    (Dbus.fileNew shared.file.name { nextId := array.nextId } shared.file.mode h.inum).1
  have made := fileNew_eq shared.file.name array shared.file.mode h
  generalize heap₁ : h.alloc (Dbus.fileNew shared.file.name { nextId := array.nextId }
    shared.file.mode h.inum).1 = h₁ at counted₁ keeps₁ made
  have copy : Copy base h₁ a h.next := by
    refine ⟨shared.file, (Dbus.fileNew shared.file.name { nextId := array.nextId }
      shared.file.mode h.inum).1, file, ?_, rfl, if_neg written⟩
    rw [fileOf, ← heap₁, FileHeap.alloc, Store.alloc_self]
    rfl
  obtain ⟨h₂, dropped, counted₂, keeps₂, _⟩ := counted₁.put ⟨shared, found, positive⟩ ref
  refine ⟨h₂, counted₂, keeps₁.trans keeps₂, copy.keeps keeps₂, ?_⟩
  intro rest
  have data : (array.data ++ [h.next]).erase a = array.data.erase a ++ [h.next] := List.erase_append_left _ member
  have removed : remove { data := array.data ++ [h.next], nextId := array.nextId + 1 } a h₁ =
      .ok ({ data := array.data.erase a ++ [h.next], nextId := array.nextId + 1 }, h₂) := by
    rw [remove, if_pos (List.mem_append_left _ member)]
    exact bind_ok.mpr ⟨h₂, dropped, by rw [data]⟩
  simp only [renew, bind, Except.bind, read, made, removed]

/-- Each output is replaced by a new file, and loses the reference of the array. -/
theorem renew_spec {ofiles : List Addr} (array : FileIndex) (counted : Counted base h held)
    (distinct : (array.data.map h.nameOf).Nodup) (there : ∀ b ∈ array.data, (h.fileOf b).isSome)
    (alive : ∀ a ∈ ofiles, base.Alive a) (modes : ∀ a ∈ ofiles, base.writes a = true)
    (inside : ∀ a ∈ ofiles, a ∈ array.data) (once : ofiles.Nodup) (refs : (ofiles : Multiset Addr) ≤ held) :
    ∃ new h', array.renew ofiles h = .ok (new, h') ∧ Counted base h' (held - ofiles) ∧
      h.Keeps h' ∧ Renewed base h' ofiles array.data new.data := by
  induction ofiles generalizing array h held with
  | nil =>
    exact ⟨array, h, rfl, by simpa using counted, Keeps.refl h, .nil distinct there⟩
  | cons a rest ih =>
    obtain ⟨aliveA, aliveRest⟩ := List.forall_mem_cons.mp alive
    obtain ⟨memberA, insideRest⟩ := List.forall_mem_cons.mp inside
    obtain ⟨modeA, modesRest⟩ := List.forall_mem_cons.mp modes
    obtain ⟨fresh, once'⟩ := List.nodup_cons.mp once
    obtain ⟨h₁, counted₁, keeps₁, copy, renewed₁⟩ := replace_spec array counted aliveA modeA memberA
      (Multiset.mem_of_le refs (by simp))
    have names : h₁.nameOf h.next = h.nameOf a := by
      rw [copy.nameOf, counted.fileOf.nameOf aliveA.isSome]
    have there₁ : ∀ b ∈ array.data.erase a ++ [h.next], (h₁.fileOf b).isSome := by
      intro b member
      rcases List.mem_append.mp member with old | new
      · exact keeps₁.isSome (there b (List.mem_of_mem_erase old))
      · obtain rfl := List.mem_singleton.mp new
        obtain ⟨_, new', _, found', _⟩ := copy
        exact Option.isSome_iff_exists.mpr ⟨new', found'⟩
    have inside₁ : ∀ b ∈ rest, b ∈ array.data.erase a ++ [h.next] := by
      intro b member
      have apart : b ≠ a := fun same => fresh (same ▸ member)
      exact List.mem_append_left _ ((List.mem_erase_of_ne apart).mpr (insideRest b member))
    have refs₁ : (rest : Multiset Addr) ≤ held.erase a := by
      rw [← Multiset.cons_coe] at refs
      rw [← Multiset.erase_cons_head a (rest : Multiset Addr)]
      exact Multiset.erase_le_erase a refs
    obtain ⟨new, h', renewed', counted', keeps', renewed⟩ :=
      ih { data := array.data.erase a ++ [h.next], nextId := array.nextId + 1 } counted₁
        (nodup_swap distinct there keeps₁ memberA names) there₁ aliveRest modesRest inside₁ once' refs₁
    have late : h.next ∉ rest := by
      intro member
      have early := (aliveRest h.next member).lt counted.early
      exact absurd early (Nat.not_lt.mpr counted.later)
    refine ⟨new, h', (renewed₁ rest).trans renewed', ?_, keeps₁.trans keeps',
      renewed.cons distinct.of_map counted.later late (copy.keeps keeps')⟩
    rw [← Multiset.cons_coe, Multiset.sub_cons]
    exact counted'

/-- The files that are written to are replaced; the others stay. -/
theorem finalize_spec (counted : Counted base h array.data)
    (alive : ∀ a ∈ array.data, base.Alive a) (distinct : (array.data.map base.nameOf).Nodup) :
    ∃ new h' held, array.finalize h = .ok (new, h') ∧ Counted base h' held ∧
      Renewed base h' (array.data.filter base.writes) array.data new.data := by
  obtain ⟨h₁, taken, counted₁, keeps₁⟩ := outputs_spec counted alive
  have keeps := counted.fileOf.trans keeps₁
  have names : array.data.map h₁.nameOf = array.data.map base.nameOf :=
    List.map_congr_left fun a member => keeps.nameOf (alive a member).isSome
  have member {a : Addr} (inside : a ∈ array.data.filter base.writes) : a ∈ array.data := (List.mem_filter.mp inside).1
  obtain ⟨new, h₂, renewed', counted₂, keeps₂, renewed⟩ := renew_spec array counted₁
    (by rw [names]; exact distinct) (fun a inside => keeps.isSome (alive a inside).isSome)
    (fun a inside => alive a (member inside)) (fun a inside => (List.mem_filter.mp inside).2)
    (fun a inside => member inside) (distinct.of_map.filter _)
    (Multiset.le_add_left _ _)
  rw [Multiset.add_sub_cancel_right] at counted₂
  obtain ⟨h₃, puts, counted₃, keeps₃, _⟩ := counted₂.putAll (fun a inside => alive a (member inside))
    (Multiset.coe_le.mpr List.filter_sublist.subperm)
  exact ⟨new, h₃, _, bind_ok.mpr ⟨_, taken, bind_ok.mpr ⟨_, renewed', bind_ok.mpr ⟨h₃, puts, rfl⟩⟩⟩,
    counted₃, renewed.keeps keeps₃⟩

end FileIndex

namespace Filesets

variable {s : Filesets} {base h : FileHeap} {result : FileIndex} {chain : List (Addr × Container)}

@[simp] theorem setArray_self (s : Filesets) (container : Addr) (array : FileIndex)
    (h : FileHeap) : (s.setArray container array h).arrays container = array := by
  simp [setArray]

theorem setArray_of_ne (apart : c ≠ container) : (s.setArray container array h).arrays c = s.arrays c := by
  simp [setArray, apart]

/-- What the containers of a chain have, from the first one on. -/
theorem mergeChain_spec (counted : Counted base h result.data) (inside : ∀ a ∈ result.data, base.Alive a)
    (alive : ∀ c ∈ chain.map Prod.fst, ∀ a ∈ (s.arrays c).data, base.Alive a) :
    ∃ array h', s.mergeChain result chain h = .ok (array, h') ∧
      array.data = ((chain.map Prod.fst).map fun c => (s.arrays c).data).foldl (Shadow.merge base.nameOf) result.data ∧
      Counted base h' array.data ∧ ∀ a ∈ array.data, base.Alive a := by
  induction chain generalizing result h with
  | nil => exact ⟨result, h, rfl, rfl, counted, inside⟩
  | cons entry above ih =>
    obtain ⟨c, self⟩ := entry
    have has : self.kind.hasFiles = true := by cases self.kind <;> rfl
    have here : ∀ a ∈ (s.arrays c).data, base.Alive a := alive c List.mem_cons_self
    obtain ⟨array₁, h₁, merged, data, counted₁⟩ := FileIndex.merge_spec _ counted inside here
    have inside₁ : ∀ a ∈ array₁.data, base.Alive a := by
      intro a member
      rw [data] at member
      exact (Shadow.mem_merge member).elim (inside a) (here a)
    obtain ⟨array₂, h₂, rest, data₂, kept⟩ := ih counted₁ inside₁ fun c' later => alive c' (List.mem_cons_of_mem _ later)
    refine ⟨array₂, h₂, ?_, ?_, kept⟩
    · rw [mergeChain, if_pos has]
      exact bind_ok.mpr ⟨_, merged, rest⟩
    · rw [data₂, data]
      rfl

/-- How far the files of a process have come. -/
structure Merging (s₀ : Filesets) (process : Addr) (addrs : List Addr) (s : Filesets) : Prop where
  counted : Counted s₀.heap s.heap (s.arrays process).data
  data : (s.arrays process).data = (addrs.map fun c => (s₀.arrays c).data).foldl
    (Shadow.merge s₀.heap.nameOf) []
  inside : ∀ a ∈ (s.arrays process).data, s₀.heap.Alive a
  others : ∀ c, c ≠ process → s.arrays c = s₀.arrays c

/-- The arrays hold references to objects that are there. -/
structure Sound (s : Filesets) : Prop where
  alive : ∀ c, ∀ a ∈ (s.arrays c).data, s.heap.Alive a
  bounded : s.heap.Bounded

theorem Merging.applyContext (merging : Merging s₀ process addrs s)
    (sound : s₀.Sound) (walked : ancestors s.world (s.world.next + 1) container = .ok chain)
    (apart : process ∉ chain.map Prod.fst) :
    ∃ s', applyContext process container s = .ok s' ∧ s'.world = s.world ∧
      Merging s₀ process (addrs ++ chain.map Prod.fst) s' := by
  have same : ∀ c ∈ chain.map Prod.fst, s.arrays c = s₀.arrays c := fun c member =>
    merging.others c fun here => apart (here ▸ member)
  obtain ⟨array, h, merged, data, counted, inside⟩ := mergeChain_spec (s := s) merging.counted
    merging.inside fun c member a there => sound.alive c a (same c member ▸ there)
  have lists : (chain.map Prod.fst).map (fun c => (s.arrays c).data) =
      (chain.map Prod.fst).map fun c => (s₀.arrays c).data :=
    List.map_congr_left fun c member => congrArg FileIndex.data (same c member)
  refine ⟨s.setArray process array h, bind_ok.mpr ⟨chain, walked, ?_⟩, rfl, ?_, ?_, ?_, ?_⟩
  · exact bind_ok.mpr ⟨_, merged, rfl⟩
  · rw [setArray_self]
    exact counted
  · rw [setArray_self, data, lists, merging.data, List.map_append, List.foldl_append]
  · rw [setArray_self]
    exact inside
  · intro c other
    rw [setArray_of_ne other]
    exact merging.others c other

/-- The file of a name in the first container of a chain that has one. -/
def nearest (s : Filesets) (chain : List (Addr × Container)) (name : Option CString) : Option Addr :=
  chain.findSome? fun entry => Shadow.lookup s.heap.nameOf (some name) (s.arrays entry.1).data

/-- The containers above one are older than the next. -/
theorem chain_apart (settled : Settled s.world) (cells : ∀ entry ∈ chain, s.world.heap.cells entry.1 = some entry.2) :
    s.world.next ∉ chain.map Prod.fst := by
  intro member
  obtain ⟨entry, inside, same⟩ := List.mem_map.mp member
  have found := cells entry inside
  rw [same] at found
  exact Nat.lt_irrefl _ (settled.wf.bound (kind_graph found))

/-- What a process ends up with, by the files of the arrays that were merged. -/
theorem Renewed.resolves (merging : Merging s₀ process addrs s)
    (renewed : FileIndex.Renewed s₀.heap h ((s.arrays process).data.filter s₀.heap.writes) (s.arrays process).data new)
    (steady : s₀.heap.Keeps h) (name : Option CString) :
    match addrs.findSome? fun c =>
        Shadow.lookup s₀.heap.nameOf (some name) (s₀.arrays c).data with
    | none => h.findByName name new = .ok none
    | some a =>
      if s₀.heap.writes a then ∃ b, h.findByName name new = .ok (some b) ∧ s₀.heap.next ≤ b ∧ Copy s₀.heap h a b
      else h.findByName name new = .ok (some a) := by
  have looked : Shadow.lookup s₀.heap.nameOf (some name) (s.arrays process).data =
      addrs.findSome? fun c => Shadow.lookup s₀.heap.nameOf (some name) (s₀.arrays c).data := by
    rw [merging.data, Shadow.lookup_foldl, List.findSome?_map]
    rfl
  rw [← looked, findByName_eq renewed.there]
  cases found : Shadow.lookup s₀.heap.nameOf (some name) (s.arrays process).data with
  | none =>
    -- Every file has the name of one that was merged.
    refine congrArg Except.ok (Shadow.lookup_none.mpr ?_)
    intro b member same
    have absent := Shadow.lookup_none.mp found
    rcases renewed.origin b member with ⟨old, _⟩ | ⟨_, a, inside, copy⟩
    · have there := (merging.inside b old).isSome
      rw [steady.nameOf there] at same
      exact absent b old same
    · exact absent a (List.mem_filter.mp inside).1 (copy.nameOf.symm.trans same)
  | some a =>
    obtain ⟨old, named⟩ := Shadow.lookup_some found
    dsimp only
    split
    · rename_i output
      obtain ⟨b, member, late, copy⟩ := renewed.replaced a (List.mem_filter.mpr ⟨old, output⟩)
      refine ⟨b, congrArg Except.ok ?_, late, copy⟩
      exact (Shadow.lookup_iff renewed.distinct).mpr ⟨member, copy.nameOf.trans named⟩
    · rename_i input
      have kept : a ∉ (s.arrays process).data.filter s₀.heap.writes := fun inside => input (List.mem_filter.mp inside).2
      refine congrArg Except.ok ((Shadow.lookup_iff renewed.distinct).mpr ⟨renewed.kept a old kept, ?_⟩)
      rw [steady.nameOf (merging.inside a old).isSome, named]

theorem Merging.start (sound : s.Sound) (process : Addr) (world : World) :
    Merging s process [] (setArray { s with world := world } process {} s.heap) where
  counted := by
    rw [setArray_self]
    exact Counted.start sound.bounded
  data := by
    rw [setArray_self]
    rfl
  inside := by
    rw [setArray_self]
    nofun
  others _ other := setArray_of_ne other

/-- A file of the process that is written to is a new one. -/
theorem Renewed.output (merging : Merging s₀ process addrs s)
    (renewed : FileIndex.Renewed s₀.heap h ((s.arrays process).data.filter s₀.heap.writes) (s.arrays process).data new)
    (steady : s₀.heap.Keeps h) (member : b ∈ new) (output : h.writes b = true) : s₀.heap.next ≤ b := by
  rcases renewed.origin b member with ⟨old, kept⟩ | ⟨late, _⟩
  · have same : h.writes b = s₀.heap.writes b := steady.writes (merging.inside b old).isSome
    exact absurd (List.mem_filter.mpr ⟨old, same.symm.trans output⟩) kept
  · exact late

/-- A file that is not is one of its containers. -/
theorem Renewed.input (merging : Merging s₀ process (chain.map Prod.fst) s)
    (renewed : FileIndex.Renewed s₀.heap h ((s.arrays process).data.filter s₀.heap.writes) (s.arrays process).data new)
    (member : b ∈ new) (input : h.writes b = false) : ∃ entry ∈ chain, b ∈ (s₀.arrays entry.1).data := by
  rcases renewed.origin b member with ⟨old, _⟩ | ⟨_, a, inside, copy⟩
  · rw [merging.data] at old
    rcases Shadow.mem_foldl old with nothing | ⟨list, there, inside⟩
    · cases nothing
    · obtain ⟨c, chain, rfl⟩ := List.mem_map.mp there
      obtain ⟨entry, member', rfl⟩ := List.mem_map.mp chain
      exact ⟨entry, member', inside⟩
  · have output : h.writes b = true := copy.writes.trans (List.mem_filter.mp inside).2
    exact absurd (input.symm.trans output) (by decide)

/-- The files of a command come first, then those of its host, and the outputs are replaced. -/
theorem processFiles_merges (reachable : Reachable s.world) (sound : s.Sound)
    (foundC : s.world.heap.cells command = some commandSelf) (kindC : commandSelf.kind = .command)
    (foundH : s.world.heap.cells host = some hostSelf) (kindH : hostSelf.kind = .host) :
    ∃ above beyond s₂ array h held, s.processFiles host command = .ok (s.world.next, s₂.setArray s.world.next array h) ∧
      ancestors s.world (s.world.next + 1) command = .ok above ∧ ancestors s.world (s.world.next + 1) host = .ok beyond ∧
      Merging s s.world.next ((above ++ beyond).map Prod.fst) s₂ ∧ Counted s.heap h held ∧
      FileIndex.Renewed s.heap h ((s₂.arrays s.world.next).data.filter s.heap.writes)
        (s₂.arrays s.world.next).data array.data := by
  have steady := reachable.steady
  obtain ⟨new, made, kind, commandNew, _, fresh⟩ := processNew_ok steady foundC kindC foundH kindH
  have keeps := insert_keeps steady.settled fresh
  obtain ⟨above, walkedC, cellsC⟩ := steady.settled.chain_ok foundC
  obtain ⟨beyond, walkedH, cellsH⟩ := steady.settled.chain_ok foundH
  obtain ⟨above₁, walkedC₁, addrsC, _⟩ := ancestors_keep keeps walkedC 1
  obtain ⟨beyond₁, walkedH₁, addrsH, _⟩ := ancestors_keep keeps walkedH 1
  have next : ((s.world.take new.command).insert host hostSelf new).next + 1 =
      s.world.next + 1 + 1 := congrArg (· + 1 + 1) (next_take s.world new.command)
  rw [← next] at walkedC₁ walkedH₁
  rw [← commandNew] at made
  have start := Merging.start sound s.world.next ((s.world.take new.command).insert host hostSelf new)
  obtain ⟨s₁, applied₁, world₁, merging₁⟩ := start.applyContext sound walkedC₁
    (by rw [addrsC]; exact chain_apart steady.settled cellsC)
  have world₁ : s₁.world = (s.world.take new.command).insert host hostSelf new := world₁
  rw [← world₁] at walkedH₁
  obtain ⟨s₂, applied₂, _, merging₂⟩ := merging₁.applyContext sound walkedH₁
    (by rw [addrsH]; exact chain_apart steady.settled cellsH)
  rw [List.nil_append, addrsC, addrsH, ← List.map_append] at merging₂
  have names : ((s₂.arrays s.world.next).data.map s.heap.nameOf).Nodup := by
    rw [merging₂.data]
    exact Shadow.nodup_foldl _ List.nodup_nil
  obtain ⟨array, h, held, finalized, counted, renewed⟩ := FileIndex.finalize_spec merging₂.counted merging₂.inside names
  exact ⟨above, beyond, s₂, array, h, held, bind_ok.mpr ⟨_, made, bind_ok.mpr ⟨s₁, applied₁,
    bind_ok.mpr ⟨s₂, applied₂, bind_ok.mpr ⟨_, finalized, rfl⟩⟩⟩⟩, walkedC, walkedH, merging₂, counted,
    renewed⟩

/-- The files of a process: no two have one name, and for each name it has the file of the first
container that has one, of its command and what is above it, its host and what is above that; in
the place of a file that is written to it has a new one. All other arrays are as before. -/
theorem process_files_nearest {command host : Addr} {commandSelf hostSelf : Container}
    (reachable : Reachable s.world) (sound : s.Sound)
    (foundC : s.world.heap.cells command = some commandSelf) (kindC : commandSelf.kind = .command)
    (foundH : s.world.heap.cells host = some hostSelf) (kindH : hostSelf.kind = .host) :
    ∃ s' above beyond, s.processFiles host command = .ok (s.world.next, s') ∧ s'.Sound ∧
      ancestors s.world (s.world.next + 1) command = .ok above ∧
      ancestors s.world (s.world.next + 1) host = .ok beyond ∧
      ((s'.arrays s.world.next).data.map s'.heap.nameOf).Nodup ∧
      (∀ name, match s.nearest (above ++ beyond) name with
        | none => s'.heap.findByName name (s'.arrays s.world.next).data = .ok none
        | some a =>
          if s.heap.writes a then
            ∃ b, s'.heap.findByName name (s'.arrays s.world.next).data = .ok (some b) ∧
              s.heap.next ≤ b ∧ Copy s.heap s'.heap a b
          else s'.heap.findByName name (s'.arrays s.world.next).data = .ok (some a)) ∧
      (∀ b ∈ (s'.arrays s.world.next).data, s'.heap.writes b = true →
        s.heap.files.cells b = none ∧ ∀ c, c ≠ s.world.next → b ∉ (s'.arrays c).data) ∧
      (∀ b ∈ (s'.arrays s.world.next).data, s'.heap.writes b = false →
        ∃ entry ∈ above ++ beyond, b ∈ (s.arrays entry.1).data) ∧
      (∀ c, c ≠ s.world.next → s'.arrays c = s.arrays c) ∧ s.heap.Keeps s'.heap := by
  obtain ⟨above, beyond, s₂, array, h, held, ran, walkedC, walkedH, merging, counted, renewed⟩ :=
    processFiles_merges reachable sound foundC kindC foundH kindH
  have others (c : Addr) (other : c ≠ s.world.next) :
      (s₂.setArray s.world.next array h).arrays c = s.arrays c := by
    rw [setArray_of_ne other]
    exact merging.others c other
  refine ⟨s₂.setArray s.world.next array h, above, beyond, ran, ⟨?_, counted.bounded⟩, walkedC,
    walkedH, ?_, ?_, ?_, ?_, others, counted.fileOf⟩
  · intro c a member
    by_cases here : c = s.world.next
    · subst here
      rw [setArray_self] at member
      rcases renewed.origin a member with ⟨old, _⟩ | ⟨new', _⟩
      · exact counted.alive (merging.inside a old)
      · exact counted.alive_fresh new' (renewed.there a member)
    · rw [others c here] at member
      exact counted.alive (sound.alive c a member)
  · rw [setArray_self]
    exact renewed.distinct
  · intro name
    have resolved := Renewed.resolves merging renewed counted.fileOf name
    rw [List.findSome?_map] at resolved
    rw [setArray_self]
    exact resolved
  · intro b member output
    rw [setArray_self] at member
    have late := Renewed.output merging renewed counted.fileOf member output
    constructor
    · by_contra there
      obtain ⟨shared, cell⟩ := Option.ne_none_iff_exists'.mp there
      exact Nat.not_lt.mpr late (sound.bounded b shared cell)
    · intro c other inside
      rw [others c other] at inside
      exact Nat.not_lt.mpr late ((sound.alive c b inside).lt sound.bounded)
  · intro b member input
    rw [setArray_self] at member
    exact Renewed.input merging renewed member input

def inputFile : File := { id := 0, name := some (ascii ['i', 'n']), mode := fileRead, inum := 1 }

def outputFile : File := { id := 1, name := some (ascii ['o', 'u', 't']), mode := fileWrite, inum := 2 }

/-- The test above the command has an input and an output, and the host an input. -/
def someFiles (world : World) : Filesets where
  world := world
  heap := ((({} : FileHeap).alloc inputFile).alloc outputFile).alloc inputFile
  arrays
    | 1 => { data := [2], nextId := 1 }
    | 2 => { data := [0, 1], nextId := 2 }
    | _ => {}

theorem sound_someFiles (world : World) : (someFiles world).Sound where
  alive c a member := by
    have cases' : a = 0 ∨ a = 1 ∨ a = 2 := by
      unfold someFiles at member
      dsimp only at member
      split at member
      · exact Or.inr (Or.inr (List.mem_singleton.mp member))
      · simpa using Or.imp_right Or.inl (by simpa using member)
      · cases member
    rcases cases' with rfl | rfl | rfl
    · exact ⟨{ file := inputFile }, rfl, by decide⟩
    · exact ⟨{ file := outputFile }, rfl, by decide⟩
    · exact ⟨{ file := inputFile }, rfl, by decide⟩
  bounded := by
    have empty : FileHeap.Bounded {} := by
      nofun
    exact bounded_alloc (bounded_alloc (bounded_alloc empty _) _) _

theorem process_files_nearest_run : ∃ (s s' : Filesets), Reachable s.world ∧
    (s.arrays 2).data.map s.heap.nameOf = [some inputFile.name, some outputFile.name] ∧
    s.processFiles 1 3 = .ok (s.world.next, s') ∧
    ((s'.arrays s.world.next).data.map s'.heap.nameOf).Nodup ∧ s'.arrays 2 = s.arrays 2 := by
  obtain ⟨w, ran, view⟩ := Machine.run_view step World.initial processTree
    (fun w => ((w.heap.cells 3).map Container.kind, (w.heap.cells 1).map Container.kind, w.next))
    (some .command, some .host, 4) (by decide +kernel)
  obtain ⟨kindC, kinds⟩ := Prod.mk.inj view
  obtain ⟨kindH, next⟩ := Prod.mk.inj kinds
  obtain ⟨command, foundC, isCommand⟩ := Option.map_eq_some_iff.mp kindC
  obtain ⟨host, foundH, isHost⟩ := Option.map_eq_some_iff.mp kindH
  obtain ⟨s', _, _, made, _, _, _, distinct, _, _, _, others, _⟩ :=
    process_files_nearest (s := someFiles w) ⟨processTree, ran⟩ (sound_someFiles w) foundC
      isCommand foundH isHost
  refine ⟨someFiles w, s', ⟨processTree, ran⟩, rfl, made, distinct, others 2 ?_⟩
  change 2 ≠ w.next
  rw [next]
  decide

end Filesets

end Testbus.Server
