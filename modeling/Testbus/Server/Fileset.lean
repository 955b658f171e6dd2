import Testbus.Agent.Files

namespace Testbus.Server.Fileset

open Dbus

inductive Error
  | invalidArgs
  | badSize
  deriving DecidableEq

/-- `struct ni_testbus_file` in the master. -/
structure Object where
  file : File
  data : Option NiBuffer := none
  size : UInt32 := 0

namespace Object

/-- The bytes of the file; one without a buffer has none. -/
def content (tmp : Object) : Bytes := (tmp.data.map NiBuffer.contents).getD []

/-- The file that the object stands for. -/
def tmpfile (tmp : Object) : Tmpfile := ⟨tmp.file, tmp.content⟩

/-- `Tmpfile.append`. The buffer is made before the size is checked. -/
def append (tmp : Object) (argv : List Variant) : Object × Except Error Unit :=
  match argv with
  | [.byteArray bytes] =>
    let count := bytes.length
    let data := tmp.data.getD (NiBuffer.new (if count < 4096 then count else 0))
    if tmpfileSizeMax < count ∨ tmpfileSizeMax < (count + data.count) % 2 ^ 32 then
      ({ tmp with data := some data }, .error .badSize)
    else
      let data := (data.ensureTailroom count).put bytes
      ({ file := { tmp.file with iseq := tmp.file.iseq + 1 }, data := some data,
         size := UInt32.ofNat data.count }, .ok ())
  | _ => (tmp, .error .invalidArgs)

/-- `Tmpfile.retrieve`. -/
def retrieve (tmp : Object) (argv : List Variant) : Except Error Variant :=
  match argv with
  | [.uint64 offset, .uint32 count] =>
    if 65536 < count.toNat then .error .invalidArgs
    else
      match tmp.data with
      | none => .ok (.byteArray [])
      | some data =>
        if offset.toNat < data.count then
          .ok (.byteArray (data.load (data.head + offset.toNat)
            (min count.toNat (data.count - offset.toNat))))
        else .ok (.byteArray [])
  | _ => .error .invalidArgs

/-- The object after a number of calls of `Tmpfile.append`. -/
def appends (tmp : Object) (calls : List (List Variant)) : Object :=
  calls.foldl (fun tmp argv => (tmp.append argv).1) tmp

/-- The invariant of a file object. -/
structure Sound (tmp : Object) : Prop where
  wellFormed : ∀ data, tmp.data = some data → data.WellFormed
  bounded : tmp.content.length ≤ tmpfileSizeMax
  size_eq : tmp.size.toNat = tmp.content.length

variable {tmp tmp' : Object} {bytes : Bytes}

theorem sound_new (file : File) : Sound { file := file } where
  wellFormed := by simp
  bounded := Nat.zero_le _
  size_eq := rfl

theorem Sound.counted (sound : tmp.Sound) {data : NiBuffer} (there : tmp.data = some data) :
    data.count = tmp.content.length := by
  have bounded := sound.bounded
  have content : tmp.content = data.contents := by rw [content, there]; rfl
  rw [content] at bounded ⊢
  exact NiBuffer.count_eq (Nat.lt_of_le_of_lt bounded (by decide))

/-- The buffer that an append works on has the bytes of the file. -/
theorem Sound.buffer (sound : tmp.Sound) (n : Nat) :
    (tmp.data.getD (NiBuffer.new n)).WellFormed ∧ (tmp.data.getD (NiBuffer.new n)).contents = tmp.content ∧
      (tmp.data.getD (NiBuffer.new n)).count = tmp.content.length := by
  cases there : tmp.data with
  | none =>
    have content : tmp.content = [] := by rw [content, there]; rfl
    rw [content]
    exact ⟨NiBuffer.wellFormed_new _, rfl, rfl⟩
  | some data =>
    have content : tmp.content = data.contents := by rw [content, there]; rfl
    exact ⟨sound.wellFormed data there, content.symm, sound.counted there⟩

/-- An append does to the object what it does to the file it stands for. -/
theorem append_refines (sound : tmp.Sound) (bytes : Bytes) :
    match tmp.tmpfile.append bytes with
    | none => ∃ tmp', tmp.append [.byteArray bytes] = (tmp', .error .badSize) ∧
        tmp'.tmpfile = tmp.tmpfile ∧ tmp'.size = tmp.size ∧ tmp'.Sound
    | some grown => ∃ tmp', tmp.append [.byteArray bytes] = (tmp', .ok ()) ∧ tmp'.tmpfile = grown ∧ tmp'.Sound := by
  have limit : tmpfileSizeMax = 1048576 := rfl
  have bounded := sound.bounded
  obtain ⟨wf, contents, counted⟩ := sound.buffer (if bytes.length < 4096 then bytes.length else 0)
  generalize given : tmp.data.getD (NiBuffer.new
    (if bytes.length < 4096 then bytes.length else 0)) = data at wf contents counted
  have lengths : tmp.tmpfile.data.length = tmp.content.length := rfl
  by_cases big : tmpfileSizeMax < bytes.length ∨ tmpfileSizeMax < bytes.length + tmp.tmpfile.data.length
  · rw [Tmpfile.append, if_pos big]
    refine ⟨{ tmp with data := some data }, ?_, ?_, rfl, ?_⟩
    · rw [append, given, counted]
      refine if_pos ?_
      omega
    · rw [tmpfile, tmpfile, content, Option.map_some, Option.getD_some, contents]
    · have same : content { tmp with data := some data } = tmp.content := contents
      refine ⟨?_, by rw [same]; exact bounded, by rw [same]; exact sound.size_eq⟩
      intro other there
      obtain rfl := Option.some.inj there
      exact wf
  · rw [Tmpfile.append, if_neg big]
    have room := NiBuffer.room_ensureTailroom wf bytes.length
    have wf' := NiBuffer.wellFormed_ensureTailroom wf bytes.length
    have contents' : ((data.ensureTailroom bytes.length).put bytes).contents = tmp.content ++ bytes := by
      rw [NiBuffer.put_eq_fill wf' room, NiBuffer.contents_fill wf' room, NiBuffer.contents_ensureTailroom, contents]
    have wf'' : ((data.ensureTailroom bytes.length).put bytes).WellFormed := by
      rw [NiBuffer.put_eq_fill wf' room]
      exact NiBuffer.wellFormed_fill wf' room
    generalize put : (data.ensureTailroom bytes.length).put bytes = final at contents' wf''
    have length : (tmp.content ++ bytes).length ≤ tmpfileSizeMax := by
      rw [List.length_append]
      omega
    have small : final.count = (tmp.content ++ bytes).length := by
      rw [← contents']
      exact NiBuffer.count_eq (by rw [contents']; omega)
    refine ⟨{ file := { tmp.file with iseq := tmp.file.iseq + 1 }, data := some final,
              size := UInt32.ofNat final.count }, ?_, ?_, ?_⟩
    · rw [append, given, counted, put]
      refine if_neg ?_
      omega
    · rw [tmpfile, content, Option.map_some, Option.getD_some, contents']
      rfl
    · refine ⟨?_, ?_, ?_⟩
      · intro other there
        obtain rfl := Option.some.inj there
        exact wf''
      · exact (congrArg List.length contents').trans_le length
      · have width : UInt32.size = 2 ^ 32 := rfl
        change (UInt32.ofNat final.count).toNat = final.contents.length
        rw [contents', small, UInt32.toNat_ofNat_of_lt' (by omega)]

theorem append_other (other : ∀ bytes, argv ≠ [.byteArray bytes]) : tmp.append argv = (tmp, .error .invalidArgs) := by
  unfold append
  split
  · exact absurd rfl (other _)
  · rfl

theorem append_cases (sound : tmp.Sound) (argv : List Variant) :
    (∃ tmp' e, tmp.append argv = (tmp', .error e) ∧ tmp'.content = tmp.content ∧
        tmp'.file = tmp.file ∧ tmp'.size = tmp.size ∧ tmp'.Sound) ∨
      ∃ tmp' bytes, tmp.append argv = (tmp', .ok ()) ∧ argv = [.byteArray bytes] ∧
        tmp.tmpfile.append bytes = some tmp'.tmpfile ∧ tmp'.content = tmp.content ++ bytes ∧
        tmp'.file = { tmp.file with iseq := tmp.file.iseq + 1 } ∧ tmp'.Sound := by
  by_cases given : ∃ bytes, argv = [.byteArray bytes]
  · obtain ⟨bytes, rfl⟩ := given
    have refines := append_refines sound bytes
    cases appended : tmp.tmpfile.append bytes with
    | none =>
      rw [appended] at refines
      obtain ⟨tmp', made, same, size, sound'⟩ := refines
      exact Or.inl ⟨tmp', _, made, congrArg Tmpfile.data same, congrArg Tmpfile.file same, size, sound'⟩
    | some grown =>
      rw [appended] at refines
      obtain ⟨tmp', made, rfl, sound'⟩ := refines
      have grew := appended
      rw [Tmpfile.append] at grew
      split at grew
      · cases grew
      · have same := Option.some.inj grew
        exact Or.inr ⟨tmp', bytes, made, rfl, appended, (congrArg Tmpfile.data same).symm,
          (congrArg Tmpfile.file same).symm, sound'⟩
  · exact Or.inl ⟨tmp, _, append_other (not_exists.mp given), rfl, rfl, rfl, sound⟩

theorem sound_append (sound : tmp.Sound) (argv : List Variant) : (tmp.append argv).1.Sound := by
  rcases append_cases sound argv with ⟨tmp', e, made, _, _, _, kept⟩ | ⟨tmp', bytes, made, _, _, _, _, kept⟩
  · rw [made]
    exact kept
  · rw [made]
    exact kept

theorem sound_appends (sound : tmp.Sound) (calls : List (List Variant)) : (tmp.appends calls).Sound := by
  induction calls generalizing tmp with
  | nil => exact sound
  | cons argv rest ih => exact ih (sound_append sound argv)

theorem retrieve_refines (sound : tmp.Sound) (offset : UInt64) (small : count.toNat ≤ 65536) :
    tmp.retrieve [.uint64 offset, .uint32 count] = .ok (.byteArray (tmp.tmpfile.retrieve offset.toNat count.toNat)) := by
  simp only [retrieve, Tmpfile.retrieve, tmpfile]
  rw [if_neg (by omega)]
  cases there : tmp.data with
  | none =>
    have content : tmp.content = [] := by rw [content, there]; rfl
    rw [content, List.drop_nil, List.take_nil]
  | some data =>
    have content : tmp.content = data.contents := by rw [content, there]; rfl
    have counted := sound.counted there
    dsimp only
    split
    · rename_i inside
      have wf := sound.wellFormed data there
      congr 2
      rw [content] at counted ⊢
      have length := data.length_contents
      have split : data.tail - data.head = offset.toNat + (data.count - offset.toNat) := by omega
      rw [NiBuffer.contents, split, NiBuffer.load_add, List.drop_left' (by simp)]
      apply List.ext_getElem
      · simp
      · intro i first second
        simp [NiBuffer.load]
    · rename_i outside
      rw [List.drop_eq_nil_of_le (by omega), List.take_nil]

end Object

end Testbus.Server.Fileset
