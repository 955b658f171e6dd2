import Testbus.Agent.Output
import Testbus.Dbus.Variant

namespace Testbus

open Dbus

namespace Filesystem

inductive Error
  | invalidArgs
  | stat
  | notRegular
  | open
  | seek
  | read
  | write
  deriving DecidableEq

/-- What `stat(2)` tells of a file; the length of a file is an `off_t`. -/
structure Stat where
  regular : Bool := true
  size : Nat
  bounded : size < 2 ^ 63

/-- How the system answers while the service carries out one call: `contents` is what the file
that was opened has at each read. -/
structure Host where
  stat : Option Stat := none
  opens : Bool := true
  contents : Nat → Bytes := fun _ => []
  reads : Nat → Read := fun _ => .upTo 4096
  writes : Nat → Option Nat := fun _ => some 4096

/-- A path that is absolute; a string that came in a message is never `NULL`. -/
def pathArg : Variant → Option CString
  | .string (some path) => if path.head? = some 0x2f then some path else none
  | _ => none

/-- `Filesystem.getInfo`. -/
def getInfo (host : Host) (argv : List Variant) : Except Error Variant :=
  match argv with
  | [path] =>
    match pathArg path, host.stat with
    | none, _ => .error .invalidArgs
    | some _, none => .error .stat
    | some _, some stb =>
      if stb.regular then .ok (.dict [("size", .uint64 (UInt64.ofNat stb.size))])
      else .error .notRegular
  | _ => .error .invalidArgs

/-- A read takes no more than there is room for. -/
theorem length_read_le (bp : NiBuffer) (bytes : Bytes) (n : Nat) :
    (bytes.take (min bp.tailroom n)).length ≤ bp.size - bp.tail := by
  have taken : (bytes.take (min bp.tailroom n)).length ≤ min bp.tailroom n := List.length_take_le _ _
  exact Nat.le_trans taken (Nat.le_trans (Nat.min_le_left _ _) (NiBuffer.tailroom_le bp))

theorem fill_shrinks {bp : NiBuffer} {bytes : Bytes} (some' : bytes ≠ []) (room : bytes.length ≤ bp.size - bp.tail) :
    (bp.fill bytes).size - (bp.fill bytes).tail < bp.size - bp.tail := by
  have length : 0 < bytes.length := List.length_pos_iff.mpr some'
  have tail : (bp.fill bytes).tail = bp.tail + bytes.length := by
    have enough : ¬ sizeSub bp.size bp.tail < bytes.length := by
      rw [sizeSub, if_pos (by omega)]
      omega
    unfold NiBuffer.fill NiBuffer.pushTail
    split
    · exact absurd ‹_› enough
    · rfl
  rw [NiBuffer.size_fill, tail]
  omega

/-- The loop that reads until the buffer is full or the file ends, from a number of reads on. -/
def readLoop (host : Host) (i position : Nat) (bp : NiBuffer) : Option NiBuffer :=
  match host.reads i with
  | .failed => none
  | .upTo n =>
    let block := ((host.contents i).drop position).take (min bp.tailroom (max n 1))
    if block = [] then some bp
    else readLoop host (i + 1) (position + block.length) (bp.fill block)
termination_by bp.size - bp.tail
decreasing_by
  rename_i some'
  exact fill_shrinks some' (length_read_le _ _ _)

/-- `Filesystem.download`. -/
def download (host : Host) (argv : List Variant) : Except Error Variant :=
  match argv with
  | [path, .uint64 offset, .uint32 count] =>
    if pathArg path = none ∨ 1024 * 1024 < count.toNat ∨ offset + count.toUInt64 < offset then
      .error .invalidArgs
    else if host.opens = false then .error .open
    else if 2 ^ 63 ≤ offset.toNat then .error .seek
    else
      let bp := NiBuffer.new count.toNat
      match if count = 0 then some bp else readLoop host 0 offset.toNat bp with
      | none => .error .read
      | some bp => .ok (.byteArray bp.payload)
  | _ => .error .invalidArgs

/-- `write(2)` at a place of a file; a gap is filled with zeroes. -/
def writeAt (content : Bytes) (position : Nat) (bytes : Bytes) : Bytes :=
  content.take position ++ List.replicate (position - content.length) 0 ++ bytes ++
    content.drop (position + bytes.length)

/-- The loop that writes all there is, from a number of writes on. -/
def writeLoop (host : Host) (i : Nat) (content : Bytes) (position : Nat) (bytes : Bytes) : Bytes × Bool :=
  if bytes = [] then (content, true)
  else
    match host.writes i with
    | none => (content, false)
    | some n =>
      let taken := bytes.take (max n 1)
      writeLoop host (i + 1) (writeAt content position taken) (position + taken.length)
        (bytes.drop (max n 1))
termination_by bytes.length
decreasing_by
  have some' : bytes ≠ [] := ‹_›
  have positive : 0 < bytes.length := List.length_pos_iff.mpr some'
  rw [List.length_drop]
  omega

/-- The file that the upload opens: it is made and truncated for the first offset only. -/
def openForWrite (host : Host) (fs : Agent.Directory) (path : CString) (offset : UInt64) : Option Bytes :=
  if host.opens then if offset = 0 then some [] else fs path else none

/-- `Filesystem.upload`. -/
def upload (host : Host) (fs : Agent.Directory) (argv : List Variant) : Agent.Directory × Except Error Unit :=
  match argv with
  | [path, .uint64 offset, .byteArray bytes] =>
    match pathArg path with
    | none => (fs, .error .invalidArgs)
    | some path =>
      match openForWrite host fs path offset with
      | none => (fs, .error .open)
      | some content =>
        if 2 ^ 63 ≤ offset.toNat then
          (Function.update fs path (some content), .error .seek)
        else
          match writeLoop host 0 content offset.toNat bytes with
          | (content, true) => (Function.update fs path (some content), .ok ())
          | (content, false) => (Function.update fs path (some content), .error .write)
  | _ => (fs, .error .invalidArgs)

variable {host : Host} {content bytes : Bytes} {path : CString}

theorem writeAt_end (content bytes : Bytes) : writeAt content content.length bytes = content ++ bytes := by
  simp [writeAt]

theorem writeLoop_end (done : (writeLoop host i content content.length bytes).2 = true) :
    (writeLoop host i content content.length bytes).1 = content ++ bytes := by
  generalize at_ : content.length = position at done ⊢
  fun_induction writeLoop host i content position bytes with
  | case1 i content position => exact (List.append_nil _).symm
  | case2 i content position bytes some' refused => cases done
  | case3 i content position bytes some' n answer taken ih =>
    subst at_
    have grown : writeAt content content.length taken = content ++ taken := writeAt_end _ _
    rw [grown] at ih done ⊢
    rw [ih (List.length_append) done, List.append_assoc]
    exact congrArg (content ++ ·) (List.take_append_drop _ _)

theorem writeLoop_done (writes : ∀ k, host.writes k ≠ none) (i : Nat) (content : Bytes)
    (position : Nat) (bytes : Bytes) : (writeLoop host i content position bytes).2 = true := by
  fun_induction writeLoop host i content position bytes with
  | case1 i content position => rfl
  | case2 i content position bytes some' refused => exact absurd refused (writes i)
  | case3 i content position bytes some' n answer taken ih => exact ih

/-- An upload at the start of a file leaves there what it was given, and nothing else. -/
theorem upload_start (uploaded : upload host fs [arg, .uint64 0, .byteArray bytes] = (fs', .ok ())) :
    ∃ path, pathArg arg = some path ∧ fs' = Function.update fs path (some bytes) := by
  simp only [upload] at uploaded
  cases named : pathArg arg with
  | none =>
    rw [named] at uploaded
    cases uploaded
  | some path =>
    refine ⟨path, rfl, ?_⟩
    rw [named] at uploaded
    dsimp only at uploaded
    cases opened : openForWrite host fs path 0 with
    | none =>
      rw [opened] at uploaded
      cases uploaded
    | some content =>
      have empty : content = [] := by
        unfold openForWrite at opened
        split at opened
        · exact (Option.some.inj opened).symm
        · cases opened
      subst empty
      rw [opened] at uploaded
      dsimp only at uploaded
      rw [if_neg (by decide)] at uploaded
      change (match writeLoop host 0 [] 0 bytes with
        | (content, true) => (Function.update fs path (some content), Except.ok ())
        | (content, false) => (Function.update fs path (some content), Except.error Error.write)) =
          (fs', Except.ok ()) at uploaded
      have whole : (writeLoop host 0 [] 0 bytes).2 = true → (writeLoop host 0 [] 0 bytes).1 = bytes := writeLoop_end
      rcases written : writeLoop host 0 [] 0 bytes with ⟨final, done⟩
      rw [written] at uploaded whole
      cases done with
      | true =>
        rw [← whole rfl]
        exact (congrArg Prod.fst uploaded).symm
      | false => cases uploaded

/-- What the service reads from a file that does not change. -/
theorem readLoop_spec (steady : ∀ k, host.contents k = content)
    (wf : bp.WellFormed) (small : bp.size < 2 ^ 32) (read : readLoop host i position bp = some bp') :
    bp'.contents = bp.contents ++ (content.drop position).take (bp.size - bp.tail) ∧
      bp'.WellFormed ∧ bp'.size = bp.size := by
  fun_induction readLoop host i position bp with
  | case1 i position bp failed => cases read
  | case2 i position bp n answer block empty =>
    obtain rfl := Option.some.inj read
    refine ⟨?_, wf, rfl⟩
    have none' : (content.drop position).take (bp.size - bp.tail) = [] := by
      have room : bp.tailroom = bp.size - bp.tail := by
        unfold NiBuffer.tailroom
        split
        · exact Nat.mod_eq_of_lt (by omega)
        · omega
      have lengths : block.length = 0 := by rw [empty]; rfl
      rw [show block = ((host.contents i).drop position).take _ from rfl, steady i, List.length_take, room] at lengths
      apply List.eq_nil_of_length_eq_zero
      rw [List.length_take]
      omega
    rw [none', List.append_nil]
  | case3 i position bp n answer block some' ih =>
    have most : block.length ≤ bp.size - bp.tail := length_read_le _ _ _
    have size : (bp.fill block).size = bp.size := NiBuffer.size_fill _ _
    obtain ⟨_, tail⟩ := NiBuffer.fill_head wf most
    obtain ⟨contents, wf', size'⟩ := ih (NiBuffer.wellFormed_fill wf most) (by rw [size]; exact small) read
    refine ⟨?_, wf', size'.trans size⟩
    have prefix' : block = (content.drop position).take block.length := by
      rw [show block = ((host.contents i).drop position).take _ from rfl, steady i,
        List.length_take, List.take_eq_take_iff]
      omega
    have split : bp.size - bp.tail = block.length + (bp.size - (bp.tail + block.length)) := by
      omega
    rw [contents, NiBuffer.contents_fill wf most, size, tail, List.append_assoc]
    conv_rhs => rw [split, List.take_add, List.drop_drop, ← prefix']

/-- The service gives the bytes that were asked for, as far as the file has them. -/
theorem download_spec (steady : ∀ k, host.contents k = content)
    (given : download host [arg, .uint64 offset, .uint32 count] = .ok reply) :
    reply = .byteArray ((content.drop offset.toNat).take count.toNat) := by
  simp only [download] at given
  split at given
  · cases given
  · split at given
    · cases given
    · split at given
      · cases given
      · have small : (NiBuffer.new count.toNat).size < 2 ^ 32 := count.toNat_lt
        split at given
        · cases given
        · rename_i bp read
          obtain rfl := Except.ok.inj given
          congr 1
          by_cases zero : count = 0
          · subst zero
            rw [if_pos rfl] at read
            obtain rfl := Option.some.inj read
            exact (List.take_zero ..).symm
          · rw [if_neg zero] at read
            obtain ⟨contents, wf, size⟩ := readLoop_spec steady (NiBuffer.wellFormed_new _) small read
            have whole : bp.contents = (content.drop offset.toNat).take count.toNat := contents
            have counted : bp.count = bp.contents.length := by
              apply NiBuffer.count_eq
              rw [whole, List.length_take]
              exact Nat.lt_of_le_of_lt (Nat.min_le_left _ _) small
            rw [NiBuffer.payload, counted, NiBuffer.load_head (Nat.le_refl _), List.take_length, whole]

end Filesystem

end Testbus
