import Testbus.Server.Fileset

namespace Testbus.Client.Tmpfiles

open Dbus Server.Fileset

/-- The way of one call: it may get lost, and so may the answer. -/
structure Link where
  delivered : Bool := true
  answered : Bool := true

def ioblksize : Nat := 4096

/-- A call of `Tmpfile.append`, and whether the client sees it succeed. -/
def callAppend (link : Link) (tmp : Object) (argv : List Variant) : Object × Bool :=
  if link.delivered then
    match tmp.append argv with
    | (tmp, .ok ()) => (tmp, link.answered)
    | (tmp, .error _) => (tmp, false)
  else (tmp, false)

/-- `__ni_testbus_client_upload_file`, from a number of calls on. -/
def uploadLoop (links : Nat → Link) (k : Nat) (tmp : Object) (buffer : NiBuffer) : Object × Bool :=
  if buffer.count = 0 then (tmp, true)
  else
    let count := min buffer.count ioblksize
    match callAppend (links k) tmp [.byteArray (buffer.load buffer.head count)] with
    | (tmp, false) => (tmp, false)
    | (tmp, true) => uploadLoop links (k + 1) tmp (buffer.pullHead count).2
termination_by buffer.tail - buffer.head
decreasing_by exact NiBuffer.pullHead_shrinks ‹_› (by decide)

/-- `ni_testbus_client_upload_file`, on a copy of the buffer. -/
def uploadFile (links : Nat → Link) (tmp : Object) (buffer : NiBuffer) : Object × Bool :=
  uploadLoop links 0 tmp buffer

/-- A call of `Tmpfile.retrieve`: the bytes that it brings. -/
def callRetrieve (link : Link) (tmp : Object) (argv : List Variant) : Option Bytes :=
  if link.delivered ∧ link.answered then
    match tmp.retrieve argv with
    | .ok (.byteArray bytes) => some bytes
    | _ => none
  else none

/-- The loop of `ni_testbus_client_download_file`; it may use up its fuel. -/
def downloadLoop (links : Nat → Link) (tmp : Object) :
    Nat → Nat → UInt64 → NiBuffer → Option (Option NiBuffer)
  | 0, _, _, _ => none
  | fuel + 1, k, offset, result =>
    match callRetrieve (links k) tmp [.uint64 offset, .uint32 (UInt32.ofNat ioblksize)] with
    | none => some none
    | some bytes =>
      let count := bytes.length
      let result := (result.ensureTailroom count).put bytes
      if count < ioblksize then some (some result)
      else downloadLoop links tmp fuel (k + 1) (offset + UInt64.ofNat count) result

def downloadFile (links : Nat → Link) (tmp : Object) (fuel : Nat) : Option (Option NiBuffer) :=
  downloadLoop links tmp fuel 0 0 (NiBuffer.new 0)

variable {links : Nat → Link} {buffer result : NiBuffer}

theorem callAppend_true (sound : tmp.Sound) (called : callAppend link tmp argv = (tmp', true)) :
    tmp'.Sound ∧ ∃ bytes, argv = [.byteArray bytes] ∧ tmp'.content = tmp.content ++ bytes := by
  unfold callAppend at called
  split at called
  · rcases Object.append_cases sound argv with ⟨other, e, made, _⟩ | ⟨other, bytes, made, given, _, grown, _, sound'⟩
    · rw [made] at called
      cases congrArg Prod.snd called
    · rw [made] at called
      obtain rfl : other = tmp' := congrArg Prod.fst called
      exact ⟨sound', bytes, given, grown⟩
  · cases congrArg Prod.snd called

/-- An upload that succeeds has extended the file by the bytes of the buffer. -/
theorem uploadLoop_spec (sound : tmp.Sound) (fits : buffer.Fits)
    (uploaded : uploadLoop links k tmp buffer = (tmp', true)) :
    tmp'.Sound ∧ tmp'.content = tmp.content ++ buffer.contents := by
  fun_induction uploadLoop links k tmp buffer with
  | case1 k tmp buffer none' =>
    obtain rfl : tmp = tmp' := congrArg Prod.fst uploaded
    have empty : buffer.contents = [] := by
      rw [fits.count_eq] at none'
      exact List.eq_nil_of_length_eq_zero none'
    rw [empty, List.append_nil]
    exact ⟨sound, rfl⟩
  | case2 k tmp buffer some' count other failed => cases congrArg Prod.snd uploaded
  | case3 k tmp buffer some' count other made ih =>
    obtain ⟨sound', bytes, given, grown⟩ := callAppend_true sound made
    have enough : count ≤ buffer.contents.length := buffer.block_le _
    have block : bytes = buffer.contents.take count := by
      rw [NiBuffer.load_head enough] at given
      have same := List.head_eq_of_cons_eq given
      exact (Variant.byteArray.inj same).symm
    obtain ⟨sound'', whole⟩ := ih sound' (NiBuffer.fits_pullHead fits enough) uploaded
    refine ⟨sound'', ?_⟩
    rw [whole, grown, block, NiBuffer.contents_pullHead fits.toWellFormed enough,
      List.append_assoc, List.take_append_drop]

theorem callAppend_clean (bytes : Bytes) (sound : tmp.Sound) (delivered : link.delivered = true)
    (answered : link.answered = true) (room : tmp.content.length + bytes.length ≤ tmpfileSizeMax) :
    ∃ tmp', callAppend link tmp [.byteArray bytes] = (tmp', true) := by
  have refines := Object.append_refines sound bytes
  obtain ⟨grown, appended⟩ : ∃ grown, tmp.tmpfile.append bytes = some grown := by
    have limit : tmp.tmpfile.data.length = tmp.content.length := rfl
    refine ⟨_, if_neg (not_or.mpr ⟨?_, ?_⟩)⟩ <;> omega
  rw [appended] at refines
  obtain ⟨tmp', made, _⟩ := refines
  refine ⟨tmp', ?_⟩
  rw [callAppend, if_pos delivered, made]
  dsimp only
  rw [answered]

/-- An upload of no more bytes than the file has room for succeeds. -/
theorem uploadLoop_clean (clean : ∀ k, (links k).delivered = true ∧ (links k).answered = true)
    (sound : tmp.Sound) (wf : buffer.WellFormed)
    (room : tmp.content.length + buffer.contents.length ≤ tmpfileSizeMax) (k : Nat) :
    (uploadLoop links k tmp buffer).2 = true := by
  fun_induction uploadLoop links k tmp buffer with
  | case1 k tmp buffer none' => rfl
  | case2 k tmp buffer some' count other failed =>
    have enough : count ≤ buffer.contents.length := buffer.block_le _
    obtain ⟨tmp', made⟩ := callAppend_clean (buffer.load buffer.head count) sound
      (clean k).1 (clean k).2 (by rw [NiBuffer.length_load]; omega)
    cases congrArg Prod.snd (failed.symm.trans made)
  | case3 k tmp buffer some' count other made ih =>
    obtain ⟨sound', bytes, given, grown⟩ := callAppend_true sound made
    have enough : count ≤ buffer.contents.length := buffer.block_le _
    have length : bytes.length = count := by
      have same := List.head_eq_of_cons_eq given
      rw [← Variant.byteArray.inj same, NiBuffer.length_load]
    refine ih sound' (NiBuffer.wellFormed_pullHead wf count) ?_
    rw [grown, NiBuffer.contents_pullHead wf enough, List.length_append, List.length_drop, length]
    omega

/-- What the download has after some bytes, it has from the start of the file. -/
structure Fetched (tmp : Object) (n : Nat) (result : NiBuffer) : Prop
    extends result.WellFormed where
  reached : n ≤ tmp.content.length
  part : result.contents = tmp.content.take n

theorem fetched_new (tmp : Object) : Fetched tmp 0 (NiBuffer.new 0) where
  toWellFormed := NiBuffer.wellFormed_new 0
  reached := Nat.zero_le _
  part := rfl

theorem callRetrieve_some (sound : tmp.Sound) (inside : n ≤ tmp.content.length)
    (retrieved : callRetrieve link tmp [.uint64 (UInt64.ofNat n), .uint32 (UInt32.ofNat ioblksize)] =
      some bytes) : bytes = (tmp.content.drop n).take ioblksize := by
  have bounded := sound.bounded
  have limit : tmpfileSizeMax = 1048576 := rfl
  have width : UInt64.size = 2 ^ 64 := rfl
  unfold callRetrieve at retrieved
  split at retrieved
  · rw [Object.retrieve_refines sound _ (by decide)] at retrieved
    rw [← Option.some.inj retrieved, Tmpfile.retrieve, UInt64.toNat_ofNat_of_lt' (by omega)]
    rfl
  · cases retrieved

theorem Fetched.grow (here : Fetched tmp n result) (block : bytes = (tmp.content.drop n).take ioblksize) :
    Fetched tmp (n + bytes.length) ((result.ensureTailroom bytes.length).put bytes) := by
  have wf := NiBuffer.wellFormed_ensureTailroom here.toWellFormed bytes.length
  have room := NiBuffer.room_ensureTailroom here.toWellFormed bytes.length
  have reached := here.reached
  have length : bytes.length = min ioblksize (tmp.content.length - n) := by
    rw [block, List.length_take, List.length_drop]
  rw [NiBuffer.put_eq_fill wf room]
  refine ⟨NiBuffer.wellFormed_fill wf room, by omega, ?_⟩
  rw [NiBuffer.contents_fill wf room, NiBuffer.contents_ensureTailroom, here.part, List.take_add]
  congr 1
  conv_lhs => rw [block]
  rw [List.take_eq_take_iff, List.length_drop]
  omega

theorem next_offset (n m : Nat) : UInt64.ofNat n + UInt64.ofNat m = UInt64.ofNat (n + m) := (UInt64.ofNat_add n m).symm

/-- A download that comes to an end with a buffer has brought the whole file. -/
theorem downloadLoop_spec (sound : tmp.Sound) (here : Fetched tmp n result)
    (returned : downloadLoop links tmp fuel k (UInt64.ofNat n) result = some (some final)) :
    final.contents = tmp.content := by
  induction fuel generalizing k n result with
  | zero => cases returned
  | succ fuel ih =>
    rw [downloadLoop] at returned
    split at returned
    · cases returned
    · rename_i bytes retrieved
      have block := callRetrieve_some sound here.reached retrieved
      have next := here.grow block
      dsimp only at returned
      split at returned
      · rename_i short
        obtain rfl := Option.some.inj (Option.some.inj returned)
        rw [next.part]
        apply List.take_of_length_le
        rw [block, List.length_take, List.length_drop] at short ⊢
        omega
      · rw [next_offset] at returned
        exact ih next returned

theorem callRetrieve_clean (sound : tmp.Sound) (delivered : link.delivered = true)
    (answered : link.answered = true) (offset : UInt64) :
    ∃ bytes, callRetrieve link tmp [.uint64 offset, .uint32 (UInt32.ofNat ioblksize)] =
      some bytes := by
  rw [callRetrieve, if_pos ⟨delivered, answered⟩, Object.retrieve_refines sound offset (by decide)]
  exact ⟨_, rfl⟩

/-- A download whose calls are all answered comes to an end. -/
theorem downloadLoop_clean (clean : ∀ k, (links k).delivered = true ∧ (links k).answered = true)
    (sound : tmp.Sound) (left : Nat) (enough : tmp.content.length - n ≤ left) (here : Fetched tmp n result) (k : Nat) :
    ∃ final, downloadLoop links tmp (left + 1) k (UInt64.ofNat n) result = some (some final) := by
  induction left generalizing k n result with
  | zero =>
    obtain ⟨bytes, retrieved⟩ := callRetrieve_clean sound (clean k).1 (clean k).2 (UInt64.ofNat n)
    have block := callRetrieve_some sound here.reached retrieved
    have short : bytes.length < ioblksize := by
      have positive : 0 < ioblksize := by decide
      rw [block, List.length_take, List.length_drop]
      omega
    rw [downloadLoop, retrieved]
    dsimp only
    rw [if_pos short]
    exact ⟨_, rfl⟩
  | succ left ih =>
    obtain ⟨bytes, retrieved⟩ := callRetrieve_clean sound (clean k).1 (clean k).2 (UInt64.ofNat n)
    have block := callRetrieve_some sound here.reached retrieved
    have next := here.grow block
    rw [downloadLoop, retrieved]
    dsimp only
    split
    · exact ⟨_, rfl⟩
    · rename_i full
      have positive : 0 < ioblksize := by decide
      rw [next_offset]
      exact ih (by omega) next (k + 1)

/-- Whatever was appended before: the size of the file is bounded, an append that is refused
changes neither content nor size nor sequence number, one that succeeds extends the content by
its bytes and counts up, and what is uploaded can be downloaded again. -/
theorem tmpfile_kept (file : File) (calls : List (List Variant)) :
    let tmp := Object.appends { file := file } calls
    (tmp.content.length ≤ tmpfileSizeMax ∧ tmp.size.toNat = tmp.content.length) ∧
    (∀ argv tmp' e, tmp.append argv = (tmp', .error e) →
      tmp'.content = tmp.content ∧ tmp'.size = tmp.size ∧ tmp'.file = tmp.file) ∧
    (∀ argv tmp', tmp.append argv = (tmp', .ok ()) → ∃ bytes, argv = [.byteArray bytes] ∧
      tmp'.content = tmp.content ++ bytes ∧
      tmp'.file = { tmp.file with iseq := tmp.file.iseq + 1 } ∧
      (tmp.file.iseq.toNat < 2 ^ 32 - 1 → tmp.file.iseq < tmp'.file.iseq)) ∧
    (∀ links buffer tmp', buffer.Fits → uploadFile links tmp buffer = (tmp', true) →
      ∀ links' fuel result, downloadFile links' tmp' fuel = some (some result) →
        result.contents = tmp.content ++ buffer.contents) ∧
    ∀ links, (∀ k, (links k).delivered = true ∧ (links k).answered = true) →
      ∀ buffer : NiBuffer, buffer.WellFormed →
        tmp.content.length + buffer.contents.length ≤ tmpfileSizeMax →
        ∃ tmp' fuel result, uploadFile links tmp buffer = (tmp', true) ∧
          downloadFile links tmp' fuel = some (some result) ∧
          result.contents = tmp.content ++ buffer.contents := by
  intro tmp
  have sound : tmp.Sound := Object.sound_appends (Object.sound_new file) calls
  refine ⟨⟨sound.bounded, sound.size_eq⟩, ?_, ?_, ?_, ?_⟩
  · intro argv tmp' e refused
    rcases Object.append_cases sound argv with ⟨other, _, made, content, file, size, _⟩ | ⟨other, bytes, made, _⟩
    · rw [made] at refused
      obtain rfl : other = tmp' := congrArg Prod.fst refused
      exact ⟨content, size, file⟩
    · rw [made] at refused
      cases congrArg Prod.snd refused
  · intro argv tmp' accepted
    rcases Object.append_cases sound argv with ⟨other, _, made, _⟩ | ⟨other, bytes, made, given, _, content, file, _⟩
    · rw [made] at accepted
      cases congrArg Prod.snd accepted
    · rw [made] at accepted
      obtain rfl : other = tmp' := congrArg Prod.fst accepted
      refine ⟨bytes, given, content, file, ?_⟩
      intro below
      rw [file, UInt32.lt_iff_toNat_lt, UInt32.toNat_add]
      have one : (1 : UInt32).toNat = 1 := rfl
      omega
  · intro links buffer tmp' fits uploaded links' fuel result downloaded
    obtain ⟨sound', content⟩ := uploadLoop_spec sound fits uploaded
    rw [← content]
    exact downloadLoop_spec sound' (fetched_new tmp') downloaded
  · intro links clean buffer wf room
    have limit : tmpfileSizeMax = 1048576 := rfl
    have fits : buffer.Fits := { toWellFormed := wf, counted := by omega }
    have made := uploadLoop_clean clean sound wf room 0
    obtain ⟨sound', content⟩ := uploadLoop_spec sound fits (Prod.ext rfl made)
    obtain ⟨final, downloaded⟩ :=
      downloadLoop_clean clean sound' _ (Nat.le_refl _) (fetched_new _) 0
    exact ⟨_, _, final, Prod.ext rfl made, downloaded,
      (downloadLoop_spec sound' (fetched_new _) downloaded).trans content⟩

/-- Appends of nothing succeed, and are counted. -/
theorem appends_nothing (file : File) (n : Nat) :
    (Object.appends { file := file } (List.replicate n [.byteArray []])).Sound ∧
      (Object.appends { file := file } (List.replicate n [.byteArray []])).file.iseq = file.iseq + UInt32.ofNat n := by
  generalize start : ({ file := file } : Object) = tmp
  have sound : tmp.Sound := by
    rw [← start]
    exact Object.sound_new file
  have iseq : file.iseq = tmp.file.iseq := by rw [← start]
  rw [iseq]
  clear start iseq
  induction n generalizing tmp with
  | zero => exact ⟨sound, (UInt32.add_zero _).symm⟩
  | succ n ih =>
    rw [List.replicate_succ]
    rcases Object.append_cases sound [.byteArray []] with ⟨other, e, made, _⟩ | ⟨other, bytes, made, _, _, _, counted, sound'⟩
    · have refines := Object.append_refines sound []
      have bounded := sound.bounded
      obtain ⟨grown, appended⟩ : ∃ grown, tmp.tmpfile.append [] = some grown := by
        have length : tmp.tmpfile.data.length = tmp.content.length := rfl
        refine ⟨_, if_neg (not_or.mpr ⟨by simp, ?_⟩)⟩
        rw [List.length_nil]
        omega
      rw [appended] at refines
      obtain ⟨_, accepted, _⟩ := refines
      cases congrArg Prod.snd (made.symm.trans accepted)
    · obtain ⟨final, iseq⟩ := ih other sound'
      rw [Object.appends, List.foldl_cons, made]
      refine ⟨final, iseq.trans ?_⟩
      rw [counted, UInt32.ofNat_add, UInt32.add_assoc, UInt32.add_comm 1]
      rfl

/-- After 2^32 appends the sequence number is what it was, and more bytes than the limit are not
uploaded. -/
theorem tmpfile_limits :
    (¬ ∀ (file : File) (calls : List (List Variant)) (argv : List Variant) (tmp' : Object),
      (Object.appends { file := file } calls).append argv = (tmp', .ok ()) →
        (Object.appends { file := file } calls).file.iseq < tmp'.file.iseq) ∧
    ¬ ∀ (file : File) (buffer : NiBuffer), buffer.WellFormed →
      ∃ tmp' fuel result, uploadFile (fun _ => {}) { file := file } buffer = (tmp', true) ∧
        downloadFile (fun _ => {}) tmp' fuel = some (some result) ∧
        result.contents = buffer.contents := by
  constructor
  · intro claimed
    obtain ⟨n, last⟩ : ∃ n, UInt32.ofNat n = 4294967295 := ⟨4294967295, rfl⟩
    have first := claimed { id := 0, name := none, mode := fileRead, inum := 1 }
      (List.replicate n [.byteArray []]) [.byteArray []]
    obtain ⟨sound, iseq⟩ := appends_nothing { id := 0, name := none, mode := fileRead, inum := 1 } n
    generalize Object.appends _ (List.replicate n [.byteArray []]) = tmp at *
    have full : tmp.file.iseq = 4294967295 := by
      rw [iseq, last]
      rfl
    have clean : ({} : Link).delivered = true ∧ ({} : Link).answered = true := ⟨rfl, rfl⟩
    obtain ⟨tmp', called⟩ := callAppend_clean [] sound clean.1 clean.2 sound.bounded
    rcases Object.append_cases sound [.byteArray []] with ⟨other, e, made, _⟩ | ⟨other, bytes, made, _, _, _, counted, _⟩
    · rw [callAppend, if_pos rfl, made] at called
      cases congrArg Prod.snd called
    · have less := first other made
      rw [counted] at less
      dsimp only at less
      rw [full] at less
      exact absurd less (by decide)
  · intro claimed
    obtain ⟨tmp', fuel, result, uploaded, _⟩ := claimed { id := 0, name := none, mode := fileRead, inum := 1 }
      { base := fun _ => 0, tail := tmpfileSizeMax + 1, size := tmpfileSizeMax + 1 }
      ⟨by decide, by decide⟩
    obtain ⟨sound, content⟩ := uploadLoop_spec (Object.sound_new _)
      ⟨⟨by decide, by decide⟩, by rw [NiBuffer.length_contents]; decide⟩ uploaded
    have bounded := sound.bounded
    rw [content, List.length_append, NiBuffer.length_contents] at bounded
    have limit : tmpfileSizeMax = 1048576 := rfl
    dsimp only at bounded
    omega

end Testbus.Client.Tmpfiles
