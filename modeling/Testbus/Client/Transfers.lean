import Testbus.Agent.Filesystem

namespace Testbus.Client.Transfers

open Dbus Filesystem

/-- One call to the service: it may get lost, and so may the answer. -/
structure Call where
  host : Host := {}
  delivered : Bool := true
  answered : Bool := true

/-- A call of `Filesystem.upload`, and whether the client sees it succeed. -/
def Call.upload (call : Call) (fs : Agent.Directory) (argv : List Variant) : Agent.Directory × Bool :=
  if call.delivered then
    match Filesystem.upload call.host fs argv with
    | (fs, .ok ()) => (fs, call.answered)
    | (fs, .error _) => (fs, false)
  else (fs, false)

def blockSize : Nat := 4096

/-- The loop of `ni_testbus_client_agent_upload_file`, from a number of calls on. Nothing adds
to the offset. -/
def uploadLoop (calls : Nat → Call) (path : CString) (offset : UInt64) (k : Nat)
    (fs : Agent.Directory) (data : NiBuffer) : Agent.Directory × Bool :=
  if data.count = 0 then (fs, true)
  else
    let count := min data.count blockSize
    match (calls k).upload fs
      [.string (some path), .uint64 offset, .byteArray (data.load data.head count)] with
    | (fs, false) => (fs, false)
    | (fs, true) => uploadLoop calls path offset (k + 1) fs (data.pullHead count).2
termination_by data.tail - data.head
decreasing_by exact NiBuffer.pullHead_shrinks ‹_› (by decide)

def uploadFile (calls : Nat → Call) (path : CString) (fs : Agent.Directory) (wbuf : NiBuffer) :
    Agent.Directory × Bool :=
  uploadLoop calls path 0 0 fs wbuf

inductive Query
  | getInfo (argv : List Variant)
  | download (argv : List Variant)

/-- What a query brings the client: nothing if the call fails. -/
def Call.serve (call : Call) (query : Query) : Option Variant :=
  if call.delivered ∧ call.answered then
    match query with
    | .getInfo argv => (Filesystem.getInfo call.host argv).toOption
    | .download argv => (Filesystem.download call.host argv).toOption
  else none

/-- The bytes of a reply that has some. -/
def blockOf : Option Variant → Option Bytes
  | some (.byteArray bytes) => some bytes
  | _ => none

/-- The loop of `ni_testbus_client_agent_download_file`; it may use up its fuel. -/
def downloadLoop (service : Nat → Query → Option Variant) (path : CString) (size : UInt64) :
    Nat → Nat → UInt64 → NiBuffer → Option (Option NiBuffer)
  | 0, _, _, _ => none
  | fuel + 1, k, offset, result =>
    if offset < size then
      let argv := [.string (some path), .uint64 offset, .uint32 (UInt32.ofNat blockSize)]
      match blockOf (service k (.download argv)) with
      | none => some none
      | some bytes =>
        let count := min result.tailroom bytes.length
        downloadLoop service path size fuel (k + 1) (offset + UInt64.ofNat count)
          (result.put (bytes.take count))
    else some (some result)

/-- `ni_testbus_client_agent_download_file`; `service` knows the number of the call. -/
def downloadFile (service : Nat → Query → Option Variant) (path : CString) (fuel : Nat) :
    Option (Option NiBuffer) :=
  match (service 0 (.getInfo [.string (some path)])).bind (dictGetUint64 "size") with
  | none => some none
  | some size => downloadLoop service path size fuel 1 0 (NiBuffer.new size.toNat)

section Upload

variable {calls : Nat → Call} {path : CString} {data : NiBuffer}

theorem call_upload {call : Call} {bytes : Bytes}
    (uploaded : call.upload fs [.string (some path), .uint64 0, .byteArray bytes] = (fs', true)) :
    fs' path = some bytes := by
  unfold Call.upload at uploaded
  split at uploaded
  · split at uploaded
    · rename_i final made
      obtain ⟨path', named, final'⟩ := upload_start made
      have same : path = path' := by
        simp only [pathArg] at named
        split at named
        · exact Option.some.inj named
        · cases named
      have kept : final = fs' := congrArg Prod.fst uploaded
      rw [← kept, final', same, Function.update_self]
    · cases congrArg Prod.snd uploaded
  · cases congrArg Prod.snd uploaded

/-- Each call leaves only its own block in the file. -/
theorem uploadLoop_spec (wf : data.WellFormed) (uploaded : uploadLoop calls path 0 k fs data = (fs', true)) :
    (data.count = 0 → fs' = fs) ∧ (data.count ≠ 0 → ∃ block, fs' path = some block ∧
      block.length ≤ blockSize ∧ (data.contents.length ≤ blockSize → block = data.contents)) := by
  fun_induction uploadLoop calls path 0 k fs data with
  | case1 k fs data none' =>
    refine ⟨fun _ => (congrArg Prod.fst uploaded).symm, ?_⟩
    intro some'
    exact absurd none' some'
  | case2 k fs data some' count fs₁ failed => cases congrArg Prod.snd uploaded
  | case3 k fs data some' count fs₁ made ih =>
    refine ⟨fun none' => absurd none' some', fun _ => ?_⟩
    have enough : count ≤ data.contents.length := data.block_le _
    have small : count ≤ blockSize := Nat.min_le_right _ _
    have stored := call_upload made
    rw [NiBuffer.load_head enough] at stored
    obtain ⟨last, more⟩ := ih (NiBuffer.wellFormed_pullHead wf count) uploaded
    have all (short : data.contents.length ≤ blockSize) : count = data.contents.length := by
      have counted : data.count = data.contents.length := NiBuffer.count_eq (Nat.lt_of_le_of_lt short (by decide))
      rw [show count = min data.count blockSize from rfl, counted]
      exact Nat.min_eq_left short
    by_cases rest : (data.pullHead count).2.count = 0
    · refine ⟨data.contents.take count, by rw [last rest, stored], ?_, ?_⟩
      · exact Nat.le_trans (List.length_take_le _ _) small
      · intro short
        rw [all short, List.take_length]
    · obtain ⟨block, stored', small', _⟩ := more rest
      refine ⟨block, stored', small', ?_⟩
      intro short
      have most := (data.pullHead count).2.count_le
      have whole := all short
      rw [NiBuffer.contents_pullHead wf enough, List.length_drop] at most
      omega

/-- The upload leaves the buffer's bytes in the file exactly if they are one block, or if there
are none to send and the file has them already. -/
theorem upload_iff (calls : Nat → Call) (path : CString) (fs fs' : Agent.Directory)
    (wbuf : NiBuffer) (wf : wbuf.WellFormed)
    (uploaded : uploadFile calls path fs wbuf = (fs', true)) :
    fs' path = some wbuf.contents ↔
      (wbuf.count = 0 ∧ fs path = some wbuf.contents) ∨
        (0 < wbuf.contents.length ∧ wbuf.contents.length ≤ blockSize) := by
  obtain ⟨nothing, blocks⟩ := uploadLoop_spec wf uploaded
  have counted := wbuf.count_le
  constructor
  · intro whole
    by_cases none' : wbuf.count = 0
    · exact Or.inl ⟨none', by rw [← nothing none']; exact whole⟩
    · obtain ⟨block, stored, small, _⟩ := blocks none'
      obtain rfl := Option.some.inj (stored.symm.trans whole)
      exact Or.inr ⟨by omega, small⟩
  · intro condition
    rcases condition with ⟨none', whole⟩ | ⟨some', small⟩
    · rw [nothing none']
      exact whole
    · have all : wbuf.count = wbuf.contents.length :=
        NiBuffer.count_eq (Nat.lt_of_le_of_lt small (by decide))
      obtain ⟨block, stored, _, whole⟩ := blocks (by omega)
      rw [stored, whole small]

/-- Nothing goes wrong with a call. -/
structure Call.Clean (call : Call) : Prop where
  delivered : call.delivered = true
  answered : call.answered = true
  opens : call.host.opens = true
  writes : ∀ k, call.host.writes k ≠ none

theorem Call.Clean.upload {call : Call} (clean : call.Clean) (absolute : path.head? = some 0x2f)
    (fs : Agent.Directory) (bytes : Bytes) :
    ∃ fs', call.upload fs [.string (some path), .uint64 0, .byteArray bytes] = (fs', true) := by
  have named : pathArg (.string (some path)) = some path := by rw [pathArg, if_pos absolute]
  have opened : openForWrite call.host fs path 0 = some [] := by
    rw [openForWrite, if_pos clean.opens, if_pos rfl]
  have done := writeLoop_done clean.writes 0 [] 0 bytes
  rcases written : writeLoop call.host 0 [] 0 bytes with ⟨final, flag⟩
  rw [written] at done
  obtain rfl : flag = true := done
  refine ⟨Function.update fs path (some final), ?_⟩
  rw [Call.upload, if_pos clean.delivered, Filesystem.upload, named]
  dsimp only
  rw [opened]
  dsimp only
  rw [if_neg (by decide), show (0 : UInt64).toNat = 0 from rfl, written]
  dsimp only
  rw [clean.answered]

theorem uploadLoop_done (path : CString) (clean : ∀ k, (calls k).Clean) (absolute : path.head? = some 0x2f)
    (k : Nat) (fs : Agent.Directory) (data : NiBuffer) : (uploadLoop calls path 0 k fs data).2 = true := by
  fun_induction uploadLoop calls path 0 k fs data with
  | case1 k fs data none' => rfl
  | case2 k fs data some' count fs₁ failed =>
    obtain ⟨fs₂, made⟩ := (clean k).upload absolute fs (data.load data.head count)
    cases congrArg Prod.snd (failed.symm.trans made)
  | case3 k fs data some' count fs₁ made ih => exact ih

def someFile : CString := ascii ['/', 'f']

/-- A file that has old bytes, and the two new ones. -/
theorem upload_iff_two : ∃ fs', uploadFile (fun _ => {}) someFile (fun _ => some [0x6f, 0x6c, 0x64])
    ((NiBuffer.new 2).put [0x68, 0x69]) = (fs', true) ∧ fs' someFile = some [0x68, 0x69] := by
  have clean : ∀ k : Nat, (({} : Call)).Clean := fun _ => ⟨rfl, rfl, rfl, by intro k; simp⟩
  have wf : ((NiBuffer.new 2).put [0x68, 0x69]).WellFormed := ⟨by decide, by decide⟩
  refine ⟨_, Prod.ext rfl (uploadLoop_done _ clean rfl 0 _ _), ?_⟩
  exact (upload_iff _ _ _ _ _ wf (Prod.ext rfl (uploadLoop_done _ clean rfl 0 _ _))).mpr
    (Or.inr ⟨by decide, by decide⟩)

/-- Of 4097 bytes, at most 4096 are in the file when the upload has succeeded. -/
theorem upload_overwrites : ¬ ∀ (calls : Nat → Call) (path : CString) (fs fs' : Agent.Directory)
    (wbuf : NiBuffer), wbuf.WellFormed → uploadFile calls path fs wbuf = (fs', true) →
      fs' path = some wbuf.contents := by
  intro claimed
  have clean : ∀ k : Nat, (({} : Call)).Clean := fun _ => ⟨rfl, rfl, rfl, by intro k; simp⟩
  have wf : ({ base := fun _ => 0, tail := 4097, size := 4097 } : NiBuffer).WellFormed :=
    ⟨by decide, by decide⟩
  have made := uploadLoop_done someFile clean rfl 0 (fun _ => none)
    { base := fun _ => 0, tail := 4097, size := 4097 }
  have whole := claimed _ _ _ _ _ wf (Prod.ext rfl made)
  obtain ⟨block, stored, small, _⟩ := (uploadLoop_spec wf (Prod.ext rfl made)).2 (by decide)
  rw [uploadFile] at whole
  have length := congrArg List.length (Option.some.inj (stored.symm.trans whole))
  rw [NiBuffer.length_contents] at length
  have bound : blockSize = 4096 := rfl
  dsimp only at length
  omega

end Upload

section Download

variable {path : CString} {size : UInt64} {result : NiBuffer} {replies : Nat → Option Variant}
  {content : Bytes}

/-- How many bytes the first replies to the download calls have. -/
def received (replies : Nat → Option Variant) : Nat → Nat
  | 0 => 0
  | n + 1 => received replies n + ((blockOf (replies (n + 1))).getD []).length

/-- The replies let the transfer come to an end: one of them is a failure, or they have all the
bytes of a size that 32 bits can count. -/
def Ending (replies : Nat → Option Variant) : Prop :=
  match (replies 0).bind (dictGetUint64 "size") with
  | none => True
  | some size => (∃ k, blockOf (replies (k + 1)) = none) ∨
      (size.toNat < 2 ^ 32 ∧ ∃ n, size.toNat ≤ received replies n)

/-- The buffer of a transfer that has come to a place. The room that is left is counted in
32 bits, so no place past the size modulo that is reached. -/
structure Position (size : UInt64) (place : Nat) (result : NiBuffer) : Prop
    extends result.WellFormed where
  size_eq : result.size = size.toNat
  tail_eq : result.tail = place
  reached : place ≤ size.toNat % 2 ^ 32

theorem position_new (size : UInt64) : Position size 0 (NiBuffer.new size.toNat) where
  toWellFormed := NiBuffer.wellFormed_new _
  size_eq := rfl
  tail_eq := rfl
  reached := Nat.zero_le _

theorem Position.tailroom (here : Position size place result) : result.tailroom = size.toNat % 2 ^ 32 - place := by
  have reached := here.reached
  rw [NiBuffer.tailroom, here.size_eq, here.tail_eq]
  split
  · omega
  · omega

/-- One block brings the transfer as far as there is room for its bytes. -/
theorem Position.put (here : Position size place result) (bytes : Bytes) :
    Position size (min (place + bytes.length) (size.toNat % 2 ^ 32))
      (result.put (bytes.take (min result.tailroom bytes.length))) := by
  have wf := here.toWellFormed
  have reached := here.reached
  rw [NiBuffer.put_eq_fill wf (length_read_le _ _ _)]
  obtain ⟨_, tail⟩ := NiBuffer.fill_head wf (length_read_le _ _ _)
  refine ⟨NiBuffer.wellFormed_fill wf (length_read_le _ _ _), ?_, ?_, Nat.min_le_right _ _⟩
  · rw [NiBuffer.size_fill]
    exact here.size_eq
  · rw [tail, here.tail_eq, List.length_take, here.tailroom]
    omega

theorem Position.offset (here : Position size place result) (bytes : Bytes) :
    UInt64.ofNat place + UInt64.ofNat (min result.tailroom bytes.length) =
      UInt64.ofNat (min (place + bytes.length) (size.toNat % 2 ^ 32)) := by
  have reached := here.reached
  rw [← UInt64.ofNat_add, here.tailroom]
  congr 1
  omega

theorem Position.lt_iff (here : Position size place result) : UInt64.ofNat place < size ↔ place < size.toNat := by
  have reached := here.reached
  have bound := size.toNat_lt
  have width : UInt64.size = 2 ^ 64 := rfl
  rw [UInt64.lt_iff_toNat_lt, UInt64.toNat_ofNat_of_lt' (by omega)]

/-- Where the first replies have brought the transfer. -/
def place (replies : Nat → Option Variant) (size : UInt64) (n : Nat) : Nat :=
  min (received replies n) (size.toNat % 2 ^ 32)

theorem place_succ (block : blockOf (replies (n + 1)) = some bytes) :
    min (place replies size n + bytes.length) (size.toNat % 2 ^ 32) = place replies size (n + 1) := by
  simp only [place, received, block, Option.getD_some]
  omega

theorem loop_stops (path : CString) (here : Position size (place replies size n) result)
    (ending : blockOf (replies (n + d + 1)) = none ∨ (size.toNat < 2 ^ 32 ∧ size.toNat ≤ received replies (n + d))) :
    ∃ fuel, downloadLoop (fun k _ => replies k) path size fuel (n + 1)
      (UInt64.ofNat (place replies size n)) result ≠ none := by
  induction d generalizing n result with
  | zero =>
    refine ⟨1, ?_⟩
    rw [downloadLoop]
    split
    · rename_i more
      rw [here.lt_iff] at more
      rcases ending with failed | ⟨small, all⟩
      · dsimp only
        rw [Nat.add_zero] at failed
        rw [failed]
        simp
      · rw [place, Nat.mod_eq_of_lt small] at more
        simp only [Nat.add_zero] at all
        omega
    · simp
  | succ d ih =>
    cases block : blockOf (replies (n + 1)) with
    | none =>
      refine ⟨1, ?_⟩
      rw [downloadLoop]
      split
      · dsimp only
        rw [block]
        simp
      · simp
    | some bytes =>
      by_cases more : UInt64.ofNat (place replies size n) < size
      · have next := here.put bytes
        rw [place_succ block] at next
        obtain ⟨fuel, ended⟩ := ih next (by
          rw [show n + 1 + d = n + (d + 1) by omega]
          exact ending)
        refine ⟨fuel + 1, ?_⟩
        rw [downloadLoop, if_pos more]
        dsimp only
        rw [block]
        dsimp only
        rw [here.offset, place_succ block]
        exact ended
      · refine ⟨1, ?_⟩
        rw [downloadLoop, if_neg more]
        simp

theorem loop_runs (path : CString) (blocks : ∀ k, blockOf (replies (k + 1)) ≠ none)
    (short : ∀ n, place replies size n < size.toNat) (fuel n : Nat) (result : NiBuffer)
    (here : Position size (place replies size n) result) :
    downloadLoop (fun k _ => replies k) path size fuel (n + 1) (UInt64.ofNat (place replies size n)) result = none := by
  induction fuel generalizing n result with
  | zero => rfl
  | succ fuel ih =>
    obtain ⟨bytes, block⟩ := Option.ne_none_iff_exists'.mp (blocks n)
    have next := here.put bytes
    rw [place_succ block] at next
    rw [downloadLoop, if_pos (here.lt_iff.mpr (short n))]
    dsimp only
    rw [block]
    dsimp only
    rw [here.offset, place_succ block]
    exact ih (n + 1) _ next

/-- The transfer comes to an end exactly for the replies that let it. -/
theorem terminates_iff (path : CString) (replies : Nat → Option Variant) :
    (∃ fuel, downloadFile (fun k _ => replies k) path fuel ≠ none) ↔ Ending replies := by
  unfold downloadFile Ending
  cases announced : (replies 0).bind (dictGetUint64 "size") with
  | none => simp
  | some size =>
    dsimp only
    have start := position_new size
    have zero : place replies size 0 = 0 := Nat.zero_min _
    rw [← zero] at start
    constructor
    · rintro ⟨fuel, ended⟩
      by_contra endless
      obtain ⟨blocks, short⟩ := not_or.mp endless
      apply ended
      have run := loop_runs path (not_exists.mp blocks) (by
        intro n
        have less := Nat.mod_le size.toNat (2 ^ 32)
        rw [place]
        by_cases small : size.toNat < 2 ^ 32
        · have missing := not_exists.mp (not_and.mp short small) n
          omega
        · have bound := Nat.mod_lt size.toNat (show 0 < 2 ^ 32 by decide)
          omega) fuel 0 _ start
      rw [zero] at run
      exact run
    · intro ending
      have reached : ∃ d, blockOf (replies (0 + d + 1)) = none ∨
          (size.toNat < 2 ^ 32 ∧ size.toNat ≤ received replies (0 + d)) := by
        rcases ending with ⟨k, failed⟩ | ⟨small, n, all⟩
        · exact ⟨k, Or.inl (by rw [Nat.zero_add]; exact failed)⟩
        · exact ⟨n, Or.inr ⟨small, by rw [Nat.zero_add]; exact all⟩⟩
      obtain ⟨d, ending⟩ := reached
      have stops := loop_stops path start ending
      rw [zero] at stops
      exact stops

/-- During the call the file has these bytes. -/
structure Call.Has (content : Bytes) (call : Call) : Prop where
  stat : ∀ stb, call.host.stat = some stb → stb.size = content.length
  contents : ∀ k, call.host.contents k = content

theorem Call.Has.block {call : Call} (has : call.Has content)
    (given : blockOf (call.serve (.download [arg, .uint64 offset, .uint32 count])) = some bytes) :
    bytes = (content.drop offset.toNat).take count.toNat := by
  unfold Call.serve at given
  split at given
  · dsimp only at given
    cases served : Filesystem.download call.host [arg, .uint64 offset, .uint32 count] with
    | error error =>
      rw [served] at given
      cases given
    | ok reply =>
      obtain rfl := download_spec has.contents served
      rw [served] at given
      exact (Option.some.inj given).symm
  · cases given

theorem Call.Has.announces {call : Call} (has : call.Has content)
    (announced : (call.serve (.getInfo argv)).bind (dictGetUint64 "size") = some size) : size.toNat = content.length := by
  unfold Call.serve at announced
  split at announced
  · simp only [getInfo] at announced
    split at announced
    · split at announced
      · cases announced
      · cases announced
      · rename_i stb _ found
        split at announced
        · have told : UInt64.ofNat stb.size = size := Option.some.inj announced
          have bounded := stb.bounded
          have width : UInt64.size = 2 ^ 64 := rfl
          rw [← told, UInt64.toNat_ofNat_of_lt' (by omega)]
          exact has.stat stb found
        · cases announced
    · cases announced
  · cases announced

/-- A buffer that is returned has all the bytes. -/
theorem loop_content {calls : Nat → Call} (has : ∀ k, (calls k).Has content)
    (whole : size.toNat = content.length) (here : Position size at_ result) (part : result.contents = content.take at_)
    (returned : downloadLoop (fun k => (calls k).serve) path size fuel k (UInt64.ofNat at_) result =
      some (some bp)) : bp.payload = content := by
  induction fuel generalizing k at_ result with
  | zero => cases returned
  | succ fuel ih =>
    rw [downloadLoop] at returned
    split at returned
    · dsimp only at returned
      split at returned
      · cases returned
      · rename_i bytes given
        have block := (has k).block given
        have reached := here.reached
        have bound := size.toNat_lt
        have width : UInt64.size = 2 ^ 64 := rfl
        rw [UInt64.toNat_ofNat_of_lt' (by omega)] at block
        rw [here.offset] at returned
        refine ih (here.put bytes) ?_ returned
        rw [NiBuffer.put_eq_fill here.toWellFormed (length_read_le _ _ _),
          NiBuffer.contents_fill here.toWellFormed (length_read_le _ _ _), part]
        have length : at_ + min (size.toNat % 2 ^ 32 - at_) bytes.length =
            min (at_ + bytes.length) (size.toNat % 2 ^ 32) := by omega
        rw [← length, List.take_add, here.tailroom]
        congr 1
        rw [block, List.take_take, List.take_eq_take_iff, List.length_take]
        omega
    · rename_i done
      rw [here.lt_iff] at done
      have reached := here.reached
      have less := Nat.mod_le size.toNat (2 ^ 32)
      have bound := Nat.mod_lt size.toNat (show 0 < 2 ^ 32 by decide)
      obtain rfl := Option.some.inj (Option.some.inj returned)
      have all : result.contents = content := by
        rw [part]
        exact List.take_of_length_le (by omega)
      have counted : result.count = result.contents.length := by
        apply NiBuffer.count_eq
        rw [all]
        omega
      rw [NiBuffer.payload, counted, NiBuffer.load_head (Nat.le_refl _), List.take_length, all]

/-- The transfer comes to an end exactly for the replies that let it, and what it returns for a
file that does not change is its content. -/
theorem download_iff (path : CString) :
    (∀ replies : Nat → Option Variant,
      (∃ fuel, downloadFile (fun k _ => replies k) path fuel ≠ none) ↔ Ending replies) ∧
    ∀ (calls : Nat → Call) (content : Bytes), (∀ k, (calls k).Has content) →
      ∀ (fuel : Nat) (bp : NiBuffer),
        downloadFile (fun k => (calls k).serve) path fuel = some (some bp) →
          bp.payload = content := by
  refine ⟨terminates_iff path, ?_⟩
  intro calls content has fuel bp returned
  unfold downloadFile at returned
  split at returned
  · cases returned
  · rename_i size announced
    exact loop_content has ((has 0).announces announced) (position_new size) rfl returned

/-- A file that has a byte when its size is asked for, and none from then on. -/
def shrinking : Nat → Call
  | 0 => { host := { stat := some ⟨true, 1, by decide⟩ } }
  | _ + 1 => {}

theorem serve_shrunk (k : Nat) :
    (shrinking (k + 1)).serve (.download [.string (some someFile), .uint64 0,
      .uint32 (UInt32.ofNat blockSize)]) = some (.byteArray []) := by
  have read : readLoop {} 0 0 (NiBuffer.new 4096) = some (NiBuffer.new 4096) := by
    rw [readLoop]
    simp
  have served : Filesystem.download {} [.string (some someFile), .uint64 0,
      .uint32 (UInt32.ofNat blockSize)] = .ok (.byteArray []) := by
    simp only [Filesystem.download]
    rw [if_neg (by decide), if_neg (by decide), if_neg (by decide), if_neg (by decide)]
    rw [show readLoop {} 0 (UInt64.toNat 0) (NiBuffer.new (UInt32.ofNat blockSize).toNat) = _ from read]
    rfl
  rw [Call.serve, if_pos ⟨rfl, rfl⟩]
  exact congrArg Except.toOption served

/-- The client asks for the byte that is gone for ever. -/
theorem shrunk_never_ends : ¬ ∀ (path : CString) (calls : Nat → Call),
    (∃ fuel, downloadFile (fun k => (calls k).serve) path fuel ≠ none) ∧
      ∀ content : Bytes, (∀ k, (calls k).Has content) → ∀ (fuel : Nat) (bp : NiBuffer),
        downloadFile (fun k => (calls k).serve) path fuel = some (some bp) →
          bp.payload = content := by
  intro claimed
  obtain ⟨fuel, ended⟩ := (claimed someFile shrinking).1
  apply ended
  have run (fuel k : Nat) : downloadLoop (fun k => (shrinking k).serve) someFile 1 fuel (k + 1) 0
      (NiBuffer.new 1) = none := by
    induction fuel generalizing k with
    | zero => rfl
    | succ fuel ih =>
      rw [downloadLoop, if_pos (by decide)]
      dsimp only
      rw [serve_shrunk]
      exact ih (k + 1)
  have announced : ((shrinking 0).serve (.getInfo [.string (some someFile)])).bind
      (dictGetUint64 "size") = some 1 := rfl
  rw [downloadFile, announced]
  exact run fuel 0

end Download

end Testbus.Client.Transfers
