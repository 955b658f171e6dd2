import Testbus.Agent.Output
import Testbus.Lib.Machine

namespace Testbus

open Lib

inductive Fd
  | stdout
  | stderr
  deriving DecidableEq

/-- `ni_testbus_client_upload_file`, from a number of calls on; it works on a copy of the
buffer, whose bytes these are. -/
def uploadFile (calls : Nat → Bool) (k : Nat) (tmp : Tmpfile) (bytes : Bytes) : Nat × Tmpfile × Bool :=
  if bytes = [] then (k, tmp, true)
  else if calls k then
    match tmp.append (bytes.take 4096) with
    | none => (k + 1, tmp, false)
    | some tmp => uploadFile calls (k + 1) tmp (bytes.drop 4096)
  else (k + 1, tmp, false)
termination_by bytes.length
decreasing_by
  have some' : bytes ≠ [] := ‹_›
  rw [List.length_drop]
  exact Nat.sub_lt (List.length_pos_iff.mpr some') (by decide)

/-- The loop over the buffers of an output. -/
def uploadChain (calls : Nat → Bool) (k : Nat) (tmp : Tmpfile) : List NiBuffer → Nat × Tmpfile
  | [] => (k, tmp)
  | bp :: rest =>
    match uploadFile calls k tmp bp.payload with
    | (k, tmp, true) => uploadChain calls k tmp rest
    | (k, tmp, false) => (k, tmp)

/-- `ni_buffer_chain_count`, an `unsigned int`. -/
def chainCount (chain : List NiBuffer) : Nat := (chain.map NiBuffer.count).sum % 2 ^ 32

/-- `ni_testbus_agent_upload_output`. An output that is listed has its file on the master,
and there is no check that it could be found; any other one gets a new file. -/
def uploadOutput (calls : Nat → Bool) (k : Nat) (listed : Bool) (tmp : Tmpfile)
    (chain : List NiBuffer) : Option (Nat × Tmpfile) :=
  if chainCount chain = 0 then some (k, tmp)
  else if calls k then some (uploadChain calls (k + 1) tmp chain)
  else if listed then none
  else some (k + 1, tmp)

/-- A process in its agent, and the files that its outputs go to. -/
structure Running where
  streams : Fd → Stream
  files : Fd → Tmpfile
  listed : Fd → Bool
  exited : Bool := false
  reaped : Bool := false
  deletedOnMaster : Bool := false
  reported : Bool := false

inductive OutputAct
  | write (fd : Fd) (bytes : Bytes)
  | close (fd : Fd)
  | poll (fd : Fd) (reads : Nat → Read) (hup : Bool)
  | exit
  | delete
  | reap (reads : Fd → Nat → Read) (calls : Nat → Bool)

inductive OutputFault
  | disabled
  | crashed
  deriving DecidableEq

namespace Running

/-- A process that was started; its standard error is only captured if it has a file, and
goes the way of its standard output otherwise. -/
def start (captured : Bool) (files : Fd → Tmpfile) (listed : Fd → Bool) : Running where
  streams
    | .stdout => { closed := false, socket := true }
    | .stderr => { closed := !captured, socket := captured }
  files := files
  listed := listed

def update (w : Running) (fd : Fd) (change : Stream → Stream) : Running :=
  { w with streams := Function.update w.streams fd (change (w.streams fd)) }

def processNotify (calls : Nat → Bool) (w : Running) : Option Running :=
  if calls 0 then do
    let (k, stdout) ← uploadOutput calls 1 (w.listed .stdout) (w.files .stdout)
      (w.streams .stdout).chain
    let (k, stderr) ← uploadOutput calls k (w.listed .stderr) (w.files .stderr)
      (w.streams .stderr).chain
    some { w with
      files := fun
        | .stdout => stdout
        | .stderr => stderr
      reported := calls k }
  else some w

/-- `ni_process_reap`, and the exit callback. -/
def reap (reads : Fd → Nat → Read) (calls : Nat → Bool) (w : Running) : Option Running :=
  let w := { w with streams := fun fd => (w.streams fd).flush (reads fd), reaped := true }
  if w.deletedOnMaster then some w else w.processNotify calls

def step (w : Running) : OutputAct → Except OutputFault Running
  | .write fd bytes =>
    if w.exited ∨ (w.streams fd).closed then .error .disabled
    else .ok (w.update fd fun s =>
      { s with written := s.written ++ bytes, pending := s.pending ++ bytes })
  | .close fd => .ok (w.update fd fun s => { s with closed := true })
  | .poll fd reads hup =>
    if w.reaped = false ∧ (w.streams fd).socket ∧ (w.streams fd).active then
      .ok (w.update fd (Stream.poll reads hup))
    else .error .disabled
  | .exit => .ok { w with exited := true }
  | .delete => .ok { w with deletedOnMaster := true }
  | .reap reads calls =>
    if w.exited ∧ w.reaped = false then
      match w.reap reads calls with
      | some w => .ok w
      | none => .error .crashed
    else .error .disabled

/-- The reads before a pipe is closed are not short and do not fail; nor do the calls of the
upload, and the output fits the size of a file. -/
def Lossless (w : Running) : OutputAct → Prop
  | .poll _ reads hup => hup = true → Stream.Whole reads
  | .reap reads calls => (∀ fd, Stream.Whole (reads fd)) ∧ (∀ k, calls k = true) ∧
      ∀ fd, (w.files fd).data.length + (w.streams fd).written.length ≤ tmpfileSizeMax
  | _ => True

end Running

section Upload

variable {calls : Nat → Bool} {tmp : Tmpfile}

theorem append_fits (fits : tmp.data.length + bytes.length ≤ tmpfileSizeMax) :
    ∃ grown, tmp.append bytes = some grown ∧ grown.data = tmp.data ++ bytes := by
  refine ⟨_, if_neg (by omega), rfl⟩

theorem uploadFile_all (answered : ∀ k, calls k = true) (k : Nat) (tmp : Tmpfile) (bytes : Bytes)
    (fits : tmp.data.length + bytes.length ≤ tmpfileSizeMax) :
    ∃ k' grown, uploadFile calls k tmp bytes = (k', grown, true) ∧ grown.data = tmp.data ++ bytes := by
  fun_induction uploadFile calls k tmp bytes with
  | case1 k tmp => exact ⟨k, tmp, rfl, (List.append_nil _).symm⟩
  | case2 k tmp bytes some' call refused =>
    have small : tmp.data.length + (bytes.take 4096).length ≤ tmpfileSizeMax := by
      rw [List.length_take]
      omega
    obtain ⟨grown, appended, _⟩ := append_fits small
    exact absurd (refused.symm.trans appended) (by simp)
  | case3 k tmp bytes some' call grown appended ih =>
    have small : tmp.data.length + (bytes.take 4096).length ≤ tmpfileSizeMax := by
      rw [List.length_take]
      omega
    obtain ⟨grown', appended', data⟩ := append_fits small
    obtain rfl := Option.some.inj (appended.symm.trans appended')
    obtain ⟨k', final, uploaded, all⟩ := ih (by
      rw [data, List.length_append, List.length_take, List.length_drop]
      omega)
    refine ⟨k', final, uploaded, ?_⟩
    rw [all, data, List.append_assoc, List.take_append_drop]
  | case4 k tmp bytes some' silent => exact absurd (answered k) silent

theorem uploadChain_all (answered : ∀ k, calls k = true) (k : Nat) (tmp : Tmpfile) (chain : List NiBuffer)
    (fits : tmp.data.length + (chain.map NiBuffer.payload).flatten.length ≤ tmpfileSizeMax) :
    (uploadChain calls k tmp chain).2.data = tmp.data ++ (chain.map NiBuffer.payload).flatten := by
  induction chain generalizing k tmp with
  | nil => exact (List.append_nil _).symm
  | cons bp rest ih =>
    rw [List.map_cons, List.flatten_cons, List.length_append] at fits
    obtain ⟨k', grown, uploaded, data⟩ := uploadFile_all answered k tmp bp.payload (by omega)
    rw [uploadChain, uploaded]
    dsimp only
    rw [ih k' grown (by rw [data, List.length_append]; omega), data, List.append_assoc]
    rfl

theorem length_flatten_payload (chain : List NiBuffer) :
    (chain.map NiBuffer.payload).flatten.length = (chain.map NiBuffer.count).sum := by
  simp [List.length_flatten, NiBuffer.payload, Function.comp_def]

theorem uploadOutput_all (answered : ∀ k, calls k = true) (k : Nat) (listed : Bool) (tmp : Tmpfile)
    (chain : List NiBuffer) (fits : tmp.data.length + (chain.map NiBuffer.payload).flatten.length ≤ tmpfileSizeMax) :
    ∃ k' grown, uploadOutput calls k listed tmp chain = some (k', grown) ∧
      grown.data = tmp.data ++ (chain.map NiBuffer.payload).flatten := by
  have small : tmpfileSizeMax = 1048576 := rfl
  unfold uploadOutput
  split
  · rename_i empty
    have length := length_flatten_payload chain
    rw [chainCount, Nat.mod_eq_of_lt (by omega)] at empty
    rw [empty] at length
    refine ⟨k, tmp, rfl, ?_⟩
    rw [List.eq_nil_of_length_eq_zero length, List.append_nil]
  · rw [if_pos (answered k)]
    exact ⟨_, _, rfl, uploadChain_all answered (k + 1) tmp chain fits⟩

end Upload

namespace Running

variable {w w' : Running} {files : Fd → Tmpfile} {reads : Nat → Read}

/-- The invariant of every run. -/
structure Sound (w : Running) : Prop where
  streams : ∀ fd, (w.streams fd).Sound
  unreported : w.reaped = false → w.reported = false

/-- What holds in addition where nothing gets lost; `files` are the files at the start. -/
structure Complete (files : Fd → Tmpfile) (w : Running) : Prop where
  drained : ∀ fd, (w.streams fd).socket = false →
    (w.streams fd).closed = true ∧ (w.streams fd).pending = []
  untouched : w.reaped = false → w.files = files
  final : w.reaped = true → w.exited = true
  uploaded : w.reported = true → ∀ fd, (w.streams fd).handed = (w.streams fd).written ∧
    (w.files fd).data = (files fd).data ++ (w.streams fd).written

theorem sound_start (captured : Bool) (files : Fd → Tmpfile) (listed : Fd → Bool) :
    (start captured files listed).Sound where
  streams fd := by
    cases fd <;> exact ⟨by simp [start], rfl, rfl⟩
  unreported := by intro; rfl

theorem complete_start (captured : Bool) (files : Fd → Tmpfile) (listed : Fd → Bool) :
    (start captured files listed).Complete files where
  drained fd shut := by
    cases fd with
    | stdout => cases shut
    | stderr =>
      have none' : captured = false := shut
      simp [start, none']
  untouched := by intro; rfl
  final := by intro reaped; cases reaped
  uploaded := by intro reported; cases reported

theorem Sound.update (sound : w.Sound) (changed : (change (w.streams fd)).Sound) : (w.update fd change).Sound where
  streams other := by
    by_cases same : other = fd
    · subst same
      simpa [Running.update] using changed
    · simpa [Running.update, Function.update_of_ne same] using sound.streams other
  unreported := sound.unreported

theorem Complete.update (complete : w.Complete files)
    (drained : (change (w.streams fd)).socket = false →
      (change (w.streams fd)).closed = true ∧ (change (w.streams fd)).pending = [])
    (same : w.reported = true → (change (w.streams fd)).handed = (w.streams fd).handed ∧
      (change (w.streams fd)).written = (w.streams fd).written) :
    (w.update fd change).Complete files where
  drained other shut := by
    by_cases here : other = fd
    · subst here
      simp only [Running.update, Function.update_self] at shut ⊢
      exact drained shut
    · simp only [Running.update, Function.update_of_ne here] at shut ⊢
      exact complete.drained other shut
  untouched := complete.untouched
  final := complete.final
  uploaded reported other := by
    have before := complete.uploaded reported other
    by_cases here : other = fd
    · subst here
      obtain ⟨handed, written⟩ := same reported
      simp only [Running.update, Function.update_self, handed, written]
      exact before
    · simp only [Running.update, Function.update_of_ne here]
      exact before

/-- The streams are flushed before the master is told anything. -/
theorem reap_streams {reads : Fd → Nat → Read} {calls : Nat → Bool} (reaped : w.reap reads calls = some w') :
    w'.streams = (fun fd => (w.streams fd).flush (reads fd)) ∧ w'.reaped = true ∧ w'.exited = w.exited := by
  unfold reap processNotify at reaped
  dsimp only at reaped
  split at reaped
  · obtain rfl := Option.some.inj reaped
    exact ⟨rfl, rfl, rfl⟩
  · split at reaped
    · simp only [bind, Option.bind_eq_some_iff] at reaped
      obtain ⟨_, _, _, _, made⟩ := reaped
      obtain rfl := Option.some.inj made
      exact ⟨rfl, rfl, rfl⟩
    · obtain rfl := Option.some.inj reaped
      exact ⟨rfl, rfl, rfl⟩

theorem step_sound (sound : w.Sound) (moved : step w act = .ok w') : w'.Sound := by
  cases act with
  | write fd bytes =>
    simp only [step] at moved
    split at moved
    · cases moved
    · cases moved
      have before := sound.streams fd
      refine sound.update ⟨before.buffer, ?_, before.chained⟩
      have whole := before.whole
      change (w.streams fd).handed ++ (w.streams fd).waiting ++ ((w.streams fd).pending ++ bytes) = _
      rw [← List.append_assoc, whole]
  | close fd =>
    cases moved
    have before := sound.streams fd
    exact sound.update ⟨before.buffer, before.whole, before.chained⟩
  | poll fd reads hup =>
    simp only [step] at moved
    split at moved
    · cases moved
      exact sound.update (Stream.poll_spec (sound.streams fd) reads hup).1
    · cases moved
  | exit =>
    cases moved
    exact ⟨sound.streams, sound.unreported⟩
  | delete =>
    cases moved
    exact ⟨sound.streams, sound.unreported⟩
  | reap reads calls =>
    simp only [step] at moved
    split at moved
    · split at moved
      · rename_i reaped
        cases moved
        obtain ⟨streams, gone, _⟩ := reap_streams reaped
        refine ⟨?_, ?_⟩
        · intro fd
          rw [streams]
          exact (Stream.flush_spec (sound.streams fd) (reads fd)).1
        · intro still
          exact absurd (gone.symm.trans still) (by decide)
      · cases moved
    · cases moved

/-- The upload brings each file the output that goes to it. -/
theorem reap_complete {reads : Fd → Nat → Read} {calls : Nat → Bool} (sound : w.Sound)
    (complete : w.Complete files) (whole : ∀ fd, Stream.Whole (reads fd)) (answered : ∀ k, calls k = true)
    (fits : ∀ fd, (w.files fd).data.length + (w.streams fd).written.length ≤ tmpfileSizeMax)
    (exited : w.exited = true) (running : w.reaped = false)
    (reaped : w.reap reads calls = some w') : w'.Complete files := by
  obtain ⟨streams, gone, exited'⟩ := reap_streams reaped
  have flushed (fd : Fd) := Stream.flush_spec (sound.streams fd) (reads fd)
  have handed (fd : Fd) : ((w.streams fd).flush (reads fd)).pending = [] ∧
      ((w.streams fd).flush (reads fd)).handed = (w.streams fd).written :=
    (flushed fd).2.2.2.2 (whole fd) fun shut => (complete.drained fd shut).2
  have chained (fd : Fd) : ((((w.streams fd).flush (reads fd)).chain).map NiBuffer.payload).flatten =
      (w.streams fd).written := (flushed fd).1.chained.symm.trans (handed fd).2
  constructor
  case drained =>
    intro fd shut
    rw [streams] at shut ⊢
    have socket : (w.streams fd).socket = false := (flushed fd).2.2.2.1.symm.trans shut
    exact ⟨(flushed fd).2.2.1.trans (complete.drained fd socket).1, (handed fd).1⟩
  case untouched =>
    intro still
    exact absurd (gone.symm.trans still) (by decide)
  case final => intro; exact exited'.trans exited
  case uploaded =>
    intro reported fd
    have written : (w'.streams fd).written = (w.streams fd).written := by
      rw [streams]
      exact (flushed fd).2.1
    have all : (w'.streams fd).handed = (w.streams fd).written := by
      rw [streams]
      exact (handed fd).2
    refine ⟨all.trans written.symm, ?_⟩
    rw [written, ← complete.untouched running]
    have unreported := sound.unreported running
    unfold reap processNotify at reaped
    dsimp only at reaped
    split at reaped
    · obtain rfl := Option.some.inj reaped
      exact absurd (reported.symm.trans unreported) (by decide)
    · rw [if_pos (answered 0)] at reaped
      obtain ⟨k, stdout, uploaded, data⟩ := uploadOutput_all answered 1 (w.listed .stdout)
        (w.files .stdout) ((w.streams .stdout).flush (reads .stdout)).chain
        (by rw [chained]; exact fits .stdout)
      obtain ⟨k', stderr, uploaded', data'⟩ := uploadOutput_all answered k (w.listed .stderr)
        (w.files .stderr) ((w.streams .stderr).flush (reads .stderr)).chain
        (by rw [chained]; exact fits .stderr)
      simp only [uploaded, uploaded', Option.bind_eq_bind, Option.bind_some, Option.some.injEq] at reaped
      subst reaped
      cases fd with
      | stdout => exact data.trans (congrArg (_ ++ ·) (chained .stdout))
      | stderr => exact data'.trans (congrArg (_ ++ ·) (chained .stderr))

theorem step_complete (sound : w.Sound) (complete : w.Complete files)
    (lossless : w.Lossless act) (moved : step w act = .ok w') : w'.Complete files := by
  cases act with
  | write fd bytes =>
    simp only [step] at moved
    split at moved
    · cases moved
    · rename_i running
      obtain ⟨alive, open_⟩ := not_or.mp running
      cases moved
      refine complete.update ?_ ?_
      · intro shut
        exact absurd (complete.drained fd shut).1 open_
      · intro reported
        have gone : w.reaped = true := by
          cases still : w.reaped with
          | true => rfl
          | false => exact absurd (reported.symm.trans (sound.unreported still)) (by decide)
        exact absurd (complete.final gone) alive
  | close fd =>
    cases moved
    refine complete.update ?_ (by intro; exact ⟨rfl, rfl⟩)
    intro shut
    exact ⟨rfl, (complete.drained fd shut).2⟩
  | poll fd reads hup =>
    simp only [step] at moved
    split at moved
    · rename_i live
      cases moved
      obtain ⟨_, written, closed, drained⟩ := Stream.poll_spec (sound.streams fd) reads hup
      refine complete.update ?_ ?_
      · intro shut
        obtain ⟨closed', empty⟩ := drained lossless live.2.1 shut
        exact ⟨closed.trans closed', empty⟩
      · intro reported
        exact absurd (reported.symm.trans (sound.unreported live.1)) (by decide)
    · cases moved
  | exit =>
    cases moved
    exact { complete with final := by intro; rfl }
  | delete =>
    cases moved
    exact { complete with }
  | reap reads calls =>
    obtain ⟨whole, answered, fits⟩ := lossless
    simp only [step] at moved
    split at moved
    · rename_i dead
      split at moved
      · rename_i reaped
        cases moved
        exact reap_complete sound complete whole answered fits dead.1 dead.2 reaped
      · cases moved
    · cases moved

/-- What the callback is given is always the first part of the output; and where no read before
the end of a pipe was short, every call of the upload was answered and the output fits a
file, all of it was given to the callback and is in its file before the exit is reported. -/
theorem output_uploaded (captured : Bool) (files : Fd → Tmpfile) (listed : Fd → Bool)
    (acts : List OutputAct) (w : Running)
    (ran : Machine.run step (start captured files listed) acts = .ok w) :
    (∀ fd, (w.streams fd).handed <+: (w.streams fd).written) ∧
      (Machine.Along step Lossless (start captured files listed) acts → w.reported = true →
        ∀ fd, (w.streams fd).handed = (w.streams fd).written ∧
          (w.files fd).data = (files fd).data ++ (w.streams fd).written) := by
  have sound : w.Sound := Machine.invariant_run Sound
    (fun _ _ _ sound _ moved => step_sound sound moved) (sound_start captured files listed)
    (Machine.along_true _ acts) ran
  constructor
  · intro fd
    rw [← (sound.streams fd).whole, List.append_assoc]
    exact List.prefix_append _ _
  · intro along
    have kept : w.Sound ∧ w.Complete files :=
      Machine.invariant_run (fun w => w.Sound ∧ w.Complete files)
        (fun _ _ _ kept lossless moved =>
          ⟨step_sound kept.1 moved, step_complete kept.1 kept.2 lossless moved⟩)
        ⟨sound_start captured files listed, complete_start captured files listed⟩ along ran
    exact kept.2.uploaded

/-- Two bytes of output, of which each read gives no more than so many. -/
def twoBytes (n : Nat) : List OutputAct :=
  [.write .stdout [0x68, 0x69], .exit, .reap (fun _ _ => .upTo n) fun _ => true]

def emptyFile : Tmpfile where
  file := { id := 0, name := none, mode := Dbus.fileWrite, inum := 1 }

theorem output_uploaded_two : ∃ w,
    Machine.run step (start false (fun _ => emptyFile) fun _ => true) (twoBytes 4096) = .ok w ∧
      w.reported = true ∧ (w.files .stdout).data = [0x68, 0x69] := by
  obtain ⟨w, ran, view⟩ := Machine.run_view step
    (start false (fun _ => emptyFile) fun _ => true) (twoBytes 4096)
    (fun w => (w.reported, (w.streams .stdout).written)) (true, [0x68, 0x69]) (by decide +kernel)
  obtain ⟨reported, written⟩ := Prod.mk.inj view
  have whole : Stream.Whole fun _ => .upTo 4096 := by
    intro k
    exact ⟨4096, rfl, Nat.le_refl _⟩
  have along : Machine.Along step Lossless (start false (fun _ => emptyFile) fun _ => true)
      (twoBytes 4096) := by
    refine ⟨trivial, fun w₁ first => ?_⟩
    cases first
    refine ⟨trivial, fun w₂ second => ?_⟩
    cases second
    refine ⟨⟨by intro; exact whole, by intro; rfl, ?_⟩, by intros; trivial⟩
    intro fd
    cases fd <;> decide
  obtain ⟨_, data⟩ := (output_uploaded false _ _ _ w ran).2 along reported .stdout
  exact ⟨w, ran, reported, data.trans (by rw [written]; rfl)⟩

/-- The last read gives one byte of two, and the exit is reported without the other one. -/
theorem short_read_loses : ¬ ∀ (captured : Bool) (files : Fd → Tmpfile) (listed : Fd → Bool)
    (acts : List OutputAct) (w : Running),
    Machine.run step (start captured files listed) acts = .ok w → w.reported = true →
      ∀ fd, (w.streams fd).handed = (w.streams fd).written ∧
        (w.files fd).data = (files fd).data ++ (w.streams fd).written := by
  intro claimed
  obtain ⟨w, ran, view⟩ := Machine.run_view step (start false (fun _ => emptyFile) fun _ => true) (twoBytes 1)
    (fun w => (w.reported, (w.streams .stdout).written, (w.streams .stdout).handed))
    (true, [0x68, 0x69], [0x68]) (by decide +kernel)
  obtain ⟨reported, rest⟩ := Prod.mk.inj view
  obtain ⟨written, handed⟩ := Prod.mk.inj rest
  have all := (claimed false _ _ _ w ran reported .stdout).1
  rw [written, handed] at all
  exact absurd all (by decide)

end Running

end Testbus
