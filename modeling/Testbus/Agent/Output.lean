import Testbus.Agent.Files

namespace Testbus

open Lib

/-- What one `read(2)` from a pipe that has data or is closed does: it gives no more than so
many bytes of what there is, or it fails. -/
inductive Read
  | upTo (n : Nat)
  | failed
  deriving DecidableEq

def processBufferSize : Nat := 4096

def lowWaterMark : Nat := 4096

/-- `struct ni_process_buffer` of an output, and the pipe it is read from: `pending` is what
the kernel holds, and `closed` says that the other end is. `chain` are the buffers that the
callback has taken. `written` and `handed` are a record of the run: all that the child has
written, and what the callback was given. -/
structure Stream where
  written : Bytes := []
  closed : Bool
  pending : Bytes := []
  wbuf : Option NiBuffer := none
  socket : Bool
  active : Bool := socket
  chain : List NiBuffer := []
  handed : Bytes := []

namespace Stream

/-- `__ni_process_notify_buffer`: the callback of the agent takes the buffer. -/
def notify (s : Stream) : Stream :=
  match s.wbuf with
  | none => s
  | some bp =>
    { s with wbuf := none, chain := s.chain ++ [bp], handed := s.handed ++ bp.payload }

theorem tailroom_fill_nil (bp : NiBuffer) : (bp.fill []).tailroom = bp.tailroom := by
  simp [NiBuffer.fill, NiBuffer.pushTail, NiBuffer.store, NiBuffer.tailroom]

theorem notify_wbuf (s : Stream) : s.notify.wbuf = none := by
  unfold notify
  split
  · assumption
  · rfl

theorem notify_pending (s : Stream) : s.notify.pending = s.pending := by
  unfold notify
  split <;> rfl

/-- `__ni_process_output_recv`, from a number of reads on. -/
def receive (reads : Nat → Read) (i : Nat) (s : Stream) : Stream :=
  let bp := s.wbuf.getD (NiBuffer.new processBufferSize)
  match reads i with
  | .failed => { s with wbuf := some bp, active := false }
  | .upTo n =>
    if s.pending = [] ∧ s.closed = false ∧ bp.tailroom ≠ 0 then { s with wbuf := some bp }
    else
      let bytes := s.pending.take (min bp.tailroom (max n 1))
      let filled := bp.fill bytes
      let s' := { s with wbuf := some filled, pending := s.pending.drop bytes.length }
      if filled.tailroom = 0 then receive reads (i + 1) s'.notify
      else if lowWaterMark ≤ filled.count then s'.notify
      else s'
termination_by s.pending.length + if s.wbuf.map NiBuffer.tailroom = some 0 then 1 else 0
decreasing_by
  rename_i full
  rw [notify_wbuf, notify_pending, if_neg (by simp)]
  simp only [List.length_drop]
  by_cases nothing : bytes = []
  · have room : bp.tailroom = 0 := by
      have same := tailroom_fill_nil bp
      rw [← nothing] at same
      exact same.symm.trans full
    cases kept : s.wbuf with
    | none =>
      have fresh : bp = NiBuffer.new processBufferSize := by
        simp [show bp = s.wbuf.getD _ from rfl, kept]
      rw [fresh] at room
      exact absurd room (by decide)
    | some old =>
      have same : bp = old := by simp [show bp = s.wbuf.getD _ from rfl, kept]
      rw [same] at room
      simp [room]
  · have some' : 0 < bytes.length := List.length_pos_iff.mpr nothing
    have most : bytes.length ≤ s.pending.length := by
      rw [show bytes = s.pending.take _ from rfl, List.length_take]
      exact Nat.min_le_right _ _
    change s.pending.length - bytes.length + 0 < _
    omega

/-- `__ni_process_flush_buffer`. -/
def flush (reads : Nat → Read) (s : Stream) : Stream :=
  (if s.socket then s.receive reads 0 else s).notify

def hangup (s : Stream) : Stream := { s with socket := false, active := false }

/-- The pipe is readable if there is data in it or its other end is closed. -/
def pollIn (reads : Nat → Read) (s : Stream) : Stream :=
  if s.pending ≠ [] ∨ s.closed then s.receive reads 0 else s

/-- One round of the main loop; the kernel reports a hangup only when the other end is
closed. -/
def poll (reads : Nat → Read) (hup : Bool) (s : Stream) : Stream :=
  if hup ∧ s.closed then (s.pollIn reads).hangup else s.pollIn reads

/-- The reads give all there is, as far as there is room for it. -/
def Whole (reads : Nat → Read) : Prop := ∀ k, ∃ n, reads k = .upTo n ∧ processBufferSize ≤ n

/-- What waits in the buffer that is being filled. -/
def waiting (s : Stream) : Bytes := (s.wbuf.map NiBuffer.contents).getD []

/-- The invariant of an output. -/
structure Sound (s : Stream) : Prop where
  buffer : ∀ bp, s.wbuf = some bp → bp.WellFormed ∧ bp.size = processBufferSize
  whole : s.handed ++ s.waiting ++ s.pending = s.written
  chained : s.handed = (s.chain.map NiBuffer.payload).flatten

variable {s : Stream} {reads : Nat → Read}

theorem payload_eq {bp : NiBuffer} (wf : bp.WellFormed) (size : bp.size = processBufferSize) :
    bp.payload = bp.contents ∧ bp.tailroom = processBufferSize - bp.tail := by
  have inside := wf.inside
  have small : processBufferSize = 4096 := rfl
  constructor
  · rw [NiBuffer.payload, NiBuffer.count_eq (by rw [NiBuffer.length_contents]; omega), NiBuffer.length_contents]
    rfl
  · unfold NiBuffer.tailroom
    split <;> omega

theorem Sound.notify (sound : s.Sound) : s.notify.Sound ∧ s.notify.waiting = [] := by
  unfold Stream.notify
  split
  · rename_i empty
    exact ⟨sound, by simp [waiting, empty]⟩
  · rename_i bp filling
    obtain ⟨wf, size⟩ := sound.buffer bp filling
    have payload := (payload_eq wf size).1
    refine ⟨⟨by simp, ?_, ?_⟩, rfl⟩
    · have whole := sound.whole
      simp only [waiting, filling, Option.map_some, Option.getD_some] at whole
      simpa [waiting, payload] using whole
    · simp [sound.chained]

theorem notify_same (s : Stream) : s.notify.written = s.written ∧ s.notify.closed = s.closed ∧
    s.notify.socket = s.socket := by
  unfold Stream.notify
  split <;> exact ⟨rfl, rfl, rfl⟩

theorem Sound.filling (sound : s.Sound) :
    (s.wbuf.getD (NiBuffer.new processBufferSize)).WellFormed ∧
      (s.wbuf.getD (NiBuffer.new processBufferSize)).size = processBufferSize ∧
      (s.wbuf.getD (NiBuffer.new processBufferSize)).contents = s.waiting := by
  cases kept : s.wbuf with
  | none =>
    refine ⟨NiBuffer.wellFormed_new _, rfl, ?_⟩
    rw [Stream.waiting, kept]
    exact NiBuffer.contents_new _
  | some bp =>
    obtain ⟨wf, size⟩ := sound.buffer bp kept
    refine ⟨wf, size, ?_⟩
    rw [Stream.waiting, kept]
    rfl

theorem Sound.start {active : Bool} (sound : s.Sound) :
    Sound { s with wbuf := some (s.wbuf.getD (NiBuffer.new processBufferSize)), active := active } := by
  obtain ⟨wf, size, contents⟩ := sound.filling
  refine ⟨?_, ?_, sound.chained⟩
  · intro bp same
    obtain rfl := Option.some.inj same
    exact ⟨wf, size⟩
  · have whole := sound.whole
    rw [← contents] at whole
    exact whole

/-- One read: its bytes go from the pipe to the buffer, and it takes them all unless it is
short or the buffer gets full. -/
theorem Sound.read {bp : NiBuffer} (sound : s.Sound) (n : Nat) (wf : bp.WellFormed)
    (size : bp.size = processBufferSize) (contents : bp.contents = s.waiting) :
    let bytes := s.pending.take (min bp.tailroom (max n 1))
    Sound { s with wbuf := some (bp.fill bytes), pending := s.pending.drop bytes.length } ∧
      (processBufferSize ≤ n → (bp.fill bytes).tailroom ≠ 0 → s.pending.drop bytes.length = []) := by
  intro bytes
  have room := (payload_eq wf size).2
  have short : bytes.length ≤ bp.tailroom := by
    rw [show bytes = s.pending.take _ from rfl, List.length_take]
    omega
  have fits : bytes.length ≤ bp.size - bp.tail := Nat.le_trans short (NiBuffer.tailroom_le bp)
  have wf' := NiBuffer.wellFormed_fill wf fits
  have size' : (bp.fill bytes).size = processBufferSize := (NiBuffer.size_fill bp bytes).trans size
  constructor
  · refine ⟨?_, ?_, sound.chained⟩
    · intro other same
      obtain rfl := Option.some.inj same
      exact ⟨wf', size'⟩
    · have moved : bytes ++ s.pending.drop bytes.length = s.pending := by
        have cut : s.pending.take bytes.length = bytes := by
          simp [show bytes = s.pending.take _ from rfl]
        calc bytes ++ s.pending.drop bytes.length
          _ = s.pending.take bytes.length ++ s.pending.drop bytes.length := by rw [cut]
          _ = s.pending := List.take_append_drop _ _
      calc s.handed ++ (bp.fill bytes).contents ++ s.pending.drop bytes.length
        _ = s.handed ++ (s.waiting ++ bytes) ++ s.pending.drop bytes.length := by
          rw [NiBuffer.contents_fill wf fits, contents]
        _ = s.handed ++ s.waiting ++ (bytes ++ s.pending.drop bytes.length) := by
          simp only [List.append_assoc]
        _ = s.written := by rw [moved, sound.whole]
  · intro large notFull
    have tail := (NiBuffer.fill_head wf fits).2
    have room' := (payload_eq wf' size').2
    have small : processBufferSize = 4096 := rfl
    have some' : bytes.length < bp.tailroom := by omega
    rw [show bytes = s.pending.take _ from rfl, List.length_take] at some' ⊢
    apply List.drop_eq_nil_of_le
    omega

/-- Reading moves bytes from the pipe to the buffers; it stops short of the end only where a
read does. -/
theorem receive_spec (reads : Nat → Read) (i : Nat) (s : Stream) (sound : s.Sound) :
    (s.receive reads i).Sound ∧ (s.receive reads i).written = s.written ∧
      (s.receive reads i).closed = s.closed ∧ (s.receive reads i).socket = s.socket ∧
      (Whole reads → (s.receive reads i).pending = []) := by
  fun_induction receive reads i s with
  | case1 i s bp failed =>
    refine ⟨sound.start, rfl, rfl, rfl, ?_⟩
    intro whole
    obtain ⟨n, gives, _⟩ := whole i
    cases failed.symm.trans gives
  | case2 i s bp n gives idle =>
    exact ⟨sound.start, rfl, rfl, rfl, by intro; exact idle.1⟩
  | case3 i s bp n gives busy bytes filled s' full ih =>
    obtain ⟨wf, size, contents⟩ := sound.filling
    obtain ⟨sound', _⟩ := sound.read n wf size contents
    obtain ⟨written, closed, socket⟩ := notify_same s'
    obtain ⟨final, written', closed', socket', drained⟩ := ih (Sound.notify sound').1
    exact ⟨final, written'.trans written, closed'.trans closed, socket'.trans socket, drained⟩
  | case4 i s bp n gives busy bytes filled s' notFull high =>
    obtain ⟨wf, size, contents⟩ := sound.filling
    obtain ⟨sound', drained⟩ := sound.read n wf size contents
    obtain ⟨written, closed, socket⟩ := notify_same s'
    refine ⟨(Sound.notify sound').1, written, closed, socket, ?_⟩
    intro whole
    obtain ⟨n', gives', large⟩ := whole i
    obtain rfl := Read.upTo.inj (gives.symm.trans gives')
    rw [notify_pending]
    exact drained large notFull
  | case5 i s bp n gives busy bytes filled s' notFull low =>
    obtain ⟨wf, size, contents⟩ := sound.filling
    obtain ⟨sound', drained⟩ := sound.read n wf size contents
    refine ⟨sound', rfl, rfl, rfl, ?_⟩
    intro whole
    obtain ⟨n', gives', large⟩ := whole i
    obtain rfl := Read.upTo.inj (gives.symm.trans gives')
    exact drained large notFull

theorem pollIn_spec (sound : s.Sound) (reads : Nat → Read) :
    (s.pollIn reads).Sound ∧ (s.pollIn reads).written = s.written ∧
      (s.pollIn reads).closed = s.closed ∧ (s.pollIn reads).socket = s.socket ∧
      (Whole reads → s.closed = true → (s.pollIn reads).pending = []) := by
  obtain ⟨sound', written, closed, socket, drained⟩ := receive_spec reads 0 s sound
  unfold pollIn
  split
  · exact ⟨sound', written, closed, socket, fun whole _ => drained whole⟩
  · rename_i idle
    exact ⟨sound, rfl, rfl, rfl, fun _ closed => absurd (Or.inr closed) idle⟩

theorem poll_spec (sound : s.Sound) (reads : Nat → Read) (hup : Bool) :
    (s.poll reads hup).Sound ∧ (s.poll reads hup).written = s.written ∧ (s.poll reads hup).closed = s.closed ∧
      ((hup = true → Whole reads) → s.socket = true → (s.poll reads hup).socket = false →
        s.closed = true ∧ (s.poll reads hup).pending = []) := by
  obtain ⟨sound', written, closed, socket, drained⟩ := pollIn_spec sound reads
  unfold poll
  split
  · rename_i hung
    refine ⟨⟨sound'.buffer, sound'.whole, sound'.chained⟩, written, closed, ?_⟩
    intro whole _ _
    exact ⟨hung.2, drained (whole hung.1) hung.2⟩
  · refine ⟨sound', written, closed, ?_⟩
    intro _ open_ shut
    exact absurd (open_.symm.trans (socket.symm.trans shut)) (by decide)

theorem flush_spec (sound : s.Sound) (reads : Nat → Read) :
    (s.flush reads).Sound ∧ (s.flush reads).written = s.written ∧
      (s.flush reads).closed = s.closed ∧ (s.flush reads).socket = s.socket ∧
      (Whole reads → (s.socket = false → s.pending = []) →
        (s.flush reads).pending = [] ∧ (s.flush reads).handed = s.written) := by
  have last : ∀ s' : Stream, s'.Sound → s'.written = s.written → s'.closed = s.closed →
      s'.socket = s.socket → s'.notify.Sound ∧ s'.notify.written = s.written ∧
        s'.notify.closed = s.closed ∧ s'.notify.socket = s.socket ∧
        (s'.pending = [] → s'.notify.pending = [] ∧ s'.notify.handed = s.written) := by
    intro s' sound' written closed socket
    obtain ⟨final, empty⟩ := Sound.notify sound'
    obtain ⟨written', closed', socket'⟩ := notify_same s'
    refine ⟨final, written'.trans written, closed'.trans closed, socket'.trans socket, ?_⟩
    intro drained
    have pending := (notify_pending s').trans drained
    have whole := final.whole
    rw [empty, pending, List.append_nil, List.append_nil] at whole
    exact ⟨pending, whole.trans (written'.trans written)⟩
  unfold flush
  split
  · obtain ⟨sound', written, closed, socket, drained⟩ := receive_spec reads 0 s sound
    obtain ⟨final, written', closed', socket', empty⟩ := last _ sound' written closed socket
    exact ⟨final, written', closed', socket', fun whole _ => empty (drained whole)⟩
  · rename_i shut
    obtain ⟨final, written', closed', socket', empty⟩ := last s sound rfl rfl rfl
    exact ⟨final, written', closed', socket', fun _ drained => empty (drained (Bool.eq_false_iff.mpr shut))⟩

end Stream

end Testbus
