import Testbus.Buffer
import Testbus.Lib.Cells

namespace Testbus.Util

open Lib Machine
open Cells (Fault)

/-- What a call returns. A pointer into the storage is the offset that it points to. -/
inductive BufferAnswer
  | none
  | status (value : Int)
  | char (value : Option UInt8)
  | bytes (value : Bytes)
  | place (offset : Option Nat)

/-- `len` bytes from an offset on are read or written. -/
def touch (bp : NiBuffer) (offset len : Nat) : Except Fault Unit :=
  if offset + len ≤ bp.size then .ok () else .error .outside

/-- The first `len` bytes of the caller's memory. -/
def given (data : Nat → UInt8) (len : Nat) : Bytes := (List.range len).map data

def niBufferPut (bp : NiBuffer) (data : Option (Nat → UInt8)) (len : Nat) :
    Except Fault (BufferAnswer × NiBuffer) :=
  if bp.size < (bp.tail + len) % 2 ^ 64 then .ok (.status (-1), { bp with overflow := true })
  else
    match data with
    | none => .ok (.status 0, { bp with tail := (bp.tail + len) % 2 ^ 64 })
    | some data => do
      touch bp bp.tail len
      .ok (.status 0, { bp.store bp.tail (given data len) with tail := (bp.tail + len) % 2 ^ 64 })

def niBufferPutc (bp : NiBuffer) (cc : UInt8) : Except Fault (BufferAnswer × NiBuffer) := do
  let (_, bp) ← niBufferPut bp (some fun _ => cc) 1
  .ok (.none, bp)

def niBufferPad (bp : NiBuffer) (minSize : Nat) (padbyte : UInt8) : Except Fault (BufferAnswer × NiBuffer) :=
  if minSize ≤ bp.tail then .ok (.none, bp)
  else do
    touch bp bp.tail (minSize - bp.tail)
    let padding := List.replicate (minSize - bp.tail) padbyte
    .ok (.none, { bp.store bp.tail padding with tail := minSize })

def niBufferGet (bp : NiBuffer) (len : Nat) : Except Fault (BufferAnswer × NiBuffer) :=
  if bp.tail < (bp.head + len) % 2 ^ 64 then .ok (.status (-1), { bp with underflow := true })
  else do
    touch bp bp.head len
    .ok (.bytes (bp.load bp.head len), { bp with head := (bp.head + len) % 2 ^ 64 })

def niBufferGetc (bp : NiBuffer) : Except Fault (BufferAnswer × NiBuffer) :=
  if bp.tail ≤ bp.head then .ok (.char none, bp)
  else do
    touch bp bp.head 1
    .ok (.char (some (bp.base bp.head)), { bp with head := bp.head + 1 })

/-- The value of a `char`, which is signed. -/
def charValue (cc : UInt8) : Int := if cc < 128 then cc.toNat else cc.toNat - 256

def niBufferUngetc (bp : NiBuffer) (cc : UInt8) : Except Fault (BufferAnswer × NiBuffer) :=
  if bp.head = 0 then .ok (.status (-1), bp)
  else do
    touch bp (bp.head - 1) 1
    if ((bp.base (bp.head - 1)).toNat : Int) ≠ charValue cc then .ok (.status (-1), bp)
    else .ok (.status 0, { bp with head := bp.head - 1 })

def niBufferReserveHead (bp : NiBuffer) (headroom : Nat) : BufferAnswer × NiBuffer :=
  if bp.head ≠ bp.tail then (.status (-1), bp) else (.status 0, bp.reserveHead headroom)

/-- The storage that is not the buffer's own is copied to a new one. -/
def niBufferEnsureTailroom (bp : NiBuffer) (minRoom : Nat) : Except Fault (BufferAnswer × NiBuffer) :=
  if minRoom ≤ bp.tailroom then .ok (.none, bp)
  else if ¬ bp.allocated ∧ (bp.size + minRoom) % 2 ^ 64 < bp.size then .error .outside
  else .ok (.none, { bp with size := (bp.size + minRoom) % 2 ^ 64, allocated := true })

inductive BufferCall
  | clear
  | put (data : Option (Nat → UInt8)) (len : UInt64)
  | putc (cc : UInt8)
  | pad (minSize : UInt64) (padbyte : UInt8)
  | get (len : UInt64)
  | getc
  | ungetc (cc : UInt8)
  | reserveHead (headroom : UInt64)
  | pushHead (count : UInt64)
  | pushTail (count : UInt64)
  | pullHead (count : UInt64)
  | ensureTailroom (minRoom : UInt32)

def BufferCall.apply (bp : NiBuffer) : BufferCall → Except Fault (BufferAnswer × NiBuffer)
  | .clear => .ok (.none, { bp with head := 0, tail := 0 })
  | .put data len => niBufferPut bp data len.toNat
  | .putc cc => niBufferPutc bp cc
  | .pad minSize padbyte => niBufferPad bp minSize.toNat padbyte
  | .get len => niBufferGet bp len.toNat
  | .getc => niBufferGetc bp
  | .ungetc cc => niBufferUngetc bp cc
  | .reserveHead headroom => .ok (niBufferReserveHead bp headroom.toNat)
  | .pushHead count => .ok ((bp.pushHead count.toNat).map .place id)
  | .pushTail count => .ok ((bp.pushTail count.toNat).map .place id)
  | .pullHead count => .ok ((bp.pullHead count.toNat).map .place id)
  | .ensureTailroom minRoom => niBufferEnsureTailroom bp minRoom.toNat

/-- A buffer, with the byte that `ni_buffer_getc` has just returned and the buffer as it was. -/
structure HeldBuffer where
  buffer : NiBuffer
  got : Option (UInt8 × NiBuffer) := none

def HeldBuffer.step (s : HeldBuffer) (call : BufferCall) : Except Fault HeldBuffer := do
  let (answer, next) ← call.apply s.buffer
  .ok ⟨next, match answer with
    | .char (some cc) => some (cc, s.buffer)
    | _ => none⟩

section Meaning

variable (bp next : NiBuffer) (answer : BufferAnswer)

/-- Nothing but a flag has changed. -/
def Unchanged : Prop :=
  next.base = bp.base ∧ next.head = bp.head ∧ next.tail = bp.tail ∧ next.size = bp.size

/-- The bytes are appended, or the buffer is unchanged. -/
def Appends (bytes : Bytes) : Prop := next.contents = bp.contents ++ bytes ∨ Unchanged bp next

/-- What a call does to the bytes that are held; a place that is pushed takes any bytes of its
length. -/
def BufferCall.Does : BufferCall → Prop
  | .clear => next.contents = []
  | .put (some data) len => Appends bp next (given data len.toNat) ∧
      (answer = .status 0 → next.contents = bp.contents ++ given data len.toNat)
  | .put none len => Appends bp next (bp.load bp.tail len.toNat)
  | .putc cc => Appends bp next [cc]
  | .pad minSize padbyte =>
    Appends bp next (List.replicate (minSize.toNat - bp.tail) padbyte)
  | .get len => (answer = .bytes (bp.contents.take len.toNat) ∧ len.toNat ≤ bp.contents.length ∧
      next.contents = bp.contents.drop len.toNat) ∨ answer = .status (-1) ∧ Unchanged bp next
  | .getc => answer = .char bp.contents.head? ∧ next.contents = bp.contents.tail
  | .ungetc cc => (answer = .status 0 ∧ next.contents = cc :: bp.contents) ∨
      answer = .status (-1) ∧ Unchanged bp next
  | .reserveHead _ | .ensureTailroom _ => next.contents = bp.contents
  | .pushHead count => (answer = .place (some next.head) ∧ ∀ bytes : Bytes,
      bytes.length = count.toNat → (next.store next.head bytes).contents = bytes ++ bp.contents) ∨
      answer = .place none ∧ Unchanged bp next
  | .pushTail count => (answer = .place (some bp.tail) ∧ ∀ bytes : Bytes,
      bytes.length = count.toNat → (next.store bp.tail bytes).contents = bp.contents ++ bytes) ∨
      answer = .place none ∧ Unchanged bp next
  | .pullHead count => (answer = .place (some bp.head) ∧ count.toNat ≤ bp.contents.length ∧
      next.contents = bp.contents.drop count.toNat) ∨ answer = .place none ∧ Unchanged bp next

end Meaning

/-- The call stays inside of the storage, keeps the head in front of the tail and the tail in front
of the end, and does what it should. A byte that was just got can be put back. -/
def BufferCall.Faithful (s : HeldBuffer) (call : BufferCall) : Prop :=
  ∃ answer next, call.apply s.buffer = .ok (answer, next) ∧ next.WellFormed ∧
    call.Does s.buffer next answer ∧
    ∀ cc before, s.got = some (cc, before) → call = .ungetc cc → next = before

/-- The sum of an offset and a length does not wrap, or is refused even so. -/
def Counts (offset len limit : Nat) : Prop :=
  offset + len < 2 ^ 64 ∨ limit < (offset + len) % 2 ^ 64

/-- No sum wraps into the bounds, padding and headroom fit into the storage, storage that grows
holds what it held, and what is put back after it was got is less than 128. -/
def BufferCall.Fits (s : HeldBuffer) : BufferCall → Prop
  | .put _ len => Counts s.buffer.tail len.toNat s.buffer.size
  | .putc _ => Counts s.buffer.tail 1 s.buffer.size
  | .pad minSize _ => minSize.toNat ≤ s.buffer.size
  | .get len => Counts s.buffer.head len.toNat s.buffer.tail
  | .ungetc cc => 128 ≤ cc → ∀ before, s.got ≠ some (cc, before)
  | .reserveHead headroom => s.buffer.head = s.buffer.tail →
      (s.buffer.tail + headroom.toNat) % 2 ^ 64 ≤ s.buffer.size
  | .ensureTailroom minRoom => s.buffer.tailroom < minRoom.toNat →
      (if s.buffer.allocated then s.buffer.tail else s.buffer.size) ≤
        (s.buffer.size + minRoom.toNat) % 2 ^ 64
  | .clear | .getc | .pushHead _ | .pushTail _ | .pullHead _ => True

section Steps

variable {bp next : NiBuffer} {s : HeldBuffer} {call : BufferCall}

theorem touch_ok (inside : offset + len ≤ bp.size) : touch bp offset len = .ok () := if_pos inside

theorem touch_error (outside : bp.size < offset + len) :
    touch bp offset len = .error .outside := if_neg (Nat.not_le.mpr outside)

theorem Unchanged.flags (overflow underflow : Bool) : Unchanged bp { bp with overflow, underflow } := ⟨rfl, rfl, rfl, rfl⟩

theorem faithful_of (ran : call.apply s.buffer = .ok (answer, next)) (wf : next.WellFormed)
    (does : call.Does s.buffer next answer) (other : ∀ cc, call ≠ .ungetc cc) : call.Faithful s :=
  ⟨answer, next, ran, wf, does, fun cc _ _ same => absurd same (other cc)⟩

theorem not_faithful (fault : Fault) (stopped : call.apply s.buffer = .error fault) : ¬ call.Faithful s := by
  rintro ⟨answer, next, ran, -⟩
  cases stopped.symm.trans ran

/-- A length that counts is refused, or what it counts is within the limit. -/
theorem Counts.cases (counts : Counts offset len limit) :
    limit < (offset + len) % 2 ^ 64 ∨
      ¬ limit < (offset + len) % 2 ^ 64 ∧ (offset + len) % 2 ^ 64 = offset + len ∧ offset + len ≤ limit := by
  rcases counts with small | refused
  · rw [Nat.mod_eq_of_lt small]
    omega
  · exact .inl refused

theorem not_counts (wraps : ¬ Counts offset len limit) : ¬ limit < (offset + len) % 2 ^ 64 ∧ 2 ^ 64 ≤ offset + len := by
  rw [Counts, not_or] at wraps
  exact ⟨wraps.2, Nat.not_lt.mp wraps.1⟩

theorem length_given (data : Nat → UInt8) (len : Nat) : (given data len).length = len := by
  simp [given]

/-- Bytes that there is room for are appended. -/
theorem appended (wf : bp.WellFormed) (bytes : Bytes) (room : bp.tail + bytes.length ≤ bp.size) :
    ({ bp.store bp.tail bytes with tail := bp.tail + bytes.length } : NiBuffer).WellFormed ∧
      ({ bp.store bp.tail bytes with tail := bp.tail + bytes.length } : NiBuffer).contents = bp.contents ++ bytes := by
  have free : bytes.length ≤ bp.size - bp.tail := by omega
  have same : ({ bp.store bp.tail bytes with tail := bp.tail + bytes.length } : NiBuffer) = bp.fill bytes := by
    rw [← NiBuffer.put_eq_fill wf free, NiBuffer.put, if_neg (by omega)]
  rw [same]
  exact ⟨NiBuffer.wellFormed_fill wf free, NiBuffer.contents_fill wf free⟩

/-- The tail moves over what the storage holds behind it. -/
theorem extended (wf : bp.WellFormed) (count : Nat) :
    ({ bp with tail := bp.tail + count } : NiBuffer).contents = bp.contents ++ bp.load bp.tail count := by
  have ordered := wf.ordered
  have split : bp.tail + count - bp.head = (bp.tail - bp.head) + count := by omega
  have join : bp.head + (bp.tail - bp.head) = bp.tail := by omega
  change bp.load bp.head (bp.tail + count - bp.head) = _
  rw [split, NiBuffer.load_add, join]
  rfl

/-- The head moves back over what the storage holds in front of it. -/
theorem uncovered (wf : bp.WellFormed) (room : count ≤ bp.head) :
    ({ bp with head := bp.head - count } : NiBuffer).contents = bp.load (bp.head - count) count ++ bp.contents := by
  have ordered := wf.ordered
  have split : bp.tail - (bp.head - count) = count + (bp.tail - bp.head) := by omega
  have join : bp.head - count + count = bp.head := by omega
  change bp.load (bp.head - count) (bp.tail - (bp.head - count)) = _
  rw [split, NiBuffer.load_add, join]
  rfl

theorem put_iff (wf : s.buffer.WellFormed) (small : s.buffer.size < 2 ^ 64) (data : Option (Nat → UInt8)) (len : UInt64) :
    (BufferCall.put data len).Faithful s ↔ Counts s.buffer.tail len.toNat s.buffer.size := by
  have ordered := wf.ordered
  have inside := wf.inside
  have bound := len.toNat_lt
  by_cases counts : Counts s.buffer.tail len.toNat s.buffer.size
  · refine iff_of_true ?_ counts
    rcases counts.cases with refused | ⟨taken, exact_, room⟩
    · refine faithful_of (if_pos refused) ⟨wf.ordered, wf.inside⟩ ?_ nofun
      cases data with
      | none => exact .inr (.flags _ _)
      | some data => exact ⟨.inr (.flags _ _), nofun⟩
    · cases data with
      | none =>
        refine faithful_of (if_neg taken) ?_ ?_ nofun
        · exact ⟨by simp only; omega, by simp only; omega⟩
        · rw [exact_]
          exact .inl (extended wf _)
      | some data =>
        obtain ⟨wf', held⟩ := appended wf (given data len.toNat) (by rwa [length_given])
        rw [length_given, ← exact_] at wf' held
        have ran : (BufferCall.put (some data) len).apply s.buffer = .ok (.status 0,
            { s.buffer.store s.buffer.tail (given data len.toNat) with
              tail := (s.buffer.tail + len.toNat) % 2 ^ 64 }) := by
          simp only [BufferCall.apply, niBufferPut, if_neg taken, touch_ok room]
          rfl
        exact faithful_of ran wf' ⟨.inl held, fun _ => held⟩ nofun
  · refine iff_of_false ?_ counts
    obtain ⟨taken, wraps⟩ := not_counts counts
    cases data with
    | some data =>
      refine not_faithful .outside ?_
      simp only [BufferCall.apply, niBufferPut, if_neg taken,
        touch_error (show s.buffer.size < s.buffer.tail + len.toNat by omega)]
      rfl
    | none =>
      rintro ⟨answer, next, ran, -, does, -⟩
      cases (if_neg taken).symm.trans ran
      have shorter : (s.buffer.tail + len.toNat) % 2 ^ 64 < s.buffer.tail := by omega
      rcases does with appended | ⟨-, -, same, -⟩
      · have lengths := congrArg List.length appended
        simp only [NiBuffer.length_contents, List.length_append, NiBuffer.length_load] at lengths
        omega
      · simp only at same
        omega

theorem putc_iff (wf : s.buffer.WellFormed) (small : s.buffer.size < 2 ^ 64) (cc : UInt8) :
    (BufferCall.putc cc).Faithful s ↔ Counts s.buffer.tail 1 s.buffer.size := by
  have inside := wf.inside
  by_cases counts : Counts s.buffer.tail 1 s.buffer.size
  · refine iff_of_true ?_ counts
    rcases counts.cases with refused | ⟨taken, exact_, room⟩
    · have ran : (BufferCall.putc cc).apply s.buffer = .ok (.none, { s.buffer with overflow := true }) := by
        simp only [BufferCall.apply, niBufferPutc, niBufferPut, if_pos refused]
        rfl
      exact faithful_of ran ⟨wf.ordered, wf.inside⟩ (.inr (.flags _ _)) nofun
    · obtain ⟨wf', held⟩ := appended wf [cc] room
      have ran : (BufferCall.putc cc).apply s.buffer = .ok (.none,
          { s.buffer.store s.buffer.tail [cc] with tail := s.buffer.tail + 1 }) := by
        simp only [BufferCall.apply, niBufferPutc, niBufferPut, if_neg taken, touch_ok room]
        rw [exact_]
        rfl
      exact faithful_of ran wf' (.inl held) nofun
  · refine iff_of_false (not_faithful .outside ?_) counts
    obtain ⟨taken, wraps⟩ := not_counts counts
    simp only [BufferCall.apply, niBufferPutc, niBufferPut, if_neg taken,
      touch_error (show s.buffer.size < s.buffer.tail + 1 by omega)]
    rfl

theorem pad_iff (wf : s.buffer.WellFormed) (minSize : UInt64) (padbyte : UInt8) :
    (BufferCall.pad minSize padbyte).Faithful s ↔ minSize.toNat ≤ s.buffer.size := by
  have inside := wf.inside
  by_cases enough : minSize.toNat ≤ s.buffer.tail
  · refine iff_of_true ?_ (by omega)
    exact faithful_of (if_pos enough) wf (.inr ⟨rfl, rfl, rfl, rfl⟩) nofun
  have join : s.buffer.tail + (minSize.toNat - s.buffer.tail) = minSize.toNat := by omega
  by_cases room : minSize.toNat ≤ s.buffer.size
  · refine iff_of_true ?_ room
    obtain ⟨wf', held⟩ := appended wf (List.replicate (minSize.toNat - s.buffer.tail) padbyte)
      (by rwa [List.length_replicate, join])
    rw [List.length_replicate, join] at wf' held
    have ran : (BufferCall.pad minSize padbyte).apply s.buffer = .ok (.none,
        { s.buffer.store s.buffer.tail (List.replicate (minSize.toNat - s.buffer.tail) padbyte) with
          tail := minSize.toNat }) := by
      simp only [BufferCall.apply, niBufferPad, if_neg enough, touch_ok (join ▸ room)]
      rfl
    exact faithful_of ran wf' (.inl held) nofun
  · refine iff_of_false (not_faithful .outside ?_) room
    simp only [BufferCall.apply, niBufferPad, if_neg enough,
      touch_error (show s.buffer.size < s.buffer.tail + (minSize.toNat - s.buffer.tail) by omega)]
    rfl

theorem get_iff (wf : s.buffer.WellFormed) (small : s.buffer.size < 2 ^ 64) (len : UInt64) :
    (BufferCall.get len).Faithful s ↔ Counts s.buffer.head len.toNat s.buffer.tail := by
  have inside := wf.inside
  by_cases counts : Counts s.buffer.head len.toNat s.buffer.tail
  · refine iff_of_true ?_ counts
    rcases counts.cases with refused | ⟨taken, exact_, held⟩
    · exact faithful_of (if_pos refused) ⟨wf.ordered, wf.inside⟩ (.inr ⟨rfl, .flags _ _⟩) nofun
    · have enough : len.toNat ≤ s.buffer.contents.length := by
        rw [NiBuffer.length_contents]
        omega
      have ran : (BufferCall.get len).apply s.buffer = .ok
          (.bytes (s.buffer.load s.buffer.head len.toNat), (s.buffer.pullHead len.toNat).2) := by
        rw [NiBuffer.pullHead_eq wf enough]
        simp only [BufferCall.apply, niBufferGet, if_neg taken, touch_ok (Nat.le_trans held inside)]
        rw [exact_]
        rfl
      refine faithful_of ran (NiBuffer.wellFormed_pullHead wf _) (.inl ⟨?_, enough, ?_⟩) nofun
      · rw [NiBuffer.load_head enough]
      · exact NiBuffer.contents_pullHead wf enough
  · refine iff_of_false (not_faithful .outside ?_) counts
    obtain ⟨taken, wraps⟩ := not_counts counts
    simp only [BufferCall.apply, niBufferGet, if_neg taken,
      touch_error (show s.buffer.size < s.buffer.head + len.toNat by omega)]
    rfl

theorem getc_eq (wf : s.buffer.WellFormed) (some_ : s.buffer.head < s.buffer.tail) :
    BufferCall.getc.apply s.buffer = .ok (.char (some (s.buffer.base s.buffer.head)),
      { s.buffer with head := s.buffer.head + 1 }) := by
  have inside := wf.inside
  simp only [BufferCall.apply, niBufferGetc, if_neg (Nat.not_le.mpr some_),
    touch_ok (show s.buffer.head + 1 ≤ s.buffer.size by omega)]
  rfl

theorem getc_faithful (wf : s.buffer.WellFormed) : BufferCall.getc.Faithful s := by
  by_cases some_ : s.buffer.head < s.buffer.tail
  · have first : s.buffer.contents = s.buffer.base s.buffer.head ::
        ({ s.buffer with head := s.buffer.head + 1 } : NiBuffer).contents := by
      have split : s.buffer.tail - s.buffer.head = 1 + (s.buffer.tail - (s.buffer.head + 1)) := by
        omega
      rw [NiBuffer.contents, split, NiBuffer.load_add]
      rfl
    refine faithful_of (getc_eq wf some_) ⟨some_, wf.inside⟩ ⟨?_, ?_⟩ (by simp)
    · rw [first]
      rfl
    · rw [first]
      rfl
  · have empty : s.buffer.contents = [] := by
      rw [← List.length_eq_zero_iff, NiBuffer.length_contents]
      omega
    refine faithful_of (if_pos (Nat.not_lt.mp some_)) wf ⟨?_, ?_⟩ (by simp)
    · rw [empty]
      rfl
    · rw [empty]
      rfl

/-- What a step leaves of the byte that was got and of the storage. -/
structure HeldBuffer.Inv (s : HeldBuffer) : Prop where
  wf : s.buffer.WellFormed
  small : s.buffer.size < 2 ^ 64
  got : ∀ cc before, s.got = some (cc, before) → before.base before.head = cc ∧
    s.buffer = { before with head := before.head + 1 }

theorem charValue_iff : (byte.toNat : Int) = charValue cc ↔ byte = cc ∧ cc < 128 := by
  have bound := byte.toNat_lt
  have bound' := cc.toNat_lt
  unfold charValue
  split
  · rename_i low
    rw [Int.ofNat_inj, UInt8.toNat_inj, and_iff_left low]
  · rename_i high
    refine iff_of_false ?_ fun both => high both.2
    omega

theorem ungetc_iff (inv : s.Inv) (cc : UInt8) :
    (BufferCall.ungetc cc).Faithful s ↔ (128 ≤ cc → ∀ before, s.got ≠ some (cc, before)) := by
  have ordered := inv.wf.ordered
  have inside := inv.wf.inside
  constructor
  · rintro ⟨answer, next, ran, -, -, restores⟩ high before got
    obtain ⟨byte, moved⟩ := inv.got cc before got
    obtain rfl := restores cc before got rfl
    have first : s.buffer.head ≠ 0 := by simp [moved]
    have other : ((s.buffer.base (s.buffer.head - 1)).toNat : Int) ≠ charValue cc := fun same =>
      UInt8.not_lt.mpr high (charValue_iff.mp same).2
    simp only [BufferCall.apply, niBufferUngetc, if_neg first, if_pos other,
      touch_ok (show s.buffer.head - 1 + 1 ≤ s.buffer.size by omega)] at ran
    cases ran
    have heads := congrArg NiBuffer.head moved
    simp only at heads
    omega
  · intro fits
    by_cases first : s.buffer.head = 0
    · refine ⟨_, _, if_pos first, inv.wf, .inr ⟨rfl, rfl, rfl, rfl, rfl⟩, ?_⟩
      rintro other before got ⟨⟩
      obtain ⟨-, moved⟩ := inv.got cc before got
      simp [moved] at first
    have ran : (BufferCall.ungetc cc).apply s.buffer =
        if ((s.buffer.base (s.buffer.head - 1)).toNat : Int) ≠ charValue cc then
          .ok (.status (-1), s.buffer)
        else .ok (.status 0, { s.buffer with head := s.buffer.head - 1 }) := by
      simp only [BufferCall.apply, niBufferUngetc, if_neg first,
        touch_ok (show s.buffer.head - 1 + 1 ≤ s.buffer.size by omega)]
      rfl
    by_cases same : ((s.buffer.base (s.buffer.head - 1)).toNat : Int) = charValue cc
    · rw [if_neg (not_not.mpr same)] at ran
      obtain ⟨byte, -⟩ := charValue_iff.mp same
      refine ⟨_, _, ran, ⟨by simp only; omega, inside⟩, .inl ⟨rfl, ?_⟩, ?_⟩
      · rw [uncovered inv.wf (by omega), ← byte]
        rfl
      · rintro other before got ⟨⟩
        obtain ⟨-, moved⟩ := inv.got cc before got
        rw [moved]
        rfl
    · rw [if_pos same] at ran
      refine ⟨_, _, ran, inv.wf, .inr ⟨rfl, rfl, rfl, rfl, rfl⟩, ?_⟩
      rintro other before got ⟨⟩
      obtain ⟨byte, moved⟩ := inv.got cc before got
      refine absurd (charValue_iff.mpr ⟨?_, ?_⟩) same
      · rw [moved]
        exact byte
      · exact UInt8.not_le.mp fun high => fits high before got

theorem reserveHead_iff (wf : s.buffer.WellFormed) (headroom : UInt64) :
    (BufferCall.reserveHead headroom).Faithful s ↔ (s.buffer.head = s.buffer.tail →
      (s.buffer.tail + headroom.toNat) % 2 ^ 64 ≤ s.buffer.size) := by
  by_cases empty : s.buffer.head = s.buffer.tail
  · have ran : (BufferCall.reserveHead headroom).apply s.buffer = .ok (.status 0, { s.buffer with
        head := (s.buffer.tail + headroom.toNat) % 2 ^ 64
        tail := (s.buffer.tail + headroom.toNat) % 2 ^ 64 }) := by
      simp only [BufferCall.apply, niBufferReserveHead, NiBuffer.reserveHead, if_neg (not_not.mpr empty)]
    constructor
    · rintro ⟨answer, next, ran', wf', -⟩ -
      cases ran.symm.trans ran'
      exact wf'.inside
    · intro room
      refine faithful_of ran ⟨Nat.le_refl _, room empty⟩ ?_ nofun
      simp [BufferCall.Does, NiBuffer.contents, NiBuffer.load, empty]
  · refine iff_of_true ?_ fun same => absurd same empty
    have ran : (BufferCall.reserveHead headroom).apply s.buffer = .ok (.status (-1), s.buffer) := by
      simp only [BufferCall.apply, niBufferReserveHead, if_pos empty]
    exact faithful_of ran wf rfl nofun

theorem pushHead_faithful (wf : s.buffer.WellFormed) (count : UInt64) : (BufferCall.pushHead count).Faithful s := by
  have ordered := wf.ordered
  by_cases room : count.toNat ≤ s.buffer.head
  · have ran : (BufferCall.pushHead count).apply s.buffer =
        .ok (.place (some (s.buffer.head - count.toNat)),
          { s.buffer with head := s.buffer.head - count.toNat }) := by
      simp only [BufferCall.apply, NiBuffer.pushHead, if_neg (Nat.not_lt.mpr room)]
      rfl
    refine faithful_of ran ⟨by simp only; omega, wf.inside⟩ (.inl ⟨rfl, ?_⟩) (by simp)
    intro bytes length
    have held := NiBuffer.contents_prepend wf (show bytes.length ≤ s.buffer.head by omega)
    rwa [length, NiBuffer.pushHead, if_neg (Nat.not_lt.mpr room)] at held
  · have ran : (BufferCall.pushHead count).apply s.buffer = .ok (.place none, { s.buffer with overflow := true }) := by
      simp only [BufferCall.apply, NiBuffer.pushHead, if_pos (Nat.not_le.mp room)]
      rfl
    exact faithful_of ran ⟨wf.ordered, wf.inside⟩ (.inr ⟨rfl, .flags _ _⟩) (by simp)

theorem pushTail_faithful (wf : s.buffer.WellFormed) (count : UInt64) : (BufferCall.pushTail count).Faithful s := by
  have ordered := wf.ordered
  have inside := wf.inside
  by_cases room : count.toNat ≤ s.buffer.size - s.buffer.tail
  · have ran : (BufferCall.pushTail count).apply s.buffer = .ok (.place (some s.buffer.tail),
        { s.buffer with tail := s.buffer.tail + count.toNat }) := by
      rw [BufferCall.apply, NiBuffer.pushTail_eq wf room]
      rfl
    refine faithful_of ran ⟨by simp only; omega, by simp only; omega⟩ (.inl ⟨rfl, ?_⟩) nofun
    intro bytes length
    rw [← length]
    exact (appended wf bytes (by omega)).2
  · have ran : (BufferCall.pushTail count).apply s.buffer = .ok (.place none, { s.buffer with overflow := true }) := by
      simp only [BufferCall.apply, NiBuffer.pushTail, sizeSub, if_pos inside, if_pos (Nat.not_le.mp room)]
      rfl
    exact faithful_of ran ⟨wf.ordered, wf.inside⟩ (.inr ⟨rfl, .flags _ _⟩) nofun

theorem pullHead_faithful (wf : s.buffer.WellFormed) (count : UInt64) : (BufferCall.pullHead count).Faithful s := by
  have ordered := wf.ordered
  by_cases enough : count.toNat ≤ s.buffer.contents.length
  · have ran : (BufferCall.pullHead count).apply s.buffer =
        .ok (.place (some s.buffer.head), (s.buffer.pullHead count.toNat).2) := by
      rw [BufferCall.apply, NiBuffer.pullHead_eq wf enough]
      rfl
    exact faithful_of ran (NiBuffer.wellFormed_pullHead wf _)
      (.inl ⟨rfl, enough, NiBuffer.contents_pullHead wf enough⟩) nofun
  · rw [NiBuffer.length_contents] at enough
    have ran : (BufferCall.pullHead count).apply s.buffer = .ok (.place none, { s.buffer with underflow := true }) := by
      simp only [BufferCall.apply, NiBuffer.pullHead, sizeSub, if_pos ordered, if_pos (Nat.not_le.mp enough)]
      rfl
    exact faithful_of ran ⟨wf.ordered, wf.inside⟩ (.inr ⟨rfl, .flags _ _⟩) nofun

theorem ensureTailroom_iff (wf : s.buffer.WellFormed) (minRoom : UInt32) :
    (BufferCall.ensureTailroom minRoom).Faithful s ↔ (s.buffer.tailroom < minRoom.toNat →
      (if s.buffer.allocated then s.buffer.tail else s.buffer.size) ≤ (s.buffer.size + minRoom.toNat) % 2 ^ 64) := by
  have inside := wf.inside
  by_cases enough : minRoom.toNat ≤ s.buffer.tailroom
  · exact iff_of_true (faithful_of (if_pos enough) wf rfl nofun) fun short => absurd short (Nat.not_lt.mpr enough)
  have short := Nat.not_le.mp enough
  by_cases lost : ¬ s.buffer.allocated ∧ (s.buffer.size + minRoom.toNat) % 2 ^ 64 < s.buffer.size
  · have stopped : (BufferCall.ensureTailroom minRoom).apply s.buffer = .error .outside := by
      simp only [BufferCall.apply, niBufferEnsureTailroom, if_neg enough, if_pos lost]
    refine iff_of_false (not_faithful .outside stopped) fun kept => ?_
    have kept := kept short
    rw [if_neg lost.1] at kept
    omega
  · have ran : (BufferCall.ensureTailroom minRoom).apply s.buffer = .ok (.none, { s.buffer with
        size := (s.buffer.size + minRoom.toNat) % 2 ^ 64, allocated := true }) := by
      simp only [BufferCall.apply, niBufferEnsureTailroom, if_neg enough, if_neg lost]
    constructor
    · rintro ⟨answer, next, ran', wf', -⟩ -
      cases ran.symm.trans ran'
      split
      · exact wf'.inside
      · rename_i own
        exact Nat.not_lt.mp fun smaller => lost ⟨own, smaller⟩
    · intro kept
      have kept := kept short
      refine faithful_of ran ⟨wf.ordered, ?_⟩ rfl nofun
      split at kept
      · exact kept
      · exact Nat.le_trans inside kept

theorem faithful_iff (inv : s.Inv) (call : BufferCall) : call.Faithful s ↔ call.Fits s := by
  have wf := inv.wf
  cases call with
  | clear => exact iff_of_true (faithful_of rfl ⟨Nat.le_refl _, Nat.zero_le _⟩ rfl nofun) trivial
  | put data len => exact put_iff wf inv.small data len
  | putc cc => exact putc_iff wf inv.small cc
  | pad minSize padbyte => exact pad_iff wf minSize padbyte
  | get len => exact get_iff wf inv.small len
  | getc => exact iff_of_true (getc_faithful wf) trivial
  | ungetc cc => exact ungetc_iff inv cc
  | reserveHead headroom => exact reserveHead_iff wf headroom
  | pushHead count => exact iff_of_true (pushHead_faithful wf count) trivial
  | pushTail count => exact iff_of_true (pushTail_faithful wf count) trivial
  | pullHead count => exact iff_of_true (pullHead_faithful wf count) trivial
  | ensureTailroom minRoom => exact ensureTailroom_iff wf minRoom

end Steps

section Runs

variable {bp next : NiBuffer} {call : BufferCall}

/-- What a call leaves of the size, and that only `ni_buffer_getc` returns a byte. -/
def Spanned (bp : NiBuffer) (result : Except Fault (BufferAnswer × NiBuffer)) : Prop :=
  ∀ answer next, result = .ok (answer, next) →
    (next.size = bp.size ∨ ∃ n, next.size = n % 2 ^ 64) ∧
      ∀ cc, answer = .char (some cc) → bp.base bp.head = cc ∧
        next = { bp with head := bp.head + 1 }

theorem spanned_ok (size : next.size = bp.size ∨ ∃ n, next.size = n % 2 ^ 64)
    (other : ∀ cc, answer ≠ .char (some cc)) : Spanned bp (.ok (answer, next)) := by
  rintro _ _ ⟨⟩
  exact ⟨size, fun cc same => absurd same (other cc)⟩

theorem spanned_ite [Decidable p] (spanned : Spanned bp yes) (spanned' : Spanned bp no) : Spanned bp (if p then yes else no) := by
  split
  · exact spanned
  · exact spanned'

theorem spanned_touch (spanned : Spanned bp rest) : Spanned bp (touch bp offset len >>= fun _ => rest) := by
  rw [touch]
  split
  · exact spanned
  · exact nofun

theorem spanned_put (data : Option (Nat → UInt8)) (len : Nat) : Spanned bp (niBufferPut bp data len) := by
  refine spanned_ite (spanned_ok (.inl rfl) nofun) ?_
  cases data with
  | none => exact spanned_ok (.inl rfl) nofun
  | some data => exact spanned_touch (spanned_ok (.inl rfl) nofun)

theorem spanned_place {result : Option Nat × NiBuffer} (size : result.2.size = bp.size) :
    Spanned bp (.ok (result.map .place id)) := spanned_ok (.inl size) nofun

theorem spanned_apply (bp : NiBuffer) (call : BufferCall) : Spanned bp (call.apply bp) := by
  have same : Spanned bp (.ok (.none, bp)) := spanned_ok (.inl rfl) nofun
  have refused : Spanned bp (.ok (.status (-1), bp)) := spanned_ok (.inl rfl) nofun
  cases call with
  | clear => exact spanned_ok (.inl rfl) nofun
  | put data len => exact spanned_put data len.toNat
  | putc cc =>
    rintro answer next ran
    obtain ⟨⟨status, after⟩, put, done⟩ := bind_ok.mp ran
    cases done
    exact ⟨(spanned_put _ _ status next put).1, nofun⟩
  | pad minSize padbyte => exact spanned_ite same (spanned_touch (spanned_ok (.inl rfl) nofun))
  | get len =>
    exact spanned_ite (spanned_ok (.inl rfl) nofun) (spanned_touch (spanned_ok (.inl rfl) nofun))
  | getc =>
    refine spanned_ite (spanned_ok (.inl rfl) nofun) (spanned_touch ?_)
    rintro _ _ ⟨⟩
    refine ⟨.inl rfl, ?_⟩
    rintro _ ⟨⟩
    exact ⟨rfl, rfl⟩
  | ungetc cc =>
    exact spanned_ite refused (spanned_touch (spanned_ite refused (spanned_ok (.inl rfl) nofun)))
  | reserveHead headroom =>
    simp only [BufferCall.apply, niBufferReserveHead, NiBuffer.reserveHead]
    split
    · exact refused
    · exact spanned_ok (.inl rfl) nofun
  | pushHead count =>
    refine spanned_place ?_
    unfold NiBuffer.pushHead
    split <;> rfl
  | pushTail count =>
    refine spanned_place ?_
    unfold NiBuffer.pushTail
    split <;> rfl
  | pullHead count =>
    refine spanned_place ?_
    unfold NiBuffer.pullHead
    split <;> rfl
  | ensureTailroom minRoom =>
    exact spanned_ite same (spanned_ite nofun (spanned_ok (.inr ⟨_, rfl⟩) nofun))

/-- A faithful step keeps the invariant. -/
theorem HeldBuffer.Inv.step (inv : s.Inv) (faithful : call.Faithful s) (moved : s.step call = .ok s') : s'.Inv := by
  obtain ⟨answer, next, ran, wf, -⟩ := faithful
  obtain ⟨⟨answer', next'⟩, ran', done⟩ := bind_ok.mp moved
  cases ran.symm.trans ran'
  obtain ⟨size, char⟩ := spanned_apply s.buffer call answer next ran
  cases done
  refine ⟨wf, ?_, ?_⟩
  · have small := inv.small
    rcases size with same | ⟨n, same⟩
    · rwa [same]
    · rw [same]
      exact Nat.mod_lt _ (by decide)
  · intro cc before got
    dsimp only at got
    split at got
    · cases got
      exact char _ rfl
    · cases got

/-- In just the runs whose calls fit, each call is faithful. -/
theorem buffer_faithful_iff {bp : NiBuffer} (wf : bp.WellFormed) (small : bp.size < 2 ^ 64)
    (calls : List BufferCall) :
    Along HeldBuffer.step (fun s call => call.Faithful s) ⟨bp, none⟩ calls ↔
      Along HeldBuffer.step (fun s call => call.Fits s) ⟨bp, none⟩ calls :=
  along_congr_kept HeldBuffer.Inv (fun _ _ _ inv faithful moved => inv.step faithful moved)
    (fun _ call inv => faithful_iff inv call) ⟨wf, small, nofun⟩

/-- A byte is put, got and put back. -/
theorem buffer_faithful_byte :
    Along HeldBuffer.step (fun s call => call.Faithful s) ⟨.new 1, none⟩
      [.putc 97, .getc, .ungetc 97] := by
  refine (buffer_faithful_iff (NiBuffer.wellFormed_new 1) (by decide) _).mpr ?_
  refine ⟨.inl (by decide), fun next moved => ?_⟩
  refine ⟨trivial, fun next' moved' => ?_⟩
  exact ⟨fun high => absurd high (by decide), fun _ _ => trivial⟩

/-- A byte from 128 on is not put back. -/
theorem buffer_not_faithful : ¬ ∀ bp : NiBuffer, bp.WellFormed → bp.size < 2 ^ 64 →
    ∀ calls, Along HeldBuffer.step (fun s call => call.Faithful s) ⟨bp, none⟩ calls := by
  intro claimed
  have along := claimed (.new 1) (NiBuffer.wellFormed_new 1) (by decide)
    [.putc 200, .getc, .ungetc 200]
  obtain ⟨-, later⟩ := along
  obtain ⟨-, later⟩ := later _ rfl
  obtain ⟨⟨answer, next, ran, -, -, restores⟩, -⟩ := later _ rfl
  have same := restores 200 _ rfl rfl
  cases ran
  exact absurd (congrArg NiBuffer.head same) (by decide)

end Runs

end Testbus.Util
