import Testbus.Lib.Cells
import Testbus.Xml.Reader

namespace Testbus.Util

open Lib Cells
open Xml (newline blank trimTail trimHead trimEmptyLines)

/-- `ni_stringbuf_t`, with `dynamic` set: `string` is `NULL` or a block. -/
structure NiStringbuf where
  size : Nat := 0
  len : Nat := 0
  string : Option Bytes := none
  deriving DecidableEq

def niStringbufClear (_ : NiStringbuf) : NiStringbuf := {}

/-- `__ni_stringbuf_size`, which rounds up to 64. -/
def stringbufSize (sb : NiStringbuf) (len : Nat) : Nat := (sb.len + len + 63) % 2 ^ 64 / 64 * 64

/-- A block of the size, with NUL behind the contents. A block of no bytes cannot be had. -/
def stringbufResize (sb : NiStringbuf) (size : Nat) : Except Fault NiStringbuf :=
  if size = 0 ∨ size < sb.len then .error .outside
  else .ok { sb with
    size, string := some (fillFrom (resize (sb.string.getD []) size 0) sb.len 0) }

def stringbufRealloc (sb : NiStringbuf) (len : Nat) : Except Fault NiStringbuf :=
  if sb.size < (sb.len + len + 1) % 2 ^ 64 then stringbufResize sb (stringbufSize sb (len + 1))
  else .ok sb

def NiStringbuf.change (sb : NiStringbuf) (change : Bytes → Except Fault Bytes) : Except Fault NiStringbuf :=
  match sb.string with
  | none => .error .null
  | some cells => (change cells).map fun cells => { sb with string := some cells }

def NiStringbuf.cells (sb : NiStringbuf) : Except Fault Bytes :=
  match sb.string with
  | none => .error .null
  | some cells => .ok cells

def niStringbufGrow (sb : NiStringbuf) (len : Nat) : Except Fault NiStringbuf :=
  stringbufRealloc sb len

def stringbufPut (sb : NiStringbuf) (bytes : Bytes) : Except Fault NiStringbuf := do
  let sb ← stringbufRealloc sb bytes.length
  let sb ← sb.change fun cells => write cells sb.len bytes
  let sb ← sb.change fun cells => store cells (sb.len + bytes.length) 0
  .ok { sb with len := sb.len + bytes.length }

def niStringbufPutc (sb : NiStringbuf) (cc : UInt8) : Except Fault NiStringbuf :=
  stringbufPut sb [cc]

def niStringbufPuts (sb : NiStringbuf) (s : CString) : Except Fault NiStringbuf :=
  stringbufPut sb s

/-- `(int) sb->len` -/
def intOf (len : Nat) : Int := ((len + 2 ^ 31) % 2 ^ 32 : Nat) - (2 ^ 31 : Nat)

/-- `text` is what `vasprintf` allocates, if it does not fail. -/
def niStringbufVprintf (sb : NiStringbuf) (text : Option CString) : Except Fault (Int × NiStringbuf) :=
  match text with
  | none => .ok (-1, sb)
  | some s => do
    let sb ← match sb.string with
      | none => pure { size := s.length, len := s.length, string := some (s ++ [0]) }
      | some _ => niStringbufPuts sb s
    .ok (intOf sb.len, sb)

/-- The destination and the source, for two buffers. -/
def niStringbufMove (_ src : NiStringbuf) : NiStringbuf × NiStringbuf :=
  (src, { src with string := none, len := 0 })

def niStringbufTruncate (sb : NiStringbuf) (at_ : Nat) : Except Fault NiStringbuf := do
  let sb ← stringbufRealloc sb at_
  let sb ← sb.change fun cells => store cells at_ 0
  .ok { sb with len := at_ }

/-- A byte of a string; the NUL that ends the string is none. -/
def rejected (reject : CString) (c : UInt8) : Bool := c ≠ 0 && decide (c ∈ reject)

def strspn (cells : Bytes) (reject : CString) : Except Fault Nat :=
  let n := (cells.takeWhile (rejected reject)).length
  if n < cells.length then .ok n else .error .outside

def strlen (cells : Bytes) : Except Fault Nat :=
  let n := (cells.takeWhile (· ≠ 0)).length
  if n < cells.length then .ok n else .error .outside

/-- The end of both functions that trim at the head. -/
def dropHead (sb : NiStringbuf) (trim : Nat) : Except Fault NiStringbuf :=
  if trim = 0 then .ok sb
  else do
    let sb := { sb with len := sb.len - trim }
    sb.change fun cells => move cells 0 trim (sb.len + 1)

def niStringbufTrimHead (sb : NiStringbuf) (reject : CString) : Except Fault NiStringbuf := do
  let sb ← niStringbufTruncate sb sb.len
  let cells ← sb.cells
  let trim ← strspn cells reject
  dropHead sb trim

def trimTailLoop (reject : CString) (cells : Bytes) : (n len : Nat) → Except Fault Nat
  | 0, len => .ok len
  | n + 1, len => do
    let c ← load cells n
    if rejected reject c then trimTailLoop reject cells n n else .ok len

def niStringbufTrimTail (sb : NiStringbuf) (reject : CString) : Except Fault NiStringbuf := do
  let sb ← stringbufRealloc sb sb.len
  let cells ← sb.cells
  let n ← strlen cells
  let len ← trimTailLoop reject cells n sb.len
  let sb ← sb.change fun cells => store cells len 0
  .ok { sb with len }

def tailLines (cells : Bytes) : (n trim : Nat) → Except Fault Nat
  | 0, trim => .ok trim
  | n + 1, trim => do
    let cc ← load cells n
    if newline cc then tailLines cells n (n + 1)
    else if blank cc then tailLines cells n trim
    else .ok trim

def headLines (cells : Bytes) : (left n trim : Nat) → Except Fault Nat
  | 0, _, trim => .ok trim
  | left + 1, n, trim => do
    let cc ← load cells n
    if newline cc then headLines cells left (n + 1) (n + 1)
    else if blank cc then headLines cells left (n + 1) trim
    else .ok trim

def niStringbufTrimEmptyLines (sb : NiStringbuf) : Except Fault NiStringbuf := do
  let trim ← tailLines (sb.string.getD []) sb.len sb.len
  let sb ← sb.change fun cells => store cells trim 0
  let sb := { sb with len := trim }
  let cells ← sb.cells
  let trim ← headLines cells sb.len 0 0
  dropHead sb trim

/-- Nothing is stored and the size is 0, or the contents are, with a NUL behind them that is
inside of the size, and the size is that of the block. -/
structure Sound (contents : Bytes) (sb : NiStringbuf) : Prop where
  unstored : sb.string = none → sb.size = 0 ∧ sb.len = 0 ∧ contents = []
  stored : ∀ cells, sb.string = some cells → cells.length = sb.size ∧ sb.len < sb.size ∧
    cells[sb.len]? = some 0 ∧ cells.take sb.len = contents

section Shapes

variable {contents behind cells : Bytes} {sb : NiStringbuf}

theorem sound_empty : Sound [] {} := ⟨fun _ => ⟨rfl, rfl, rfl⟩, nofun⟩

/-- A buffer with storage, where `behind` is behind the NUL. -/
def NiStringbuf.of (contents behind : Bytes) : NiStringbuf :=
  ⟨contents.length + 1 + behind.length, contents.length, some (contents ++ 0 :: behind)⟩

theorem length_of (contents behind : Bytes) : (contents ++ 0 :: behind).length = contents.length + 1 + behind.length := by
  rw [List.length_append, List.length_cons]
  omega

theorem sound_of (contents behind : Bytes) : Sound contents (.of contents behind) where
  unstored := nofun
  stored := by
    rintro cells ⟨⟩
    refine ⟨length_of contents behind, ?_, ?_, List.take_left⟩
    · change contents.length < contents.length + 1 + behind.length
      omega
    · change (contents ++ 0 :: behind)[contents.length]? = some 0
      rw [List.getElem?_append_right (Nat.le_refl _), Nat.sub_self]
      rfl

theorem Sound.stored_shape (sound : Sound contents sb) (storage : sb.string = some cells) :
    ∃ behind, cells = contents ++ 0 :: behind ∧ sb = .of contents behind := by
  obtain ⟨size, inside, zero, front⟩ := sound.stored cells storage
  have inside' : sb.len < cells.length := by omega
  have here : cells[sb.len] = 0 := by
    rwa [List.getElem?_eq_getElem inside', Option.some.injEq] at zero
  have whole : cells = contents ++ 0 :: cells.drop (sb.len + 1) := by
    rw [← front, ← here, ← List.drop_eq_getElem_cons inside', List.take_append_drop]
  have length : sb.len = contents.length := by
    rw [← front, List.length_take, Nat.min_eq_left (by omega)]
  refine ⟨_, whole, ?_⟩
  obtain ⟨sbSize, sbLen, sbString⟩ := sb
  cases storage
  cases length
  have total := congrArg List.length whole
  rw [length_of, size] at total
  rw [NiStringbuf.of, ← whole, ← total]

theorem Sound.shape (sound : Sound contents sb) : sb = {} ∧ contents = [] ∨ ∃ behind, sb = .of contents behind := by
  cases storage : sb.string with
  | none =>
    obtain ⟨size, len, empty⟩ := sound.unstored storage
    obtain ⟨sbSize, sbLen, sbString⟩ := sb
    cases storage
    cases size
    cases len
    exact .inl ⟨rfl, empty⟩
  | some cells =>
    obtain ⟨behind, -, shape⟩ := sound.stored_shape storage
    exact .inr ⟨behind, shape⟩

theorem Sound.len (sound : Sound contents sb) : sb.len = contents.length := by
  rcases sound.shape with ⟨rfl, rfl⟩ | ⟨behind, rfl⟩ <;> rfl

theorem Sound.unique (sound : Sound contents sb) (sound' : Sound others sb) : contents = others := by
  rcases sound.shape with ⟨rfl, rfl⟩ | ⟨behind, rfl⟩
  · exact (sound'.unstored rfl).2.2.symm
  · exact List.take_left.symm.trans (sound'.stored _ rfl).2.2.2

/-- `__ni_stringbuf_realloc` finds too little room. -/
def NiStringbuf.Extends (sb : NiStringbuf) (n : Nat) : Prop :=
  sb.size < (sb.len + n + 1) % 2 ^ 64

/-- Where room has to be made, its size can be counted. -/
def NiStringbuf.Counts (sb : NiStringbuf) (n : Nat) : Prop :=
  sb.Extends n → sb.len + n + 64 < 2 ^ 64

theorem realloc_extends (extends_ : sb.Extends n) :
    stringbufRealloc sb n = stringbufResize sb (stringbufSize sb (n + 1)) := if_pos extends_

theorem realloc_keeps (enough : ¬ sb.Extends n) : stringbufRealloc sb n = .ok sb := if_neg enough

/-- More room: all of it behind the contents is NUL. -/
theorem Sound.realloc_extends (sound : Sound contents sb) (extends_ : sb.Extends n) (counts : sb.len + n + 64 < 2 ^ 64) :
    ∃ spare, stringbufRealloc sb n = .ok (.of contents (List.replicate spare 0)) ∧ n ≤ spare ∧
      contents.length + 1 + spare < 2 ^ 64 := by
  have size : stringbufSize sb (n + 1) = (sb.len + n + 64) / 64 * 64 := by
    rw [stringbufSize, show sb.len + (n + 1) + 63 = sb.len + n + 64 by omega, Nat.mod_eq_of_lt counts]
  have len := sound.len
  have kept : (resize (sb.string.getD []) (stringbufSize sb (n + 1)) 0).take sb.len = contents := by
    rcases sound.shape with ⟨rfl, rfl⟩ | ⟨behind, rfl⟩
    · rfl
    · change (resize (contents ++ 0 :: behind) _ 0).take contents.length = contents
      rw [resize, List.take_append_of_le_length, List.take_take, Nat.min_eq_left, List.take_left]
      · rw [size]
        change contents.length ≤ (contents.length + n + 64) / 64 * 64
        omega
      · rw [List.length_take, size, length_of]
        change contents.length ≤ min ((contents.length + n + 64) / 64 * 64) _
        omega
  refine ⟨stringbufSize sb (n + 1) - contents.length - 1, ?_, by omega, by omega⟩
  have behind : stringbufSize sb (n + 1) - contents.length =
      stringbufSize sb (n + 1) - contents.length - 1 + 1 := by omega
  rw [Util.realloc_extends extends_, stringbufResize, if_neg (by omega), fillFrom, kept, length_resize, len,
    behind, List.replicate_succ, NiStringbuf.of, List.length_replicate]
  congr 2
  omega

theorem Sound.realloc_wraps (sound : Sound contents sb) (extends_ : sb.Extends n)
    (bounded : sb.size < 2 ^ 64) (small : n < 2 ^ 64) (wraps : ¬ sb.len + n + 64 < 2 ^ 64) :
    stringbufRealloc sb n = .error .outside := by
  have inside : sb.len ≤ sb.size := by
    rcases sound.shape with ⟨rfl, rfl⟩ | ⟨behind, rfl⟩
    · exact Nat.le_refl 0
    · change contents.length ≤ contents.length + 1 + behind.length
      omega
  have zero : stringbufSize sb (n + 1) = 0 := by
    rw [NiStringbuf.Extends] at extends_
    rw [stringbufSize]
    omega
  rw [Util.realloc_extends extends_, stringbufResize, if_pos (.inl zero)]

theorem change_stored (storage : sb.string = some cells) (f : Bytes → Except Fault Bytes) :
    sb.change f = (f cells).map fun cells => { sb with string := some cells } := by
  rw [NiStringbuf.change, storage]

/-- A NUL in the block ends the contents there. -/
theorem terminate (storage : sb.string = some cells) (sized : cells.length = sb.size) (inside : at_ < cells.length) :
    ∃ ended, sb.change (fun cells => store cells at_ 0) = .ok ended ∧
      { ended with len := at_ } = NiStringbuf.of (cells.take at_) (cells.drop (at_ + 1)) := by
  refine ⟨_, by rw [change_stored storage, store_of_lt inside]; rfl, ?_⟩
  simp only [NiStringbuf.of, List.set_eq_take_append_cons_drop, if_pos inside, List.length_take,
    List.length_drop, NiStringbuf.mk.injEq, and_true]
  omega

theorem put_room (allocated : stringbufRealloc sb s.length = .ok (.of contents behind))
    (fits : s.length ≤ behind.length) : stringbufPut sb s = .ok (.of (contents ++ s) (behind.drop s.length)) := by
  have inside : s.length ≤ ((0 : UInt8) :: behind).length := by
    rw [List.length_cons]
    omega
  have written := write_end contents inside
  obtain ⟨next, rest, after⟩ : ∃ next rest, (0 :: behind).drop s.length = next :: rest := by
    have some_ : 0 < ((0 :: behind).drop s.length).length := by
      rw [List.length_drop, List.length_cons]
      omega
    exact List.exists_cons_of_length_pos some_
  have rest_eq : rest = behind.drop s.length := by
    have tail := congrArg List.tail after
    rw [List.tail_drop] at tail
    exact tail.symm
  have stored := store_middle (contents ++ s) next 0 rest
  have size : contents.length + 1 + behind.length = (contents ++ s).length + 1 + (behind.drop s.length).length := by
    rw [List.length_append, List.length_drop]
    omega
  rw [after] at written
  rw [List.length_append, rest_eq] at stored
  rw [stringbufPut, allocated]
  simp only [bind, Except.bind, NiStringbuf.change, NiStringbuf.of, Except.map, written]
  rw [rest_eq, stored]
  simp only [size, List.length_append]

/-- There is room for the bytes and a NUL, or their size can be counted. -/
def NiStringbuf.Takes (sb : NiStringbuf) (n : Nat) : Prop :=
  sb.len + n + 1 ≤ sb.size ∨ sb.len + n + 64 < 2 ^ 64

theorem size_of_le (contents behind : Bytes) :
    (NiStringbuf.of contents behind).size = contents.length + 1 + behind.length := rfl

theorem Sound.put (sound : Sound contents sb) (bounded : sb.size < 2 ^ 64) (takes : sb.Takes s.length) :
    ∃ next, stringbufPut sb s = .ok next ∧ Sound (contents ++ s) next ∧ next.size < 2 ^ 64 := by
  by_cases extends_ : sb.Extends s.length
  · have counts : sb.len + s.length + 64 < 2 ^ 64 := by
      refine takes.resolve_left fun fits => ?_
      rw [NiStringbuf.Extends, Nat.mod_eq_of_lt (by omega)] at extends_
      omega
    obtain ⟨spare, allocated, room, small⟩ := sound.realloc_extends extends_ counts
    refine ⟨_, put_room allocated (by rwa [List.length_replicate]), sound_of _ _, ?_⟩
    rw [size_of_le, List.length_append, List.length_drop, List.length_replicate]
    omega
  · have fits : sb.len + s.length + 1 ≤ sb.size := by
      refine takes.elim id fun counts => ?_
      rw [NiStringbuf.Extends, Nat.mod_eq_of_lt (by omega)] at extends_
      omega
    rcases sound.shape with ⟨rfl, rfl⟩ | ⟨behind, rfl⟩
    · exact absurd fits (Nat.not_le.mpr (Nat.succ_pos _))
    · change contents.length + s.length + 1 ≤ contents.length + 1 + behind.length at fits
      rw [size_of_le] at bounded
      refine ⟨_, put_room (realloc_keeps extends_) (by omega), sound_of _ _, ?_⟩
      rw [size_of_le, List.length_append, List.length_drop]
      omega

theorem Sound.realloc_length (sound : Sound contents sb) (allocated : stringbufRealloc sb n = .ok next) (storage : next.string = some cells) :
    next.len = sb.len ∧ (cells.length = sb.size ∨ cells.length = stringbufSize sb (n + 1)) := by
  by_cases extends_ : sb.Extends n
  · rw [Util.realloc_extends extends_, stringbufResize] at allocated
    split at allocated
    · cases allocated
    · cases allocated
      cases storage
      refine ⟨rfl, .inr ?_⟩
      rw [fillFrom, List.length_append, List.length_take, List.length_replicate, length_resize]
      omega
  · rw [realloc_keeps extends_] at allocated
    cases allocated
    exact ⟨rfl, .inl (sound.stored cells storage).1⟩

theorem change_ok :
    sb.change f = .ok next ↔ ∃ cells result, sb.string = some cells ∧ f cells = .ok result ∧
      { sb with string := some result } = next := by
  rw [NiStringbuf.change]
  cases storage : sb.string with
  | none => simp
  | some cells => simp [map_ok]

theorem Sound.takes (sound : Sound contents sb) (put : stringbufPut sb s = .ok next) : sb.Takes s.length := by
  obtain ⟨sb₁, allocated, put⟩ := bind_ok.mp put
  obtain ⟨sb₂, written, put⟩ := bind_ok.mp put
  obtain ⟨sb₃, stored, -⟩ := bind_ok.mp put
  obtain ⟨cells, result, storage, copied, rfl⟩ := change_ok.mp written
  obtain ⟨cells₂, result₂, storage₂, ended, -⟩ := change_ok.mp stored
  cases storage₂
  obtain ⟨len, length⟩ := sound.realloc_length allocated storage
  have inside := (store_ok.mp ended).1
  have same : result.length = cells.length := by
    rw [write] at copied
    split at copied
    · cases copied
      simp only [List.length_append, List.length_take, List.length_drop]
      omega
    · cases copied
  rw [same] at inside
  rw [stringbufSize] at length
  rw [NiStringbuf.Takes]
  change sb₁.len + s.length < cells.length at inside
  omega

end Shapes

end Testbus.Util
