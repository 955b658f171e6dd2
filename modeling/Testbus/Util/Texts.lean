import Testbus.Lib.Refines
import Testbus.Util.Trims

namespace Testbus.Util

open Lib Cells Machine

/-- The calls, on dynamic buffers with numbers. -/
inductive StringbufCall
  | putc (buffer : Nat) (cc : UInt8)
  | puts (buffer : Nat) (s : CString)
  | printf (buffer : Nat) (text : Option CString)
  | grow (buffer : Nat) (len : UInt64)
  | clear (buffer : Nat)
  | move (dst src : Nat)
  | truncate (buffer : Nat) (at_ : UInt64)
  | trimHead (buffer : Nat) (reject : CString)
  | trimTail (buffer : Nat) (reject : CString)
  | trimEmptyLines (buffer : Nat)
  deriving DecidableEq

abbrev Buffers : Type := Nat → NiStringbuf

def Buffers.put (buffers : Buffers) (buffer : Nat) (result : Except Fault NiStringbuf) :
    Except Fault (Int × Buffers) :=
  result.map fun sb => (0, Function.update buffers buffer sb)

/-- The destination is cleared before the source is read. -/
def Buffers.moved (buffers : Buffers) (dst src : Nat) : Buffers :=
  let cleared := Function.update buffers dst (niStringbufClear (buffers dst))
  let (dest, src') := niStringbufMove (cleared dst) (cleared src)
  Function.update (Function.update cleared dst dest) src src'

def StringbufCall.apply (buffers : Buffers) : StringbufCall → Except Fault (Int × Buffers)
  | .putc buffer cc => buffers.put buffer (niStringbufPutc (buffers buffer) cc)
  | .puts buffer s => buffers.put buffer (niStringbufPuts (buffers buffer) s)
  | .printf buffer text => do
    let (n, sb) ← niStringbufVprintf (buffers buffer) text
    .ok (n, Function.update buffers buffer sb)
  | .grow buffer len => buffers.put buffer (niStringbufGrow (buffers buffer) len.toNat)
  | .clear buffer => buffers.put buffer (.ok (niStringbufClear (buffers buffer)))
  | .move dst src => .ok (0, buffers.moved dst src)
  | .truncate buffer at_ => buffers.put buffer (niStringbufTruncate (buffers buffer) at_.toNat)
  | .trimHead buffer reject => buffers.put buffer (niStringbufTrimHead (buffers buffer) reject)
  | .trimTail buffer reject => buffers.put buffer (niStringbufTrimTail (buffers buffer) reject)
  | .trimEmptyLines buffer => buffers.put buffer (niStringbufTrimEmptyLines (buffers buffer))

abbrev Texts : Type := Nat → Bytes

/-- The same calls on lists of bytes. -/
def StringbufCall.meaning (texts : Texts) : StringbufCall → Int × Texts
  | .putc buffer cc => (0, Function.update texts buffer (texts buffer ++ [cc]))
  | .puts buffer s => (0, Function.update texts buffer (texts buffer ++ s))
  | .printf _ none => (-1, texts)
  | .printf buffer (some s) => (intOf ((texts buffer).length + s.length),
      Function.update texts buffer (texts buffer ++ s))
  | .grow _ _ => (0, texts)
  | .clear buffer => (0, Function.update texts buffer [])
  | .move dst src => (0, Function.update (Function.update texts dst (texts src)) src [])
  | .truncate buffer at_ => (0, Function.update texts buffer (truncated (texts buffer) at_.toNat))
  | .trimHead buffer reject =>
    (0, Function.update texts buffer ((texts buffer).dropWhile (rejected reject)))
  | .trimTail buffer reject =>
    (0, Function.update texts buffer ((texts buffer).rdropWhile (rejected reject)))
  | .trimEmptyLines buffer =>
    (0, Function.update texts buffer (Xml.trimEmptyLines (texts buffer)))

/-- What a call needs of the buffers: that sizes can be counted, that `printf` and
`ni_stringbuf_trim_empty_lines` find storage and a move to another buffer finds none, and what
`NiStringbuf.Truncates` and `TrimsTail` say. -/
def StringbufCall.Fits (texts : Texts) (buffers : Buffers) : StringbufCall → Prop
  | .putc buffer _ => (buffers buffer).Takes 1
  | .puts buffer s => (buffers buffer).Takes s.length
  | .printf _ none => True
  | .printf buffer (some s) => (buffers buffer).string ≠ none ∧ (buffers buffer).Takes s.length
  | .grow buffer len => (buffers buffer).Counts len.toNat
  | .clear _ => True
  | .move dst src => dst ≠ src → (buffers src).string = none
  | .truncate buffer at_ => (buffers buffer).Truncates at_.toNat
  | .trimHead buffer _ => (buffers buffer).Counts (buffers buffer).len
  | .trimTail buffer reject =>
    (buffers buffer).Counts (buffers buffer).len ∧ TrimsTail reject (texts buffer)
  | .trimEmptyLines buffer => (buffers buffer).string ≠ none

section Calls

variable {buffers : Buffers}

def AllHeld (texts : Texts) (buffers : Buffers) : Prop :=
  ∀ buffer, Held (texts buffer) (buffers buffer)

theorem AllHeld.update (stored : AllHeld texts buffers) (buffer : Nat) (held : Held text sb) :
    AllHeld (Function.update texts buffer text) (Function.update buffers buffer sb) := by
  intro other
  by_cases same : other = buffer
  · subst other
    rwa [Function.update_self, Function.update_self]
  · rw [Function.update_of_ne same, Function.update_of_ne same]
    exact stored other

theorem AllHeld.put (stored : AllHeld texts buffers) (done : ∃ sb, result = .ok sb ∧ Held text sb) :
    ∃ next, buffers.put buffer result = .ok (0, next) ∧ AllHeld (Function.update texts buffer text) next := by
  obtain ⟨sb, rfl, held⟩ := done
  exact ⟨_, rfl, stored.update buffer held⟩

/-- A move of a buffer that is empty once the destination is cleared. -/
theorem AllHeld.moved_empty (stored : AllHeld texts buffers) (dst src : Nat)
    (empty : dst ≠ src → (buffers src).string = none) :
    buffers.moved dst src = Function.update (Function.update buffers dst {}) src {} := by
  have source : Function.update buffers dst {} src = {} := by
    by_cases same : src = dst
    · rw [same, Function.update_self]
    · rw [Function.update_of_ne same]
      rcases (stored src).sound.shape with ⟨unstored, -⟩ | ⟨behind, shape⟩
      · exact unstored
      · have string := empty (Ne.symm same)
        rw [shape] at string
        cases string
  rw [Buffers.moved, niStringbufClear, niStringbufMove]
  simp only [source, Function.update_idem]

theorem AllHeld.kept (stored : AllHeld texts buffers) (call : StringbufCall) (fits : call.Fits texts buffers) :
    ∃ next, call.apply buffers = .ok ((call.meaning texts).1, next) ∧ AllHeld (call.meaning texts).2 next := by
  cases call with
  | putc buffer cc => exact stored.put ((stored buffer).put (s := [cc]) fits)
  | puts buffer s => exact stored.put ((stored buffer).put fits)
  | printf buffer text =>
    cases text with
    | none =>
      refine ⟨buffers, ?_, stored⟩
      rw [StringbufCall.apply, niStringbufVprintf]
      change Except.ok (_, Function.update buffers buffer (buffers buffer)) = _
      rw [Function.update_eq_self]
      rfl
    | some s =>
      obtain ⟨storage, takes⟩ := fits
      obtain ⟨sb, put, held⟩ := (stored buffer).put takes
      obtain ⟨cells, some_⟩ := Option.ne_none_iff_exists'.mp storage
      refine ⟨_, ?_, stored.update buffer held⟩
      rw [StringbufCall.apply, niStringbufVprintf]
      simp only [some_]
      rw [niStringbufPuts, put]
      change Except.ok (intOf sb.len, _) = _
      rw [held.sound.len, List.length_append]
      rfl
  | grow buffer len =>
    obtain ⟨sb, grown, held⟩ := (stored buffer).grow fits
    have kept := stored.update buffer held
    rw [Function.update_eq_self] at kept
    exact ⟨_, by rw [StringbufCall.apply, Buffers.put, niStringbufGrow, grown]; rfl, kept⟩
  | clear buffer => exact stored.put ⟨_, rfl, held_empty⟩
  | move dst src =>
    have empty := (stored.update dst held_empty).update src held_empty
    refine ⟨_, congrArg Except.ok (congrArg (Prod.mk 0) (stored.moved_empty dst src fits)), ?_⟩
    by_cases same : dst = src
    · subst dst
      rw [Function.update_idem] at empty
      simpa only [StringbufCall.meaning, Function.update_idem] using empty
    · have text : texts src = [] := ((stored src).sound.unstored (fits same)).2.2
      rwa [StringbufCall.meaning, text]
  | truncate buffer at_ => exact stored.put ((stored buffer).truncate fits)
  | trimHead buffer reject => exact stored.put ((stored buffer).trimHead fits reject)
  | trimTail buffer reject =>
    have trimmed := (stored buffer).trimTail fits.1 reject
    rw [(take_tailLength reject _).mpr fits.2] at trimmed
    exact stored.put trimmed
  | trimEmptyLines buffer =>
    refine stored.put ?_
    rcases (stored buffer).sound.shape with ⟨unstored, -⟩ | ⟨behind, shape⟩
    · exact absurd (congrArg NiStringbuf.string unstored) fits
    · rw [shape]
      have bounded := (stored buffer).bounded
      rw [shape] at bounded
      exact trimEmptyLines_of bounded

theorem put_ok (done : buffers.put buffer result = .ok (code, next)) :
    ∃ sb, result = .ok sb ∧ Function.update buffers buffer sb = next := by
  obtain ⟨sb, some_, same⟩ := map_ok.mp done
  exact ⟨sb, some_, congrArg Prod.snd same⟩

theorem sound_update (sound : ∀ other, Sound (Function.update texts buffer text other)
      (Function.update buffers buffer sb other)) : Sound text sb := by
  have here := sound buffer
  rwa [Function.update_self, Function.update_self] at here

/-- Without what it needs a call faults, or a buffer is not sound behind it, or it holds other
bytes. -/
theorem AllHeld.forced (stored : AllHeld texts buffers) (call : StringbufCall) (applied : call.apply buffers = .ok ((call.meaning texts).1, next))
    (sound : ∀ buffer, Sound ((call.meaning texts).2 buffer) (next buffer)) : call.Fits texts buffers := by
  have small : ∀ buffer, (buffers buffer).len < 2 ^ 64 := by
    intro buffer
    have bounded := (stored buffer).bounded
    rcases (stored buffer).sound.shape with ⟨shape, -⟩ | ⟨behind, shape⟩
    · rw [shape]
      exact Nat.two_pow_pos 64
    · rw [shape] at bounded ⊢
      change (texts buffer).length < 2 ^ 64
      rw [size_of_le] at bounded
      omega
  cases call with
  | putc buffer cc =>
    obtain ⟨sb, put, -⟩ := put_ok applied
    exact (stored buffer).sound.takes put
  | puts buffer s =>
    obtain ⟨sb, put, -⟩ := put_ok applied
    exact (stored buffer).sound.takes put
  | printf buffer text =>
    cases text with
    | none => trivial
    | some s =>
      cases storage : (buffers buffer).string with
      | none =>
        -- The text is adopted with its length as its size.
        rw [StringbufCall.apply, niStringbufVprintf] at applied
        simp only [storage] at applied
        obtain rfl := congrArg Prod.snd (Except.ok.inj applied)
        exact absurd ((sound_update sound).stored (s ++ [0]) rfl).2.1 (Nat.lt_irrefl _)
      | some cells =>
        refine ⟨by rw [storage]; exact Option.some_ne_none _, ?_⟩
        rw [StringbufCall.apply, niStringbufVprintf] at applied
        simp only [storage] at applied
        obtain ⟨⟨n, sb⟩, printed, -⟩ := bind_ok.mp applied
        obtain ⟨sb', put, -⟩ := bind_ok.mp printed
        exact (stored buffer).sound.takes put
  | grow buffer len =>
    obtain ⟨sb, grown, -⟩ := put_ok applied
    exact (stored buffer).counts len.toNat_lt grown
  | clear buffer => trivial
  | move dst src =>
    intro different
    by_contra string
    obtain ⟨cells, storage⟩ := Option.ne_none_iff_exists'.mp string
    cases applied
    have source := sound src
    rw [Buffers.moved] at source
    simp only [Function.update_self, Function.update_of_ne (Ne.symm different)] at source
    have empty := (source.unstored rfl).1
    have inside := ((stored src).sound.stored cells storage).2.1
    change (buffers src).size = 0 at empty
    omega
  | truncate buffer at_ =>
    obtain ⟨sb, cut, rfl⟩ := put_ok applied
    exact (stored buffer).truncates at_.toNat_lt cut (sound_update sound)
  | trimHead buffer reject =>
    obtain ⟨sb, trimmed, -⟩ := put_ok applied
    exact (stored buffer).trimHead_counts trimmed (small buffer)
  | trimTail buffer reject =>
    obtain ⟨sb, trimmed, rfl⟩ := put_ok applied
    have counts := (stored buffer).trimTail_counts trimmed (small buffer)
    refine ⟨counts, (take_tailLength reject _).mp ?_⟩
    obtain ⟨sb', trimmed', held⟩ := (stored buffer).trimTail counts reject
    cases trimmed.symm.trans trimmed'
    exact held.sound.unique (sound_update sound)
  | trimEmptyLines buffer =>
    obtain ⟨sb, trimmed, -⟩ := put_ok applied
    intro string
    rcases (stored buffer).sound.shape with ⟨shape, -⟩ | ⟨behind, shape⟩
    · rw [shape, trimEmptyLines_unstored] at trimmed
      cases trimmed
    · rw [shape] at string
      cases string

end Calls

/-- In a sequence of calls every buffer is without storage, empty and of size 0, or has its
contents and a NUL behind them inside of its size, no access is beyond it, and the contents are
what the calls make of lists of bytes, exactly if each call finds what it needs. -/
theorem buffers_refine_iff (calls : List StringbufCall) :
    Refines StringbufCall.apply StringbufCall.meaning
        (fun texts buffers => ∀ buffer, Sound (texts buffer) (buffers buffer))
        (fun _ => []) (fun _ => {}) calls ↔
      Guarded StringbufCall.apply StringbufCall.meaning
        (fun texts buffers call => call.Fits texts buffers) (fun _ => []) (fun _ => {}) calls :=
  have initial : AllHeld (fun _ => []) fun _ => {} := fun _ => held_empty
  refines_iff (fun _ _ stored buffer => (stored buffer).sound)
    (fun _ _ call stored => stored.kept call) (fun _ _ call _ stored => stored.forced call)
    initial calls

/-- Text that is printed to an empty buffer has its NUL behind the size. -/
theorem not_refines_printf :
    ¬ Refines StringbufCall.apply StringbufCall.meaning
        (fun texts buffers => ∀ buffer, Sound (texts buffer) (buffers buffer))
        (fun _ => []) (fun _ => {}) [.printf 0 (some [97])] := by
  rintro ⟨next, printed, sound, -⟩
  cases printed
  exact absurd ((sound 0).stored [97, 0] rfl).2.1 (by decide)

end Testbus.Util
