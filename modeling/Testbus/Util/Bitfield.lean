import Testbus.Lib.Cells
import Testbus.Lib.Refines
import Testbus.Lib.Words

namespace Testbus.Util

open Lib Cells Words

/-- What `field` points to: `__local_field`, or a block of its own. -/
inductive FieldPtr
  | null
  | inline
  | heap (words : List (BitVec 32))
  deriving DecidableEq

structure NiBitfield where
  size : Nat := 0
  field : FieldPtr := .null
  localField : List (BitVec 32) := List.replicate 4 0#32
  deriving DecidableEq

def NiBitfield.words (bf : NiBitfield) : List (BitVec 32) :=
  match bf.field with
  | .null => []
  | .inline => bf.localField
  | .heap words => words

def NiBitfield.put (bf : NiBitfield) (words : List (BitVec 32)) : NiBitfield :=
  match bf.field with
  | .null => bf
  | .inline => { bf with localField := words }
  | .heap _ => { bf with field := .heap words }

/-- `__ni_bitfield_grow`. `sizeof(bf->__local_field)` is 16, which are the bytes of 4 words, and
`memcpy` is given `bf->size`, which are words, as a number of bytes. -/
def bitfieldGrow (bf : NiBitfield) (nbits : Nat) : Except Fault NiBitfield :=
  let nwords := (nbits + 31) % 2 ^ 32 / 32
  if bf.size ≤ nwords then
    if nwords ≤ 16 then
      .ok { size := 16, field := .inline, localField := List.replicate 4 0#32 }
    else if bf.size ≤ 4 * bf.words.length then
      .ok { bf with size := nwords, field := .heap (firstBits bf.words (8 * bf.size) nwords) }
    else .error .outside
  else .ok bf

def niBitfieldSetbit (bf : NiBitfield) (bit : Nat) : Except Fault NiBitfield := do
  let bf ← bitfieldGrow bf bit
  let words ← store bf.words (bit / 32) (1#32 <<< (bit % 32))
  .ok (bf.put words)

def niBitfieldClearbit (bf : NiBitfield) (bit : Nat) : Except Fault NiBitfield := do
  let bf ← bitfieldGrow bf bit
  let word ← load bf.words (bit / 32)
  let words ← store bf.words (bit / 32) (word &&& ~~~(1#32 <<< (bit % 32)))
  .ok (bf.put words)

def niBitfieldTestbit (bf : NiBitfield) (bit : Nat) : Except Fault Bool :=
  if bf.size ≤ bit / 32 then .ok false
  else do
    let word ← load bf.words (bit / 32)
    .ok (decide (word &&& 1#32 <<< (bit % 32) ≠ 0#32))

inductive BitCall
  | setbit (bit : Nat)
  | clearbit (bit : Nat)
  | testbit (bit : Nat)
  deriving DecidableEq

/-- What is seen of a call: the bits of the field once it has grown, or the answer of a test. -/
inductive BitSeen
  | grown (bits : Nat → Bool)
  | answer (result : Bool)

def BitCall.apply (bf : NiBitfield) : BitCall → Except Fault (BitSeen × NiBitfield)
  | .setbit b => do
    let grown ← bitfieldGrow bf b
    let next ← niBitfieldSetbit bf b
    .ok (.grown (bit grown.words), next)
  | .clearbit b => do
    let grown ← bitfieldGrow bf b
    let next ← niBitfieldClearbit bf b
    .ok (.grown (bit grown.words), next)
  | .testbit b => do
    let result ← niBitfieldTestbit bf b
    .ok (.answer result, bf)

/-- The bits whose last call was a set, and the size that the field has by its calls. -/
structure Bits where
  held : Nat → Bool := fun _ => false
  size : Nat := 0

/-- The words that `__ni_bitfield_grow` counts for a bit. -/
def need (b : Nat) : Nat := (b + 31) / 32

def Bits.sizeFor (bits : Bits) (b : Nat) : Nat :=
  if bits.size ≤ need b then if need b ≤ 16 then 16 else need b else bits.size

/-- Growing keeps all bits, and a test answers whether the last call on its bit was a set. -/
def BitCall.meaning (bits : Bits) : BitCall → BitSeen × Bits
  | .setbit b => (.grown bits.held, ⟨Function.update bits.held b true, bits.sizeFor b⟩)
  | .clearbit b => (.grown bits.held, ⟨Function.update bits.held b false, bits.sizeFor b⟩)
  | .testbit b => (.answer (bits.held b), bits)

/-- The word of the bit is there once the field has grown, and growing loses no bit. -/
structure Bits.Reaches (bits : Bits) (b : Nat) : Prop where
  number : b + 31 < 2 ^ 32
  inline : bits.size ≤ 16 → b < 128 ∨ 512 < b
  aligned : bits.size ≤ need b → 512 < b → b % 32 ≠ 0
  kept : bits.size ≤ need b → ∀ other, bits.held other = true → other < 8 * bits.size

/-- A bit is set in a word of its own, and the words behind the four of the record are not tested. -/
def BitCall.Fits (bits : Bits) : BitCall → Prop
  | .setbit b => bits.Reaches b ∧ ∀ other, other / 32 = b / 32 → bits.held other = true → other = b
  | .clearbit b => bits.Reaches b
  | .testbit b => bits.size = 16 → b < 128 ∨ 512 ≤ b

section Shapes

variable {bf grown : NiBitfield} {size b : Nat}

/-- The number of words that a field of some size really has. -/
def cells (size : Nat) : Nat := if size = 16 then 4 else size

structure Shaped (size : Nat) (bf : NiBitfield) : Prop where
  sized : bf.size = size
  length : bf.words.length = cells size
  null : bf.field = .null → size = 0
  range : size = 0 ∨ 16 ≤ size ∧ size < 2 ^ 27

theorem shaped_empty : Shaped 0 {} := ⟨rfl, rfl, fun _ => rfl, .inl rfl⟩

theorem cells_le (size : Nat) : cells size ≤ size := by
  rw [cells]
  split
  · omega
  · exact Nat.le_refl _

theorem Shaped.put (shaped : Shaped size bf) (words : List (BitVec 32))
    (some_ : 0 < bf.words.length) (length : words.length = bf.words.length) :
    Shaped size (bf.put words) ∧ (bf.put words).words = words := by
  obtain ⟨bfSize, field, localField⟩ := bf
  cases field with
  | null => cases some_
  | inline => exact ⟨⟨shaped.sized, length.trans shaped.length, shaped.null, shaped.range⟩, rfl⟩
  | heap old => exact ⟨⟨shaped.sized, length.trans shaped.length, nofun, shaped.range⟩, rfl⟩

theorem Shaped.grow (shaped : Shaped size bf) (b : Nat) :
    ∃ grown, bitfieldGrow bf b = .ok grown ∧ ∃ size', Shaped size' grown := by
  have range := shaped.range
  have bytes : bf.size ≤ 4 * bf.words.length := by
    rw [shaped.sized, shaped.length, cells]
    split <;> omega
  rw [bitfieldGrow]
  by_cases grows : bf.size ≤ (b + 31) % 2 ^ 32 / 32
  · by_cases small : (b + 31) % 2 ^ 32 / 32 ≤ 16
    · rw [if_pos grows, if_pos small]
      exact ⟨_, rfl, 16, rfl, rfl, nofun, .inr (by decide)⟩
    · rw [if_pos grows, if_neg small, if_pos bytes]
      refine ⟨_, rfl, (b + 31) % 2 ^ 32 / 32, rfl, ?_, nofun, .inr (by omega)⟩
      rw [cells, if_neg (by omega)]
      exact (List.length_map ..).trans List.length_range
  · exact ⟨bf, if_neg grows, size, shaped⟩

end Shapes

section Growing

variable {bits : Bits} {bf grown : NiBitfield}

/-- The field has the bits that the calls left. -/
structure Stored (bits : Bits) (bf : NiBitfield) : Prop where
  shaped : Shaped bits.size bf
  stores : ∀ b, bit bf.words b = bits.held b

theorem Stored.held_lt (stored : Stored bits bf) (held : bits.held b = true) : b / 32 < cells bits.size := by
  rw [← stored.shaped.length]
  by_contra outside
  rw [← stored.stores, bit_outside (Nat.not_lt.mp outside)] at held
  cases held

/-- What growing for a bit makes of the field, for a bit whose words can be counted. -/
theorem Stored.grow (stored : Stored bits bf) (number : b + 31 < 2 ^ 32) :
    ∃ grown, bitfieldGrow bf b = .ok grown ∧ Shaped (bits.sizeFor b) grown ∧
      ∀ other, bit grown.words other =
        if bits.size ≤ need b then
          if need b ≤ 16 then false else bits.held other && decide (other < 8 * bits.size)
        else bits.held other := by
  have counted : (b + 31) % 2 ^ 32 / 32 = need b := by rw [Nat.mod_eq_of_lt number, need]
  have range := stored.shaped.range
  have bytes : bf.size ≤ 4 * bf.words.length := by
    rw [stored.shaped.sized, stored.shaped.length, cells]
    split <;> omega
  rw [bitfieldGrow, stored.shaped.sized, counted, Bits.sizeFor]
  rw [stored.shaped.sized] at bytes
  by_cases grows : bits.size ≤ need b
  · simp only [if_pos grows]
    by_cases small : need b ≤ 16
    · simp only [if_pos small]
      refine ⟨_, rfl, ⟨rfl, rfl, nofun, .inr (by decide)⟩, fun other => ?_⟩
      exact bit_replicate 4 other
    · simp only [if_neg small, if_pos bytes]
      refine ⟨_, rfl, ⟨rfl, ?_, nofun, .inr ?_⟩, fun other => ?_⟩
      · rw [cells, if_neg (by omega)]
        exact (List.length_map ..).trans List.length_range
      · rw [need] at small ⊢
        omega
      · change bit (firstBits bf.words (8 * bits.size) (need b)) other = _
        rw [bit_firstBits (by decide), stored.stores]
        by_cases first : other < 8 * bits.size
        · rw [decide_eq_true first, decide_eq_true (show other / 32 < need b by omega), Bool.and_true]
        · rw [decide_eq_false first, Bool.and_false, Bool.false_and]
  · simp only [if_neg grows]
    exact ⟨bf, rfl, stored.shaped, stored.stores⟩

/-- A field grows for a bit as it should exactly if the bit is reached. -/
theorem Stored.grow_iff (stored : Stored bits bf) (grew : bitfieldGrow bf b = .ok grown) :
    ((∀ other, bit grown.words other = bits.held other) ∧ b / 32 < grown.words.length) ↔ bits.Reaches b := by
  by_cases number : b + 31 < 2 ^ 32
  case neg =>
    obtain ⟨grown', grew', size, shaped⟩ := stored.shaped.grow b
    obtain rfl := Except.ok.inj (grew.symm.trans grew')
    refine iff_of_false (fun ⟨_, inside⟩ => ?_) fun reaches => number reaches.number
    have range := shaped.range
    have length := cells_le size
    rw [shaped.length] at inside
    omega
  obtain ⟨grown', grew', shaped, bits'⟩ := stored.grow number
  obtain rfl := Except.ok.inj (grew.symm.trans grew')
  have range := stored.shaped.range
  rw [shaped.length, cells, Bits.sizeFor]
  simp only [bits']
  by_cases grows : bits.size ≤ need b
  · by_cases small : need b ≤ 16
    · simp only [if_pos grows, if_pos small, if_true]
      rw [need] at small grows
      constructor
      · rintro ⟨lost, inside⟩
        refine ⟨number, fun _ => .inl (by omega), fun _ big => by omega, fun _ other held => ?_⟩
        exact absurd ((lost other).trans held) (by decide)
      · intro reaches
        have first := reaches.inline (by omega)
        have kept := reaches.kept grows
        refine ⟨fun other => ?_, by omega⟩
        by_contra held
        have below := kept other (by simpa using Ne.symm held)
        have inside := stored.held_lt (by simpa using Ne.symm held)
        rw [cells] at inside
        split at inside <;> omega
    · simp only [if_pos grows, if_neg small]
      rw [need] at small grows
      rw [if_neg (by rw [need]; omega), need]
      constructor
      · rintro ⟨kept, inside⟩
        refine ⟨number, fun _ => .inr (by omega), fun _ _ => by omega, fun _ other held => ?_⟩
        have below := kept other
        rw [held, Bool.true_and, decide_eq_true_eq] at below
        exact below
      · intro reaches
        have aligned := reaches.aligned grows (by omega)
        refine ⟨fun other => ?_, by omega⟩
        cases held : bits.held other with
        | false => rfl
        | true => rw [Bool.true_and, decide_eq_true (reaches.kept grows other held)]
  · simp only [if_neg grows]
    rw [need] at grows
    constructor
    · rintro ⟨-, inside⟩
      refine ⟨number, fun low => .inl ?_, fun low => absurd low grows, fun low => absurd low grows⟩
      rw [if_pos (by omega)] at inside
      omega
    · intro reaches
      refine ⟨fun other => trivial, ?_⟩
      split
      · have first := reaches.inline (by omega)
        omega
      · omega

theorem Stored.grows (stored : Stored bits bf) (reaches : bits.Reaches b) :
    ∃ grown, bitfieldGrow bf b = .ok grown ∧ Shaped (bits.sizeFor b) grown ∧
      (∀ other, bit grown.words other = bits.held other) ∧ b / 32 < grown.words.length := by
  obtain ⟨grown, grew, shaped, -⟩ := stored.grow reaches.number
  exact ⟨grown, grew, shaped, (stored.grow_iff grew).mpr reaches⟩

theorem Stored.setbit (stored : Stored bits bf) (reaches : bits.Reaches b)
    (alone : ∀ other, other / 32 = b / 32 → bits.held other = true → other = b) :
    ∃ next, BitCall.apply bf (.setbit b) = .ok (.grown bits.held, next) ∧
      Stored ⟨Function.update bits.held b true, bits.sizeFor b⟩ next := by
  obtain ⟨grown, grew, shaped, same, inside⟩ := stored.grows reaches
  obtain ⟨shaped', words⟩ := shaped.put (grown.words.set (b / 32) (1#32 <<< (b % 32))) (by omega) List.length_set
  refine ⟨_, ?_, shaped', fun other => ?_⟩
  · rw [BitCall.apply, niBitfieldSetbit, grew]
    simp only [bind, Except.bind, store_of_lt inside, funext same]
  · change _ = Function.update bits.held b true other
    rw [words, bit_assign (by decide) inside, same]
    by_cases here : other = b
    · rw [here, Function.update_self, if_pos rfl, decide_eq_true rfl]
    · rw [Function.update_of_ne here, decide_eq_false here]
      split
      case isTrue near =>
        exact (Bool.eq_false_iff.mpr fun held => here (alone other near held)).symm
      case isFalse => rfl

theorem Stored.clearbit (stored : Stored bits bf) (reaches : bits.Reaches b) :
    ∃ next, BitCall.apply bf (.clearbit b) = .ok (.grown bits.held, next) ∧
      Stored ⟨Function.update bits.held b false, bits.sizeFor b⟩ next := by
  obtain ⟨grown, grew, shaped, same, inside⟩ := stored.grows reaches
  obtain ⟨shaped', words⟩ := shaped.put (grown.words.set (b / 32) (grown.words[b / 32] &&& ~~~(1#32 <<< (b % 32))))
    (by omega) List.length_set
  refine ⟨_, ?_, shaped', fun other => ?_⟩
  · rw [BitCall.apply, niBitfieldClearbit, grew]
    simp only [bind, Except.bind, load_of_lt inside, store_of_lt inside, funext same]
  · change _ = Function.update bits.held b false other
    rw [words, bit_clear (by decide) inside, same]
    by_cases here : other = b
    · rw [here, Function.update_self, decide_eq_false (not_not.mpr rfl), Bool.and_false]
    · rw [Function.update_of_ne here, decide_eq_true here, Bool.and_true]

theorem Stored.testbit (stored : Stored bits bf) :
    niBitfieldTestbit bf b =
      if bits.size = 16 → b < 128 ∨ 512 ≤ b then .ok (bits.held b) else .error .outside := by
  have length := stored.shaped.length
  have none_ (outside : cells bits.size ≤ b / 32) : bits.held b = false :=
    Bool.eq_false_iff.mpr fun held => absurd (stored.held_lt held) (Nat.not_lt.mpr outside)
  rw [niBitfieldTestbit, stored.shaped.sized]
  by_cases past : bits.size ≤ b / 32
  · rw [if_pos past, if_pos fun inline => .inr (by omega), none_ (Nat.le_trans (cells_le bits.size) past)]
  · rw [if_neg past]
    by_cases inside : b / 32 < bf.words.length
    · rw [load_of_lt inside, if_pos, ← stored.stores, ← test_bit (by decide) inside]
      · rfl
      · intro inline
        rw [length, cells, if_pos inline] at inside
        omega
    · rw [load_of_le (Nat.not_lt.mp inside), if_neg]
      · rfl
      · intro fits
        rw [length, cells] at inside
        split at inside
        · have := fits ‹_›
          omega
        · exact past (Nat.not_lt.mp inside)

/-- A call that fits leaves the bits as it should. -/
theorem Stored.kept (stored : Stored bits bf) (call : BitCall) (fits : call.Fits bits) :
    ∃ next, call.apply bf = .ok ((call.meaning bits).1, next) ∧ Stored (call.meaning bits).2 next := by
  cases call with
  | setbit b => exact stored.setbit fits.1 fits.2
  | clearbit b => exact stored.clearbit fits
  | testbit b =>
    have answer := stored.testbit (b := b)
    rw [if_pos (show bits.size = 16 → b < 128 ∨ 512 ≤ b from fits)] at answer
    exact ⟨bf, by rw [BitCall.apply, answer]; rfl, stored⟩

/-- A call that does not fit faults, loses a bit in growing, or leaves another bit wrong. -/
theorem Stored.forced (stored : Stored bits bf) (call : BitCall) (applied : call.apply bf = .ok ((call.meaning bits).1, next))
    (right : ∀ b, bit next.words b = (call.meaning bits).2.held b) : call.Fits bits := by
  cases call with
  | setbit b =>
    obtain ⟨grown, grew, applied⟩ := bind_ok.mp applied
    obtain ⟨next', changed, applied⟩ := bind_ok.mp applied
    obtain ⟨seen, rfl⟩ := Prod.mk.inj (Except.ok.inj applied)
    obtain ⟨grown', grew', changed⟩ := bind_ok.mp changed
    obtain rfl := Except.ok.inj (grew.symm.trans grew')
    obtain ⟨words, changed, put⟩ := bind_ok.mp changed
    obtain ⟨inside, rfl⟩ := store_ok.mp changed
    cases put
    have reaches := (stored.grow_iff grew).mp ⟨congrFun (BitSeen.grown.inj seen), inside⟩
    refine ⟨reaches, fun other near held => ?_⟩
    by_contra different
    obtain ⟨grown', grew', shaped, -⟩ := stored.grows reaches
    obtain rfl := Except.ok.inj (grew.symm.trans grew')
    have words := (shaped.put (grown.words.set (b / 32) (1#32 <<< (b % 32))) (by omega) List.length_set).2
    have lost := right other
    rw [words, bit_assign (by decide) inside, if_pos near, decide_eq_false different] at lost
    exact absurd (lost.trans (Function.update_of_ne different _ _)) (by rw [held]; decide)
  | clearbit b =>
    obtain ⟨grown, grew, applied⟩ := bind_ok.mp applied
    obtain ⟨next', changed, applied⟩ := bind_ok.mp applied
    obtain ⟨seen, rfl⟩ := Prod.mk.inj (Except.ok.inj applied)
    obtain ⟨grown', grew', changed⟩ := bind_ok.mp changed
    obtain rfl := Except.ok.inj (grew.symm.trans grew')
    obtain ⟨word, found, changed⟩ := bind_ok.mp changed
    obtain ⟨inside, -⟩ := load_ok.mp found
    exact (stored.grow_iff grew).mp ⟨congrFun (BitSeen.grown.inj seen), inside⟩
  | testbit b =>
    have answer := stored.testbit (b := b)
    by_contra misses
    rw [if_neg (show ¬ (bits.size = 16 → b < 128 ∨ 512 ≤ b) from misses)] at answer
    rw [BitCall.apply, answer] at applied
    cases applied

end Growing

/-- In a sequence of calls that fit no word outside the field is touched, the field grows without
losing a bit, and it has exactly the bits whose last call was a set. In no other sequence is this
so. -/
theorem bitfield_refines_iff (calls : List BitCall) :
    Machine.Refines BitCall.apply BitCall.meaning
        (fun bits bf => ∀ b, bit bf.words b = bits.held b) {} {} calls ↔
      Machine.Meets BitCall.meaning (fun bits call => call.Fits bits) {} calls := by
  have initial : Stored {} {} := ⟨shaped_empty, fun b => bit_nil b⟩
  have kept := fun bits bf call (stored : Stored bits bf) => stored.kept call
  rw [← Machine.guarded_iff_meets kept initial calls]
  exact Machine.refines_iff (fun _ _ stored => stored.stores) kept
    (fun _ _ call _ stored => stored.forced call) initial calls

/-- Setting a second bit of a word clears the first one. -/
theorem not_refines_two_bits :
    ¬ Machine.Refines BitCall.apply BitCall.meaning
        (fun bits bf => ∀ b, bit bf.words b = bits.held b) {} {}
        [.setbit 0, .setbit 1, .testbit 0] := by
  rintro ⟨first, applied, -, second, applied', right, -⟩
  cases (Prod.mk.inj (Except.ok.inj applied)).2
  cases (Prod.mk.inj (Except.ok.inj applied')).2
  exact absurd (right 0) (by decide)

end Testbus.Util
