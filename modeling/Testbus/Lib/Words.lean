import Mathlib

/-! Bits that are stored in lists of words. -/

namespace Lib.Words

def bit (words : List (BitVec w)) (b : Nat) : Bool := (words.getD (b / w) 0#w).getLsbD (b % w)

/-- The first `n` bits of the words, in `count` words that are zero apart from them. -/
def firstBits (words : List (BitVec w)) (n count : Nat) : List (BitVec w) :=
  (List.range count).map fun i => words.getD i 0#w &&& BitVec.ofNat w (2 ^ (n - w * i) - 1)

section Bits

variable {words : List (BitVec w)} {word : BitVec w} {b other i n count : Nat}

theorem same_place : b / w = other / w ∧ b % w = other % w ↔ b = other := by
  constructor
  · rintro ⟨quotient, remainder⟩
    rw [← Nat.div_add_mod b w, ← Nat.div_add_mod other w, quotient, remainder]
  · rintro rfl
    exact ⟨rfl, rfl⟩

theorem bit_nil (b : Nat) : bit ([] : List (BitVec w)) b = false := by
  rw [bit, List.getD_nil, BitVec.getLsbD_zero]

theorem bit_outside (outside : words.length ≤ b / w) : bit words b = false := by
  rw [bit, List.getD_eq_default _ _ outside, BitVec.getLsbD_zero]

theorem bit_inside (inside : b / w < words.length) : bit words b = words[b / w].getLsbD (b % w) := by
  rw [bit, List.getD_eq_getElem _ _ inside]

theorem bit_replicate (count b : Nat) : bit (List.replicate count 0#w) b = false := by
  by_cases inside : b / w < (List.replicate count 0#w).length
  · rw [bit_inside inside, List.getElem_replicate, BitVec.getLsbD_zero]
  · exact bit_outside (Nat.not_lt.mp inside)

theorem bit_set (inside : i < words.length) (word : BitVec w) (b : Nat) :
    bit (words.set i word) b = if b / w = i then word.getLsbD (b % w) else bit words b := by
  by_cases here : b / w = i
  · have inside' : b / w < (words.set i word).length := by rwa [List.length_set, here]
    rw [if_pos here, bit_inside inside']
    simp only [here, List.getElem_set_self]
  · rw [if_neg here, bit, bit, List.getD_eq_getElem?_getD, List.getElem?_set_ne (Ne.symm here),
      ← List.getD_eq_getElem?_getD]

theorem getLsbD_bit (positive : 0 < w) (b other : Nat) :
    (1#w <<< (b % w)).getLsbD (other % w) = decide (other % w = b % w) := by
  rw [← BitVec.twoPow_eq, BitVec.getLsbD_twoPow, decide_eq_true (Nat.mod_lt b positive), Bool.true_and]
  exact decide_eq_decide.mpr eq_comm

/-- Storing a word with one bit overwrites the other bits of that word. -/
theorem bit_assign (positive : 0 < w) (inside : b / w < words.length) (other : Nat) :
    bit (words.set (b / w) (1#w <<< (b % w))) other =
      if other / w = b / w then decide (other = b) else bit words other := by
  rw [bit_set inside]
  refine if_ctx_congr Iff.rfl (fun here => ?_) fun _ => rfl
  rw [getLsbD_bit positive]
  exact decide_eq_decide.mpr ⟨fun same => same_place.mp ⟨here, same⟩, fun same => same ▸ rfl⟩

theorem bit_clear (positive : 0 < w) (inside : b / w < words.length) (other : Nat) :
    bit (words.set (b / w) (words[b / w] &&& ~~~(1#w <<< (b % w)))) other = (bit words other && decide (other ≠ b)) := by
  rw [bit_set inside]
  by_cases here : other / w = b / w
  · have small : other % w < w := Nat.mod_lt other positive
    have bit_here : bit words other = words[b / w].getLsbD (other % w) := by
      rw [bit_inside (here ▸ inside)]
      simp only [here]
    rw [if_pos here, BitVec.getLsbD_and, BitVec.getLsbD_not, getLsbD_bit positive,
      decide_eq_true small, Bool.true_and, bit_here, ← decide_not]
    congr 1
    exact decide_eq_decide.mpr ⟨fun different same => different (same ▸ rfl), fun different same =>
        different (same_place.mp ⟨here, same⟩)⟩
  · have different : other ≠ b := fun same => here (same ▸ rfl)
    rw [if_neg here, decide_eq_true different, Bool.and_true]

theorem test_bit (positive : 0 < w) (inside : b / w < words.length) :
    decide (words[b / w] &&& 1#w <<< (b % w) ≠ 0#w) = bit words b := by
  have one : BitVec.twoPow w (b % w) ≠ 0#w := by
    intro zero
    have bit := congrArg (fun word => word.getLsbD (b % w)) zero
    simp [Nat.mod_lt b positive] at bit
  rw [bit_inside inside, ← BitVec.twoPow_eq, BitVec.and_twoPow]
  cases words[b / w].getLsbD (b % w) <;> simp [one]

theorem bit_firstBits (positive : 0 < w) (words : List (BitVec w)) (n count b : Nat) :
    bit (firstBits words n count) b = (bit words b && decide (b < n) && decide (b / w < count)) := by
  by_cases inside : b / w < count
  · have length : b / w < (firstBits words n count).length := by
      rwa [firstBits, List.length_map, List.length_range]
    have below : b % w < n - w * (b / w) ↔ b < n := by
      have whole := Nat.div_add_mod b w
      omega
    rw [bit_inside length]
    simp only [firstBits, List.getElem_map, List.getElem_range, BitVec.getLsbD_and,
      BitVec.getLsbD_ofNat, Nat.testBit_two_pow_sub_one, Nat.mod_lt b positive, below, inside,
      decide_true, Bool.true_and, Bool.and_true]
    rfl
  · rw [bit_outside (by rw [firstBits, List.length_map, List.length_range]; omega),
      decide_eq_false inside, Bool.and_false]

end Bits

end Lib.Words
