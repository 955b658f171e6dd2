import Mathlib

/-! Streams of frames that tell their own size. Such a stream is cut into frames in
one way only, however it arrives. -/

namespace Lib.Framing

/-- How many items the frame has that a stream begins with. It shows once the head of
the frame is there, and then for good. -/
structure Sizing (α : Type) where
  size : List α → Option Nat
  positive : ∀ {stream n}, size stream = some n → 0 < n
  stable : ∀ {stream n}, size stream = some n → ∀ more, size (stream ++ more) = some n

/-- The items are exactly one frame. -/
def Sizing.Whole (S : Sizing α) (frame : List α) : Prop := S.size frame = some frame.length

/-- The items are the beginning of a frame and no more. -/
def Sizing.Unfinished (S : Sizing α) (rest : List α) : Prop := ∀ n, S.size rest = some n → rest.length < n

/-- The complete frames of a stream. -/
def Sizing.frames (S : Sizing α) (stream : List α) : List (List α) :=
  match _sized : S.size stream with
  | none => []
  | some n =>
    if n ≤ stream.length then stream.take n :: S.frames (stream.drop n) else []
termination_by stream.length
decreasing_by
  have positive := S.positive (by assumption)
  rw [List.length_drop]
  omega

variable {S : Sizing α} {frame rest : List α}

theorem frames_unfinished (unfinished : S.Unfinished rest) : S.frames rest = [] := by
  rw [Sizing.frames]
  split
  · rfl
  · rename_i n found
    rw [if_neg (Nat.not_le.mpr (unfinished n found))]

/-- The first frame is cut off, whatever follows it. -/
theorem frames_whole (whole : S.Whole frame) (rest : List α) : S.frames (frame ++ rest) = frame :: S.frames rest := by
  have found := S.stable whole rest
  rw [Sizing.frames]
  split
  · rename_i none'
    cases none'.symm.trans found
  · rename_i n some'
    cases some'.symm.trans found
    rw [if_pos (by simp), List.take_left, List.drop_left]

/-- Frames are cut off one by one, whatever follows them. -/
theorem frames_append (whole : ∀ frame ∈ fs, S.Whole frame) (rest : List α) :
    S.frames (fs.flatten ++ rest) = fs ++ S.frames rest := by
  induction fs with
  | nil => rfl
  | cons frame fs ih =>
    obtain ⟨here, later⟩ := List.forall_mem_cons.mp whole
    rw [List.flatten_cons, List.append_assoc, frames_whole here, ih later, List.cons_append]

/-- Frames followed by the beginning of another one are cut as they were put together. -/
theorem frames_flatten (whole : ∀ frame ∈ fs, S.Whole frame) (unfinished : S.Unfinished rest) :
    S.frames (fs.flatten ++ rest) = fs := by
  rw [frames_append whole, frames_unfinished unfinished, List.append_nil]

/-- A stream of frames begins with the frames of what it begins with. -/
theorem prefix_of_flatten (whole : ∀ frame ∈ fs, S.Whole frame) (whole' : ∀ frame ∈ gs, S.Whole frame)
    (front : fs.flatten <+: gs.flatten) : fs <+: gs := by
  obtain ⟨rest, same⟩ := front
  have all : S.frames (gs.flatten ++ []) = gs := frames_flatten whole' fun n found => S.positive found
  rw [List.append_nil, ← same, frames_append whole] at all
  exact ⟨S.frames rest, all⟩

end Lib.Framing
