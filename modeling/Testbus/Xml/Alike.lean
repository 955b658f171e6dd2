import Testbus.Xml.Hazard

/-! A file and a buffer of the same bytes are read alike, unless the reader meets a NUL, puts back
a byte from 128 on, or asks for the line count after a line end. -/

namespace Testbus.Xml

open Lib Program

/-- Read from either input, the bytes never make the reader do what the inputs do not do alike:
meet a NUL, put back a byte from 128 on, or ask for the line count after a line end was read. -/
def Alike (bytes : Bytes) : Prop :=
  run (Text.handle .both) (processDocument (fuelFor bytes.length)) { rest := bytes } ≠
    .error .unlike

/-- Both readers come to the same end, which is not for want of rounds. -/
theorem scan_eq_fromBuffer (bytes : Bytes) (alike : Alike bytes) :
    documentScan bytes = documentFromBuffer bytes ∧ documentScan bytes ≠ .error .outOfFuel := by
  cases ran : run (Text.handle .both) (processDocument (fuelFor bytes.length)) { rest := bytes } with
  | ok done =>
    obtain ⟨document, text⟩ := done
    obtain ⟨xr, file, -⟩ := FileInput.simulates.ok _ (reads_file bytes) ran
    obtain ⟨xr', buffer, -⟩ := BufferInput.simulates.ok _ (reads_buffer bytes) ran
    rw [documentScan, documentFromBuffer, file, buffer]
    exact ⟨rfl, nofun⟩
  | error check =>
    have enough : bytes.length + 2 < fuelFor bytes.length := by simp [fuelFor]
    have hazardous {seen : Check} (image : check.seen = some seen) : Hazardous seen :=
      ((exact_processDocument bytes enough).error
        ((handle_exact .buffer).error _ ⟨.refl bytes⟩ ran image)).1
    cases check with
    | stop reason =>
      have file := FileInput.simulates.error _ (reads_file bytes) ran rfl
      have buffer := BufferInput.simulates.error _ (reads_buffer bytes) ran rfl
      rw [documentScan, documentFromBuffer, file, buffer]
      refine ⟨rfl, ?_⟩
      rintro ⟨rfl⟩
      rcases hazardous rfl with same | same <;> cases same
    | misplaced => rcases hazardous rfl with same | same <;> cases same
    | unlike => exact absurd ran alike

theorem scan_eq_fromBuffer_element :
    documentScan (ascii "<a b='c'>text<d/> &lt;</a>".toList) =
        documentFromBuffer (ascii "<a b='c'>text<d/> &lt;</a>".toList) ∧
      documentScan (ascii "<a b='c'>text<d/> &lt;</a>".toList) ≠ .error .outOfFuel := by
  apply scan_eq_fromBuffer
  have ends : (run (Text.handle .both) (processDocument 30)
      { rest := ascii "<a b='c'>text<d/> &lt;</a>".toList }).isOk = true := by decide +kernel
  intro unlike
  rw [show 30 = fuelFor (ascii "<a b='c'>text<d/> &lt;</a>".toList).length by decide, unlike] at ends
  cases ends

/-- An element on the second line, which a buffer does not count. -/
theorem scan_ne_fromBuffer :
    documentScan (ascii "\n<a/>".toList) ≠ documentFromBuffer (ascii "\n<a/>".toList) := by
  have file : (documentScan (ascii "\n<a/>".toList)).map (Option.map fun root =>
      root.children.map Node.line) = .ok (some [some 2]) := by decide +kernel
  have buffer : (documentFromBuffer (ascii "\n<a/>".toList)).map (Option.map fun root =>
      root.children.map Node.line) = .ok (some [some 1]) := by decide +kernel
  intro same
  rw [same, buffer] at file
  revert file
  decide

end Testbus.Xml
