import Testbus.Xml.RoundTrip

namespace Testbus.Xml

open Lib Program

/-- The reader in front of a text, which it reads up to a tag and expands. -/
def readText (fuel : Nat) : Reader (Option Bytes) := do
  match ← getc with
  | none => pure none
  | some cc => cdataLoop fuel [] cc

/-- A text that stands in front of a tag, with its entities expanded. -/
def expanded (written : Bytes) : Except Stop (Option Bytes) :=
  (run BufferInput.handle (readText (fuelFor written.length))
    (BufferInput.reader (written ++ [60]))).map Prod.fst

/-- Each `&` begins one of the entities that the writer makes. -/
def Ampersands (written : Bytes) : Prop :=
  ∀ before after, written = before ++ 38 :: after →
    ∃ name ∈ ["lt;", "gt;", "amp;"], ascii name.toList <+: after

/-- The text can be escaped, into one with the property. -/
def Escapes (cdata : CString) (property : Escaped → Prop) : Prop :=
  ∃ escaped, xmlEscapeEntities cdata = some escaped ∧ property escaped

/-- A block that is allocated is filled to its end with the text and its NUL. -/
def Escaped.Filled (escaped : Escaped) : Prop :=
  ∀ allocated, escaped.allocated = some allocated → escaped.text.length + 1 = allocated

section Reading

variable {content written rest : Bytes} {text : Text} {cc : UInt8} {fuel : Nat}

theorem written_plain (angle : 60 ∉ written) (ampersand : 38 ∉ written) : Written written written := by
  induction written with
  | nil => exact .nil
  | cons cc rest ih =>
    simp only [List.mem_cons, not_or] at angle ampersand
    exact .plain (Ne.symm angle.1) (Ne.symm ampersand.1) (ih angle.2 ampersand.2)

theorem Ampersands.cons (other : cc ≠ 38) (clean : Ampersands written) : Ampersands (cc :: written) := by
  rintro (_ | ⟨b, before⟩) after split
  · exact absurd (List.cons.inj split).1 other
  · exact clean before after (List.cons.inj split).2

theorem angle_written (form : Written content written) : 60 ∉ written := by
  induction form with
  | nil => exact List.not_mem_nil
  | plain angle ampersand form ih => simp [angle.symm, ih]
  | entity entity form ih =>
    simp only [List.mem_cons, Prod.mk.injEq, List.not_mem_nil, or_false] at entity
    rcases entity with ⟨rfl, -⟩ | ⟨rfl, -⟩ | ⟨rfl, -⟩ <;> simp [ascii, ih]

/-- What a text is written as has no markup. -/
theorem ampersands_written (form : Written content written) : Ampersands written := by
  induction form with
  | nil =>
    intro before after split
    simp at split
  | plain angle ampersand form ih => exact ih.cons ampersand
  | @entity cc name content written entity form ih =>
    rintro (_ | ⟨b, before⟩) after split
    · obtain rfl : name ++ 59 :: written = after := (List.cons.inj split).2
      simp only [List.mem_cons, Prod.mk.injEq, List.not_mem_nil, or_false] at entity
      rcases entity with ⟨rfl, -⟩ | ⟨rfl, -⟩ | ⟨rfl, -⟩
      · exact ⟨"lt;", by simp, written, by simp [ascii]⟩
      · exact ⟨"gt;", by simp, written, by simp [ascii]⟩
      · exact ⟨"amp;", by simp, written, by simp [ascii]⟩
    · -- the name of an entity has no ampersand, so that this one is behind it
      have inner : Ampersands (name ++ 59 :: written) := by
        simp only [List.mem_cons, Prod.mk.injEq, List.not_mem_nil, or_false] at entity
        rcases entity with ⟨rfl, -⟩ | ⟨rfl, -⟩ | ⟨rfl, -⟩ <;>
          simp only [ascii, String.reduceToList, List.map_cons, List.map_nil, List.cons_append, List.nil_append] <;>
          repeat' refine Ampersands.cons (by decide) ?_
        all_goals exact ih
      exact inner before after (List.cons.inj split).2

theorem expanded_written (form : Written content written) : expanded written = .ok (some content) := by
  have reads : Gives .buffer (readText (fuelFor written.length)) { rest := written ++ [60] }
      fun found _ => found = some content := by
    obtain ⟨cc, more, split⟩ := List.exists_cons_of_ne_nil (show written ++ [60] ≠ [] by simp)
    apply gives_getc split
    intro t rest last _
    have length := congrArg List.length split
    simp only [List.length_append, List.length_cons, List.length_nil] at length
    apply (gives_cdataLoop [] form (by rw [rest, split]) last (by
      rw [rest, fuelFor]; omega)).weaken
    rintro _ _ ⟨rfl, -, -⟩
    rfl
  obtain ⟨_, text, ran, rfl⟩ := reads.ends
  obtain ⟨xr, buffer, -⟩ := BufferInput.exact_simulates.ok _ (BufferInput.reads_reader _) ran
  rw [expanded, buffer]
  rfl

/-- The text behind an entity ends as it did. -/
theorem getLast_entity (ended : text.rest.getLast? = some 60) (passes : lexEntity text.rest = .passes rest) :
    rest.getLast? = some 60 := by
  unfold lexEntity at passes
  dsimp only at passes
  split at passes
  · cases passes
  split at passes
  · cases passes
  next semicolon rest' behind =>
    obtain rfl : rest' = rest := by
      split at passes
      · cases passes
      split at passes
      · exact Piece.passes.inj passes
      · cases passes
    have found : semicolon = 59 := by
      have head := List.head?_dropWhile_not (· ≠ 59) text.rest
      rw [behind] at head
      simpa using head
    rw [← List.takeWhile_append_dropWhile (p := (· ≠ 59)) (l := text.rest), behind, found,
      List.getLast?_append_of_ne_nil _ (List.cons_ne_nil _ _)] at ended
    cases rest' with
    | nil => cases ended
    | cons b rest' => rwa [List.getLast?_cons_cons] at ended

/-- A text up to a tag is passed as it is, or something is missing from it. -/
theorem shorter_cdataLoop (res : Bytes) (last : text.last = some cc) (enough : text.rest.length + 1 < fuel)
    (ended : (cc :: text.rest).getLast? = some 60) :
    Ensures (Text.exact .buffer) (fun check => check.image ≠ none) (cdataLoop fuel res cc) text fun found t =>
      ∀ value, found = some value → t.rest ≠ [] ∧
        (value.length + t.rest.length ≤ res.length + text.rest.length ∨
          ∃ passed, cc :: text.rest = passed ++ t.rest ∧ value = res ++ passed ∧ 60 ∉ passed ∧ 38 ∉ passed) := by
  induction fuel generalizing res cc text with
  | zero => omega
  | succ fuel ih =>
    rw [cdataLoop]
    split
    next tag =>
      cases tag
      apply exact_ungetc last
      intro t rest _
      have whole : t.rest = 60 :: text.rest := rest
      refine ensures_pure.mpr ?_
      rintro _ ⟨rfl⟩
      exact ⟨by simp [whole], .inr ⟨[], whole.symm, (List.append_nil _).symm, List.not_mem_nil, List.not_mem_nil⟩⟩
    next tag =>
      have filled : text.rest ≠ [] := by
        intro nothing
        rw [nothing] at ended
        exact tag (Option.some.inj ended)
      have ended' : text.rest.getLast? = some 60 := by
        obtain ⟨b, rest, split⟩ := List.exists_cons_of_ne_nil filled
        rwa [split, List.getLast?_cons_cons, ← split] at ended
      split
      next entity =>
        cases entity
        refine (exact_expandEntity res (by omega) fun _ check hazard => ?_).then fun found t expanded => ?_
        · rcases hazard with rfl | rfl
          · exact Option.some_ne_none _
          · exact Option.some_ne_none _
        cases found with
        | none => exact ensures_pure.mpr fun _ same => absurd same (Option.some_ne_none _).symm
        | some value =>
          obtain ⟨passes, -, byte, -, rfl⟩ := expanded
          have within := within_entity text.rest
          rw [passes] at within
          have less : t.rest.length < text.rest.length := within
          have behind := getLast_entity ended' passes
          apply exact_getc
          · intro t' start _ _
            rw [start] at behind
            cases behind
          · intro next t' start last' _
            rw [start] at behind
            rw [start, List.length_cons] at less
            apply (ih (res ++ [byte]) last' (by omega) behind).weaken
            intro found t'' here value same
            obtain ⟨nonempty, shorter | ⟨passed, split, rfl, -⟩⟩ := here value same
            · simp only [List.length_append, List.length_singleton] at shorter
              exact ⟨nonempty, .inl (by omega)⟩
            · have lengths := congrArg List.length split
              simp only [List.length_append, List.length_cons] at lengths
              refine ⟨nonempty, .inl ?_⟩
              simp only [List.length_append, List.length_cons, List.length_nil]
              omega
      next entity =>
        apply (ensures_pure.mpr rfl : Ensures _ _ (pure (some (res ++ [cc]))) text fun found t =>
          (found, t) = (some (res ++ [cc]), text)).then
        rintro _ _ ⟨rfl⟩
        apply exact_getc
        · intro t' start _ _
          exact absurd start filled
        · intro next t' start last' _
          rw [start] at ended'
          rw [start, List.length_cons] at enough
          apply (ih (res ++ [cc]) last' (by omega) ended').weaken
          intro found t'' here value same
          obtain ⟨nonempty, shorter | ⟨passed, split, rfl, angle, ampersand⟩⟩ := here value same
          · simp only [List.length_append, List.length_singleton] at shorter
            exact ⟨nonempty, .inl (by rw [start, List.length_cons]; omega)⟩
          · refine ⟨nonempty, .inr ⟨cc :: passed, ?_, by simp, ?_, ?_⟩⟩
            · rw [start, split, List.cons_append]
            · simp [Ne.symm tag, angle]
            · simp [Ne.symm entity, ampersand]

theorem plain_of_expanded {cdata : CString} (reads : expanded cdata = .ok (some cdata)) : 60 ∉ cdata ∧ 38 ∉ cdata := by
  have short : Ensures (Text.exact .buffer) (fun check => check.image ≠ none) (readText (fuelFor cdata.length))
      { rest := cdata ++ [60] } fun found _ => ∀ value, found = some value →
        value.length < cdata.length ∨ 60 ∉ value ∧ 38 ∉ value := by
    apply exact_getc
    · intro t start _ _
      simp at start
    · intro cc t start last _
      have start : cdata ++ [60] = cc :: t.rest := start
      have length := congrArg List.length start
      simp only [List.length_append, List.length_cons, List.length_nil] at length
      apply (shorter_cdataLoop [] last (by rw [fuelFor]; omega) (by rw [← start, List.getLast?_concat])).weaken
      intro found t' here value same
      obtain ⟨nonempty, shorter | ⟨passed, -, rfl, plain⟩⟩ := here value same
      · have := List.length_pos_of_ne_nil nonempty
        rw [List.length_nil] at shorter
        exact .inl (by omega)
      · exact .inr plain
  have begins := BufferInput.reads_reader (cdata ++ [60])
  rw [expanded] at reads
  cases ran : run (Text.exact .buffer) (readText (fuelFor cdata.length)) { rest := cdata ++ [60] } with
  | ok done =>
    obtain ⟨xr, buffer, -⟩ := BufferInput.exact_simulates.ok _ begins ran
    rw [buffer] at reads
    exact (short.ok ran cdata (Except.ok.inj reads)).resolve_left (Nat.lt_irrefl _)
  | error check =>
    obtain ⟨stop, image⟩ := Option.ne_none_iff_exists'.mp (short.error ran)
    rw [BufferInput.exact_simulates.error _ begins ran image] at reads
    cases reads

end Reading

section Escaping

variable {cdata : CString} {property : Escaped → Prop}

theorem escapes_low (escapes : Escapes cdata property) : ∀ b ∈ cdata, b < 128 := by
  obtain ⟨escaped, returned, -⟩ := escapes
  intro b member
  by_contra high
  rw [xmlEscapeEntities_high member high] at returned
  cases returned

/-- A text is replaced while the counter holds, and is returned as it is if that wraps to zero. -/
theorem escapes_text (content : Bytes → Prop) : Escapes cdata (fun escaped => content escaped.text) ↔
    (∀ b ∈ cdata, b < 128) ∧ (expansion cdata < 2 ^ 32 ∧ content (cdata.flatMap escape) ∨
      ¬ expansion cdata < 2 ^ 32 ∧ 2 ^ 32 ∣ expansion cdata ∧ content cdata) := by
  refine ⟨fun escapes => ⟨escapes_low escapes, ?_⟩, ?_⟩
  · have low := escapes_low escapes
    obtain ⟨escaped, returned, holds⟩ := escapes
    by_cases room : expansion cdata < 2 ^ 32
    · have text := xmlEscapeEntities_room low room
      rw [returned] at text
      exact .inl ⟨room, Option.some.inj text ▸ holds⟩
    · rw [xmlEscapeEntities_low low, if_neg room] at returned
      split at returned
      next wraps =>
        cases returned
        exact .inr ⟨room, wraps, holds⟩
      next => cases returned
  · rintro ⟨low, ⟨room, holds⟩ | ⟨-, wraps, holds⟩⟩
    · obtain ⟨escaped, returned, same⟩ := Option.map_eq_some_iff.mp (xmlEscapeEntities_room low room)
      exact ⟨escaped, returned, show content escaped.text from same ▸ holds⟩
    · exact ⟨_, (xmlEscapeEntities_low low).trans (if_pos wraps), holds⟩

/-- The block has a byte too many for each byte that is replaced. -/
theorem escapes_filled : Escapes cdata Escaped.Filled ↔ (∀ b ∈ cdata, b < 128) ∧ 2 ^ 32 ∣ expansion cdata := by
  refine ⟨fun escapes => ⟨escapes_low escapes, ?_⟩, fun ⟨low, wraps⟩ => ?_⟩
  · obtain ⟨escaped, returned, filled⟩ := escapes
    have length := length_flatMap_escape cdata
    have size : expansion cdata = 5 * cdata.count 38 + 4 * cdata.count 60 + 4 * cdata.count 62 := rfl
    rw [xmlEscapeEntities_low (escapes_low ⟨escaped, returned, filled⟩)] at returned
    by_contra counted
    rw [if_neg counted] at returned
    split at returned
    · cases returned
      have exact_ : (cdata.flatMap escape).length + 1 = expansion cdata + cdata.length + 1 := filled _ rfl
      have nothing : expansion cdata = 0 := by omega
      exact counted (nothing ▸ Nat.dvd_zero _)
    · cases returned
  · exact ⟨_, (xmlEscapeEntities_low low).trans (if_pos wraps), nofun⟩

end Escaping

/-- The table is read inside for the bytes below 128. While the 32 bits of the counter hold what it counts,
the text has no markup and reads as the original, from a block that is too long if it is allocated at all;
beyond them, only a counter that wraps to zero is harmless, for a text with no markup of its own. -/
theorem escapes_iff (cdata : CString) :
    ((∃ expand copy, expandLoop cdata 0 = some expand ∧ copyLoop cdata = some copy) ↔ ∀ b ∈ cdata, b < 128) ∧
    (Escapes cdata Escaped.Filled ↔ (∀ b ∈ cdata, b < 128) ∧ 2 ^ 32 ∣ expansion cdata) ∧
    (Escapes cdata (fun escaped => 60 ∉ escaped.text ∧ Ampersands escaped.text) ↔
      (∀ b ∈ cdata, b < 128) ∧ (expansion cdata < 2 ^ 32 ∨
        2 ^ 32 ∣ expansion cdata ∧ 60 ∉ cdata ∧ Ampersands cdata)) ∧
    (Escapes cdata (fun escaped => expanded escaped.text = .ok (some cdata)) ↔
      (∀ b ∈ cdata, b < 128) ∧ (expansion cdata < 2 ^ 32 ∨
        2 ^ 32 ∣ expansion cdata ∧ 60 ∉ cdata ∧ 38 ∉ cdata)) := by
  have form := written_escape cdata
  have clean : 60 ∉ cdata.flatMap escape ∧ Ampersands (cdata.flatMap escape) :=
    ⟨angle_written form, ampersands_written form⟩
  refine ⟨⟨?_, fun low => ⟨_, _, expandLoop_low low 0, copyLoop_low low⟩⟩, escapes_filled, ?_, ?_⟩
  · rintro ⟨expand, -, counted, -⟩ b member
    by_contra high
    rw [expandLoop_high member high] at counted
    cases counted
  · rw [escapes_text fun text => 60 ∉ text ∧ Ampersands text, and_iff_left clean]
    tauto
  · rw [escapes_text fun text => expanded text = .ok (some cdata), and_iff_left (expanded_written form)]
    have back : expanded cdata = .ok (some cdata) ↔ 60 ∉ cdata ∧ 38 ∉ cdata :=
      ⟨plain_of_expanded, fun plain => expanded_written (written_plain plain.1 plain.2)⟩
    rw [back]
    tauto

/-- The first byte of "é" is a negative `char`, and the block for "<" is a byte longer than its text. -/
theorem escapes_utf8 :
    (¬ ∃ expand copy, expandLoop [0xC3, 0xA9] 0 = some expand ∧ copyLoop [0xC3, 0xA9] = some copy) ∧
      ¬ Escapes [60] Escaped.Filled := by
  constructor
  · rintro ⟨expand, -, counted, -⟩
    rw [expandLoop_high (b := 0xC3) (by decide) (by decide)] at counted
    cases counted
  · rw [escapes_filled]
    rintro ⟨-, wraps⟩
    exact absurd (Nat.le_of_dvd (by decide) wraps) (by decide)

end Testbus.Xml
