import Testbus.Xml.Input

namespace Testbus.Xml

open Lib Program

inductive Source
  | file
  | buffer
  deriving DecidableEq

/-- The text after a byte is put back. A buffer does not take a byte from 128 on. -/
def unget (source : Source) (cc : UInt8) (rest : Bytes) : Bytes :=
  if source = .buffer && 128 ≤ cc then rest else cc :: rest

/-- The text as either input gives it and takes it back. -/
def Text.exact (source : Source) : Program.Handler Op Op.Answer Check Text
  | .getc, text =>
    match text.rest with
    | [] => .ok (none, { text with last := none })
    | cc :: rest => .ok (some cc, { text with
        rest
        last := some cc
        read := if cc = 10 then text.read + 1 else text.read })
  | .ungetc none, text => .ok ((), { text with last := none })
  | .ungetc (some cc), text =>
    if text.last ≠ some cc then .error .misplaced
    else .ok ((), { text with
      rest := unget source cc text.rest
      last := none
      back := if cc = 10 then text.back + 1 else text.back })
  | .lineCount, text =>
    match source with
    | .file => .ok (1 + text.read - text.back, text)
    | .buffer => .ok (1 - text.back, text)
  | .state, text => .ok (text.state, text)
  | .setState state, text => .ok ((), { text with state })
  | .stop reason, _ => .error (.stop reason)

theorem exact_stop (stopped : Text.exact source op text = .error check) (image : check.image = some reason) : op = .stop reason := by
  cases op with
  | stop other =>
    cases stopped
    cases image
    rfl
  | getc =>
    simp only [Text.exact] at stopped
    split at stopped <;> cases stopped
  | ungetc cc =>
    cases cc with
    | none => cases stopped
    | some cc =>
      simp only [Text.exact] at stopped
      split_ifs at stopped
      cases stopped
      cases image
  | lineCount => cases source <;> cases stopped
  | state => cases stopped
  | setState state => cases stopped

namespace FileInput

variable {text : Text}

/-- The reader after a byte of the line buffer. -/
def advance (xr : Xr FileInput) (pos : Nat) (cc : UInt8) : Xr FileInput :=
  { xr with
    input := { xr.input with pos := some (pos + 1) }
    lineCount := if cc = 10 then xr.lineCount + 1 else xr.lineCount }

theorem getcLoop_here {pos : Nat} {cc : UInt8} (rounds : Nat) (here : xr.input.pos = some pos)
    (byte : xr.input.buffer[pos]? = some cc) (nonzero : cc ≠ 0) :
    getcLoop (rounds + 1) xr = (some cc, advance xr pos cc) := by
  have found : xr.input.peek = cc := by simp [peek, here, byte]
  simp [getcLoop, found, nonzero, advance, here]

/-- What is seen of a file: what is seen of each line that `fgets` finds. -/
def seen (file : Bytes) : Bytes :=
  if _ : file ≠ [] then cstr (fgets 511 file).1 ++ seen (fgets 511 file).2 else []
termination_by file.length
decreasing_by exact fgets_shorter (by decide) ‹_›

theorem seen_length (file : Bytes) : (seen file).length ≤ file.length := by
  induction file using seen.induct with
  | case1 file some_ ih =>
    rw [seen, dif_pos some_, List.length_append]
    have line : (cstr (fgets 511 file).1).length ≤ (fgets 511 file).1.length := (List.takeWhile_sublist _).length_le
    have whole := congrArg List.length (fgets_append 511 file)
    rw [List.length_append] at whole
    omega
  | case2 file none_ =>
    rw [seen, dif_neg none_]
    exact Nat.zero_le _

/-- What is still to be seen. -/
def unseen (input : FileInput) : Bytes :=
  (match input.pos with
    | some pos => cstr (input.buffer.drop pos)
    | none => []) ++ seen input.file

/-- A file reader and the text that is seen of the file. -/
structure Shows (text : Text) (xr : Xr FileInput) : Prop where
  rest : text.rest = xr.input.unseen
  last : ∀ cc, text.last = some cc →
    cc ≠ 0 ∧ ∃ pos, xr.input.pos = some (pos + 1) ∧ xr.input.buffer[pos]? = some cc
  lines : xr.lineCount = 1 + text.read - text.back
  state : xr.state = text.state

/-- The byte that the reader is at is the next one to be seen, unless nothing is seen of the line
buffer any more. -/
theorem unseen_cases (input : FileInput) :
    (∃ pos, input.pos = some pos ∧ input.buffer[pos]? = some input.peek ∧ input.peek ≠ 0 ∧
      input.unseen = input.peek :: (cstr (input.buffer.drop (pos + 1)) ++ seen input.file)) ∨
    input.peek = 0 ∧ input.unseen = seen input.file := by
  obtain ⟨buffer, pos, file⟩ := input
  cases pos with
  | none => exact .inr ⟨rfl, rfl⟩
  | some pos =>
    rcases Nat.lt_or_ge pos buffer.length with inside | outside
    · have byte : buffer[pos]? = some (peek ⟨buffer, some pos, file⟩) := by
        simp [peek, List.getElem?_eq_getElem inside]
      have split : buffer.drop pos = peek ⟨buffer, some pos, file⟩ :: buffer.drop (pos + 1) := by
        rw [List.drop_eq_getElem_cons inside]
        congr 1
        exact Option.some.inj ((List.getElem?_eq_getElem inside).symm.trans byte)
      by_cases nul : peek ⟨buffer, some pos, file⟩ = 0
      · refine .inr ⟨nul, ?_⟩
        simp only [unseen, split, cstr]
        rw [List.takeWhile_cons_of_neg (by simp [nul]), List.nil_append]
      · refine .inl ⟨pos, rfl, byte, nul, ?_⟩
        simp only [unseen]
        rw [split, cstr, List.takeWhile_cons_of_pos (by simp [nul])]
        rfl
    · refine .inr ⟨by simp [peek, List.getElem?_eq_none outside], ?_⟩
      simp only [unseen]
      rw [List.drop_eq_nil_of_le outside]
      rfl

theorem getcLoop_seen {rounds : Nat} {cc : UInt8} {rest : Bytes}
    (enough : xr.input.file.length < rounds) (next : xr.input.unseen = cc :: rest) :
    ∃ input pos, getcLoop rounds xr = (some cc, advance { xr with input } pos cc) ∧ cc ≠ 0 ∧
      input.buffer[pos]? = some cc ∧ cstr (input.buffer.drop (pos + 1)) ++ seen input.file = rest := by
  induction rounds generalizing xr with
  | zero => omega
  | succ rounds ih =>
    rcases unseen_cases xr.input with ⟨pos, here, byte, nonzero, split⟩ | ⟨nul, split⟩
    · obtain ⟨rfl, rfl⟩ := List.cons.inj (split.symm.trans next)
      exact ⟨xr.input, pos, getcLoop_here rounds here byte nonzero, nonzero, byte, rfl⟩
    · rw [split] at next
      have some_ : xr.input.file ≠ [] := by
        intro none_
        rw [none_, seen, dif_neg (by simp)] at next
        cases next
      rw [getcLoop, if_neg (not_not.mpr nul), if_neg some_]
      refine ih ?_ ?_
      · have := @fgets_shorter xr.input.file 511 (by decide) some_
        simp only
        omega
      · rw [seen, dif_pos some_] at next
        exact next

theorem getcLoop_end {rounds : Nat} (enough : xr.input.file.length < rounds) (next : xr.input.unseen = []) :
    ∃ input, getcLoop rounds xr = (none, { xr with input }) ∧ input.pos = none ∧ input.file = [] := by
  induction rounds generalizing xr with
  | zero => omega
  | succ rounds ih =>
    rcases unseen_cases xr.input with ⟨pos, here, byte, nonzero, split⟩ | ⟨nul, split⟩
    · cases split.symm.trans next
    · rw [split] at next
      rw [getcLoop, if_neg (not_not.mpr nul)]
      split_ifs with none_
      · exact ⟨_, rfl, rfl, none_⟩
      · refine ih ?_ ?_
        · have := @fgets_shorter xr.input.file 511 (by decide) none_
          simp only
          omega
        · rw [seen, dif_pos none_] at next
          exact next

theorem Shows.getc (shows : Shows text xr) {answer : Option UInt8} {text' : Text}
    (answered : Text.exact .file .getc text = .ok (answer, text')) :
    ∃ xr', FileInput.getc xr = (answer, xr') ∧ Shows text' xr' := by
  have unseen := shows.rest
  rw [Text.exact] at answered
  split at answered
  next rest =>
    cases answered
    obtain ⟨input, read, pos, file⟩ := getcLoop_end (Nat.lt_succ_self _) (unseen.symm.trans rest)
    refine ⟨_, read, ?_, nofun, shows.lines, shows.state⟩
    rw [rest, FileInput.unseen, pos, file, seen, dif_neg (by simp)]
    rfl
  next cc rest' rest =>
    cases answered
    obtain ⟨input, pos, read, nonzero, byte, more⟩ := getcLoop_seen (Nat.lt_succ_self _) (unseen.symm.trans rest)
    refine ⟨_, read, more.symm, ?_, ?_, shows.state⟩
    · rintro _ ⟨rfl⟩
      exact ⟨nonzero, pos, rfl, byte⟩
    · simp only [advance, shows.lines]
      split <;> grind

theorem Shows.ungetc (shows : Shows text xr) (last : text.last = some cc) :
    Shows { text with
      rest := unget .file cc text.rest
      last := none
      back := if cc = 10 then text.back + 1 else text.back } (FileInput.ungetc (some cc) xr) := by
  obtain ⟨nonzero, pos, here, byte⟩ := shows.last cc last
  have moved : FileInput.ungetc (some cc) xr = { xr with
      input := { xr.input with pos := some pos }
      lineCount := if cc = 10 then xr.lineCount - 1 else xr.lineCount } := by
    simp [FileInput.ungetc, here, byte]
  rw [moved]
  refine ⟨?_, nofun, ?_, shows.state⟩
  · obtain ⟨inside, same⟩ := List.getElem?_eq_some_iff.mp byte
    simp only [shows.rest, unseen, here, unget]
    rw [List.drop_eq_getElem_cons inside, same, cstr, cstr, List.takeWhile_cons_of_pos (by simpa using nonzero)]
    rfl
  · simp only [shows.lines]
    split <;> grind

theorem ungetc_eof (xr : Xr FileInput) : FileInput.ungetc none xr = xr := by
  rw [FileInput.ungetc]
  split <;> simp

theorem exact_simulates : Simulates (Text.exact .file) handle Shows Check.image where
  answer := by
    intro op text xr answer text' shows answered
    cases op with
    | getc =>
      obtain ⟨xr', same, kept⟩ := shows.getc answered
      exact ⟨xr', congrArg Except.ok same, kept⟩
    | ungetc cc =>
      cases cc with
      | none =>
        cases answered
        exact ⟨_, rfl, by rw [ungetc_eof]; exact { shows with last := nofun }⟩
      | some cc =>
        simp only [Text.exact] at answered
        split at answered
        · cases answered
        next last =>
          cases answered
          exact ⟨_, rfl, shows.ungetc (not_not.mp last)⟩
    | lineCount =>
      cases answered
      exact ⟨xr, by rw [← shows.lines]; rfl, shows⟩
    | state =>
      cases answered
      exact ⟨xr, by rw [← shows.state]; rfl, shows⟩
    | setState state =>
      cases answered
      exact ⟨_, rfl, { shows with state := rfl }⟩
    | stop reason => cases answered
  fault := by
    intro op text xr check reason _ stopped image
    rw [exact_stop stopped image]
    rfl

theorem shows_file (bytes : Bytes) : Shows { rest := seen bytes } (reader bytes) where
  rest := rfl
  last := nofun
  lines := show (1 : UInt32) = 1 + 0 - 0 by decide
  state := rfl

end FileInput

namespace BufferInput

variable {text : Text} {bytes : Bytes}

/-- A buffer reader and the text that it reads. -/
structure Reads (bytes : Bytes) (text : Text) (xr : Xr NiBuffer) : Prop where
  base : xr.input.base = fun i => bytes.getD i 0
  tail : xr.input.tail = bytes.length
  rest : text.rest = bytes.drop xr.input.head
  last : ∀ cc, text.last = some cc → ∃ pos, xr.input.head = pos + 1 ∧ bytes[pos]? = some cc
  lines : xr.lineCount = 1 - text.back
  state : xr.state = text.state

theorem Reads.getc_eof (reads : Reads bytes text xr) (rest : text.rest = []) : BufferInput.getc xr = (none, xr) := by
  have nothing : xr.input.tail ≤ xr.input.head := by
    rw [reads.tail, ← List.drop_eq_nil_iff, ← reads.rest, rest]
  exact if_pos nothing

theorem Reads.getc_byte (reads : Reads bytes text xr) (rest : text.rest = cc :: rest') :
    ∃ xr', BufferInput.getc xr = (some cc, xr') ∧ Reads bytes { text with
      rest := rest'
      last := some cc
      read := if cc = 10 then text.read + 1 else text.read } xr' := by
  have drop : bytes.drop xr.input.head = cc :: rest' := reads.rest.symm.trans rest
  have byte : bytes[xr.input.head]? = some cc := by
    rw [← List.head?_drop, drop]
    rfl
  have inside : ¬ xr.input.tail ≤ xr.input.head := by
    rw [reads.tail, ← List.drop_eq_nil_iff, drop]
    nofun
  refine ⟨{ xr with input := { xr.input with head := xr.input.head + 1 } }, ?_,
    reads.base, reads.tail, ?_, ?_, reads.lines, reads.state⟩
  · rw [BufferInput.getc, if_neg inside, reads.base]
    simp [byte]
  · rw [← List.drop_drop, drop]
    rfl
  · rintro _ ⟨rfl⟩
    exact ⟨xr.input.head, rfl, byte⟩

theorem Reads.ungetc (reads : Reads bytes text xr) (last : text.last = some cc) (low : ¬ 128 ≤ cc) :
    Reads bytes { text with
      rest := cc :: text.rest
      last := none
      back := if cc = 10 then text.back + 1 else text.back } (BufferInput.ungetc (some cc) xr) := by
  obtain ⟨pos, here, byte⟩ := reads.last cc last
  have moved : BufferInput.ungetc (some cc) xr = { xr with
      input := { xr.input with head := pos }
      lineCount := if cc = 10 then xr.lineCount - 1 else xr.lineCount } := by
    simp [BufferInput.ungetc, here, reads.base, byte, low]
  rw [moved]
  refine ⟨reads.base, reads.tail, ?_, by rintro _ ⟨⟩, ?_, reads.state⟩
  · obtain ⟨inside, same⟩ := List.getElem?_eq_some_iff.mp byte
    rw [reads.rest, here, List.drop_eq_getElem_cons inside, same]
  · simp only [reads.lines]
    split <;> grind

theorem Reads.getc_exact (reads : Reads bytes text xr) (answered : Text.exact .buffer .getc text = .ok (answer, text')) :
    ∃ xr', BufferInput.getc xr = (answer, xr') ∧ Reads bytes text' xr' := by
  rw [Text.exact] at answered
  split at answered
  next rest =>
    cases answered
    exact ⟨xr, reads.getc_eof rest, { reads with last := nofun }⟩
  next cc rest' rest =>
    cases answered
    exact reads.getc_byte rest

theorem Reads.ungetc_exact (reads : Reads bytes text xr) (last : text.last = some cc) :
    Reads bytes { text with
      rest := unget .buffer cc text.rest
      last := none
      back := if cc = 10 then text.back + 1 else text.back } (BufferInput.ungetc (some cc) xr) := by
  by_cases high : 128 ≤ cc
  · have lost : BufferInput.ungetc (some cc) xr = { xr with
        lineCount := if cc = 10 then xr.lineCount - 1 else xr.lineCount } := by
      simp [BufferInput.ungetc, high]
    rw [lost, unget, if_pos (by simp [high])]
    refine ⟨reads.base, reads.tail, reads.rest, by rintro _ ⟨⟩, ?_, reads.state⟩
    simp only [reads.lines]
    split <;> grind
  · rw [unget, if_neg (by simp [high])]
    exact reads.ungetc last high

theorem exact_simulates : Simulates (Text.exact .buffer) handle (Reads bytes) Check.image where
  answer := by
    intro op text xr answer text' reads answered
    cases op with
    | getc =>
      obtain ⟨xr', same, kept⟩ := reads.getc_exact answered
      exact ⟨xr', congrArg Except.ok same, kept⟩
    | ungetc cc =>
      cases cc with
      | none =>
        cases answered
        exact ⟨_, rfl, { reads with last := nofun }⟩
      | some cc =>
        simp only [Text.exact] at answered
        split at answered
        · cases answered
        next last =>
          cases answered
          exact ⟨_, rfl, reads.ungetc_exact (not_not.mp last)⟩
    | lineCount =>
      cases answered
      exact ⟨xr, by rw [← reads.lines]; rfl, reads⟩
    | state =>
      cases answered
      exact ⟨xr, by rw [← reads.state]; rfl, reads⟩
    | setState state =>
      cases answered
      exact ⟨_, rfl, { reads with state := rfl }⟩
    | stop reason => cases answered
  fault := by
    intro op text xr check reason _ stopped image
    rw [exact_stop stopped image]
    rfl

theorem reads_reader (bytes : Bytes) : Reads bytes { rest := bytes } (reader bytes) where
  base := rfl
  tail := rfl
  rest := rfl
  last := nofun
  lines := show (1 : UInt32) = 1 - 0 by decide
  state := rfl

end BufferInput

/-- What is seen of the bytes of a file, up to the first NUL. -/
inductive Agree : Bytes → Bytes → Prop
  | nil : Agree [] []
  | nul {more rest} : Agree (0 :: more) rest
  | cons (cc : UInt8) {bytes seen} (agree : Agree bytes seen) : Agree (cc :: bytes) (cc :: seen)

theorem Agree.refl (bytes : Bytes) : Agree bytes bytes := by
  induction bytes with
  | nil => exact .nil
  | cons cc bytes ih => exact .cons cc ih

theorem Agree.same (agree : Agree bytes seen) (nonzero : 0 ∉ bytes) : bytes = seen := by
  induction agree with
  | nil => rfl
  | nul => exact absurd List.mem_cons_self nonzero
  | cons cc agree ih => rw [ih fun member => nonzero (List.mem_cons_of_mem _ member)]

theorem Agree.front (line : Bytes) {more seen : Bytes} (agree : Agree more seen) :
    Agree (line ++ more) (cstr line ++ seen) := by
  induction line with
  | nil => exact agree
  | cons cc line ih =>
    by_cases nul : cc = 0
    · subst nul
      exact .nul
    · rw [cstr, List.takeWhile_cons_of_pos (by simpa using nul)]
      exact .cons cc ih

theorem agree_seen (file : Bytes) : Agree file (FileInput.seen file) := by
  induction file using FileInput.seen.induct with
  | case1 file some_ ih =>
    have line := ih.front (fgets 511 file).1
    rw [fgets_append] at line
    rwa [FileInput.seen, dif_pos some_]
  | case2 file none_ =>
    rw [FileInput.seen, dif_neg none_, not_not.mp none_]
    exact .nil

/-- A checked text, and what a source shows of it. -/
inductive Agrees : Text → Text → Prop
  | intro {bytes seen last read back state} (agree : Agree bytes seen) :
    Agrees ⟨bytes, last, read, back, state⟩ ⟨seen, last, read, back, state⟩

/-- What is checked apart from whether the sources are alike. -/
def Check.seen : Check → Option Check
  | .unlike => none
  | check => some check

/-- As long as the checks hold, the text is what either source shows. -/
theorem handle_exact (source : Source) : Simulates (Text.handle .both) (Text.exact source) Agrees Check.seen where
  answer := by
    rintro op _ _ answer text' ⟨agree⟩ answered
    cases op with
    | getc =>
      cases agree with
      | nil =>
        cases answered
        exact ⟨_, rfl, ⟨.nil⟩⟩
      | nul => cases answered
      | cons cc agree =>
        simp only [Text.handle] at answered
        split at answered
        · cases answered
        · cases answered
          exact ⟨_, rfl, ⟨agree⟩⟩
    | ungetc cc =>
      cases cc with
      | none =>
        cases answered
        exact ⟨_, rfl, ⟨agree⟩⟩
      | some cc =>
        simp only [Text.handle] at answered
        split at answered
        · cases answered
        next last =>
          split at answered
          · cases answered
          next low =>
            cases answered
            refine ⟨_, by rw [Text.exact, if_neg last], ?_⟩
            simp only [unget, low, decide_false, Bool.and_false, Bool.false_eq_true, if_false]
            exact ⟨.cons cc agree⟩
    | lineCount =>
      simp only [Text.handle] at answered
      split_ifs at answered with read
      cases answered
      cases source with
      | file => exact ⟨_, by rw [Text.exact, not_not.mp read]; rfl, ⟨agree⟩⟩
      | buffer => exact ⟨_, rfl, ⟨agree⟩⟩
    | state | setState state =>
      cases answered
      exact ⟨_, rfl, ⟨agree⟩⟩
    | stop reason => cases answered
  fault := by
    rintro op _ _ check check' ⟨agree⟩ stopped seen
    cases op with
    | getc =>
      simp only [Text.handle] at stopped
      split at stopped
      · cases stopped
      · split_ifs at stopped
        cases stopped
        cases seen
    | ungetc cc =>
      cases cc with
      | none => cases stopped
      | some cc =>
        simp only [Text.handle] at stopped
        split_ifs at stopped with last high
        · cases stopped
          cases seen
          rw [Text.exact, if_pos last]
        · cases stopped
          cases seen
    | lineCount =>
      simp only [Text.handle] at stopped
      split_ifs at stopped
      cases stopped
      cases seen
    | state | setState state => cases stopped
    | stop reason =>
      cases stopped
      cases seen
      rfl

theorem seen_image : (fun check => (Check.seen check).bind Check.image) = Check.image := by
  funext check
  cases check <;> rfl

theorem FileInput.simulates :
    Simulates (Text.handle .both) handle (fun text xr => ∃ seen, Agrees text seen ∧ Shows seen xr) Check.image :=
  seen_image ▸ (handle_exact .file).trans exact_simulates

theorem BufferInput.simulates :
    Simulates (Text.handle .both) handle (fun text xr => ∃ seen, Agrees text seen ∧ Reads bytes seen xr) Check.image :=
  seen_image ▸ (handle_exact .buffer).trans exact_simulates

theorem reads_file (bytes : Bytes) :
    ∃ seen, Agrees { rest := bytes } seen ∧ FileInput.Shows seen (FileInput.reader bytes) :=
  ⟨_, ⟨agree_seen bytes⟩, FileInput.shows_file bytes⟩

theorem reads_buffer (bytes : Bytes) :
    ∃ seen, Agrees { rest := bytes } seen ∧ BufferInput.Reads bytes seen (BufferInput.reader bytes) :=
  ⟨_, ⟨.refl bytes⟩, BufferInput.reads_reader bytes⟩

end Testbus.Xml
