import Testbus.Xml.Reader

namespace Testbus.Xml

open Lib

/-- `xml_reader_t`, over one kind of input. -/
structure Xr (σ : Type) where
  input : σ
  lineCount : UInt32 := 1
  state : ParserState := .initial

/-- The reader with its `xml_getc` and `xml_ungetc`. -/
def Xr.handle {σ : Type} (getc : Xr σ → Option UInt8 × Xr σ)
    (ungetc : Option UInt8 → Xr σ → Xr σ) : Program.Handler Op Op.Answer Stop (Xr σ)
  | .getc, xr => .ok (getc xr)
  | .ungetc cc, xr => .ok ((), ungetc cc xr)
  | .lineCount, xr => .ok (xr.lineCount, xr)
  | .state, xr => .ok (xr.state, xr)
  | .setState state, xr => .ok ((), { xr with state })
  | .stop reason, _ => .error reason

/-- A `FILE` with the line buffer: what `fgets` put there last, where the reader is in it, and the
bytes of the file that follow. -/
structure FileInput where
  buffer : Bytes := []
  pos : Option Nat := none
  file : Bytes

namespace FileInput

/-- The byte that the reader is at. The line buffer ends with a NUL. -/
def peek (input : FileInput) : UInt8 := (input.pos.bind (input.buffer[·]?)).getD 0

/-- The reading loop of `xml_getc`: a NUL is taken for the end of the line buffer. -/
def getcLoop : Nat → Xr FileInput → Option UInt8 × Xr FileInput
  | 0, xr => (none, xr)
  | rounds + 1, xr =>
    let cc := xr.input.peek
    if cc ≠ 0 then
      (some cc, { xr with
        input := { xr.input with pos := xr.input.pos.map (· + 1) }
        lineCount := if cc = 10 then xr.lineCount + 1 else xr.lineCount })
    else if xr.input.file = [] then
      (none, { xr with input := { xr.input with pos := none } })
    else
      let (buffer, file) := fgets 511 xr.input.file
      getcLoop rounds { xr with input := { buffer, pos := some 0, file } }

/-- Each round but the first one takes bytes from the file. -/
def getc (xr : Xr FileInput) : Option UInt8 × Xr FileInput :=
  getcLoop (xr.input.file.length + 1) xr

def ungetc (cc : Option UInt8) (xr : Xr FileInput) : Xr FileInput :=
  match xr.input.pos with
  | some (pos + 1) =>
    if some ((xr.input.buffer[pos]?).getD 0) ≠ cc then xr
    else { xr with
      input := { xr.input with pos := some pos }
      lineCount := if cc = some 10 then xr.lineCount - 1 else xr.lineCount }
  | _ => xr

abbrev handle : Program.Handler Op Op.Answer Stop (Xr FileInput) := Xr.handle getc ungetc

/-- `xml_reader_init_file` -/
def reader (file : Bytes) : Xr FileInput where
  input := { file }

end FileInput

namespace BufferInput

def getc (xr : Xr NiBuffer) : Option UInt8 × Xr NiBuffer :=
  if xr.input.tail ≤ xr.input.head then (none, xr)
  else (some (xr.input.base xr.input.head),
    { xr with input := { xr.input with head := xr.input.head + 1 } })

/-- `ni_buffer_ungetc` compares the byte with a `char`, which is negative from 128 on. The line
count goes down in any case. -/
def ungetc (cc : Option UInt8) (xr : Xr NiBuffer) : Xr NiBuffer :=
  let lineCount := if cc = some 10 then xr.lineCount - 1 else xr.lineCount
  match cc with
  | none => { xr with lineCount }
  | some byte =>
    if xr.input.head = 0 || xr.input.base (xr.input.head - 1) ≠ byte || 128 ≤ byte then
      { xr with lineCount }
    else { xr with input := { xr.input with head := xr.input.head - 1 }, lineCount }

abbrev handle : Program.Handler Op Op.Answer Stop (Xr NiBuffer) := Xr.handle getc ungetc

/-- `xml_reader_init_buffer` for `ni_buffer_init_reader` -/
def reader (bytes : Bytes) : Xr NiBuffer where
  input := { base := fun i => bytes.getD i 0, tail := bytes.length, size := bytes.length }

end BufferInput

/-- How the lines are counted: as from a file, as from a buffer, or only where both agree. -/
inductive Lines
  | file
  | buffer
  | both
  deriving DecidableEq

/-- Why a checked text is given up. -/
inductive Check
  | stop (reason : Stop)
  /-- A byte is put back that is not the one that was read last. -/
  | misplaced
  /-- What follows is not the same from a file and from a buffer. -/
  | unlike
  deriving DecidableEq

def Check.image : Check → Option Stop
  | stop reason => some reason
  | _ => none

/-- The text that is still to be read, the byte that was read last, and how many line ends were
read and put back so far, in the width of the line count. -/
structure Text where
  rest : Bytes
  last : Option UInt8 := none
  read : UInt32 := 0
  back : UInt32 := 0
  state : ParserState := .initial

namespace Text

def handle (lines : Lines) : Program.Handler Op Op.Answer Check Text
  | .getc, text =>
    match text.rest with
    | [] => .ok (none, { text with last := none })
    | cc :: rest =>
      if cc = 0 then .error .unlike
      else .ok (some cc, { text with
        rest
        last := some cc
        read := if cc = 10 then text.read + 1 else text.read })
  | .ungetc none, text => .ok ((), { text with last := none })
  | .ungetc (some cc), text =>
    if text.last ≠ some cc then .error .misplaced
    else if 128 ≤ cc then .error .unlike
    else .ok ((), { text with
      rest := cc :: text.rest
      last := none
      back := if cc = 10 then text.back + 1 else text.back })
  | .lineCount, text =>
    match lines with
    | .file => .ok (1 + text.read - text.back, text)
    | .buffer => .ok (1 - text.back, text)
    | .both => if text.read ≠ 0 then .error .unlike else .ok (1 - text.back, text)
  | .state, text => .ok (text.state, text)
  | .setState state, text => .ok ((), { text with state })
  | .stop reason, _ => .error (.stop reason)

end Text

/-- Rounds enough for a text of some length. -/
def fuelFor (length : Nat) : Nat := length + 4

def documentScan (file : Bytes) : Except Stop (Option Node) :=
  (Program.run FileInput.handle (processDocument (fuelFor file.length))
    (FileInput.reader file)).map Prod.fst

def documentFromBuffer (bytes : Bytes) : Except Stop (Option Node) :=
  (Program.run BufferInput.handle (processDocument (fuelFor bytes.length))
    (BufferInput.reader bytes)).map Prod.fst

end Testbus.Xml
