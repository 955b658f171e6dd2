import Testbus.Util.Quoting

namespace Testbus.Publish

open Util

/-- `sizeof(buf)`, less the NUL. -/
def room : Nat := 511

/-- What the calls of `fgets` return one after the other. -/
def pieces (file : Bytes) : List Bytes :=
  if _more : file = [] then [] else (fgets room file).1 :: pieces (fgets room file).2
termination_by file.length
decreasing_by exact fgets_shorter (by decide) _more

/-- What `__next_token` returns, and where it leaves the position. There is no token if a comment
begins; and none at the end of the line, where it moves behind the NUL and reads on there. -/
inductive Next
  | token (text pos : CString)
  | comment (pos : CString)
  | behind
  deriving DecidableEq

def nextToken (pos : CString) : Next :=
  match pos.dropWhile isspace with
  | [] => .behind
  | c :: s =>
    -- The blank behind the token is overwritten.
    let pos := (s.dropWhile (!isspace ·)).tail
    if c = 35 then .comment pos else .token (c :: s.takeWhile (!isspace ·)) pos

/-- A call of `ni_testbus_agent_state_setcap` or `ni_testbus_agent_state_setenv`. -/
inductive Entry
  | setcap (name : CString)
  | setenv (name value : CString)
  deriving DecidableEq

inductive Fatal
  | noName
  | noValue
  | garbage
  | unknown (kwd : CString)
  deriving DecidableEq

/-- The message of `ni_fatal`. -/
def Fatal.message (path : CString) (lineno : Nat) (fatal : Fatal) : CString :=
  path ++ ascii ", line ".toList ++ formatNat lineno ++ ascii ": ".toList ++
    match fatal with
    | .noName => ascii "setenv without variable name".toList
    | .noValue => ascii "setenv without variable value".toList
    | .garbage => ascii "garbage after setenv variable value".toList
    | .unknown kwd => ascii "unknown keyword \"".toList ++ kwd ++ [34]

/-- What is done for a line: the calls, an error, and whether the scan moved behind the NUL. -/
structure Scanned where
  entries : List Entry := []
  fatal : Option Fatal := none
  past : Bool := false
  deriving DecidableEq

def capability : CString := ascii "capability".toList

def setenv : CString := ascii "setenv".toList

/-- What `ni_unquote` is called with. -/
def sepa : CString := [32, 9, 13, 10]

theorem nextToken_shorter (found : nextToken pos = .token text rest) : rest.length < pos.length := by
  rw [nextToken] at found
  have skipped := (List.dropWhile_suffix isspace (l := pos)).length_le
  cases left : pos.dropWhile isspace with
  | nil =>
    rw [left] at found
    cases found
  | cons c s =>
    rw [left] at found skipped
    dsimp only at found
    by_cases comment : c = 35
    · rw [if_pos comment] at found
      cases found
    · rw [if_neg comment] at found
      cases found
      have behind := (List.dropWhile_suffix (!isspace ·) (l := s)).length_le
      rw [List.length_tail]
      rw [List.length_cons] at skipped
      omega

/-- The names behind `capability`, and whether the scan moved behind the NUL. -/
def capabilityLoop (pos : CString) : List CString × Bool :=
  match found : nextToken pos with
  | .token name rest =>
    have := nextToken_shorter found
    let (names, past) := capabilityLoop rest
    (name :: names, past)
  | .comment _ => ([], false)
  | .behind => ([], true)
termination_by pos.length

/-- The branch for `setenv`. -/
def setenvLine (pos : CString) : Scanned :=
  match nextToken pos with
  | .comment _ => { fatal := some .noName }
  | .behind => { fatal := some .noName, past := true }
  | .token name pos =>
    match niUnquote pos (some sepa) with
    | (none, _) => { fatal := some .noValue }
    | (some value, pos) =>
      if value.head? = some 35 then { fatal := some .noValue }
      else
        match nextToken pos with
        | .token _ _ => { fatal := some .garbage }
        | .comment _ => { entries := [.setenv name value] }
        | .behind => { entries := [.setenv name value], past := true }

/-- The body of the loop over the file. -/
def publishLine (buf : CString) : Scanned :=
  match nextToken buf with
  | .comment _ => {}
  | .behind => { past := true }
  | .token kwd pos =>
    if kwd = capability then
      let (names, past) := capabilityLoop pos
      { entries := names.map .setcap, past }
    else if kwd = setenv then setenvLine pos
    else { fatal := some (.unknown kwd) }

/-- What became of a file: the calls up to its end, or up to the message of `ni_fatal`. -/
structure Published where
  entries : List Entry := []
  fatal : Option CString := none
  past : Bool := false
  deriving DecidableEq

def publishLoop (path : CString) : (lineno : Nat) → List Bytes → Published
  | _, [] => {}
  | lineno, buf :: later =>
    let lineno := (lineno + 1) % 2 ^ 32
    let scanned := publishLine (cstr buf)
    match scanned.fatal with
    | some fatal =>
      { entries := scanned.entries, fatal := fatal.message path lineno, past := scanned.past }
    | none =>
      let rest := publishLoop path lineno later
      { rest with entries := scanned.entries ++ rest.entries, past := scanned.past || rest.past }

/-- `ni_testbus_agent_publish_file`, for a file that can be opened. -/
def publishFile (path : CString) (file : Bytes) : Published := publishLoop path 0 (pieces file)

/-! The lines that a file may have. -/

/-- The lines with their newlines, of any length. -/
def lines : Bytes → List Bytes
  | [] => []
  | c :: file =>
    if c = 10 then [c] :: lines file
    else
      match lines file with
      | [] => [[c]]
      | line :: later => (c :: line) :: later

def Blank (text : CString) : Prop := ∀ c ∈ text, isspace c = true

def Comment (text : CString) : Prop := ∃ blanks rest, Blank blanks ∧ text = blanks ++ 35 :: rest

/-- A line may end here. -/
def Trailing (text : CString) : Prop := Blank text ∨ Comment text

/-- The text begins with a token that is not a comment, up to its end or a blank. -/
def Begins (text token rest : CString) : Prop :=
  token ≠ [] ∧ token.head? ≠ some 35 ∧ (∀ c ∈ token, isspace c = false) ∧
    ∃ blanks, Blank blanks ∧ (text = blanks ++ token ∧ rest = [] ∨
      ∃ c, isspace c = true ∧ text = blanks ++ token ++ c :: rest)

/-- The text begins with a plain or quoted value. -/
def Value (text value rest : CString) : Prop :=
  ∃ lead word behind, text = lead ++ (word ++ behind) ∧ (∀ c ∈ lead, c ∈ sepa) ∧ word ≠ [] ∧
    word.head? ≠ some 35 ∧ Word (some sepa) word value ∧ Ends (some sepa) behind ∧
    rest = behind.tail

inductive Names (Closes : CString → Prop) : CString → List CString → Prop
  | closes {text : CString} (closes : Closes text) : Names Closes text []
  | name {text name rest : CString} {names : List CString} (begins : Begins text name rest)
      (later : Names Closes rest names) : Names Closes text (name :: names)

/-- A line with what it stands for, where lines end and which values they have. -/
inductive Line (Closes Fits : CString → Prop) : CString → List Entry → Prop
  | nothing {text : CString} (closes : Closes text) : Line Closes Fits text []
  | capability {text rest : CString} {names : List CString} (begins : Begins text capability rest)
      (named : Names Closes rest names) (some_ : names ≠ []) :
      Line Closes Fits text (names.map .setcap)
  | setenv {text rest name later value behind : CString} (begins : Begins text setenv rest)
      (named : Begins rest name later) (valued : Value later value behind) (fits : Fits value)
      (closes : Closes behind) : Line Closes Fits text [.setenv name value]

/-- A line of a publish file, with what it stands for. -/
def Stands (line : Bytes) (entries : List Entry) : Prop :=
  Line Trailing (fun _ => True) line entries

/-- The file is accepted if each line is right, all is recorded in order, and the scan stays inside
the lines. -/
def Publishes (path : CString) (file : Bytes) : Prop :=
  ((publishFile path file).fatal = none ↔ ∀ line ∈ lines file, ∃ entries, Stands line entries) ∧
    ((publishFile path file).fatal = none → ∃ entries, List.Forall₂ Stands (lines file) entries ∧
      (publishFile path file).entries = entries.flatten) ∧
    (publishFile path file).past = false

/-! What is scanned without moving behind the NUL. -/

def Usable (value : CString) : Prop := value ≠ [] ∧ value.head? ≠ some 35

/-- `capability` without a name. -/
def Nameless (Closes : CString → Prop) (text : CString) : Prop :=
  ∃ rest, Begins text capability rest ∧ Closes rest

/-- The text ends with a comment and is accepted, for some entries or for none. -/
def Accepted (text : CString) : Prop :=
  (∃ entries, Line Comment Usable text entries) ∨ Nameless Comment text

/-- The text is refused before its end is reached. -/
inductive Refused : CString → Prop
  | unknown {text kwd rest : CString} (begins : Begins text kwd rest)
      (other : kwd ≠ capability ∧ kwd ≠ setenv) : Refused text
  | noName {text rest : CString} (begins : Begins text setenv rest) (comment : Comment rest) : Refused text
  | noValue {text rest name later : CString} (begins : Begins text setenv rest)
      (named : Begins rest name later)
      (none_ : ∀ value behind, Value later value behind → ¬ Usable value) : Refused text
  | garbage {text rest name later value behind token left : CString}
      (begins : Begins text setenv rest) (named : Begins rest name later)
      (valued : Value later value behind) (usable : Usable value)
      (more : Begins behind token left) : Refused text

/-- All that a line stands for is in its first piece, which ends with a comment; the pieces behind
it, of the comment, stand for nothing. -/
def Kept (line : Bytes) : Prop :=
  ∃ first later, pieces line = first :: later ∧
    (∃ entries, Line Comment Usable (cstr first) entries) ∧
    ∀ piece ∈ later, Comment (cstr piece) ∨ Nameless Comment (cstr piece)

end Testbus.Publish
