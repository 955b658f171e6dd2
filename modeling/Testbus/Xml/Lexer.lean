import Testbus.Xml.Exact

namespace Testbus.Xml

open Lib Program

section Functions

variable (source : Source)

/-- The text after its first byte was read and put back. -/
def peeked : Bytes → Bytes
  | [] => []
  | cc :: rest => unget source cc rest

def skipped (text : Bytes) : Bytes := peeked source (text.dropWhile isspace)

/-- A token in a tag, its string if it is an identifier, and what follows. -/
def lexTag (text : Bytes) : Option (Token × Bytes × Bytes) :=
  match skipped source text with
  | [] => none
  | cc :: rest =>
    if cc = 63 then if rest.head? = some 62 then some (.rightAngleQ, [], rest.tail) else none
    else if cc = 62 then some (.rightAngle, [], rest)
    else if cc = 47 then
      if rest.head? = some 62 then some (.rightAngleSlash, [], rest.tail) else none
    else if cc = 61 then some (.equals, [], rest)
    else if identifierStart cc then
      some (.identifier, cc :: rest.takeWhile identifierByte,
        peeked source (rest.dropWhile identifierByte))
    else if cc = 39 || cc = 34 then
      match rest.dropWhile (· ≠ cc) with
      | [] => none
      | _ :: rest => some (.quotedString, [], rest)
    else none

/-- The token that closes a tag, after any attributes. -/
def lexAttributes : Nat → Bytes → Option (Token × Bytes)
  | 0, _ => none
  | rounds + 1, text =>
    match lexTag source text with
    | some (.identifier, _, rest) =>
      match lexTag source rest with
      | some (.equals, _, rest) =>
        match lexTag source rest with
        | some (.quotedString, _, rest) => lexAttributes rounds rest
        | _ => none
      | _ => lexAttributes rounds rest
    | some (.rightAngle, _, rest) => some (.rightAngle, rest)
    | some (.rightAngleQ, _, rest) => some (.rightAngleQ, rest)
    | some (.rightAngleSlash, _, rest) => some (.rightAngleSlash, rest)
    | _ => none

/-- What follows the end of a document type. -/
def lexDoctype : Nat → Bytes → Option Bytes
  | 0, _ => none
  | rounds + 1, text =>
    match lexTag source text with
    | some (.rightAngle, _, rest) => some rest
    | some (.identifier, _, rest) => lexDoctype rounds rest
    | some (.quotedString, _, rest) => lexDoctype rounds rest
    | _ => none

/-- What follows a comment, after `hyphens` in a row. -/
def lexComment : Nat → Bytes → Option Bytes
  | _, [] => none
  | hyphens, cc :: rest =>
    if cc = 45 then lexComment (hyphens + 1) rest
    else if cc = 62 && 2 ≤ hyphens then some rest
    else lexComment 0 rest

/-- What the beginning of a text in an element is. -/
inductive Piece
  /-- The reader fails an assertion, or has no defined behaviour. -/
  | broken
  | rejected
  | opens (name : CString) (rest : Bytes)
  | closes (name : CString) (rest : Bytes)
  | passes (rest : Bytes)

def nonblank (bytes : Bytes) : Bytes := bytes.filter fun cc => ¬ isspace cc

/-- What follows an ampersand. An entity has room for 127 bytes that are not blank. -/
def lexEntity (text : Bytes) : Piece :=
  let entity := nonblank (text.takeWhile (· ≠ 59))
  if 128 ≤ entity.length then .broken
  else match text.dropWhile (· ≠ 59) with
    | [] => .rejected
    | _ :: rest =>
      if entity = [] then .broken
      else if (entityValue (cstr entity)).isSome then .passes rest
      else .rejected

/-- An element, after the bracket. -/
def lexElement (text : Bytes) : Piece :=
  match lexTag source text with
  | some (.identifier, name, rest) =>
    match lexAttributes source (rest.length + 1) rest with
    | some (.rightAngle, rest) => .opens (cstr name) rest
    | some (.rightAngleSlash, rest) => .passes rest
    | _ => .rejected
  | _ => .rejected

/-- The end of an element, after the slash. -/
def lexEnd (text : Bytes) : Piece :=
  match lexTag source text with
  | some (.identifier, name, rest) =>
    match lexTag source rest with
    | some (.rightAngle, _, rest) => .closes (cstr name) rest
    | _ => .rejected
  | _ => .rejected

/-- A processing instruction, after the question mark. -/
def lexInstruction (text : Bytes) : Piece :=
  match lexTag source text with
  | some (.identifier, _, rest) =>
    match lexAttributes source (rest.length + 1) rest with
    | some (.rightAngleQ, rest) => .passes rest
    | _ => .rejected
  | _ => .rejected

/-- A document type, after the exclamation mark. The message for anything else takes a structure
for a string. -/
def lexDeclaration (text : Bytes) : Piece :=
  match lexTag source text with
  | some (.identifier, name, rest) =>
    if cstr name ≠ ascii "DOCTYPE".toList then .broken
    else match lexDoctype source (rest.length + 1) rest with
      | some rest => .passes rest
      | none => .rejected
  | _ => .rejected

/-- What follows an angle bracket. -/
def lexMarkup : Bytes → Piece
  | 47 :: rest => lexEnd source rest
  | 63 :: rest => lexInstruction source rest
  | 33 :: 45 :: 45 :: rest =>
    match lexComment 0 rest with
    | some rest => .passes rest
    | none => .rejected
  | 33 :: 45 :: _ => .rejected
  | 33 :: rest => lexDeclaration source (peeked source rest)
  | rest => lexElement source (peeked source rest)

def lexPiece : Bytes → Piece
  | [] => .rejected
  | cc :: rest =>
    if cc = 60 then lexMarkup source rest
    else if cc = 38 then lexEntity rest
    else .passes rest

end Functions

section Shorter

variable {source : Source} {text rest s : Bytes} {token : Token}

theorem peeked_le (source : Source) (text : Bytes) : (peeked source text).length ≤ text.length := by
  cases text with
  | nil => exact le_rfl
  | cons cc rest =>
    rw [peeked, unget]
    split
    · exact Nat.le_succ _
    · exact le_rfl

theorem lexTag_shorter (found : lexTag source text = some (token, s, rest)) : rest.length < text.length := by
  have le : (skipped source text).length ≤ text.length := (peeked_le _ _).trans (dropWhile_le _ _)
  unfold lexTag at found
  split at found
  · cases found
  next cc more start =>
    rw [start, List.length_cons] at le
    have tail : more.tail.length ≤ more.length := by simp
    have ident := (peeked_le source _).trans (dropWhile_le identifierByte more)
    split_ifs at found <;> try (cases found; omega)
    split at found
    · cases found
    next quoted =>
      cases found
      have less := dropWhile_le (· ≠ cc) more
      rw [quoted, List.length_cons] at less
      omega

theorem lexAttributes_shorter (found : lexAttributes source rounds text = some (token, rest)) :
    rest.length < text.length := by
  induction rounds generalizing text with
  | zero => cases found
  | succ rounds ih =>
    unfold lexAttributes at found
    split at found
    next lexed =>
      have first := lexTag_shorter lexed
      split at found
      next lexed' =>
        have second := lexTag_shorter lexed'
        split at found
        next lexed'' =>
          have third := lexTag_shorter lexed''
          have := ih found
          omega
        · cases found
      · have := ih found
        omega
    next lexed =>
      cases found
      exact lexTag_shorter lexed
    next lexed =>
      cases found
      exact lexTag_shorter lexed
    next lexed =>
      cases found
      exact lexTag_shorter lexed
    · cases found

theorem lexDoctype_shorter (found : lexDoctype source rounds text = some rest) : rest.length < text.length := by
  induction rounds generalizing text with
  | zero => cases found
  | succ rounds ih =>
    unfold lexDoctype at found
    split at found
    next lexed =>
      cases found
      exact lexTag_shorter lexed
    next lexed =>
      have := lexTag_shorter lexed
      have := ih found
      omega
    next lexed =>
      have := lexTag_shorter lexed
      have := ih found
      omega
    · cases found

theorem lexComment_le {hyphens : Nat} (found : lexComment hyphens text = some rest) : rest.length ≤ text.length := by
  induction text generalizing hyphens with
  | nil => cases found
  | cons cc text ih =>
    unfold lexComment at found
    split_ifs at found
    · exact (ih found).trans (Nat.le_succ _)
    · cases found
      exact Nat.le_succ _
    · exact (ih found).trans (Nat.le_succ _)

/-- What follows a piece is shorter than `length`. -/
def Piece.Within (length : Nat) : Piece → Prop
  | opens _ rest => rest.length < length
  | closes _ rest => rest.length < length
  | passes rest => rest.length < length
  | _ => True

theorem Piece.Within.weaken {piece : Piece} {length more : Nat} (within : piece.Within length)
    (le : length ≤ more) : piece.Within more := by
  cases piece with
  | broken => trivial
  | rejected => trivial
  | opens name rest => exact Nat.lt_of_lt_of_le within le
  | closes name rest => exact Nat.lt_of_lt_of_le within le
  | passes rest => exact Nat.lt_of_lt_of_le within le

theorem within_entity (text : Bytes) : (lexEntity text).Within text.length := by
  rw [lexEntity]
  split
  · trivial
  split
  · trivial
  next behind =>
    have less := dropWhile_le (· ≠ 59) text
    rw [behind, List.length_cons] at less
    split
    · trivial
    split
    · exact less
    · trivial

theorem within_element (text : Bytes) : (lexElement source text).Within text.length := by
  unfold lexElement
  split
  next lexed =>
    have first := lexTag_shorter lexed
    split
    next lexed' => exact (lexAttributes_shorter lexed').trans first
    next lexed' => exact (lexAttributes_shorter lexed').trans first
    · trivial
  · trivial

theorem within_end (text : Bytes) : (lexEnd source text).Within text.length := by
  unfold lexEnd
  split
  next lexed =>
    split
    next lexed' => exact (lexTag_shorter lexed').trans (lexTag_shorter lexed)
    · trivial
  · trivial

theorem within_instruction (text : Bytes) : (lexInstruction source text).Within text.length := by
  unfold lexInstruction
  split
  next lexed =>
    split
    next lexed' => exact (lexAttributes_shorter lexed').trans (lexTag_shorter lexed)
    · trivial
  · trivial

theorem within_declaration (text : Bytes) : (lexDeclaration source text).Within text.length := by
  unfold lexDeclaration
  split
  next lexed =>
    split_ifs
    · trivial
    split
    next lexed' => exact (lexDoctype_shorter lexed').trans (lexTag_shorter lexed)
    · trivial
  · trivial

theorem within_markup (text : Bytes) : (lexMarkup source text).Within (text.length + 1) := by
  unfold lexMarkup
  split
  · exact (within_end _).weaken (by simp only [List.length_cons]; omega)
  · exact (within_instruction _).weaken (by simp only [List.length_cons]; omega)
  · split
    next found =>
      have := lexComment_le found
      simp only [Piece.Within, List.length_cons]
      omega
    · trivial
  · trivial
  next rest _ _ =>
    refine (within_declaration _).weaken ((peeked_le source rest).trans ?_)
    simp only [List.length_cons]
    omega
  · exact (within_element _).weaken ((peeked_le _ _).trans (Nat.le_succ _))

theorem within_piece (source : Source) (text : Bytes) : (lexPiece source text).Within text.length := by
  cases text with
  | nil => trivial
  | cons cc rest =>
    rw [lexPiece]
    split_ifs
    · exact within_markup rest
    · exact (within_entity rest).weaken (Nat.le_succ _)
    · exact Nat.lt_succ_self _

end Shorter

/-- Some piece of the text is broken, and the text before it is not rejected. The elements that are
open have the names. -/
def hazard (source : Source) (names : List CString) (text : Bytes) : Bool :=
  match _ : lexPiece source text with
  | .broken => true
  | .rejected => false
  | .opens name rest => hazard source (name :: names) rest
  | .closes name rest =>
    match names with
    | [] => false
    | top :: names => if top = name then hazard source names rest else false
  | .passes rest => hazard source names rest
termination_by text.length
decreasing_by
  all_goals
    have within := within_piece source text
    rw [‹lexPiece source text = _›] at within
    exact within

section Hazard

variable {source : Source} {names : List CString} {text rest : Bytes} {name : CString}

/-- The hazard in a text that begins with the piece. -/
def Piece.hazard (source : Source) (names : List CString) : Piece → Bool
  | broken => true
  | rejected => false
  | opens name rest => Xml.hazard source (name :: names) rest
  | closes name rest =>
    match names with
    | [] => false
    | top :: names => if top = name then Xml.hazard source names rest else false
  | passes rest => Xml.hazard source names rest

theorem hazard_piece (found : lexPiece source text = piece) : hazard source names text = piece.hazard source names := by
  subst found
  rw [hazard]
  split <;> next same => rw [same]; rfl

theorem hazard_nil : hazard source names [] = false := hazard_piece rfl

theorem hazard_byte (tag : cc ≠ 60) (entity : cc ≠ 38) : hazard source names (cc :: rest) = hazard source names rest := by
  have passes : lexPiece source (cc :: rest) = .passes rest := by
    rw [lexPiece, if_neg tag, if_neg entity]
  exact hazard_piece passes

theorem hazard_spaces (text : Bytes) : hazard source names (text.dropWhile isspace) = hazard source names text := by
  induction text with
  | nil => rfl
  | cons cc rest ih =>
    by_cases space : isspace cc = true
    · rw [List.dropWhile_cons_of_pos space, ih, hazard_byte]
      · rintro rfl
        cases space
      · rintro rfl
        cases space
    · rw [List.dropWhile_cons_of_neg space]

/-- A byte that is lost is none that begins markup or an entity. -/
theorem hazard_peeked (text : Bytes) : hazard source names (peeked source text) = hazard source names text := by
  cases text with
  | nil => rfl
  | cons cc rest =>
    rw [peeked, unget]
    split
    next lost =>
      have high : 128 ≤ cc := by simpa using ((Bool.and_eq_true _ _).mp lost).2
      rw [hazard_byte]
      · rintro rfl
        exact absurd high (by decide)
      · rintro rfl
        exact absurd high (by decide)
    · rfl

theorem hazard_skipped (text : Bytes) : hazard source names (skipped source text) = hazard source names text :=
  (hazard_peeked _).trans (hazard_spaces _)

end Hazard

end Testbus.Xml
