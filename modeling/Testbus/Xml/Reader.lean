import Testbus.Xml.Node
import Testbus.Lib.Program

namespace Testbus.Xml

open Lib

inductive ParserState
  | initial
  | tag
  | error
  deriving DecidableEq

/-- `xml_token_type_t` -/
inductive Token
  | none
  | endOfDocument
  | leftAngle | rightAngle
  | leftAngleQ | rightAngleQ
  | leftAngleSlash | rightAngleSlash
  | leftAngleExclam
  | identifier | equals | quotedString
  | cdata
  | comment
  deriving DecidableEq

/-- How a run of the reader ends without a result: an assertion that fails, a value that the
language leaves undefined, or loops that were given too few rounds. -/
inductive Stop
  | assertion
  | undefined
  | outOfFuel
  deriving DecidableEq

/-- What the reader does with its input and its own state. No byte stands for `EOF`. -/
inductive Op
  | getc
  | ungetc (cc : Option UInt8)
  | lineCount
  | state
  | setState (state : ParserState)
  | stop (stop : Stop)
  deriving DecidableEq

abbrev Op.Answer : Op → Type
  | getc => Option UInt8
  | ungetc _ => Unit
  | lineCount => UInt32
  | state => ParserState
  | setState _ => Unit
  | stop _ => Empty

abbrev Reader : Type → Type := Program Op Op.Answer

def getc : Reader (Option UInt8) := Program.perform Op.getc
def ungetc (cc : Option UInt8) : Reader Unit := Program.perform (Op.ungetc cc)
def lineCount : Reader UInt32 := Program.perform Op.lineCount
def state : Reader ParserState := Program.perform Op.state
def setState (state : ParserState) : Reader Unit := Program.perform (Op.setState state)
def stop {α : Type} (reason : Stop) : Reader α := Program.call (Op.stop reason) nofun

def parseError : Reader Unit := setState .error

/-- The loops take the number of rounds they may make. The string that a loop appends to comes
with it. -/
def skipSpace : Nat → Bytes → Reader Bytes
  | 0, _ => stop .outOfFuel
  | fuel + 1, res => do
    match ← getc with
    | none => pure res
    | some cc =>
      if ¬ isspace cc then
        ungetc (some cc)
        pure res
      else skipSpace fuel (res ++ [cc])

/-- The loop of `xml_skip_comment`, after `<!--`. -/
def skipCommentLoop : Nat → Nat → Reader Token
  | 0, _ => stop .outOfFuel
  | fuel + 1, hyphens => do
    match ← getc with
    | none =>
      parseError
      pure .none
    | some cc =>
      if cc = 45 then skipCommentLoop fuel (hyphens + 1)
      else if cc = 62 && 2 ≤ hyphens then pure .comment
      else skipCommentLoop fuel 0

def skipComment (fuel : Nat) : Reader Token := do
  if (← getc) ≠ some 45 then
    parseError
    pure .none
  else skipCommentLoop fuel 0

/-- The loop of `xml_expand_entity`. The entity has room for 127 bytes. -/
def entityLoop : Nat → Bytes → Reader (Option Bytes)
  | 0, _ => stop .outOfFuel
  | fuel + 1, entity => do
    match ← getc with
    | none =>
      parseError
      pure none
    | some cc =>
      if cc = 59 then pure (some entity)
      else if isspace cc then entityLoop fuel entity
      else if 128 < entity.length + 2 then stop .assertion
      else entityLoop fuel (entity ++ [cc])

/-- What an entity stands for. A number gives a character; what is left of it is cut off. -/
def entityValue (entity : CString) : Option UInt8 :=
  if strcaseeq entity (ascii "lt".toList) then some 60
  else if strcaseeq entity (ascii "gt".toList) then some 62
  else if strcaseeq entity (ascii "amp".toList) then some 38
  else match entity with
    | 35 :: number =>
      let (value, rest, _) := strtoul 0 number
      if rest = [] then some (UInt8.ofNat value) else none
    | _ => none

/-- `xml_expand_entity`. An empty entity is looked up in a buffer that was never written. -/
def expandEntity (fuel : Nat) (res : Bytes) : Reader (Option Bytes) := do
  match ← entityLoop fuel [] with
  | none => pure none
  | some [] => stop .undefined
  | some entity =>
    match entityValue (cstr entity) with
    | some cc => pure (some (res ++ [cc]))
    | none =>
      parseError
      pure none

/-- The loop for the text up to the next tag. `cc` was read already. -/
def cdataLoop : Nat → Bytes → UInt8 → Reader (Option Bytes)
  | 0, _, _ => stop .outOfFuel
  | fuel + 1, res, cc => do
    if cc = 60 then
      ungetc (some cc)
      pure (some res)
    else
      match ← (if cc = 38 then expandEntity fuel res else pure (some (res ++ [cc]))) with
      | none => pure none
      | some res =>
        match ← getc with
        | none => pure (some res)
        | some cc => cdataLoop fuel res cc

def newline (cc : UInt8) : Bool := cc = 10 || cc = 13

def blank (cc : UInt8) : Bool := newline cc || cc = 32 || cc = 9

/-- The blank bytes at the end go, but the first line end among them and what is before it. -/
def trimTail (text : Bytes) : Bytes :=
  match (text.rtakeWhile blank).findIdx? newline with
  | none => text
  | some n => text.rdropWhile blank ++ (text.rtakeWhile blank).take (n + 1)

/-- The blank bytes at the start go up to the last line end among them. -/
def trimHead (text : Bytes) : Bytes :=
  (text.takeWhile blank).rtakeWhile (fun cc => ¬ newline cc) ++ text.dropWhile blank

def trimEmptyLines (text : Bytes) : Bytes := trimHead (trimTail text)

/-- `xml_get_token_initial`, with the text that was read. -/
def getTokenInitial : Nat → Reader (Token × Bytes)
  | 0 => stop .outOfFuel
  | fuel + 1 => do
    let res ← skipSpace fuel []
    match ← getc with
    | none => pure (.endOfDocument, [])
    | some 60 =>
      if (← state) ≠ .initial then
        parseError
        pure (.none, [60])
      else
        setState .tag
        match ← getc with
        | some 47 => pure (.leftAngleSlash, [60, 47])
        | some 63 => pure (.leftAngleQ, [60, 63])
        | some 33 =>
          let cc ← getc
          if cc ≠ some 45 then
            ungetc cc
            pure (.leftAngleExclam, [60, 33])
          else
            match ← skipComment fuel with
            | .comment =>
              setState .initial
              getTokenInitial fuel
            | token => pure (token, [60, 33])
        | cc =>
          ungetc cc
          pure (.leftAngle, [60])
    | some cc =>
      match ← cdataLoop fuel res cc with
      | none => pure (.none, [])
      | some res => pure (.cdata, trimEmptyLines res)

def identifierStart (cc : UInt8) : Bool := isalpha cc || cc = 95 || cc = 33

def identifierByte (cc : UInt8) : Bool :=
  isalnum cc || cc = 95 || cc = 33 || cc = 58 || cc = 45

def identifierLoop : Nat → Bytes → Reader Bytes
  | 0, _ => stop .outOfFuel
  | fuel + 1, res => do
    match ← getc with
    | none => pure res
    | some cc =>
      if ¬ identifierByte cc then
        ungetc (some cc)
        pure res
      else identifierLoop fuel (res ++ [cc])

def quotedLoop (oc : UInt8) : Nat → Bytes → Reader (Option Bytes)
  | 0, _ => stop .outOfFuel
  | fuel + 1, res => do
    match ← getc with
    | none =>
      parseError
      pure none
    | some cc => if cc = oc then pure (some res) else quotedLoop oc fuel (res ++ [cc])

/-- Two bytes that close a tag, the first of which was read. -/
def tagEnd (token : Token) (first : UInt8) : Reader (Token × Bytes) := do
  if (← getc) ≠ some 62 then
    parseError
    pure (.none, [first])
  else
    setState .initial
    pure (token, [first, 62])

/-- The switch of `xml_get_token_tag`. -/
def tagToken (fuel : Nat) (cc : UInt8) : Reader (Token × Bytes) := do
  if cc = 63 then tagEnd .rightAngleQ cc
  else if cc = 62 then
    setState .initial
    pure (.rightAngle, [cc])
  else if cc = 47 then tagEnd .rightAngleSlash cc
  else if cc = 61 then pure (.equals, [cc])
  else if identifierStart cc then
    let res ← identifierLoop fuel [cc]
    pure (.identifier, res)
  else if cc = 39 || cc = 34 then
    match ← quotedLoop cc fuel [] with
    | none => pure (.none, [])
    | some res => pure (.quotedString, res)
  else
    parseError
    pure (.none, [cc])

def getTokenTag (fuel : Nat) : Reader (Token × Bytes) := do
  let _ ← skipSpace fuel []
  match ← getc with
  | none =>
    parseError
    pure (.none, [])
  | some cc => tagToken fuel cc

/-- `xml_get_token`, with the string of the token. -/
def getToken (fuel : Nat) : Reader (Token × Bytes) := do
  match ← state with
  | .error => pure (.none, [])
  | .initial => getTokenInitial fuel
  | .tag => getTokenTag fuel

def getIdentifier (fuel : Nat) : Reader (Option Bytes) := do
  let (token, res) ← getToken fuel
  pure (if token = .identifier then some res else none)

/-- The string of a token, which is `NULL` when nothing was put there. -/
def tokenString (res : Bytes) : Option CString := if res = [] then none else some (cstr res)

/-- The loop of `xml_get_tag_attributes`, with the token it looks at. -/
def tagAttributesLoop : Nat → Node → Token × Bytes → Reader (Token × Node)
  | 0, _, _ => stop .outOfFuel
  | fuel + 1, node, (token, tokenValue) => do
    match token with
    | .rightAngle | .rightAngleQ | .rightAngleSlash => pure (token, node)
    | .identifier =>
      let (token, next) ← getToken fuel
      if token ≠ .equals then
        tagAttributesLoop fuel (node.addAttr (cstr tokenValue) none) (token, next)
      else
        let (token, value) ← getToken fuel
        if token ≠ .quotedString then
          parseError
          pure (.none, node)
        else
          let token ← getToken fuel
          tagAttributesLoop fuel (node.addAttr (cstr tokenValue) (tokenString value)) token
    | _ =>
      parseError
      pure (.none, node)

def getTagAttributes (fuel : Nat) (node : Node) : Reader (Token × Node) := do
  let token ← getToken fuel
  tagAttributesLoop fuel node token

/-- The loop over what follows `<!DOCTYPE`; `false` on an error. -/
def doctypeLoop : Nat → Reader Bool
  | 0 => stop .outOfFuel
  | fuel + 1 => do
    let (token, _) ← getToken fuel
    match token with
    | .rightAngle => pure true
    | .identifier | .quotedString => doctypeLoop fuel
    | _ =>
      parseError
      pure false

/-- A new node for the element or the instruction whose name was read. -/
def newNode (identifier : Bytes) : Reader Node := do
  let line ← lineCount
  pure ((Node.new (some (cstr identifier))).setLocation line)

/-- `xml_process_element_nested`, which returns `NULL` for `FALSE`. Whether `cur` has a parent
comes with it. -/
def processElementNested : Nat → Node → Bool → Reader (Option Node)
  | 0, _, _ => stop .outOfFuel
  | fuel + 1, cur, parent => do
    let (token, tokenValue) ← getToken fuel
    match token with
    | .cdata => processElementNested fuel (cur.setCdata (some (cstr tokenValue))) parent
    | .leftAngleExclam =>
      match ← getIdentifier fuel with
      | none =>
        parseError
        pure none
      | some identifier =>
        -- the message for anything else formats a structure as a string
        if cstr identifier ≠ ascii "DOCTYPE".toList then stop .undefined
        else if ← doctypeLoop fuel then processElementNested fuel cur parent
        else pure none
    | .leftAngle =>
      match ← getIdentifier fuel with
      | none =>
        parseError
        pure none
      | some identifier =>
        let child ← newNode identifier
        let (token, child) ← getTagAttributes fuel child
        match token with
        | .rightAngle =>
          match ← processElementNested fuel child true with
          | none => pure none
          | some child => processElementNested fuel (cur.addChild child) parent
        | .rightAngleSlash => processElementNested fuel (cur.addChild child) parent
        | _ =>
          parseError
          pure none
    | .leftAngleSlash =>
      match ← getIdentifier fuel with
      | none =>
        parseError
        pure none
      | some identifier =>
        if (← getToken fuel).1 ≠ .rightAngle || !parent || cur.name ≠ some (cstr identifier) then
          parseError
          pure none
        else pure (some cur)
    | .leftAngleQ =>
      match ← getIdentifier fuel with
      | none =>
        parseError
        pure none
      | some identifier =>
        let child ← newNode identifier
        let (token, _) ← getTagAttributes fuel child
        if token = .rightAngleQ then processElementNested fuel cur parent
        else
          parseError
          pure none
    | .endOfDocument =>
      if parent then
        parseError
        pure none
      else pure (some cur)
    | .none => pure none
    | _ =>
      parseError
      pure none

/-- `xml_process_document`: the root has no name. -/
def processDocument (fuel : Nat) : Reader (Option Node) := do
  let line ← lineCount
  processElementNested fuel ((Node.new none).setLocation line) false

end Testbus.Xml
