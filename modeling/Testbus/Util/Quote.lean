import Testbus.Libc

namespace Testbus.Util

/-- Where the first of the bytes is, or the end. -/
def strcspn (string reject : CString) : Nat := (string.takeWhile (· ∉ reject)).length

def quoteByte (cc : UInt8) : Bytes := if cc = 34 ∨ cc = 39 ∨ cc = 92 then [92, cc] else [cc]

/-- `ni_quote`, whose two lengths are `unsigned int`s. -/
def niQuote (string : CString) (sepa : Option CString) : CString :=
  let m := (match sepa with
    | some sepa => strcspn string sepa
    | none => string.length) % 2 ^ 32
  let n := strcspn string [34, 39] % 2 ^ 32
  if m = n ∧ string[n]? = none then string
  else 34 :: string.flatMap quoteByte ++ [34]

/-- Which of its loops `ni_unquote` is in, or behind a backslash. -/
inductive Quoting
  | outside
  | double
  | escaped
  | single
  deriving DecidableEq

def separates (sepa : Option CString) (cc : UInt8) : Bool :=
  match sepa with
  | some sepa => cc ∈ sepa
  | none => false

/-- The loops of `ni_unquote`: what they put, and where they stop, or that they fail. -/
def unquoteLoop (sepa : Option CString) : Quoting → CString → Bytes → Option (Bytes × CString)
  | .outside, [], buf => some (buf, [])
  | .outside, cc :: src, buf =>
    if separates sepa cc then some (buf, src)
    else if cc = 34 then unquoteLoop sepa .double src buf
    else if cc = 39 then unquoteLoop sepa .single src buf
    else unquoteLoop sepa .outside src (buf ++ [cc])
  | .double, cc :: src, buf =>
    if cc = 34 then unquoteLoop sepa .outside src buf
    else if cc = 92 then unquoteLoop sepa .escaped src buf
    else unquoteLoop sepa .double src (buf ++ [cc])
  | .escaped, cc :: src, buf => unquoteLoop sepa .double src (buf ++ [cc])
  | .single, cc :: src, buf =>
    if cc = 39 then unquoteLoop sepa .outside src buf
    else unquoteLoop sepa .single src (buf ++ [cc])
  | _, [], _ => none

def skipSeparators (sepa : Option CString) (string : CString) : CString :=
  string.dropWhile (separates sepa)

/-- What `ni_unquote` returns, and where it leaves the string. A buffer to which nothing was put
has no string. -/
def niUnquote (string : CString) (sepa : Option CString) : Option CString × CString :=
  match unquoteLoop sepa .outside (skipSeparators sepa string) [] with
  | some (buf, src) => (if buf = [] then none else some buf, src)
  | none => (none, string)

/-- The tokens until `ni_unquote` returns `NULL`. -/
inductive Tokens (sepa : Option CString) : CString → List CString → Prop
  | done {string : CString} (null : (niUnquote string sepa).1 = none) : Tokens sepa string []
  | token {string token rest : CString} {tokens : List CString}
      (found : niUnquote string sepa = (some token, rest)) (later : Tokens sepa rest tokens) :
      Tokens sepa string (token :: tokens)

def joined (c : UInt8) : List CString → CString
  | [] => []
  | [string] => string
  | string :: rest => string ++ c :: joined c rest

/-- Strings that are quoted and joined are read back. -/
def RoundTrips (sepa : CString) (c : UInt8) (strings : List CString) : Prop :=
  Tokens (some sepa) (joined c (strings.map (niQuote · (some sepa)))) strings

/-! What a token is. -/

/-- Text between double quotes, and what it stands for. -/
inductive Quoted : CString → CString → Prop
  | nil : Quoted [] []
  | byte {cc : UInt8} {text value : CString} (plain : cc ≠ 34 ∧ cc ≠ 92)
      (rest : Quoted text value) : Quoted (cc :: text) (cc :: value)
  | escape {cc : UInt8} {text value : CString} (rest : Quoted text value) :
      Quoted (92 :: cc :: text) (cc :: value)

inductive Word (sepa : Option CString) : CString → CString → Prop
  | nil : Word sepa [] []
  | byte {cc : UInt8} {text value : CString} (inside : separates sepa cc = false)
      (plain : cc ≠ 34 ∧ cc ≠ 39) (rest : Word sepa text value) :
      Word sepa (cc :: text) (cc :: value)
  | double {body inner text value : CString} (inside : separates sepa 34 = false)
      (quoted : Quoted body inner) (rest : Word sepa text value) :
      Word sepa (34 :: body ++ 34 :: text) (inner ++ value)
  | single {body text value : CString} (inside : separates sepa 39 = false) (quoted : 39 ∉ body)
      (rest : Word sepa text value) : Word sepa (39 :: body ++ 39 :: text) (body ++ value)

/-- A token ends here. -/
def Ends (sepa : Option CString) (rest : CString) : Prop :=
  ∀ cc ∈ rest.head?, separates sepa cc = true

/-- A quote that nothing ends: the text may end behind a backslash. -/
def Unclosed (sepa : Option CString) (rest : CString) : Prop :=
  (separates sepa 34 = false ∧ ∃ body inner, Quoted body inner ∧
    (rest = 34 :: body ∨ rest = 34 :: body ++ [92])) ∨
  (separates sepa 39 = false ∧ ∃ body, 39 ∉ body ∧ rest = 39 :: body)

def Unterminated (sepa : Option CString) (src : CString) : Prop :=
  ∃ text value rest, src = text ++ rest ∧ Word sepa text value ∧ Unclosed sepa rest

/-- Nothing but empty quotes up to the end of the token. -/
def Hollow (sepa : Option CString) (src : CString) : Prop :=
  ∃ text rest, src = text ++ rest ∧ Word sepa text [] ∧ Ends sepa rest

/-- What a call should do: it returns a token and advances, or it fails because a quote is not
terminated. -/
def Answers (sepa : Option CString) (string : CString) : Prop :=
  (∃ token rest, niUnquote string sepa = (some token, rest) ∧ rest <:+ string ∧
    rest.length < string.length) ∨
  ((niUnquote string sepa).1 = none ∧ Unterminated sepa (skipSeparators sepa string))

/-- No byte of the string has to be quoted, if the double quote is a separator. -/
def Bare (sepa string : CString) : Prop := 34 ∈ sepa → ∀ cc ∈ string, cc ∉ sepa ∧ cc ≠ 39

/-- The string is not empty. If the double quote is a separator, no byte of it has to be quoted,
and it is not so long that its backslashes are quoted all the same. -/
def Restorable (sepa string : CString) : Prop :=
  string ≠ [] ∧ Bare sepa string ∧ (34 ∈ sepa → 92 ∈ string → string.length < 2 ^ 32)

section Loops

variable {sepa : Option CString} {src text value body inner rest : CString}

attribute [local simp] unquoteLoop

@[simp] theorem loop_separator (ends_ : separates sepa cc = true) :
    unquoteLoop sepa .outside (cc :: src) buf = some (buf, src) := by
  simp [ends_]

theorem loop_byte (inside : separates sepa cc = false) (plain : cc ≠ 34 ∧ cc ≠ 39) :
    unquoteLoop sepa .outside (cc :: src) buf = unquoteLoop sepa .outside src (buf ++ [cc]) := by
  simp [inside, plain]

theorem loop_double (inside : separates sepa 34 = false) :
    unquoteLoop sepa .outside (34 :: src) buf = unquoteLoop sepa .double src buf := by
  simp [inside]

theorem loop_single (inside : separates sepa 39 = false) :
    unquoteLoop sepa .outside (39 :: src) buf = unquoteLoop sepa .single src buf := by
  simp [inside]

theorem loop_quoted (quoted : Quoted body inner) (sepa : Option CString) (src : CString) (buf : Bytes) :
    unquoteLoop sepa .double (body ++ src) buf = unquoteLoop sepa .double src (buf ++ inner) := by
  induction quoted generalizing buf with
  | nil => rw [List.append_nil, List.nil_append]
  | byte plain _ ih =>
    rw [List.cons_append, unquoteLoop, if_neg plain.1, if_neg plain.2, ih, List.append_assoc, List.singleton_append]
  | escape _ ih =>
    rw [List.cons_append, List.cons_append, unquoteLoop, if_neg (by decide), if_pos rfl,
      unquoteLoop, ih, List.append_assoc, List.singleton_append]

theorem loop_inside_single (quoted : 39 ∉ body) (sepa : Option CString) (src : CString) (buf : Bytes) :
    unquoteLoop sepa .single (body ++ src) buf = unquoteLoop sepa .single src (buf ++ body) := by
  induction body generalizing buf with
  | nil => rw [List.append_nil, List.nil_append]
  | cons cc body ih =>
    obtain ⟨other, rest⟩ := not_or.mp (List.mem_cons.not.mp quoted)
    rw [List.cons_append, unquoteLoop, if_neg (Ne.symm other), ih rest _, List.append_assoc, List.singleton_append]

/-- The loops put what a word stands for. -/
theorem loop_word (word : Word sepa text value) :
    unquoteLoop sepa .outside (text ++ src) buf = unquoteLoop sepa .outside src (buf ++ value) := by
  induction word generalizing buf with
  | nil => rw [List.append_nil, List.nil_append]
  | byte inside plain _ ih =>
    rw [List.cons_append, loop_byte inside plain, ih, List.append_assoc, List.singleton_append]
  | double inside quoted _ ih =>
    rw [List.cons_append, List.cons_append, List.append_assoc, List.cons_append,
      loop_double inside, loop_quoted quoted, unquoteLoop, if_pos rfl, ih, List.append_assoc]
  | single inside quoted _ ih =>
    rw [List.cons_append, List.cons_append, List.append_assoc, List.cons_append,
      loop_single inside, loop_inside_single quoted, unquoteLoop, if_pos rfl, ih, List.append_assoc]

theorem loop_ends (ends_ : Ends sepa rest) : unquoteLoop sepa .outside rest buf = some (buf, rest.tail) := by
  cases rest with
  | nil => rfl
  | cons cc rest => exact loop_separator (ends_ cc rfl)

theorem loop_unclosed (unclosed : Unclosed sepa rest) : unquoteLoop sepa .outside rest buf = none := by
  rcases unclosed with ⟨inside, body, inner, quoted, rfl | rfl⟩ | ⟨inside, body, quoted, rfl⟩
  · have looped := loop_quoted quoted sepa [] buf
    rw [List.append_nil] at looped
    rw [loop_double inside, looped]
    rfl
  · rw [List.cons_append, loop_double inside, loop_quoted quoted]
    rfl
  · have looped := loop_inside_single quoted sepa [] buf
    rw [List.append_nil] at looped
    rw [loop_single inside, looped]
    rfl

theorem quoted_or_unclosed (src : CString) :
    (∃ body inner rest, src = body ++ 34 :: rest ∧ Quoted body inner) ∨
      ∃ body inner, Quoted body inner ∧ (src = body ∨ src = body ++ [92]) := by
  induction length : src.length using Nat.strongRecOn generalizing src with
  | ind n ih =>
    cases src with
    | nil => exact .inr ⟨[], [], .nil, .inl rfl⟩
    | cons cc src =>
      rw [List.length_cons] at length
      by_cases closes : cc = 34
      · subst cc
        exact .inl ⟨[], [], src, rfl, .nil⟩
      · by_cases escapes : cc = 92
        · subst cc
          cases src with
          | nil => exact .inr ⟨[], [], .nil, .inr rfl⟩
          | cons cc src =>
            rw [List.length_cons] at length
            rcases ih src.length (by omega) src rfl with
              ⟨body, inner, rest, rfl, quoted⟩ | ⟨body, inner, quoted, rfl | rfl⟩
            · exact .inl ⟨92 :: cc :: body, cc :: inner, rest, rfl, .escape quoted⟩
            · exact .inr ⟨_, _, .escape quoted, .inl rfl⟩
            · exact .inr ⟨92 :: cc :: body, cc :: inner, .escape quoted, .inr rfl⟩
        · have plain : cc ≠ 34 ∧ cc ≠ 92 := ⟨closes, escapes⟩
          rcases ih src.length (by omega) src rfl with
            ⟨body, inner, rest, rfl, quoted⟩ | ⟨body, inner, quoted, rfl | rfl⟩
          · exact .inl ⟨cc :: body, cc :: inner, rest, rfl, .byte plain quoted⟩
          · exact .inr ⟨_, _, .byte plain quoted, .inl rfl⟩
          · exact .inr ⟨cc :: body, cc :: inner, .byte plain quoted, .inr rfl⟩

/-- A text begins with a word up to the end of the token, or with one up to a quote that nothing
ends. -/
def Divides (sepa : Option CString) (src : CString) : Prop :=
  (∃ text value rest, src = text ++ rest ∧ Word sepa text value ∧ Ends sepa rest) ∨
    Unterminated sepa src

theorem Divides.behind (divides : Divides sepa src) (piece inner : CString)
    (longer : ∀ text value, Word sepa text value → Word sepa (piece ++ text) (inner ++ value)) :
    Divides sepa (piece ++ src) := by
  rcases divides with ⟨text, value, rest, rfl, word, ends_⟩ | ⟨text, value, rest, rfl, word, unclosed⟩
  · exact .inl ⟨piece ++ text, inner ++ value, rest, by rw [List.append_assoc], longer text value word, ends_⟩
  · exact .inr ⟨piece ++ text, inner ++ value, rest, by rw [List.append_assoc], longer text value word, unclosed⟩

theorem divides (sepa : Option CString) (src : CString) : Divides sepa src := by
  induction length : src.length using Nat.strongRecOn generalizing src with
  | ind n ih =>
    cases src with
    | nil => exact .inl ⟨[], [], [], rfl, .nil, nofun⟩
    | cons cc src =>
      rw [List.length_cons] at length
      by_cases ends_ : separates sepa cc = true
      · refine .inl ⟨[], [], cc :: src, rfl, .nil, fun cc' head => ?_⟩
        cases head
        exact ends_
      · have inside : separates sepa cc = false := Bool.not_eq_true _ ▸ ends_
        by_cases double : cc = 34
        · subst cc
          rcases quoted_or_unclosed src with ⟨body, inner, rest, rfl, quoted⟩ |
            ⟨body, inner, quoted, rfl | rfl⟩
          · rw [List.length_append, List.length_cons] at length
            have later := (ih rest.length (by omega) rest rfl).behind (34 :: body ++ [34]) inner
            rw [List.append_assoc] at later
            refine later fun text value word => ?_
            rw [List.append_assoc]
            exact .double inside quoted word
          · exact .inr ⟨[], [], _, rfl, .nil, .inl ⟨inside, _, inner, quoted, .inl rfl⟩⟩
          · exact .inr ⟨[], [], _, rfl, .nil, .inl ⟨inside, body, inner, quoted, .inr rfl⟩⟩
        · by_cases single : cc = 39
          · subst cc
            by_cases closes : 39 ∈ src
            · obtain ⟨body, rest, rfl, quoted⟩ := List.eq_append_cons_of_mem closes
              rw [List.length_append, List.length_cons] at length
              have later := (ih rest.length (by omega) rest rfl).behind (39 :: body ++ [39]) body
              rw [List.append_assoc] at later
              refine later fun text value word => ?_
              rw [List.append_assoc]
              exact .single inside quoted word
            · exact .inr ⟨[], [], _, rfl, .nil, .inr ⟨inside, src, closes, rfl⟩⟩
          · exact (ih src.length (by omega) src rfl).behind [cc] [cc] fun text value word =>
              .byte inside ⟨double, single⟩ word

theorem loop_unterminated (unterminated : Unterminated sepa src) (buf : Bytes) :
    unquoteLoop sepa .outside src buf = none := by
  obtain ⟨text, value, rest, rfl, word, unclosed⟩ := unterminated
  rw [loop_word word, loop_unclosed unclosed]

theorem loop_token (word : Word sepa text value) (ends_ : Ends sepa rest) :
    unquoteLoop sepa .outside (text ++ rest) [] = some (value, rest.tail) := by
  rw [loop_word word, List.nil_append, loop_ends ends_]

theorem Word.of_nil (word : Word sepa text value) (empty : text = []) : value = [] := by
  cases word with
  | nil => rfl
  | byte | double | single => cases empty

/-- A call answers as it should unless the token is empty. -/
theorem answers_iff (sepa : Option CString) (string : CString) :
    Answers sepa string ↔ ¬ Hollow sepa (skipSeparators sepa string) := by
  have skipped : skipSeparators sepa string <:+ string := List.dropWhile_suffix _
  rcases divides sepa (skipSeparators sepa string) with
    ⟨text, value, rest, src, word, ends_⟩ | unterminated
  · have looped := loop_token word ends_
    rw [← src] at looped
    by_cases empty : value = []
    · subst value
      refine iff_of_false ?_ fun full => full ⟨text, rest, src, word, ends_⟩
      rintro (⟨token, rest', found, -⟩ | ⟨-, unterminated⟩)
      · rw [niUnquote, looped] at found
        cases found
      · rw [loop_unterminated unterminated []] at looped
        cases looped
    · have found : niUnquote string sepa = (some value, rest.tail) := by
        rw [niUnquote, looped]
        exact congrArg (·, rest.tail) (if_neg empty)
      have behind : rest.tail <:+ skipSeparators sepa string := by
        rw [src]
        exact (List.tail_suffix rest).trans (List.suffix_append text rest)
      have some_ : text ≠ [] := by
        rintro rfl
        exact empty (word.of_nil rfl)
      have shorter : rest.tail.length < (skipSeparators sepa string).length := by
        have length := List.length_pos_iff.mpr some_
        rw [src, List.length_append, List.length_tail]
        omega
      refine iff_of_true (.inl ⟨value, rest.tail, found, behind.trans skipped,
        Nat.lt_of_lt_of_le shorter skipped.length_le⟩) ?_
      rintro ⟨text', rest', src', word', ends'⟩
      rw [src', loop_token word' ends'] at looped
      exact empty (congrArg Prod.fst (Option.some.inj looped)).symm
  · have looped := loop_unterminated unterminated []
    refine iff_of_true (.inr ⟨by rw [niUnquote, looped], unterminated⟩) ?_
    rintro ⟨text, rest, src, word, ends_⟩
    rw [src, loop_token word ends_] at looped
    cases looped

theorem unquote_suffix (string : CString) (sepa : Option CString) : (niUnquote string sepa).2 <:+ string := by
  have skipped : skipSeparators sepa string <:+ string := List.dropWhile_suffix _
  rcases divides sepa (skipSeparators sepa string) with
    ⟨text, value, rest, src, word, ends_⟩ | unterminated
  · have looped := loop_token word ends_
    rw [← src] at looped
    rw [niUnquote, looped]
    refine List.IsSuffix.trans ?_ skipped
    rw [src]
    exact (List.tail_suffix rest).trans (List.suffix_append text rest)
  · have failed : niUnquote string sepa = (none, string) := by
      rw [niUnquote, loop_unterminated unterminated]
    exact ⟨[], congrArg Prod.snd failed⟩

end Loops

end Testbus.Util
