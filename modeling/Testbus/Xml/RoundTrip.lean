import Testbus.Xml.Tokens
import Testbus.Xml.Writer

namespace Testbus.Xml

open Lib Program Testbus.Environ

variable {source : Source} {text : Text}

/-- An attribute that is read as it is written: its value, if it has one, is not empty and has no
quotation mark. -/
structure PlainAttr (attr : NiVar) : Prop where
  name : Identifier attr.name
  value : ∀ value, attr.value = some value → value ≠ [] ∧ ∀ b ∈ value, b ≠ 0 ∧ b ≠ 34

def addAttrs (node : Node) (attrs : List NiVar) : Node :=
  attrs.foldl (fun node attr => node.addAttr attr.name attr.value) node

/-- The end of a start tag, and the token that it is. -/
inductive Closes : Bytes → Token → Prop
  | open : Closes [62] .rightAngle
  | empty : Closes [47, 62] .rightAngleSlash

variable {bytes : Bytes}

theorem cstr_eq (nonzero : ∀ b ∈ bytes, b ≠ 0) : cstr bytes = bytes := by
  rw [cstr, List.takeWhile_eq_self_iff]
  intro b member
  simpa using nonzero b member

variable {closing : Bytes} {token : Token}

theorem ends_closing (attrs : List NiVar) (rest : Bytes) (closes : Closes closing token) :
    ∃ cc more, attrs.flatMap attrText ++ closing ++ rest = cc :: more ∧ Ends cc := by
  cases attrs with
  | nil =>
    cases closes with
    | «open» => exact ⟨62, _, rfl, by decide, by decide⟩
    | empty => exact ⟨47, _, rfl, by decide, by decide⟩
  | cons attr attrs =>
    have first : ∃ more, attrText attr = 32 :: more := by
      rw [attrText]
      split <;> exact ⟨_, rfl⟩
    obtain ⟨more, first⟩ := first
    rw [List.flatMap_cons, first]
    exact ⟨32, _, rfl, by decide, by decide⟩

variable {attrs : List NiVar} {rest : Bytes}

theorem gives_attributes (node : Node)
    (tag : text.state = .tag) (split : text.rest = attrs.flatMap attrText ++ closing ++ rest)
    (plain : ∀ attr ∈ attrs, PlainAttr attr) (closes : Closes closing token) (enough : text.rest.length < fuel) :
    Gives source (getToken fuel) text fun found t => found.1 ≠ .equals ∧
      Gives source (tagAttributesLoop fuel node found) t fun done t' =>
        done = (token, addAttrs node attrs) ∧ t'.rest = rest ∧ t'.state = .initial := by
  induction attrs generalizing node text fuel with
  | nil =>
    obtain ⟨fuel, rfl⟩ := Nat.exists_eq_succ_of_ne_zero (Nat.ne_of_gt (Nat.zero_lt_of_lt enough))
    cases closes with
    | «open» =>
      apply (gives_token tag (by rw [split]; exact lexTag_rightAngle) enough).weaken
      rintro ⟨_, value⟩ t ⟨rfl, -, rest', state⟩
      exact ⟨nofun, gives_pure ⟨rfl, rest', state⟩⟩
    | empty =>
      apply (gives_token tag (by rw [split]; exact lexTag_rightAngleSlash) enough).weaken
      rintro ⟨_, value⟩ t ⟨rfl, -, rest', state⟩
      exact ⟨nofun, gives_pure ⟨rfl, rest', state⟩⟩
  | cons attr attrs ih =>
    have named := (plain attr List.mem_cons_self)
    have others := fun other member => plain other (List.mem_cons_of_mem attr member)
    have nonempty := List.length_pos_of_ne_nil named.name.ne_nil
    obtain ⟨fuel, rfl⟩ := Nat.exists_eq_succ_of_ne_zero (Nat.ne_of_gt (Nat.zero_lt_of_lt enough))
    cases value : attr.value with
    | none =>
      have first : attrText attr = [32] ++ attr.name := by rw [attrText, value]; rfl
      obtain ⟨cc, more, next, ends⟩ := ends_closing attrs rest closes
      rw [List.flatMap_cons, first, List.append_assoc, List.append_assoc, List.append_assoc] at split
      rw [List.append_assoc] at next
      rw [next] at split
      have behind : text.rest.dropWhile isspace = attr.name ++ cc :: more := by
        rw [split]
        exact named.name.behind _
      apply (gives_identifier tag behind named.name ends enough).weaken
      rintro _ t ⟨rfl, rest', state⟩
      refine ⟨nofun, ?_⟩
      rw [split] at enough
      have shorter : t.rest.length < fuel := by
        simp [rest'] at enough ⊢
        omega
      apply (ih (node.addAttr attr.name none) state (by rw [rest', ← next, List.append_assoc]) others shorter).then
      rintro ⟨next, string⟩ t' ⟨unequal, later⟩
      simp only [if_pos unequal, cstr_eq named.name.nonzero]
      simpa [addAttrs, value] using later
    | some value' =>
      have first : attrText attr = [32] ++ attr.name ++ 61 :: (34 :: value' ++ [34]) := by
        rw [attrText, value]
        simp [ascii]
      obtain ⟨filled, simple⟩ := named.value value' value
      rw [List.flatMap_cons, first] at split
      simp only [List.append_assoc, List.cons_append, List.nil_append] at split
      have split' : text.rest = [32] ++ attr.name ++ 61 :: (34 :: value' ++
          34 :: (attrs.flatMap attrText ++ closing ++ rest)) := by
        simpa using split
      have behind : text.rest.dropWhile isspace = attr.name ++ 61 :: (34 :: value' ++
          34 :: (attrs.flatMap attrText ++ closing ++ rest)) := by
        rw [split']
        exact named.name.behind _
      apply (gives_identifier tag behind named.name ⟨by decide, by decide⟩ enough).weaken
      rintro _ t ⟨rfl, rest', state⟩
      refine ⟨nofun, ?_⟩
      rw [split'] at enough
      simp only [List.length_append, List.length_cons, List.length_nil] at enough
      apply (gives_token state (by rw [rest']; exact lexTag_equals)
        (by rw [rest']; simp only [List.length_append, List.length_cons]; omega)).then
      rintro ⟨_, string⟩ t₁ ⟨rfl, -, rest₁, state₁⟩
      simp only [ne_eq, not_true, if_false]
      apply (gives_quotedString state₁ rest₁ (fun b member => (simple b member).2)
        (by rw [rest₁]; simp only [List.length_append, List.length_cons]; omega)).then
      rintro _ t₂ ⟨rfl, rest₂, state₂⟩
      simp only [not_true, if_false]
      apply (ih (node.addAttr attr.name (some value')) state₂ rest₂ others
        (by rw [rest₂]; simp only [List.length_append]; omega)).then
      rintro ⟨next, string⟩ t' ⟨-, later⟩
      rw [tokenString, if_neg filled, cstr_eq fun b member => (simple b member).1, cstr_eq named.name.nonzero]
      simpa [addAttrs, value] using later

theorem gives_getTagAttributes (node : Node) (tag : text.state = .tag)
    (split : text.rest = attrs.flatMap attrText ++ closing ++ rest)
    (plain : ∀ attr ∈ attrs, PlainAttr attr) (closes : Closes closing token) (enough : text.rest.length < fuel) :
    Gives source (getTagAttributes fuel node) text fun done t =>
      done = (token, addAttrs node attrs) ∧ t.rest = rest ∧ t.state = .initial := by
  apply (gives_attributes node tag split plain closes enough).then
  rintro found t ⟨-, later⟩
  exact later

variable {name written : Bytes}

/-- A byte that is written as an entity is read back from it. -/
theorem gives_escaped (res : Bytes)
    (entity : (name, cc) ∈ [(ascii "lt".toList, 60), (ascii "gt".toList, 62), (ascii "amp".toList, 38)])
    (split : text.rest = name ++ 59 :: rest) (enough : text.rest.length < fuel) :
    Gives source (expandEntity fuel res) text fun found t =>
      found = some (res ++ [cc]) ∧ t.rest = rest ∧ t.state = text.state := by
  have lexed : lexEntity text.rest = .passes rest ∧
      entityValue (cstr (nonblank (text.rest.takeWhile (· ≠ 59)))) = some cc := by
    simp only [List.mem_cons, Prod.mk.injEq, List.not_mem_nil, or_false] at entity
    rw [split]
    rcases entity with ⟨rfl, rfl⟩ | ⟨rfl, rfl⟩ | ⟨rfl, rfl⟩ <;> exact ⟨rfl, rfl⟩
  refine (exact_expandEntity res enough (by rw [lexed.1]; nofun)).weaken fun found t given => ?_
  cases found with
  | none => cases lexed.1.symm.trans given.1
  | some value =>
    obtain ⟨passes, state, byte, same, rfl⟩ := given
    cases lexed.1.symm.trans passes
    cases lexed.2.symm.trans same
    exact ⟨rfl, rfl, state⟩

theorem escape_cases (cc : UInt8) : (cc ≠ 60 ∧ cc ≠ 38 ∧ escape cc = [cc]) ∨
    ∃ name, escape cc = 38 :: (name ++ [59]) ∧
      (name, cc) ∈ [(ascii "lt".toList, 60), (ascii "gt".toList, 62), (ascii "amp".toList, 38)] := by
  rw [escape]
  split_ifs with less greater amp
  · exact .inr ⟨ascii "lt".toList, by decide, by simp [less]⟩
  · exact .inr ⟨ascii "gt".toList, by decide, by simp [greater]⟩
  · exact .inr ⟨ascii "amp".toList, by decide, by simp [amp]⟩
  · exact .inl ⟨less, amp, rfl⟩

/-- A text, and one that it can be written as: with an entity for each `&` and `<`, and for any
other byte that there is one for. -/
inductive Written : Bytes → Bytes → Prop
  | nil : Written [] []
  | plain {cc : UInt8} {content written : Bytes} (angle : cc ≠ 60) (ampersand : cc ≠ 38)
      (rest : Written content written) : Written (cc :: content) (cc :: written)
  | entity {cc : UInt8} {name content written : Bytes}
      (entity : (name, cc) ∈
        [(ascii "lt".toList, 60), (ascii "gt".toList, 62), (ascii "amp".toList, 38)])
      (rest : Written content written) :
      Written (cc :: content) (38 :: (name ++ 59 :: written))

theorem written_escape (content : Bytes) : Written content (content.flatMap escape) := by
  induction content with
  | nil => exact .nil
  | cons b content ih =>
    rw [List.flatMap_cons]
    rcases escape_cases b with ⟨plain, simple, same⟩ | ⟨name, same, entity⟩
    · rw [same]
      exact .plain plain simple ih
    · simp only [same, List.cons_append, List.append_assoc, List.nil_append]
      exact .entity entity ih

/-- Behind a byte of the text, the loop goes on in the same way. -/
theorem gives_goesOn (later : ∀ {text : Text} {fuel : Nat} {cc : UInt8} (res : Bytes),
      cc :: text.rest = written ++ 60 :: rest → text.last = some cc → text.rest.length + 1 < fuel →
      Gives source (cdataLoop fuel res cc) text fun found t =>
        found = some (res ++ content) ∧ t.rest = 60 :: rest ∧ t.state = text.state)
    (res : Bytes) (split : text.rest = written ++ 60 :: rest) (enough : text.rest.length < fuel) :
    Gives source (do
      match ← getc with
      | none => pure (some (res ++ [b]))
      | some cc => cdataLoop fuel (res ++ [b]) cc) text fun found t =>
        found = some (res ++ b :: content) ∧ t.rest = 60 :: rest ∧ t.state = text.state := by
  obtain ⟨next, more, following⟩ := List.exists_cons_of_ne_nil (show written ++ 60 :: rest ≠ [] by simp)
  apply gives_getc (split.trans following)
  intro t rest' last state
  have less : t.rest.length + 1 = text.rest.length := by
    rw [split, following, rest', List.length_cons]
  apply (later (res ++ [b]) (by rw [rest', following]) last (by omega)).weaken
  rintro _ t' ⟨rfl, rest'', state'⟩
  exact ⟨by simp, rest'', state'.trans state⟩

theorem gives_cdataLoop (res : Bytes)
    (form : Written content written) (split : cc :: text.rest = written ++ 60 :: rest) (last : text.last = some cc)
    (enough : text.rest.length + 1 < fuel) :
    Gives source (cdataLoop fuel res cc) text fun found t =>
      found = some (res ++ content) ∧ t.rest = 60 :: rest ∧ t.state = text.state := by
  induction form generalizing cc res text fuel with
  | nil =>
    obtain ⟨rfl, rest'⟩ := List.cons.inj split
    obtain ⟨fuel, rfl⟩ := Nat.exists_eq_succ_of_ne_zero (Nat.ne_of_gt (Nat.zero_lt_of_lt enough))
    rw [cdataLoop, if_pos rfl]
    apply gives_ungetc last (by decide)
    intro t rest'' state
    exact gives_pure ⟨by simp, by rw [rest'', rest'], state⟩
  | plain angle ampersand form ih =>
    obtain ⟨fuel, rfl⟩ := Nat.exists_eq_succ_of_ne_zero (Nat.ne_of_gt (Nat.zero_lt_of_lt enough))
    obtain ⟨rfl, rest'⟩ := List.cons.inj split
    rw [cdataLoop, if_neg angle, if_neg ampersand]
    exact gives_goesOn ih res rest' (by omega)
  | entity entity form ih =>
    obtain ⟨fuel, rfl⟩ := Nat.exists_eq_succ_of_ne_zero (Nat.ne_of_gt (Nat.zero_lt_of_lt enough))
    simp only [List.cons_append, List.append_assoc] at split
    obtain ⟨rfl, rest'⟩ := List.cons.inj split
    rw [cdataLoop, if_neg (by decide), if_pos rfl]
    apply (gives_escaped res entity rest' (by omega)).then
    rintro _ t ⟨rfl, rest₁, state₁⟩
    rw [← state₁]
    apply gives_goesOn ih res rest₁
    rw [rest'] at enough
    simp only [rest₁, List.length_append, List.length_cons] at enough ⊢
    omega

theorem flatMap_escape_space {ws : Bytes} (space : ∀ b ∈ ws, isspace b = true) : ws.flatMap escape = ws := by
  induction ws with
  | nil => rfl
  | cons b ws ih =>
    have first := space b List.mem_cons_self
    have same : escape b = [b] := by
      rcases escape_cases b with ⟨-, -, same⟩ | ⟨name, -, entity⟩
      · exact same
      · simp only [List.mem_cons, Prod.mk.injEq, List.not_mem_nil, or_false] at entity
        rcases entity with ⟨-, rfl⟩ | ⟨-, rfl⟩ | ⟨-, rfl⟩ <;> cases first
    rw [List.flatMap_cons, same, ih fun c member => space c (List.mem_cons_of_mem _ member)]
    rfl

/-- Text between tags is a token if there is more to it than white space. -/
theorem gives_cdata {content : Bytes} (initial : text.state = .initial)
    (split : text.rest = content.flatMap escape ++ 60 :: rest)
    (plain : ∀ b ∈ content, ¬ 128 ≤ b) (solid : ∃ b ∈ content, isspace b = false) (enough : text.rest.length + 1 < fuel) :
    Gives source (getToken fuel) text fun found t =>
      found = (.cdata, trimEmptyLines content) ∧ t.rest = 60 :: rest ∧ t.state = .initial := by
  apply gives_state initial
  obtain ⟨fuel, rfl⟩ := Nat.exists_eq_succ_of_ne_zero (Nat.ne_of_gt (Nat.zero_lt_of_lt enough))
  obtain ⟨b, inside, first⟩ := solid
  have rest_ne : content.dropWhile isspace ≠ [] := by
    intro none_
    rw [List.dropWhile_eq_nil_iff] at none_
    rw [none_ b inside] at first
    cases first
  obtain ⟨cc, more, parts⟩ := List.exists_cons_of_ne_nil rest_ne
  have whole : content = content.takeWhile isspace ++ cc :: more := by
    rw [← parts, List.takeWhile_append_dropWhile]
  have space : ∀ b ∈ content.takeWhile isspace, isspace b = true := fun b => List.mem_takeWhile_imp
  have solid : isspace cc = false := by
    have head := List.head?_dropWhile_not isspace content
    rwa [parts] at head
  generalize content.takeWhile isspace = ws at whole space
  subst whole
  have low := (plain cc (by simp))
  -- the first byte that is written for `cc`
  obtain ⟨next, others, written, stops, inner⟩ : ∃ next others,
      escape cc ++ (more.flatMap escape ++ 60 :: rest) = next :: others ∧
        (¬ 128 ≤ next ∧ isspace next = false) ∧ next ≠ 60 := by
    rcases escape_cases cc with ⟨angle, -, same⟩ | ⟨name, same, -⟩
    · exact ⟨cc, _, by rw [same]; rfl, ⟨low, solid⟩, angle⟩
    · exact ⟨38, _, by rw [same]; rfl, by decide, by decide⟩
  rw [List.flatMap_append, flatMap_escape_space space, List.flatMap_cons, List.append_assoc,
    List.append_assoc, written] at split
  have apart : ¬ isspace next = true := by simp [stops.2]
  have behind : text.rest.dropWhile isspace = next :: others := by
    rw [split, List.dropWhile_append_of_pos space, List.dropWhile_cons_of_neg apart]
  have blanks : text.rest.takeWhile isspace = ws := by
    rw [split, List.takeWhile_append_of_pos space, List.takeWhile_cons_of_neg apart, List.append_nil]
  rw [getTokenInitial]
  apply (gives_skipSpace [] behind stops.1 (by omega)).then
  rw [blanks]
  rintro res t ⟨skipped, rest₁, state₁⟩
  apply gives_getc rest₁
  intro t₂ rest₂ last₂ state₂
  have shorter : t₂.rest.length < text.rest.length := by
    rw [split, rest₂]
    simp only [List.length_append, List.length_cons]
    omega
  split
  next none_ => cases none_
  next same => exact absurd (Option.some.inj same) inner
  next same =>
    cases same
    rw [skipped]
    have ahead : next :: t₂.rest = (cc :: more).flatMap escape ++ 60 :: rest := by
      rw [rest₂, ← written, List.flatMap_cons, List.append_assoc]
    apply (gives_cdataLoop ([] ++ ws) (written_escape _) ahead last₂ (by omega)).then
    rintro _ t₃ ⟨rfl, rest₃, state₃⟩
    exact gives_pure ⟨by simp, rest₃, state₃.trans (state₂.trans (state₁.trans initial))⟩

theorem gives_leftAngle (initial : text.state = .initial) (behind : text.rest.dropWhile isspace = 60 :: cc :: rest)
    (start : isalpha cc = true ∨ cc = 95) (enough : text.rest.length + 1 < fuel) :
    Gives source (getToken fuel) text fun found t =>
      found.1 = .leftAngle ∧ t.rest = cc :: rest ∧ t.state = .tag := by
  apply gives_state initial
  obtain ⟨fuel, rfl⟩ := Nat.exists_eq_succ_of_ne_zero (Nat.ne_of_gt (Nat.zero_lt_of_lt enough))
  rw [getTokenInitial]
  apply (gives_skipSpace [] behind (by decide) (by omega)).then
  rintro _ t ⟨-, rest', state⟩
  have valid : identifierByte cc = true := by
    rcases start with letter | rfl
    · simp [identifierByte, isalnum, letter]
    · rfl
  apply gives_getc rest'
  intro t₁ rest₁ _ state₁
  apply gives_state (state₁.trans (state.trans initial))
  rw [if_neg (not_not.mpr rfl)]
  apply gives_setState
  intro t₂ rest₂ state₂
  apply gives_getc (rest₂.trans rest₁)
  intro t₃ rest₃ last₃ state₃
  have others : cc ≠ 47 ∧ cc ≠ 63 ∧ cc ≠ 33 := by
    refine ⟨?_, ?_, ?_⟩ <;> (rintro rfl; rcases start with h | h <;> cases h)
  split
  next same => exact absurd (Option.some.inj same) others.1
  next same => exact absurd (Option.some.inj same) others.2.1
  next same => exact absurd (Option.some.inj same) others.2.2
  · apply gives_ungetc last₃ (identifierByte_low valid)
    intro t₄ rest₄ state₄
    exact gives_pure ⟨rfl, by rw [rest₄, rest₃], state₄.trans (state₃.trans state₂)⟩

theorem gives_leftAngleSlash (initial : text.state = .initial)
    (behind : text.rest.dropWhile isspace = 60 :: 47 :: rest) (enough : text.rest.length + 1 < fuel) :
    Gives source (getToken fuel) text fun found t =>
      found.1 = .leftAngleSlash ∧ t.rest = rest ∧ t.state = .tag := by
  apply gives_state initial
  obtain ⟨fuel, rfl⟩ := Nat.exists_eq_succ_of_ne_zero (Nat.ne_of_gt (Nat.zero_lt_of_lt enough))
  rw [getTokenInitial]
  apply (gives_skipSpace [] behind (by decide) (by omega)).then
  rintro _ t ⟨-, rest', state⟩
  apply gives_getc rest'
  intro t₁ rest₁ _ state₁
  apply gives_state (state₁.trans (state.trans initial))
  rw [if_neg (not_not.mpr rfl)]
  apply gives_setState
  intro t₂ rest₂ state₂
  apply gives_getc (rest₂.trans rest₁)
  intro t₃ rest₃ _ state₃
  exact gives_pure ⟨rfl, rest₃, state₃.trans state₂⟩

theorem gives_endOfDocument (initial : text.state = .initial)
    (space : ∀ b ∈ text.rest, isspace b = true) (enough : text.rest.length + 1 < fuel) :
    Gives source (getToken fuel) text fun found _ => found.1 = .endOfDocument := by
  apply gives_state initial
  obtain ⟨fuel, rfl⟩ := Nat.exists_eq_succ_of_ne_zero (Nat.ne_of_gt (Nat.zero_lt_of_lt enough))
  rw [getTokenInitial]
  apply (exact_skipSpace [] (by omega)).then
  rintro _ t ⟨-, rest', state⟩
  rw [skipped, List.dropWhile_eq_nil_iff.mpr space, peeked] at rest'
  refine exact_getc (fun _ _ _ _ => gives_pure rfl) fun cc t' some_ => ?_
  cases rest'.symm.trans some_

/-- A text with no blank line at its start or its end. -/
structure NoBlankLines (content : Bytes) : Prop where
  head : ∀ b ∈ content.takeWhile blank, newline b = false
  tail : ∀ b ∈ (content.rtakeWhile blank).dropLast, newline b = false

theorem newline_blank (line : newline cc = true) : blank cc = true := by
  simp [blank, line]

/-- Blank bytes at the end go up to the first line end among them. -/
theorem trimTail_append (tail : ∀ b ∈ (content.rtakeWhile blank).dropLast, newline b = false)
    (blanks : ∀ b ∈ suffix, blank b = true) (ended : suffix ≠ [] → ∃ b, content.getLast? = some b ∧ newline b = true) :
    trimTail (content ++ suffix) = content := by
  have blanks' : ∀ b ∈ suffix.reverse, blank b = true := by simpa using blanks
  have run : (content ++ suffix).rtakeWhile blank = content.rtakeWhile blank ++ suffix := by
    rw [List.rtakeWhile, List.reverse_append, List.takeWhile_append_of_pos blanks',
      List.reverse_append, List.reverse_reverse, List.rtakeWhile]
  have body : (content ++ suffix).rdropWhile blank = content.rdropWhile blank := by
    rw [List.rdropWhile, List.reverse_append, List.dropWhile_append_of_pos blanks', List.rdropWhile]
  have parts := List.rdropWhile_append_rtakeWhile (p := blank) (l := content)
  rw [trimTail, run, body]
  rcases List.eq_nil_or_concat (content.rtakeWhile blank) with none_ | ⟨before, last, some_⟩
  · have nothing : suffix = [] := by
      by_contra more
      obtain ⟨b, final, line⟩ := ended more
      rw [List.rtakeWhile_eq_nil_iff] at none_
      have nonempty : content ≠ [] := by
        rintro rfl
        cases final
      have same : content.getLast nonempty = b := by
        rw [List.getLast?_eq_some_getLast nonempty] at final
        exact Option.some.inj final
      exact none_ nonempty (same ▸ newline_blank line)
    subst nothing
    simp [none_]
  · rw [List.concat_eq_append] at some_
    rw [some_] at tail parts ⊢
    rw [List.dropLast_concat] at tail
    have silent : before.findIdx? newline = none := List.findIdx?_eq_none_iff.mpr tail
    have final : content.getLast? = some last := by
      rw [← parts, ← List.append_assoc, List.getLast?_concat]
    by_cases line : newline last = true
    · have found : (before ++ [last] ++ suffix).findIdx? newline = some before.length := by
        simp [List.findIdx?_append, silent, List.findIdx?_cons, line]
      have taken : (before ++ [last] ++ suffix).take (before.length + 1) = before ++ [last] := by
        apply List.take_left'
        simp
      rw [found]
      simp only [taken, parts]
    · have nothing : suffix = [] := by
        by_contra more
        obtain ⟨b, final', line'⟩ := ended more
        obtain rfl : last = b := Option.some.inj (final.symm.trans final')
        exact line line'
      subst nothing
      have none_ : (before ++ [last] ++ []).findIdx? newline = none := by
        simp [silent, line]
      rw [none_]
      simp

theorem trimHead_append (leads : lead = [] ∨ lead = [10])
    (head : ∀ b ∈ content.takeWhile blank, newline b = false) : trimHead (lead ++ content) = content := by
  have kept : (content.takeWhile blank).rtakeWhile (fun cc => ¬ newline cc) = content.takeWhile blank := by
    rw [List.rtakeWhile_eq_self_iff]
    intro b member
    simp [head b member]
  rcases leads with rfl | rfl
  · rw [List.nil_append, trimHead, kept, List.takeWhile_append_dropWhile]
  · have first : blank 10 = true := by decide
    have reduced : (10 :: content.takeWhile blank).rtakeWhile (fun cc => ¬ newline cc) = content.takeWhile blank := by
      have plain : ∀ b ∈ (content.takeWhile blank).reverse, (fun cc => decide ¬ newline cc = true) b = true := by
        intro b member
        simp [head b (List.mem_reverse.mp member)]
      rw [List.rtakeWhile, List.reverse_cons, List.takeWhile_append_of_pos plain]
      simp [newline]
    rw [trimHead, List.singleton_append, List.takeWhile_cons_of_pos first,
      List.dropWhile_cons_of_pos first, reduced, List.takeWhile_append_dropWhile]

section Trees

/-- A tree as the reader could have built it: names that it takes, distinct attributes, strings
without NUL, texts without blank lines around them. -/
structure WellFormed (node : Node) : Prop where
  name : ∃ name, node.name = some name ∧ Identifier name
  attrs : ∀ attr ∈ node.attrs, Identifier attr.name ∧ ∀ value, attr.value = some value →
    ∀ b ∈ value, b ≠ 0
  distinct : (node.attrs.map NiVar.name).Nodup
  cdata : ∀ cdata, node.cdata = some cdata → NoBlankLines cdata ∧ ∀ b ∈ cdata, b ≠ 0

/-- A node that comes back as it was written. -/
structure Lasting (node : Node) : Prop where
  values : ∀ attr ∈ node.attrs, ∀ value, attr.value = some value → value ≠ [] ∧ ∀ b ∈ value, b ≠ 34
  low : ∀ cdata, node.cdata = some cdata → ∀ b ∈ cdata, b < 128
  solid : ∀ cdata, node.cdata = some cdata → ∃ b ∈ cdata, isspace b = false
  room : ∀ cdata, node.cdata = some cdata → expansion cdata < 2 ^ 32 ∧ cdata.length < 2 ^ 32
  ended : ∀ cdata, node.cdata = some cdata → 10 ∈ cdata ∨ node.children ≠ [] →
    ∃ b, cdata.getLast? = some b ∧ newline b = true

/-- Written at any depth, the element is read as a child that is equal but for the lines. -/
def ReadsBack (source : Source) (node : Node) : Prop :=
  ∀ indent, ∃ element, output indent node = some (spaces indent ++ 60 :: element ++ [10]) ∧
    0 ∉ element ∧
    ∀ (text : Text) (rest : Bytes) (fuel : Nat) (cur : Node) (parent : Bool)
      (post : Option Node → Text → Prop), text.state = .initial →
      text.rest.dropWhile isspace = 60 :: element ++ rest → text.rest.length + 3 < fuel →
      (∀ (fuel' : Nat) (t : Text) (child : Node), t.rest = rest → t.state = .initial →
        t.rest.length + 3 < fuel' → child.unlocated = node.unlocated →
        Gives source (processElementNested fuel' (cur.addChild child) parent) t post) →
      Gives source (processElementNested fuel cur parent) text post

/-- The elements written one after the other, with any layout in front, are read as children that
are equal but for the lines. -/
def ReadsAll (source : Source) (written : Bytes) (children : List Node) : Prop :=
  ∀ (text : Text) (rest : Bytes) (fuel : Nat) (cur : Node) (parent : Bool)
    (post : Option Node → Text → Prop), text.state = .initial →
    text.rest.dropWhile isspace = (written ++ rest).dropWhile isspace →
    text.rest.length + 3 < fuel →
    (∀ (fuel' : Nat) (t : Text) (others : List Node),
      t.rest.dropWhile isspace = rest.dropWhile isspace → t.state = .initial →
      t.rest.length + 3 < fuel' → others.map Node.unlocated = children.map Node.unlocated →
      Gives source (processElementNested fuel' (others.foldl Node.addChild cur) parent) t post) →
    Gives source (processElementNested fuel cur parent) text post

theorem gives_closing (initial : text.state = .initial)
    (behind : text.rest.dropWhile isspace = 60 :: 47 :: (name ++ 62 :: rest))
    (identifier : Identifier name) (named : cur.name = some name) (enough : text.rest.length + 3 < fuel) :
    Gives source (processElementNested fuel cur true) text fun result t =>
      result = some cur ∧ t.rest = rest ∧ t.state = .initial := by
  obtain ⟨fuel, rfl⟩ := Nat.exists_eq_succ_of_ne_zero (Nat.ne_of_gt (Nat.zero_lt_of_lt enough))
  rw [processElementNested]
  have bound := (List.dropWhile_suffix isspace (l := text.rest)).length_le
  rw [behind] at bound
  simp only [List.length_cons, List.length_append] at bound
  apply (gives_leftAngleSlash initial behind (by omega)).then
  rintro ⟨_, string⟩ t ⟨rfl, rest₁, state₁⟩
  have length₁ := congrArg List.length rest₁
  simp only [List.length_cons, List.length_append] at length₁
  apply (gives_getIdentifier state₁ rest₁ identifier ⟨by decide, by decide⟩ (by omega)).then
  rintro _ t₂ ⟨rfl, rest₂, state₂⟩
  apply (gives_token state₂ (by rw [rest₂]; exact lexTag_rightAngle) (by rw [rest₂, List.length_cons]; omega)).then
  rintro ⟨_, string⟩ t₃ ⟨rfl, -, rest₃, state₃⟩
  rw [cstr_eq identifier.nonzero, named, if_neg (by simp)]
  exact gives_pure ⟨rfl, rest₃, state₃⟩

/-- What the writer puts in front of a tag. -/
def Layout (bytes : Bytes) : Prop := ∀ b ∈ bytes, b = 10 ∨ b = 32

theorem layout_spaces (indent : Nat) : Layout (spaces indent) := fun _ member => .inr (List.eq_of_mem_replicate member)

theorem Layout.append (first : Layout before) (second : Layout after) :
    Layout (before ++ after) := fun b member => (List.mem_append.mp member).elim (first b) (second b)

theorem Layout.space (layout : Layout bytes) : ∀ b ∈ bytes, isspace b = true := by
  intro b member
  rcases layout b member with rfl | rfl <;> rfl

theorem Layout.blank (layout : Layout bytes) : ∀ b ∈ bytes, blank b = true := by
  intro b member
  rcases layout b member with rfl | rfl <;> rfl

theorem Layout.dropWhile (layout : Layout bytes) (rest : Bytes) :
    (bytes ++ rest).dropWhile isspace = rest.dropWhile isspace := List.dropWhile_append_of_pos layout.space

/-- A tag follows, after layout. -/
def Ahead (bytes : Bytes) : Prop := ∃ layout more, bytes = layout ++ 60 :: more ∧ Layout layout

theorem Ahead.behind (first : Layout layout) (ahead : Ahead bytes) : Ahead (layout ++ bytes) := by
  obtain ⟨inner, more, rfl, second⟩ := ahead
  exact ⟨layout ++ inner, more, (List.append_assoc ..).symm, first.append second⟩

variable {children : List Node}

theorem gives_children (indent : Nat) (reads : ∀ child ∈ children, ReadsBack source child) :
    ∃ written, outputChildren indent children = some written ∧ 0 ∉ written ∧
      (∀ rest, Ahead rest → Ahead (written ++ rest)) ∧
      ReadsAll source written children := by
  induction children with
  | nil =>
    refine ⟨[], rfl, List.not_mem_nil, fun _ => id, ?_⟩
    intro text rest fuel cur parent post initial behind enough later
    exact later fuel text [] behind initial enough rfl
  | cons child children ih =>
    obtain ⟨element, first, nonzero, element_reads⟩ := reads child List.mem_cons_self indent
    obtain ⟨written, others, nonzero', -, children_read⟩ := ih fun other member =>
      reads other (List.mem_cons_of_mem _ member)
    refine ⟨spaces indent ++ 60 :: element ++ [10] ++ written, ?_, ?_, ?_, ?_⟩
    · exact outputChildren_cons first others
    · simp [spaces, nonzero, nonzero']
    · intro rest _
      exact ⟨spaces indent, _, by simp only [List.append_assoc, List.cons_append]; rfl, layout_spaces indent⟩
    intro text rest fuel cur parent post initial behind enough later
    have ahead : text.rest.dropWhile isspace = 60 :: element ++ ([10] ++ written ++ rest) := by
      rw [behind]
      simp only [List.append_assoc]
      rw [(layout_spaces indent).dropWhile]
      rfl
    apply element_reads text _ fuel cur parent post initial ahead enough
    intro fuel₁ t₁ child' rest₁ state₁ enough₁ same
    apply children_read t₁ rest fuel₁ (cur.addChild child') parent post state₁ _ enough₁
    · intro fuel₂ t₂ others' rest₂ state₂ enough₂ alike
      apply later fuel₂ t₂ (child' :: others') rest₂ state₂ enough₂
      rw [List.map_cons, same, alike, List.map_cons]
    · rw [rest₁]
      rfl

theorem addAttrs_distinct (before : List NiVar) (name cdata : Option CString)
    (children : List Node) (line : Option UInt32) (distinct : ((before ++ attrs).map NiVar.name).Nodup) :
    addAttrs (.mk name before cdata children line) attrs = .mk name (before ++ attrs) cdata children line := by
  induction attrs generalizing before with
  | nil => simp [addAttrs]
  | cons attr attrs ih =>
    have absent : attr.name ∉ before.map NiVar.name := by
      intro member
      rw [List.map_append, List.map_cons, List.nodup_append] at distinct
      exact distinct.2.2 _ member _ List.mem_cons_self rfl
    have moved : before ++ attr :: attrs = (before ++ [attr]) ++ attrs := by simp
    rw [moved] at distinct ⊢
    rw [← ih _ distinct, addAttrs, List.foldl_cons, Node.addAttr, set_new absent]
    rfl

theorem gives_newNode (nonzero : ∀ b ∈ name, b ≠ 0) :
    Gives source (newNode name) text fun child t =>
      (∃ line, child = (Node.new (some name)).setLocation line) ∧ t = text := by
  apply gives_lineCount
  intro line
  exact gives_pure ⟨⟨line, by rw [cstr_eq nonzero]⟩, rfl⟩

variable {node : Node}

/-- An element from its start tag on. `opened` is what comes of its content. -/
theorem gives_element {parent : Bool}
    (initial : text.state = .initial)
    (behind : text.rest.dropWhile isspace = 60 :: (name ++ (attrs.flatMap attrText ++ closing ++ rest)))
    (enough : text.rest.length + 3 < fuel) (identifier : Identifier name)
    (plain : ∀ attr ∈ attrs, PlainAttr attr) (closes : Closes closing token)
    (opened : token = .rightAngle → ∀ (line : UInt32) (fuel : Nat) (t : Text), t.rest = rest →
      t.state = .initial → t.rest.length + 3 < fuel →
      Gives source (processElementNested fuel
        (addAttrs ((Node.new (some name)).setLocation line) attrs) true) t fun result t' =>
          ∃ child, result = some child ∧ child.unlocated = node.unlocated ∧ t'.rest = rest' ∧ t'.state = .initial)
    (closed : token = .rightAngleSlash → rest = rest' ∧ ∀ line,
      (addAttrs ((Node.new (some name)).setLocation line) attrs).unlocated = node.unlocated)
    (shorter : rest'.length ≤ rest.length)
    (later : ∀ (fuel' : Nat) (t : Text) (child : Node), t.rest = rest' → t.state = .initial →
      t.rest.length + 3 < fuel' → child.unlocated = node.unlocated →
      Gives source (processElementNested fuel' (cur.addChild child) parent) t post) :
    Gives source (processElementNested fuel cur parent) text post := by
  obtain ⟨fuel, rfl⟩ := Nat.exists_eq_succ_of_ne_zero (Nat.ne_of_gt (Nat.zero_lt_of_lt enough))
  have bound := (List.dropWhile_suffix isspace (l := text.rest)).length_le
  rw [behind] at bound
  simp only [List.length_cons, List.length_append] at bound
  obtain ⟨first, more, named, start⟩ := identifier.start
  rw [processElementNested]
  have ahead : text.rest.dropWhile isspace = 60 :: first :: (more ++ (attrs.flatMap attrText ++ closing ++ rest)) := by
    rw [behind, named]
    rfl
  apply (gives_leftAngle initial ahead start (by omega)).then
  rintro ⟨_, string⟩ t ⟨rfl, rest₁, state₁⟩
  obtain ⟨cc, others, following, ends⟩ := ends_closing attrs rest closes
  have split : t.rest = name ++ cc :: others := by
    rw [rest₁, ← following, named]
    rfl
  have length₁ := congrArg List.length rest₁
  have length₂ := congrArg List.length following
  simp only [List.length_cons, List.length_append] at length₁ length₂
  rw [named] at bound
  simp only [List.length_cons] at bound
  apply (gives_getIdentifier state₁ split identifier ends (by omega)).then
  rintro _ t₂ ⟨rfl, rest₂, state₂⟩
  apply (gives_newNode identifier.nonzero).then
  rintro child _ ⟨⟨line, rfl⟩, rfl⟩
  apply (gives_getTagAttributes _ state₂ (rest₂.trans following.symm) plain closes
    (by rw [rest₂, List.length_cons]; omega)).then
  rintro _ t₃ ⟨rfl, rest₃, state₃⟩
  cases closes with
  | «open» =>
    apply (opened rfl line fuel t₃ rest₃ state₃ (by rw [rest₃]; omega)).then
    rintro _ t₄ ⟨child, rfl, same, rest₄, state₄⟩
    exact later fuel t₄ child rest₄ state₄ (by rw [rest₄]; omega) same
  | empty =>
    obtain ⟨rfl, same⟩ := closed rfl
    exact later fuel t₃ _ rest₃ state₃ (by rw [rest₃]; omega) (same line)

theorem foldl_addChild (name : Option CString) (attrs : List NiVar) (cdata : Option CString)
    (children others : List Node) (line : Option UInt32) :
    others.foldl Node.addChild (.mk name attrs cdata children line) = .mk name attrs cdata (children ++ others) line := by
  induction others generalizing children with
  | nil => simp
  | cons other others ih => rw [List.foldl_cons, Node.addChild, ih, List.append_assoc]; rfl

variable {cdata : Option CString} {line : Option UInt32}

theorem gives_elements (initial : text.state = .initial)
    (behind : text.rest.dropWhile isspace = (written ++ (layout ++ 60 :: 47 :: (name ++ 62 :: rest))).dropWhile isspace)
    (enough : text.rest.length + 3 < fuel) (identifier : Identifier name) (ends : Layout layout)
    (children_read : ReadsAll source written children) :
    Gives source (processElementNested fuel (.mk (some name) attrs cdata [] line) true) text
      fun result t => ∃ child, result = some child ∧
        child.unlocated = .mk (some name) attrs cdata (children.map Node.unlocated) none ∧
        t.rest = rest ∧ t.state = .initial := by
  apply children_read text _ fuel _ true _ initial behind enough
  intro fuel' t others rest₁ state₁ enough₁ same
  rw [ends.dropWhile] at rest₁
  apply (gives_closing state₁ rest₁ identifier (by rw [foldl_addChild]; rfl) enough₁).weaken
  rintro _ t₂ ⟨rfl, rest₂, state₂⟩
  refine ⟨_, rfl, ?_, rest₂, state₂⟩
  rw [foldl_addChild, Node.unlocated, List.nil_append, same]

theorem trimEmptyLines_layout {lead cdata : Bytes} (leads : lead = [] ∨ lead = [10])
    (clean : NoBlankLines cdata) (solid : ∃ b ∈ cdata, isspace b = false) (blanks : Layout layout)
    (ended : layout ≠ [] → ∃ b, cdata.getLast? = some b ∧ newline b = true) :
    trimEmptyLines (lead ++ cdata ++ layout) = cdata := by
  obtain ⟨b, inside, kept⟩ := solid
  have solid : blank b ≠ true := by
    intro space
    simp only [blank, newline, Bool.or_eq_true, decide_eq_true_eq] at space
    rcases space with ((rfl | rfl) | rfl) | rfl <;> cases kept
  -- the blank bytes at the end do not reach into `lead`
  have short : (cdata.reverse.takeWhile blank).length ≠ cdata.reverse.length := by
    intro same
    have all := List.IsPrefix.eq_of_length (List.takeWhile_prefix _) same
    exact solid (List.takeWhile_eq_self_iff.mp all b (List.mem_reverse.mpr inside))
  have run : (lead ++ cdata).rtakeWhile blank = cdata.rtakeWhile blank := by
    rw [List.rtakeWhile, List.reverse_append, List.takeWhile_append, if_neg short, List.rtakeWhile]
  have last : (lead ++ cdata).getLast? = cdata.getLast? := List.getLast?_append_of_ne_nil _ (List.ne_nil_of_mem inside)
  have tail : trimTail (lead ++ cdata ++ layout) = lead ++ cdata := by
    apply trimTail_append _ blanks.blank
    · rwa [last]
    · rw [run]
      exact clean.tail
  rw [trimEmptyLines, tail, trimHead_append leads clean.head]

/-- The text of an element, with the layout around it, is read as the text. -/
theorem gives_text {lead cdata : Bytes} {name : Option CString}
    (initial : text.state = .initial) (split : text.rest = lead ++ cdata.flatMap escape ++ (layout ++ 60 :: rest))
    (leads : lead = [] ∨ lead = [10]) (clean : NoBlankLines cdata)
    (plain : ∀ b ∈ cdata, b ≠ 0 ∧ ¬ 128 ≤ b) (solid : ∃ b ∈ cdata, isspace b = false) (blanks : Layout layout)
    (ended : layout ≠ [] → ∃ b, cdata.getLast? = some b ∧ newline b = true) (enough : text.rest.length + 3 < fuel)
    (later : ∀ (fuel' : Nat) (t : Text), t.rest = 60 :: rest → t.state = .initial → t.rest.length + 3 < fuel' →
      Gives source (processElementNested fuel' (.mk name attrs (some cdata) [] line) true) t post) :
    Gives source (processElementNested fuel (.mk name attrs none [] line) true) text post := by
  obtain ⟨fuel, rfl⟩ := Nat.exists_eq_succ_of_ne_zero (Nat.ne_of_gt (Nat.zero_lt_of_lt enough))
  rw [processElementNested]
  have content : text.rest = (lead ++ cdata ++ layout).flatMap escape ++ 60 :: rest := by
    have lead_space : ∀ b ∈ lead, isspace b = true := by
      rcases leads with rfl | rfl
      · nofun
      · simp [isspace]
    rw [split, List.flatMap_append, List.flatMap_append, flatMap_escape_space lead_space,
      flatMap_escape_space blanks.space]
    simp only [List.append_assoc]
  have low : ∀ b : UInt8, b = 10 ∨ b = 32 → ¬ 128 ≤ b := by
    rintro b (rfl | rfl) <;> decide
  have plain' : ∀ b ∈ lead ++ cdata ++ layout, ¬ 128 ≤ b := by
    intro b member
    rw [List.mem_append, List.mem_append] at member
    rcases member with (before | inside) | after
    · rcases leads with rfl | rfl
      · cases before
      · exact low b (.inl (List.mem_singleton.mp before))
    · exact (plain b inside).2
    · exact low b (blanks b after)
  obtain ⟨b, inside, kept⟩ := solid
  apply (gives_cdata initial content plain' ⟨b, by simp [inside], kept⟩ (by omega)).then
  rintro _ t ⟨rfl, rest', state'⟩
  rw [trimEmptyLines_layout leads clean ⟨b, inside, kept⟩ blanks ended]
  have written : cdata.flatMap escape ≠ [] := by
    intro none_
    have gone := List.flatMap_eq_nil_iff.mp none_ b inside
    rcases escape_cases b with ⟨-, -, same⟩ | ⟨name, same, -⟩ <;> rw [same] at gone <;> cases gone
  have shorter : (60 :: rest).length < text.rest.length := by
    have := List.length_pos_of_ne_nil written
    rw [split]
    simp only [List.length_append, List.length_cons]
    omega
  simp only [cstr_eq fun b member => (plain b member).1]
  exact later fuel t rest' state' (by rw [rest']; omega)

theorem addAttrs_new (name : CString) (line : UInt32) (distinct : (attrs.map NiVar.name).Nodup) :
    addAttrs ((Node.new (some name)).setLocation line) attrs = .mk (some name) attrs none [] (some line) :=
  addAttrs_distinct [] _ _ _ _ distinct

theorem layout_if (condition : Bool) (layout : Layout bytes) : Layout (if condition then bytes else []) := by
  split
  · exact layout
  · nofun

theorem layout_newline : Layout [10] := fun _ member => .inl (List.mem_singleton.mp member)

/-- What is written behind a start tag, up to the end tag. -/
def content (indent : Nat) (name text elements : Bytes) (newline childless : Bool) : Bytes :=
  text ++ ((if !newline && !childless then [10] else []) ++ (elements ++
    ((if newline || !childless then spaces indent else []) ++ 60 :: 47 :: (name ++ [62]))))

theorem flatten_if (condition : Bool) (bytes : Bytes) :
    (if condition then [bytes] else []).flatten = if condition then bytes else [] := by
  cases condition <;> simp

theorem output_open {name : CString}
    {newline : Bool} (filled : ¬ (cdata = none ∧ children = [])) (first : cdataCalls false cdata = some (texts, newline))
    (second : outputChildren (indent + 2) children = some elements) :
    output indent (.mk (some name) attrs cdata children line) =
      some (spaces indent ++ 60 :: (name ++ (attrs.flatMap attrText ++ [62] ++
        content indent name texts.flatten elements newline children.isEmpty)) ++ [10]) := by
  obtain ⟨parts, printed, rfl⟩ := Option.map_eq_some_iff.mp second
  have filled' : ¬ (cdata = none ∧ children.isEmpty = true) := by rwa [List.isEmpty_iff]
  rw [output, calls, if_neg filled']
  simp only [first, printed, Option.bind_eq_bind, Option.bind_some, Option.map_some, List.flatten_cons,
    List.flatten_append, flatten_if, content]
  simp [List.flatMap_def, ascii]

theorem layout_front (blanks : Layout layout) (same : layout ++ 60 :: more = 60 :: others) : layout = [] := by
  cases layout with
  | nil => rfl
  | cons b layout =>
    obtain ⟨rfl, -⟩ := List.cons.inj same
    rcases blanks 60 List.mem_cons_self with eq | eq <;> cases eq

theorem gives_content
    {newline : Bool} (first : cdataCalls false cdata = some (texts, newline))
    (second : outputChildren (indent + 2) children = some written) (initial : text.state = .initial)
    (split : text.rest = content indent name texts.flatten written newline children.isEmpty ++ rest)
    (enough : text.rest.length + 3 < fuel) (identifier : Identifier name)
    (ahead : ∀ rest, Ahead rest → Ahead (written ++ rest)) (reads : ReadsAll source written children)
    (clean : ∀ text, cdata = some text → NoBlankLines text ∧ ∀ b ∈ text, b ≠ 0)
    (low : ∀ text, cdata = some text → ∀ b ∈ text, b < 128)
    (room : ∀ text, cdata = some text → expansion text < 2 ^ 32 ∧ text.length < 2 ^ 32)
    (solid : ∀ text, cdata = some text → ∃ b ∈ text, isspace b = false)
    (ended : ∀ text, cdata = some text → 10 ∈ text ∨ children ≠ [] → ∃ b, text.getLast? = some b ∧ Xml.newline b = true) :
    Gives source (processElementNested fuel (.mk (some name) attrs none [] line) true) text
      fun result t => ∃ child, result = some child ∧
        child.unlocated = .mk (some name) attrs cdata (children.map Node.unlocated) none ∧
        t.rest = rest ∧ t.state = .initial := by
  have gap := layout_if (!newline && !children.isEmpty) layout_newline
  have closing := layout_if (newline || !children.isEmpty) (layout_spaces indent)
  cases cdata with
  | none =>
    obtain ⟨rfl, rfl⟩ := Prod.mk.inj (Option.some.inj first)
    apply gives_elements initial _ enough identifier closing reads
    rw [split, content, List.flatten_nil, List.nil_append, List.append_assoc, gap.dropWhile]
    simp
  | some cdata =>
    have found := clean cdata rfl
    obtain ⟨counted, length⟩ := room cdata rfl
    simp only [cdataCalls_room (low cdata rfl) counted length, Bool.false_or] at first
    obtain ⟨rfl, rfl⟩ := Prod.mk.inj (Option.some.inj first)
    have trail := layout_if (cdata.contains 10 && cdata ≠ [] && cdata.getLast? ≠ some 10) layout_newline
    have tag : Ahead (60 :: 47 :: (name ++ 62 :: rest)) := ⟨[], _, rfl, List.forall_mem_nil _⟩
    obtain ⟨layout, more, following, blanks⟩ := (ahead _ (tag.behind closing)).behind (trail.append gap)
    have parts : text.rest = (if cdata.contains 10 then [10] else []) ++ cdata.flatMap escape ++
        (layout ++ 60 :: more) := by
      rw [split, content, ← following, List.flatten_append, List.flatten_cons, flatten_if, flatten_if]
      simp
    apply gives_text initial parts _ found.1 _ (solid cdata rfl) blanks _ enough
    · intro fuel' t rest₁ state₁ enough₁
      apply gives_elements state₁ _ enough₁ identifier closing reads
      rw [rest₁, ← (trail.append gap).dropWhile (written ++ _), following, blanks.dropWhile]
    · split_ifs <;> simp
    · intro b inside
      have := low cdata rfl b inside
      exact ⟨found.2 b inside, by grind⟩
    · intro some_
      apply ended cdata rfl
      by_contra none_
      obtain ⟨single, childless⟩ := not_or.mp none_
      obtain rfl := not_not.mp childless
      obtain rfl : written = [] := (Option.some.inj second).symm
      have front : layout ++ 60 :: more = 60 :: 47 :: (name ++ 62 :: rest) := by
        rw [← following]
        simp [single]
      exact some_ (layout_front blanks front)

theorem attrs_nonzero (plain : ∀ attr ∈ attrs, PlainAttr attr) : 0 ∉ attrs.flatMap attrText := by
  intro member
  obtain ⟨attr, inside, here⟩ := List.mem_flatMap.mp member
  obtain ⟨named, valued⟩ := plain attr inside
  have name : 0 ∉ attr.name := fun zero => named.nonzero 0 zero rfl
  unfold attrText at here
  split at here
  next value some_ =>
    have nonzero : 0 ∉ value := fun zero => ((valued value some_).2 0 zero).1 rfl
    simp [ascii, name, nonzero] at here
  next => simp [name] at here

theorem escape_nonzero {cdata : Bytes} (nonzero : 0 ∉ cdata) : 0 ∉ cdata.flatMap escape := by
  intro member
  obtain ⟨b, inside, here⟩ := List.mem_flatMap.mp member
  have all : ∀ b, 0 ∈ escape b → b = 0 := forall_byte (by decide +kernel)
  exact nonzero (all b here ▸ inside)

/-- What one element adds to what its children are read as. -/
theorem readsBack_node (formed : WellFormed node)
    (lasting : Lasting node) (children : ∀ child ∈ node.children, ReadsBack source child) :
    ReadsBack source node := by
  obtain ⟨name, attrs, cdata, nodes, line⟩ := node
  obtain ⟨name, rfl, identifier⟩ := formed.name
  have plain : ∀ attr ∈ attrs, PlainAttr attr := fun attr member =>
    ⟨(formed.attrs attr member).1, fun value same =>
      have simple := lasting.values attr member value same
      ⟨simple.1, fun b inside =>
        ⟨(formed.attrs attr member).2 value same b inside, simple.2 b inside⟩⟩⟩
  have distinct : (attrs.map NiVar.name).Nodup := formed.distinct
  have nameless : 0 ∉ name := fun zero => identifier.nonzero 0 zero rfl
  have attrs_ := attrs_nonzero plain
  intro indent
  obtain ⟨written, elements, nonzero, ahead, reads⟩ := gives_children (indent + 2) children
  by_cases bare : cdata = none ∧ nodes = []
  · obtain ⟨rfl, rfl⟩ := bare
    refine ⟨name ++ attrs.flatMap attrText ++ [47, 62], ?_, ?_, ?_⟩
    · rw [output_bare]
      simp [ascii]
    · simp [nameless, attrs_]
    intro text rest fuel cur parent post initial behind enough later
    have parts : text.rest.dropWhile isspace = 60 :: (name ++ (attrs.flatMap attrText ++ [47, 62] ++ rest)) := by
      rw [behind]
      simp
    apply gives_element initial parts enough identifier plain .empty _ _ le_rfl later
    · rintro ⟨⟩
    · intro _
      refine ⟨rfl, fun line => ?_⟩
      rw [addAttrs_new name line distinct, Node.unlocated, Node.unlocated]
  obtain ⟨texts, newline, first, nonzero₀⟩ : ∃ texts newline,
      cdataCalls false cdata = some (texts, newline) ∧ 0 ∉ texts.flatten := by
    cases cdata with
    | none => exact ⟨_, _, rfl, List.not_mem_nil⟩
    | some cdata =>
      have kept := escape_nonzero fun zero => (formed.cdata cdata rfl).2 0 zero rfl
      obtain ⟨counted, length⟩ := lasting.room cdata rfl
      refine ⟨_, _, cdataCalls_room (lasting.low cdata rfl) counted length false, ?_⟩
      rw [List.flatten_append, List.flatten_cons, flatten_if, flatten_if]
      split <;> split <;> simp [kept]
  refine ⟨_, output_open bare first elements, ?_, ?_⟩
  · unfold content
    split <;> split <;> simp [nameless, attrs_, nonzero, nonzero₀, spaces]
  intro text rest fuel cur parent post initial behind enough later
  have parts : text.rest.dropWhile isspace = 60 :: (name ++ (attrs.flatMap attrText ++ [62] ++
      (content indent name texts.flatten written newline nodes.isEmpty ++ rest))) := by
    rw [behind]
    simp
  apply gives_element initial parts enough identifier plain .open _ _ _ later
  · intro _ line fuel t rest₁ state₁ enough₁
    rw [addAttrs_new name line distinct, Node.unlocated]
    exact gives_content first elements state₁ rest₁ enough₁ identifier ahead reads
      formed.cdata lasting.low lasting.room lasting.solid lasting.ended
  · rintro ⟨⟩
  · simp

/-- A property of every node of a tree. -/
inductive Node.All (property : Node → Prop) : Node → Prop
  | mk {node : Node} (here : property node)
      (children : ∀ child ∈ node.children, Node.All property child) : Node.All property node

theorem readsBack_tree (tree : node.All fun node => WellFormed node ∧ Lasting node) : ReadsBack source node := by
  induction tree with
  | mk here _ ih => exact readsBack_node here.1 here.2 ih

theorem gives_document (reads : ReadsBack source node) (text : output 0 node = some written) :
    Gives source (processDocument (fuelFor written.length)) { rest := written } fun document _ =>
      ∃ root, document = some root ∧ root.unlocated = .mk none [] none [node.unlocated] none := by
  obtain ⟨element, same, -, reads⟩ := reads 0
  obtain rfl : 60 :: element ++ [10] = written := by
    rw [same] at text
    exact Option.some.inj text
  apply gives_lineCount
  intro line
  apply reads _ [10] _ _ _ _ rfl rfl (by rw [fuelFor]; simp)
  intro fuel t child rest state enough same
  obtain ⟨fuel, rfl⟩ := Nat.exists_eq_succ_of_ne_zero (Nat.ne_of_gt (Nat.zero_lt_of_lt enough))
  rw [processElementNested]
  have space : ∀ b ∈ t.rest, isspace b = true := by
    rw [rest]
    exact layout_newline.space
  apply (gives_endOfDocument state space (by omega)).then
  rintro ⟨_, string⟩ t' rfl
  exact gives_pure ⟨_, rfl, by simp [Node.new, Node.setLocation, Node.addChild, Node.unlocated, same]⟩

end Trees

/-- A document with one element comes back from a file and from a buffer. -/
def RoundTrips (node : Node) : Prop :=
  ∃ text, output 0 node = some text ∧
    ∀ scan ∈ [documentScan, documentFromBuffer],
      (scan text).map (Option.map Node.unlocated) =
        .ok (some (.mk none [] none [node.unlocated] none))

theorem output_reads_back {node : Node}
    (tree : node.All fun node => WellFormed node ∧ Lasting node) : RoundTrips node := by
  have reads : ReadsBack .file node := readsBack_tree tree
  obtain ⟨element, written, nonzero, -⟩ := reads 0
  have seen : FileInput.seen (spaces 0 ++ 60 :: element ++ [10]) = spaces 0 ++ 60 :: element ++ [10] :=
    ((agree_seen _).same (by simp [spaces, nonzero])).symm
  obtain ⟨_, text, ran, root, rfl, same⟩ := (gives_document (readsBack_tree tree) written).ends
  obtain ⟨xr, file, -⟩ := FileInput.exact_simulates.ok _ (seen ▸ FileInput.shows_file _) ran
  obtain ⟨_, text', ran', root', rfl, same'⟩ := (gives_document (readsBack_tree tree) written).ends
  obtain ⟨xr', buffer, -⟩ := BufferInput.exact_simulates.ok _ (BufferInput.reads_reader _) ran'
  refine ⟨_, written, ?_⟩
  intro scan among
  simp only [List.mem_cons, List.not_mem_nil, or_false] at among
  rcases among with rfl | rfl
  · rw [documentScan, file]
    exact congrArg (fun node => Except.ok (some node)) same
  · rw [documentFromBuffer, buffer]
    exact congrArg (fun node => Except.ok (some node)) same'

/-- An element with two attributes, over one with a text that has all the bytes to be escaped. -/
def sample : Node :=
  .mk (some (ascii "list".toList)) [⟨ascii "id".toList, some (ascii "a<b".toList)⟩,
    ⟨ascii "open".toList, none⟩] none
    [.mk (some (ascii "entry".toList)) [] (some (ascii " 1 < 2 && 2 > 1\n".toList)) [] none] none

theorem sample_reads_back : RoundTrips sample := by
  apply output_reads_back
  have entry : Identifier (ascii "entry".toList) := ⟨⟨_, _, rfl, by decide +kernel⟩, by decide +kernel⟩
  have list : Identifier (ascii "list".toList) := ⟨⟨_, _, rfl, by decide +kernel⟩, by decide +kernel⟩
  have id : Identifier (ascii "id".toList) := ⟨⟨_, _, rfl, by decide +kernel⟩, by decide +kernel⟩
  have «open» : Identifier (ascii "open".toList) := ⟨⟨_, _, rfl, by decide +kernel⟩, by decide +kernel⟩
  refine ⟨⟨⟨⟨_, rfl, list⟩, ?_, by decide +kernel, by rintro _ ⟨⟩⟩,
    ⟨?_, by rintro _ ⟨⟩, by rintro _ ⟨⟩, by rintro _ ⟨⟩, by rintro _ ⟨⟩⟩⟩, ?_⟩
  · simp only [sample, Node.attrs, List.forall_mem_cons]
    refine ⟨⟨id, ?_⟩, ⟨«open», by rintro _ ⟨⟩⟩, List.forall_mem_nil _⟩
    rintro _ ⟨rfl⟩
    decide +kernel
  · simp only [sample, Node.attrs, List.forall_mem_cons]
    refine ⟨?_, by rintro _ ⟨⟩, List.forall_mem_nil _⟩
    rintro _ ⟨rfl⟩
    decide +kernel
  · simp only [sample, Node.children, List.forall_mem_cons]
    refine ⟨⟨⟨⟨⟨_, rfl, entry⟩, List.forall_mem_nil _, by decide +kernel, ?_⟩,
      ⟨List.forall_mem_nil _, ?_, ?_, ?_, ?_⟩⟩, List.forall_mem_nil _⟩, List.forall_mem_nil _⟩
    · rintro _ ⟨rfl⟩
      exact ⟨⟨by decide +kernel, by decide +kernel⟩, by decide +kernel⟩
    · rintro _ ⟨rfl⟩
      decide +kernel
    · rintro _ ⟨rfl⟩
      decide +kernel
    · rintro _ ⟨rfl⟩
      decide +kernel
    · rintro _ ⟨rfl⟩ -
      exact ⟨10, by decide +kernel, by decide +kernel⟩

/-- A quotation mark in a value ends it. -/
theorem output_quote : ¬ ∀ node : Node, node.All WellFormed → RoundTrips node := by
  intro claimed
  have a : Identifier (ascii "a".toList) := ⟨⟨_, _, rfl, by decide +kernel⟩, by decide +kernel⟩
  have b : Identifier (ascii "b".toList) := ⟨⟨_, _, rfl, by decide +kernel⟩, by decide +kernel⟩
  have formed : (Node.mk (some (ascii "a".toList)) [⟨ascii "b".toList, some [34]⟩] none [] none).All
      WellFormed := by
    refine ⟨⟨⟨_, rfl, a⟩, ?_, by decide +kernel, by rintro _ ⟨⟩⟩, by simp [Node.children]⟩
    simp only [Node.attrs, List.forall_mem_cons]
    refine ⟨⟨b, ?_⟩, List.forall_mem_nil _⟩
    rintro _ ⟨rfl⟩
    decide +kernel
  obtain ⟨text, written, back⟩ := claimed _ formed
  have scan := back documentScan List.mem_cons_self
  obtain rfl : text = ascii "<a b=\"\"\"/>\n".toList :=
    Option.some.inj (written.symm.trans (by decide +kernel))
  have nothing : ((documentScan (ascii "<a b=\"\"\"/>\n".toList)).map
      (Option.map Node.unlocated)).map Option.isSome = .ok false := by decide +kernel
  rw [scan] at nothing
  revert nothing
  decide +kernel

end Testbus.Xml
