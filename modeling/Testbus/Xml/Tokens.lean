import Testbus.Xml.Ahead

namespace Testbus.Xml

open Lib Program

variable {source : Source} {text : Text}

/-- The reader comes to an end, with what is wanted. -/
abbrev Gives (source : Source) {α : Type} (reader : Reader α) (text : Text)
    (post : α → Text → Prop) : Prop :=
  Ensures (Text.exact source) (fun _ => False) reader text post

theorem unget_low (low : ¬ 128 ≤ cc) (rest : Bytes) : unget source cc rest = cc :: rest := by
  simp [unget, low]

theorem gives_pure (holds : post value text) : Gives source (pure value) text post := ensures_pure.mpr holds

theorem gives_getc (next : text.rest = cc :: more)
    (later : ∀ t : Text, t.rest = more → t.last = some cc → t.state = text.state → Gives source (rest (some cc)) t post) :
    Gives source (getc >>= rest) text post := by
  refine exact_getc (fun t none_ => ?_) fun cc' t some_ last state => ?_
  · cases next.symm.trans none_
  · obtain ⟨rfl, same⟩ := List.cons.inj (next.symm.trans some_)
    exact later t same.symm last state

theorem gives_ungetc (last : text.last = some cc) (low : ¬ 128 ≤ cc)
    (later : ∀ t : Text, t.rest = cc :: text.rest → t.state = text.state → Gives source (rest ()) t post) :
    Gives source (ungetc (some cc) >>= rest) text post :=
  exact_ungetc last fun t rest state => later t (rest.trans (unget_low low _)) state

theorem gives_state (here : text.state = current) (later : Gives source (rest current) text post) :
    Gives source (state >>= rest) text post := by
  subst here
  exact exact_state later

theorem gives_setState {rest : Unit → Reader α} {state : ParserState}
    (later : ∀ t : Text, t.rest = text.rest → t.state = state → Gives source (rest ()) t post) :
    Gives source (setState state >>= rest) text post := exact_setState (later _ rfl rfl)

theorem gives_lineCount (later : ∀ line, Gives source (rest line) text post) :
    Gives source (lineCount >>= rest) text post := by
  apply ensures_bind.mpr
  apply ensures_perform.mpr
  cases source <;> exact later _

variable {rest : Bytes}

theorem gives_skipSpace (res : Bytes) (behind : text.rest.dropWhile isspace = cc :: rest)
    (low : ¬ 128 ≤ cc) (enough : text.rest.length < fuel) :
    Gives source (skipSpace fuel res) text fun value t =>
      value = res ++ text.rest.takeWhile isspace ∧ t.rest = cc :: rest ∧ t.state = text.state := by
  refine (exact_skipSpace res enough).weaken fun value t ⟨same, rest', state⟩ => ⟨same, ?_, state⟩
  rw [rest', skipped, behind, peeked, unget_low low]

section TagTokens

variable {name : Bytes}

/-- A name as the reader takes it, other than one that starts with an exclamation mark. -/
structure Identifier (name : Bytes) : Prop where
  start : ∃ first more, name = first :: more ∧ (isalpha first = true ∨ first = 95)
  valid : ∀ b ∈ name, identifierByte b = true

theorem identifierByte_low (valid : identifierByte cc = true) : ¬ 128 ≤ cc := by
  simp only [identifierByte, isalnum, isalpha, isdigit, Bool.or_eq_true, Bool.and_eq_true, decide_eq_true_eq] at valid
  grind

theorem identifierByte_solid (valid : identifierByte cc = true) : isspace cc = false := by
  simp only [identifierByte, isalnum, isalpha, isdigit, isspace, Bool.or_eq_true,
    Bool.and_eq_true, decide_eq_true_eq, Bool.or_eq_false_iff, Bool.and_eq_false_iff,
    decide_eq_false_iff_not] at valid ⊢
  grind

theorem Identifier.ne_nil (identifier : Identifier name) : name ≠ [] := by
  obtain ⟨first, more, rfl, -⟩ := identifier.start
  exact List.cons_ne_nil _ _

theorem Identifier.nonzero (identifier : Identifier name) : ∀ b ∈ name, b ≠ 0 := by
  rintro b member rfl
  cases identifier.valid 0 member

theorem Identifier.behind (identifier : Identifier name) (rest : Bytes) :
    (name ++ rest).dropWhile isspace = name ++ rest := by
  obtain ⟨first, more, rfl, -⟩ := identifier.start
  have solid := identifierByte_solid (identifier.valid first List.mem_cons_self)
  exact List.dropWhile_cons_of_neg (by simp [solid])

/-- What may follow a name. -/
structure Ends (cc : UInt8) : Prop where
  low : ¬ 128 ≤ cc
  apart : identifierByte cc = false

theorem lexTag_identifier {text : Bytes} (behind : text.dropWhile isspace = name ++ cc :: rest)
    (identifier : Identifier name) (ends : Ends cc) : lexTag source text = some (.identifier, name, cc :: rest) := by
  obtain ⟨first, more, rfl, start⟩ := identifier.start
  have valid := identifier.valid first List.mem_cons_self
  have part : ∀ b ∈ more, identifierByte b = true := fun b member =>
    identifier.valid b (List.mem_cons_of_mem _ member)
  have started : identifierStart first = true := by
    rcases start with letter | rfl
    · simp [identifierStart, letter]
    · rfl
  have others : first ≠ 63 ∧ first ≠ 62 ∧ first ≠ 47 ∧ first ≠ 61 := by
    refine ⟨?_, ?_, ?_, ?_⟩ <;> (rintro rfl; cases valid)
  have skip : skipped source text = first :: (more ++ cc :: rest) := by
    rw [skipped, behind, List.cons_append, peeked, unget_low (identifierByte_low valid)]
  have apart : ¬ identifierByte cc = true := by simp [ends.apart]
  rw [lexTag, skip]
  dsimp only
  rw [if_neg others.1, if_neg others.2.1, if_neg others.2.2.1, if_neg others.2.2.2,
    if_pos started, List.takeWhile_append_of_pos part, List.dropWhile_append_of_pos part,
    List.takeWhile_cons_of_neg apart, List.dropWhile_cons_of_neg apart, List.append_nil, peeked,
    unget_low ends.low]

theorem lexTag_equals : lexTag source (61 :: rest) = some (.equals, [], rest) := by
  cases source <;> rfl

theorem lexTag_rightAngle : lexTag source (62 :: rest) = some (.rightAngle, [], rest) := by
  cases source <;> rfl

theorem lexTag_rightAngleSlash : lexTag source (47 :: 62 :: rest) = some (.rightAngleSlash, [], rest) := by
  cases source <;> rfl

theorem gives_token (tag : text.state = .tag)
    (lexed : lexTag source text.rest = some (token, name, rest)) (enough : text.rest.length < fuel) :
    Gives source (getToken fuel) text fun found t => found.1 = token ∧
      (token = .identifier → found.2 = name) ∧ t.rest = rest ∧ t.state = tagState token := by
  have given := @exact_getToken_tag source (fun _ => False) _ _ tag enough
  rwa [lexed] at given

theorem gives_identifier (tag : text.state = .tag) (behind : text.rest.dropWhile isspace = name ++ cc :: rest)
    (identifier : Identifier name) (ends : Ends cc) (enough : text.rest.length < fuel) :
    Gives source (getToken fuel) text fun found t =>
      found = (.identifier, name) ∧ t.rest = cc :: rest ∧ t.state = .tag :=
  (gives_token tag (lexTag_identifier behind identifier ends) enough).weaken
    fun _ _ ⟨token, value, rest', state⟩ => ⟨Prod.ext token (value rfl), rest', state⟩

theorem gives_getIdentifier (tag : text.state = .tag)
    (split : text.rest = name ++ cc :: rest) (identifier : Identifier name) (ends : Ends cc)
    (enough : text.rest.length < fuel) :
    Gives source (getIdentifier fuel) text fun found t =>
      found = some name ∧ t.rest = cc :: rest ∧ t.state = .tag := by
  have given := @exact_getIdentifier source (fun _ => False) _ _ tag enough
  rwa [split, lexTag_identifier (identifier.behind _) identifier ends] at given

theorem gives_quotedString (tag : text.state = .tag)
    (split : text.rest = 34 :: value ++ 34 :: rest) (plain : ∀ b ∈ value, b ≠ 34) (enough : text.rest.length < fuel) :
    Gives source (getToken fuel) text fun found t =>
      found = (.quotedString, value) ∧ t.rest = rest ∧ t.state = .tag := by
  apply gives_state tag
  apply (gives_skipSpace [] (show _ = 34 :: (value ++ 34 :: rest) by rw [split]; rfl) (by decide) enough).then
  rintro _ t ⟨-, rest₁, state₁⟩
  apply gives_getc rest₁
  intro t' rest₂ _ state₂
  rw [split, List.cons_append, List.length_cons, ← rest₂] at enough
  have inside : ∀ b ∈ value, decide (b ≠ 34) = true := by simpa using plain
  apply (exact_quotedLoop 34 [] (show t'.rest.length < fuel by omega)).then
  intro found t'' quoted
  rw [rest₂, List.dropWhile_append_of_pos inside, List.takeWhile_append_of_pos inside] at quoted
  obtain ⟨rfl, rest₃, state₃⟩ := quoted
  exact gives_pure ⟨by simp, rest₃, state₃.trans (state₂.trans (state₁.trans tag))⟩

end TagTokens

end Testbus.Xml
