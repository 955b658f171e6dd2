import Testbus.Agent.Publish

namespace Testbus.Publish

open Util

section Tokens

variable {text token rest later value : CString} {names : List CString}

theorem dropWhile_blanks (blank : Blank blanks) (text : CString) :
    (blanks ++ text).dropWhile isspace = text.dropWhile isspace := List.dropWhile_append_of_pos blank

theorem nextToken_behind (blank : Blank text) : nextToken text = .behind := by
  rw [nextToken, List.dropWhile_eq_nil_iff.mpr blank]

theorem nextToken_comment (comment : Comment text) : ∃ pos, nextToken text = .comment pos := by
  obtain ⟨blanks, rest, blank, rfl⟩ := comment
  rw [nextToken, dropWhile_blanks blank, List.dropWhile_cons_of_neg (by decide)]
  exact ⟨_, if_pos rfl⟩

theorem nextToken_token (begins : Begins text token rest) : nextToken text = .token token rest := by
  obtain ⟨some_, noComment, solid, blanks, blank, ends_⟩ := begins
  cases token with
  | nil => exact absurd rfl some_
  | cons c s =>
    obtain ⟨solidHere, solidLater⟩ := List.forall_mem_cons.mp solid
    have other : c ≠ 35 := fun same => noComment (congrArg some same)
    have stops : ¬ isspace c = true := Bool.not_eq_true _ ▸ solidHere
    have passes : ∀ c ∈ s, (!isspace c) = true := fun c mem => by
      rw [solidLater c mem]
      rfl
    rcases ends_ with ⟨rfl, rfl⟩ | ⟨b, space, rfl⟩
    · rw [nextToken, dropWhile_blanks blank, List.dropWhile_cons_of_neg stops]
      dsimp only
      rw [if_neg other, List.takeWhile_eq_self_iff.mpr passes, List.dropWhile_eq_nil_iff.mpr passes, List.tail_nil]
    · have blocked : ¬ (!isspace b) = true := by
        rw [space]
        exact Bool.false_ne_true
      rw [nextToken, List.append_assoc, dropWhile_blanks blank, List.cons_append, List.dropWhile_cons_of_neg stops]
      dsimp only
      rw [if_neg other, List.takeWhile_append_of_pos passes, List.dropWhile_append_of_pos passes,
        List.takeWhile_cons_of_neg (p := (!isspace ·)) blocked,
        List.dropWhile_cons_of_neg (p := (!isspace ·)) blocked, List.append_nil,
        List.tail_cons]

theorem text_cases (text : CString) : Blank text ∨ Comment text ∨ ∃ token rest, Begins text token rest := by
  have blank : Blank (text.takeWhile isspace) := fun c mem => List.mem_takeWhile_imp mem
  have whole := List.takeWhile_append_dropWhile (p := isspace) (l := text)
  cases left : text.dropWhile isspace with
  | nil => exact .inl (List.dropWhile_eq_nil_iff.mp left)
  | cons c s =>
    have stops := List.head?_dropWhile_not isspace text
    rw [left] at whole stops
    have solid : isspace c = false := stops
    by_cases comment : c = 35
    · subst comment
      exact .inr (.inl ⟨_, s, blank, whole.symm⟩)
    · refine .inr (.inr ?_)
      have split_ := List.takeWhile_append_dropWhile (p := (!isspace ·)) (l := s)
      have solid' : ∀ c ∈ s.takeWhile (!isspace ·), isspace c = false :=
        fun c mem => (Bool.not_eq_true' _).mp (List.mem_takeWhile_imp (p := (!isspace ·)) mem)
      refine ⟨c :: s.takeWhile (!isspace ·), (s.dropWhile (!isspace ·)).tail, List.cons_ne_nil _ _,
        fun same => comment (Option.some.inj same), List.forall_mem_cons.mpr ⟨solid, solid'⟩,
        _, blank, ?_⟩
      cases behind : s.dropWhile (!isspace ·) with
      | nil =>
        rw [behind, List.append_nil] at split_
        exact .inl ⟨by rw [split_, whole], rfl⟩
      | cons b rest =>
        have stops' := List.head?_dropWhile_not (!isspace ·) s
        rw [behind] at split_ stops'
        refine .inr ⟨b, by simpa using stops', ?_⟩
        rw [List.append_assoc, List.cons_append, List.tail_cons, split_, whole]

theorem Begins.unique (begins : Begins text token rest)
    (begins' : Begins text token' rest') : token = token' ∧ rest = rest' := by
  have same := (nextToken_token begins).symm.trans (nextToken_token begins')
  exact Next.token.inj same

theorem Begins.not_trailing (begins : Begins text token rest) : ¬ Trailing text := by
  have found := nextToken_token begins
  rintro (blank | comment)
  · rw [nextToken_behind blank] at found
    cases found
  · obtain ⟨pos, found'⟩ := nextToken_comment comment
    rw [found'] at found
    cases found

theorem capabilityLoop_names (named : Names Comment text names) : capabilityLoop text = (names, false) := by
  induction named with
  | closes comment =>
    obtain ⟨pos, found⟩ := nextToken_comment comment
    rw [capabilityLoop]
    split
    · rename_i found'
      cases found.symm.trans found'
    · rfl
    · rename_i found'
      cases found.symm.trans found'
  | name begins _ ih =>
    have found := nextToken_token begins
    rw [capabilityLoop]
    split
    · rename_i found'
      obtain ⟨rfl, rfl⟩ := Next.token.inj (found.symm.trans found')
      simp only [ih]
    · rename_i found'
      cases found.symm.trans found'
    · rename_i found'
      cases found.symm.trans found'

theorem capabilityLoop_cases (text : CString) :
    (capabilityLoop text).2 = true ∨ Names Comment text (capabilityLoop text).1 := by
  induction length : text.length using Nat.strongRecOn generalizing text with
  | ind n ih =>
    rcases text_cases text with blank | comment | ⟨token, rest, begins⟩
    · left
      rw [capabilityLoop]
      split
      · rename_i found
        cases found.symm.trans (nextToken_behind blank)
      · rename_i found
        cases found.symm.trans (nextToken_behind blank)
      · rfl
    · right
      rw [capabilityLoop_names (.closes comment)]
      exact .closes comment
    · have found := nextToken_token begins
      have shorter := nextToken_shorter found
      have looped : capabilityLoop text = (token :: (capabilityLoop rest).1, (capabilityLoop rest).2) := by
        rw [capabilityLoop]
        split
        · rename_i found'
          obtain ⟨rfl, rfl⟩ := Next.token.inj (found.symm.trans found')
          rfl
        · rename_i found'
          cases found.symm.trans found'
        · rename_i found'
          cases found.symm.trans found'
      rw [looped]
      exact (ih _ (length ▸ shorter) rest rfl).imp id (.name begins)

theorem Value.unquoteLoop (valued : Value text value rest) :
    unquoteLoop (some sepa) .outside (skipSeparators (some sepa) text) [] = some (value, rest) := by
  obtain ⟨lead, word, behind, rfl, leads, some_, -, isWord, ends_, rfl⟩ := valued
  rw [skip_separators leads]
  cases word with
  | nil => exact absurd rfl some_
  | cons cc word =>
    have stays : skipSeparators (some sepa) (cc :: word ++ behind) = cc :: word ++ behind :=
      List.dropWhile_cons_of_neg (by rw [isWord.head]; exact Bool.false_ne_true)
    rw [stays, loop_token isWord ends_]

theorem Value.unique (valued : Value text value rest)
    (valued' : Value text value' rest') : value = value' ∧ rest = rest' := by
  have same := valued.unquoteLoop.symm.trans valued'.unquoteLoop
  exact Prod.mk.inj (Option.some.inj same)

theorem Value.niUnquote (valued : Value text value rest) (some_ : value ≠ []) :
    niUnquote text (some sepa) = (some value, rest) := by
  rw [Util.niUnquote, valued.unquoteLoop]
  exact congrArg (·, rest) (if_neg some_)

theorem word_hash (isWord : Word (some sepa) word value) (hash : word.head? = some 35) : value.head? = some 35 := by
  cases isWord with
  | nil => cases hash
  | byte => exact hash
  | double => cases hash
  | single => cases hash

/-- What `ni_unquote` returns, if it is not refused, is a value. -/
theorem value_of_niUnquote (returned : niUnquote text (some sepa) = (some value, rest))
    (noComment : value.head? ≠ some 35) : Value text value rest ∧ Usable value := by
  rw [Util.niUnquote] at returned
  rcases divides (some sepa) (skipSeparators (some sepa) text) with
    ⟨word, value', behind, split_, isWord, ends_⟩ | unterminated
  · rw [split_, loop_token isWord ends_] at returned
    dsimp only at returned
    by_cases empty : value' = []
    · rw [if_pos empty] at returned
      cases returned
    · rw [if_neg empty] at returned
      cases returned
      refine ⟨⟨text.takeWhile (separates (some sepa)), word, behind, ?_, ?_, ?_, ?_, isWord, ends_,
        rfl⟩, empty, noComment⟩
      · rw [← split_]
        exact List.takeWhile_append_dropWhile.symm
      · exact fun c mem => separates_some.mp (List.mem_takeWhile_imp mem)
      · exact fun nothing => empty (isWord.of_nil nothing)
      · exact fun hash => noComment (word_hash isWord hash)
  · rw [loop_unterminated unterminated] at returned
    cases returned

end Tokens

section Scanning

variable {text rest : CString} {entries : List Entry}

theorem capability_ne_setenv : capability ≠ setenv := by decide

theorem publishLine_capability (begins : Begins text capability rest) :
    publishLine text =
      { entries := (capabilityLoop rest).1.map .setcap, past := (capabilityLoop rest).2 } := by
  rw [publishLine, nextToken_token begins]
  exact if_pos rfl

theorem publishLine_setenv (begins : Begins text setenv rest) : publishLine text = setenvLine rest := by
  rw [publishLine, nextToken_token begins]
  dsimp only
  rw [if_neg (Ne.symm capability_ne_setenv), if_pos rfl]

theorem publishLine_line (line : Line Comment Usable text entries) : publishLine text = { entries } := by
  cases line with
  | nothing comment =>
    obtain ⟨pos, found⟩ := nextToken_comment comment
    rw [publishLine, found]
  | capability begins named _ => rw [publishLine_capability begins, capabilityLoop_names named]
  | setenv begins named valued usable comment =>
    obtain ⟨pos, found⟩ := nextToken_comment comment
    rw [publishLine_setenv begins, setenvLine, nextToken_token named]
    dsimp only
    rw [valued.niUnquote usable.1]
    dsimp only
    rw [if_neg usable.2, found]

theorem publishLine_nameless (nameless : Nameless Comment text) : publishLine text = {} := by
  obtain ⟨rest, begins, comment⟩ := nameless
  rw [publishLine_capability begins, capabilityLoop_names (.closes comment)]
  rfl

theorem publishLine_refused (refused : Refused text) : ∃ fatal, publishLine text = { fatal := some fatal } := by
  cases refused with
  | unknown begins other =>
    rw [publishLine, nextToken_token begins]
    dsimp only
    rw [if_neg other.1, if_neg other.2]
    exact ⟨_, rfl⟩
  | noName begins comment =>
    obtain ⟨pos, found⟩ := nextToken_comment comment
    rw [publishLine_setenv begins, setenvLine, found]
    exact ⟨_, rfl⟩
  | @noValue _ name later begins named none_ =>
    refine ⟨.noValue, ?_⟩
    rw [publishLine_setenv begins, setenvLine, nextToken_token named]
    dsimp only
    cases returned : niUnquote later (some sepa) with
    | mk value behind =>
      cases value with
      | none => rfl
      | some value =>
        by_cases hash : value.head? = some 35
        · exact if_pos hash
        · obtain ⟨valued, usable⟩ := value_of_niUnquote returned hash
          exact absurd usable (none_ _ _ valued)
  | garbage begins named valued usable more =>
    rw [publishLine_setenv begins, setenvLine, nextToken_token named]
    dsimp only
    rw [valued.niUnquote usable.1]
    dsimp only
    rw [if_neg usable.2, nextToken_token more]
    exact ⟨_, rfl⟩

theorem setenvLine_cases (begins : Begins text setenv rest) :
    (setenvLine rest).past = true ∨ (∃ entries, Line Comment Usable text entries) ∨
      Refused text := by
  rcases text_cases rest with blank | comment | ⟨name, later, named⟩
  · left
    rw [setenvLine, nextToken_behind blank]
  · exact .inr (.inr (.noName begins comment))
  · by_cases valued : ∃ value behind, Value later value behind ∧ Usable value
    · obtain ⟨value, behind, valued, usable⟩ := valued
      rcases text_cases behind with blank | comment | ⟨token, left_, more⟩
      · left
        rw [setenvLine, nextToken_token named]
        dsimp only
        rw [valued.niUnquote usable.1]
        dsimp only
        rw [if_neg usable.2, nextToken_behind blank]
      · exact .inr (.inl ⟨_, .setenv begins named valued usable comment⟩)
      · exact .inr (.inr (.garbage begins named valued usable more))
    · exact .inr (.inr (.noValue begins named fun value behind isValue usable =>
        valued ⟨value, behind, isValue, usable⟩))

/-- A line that is not scanned to behind its NUL is accepted or refused. -/
theorem publishLine_cases (text : CString) : (publishLine text).past = true ∨ Accepted text ∨ Refused text := by
  rcases text_cases text with blank | comment | ⟨kwd, rest, begins⟩
  · left
    rw [publishLine, nextToken_behind blank]
  · exact .inr (.inl (.inl ⟨[], .nothing comment⟩))
  · by_cases known : kwd = capability
    · subst kwd
      rcases capabilityLoop_cases rest with past | named
      · left
        rw [publishLine_capability begins]
        exact past
      · right; left
        generalize (capabilityLoop rest).1 = names at named
        cases named with
        | closes comment => exact .inr ⟨rest, begins, comment⟩
        | name here later =>
          exact .inl ⟨_, .capability begins (.name here later) (List.cons_ne_nil _ _)⟩
    · by_cases known' : kwd = setenv
      · subst kwd
        rcases setenvLine_cases begins with past | line | refused
        · left
          rw [publishLine_setenv begins]
          exact past
        · exact .inr (.inl (.inl line))
        · exact .inr (.inr refused)
      · exact .inr (.inr (.unknown begins ⟨known, known'⟩))

end Scanning

end Testbus.Publish
