import Testbus.Xml.Lexer

namespace Testbus.Xml

open Lib Program

/-- An assertion fails, or nothing is defined. -/
def Hazardous (check : Check) : Prop := check = .stop .assertion ∨ check = .stop .undefined

variable {source : Source} {allowed : Check → Prop} {text : Text}

theorem exact_getc {rest : Option UInt8 → Reader α}
    (eof : ∀ t : Text, text.rest = [] → t.rest = [] → t.state = text.state →
      Ensures (Text.exact source) allowed (rest none) t post)
    (byte : ∀ (cc : UInt8) (t : Text), text.rest = cc :: t.rest → t.last = some cc →
      t.state = text.state → Ensures (Text.exact source) allowed (rest (some cc)) t post) :
    Ensures (Text.exact source) allowed (getc >>= rest) text post := by
  apply ensures_bind.mpr
  apply ensures_perform.mpr
  rw [Text.exact]
  cases split : text.rest with
  | nil => exact eof _ split rfl rfl
  | cons cc rest' => exact byte cc _ split rfl rfl

theorem exact_ungetc {rest : Unit → Reader α} (last : text.last = some cc)
    (next : ∀ t : Text, t.rest = unget source cc text.rest → t.state = text.state →
      Ensures (Text.exact source) allowed (rest ()) t post) :
    Ensures (Text.exact source) allowed (ungetc (some cc) >>= rest) text post := by
  apply ensures_bind.mpr
  apply ensures_perform.mpr
  simp only [Text.exact, last, ne_eq, not_true, if_false]
  exact next _ rfl rfl

theorem exact_ungetc_eof {rest : Unit → Reader α}
    (next : ∀ t : Text, t.rest = text.rest → t.state = text.state →
      Ensures (Text.exact source) allowed (rest ()) t post) :
    Ensures (Text.exact source) allowed (ungetc none >>= rest) text post :=
  ensures_bind.mpr (ensures_perform.mpr (next _ rfl rfl))

theorem exact_state {rest : ParserState → Reader α}
    (next : Ensures (Text.exact source) allowed (rest text.state) text post) :
    Ensures (Text.exact source) allowed (state >>= rest) text post := ensures_bind.mpr (ensures_perform.mpr next)

theorem exact_setState {state : ParserState} {rest : Unit → Reader α}
    (next : Ensures (Text.exact source) allowed (rest ()) { text with state } post) :
    Ensures (Text.exact source) allowed (setState state >>= rest) text post := ensures_bind.mpr (ensures_perform.mpr next)

theorem exact_failed {value : α} (holds : ∀ t : Text, t.state = .error → post value t) :
    Ensures (Text.exact source) allowed (do parseError; pure value) text post :=
  exact_setState (ensures_pure.mpr (holds _ rfl))

theorem exact_newNode (next : ∀ node : Node, node.name = some (cstr identifier) →
      Ensures (Text.exact source) allowed (rest node) text post) :
    Ensures (Text.exact source) allowed (newNode identifier >>= rest) text post := by
  apply ensures_bind.mpr
  apply ensures_bind.mpr
  apply ensures_perform.mpr
  cases source <;> exact next _ rfl

theorem exact_skipSpace (res : Bytes) (enough : text.rest.length < fuel) :
    Ensures (Text.exact source) allowed (skipSpace fuel res) text fun found t =>
      found = res ++ text.rest.takeWhile isspace ∧ t.rest = skipped source text.rest ∧ t.state = text.state := by
  induction fuel generalizing res text with
  | zero => omega
  | succ fuel ih =>
    apply exact_getc
    · intro t start rest state
      exact ensures_pure.mpr ⟨by rw [start]; simp, by rw [rest, start]; rfl, state⟩
    · intro cc t start last state
      rw [start]
      dsimp only
      split
      next other =>
        apply exact_ungetc last
        intro t' rest' state'
        rw [skipped, List.takeWhile_cons_of_neg other, List.dropWhile_cons_of_neg other, peeked]
        exact ensures_pure.mpr ⟨(List.append_nil _).symm, rest', state'.trans state⟩
      next space =>
        rw [skipped, List.takeWhile_cons_of_pos (not_not.mp space), List.dropWhile_cons_of_pos (not_not.mp space)]
        have later := ih (res ++ [cc]) (show t.rest.length < fuel by
          rw [start, List.length_cons] at enough
          omega)
        simpa only [state, skipped, List.append_assoc, List.singleton_append] using later

theorem exact_skipCommentLoop (hyphens : Nat) (enough : text.rest.length < fuel) :
    Ensures (Text.exact source) allowed (skipCommentLoop fuel hyphens) text fun token t =>
      match lexComment hyphens text.rest with
      | some rest => token = .comment ∧ t.rest = rest ∧ t.state = text.state
      | none => token = .none ∧ t.state = .error := by
  induction fuel generalizing hyphens text with
  | zero => omega
  | succ fuel ih =>
    apply exact_getc
    · intro t start _ _
      rw [start]
      exact exact_failed fun _ state => ⟨rfl, state⟩
    · intro cc t start _ state
      rw [start, List.length_cons] at enough
      have shorter : t.rest.length < fuel := by omega
      have later (hyphens : Nat) := ih hyphens shorter
      rw [state] at later
      rw [start, lexComment]
      dsimp only
      split
      · exact later _
      split
      · exact ensures_pure.mpr ⟨rfl, rfl, state⟩
      · exact later _

theorem exact_skipComment (enough : text.rest.length < fuel) :
    Ensures (Text.exact source) allowed (skipComment fuel) text fun token t =>
      match text.rest with
      | 45 :: rest =>
        match lexComment 0 rest with
        | some rest => token = .comment ∧ t.rest = rest ∧ t.state = text.state
        | none => token = .none ∧ t.state = .error
      | _ => token = .none ∧ t.state = .error := by
  apply exact_getc
  · intro t start _ _
    rw [start, if_pos (by nofun)]
    exact exact_failed fun _ state => ⟨rfl, state⟩
  · intro cc t start _ state
    rw [start, List.length_cons] at enough
    rw [start]
    split
    next other =>
      refine exact_failed fun _ state => ?_
      split
      next same =>
        cases same
        exact absurd rfl other
      · exact ⟨rfl, state⟩
    next hyphen =>
      cases not_not.mp hyphen
      have shorter : t.rest.length < fuel := by omega
      have comment := @exact_skipCommentLoop source allowed _ _ 0 shorter
      rwa [state] at comment

theorem nonblank_cons (cc : UInt8) (bytes : Bytes) :
    nonblank (cc :: bytes) = if isspace cc then nonblank bytes else cc :: nonblank bytes := by
  unfold nonblank
  rw [List.filter_cons]
  cases isspace cc <;> rfl

theorem exact_entityLoop (entity : Bytes) (room : entity.length < 128) (enough : text.rest.length < fuel)
    (full : 128 ≤ (entity ++ nonblank (text.rest.takeWhile (· ≠ 59))).length → allowed (.stop .assertion)) :
    Ensures (Text.exact source) allowed (entityLoop fuel entity) text fun found t =>
      (entity ++ nonblank (text.rest.takeWhile (· ≠ 59))).length < 128 ∧
        match text.rest.dropWhile (· ≠ 59) with
        | [] => found = none ∧ t.state = .error
        | _ :: rest => found = some (entity ++ nonblank (text.rest.takeWhile (· ≠ 59))) ∧
            t.rest = rest ∧ t.state = text.state := by
  induction fuel generalizing entity text with
  | zero => omega
  | succ fuel ih =>
    apply exact_getc
    · intro t start _ _
      rw [start]
      refine exact_failed fun _ state => ⟨?_, rfl, state⟩
      simpa [nonblank] using room
    · intro cc t start _ state
      rw [start, List.length_cons] at enough
      rw [start] at full ⊢
      dsimp only
      split
      next semicolon =>
        cases semicolon
        refine ensures_pure.mpr ⟨?_, ?_, rfl, state⟩
        · simpa [nonblank] using room
        · simp [nonblank]
      next other =>
        rw [List.takeWhile_cons_of_pos (by simpa using other), nonblank_cons] at full ⊢
        rw [List.dropWhile_cons_of_pos (by simpa using other)]
        have shorter : t.rest.length < fuel := by omega
        split
        next space =>
          rw [if_pos space] at full
          have later := ih entity room shorter full
          rwa [state] at later
        next byte =>
          rw [if_neg byte] at full
          split
          next long =>
            refine full ?_
            simp only [List.length_append, List.length_cons]
            omega
          next short =>
            have room' : (entity ++ [cc]).length < 128 := by
              simp only [List.length_append, List.length_singleton]
              omega
            have later := ih (entity ++ [cc]) room' shorter (by simpa using full)
            simpa only [state, List.append_assoc, List.singleton_append] using later

theorem exact_expandEntity (res : Bytes) (enough : text.rest.length < fuel)
    (broken : lexEntity text.rest = .broken → ∀ check, Hazardous check → allowed check) :
    Ensures (Text.exact source) allowed (expandEntity fuel res) text fun found t =>
      match found with
      | none => lexEntity text.rest = .rejected ∧ t.state = .error
      | some value => lexEntity text.rest = .passes t.rest ∧ t.state = text.state ∧
          ∃ byte, entityValue (cstr (nonblank (text.rest.takeWhile (· ≠ 59)))) = some byte ∧ value = res ++ [byte] := by
  have full (long : 128 ≤ ([] ++ nonblank (text.rest.takeWhile (· ≠ 59))).length) : allowed (.stop .assertion) :=
    broken (by rw [lexEntity, if_pos (by simpa using long)]) _ (.inl rfl)
  apply (exact_entityLoop [] (by decide) enough full).then
  rintro entity t ⟨short, found⟩
  rw [List.nil_append] at short found
  rw [lexEntity, if_neg (by omega)] at broken ⊢
  cases behind : text.rest.dropWhile (· ≠ 59) with
  | nil =>
    rw [behind] at found
    obtain ⟨rfl, state⟩ := found
    exact ensures_pure.mpr ⟨rfl, state⟩
  | cons semicolon rest =>
    rw [behind] at found broken
    obtain ⟨rfl, rest', state⟩ := found
    dsimp only at broken ⊢
    cases content : nonblank (text.rest.takeWhile (· ≠ 59)) with
    | nil =>
      rw [content] at broken
      exact broken rfl _ (.inr rfl)
    | cons cc more =>
      dsimp only
      rw [if_neg (List.cons_ne_nil _ _)]
      cases value : entityValue (cstr (cc :: more)) with
      | none => exact exact_failed fun _ state => ⟨rfl, state⟩
      | some byte => exact ensures_pure.mpr ⟨by rw [rest']; rfl, state, byte, rfl, rfl⟩

section Content

variable (names : List CString)

theorem exact_cdataByte (res : Bytes) (tag : cc ≠ 60) (enough : text.rest.length < fuel)
    (broken : hazard source names (cc :: text.rest) = true → ∀ check, Hazardous check → allowed check) :
    Ensures (Text.exact source) allowed
      (if cc = 38 then expandEntity fuel res else pure (some (res ++ [cc]))) text fun found t =>
        match found with
        | none => hazard source names (cc :: text.rest) = false ∧ t.state = .error
        | some _ => hazard source names (cc :: text.rest) = hazard source names t.rest ∧
            t.state = text.state ∧ t.rest.length ≤ text.rest.length := by
  split
  next entity =>
    cases entity
    have piece : lexPiece source (38 :: text.rest) = lexEntity text.rest := rfl
    apply (exact_expandEntity res enough fun same => broken (hazard_piece (piece.trans same))).weaken
    intro found t expanded
    have within := within_entity text.rest
    cases found with
    | none => exact ⟨hazard_piece (piece.trans expanded.1), expanded.2⟩
    | some _ =>
      rw [expanded.1] at within
      exact ⟨hazard_piece (piece.trans expanded.1), expanded.2.1, Nat.le_of_lt within⟩
  next entity => exact ensures_pure.mpr ⟨hazard_byte tag entity, rfl, le_rfl⟩

theorem exact_cdataLoop (res : Bytes) (last : text.last = some cc) (enough : text.rest.length + 1 < fuel)
    (broken : hazard source names (cc :: text.rest) = true → ∀ check, Hazardous check → allowed check) :
    Ensures (Text.exact source) allowed (cdataLoop fuel res cc) text fun found t =>
      match found with
      | none => hazard source names (cc :: text.rest) = false ∧ t.state = .error
      | some _ => hazard source names (cc :: text.rest) = hazard source names t.rest ∧
          t.state = text.state ∧ t.rest.length ≤ text.rest.length + 1 ∧ (cc ≠ 60 → t.rest.length ≤ text.rest.length) := by
  induction fuel generalizing res cc text with
  | zero => omega
  | succ fuel ih =>
    rw [cdataLoop]
    split
    next tag =>
      cases tag
      apply exact_ungetc last
      intro t rest state
      have whole : t.rest = 60 :: text.rest := rest.trans (by cases source <;> rfl)
      exact ensures_pure.mpr ⟨by rw [whole], state, by rw [whole, List.length_cons], nofun⟩
    next tag =>
      apply (exact_cdataByte names res tag (by omega) broken).then
      intro found t here
      cases found with
      | none => exact ensures_pure.mpr here
      | some res =>
        obtain ⟨same, state, shorter⟩ := here
        apply exact_getc
        · intro t' start rest state'
          refine ensures_pure.mpr ⟨?_, state'.trans state, by rw [rest]; exact Nat.zero_le _, ?_⟩
          · rw [same, start, rest]
          · rw [rest]
            exact fun _ => Nat.zero_le _
        · intro next t' start last' state'
          rw [start] at same
          rw [start, List.length_cons] at shorter
          rw [same] at broken ⊢
          apply (ih res last' (by omega) broken).weaken
          intro found t'' here
          cases found with
          | none => exact here
          | some _ =>
            obtain ⟨same', state'', shorter', -⟩ := here
            refine ⟨same', state''.trans (state'.trans state), ?_, fun _ => ?_⟩ <;> omega

/-- The tokens that begin markup, with what follows the bracket and what follows the token. -/
inductive Begins (source : Source) : Token → Bytes → Bytes → Prop
  | slash {rest} : Begins source .leftAngleSlash (47 :: rest) rest
  | question {rest} : Begins source .leftAngleQ (63 :: rest) rest
  | exclam {rest} (other : rest.head? ≠ some 45) :
      Begins source .leftAngleExclam (33 :: rest) (peeked source rest)
  | angle {behind} (other : ∀ cc, behind.head? = some cc → cc ≠ 47 ∧ cc ≠ 63 ∧ cc ≠ 33) :
      Begins source .leftAngle behind (peeked source behind)

/-- What a token outside of a tag says about the hazard that is ahead. -/
def Found (source : Source) (names : List CString) (text : Bytes) (token : Token) (t : Text) : Prop :=
  match token with
  | .none => hazard source names text = false ∧ t.state = .error
  | .endOfDocument => hazard source names text = false
  | .cdata => hazard source names text = hazard source names t.rest ∧ t.state = .initial ∧
      t.rest.length < text.length
  | token => t.state = .tag ∧ ∃ behind, Begins source token behind t.rest ∧
      hazard source names text = hazard source names (60 :: behind) ∧ behind.length < text.length

theorem Begins.length_le (begins : Begins source token behind rest) : rest.length ≤ behind.length := by
  cases begins with
  | slash => exact Nat.le_succ _
  | question => exact Nat.le_succ _
  | exclam other => exact (peeked_le _ _).trans (Nat.le_succ _)
  | angle other => exact peeked_le _ _

/-- A comment, after the first hyphen. -/
theorem comment_ahead {rest : Bytes} {token : Token} {t : Text}
    (comment : match rest with
      | 45 :: rest =>
        match lexComment 0 rest with
        | some rest => token = .comment ∧ t.rest = rest ∧ t.state = text.state
        | none => token = .none ∧ t.state = .error
      | _ => token = .none ∧ t.state = .error) :
    (token = .comment ∧ t.rest.length < rest.length ∧
        hazard source names (60 :: 33 :: 45 :: rest) = hazard source names t.rest) ∨
      token = .none ∧ hazard source names (60 :: 33 :: 45 :: rest) = false ∧ t.state = .error := by
  split at comment
  next behind =>
    have piece : lexPiece source (60 :: 33 :: 45 :: 45 :: behind) =
      match lexComment 0 behind with
      | some rest => .passes rest
      | none => .rejected := rfl
    split at comment
    next rest' found =>
      obtain ⟨rfl, rfl, -⟩ := comment
      rw [found] at piece
      exact .inl ⟨rfl, Nat.lt_succ_of_le (lexComment_le found), hazard_piece piece⟩
    next found =>
      obtain ⟨rfl, state⟩ := comment
      rw [found] at piece
      exact .inr ⟨rfl, hazard_piece piece, state⟩
  next other =>
    obtain ⟨rfl, state⟩ := comment
    have piece : lexPiece source (60 :: 33 :: 45 :: rest) = .rejected := by
      change lexMarkup source (33 :: 45 :: rest) = .rejected
      unfold lexMarkup
      split
      all_goals try simp_all
      next behind none_ same => exact absurd same.symm (none_ rest)
    exact .inr ⟨rfl, hazard_piece piece, state⟩

theorem Found.earlier {names : List CString} {behind rest : Bytes} {token : Token}
    (ahead : Found source names rest token t)
    (same : hazard source names behind = hazard source names rest) (le : rest.length ≤ behind.length) :
    Found source names behind token t := by
  unfold Found at *
  rw [same]
  split at ahead
  · exact ahead
  · exact ahead
  · exact ⟨ahead.1, ahead.2.1, ahead.2.2.trans_le le⟩
  · obtain ⟨state, behind', begins, same', less⟩ := ahead
    exact ⟨state, behind', begins, same', less.trans_le le⟩

theorem exact_getTokenInitial (initial : text.state = .initial) (enough : text.rest.length + 1 < fuel)
    (broken : hazard source names text.rest = true → ∀ check, Hazardous check → allowed check) :
    Ensures (Text.exact source) allowed (getTokenInitial fuel) text fun found t =>
      Found source names text.rest found.1 t := by
  induction fuel generalizing text with
  | zero => omega
  | succ fuel ih =>
    rw [getTokenInitial]
    apply (exact_skipSpace [] (by omega)).then
    intro res t ⟨_, rest, state⟩
    have same : hazard source names text.rest = hazard source names t.rest := by
      rw [rest, hazard_skipped]
    have shorter : t.rest.length ≤ text.rest.length := by
      rw [rest]
      exact (peeked_le _ _).trans (dropWhile_le _ _)
    apply exact_getc
    · intro t' start _ _
      refine ensures_pure.mpr (?_ : hazard source names text.rest = false)
      rw [same, start, hazard_nil]
    · intro cc t' start last state'
      rw [start] at same shorter
      rw [List.length_cons] at shorter
      split
      next none_ => cases none_
      next tag =>
        cases tag
        apply exact_state
        rw [if_neg (by rw [state', state, initial]; simp)]
        apply exact_setState
        apply exact_getc
        · intro t₂ start₂ rest₂ state₂
          apply exact_ungetc_eof
          intro t₃ rest₃ state₃
          refine ensures_pure.mpr ⟨state₃.trans state₂, [], ?_, ?_, by simp only [List.length_nil]; omega⟩
          · rw [rest₃, rest₂]
            exact .angle nofun
          · rw [same]
            exact congrArg (fun rest => hazard source names (60 :: rest)) start₂
        · intro cc t₂ start₂ last₂ state₂
          have start₂ : t'.rest = cc :: t₂.rest := start₂
          rw [start₂] at same shorter
          split
          next slash =>
            cases slash
            exact ensures_pure.mpr ⟨state₂, _, .slash, same, shorter⟩
          next question =>
            cases question
            exact ensures_pure.mpr ⟨state₂, _, .question, same, shorter⟩
          next exclam =>
            cases exclam
            apply exact_getc
            · intro t₃ start₃ rest₃ state₃
              rw [if_pos (by nofun)]
              apply exact_ungetc_eof
              intro t₄ rest₄ state₄
              rw [start₃] at same shorter
              refine ensures_pure.mpr ⟨state₄.trans (state₃.trans state₂), _, ?_, same, shorter⟩
              rw [rest₄, rest₃]
              exact .exclam nofun
            · intro cc t₃ start₃ last₃ state₃
              rw [start₃] at same shorter
              split
              next other =>
                apply exact_ungetc last₃
                intro t₄ rest₄ state₄
                refine ensures_pure.mpr ⟨state₄.trans (state₃.trans state₂), _, ?_, same, shorter⟩
                rw [rest₄]
                exact .exclam other
              next hyphen =>
                cases not_not.mp hyphen
                simp only [List.length_cons] at shorter
                apply (exact_skipComment (by omega)).then
                intro token t₄ comment
                rcases @comment_ahead source _ names _ _ _ comment with
                  ⟨rfl, less, passes⟩ | ⟨rfl, rejected, state₄⟩
                · apply exact_setState
                  rw [passes] at same
                  rw [same] at broken
                  have enough' : t₄.rest.length + 1 < fuel := by omega
                  have later : Ensures (Text.exact source) allowed (getTokenInitial fuel)
                      { t₄ with state := .initial } fun found t => Found source names t₄.rest found.1 t :=
                    ih rfl enough' broken
                  exact later.weaken fun found t₅ ahead => ahead.earlier same (by omega)
                · exact ensures_pure.mpr ⟨same.trans rejected, state₄⟩
          next other₁ other₂ other₃ =>
            apply exact_ungetc last₂
            intro t₃ rest₃ state₃
            refine ensures_pure.mpr ⟨state₃.trans state₂, _, ?_, same, shorter⟩
            rw [rest₃]
            refine .angle fun cc' head => ?_
            cases head
            exact ⟨fun same => other₁ (congrArg some same), fun same => other₂ (congrArg some same),
              fun same => other₃ (congrArg some same)⟩
      next cc' other same' =>
        cases same'
        rw [same] at broken
        apply (exact_cdataLoop names res last (by omega) broken).then
        intro found t₂ here
        cases found with
        | none => exact ensures_pure.mpr ⟨same.trans here.1, here.2⟩
        | some text_ =>
          obtain ⟨passes, state₂, -, less⟩ := here
          refine ensures_pure.mpr ⟨same.trans passes, ?_, ?_⟩
          · rw [state₂, state', state, initial]
          · have := less fun tag => other (by rw [tag])
            omega

end Content

theorem exact_identifierLoop (res : Bytes) (enough : text.rest.length < fuel) :
    Ensures (Text.exact source) allowed (identifierLoop fuel res) text fun found t =>
      found = res ++ text.rest.takeWhile identifierByte ∧
        t.rest = peeked source (text.rest.dropWhile identifierByte) ∧ t.state = text.state := by
  induction fuel generalizing res text with
  | zero => omega
  | succ fuel ih =>
    apply exact_getc
    · intro t start rest state
      refine ensures_pure.mpr ⟨?_, ?_, state⟩
      · rw [start, List.takeWhile_nil, List.append_nil]
      · rw [rest, start]
        rfl
    · intro cc t start last state
      rw [start, List.length_cons] at enough
      rw [start]
      dsimp only
      split
      next other =>
        apply exact_ungetc last
        intro t' rest' state'
        rw [List.takeWhile_cons_of_neg other, List.dropWhile_cons_of_neg other]
        exact ensures_pure.mpr ⟨(List.append_nil _).symm, rest', state'.trans state⟩
      next part =>
        have part := not_not.mp part
        rw [List.takeWhile_cons_of_pos part, List.dropWhile_cons_of_pos part]
        have shorter : t.rest.length < fuel := by omega
        have later := ih (res ++ [cc]) shorter
        simpa only [state, List.append_assoc, List.singleton_append] using later

theorem exact_quotedLoop (oc : UInt8) (res : Bytes) (enough : text.rest.length < fuel) :
    Ensures (Text.exact source) allowed (quotedLoop oc fuel res) text fun found t =>
      match text.rest.dropWhile (· ≠ oc) with
      | [] => found = none ∧ t.state = .error
      | _ :: rest => found = some (res ++ text.rest.takeWhile (· ≠ oc)) ∧ t.rest = rest ∧ t.state = text.state := by
  induction fuel generalizing res text with
  | zero => omega
  | succ fuel ih =>
    apply exact_getc
    · intro t start _ _
      rw [start]
      exact exact_failed fun _ state => ⟨rfl, state⟩
    · intro cc t start _ state
      rw [start, List.length_cons] at enough
      rw [start]
      dsimp only
      split
      next quote =>
        rw [List.takeWhile_cons_of_neg (by simpa using quote), List.dropWhile_cons_of_neg (by simpa using quote)]
        exact ensures_pure.mpr ⟨by rw [List.append_nil], rfl, state⟩
      next other =>
        rw [List.takeWhile_cons_of_pos (by simpa using other), List.dropWhile_cons_of_pos (by simpa using other)]
        have shorter : t.rest.length < fuel := by omega
        have later := ih (res ++ [cc]) shorter
        simpa only [state, List.append_assoc, List.singleton_append] using later

/-- The state after a token in a tag. -/
def tagState : Token → ParserState
  | .rightAngle | .rightAngleQ | .rightAngleSlash => .initial
  | _ => .tag

/-- A token that was found in a tag is the one that is there. -/
def Lexed (lexed : Option (Token × Bytes × Bytes)) (found : Token × Bytes) (t : Text) : Prop :=
  match lexed with
  | none => found.1 = .none ∧ t.state = .error
  | some (token, name, rest) => found.1 = token ∧ (token = .identifier → found.2 = name) ∧
      t.rest = rest ∧ t.state = tagState token

/-- A token other than an error is there, and what follows it is what is left. -/
theorem Lexed.token {before : Bytes}
    (lexed : Lexed (lexTag source before) found t) (other : found.1 ≠ .none) :
    ∃ name, lexTag source before = some (found.1, name, t.rest) ∧ t.state = tagState found.1 ∧
      t.rest.length < before.length := by
  cases there : lexTag source before with
  | none =>
    rw [there] at lexed
    exact absurd lexed.1 other
  | some result =>
    obtain ⟨token, name, rest⟩ := result
    have shorter := lexTag_shorter there
    rw [there] at lexed
    obtain ⟨rfl, -, rfl, state⟩ := lexed
    exact ⟨name, rfl, state, shorter⟩

theorem exact_tagEnd {token : Token} {first : UInt8} (closes : tagState token = .initial) (other : token ≠ .identifier) :
    Ensures (Text.exact source) allowed (tagEnd token first) text fun found t =>
      Lexed (if text.rest.head? = some 62 then some (token, [], text.rest.tail) else none) found t := by
  apply exact_getc
  · intro t start _ _
    rw [start, if_pos (by nofun), if_neg (by nofun)]
    exact exact_failed fun _ state => ⟨rfl, state⟩
  · intro cc t start _ _
    rw [start, List.head?_cons, List.tail_cons]
    split
    next => exact exact_failed fun _ state => ⟨rfl, state⟩
    next close =>
      rw [if_pos (not_not.mp close)]
      exact exact_setState (ensures_pure.mpr ⟨rfl, fun same => absurd same other, rfl, closes.symm⟩)

theorem exact_getTokenTag (tag : text.state = .tag) (enough : text.rest.length < fuel) :
    Ensures (Text.exact source) allowed (getTokenTag fuel) text fun found t =>
      Lexed (lexTag source text.rest) found t := by
  apply (exact_skipSpace [] enough).then
  intro _ t ⟨_, rest, state⟩
  rw [lexTag, ← rest]
  have shorter : t.rest.length ≤ text.rest.length := by
    rw [rest]
    exact (peeked_le _ _).trans (dropWhile_le _ _)
  apply exact_getc
  · intro t' start _ _
    rw [start]
    exact exact_failed fun _ state => ⟨rfl, state⟩
  · intro cc t' start _ state'
    rw [start] at shorter ⊢
    rw [List.length_cons] at shorter
    have tag' : t'.state = .tag := state'.trans (state.trans tag)
    dsimp only
    rw [tagToken]
    split
    · exact exact_tagEnd rfl nofun
    split
    · exact exact_setState (ensures_pure.mpr ⟨rfl, nofun, rfl, rfl⟩)
    split
    · exact exact_tagEnd rfl nofun
    split
    · exact ensures_pure.mpr ⟨rfl, nofun, rfl, tag'⟩
    split
    · apply (exact_identifierLoop [cc] (by omega)).then
      intro res t'' ⟨same, rest'', state''⟩
      exact ensures_pure.mpr ⟨rfl, fun _ => same, rest'', state''.trans tag'⟩
    split
    · apply (exact_quotedLoop cc [] (by omega)).then
      intro found t'' quoted
      cases behind : t'.rest.dropWhile (· ≠ cc) with
      | nil =>
        rw [behind] at quoted
        obtain ⟨rfl, state''⟩ := quoted
        exact ensures_pure.mpr ⟨rfl, state''⟩
      | cons quote rest =>
        rw [behind] at quoted
        obtain ⟨rfl, rest'', state''⟩ := quoted
        exact ensures_pure.mpr ⟨rfl, nofun, rest'', state''.trans tag'⟩
    · exact exact_failed fun _ state => ⟨rfl, state⟩

theorem exact_getToken_tag (tag : text.state = .tag) (enough : text.rest.length < fuel) :
    Ensures (Text.exact source) allowed (getToken fuel) text fun found t =>
      Lexed (lexTag source text.rest) found t := by
  apply exact_state
  rw [tag]
  exact exact_getTokenTag tag enough

theorem exact_getToken_initial (names : List CString) (initial : text.state = .initial)
    (enough : text.rest.length + 1 < fuel)
    (broken : hazard source names text.rest = true → ∀ check, Hazardous check → allowed check) :
    Ensures (Text.exact source) allowed (getToken fuel) text fun found t =>
      Found source names text.rest found.1 t := by
  apply exact_state
  rw [initial]
  exact exact_getTokenInitial names initial enough broken

theorem exact_getIdentifier (tag : text.state = .tag) (enough : text.rest.length < fuel) :
    Ensures (Text.exact source) allowed (getIdentifier fuel) text fun found t =>
      match lexTag source text.rest with
      | some (.identifier, name, rest) => found = some name ∧ t.rest = rest ∧ t.state = .tag
      | _ => found = none := by
  apply (exact_getToken_tag tag enough).then
  intro found t lexed
  unfold Lexed at lexed
  split at lexed
  next none_ =>
    rw [none_]
    exact ensures_pure.mpr (if_neg (by rw [lexed.1]; nofun))
  next token name rest some_ =>
    obtain ⟨same, named, rest', state⟩ := lexed
    rw [some_]
    by_cases identifier : token = .identifier
    · subst identifier
      exact ensures_pure.mpr ⟨by rw [if_pos same, named rfl], rest', state⟩
    · refine ensures_pure.mpr ?_
      rw [if_neg (by rwa [same])]
      split
      next other => cases other; exact absurd rfl identifier
      · rfl

theorem addAttr_name (node : Node) (attr : CString) (value : Option CString) :
    (node.addAttr attr value).name = node.name := by
  cases node
  rfl

/-- The token that closes a tag, or an error. -/
def Closed (lexed : Option (Token × Bytes)) (token : Token) (t : Text) : Prop :=
  match lexed with
  | some (closing, rest) => token = closing ∧ t.rest = rest ∧ t.state = .initial
  | none => token = .none ∧ t.state = .error

section Attributes

variable {before behind value s : Bytes} {name : Bytes}

theorem lexAttributes_plain (first : lexTag source before = some (.identifier, name, behind))
    (other : ∀ s rest, lexTag source behind ≠ some (.equals, s, rest)) :
    lexAttributes source (rounds + 1) before = lexAttributes source rounds behind := by
  rw [lexAttributes, first]
  dsimp only
  split
  next equals => exact absurd equals (other _ _)
  · rfl

theorem lexAttributes_value (first : lexTag source before = some (.identifier, name, behind))
    (equals : lexTag source behind = some (.equals, s, value)) :
    lexAttributes source (rounds + 1) before =
      match lexTag source value with
      | some (.quotedString, _, rest) => lexAttributes source rounds rest
      | _ => none := by
  rw [lexAttributes, first]
  dsimp only
  revert equals
  generalize lexTag source behind = found
  rintro rfl
  rfl

end Attributes

theorem exact_tagAttributesLoop (node : Node) (token : Token × Bytes)
    (lexed : Lexed (lexTag source before) token text) (some_ : 0 < fuel)
    (enough : token.1 = .identifier → text.rest.length + 2 < fuel) (less : before.length < rounds) :
    Ensures (Text.exact source) allowed (tagAttributesLoop fuel node token) text fun found t =>
      Closed (lexAttributes source rounds before) found.1 t ∧ found.2.name = node.name := by
  induction fuel generalizing before rounds node token text with
  | zero => omega
  | succ fuel ih =>
    obtain ⟨rounds, rfl⟩ := Nat.exists_eq_add_of_le' (show 1 ≤ rounds by omega)
    obtain ⟨token, tokenValue⟩ := token
    cases first : lexTag source before with
    | none =>
      rw [first] at lexed
      obtain ⟨rfl, -⟩ := lexed
      rw [lexAttributes, first]
      exact exact_failed fun _ state => ⟨⟨rfl, state⟩, rfl⟩
    | some found =>
      obtain ⟨token', name, rest⟩ := found
      have shorter := lexTag_shorter first
      rw [first] at lexed
      obtain ⟨same, -, rest', state⟩ := lexed
      dsimp only at same
      subst same rest'
      cases token with
      | identifier =>
        have enough := enough rfl
        apply (exact_getToken_tag state (by omega)).then
        intro next t lexed'
        dsimp only
        split
        next other =>
          have plain : ∀ s rest, lexTag source text.rest ≠ some (.equals, s, rest) := by
            intro s rest second
            rw [second] at lexed'
            exact other lexed'.1
          rw [lexAttributes_plain first plain]
          refine (ih _ _ lexed' (by omega) (fun identifier => ?_) (by omega)).weaken fun found t' here =>
            ⟨here.1, here.2.trans (addAttr_name _ _ _)⟩
          obtain ⟨_, _, _, second⟩ := lexed'.token (by rw [identifier]; decide)
          omega
        next equals =>
          obtain ⟨_, second, state', less'⟩ := lexed'.token (by rw [not_not.mp equals]; decide)
          rw [not_not.mp equals] at second state'
          rw [lexAttributes_value first second]
          apply (exact_getToken_tag state' (by omega)).then
          intro value t' lexed''
          split
          next other =>
            split
            next quoted =>
              rw [quoted] at lexed''
              exact absurd lexed''.1 other
            · exact exact_failed fun _ state => ⟨⟨rfl, state⟩, rfl⟩
          next quoted =>
            obtain ⟨_, third, state'', less''⟩ := lexed''.token (by rw [not_not.mp quoted]; decide)
            rw [not_not.mp quoted] at third state''
            rw [third]
            apply (exact_getToken_tag state'' (by omega)).then
            intro after t'' lexed₃
            refine (ih _ _ lexed₃ (by omega) (fun identifier => ?_) (by omega)).weaken
              fun found t' here => ⟨here.1, here.2.trans (addAttr_name _ _ _)⟩
            obtain ⟨_, _, _, last⟩ := lexed₃.token (by rw [identifier]; decide)
            omega
      | rightAngle =>
        rw [lexAttributes, first]
        exact ensures_pure.mpr ⟨⟨rfl, rfl, state⟩, rfl⟩
      | rightAngleQ =>
        rw [lexAttributes, first]
        exact ensures_pure.mpr ⟨⟨rfl, rfl, state⟩, rfl⟩
      | rightAngleSlash =>
        rw [lexAttributes, first]
        exact ensures_pure.mpr ⟨⟨rfl, rfl, state⟩, rfl⟩
      | _ =>
        rw [lexAttributes, first]
        exact exact_failed fun _ state => ⟨⟨rfl, state⟩, rfl⟩

theorem exact_getTagAttributes (node : Node) (tag : text.state = .tag) (enough : text.rest.length + 2 < fuel) :
    Ensures (Text.exact source) allowed (getTagAttributes fuel node) text fun found t =>
      Closed (lexAttributes source (text.rest.length + 1) text.rest) found.1 t ∧ found.2.name = node.name := by
  apply (exact_getToken_tag tag (by omega)).then
  intro token t lexed
  refine exact_tagAttributesLoop node token lexed (by omega) (fun identifier => ?_) (by omega)
  obtain ⟨_, _, _, less⟩ := lexed.token (by rw [identifier]; nofun)
  omega

theorem exact_doctypeLoop (tag : text.state = .tag)
    (enough : text.rest.length + 2 < fuel) (less : text.rest.length < rounds) :
    Ensures (Text.exact source) allowed (doctypeLoop fuel) text fun ended t =>
      match lexDoctype source rounds text.rest with
      | some rest => ended = true ∧ t.rest = rest ∧ t.state = .initial
      | none => ended = false ∧ t.state = .error := by
  induction fuel generalizing rounds text with
  | zero => omega
  | succ fuel ih =>
    obtain ⟨rounds, rfl⟩ := Nat.exists_eq_add_of_le' (show 1 ≤ rounds by omega)
    apply (exact_getToken_tag tag (by omega)).then
    intro found t lexed
    rw [lexDoctype]
    cases there : lexTag source text.rest with
    | none =>
      rw [there] at lexed
      dsimp only
      rw [lexed.1]
      exact exact_failed fun _ state => ⟨rfl, state⟩
    | some result =>
      obtain ⟨token, name, rest⟩ := result
      have shorter := lexTag_shorter there
      rw [there] at lexed
      obtain ⟨same, -, rest', state⟩ := lexed
      subst rest'
      dsimp only
      rw [same]
      cases token with
      | rightAngle => exact ensures_pure.mpr ⟨rfl, rfl, state⟩
      | identifier => exact ih state (by omega) (by omega)
      | quotedString => exact ih state (by omega) (by omega)
      | _ => exact exact_failed fun _ state => ⟨rfl, state⟩

end Testbus.Xml
