import Testbus.Xml.Ahead

namespace Testbus.Xml

open Lib Program

variable {source : Source} {text : Text}

/-- An element that is being read, with the rounds that are left for it. -/
structure Frame where
  fuel : Nat
  cur : Node
  parent : Bool

/-- What is done after an element that is inside of others, innermost first. -/
def resume : List Frame → Option Node → Reader (Option Node)
  | _, none => pure none
  | [], some root => pure (some root)
  | frame :: frames, some child => do
    let result ← processElementNested frame.fuel (frame.cur.addChild child) frame.parent
    resume frames result

/-- The elements that are being read have the names, and the root has none. -/
inductive Open : Node → Bool → List Frame → List CString → Prop
  | root {cur} : Open cur false [] []
  | element {cur frame frames name names} (named : cur.name = some name)
      (outer : Open frame.cur frame.parent frames names) :
      Open cur true (frame :: frames) (name :: names)

theorem Open.rename {cur other : Node} {parent : Bool} {frames : List Frame} {names : List CString}
    (opened : Open cur parent frames names) (same : other.name = cur.name) :
    Open other parent frames names := by
  cases opened with
  | root => exact .root
  | element named outer => exact .element (same.trans named) outer

/-- No hazard was ahead, and the document is rejected only with an error. -/
def Harmless (source : Source) (names : List CString) (text : Bytes) (result : Option Node)
    (t : Text) : Prop :=
  hazard source names text = false ∧ (result = none → t.state = .error)

theorem exact_identifier {α : Type} {post : α → Text → Prop} {rest : Option Bytes → Reader α}
    (tag : text.state = .tag) (enough : text.rest.length < fuel)
    (found : ∀ name t, lexTag source text.rest = some (.identifier, name, t.rest) → t.state = .tag →
      t.rest.length < text.rest.length → Ensures (Text.exact source) allowed (rest (some name)) t post)
    (other : (∀ name behind, lexTag source text.rest ≠ some (.identifier, name, behind)) → ∀ t,
      Ensures (Text.exact source) allowed (rest none) t post) :
    Ensures (Text.exact source) allowed (getIdentifier fuel >>= rest) text post := by
  apply (exact_getIdentifier tag enough).then
  intro identifier t same
  split at same
  next name behind there =>
    obtain ⟨rfl, rfl, state⟩ := same
    exact found name t there state (lexTag_shorter there)
  next none_ =>
    subst same
    refine other (fun name behind there => ?_) t
    exact none_ name behind there

/-- What a token that begins markup says about the next piece of the text. -/
def markup (source : Source) (token : Token) (text : Bytes) : Piece :=
  match token with
  | .leftAngleSlash => lexEnd source text
  | .leftAngleQ => lexInstruction source text
  | .leftAngleExclam => lexDeclaration source text
  | _ => lexElement source text

theorem Begins.piece {token : Token} {behind rest : Bytes} (begins : Begins source token behind rest) :
    lexPiece source (60 :: behind) = markup source token rest := by
  cases begins with
  | slash => rfl
  | question => rfl
  | @exclam rest other =>
    change lexMarkup source (33 :: rest) = lexDeclaration source (peeked source rest)
    unfold lexMarkup
    split
    all_goals try simp_all
  | angle other =>
    change lexMarkup source behind = lexElement source (peeked source behind)
    unfold lexMarkup
    split
    all_goals try simp_all

theorem markup_rejected {before : Bytes} (token : Token)
    (other : ∀ name behind, lexTag source before ≠ some (.identifier, name, behind)) :
    markup source token before = .rejected := by
  unfold markup lexElement lexEnd lexInstruction lexDeclaration
  split
  all_goals
    split
    next there => exact absurd there (other _ _)
    · rfl

/-- The attributes of a new node end with a token that closes the tag, or the document is
rejected. -/
theorem exact_newTag {α : Type} {post : α → Text → Prop} {name : Bytes}
    {rest : Token × Node → Reader α} (tag : text.state = .tag) (enough : text.rest.length + 2 < fuel)
    (closed : ∀ child closing t, child.name = some (cstr name) →
      lexAttributes source (text.rest.length + 1) text.rest = some (closing, t.rest) →
      t.state = .initial → t.rest.length < text.rest.length →
      Ensures (Text.exact source) allowed (rest (closing, child)) t post)
    (other : lexAttributes source (text.rest.length + 1) text.rest = none → ∀ child t,
      Ensures (Text.exact source) allowed (rest (.none, child)) t post) :
    Ensures (Text.exact source) allowed (do rest (← getTagAttributes fuel (← newNode name))) text post := by
  refine exact_newNode fun child named => ?_
  apply (exact_getTagAttributes child tag enough).then
  intro found t ⟨ended, named'⟩
  obtain ⟨token, child'⟩ := found
  unfold Closed at ended
  split at ended
  next closing behind attributes =>
    obtain ⟨rfl, rfl, state⟩ := ended
    exact closed child' _ t (named'.trans named) attributes state (lexAttributes_shorter attributes)
  next none_ =>
    obtain ⟨rfl, -⟩ := ended
    exact other none_ child' t

theorem resume_none (frames : List Frame) : resume frames none = pure none := by
  cases frames <;> rfl

/-- The rest of a document is read without a hazard if none is ahead. -/
theorem exact_process (length : Nat) {fuel : Nat} {cur : Node} {parent : Bool} {frames : List Frame}
    {names : List CString} {text : Text} (opened : Open cur parent frames names)
    (initial : text.state = .initial) (short : text.rest.length < length) (enough : text.rest.length + 2 < fuel)
    (frames_ : ∀ frame ∈ frames, text.rest.length + 2 < frame.fuel) :
    Ensures (Text.exact source) (fun check => Hazardous check ∧ hazard source names text.rest = true)
      (do resume frames (← processElementNested fuel cur parent)) text (Harmless source names text.rest) := by
  induction length generalizing fuel cur parent frames names text with
  | zero => omega
  | succ length ih =>
    obtain ⟨fuel, rfl⟩ := Nat.exists_eq_add_of_le' (show 1 ≤ fuel by omega)
    let allowed (check : Check) : Prop := Hazardous check ∧ hazard source names text.rest = true
    let post (result : Option Node) (t : Text) : Prop :=
      Ensures (Text.exact source) allowed (resume frames result) t (Harmless source names text.rest)
    apply ensures_bind.mpr
    -- a document that is rejected here
    have rejected (none_ : hazard source names text.rest = false) (t : Text) (state : t.state = .error) :
        post none t := by
      change Ensures _ _ (resume frames none) t _
      rw [resume_none]
      exact ensures_pure.mpr ⟨none_, fun _ => state⟩
    have fails (none_ : hazard source names text.rest = false) (t : Text) :
        Ensures (Text.exact source) allowed (do parseError; pure none) t post := exact_failed (rejected none_)
    -- the rest of the same element
    have later (t : Text) (cur' : Node) (name : cur'.name = cur.name) (state : t.state = .initial)
        (less : t.rest.length < text.rest.length)
        (same : hazard source names text.rest = hazard source names t.rest) :
        Ensures (Text.exact source) allowed (processElementNested fuel cur' parent) t post := by
      have enough' : t.rest.length + 2 < fuel := by omega
      have rest := ih (opened.rename name) state (by omega) enough'
        (fun frame member => (Nat.add_lt_add_right less 2).trans (frames_ frame member))
      unfold Harmless at rest
      rw [← same] at rest
      exact ensures_bind.mp rest
    -- markup begins with an identifier
    have tagged {token : Token} {t : Text} {rest : Option Bytes → Reader (Option Node)}
        (ahead : t.state = .tag ∧ ∃ behind, Begins source token behind t.rest ∧
          hazard source names text.rest = hazard source names (60 :: behind) ∧
          behind.length < text.rest.length)
        (none_ : rest none = do parseError; pure none)
        (found : ∀ name t₁, lexTag source t.rest = some (.identifier, name, t₁.rest) →
          t₁.state = .tag → t₁.rest.length < text.rest.length →
          hazard source names text.rest = (markup source token t.rest).hazard source names →
          Ensures (Text.exact source) allowed (rest (some name)) t₁ post) :
        Ensures (Text.exact source) allowed (getIdentifier fuel >>= rest) t post := by
      obtain ⟨tag, behind, begins, same, less⟩ := ahead
      have le := begins.length_le
      refine exact_identifier tag (by omega) (fun name t₁ there state₁ less₁ => ?_) fun other t₁ => ?_
      · exact found name t₁ there state₁ (by omega) (same.trans (hazard_piece begins.piece))
      · rw [none_]
        exact fails (same.trans (hazard_piece (begins.piece.trans (markup_rejected _ other)))) t₁
    rw [processElementNested]
    apply (exact_getToken_initial names initial (by omega) fun ahead check hazardous =>
      ⟨hazardous, ahead⟩).then
    intro found t ahead
    obtain ⟨token, tokenValue⟩ := found
    dsimp only at ahead ⊢
    cases token with
    | cdata => exact later t _ (by cases cur; rfl) ahead.2.1 ahead.2.2 ahead.1
    | none => exact ensures_pure.mpr (rejected ahead.1 t ahead.2)
    | endOfDocument =>
      cases opened with
      | root => exact ensures_pure.mpr (ensures_pure.mpr ⟨ahead, by simp⟩)
      | element named outer => exact fails ahead t
    | leftAngle =>
      refine tagged ahead rfl fun name t₁ there state₁ less₁ same => ?_
      simp only [markup, lexElement, there] at same
      refine exact_newTag state₁ (by omega) (fun child closing t₂ named attributes state₂ less₂ => ?_)
        fun none_ child t₂ => ?_
      · rw [attributes] at same
        cases closing with
        | rightAngle =>
          have opens : hazard source names text.rest = hazard source (cstr name :: names) t₂.rest := same
          have enough₂ : t₂.rest.length + 2 < fuel := by omega
          have opened' : Open child true (⟨fuel, cur, parent⟩ :: frames) (cstr name :: names) := .element named opened
          have inner := ih opened' state₂ (by omega) enough₂ (List.forall_mem_cons.mpr
            ⟨enough₂, fun frame member => (Nat.lt_trans (by omega) (frames_ frame member))⟩)
          unfold Harmless at inner
          rw [← opens] at inner
          refine (ensures_bind.mp inner).then fun result t₃ after => ?_
          cases result with
          | none =>
            rw [resume_none] at after
            refine ensures_pure.mpr (?_ : Ensures _ _ (resume frames none) t₃ _)
            rwa [resume_none]
          | some child => exact ensures_bind.mp after
        | rightAngleSlash => exact later t₂ _ (by cases cur; rfl) state₂ (by omega) same
        | _ => exact fails same t₂
      · rw [none_] at same
        exact fails same t₂
    | leftAngleSlash =>
      refine tagged ahead rfl fun name t₁ there state₁ less₁ same => ?_
      simp only [markup, lexEnd, there] at same
      have enough₁ : t₁.rest.length < fuel := by omega
      apply (exact_getToken_tag state₁ enough₁).then
      intro found t₂ lexed
      by_cases close : found.1 = .rightAngle
      · obtain ⟨_, there₂, state₂, less₂⟩ := lexed.token (by rw [close]; decide)
        rw [close] at there₂ state₂
        rw [there₂] at same
        rw [close]
        cases opened with
        | root => exact fails same t₂
        | @element _ frame frames top names named outer =>
          have closes : hazard source (top :: names) text.rest =
            if top = cstr name then hazard source names t₂.rest else false := same
          by_cases matches_ : top = cstr name
          · rw [if_pos matches_] at closes
            rw [if_neg (by simp [named, matches_])]
            refine ensures_pure.mpr (?_ : Ensures _ _ (resume (frame :: frames) (some cur)) t₂ _)
            have enough₂ : t₂.rest.length + 2 < frame.fuel := Nat.lt_trans (by omega) (frames_ frame List.mem_cons_self)
            have outer' : Open (frame.cur.addChild cur) frame.parent frames names :=
              outer.rename (by cases frame.cur; rfl)
            have rest := ih outer' state₂ (by omega) enough₂ fun frame member =>
              Nat.lt_trans (by omega) (frames_ frame (List.mem_cons_of_mem _ member))
            unfold Harmless at rest
            rw [← closes] at rest
            exact rest
          · rw [if_neg matches_] at closes
            rw [if_pos (by simp [named, matches_])]
            exact fails closes t₂
      · rw [if_pos (by simp [close])]
        split at same
        next angle =>
          rw [angle] at lexed
          exact absurd lexed.1 close
        · exact fails same t₂
    | leftAngleQ =>
      refine tagged ahead rfl fun name t₁ there state₁ less₁ same => ?_
      simp only [markup, lexInstruction, there] at same
      refine exact_newTag state₁ (by omega) (fun child closing t₂ _ attributes state₂ less₂ => ?_)
        fun none_ child t₂ => ?_
      · rw [attributes] at same
        cases closing with
        | rightAngleQ => exact later t₂ _ rfl state₂ (by omega) same
        | _ => exact fails same t₂
      · rw [none_] at same
        exact fails same t₂
    | leftAngleExclam =>
      refine tagged ahead rfl fun name t₁ there state₁ less₁ same => ?_
      simp only [markup, lexDeclaration, there] at same
      dsimp only
      split
      next unknown =>
        rw [if_pos unknown] at same
        exact ⟨.inr rfl, same⟩
      next doctype =>
        rw [if_neg doctype] at same
        have enough₁ : t₁.rest.length + 2 < fuel := by omega
        apply (exact_doctypeLoop state₁ enough₁ (Nat.lt_succ_self _)).then
        intro ended t₂ lexed
        split at lexed
        next behind₂ attributes =>
          obtain ⟨rfl, rfl, state₂⟩ := lexed
          have less₂ := lexDoctype_shorter attributes
          rw [attributes] at same
          exact later t₂ _ rfl state₂ (by omega) same
        next none_ =>
          obtain ⟨rfl, state₂⟩ := lexed
          rw [none_] at same
          exact ensures_pure.mpr (rejected same t₂ state₂)
    | _ =>
      obtain ⟨tag, behind, begins, same, less⟩ := ahead
      cases begins

theorem exact_processDocument (bytes : Bytes) (enough : bytes.length + 2 < fuel) :
    Ensures (Text.exact source) (fun check => Hazardous check ∧ hazard source [] bytes = true)
      (processDocument fuel) { rest := bytes } (Harmless source [] bytes) := by
  have reads (line : UInt32) : Ensures (Text.exact source) (fun check => Hazardous check ∧ hazard source [] bytes = true)
      (processElementNested fuel ((Node.new none).setLocation line) false) { rest := bytes }
      (Harmless source [] bytes) := by
    have opened : Open ((Node.new none).setLocation line) false [] [] := .root
    have whole := @exact_process source (bytes.length + 1) _ _ _ _ _ { rest := bytes } opened rfl
      (Nat.lt_succ_self _) enough (by simp)
    refine (ensures_bind.mp whole).weaken fun result t after => ?_
    cases result with
    | none => exact after
    | some root => exact after
  apply ensures_bind.mpr
  apply ensures_perform.mpr
  cases source <;> exact reads _

/-- Reading ends with a tree or with an error that is reported. -/
def Terminates {σ : Type} (outcome : Except Stop (Option Node × Xr σ)) : Prop :=
  ∃ result xr, outcome = .ok (result, xr) ∧ (result = none → xr.state = .error)

theorem ends_simulated {σ : Type} {handle : Program.Handler Op Op.Answer Stop (Xr σ)}
    {related : Text → Xr σ → Prop} {bytes : Bytes} {xr : Xr σ}
    (simulates : Simulates (Text.exact source) handle related Check.image)
    (states : ∀ text xr, related text xr → xr.state = text.state)
    (start : related { rest := bytes } xr) (enough : bytes.length + 2 < fuel) :
    Terminates (run handle (processDocument fuel) xr) ↔ hazard source [] bytes = false := by
  have exact_ := @exact_processDocument source _ bytes enough
  cases ran : run (Text.exact source) (processDocument fuel) { rest := bytes } with
  | ok done =>
    obtain ⟨result, text⟩ := done
    obtain ⟨harmless, reported⟩ := exact_.ok ran
    obtain ⟨xr', same, final⟩ := simulates.ok _ start ran
    exact iff_of_true ⟨result, xr', same, fun none_ => (states _ _ final).trans (reported none_)⟩ harmless
  | error check =>
    obtain ⟨hazardous, ahead⟩ := exact_.error ran
    obtain ⟨reason, rfl⟩ : ∃ reason, check = .stop reason := by
      rcases hazardous with rfl | rfl <;> exact ⟨_, rfl⟩
    have stopped := simulates.error _ start ran rfl
    refine iff_of_false ?_ (by simp [ahead])
    rintro ⟨result, xr', same, -⟩
    cases stopped.symm.trans same

def EndsFile (bytes : Bytes) : Prop :=
  Terminates (run FileInput.handle (processDocument (fuelFor bytes.length)) (FileInput.reader bytes))

def EndsBuffer (bytes : Bytes) : Prop :=
  Terminates (run BufferInput.handle (processDocument (fuelFor bytes.length)) (BufferInput.reader bytes))

/-- Reading a file or a buffer ends as it should if and only if no hazard is in what is seen of it. -/
theorem ends_iff (bytes : Bytes) :
    (EndsFile bytes ↔ hazard .file [] (FileInput.seen bytes) = false) ∧
      (EndsBuffer bytes ↔ hazard .buffer [] bytes = false) := by
  have enough : bytes.length + 2 < fuelFor bytes.length := by simp [fuelFor]
  have seen := FileInput.seen_length bytes
  constructor
  · exact ends_simulated FileInput.exact_simulates (fun _ _ shows => shows.state)
      (FileInput.shows_file bytes) (by omega)
  · exact ends_simulated BufferInput.exact_simulates (fun _ _ reads => reads.state)
      (BufferInput.reads_reader bytes) enough

/-- An entity without a name. -/
theorem ends_nameless : ¬ ∀ bytes, EndsFile bytes ∧ EndsBuffer bytes := by
  intro ends
  obtain ⟨⟨result, xr, same, -⟩, -⟩ := ends (ascii "&;".toList)
  have stopped : (run FileInput.handle (processDocument 6)
      (FileInput.reader (ascii "&;".toList))).isOk = false := by decide +kernel
  rw [show (6 : Nat) = fuelFor (ascii "&;".toList).length by decide, same] at stopped
  cases stopped

end Testbus.Xml
