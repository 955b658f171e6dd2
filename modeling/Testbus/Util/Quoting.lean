import Testbus.Util.Quote

namespace Testbus.Util

variable {tokens : List CString}

section Joining

variable {sepa : CString} {string : CString}

theorem quoted_escaped (string : CString) : Quoted (string.flatMap quoteByte) string := by
  induction string with
  | nil => exact .nil
  | cons cc string ih =>
    rw [List.flatMap_cons, quoteByte]
    by_cases special : cc = 34 ∨ cc = 39 ∨ cc = 92
    · rw [if_pos special]
      exact .escape ih
    · rw [if_neg special]
      exact .byte ⟨fun same => special (.inl same), fun same => special (.inr (.inr same))⟩ ih

theorem word_bare (bare : ∀ cc ∈ string, separates sepa cc = false ∧ cc ≠ 34 ∧ cc ≠ 39) :
    Word sepa string string := by
  induction string with
  | nil => exact .nil
  | cons cc string ih =>
    obtain ⟨inside, plain⟩ := bare cc List.mem_cons_self
    exact .byte inside plain (ih fun cc mem => bare cc (List.mem_cons_of_mem _ mem))

theorem strcspn_le (string reject : CString) : strcspn string reject ≤ string.length :=
  (List.takeWhile_prefix _).length_le

theorem not_mem_of_strcspn (string reject : CString) (whole : strcspn string reject = string.length) :
    ∀ cc ∈ string, cc ∉ reject := by
  have same := (List.takeWhile_prefix (fun cc => decide (cc ∉ reject))).eq_of_length whole
  intro cc mem
  exact of_decide_eq_true (List.takeWhile_eq_self_iff.mp same cc mem)

theorem strcspn_of_not_mem (string reject : CString) (none_ : ∀ cc ∈ string, cc ∉ reject) :
    strcspn string reject = string.length := by
  rw [strcspn, List.takeWhile_eq_self_iff.mpr fun cc mem => decide_eq_true (none_ cc mem)]

theorem niQuote_cases (string sepa : CString) :
    niQuote string (some sepa) = string ∧ (∀ cc ∈ string, cc ∉ sepa ∧ cc ≠ 34 ∧ cc ≠ 39) ∧ string.length < 2 ^ 32 ∨
      niQuote string (some sepa) = 34 :: string.flatMap quoteByte ++ [34] ∧
        ((∀ cc ∈ string, cc ∉ sepa ∧ cc ≠ 34 ∧ cc ≠ 39) → 2 ^ 32 ≤ string.length) := by
  have most := strcspn_le string sepa
  have most' := strcspn_le string [34, 39]
  rw [niQuote]
  by_cases plain : strcspn string sepa % 2 ^ 32 = strcspn string [34, 39] % 2 ^ 32 ∧
      string[strcspn string [34, 39] % 2 ^ 32]? = none
  · have past := List.getElem?_eq_none_iff.mp plain.2
    refine .inl ⟨if_pos plain, fun cc mem => ⟨?_, ?_⟩, by omega⟩
    · exact not_mem_of_strcspn string sepa (by omega) cc mem
    · have other := not_mem_of_strcspn string [34, 39] (by omega) cc mem
      simpa using other
  · refine .inr ⟨if_neg plain, fun bare => ?_⟩
    have whole := strcspn_of_not_mem string sepa fun cc mem => (bare cc mem).1
    have whole' := strcspn_of_not_mem string [34, 39] fun cc mem => by
      simpa using (bare cc mem).2
    by_contra short
    have place : strcspn string [34, 39] % 2 ^ 32 = string.length := by
      rw [whole', Nat.mod_eq_of_lt (Nat.not_le.mp short)]
    exact plain ⟨by rw [whole, whole'], List.getElem?_eq_none_iff.mpr (Nat.le_of_eq place.symm)⟩

/-- What is read back of a string: its backslashes twice, if it was quoted for its length alone
and the quotes are taken as separators. -/
def readBack (sepa string : CString) : CString :=
  if 34 ∈ sepa ∧ 2 ^ 32 ≤ string.length then string.flatMap quoteByte else string

theorem separates_some : separates (some sepa) cc = true ↔ cc ∈ sepa := decide_eq_true_iff

theorem separates_none : separates (some sepa) cc = false ↔ cc ∉ sepa := decide_eq_false_iff_not

theorem flatMap_bare (bare : ∀ cc ∈ string, cc ≠ 34 ∧ cc ≠ 39 ∧ cc ≠ 92) : string.flatMap quoteByte = string := by
  induction string with
  | nil => rfl
  | cons cc string ih =>
    obtain ⟨one, two, three⟩ := bare cc List.mem_cons_self
    rw [List.flatMap_cons, ih fun cc mem => bare cc (List.mem_cons_of_mem _ mem), quoteByte,
      if_neg (by simp [one, two, three])]
    rfl

theorem length_flatMap_quoteByte (string : CString) :
    (string.flatMap quoteByte).length = string.length + string.countP fun cc => cc = 34 ∨ cc = 39 ∨ cc = 92 := by
  induction string with
  | nil => rfl
  | cons cc string ih =>
    rw [List.flatMap_cons, List.length_append, ih, List.countP_cons, List.length_cons, quoteByte]
    by_cases special : cc = 34 ∨ cc = 39 ∨ cc = 92
    · rw [if_pos special, if_pos (decide_eq_true special), List.length_cons, List.length_singleton]
      omega
    · rw [if_neg special, if_neg (by rwa [decide_eq_true_iff]), List.length_singleton]
      omega

theorem readBack_ne_nil (some_ : string ≠ []) : readBack sepa string ≠ [] := by
  rw [readBack]
  split
  · intro empty
    have length := length_flatMap_quoteByte string
    rw [empty, List.length_nil] at length
    exact some_ (List.eq_nil_of_length_eq_zero (by omega))
  · exact some_

theorem readBack_eq_iff (bare : Bare sepa string) :
    readBack sepa string = string ↔ (34 ∈ sepa → 92 ∈ string → string.length < 2 ^ 32) := by
  rw [readBack]
  by_cases long : 34 ∈ sepa ∧ 2 ^ 32 ≤ string.length
  · rw [if_pos long]
    constructor
    · intro same _ backslash
      have length := length_flatMap_quoteByte string
      have counted := List.countP_pos_iff (p := fun cc : UInt8 =>
        decide (cc = 34 ∨ cc = 39 ∨ cc = 92)).mpr ⟨92, backslash, by decide⟩
      rw [same] at length
      omega
    · intro short
      refine flatMap_bare fun cc mem => ⟨?_, (bare long.1 cc mem).2, ?_⟩
      · rintro rfl
        exact (bare long.1 34 mem).1 long.1
      · rintro rfl
        exact absurd (short long.1 mem) (Nat.not_lt.mpr long.2)
  · rw [if_neg long]
    refine iff_of_true rfl fun quote _ => ?_
    exact Nat.not_le.mp fun le => long ⟨quote, le⟩

/-- The form of a string is a word for what is read back of it, between separators. -/
theorem niQuote_word (bare : Bare sepa string) :
    ∃ before text after, niQuote string (some sepa) = before ++ text ++ after ∧
      Word (some sepa) text (readBack sepa string) ∧ (∀ cc ∈ before, cc ∈ sepa) ∧ ∀ cc ∈ after, cc ∈ sepa := by
  rcases niQuote_cases string sepa with ⟨plain, each, short⟩ | ⟨quoted, long⟩
  · refine ⟨[], string, [], by rw [plain]; simp, ?_, nofun, nofun⟩
    rw [readBack, if_neg fun both => Nat.not_le.mpr short both.2]
    exact word_bare fun cc mem => ⟨separates_none.mpr (each cc mem).1, (each cc mem).2⟩
  · by_cases quote : 34 ∈ sepa
    · have each : ∀ cc ∈ string, cc ∉ sepa ∧ cc ≠ 34 ∧ cc ≠ 39 := by
        intro cc mem
        obtain ⟨inside, other⟩ := bare quote cc mem
        exact ⟨inside, fun same => inside (same ▸ quote), other⟩
      have long' := long each
      refine ⟨[34], string.flatMap quoteByte, [34], by rw [quoted]; rfl, ?_, ?_, ?_⟩
      · rw [readBack, if_pos ⟨quote, long'⟩]
        refine word_bare fun cc mem => ?_
        obtain ⟨source, mem, made⟩ := List.mem_flatMap.mp mem
        obtain ⟨inside, plain⟩ := each source mem
        have same : cc = source := by
          rw [quoteByte] at made
          split at made
          · rename_i special
            rw [(special.resolve_left plain.1).resolve_left plain.2] at made ⊢
            simpa using made
          · exact List.mem_singleton.mp made
        rw [same]
        exact ⟨separates_none.mpr inside, plain⟩
      · intro cc mem
        rwa [List.mem_singleton.mp mem]
      · intro cc mem
        rwa [List.mem_singleton.mp mem]
    · refine ⟨[], _, [], by rw [List.nil_append, List.append_nil], ?_, nofun, nofun⟩
      have word := Word.double (separates_none.mpr quote) (quoted_escaped string) .nil
      rw [List.append_nil] at word
      rw [quoted, readBack, if_neg fun both => quote both.1]
      exact word

theorem Word.head (word : Word sepa (cc :: text) value) : separates sepa cc = false := by
  cases word with
  | byte inside | double inside | single inside => exact inside

theorem skip_separators (leads : ∀ cc ∈ lead, cc ∈ sepa) (src : CString) :
    skipSeparators (some sepa) (lead ++ src) = skipSeparators (some sepa) src :=
  List.dropWhile_append_of_pos fun cc mem => separates_some.mpr (leads cc mem)

/-- A call reads one form back, and leaves separators in front of the next one. -/
theorem unquote_form (some_ : string ≠ []) (bare : Bare sepa string) (leads : ∀ cc ∈ lead, cc ∈ sepa) (ends_ : Ends (some sepa) behind) :
    ∃ left, niUnquote (lead ++ (niQuote string (some sepa) ++ behind)) (some sepa) =
      (some (readBack sepa string), left ++ behind.tail) ∧ ∀ cc ∈ left, cc ∈ sepa := by
  obtain ⟨before, text, after, form, word, separators, separators'⟩ := niQuote_word bare
  have skipped : skipSeparators (some sepa) (lead ++ (niQuote string (some sepa) ++ behind)) =
      text ++ (after ++ behind) := by
    rw [skip_separators leads, form, List.append_assoc, List.append_assoc, skip_separators separators]
    cases text with
    | nil => exact absurd (word.of_nil rfl) (readBack_ne_nil some_)
    | cons cc text =>
      exact List.dropWhile_cons_of_neg (by rw [word.head]; exact Bool.false_ne_true)
  have ends' : Ends (some sepa) (after ++ behind) := by
    cases after with
    | nil => exact ends_
    | cons cc after =>
      intro cc' head
      cases head
      exact separates_some.mpr (separators' cc List.mem_cons_self)
  have found : niUnquote (lead ++ (niQuote string (some sepa) ++ behind)) (some sepa) =
      (some (readBack sepa string), (after ++ behind).tail) := by
    rw [niUnquote, skipped, loop_token word ends']
    exact congrArg (·, (after ++ behind).tail) (if_neg (readBack_ne_nil some_))
  cases after with
  | nil => exact ⟨[], found, by simp⟩
  | cons cc after =>
    have kept : ∀ cc ∈ after, cc ∈ sepa := fun cc mem => separators' cc (List.mem_cons_of_mem _ mem)
    cases behind with
    | nil => exact ⟨after, found, kept⟩
    | cons separator behind =>
      refine ⟨after ++ [separator], by rw [found, List.append_assoc]; rfl, fun cc mem => ?_⟩
      rcases List.mem_append.mp mem with early | last
      · exact kept cc early
      · rw [List.mem_singleton.mp last]
        exact separates_some.mp (ends_ separator rfl)

theorem tokens_separators (leads : ∀ cc ∈ lead, cc ∈ sepa) : Tokens (some sepa) lead [] := by
  have skipped := skip_separators leads []
  rw [List.append_nil] at skipped
  exact .done (by rw [niUnquote, skipped]; rfl)

theorem tokens_joined (member : c ∈ sepa) (strings : List CString)
    (good : ∀ string ∈ strings, string ≠ [] ∧ Bare sepa string) (lead : CString) (leads : ∀ cc ∈ lead, cc ∈ sepa) :
    Tokens (some sepa) (lead ++ joined c (strings.map (niQuote · (some sepa)))) (strings.map (readBack sepa)) := by
  induction strings generalizing lead with
  | nil =>
    rw [List.map_nil, joined, List.append_nil]
    exact tokens_separators leads
  | cons string strings ih =>
    obtain ⟨some_, bare⟩ := good string List.mem_cons_self
    have later := ih fun other mem => good other (List.mem_cons_of_mem _ mem)
    cases strings with
    | nil =>
      have none_ : Ends (some sepa) [] := nofun
      obtain ⟨left, found, lefts⟩ := unquote_form some_ bare leads none_
      rw [List.append_nil] at found
      refine .token found ?_
      rw [List.tail_nil, List.append_nil]
      exact tokens_separators lefts
    | cons next strings =>
      have ends_ : Ends (some sepa) (c :: joined c ((next :: strings).map (niQuote · (some sepa)))) := by
        intro cc head
        cases head
        exact separates_some.mpr member
      obtain ⟨left, found, lefts⟩ := unquote_form some_ bare leads ends_
      exact .token found (later left lefts)

theorem Tokens.unique (read : Tokens sepa string tokens) (read' : Tokens sepa string others) : tokens = others := by
  induction read generalizing others with
  | done null =>
    cases read' with
    | done => rfl
    | token found => rw [found] at null; cases null
  | token found _ ih =>
    cases read' with
    | done null => rw [found] at null; cases null
    | token found' later' =>
      obtain ⟨same, rfl⟩ := Prod.mk.inj (found.symm.trans found')
      cases same
      rw [ih later']

theorem unquote_some {sepa : Option CString} {token rest : CString} (found : niUnquote string sepa = (some token, rest)) :
    unquoteLoop sepa .outside (skipSeparators sepa string) [] = some (token, rest) ∧ token ≠ [] := by
  rw [niUnquote] at found
  cases looped : unquoteLoop sepa .outside (skipSeparators sepa string) [] with
  | none =>
    simp only [looped] at found
    cases found
  | some read =>
    obtain ⟨buf, src⟩ := read
    simp only [looped] at found
    by_cases empty : buf = []
    · rw [if_pos empty] at found
      cases found
    · rw [if_neg empty] at found
      cases found
      exact ⟨rfl, empty⟩

theorem Tokens.ne_nil (read : Tokens sepa string tokens) : ∀ token ∈ tokens, token ≠ [] := by
  induction read with
  | done => nofun
  | token found _ ih => exact List.forall_mem_cons.mpr ⟨(unquote_some found).2, ih⟩

end Joining

section Separators

variable {sepa : Option CString} {src rest : CString}

/-- Where the double quote is a separator, no single quote is put. -/
theorem loop_no_single (quote : separates sepa 34 = true) {quoting : Quoting}
    (mode : quoting = .outside ∨ quoting = .single) (fresh : 39 ∉ buf)
    (looped : unquoteLoop sepa quoting src buf = some (buf', rest)) : 39 ∉ buf' := by
  induction src generalizing quoting buf with
  | nil =>
    rcases mode with rfl | rfl
    · cases looped
      exact fresh
    · cases looped
  | cons cc src ih =>
    have put : cc ≠ 39 → 39 ∉ buf ++ [cc] := by
      intro other mem
      rcases List.mem_append.mp mem with early | last
      · exact fresh early
      · exact other (List.mem_singleton.mp last).symm
    rcases mode with rfl | rfl
    · by_cases ends_ : separates sepa cc = true
      · rw [loop_separator ends_] at looped
        cases looped
        exact fresh
      · have inside : separates sepa cc = false := Bool.not_eq_true _ ▸ ends_
        have other : cc ≠ 34 := fun same => ends_ (same ▸ quote)
        by_cases single : cc = 39
        · subst cc
          rw [loop_single inside] at looped
          exact ih (.inr rfl) fresh looped
        · rw [loop_byte inside ⟨other, single⟩] at looped
          exact ih (.inl rfl) (put single) looped
    · rw [unquoteLoop] at looped
      by_cases closes : cc = 39
      · rw [if_pos closes] at looped
        exact ih (.inl rfl) fresh looped
      · rw [if_neg closes] at looped
        exact ih (.inr rfl) (put closes) looped

/-- Where both quotes are separators, or there is no single quote, no separator is put. -/
theorem loop_no_separator (quote : separates sepa 34 = true) (single : 39 ∈ src → separates sepa 39 = true)
    (fresh : ∀ cc ∈ buf, separates sepa cc = false) (looped : unquoteLoop sepa .outside src buf = some (buf', rest)) :
    ∀ cc ∈ buf', separates sepa cc = false := by
  induction src generalizing buf with
  | nil =>
    cases looped
    exact fresh
  | cons cc src ih =>
    by_cases ends_ : separates sepa cc = true
    · rw [loop_separator ends_] at looped
      cases looped
      exact fresh
    · have inside : separates sepa cc = false := Bool.not_eq_true _ ▸ ends_
      have plain : cc ≠ 34 ∧ cc ≠ 39 := by
        refine ⟨fun same => ends_ (same ▸ quote), ?_⟩
        rintro rfl
        exact ends_ (single List.mem_cons_self)
      rw [loop_byte inside plain] at looped
      refine ih (fun mem => single (List.mem_cons_of_mem _ mem)) (fun other mem => ?_) looped
      rcases List.mem_append.mp mem with early | last
      · exact fresh other early
      · rwa [List.mem_singleton.mp last]

theorem Tokens.no_single (quote : separates sepa 34 = true) (read : Tokens sepa string tokens) :
    ∀ token ∈ tokens, 39 ∉ token := by
  induction read with
  | done => nofun
  | token found _ ih =>
    exact List.forall_mem_cons.mpr ⟨loop_no_single quote (.inl rfl) List.not_mem_nil (unquote_some found).1, ih⟩

theorem Tokens.no_separator (quote : separates sepa 34 = true) (single : 39 ∈ string → separates sepa 39 = true)
    (read : Tokens sepa string tokens) : ∀ token ∈ tokens, ∀ cc ∈ token, separates sepa cc = false := by
  induction read with
  | done => nofun
  | @token string token rest tokens found _ ih =>
    have left := unquote_suffix string sepa
    rw [found] at left
    refine List.forall_mem_cons.mpr ⟨?_, ih fun mem => single (left.subset mem)⟩
    exact loop_no_separator quote (fun mem => single ((List.dropWhile_suffix _).subset mem)) (List.forall_mem_nil _)
      (unquote_some found).1

end Separators

section Quoting

variable {sepa : CString}

theorem mem_joined (mem : cc ∈ joined c forms) : cc = c ∨ ∃ form ∈ forms, cc ∈ form := by
  induction forms with
  | nil => cases mem
  | cons form forms ih =>
    cases forms with
    | nil => exact .inr ⟨form, List.mem_singleton_self form, mem⟩
    | cons next forms =>
      rcases List.mem_append.mp mem with here | behind
      · exact .inr ⟨form, List.mem_cons_self, here⟩
      · rcases List.mem_cons.mp behind with same | later
        · exact .inl same
        · refine (ih later).imp_right ?_
          rintro ⟨other, mem, inside⟩
          exact ⟨other, List.mem_cons_of_mem _ mem, inside⟩

theorem single_mem_niQuote (mem : 39 ∈ niQuote string (some sepa)) : 39 ∈ string := by
  rcases niQuote_cases string sepa with ⟨plain, -⟩ | ⟨quoted, -⟩
  · rwa [plain] at mem
  · rw [quoted] at mem
    rcases List.mem_append.mp mem with front | last
    · have body := (List.mem_cons.mp front).resolve_left (by decide)
      obtain ⟨source, mem, made⟩ := List.mem_flatMap.mp body
      have same : 39 = source := by
        rw [quoteByte] at made
        split at made
        · simpa using made
        · exact List.mem_singleton.mp made
      rwa [same]
    · exact absurd (List.mem_singleton.mp last) (by decide)

/-- What is read back tells what it was. -/
theorem RoundTrips.bare (member : c ∈ sepa) (read : RoundTrips sepa c strings) :
    ∀ string ∈ strings, Bare sepa string := by
  intro string mem quote cc inside
  have quote' := separates_some.mpr quote
  have none_ := Tokens.no_single quote' read
  have single : 39 ∈ joined c (strings.map (niQuote · (some sepa))) → separates (some sepa) 39 = true := by
    intro mem
    rcases mem_joined mem with rfl | ⟨form, mem, inside⟩
    · exact separates_some.mpr member
    · obtain ⟨source, origin, rfl⟩ := List.mem_map.mp mem
      exact absurd (single_mem_niQuote inside) (none_ source origin)
  refine ⟨separates_none.mp (Tokens.no_separator quote' single read string mem cc inside), ?_⟩
  rintro rfl
  exact none_ string mem inside

theorem roundTrips_iff_restorable (member : c ∈ sepa) (strings : List CString) :
    RoundTrips sepa c strings ↔ ∀ string ∈ strings, Restorable sepa string := by
  have same_iff : (∀ string ∈ strings, string ≠ [] ∧ Bare sepa string) →
      (RoundTrips sepa c strings ↔ ∀ string ∈ strings, readBack sepa string = string) := by
    intro good
    have read := tokens_joined member strings good [] nofun
    have whole := List.map_inj_left (f := readBack sepa) (g := id) (l := strings)
    rw [List.map_id] at whole
    constructor
    · intro trips
      exact whole.mp (read.unique trips)
    · intro same
      rw [whole.mpr same] at read
      exact read
  constructor
  · intro trips string mem
    have good : ∀ string ∈ strings, string ≠ [] ∧ Bare sepa string := fun string mem =>
      ⟨trips.ne_nil string mem, trips.bare member string mem⟩
    obtain ⟨some_, bare⟩ := good string mem
    exact ⟨some_, bare, (readBack_eq_iff bare).mp ((same_iff good).mp trips string mem)⟩
  · intro restorable
    refine (same_iff fun string mem => ⟨(restorable string mem).1, (restorable string mem).2.1⟩).mpr fun string mem => ?_
    obtain ⟨-, bare, short⟩ := restorable string mem
    exact (readBack_eq_iff bare).mpr short

/-- Quoted strings are read back exactly if they are restorable, and a call on any string answers
as it should exactly if it does not find an empty token. -/
theorem quoting_iff (member : c ∈ sepa) (strings : List CString) (sepa' : Option CString)
    (string : CString) :
    (RoundTrips sepa c strings ↔ ∀ string ∈ strings, Restorable sepa string) ∧
      (Answers sepa' string ↔ ¬ Hollow sepa' (skipSeparators sepa' string)) :=
  ⟨roundTrips_iff_restorable member strings, answers_iff sepa' string⟩

theorem quoting_restored :
    (RoundTrips [32] 32 [[97, 32], [39]] ↔
        ∀ string ∈ [[97, 32], [39]], Restorable [32] string) ∧
      (Answers (some [32]) [97, 32] ↔ ¬ Hollow (some [32]) (skipSeparators (some [32]) [97, 32])) :=
  quoting_iff (List.mem_singleton_self 32) _ _ _

/-- An empty string between two others is lost. -/
theorem not_roundTrips_empty : ¬ RoundTrips [32] 32 [[97], [], [98]] := by
  intro trips
  exact trips.ne_nil [] (by decide) rfl

end Quoting

end Testbus.Util
