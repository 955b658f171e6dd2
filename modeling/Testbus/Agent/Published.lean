import Testbus.Agent.Lines

namespace Testbus.Publish

open Util

section Grammar

variable {text token rest extra value : CString} {names names' : List CString}
  {entries entries' : List Entry}

theorem Comment.append (comment : Comment text) (extra : CString) : Comment (text ++ extra) := by
  obtain ⟨blanks, rest, blank, rfl⟩ := comment
  exact ⟨blanks, rest ++ extra, blank, by rw [List.append_assoc, List.cons_append]⟩

theorem Comment.ne_nil (comment : Comment text) : text ≠ [] := by
  obtain ⟨blanks, rest, -, rfl⟩ := comment
  exact List.append_ne_nil_of_right_ne_nil _ (List.cons_ne_nil _ _)

theorem Begins.append (begins : Begins text token rest) (more : rest ≠ []) (extra : CString) :
    Begins (text ++ extra) token (rest ++ extra) := by
  obtain ⟨some_, noComment, solid, blanks, blank, ⟨-, empty⟩ | ⟨c, space, rfl⟩⟩ := begins
  · exact absurd empty more
  · refine ⟨some_, noComment, solid, blanks, blank, .inr ⟨c, space, ?_⟩⟩
    rw [List.append_assoc, List.cons_append]

theorem Begins.ne_nil (begins : Begins text token rest) : text ≠ [] := by
  rintro rfl
  exact begins.not_trailing (.inl nofun)

theorem Value.append (valued : Value text value rest) (more : rest ≠ []) (extra : CString) :
    Value (text ++ extra) value (rest ++ extra) := by
  obtain ⟨lead, word, behind, rfl, leads, some_, noComment, isWord, ends_, rfl⟩ := valued
  cases behind with
  | nil => exact absurd rfl more
  | cons c behind =>
    refine ⟨lead, word, c :: behind ++ extra, ?_, leads, some_, noComment, isWord, ends_, rfl⟩
    rw [List.append_assoc, List.append_assoc]

theorem Value.ne_nil (valued : Value text value rest) : text ≠ [] := by
  obtain ⟨lead, word, behind, rfl, -, some_, -⟩ := valued
  exact List.append_ne_nil_of_right_ne_nil _ (List.append_ne_nil_of_left_ne_nil some_ _)

theorem Names.ne_nil (named : Names Comment text names) : text ≠ [] := by
  cases named with
  | closes comment => exact comment.ne_nil
  | name begins _ => exact begins.ne_nil

theorem Names.append (named : Names Comment text names) (extra : CString) : Names Comment (text ++ extra) names := by
  induction named with
  | closes comment => exact .closes (comment.append extra)
  | name begins later ih => exact .name (begins.append later.ne_nil extra) ih

theorem Names.trailing (named : Names Comment text names) : Names Trailing text names := by
  induction named with
  | closes comment => exact .closes (.inr comment)
  | name begins _ ih => exact .name begins ih

theorem stands_append (line : Line Comment Usable text entries) (extra : CString) : Stands (text ++ extra) entries := by
  cases line with
  | nothing comment => exact .nothing (.inr (comment.append extra))
  | capability begins named some_ =>
    exact .capability (begins.append named.ne_nil extra) (named.append extra).trailing some_
  | setenv begins named valued _ comment =>
    have valued' := valued.append comment.ne_nil extra
    have named' := named.append valued.ne_nil extra
    exact .setenv (begins.append named.ne_nil extra) named' valued' trivial (.inr (comment.append extra))

theorem Names.unique (named : Names Trailing text names) (named' : Names Trailing text names') : names = names' := by
  induction named generalizing names' with
  | closes trailing =>
    cases named' with
    | closes => rfl
    | name begins => exact absurd trailing begins.not_trailing
  | name begins _ ih =>
    cases named' with
    | closes trailing => exact absurd trailing begins.not_trailing
    | name begins' later' =>
      obtain ⟨rfl, rfl⟩ := begins.unique begins'
      rw [ih later']

theorem Stands.unique (line : Stands text entries) (line' : Stands text entries') : entries = entries' := by
  cases line with
  | nothing trailing =>
    cases line' with
    | nothing => rfl
    | capability begins => exact absurd trailing begins.not_trailing
    | setenv begins => exact absurd trailing begins.not_trailing
  | capability begins named =>
    cases line' with
    | nothing trailing => exact absurd trailing begins.not_trailing
    | capability begins' named' =>
      obtain ⟨-, rfl⟩ := begins.unique begins'
      rw [named.unique named']
    | setenv begins' => exact absurd (begins.unique begins').1 capability_ne_setenv
  | setenv begins named valued =>
    cases line' with
    | nothing trailing => exact absurd trailing begins.not_trailing
    | capability begins' => exact absurd (begins'.unique begins).1 capability_ne_setenv
    | setenv begins' named' valued' =>
      obtain ⟨-, rfl⟩ := begins.unique begins'
      obtain ⟨rfl, rfl⟩ := named.unique named'
      obtain ⟨rfl, -⟩ := valued.unique valued'
      rfl

theorem not_stands_nameless (nameless : Nameless Comment text) (extra : CString) : ¬ Stands (text ++ extra) entries := by
  obtain ⟨rest, begins, comment⟩ := nameless
  have begins' := begins.append comment.ne_nil extra
  intro line
  cases line with
  | nothing trailing => exact begins'.not_trailing trailing
  | capability begins'' named some_ =>
    obtain ⟨-, rfl⟩ := begins'.unique begins''
    cases named with
    | closes => exact some_ rfl
    | name begins => exact begins.not_trailing (.inr (comment.append extra))
  | setenv begins'' => exact capability_ne_setenv (begins'.unique begins'').1

end Grammar

section Pieces

variable {body rest file : Bytes}

theorem pieces_cons (more : file ≠ []) : pieces file = (fgets room file).1 :: pieces (fgets room file).2 := by
  rw [pieces, dif_neg more]

theorem fgets_newline (n : Nat) (plain : 10 ∉ body) (rest : Bytes) :
    fgets n (body ++ 10 :: rest) =
      if body.length < n then (body ++ [10], rest)
      else (body.take n, body.drop n ++ 10 :: rest) := by
  induction n generalizing body with
  | zero => rfl
  | succ n ih =>
    cases body with
    | nil => rfl
    | cons c body =>
      obtain ⟨other, plain⟩ := not_or.mp (List.mem_cons.not.mp plain)
      rw [List.cons_append, fgets, if_neg (Ne.symm other), ih plain]
      by_cases short : body.length < n
      · rw [if_pos short, if_pos (by rw [List.length_cons]; omega)]
        rfl
      · rw [if_neg short, if_neg (by rw [List.length_cons]; omega)]
        rfl

theorem pieces_line (plain : 10 ∉ body) (rest : Bytes) :
    pieces (body ++ 10 :: rest) = pieces (body ++ [10]) ++ pieces rest := by
  induction length : body.length using Nat.strongRecOn generalizing body with
  | ind n ih =>
    have some_ : ∀ rest : Bytes, body ++ 10 :: rest ≠ [] := fun _ =>
      List.append_ne_nil_of_right_ne_nil _ (List.cons_ne_nil _ _)
    rw [pieces_cons (some_ rest), pieces_cons (some_ []), fgets_newline _ plain, fgets_newline _ plain]
    by_cases short : body.length < room
    · rw [if_pos short, if_pos short]
      have nothing : pieces [] = [] := by rw [pieces, dif_pos rfl]
      rw [nothing]
      rfl
    · rw [if_neg short, if_neg short]
      have dropped : (body.drop room).length < n := by
        rw [List.length_drop]
        have positive : 0 < room := by decide
        omega
      have later := ih _ dropped (fun mem => plain (List.mem_of_mem_drop mem)) rfl
      exact congrArg (_ :: ·) later

theorem lines_newline (plain : 10 ∉ body) (rest : Bytes) : lines (body ++ 10 :: rest) = (body ++ [10]) :: lines rest := by
  induction body with
  | nil => rfl
  | cons c body ih =>
    obtain ⟨other, plain⟩ := not_or.mp (List.mem_cons.not.mp plain)
    rw [List.cons_append, lines, if_neg (Ne.symm other), ih plain]
    rfl

theorem lines_last (plain : 10 ∉ body) (some_ : body ≠ []) : lines body = [body] := by
  induction body with
  | nil => exact absurd rfl some_
  | cons c body ih =>
    obtain ⟨other, plain⟩ := not_or.mp (List.mem_cons.not.mp plain)
    rw [lines, if_neg (Ne.symm other)]
    cases body with
    | nil => rfl
    | cons c' body => rw [ih plain (List.cons_ne_nil _ _)]

/-- The file is read line by line, each in its pieces. -/
theorem pieces_lines (file : Bytes) : pieces file = (lines file).flatMap pieces ∧ ∀ line ∈ lines file, line ≠ [] := by
  induction length : file.length using Nat.strongRecOn generalizing file with
  | ind n ih =>
    by_cases newline : 10 ∈ file
    · obtain ⟨body, rest, rfl, plain⟩ := List.eq_append_cons_of_mem newline
      rw [List.length_append, List.length_cons] at length
      obtain ⟨whole, some_⟩ := ih rest.length (by omega) rest rfl
      rw [lines_newline plain, pieces_line plain, List.flatMap_cons, whole]
      exact ⟨rfl, List.forall_mem_cons.mpr ⟨List.append_ne_nil_of_right_ne_nil _ (List.cons_ne_nil _ _), some_⟩⟩
    · by_cases empty : file = []
      · subst file
        rw [pieces, dif_pos rfl]
        exact ⟨rfl, nofun⟩
      · rw [lines_last newline empty, List.flatMap_singleton]
        exact ⟨rfl, List.forall_mem_cons.mpr ⟨empty, nofun⟩⟩

theorem pieces_first (some_ : line ≠ []) :
    ∃ first later extra, pieces line = first :: later ∧ line = cstr first ++ extra := by
  refine ⟨_, _, (fgets room line).1.dropWhile (· ≠ 0) ++ (fgets room line).2, pieces_cons some_, ?_⟩
  rw [← List.append_assoc, cstr, List.takeWhile_append_dropWhile, fgets_append]

end Pieces

section Runs

variable {file line : Bytes}

/-- What is recorded for a piece. -/
def recorded (buf : Bytes) : List Entry := (publishLine (cstr buf)).entries

theorem Accepted.publishLine (accepted : Accepted (cstr buf)) : publishLine (cstr buf) = { entries := recorded buf } := by
  rw [recorded]
  rcases accepted with ⟨entries, line⟩ | nameless
  · rw [publishLine_line line]
  · rw [publishLine_nameless nameless]

theorem publishLoop_accepted (accepted : ∀ buf ∈ bufs, Accepted (cstr buf)) (path : CString)
    (lineno : Nat) : publishLoop path lineno bufs = { entries := bufs.flatMap recorded } := by
  induction bufs generalizing lineno with
  | nil => rfl
  | cons buf bufs ih =>
    obtain ⟨here, later⟩ := List.forall_mem_cons.mp accepted
    rw [publishLoop, here.publishLine]
    dsimp only
    rw [ih later]
    rfl

theorem publishLoop_refused {before after : List Bytes} {bad : Bytes}
    (accepted : ∀ buf ∈ before, Accepted (cstr buf)) (refused : Refused (cstr bad)) (path : CString)
    (lineno : Nat) : (publishLoop path lineno (before ++ bad :: after)).fatal ≠ none ∧
      (publishLoop path lineno (before ++ bad :: after)).past = false := by
  induction before generalizing lineno with
  | nil =>
    obtain ⟨fatal, scanned⟩ := publishLine_refused refused
    rw [List.nil_append, publishLoop, scanned]
    exact ⟨nofun, rfl⟩
  | cons buf before ih =>
    obtain ⟨here, later⟩ := List.forall_mem_cons.mp accepted
    rw [List.cons_append, publishLoop, here.publishLine]
    exact ih later _

/-- A refused piece behind accepted ones. -/
def Stopped (bufs : List Bytes) : Prop :=
  ∃ before bad after, bufs = before ++ bad :: after ∧ (∀ buf ∈ before, Accepted (cstr buf)) ∧
    Refused (cstr bad)

theorem publishLoop_cases (bufs : List Bytes) (path : CString) (lineno : Nat) :
    (publishLoop path lineno bufs).past = true ∨ (∀ buf ∈ bufs, Accepted (cstr buf)) ∨
      Stopped bufs := by
  induction bufs generalizing lineno with
  | nil => exact .inr (.inl nofun)
  | cons buf bufs ih =>
    rcases publishLine_cases (cstr buf) with past | accepted | refused
    · left
      rw [publishLoop]
      dsimp only
      cases (publishLine (cstr buf)).fatal with
      | some fatal => exact past
      | none => rw [past, Bool.true_or]
    · rw [publishLoop, accepted.publishLine]
      rcases ih ((lineno + 1) % 2 ^ 32) with past | later | ⟨before, bad, after, rfl, each, refused⟩
      · exact .inl past
      · exact .inr (.inl (List.forall_mem_cons.mpr ⟨accepted, later⟩))
      · exact .inr (.inr ⟨buf :: before, bad, after, rfl, List.forall_mem_cons.mpr ⟨accepted, each⟩, refused⟩)
    · exact .inr (.inr ⟨[], buf, bufs, rfl, nofun, refused⟩)

/-- If each line records what it stands for or more, and all together record just that, then each
line does. -/
theorem recorded_exactly {Own : Bytes → List Entry → Prop} {recorded : Bytes → List Entry}
    (atLeast : ∀ line own, Own line own → ∃ more, recorded line = own ++ more) {lines : List Bytes}
    {entries : List (List Entry)} (each : List.Forall₂ Own lines entries)
    (exact_ : lines.flatMap recorded = entries.flatten) : ∀ line ∈ lines, ∃ own, Own line own ∧ recorded line = own := by
  have most : ∀ {lines : List Bytes} {entries : List (List Entry)}, List.Forall₂ Own lines entries →
      entries.flatten.length ≤ (lines.flatMap recorded).length := by
    intro lines entries each
    induction each with
    | nil => exact Nat.le_refl _
    | cons here _ ih =>
      obtain ⟨more, own⟩ := atLeast _ _ here
      rw [List.flatten_cons, List.flatMap_cons, own, List.length_append, List.length_append, List.length_append]
      omega
  induction each with
  | nil => exact nofun
  | @cons line own lines entries here later ih =>
    obtain ⟨more, recorded_⟩ := atLeast _ _ here
    have behind := most later
    have lengths := congrArg List.length exact_
    rw [List.flatten_cons, List.flatMap_cons, recorded_, List.length_append, List.length_append,
      List.length_append] at lengths
    have nothing : more = [] := List.eq_nil_of_length_eq_zero (by omega)
    subst nothing
    rw [List.append_nil] at recorded_
    rw [List.flatMap_cons, List.flatten_cons, recorded_] at exact_
    exact List.forall_mem_cons.mpr ⟨⟨own, here, recorded_⟩, ih (List.append_cancel_left exact_)⟩

theorem silent (quiet : Comment (cstr buf) ∨ Nameless Comment (cstr buf)) : Accepted (cstr buf) ∧ recorded buf = [] := by
  rw [recorded]
  rcases quiet with comment | nameless
  · rw [publishLine_line (.nothing comment)]
    exact ⟨.inl ⟨[], .nothing comment⟩, rfl⟩
  · rw [publishLine_nameless nameless]
    exact ⟨.inr nameless, rfl⟩

theorem silent_of (accepted : Accepted (cstr buf)) (nothing : recorded buf = []) :
    Comment (cstr buf) ∨ Nameless Comment (cstr buf) := by
  rcases accepted with ⟨entries, line⟩ | nameless
  · have empty := publishLine_line line
    rw [recorded, empty] at nothing
    subst nothing
    generalize same : ([] : List Entry) = entries at line
    cases line with
    | nothing comment => exact .inl comment
    | capability _ _ some_ => exact absurd (List.map_eq_nil_iff.mp same.symm) some_
    | setenv => cases same
  · exact .inr nameless

theorem Kept.recorded (kept : Kept line) :
    ∃ entries, Stands line entries ∧ (∀ piece ∈ pieces line, Accepted (cstr piece)) ∧
      (pieces line).flatMap recorded = entries := by
  obtain ⟨first, later, cut, ⟨entries, here⟩, quiet⟩ := kept
  have some_ : line ≠ [] := by
    rintro rfl
    rw [pieces, dif_pos rfl] at cut
    cases cut
  obtain ⟨first', later', extra, cut', whole⟩ := pieces_first some_
  obtain ⟨rfl, rfl⟩ := List.cons.inj (cut.symm.trans cut')
  refine ⟨entries, whole ▸ stands_append here extra, ?_, ?_⟩
  · rw [cut]
    exact List.forall_mem_cons.mpr ⟨.inl ⟨entries, here⟩, fun piece mem => (silent (quiet piece mem)).1⟩
  · have nothing : later.flatMap Publish.recorded = [] :=
      List.flatMap_eq_nil_iff.mpr fun piece mem => (silent (quiet piece mem)).2
    rw [cut, List.flatMap_cons, nothing, List.append_nil, Publish.recorded, publishLine_line here]

/-- The first piece of a line records all it stands for, if all pieces are accepted. -/
theorem recorded_stands (some_ : line ≠ []) {entries : List Entry} (stands : Stands line entries)
    (accepted : ∀ piece ∈ pieces line, Accepted (cstr piece)) :
    (∃ more, (pieces line).flatMap recorded = entries ++ more) ∧
      ((pieces line).flatMap recorded = entries → Kept line) := by
  obtain ⟨first, later, extra, cut, whole⟩ := pieces_first some_
  rw [cut] at accepted ⊢
  obtain ⟨here, behind⟩ := List.forall_mem_cons.mp accepted
  rcases here with ⟨entries', here⟩ | nameless
  · have stands' := stands_append here extra
    rw [← whole] at stands'
    obtain rfl := stands.unique stands'
    have own : recorded first = entries := by rw [recorded, publishLine_line here]
    rw [List.flatMap_cons, own]
    refine ⟨⟨_, rfl⟩, fun same => ⟨first, later, cut, ⟨entries, here⟩, fun piece mem => ?_⟩⟩
    have nothing := List.flatMap_eq_nil_iff.mp (List.append_right_eq_self.mp same) piece mem
    exact silent_of (behind piece mem) nothing
  · exact absurd (whole ▸ stands) (not_stands_nameless nameless extra)

/-- A file is read as it should be if each of its lines is kept, or if one of them is wrong and a
piece is refused behind pieces that are accepted. -/
theorem publishes_iff (path : CString) (file : Bytes) :
    Publishes path file ↔ (∀ line ∈ lines file, Kept line) ∨
      ((∃ line ∈ lines file, ∀ entries, ¬ Stands line entries) ∧ Stopped (pieces file)) := by
  obtain ⟨whole, some_⟩ := pieces_lines file
  constructor
  · rintro ⟨accepts, records, inside⟩
    rcases publishLoop_cases (pieces file) path 0 with past | accepted | stopped
    · exact absurd (inside.symm.trans past) Bool.false_ne_true
    · left
      have ran := publishLoop_accepted accepted path 0
      have fine : (publishFile path file).fatal = none := by rw [publishFile, ran]
      obtain ⟨entries, each, same⟩ := records fine
      have all : (lines file).flatMap (fun line => (pieces line).flatMap recorded) =
          entries.flatten := by
        rw [← same, publishFile, ran, whole, List.flatMap_assoc]
      have accepted' : ∀ line ∈ lines file, ∀ piece ∈ pieces line, Accepted (cstr piece) :=
        fun line mem piece mem' => accepted piece (whole ▸ List.mem_flatMap.mpr ⟨line, mem, mem'⟩)
      have each' := (List.forall₂_and_left _ _).mpr ⟨fun _ => id, each⟩
      have recorded_ := recorded_exactly (fun line own both =>
        (recorded_stands (some_ line both.1) both.2 (accepted' line both.1)).1) each' all
      intro line mem
      obtain ⟨own, ⟨-, stands⟩, same⟩ := recorded_ line mem
      exact (recorded_stands (some_ line mem) stands (accepted' line mem)).2 same
    · right
      have refused : (publishFile path file).fatal ≠ none := by
        obtain ⟨before, bad, after, cut, each, refused⟩ := stopped
        rw [publishFile, cut]
        exact (publishLoop_refused each refused path 0).1
      refine ⟨?_, stopped⟩
      by_contra right_
      refine refused (accepts.mpr fun line mem => ?_)
      by_contra wrong
      exact right_ ⟨line, mem, not_exists.mp wrong⟩
  · rintro (kept | ⟨⟨line, mem, wrong⟩, before, bad, after, cut, each, refused⟩)
    · have accepted : ∀ piece ∈ pieces file, Accepted (cstr piece) := by
        rw [whole]
        intro piece mem
        obtain ⟨line, mem, mem'⟩ := List.mem_flatMap.mp mem
        obtain ⟨-, -, accepted, -⟩ := (kept line mem).recorded
        exact accepted piece mem'
      have ran := publishLoop_accepted accepted path 0
      rw [Publishes, publishFile, ran]
      refine ⟨iff_of_true rfl fun line mem => ?_, fun _ => ?_, rfl⟩
      · obtain ⟨entries, stands, -⟩ := (kept line mem).recorded
        exact ⟨entries, stands⟩
      · refine ⟨(lines file).map fun line => (pieces line).flatMap recorded, ?_, ?_⟩
        · rw [List.forall₂_map_right_iff, List.forall₂_same]
          intro line mem
          obtain ⟨entries, stands, -, same⟩ := (kept line mem).recorded
          rw [same]
          exact stands
        · dsimp only
          rw [whole, List.flatMap_assoc]
          rfl
    · obtain ⟨fatal, inside⟩ := publishLoop_refused each refused path 0
      rw [Publishes, publishFile, cut]
      refine ⟨iff_of_false fatal fun all => ?_, fun fine => absurd fine fatal, inside⟩
      obtain ⟨entries, stands⟩ := all line mem
      exact wrong entries stands

end Runs

/-- At the end of a plain line the scan moves behind the NUL. -/
theorem not_publishes_plain : ¬ Publishes (ascii ['p']) (ascii "setenv A b\n".toList) := by
  rintro ⟨-, -, inside⟩
  rw [publishFile, pieces_cons (by decide)] at inside
  exact absurd inside (by decide)

end Testbus.Publish
