import Testbus.Agent.Files
import Testbus.Libc

namespace Testbus.Agent

open Dbus Lib

def percent : UInt8 := 0x25

def openBrace : UInt8 := 0x7b

def closeBrace : UInt8 := 0x7d

def fileReference : CString := ascii ['f', 'i', 'l', 'e', ':']

/-- The instance of the first file of the name. -/
def instanceOf (files : List AgentFile) (name : CString) : Option CString :=
  (files.find? fun file => file.name = some name).bind AgentFile.instancePath

/-- What stands behind the name in the first entry for it. -/
def environValue (env : List CString) (var : CString) : Option CString :=
  (env.find? fun ex => var.isPrefixOf ex && ex.getD var.length 0 = 0x3d).map
    fun ex => ex.drop (var.length + 1)

def expandReference (env : List CString) (files : List AgentFile) (var : CString) : Option CString :=
  if fileReference.isPrefixOf var then instanceOf files (var.drop 5)
  else if 0x3a ∈ var then none
  else environValue env var

theorem behind_shorter {text after : CString}
    (found : text.dropWhile (· ≠ closeBrace) = c :: after) : after.length < text.length := by
  have shorter := (List.dropWhile_sublist (l := text) (· ≠ closeBrace)).length_le
  rw [found] at shorter
  exact shorter

/-- The loop of `ni_testbus_agent_substitute`: the string is `passed` up to `pos`, and `rest` from
there on. It gives the string as it was left, with the buffer unless it failed. -/
def substituteLoop (env : List CString) (files : List AgentFile) (passed rest buf : CString) :
    CString × Option CString :=
  match rest with
  | [] => (passed, some buf)
  | cc :: rest =>
    if cc ≠ percent then substituteLoop env files (passed ++ [cc]) rest (buf ++ [cc])
    else match rest with
      | [] => (passed ++ [cc], none)
      | next :: rest =>
        if next = percent then
          substituteLoop env files (passed ++ [cc, next]) rest (buf ++ [next])
        else if next ≠ openBrace then (passed ++ cc :: next :: rest, none)
        else
          let var := rest.takeWhile (· ≠ closeBrace)
          match _found : rest.dropWhile (· ≠ closeBrace) with
          | [] => (passed ++ cc :: next :: rest, none)
          | _ :: rest =>
            -- the name is terminated in place, whatever comes of it
            let passed := passed ++ cc :: next :: (var ++ [0])
            match expandReference env files var with
            | none => (passed ++ rest, none)
            | some value => substituteLoop env files passed rest (buf ++ value)
termination_by rest.length
decreasing_by
  · exact Nat.lt_succ_self _
  · exact Nat.lt_succ_of_lt (Nat.lt_succ_self _)
  · exact Nat.lt_succ_of_lt (Nat.lt_succ_of_lt (behind_shorter ‹_›))

/-- `ni_testbus_agent_substitute`: the argument that it leaves, and what it returns. -/
def substitute (env : List CString) (files : List AgentFile) (arg : CString) : CString × Bool :=
  if percent ∉ arg then (arg, true)
  else match substituteLoop env files [] arg [] with
    | (_, some buf) => (buf, true)
    | (text, none) => (cstr text, false)

/-- What a reference stands for: the instance of the first file of a name, or the value of the
first entry of a variable. -/
inductive Known (env : List CString) (files : List AgentFile) : CString → CString → Prop
  | file {before after : List AgentFile} {file : AgentFile} {name path : CString}
      (first : files = before ++ file :: after) (others : ∀ other ∈ before, other.name ≠ some name)
      (named : file.name = some name) (made : file.instancePath = some path) :
      Known env files (fileReference ++ name) path
  | environ {before after : List CString} {name value : CString} (plain : 0x3a ∉ name)
      (first : env = before ++ (envPrefix name ++ value) :: after)
      (others : ∀ other ∈ before, ¬ envPrefix name <+: other) : Known env files name value

section Reference

variable (known : CString → CString → Prop)

/-- What a text expands to, in one pass from the left. -/
inductive Expands : CString → CString → Prop
  | nil : Expands [] []
  | byte {c : UInt8} {s t : CString} (plain : c ≠ percent) (later : Expands s t) : Expands (c :: s) (c :: t)
  | percent {s t : CString} (later : Expands s t) : Expands (percent :: percent :: s) (percent :: t)
  | reference {name value s t : CString} (closed : closeBrace ∉ name) (found : known name value)
      (later : Expands s t) :
      Expands (percent :: openBrace :: (name ++ closeBrace :: s)) (value ++ t)

/-- A text that cannot be expanded. -/
inductive Fails : CString → Prop
  | byte {c : UInt8} {s : CString} (plain : c ≠ percent) (later : Fails s) : Fails (c :: s)
  | percent {s : CString} (later : Fails s) : Fails (percent :: percent :: s)
  | reference {name value s : CString} (closed : closeBrace ∉ name) (found : known name value)
      (later : Fails s) : Fails (percent :: openBrace :: (name ++ closeBrace :: s))
  | unknown {name s : CString} (closed : closeBrace ∉ name) (lost : ∀ value, ¬ known name value) :
      Fails (percent :: openBrace :: (name ++ closeBrace :: s))
  | unterminated {s : CString} (never : closeBrace ∉ s) : Fails (percent :: openBrace :: s)
  | stray {s : CString} (other : ∀ c ∈ s.head?, c ≠ Agent.percent ∧ c ≠ openBrace) :
      Fails (Agent.percent :: s)

/-- A text that cannot be expanded, as found before any reference was closed. -/
inductive Unclosed : CString → Prop
  | byte {c : UInt8} {s : CString} (plain : c ≠ percent) (later : Unclosed s) : Unclosed (c :: s)
  | percent {s : CString} (later : Unclosed s) : Unclosed (percent :: percent :: s)
  | unterminated {s : CString} (never : closeBrace ∉ s) : Unclosed (percent :: openBrace :: s)
  | stray {s : CString} (other : ∀ c ∈ s.head?, c ≠ Agent.percent ∧ c ≠ openBrace) :
      Unclosed (Agent.percent :: s)

end Reference

section Loop

variable {passed buf name value s t : CString}

theorem loop_byte (plain : c ≠ percent) : substituteLoop env files passed (c :: s) buf =
    substituteLoop env files (passed ++ [c]) s (buf ++ [c]) := by
  rw [substituteLoop.eq_def]
  exact if_pos plain

theorem loop_percent : substituteLoop env files passed (percent :: percent :: s) buf =
    substituteLoop env files (passed ++ [percent, percent]) s (buf ++ [percent]) := by
  rw [substituteLoop, if_neg (not_not_intro rfl), if_pos rfl]

theorem loop_stray (other : ∀ c ∈ s.head?, c ≠ percent ∧ c ≠ openBrace) :
    substituteLoop env files passed (percent :: s) buf = (passed ++ percent :: s, none) := by
  cases s with
  | nil => rw [substituteLoop, if_neg (not_not_intro rfl)]
  | cons c s =>
    obtain ⟨plain, unopened⟩ := other c rfl
    rw [substituteLoop, if_neg (not_not_intro rfl), if_neg plain, if_pos unopened]

theorem loop_unterminated (never : closeBrace ∉ s) :
    substituteLoop env files passed (percent :: openBrace :: s) buf = (passed ++ percent :: openBrace :: s, none) := by
  have ended : s.dropWhile (· ≠ closeBrace) = [] := by
    apply List.dropWhile_eq_nil_iff.mpr
    intro c inside
    exact decide_eq_true fun same => never (same ▸ inside)
  rw [substituteLoop, if_neg (not_not_intro rfl), if_neg (by decide), if_neg (not_not_intro rfl)]
  split
  · rfl
  · rename_i found
    rw [ended] at found
    cases found

theorem split_closed (closed : closeBrace ∉ name) (s : CString) :
    (name ++ closeBrace :: s).takeWhile (· ≠ closeBrace) = name ∧
      (name ++ closeBrace :: s).dropWhile (· ≠ closeBrace) = closeBrace :: s := by
  have own : ∀ c ∈ name, decide (c ≠ closeBrace) = true := by
    intro c inside
    exact decide_eq_true fun same => closed (same ▸ inside)
  constructor
  · rw [List.takeWhile_append_of_pos own, List.takeWhile_cons_of_neg (by decide), List.append_nil]
  · rw [List.dropWhile_append_of_pos own, List.dropWhile_cons_of_neg (by decide)]

theorem loop_closed (closed : closeBrace ∉ name) :
    substituteLoop env files passed (percent :: openBrace :: (name ++ closeBrace :: s)) buf =
      match expandReference env files name with
      | none => (passed ++ percent :: openBrace :: (name ++ [0]) ++ s, none)
      | some value =>
        substituteLoop env files (passed ++ percent :: openBrace :: (name ++ [0])) s (buf ++ value) := by
  obtain ⟨before, behind⟩ := split_closed closed s
  rw [substituteLoop, if_neg (not_not_intro rfl), if_neg (by decide), if_neg (not_not_intro rfl), before]
  split
  · rename_i found
    rw [behind] at found
    cases found
  · rename_i found
    rw [behind] at found
    cases found
    rfl

theorem instanceOf_iff : instanceOf files name = some value ↔
    ∃ before file after, files = before ++ file :: after ∧ (∀ other ∈ before, other.name ≠ some name) ∧
      file.name = some name ∧ file.instancePath = some value := by
  rw [instanceOf, Option.bind_eq_some_iff]
  constructor
  · intro ⟨file, found, made⟩
    obtain ⟨named, before, after, first, others⟩ := List.find?_eq_some_iff_append.mp found
    refine ⟨before, file, after, first, ?_, of_decide_eq_true named, made⟩
    intro other inside
    simpa using others other inside
  · intro ⟨before, file, after, first, others, named, made⟩
    refine ⟨file, List.find?_eq_some_iff_append.mpr ⟨decide_eq_true named, before, after, first, ?_⟩, made⟩
    intro other inside
    simpa using others other inside

/-- The comparison of `strncmp`, and of the character behind the name. -/
theorem entry_iff (ex : CString) : (name.isPrefixOf ex && ex.getD name.length 0 = 0x3d) = true ↔
    envPrefix name <+: ex := by
  have behind (tail : CString) : (name ++ tail).getD name.length 0 = tail.headD 0 := by
    induction name with
    | nil =>
      cases tail with
      | nil => rfl
      | cons c tail => rfl
    | cons c name ih => exact ih
  rw [Bool.and_eq_true, decide_eq_true_iff, List.isPrefixOf_iff_prefix, envPrefix]
  constructor
  · intro ⟨⟨tail, parts⟩, sign⟩
    rw [← parts, behind] at sign
    cases tail with
    | nil => cases sign
    | cons c tail =>
      obtain rfl : c = 0x3d := sign
      exact ⟨tail, by rw [List.append_assoc, List.singleton_append, parts]⟩
  · intro ⟨tail, parts⟩
    rw [List.append_assoc] at parts
    refine ⟨⟨_, parts⟩, ?_⟩
    rw [← parts, behind]
    rfl

theorem environValue_iff : environValue env name = some value ↔
    ∃ before after, env = before ++ (envPrefix name ++ value) :: after ∧
      ∀ other ∈ before, ¬ envPrefix name <+: other := by
  have behind (value : CString) : (envPrefix name ++ value).drop (name.length + 1) = value :=
    List.drop_left' (by rw [envPrefix, List.length_append, List.length_singleton])
  rw [environValue, Option.map_eq_some_iff]
  constructor
  · intro ⟨ex, found, same⟩
    obtain ⟨named, before, after, first, others⟩ := List.find?_eq_some_iff_append.mp found
    obtain ⟨tail, rfl⟩ := (entry_iff ex).mp named
    rw [behind] at same
    refine ⟨before, after, same ▸ first, ?_⟩
    intro other inside sets
    have skipped := others other inside
    rw [(entry_iff other).mpr sets] at skipped
    cases skipped
  · intro ⟨before, after, first, others⟩
    refine ⟨envPrefix name ++ value, List.find?_eq_some_iff_append.mpr
      ⟨(entry_iff _).mpr (List.prefix_append _ _), before, after, first, ?_⟩, behind value⟩
    intro other inside
    rw [Bool.not_eq_true', Bool.eq_false_iff]
    exact fun sets => others other inside ((entry_iff other).mp sets)

/-- The look-up of a reference, in terms of what is attached and of what is set. -/
theorem expandReference_iff : expandReference env files name = some value ↔ Known env files name value := by
  rw [expandReference]
  constructor
  · intro found
    split at found
    · rename_i isFile
      obtain ⟨base, rfl⟩ := List.isPrefixOf_iff_prefix.mp isFile
      obtain ⟨before, file, after, first, others, named, made⟩ := instanceOf_iff.mp found
      exact .file first others named made
    · split at found
      · cases found
      · rename_i plain
        obtain ⟨before, after, first, others⟩ := environValue_iff.mp found
        exact .environ plain first others
  · intro known
    cases known with
    | file first others named made =>
      rw [if_pos (List.isPrefixOf_iff_prefix.mpr (List.prefix_append _ _))]
      exact instanceOf_iff.mpr ⟨_, _, _, first, others, named, made⟩
    | environ plain first others =>
      have noFile : ¬ fileReference.isPrefixOf name = true := by
        intro isFile
        have colon : 0x3a ∈ fileReference := by decide
        exact plain ((List.isPrefixOf_iff_prefix.mp isFile).subset colon)
      rw [if_neg noFile, if_neg plain]
      exact environValue_iff.mpr ⟨_, _, first, others⟩

theorem unknown_iff : expandReference env files name = none ↔ ∀ value, ¬ Known env files name value := by
  rw [Option.eq_none_iff_forall_ne_some]
  exact forall_congr' fun value => not_congr expandReference_iff

theorem loop_expands (passed buf : CString) (expanded : Expands (Known env files) s t) :
    ∃ text, substituteLoop env files passed s buf = (text, some (buf ++ t)) := by
  induction expanded generalizing passed buf with
  | nil => exact ⟨passed, by rw [substituteLoop, List.append_nil]⟩
  | byte plain _ ih =>
    obtain ⟨text, ran⟩ := ih (passed ++ [_]) (buf ++ [_])
    exact ⟨text, by rw [loop_byte plain, ran, List.append_assoc, List.singleton_append]⟩
  | percent _ ih =>
    obtain ⟨text, ran⟩ := ih (passed ++ [percent, percent]) (buf ++ [percent])
    exact ⟨text, by rw [loop_percent, ran, List.append_assoc, List.singleton_append]⟩
  | reference closed found _ ih =>
    obtain ⟨text, ran⟩ := ih (passed ++ percent :: openBrace :: (_ ++ [0])) (buf ++ _)
    refine ⟨text, ?_⟩
    rw [loop_closed closed, expandReference_iff.mpr found]
    exact ran.trans (by rw [List.append_assoc])

theorem loop_fails (passed buf : CString) (failed : Fails (Known env files) s) :
    ∃ text, substituteLoop env files passed s buf = (text, none) := by
  induction failed generalizing passed buf with
  | byte plain _ ih =>
    obtain ⟨text, ran⟩ := ih (passed ++ [_]) (buf ++ [_])
    exact ⟨text, by rw [loop_byte plain, ran]⟩
  | percent _ ih =>
    obtain ⟨text, ran⟩ := ih (passed ++ [percent, percent]) (buf ++ [percent])
    exact ⟨text, by rw [loop_percent, ran]⟩
  | reference closed found _ ih =>
    obtain ⟨text, ran⟩ := ih (passed ++ percent :: openBrace :: (_ ++ [0])) (buf ++ _)
    refine ⟨text, ?_⟩
    rw [loop_closed closed, expandReference_iff.mpr found]
    exact ran
  | unknown closed lost => exact ⟨_, by rw [loop_closed closed, unknown_iff.mpr lost]⟩
  | unterminated never => exact ⟨_, loop_unterminated never⟩
  | stray other => exact ⟨_, loop_stray other⟩

/-- What was passed stands as it was, up to a failure before any reference is closed. -/
theorem loop_unclosed (passed buf : CString) (failed : Unclosed s) :
    substituteLoop env files passed s buf = (passed ++ s, none) := by
  induction failed generalizing passed buf with
  | byte plain _ ih => rw [loop_byte plain, ih, List.append_assoc, List.singleton_append]
  | percent _ ih =>
    rw [loop_percent, ih, List.append_assoc]
    rfl
  | unterminated never => exact loop_unterminated never
  | stray other => exact loop_stray other

end Loop

section Texts

variable {known : CString → CString → Prop}

/-- Every text can be expanded, or fails. -/
theorem expands_or_fails (known : CString → CString → Prop) (s : CString) : (∃ t, Expands known s t) ∨ Fails known s := by
  induction length : s.length using Nat.strongRecOn generalizing s with
  | _ n ih =>
    cases s with
    | nil => exact Or.inl ⟨[], .nil⟩
    | cons c rest =>
      rw [List.length_cons] at length
      by_cases plain : c ≠ percent
      · rcases ih rest.length (by omega) rest rfl with ⟨t, expanded⟩ | failed
        · exact Or.inl ⟨c :: t, .byte plain expanded⟩
        · exact Or.inr (.byte plain failed)
      obtain rfl := not_not.mp plain
      cases rest with
      | nil => exact Or.inr (.stray fun c none_ => by cases none_)
      | cons next rest =>
        rw [List.length_cons] at length
        by_cases escaped : next = percent
        · subst escaped
          rcases ih rest.length (by omega) rest rfl with ⟨t, expanded⟩ | failed
          · exact Or.inl ⟨percent :: t, .percent expanded⟩
          · exact Or.inr (.percent failed)
        by_cases opened : next = openBrace
        · subst opened
          by_cases inside : closeBrace ∈ rest
          · obtain ⟨name, later, rfl, closed⟩ := List.eq_append_cons_of_mem inside
            rw [List.length_append, List.length_cons] at length
            by_cases found : ∃ value, known name value
            · obtain ⟨value, found⟩ := found
              rcases ih later.length (by omega) later rfl with ⟨t, expanded⟩ | failed
              · exact Or.inl ⟨value ++ t, .reference closed found expanded⟩
              · exact Or.inr (.reference closed found failed)
            · exact Or.inr (.unknown closed (not_exists.mp found))
          · exact Or.inr (.unterminated inside)
        · refine Or.inr (.stray ?_)
          intro c first
          cases first
          exact ⟨escaped, opened⟩

theorem expands_plain (plain : percent ∉ s) (expanded : Expands known s t) : t = s := by
  induction expanded with
  | nil => rfl
  | byte _ _ ih => rw [ih (List.not_mem_of_not_mem_cons plain)]
  | percent _ _ => exact absurd List.mem_cons_self plain
  | reference _ _ _ _ => exact absurd List.mem_cons_self plain

theorem fails_percent (failed : Fails known s) : percent ∈ s := by
  induction failed with
  | byte _ _ ih => exact List.mem_cons_of_mem _ ih
  | percent _ _ => exact List.mem_cons_self
  | reference _ _ _ _ => exact List.mem_cons_self
  | unknown _ _ => exact List.mem_cons_self
  | unterminated _ => exact List.mem_cons_self
  | stray _ => exact List.mem_cons_self

theorem Unclosed.fails (known : CString → CString → Prop) (failed : Unclosed s) : Fails known s := by
  induction failed with
  | byte plain _ ih => exact .byte plain ih
  | percent _ ih => exact .percent ih
  | unterminated never => exact .unterminated never
  | stray other => exact .stray other

end Texts

theorem substitute_expands (expanded : Expands (Known env files) arg t) : substitute env files arg = (t, true) := by
  rw [substitute]
  split
  · rename_i plain
    rw [expands_plain plain expanded]
  · obtain ⟨text, ran⟩ := loop_expands [] [] expanded
    rw [ran]
    rfl

theorem substitute_fails (failed : Fails (Known env files) arg) : (substitute env files arg).2 = false := by
  obtain ⟨text, ran⟩ := loop_fails [] [] failed
  rw [substitute, if_neg (not_not_intro (fails_percent failed)), ran]

theorem substitute_expands_iff : substitute env files arg = (t, true) ↔ Expands (Known env files) arg t := by
  refine ⟨?_, substitute_expands⟩
  intro ran
  rcases expands_or_fails (Known env files) arg with ⟨t', expanded⟩ | failed
  · obtain rfl : t' = t := congrArg Prod.fst ((substitute_expands expanded).symm.trans ran)
    exact expanded
  · have failed := substitute_fails failed
    rw [ran] at failed
    cases failed

theorem substitute_fails_iff : (substitute env files arg).2 = false ↔ Fails (Known env files) arg := by
  refine ⟨?_, substitute_fails⟩
  intro ran
  rcases expands_or_fails (Known env files) arg with ⟨t, expanded⟩ | failed
  · rw [substitute_expands expanded] at ran
    cases ran
  · exact failed

theorem substitute_unclosed (string : 0 ∉ arg) (failed : Unclosed arg) : substitute env files arg = (arg, false) := by
  have kept : cstr arg = arg := List.takeWhile_eq_self_iff.mpr fun c inside =>
    decide_eq_true fun zero => string (zero ▸ inside)
  rw [substitute, if_neg (not_not_intro (fails_percent (failed.fails (Known env files)))), loop_unclosed [] [] failed]
  exact congrArg (·, false) kept

/-- An argument is expanded in one pass, unless it cannot be. -/
theorem substitute_iff (env : List CString) (files : List AgentFile) (arg : CString)
    (string : 0 ∉ arg) :
    (∀ t, substitute env files arg = (t, true) ↔ Expands (Known env files) arg t) ∧
      ((substitute env files arg).2 = false ↔ Fails (Known env files) arg) ∧
      (Unclosed arg → substitute env files arg = (arg, false)) :=
  ⟨fun _ => substitute_expands_iff, substitute_fails_iff, substitute_unclosed string⟩

/-- An escape, and a variable whose value looks like a reference. -/
theorem substitute_iff_run :
    substitute [ascii ['X', '=', '%', '{', 'X', '}']] [] (ascii ['%', '%', '%', '{', 'X', '}']) =
      (ascii ['%', '%', '{', 'X', '}'], true) := by
  have known : Known [ascii ['X', '=', '%', '{', 'X', '}']] [] (ascii ['X'])
      (ascii ['%', '{', 'X', '}']) :=
    .environ (by decide) (List.nil_append _).symm (List.forall_mem_nil _)
  exact ((substitute_iff _ _ _ (by decide)).1 _).mpr (.percent (.reference (by decide) known .nil))

/-- There is no reference in the first text, and the second one loses its bracket. -/
theorem stray_percent_fails :
    (substitute [] [] (ascii ['5', '0', '%'])).2 = false ∧ openBrace ∉ ascii ['5', '0', '%'] ∧
      substitute [] [] (ascii ['%', '{', 'X', '}']) = (ascii ['%', '{', 'X'], false) := by
  have stray : Fails (Known [] []) (ascii ['5', '0', '%']) :=
    .byte (by decide) (.byte (by decide) (.stray fun c none_ => by cases none_))
  refine ⟨substitute_fails stray, by decide, ?_⟩
  have closed : closeBrace ∉ ascii ['X'] := by decide
  have lost : expandReference [] [] (ascii ['X']) = none := rfl
  rw [substitute, if_neg (by decide)]
  change (match substituteLoop [] [] [] (percent :: openBrace :: (ascii ['X'] ++ closeBrace :: [])) []
    with | (_, some buf) => (buf, true) | (text, none) => (cstr text, false)) = _
  rw [loop_closed closed, lost]
  rfl

end Testbus.Agent
