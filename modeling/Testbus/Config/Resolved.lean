import Testbus.Config.Include

namespace Testbus.Config

open Lib Xml

section Steady

variable {fullname last file : CString} {nodes nodes' : List Node} {session session' : Session}
  {depth : Nat}

/-- Where the name of a file is that was included. -/
def place (file : CString) (nested : Bool) : Filename := if nested then .fullname else .own file

/-- The session after an include element, or after several. -/
def Include.after (session : Session) (met : Include) : Session :=
  ⟨met.leaves session.fullname, session.built ++ [met.path]⟩

def after (session : Session) (includes : List Include) : Session := includes.foldl Include.after session

theorem after_append : after session (includes ++ includes') = after (after session includes) includes' :=
  List.foldl_append

theorem after_built : (after session includes).built = session.built ++ includes.map Include.path := by
  induction includes generalizing session with
  | nil => simp [after]
  | cons met rest ih =>
    rw [show after session (met :: rest) = after (met.after session) rest from rfl, ih]
    simp [Include.after]

theorem after_cons (met : Include) : after session (met :: includes) = after (met.after session) includes := rfl

theorem steady_append : Steady session.fullname (includes ++ includes') ↔
    Steady session.fullname includes ∧ Steady (after session includes).fullname includes' := by
  induction includes generalizing session with
  | nil => simp [Steady, after]
  | cons met rest ih =>
    have later : Steady (met.after session).fullname (rest ++ includes') ↔ _ := ih
    rw [List.cons_append, Steady, Steady, and_assoc, and_assoc, ← show after (met.after session) rest =
      after session (met :: rest) from rfl]
    exact and_congr_right fun _ => and_congr_right fun _ => later

theorem text_place (met : Include) : session.text (place met.file met.nested) = met.parent session.fullname := by
  unfold place Include.parent
  split_ifs <;> rfl

/-- The path of the file that was included. -/
theorem text_after (met : Include) : (met.after session).text (place met.path (isRelative met.name)) = met.path := by
  unfold place Include.after Include.leaves
  split_ifs <;> rfl

variable {met : Include}

theorem place_absolute (absolute : ¬ isRelative met.name = true) :
    configBuildInclude (place met.file met.nested) met.name session =
      .ok (place met.path (isRelative met.name), met.after session) := by
  simp [configBuildInclude, place, Include.after, Include.leaves, Include.path, taken, absolute]

theorem build_reaches (reaches : met.Reaches session.fullname) :
    configBuildInclude (place met.file met.nested) met.name session =
      .ok (place met.path (isRelative met.name), met.after session) := by
  by_cases relative : isRelative met.name = true
  · obtain ⟨same, short, short'⟩ := reaches relative
    have path : met.path = directory met.file ++ met.name := by simp [Include.path, taken, relative]
    have length : met.path.length = (directory met.file).length + met.name.length := by
      rw [path, List.length_append]
    simp only [configBuildInclude, relative, if_true, text_place, same]
    rw [if_neg (by omega), if_neg (by omega)]
    simp [place, Include.after, Include.leaves, relative, path]
  · exact place_absolute relative

theorem build_inv (ran : configBuildInclude (place met.file met.nested) met.name session = .ok (path, session'))
    (same : session'.built = session.built ++ [met.path]) : met.Reaches session.fullname := by
  intro relative
  have taken_ : met.path = directory met.file ++ met.name := by simp [Include.path, taken, relative]
  simp only [configBuildInclude, relative, if_true, text_place] at ran
  split_ifs at ran with long long'
  cases ran
  have joined : directory (met.parent session.fullname) ++ met.name = met.path := by
    simpa using same
  have directories := List.append_cancel_right (joined.trans taken_)
  refine ⟨directories, by omega, ?_⟩
  rw [← joined, List.length_append]
  omega

section Grows

variable {load : Filename → Node → Session → Except Stop (List Node × Session)} {result : List Node}

theorem build_grows (ran : configBuildInclude filename name session = .ok (path, session')) :
    ∃ built, session'.built = session.built ++ [built] := by
  unfold configBuildInclude at ran
  dsimp only at ran
  split_ifs at ran <;> cases ran <;> exact ⟨_, rfl⟩

/-- No include element at any depth. -/
inductive Free : Node → Prop
  | mk {node : Node} (other : node.name ≠ some include_) (children : ∀ child ∈ node.children, Free child) :
    Free node

/-- The paths that were built stay, and no include elements are given. -/
def Resolves (load : Filename → Node → Session → Except Stop (List Node × Session)) : Prop :=
  ∀ filename node session result session', load filename node session = .ok (result, session') →
    session.built <+: session'.built ∧ ∀ child ∈ result, Free child

mutual

theorem child_resolves (resolves : Resolves load) :
    ∀ (node : Node) (result : List Node) (session session' : Session),
      configResolveChild load filename node session = .ok (result, session') →
        session.built <+: session'.built ∧ ∀ child ∈ result, Free child
  | .mk none _ _ _ _, _, _, _, ran => nomatch ran
  | .mk (some name) attrs cdata children line, result, session, session', ran => by
    unfold configResolveChild at ran
    split_ifs at ran with here
    · exact resolves _ _ _ _ _ ran
    · obtain ⟨⟨inner, middle⟩, inside, rest⟩ := bind_ok.mp ran
      cases rest
      obtain ⟨grown, free⟩ := resolve_resolves resolves children _ _ _ inside
      exact ⟨grown, List.forall_mem_singleton.mpr ⟨fun same => here (Option.some.inj same), free⟩⟩

theorem resolve_resolves (resolves : Resolves load) :
    ∀ (nodes result : List Node) (session session' : Session),
      configResolveIncludes load filename nodes session = .ok (result, session') →
        session.built <+: session'.built ∧ ∀ child ∈ result, Free child
  | [], _, _, _, ran => by
    cases ran
    exact ⟨List.prefix_rfl, List.forall_mem_nil _⟩
  | child :: rest, result, session, session', ran => by
    obtain ⟨⟨first, middle⟩, here, ran⟩ := bind_ok.mp ran
    obtain ⟨⟨later, last⟩, there, ran⟩ := bind_ok.mp ran
    cases ran
    obtain ⟨grown, free⟩ := child_resolves resolves child _ _ _ here
    obtain ⟨grown', free'⟩ := resolve_resolves resolves rest _ _ _ there
    exact ⟨grown.trans grown', List.forall_mem_append.mpr ⟨free, free'⟩⟩

end

theorem load_resolves (files : Files) : ∀ depth, Resolves (configLoadInclude files depth)
  | 0, _, _, _, _, _, ran => nomatch ran
  | depth + 1, filename, node, session, result, session', ran => by
    unfold configLoadInclude at ran
    split at ran
    · cases ran
    obtain ⟨⟨path, middle⟩, built, ran⟩ := bind_ok.mp ran
    obtain ⟨one, grown⟩ := build_grows built
    have before : session.built <+: middle.built := ⟨[one], grown.symm⟩
    dsimp only at ran
    split at ran
    · cases ran
      exact ⟨before, List.forall_mem_nil _⟩
    · obtain ⟨grown', free⟩ := resolve_resolves (load_resolves files depth) _ _ _ _ ran
      exact ⟨before.trans grown', free⟩
    · cases ran

end Grows

variable {result : List Node}

section Rounds

variable {load : Filename → Node → Session → Except Stop (List Node × Session)}
  {rest first later : List Node} {middle last : Session}

variable (first) in
theorem resolve_cons (here : configResolveChild load filename child session = .ok (first, middle))
    (there : configResolveIncludes load filename rest middle = .ok (later, last)) :
    configResolveIncludes load filename (child :: rest) session = .ok (first ++ later, last) := by
  rw [configResolveIncludes, here]
  change (configResolveIncludes load filename rest middle >>= _) = _
  rw [there]
  rfl

theorem resolve_inv (ran : configResolveIncludes load filename (child :: rest) session = .ok (result, last)) :
    ∃ first middle later, configResolveChild load filename child session = .ok (first, middle) ∧
      configResolveIncludes load filename rest middle = .ok (later, last) := by
  obtain ⟨⟨first, middle⟩, here, ran⟩ := bind_ok.mp ran
  obtain ⟨⟨later, last⟩, there, ran⟩ := bind_ok.mp ran
  cases ran
  exact ⟨first, middle, later, here, there⟩

end Rounds

theorem child_include :
    configResolveChild load filename (.mk (some include_) attrs cdata children line) session =
      load filename (.mk (some include_) attrs cdata children line) session := by
  rw [configResolveChild, if_pos rfl]

section Load

variable {name : CString} {filename path : Filename} {root : Node}

theorem load_document (named : node.getAttr (ascii "name".toList) = some name)
    (built : configBuildInclude filename name session = .ok (path, session'))
    (found : files (session'.text path) = .document root) :
    configLoadInclude files (depth + 1) filename node session =
      configResolveIncludes (configLoadInclude files depth) path root.children session' := by
  simp only [configLoadInclude, named, built, bind, Except.bind, found]

theorem load_missing (named : node.getAttr (ascii "name".toList) = some name)
    (built : configBuildInclude filename name session = .ok (path, session'))
    (missing : files (session'.text path) = .missing) :
    configLoadInclude files (depth + 1) filename node session =
      if getAttrBoolean node (ascii "optional".toList) = some true then .ok ([], session')
      else .error .failed := by
  simp only [configLoadInclude, named, built, bind, Except.bind, missing]
  cases getAttrBoolean node (ascii "optional".toList) with
  | none => rfl
  | some truth => cases truth <;> rfl

/-- An affirmation that the code takes for one is the word. -/
theorem boolean_true (optional : node.getAttr name = some value) (affirmed : Affirms value) :
    getAttrBoolean node name = some true ↔ strcaseeq value (ascii "true".toList) = true := by
  simp only [getAttrBoolean, optional, bind, Option.bind]
  split_ifs with word
  · exact iff_of_true rfl word
  · exact iff_of_false nofun word
  · exact iff_of_false nofun word
  · next more => exact absurd (affirmed.resolve_left word).2 more

variable (depth) in
theorem load_vanished (named : node.getAttr (ascii "name".toList) = some met.name)
    (optional : node.getAttr (ascii "optional".toList) = some value) (affirmed : Affirms value)
    (missing : files met.path = .missing) (reaches : met.Reaches session.fullname) :
    configLoadInclude files (depth + 1) (place met.file met.nested) node session =
      if strcaseeq value (ascii "true".toList) then .ok ([], met.after session)
      else .error .failed := by
  rw [load_missing named (build_reaches reaches) (by rwa [text_after])]
  simp only [boolean_true optional affirmed]

variable (depth) in
theorem load_included (named : node.getAttr (ascii "name".toList) = some met.name)
    (found : files met.path = .document root) (reaches : met.Reaches session.fullname) :
    configLoadInclude files (depth + 1) (place met.file met.nested) node session =
      configResolveIncludes (configLoadInclude files depth) (place met.path (isRelative met.name))
        root.children (met.after session) := load_document named (build_reaches reaches) (by rwa [text_after])

end Load

/-- The includes of a steady file are resolved, when enough files may be in files. -/
theorem run_steady (resolved : Resolved files file nested nodes nodes' includes)
    (steady : Steady session.fullname includes) : ∃ enough, ∀ depth, enough ≤ depth →
      configResolveIncludes (configLoadInclude files depth) (place file nested) nodes session =
        .ok (nodes', after session includes) := by
  induction resolved generalizing session with
  | nil => exact ⟨0, fun _ _ => rfl⟩
  | element other inner later ih ih' =>
    obtain ⟨first, second⟩ := steady_append.mp steady
    obtain ⟨enough, ran⟩ := ih first
    obtain ⟨enough', ran'⟩ := ih' second
    refine ⟨max enough enough', fun depth le => ?_⟩
    rw [after_append]
    refine resolve_cons [_] ?_ (ran' depth (by omega))
    simp only [configResolveChild, other, if_false, ran depth (by omega), bind, Except.bind]
  | @vanished met _ _ _ _ _ _ _ _ named optional affirmed missing numbered later ih =>
    obtain ⟨reaches, word, steady⟩ := steady
    obtain ⟨enough, ran⟩ := ih (show Steady (met.after session).fullname _ from steady)
    refine ⟨enough + 1, fun depth le => ?_⟩
    obtain ⟨depth, rfl⟩ := Nat.exists_eq_add_of_le' (show 1 ≤ depth by omega)
    refine resolve_cons [] ?_ (ran (depth + 1) (by omega))
    rw [child_include, load_vanished depth named optional affirmed missing reaches,
      if_pos (by simpa [numbered] using word)]
  | @included met _ _ _ _ _ _ _ _ _ _ named found numbered inner later ih ih' =>
    obtain ⟨reaches, -, steady⟩ := steady
    have both : Steady (met.after session).fullname _ := steady
    obtain ⟨first, second⟩ := steady_append.mp both
    obtain ⟨enough, ran⟩ := ih first
    obtain ⟨enough', ran'⟩ := ih' second
    refine ⟨max (enough + 1) enough', fun depth le => ?_⟩
    obtain ⟨depth, rfl⟩ := Nat.exists_eq_add_of_le' (show 1 ≤ depth by omega)
    rw [after_cons, after_append]
    refine resolve_cons _ ?_ (ran' (depth + 1) (by omega))
    rw [child_include, load_included depth named found reaches, ran depth (by omega)]

variable {total : List CString}

theorem prefix_next (first : built ++ [one] <+: total) (second : built ++ other :: more <+: total) : one = other := by
  obtain ⟨rest, rfl⟩ := first
  obtain ⟨rest', same⟩ := second
  rw [List.append_assoc, List.append_assoc] at same
  exact (List.cons.inj (List.append_cancel_left same)).1.symm

theorem load_inv (named : node.getAttr (ascii "name".toList) = some met.name)
    (ran : configLoadInclude files depth (place met.file met.nested) node session = .ok (result, session'))
    (goes : session'.built <+: total) (should : session.built ++ met.path :: more <+: total) :
    met.Reaches session.fullname := by
  cases depth with
  | zero => cases ran
  | succ depth =>
    simp only [configLoadInclude, named] at ran
    obtain ⟨⟨path, middle⟩, built, ran⟩ := bind_ok.mp ran
    obtain ⟨one, grown⟩ := build_grows built
    have later : middle.built <+: session'.built := by
      dsimp only at ran
      split at ran
      · cases ran
        exact List.prefix_rfl
      · exact (resolve_resolves (load_resolves files depth) _ _ _ _ ran).1
      · cases ran
    have same : one = met.path := prefix_next (grown ▸ later.trans goes) should
    exact build_inv built (same ▸ grown)

/-- Includes that are resolved with the paths that they should have are steady. -/
theorem steady_of_run (resolved : Resolved files file nested nodes nodes' includes)
    (ran : configResolveIncludes (configLoadInclude files depth) (place file nested) nodes session =
      .ok (result, session'))
    (goes : session'.built <+: total) (should : session.built ++ includes.map Include.path <+: total) :
    Steady session.fullname includes ∧ session' = after session includes := by
  induction resolved generalizing session session' result depth with
  | nil =>
    cases ran
    exact ⟨trivial, rfl⟩
  | element other inner later ih ih' =>
    obtain ⟨first, middle, rest, here, there⟩ := resolve_inv ran
    rw [configResolveChild, if_neg other] at here
    obtain ⟨⟨children, middle'⟩, here, same⟩ := bind_ok.mp here
    cases same
    have grown := (resolve_resolves (load_resolves files depth) _ _ _ _ there).1
    rw [List.map_append, ← List.append_assoc] at should
    obtain ⟨steady, rfl⟩ := ih here (grown.trans goes) ((List.prefix_append _ _).trans should)
    rw [← after_built] at should
    obtain ⟨steady', rfl⟩ := ih' there goes should
    exact ⟨steady_append.mpr ⟨steady, steady'⟩, after_append.symm⟩
  | @vanished met _ _ _ _ _ _ _ _ named optional affirmed missing numbered later ih =>
    obtain ⟨first, middle, rest, here, there⟩ := resolve_inv ran
    have grown := (resolve_resolves (load_resolves files depth) _ _ _ _ there).1
    rw [child_include] at here
    have reaches := load_inv named here (grown.trans goes) should
    cases depth with
    | zero => cases here
    | succ depth =>
      rw [load_vanished depth named optional affirmed missing reaches] at here
      split_ifs at here with word
      cases here
      obtain ⟨steady, rfl⟩ := ih there goes (by simpa [Include.after] using should)
      exact ⟨⟨reaches, by rw [numbered, word, Bool.not_true], steady⟩, rfl⟩
  | @included met _ _ _ _ _ _ _ _ _ _ named found numbered inner later ih ih' =>
    obtain ⟨first, middle, rest, here, there⟩ := resolve_inv ran
    have grown := (resolve_resolves (load_resolves files depth) _ _ _ _ there).1
    rw [child_include] at here
    have reaches := load_inv named here (grown.trans goes) should
    cases depth with
    | zero => cases here
    | succ depth =>
      rw [load_included depth named found reaches] at here
      rw [List.map_cons, List.map_append, List.append_cons, ← List.append_assoc,
        show session.built ++ [met.path] = (met.after session).built from rfl] at should
      obtain ⟨steady, rfl⟩ := ih here (grown.trans goes) ((List.prefix_append _ _).trans should)
      rw [← after_built] at should
      obtain ⟨steady', rfl⟩ := ih' there goes should
      exact ⟨⟨reaches, numbered, steady_append.mpr ⟨steady, steady'⟩⟩, by
        rw [after_cons, after_append]⟩

end Steady

/-- The resolved configuration is what the code gives when enough files may be in files, and each
name was taken for its path. -/
def Gives (files : Files) (fullname filename : CString) (config : Node) (includes : List Include) : Prop :=
  ∃ depth session, configParse files depth fullname filename = .ok (config, session) ∧
    session.built = includes.map Include.path

theorem parse_ok (found : files filename = .document root) (element : getConfig root.children = .ok node) :
    configParse files depth fullname filename = .ok (config, session) ↔ ∃ children,
      configResolveIncludes (configLoadInclude files depth) (.own filename) node.children
        ⟨fullname, []⟩ = .ok (children, session) ∧ config = node.setChildren children := by
  simp only [configParse, found, element]
  constructor
  · intro ran
    obtain ⟨node', same, rest⟩ := bind_ok.mp ran
    cases same
    obtain ⟨⟨children, session⟩, here, same⟩ := bind_ok.mp rest
    cases same
    exact ⟨children, here, rfl⟩
  · rintro ⟨children, ran, rfl⟩
    exact bind_ok.mpr ⟨node, rfl, bind_ok.mpr ⟨_, ran, rfl⟩⟩

/-- A resolved configuration is what the code gives if and only if its includes are steady. -/
theorem gives_iff {files : Files} {fullname filename : CString} {config : Node}
    {includes : List Include} (document : Document files filename config includes) :
    Gives files fullname filename config includes ↔ Steady fullname includes := by
  obtain ⟨root, node, children, found, element, resolved, rfl⟩ := document
  let start : Session := ⟨fullname, []⟩
  constructor
  · rintro ⟨depth, session, ran, built⟩
    obtain ⟨children', ran, -⟩ := (parse_ok found element).mp ran
    have should : start.built ++ includes.map Include.path <+: session.built := by simp [start, built]
    exact (steady_of_run resolved ran List.prefix_rfl should).1
  · intro steady
    obtain ⟨enough, ran⟩ := run_steady resolved (show Steady start.fullname includes from steady)
    refine ⟨enough, after start includes, ?_, by simp [start, after_built]⟩
    exact (parse_ok found element).mpr ⟨children, ran enough le_rfl, rfl⟩

def leaf (name : CString) : Node := .mk (some name) [] none [] none

def includeOf (name : CString) : Node :=
  .mk (some include_) [⟨ascii "name".toList, some name⟩] none [] none

def configOf (children : List Node) : Node := .mk (some (ascii "config".toList)) [] none children none

/-- The file `m` includes `s/b`, and that includes `s/c/x` and `s/d`. -/
def nestedFiles : Files := fun path =>
  if path = ascii ['m'] then
    .document (.mk none [] none [configOf [includeOf (ascii "s/b".toList)]] none)
  else if path = ascii "s/b".toList then
    .document (.mk none [] none
      [configOf [includeOf (ascii "c/x".toList), includeOf (ascii ['d'])]] none)
  else if path = ascii "s/c/x".toList then .document (.mk none [] none [leaf (ascii ['x'])] none)
  else if path = ascii "s/d".toList then .document (.mk none [] none [leaf (ascii ['d'])] none)
  else .missing

/-- The include elements of the file `s/b`. -/
def innerIncludes (nested : Bool) : List Include :=
  [⟨ascii "s/b".toList, nested, ascii "c/x".toList, false⟩,
    ⟨ascii "s/b".toList, nested, ascii ['d'], false⟩]

theorem resolved_leaf (other : name ≠ include_) : Resolved files file nested [leaf name] [leaf name] [] := .element other .nil .nil

theorem resolved_includeOf (files : Files) (met : Include) (children : List Node)
    (found : files met.path = .document (.mk none [] none children none)) (numbered : met.numbered = false)
    (inner : Resolved files met.path (isRelative met.name) children nodes includes)
    (later : Resolved files met.file met.nested rest nodes' includes') :
    Resolved files met.file met.nested (includeOf met.name :: rest) (nodes ++ nodes')
      (met :: (includes ++ includes')) := .included met rfl found numbered inner later

theorem resolved_inner (nested : Bool) : Resolved nestedFiles (ascii "s/b".toList) nested
    [includeOf (ascii "c/x".toList), includeOf (ascii ['d'])] [leaf (ascii ['x']), leaf (ascii ['d'])]
    (innerIncludes nested) :=
  resolved_includeOf nestedFiles ⟨ascii "s/b".toList, nested, ascii "c/x".toList, false⟩ [leaf (ascii ['x'])]
    rfl rfl (resolved_leaf (by decide))
    (resolved_includeOf nestedFiles ⟨ascii "s/b".toList, nested, ascii ['d'], false⟩ [leaf (ascii ['d'])]
      rfl rfl (resolved_leaf (by decide)) .nil)

/-- As the first file, `s/b` is resolved. -/
theorem gives_outer : Gives nestedFiles [] (ascii "s/b".toList)
    (configOf [leaf (ascii ['x']), leaf (ascii ['d'])]) (innerIncludes false) := by
  have document : Document nestedFiles (ascii "s/b".toList)
      (configOf [leaf (ascii ['x']), leaf (ascii ['d'])]) (innerIncludes false) :=
    ⟨_, _, _, rfl, rfl, resolved_inner false, rfl⟩
  refine (gives_iff document).mpr ⟨fun _ => ?_, rfl, fun _ => ?_, rfl, trivial⟩
  · exact ⟨rfl, by decide, by decide⟩
  · exact ⟨rfl, by decide, by decide⟩

/-- In the file `s/b` that `m` includes, the second name is taken in the directory `s/c`. -/
theorem gives_nested : ¬ ∀ (files : Files) (fullname filename : CString) (config : Node)
    (includes : List Include), Document files filename config includes →
      ∃ depth session, configParse files depth fullname filename = .ok (config, session) := by
  intro gives
  have element : Resolved nestedFiles (ascii "s/b".toList) true
      [configOf [includeOf (ascii "c/x".toList), includeOf (ascii ['d'])]]
      [configOf [leaf (ascii ['x']), leaf (ascii ['d'])]] (innerIncludes true ++ []) :=
    .element (by decide) (resolved_inner true) .nil
  have resolved := resolved_includeOf nestedFiles
    ⟨ascii ['m'], false, ascii "s/b".toList, false⟩ _ rfl rfl element .nil
  obtain ⟨depth, session, ran⟩ := gives nestedFiles [] (ascii ['m']) _ _
    ⟨_, configOf [includeOf (ascii "s/b".toList)], _, rfl, rfl, resolved, rfl⟩
  match depth with
  | 0 => cases ran
  | 1 => cases ran
  | 2 => cases ran
  | depth + 3 => cases ran

/-- A configuration that was parsed has no include element left. -/
theorem parsed_free {files : Files} {depth : Nat} {fullname filename : CString} {config : Node}
    {session : Session} (parsed : configParse files depth fullname filename = .ok (config, session)) :
    ∀ child ∈ config.children, Free child := by
  unfold configParse at parsed
  split at parsed
  · obtain ⟨⟨name, attrs, cdata, nodes, line⟩, -, parsed⟩ := bind_ok.mp parsed
    obtain ⟨⟨children, last⟩, resolved, parsed⟩ := bind_ok.mp parsed
    cases parsed
    exact (resolve_resolves (load_resolves files depth) _ _ _ _ resolved).2
  · cases parsed

theorem parsed_free_outer : ∃ config session,
    configParse nestedFiles 1 [] (ascii "s/b".toList) = .ok (config, session) ∧
      ∀ child ∈ config.children, Free child := by
  have parsed : configParse nestedFiles 1 [] (ascii "s/b".toList) =
      .ok (configOf [leaf (ascii ['x']), leaf (ascii ['d'])], ⟨_, _⟩) := rfl
  exact ⟨_, _, parsed, parsed_free parsed⟩

end Testbus.Config
