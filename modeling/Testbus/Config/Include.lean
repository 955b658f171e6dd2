import Testbus.Lib.Machine
import Testbus.Xml.Node

namespace Testbus.Config

open Lib Xml

/-- What is at a path: no file, a file that is no XML document, or the root of a document. -/
inductive File
  | missing
  | broken
  | document (root : Node)

abbrev Files : Type := CString → File

def pathMax : Nat := 4096

/-- Where the name of a file is: in memory that nobody changes, or in the static buffer of
`ni_config_build_include`. -/
inductive Filename
  | own (name : CString)
  | fullname

/-- The static buffer, and the paths that were built. -/
structure Session where
  fullname : CString
  built : List CString

def Session.text (session : Session) : Filename → CString
  | .own name => name
  | .fullname => session.fullname

/-- An error that is reported, the comparison of a name that is `NULL`, and too many files in files. -/
inductive Stop
  | failed
  | nullName
  | tooDeep
  deriving DecidableEq

/-- A path up to its last slash. -/
def directory (path : CString) : CString := (path.reverse.dropWhile (· ≠ 47)).reverse

def isRelative (name : CString) : Bool := name.headD 0 ≠ 47

/-- `ni_config_build_include`, which overwrites its buffer with the name of the parent. The parent
may be in the buffer. -/
def configBuildInclude (parentFilename : Filename) (inclFilename : CString) (session : Session) :
    Except Stop (Filename × Session) :=
  if isRelative inclFilename then
    let parent := session.text parentFilename
    if pathMax ≤ parent.length then .error .failed
    else if pathMax ≤ (directory parent).length + inclFilename.length then .error .failed
    else
      let path := directory parent ++ inclFilename
      .ok (.fullname, ⟨path, session.built ++ [path]⟩)
  else .ok (.own inclFilename, { session with built := session.built ++ [inclFilename] })

/-- `xml_node_get_attr_boolean`, which takes a number for a value only if something follows it. -/
def getAttrBoolean (node : Node) (name : CString) : Option Bool := do
  let value ← node.getAttr name
  if strcaseeq value (ascii "true".toList) then some true
  else if strcaseeq value (ascii "false".toList) then some false
  else
    let (number, pos, _) := strtoul 0 value
    if pos = [] then none else some (number ≠ 0)

def include_ : CString := ascii "include".toList

section Resolve

variable (loadInclude : Filename → Node → Session → Except Stop (List Node × Session))
  (filename : Filename)

mutual

/-- A round of `__ni_config_resolve_includes`, with what an include element is replaced by. -/
def configResolveChild : Node → Session → Except Stop (List Node × Session)
  | .mk none _ _ _ _, _ => .error .nullName
  | .mk (some name) attrs cdata children line, session =>
    if name = include_ then loadInclude filename (.mk (some name) attrs cdata children line) session
    else do
      let (children, session) ← configResolveIncludes children session
      .ok ([.mk (some name) attrs cdata children line], session)

def configResolveIncludes : List Node → Session → Except Stop (List Node × Session)
  | [], session => .ok ([], session)
  | child :: rest, session => do
    let (nodes, session) ← configResolveChild child session
    let (later, session) ← configResolveIncludes rest session
    .ok (nodes ++ later, session)

end

end Resolve

def configLoadInclude (files : Files) : Nat → Filename → Node → Session → Except Stop (List Node × Session)
  | 0, _, _, _ => .error .tooDeep
  | depth + 1, filename, inclNode, session =>
    match inclNode.getAttr (ascii "name".toList) with
    | none => .error .failed
    | some attrval => do
      let (path, session) ← configBuildInclude filename attrval session
      match getAttrBoolean inclNode (ascii "optional".toList), files (session.text path) with
      | some true, .missing => .ok ([], session)
      | _, .document root =>
        configResolveIncludes (configLoadInclude files depth) path root.children session
      | _, _ => .error .failed

/-- `xml_node_get_child`, for the element `config`. -/
def getConfig : List Node → Except Stop Node
  | [] => .error .failed
  | .mk none _ _ _ _ :: _ => .error .nullName
  | .mk (some name) attrs cdata children line :: rest =>
    if name = ascii "config".toList then .ok (.mk (some name) attrs cdata children line)
    else getConfig rest

/-- `__ni_config_parse`, up to the loop over the elements. The buffer has what the last call left. -/
def configParse (files : Files) (depth : Nat) (fullname filename : CString) : Except Stop (Node × Session) :=
  match files filename with
  | .document root => do
    let node ← getConfig root.children
    let (children, session) ← configResolveIncludes (configLoadInclude files depth)
      (.own filename) node.children ⟨fullname, []⟩
    .ok (node.setChildren children, session)
  | _ => .error .failed

section Resolved

/-- The path that a name stands for in a file. -/
def taken (file name : CString) : CString := if isRelative name then directory file ++ name else name

/-- An include element that was met: the file that it is in, whether that was itself included by a
relative name, the name in the element, and whether its file is missing and it says that it is
optional by a number. -/
structure Include where
  file : CString
  nested : Bool
  name : CString
  numbered : Bool

def Include.path (met : Include) : CString := taken met.file met.name

/-- The word, or a number other than zero. -/
def Affirms (value : CString) : Prop :=
  strcaseeq value (ascii "true".toList) = true ∨
    (strtoul 0 value).1 ≠ 0 ∧ (strtoul 0 value).2.1 = []

/-- The elements of a file with each include element replaced by the elements of its file, and the
include elements that are met on the way. The derivation is finite: no file includes itself. -/
inductive Resolved (files : Files) :
    CString → Bool → List Node → List Node → List Include → Prop
  | nil {file nested} : Resolved files file nested [] [] []
  | element {file nested name attrs cdata children line rest children' nodes includes includes'}
      (other : name ≠ include_)
      (inner : Resolved files file nested children children' includes)
      (later : Resolved files file nested rest nodes includes') :
      Resolved files file nested (.mk (some name) attrs cdata children line :: rest)
        (.mk (some name) attrs cdata children' line :: nodes) (includes ++ includes')
  | vanished (met : Include) {attrs cdata children line rest value nodes includes}
      (named : (Node.mk (some include_) attrs cdata children line).getAttr (ascii "name".toList) =
        some met.name)
      (optional : (Node.mk (some include_) attrs cdata children line).getAttr
        (ascii "optional".toList) = some value)
      (affirmed : Affirms value) (missing : files met.path = .missing)
      (numbered : met.numbered = !strcaseeq value (ascii "true".toList))
      (later : Resolved files met.file met.nested rest nodes includes) :
      Resolved files met.file met.nested (.mk (some include_) attrs cdata children line :: rest) nodes
        (met :: includes)
  | included (met : Include) {attrs cdata children line rest root nodes nodes' includes includes'}
      (named : (Node.mk (some include_) attrs cdata children line).getAttr (ascii "name".toList) =
        some met.name)
      (found : files met.path = .document root) (numbered : met.numbered = false)
      (inner : Resolved files met.path (isRelative met.name) root.children nodes includes)
      (later : Resolved files met.file met.nested rest nodes' includes') :
      Resolved files met.file met.nested (.mk (some include_) attrs cdata children line :: rest)
        (nodes ++ nodes') (met :: (includes ++ includes'))

/-- The configuration in a file, with its includes resolved. -/
def Document (files : Files) (filename : CString) (config : Node) (includes : List Include) : Prop :=
  ∃ root node children, files filename = .document root ∧ getConfig root.children = .ok node ∧
    Resolved files filename false node.children children includes ∧
    config = node.setChildren children

/-- What the static buffer has after an include element. -/
def Include.leaves (last : CString) (met : Include) : CString :=
  if isRelative met.name then met.path else last

/-- The path whose directory is taken for a relative name. -/
def Include.parent (last : CString) (met : Include) : CString :=
  if met.nested then last else met.file

/-- A relative name is taken in the directory of the file, and no path is too long. -/
def Include.Reaches (last : CString) (met : Include) : Prop :=
  isRelative met.name = true → directory (met.parent last) = directory met.file ∧
    (met.parent last).length < pathMax ∧ met.path.length < pathMax

/-- Each include element reaches its file with what the ones before it left in the buffer, and is
not optional by a number where that is missing. -/
def Steady (last : CString) : List Include → Prop
  | [] => True
  | met :: rest => met.Reaches last ∧ met.numbered = false ∧ Steady (met.leaves last) rest

end Resolved

end Testbus.Config
