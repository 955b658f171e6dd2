import Testbus.Xml.Node

/-! The XML writer: the text of each call of `xml_writer_printf`, and all of them together. Escaping
entities goes over the text twice, to count the length and to write. -/

namespace Testbus.Xml

open Testbus.Environ

/-- `(unsigned int) *pos`, for a `char` with a sign. -/
def charIndex (cc : UInt8) : UInt32 := cc.toInt8.toInt32.toUInt32

/-- `escmap`, where all other entries are `NULL`. -/
def escmap (index : Fin 256) : Option Bytes :=
  if index = 60 then some (ascii "&lt;".toList)
  else if index = 62 then some (ascii "&gt;".toList)
  else if index = 38 then some (ascii "&amp;".toList)
  else none

/-- `escmap[(unsigned int) *pos]`, or nothing for an index outside the table. -/
def replacement (cc : UInt8) : Option (Option Bytes) :=
  if inside : (charIndex cc).toNat < 256 then some (escmap ⟨_, inside⟩) else none

/-- The first pass. -/
def expandLoop : CString → UInt32 → Option UInt32
  | [], expand => some expand
  | cc :: rest, expand => do
    match ← replacement cc with
    | some replace => expandLoop rest (expand + UInt32.ofNat replace.length)
    | none => expandLoop rest expand

/-- The second pass, with what it writes before the NUL. -/
def copyLoop : CString → Option Bytes
  | [] => some []
  | cc :: rest => do
    let replace ← replacement cc
    let copy ← copyLoop rest
    some (replace.getD [cc] ++ copy)

/-- What `xml_escape_entities` returns, and the length of the block that it allocated for it. -/
structure Escaped where
  text : CString
  allocated : Option Nat
  deriving DecidableEq

/-- `xml_escape_entities`, or nothing when it reads outside `escmap` or writes behind its block. -/
def xmlEscapeEntities (cdata : CString) : Option Escaped := do
  let expand ← expandLoop cdata 0
  if expand = 0 then some { text := cdata, allocated := none }
  else
    let copy ← copyLoop cdata
    let allocated := expand.toNat + cdata.length + 1
    if allocated < copy.length + 1 then none else some { text := copy, allocated := some allocated }

def spaces (indent : Nat) : Bytes := List.replicate indent 32

/-- One attribute, as `xml_escape_quote` leaves its value. -/
def attrText (attr : NiVar) : Bytes :=
  match attr.value with
  | some value => 32 :: attr.name ++ ascii "=\"".toList ++ value ++ [34]
  | none => 32 :: attr.name

/-- The texts that are printed one by one for the content of an element, and whether what follows
starts on a new line. -/
def cdataCalls (newline : Bool) : Option CString → Option (List Bytes × Bool)
  | none => some ([], newline)
  | some cdata => do
    let broken := cdata.contains 10
    let escaped ← xmlEscapeEntities cdata
    let newline := newline || broken
    let len := UInt32.ofNat cdata.length
    some ((if broken then [[10]] else []) ++ escaped.text ::
      (if newline && len ≠ 0 && cdata[(len - 1).toNat]? ≠ some 10 then [[10]] else []), newline)

mutual

/-- `xml_node_output`, with the text of each call of `xml_writer_printf`. -/
def calls (indent : Nat) : Node → Option (List Bytes)
  | .mk (some name) attrs cdata children _ =>
    if cdata = none ∧ children.isEmpty then
      some ((spaces indent ++ 60 :: name) :: (attrs.map attrText ++ [ascii "/>\n".toList]))
    else do
      let (text, newline) ← cdataCalls false cdata
      let elements ← callsChildren (indent + 2) children
      let broken := newline || !children.isEmpty
      some ((spaces indent ++ 60 :: name) :: (attrs.map attrText ++ [62] :: (text ++
        (if !newline && !children.isEmpty then [[10]] else []) ++ elements ++
        (if broken then [spaces indent] else []) ++
        [ascii "</".toList ++ name ++ ascii ">\n".toList])))
  | .mk none _ cdata children _ => do
    let (text, _) ← cdataCalls true cdata
    let elements ← callsChildren indent children
    some (text ++ elements)

def callsChildren (indent : Nat) : List Node → Option (List Bytes)
  | [] => some []
  | child :: rest => do
    let first ← calls indent child
    let others ← callsChildren indent rest
    some (first ++ others)

end

/-- What `xml_node_output` writes to a file. -/
def output (indent : Nat) (node : Node) : Option Bytes := (calls indent node).map List.flatten

def outputChildren (indent : Nat) (children : List Node) : Option Bytes :=
  (callsChildren indent children).map List.flatten

/-- What `escmap` has for a byte, or the byte itself. -/
def escape (cc : UInt8) : Bytes :=
  if cc = 60 then ascii "&lt;".toList
  else if cc = 62 then ascii "&gt;".toList
  else if cc = 38 then ascii "&amp;".toList
  else [cc]

section Table

variable {cc : UInt8}

theorem charIndex_lt : (charIndex cc).toNat < 256 ↔ cc < 128 := by
  have all : ∀ cc : UInt8, (charIndex cc).toNat < 256 ↔ cc < 128 := forall_byte (by decide +kernel)
  exact all cc

theorem replacement_high (high : ¬ cc < 128) : replacement cc = none := dif_neg (mt charIndex_lt.mp high)

/-- The entry of a byte below 128, and what it adds to the length of the text. -/
theorem replacement_low (low : cc < 128) :
    ∃ replace, replacement cc = some replace ∧ escape cc = replace.getD [cc] ∧
      replace.elim 0 List.length = if cc = 38 then 5 else if cc = 60 ∨ cc = 62 then 4 else 0 := by
  have all : ∀ cc : UInt8, cc < 128 → ∃ replace ∈ [none, some (escape cc)],
      replacement cc = some replace ∧ escape cc = replace.getD [cc] ∧
      replace.elim 0 List.length = if cc = 38 then 5 else if cc = 60 ∨ cc = 62 then 4 else 0 :=
    forall_byte (by decide +kernel)
  obtain ⟨replace, -, facts⟩ := all cc low
  exact ⟨replace, facts⟩

theorem length_escape (cc : UInt8) : (escape cc).length = if cc = 38 then 5 else if cc = 60 ∨ cc = 62 then 4 else 1 := by
  revert cc
  exact forall_byte (by decide +kernel)

end Table

section Passes

variable {cdata : CString}

/-- What the first pass counts, in full. -/
def expansion (cdata : CString) : Nat :=
  5 * cdata.count 38 + 4 * cdata.count 60 + 4 * cdata.count 62

theorem expansion_cons (cc : UInt8) (rest : CString) :
    expansion (cc :: rest) = (if cc = 38 then 5 else if cc = 60 ∨ cc = 62 then 4 else 0) + expansion rest := by
  simp only [expansion, List.count_cons, beq_iff_eq]
  split_ifs with first second <;> simp_all <;> omega

theorem expandLoop_low (low : ∀ b ∈ cdata, b < 128) (expand : UInt32) :
    expandLoop cdata expand = some (expand + UInt32.ofNat (expansion cdata)) := by
  induction cdata generalizing expand with
  | nil => simp [expandLoop, expansion]
  | cons cc rest ih =>
    obtain ⟨here, later⟩ := List.forall_mem_cons.mp low
    obtain ⟨replace, entry, -, length⟩ := replacement_low here
    rw [expandLoop, entry, expansion_cons, ← length]
    cases replace with
    | none => simpa using ih later expand
    | some replace =>
      have next := ih later (expand + UInt32.ofNat replace.length)
      simpa [UInt32.add_assoc] using next

theorem expandLoop_high (member : b ∈ cdata) (high : ¬ b < 128) (expand : UInt32) : expandLoop cdata expand = none := by
  induction cdata generalizing expand with
  | nil => cases member
  | cons cc rest ih =>
    rw [expandLoop]
    rcases List.mem_cons.mp member with rfl | later
    · rw [replacement_high high]
      rfl
    · cases replacement cc with
      | none => rfl
      | some replace =>
        cases replace with
        | none => exact ih later _
        | some replace => exact ih later _

theorem copyLoop_low (low : ∀ b ∈ cdata, b < 128) : copyLoop cdata = some (cdata.flatMap escape) := by
  induction cdata with
  | nil => rfl
  | cons cc rest ih =>
    obtain ⟨here, later⟩ := List.forall_mem_cons.mp low
    obtain ⟨replace, entry, same, -⟩ := replacement_low here
    simp only [copyLoop, entry, ih later, List.flatMap_cons, same, Option.bind_eq_bind, Option.bind_some]

/-- The bytes that have an entity are replaced by it, and are counted as if they stayed. -/
theorem length_flatMap_escape (cdata : CString) :
    (cdata.flatMap escape).length + cdata.count 38 + cdata.count 60 + cdata.count 62 =
      cdata.length + expansion cdata := by
  induction cdata with
  | nil => rfl
  | cons cc rest ih =>
    rw [expansion_cons, List.flatMap_cons, List.length_append, length_escape]
    simp only [List.count_cons, beq_iff_eq, List.length_cons]
    split_ifs with first second third <;> simp_all <;> omega

theorem length_expansion (cdata : CString) : expansion cdata ≤ 5 * cdata.length := by
  induction cdata with
  | nil => exact Nat.le_refl _
  | cons cc rest ih =>
    rw [expansion_cons, List.length_cons]
    split_ifs <;> omega

theorem flatMap_escape_nothing (nothing : expansion cdata = 0) : cdata.flatMap escape = cdata := by
  induction cdata with
  | nil => rfl
  | cons cc rest ih =>
    rw [expansion_cons] at nothing
    rw [List.flatMap_cons, ih (by omega), escape]
    split_ifs <;> simp_all

/-- The block has room for what is written unless the counter has wrapped. -/
theorem xmlEscapeEntities_low (low : ∀ b ∈ cdata, b < 128) :
    xmlEscapeEntities cdata =
      if 2 ^ 32 ∣ expansion cdata then some { text := cdata, allocated := none }
      else if expansion cdata < 2 ^ 32 then
        some { text := cdata.flatMap escape, allocated := some (expansion cdata + cdata.length + 1) }
      else none := by
  have length := length_flatMap_escape cdata
  have size : expansion cdata = 5 * cdata.count 38 + 4 * cdata.count 60 + 4 * cdata.count 62 := rfl
  have wraps : UInt32.ofNat (expansion cdata) = 0 ↔ 2 ^ 32 ∣ expansion cdata := by
    rw [← UInt32.toNat_inj, UInt32.toNat_ofNat', UInt32.toNat_zero, Nat.dvd_iff_mod_eq_zero]
  simp only [xmlEscapeEntities, expandLoop_low low, copyLoop_low low, UInt32.zero_add, Option.bind_eq_bind,
    Option.bind_some, UInt32.toNat_ofNat', wraps]
  by_cases none_ : 2 ^ 32 ∣ expansion cdata
  · rw [if_pos none_, if_pos none_]
  rw [if_neg none_, if_neg none_]
  by_cases room : expansion cdata < 2 ^ 32
  · rw [if_pos room, Nat.mod_eq_of_lt room, if_neg (by omega)]
  · have more : 1 ≤ expansion cdata / 2 ^ 32 := Nat.div_pos (Nat.le_of_not_lt room) (by decide)
    have counts : 4 * (cdata.count 38 + cdata.count 60 + cdata.count 62) ≤ expansion cdata := by omega
    rw [if_neg room, if_pos (by omega)]

theorem xmlEscapeEntities_high (member : b ∈ cdata) (high : ¬ b < 128) : xmlEscapeEntities cdata = none := by
  rw [xmlEscapeEntities, expandLoop_high member high]
  rfl

theorem xmlEscapeEntities_room (low : ∀ b ∈ cdata, b < 128) (room : expansion cdata < 2 ^ 32) :
    (xmlEscapeEntities cdata).map Escaped.text = some (cdata.flatMap escape) := by
  rw [xmlEscapeEntities_low low]
  split_ifs with none_
  · rw [flatMap_escape_nothing (Nat.eq_zero_of_dvd_of_lt none_ room)]
    rfl
  · rfl

/-- The texts for a content that the counters of the writer hold. -/
theorem cdataCalls_room (low : ∀ b ∈ cdata, b < 128) (room : expansion cdata < 2 ^ 32)
    (length : cdata.length < 2 ^ 32) (newline : Bool) :
    cdataCalls newline (some cdata) = some ((if cdata.contains 10 then [[10]] else []) ++ cdata.flatMap escape ::
      (if (newline || cdata.contains 10) && cdata ≠ [] && cdata.getLast? ≠ some 10 then [[10]] else []),
      newline || cdata.contains 10) := by
  obtain ⟨⟨text, allocated⟩, returned, same⟩ := Option.map_eq_some_iff.mp (xmlEscapeEntities_room low room)
  obtain rfl : text = cdata.flatMap escape := same
  simp only [cdataCalls, returned, Option.bind_eq_bind, Option.bind_some]
  cases cdata with
  | nil => rfl
  | cons cc rest =>
    have len : UInt32.ofNat (cc :: rest).length ≠ 0 := by
      rw [Ne, ← UInt32.toNat_inj, UInt32.toNat_ofNat', Nat.mod_eq_of_lt length]
      exact Nat.succ_ne_zero _
    have last : (UInt32.ofNat (cc :: rest).length - 1).toNat = (cc :: rest).length - 1 := by
      rw [List.length_cons, UInt32.ofNat_add, UInt32.ofNat_one, UInt32.add_sub_cancel, UInt32.toNat_ofNat',
        Nat.mod_eq_of_lt (Nat.lt_of_succ_lt length)]
      rfl
    rw [last, ← List.getLast?_eq_getElem?]
    simp only [ne_eq, len, not_false_eq_true, decide_true, Bool.and_true, List.cons_ne_nil]

end Passes

section Output

variable {attrs : List NiVar} {children : List Node} {line : Option UInt32} {indent : Nat}

theorem output_bare (name : CString) : output indent (.mk (some name) attrs none [] line) =
    some (spaces indent ++ 60 :: name ++ attrs.flatMap attrText ++ ascii "/>\n".toList) := by
  simp [output, calls, List.flatMap_def]

theorem outputChildren_cons {child : Node} (first : output indent child = some element)
    (others : outputChildren indent children = some elements) :
    outputChildren indent (child :: children) = some (element ++ elements) := by
  obtain ⟨texts, calls₁, rfl⟩ := Option.map_eq_some_iff.mp first
  obtain ⟨rest, calls₂, rfl⟩ := Option.map_eq_some_iff.mp others
  simp [outputChildren, callsChildren, calls₁, calls₂]

end Output

end Testbus.Xml
