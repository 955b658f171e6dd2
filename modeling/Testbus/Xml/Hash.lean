import Testbus.Xml.Writer

namespace Testbus.Xml

open Testbus.Environ

/-- `xml_document_output` -/
def documentCalls (root : Node) : Option (List Bytes) := do
  let texts ← calls 0 root
  some (ascii "<?xml version=\"1.0\" encoding=\"utf8\"?>\n".toList :: texts)

/-- What `vsnprintf` leaves of a text in a buffer of `size` bytes. -/
def snprintf (size : Nat) (text : Bytes) : Bytes := text.take (size - 1)

/-- What `xml_writer_printf` hands to the file. -/
def filePrintf (text : Bytes) : Bytes := text

/-- What `xml_writer_printf` hands to the hash context. -/
def hashPrintf (text : Bytes) : Bytes := snprintf 256 text

def nodePrint (node : Node) : Option Bytes := (calls 0 node).map (List.flatMap filePrintf)

def nodeHash (node : Node) : Option Bytes := (calls 0 node).map (List.flatMap hashPrintf)

def documentPrint (root : Node) : Option Bytes := (documentCalls root).map (List.flatMap filePrintf)

def documentHash (root : Node) : Option Bytes := (documentCalls root).map (List.flatMap hashPrintf)

/-- The content of an element: it can be escaped, into a text that is not too long. -/
def FitsCdata (cdata : CString) : Prop :=
  (∀ b ∈ cdata, b < 128) ∧ (cdata.flatMap escape).length ≤ 255

mutual

/-- The indented start tag, each attribute, the content and the end tag have at most 255 bytes
each, and so it goes on below. -/
def Fits (indent : Nat) : Node → Prop
  | .mk (some name) attrs cdata children _ =>
    indent + name.length ≤ 254 ∧ (∀ attr ∈ attrs, (attrText attr).length ≤ 255) ∧
      (cdata ≠ none ∨ children ≠ [] → name.length ≤ 251) ∧
      (∀ text, cdata = some text → FitsCdata text) ∧ FitsChildren (indent + 2) children
  | .mk none _ cdata children _ =>
    (∀ text, cdata = some text → FitsCdata text) ∧ FitsChildren indent children

def FitsChildren (indent : Nat) : List Node → Prop
  | [] => True
  | child :: rest => Fits indent child ∧ FitsChildren indent rest

end

/-- The texts are all printed into the buffer of the hash without a loss. -/
def Short (texts : Option (List Bytes)) : Prop :=
  ∃ all, texts = some all ∧ ∀ text ∈ all, text.length ≤ 255

theorem short_cdataCalls (newline : Bool) (cdata : Option CString) :
    Short ((cdataCalls newline cdata).map Prod.fst) ↔ ∀ text, cdata = some text → FitsCdata text := by
  cases cdata with
  | none => simp [cdataCalls, Short]
  | some cdata =>
    simp only [Option.some.injEq, forall_eq', FitsCdata]
    have printed : Short ((cdataCalls newline (some cdata)).map Prod.fst) ↔
        ∃ escaped, xmlEscapeEntities cdata = some escaped ∧ escaped.text.length ≤ 255 := by
      rw [cdataCalls]
      cases xmlEscapeEntities cdata with
      | none => simp [Short]
      | some escaped =>
        simp only [Short, Option.bind_eq_bind, Option.bind_some, Option.map_some,
          Option.some.injEq, exists_eq_left', List.mem_append, List.mem_cons]
        refine ⟨fun short => short _ (.inr (.inl rfl)), ?_⟩
        rintro fits text (before | rfl | after)
        · split at before <;> simp_all
        · exact fits
        · split at after <;> simp_all
    rw [printed]
    by_cases low : ∀ b ∈ cdata, b < 128
    · -- a text for which the counter wraps is too long, escaped or not
      rw [and_iff_right low]
      by_cases room : expansion cdata < 2 ^ 32
      · obtain ⟨escaped, returned, same⟩ := Option.map_eq_some_iff.mp (xmlEscapeEntities_room low room)
        rw [returned, ← same]
        simp
      · have length := length_flatMap_escape cdata
        have counts := length_expansion cdata
        have size : expansion cdata = 5 * cdata.count 38 + 4 * cdata.count 60 + 4 * cdata.count 62 := rfl
        rw [xmlEscapeEntities_low low, if_neg room]
        refine iff_of_false ?_ (by omega)
        rintro ⟨escaped, returned, short⟩
        split at returned
        · cases returned
          simp only at short
          omega
        · cases returned
    · refine iff_of_false ?_ fun fits => low fits.1
      rintro ⟨escaped, returned, -⟩
      refine low fun b member => ?_
      by_contra high
      rw [xmlEscapeEntities_high member high] at returned
      cases returned

theorem length_spaces (indent : Nat) : (spaces indent).length = indent := List.length_replicate

@[simp] theorem short_none : ¬ Short none := nofun

@[simp] theorem short_some : Short (some texts) ↔ ∀ text ∈ texts, text.length ≤ 255 :=
  ⟨fun ⟨_, same, short⟩ => Option.some.inj same ▸ short, fun short => ⟨texts, rfl, short⟩⟩

/-- The texts around the content and the children of an element. -/
theorem short_element {name : CString} {attrs : List NiVar} {text elements gap last : List Bytes}
    (gaps : ∀ t ∈ gap, t = [10]) (lasts : ∀ t ∈ last, t = spaces indent) :
    (∀ t ∈ (spaces indent ++ 60 :: name) :: (attrs.map attrText ++ [62] :: (text ++ gap ++ elements ++
      last ++ [ascii "</".toList ++ name ++ ascii ">\n".toList])), t.length ≤ 255) ↔
      indent + name.length ≤ 254 ∧ (∀ attr ∈ attrs, (attrText attr).length ≤ 255) ∧
        name.length ≤ 251 ∧ (∀ t ∈ text, t.length ≤ 255) ∧ ∀ t ∈ elements, t.length ≤ 255 := by
  have front : (spaces indent ++ 60 :: name).length = indent + name.length + 1 := by
    simp [length_spaces, Nat.add_assoc]
  have back : (ascii "</".toList ++ name ++ ascii ">\n".toList).length = name.length + 4 := by
    simp [ascii]
  constructor
  · intro short
    have start := short _ List.mem_cons_self
    have stop := short (ascii "</".toList ++ name ++ ascii ">\n".toList) (by simp)
    refine ⟨by omega, fun attr member => ?_, by omega, fun t member => ?_, fun t member => ?_⟩
    · exact short _ (List.mem_cons_of_mem _ (List.mem_append_left _ (List.mem_map_of_mem member)))
    · exact short t (by simp [member])
    · exact short t (by simp [member])
  · rintro ⟨start, attributes, stop, texts, others⟩ t member
    simp only [List.mem_cons, List.mem_append, List.mem_map, List.not_mem_nil, or_false] at member
    rcases member with
      rfl | ⟨attr, member, rfl⟩ | rfl | (((member | member) | member) | member) | rfl
    · omega
    · exact attributes attr member
    · decide
    · exact texts t member
    · rw [gaps t member]
      decide
    · exact others t member
    · rw [lasts t member, length_spaces]
      omega
    · omega

mutual

theorem short_calls (indent : Nat) : ∀ node, Short (calls indent node) ↔ Fits indent node
  | .mk (some name) attrs cdata children line => by
    have text := short_cdataCalls false cdata
    have elements := short_callsChildren (indent + 2) children
    rw [Fits, ← text, ← elements]
    by_cases empty : cdata = none ∧ children.isEmpty
    · obtain ⟨rfl, none_⟩ := empty
      obtain rfl := List.isEmpty_iff.mp none_
      have start : (spaces indent ++ 60 :: name).length = indent + name.length + 1 := by
        simp [length_spaces, Nat.add_assoc]
      simp only [calls, cdataCalls, callsChildren, List.isEmpty_nil, and_self, if_true, short_some,
        List.forall_mem_cons, List.forall_mem_append, List.forall_mem_map, start]
      have counted : indent + name.length + 1 ≤ 255 ↔ indent + name.length ≤ 254 := by omega
      simp only [counted]
      simp [ascii]
    · have filled : cdata ≠ none ∨ children ≠ [] := by
        by_contra bare
        obtain ⟨single, childless⟩ := not_or.mp bare
        exact empty ⟨not_not.mp single, List.isEmpty_iff.mpr (not_not.mp childless)⟩
      rw [calls, if_neg empty]
      cases cdataCalls false cdata with
      | none => simp
      | some found =>
        obtain ⟨text, newline⟩ := found
        cases callsChildren (indent + 2) children with
        | none => simp
        | some elements =>
          simp only [Option.bind_eq_bind, Option.bind_some, Option.map_some, short_some]
          rw [short_element]
          · simp [filled]
          · intro t member
            split at member <;> simp_all
          · intro t member
            split at member <;> simp_all
  | .mk none attrs cdata children line => by
    have text := short_cdataCalls true cdata
    have elements := short_callsChildren indent children
    rw [calls, Fits, ← text, ← elements]
    cases cdataCalls true cdata with
    | none => simp
    | some found =>
      cases callsChildren indent children with
      | none => simp
      | some elements => simp [or_imp, forall_and]

theorem short_callsChildren (indent : Nat) :
    ∀ children, Short (callsChildren indent children) ↔ FitsChildren indent children
  | [] => by simp [callsChildren, FitsChildren]
  | child :: rest => by
    rw [callsChildren, FitsChildren, ← short_calls indent child, ← short_callsChildren indent rest]
    cases calls indent child with
    | none => simp
    | some first =>
      cases callsChildren indent rest with
      | none => simp
      | some others => simp [or_imp, forall_and]

end

/-- A text that is cut anywhere leaves less to hash. -/
theorem flatMap_hashPrintf (texts : List Bytes) :
    texts.flatMap hashPrintf = texts.flatMap filePrintf ↔ ∀ text ∈ texts, text.length ≤ 255 := by
  have shorter : ∀ texts : List Bytes, (texts.flatMap hashPrintf).length ≤ (texts.flatMap filePrintf).length := by
    intro texts
    induction texts with
    | nil => rfl
    | cons text rest ih =>
      simp only [List.flatMap_cons, List.length_append, hashPrintf, snprintf, filePrintf, List.length_take]
      omega
  constructor
  · intro same
    induction texts with
    | nil => simp
    | cons text rest ih =>
      have lengths := congrArg List.length same
      have others := shorter rest
      simp only [List.flatMap_cons, List.length_append, hashPrintf, snprintf, filePrintf,
        List.length_take] at lengths same others
      have fits : text.length ≤ 255 := by omega
      rw [List.take_of_length_le fits] at same
      exact List.forall_mem_cons.mpr ⟨fits, ih (List.append_cancel_left same)⟩
  · intro short
    exact List.flatMap_congr fun text member => List.take_of_length_le (short text member)

/-- The hash context gets what the file gets. -/
def HashesPrint (hash print : Node → Option Bytes) (node : Node) : Prop :=
  ∃ bytes, print node = some bytes ∧ hash node = some bytes

/-- What is hashed tells apart what prints differently. -/
def TellsApart (hash print : Node → Option Bytes) (nodes : Set Node) : Prop :=
  ∀ a ∈ nodes, ∀ b ∈ nodes, print a ≠ print b → hash a ≠ hash b

theorem hashesPrint_of_short {texts : Node → Option (List Bytes)} :
    HashesPrint (fun node => (texts node).map (List.flatMap hashPrintf))
      (fun node => (texts node).map (List.flatMap filePrintf)) node ↔ Short (texts node) := by
  unfold HashesPrint
  dsimp only
  cases texts node with
  | none => simp
  | some all =>
    simp only [Option.map_some, Option.some.injEq, exists_eq_left', short_some]
    exact flatMap_hashPrintf all

theorem short_documentCalls {root : Node} : Short (documentCalls root) ↔ Fits 0 root := by
  rw [← short_calls, documentCalls]
  cases calls 0 root with
  | none => simp
  | some texts =>
    simp only [Option.bind_eq_bind, Option.bind_some, short_some, List.forall_mem_cons]
    exact and_iff_right (by decide)

theorem tellsApart_of_hashesPrint {hash print : Node → Option Bytes} {nodes : Set Node}
    (same : ∀ node ∈ nodes, HashesPrint hash print node) : TellsApart hash print nodes := by
  intro a memberA b memberB different
  obtain ⟨first, printA, hashA⟩ := same a memberA
  obtain ⟨second, printB, hashB⟩ := same b memberB
  rw [hashA, hashB, ← printA, ← printB]
  exact different

/-- A node or a document is hashed as it is printed if and only if nothing of it is longer than the
buffer, and it is told apart from any other one like that. -/
theorem hashesPrint_iff (root : Node) :
    (HashesPrint nodeHash nodePrint root ↔ Fits 0 root) ∧
      (HashesPrint documentHash documentPrint root ↔ Fits 0 root) ∧
      (Fits 0 root → ∀ other, Fits 0 other →
        TellsApart nodeHash nodePrint {root, other} ∧
          TellsApart documentHash documentPrint {root, other}) := by
  have nodes (node : Node) : HashesPrint nodeHash nodePrint node ↔ Fits 0 node :=
    hashesPrint_of_short.trans (short_calls 0 node)
  have documents (node : Node) : HashesPrint documentHash documentPrint node ↔ Fits 0 node :=
    hashesPrint_of_short.trans short_documentCalls
  refine ⟨nodes root, documents root, fun fits other fits' => ⟨?_, ?_⟩⟩
  · apply tellsApart_of_hashesPrint
    rintro node (rfl | rfl)
    · exact (nodes _).mpr fits
    · exact (nodes _).mpr fits'
  · apply tellsApart_of_hashesPrint
    rintro node (rfl | rfl)
    · exact (documents _).mpr fits
    · exact (documents _).mpr fits'

/-- An element with a long text. -/
def longText (last : UInt8) : Node :=
  .mk (some (ascii ['a'])) [] (some (List.replicate 255 97 ++ [last])) [] none

/-- Two texts that differ behind their first 255 bytes have the same hash. -/
theorem hash_longText : ¬ HashesPrint nodeHash nodePrint (longText 98) ∧
    ¬ TellsApart nodeHash nodePrint {longText 98, longText 99} := by
  constructor
  · rintro ⟨bytes, printed, hashed⟩
    exact absurd (hashed.trans printed.symm) (by decide +kernel)
  · intro claimed
    exact claimed (longText 98) (.inl rfl) (longText 99) (.inr rfl) (by decide +kernel) (by decide +kernel)

end Testbus.Xml
