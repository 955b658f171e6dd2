import Testbus.Schema.Text
import Testbus.Util.Stringbuf

namespace Testbus.Util

open Lib Machine
open Cells (Fault)

/-- `"%02x"` of an `unsigned char`. -/
def hexOctet (octet : UInt8) : CString :=
  [Schema.hexDigit (octet >>> 4), Schema.hexDigit (octet &&& 15)]

/-- `snprintf` of an octet to the place `j`, where there is room for `size` characters. -/
def snprintfOctet (namebuf : Bytes) (j size : Nat) (octet : UInt8) : Except Fault Bytes :=
  if size = 0 then .ok namebuf
  else Cells.write namebuf j ((hexOctet octet).take (size - 1) ++ [0])

def formatHexLoop (namelen : Nat) : (i j : Nat) → Bytes → Bytes → Except Fault Bytes
  | _, _, namebuf, [] => .ok namebuf
  | i, j, namebuf, octet :: data =>
    if namelen ≤ (j + 4) % 2 ^ 32 then .ok namebuf
    else do
      let (namebuf, j) ←
        if i = 0 then .ok (namebuf, j)
        else do .ok (← Cells.store namebuf j 58, (j + 1) % 2 ^ 32)
      let namebuf ← snprintfOctet namebuf j (sizeSub namelen j) octet
      formatHexLoop namelen (i + 1) ((j + 2) % 2 ^ 32) namebuf data

def niFormatHex (data namebuf : Bytes) : Except Fault Bytes :=
  formatHexLoop namebuf.length 0 0 namebuf data

/-- A digit of the base must follow the prefix. -/
def skipPrefix : CString → CString
  | 48 :: x :: c :: rest =>
    if tolower x = 120 && (digitValue c).isSome then c :: rest else 48 :: x :: c :: rest
  | number => number

/-- The sign of a number in base 16, and the number without what is in front of it. -/
def hexNumber (text : CString) : Bool × CString :=
  (takeSign (text.dropWhile isspace)).map id skipPrefix

/-- `strtoul` with base 16: the value, and what follows the number. -/
def strtoulHex (text : CString) : Nat × CString :=
  let (negative, number) := hexNumber text
  let (value, rest) := digits 16 0 number
  if rest.length = number.length then (0, text)
  else if 2 ^ 64 ≤ value then (2 ^ 64 - 1, rest)
  else (if negative then (2 ^ 64 - value) % 2 ^ 64 else value, rest)

theorem takeSign_suffix (text : CString) : (takeSign text).2 <:+ text := by
  unfold takeSign
  split
  · exact List.suffix_cons _ _
  · exact List.suffix_cons _ _
  · exact List.suffix_refl _

theorem skipPrefix_suffix (text : CString) : skipPrefix text <:+ text := by
  unfold skipPrefix
  split
  · split
    · exact (List.suffix_cons _ _).trans (List.suffix_cons _ _)
    · exact List.suffix_refl _
  · exact List.suffix_refl _

theorem hexNumber_suffix (text : CString) : (hexNumber text).2 <:+ text :=
  (skipPrefix_suffix _).trans ((takeSign_suffix _).trans (List.dropWhile_suffix _))

theorem strtoulHex_suffix (text : CString) : (strtoulHex text).2 <:+ text := by
  have behind := (digits_suffix 16 0 (hexNumber text).2).trans (hexNumber_suffix text)
  unfold strtoulHex
  dsimp only
  split
  · exact List.suffix_refl _
  · split
    · exact behind
    · exact behind

/-- An octet is an `unsigned int` until it is stored. -/
def parseHexLoop (data : Bytes) (len : Nat) (string : CString) : Except Fault (Int × Bytes) :=
  let octet := (strtoulHex string).1 % 2 ^ 32
  if 255 < octet then .ok (-1, data)
  else do
    let data ← Cells.store data len (UInt8.ofNat octet)
    match read : (strtoulHex string).2 with
    | [] => .ok (intOf (len + 1), data)
    | cc :: rest =>
      if cc ≠ 58 then .ok (-1, data)
      else if data.length ≤ len + 1 then .ok (-1, data)
      else parseHexLoop data (len + 1) rest
termination_by string.length
decreasing_by
  have shorter := (strtoulHex_suffix string).length_le
  rw [read, List.length_cons] at shorter
  omega

def niParseHex (string : CString) (data : Bytes) : Except Fault (Int × Bytes) :=
  parseHexLoop data 0 string

/-- What `tolower` leaves of a digit in base 16. -/
def nibble (cc : UInt8) : Option UInt8 :=
  if isdigit cc then some (cc - 48)
  else if 97 ≤ cc ∧ cc ≤ 102 then some (cc - 97 + 10)
  else none

/-- A separator behind an octet is skipped. -/
def skipSeparator : CString → CString
  | 45 :: rest => rest
  | 58 :: rest => rest
  | string => string

def uuidParseLoop (nibbles : Nat) (byte : UInt8) (octets : Bytes) : CString → Int × Bytes
  | [] => (if nibbles < 32 then -1 else 0, octets)
  | cc :: string =>
    if nibbles = 32 then (-1, octets)
    else
      match nibble (tolower cc) with
      | none => (-1, octets)
      | some digit =>
        let byte := byte <<< 4 ||| digit
        if (nibbles + 1) % 2 = 0 then
          uuidParseLoop (nibbles + 1) 0 (octets.set ((nibbles + 1) / 2 - 1) byte)
            (skipSeparator string)
        else uuidParseLoop (nibbles + 1) byte octets string
termination_by string => string.length
decreasing_by
  · have shorter : (skipSeparator string).length ≤ string.length := by
      unfold skipSeparator
      split <;> simp
    simp only [List.length_cons]
    omega
  · simp

def niUuidParse (uuid : Option Bytes) (string : Option CString) : Int × Option Bytes :=
  match uuid, string with
  | some octets, some string =>
    if string = [] then (0, some (List.replicate 16 0))
    else (uuidParseLoop 0 0 octets string).map id some
  | uuid, _ => (-1, uuid)

/-- `ni_uuid_is_null`; the words of a uuid are 0. -/
def niUuidIsNull (octets : Bytes) : Bool := octets.all (· = 0)

def niUuidPrint (uuid : Option Bytes) : Option CString :=
  uuid.map fun octets =>
    if niUuidIsNull octets then []
    else
      let print (first count : Nat) := ((octets.drop first).take count).flatMap hexOctet
      print 0 4 ++ 45 :: print 4 2 ++ 45 :: print 6 2 ++ 45 :: print 8 2 ++ 45 :: print 10 6

/-- Octets with a colon in front of each. -/
def sepText (octets : Bytes) : CString := octets.flatMap fun octet => 58 :: hexOctet octet

/-- Octets with colons between them. -/
def hexText : Bytes → CString
  | [] => []
  | octet :: rest => hexOctet octet ++ sepText rest

/-- A buffer of three bytes for each octet gets text that is parsed to the octets, and a shorter one
gets the text of some of them. -/
def Formats (data : Bytes) (namelen : Nat) : Prop :=
  ∀ namebuf : Bytes, namebuf.length = namelen → ∃ result, niFormatHex data namebuf = .ok result ∧
    if 3 * data.length ≤ namelen then
      0 ∈ result ∧ ∀ octets : Bytes, data.length ≤ octets.length → octets.length < 2 ^ 32 →
        niParseHex (cstr result) octets = .ok (data.length, data ++ octets.drop data.length)
    else ∃ m rest, result = hexText (data.take m) ++ 0 :: rest

/-- A number in base 16 that fits into an octet, and nothing else. -/
def Octet (text : CString) : Prop :=
  text ≠ [] ∧ (∀ c ∈ text, (digitValue c).isSome) ∧ (digits 16 0 text).1 ≤ 255

/-- Nothing is written behind the octets, and text is accepted only if it is octets between
colons. -/
def Parses (string : CString) (octets : Bytes) : Prop :=
  ∃ value octets', niParseHex string octets = .ok (value, octets') ∧
    (0 ≤ value → ∀ text ∈ string.splitOn 58, Octet text)

/-- The printed form of every uuid is parsed to the uuid. -/
def UuidsRestored : Prop :=
  ∀ uuid old : Bytes, uuid.length = 16 → old.length = 16 →
    niUuidParse (some old) (niUuidPrint (some uuid)) = (0, some uuid)

/-- There is room for an octet and two more characters. A buffer whose size is less than 2^32 does not
fit exactly; another one has room for all of the text, where at most the last octet wraps. -/
structure FormatFits (count namelen : Nat) : Prop where
  room : 5 ≤ namelen
  inexact : namelen < 2 ^ 32 → namelen ≠ 3 * count
  whole : 2 ^ 32 ≤ namelen → 3 * count ≤ namelen ∧ 3 * count ≤ 2 ^ 32 + 2

/-- `strtoul` takes the text for an octet. -/
def Taken (text : CString) : Prop :=
  (strtoulHex text).2 = [] ∧ (strtoulHex text).1 % 2 ^ 32 ≤ 255

/-- What `strtoul` takes besides octets: nothing at all, white space, a sign or `0x` in front of a
number, and numbers from 2^32 on. -/
def Lax (text : CString) : Prop :=
  text = [] ∨ (∃ c rest, text = c :: rest ∧ (isspace c = true ∨ c = 43 ∨ c = 45)) ∨
    (∃ x rest, text = 48 :: x :: rest ∧ tolower x = 120) ∨ 2 ^ 32 ≤ (digits 16 0 text).1

/-- Nothing is read where no octet fits, and what is taken is not lax. -/
structure ParseFits (string : CString) (datasize : Nat) : Prop where
  room : datasize = 0 → 255 < (strtoulHex string).1 % 2 ^ 32
  strict : (∀ text ∈ string.splitOn 58, Taken text) → (string.splitOn 58).length ≤ datasize →
    (string.splitOn 58).length < 2 ^ 31 → ∀ text ∈ string.splitOn 58, ¬ Lax text

theorem hexOctet_plain (octet : UInt8) : 0 ∉ hexOctet octet ∧ 58 ∉ hexOctet octet := by
  revert octet
  exact forall_byte (by decide +kernel)

theorem sepText_cons (octet : UInt8) (rest : Bytes) :
    sepText (octet :: rest) = 58 :: hexOctet octet ++ sepText rest := rfl

theorem sepText_nonzero (octets : Bytes) : 0 ∉ sepText octets := by
  intro member
  obtain ⟨octet, -, here⟩ := List.mem_flatMap.mp member
  rcases List.mem_cons.mp here with zero | inside
  · cases zero
  · exact (hexOctet_plain octet).1 inside

theorem length_sepText (octets : Bytes) : (sepText octets).length = 3 * octets.length := by
  induction octets with
  | nil => rfl
  | cons octet rest ih =>
    simp only [sepText_cons, hexOctet, List.length_append, List.length_cons, List.length_nil, ih]
    omega

theorem hexText_nonzero (data : Bytes) : 0 ∉ hexText data := by
  cases data with
  | nil => exact List.not_mem_nil
  | cons octet rest =>
    rw [hexText, List.mem_append, not_or]
    exact ⟨(hexOctet_plain octet).1, sepText_nonzero rest⟩

theorem length_hexText (some_ : data ≠ []) : (hexText data).length + 1 = 3 * data.length := by
  obtain ⟨octet, rest, rfl⟩ := List.exists_cons_of_ne_nil some_
  simp only [hexText, hexOctet, List.length_append, List.length_cons, List.length_nil, length_sepText]
  omega

theorem cstr_text (rest : Bytes) (nonzero : 0 ∉ text) : cstr (text ++ 0 :: rest) = text := by
  rw [cstr, List.takeWhile_append_of_pos fun b member => ?_]
  · simp
  · exact decide_eq_true fun zero => nonzero (zero ▸ member)

theorem cstr_front (text rest : CString) : cstr (text ++ 0 :: rest) <+: text := by
  induction text with
  | nil => exact List.nil_prefix
  | cons c text ih =>
    rw [cstr, List.cons_append, List.takeWhile_cons]
    split
    · exact List.cons_prefix_cons.mpr ⟨rfl, ih⟩
    · exact List.nil_prefix

theorem length_splitOn (text : CString) : (text.splitOn 58).length = text.count 58 + 1 := by
  induction text with
  | nil => rfl
  | cons c rest ih =>
    rw [List.splitOn_cons_eq_if_modifyHead, List.count_cons]
    split
    · rw [List.length_cons, ih]
    · rw [List.length_modifyHead, ih]

theorem splitOn_octets (clean : 58 ∉ text) (octets : Bytes) :
    (text ++ sepText octets).splitOn 58 = text :: octets.map hexOctet := by
  induction octets generalizing text with
  | nil => rw [sepText, List.flatMap_nil, List.append_nil, List.splitOn_eq_singleton clean]; rfl
  | cons octet rest ih =>
    rw [sepText_cons, List.cons_append, List.splitOn_append_cons_self_of_not_mem clean,
      ih (hexOctet_plain octet).2, List.map_cons]

theorem splitOn_hexText (some_ : data ≠ []) : (hexText data).splitOn 58 = data.map hexOctet := by
  obtain ⟨octet, rest, rfl⟩ := List.exists_cons_of_ne_nil some_
  exact splitOn_octets (hexOctet_plain octet).2 rest

section Formatting

variable {namelen : Nat} {octet : UInt8}

/-- An octet behind others: what there is no room for is cut off. -/
theorem format_step {i : Nat} {front more : Bytes} {old : UInt8}
    (length : front.length + 1 + more.length = namelen) (some_ : more ≠ [])
    (goes : (front.length + 4) % 2 ^ 32 < namelen) (counts : front.length + 1 < 2 ^ 32) (data : Bytes) :
    formatHexLoop namelen (i + 1) front.length (front ++ old :: more) (octet :: data) =
      formatHexLoop namelen (i + 2) ((front.length + 3) % 2 ^ 32)
        (front ++ 58 :: ((hexOctet octet).take (more.length - 1) ++ 0 :: more.drop
          (min 2 (more.length - 1) + 1))) data := by
  have positive := List.length_pos_of_ne_nil some_
  have size : sizeSub namelen (front.length + 1) = more.length := by
    rw [sizeSub, if_pos (by omega)]
    omega
  have written : ((hexOctet octet).take (more.length - 1) ++ [0]).length = min 2 (more.length - 1) + 1 := by
    simp only [hexOctet, List.length_append, List.length_take, List.length_cons, List.length_nil]
    omega
  have wrote := Cells.write_end (front ++ [58])
    (show ((hexOctet octet).take (more.length - 1) ++ [0]).length ≤ more.length by omega)
  rw [List.length_append, List.length_singleton, written] at wrote
  rw [formatHexLoop, if_neg (Nat.not_le.mpr goes), if_neg (Nat.succ_ne_zero i)]
  simp only [Cells.store_middle, bind, Except.bind, Nat.mod_eq_of_lt counts, size, snprintfOctet,
    if_neg (Nat.ne_of_gt positive)]
  rw [List.append_cons front 58 more, wrote]
  simp only [List.append_assoc, List.cons_append, List.nil_append]

theorem octet_whole {front more : Bytes} (room : 3 ≤ more.length) :
    front ++ 58 :: ((hexOctet octet).take (more.length - 1) ++ 0 :: more.drop
      (min 2 (more.length - 1) + 1)) = front ++ sepText [octet] ++ 0 :: more.drop 3 := by
  have all : (hexOctet octet).take (more.length - 1) = hexOctet octet :=
    List.take_of_length_le (show 2 ≤ more.length - 1 by omega)
  rw [all, show min 2 (more.length - 1) + 1 = 3 by omega]
  simp only [sepText, List.flatMap_cons, List.flatMap_nil, List.append_nil, List.append_assoc, List.cons_append]

/-- An octet that there is room for. -/
theorem format_octet {i : Nat} {front more : Bytes} {old : UInt8}
    (length : front.length + 1 + more.length = namelen) (room : 3 ≤ more.length)
    (goes : (front.length + 4) % 2 ^ 32 < namelen) (counts : front.length + 1 < 2 ^ 32) (data : Bytes) :
    formatHexLoop namelen (i + 1) front.length (front ++ old :: more) (octet :: data) =
      formatHexLoop namelen (i + 2) ((front.length + 3) % 2 ^ 32)
        (front ++ sepText [octet] ++ 0 :: more.drop 3) data := by
  rw [format_step length (List.ne_nil_of_length_pos (by omega)) goes counts, octet_whole room]

/-- Octets that there is room for. -/
theorem format_block {i : Nat} {front more : Bytes} {old : UInt8} (octets data : Bytes)
    (length : front.length + 1 + more.length = namelen) (room : 3 * (octets.length + 1) ≤ more.length)
    (goes : 2 ^ 32 ≤ namelen ∨ front.length + 3 * (octets.length + 1) + 1 < namelen)
    (counts : front.length + 3 * (octets.length + 1) ≤ 2 ^ 32 + 1) :
    formatHexLoop namelen (i + 1) front.length (front ++ old :: more) (octet :: octets ++ data) =
      formatHexLoop namelen (i + 2 + octets.length) ((front.length + 3 * (octets.length + 1)) % 2 ^ 32)
        (front ++ sepText (octet :: octets) ++ 0 :: more.drop (3 * (octets.length + 1))) data := by
  induction octets generalizing i front more old octet with
  | nil => exact format_octet length room (by omega) (by omega) data
  | cons second rest ih =>
    rw [List.length_cons] at room goes counts
    have behind : (front ++ sepText [octet]).length = front.length + 3 := by
      rw [List.length_append, length_sepText]
      rfl
    have left : (more.drop 3).length = more.length - 3 := List.length_drop
    rw [List.cons_append, format_octet length (by omega) (by omega) (by omega), Nat.mod_eq_of_lt (by omega), ← behind,
      ih (by omega) (by omega) (by omega) (by omega), behind, List.drop_drop, List.length_cons,
      show i + 1 + 2 + rest.length = i + 2 + (rest.length + 1) by omega,
      show front.length + 3 + 3 * (rest.length + 1) = front.length + 3 * (rest.length + 1 + 1) by omega,
      show 3 + 3 * (rest.length + 1) = 3 * (rest.length + 1 + 1) by omega]
    simp only [sepText, List.flatMap_cons, List.flatMap_nil, List.append_nil, List.append_assoc]

variable {data namebuf : Bytes}

/-- The first octets, where there is room for them and nothing wraps but with the last of them. -/
theorem format_front {m : Nat} (size : namebuf.length = namelen) (enough : 5 ≤ namelen)
    (some_ : 0 < m) (most : m ≤ data.length) (room : 3 * m ≤ namelen)
    (goes : 2 ^ 32 ≤ namelen ∨ 3 * m < namelen) (counts : 3 * m ≤ 2 ^ 32 + 2) :
    niFormatHex data namebuf = formatHexLoop namelen m ((3 * m - 1) % 2 ^ 32)
      (hexText (data.take m) ++ 0 :: namebuf.drop (3 * m)) (data.drop m) := by
  obtain ⟨m, rfl⟩ := Nat.exists_eq_add_of_le' some_
  obtain ⟨octet, rest, rfl⟩ := List.exists_cons_of_length_pos (show 0 < data.length by omega)
  have first : niFormatHex (octet :: rest) namebuf = formatHexLoop namelen 1 2
      (hexOctet octet ++ 0 :: namebuf.drop 3) rest := by
    have wrote := Cells.write_end [] (show (hexOctet octet ++ [0]).length ≤ namebuf.length by
      rw [size]
      exact Nat.le_trans (show 3 ≤ 5 by decide) enough)
    have all : (hexOctet octet).take (namelen - 1) = hexOctet octet :=
      List.take_of_length_le (show 2 ≤ namelen - 1 by omega)
    rw [niFormatHex, size, formatHexLoop, if_neg (by omega), if_pos rfl]
    simp only [bind, Except.bind, snprintfOctet, sizeSub, if_pos (Nat.zero_le _), Nat.sub_zero,
      if_neg (show namelen ≠ 0 by omega), all]
    rw [show Cells.write namebuf 0 (hexOctet octet ++ [0]) = _ from wrote, List.nil_append, List.append_assoc]
    rfl
  cases m with
  | zero =>
    rw [first]
    simp [hexText, sepText]
  | succ m =>
    obtain ⟨second, others, rfl⟩ := List.exists_cons_of_length_pos (show 0 < rest.length by
      rw [List.length_cons] at most
      omega)
    simp only [List.length_cons] at most
    have taken : (others.take m).length = m := List.length_take_of_le (by omega)
    have block := @format_block namelen second 0 (hexOctet octet) (namebuf.drop 3) 0 (others.take m) (others.drop m)
    rw [List.cons_append, List.take_append_drop, taken, List.length_drop, size, List.drop_drop,
      show (hexOctet octet).length = 2 from rfl] at block
    rw [first, block (by omega) (by omega) (by omega) (by omega), List.drop_succ_cons,
      List.drop_succ_cons, List.take_succ_cons, List.take_succ_cons, hexText,
      show 0 + 2 + m = m + 1 + 1 by omega, show 2 + 3 * (m + 1) = 3 * (m + 1 + 1) - 1 by omega,
      show 3 + 3 * (m + 1) = 3 * (m + 1 + 1) by omega]

end Formatting

section Parsing

variable {front back data : Bytes} {old : UInt8} {text : CString} {len : Nat}

theorem digits_append (base value : Nat) (text more : CString) :
    digits base value (text ++ 58 :: more) = ((digits base value text).1, (digits base value text).2 ++ 58 :: more) := by
  induction text generalizing value with
  | nil =>
    have colon : digitValue 58 = none := by decide
    simp only [List.nil_append, digits, colon]
  | cons c rest ih =>
    simp only [List.cons_append, digits]
    split
    · split
      · exact ih _
      · rfl
    · rfl

theorem skipPrefix_append (number more : CString) :
    skipPrefix (number ++ 58 :: more) = skipPrefix number ++ 58 :: more := by
  have colon : (digitValue 58).isSome = false := by decide
  rcases number with _ | ⟨c, _ | ⟨x, _ | ⟨d, rest⟩⟩⟩
  · rfl
  · by_cases zero : c = 48
    · subst zero
      cases more <;> rfl
    · simp [skipPrefix, zero]
  · by_cases zero : c = 48
    · subst zero
      simp [skipPrefix, colon]
    · simp [skipPrefix, zero]
  · by_cases zero : c = 48
    · subst zero
      simp only [List.cons_append, skipPrefix]
      split
      · rfl
      · rfl
    · simp [skipPrefix, zero]

theorem hexNumber_append (text more : CString) :
    hexNumber (text ++ 58 :: more) = ((hexNumber text).1, (hexNumber text).2 ++ 58 :: more) := by
  have spaces : (text ++ 58 :: more).dropWhile isspace = text.dropWhile isspace ++ 58 :: more := by
    induction text with
    | nil => rfl
    | cons c rest ih =>
      rw [List.cons_append, List.dropWhile_cons, List.dropWhile_cons]
      split
      · exact ih
      · rfl
  have sign (number : CString) : takeSign (number ++ 58 :: more) =
      ((takeSign number).1, (takeSign number).2 ++ 58 :: more) := by
    unfold takeSign
    cases number with
    | nil => rfl
    | cons c rest =>
      rw [List.cons_append]
      split
      all_goals simp_all
  simp only [hexNumber, spaces, sign, skipPrefix_append, Prod.map]

theorem strtoulHex_append (text more : CString) :
    strtoulHex (text ++ 58 :: more) = ((strtoulHex text).1, (strtoulHex text).2 ++ 58 :: more) := by
  unfold strtoulHex
  simp only [hexNumber_append, digits_append, List.length_append, Nat.add_right_cancel_iff]
  split
  · rfl
  · split
    · rfl
    · rfl

theorem parseHexLoop_eq (data : Bytes) (len : Nat) (string : CString) :
    parseHexLoop data len string = (if 255 < (strtoulHex string).1 % 2 ^ 32 then .ok (-1, data)
      else do
        let data ← Cells.store data len (UInt8.ofNat ((strtoulHex string).1 % 2 ^ 32))
        match (strtoulHex string).2 with
        | [] => .ok (intOf (len + 1), data)
        | cc :: rest =>
          if cc ≠ 58 then .ok (-1, data)
          else if data.length ≤ len + 1 then .ok (-1, data)
          else parseHexLoop data (len + 1) rest) := by
  rw [parseHexLoop]
  congr 1
  congr 1
  funext data
  split
  · next read => rw [read]
  · next read => rw [read]

/-- The octet that `strtoul` takes. -/
def octetOf (text : CString) : UInt8 := UInt8.ofNat ((strtoulHex text).1 % 2 ^ 32)

theorem parse_last (taken : Taken text) :
    parseHexLoop (front ++ old :: back) front.length text =
      .ok (intOf (front.length + 1), front ++ octetOf text :: back) := by
  rw [parseHexLoop_eq, if_neg (Nat.not_lt.mpr taken.2), Cells.store_middle]
  simp only [bind, Except.bind, taken.1]
  rfl

theorem parse_next (taken : Taken text) (more : CString) :
    parseHexLoop (front ++ old :: back) front.length (text ++ 58 :: more) =
      if back = [] then .ok (-1, front ++ octetOf text :: back)
      else parseHexLoop (front ++ octetOf text :: back) (front.length + 1) more := by
  rw [parseHexLoop_eq, strtoulHex_append, if_neg (Nat.not_lt.mpr taken.2), Cells.store_middle]
  simp only [bind, Except.bind, taken.1, List.nil_append, ne_eq, not_true, if_false, List.length_append, List.length_cons]
  cases back with
  | nil => rw [if_pos (by simp), if_pos rfl]; rfl
  | cons next back => rw [if_neg (by simp), if_neg (by simp)]; rfl

theorem parse_refused (clean : 58 ∉ text) (refused : ¬ Taken text) (ends : tail = [] ∨ ∃ more, tail = 58 :: more) (room : len < data.length) :
    ∃ data', parseHexLoop data len (text ++ tail) = .ok (-1, data') := by
  have read : strtoulHex (text ++ tail) = ((strtoulHex text).1, (strtoulHex text).2 ++ tail) := by
    rcases ends with rfl | ⟨more, rfl⟩
    · simp only [List.append_nil]
    · exact strtoulHex_append text more
  rw [parseHexLoop_eq, read]
  by_cases large : 255 < (strtoulHex text).1 % 2 ^ 32
  · exact ⟨_, if_pos large⟩
  · rw [if_neg large, Cells.store_of_lt room]
    obtain ⟨c, rest, same⟩ := List.exists_cons_of_ne_nil fun whole =>
      refused ⟨whole, Nat.not_lt.mp large⟩
    have other : c ≠ 58 := by
      rintro rfl
      exact clean ((strtoulHex_suffix text).subset (same ▸ List.mem_cons_self))
    simp only [bind, Except.bind, same, List.cons_append, if_pos other]
    exact ⟨_, rfl⟩

/-- A text is its first octet, or that and what is behind the colon. -/
theorem split_cases (string : CString) : ∃ text tail, string = text ++ tail ∧ 58 ∉ text ∧
    (tail = [] ∧ string.splitOn 58 = [text] ∨
      ∃ more, tail = 58 :: more ∧ string.splitOn 58 = text :: more.splitOn 58) := by
  by_cases colon : 58 ∈ string
  · obtain ⟨text, more, rfl, clean⟩ := List.eq_append_cons_of_mem colon
    exact ⟨text, _, rfl, clean, .inr ⟨more, rfl, List.splitOn_append_cons_self_of_not_mem clean _⟩⟩
  · exact ⟨string, [], (List.append_nil _).symm, colon, .inl ⟨rfl, List.splitOn_eq_singleton colon⟩⟩

/-- What is taken is parsed, if there is room for it. -/
theorem parse_taken {string : CString} (taken : ∀ text ∈ string.splitOn 58, Taken text)
    (fits : (string.splitOn 58).length ≤ back.length + 1) :
    parseHexLoop (front ++ old :: back) front.length string =
      .ok (intOf (front.length + (string.splitOn 58).length),
        front ++ (string.splitOn 58).map octetOf ++ (old :: back).drop (string.splitOn 58).length) := by
  induction length : string.length using Nat.strongRecOn generalizing front old back string with
  | _ n ih =>
    obtain ⟨text, tail, rfl, clean, ⟨rfl, same⟩ | ⟨more, rfl, same⟩⟩ := split_cases string
    · rw [same] at taken ⊢
      rw [List.append_nil, parse_last (taken text List.mem_cons_self)]
      simp
    · rw [same] at taken fits ⊢
      obtain ⟨here, later⟩ := List.forall_mem_cons.mp taken
      rw [List.length_cons] at fits ⊢
      have some_ := List.length_pos_of_ne_nil (List.splitOn_ne_nil 58 more)
      obtain ⟨next, back, rfl⟩ := List.exists_cons_of_length_pos (show 0 < back.length by omega)
      have rest := @ih more.length (by rw [← length]; simp; omega) (front ++ [octetOf text]) back next
        more later (by simpa using fits) rfl
      rw [parse_next here, if_neg (List.cons_ne_nil _ _)]
      simp only [List.length_append, List.length_singleton, List.append_assoc, List.singleton_append] at rest
      rw [rest, List.map_cons, List.drop_succ_cons, Nat.add_right_comm, Nat.add_assoc]
      simp

/-- What is not taken, or has no room, is refused. -/
theorem parse_not_taken {string : CString}
    (not : ¬ ((∀ text ∈ string.splitOn 58, Taken text) ∧ (string.splitOn 58).length ≤ back.length + 1)) :
    ∃ data, parseHexLoop (front ++ old :: back) front.length string = .ok (-1, data) := by
  induction length : string.length using Nat.strongRecOn generalizing front old back string with
  | _ n ih =>
    have room : front.length < (front ++ old :: back).length := by simp
    obtain ⟨text, tail, rfl, clean, ⟨rfl, same⟩ | ⟨more, rfl, same⟩⟩ := split_cases string
    · refine parse_refused clean (fun taken => not ?_) (.inl rfl) room
      rw [same]
      exact ⟨List.forall_mem_singleton.mpr taken, Nat.succ_le_succ (Nat.zero_le _)⟩
    · by_cases taken : Taken text
      · rw [parse_next taken]
        cases back with
        | nil => exact ⟨_, if_pos rfl⟩
        | cons next back =>
          rw [if_neg (List.cons_ne_nil _ _), List.append_cons]
          have rest := @ih more.length (by rw [← length]; simp; omega) (front ++ [octetOf text]) back
            next more
          rw [List.length_append, List.length_singleton] at rest
          refine rest (fun both => not ?_) rfl
          rw [same, List.length_cons]
          exact ⟨List.forall_mem_cons.mpr ⟨taken, both.1⟩, Nat.succ_le_succ both.2⟩
      · exact parse_refused clean taken (.inr ⟨more, rfl⟩) room

theorem intOf_small (small : n < 2 ^ 31) : intOf n = n := by
  unfold intOf
  omega

theorem intOf_large (large : 2 ^ 31 ≤ n) (counts : n < 2 ^ 32) : intOf n < 0 := by
  unfold intOf
  omega

theorem octet_taken (octet : UInt8) : Taken (hexOctet octet) ∧ octetOf (hexOctet octet) = octet := by
  have all : ∀ octet, strtoulHex (hexOctet octet) = (octet.toNat, []) := forall_byte (by decide +kernel)
  have read := all octet
  have small : octet.toNat % 2 ^ 32 = octet.toNat := by
    have := octet.toNat_lt
    omega
  refine ⟨⟨by rw [read], ?_⟩, ?_⟩
  · rw [read, small]
    exact Nat.le_of_lt_succ octet.toNat_lt
  · rw [octetOf, read, small, UInt8.ofNat_toNat]

/-- The text of octets is parsed to the octets. -/
theorem parse_hexText (some_ : data ≠ []) (room : data.length ≤ octets.length) :
    niParseHex (hexText data) octets = .ok (intOf data.length, data ++ octets.drop data.length) := by
  have positive := List.length_pos_of_ne_nil some_
  obtain ⟨old, back, rfl⟩ := List.exists_cons_of_length_pos (show 0 < octets.length by omega)
  have split := splitOn_hexText some_
  have same : (data.map hexOctet).map octetOf = data := by
    rw [List.map_map]
    exact List.map_id'' (fun octet => (octet_taken octet).2) data
  have parsed := @parse_taken [] back old (hexText data) (by
    rw [split, List.forall_mem_map]
    exact fun octet _ => (octet_taken octet).1) (by simpa [split] using room)
  rw [split, same, List.length_map] at parsed
  simpa [niParseHex] using parsed

/-- What is parsed has as many octets as there are texts between colons. -/
theorem length_parsed (some_ : octets ≠ []) (counts : octets.length < 2 ^ 32) (accepted : 0 ≤ value)
    (parsed : niParseHex string octets = .ok (value, octets')) :
    (∀ text ∈ string.splitOn 58, Taken text) ∧ (string.splitOn 58).length ≤ octets.length ∧
      (string.splitOn 58).length < 2 ^ 31 ∧ value = (string.splitOn 58).length := by
  obtain ⟨old, back, rfl⟩ := List.exists_cons_of_ne_nil some_
  by_cases taken : (∀ text ∈ string.splitOn 58, Taken text) ∧ (string.splitOn 58).length ≤ back.length + 1
  · have ran := @parse_taken [] back old string taken.1 taken.2
    rw [List.length_nil, Nat.zero_add] at ran
    obtain ⟨rfl, -⟩ := Prod.mk.inj (Except.ok.inj (ran.symm.trans parsed))
    have small : (string.splitOn 58).length < 2 ^ 31 := by
      refine Nat.not_le.mp fun large => ?_
      have negative := intOf_large large (Nat.lt_of_le_of_lt taken.2 counts)
      omega
    exact ⟨taken.1, taken.2, small, intOf_small small⟩
  · obtain ⟨data, ran⟩ := @parse_not_taken [] back old string taken
    cases ran.symm.trans parsed
    exact absurd accepted (by decide)

end Parsing

section Formats

variable {data : Bytes}

/-- The text of a buffer that is not large: as many octets as leave room for one character more. -/
theorem format_small (some_ : data ≠ []) (size : namebuf.length = namelen)
    (enough : 5 ≤ namelen) (small : namelen < 2 ^ 32) :
    ∃ rest, niFormatHex data namebuf = .ok (hexText (data.take (min data.length ((namelen - 1) / 3))) ++ 0 :: rest) := by
  have positive := List.length_pos_of_ne_nil some_
  obtain ⟨m, chosen⟩ : ∃ m, m = min data.length ((namelen - 1) / 3) := ⟨_, rfl⟩
  rw [← chosen]
  refine ⟨namebuf.drop (3 * m), ?_⟩
  rw [@format_front namelen data namebuf m size enough (by omega) (by omega) (by omega) (by omega) (by omega)]
  by_cases whole : m = data.length
  · rw [whole, List.drop_length, formatHexLoop]
  · obtain ⟨octet, others, same⟩ := List.exists_cons_of_length_pos
      (show 0 < (data.drop m).length by rw [List.length_drop]; omega)
    rw [same, formatHexLoop, if_pos (by omega)]

/-- The text of a large buffer, unless more than the last octet wraps. -/
theorem format_large (some_ : data ≠ []) (size : namebuf.length = namelen)
    (large : 2 ^ 32 ≤ namelen) (whole : 3 * data.length ≤ namelen) (counts : 3 * data.length ≤ 2 ^ 32 + 2) :
    ∃ rest, niFormatHex data namebuf = .ok (hexText data ++ 0 :: rest) := by
  refine ⟨namebuf.drop (3 * data.length), ?_⟩
  rw [format_front size (by omega) (List.length_pos_of_ne_nil some_) (Nat.le_refl _) whole
    (.inl large) counts, List.take_length, List.drop_length, formatHexLoop]

/-- A colon is the first or the second character, where the text of octets has digits. -/
def Jumbled (result : Bytes) : Prop :=
  ∃ front rest, result = front ++ 58 :: rest ∧ front.length ≤ 1 ∧ 0 ∉ front

theorem not_jumbled : ¬ Jumbled (hexText octets ++ 0 :: rest) := by
  rintro ⟨front, behind, same, short, nonzero⟩
  cases octets with
  | nil =>
    cases front with
    | nil => cases same
    | cons c front =>
      rw [← (List.cons.inj same).1] at nonzero
      exact nonzero List.mem_cons_self
  | cons octet others =>
    have clean := (hexOctet_plain octet).2
    rw [hexOctet, List.mem_cons, List.mem_singleton, not_or] at clean
    rcases front with _ | ⟨c, _ | ⟨d, front⟩⟩
    · exact clean.1 (List.cons.inj same).1.symm
    · exact clean.2 (List.cons.inj (List.cons.inj same).2).1.symm
    · exact absurd short (by simp)

theorem Jumbled.kept (jumbled : Jumbled result) (behind : 2 ≤ j) : Jumbled (result.take j ++ rest) := by
  obtain ⟨front, others, rfl, short, nonzero⟩ := jumbled
  obtain ⟨d, rfl⟩ := Nat.exists_eq_add_of_le (show front.length + 1 ≤ j by omega)
  refine ⟨front, others.take d ++ rest, ?_, short, nonzero⟩
  rw [Nat.add_assoc, List.take_length_add_append, Nat.add_comm 1, List.take_succ_cons,
    List.append_assoc, List.cons_append]

/-- Where the loop is when `j` has wrapped and some octets were printed since then. If the buffer was
large enough for the last octet before, it has as many colons as these in front of its NUL. -/
structure Wrapped (namelen printed j : Nat) (namebuf : Bytes) : Prop where
  size : namebuf.length = namelen
  small : j < 2 ^ 32
  place : j = 1 + 3 * printed ∨ j + 2 ^ 32 = 1 + 3 * printed
  jumbled : if printed = 0 then 0 ∉ namebuf.take 1 else Jumbled namebuf
  behind : 2 ^ 32 + 2 ≤ namelen → (namebuf.take j).count 58 ≤ printed
  text : 2 ^ 32 + 2 ≤ namelen → 0 < printed → ∃ text rest, namebuf = text ++ 0 :: rest ∧
    text.count 58 ≤ printed

theorem Wrapped.step (octet : UInt8) (wrapped : Wrapped namelen printed j namebuf) (large : 2 ^ 32 ≤ namelen)
    (few : 3 * printed ≤ 2 ^ 33 - 3) (data : Bytes) :
    ∃ j' namebuf', formatHexLoop namelen (i + 1) j namebuf (octet :: data) =
      formatHexLoop namelen (i + 2) j' namebuf' data ∧ Wrapped namelen (printed + 1) j' namebuf' := by
  obtain ⟨size, small, place, jumbled, behind, -⟩ := wrapped
  have counts : j + 1 < 2 ^ 32 := by omega
  obtain ⟨old, more, split⟩ := List.exists_cons_of_length_pos (show 0 < (namebuf.drop j).length by
    rw [List.length_drop]
    omega)
  have whole : namebuf = namebuf.take j ++ old :: more := by rw [← split, List.take_append_drop]
  have front : (namebuf.take j).length = j := List.length_take_of_le (by omega)
  have lengths : j + 1 + more.length = namelen := by
    have := congrArg List.length split
    rw [List.length_drop, List.length_cons] at this
    omega
  have stepped := @format_step namelen octet i (namebuf.take j) more old (by omega)
    (List.ne_nil_of_length_pos (by omega)) (by rw [front]; omega) (by omega) data
  rw [← whole, front] at stepped
  have count : (namebuf.take j ++ sepText [octet]).count 58 = (namebuf.take j).count 58 + 1 := by
    have clean := List.count_eq_zero.mpr (hexOctet_plain octet).2
    simp [sepText, clean]
  refine ⟨_, _, stepped, ?_, Nat.mod_lt _ (by decide), by omega, ?_, fun room => ?_, fun room _ => ?_⟩
  · simp only [hexOctet, List.length_append, List.length_cons, List.length_take, List.length_drop, List.length_nil]
    omega
  · rw [if_neg (Nat.succ_ne_zero _)]
    by_cases first : printed = 0
    · rw [if_pos first] at jumbled
      obtain rfl : j = 1 := by omega
      exact ⟨_, _, rfl, Nat.le_of_eq front, jumbled⟩
    · rw [if_neg first] at jumbled
      by_cases start : j = 0
      · subst start
        exact ⟨[], _, rfl, Nat.zero_le _, List.not_mem_nil⟩
      · exact jumbled.kept (by omega)
  · rw [octet_whole (by omega)]
    by_cases wraps : j + 3 < 2 ^ 32
    · rw [Nat.mod_eq_of_lt wraps, List.take_left' (by simp [front, length_sepText]), count]
      exact Nat.succ_le_succ (behind room)
    · rw [show (j + 3) % 2 ^ 32 = 0 by omega]
      exact Nat.zero_le _
  · exact ⟨_, _, octet_whole (by omega), by rw [count]; exact Nat.succ_le_succ (behind room)⟩

theorem Wrapped.run {i printed j : Nat} {namebuf : Bytes}
    (wrapped : Wrapped namelen printed j namebuf) (large : 2 ^ 32 ≤ namelen)
    (few : 3 * (printed + data.length) ≤ 2 ^ 33) :
    ∃ j' result, formatHexLoop namelen (i + 1) j namebuf data = .ok result ∧
      Wrapped namelen (printed + data.length) j' result := by
  induction data generalizing i printed j namebuf with
  | nil => exact ⟨j, namebuf, rfl, wrapped⟩
  | cons octet rest ih =>
    rw [List.length_cons] at few
    obtain ⟨j', namebuf', stepped, wrapped'⟩ := wrapped.step octet large (by omega) rest
    obtain ⟨j'', result, ran, final⟩ := @ih (i + 1) _ _ _ wrapped' (by omega)
    rw [List.length_cons, Nat.add_comm rest.length, ← Nat.add_assoc]
    exact ⟨j'', result, stepped.trans ran, final⟩

theorem Wrapped.begin (head : namebuf.take 1 = (hexOctet octet).take 1) (size : namebuf.length = namelen) :
    Wrapped namelen 0 1 namebuf := by
  obtain ⟨nonzero, clean⟩ := hexOctet_plain octet
  refine ⟨size, by decide, .inl rfl, ?_, fun _ => ?_, fun _ positive => absurd positive (by decide)⟩
  · rw [if_pos rfl, head]
    exact fun member => nonzero (List.mem_of_mem_take member)
  · rw [head]
    exact Nat.le_of_eq (List.count_eq_zero.mpr fun member => clean (List.mem_of_mem_take member))

/-- A large buffer that ends in the last octet before `j` wraps. -/
theorem format_cut (most : 3 * K + 1 = 2 ^ 32)
    (size : namebuf.length = namelen) (large : 2 ^ 32 ≤ namelen) (ends : namelen < 2 ^ 32 + 2) (many : K < data.length) :
    ∃ digits, digits.length ≤ 1 ∧ 0 ∉ digits ∧ ∃ rest, niFormatHex data namebuf =
        formatHexLoop namelen (K + 1) 1 (hexText (data.take K) ++ 58 :: digits ++ 0 :: rest) (data.drop (K + 1)) ∧
      (hexText (data.take K) ++ 58 :: digits ++ 0 :: rest).length = namelen := by
  obtain ⟨k, rfl⟩ := Nat.exists_eq_add_of_le' (show 1 ≤ K by omega)
  obtain ⟨octet, others, split⟩ := List.exists_cons_of_length_pos
    (show 0 < (data.drop (k + 1)).length by rw [List.length_drop]; omega)
  have later : data.drop (k + 1 + 1) = others := by rw [← List.drop_drop, split]; rfl
  have taken : (data.take (k + 1)).length = k + 1 := List.length_take_of_le (by omega)
  have text := length_hexText (List.ne_nil_of_length_pos (by omega : 0 < (data.take (k + 1)).length))
  have left : (namebuf.drop (3 * (k + 1))).length = namelen - 3 * (k + 1) := by
    rw [List.length_drop, size]
  have front := @format_front namelen data namebuf (k + 1) size (by omega) (by omega) (by omega)
    (by omega) (.inl large) (by omega)
  rw [split, show (3 * (k + 1) - 1) % 2 ^ 32 = (hexText (data.take (k + 1))).length by omega,
    format_step (by omega) (List.ne_nil_of_length_pos (by omega)) (by omega) (by omega),
    show ((hexText (data.take (k + 1))).length + 3) % 2 ^ 32 = 1 by omega, left] at front
  obtain ⟨nonzero, -⟩ := hexOctet_plain octet
  refine ⟨(hexOctet octet).take (namelen - 3 * (k + 1) - 1), ?_,
    fun member => nonzero (List.mem_of_mem_take member), (namebuf.drop (3 * (k + 1))).drop
      (min 2 (namelen - 3 * (k + 1) - 1) + 1), ?_, ?_⟩
  · rw [List.length_take]
    omega
  · rw [later, List.append_assoc, List.cons_append]
    exact front
  · simp only [List.length_append, List.length_cons, List.length_take, List.length_drop, hexOctet, List.length_nil]
    omega

/-- Octets are printed over the text when more than the last octet wraps, or that one is cut off. -/
theorem format_wrapped (size : namebuf.length = namelen)
    (large : 2 ^ 32 ≤ namelen) (counts : data.length < 2 ^ 32) (many : 2 ^ 32 + 2 < 3 * data.length) :
    ∃ result, niFormatHex data namebuf = .ok result ∧ Jumbled result ∧
      (2 ^ 32 + 2 ≤ namelen → ∃ text rest, result = text ++ 0 :: rest ∧ text.count 58 + 1 < data.length) := by
  obtain ⟨K, most⟩ : ∃ K, 3 * K + 1 = 2 ^ 32 := ⟨1431655765, by decide⟩
  obtain ⟨octet, others, rfl⟩ := List.exists_cons_of_length_pos (show 0 < data.length by omega)
  obtain ⟨namebuf', begun, first, size'⟩ : ∃ namebuf',
      niFormatHex (octet :: others) namebuf = formatHexLoop namelen (K + 1) 1 namebuf' ((octet :: others).drop (K + 1)) ∧
      namebuf'.take 1 = (hexOctet octet).take 1 ∧ namebuf'.length = namelen := by
    by_cases room : 2 ^ 32 + 2 ≤ namelen
    · have front := @format_front namelen (octet :: others) namebuf (K + 1) size (by omega)
        (by omega) (by omega) (by omega) (.inl large) (by omega)
      rw [show (3 * (K + 1) - 1) % 2 ^ 32 = 1 by omega] at front
      refine ⟨_, front, rfl, ?_⟩
      have text := length_hexText (List.cons_ne_nil octet (others.take K))
      rw [List.length_cons] at many
      simp only [List.take_succ_cons, List.length_append, List.length_cons, List.length_drop, List.length_take] at text ⊢
      omega
    · obtain ⟨digits, -, -, rest, cut, length⟩ := format_cut most size large (by omega)
        (show K < (octet :: others).length by omega)
      obtain ⟨k, rfl⟩ := Nat.exists_eq_add_of_le' (show 1 ≤ K by omega)
      exact ⟨_, cut, rfl, length⟩
  obtain ⟨j, result, ran, wrapped⟩ := @Wrapped.run ((octet :: others).drop (K + 1)) namelen K 0 1
    namebuf' (.begin first size') large (by rw [List.length_drop]; omega)
  rw [Nat.zero_add, List.length_drop] at wrapped
  have jumbled := wrapped.jumbled
  rw [if_neg (by omega)] at jumbled
  refine ⟨result, begun.trans ran, jumbled, fun room => ?_⟩
  obtain ⟨text, rest, same, count⟩ := wrapped.text room (by omega)
  exact ⟨text, rest, same, by omega⟩

/-- Where the text is not that of some of the octets, and has less colons than they need. -/
theorem not_formats (some_ : data ≠ []) (counts : data.length < 2 ^ 32)
    (size : namebuf.length = namelen) (ran : niFormatHex data namebuf = .ok result)
    (few : 3 * data.length ≤ namelen → 0 ∈ result → ((cstr result).splitOn 58).length < data.length)
    (other : namelen < 3 * data.length → ∀ m rest, result ≠ hexText (data.take m) ++ 0 :: rest) :
    ¬ Formats data namelen := by
  intro formats
  obtain ⟨result', ran', holds⟩ := formats namebuf size
  cases ran.symm.trans ran'
  split at holds
  next whole =>
    obtain ⟨ends, parsed⟩ := holds
    obtain ⟨-, -, -, same⟩ := length_parsed some_ counts (by omega) (parsed data (Nat.le_refl _) counts)
    have := few whole ends
    omega
  next short =>
    obtain ⟨m, rest, same⟩ := holds
    exact other (Nat.not_le.mp short) m rest same

theorem formats_of {m : Nat} (some_ : data ≠ []) (wide : 3 * data.length ≤ namelen → data.length < 2 ^ 31)
    (printed : ∀ namebuf : Bytes, namebuf.length = namelen → ∃ rest,
      niFormatHex data namebuf = .ok (hexText (data.take m) ++ 0 :: rest))
    (whole : 3 * data.length ≤ namelen → data.length ≤ m) : Formats data namelen := by
  intro namebuf size
  obtain ⟨rest, ran⟩ := printed namebuf size
  refine ⟨_, ran, ?_⟩
  split
  next fits =>
    rw [List.take_of_length_le (whole fits), cstr_text rest (hexText_nonzero data)]
    refine ⟨by simp, fun octets room _ => ?_⟩
    rw [parse_hexText some_ room, intOf_small (wide fits)]
  · exact ⟨m, rest, rfl⟩

theorem formats_iff (some_ : data ≠ []) (counts : data.length < 2 ^ 32) :
    Formats data namelen ↔ FormatFits data.length namelen := by
  have positive := List.length_pos_of_ne_nil some_
  rcases Nat.lt_or_ge namelen 5 with tiny | enough
  · refine iff_of_false ?_ fun fits => absurd fits.room (Nat.not_le.mpr tiny)
    have blank : 0 ∉ List.replicate namelen (122 : UInt8) := fun member =>
      absurd (List.eq_of_mem_replicate member) (by decide)
    have ran : niFormatHex data (List.replicate namelen 122) = .ok (List.replicate namelen 122) := by
      obtain ⟨octet, others, rfl⟩ := List.exists_cons_of_ne_nil some_
      rw [niFormatHex, List.length_replicate, formatHexLoop, if_pos (by omega)]
    refine not_formats some_ counts List.length_replicate ran (fun _ ends => absurd ends blank)
      fun _ m rest same => blank (same ▸ by simp)
  rcases Nat.lt_or_ge namelen (2 ^ 32) with small | large
  · by_cases exact_ : namelen = 3 * data.length
    · refine iff_of_false ?_ fun fits => fits.inexact small exact_
      obtain ⟨rest, ran⟩ := format_small some_ (List.length_replicate (a := (0 : UInt8))) enough small
      refine not_formats some_ counts List.length_replicate ran (fun _ _ => ?_) fun short => by omega
      have taken : (data.take (min data.length ((namelen - 1) / 3))).length =
          min data.length ((namelen - 1) / 3) := List.length_take_of_le (Nat.min_le_left _ _)
      rw [cstr_text rest (hexText_nonzero _), splitOn_hexText (List.ne_nil_of_length_pos (by omega)),
        List.length_map, taken]
      omega
    · refine iff_of_true ?_ ⟨enough, fun _ => exact_, fun large => absurd small (Nat.not_lt.mpr large)⟩
      exact formats_of some_ (fun whole => by omega)
        (fun namebuf size => format_small some_ size enough small) fun whole => by omega
  have blank : ∃ namebuf : Bytes, namebuf.length = namelen := ⟨List.replicate namelen 0, List.length_replicate⟩
  obtain ⟨namebuf, size⟩ := blank
  rcases Nat.lt_or_ge (2 ^ 32 + 2) (3 * data.length) with many | few
  · refine iff_of_false ?_ fun fits => Nat.not_le.mpr many (fits.whole large).2
    obtain ⟨result, ran, jumbled, colons⟩ := format_wrapped size large counts many
    refine not_formats some_ counts size ran (fun whole _ => ?_) fun _ m rest same =>
      not_jumbled (same ▸ jumbled)
    obtain ⟨text, rest, rfl, count⟩ := colons (by omega)
    rw [length_splitOn]
    exact Nat.lt_of_le_of_lt (Nat.succ_le_succ ((cstr_front text rest).sublist.count_le 58)) count
  · by_cases whole : 3 * data.length ≤ namelen
    · refine iff_of_true ?_ ⟨enough, fun small => absurd large (Nat.not_le.mpr small), fun _ => ⟨whole, few⟩⟩
      refine @formats_of data namelen data.length some_ (fun _ => by omega) (fun namebuf size => ?_)
        fun _ => Nat.le_refl _
      rw [List.take_length]
      exact format_large some_ size large whole few
    · refine iff_of_false ?_ fun fits => whole (fits.whole large).1
      obtain ⟨K, most⟩ : ∃ K, 3 * K + 1 = 2 ^ 32 := ⟨1431655765, by decide⟩
      obtain ⟨digits, short, nonzero, rest, ran, -⟩ :=
        format_cut most size large (by omega) (show K < data.length by omega)
      rw [List.drop_of_length_le (by omega), formatHexLoop] at ran
      refine not_formats some_ counts size ran (fun fits => absurd fits whole) fun _ m rest' same => ?_
      have clean : 0 ∉ hexText (data.take K) ++ 58 :: digits := by
        simp [hexText_nonzero, nonzero]
      have texts := congrArg cstr same
      rw [cstr_text rest clean, cstr_text rest' (hexText_nonzero _)] at texts
      have lengths := congrArg List.length texts
      have first := length_hexText (List.ne_nil_of_length_pos
        (show 0 < (data.take K).length by rw [List.length_take]; omega))
      rw [List.length_append, List.length_cons] at lengths
      rw [List.length_take] at first
      by_cases none_ : data.take m = []
      · rw [none_] at lengths
        exact absurd lengths (by simp [hexText])
      · have second := length_hexText none_
        omega

end Formats

section Strictness

variable {text string : CString}

theorem digits_whole (value : Nat) (text : CString) :
    (digits 16 value text).2 = [] ↔ ∀ c ∈ text, (digitValue c).isSome := by
  induction text generalizing value with
  | nil => simp [digits]
  | cons c rest ih =>
    rw [digits, List.forall_mem_cons]
    cases digit : digitValue c with
    | none => simp
    | some d => simp [digitValue_lt digit, ih]

theorem not_lax_head : ∀ c : UInt8, (digitValue c).isSome →
    isspace c = false ∧ c ≠ 43 ∧ c ≠ 45 ∧ tolower c ≠ 120 := forall_byte (by decide +kernel)

theorem Octet.not_lax (octet : Octet text) : ¬ Lax text := by
  obtain ⟨some_, digit, small⟩ := octet
  rintro (rfl | ⟨c, rest, rfl, lax⟩ | ⟨x, rest, rfl, lax⟩ | large)
  · exact some_ rfl
  · obtain ⟨space, plus, minus, -⟩ := not_lax_head _ (digit c List.mem_cons_self)
    rcases lax with lax | lax | lax
    · rw [space] at lax
      cases lax
    · exact plus lax
    · exact minus lax
  · exact (not_lax_head _ (digit x (List.mem_cons_of_mem _ List.mem_cons_self))).2.2.2 lax
  · omega

/-- What is taken is an octet, unless it is lax. -/
theorem Taken.octet (taken : Taken text) (strict : ¬ Lax text) : Octet text := by
  simp only [Lax, not_or] at strict
  obtain ⟨some_, head, noPrefix, small⟩ := strict
  obtain ⟨c, rest, rfl⟩ := List.exists_cons_of_ne_nil some_
  have plain : ¬ (isspace c = true ∨ c = 43 ∨ c = 45) := fun lax => head ⟨c, rest, rfl, lax⟩
  rw [not_or, not_or] at plain
  have bare : skipPrefix (c :: rest) = c :: rest := by
    unfold skipPrefix
    split
    next x d others same =>
      rw [if_neg, same]
      intro hex
      exact noPrefix ⟨x, d :: others, same, of_decide_eq_true (Bool.and_eq_true_iff.mp hex).1⟩
    · rfl
  have number : hexNumber (c :: rest) = (false, c :: rest) := by
    rw [hexNumber, List.dropWhile_cons_of_neg plain.1, takeSign_plain plain.2.1 plain.2.2, Prod.map, bare]
    rfl
  obtain ⟨whole, fits⟩ := taken
  simp only [strtoulHex, number] at whole fits
  split at whole
  · cases whole
  next read =>
    rw [if_neg read] at fits
    split at whole
    next overflow =>
      rw [if_pos overflow] at fits
      exact absurd fits (show ¬ (2 ^ 64 - 1) % 2 ^ 32 ≤ 255 by decide)
    next counts =>
      rw [if_neg counts] at fits
      simp only [Bool.false_eq_true, if_false] at fits
      rw [Nat.mod_eq_of_lt (Nat.not_le.mp small)] at fits
      exact ⟨some_, (digits_whole 0 _).mp whole, fits⟩

theorem parses_iff (counts : octets.length < 2 ^ 32) : Parses string octets ↔ ParseFits string octets.length := by
  have some_ := List.length_pos_of_ne_nil (List.splitOn_ne_nil 58 string)
  cases octets with
  | nil =>
    by_cases large : 255 < (strtoulHex string).1 % 2 ^ 32
    · refine iff_of_true ⟨-1, [], ?_, fun accepted => absurd accepted (by decide)⟩
        ⟨fun _ => large, fun _ none_ => absurd none_ (Nat.not_le.mpr some_)⟩
      rw [niParseHex, parseHexLoop_eq, if_pos large]
    · refine iff_of_false ?_ fun fits => large (fits.room rfl)
      rintro ⟨value, octets', ran, -⟩
      rw [niParseHex, parseHexLoop_eq, if_neg large] at ran
      cases ran
  | cons old back =>
    by_cases taken : (∀ text ∈ string.splitOn 58, Taken text) ∧ (string.splitOn 58).length ≤ back.length + 1
    · have ran := @parse_taken [] back old string taken.1 taken.2
      rw [List.length_nil, Nat.zero_add] at ran
      constructor
      · rintro ⟨value, octets', ran', octet⟩
        obtain ⟨rfl, -⟩ := Prod.mk.inj (Except.ok.inj (ran.symm.trans ran'))
        refine ⟨nofun, fun _ _ small text member => ?_⟩
        rw [intOf_small small] at octet
        exact (octet (Int.natCast_nonneg _) text member).not_lax
      · intro fits
        refine ⟨_, _, ran, fun accepted text member => ?_⟩
        refine (taken.1 text member).octet (fits.strict taken.1 taken.2 ?_ text member)
        refine Nat.not_le.mp fun large => ?_
        have negative := intOf_large large (Nat.lt_of_le_of_lt taken.2 counts)
        omega
    · obtain ⟨data, ran⟩ := @parse_not_taken [] back old string taken
      exact iff_of_true ⟨-1, data, ran, fun accepted => absurd accepted (by decide)⟩
        ⟨nofun, fun all fits => absurd ⟨all, fits⟩ taken⟩

end Strictness

theorem skipSeparator_octet (octet : UInt8) (rest : CString) :
    skipSeparator (hexOctet octet ++ rest) = hexOctet octet ++ rest := by
  have all : ∀ octet : UInt8, Schema.hexDigit (octet >>> 4) ≠ 45 ∧
      Schema.hexDigit (octet >>> 4) ≠ 58 := forall_byte (by decide +kernel)
  obtain ⟨dash, colon⟩ := all octet
  unfold skipSeparator hexOctet
  split
  next same => exact absurd (List.cons.inj same).1 dash
  next same => exact absurd (List.cons.inj same).1 colon
  · rfl

theorem uuid_octet (even : nibbles % 2 = 0) (inside : nibbles < 32) (octets : Bytes) (octet : UInt8) (rest : CString) :
    uuidParseLoop nibbles 0 octets (hexOctet octet ++ rest) =
      uuidParseLoop (nibbles + 2) 0 (octets.set (nibbles / 2) octet) (skipSeparator rest) := by
  have all : ∀ octet : UInt8, nibble (tolower (Schema.hexDigit (octet >>> 4))) = some (octet >>> 4) ∧
      nibble (tolower (Schema.hexDigit (octet &&& 15))) = some (octet &&& 15) ∧
      ((0 : UInt8) <<< 4 ||| octet >>> 4) <<< 4 ||| (octet &&& 15) = octet := forall_byte (by decide +kernel)
  obtain ⟨high, low, joined⟩ := all octet
  rw [hexOctet, List.cons_append, List.cons_append, List.nil_append, uuidParseLoop, if_neg (by omega), high]
  dsimp only
  rw [if_neg (by omega), uuidParseLoop, if_neg (by omega), low]
  dsimp only
  rw [if_pos (by omega), joined, show (nibbles + 1 + 1) / 2 - 1 = nibbles / 2 by omega]

theorem uuids_restored : UuidsRestored := by
  intro uuid old size size'
  by_cases null : niUuidIsNull uuid = true
  · have zeros : uuid = List.replicate 16 0 :=
      List.eq_replicate_iff.mpr ⟨size, fun b member =>
        of_decide_eq_true (List.all_eq_true.mp null b member)⟩
    simp only [niUuidPrint, Option.map_some, null, if_true, niUuidParse]
    rw [zeros]
  · match uuid, old, size, size' with
    | [a, b, c, d, e, f, g, h, i, j, k, l, m, n, o, p], [_, _, _, _, _, _, _, _, _, _, _, _, _, _, _, _], _, _ =>
      have dash (octet : UInt8) (rest : CString) :
          skipSeparator (45 :: (hexOctet octet ++ rest)) = hexOctet octet ++ rest := rfl
      have start (octet : UInt8) (rest : CString) : hexOctet octet ++ rest ≠ [] := nofun
      have last : hexOctet p = hexOctet p ++ [] := rfl
      simp only [niUuidPrint, Option.map_some, null, niUuidParse, List.drop, List.take,
        List.flatMap_cons, List.flatMap_nil, List.append_nil, List.append_assoc, List.cons_append,
        if_false, Bool.false_eq_true, start]
      rw [last]
      simp (disch := decide) only [uuid_octet, skipSeparator_octet, dash]
      rw [show skipSeparator [] = [] from rfl, uuidParseLoop]
      rfl

/-- Octets come back from their text, and only octets are parsed from any text, if and only if the
buffer for the text has another size than three bytes for each octet, or is large, and the text to
be parsed is not lax. Uuids always come back. -/
theorem hex_iff {data : Bytes} (some_ : data ≠ []) (counts : data.length < 2 ^ 32) (namelen : Nat)
    (string : CString) {octets : Bytes} (size : octets.length < 2 ^ 32) :
    Formats data namelen ∧ Parses string octets ∧ UuidsRestored ↔
      FormatFits data.length namelen ∧ ParseFits string octets.length := by
  rw [formats_iff some_ counts, parses_iff size, and_iff_left uuids_restored]

/-- Two octets in seven bytes, and one that is parsed. -/
theorem hex_two : Formats [18, 171] 7 ∧ Parses (ascii "1f".toList) [0] ∧ UuidsRestored := by
  refine (hex_iff (by decide) (by decide) 7 (ascii "1f".toList) (by decide)).mpr
    ⟨⟨by decide, fun _ => by decide, fun large => absurd large (by decide)⟩, nofun, ?_⟩
  intro _ _ _ text member
  have own : text = ascii "1f".toList := by
    rw [List.splitOn_eq_singleton (by decide)] at member
    exact List.mem_singleton.mp member
  subst own
  exact Octet.not_lax ⟨by decide, List.all_eq_true.mp rfl, by decide⟩

/-- Two octets do not come back from a buffer of six bytes. -/
theorem hex_exact_fit : ¬ ∀ (data : Bytes) (namelen : Nat) (string : CString) (octets : Bytes),
    data ≠ [] → data.length < 2 ^ 32 → octets.length < 2 ^ 32 →
      Formats data namelen ∧ Parses string octets ∧ UuidsRestored := by
  intro claimed
  have formats := (claimed [18, 171] 6 [] [] (by decide) (by decide) (by decide)).1
  exact ((formats_iff (by decide) (by decide)).mp formats).inexact (by decide) rfl

end Testbus.Util
