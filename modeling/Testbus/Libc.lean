import Testbus.Buffer

namespace Testbus

/-- The bytes up to the first NUL. -/
def cstr (bytes : Bytes) : CString := bytes.takeWhile (· ≠ 0)

def isspace (c : UInt8) : Bool := c = 32 || (9 ≤ c && c ≤ 13)

def isdigit (c : UInt8) : Bool := 48 ≤ c && c ≤ 57

def isalpha (c : UInt8) : Bool := (65 ≤ c && c ≤ 90) || (97 ≤ c && c ≤ 122)

def isalnum (c : UInt8) : Bool := isalpha c || isdigit c

def tolower (c : UInt8) : UInt8 := if 65 ≤ c && c ≤ 90 then c + 32 else c

/-- `strcasecmp` finds no difference. -/
def strcaseeq (s t : CString) : Bool := s.map tolower = t.map tolower

/-- The value of a digit in some base up to 16. -/
def digitValue (c : UInt8) : Option Nat :=
  if isdigit c then some (c.toNat - 48)
  else if 97 ≤ tolower c && tolower c ≤ 102 then some ((tolower c).toNat - 87)
  else none

/-- The digits at the start of a string in a base, as a number, and what follows them. -/
def digits (base : Nat) (value : Nat) : CString → Nat × CString
  | [] => (value, [])
  | c :: rest =>
    match digitValue c with
    | some d => if d < base then digits base (value * base + d) rest else (value, c :: rest)
    | none => (value, c :: rest)

/-- The base that a number has by its prefix, and the number without the prefix. -/
def numberBase (text : CString) : Nat × CString :=
  match text with
  | 48 :: x :: c :: rest =>
    if tolower x = 120 && (digitValue c).isSome then (16, c :: rest) else (8, text)
  | 48 :: _ => (8, text)
  | _ => (10, text)

/-- `strtoul` and `strtoull` with base 0 or `base`: the value, what follows the number, and whether
it is out of range. -/
def strtoul (base : Nat) (text : CString) : Nat × CString × Bool :=
  let number := text.dropWhile isspace
  let (negative, number) := match number with
    | 43 :: rest => (false, rest)
    | 45 :: rest => (true, rest)
    | _ => (false, number)
  let (base, number) := if base = 0 then numberBase number else (base, number)
  let (value, rest) := digits base 0 number
  if rest.length = number.length then (0, text, false)
  else if 2 ^ 64 ≤ value then (2 ^ 64 - 1, rest, true)
  else (if negative then (2 ^ 64 - value) % 2 ^ 64 else value, rest, false)

example : strtoul 0 (ascii "0x1fz".toList) = (31, ascii ['z'], false) := by decide
example : strtoul 0 (ascii "-1".toList) = (2 ^ 64 - 1, [], false) := by decide
example : strtoul 0 (ascii "0X".toList) = (0, ascii ['X'], false) := by decide
example : strtoul 10 (ascii "x".toList) = (0, ascii ['x'], false) := by decide

/-- The sign of a number, and the number without it. -/
def takeSign (number : CString) : Bool × CString :=
  match number with
  | 43 :: rest => (false, rest)
  | 45 :: rest => (true, rest)
  | _ => (false, number)

/-- `strtol` and `strtoll`, without whether the number is out of range. -/
def strtol (base : Nat) (text : CString) : Int × CString :=
  let (negative, number) := takeSign (text.dropWhile isspace)
  let (base, number) := if base = 0 then numberBase number else (base, number)
  let (value, rest) := digits base 0 number
  if rest.length = number.length then (0, text)
  else if negative then (-(min value (2 ^ 63) : Nat), rest)
  else ((min value (2 ^ 63 - 1) : Nat), rest)

/-- `"%u"` and `"%llu"`. -/
def formatNat (n : Nat) : CString := ascii (Nat.toDigits 10 n)

/-- `"%d"` and `"%lld"`. -/
def formatInt : Int → CString
  | .ofNat n => formatNat n
  | .negSucc n => 45 :: formatNat (n + 1)

theorem forall_byte {p : UInt8 → Prop} (all : ∀ n : Fin 256, p (UInt8.ofFin n)) (c : UInt8) : p c := all c.toFin

theorem dropWhile_le (p : UInt8 → Bool) (text : Bytes) :
    (text.dropWhile p).length ≤ text.length := (List.dropWhile_sublist p).length_le

section Lines

variable {file : Bytes}

/-- `fgets` with room for `size` bytes: a line up to its end, which is kept, and what is left of the file. -/
def fgets : Nat → Bytes → Bytes × Bytes
  | 0, file => ([], file)
  | _ + 1, [] => ([], [])
  | size + 1, c :: file =>
    if c = 10 then ([c], file)
    else
      let (line, rest) := fgets size file
      (c :: line, rest)

theorem fgets_append (size : Nat) (file : Bytes) : (fgets size file).1 ++ (fgets size file).2 = file := by
  induction size generalizing file with
  | zero => rfl
  | succ size ih =>
    cases file with
    | nil => rfl
    | cons c file =>
      rw [fgets]
      split
      · rfl
      · simpa using ih file

theorem fgets_shorter {size : Nat} (room : 0 < size) (more : file ≠ []) : (fgets size file).2.length < file.length := by
  obtain ⟨c, file, rfl⟩ := List.exists_cons_of_ne_nil more
  obtain ⟨size, rfl⟩ := Nat.exists_eq_add_of_lt room
  have whole := congrArg List.length (fgets_append (0 + size + 1) (c :: file))
  have first : 0 < (fgets (0 + size + 1) (c :: file)).1.length := by
    rw [fgets]
    split <;> exact Nat.zero_lt_succ _
  rw [List.length_append] at whole
  omega

end Lines

theorem isdigit_digit {c : Char} (digit : c.isDigit = true) :
    isdigit (UInt8.ofNat c.toNat) = true ∧ (UInt8.ofNat c.toNat).toNat = c.toNat := by
  obtain ⟨low, high⟩ := digit_range digit
  have byte : (UInt8.ofNat c.toNat).toNat = c.toNat := by
    simp only [UInt8.toNat_ofNat']
    omega
  refine ⟨?_, byte⟩
  simp only [isdigit, Bool.and_eq_true, decide_eq_true_eq, UInt8.le_iff_toNat_le, byte]
  exact ⟨low, high⟩

theorem digitValue_lt (digit : digitValue c = some d) : d < 16 := by
  unfold digitValue at digit
  split_ifs at digit with decimal hex
  · have range : 48 ≤ c.toNat ∧ c.toNat ≤ 57 := by
      simpa [isdigit, UInt8.le_iff_toNat_le] using decimal
    cases digit
    omega
  · have range : 97 ≤ (tolower c).toNat ∧ (tolower c).toNat ≤ 102 := by
      simpa [UInt8.le_iff_toNat_le] using hex
    cases digit
    omega

theorem digits_suffix (base value : Nat) (text : CString) : (digits base value text).2 <:+ text := by
  induction text generalizing value with
  | nil => exact List.suffix_refl _
  | cons c rest ih =>
    unfold digits
    split
    · split
      · exact (ih _).trans (List.suffix_cons _ _)
      · exact List.suffix_refl _
    · exact List.suffix_refl _

theorem takeSign_plain (plus : c ≠ 43) (minus : c ≠ 45) (rest : CString) : takeSign (c :: rest) = (false, c :: rest) := by
  unfold takeSign
  split <;> simp_all

theorem digits_ascii (numeric : ∀ c ∈ chars, c.isDigit = true) (value : Nat) :
    digits 10 value (ascii chars) = (Nat.ofDigitChars 10 chars value, []) := by
  induction chars generalizing value with
  | nil => simp [ascii, digits]
  | cons c rest ih =>
    obtain ⟨here, later⟩ := List.forall_mem_cons.mp numeric
    obtain ⟨low, high⟩ := digit_range here
    obtain ⟨isDigit, byte⟩ := isdigit_digit here
    have small : c.toNat - 48 < 10 := by omega
    have known : digitValue (UInt8.ofNat c.toNat) = some (c.toNat - 48) := by
      simp only [digitValue, isDigit, if_true, byte]
    have next := ih later (value * 10 + (c.toNat - 48))
    simp only [ascii, List.map_cons, digits, known, small, if_true]
    rw [Nat.ofDigitChars_cons, Nat.mul_comm 10 value]
    exact next

theorem toDigits_nonzero (positive : 0 < n) : ∃ c rest, Nat.toDigits 10 n = c :: rest ∧ c ≠ '0' := by
  induction n using Nat.strongRecOn with
  | _ n ih =>
    by_cases small : n < 10
    · refine ⟨n.digitChar, [], Nat.toDigits_of_lt_base small, ?_⟩
      intro zero
      have value := Nat.toNat_digitChar_sub_48_of_lt_ten small
      rw [zero] at value
      simp at value
      omega
    · obtain ⟨c, rest, same, nonzero⟩ := ih (n / 10) (by omega) (by omega)
      exact ⟨c, rest ++ [(n % 10).digitChar], by
        rw [Nat.toDigits_of_base_le (by decide) (by omega), same]; rfl, nonzero⟩

theorem digits_formatNat (n : Nat) : digits 10 0 (formatNat n) = (n, []) := by
  rw [formatNat, digits_ascii fun c => Nat.isDigit_of_mem_toDigits (by decide) (by decide), Nat.ofDigitChars_ten_toDigits]

/-- A number in decimal begins with a digit, which is 0 for no other number than 0. -/
theorem formatNat_head (n : Nat) : ∃ c rest, formatNat n = c :: rest ∧ isdigit c = true ∧ (0 < n → c ≠ 48) := by
  by_cases positive : 0 < n
  · obtain ⟨c, rest, same, nonzero⟩ := toDigits_nonzero positive
    have digit : c.isDigit = true :=
      Nat.isDigit_of_mem_toDigits (b := 10) (n := n) (by decide) (by decide) (by simp [same])
    obtain ⟨isDigit, byte⟩ := isdigit_digit digit
    refine ⟨UInt8.ofNat c.toNat, ascii rest, by rw [formatNat, same]; rfl, isDigit, fun _ zero => ?_⟩
    rw [zero] at byte
    exact nonzero (Char.ext (UInt32.toNat_inj.mp byte.symm))
  · obtain rfl : n = 0 := by omega
    exact ⟨48, [], rfl, rfl, fun h => absurd h positive⟩

theorem isdigit_plain (digit : isdigit c = true) : isspace c = false ∧ c ≠ 43 ∧ c ≠ 45 := by
  simp only [isdigit, Bool.and_eq_true, decide_eq_true_eq] at digit
  refine ⟨?_, ?_, ?_⟩ <;> grind [isspace]

theorem scan_formatNat (n : Nat) :
    digits (numberBase (formatNat n)).1 0 (numberBase (formatNat n)).2 = (n, []) ∧ (numberBase (formatNat n)).2 ≠ [] := by
  obtain ⟨c, rest, same, -, nonzero⟩ := formatNat_head n
  by_cases positive : 0 < n
  · have base : numberBase (formatNat n) = (10, formatNat n) := by
      rw [same]
      have := nonzero positive
      unfold numberBase
      split <;> simp_all
    rw [base]
    exact ⟨digits_formatNat n, by simp [same]⟩
  · obtain rfl : n = 0 := by omega
    exact ⟨rfl, by decide⟩

theorem strtoul_eq (base : Nat) (text : CString) : strtoul base text =
    (let (negative, number) := takeSign (text.dropWhile isspace)
    let (base, number) := if base = 0 then numberBase number else (base, number)
    let (value, rest) := digits base 0 number
    if rest.length = number.length then (0, text, false)
    else if 2 ^ 64 ≤ value then (2 ^ 64 - 1, rest, true)
    else (if negative then (2 ^ 64 - value) % 2 ^ 64 else value, rest, false)) := by
  unfold strtoul takeSign
  rfl

theorem takeSign_formatNat (n : Nat) : takeSign ((formatNat n).dropWhile isspace) = (false, formatNat n) := by
  obtain ⟨c, rest, same, digit, -⟩ := formatNat_head n
  obtain ⟨space, plus, minus⟩ := isdigit_plain digit
  rw [same, List.dropWhile_cons_of_neg (by simp [space]), takeSign_plain plus minus]

theorem strtoul_formatNat (fits : n < 2 ^ 64) : strtoul 0 (formatNat n) = (n, [], false) := by
  obtain ⟨scanned, nonempty⟩ := scan_formatNat n
  have some_ : (0 : Nat) ≠ (numberBase (formatNat n)).2.length :=
    fun empty => nonempty (List.length_eq_zero_iff.mp empty.symm)
  simp only [strtoul_eq, takeSign_formatNat, if_true, scanned, List.length_nil, some_, if_false,
    Nat.not_le.mpr fits, Bool.false_eq_true]

theorem strtol_formatInt (low : -2 ^ 63 ≤ n) (high : n < 2 ^ 63) : strtol 0 (formatInt n) = (n, []) := by
  cases n with
  | ofNat n =>
    obtain ⟨scanned, nonempty⟩ := scan_formatNat n
    have some_ : (0 : Nat) ≠ (numberBase (formatNat n)).2.length :=
      fun empty => nonempty (List.length_eq_zero_iff.mp empty.symm)
    simp only [strtol, formatInt, takeSign_formatNat, if_true, scanned, List.length_nil, some_,
      if_false, Bool.false_eq_true, Int.ofNat_eq_natCast] at high ⊢
    congr 1
    omega
  | negSucc n =>
    obtain ⟨scanned, nonempty⟩ := scan_formatNat (n + 1)
    have some_ : (0 : Nat) ≠ (numberBase (formatNat (n + 1))).2.length :=
      fun empty => nonempty (List.length_eq_zero_iff.mp empty.symm)
    have skipped : takeSign ((45 :: formatNat (n + 1)).dropWhile isspace) = (true, formatNat (n + 1)) := by
      rw [List.dropWhile_cons_of_neg (by decide)]
      rfl
    simp only [strtol, formatInt, skipped, if_true, scanned, List.length_nil, some_, if_false]
    congr 1
    omega

end Testbus
