/-
Module: Nfs4Compound.Lib.CText
Layer: Lib
Purpose: Text and numbers as C code sees them: strings that end at the first zero byte, buffers that
  are filled up with zeros, octal numerals, integers that wrap around, and the numbers the kernel's
  `sscanf` reads.
Trusted boundary: `sscanf` with `%i` and `%lli` as documented for the kernel
Main exports: cstr, padTo, octalDigits, octalField, octalValue, int32, wrap64, scanSigned
-/
import Mathlib.Data.List.TakeWhile
import Mathlib.Data.Nat.Digits.Defs
import Mathlib.Tactic.Ring

namespace Nfs4Compound.CText

/-! ### Runs of bytes -/

section Runs

variable {α : Type} {p : α → Bool} {run rest : List α}

/-- The elements that satisfy a condition end where the first one that does not comes. -/
theorem takeWhile_run (inside : ∀ c ∈ run, p c) (stop : ∀ c, rest.head? = some c → p c = false) :
    (run ++ rest).takeWhile p = run := by
  rw [List.takeWhile_append_of_pos inside]
  cases rest with
  | nil => simp
  | cons c tail => simp [stop c rfl]

theorem dropWhile_run (inside : ∀ c ∈ run, p c) (stop : ∀ c, rest.head? = some c → p c = false) :
    (run ++ rest).dropWhile p = rest := by
  rw [List.dropWhile_append_of_pos inside]
  cases rest with
  | nil => rfl
  | cons c tail => simp [stop c rfl]

/-- An element that does not satisfy the condition ends every run before it. -/
theorem takeWhile_append_stop {c : α} (stop : p c = false) (text more : List α) :
    (text ++ c :: more).takeWhile p = text.takeWhile p := by
  induction text with
  | nil => simp [stop]
  | cons d rest inductionHypothesis => simp [List.takeWhile_cons, inductionHypothesis]

theorem dropWhile_append_stop {c : α} (stop : p c = false) (text more : List α) :
    (text ++ c :: more).dropWhile p = text.dropWhile p ++ c :: more := by
  induction text with
  | nil => simp [stop]
  | cons d rest inductionHypothesis =>
      rw [List.cons_append, List.dropWhile_cons, List.dropWhile_cons, inductionHypothesis]
      split <;> rfl

end Runs

/-! ### Strings -/

/-- The string that starts at the first byte of `memory`. -/
def cstr (memory : List UInt8) : List UInt8 := memory.takeWhile (· ≠ 0)

/-- A buffer of `n` bytes that starts with `text` and is filled up with zeros, as `strncpy` leaves it
    when `text` has at most `n` bytes. -/
def padTo (n : Nat) (text : List UInt8) : List UInt8 := text ++ List.replicate (n - text.length) 0

/-- `strncpy`: the first `n` bytes of the string at `memory`, filled up with zeros. -/
def strncpy (n : Nat) (memory : List UInt8) : List UInt8 := padTo n ((cstr memory).take n)

/-- A string without zero bytes. -/
def Plain (text : List UInt8) : Prop := ∀ c ∈ text, c ≠ 0

instance (text : List UInt8) : Decidable (Plain text) := List.decidableBAll (fun c => c ≠ 0) text

theorem cstr_append {text : List UInt8} (plain : Plain text) (rest : List UInt8) :
    cstr (text ++ rest) = text ++ cstr rest := by
  rw [cstr, cstr, List.takeWhile_append_of_pos]
  intro c member
  simpa using plain c member

theorem cstr_append_zero {text : List UInt8} (plain : Plain text) (rest : List UInt8) :
    cstr (text ++ 0 :: rest) = text := by
  rw [cstr_append plain]
  simp [cstr]

theorem plain_cstr (memory : List UInt8) : Plain (cstr memory) := by
  intro c member
  simpa using List.mem_takeWhile_imp member

@[simp] theorem cstr_nil : cstr [] = [] := rfl

@[simp] theorem cstr_zero (rest : List UInt8) : cstr (0 :: rest) = [] := by simp [cstr]

/-- The string at a byte that is not zero goes on with the string behind it. -/
theorem cstr_cons {c : UInt8} (nonzero : c ≠ 0) (rest : List UInt8) :
    cstr (c :: rest) = c :: cstr rest := by
  simp [cstr, nonzero]

/-- Where a string ends, there is no more memory, or a zero. -/
theorem cstr_split (memory : List UInt8) :
    ∃ rest, memory = cstr memory ++ rest ∧ ∀ c, rest.head? = some c → c = 0 := by
  refine ⟨memory.dropWhile (· ≠ 0), (List.takeWhile_append_dropWhile).symm, ?_⟩
  intro c first
  have stop := List.head?_dropWhile_not (fun c : UInt8 => decide (c ≠ 0)) memory
  rw [first] at stop
  simpa using stop

/-- A zero cuts a string off. -/
theorem cstr_set_zero (memory : List UInt8) (n : Nat) :
    cstr (memory.set n 0) = (cstr memory).take n := by
  induction memory generalizing n with
  | nil => simp
  | cons c rest inductionHypothesis =>
      cases n with
      | zero => simp
      | succ n =>
          by_cases zero : c = 0
          · simp [zero]
          · rw [List.set_cons_succ, cstr_cons zero, cstr_cons zero, inductionHypothesis,
              List.take_succ_cons]

/-- A string ends before the `n`-th byte exactly if there is a zero among them. -/
theorem length_cstr_lt {memory : List UInt8} {n : Nat} (inside : n ≤ memory.length) :
    (cstr memory).length < n ↔ 0 ∈ memory.take n := by
  induction memory generalizing n with
  | nil =>
      have : n = 0 := by simpa using inside
      simp [this]
  | cons c rest inductionHypothesis =>
      cases n with
      | zero => simp
      | succ n =>
          by_cases zero : c = 0
          · simp [zero]
          · rw [cstr_cons zero, List.length_cons, Nat.succ_lt_succ_iff,
              inductionHypothesis (by simpa using inside), List.take_succ_cons, List.mem_cons]
            simp [Ne.symm zero]

@[simp] theorem length_padTo {n : Nat} {text : List UInt8} (fits : text.length ≤ n) :
    (padTo n text).length = n := by
  simp [padTo]
  omega

/-- A name that leaves room for a zero is the string at the start of its field. -/
theorem cstr_padTo {n : Nat} {text : List UInt8} (plain : Plain text) (room : text.length < n)
    (rest : List UInt8) : cstr (padTo n text ++ rest) = text := by
  obtain ⟨k, split⟩ : ∃ k, n - text.length = k + 1 := ⟨n - text.length - 1, by omega⟩
  rw [padTo, split, List.replicate_succ, List.append_assoc, List.cons_append]
  exact cstr_append_zero plain _

/-- `strncpy` of a field gives the field back. -/
theorem strncpy_field {n : Nat} {text : List UInt8} (plain : Plain text) (fits : text.length ≤ n)
    (rest : List UInt8) : strncpy n (padTo n text ++ rest) = padTo n text := by
  rw [strncpy]
  rcases Nat.lt_or_eq_of_le fits with room | full
  · rw [cstr_padTo plain room, List.take_of_length_le fits]
  · have whole : padTo n text = text := by simp [padTo, full]
    rw [whole, cstr_append plain, List.take_left' full, whole]

/-! ### Octal numerals -/

/-- The last `width` octal digits of `value`, the most significant one first. -/
def octalDigits : Nat → Nat → List UInt8
  | 0, _ => []
  | width + 1, value => octalDigits width (value / 8) ++ [UInt8.ofNat (48 + value % 8)]

/-- A field of `width` bytes: zero-padded octal digits and a zero byte. -/
def octalField (width value : Nat) : List UInt8 := octalDigits (width - 1) value ++ [0]

@[simp] theorem length_octalDigits (width value : Nat) : (octalDigits width value).length = width := by
  induction width generalizing value with
  | zero => rfl
  | succ width inductionHypothesis => simp [octalDigits, inductionHypothesis]

theorem length_octalField {width : Nat} (positive : 0 < width) (value : Nat) :
    (octalField width value).length = width := by
  simp [octalField]
  omega

/-- The digits are `'0'` to `'7'`. -/
theorem octalDigits_range (width value : Nat) :
    ∀ c ∈ octalDigits width value, 48 ≤ c.toNat ∧ c.toNat < 56 := by
  induction width generalizing value with
  | zero => simp [octalDigits]
  | succ width inductionHypothesis =>
      intro c member
      rcases List.mem_append.mp member with member | member
      · exact inductionHypothesis _ c member
      · rw [List.mem_singleton] at member
        subst member
        have digit : value % 8 < 8 := Nat.mod_lt _ (by omega)
        rw [UInt8.toNat_ofNat']
        omega

theorem plain_octalDigits (width value : Nat) : Plain (octalDigits width value) := by
  intro c member
  have range := octalDigits_range width value c member
  rintro rfl
  simp at range

/-- Reading the digits from the left gives the number back. -/
theorem octalDigits_foldl (width value : Nat) (start : Nat) :
    (octalDigits width value).foldl (fun n c => n * 8 + (c.toNat - 48)) start =
      start * 8 ^ width + value % 8 ^ width := by
  induction width generalizing value with
  | zero => simp [octalDigits, Nat.mod_one]
  | succ width inductionHypothesis =>
      have digit : (UInt8.ofNat (48 + value % 8)).toNat = 48 + value % 8 := by
        rw [UInt8.toNat_ofNat']
        omega
      rw [octalDigits, List.foldl_append, inductionHypothesis]
      simp only [List.foldl_cons, List.foldl_nil, digit]
      have split : value % 8 ^ (width + 1) = (value / 8) % 8 ^ width * 8 + value % 8 := by
        rw [Nat.pow_succ, Nat.mul_comm (8 ^ width) 8, Nat.mod_mul]
        ring
      rw [split]
      have shift : 48 + value % 8 - 48 = value % 8 := by omega
      rw [shift]
      ring

/-! ### Machine integers -/

/-- A value stored in a signed 32-bit integer. -/
def int32 (value : Int) : Int := (value + 2147483648) % 4294967296 - 2147483648

/-- A value stored in a signed 64-bit integer. -/
def int64 (value : Int) : Int :=
  (value + 9223372036854775808) % 18446744073709551616 - 9223372036854775808

/-- A value stored in an unsigned 64-bit integer. -/
def wrap64 (value : Int) : Nat := (value % 18446744073709551616).toNat

theorem int32_of_range {value : Int} (low : -2147483648 ≤ value) (high : value < 2147483648) :
    int32 value = value := by
  unfold int32
  omega

theorem int64_of_range {value : Int} (low : -9223372036854775808 ≤ value)
    (high : value < 9223372036854775808) : int64 value = value := by
  unfold int64
  omega

theorem wrap64_of_range {value : Nat} (high : value < 18446744073709551616) :
    wrap64 (value : Int) = value := by
  unfold wrap64
  omega

/-! ### Numbers read by `sscanf` -/

/-- `isspace` of the kernel. -/
def isSpace (c : UInt8) : Bool := c = 32 ∨ (9 ≤ c ∧ c ≤ 13) ∨ c = 160

def isDigit (c : UInt8) : Bool := 48 ≤ c ∧ c ≤ 57

/-- The value of a digit, of whatever radix. -/
def digitValue (c : UInt8) : Option Nat :=
  if 48 ≤ c ∧ c ≤ 57 then some (c.toNat - 48)
  else if 97 ≤ c ∧ c ≤ 102 then some (c.toNat - 87)
  else if 65 ≤ c ∧ c ≤ 70 then some (c.toNat - 55)
  else none

/-- The radix of a numeral for base 0, and its digits. -/
def radixOf : List UInt8 → Nat × List UInt8
  | 48 :: x :: d :: rest =>
      if (x = 120 ∨ x = 88) ∧ (digitValue d).isSome then (16, d :: rest) else (8, 48 :: x :: d :: rest)
  | 48 :: rest => (8, 48 :: rest)
  | text => (10, text)

/-- The value of the digits at the start of the text, beginning from `start`. -/
def digitsValue (radix : Nat) : List UInt8 → Nat → Nat
  | [], start => start
  | c :: rest, start =>
      match digitValue c with
      | some digit => if digit < radix then digitsValue radix rest (start * radix + digit) else start
      | none => start

/-- `simple_strtoull` with base 0. -/
def strtoull (text : List UInt8) : Nat := digitsValue (radixOf text).1 (radixOf text).2 0

/-- The number that `sscanf(text, "%lli", …)` stores, if it stores one. -/
def scanSigned (text : List UInt8) : Option Int :=
  match text.dropWhile isSpace with
  | [] => none
  | c :: rest =>
      if c = 45 then
        if (rest.head?.map isDigit).getD false then some (int64 (-(strtoull rest : Int))) else none
      else if isDigit c then some (int64 (strtoull (c :: rest))) else none

/-- `digitsValue` reads octal digits as the fold does, whatever radix it takes them for. -/
theorem digitsValue_range {radix : Nat} (large : 8 ≤ radix) {digits : List UInt8}
    (range : ∀ c ∈ digits, 48 ≤ c.toNat ∧ c.toNat < 56) (start : Nat) :
    digitsValue radix digits start = digits.foldl (fun n c => n * radix + (c.toNat - 48)) start := by
  induction digits generalizing start with
  | nil => rfl
  | cons c rest inductionHypothesis =>
      obtain ⟨low, high⟩ := range c (by simp)
      have value : digitValue c = some (c.toNat - 48) := by
        have lowByte : (48 : UInt8) ≤ c := by
          rw [UInt8.le_iff_toNat_le]
          exact low
        have highByte : c ≤ 57 := by
          rw [UInt8.le_iff_toNat_le]
          have : (57 : UInt8).toNat = 57 := rfl
          omega
        simp [digitValue, lowByte, highByte]
      have digit : c.toNat - 48 < radix := by omega
      rw [digitsValue, value]
      simp only [digit, if_true, List.foldl_cons]
      exact inductionHypothesis (fun x member => range x (by simp [member])) _

theorem digitsValue_octal {digits : List UInt8}
    (range : ∀ c ∈ digits, 48 ≤ c.toNat ∧ c.toNat < 56) (start : Nat) :
    digitsValue 8 digits start = digits.foldl (fun n c => n * 8 + (c.toNat - 48)) start :=
  digitsValue_range (Nat.le_refl 8) range start

/-- `sscanf` reads a numeral of octal digits that starts with `'0'` as an octal number. -/
theorem scanSigned_octal {digits : List UInt8}
    (range : ∀ c ∈ digits, 48 ≤ c.toNat ∧ c.toNat < 56) :
    scanSigned (48 :: digits) =
      some (int64 (digits.foldl (fun n c => n * 8 + (c.toNat - 48)) 0 : Nat)) := by
  have radix : radixOf (48 :: digits) = (8, 48 :: digits) := by
    cases digits with
    | nil => rfl
    | cons x rest =>
        cases rest with
        | nil => rfl
        | cons d rest =>
            have high := (range x (by simp)).2
            have notX : ¬(x = 120 ∨ x = 88) := by
              rintro (rfl | rfl)
              · exact absurd high (by decide)
              · exact absurd high (by decide)
            simp [radixOf, notX]
  have first : (48 :: digits).dropWhile isSpace = 48 :: digits := by
    rw [List.dropWhile_cons_of_neg]
    decide
  have digit : isDigit 48 = true := by decide
  have notMinus : ¬(48 : UInt8) = 45 := by decide
  rw [scanSigned, first]
  simp only [notMinus, if_false, digit, if_true, strtoull, radix]
  rw [digitsValue_octal]
  · simp
  · intro c member
    rcases List.mem_cons.mp member with rfl | member
    · decide
    · exact range c member

end Nfs4Compound.CText
