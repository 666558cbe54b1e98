/-
Module: Nfs4Compound.Proofs.TarFields
Layer: Proofs
Purpose: Octal fields decode to what was written to them: for any width whose values fit in the result
  in the drivers of afedosenko, pbelousov and ksaltuk, and in that of aboyaritsev/merge exactly for
  numbers of one digit in the fields read with `%u` and with a leading zero in the size field.
Imports: Nfs4Compound.Tar.Fields, Nfs4Compound.Proofs.TarHeaders
Trusted boundary: none
Main exports: HoldsField, decodesField_of_narrow, octal_fields_decode, wide_field_overflows,
  Aboyaritsev.fields_return_iff
-/
import Nfs4Compound.Tar.Fields
import Nfs4Compound.Proofs.TarHeaders

namespace Nfs4Compound.Tar

open CText

/-! ### The text of a field -/

section Text

variable {width value : Nat}

theorem octalField_append (width value : Nat) (rest : List UInt8) :
    octalField width value ++ rest = octalDigits (width - 1) value ++ 0 :: rest := by
  simp [octalField]

theorem cstr_octalField (width value : Nat) (rest : List UInt8) :
    cstr (octalField width value ++ rest) = octalDigits (width - 1) value := by
  rw [octalField_append, cstr_append_zero (plain_octalDigits _ _)]

/-- The digits stand for the value. -/
theorem octalDigits_value {digits : Nat} (small : value < 8 ^ digits) :
    (octalDigits digits value).foldl (fun n c => n * 8 + (c.toNat - 48)) 0 = value := by
  rw [octalDigits_foldl, Nat.zero_mul, Nat.zero_add, Nat.mod_eq_of_lt small]

/-- `sscanf` reads them with a zero in front. -/
theorem scanSigned_octalDigits {digits : Nat} (small : value < 8 ^ digits) (narrow : digits ≤ 21) :
    scanSigned (48 :: octalDigits digits value) = some (value : Int) := by
  have limit : 8 ^ digits ≤ 8 ^ 21 := Nat.pow_le_pow_right (by decide) narrow
  have bound : (8 : Nat) ^ 21 = 9223372036854775808 := by norm_num
  rw [scanSigned_octal (octalDigits_range _ _), octalDigits_value small, int64_of_range] <;> omega

end Text

/-! ### Fields in their places -/

/-- At `offset` there is a field of `width` bytes with that value. -/
def HoldsField (data : List UInt8) (offset width value : Nat) : Prop :=
  ∃ after, data.drop offset = octalField width value ++ after

section Places

variable {data : List UInt8} {offset width value : Nat}

theorem holdsField_of_append {before after : List UInt8} (place : before.length = offset) :
    HoldsField (before ++ (octalField width value ++ after)) offset width value :=
  ⟨after, List.drop_left' place⟩

variable (junk : Junk)

theorem HoldsField.getLongField (holds : HoldsField data offset width value)
    (positive : 0 < width) (small : value < 8 ^ (width - 1)) (narrow : width ≤ 22) :
    Afedosenko.getLongField junk data offset width = some (value : Int) := by
  obtain ⟨after, found⟩ := holds
  have fits : (octalDigits (width - 1) value).length + 1 ≤ width := by
    rw [length_octalDigits]
    omega
  rw [Afedosenko.getLongField, found, cstr_octalField, if_pos fits,
    scanSigned_octalDigits small (by omega), Option.getD_some]

theorem HoldsField.getTarOctalField (holds : HoldsField data offset width value)
    (small : value < 8 ^ (width - 1)) (narrow : width ≤ 22) :
    Pbelousov.getTarOctalField junk data offset = value := by
  obtain ⟨after, found⟩ := holds
  rw [Pbelousov.getTarOctalField, found, List.append_assoc, cstr_octalField,
    scanSigned_octalDigits small (by omega)]

theorem HoldsField.readOctalInt (holds : HoldsField data offset width value)
    (small : value < 8 ^ (width - 1)) (narrow : width ≤ 22) :
    Ksaltuk.readOctalInt (data.drop offset) = value := by
  obtain ⟨after, found⟩ := holds
  rw [found, octalField_append,
    Ksaltuk.readOctalInt_digits _ _ (octalDigits_range _ _) (by rw [length_octalDigits]; omega),
    octalDigits_value small]

theorem HoldsField.strcpyCount (holds : HoldsField data offset width value) (positive : 0 < width) :
    strcpyCount (data.drop offset) = width := by
  obtain ⟨after, found⟩ := holds
  rw [Tar.strcpyCount, found, cstr_octalField, length_octalDigits]
  omega

theorem HoldsField.readCount (holds : HoldsField data offset width value) (positive : 0 < width) :
    Ksaltuk.readCount (data.drop offset) = width := by
  obtain ⟨after, found⟩ := holds
  have cut : (octalField width value ++ after).takeWhile (fun c => c ≠ 32 ∧ c ≠ 0) =
      octalDigits (width - 1) value := by
    rw [octalField_append]
    apply takeWhile_run
    · intro c member
      have low := (octalDigits_range _ _ c member).1
      simp only [decide_eq_true_eq]
      constructor <;> (rintro rfl; exact absurd low (by decide))
    · intro c first
      simp at first
      simp [← first]
  rw [Ksaltuk.readCount, found, cut, length_octalDigits]
  omega

end Places

/-- Fields of up to 22 bytes decode to the values they have room for. -/
theorem decodesField_of_narrow (junk : Junk) {width value : Nat} (positive : 0 < width)
    (narrow : width ≤ 22) (small : value < 8 ^ (width - 1)) (before after : List UInt8) :
    DecodesField junk width value before after := by
  have holds := @holdsField_of_append before.length width value before after rfl
  refine ⟨holds.getLongField junk positive small narrow, holds.getTarOctalField junk small narrow,
    holds.readOctalInt small narrow, ?_, ?_, ?_⟩
  · rw [holds.strcpyCount positive]
  · rw [holds.strcpyCount positive, Nat.add_comm]
  · rw [holds.readCount positive]

/-! ### Headers -/

namespace Numbers

variable (numbers : Numbers) {name rest : List UInt8}

/-- Where the fields of a header lie. -/
theorem header_fields (length : name.length = 100) :
    HoldsField (numbers.header name rest) 100 8 numbers.mode ∧
      HoldsField (numbers.header name rest) 108 8 numbers.uid ∧
      HoldsField (numbers.header name rest) 116 8 numbers.gid ∧
      HoldsField (numbers.header name rest) 124 12 numbers.size ∧
      HoldsField (numbers.header name rest) 136 12 numbers.mtime := by
  refine ⟨holdsField_of_append length, ?_, ?_, ?_, ?_⟩
  · rw [header, ← List.append_assoc]
    apply holdsField_of_append
    simp [length, length_octalField]
  · rw [header, ← List.append_assoc, ← List.append_assoc]
    apply holdsField_of_append
    simp [length, length_octalField]
  · rw [header, ← List.append_assoc, ← List.append_assoc, ← List.append_assoc]
    apply holdsField_of_append
    simp [length, length_octalField]
  · rw [header, ← List.append_assoc, ← List.append_assoc, ← List.append_assoc, ← List.append_assoc]
    apply holdsField_of_append
    simp [length, length_octalField]

end Numbers

/-- A number of 7 digits is an `int`. -/
theorem int32_of_sevenDigits {value : Nat} (small : value < 8 ^ 7) : int32 (value : Int) = value := by
  have bound : (8 : Nat) ^ 7 = 2097152 := by norm_num
  exact int32_of_range (by omega) (by omega)

/-- A number of 11 digits, in nanoseconds, is a signed 64-bit integer. -/
theorem nanoseconds_fit {value : Nat} (small : value < 8 ^ 11) :
    value * 1000000000 < 9223372036854775808 := by
  have bound : (8 : Nat) ^ 11 = 8589934592 := by norm_num
  omega

theorem nsToTimespec_seconds {value : Nat} (small : value < 8 ^ 11) :
    nsToTimespec (int64 ((value : Int) * 1000000000)) = ⟨value, 0⟩ := by
  have fits := nanoseconds_fit small
  rw [int64_of_range (by omega) (by omega), nsToTimespec, Int.mul_ediv_cancel _ (by decide),
    Int.mul_emod_left]

/-- The accessors give the numbers a header was written with. -/
theorem accessorsReturn_header (junk : Junk) (numbers : Numbers) {name : List UInt8}
    (length : name.length = 100) (rest : List UInt8) :
    AccessorsReturn junk numbers (numbers.header name rest) := by
  obtain ⟨mode, uid, gid, size, mtime⟩ := @Numbers.header_fields numbers name rest length
  have sizeFits : wrap64 (numbers.size : Int) = numbers.size := by
    have := numbers.size_small
    have bound : (8 : Nat) ^ 11 = 8589934592 := by norm_num
    exact wrap64_of_range (by omega)
  refine ⟨⟨?_, ?_, ?_, ?_, ?_⟩, ⟨?_, ?_, ?_, ?_, ?_⟩, ⟨?_, ?_, ?_, ?_, ?_⟩,
    nanoseconds_fit numbers.mtime_small⟩
  · have field : Afedosenko.longField junk (numbers.header name rest) modeField =
        some (numbers.mode : Int) := mode.getLongField junk (by decide) numbers.mode_small (by decide)
    rw [Afedosenko.getMode, field, Option.map_some, int32_of_sevenDigits numbers.mode_small]
  · have field : Afedosenko.longField junk (numbers.header name rest) uidField =
        some (numbers.uid : Int) := uid.getLongField junk (by decide) numbers.uid_small (by decide)
    rw [Afedosenko.getTarUid, field, Option.map_some, int32_of_sevenDigits numbers.uid_small]
  · have field : Afedosenko.longField junk (numbers.header name rest) gidField =
        some (numbers.gid : Int) := gid.getLongField junk (by decide) numbers.gid_small (by decide)
    rw [Afedosenko.getTarGid, field, Option.map_some, int32_of_sevenDigits numbers.gid_small]
  · exact size.getLongField junk (by decide) numbers.size_small (by decide)
  · have field : Afedosenko.longField junk (numbers.header name rest) mtimeField =
        some (numbers.mtime : Int) := mtime.getLongField junk (by decide) numbers.mtime_small (by decide)
    rw [Afedosenko.getTarMtime, field, Option.map_some, nsToTimespec_seconds numbers.mtime_small]
  · exact (congrArg int32 (mode.getTarOctalField junk numbers.mode_small (by decide))).trans
      (int32_of_sevenDigits numbers.mode_small)
  · exact (congrArg int32 (uid.getTarOctalField junk numbers.uid_small (by decide))).trans
      (int32_of_sevenDigits numbers.uid_small)
  · exact (congrArg int32 (gid.getTarOctalField junk numbers.gid_small (by decide))).trans
      (int32_of_sevenDigits numbers.gid_small)
  · exact (congrArg wrap64 (size.getTarOctalField junk numbers.size_small (by decide))).trans sizeFits
  · have field : Pbelousov.octalFieldOf junk (numbers.header name rest) mtimeField = numbers.mtime :=
      mtime.getTarOctalField junk numbers.mtime_small (by decide)
    rw [Pbelousov.getTarMtime, field, Int.mul_comm, nsToTimespec_seconds numbers.mtime_small]
  · exact mode.readOctalInt numbers.mode_small (by decide)
  · exact uid.readOctalInt numbers.uid_small (by decide)
  · exact gid.readOctalInt numbers.gid_small (by decide)
  · exact size.readOctalInt numbers.size_small (by decide)
  · exact mtime.readOctalInt numbers.mtime_small (by decide)

/-- Octal fields decode to what was written, in fields of up to 22 bytes and through the accessors. -/
theorem octal_fields_decode (junk : Junk) (numbers : Numbers) {name : List UInt8}
    (length : name.length = 100) (rest : List UInt8) {width value : Nat} (positive : 0 < width)
    (narrow : width ≤ 22) (small : value < 8 ^ (width - 1)) (before after : List UInt8) :
    DecodesField junk width value before after ∧
      AccessorsReturn junk numbers (numbers.header name rest) :=
  ⟨decodesField_of_narrow junk positive narrow small before after,
    accessorsReturn_header junk numbers length rest⟩

/-- The numbers of a file of a user, written in the year 2014. -/
def userFile : Numbers :=
  ⟨420, 1000, 1000, 1073741824, 1400000000, by decide, by decide, by decide, by decide, by decide⟩

/-- Its header, and a field of 8 bytes. -/
theorem userFile_decodes :
    DecodesField ⟨[], 0⟩ 8 420 [1, 2] [3] ∧
      AccessorsReturn ⟨[], 0⟩ userFile (userFile.header (List.replicate 100 97) []) :=
  octal_fields_decode ⟨[], 0⟩ userFile List.length_replicate [] (by decide) (by decide) (by decide)
    [1, 2] [3]

/-- The value of a field that is wider than any number field does not fit in the result. -/
theorem wide_field_overflows :
    8 ^ 22 < 8 ^ ((entry Pbelousov.ustarOffsets 11).length - 1) ∧
      ¬DecodesField ⟨[], 0⟩ (entry Pbelousov.ustarOffsets 11).length (8 ^ 22) [] [] := by
  constructor
  · decide
  · intro decodes
    have wrapped : Afedosenko.getLongField ⟨[], 0⟩ ([] ++ (octalField 32 (8 ^ 22) ++ [])) 0 32 =
        some 0 := by
      decide +kernel
    have written : Afedosenko.getLongField ⟨[], 0⟩ ([] ++ (octalField 32 (8 ^ 22) ++ [])) 0 32 =
        some ((8 ^ 22 : Nat) : Int) := decodes.1
    rw [wrapped] at written
    exact absurd written (by decide)

/-! ### Octal digits read as a decimal number -/

/-- The number that octal digits stand for if they are taken for decimal ones. -/
def decimalReading (digits value : Nat) : Nat :=
  (octalDigits digits value).foldl (fun n c => n * 10 + (c.toNat - 48)) 0

theorem decimalReading_succ (digits value : Nat) :
    decimalReading (digits + 1) value = decimalReading digits (value / 8) * 10 + value % 8 := by
  have digit : (UInt8.ofNat (48 + value % 8)).toNat = 48 + value % 8 := by
    rw [UInt8.toNat_ofNat']
    omega
  rw [decimalReading, octalDigits, List.foldl_append]
  simp only [List.foldl_cons, List.foldl_nil, digit, Nat.add_sub_cancel_left]
  rfl

theorem decimalReading_lt (digits value : Nat) : decimalReading digits value < 10 ^ digits := by
  induction digits generalizing value with
  | zero => simp [decimalReading, octalDigits]
  | succ digits inductionHypothesis =>
      have := inductionHypothesis (value / 8)
      rw [decimalReading_succ, Nat.pow_succ]
      omega

theorem le_decimalReading {digits value : Nat} (small : value < 8 ^ digits) :
    value ≤ decimalReading digits value := by
  induction digits generalizing value with
  | zero =>
      have : value = 0 := by simpa using small
      omega
  | succ digits inductionHypothesis =>
      have less : value / 8 < 8 ^ digits := by
        rw [Nat.pow_succ] at small
        omega
      have := inductionHypothesis less
      rw [decimalReading_succ]
      omega

/-- Only numbers of one digit are the same in both readings. -/
theorem decimalReading_eq_iff {digits value : Nat} (small : value < 8 ^ (digits + 1)) :
    decimalReading (digits + 1) value = value ↔ value < 8 := by
  have less : value / 8 < 8 ^ digits := by
    rw [Nat.pow_succ] at small
    omega
  have least := le_decimalReading less
  rw [decimalReading_succ]
  constructor
  · intro same
    omega
  · intro single
    have none : value / 8 = 0 := by omega
    have zero : decimalReading digits 0 = 0 := by
      clear small less least none
      induction digits with
      | zero => rfl
      | succ digits inductionHypothesis =>
          rw [decimalReading_succ]
          simp [inductionHypothesis]
    rw [none, zero]
    omega

/-- The first digit. -/
theorem octalDigits_head (digits value : Nat) :
    octalDigits (digits + 1) value =
      UInt8.ofNat (48 + value / 8 ^ digits % 8) :: octalDigits digits value := by
  induction digits generalizing value with
  | zero => simp [octalDigits]
  | succ digits inductionHypothesis =>
      have quotient : value / 8 / 8 ^ digits = value / 8 ^ (digits + 1) := by
        rw [Nat.div_div_eq_div_mul, Nat.pow_succ, Nat.mul_comm]
      rw [octalDigits, inductionHypothesis, quotient, octalDigits]
      rfl

/-- A digit is no space and no sign. -/
theorem digit_of_range {c : UInt8} (low : 48 ≤ c.toNat) (high : c.toNat < 56) :
    isDigit c = true ∧ isSpace c = false ∧ c ≠ 45 := by
  have fortyEight : (48 : UInt8).toNat = 48 := rfl
  have fiftySeven : (57 : UInt8).toNat = 57 := rfl
  have thirteen : (13 : UInt8).toNat = 13 := rfl
  refine ⟨?_, ?_, ?_⟩
  · simp only [isDigit, UInt8.le_iff_toNat_le, decide_eq_true_eq]
    omega
  · simp only [isSpace, UInt8.le_iff_toNat_le, decide_eq_false_iff_not]
    rintro (rfl | range | rfl)
    · exact absurd low (by decide)
    · omega
    · exact absurd high (by decide)
  · rintro rfl
    exact absurd low (by decide)

/-- `sscanf` with `%u` takes the digits for decimal ones. -/
theorem scanUnsigned_octalDigits {digits : Nat} (few : digits ≤ 8) (value : Nat) :
    scanUnsigned (octalDigits (digits + 1) value) = some (decimalReading (digits + 1) value) := by
  obtain ⟨low, high⟩ := octalDigits_range (digits + 1) value
    (UInt8.ofNat (48 + value / 8 ^ digits % 8)) (by rw [octalDigits_head]; simp)
  have whole := @digitsValue_range 10 (by decide) _ (octalDigits_range (digits + 1) value) 0
  have bound := decimalReading_lt (digits + 1) value
  have limit : 10 ^ (digits + 1) ≤ 10 ^ 9 := Nat.pow_le_pow_right (by decide) (by omega)
  have billion : (10 : Nat) ^ 9 = 1000000000 := by norm_num
  change digitsValue 10 _ 0 = decimalReading (digits + 1) value at whole
  rw [octalDigits_head] at whole ⊢
  obtain ⟨digit, notSpace, -⟩ := digit_of_range low high
  rw [scanUnsigned, List.dropWhile_cons_of_neg (by rw [notSpace]; exact Bool.false_ne_true)]
  simp only [digit, if_true, whole]
  rw [Nat.mod_eq_of_lt (by omega)]

/-- With `%i` it does so unless they begin with a zero. -/
theorem scanSigned_octalDigits_of_head {digits value : Nat} (few : digits ≤ 17)
    (head : value / 8 ^ digits % 8 ≠ 0) :
    scanSigned (octalDigits (digits + 1) value) = some (decimalReading (digits + 1) value : Int) := by
  obtain ⟨low, high⟩ := octalDigits_range (digits + 1) value
    (UInt8.ofNat (48 + value / 8 ^ digits % 8)) (by rw [octalDigits_head]; simp)
  have whole := @digitsValue_range 10 (by decide) _ (octalDigits_range (digits + 1) value) 0
  have bound := decimalReading_lt (digits + 1) value
  have limit : 10 ^ (digits + 1) ≤ 10 ^ 18 := Nat.pow_le_pow_right (by decide) (by omega)
  have trillions : (10 : Nat) ^ 18 = 1000000000000000000 := by norm_num
  have notZero : UInt8.ofNat (48 + value / 8 ^ digits % 8) ≠ 48 := by
    intro same
    have number := congrArg UInt8.toNat same
    rw [UInt8.toNat_ofNat'] at number
    have : (48 : UInt8).toNat = 48 := rfl
    omega
  change digitsValue 10 _ 0 = decimalReading (digits + 1) value at whole
  rw [octalDigits_head] at whole ⊢
  obtain ⟨digit, notSpace, notMinus⟩ := digit_of_range low high
  generalize UInt8.ofNat (48 + value / 8 ^ digits % 8) = c at *
  have radix : radixOf (c :: octalDigits digits value) = (10, c :: octalDigits digits value) := by
    unfold radixOf
    split <;> simp_all
  rw [scanSigned, List.dropWhile_cons_of_neg (by rw [notSpace]; exact Bool.false_ne_true)]
  simp only [notMinus, if_false, digit, if_true, strtoull, radix, whole]
  rw [int64_of_range (by omega) (by omega)]

/-! ### aboyaritsev/merge -/

namespace Aboyaritsev

variable {junk : Junk} {numbers : Numbers} {pos : DiskPosition} {header : List UInt8}

/-- A field of a header in the block buffer. -/
theorem getTarField_of_holds (placed : pos.buffers.drop pos.offsetInFirst.toNat = header)
    {offset width value : Nat} (positive : 0 < width) (holds : HoldsField header offset width value) :
    getTarField pos offset width = octalField width value := by
  obtain ⟨after, found⟩ := holds
  rw [getTarField, ← List.drop_drop, placed, found, List.take_left' (length_octalField positive value)]

/-- `get_mode` gives the permission bits. -/
theorem getMode_eq (placed : pos.buffers.drop pos.offsetInFirst.toNat = header)
    (holds : HoldsField header 100 8 numbers.mode) (permissions : numbers.mode < 8 ^ 4) :
    getMode junk pos % 8 ^ 4 = numbers.mode := by
  have text : cstr (tarField pos modeField ++ junk.behind) = 48 :: octalDigits 6 numbers.mode := by
    have field : tarField pos modeField = octalField 8 numbers.mode :=
      getTarField_of_holds placed (by decide) holds
    rw [field, cstr_octalField]
    apply octalDigits_zero
    exact Nat.lt_of_lt_of_le permissions (by norm_num)
  have small : numbers.mode < 8 ^ 6 := Nat.lt_of_lt_of_le permissions (by norm_num)
  have bound : (8 : Nat) ^ 4 = 4096 := by norm_num
  have twelve : (8 : Nat) ^ 4 = 2 ^ 12 := by norm_num
  have d : (BitVec.ofInt 16 (numbers.mode : Int)).toNat = numbers.mode := by
    rw [BitVec.toNat_ofInt]
    omega
  have type : ∀ c, (typeBits c).toNat % 2 ^ 12 = 0 := by
    intro c
    unfold typeBits
    split
    · rfl
    · split <;> rfl
  rw [getMode, text, scanSigned_octalDigits small (by decide)]
  simp only [BitVec.toNat_or, d]
  rw [twelve, Nat.or_mod_two_pow, type, Nat.zero_or, Nat.mod_eq_of_lt (by omega)]

/-- `get_uid` and `get_gid` give what the digits are if they are taken for decimal ones. -/
theorem unsignedField_eq (placed : pos.buffers.drop pos.offsetInFirst.toNat = header) {field value : Nat}
    (holds : HoldsField header (entry offLens field).offset 8 value)
    (width : (entry offLens field).length = 8) : unsignedField junk pos field = decimalReading 7 value := by
  have text : cstr (tarField pos field ++ junk.behind) = octalDigits 7 value := by
    rw [tarField, width, getTarField_of_holds placed (by decide) holds, cstr_octalField]
  rw [unsignedField, text, scanUnsigned_octalDigits (by decide)]

/-- The digits of a number with a first digit 1, taken for decimal ones, are never its own `int`. -/
theorem digits_collide {a₁ a₂ a₃ a₄ a₅ a₆ a₇ a₈ a₉ : Nat} (h₁ : a₁ < 8) (h₂ : a₂ < 8) (h₃ : a₃ < 8)
    (h₄ : a₄ < 8) (h₅ : a₅ < 8) (h₆ : a₆ < 8) (h₇ : a₇ < 8) (h₈ : a₈ < 8) (h₉ : a₉ < 8) (k : Int) :
    (8926258176 + 865782272 * a₉ + 83222784 * a₈ + ((7902848 * a₇ + 737856 * a₆ + 67232 * a₅ +
      5904 * a₄ + 488 * a₃ + 36 * a₂ + 2 * a₁ : Nat) : Int)) ≠ 4294967296 * k := by
  have low : 7902848 * a₇ + 737856 * a₆ + 67232 * a₅ + 5904 * a₄ + 488 * a₃ + 36 * a₂ + 2 * a₁ <
      61020000 := by omega
  generalize 7902848 * a₇ + 737856 * a₆ + 67232 * a₅ + 5904 * a₄ + 488 * a₃ + 36 * a₂ + 2 * a₁ = rest
    at *
  intro same
  -- only three times `2 ^ 32` is in reach, and then the two leading digits leave too much or too little
  have three : k = 3 := by omega
  subst three
  have four : a₉ = 4 := by omega
  subst four
  have few : a₈ ≤ 5 := by omega
  omega

theorem int32_decimalReading_ne {value : Nat} (low : 1073741824 ≤ value) (high : value < 2147483648) :
    int32 (decimalReading 11 value : Int) ≠ value := by
  intro same
  have multiple : ∃ k : Int, (decimalReading 11 value : Int) - value = 4294967296 * k := by
    unfold int32 at same
    exact ⟨((decimalReading 11 value : Int) + 2147483648) / 4294967296, by omega⟩
  obtain ⟨k, multiple⟩ := multiple
  have nothing : ∀ rest, decimalReading 0 rest = 0 := fun _ => rfl
  simp only [decimalReading_succ, nothing] at multiple
  obtain ⟨v₁, e₁⟩ : ∃ v₁, v₁ = value / 8 := ⟨_, rfl⟩
  obtain ⟨v₂, e₂⟩ : ∃ v₂, v₂ = v₁ / 8 := ⟨_, rfl⟩
  obtain ⟨v₃, e₃⟩ : ∃ v₃, v₃ = v₂ / 8 := ⟨_, rfl⟩
  obtain ⟨v₄, e₄⟩ : ∃ v₄, v₄ = v₃ / 8 := ⟨_, rfl⟩
  obtain ⟨v₅, e₅⟩ : ∃ v₅, v₅ = v₄ / 8 := ⟨_, rfl⟩
  obtain ⟨v₆, e₆⟩ : ∃ v₆, v₆ = v₅ / 8 := ⟨_, rfl⟩
  obtain ⟨v₇, e₇⟩ : ∃ v₇, v₇ = v₆ / 8 := ⟨_, rfl⟩
  obtain ⟨v₈, e₈⟩ : ∃ v₈, v₈ = v₇ / 8 := ⟨_, rfl⟩
  obtain ⟨v₉, e₉⟩ : ∃ v₉, v₉ = v₈ / 8 := ⟨_, rfl⟩
  simp only [← e₁, ← e₂, ← e₃, ← e₄, ← e₅, ← e₆, ← e₇, ← e₈, ← e₉] at multiple
  have leading : v₉ / 8 = 1 := by omega
  rw [leading] at multiple
  have eight : 8 > 0 := by decide
  apply digits_collide (Nat.mod_lt v₁ eight) (Nat.mod_lt v₂ eight) (Nat.mod_lt v₃ eight)
    (Nat.mod_lt v₄ eight) (Nat.mod_lt v₅ eight) (Nat.mod_lt v₆ eight) (Nat.mod_lt v₇ eight)
    (Nat.mod_lt v₈ eight) (Nat.mod_lt v₉ eight) k
  omega

/-- `get_size` gives the size exactly when its first digit is a zero. -/
theorem getSize_eq_iff (placed : pos.buffers.drop pos.offsetInFirst.toNat = header) {value : Nat}
    (holds : HoldsField header 124 12 value) (small : value < 2147483648) :
    getSize junk pos = value ↔ value < 1073741824 := by
  have text : cstr (getTarField pos 124 12 ++ junk.behind) = octalDigits 11 value := by
    rw [getTarField_of_holds placed (by decide) holds, cstr_octalField]
  have ten : (8 : Nat) ^ 10 = 1073741824 := by norm_num
  rw [getSize, text]
  constructor
  · intro same
    by_contra large
    rw [scanSigned_octalDigits_of_head (by decide) (by omega)] at same
    exact int32_decimalReading_ne (by omega) small same
  · intro less
    rw [octalDigits_zero (by omega), scanSigned_octalDigits (by omega) (by decide)]
    exact int32_of_range (by omega) (by omega)

/-- The accessors return the numbers of a header exactly if user and group are below 8 and the size is
    below `2 ^ 30`. -/
theorem fields_return_iff (junk : Junk) (numbers : Numbers) {name rest : List UInt8}
    (length : name.length = 100) (pos : DiskPosition)
    (placed : pos.buffers.drop pos.offsetInFirst.toNat = numbers.header name rest)
    (permissions : numbers.mode < 8 ^ 4) (size : numbers.size < 2147483648) :
    FieldsReturn junk numbers pos ↔
      numbers.uid < 8 ∧ numbers.gid < 8 ∧ numbers.size < 1073741824 := by
  obtain ⟨modeAt, uidAt, gidAt, sizeAt, -⟩ := @Numbers.header_fields numbers name rest length
  have uid : getUid junk pos = decimalReading 7 numbers.uid := unsignedField_eq placed uidAt rfl
  have gid : getGid junk pos = decimalReading 7 numbers.gid := unsignedField_eq placed gidAt rfl
  rw [FieldsReturn, getMode_eq placed modeAt permissions, uid, gid,
    decimalReading_eq_iff numbers.uid_small, decimalReading_eq_iff numbers.gid_small,
    getSize_eq_iff placed sizeAt size]
  simp

/-- The numbers of a file of the superuser. -/
def rootFile : Numbers := ⟨420, 0, 0, 1024, 1400000000, by decide, by decide, by decide, by decide, by decide⟩

/-- Its header in the middle of the block buffer. -/
theorem rootFile_returned :
    FieldsReturn ⟨[], 0⟩ rootFile
        ⟨List.replicate 256 1 ++ rootFile.header (List.replicate 100 97) [], 0, 256, 1⟩ ↔
      rootFile.uid < 8 ∧ rootFile.gid < 8 ∧ rootFile.size < 1073741824 :=
  fields_return_iff ⟨[], 0⟩ rootFile List.length_replicate _
    (List.drop_left' List.length_replicate) (by decide) (by decide)

/-- The user 1000 is taken for the user 1750, and a file of `2 ^ 30` bytes for one of another size. -/
theorem userFile_misread :
    getUid ⟨[], 0⟩ ⟨userFile.header (List.replicate 100 97) [], 0, 0, 0⟩ = 1750 ∧
      ¬FieldsReturn ⟨[], 0⟩ userFile ⟨userFile.header (List.replicate 100 97) [], 0, 0, 0⟩ := by
  have read : getUid ⟨[], 0⟩ ⟨userFile.header (List.replicate 100 97) [], 0, 0, 0⟩ = 1750 := by
    decide +kernel
  constructor
  · exact read
  · intro returned
    have uid := returned.2.1
    rw [read] at uid
    exact absurd uid (by decide)

end Aboyaritsev

end Nfs4Compound.Tar
