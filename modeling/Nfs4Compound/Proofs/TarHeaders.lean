/-
Module: Nfs4Compound.Proofs.TarHeaders
Layer: Proofs
Purpose: Where the members of a well-formed archive lie on the device, and what the drivers read out
  of the size field of their headers.
Imports: Nfs4Compound.Tar.Drivers
Trusted boundary: none
Main exports: Member.length_header, image_header, image_end, sbBread_header, Aboyaritsev.getSize_header,
  Afedosenko.getLongField_size, Afedosenko.fillsInode_header, Ksaltuk.readOctalInt_size,
  Pbelousov.getTarOctalField_size
-/
import Nfs4Compound.Tar.Drivers

namespace Nfs4Compound.Tar

open CText

/-! ### Paths -/

theorem plain_dropSlash {text : List UInt8} (plain : Plain text) : Plain (dropSlash text) := by
  intro c member
  unfold dropSlash at member
  split at member
  · exact plain c ((List.dropLast_sublist _).subset member)
  · exact plain c member

theorem length_dropSlash_le (text : List UInt8) : (dropSlash text).length ≤ text.length := by
  unfold dropSlash
  split
  · exact (List.dropLast_sublist text).length_le
  · exact Nat.le_refl _

/-! ### The header block -/

namespace Member

variable (m : Member)

theorem length_owner : m.owner.length = 24 := by
  simp [owner, length_octalField]

theorem length_upToPrefix : m.upToPrefix.length = 209 := by
  simp [upToPrefix, length_octalField, m.chksum_length, m.other_length]

@[simp] theorem length_header : m.header.length = 512 := by
  simp [header, m.length_owner, m.length_upToPrefix, length_octalField, length_padTo m.name_length,
    length_padTo m.namePrefix_length]

theorem length_bytes : m.bytes.length = m.span := by
  simp [bytes, span, m.data_length]

/-- The name field starts with the name. -/
theorem header_name : ∃ rest, m.header = padTo 100 m.name ++ rest := ⟨_, rfl⟩

/-- The size field is eleven octal digits and a zero byte. -/
theorem header_drop_size : ∃ rest, m.header.drop 124 = octalDigits 11 m.size ++ 0 :: rest := by
  refine ⟨m.upToPrefix ++ (padTo 155 m.namePrefix ++ padTo 12 []), ?_⟩
  rw [header, ← List.append_assoc, List.drop_left' (by
    simp [m.length_owner, length_padTo m.name_length])]
  simp [octalField]

theorem header_drop_prefix : m.header.drop 345 = padTo 155 m.namePrefix ++ padTo 12 [] := by
  have split : m.header = (padTo 100 m.name ++ (m.owner ++ (octalField 12 m.size ++ m.upToPrefix))) ++
      (padTo 155 m.namePrefix ++ padTo 12 []) := by
    simp only [header, List.append_assoc]
  rw [split, List.drop_left']
  simp [m.length_owner, m.length_upToPrefix, length_octalField, length_padTo m.name_length]

theorem header_head : ∃ c, m.header.head? = some c ∧ c ≠ 0 := by
  obtain ⟨rest, split⟩ := m.header_name
  cases name : m.name with
  | nil => exact absurd name m.name_nonempty
  | cons c tail =>
      refine ⟨c, by simp [split, name, padTo], ?_⟩
      exact m.name_plain c (by simp [name])

end Member

/-! ### The device -/

variable {members : List Member} {behind : List UInt8}

theorem length_members (members : List Member) :
    (members.flatMap Member.bytes).length = offset members members.length := by
  induction members with
  | nil => simp [offset]
  | cons m rest inductionHypothesis =>
      simp [offset, m.length_bytes] at inductionHypothesis ⊢
      exact inductionHypothesis

theorem offset_succ {k : Nat} (inside : k < members.length) :
    offset members (k + 1) = offset members k + members[k].span := by
  rw [offset, offset, List.take_succ_eq_append_getElem inside, List.map_append, List.sum_append]
  simp

theorem offset_mono {k l : Nat} (le : k ≤ l) : offset members k ≤ offset members l := by
  obtain ⟨d, rfl⟩ := Nat.exists_eq_add_of_le le
  have split : members.take (k + d) = members.take k ++ (members.drop k).take d := List.take_add
  rw [offset, offset, split, List.map_append, List.sum_append]
  exact Nat.le_add_right _ _

theorem offset_dvd (members : List Member) (k : Nat) : 512 ∣ offset members k := by
  unfold offset
  induction members.take k with
  | nil => simp
  | cons m rest inductionHypothesis =>
      rw [List.map_cons, List.sum_cons]
      apply Nat.dvd_add _ inductionHypothesis
      exact ⟨1 + blocksOf m.size, by rw [Member.span]; ring⟩

/-- What lies on the device from the `k`-th header on. -/
theorem image_header {k : Nat} (inside : k < members.length) :
    ∃ rest, (image members behind).drop (offset members k) = members[k].header ++ rest := by
  refine ⟨members[k].data ++ image (members.drop (k + 1)) behind, ?_⟩
  have whole : members.flatMap Member.bytes =
      (members.take k).flatMap Member.bytes ++
        (members[k].bytes ++ (members.drop (k + 1)).flatMap Member.bytes) := by
    conv_lhs => rw [← List.take_append_drop k members]
    rw [List.flatMap_append, List.drop_eq_getElem_cons inside, List.flatMap_cons]
  have before : ((members.take k).flatMap Member.bytes).length = offset members k := by
    have := length_members (members.take k)
    rw [this]
    simp [offset, List.take_take, Nat.min_eq_left (Nat.le_of_lt inside)]
  rw [image, whole, List.append_assoc, List.drop_left' before, Member.bytes, image]
  simp only [List.append_assoc]

theorem image_end :
    (image members behind).drop (offset members members.length) = zeroBlock ++ behind := by
  rw [image, List.drop_left' (length_members members)]

@[simp] theorem length_zeroBlock : zeroBlock.length = 512 := List.length_replicate

theorem length_image :
    (image members behind).length = offset members members.length + 512 + behind.length := by
  rw [image, List.length_append, length_members, List.length_append, length_zeroBlock]
  omega

/-- The block of 512 bytes at a header, or at the end of the archive, can be read. -/
theorem sbBread_of_drop {device block rest : List UInt8} {n : Nat} (length : block.length = 512)
    (found : device.drop (n * 512) = block ++ rest) : sbBread device 512 n = some block := by
  have total : (device.drop (n * 512)).length = 512 + rest.length := by
    rw [found, List.length_append, length]
  rw [List.length_drop] at total
  have inside : (n + 1) * 512 ≤ device.length := by omega
  rw [sbBread, if_pos inside, found, List.take_left' length]

theorem sbBread_header {k : Nat} (inside : k < members.length) :
    sbBread (image members behind) 512 (offset members k / 512) = some members[k].header := by
  obtain ⟨rest, found⟩ := @image_header members behind k inside
  apply sbBread_of_drop (members[k].length_header)
  rw [Nat.div_mul_cancel (offset_dvd members k)]
  exact found

theorem sbBread_end :
    sbBread (image members behind) 512 (offset members members.length / 512) =
      some zeroBlock := by
  apply sbBread_of_drop length_zeroBlock
  rw [Nat.div_mul_cancel (offset_dvd _ _)]
  exact image_end

/-! ### The size field -/

theorem octalDigits_zero {width value : Nat} (small : value < 8 ^ width) :
    octalDigits (width + 1) value = 48 :: octalDigits width value := by
  induction width generalizing value with
  | zero =>
      have : value = 0 := by simpa using small
      subst this
      rfl
  | succ width inductionHypothesis =>
      have less : value / 8 < 8 ^ width := by
        rw [Nat.pow_succ] at small
        exact Nat.div_lt_of_lt_mul (by rwa [Nat.mul_comm] at small)
      rw [octalDigits, inductionHypothesis less, octalDigits]
      rfl

namespace Member

variable (m : Member)

theorem size_digits :
    (octalDigits 10 m.size).foldl (fun n c => n * 8 + (c.toNat - 48)) 0 = m.size := by
  rw [octalDigits_foldl, Nat.zero_mul, Nat.zero_add, Nat.mod_eq_of_lt]
  exact m.size_small

theorem sizeField_digits : octalDigits 11 m.size = 48 :: octalDigits 10 m.size :=
  octalDigits_zero m.size_small

/-- The text of the size field, as a string. -/
theorem cstr_size (rest : List UInt8) :
    cstr (m.header.drop 124 ++ rest) = 48 :: octalDigits 10 m.size := by
  obtain ⟨tail, field⟩ := m.header_drop_size
  rw [field, List.append_assoc, List.cons_append, cstr_append_zero (plain_octalDigits _ _),
    m.sizeField_digits]

theorem int64_size : int64 (m.size : Int) = m.size := by
  have := m.size_small
  apply int64_of_range <;> omega

theorem int32_size : int32 (m.size : Int) = m.size := by
  have := m.size_small
  apply int32_of_range <;> omega

end Member

/-- `sscanf` reads the size out of the field, with or without one more `'0'` in front. -/
theorem scanSigned_size (m : Member) : scanSigned (48 :: octalDigits 10 m.size) = some (m.size : Int) := by
  rw [scanSigned_octal (octalDigits_range _ _), m.size_digits, m.int64_size]

theorem scanSigned_zero_size (m : Member) :
    scanSigned (48 :: 48 :: octalDigits 10 m.size) = some (m.size : Int) := by
  rw [scanSigned_octal]
  · rw [List.foldl_cons]
    have zero : 0 * 8 + ((48 : UInt8).toNat - 48) = 0 := rfl
    rw [zero, m.size_digits, m.int64_size]
  · intro c member
    rcases List.mem_cons.mp member with rfl | member
    · decide
    · exact octalDigits_range _ _ c member

theorem Afedosenko.getLongField_size (junk : Junk) (m : Member) :
    getLongField junk (m.header ++ [0]) 124 12 = some (m.size : Int) := by
  have reach : (m.header ++ [0]).drop 124 = m.header.drop 124 ++ [0] := by
    rw [List.drop_append_of_le_length (by simp)]
  have fits : (48 :: octalDigits 10 m.size).length + 1 ≤ 12 := by simp
  rw [getLongField, reach, m.cstr_size, if_pos fits, scanSigned_zero_size, Option.getD_some]

/-- A field of octal digits and a zero byte is copied inside `mem`. -/
theorem Afedosenko.getLongField_octal (junk : Junk) {data after : List UInt8} {offset width value : Nat}
    (positive : 0 < width) (found : data.drop offset = octalField width value ++ after) :
    (getLongField junk data offset width).isSome := by
  have text : cstr (data.drop offset) = octalDigits (width - 1) value := by
    rw [found, octalField, List.append_assoc, List.singleton_append,
      cstr_append_zero (plain_octalDigits _ _)]
  have fits : (octalDigits (width - 1) value).length + 1 ≤ width := by
    rw [length_octalDigits]
    omega
  rw [getLongField, text, if_pos fits]
  rfl

/-- So are the fields a new inode is filled from. -/
theorem Afedosenko.fillsInode_header (junk : Junk) (m : Member) : fillsInode junk (m.header ++ [0]) := by
  have name := length_padTo m.name_length
  simp only [fillsInode, inodeFields, List.all_cons, List.all_nil, Bool.and_true, Bool.and_eq_true]
  refine ⟨?_, ?_, ?_, ?_⟩
  · apply getLongField_octal junk (by decide)
    rw [Member.header, Member.owner, List.append_assoc, List.append_assoc, List.append_assoc,
      List.drop_left' name]
  · apply getLongField_octal junk (by decide)
    have split : m.header ++ [0] = (padTo 100 m.name ++ octalField 8 m.mode) ++
        (octalField 8 m.uid ++ (octalField 8 m.gid ++ (octalField 12 m.size ++ (m.upToPrefix ++
          (padTo 155 m.namePrefix ++ padTo 12 []))) ++ [0])) := by
      simp only [Member.header, Member.owner, List.append_assoc]
    rw [split, List.drop_left' (by simp [name, length_octalField])]
  · apply getLongField_octal junk (by decide)
    have split : m.header ++ [0] = (padTo 100 m.name ++ (octalField 8 m.mode ++ octalField 8 m.uid)) ++
        (octalField 8 m.gid ++ ((octalField 12 m.size ++ (m.upToPrefix ++
          (padTo 155 m.namePrefix ++ padTo 12 []))) ++ [0])) := by
      simp only [Member.header, Member.owner, List.append_assoc]
    rw [split, List.drop_left' (by simp [name, length_octalField])]
  · apply getLongField_octal junk (by decide)
    have split : m.header ++ [0] = (padTo 100 m.name ++ (m.owner ++ octalField 12 m.size)) ++
        (octalField 12 m.mtime ++ ((m.chksum ++ (m.typeflag :: m.other)) ++
          (padTo 155 m.namePrefix ++ padTo 12 []) ++ [0])) := by
      simp only [Member.header, Member.upToPrefix, List.append_assoc]
    rw [split, List.drop_left' (by simp [name, m.length_owner, length_octalField])]

theorem Pbelousov.getTarOctalField_size (junk : Junk) (m : Member) :
    getTarOctalField junk m.header 124 = m.size := by
  rw [getTarOctalField, m.cstr_size, scanSigned_zero_size]

theorem Aboyaritsev.getSize_header (junk : Junk) (m : Member) (blockNo index : Int) :
    getSize junk ⟨m.header, blockNo, 0, index⟩ = m.size := by
  obtain ⟨tail, field⟩ := m.header_drop_size
  have text : cstr (getTarField ⟨m.header, blockNo, 0, index⟩ 124 12 ++ junk.behind) =
      48 :: octalDigits 10 m.size := by
    have cut : getTarField ⟨m.header, blockNo, 0, index⟩ 124 12 = octalDigits 11 m.size ++ [0] := by
      simp only [getTarField, Int.toNat_zero, Nat.zero_add]
      rw [field, List.take_append, length_octalDigits,
        List.take_of_length_le (by simp)]
      simp
    rw [cut, List.append_assoc, List.singleton_append, cstr_append_zero (plain_octalDigits _ _),
      m.sizeField_digits]
  rw [getSize, text, scanSigned_size]
  exact m.int32_size

/-- `read_octal_int` reads octal digits as a number, as long as it fits. -/
theorem Ksaltuk.readOctalInt_digits (digits rest : List UInt8)
    (range : ∀ c ∈ digits, 48 ≤ c.toNat ∧ c.toNat < 56) (fits : digits.length ≤ 21) :
    readOctalInt (digits ++ 0 :: rest) = digits.foldl (fun n c => n * 8 + (c.toNat - 48)) 0 := by
  have cut : (digits ++ 0 :: rest).takeWhile (fun c => c ≠ 32 ∧ c ≠ 0) = digits := by
    rw [List.takeWhile_append_of_pos]
    · simp
    · intro c member
      have low := (range c member).1
      simp only [decide_eq_true_eq]
      constructor <;> (rintro rfl; exact absurd low (by decide))
  rw [readOctalInt, cut]
  -- the number read so far stays below `8 ^ (digits read)`
  have bound : ∀ (digits : List UInt8) (start width : Nat),
      (∀ c ∈ digits, 48 ≤ c.toNat ∧ c.toNat < 56) → start < 8 ^ width →
      width + digits.length ≤ 21 →
      digits.foldl (fun n c => wrap64 ((n * 8 : Nat) + ((c.toInt8.toInt : Int) - 48))) start =
        digits.foldl (fun n c => n * 8 + (c.toNat - 48)) start := by
    intro digits
    induction digits with
    | nil => intro _ _ _ _ _; rfl
    | cons c rest inductionHypothesis =>
        intro start width range small fits
        obtain ⟨low, high⟩ := range c (by simp)
        have next : start * 8 + (c.toNat - 48) < 8 ^ (width + 1) := by
          rw [Nat.pow_succ]
          omega
        have limit : 8 ^ (width + 1) ≤ 8 ^ 21 := by
          apply Nat.pow_le_pow_right (by decide)
          rw [List.length_cons] at fits
          omega
        have byte : c.toInt8.toInt = (c.toNat : Int) := by
          have small : 2 * c.toBitVec.toNat < 2 ^ 8 := by
            rw [UInt8.toNat_toBitVec]
            omega
          exact BitVec.toInt_eq_toNat_of_lt small
        have step : wrap64 ((start * 8 : Nat) + ((c.toInt8.toInt : Int) - 48)) =
            start * 8 + (c.toNat - 48) := by
          have same : ((start * 8 : Nat) : Int) + ((c.toInt8.toInt : Int) - 48) =
              ((start * 8 + (c.toNat - 48) : Nat) : Int) := by
            rw [byte]
            omega
          rw [same, wrap64_of_range]
          have : 8 ^ 21 < 18446744073709551616 := by norm_num
          omega
        rw [List.foldl_cons, List.foldl_cons, step]
        apply inductionHypothesis _ (width + 1)
        · exact fun x member => range x (by simp [member])
        · exact next
        · rw [List.length_cons] at fits
          omega
  exact bound digits 0 0 range (by simp) (by simpa using fits)

theorem Ksaltuk.readOctalInt_size (junk : Junk) (m : Member) :
    readOctalInt (m.header.drop 124 ++ junk.behind) = m.size := by
  obtain ⟨tail, field⟩ := m.header_drop_size
  rw [field, List.append_assoc, List.cons_append, readOctalInt_digits _ _ (octalDigits_range _ _) (by simp),
    octalDigits_foldl, Nat.zero_mul, Nat.zero_add, Nat.mod_eq_of_lt]
  have := m.size_small
  norm_num
  omega

end Nfs4Compound.Tar
