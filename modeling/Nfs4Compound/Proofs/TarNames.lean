/-
Module: Nfs4Compound.Proofs.TarNames
Layer: Proofs
Purpose: The headers that the loops of pbelousov read, and the names they make of them: prefix and name
  without a slash between them, with junk where neither ends in a zero byte.
Imports: Nfs4Compound.Tar.Pbelousov, Nfs4Compound.Proofs.TarScan
Trusted boundary: none
Main exports: reads_image, tarName_member, nameOverruns_member, comparedName_member
-/
import Nfs4Compound.Tar.Pbelousov
import Nfs4Compound.Proofs.TarScan

namespace Nfs4Compound.Tar.Pbelousov

open CText

variable {members : List Member} {blocks : Nat} {junk : Junk}

/-! ### The headers a loop reads -/

/-- `get_header` reads these headers one after the other, and then none. -/
inductive Reads (device : List UInt8) (junk : Junk) : HeaderPos → List (List UInt8 × HeaderPos) → Prop
  | none {pos : HeaderPos} (read : getHeader device junk pos = none) : Reads device junk pos []
  | some {pos next : HeaderPos} {header : List UInt8} {rest : List (List UInt8 × HeaderPos)}
      (read : getHeader device junk pos = some (header, next)) (more : Reads device junk next rest) :
      Reads device junk pos ((header, next) :: rest)

/-- The zero blocks from a position on. -/
def zeroStations : Nat → HeaderPos → List (List UInt8 × HeaderPos)
  | 0, _ => []
  | blocks + 1, pos =>
      let next := ⟨pos.offsetNextHeader, pos.offsetNextHeader + 512, pos.num + 1⟩
      (zeroBlock, next) :: zeroStations blocks next

/-- The headers of the members from a position on, and the zero blocks behind them. -/
def stations (blocks : Nat) : List Member → HeaderPos → List (List UInt8 × HeaderPos)
  | [], pos => zeroStations (blocks + 1) pos
  | m :: rest, pos =>
      let next := ⟨pos.offsetNextHeader, pos.offsetNextHeader + m.span, pos.num + 1⟩
      (m.header, next) :: stations blocks rest next

theorem getTarOctalField_zeroBlock : getTarOctalField junk zeroBlock 124 = 0 := by
  have text : cstr (zeroBlock.drop 124 ++ junk.behind) = [] := by
    rw [zeroBlock, List.drop_replicate]
    exact cstr_zero _
  have zero : scanSigned [48] = some 0 := by
    rw [@scanSigned_octal [] (by simp), List.foldl_nil, int64_of_range] <;> simp
  rw [getTarOctalField, text, zero]

/-- `get_header` at a zero block. -/
theorem getHeader_zero {device : List UInt8} {pos : HeaderPos} {rest : List UInt8}
    (aligned : 512 ∣ pos.offsetNextHeader) (small : pos.offsetNextHeader < 9223372036854775808)
    (here : device.drop pos.offsetNextHeader = zeroBlock ++ rest) :
    getHeader device junk pos = some (zeroBlock,
      ⟨pos.offsetNextHeader, pos.offsetNextHeader + 512, pos.num + 1⟩) := by
  have total : (device.drop pos.offsetNextHeader).length = 512 + rest.length := by
    rw [here, List.length_append, length_zeroBlock]
  rw [List.length_drop] at total
  have readable : (pos.offsetNextHeader / 512 + 1) * 512 ≤ device.length := by omega
  rw [getHeader, tfsReadBlock_aligned (by decide) (Nat.dvd_refl 512) aligned readable (by omega), here,
    List.take_left' length_zeroBlock]
  simp only [length_zeroBlock, Nat.lt_irrefl, if_false, getTarOctalField_zeroBlock]
  have size : roundedSize (wrap64 0) = 0 := rfl
  rw [size, wrap64_of_range (by omega), Nat.zero_add]

/-- `get_header` behind the end of the device. -/
theorem getHeader_behind {device : List UInt8} {pos : HeaderPos}
    (behind : device.length ≤ pos.offsetNextHeader) : getHeader device junk pos = none := by
  have unreadable : ¬(pos.offsetNextHeader / 512 + 1) * 512 ≤ device.length := by omega
  have empty : tfsReadBlock device 512 512 pos.offsetNextHeader = [] := by
    rw [tfsReadBlock, sbBread, if_neg unreadable]
  rw [getHeader, empty]
  rfl

theorem reads_zeros {device : List UInt8} (small : device.length < 9223372036854775808) (blocks : Nat)
    (pos : HeaderPos) (aligned : 512 ∣ pos.offsetNextHeader)
    (inside : pos.offsetNextHeader ≤ device.length)
    (here : device.drop pos.offsetNextHeader = padding blocks) :
    Reads device junk pos (zeroStations blocks pos) := by
  induction blocks generalizing pos with
  | zero =>
      apply Reads.none
      apply getHeader_behind
      have total := congrArg List.length here
      rw [List.length_drop, padding, List.length_replicate] at total
      omega
  | succ blocks inductionHypothesis =>
      have first : padding (blocks + 1) = zeroBlock ++ padding blocks := by
        rw [padding, zeroBlock, padding, List.replicate_append_replicate]
        congr 1
        omega
      rw [first] at here
      have total := congrArg List.length here
      rw [List.length_drop, List.length_append, length_zeroBlock] at total
      refine .some (getHeader_zero aligned (by omega) here) (inductionHypothesis _ ?_ ?_ ?_)
      · exact Nat.dvd_add aligned (Nat.dvd_refl 512)
      · show pos.offsetNextHeader + 512 ≤ device.length
        omega
      · show device.drop (pos.offsetNextHeader + 512) = padding blocks
        rw [← List.drop_drop, here, List.drop_left' length_zeroBlock]

/-- The loops read the headers of the members and then the zero blocks. -/
theorem reads_stations (small : (image members (padding blocks)).length < 9223372036854775808)
    (k : Nat) (inside : k ≤ members.length) (pos : HeaderPos)
    (here : pos.offsetNextHeader = offset members k) :
    Reads (image members (padding blocks)) junk pos (stations blocks (members.drop k) pos) := by
  have length := @length_image members (padding blocks)
  -- the induction is on the number of members still to come
  induction hd : members.length - k generalizing k pos with
  | zero =>
      have all : k = members.length := by omega
      subst all
      rw [List.drop_length, stations]
      apply reads_zeros small
      · rw [here]
        exact offset_dvd _ _
      · omega
      · rw [here, image_end, zeroBlock, padding, padding, List.replicate_append_replicate]
        congr 1
        omega
  | succ d inductionHypothesis =>
      have less : k < members.length := by omega
      have span := offset_succ less
      rw [List.drop_eq_getElem_cons less, stations]
      have read := @getHeader_member members (padding blocks) junk (by omega) k less pos here
      rw [here, ← span]
      apply Reads.some read
      exact inductionHypothesis (k + 1) less _ rfl (by omega)

theorem reads_image (small : (image members (padding blocks)).length < 9223372036854775808) :
    Reads (image members (padding blocks)) junk initPosStart (stations blocks members initPosStart) := by
  have whole := @reads_stations members blocks junk small 0 (by omega) initPosStart (by
    simp [initPosStart, offset])
  simpa using whole

/-! ### Names -/

section Names

variable (junk : Junk) (m : Member)

theorem nameField_member : strncpy 100 m.header = padTo 100 m.name := by
  obtain ⟨rest, header⟩ := m.header_name
  rw [header]
  exact strncpy_field m.name_plain m.name_length rest

theorem prefixField_member : strncpy 155 (m.header.drop 345) = padTo 155 m.namePrefix := by
  rw [Member.header_drop_prefix, strncpy_field m.namePrefix_plain m.namePrefix_length]

/-- What the driver reads back of the prefix. -/
theorem cstr_prefixField : cstr (padTo 155 m.namePrefix ++ junk.behind) = prefixText junk m := by
  rw [prefixText]
  split
  · rename_i full
    have whole : padTo 155 m.namePrefix = m.namePrefix := by simp [padTo, full]
    rw [whole, cstr_append m.namePrefix_plain]
  · rename_i short
    have room : m.namePrefix.length < 155 := Nat.lt_of_le_of_ne m.namePrefix_length short
    rw [cstr_padTo m.namePrefix_plain room, List.append_nil]

theorem prefixText_of_short {junk : Junk} {m : Member} (short : m.namePrefix.length < 155) :
    prefixText junk m = m.namePrefix := by
  rw [prefixText, if_neg (Nat.ne_of_lt short), List.append_nil]

/-- The name field overruns the buffer behind a long prefix. -/
theorem nameOverruns_member :
    nameOverruns junk m.header = false ↔ (prefixText junk m).length ≤ 156 := by
  rw [nameOverruns, prefixField_member, cstr_prefixField, decide_eq_false_iff_not]
  omega

/-- What lies behind the name field, up to the next zero. -/
theorem cstr_behind (full : m.name.length = 100) :
    cstr ((padTo 155 m.namePrefix ++ junk.behind).drop ((prefixText junk m).length + 100)) =
      behindName junk m := by
  have length := length_padTo m.namePrefix_length
  rw [List.drop_append, length, behindName]
  by_cases far : 55 ≤ (prefixText junk m).length
  · have beyond : (padTo 155 m.namePrefix).drop ((prefixText junk m).length + 100) = [] := by
      rw [List.drop_eq_nil_iff, length]
      omega
    have shift : (prefixText junk m).length + 100 - 155 = (prefixText junk m).length - 55 := by omega
    rw [beyond, shift, if_pos ⟨full, far⟩, List.nil_append]
  · have short : m.namePrefix.length < 155 := by
      by_contra long
      apply far
      rw [prefixText, List.length_append]
      omega
    rw [prefixText_of_short short] at far ⊢
    obtain ⟨k, zeros⟩ : ∃ k, (padTo 155 m.namePrefix).drop (m.namePrefix.length + 100) =
        0 :: List.replicate k 0 := by
      refine ⟨54 - m.namePrefix.length, ?_⟩
      rw [padTo, List.drop_append, List.drop_eq_nil_of_le (by omega), List.nil_append,
        List.drop_replicate, ← List.replicate_succ]
      congr 1
      omega
    rw [zeros, List.cons_append, cstr_zero, if_neg fun both => far both.2]

/-- The name of a member: prefix and name, one behind the other. -/
theorem tarName_member : tarName junk m.header = joinedName junk m := by
  have front : (padTo 155 m.namePrefix ++ junk.behind).take (prefixText junk m).length =
      prefixText junk m := by
    obtain ⟨rest, split, _⟩ := cstr_split (padTo 155 m.namePrefix ++ junk.behind)
    rw [cstr_prefixField] at split
    rw [split, List.take_left]
  have plain : Plain (prefixText junk m) := by
    rw [← cstr_prefixField]
    exact plain_cstr _
  rw [tarName, tarNameBuffer, nameField_member, prefixField_member]
  simp only [cstr_prefixField, front]
  rw [cstr_set_zero, cstr_append plain, joinedName]
  congr 2
  rcases Nat.lt_or_eq_of_le m.name_length with room | full
  · rw [cstr_padTo m.name_plain room, behindName, if_neg fun both => Nat.ne_of_lt room both.1,
      List.append_nil]
  · have whole : padTo 100 m.name = m.name := by simp [padTo, full]
    rw [whole, cstr_append m.name_plain, cstr_behind junk m full]

variable {junk m}

theorem joinedName_terminated (ends : Terminated m) : joinedName junk m = m.namePrefix ++ m.name := by
  have fits := m.name_length
  have behind : behindName junk m = [] := by
    rw [behindName, prefixText_of_short ends.1, if_neg]
    rintro ⟨full, far⟩
    rcases ends.2 with short | near <;> omega
  have short : (m.namePrefix ++ m.name).length ≤ 255 := by
    rw [List.length_append]
    rcases ends with ⟨_, short | near⟩ <;> omega
  rw [joinedName, prefixText_of_short ends.1, behind, List.append_nil, List.take_of_length_le short]

theorem terminated_of_noPrefix (noPrefix : m.namePrefix = []) : Terminated m := by
  rw [Terminated, noPrefix]
  exact ⟨by decide, .inr (by decide)⟩

theorem fits_of_terminated (ends : Terminated m) : (prefixText junk m).length ≤ 156 := by
  rw [prefixText_of_short ends.1]
  exact Nat.le_of_lt (Nat.lt_trans ends.1 (by decide))

theorem joinedName_noPrefix (noPrefix : m.namePrefix = []) : joinedName junk m = m.name := by
  rw [joinedName_terminated (terminated_of_noPrefix noPrefix), noPrefix, List.nil_append]

/-- The buffer behind a short prefix: the name, zeros, and then junk up to the end. -/
theorem tarNameBuffer_member (short : m.namePrefix.length ≤ 55) :
    tarNameBuffer junk m.header =
      (m.namePrefix ++ m.name) ++
        (List.replicate (155 - m.namePrefix.length - m.name.length) 0 ++ junk.behind.set 100 0) := by
  have fits := m.name_length
  have prefixed : prefixText junk m = m.namePrefix := prefixText_of_short (by omega)
  have zeros : List.replicate (100 - m.name.length) (0 : UInt8) ++
      List.replicate (55 - m.namePrefix.length) 0 =
        List.replicate (155 - m.namePrefix.length - m.name.length) 0 := by
    rw [List.replicate_append_replicate]
    congr 1
    omega
  have front : (padTo 155 m.namePrefix ++ junk.behind).take m.namePrefix.length = m.namePrefix := by
    rw [padTo, List.append_assoc, List.take_left]
  have behind : (padTo 155 m.namePrefix ++ junk.behind).drop (m.namePrefix.length + 100) =
      List.replicate (55 - m.namePrefix.length) 0 ++ junk.behind := by
    rw [padTo, List.append_assoc, ← List.drop_drop, List.drop_left,
      List.drop_append_of_le_length (by rw [List.length_replicate]; omega), List.drop_replicate]
    congr 2
    omega
  rw [tarNameBuffer, nameField_member, prefixField_member]
  simp only [cstr_prefixField, prefixed, front, behind]
  have whole : m.namePrefix ++ (padTo 100 m.name ++ (List.replicate (55 - m.namePrefix.length) 0 ++
      junk.behind)) = ((m.namePrefix ++ m.name) ++
        List.replicate (155 - m.namePrefix.length - m.name.length) 0) ++ junk.behind := by
    rw [← zeros, padTo]
    simp only [List.append_assoc]
  have length : ((m.namePrefix ++ m.name) ++
      List.replicate (155 - m.namePrefix.length - m.name.length) 0).length = 155 := by
    rw [List.length_append, List.length_append, List.length_replicate]
    omega
  rw [whole, List.set_append_right _ _ (by omega), length, List.append_assoc]

end Names

theorem tarNameBuffer_zeroBlock :
    tarNameBuffer junk zeroBlock = List.replicate 155 0 ++ junk.behind.set 100 0 := by
  have field (n : Nat) (k : Nat) : strncpy n (zeroBlock.drop k) = List.replicate n 0 := by
    have empty : cstr (zeroBlock.drop k) = [] := by
      rw [zeroBlock, List.drop_replicate]
      cases 512 - k with
      | zero => rfl
      | succ d => exact cstr_zero _
    simp [strncpy, empty, padTo]
  have first : cstr (List.replicate 155 0 ++ junk.behind) = [] := cstr_zero _
  have nameField := field 100 0
  rw [List.drop_zero] at nameField
  rw [tarNameBuffer, field 155 345, nameField, first]
  simp only [List.length_nil, List.take_zero, List.nil_append, Nat.zero_add]
  rw [List.drop_append_of_le_length (by simp), List.drop_replicate, ← List.append_assoc,
    List.replicate_append_replicate, List.set_append_right _ _ (by simp)]
  simp

theorem comparedName_zeroBlock : comparedName junk zeroBlock = [] := by
  have empty : tarName junk zeroBlock = [] := by
    rw [tarName, tarNameBuffer_zeroBlock]
    exact cstr_zero _
  rw [comparedName, empty]
  rfl

theorem nameOverruns_zeroBlock : nameOverruns junk zeroBlock = false := by
  have empty : cstr (zeroBlock.drop 345) = [] := by
    rw [zeroBlock, List.drop_replicate]
    exact cstr_zero _
  have first : cstr (strncpy 155 (zeroBlock.drop 345) ++ junk.behind) = [] := by
    rw [strncpy, empty]
    exact cstr_zero _
  rw [nameOverruns, first]
  decide

/-- A plainly named member is compared by its path. -/
theorem comparedName_member {m : Member} (plainly : PlainlyNamed m) :
    comparedName junk m.header = ustarPath m := by
  obtain ⟨noPrefix, visible⟩ := plainly
  rw [comparedName, tarName_member, joinedName_noPrefix noPrefix, ustarPath, if_pos noPrefix]
  simp only [asCompared, skipped]
  by_cases dot : m.name.head? = some period
  · rw [if_pos dot, if_pos (visible dot)]
  · have other : ¬m.name.take 2 = [period, slash] := by
      intro start
      apply dot
      have head := congrArg List.head? start
      rwa [List.head?_take, if_neg (by decide)] at head
    rw [if_neg dot, if_neg other, List.drop_zero]

end Nfs4Compound.Tar.Pbelousov
