/-
Module: Nfs4Compound.Proofs.TarScan
Layer: Proofs
Purpose: Which archives the four header scans walk correctly.  Each driver has its own rounding of the
  file size; two of them round a multiple of 512 up by a whole block.
Imports: Nfs4Compound.Proofs.TarHeaders
Trusted boundary: none
Main exports: walksHeaders_of_steps, scans_walk_headers_iff, shortFiles_walked,
  full_block_member_derails_scans
-/
import Nfs4Compound.Proofs.TarHeaders

namespace Nfs4Compound.Tar

open CText

variable {members : List Member} {behind : List UInt8} {junk : Junk}

/-! ### The rule for scans -/

section Rule

variable {σ : Type} {visit : σ → Visit σ}

/-- `At k s`: in state `s` the scan is about to read the `k`-th header.  If every round reads the
    header it is at and goes on to the next one, the scan walks the headers. -/
theorem walksHeaders_of_steps (At : Nat → σ → Prop) {start : σ} (initial : At 0 start)
    (step : ∀ k s, k < members.length → At k s →
      visit s = .last (offset members k) .found ∨
        ∃ next, visit s = .more (offset members k) next ∧ At (k + 1) next)
    (final : ∀ s, At members.length s →
      (∃ ending, visit s = .last (offset members members.length) ending) ∨
        ∃ next, visit s = .more (offset members members.length) next) :
    WalksHeaders members (scan visit (members.length + 1) start) := by
  -- the induction is on the number of headers still to come
  have rounds : ∀ d k s, k + d = members.length → At k s →
      (scan visit (d + 1) s).1 =
          (List.range (scan visit (d + 1) s).1.length).map (fun j => (offset members (k + j) : Int)) ∧
        ((scan visit (d + 1) s).2 = .found ∨ (scan visit (d + 1) s).1.length = d + 1) := by
    intro d
    induction d with
    | zero =>
        intro k s total at_
        rw [Nat.add_zero] at total
        subst total
        rcases final s at_ with ⟨ending, round⟩ | ⟨next, round⟩
        · simp [scan, round]
        · simp [scan, round]
    | succ d inductionHypothesis =>
        intro k s total at_
        rcases step k s (by omega) at_ with round | ⟨next, round, at_'⟩
        · simp [scan, round]
        · obtain ⟨visited, ending⟩ := inductionHypothesis (k + 1) next (by omega) at_'
          have unfolded : scan visit (d + 1 + 1) s =
              ((offset members k : Int) :: (scan visit (d + 1) next).1, (scan visit (d + 1) next).2) := by
            rw [scan, round]
          rw [unfolded]
          constructor
          · simp only [List.length_cons, List.range_succ_eq_map, List.map_cons, List.map_map,
              Nat.add_zero, List.cons.injEq, true_and]
            rw [visited]
            simp [Function.comp_def, Nat.add_comm, Nat.add_left_comm]
          · rcases ending with ending | ending
            · exact .inl ending
            · exact .inr (by simp [ending])
  have whole := rounds members.length 0 start (by omega) initial
  simpa [WalksHeaders] using whole

end Rule

/-- The number of the block at which the `k`-th header lies. -/
theorem offset_div_succ {k : Nat} (inside : k < members.length) :
    offset members (k + 1) / 512 = offset members k / 512 + 1 + blocksOf members[k].size := by
  obtain ⟨n, whole⟩ := offset_dvd members k
  rw [offset_succ inside, whole, Member.span]
  omega

theorem blocksOf_small (m : Member) : blocksOf m.size ≤ 2097152 := by
  have := m.size_small
  unfold blocksOf
  omega

/-! ### ksaltuk -/

namespace Ksaltuk

theorem getBlocksCount_natCast (bytes : Nat) : getBlocksCount (bytes : Int) = blocksOf bytes := by
  rw [getBlocksCount, Int.tmod_eq_emod_of_nonneg (by omega), Int.tdiv_eq_ediv_of_nonneg (by omega),
    blocksOf]
  split <;> omega

theorem nextBlock_header (m : Member) (i : Int) :
    nextBlock junk m.header i = int32 (i + blocksOf m.size + 1) := by
  rw [nextBlock, readOctalInt_size, m.int32_size, getBlocksCount_natCast]

theorem bread_header {k : Nat} (inside : k < members.length) :
    bread (image members behind) ((offset members k / 512 : Nat) : Int) = some members[k].header := by
  rw [bread, if_pos (by omega), Int.toNat_natCast, sbBread_header inside]

theorem bread_end :
    bread (image members behind) ((offset members members.length / 512 : Nat) : Int) = some zeroBlock := by
  rw [bread, if_pos (by omega), Int.toNat_natCast, sbBread_end]

theorem nextBlock_offset {k : Nat} (inside : k < members.length) :
    nextBlock junk members[k].header ((offset members k / 512 : Nat) : Int) =
      int32 ((offset members (k + 1) / 512 : Nat) : Int) := by
  rw [nextBlock_header, offset_div_succ inside]
  congr 1
  omega

theorem nextBlock_small (small : offset members members.length < 1099511627776) {k : Nat}
    (inside : k < members.length) :
    nextBlock junk members[k].header ((offset members k / 512 : Nat) : Int) =
      ((offset members (k + 1) / 512 : Nat) : Int) := by
  have bound : offset members (k + 1) ≤ offset members members.length := offset_mono inside
  rw [nextBlock_offset inside, int32_of_range (by omega) (by omega)]

theorem head_header (m : Member) : m.header.head? ≠ some 0 := by
  obtain ⟨c, head, nonzero⟩ := m.header_head
  rw [head]
  simpa using nonzero

theorem walksHeaders (small : offset members members.length < 1099511627776) (name : List UInt8) :
    WalksHeaders members
      (scan (visitName (image members behind) junk name) (members.length + 1) 0) := by
  apply walksHeaders_of_steps fun k i => i = ((offset members k / 512 : Nat) : Int)
  · simp [offset]
  · rintro k i inside rfl
    have position : 512 * ((offset members k / 512 : Nat) : Int) = (offset members k : Int) := by
      have := Nat.mul_div_cancel' (offset_dvd members k)
      omega
    rw [visitName, bread_header inside]
    simp only [head_header, if_false, position]
    split
    · exact .inl rfl
    · exact .inr ⟨_, rfl, nextBlock_small small inside⟩
  · rintro i rfl
    have position : 512 * ((offset members members.length / 512 : Nat) : Int) =
        (offset members members.length : Int) := by
      have := Nat.mul_div_cancel' (offset_dvd members members.length)
      omega
    have zero : zeroBlock.head? = some 0 := rfl
    rw [visitName, bread_end]
    simp only [zero, if_true, position]
    exact .inl ⟨_, rfl⟩

/-- Every position is that of a block whose number is an `int`. -/
theorem position_lt {device name : List UInt8} {fuel : Nat} {i : Int} (start : i < 2147483648) :
    ∀ p ∈ (scan (visitName device junk name) fuel i).1, p < 1099511627776 := by
  induction fuel generalizing i with
  | zero => simp [scan]
  | succ fuel inductionHypothesis =>
      intro p member
      rw [scan, visitName] at member
      cases read : bread device i with
      | none => simp [read] at member
      | some block =>
          have next : nextBlock junk block i < 2147483648 := by
            unfold nextBlock int32
            omega
          have here : 512 * i < 1099511627776 := by omega
          simp only [read] at member
          split at member <;> rename_i round
          · simp at member
          · split at round
            · cases round
              simp_all
            · split at round <;> cases round
              simp_all
          · split at round
            · cases round
            · split at round <;> cases round
              rcases List.mem_cons.mp member with rfl | member
              · exact here
              · exact inductionHypothesis next p member

/-- A name with a zero byte is never found. -/
theorem entryName_ne_zero (block : List UInt8) : entryName junk block ≠ [0] := by
  intro same
  have plain : Plain (entryName junk block) := by
    unfold entryName
    simp only []
    split <;> exact plain_cstr _
  exact plain 0 (by simp [same]) rfl

theorem scan_not_found {device : List UInt8} {fuel : Nat} {i : Int} :
    (scan (visitName device junk [0]) fuel i).2 ≠ .found := by
  induction fuel generalizing i with
  | zero => simp [scan]
  | succ fuel inductionHypothesis =>
      rw [scan, visitName]
      cases bread device i with
      | none => simp
      | some block =>
          simp only [entryName_ne_zero, if_false]
          split <;> rename_i round
          · split at round <;> cases round
          · split at round <;> cases round
            simp
          · split at round <;> cases round
            exact inductionHypothesis

end Ksaltuk

/-! ### Headers read as ranges of bytes -/

section Range

variable {device : List UInt8} {blocksize start : Nat}

/-- A header-sized range that starts at a multiple of 512 does not cross a block. -/
theorem range_inside_block (positive : 0 < blocksize) (blocks : 512 ∣ blocksize)
    (aligned : 512 ∣ start) :
    start % blocksize + 512 ≤ blocksize ∧ (start + 512 - 1) / blocksize = start / blocksize := by
  have less := Nat.mod_lt start positive
  have fits : start % blocksize + 512 ≤ blocksize := by
    have aligned' : 512 ∣ start % blocksize := (Nat.dvd_mod_iff blocks).mpr aligned
    omega
  have split := Nat.div_add_mod start blocksize
  refine ⟨fits, ?_⟩
  apply Nat.div_eq_of_lt_le
  · rw [Nat.mul_comm]
    omega
  · rw [Nat.succ_mul, Nat.mul_comm]
    omega

theorem blocks_one (positive : 0 < blocksize) (blocks : 512 ∣ blocksize) (aligned : 512 ∣ start)
    (small : start < 18446744073709551104) :
    wrap64 ((wrap64 ((start : Int) + (512 : Nat) - 1) / blocksize : Nat) - (start / blocksize : Nat) + 1)
      = 1 := by
  have inner : wrap64 ((start : Int) + (512 : Nat) - 1) = start + 512 - 1 := by
    have same : (start : Int) + (512 : Nat) - 1 = ((start + 512 - 1 : Nat) : Int) := by omega
    rw [same, wrap64_of_range (by omega)]
  rw [inner, (range_inside_block positive blocks aligned).2]
  have same : ((start / blocksize : Nat) : Int) - (start / blocksize : Nat) + 1 = ((1 : Nat) : Int) := by
    omega
  rw [same, wrap64_of_range (by omega)]

theorem cut_range (positive : 0 < blocksize) (blocks : 512 ∣ blocksize) (aligned : 512 ∣ start) :
    (((device.drop (start / blocksize * blocksize)).take blocksize).drop
      (start - start / blocksize * blocksize)).take 512 = (device.drop start).take 512 := by
  have fits := (range_inside_block positive blocks aligned).1
  have split := Nat.div_add_mod start blocksize
  rw [Nat.mul_comm] at split
  rw [List.drop_take, List.drop_drop, List.take_take]
  have here : start / blocksize * blocksize + (start - start / blocksize * blocksize) = start := by omega
  rw [here, Nat.min_eq_left (by omega)]

theorem Afedosenko.tfsReadBlock_aligned (positive : 0 < blocksize) (blocks : 512 ∣ blocksize)
    (aligned : 512 ∣ start) (readable : (start / blocksize + 1) * blocksize ≤ device.length)
    (small : start < 18446744073709551104) :
    tfsReadBlock device blocksize 512 start = (device.drop start).take 512 := by
  rw [tfsReadBlock, blocks_one positive blocks aligned small, sbBread, if_pos readable]
  simp only [if_true]
  exact cut_range positive blocks aligned

theorem Pbelousov.tfsReadBlock_aligned (positive : 0 < blocksize) (blocks : 512 ∣ blocksize)
    (aligned : 512 ∣ start) (readable : (start / blocksize + 1) * blocksize ≤ device.length)
    (small : start < 18446744073709551104) :
    tfsReadBlock device blocksize 512 start = (device.drop start).take 512 := by
  rw [tfsReadBlock, blocks_one positive blocks aligned small, sbBread, if_pos readable]
  simp only [if_true]
  exact cut_range positive blocks aligned

end Range

/-- The block that holds the `k`-th header, or the end of the archive, lies on a device of whole
    blocks. -/
theorem block_readable {blocksize k : Nat} (positive : 0 < blocksize)
    (whole : blocksize ∣ (image members behind).length) (inside : k ≤ members.length) :
    (offset members k / blocksize + 1) * blocksize ≤ (image members behind).length := by
  obtain ⟨n, total⟩ := whole
  have bound : offset members k + 512 ≤ (image members behind).length := by
    have := @offset_mono members k members.length inside
    rw [length_image]
    omega
  have block : offset members k / blocksize < n := by
    rw [Nat.div_lt_iff_lt_mul positive, Nat.mul_comm, ← total]
    omega
  calc (offset members k / blocksize + 1) * blocksize
      ≤ n * blocksize := Nat.mul_le_mul_right _ block
    _ = (image members behind).length := by rw [total, Nat.mul_comm]

theorem take_header {k : Nat} (inside : k < members.length) :
    ((image members behind).drop (offset members k)).take 512 = members[k].header := by
  obtain ⟨rest, found⟩ := @image_header members behind k inside
  rw [found, List.take_left' members[k].length_header]

theorem take_end :
    ((image members behind).drop (offset members members.length)).take 512 = zeroBlock := by
  rw [image_end, List.take_left' length_zeroBlock]

/-! ### pbelousov -/

namespace Pbelousov

theorem roundedSize_size (m : Member) : roundedSize m.size = 512 * blocksOf m.size := by
  have := m.size_small
  unfold roundedSize blocksOf
  split
  · rw [wrap64_of_range] <;> omega
  · omega

/-- `get_header` at the `k`-th header. -/
theorem getHeader_member (small : offset members members.length < 9223372036854775808) {k : Nat}
    (inside : k < members.length) {pos : HeaderPos} (here : pos.offsetNextHeader = offset members k) :
    getHeader (image members behind) junk pos =
      some (members[k].header, ⟨offset members k, offset members (k + 1), pos.num + 1⟩) := by
  have bound : offset members (k + 1) ≤ offset members members.length := offset_mono inside
  have step := offset_succ inside
  have header : tfsReadBlock (image members behind) 512 512 (offset members k) = members[k].header := by
    have readable : (offset members k / 512 + 1) * 512 ≤ (image members behind).length := by
      have := Nat.div_mul_cancel (offset_dvd members k)
      rw [length_image]
      omega
    rw [tfsReadBlock_aligned (by decide) (Nat.dvd_refl 512) (offset_dvd members k) readable (by omega),
      take_header inside]
  have size : wrap64 (getTarOctalField junk members[k].header 124) = members[k].size := by
    rw [getTarOctalField_size, wrap64_of_range]
    have := members[k].size_small
    omega
  rw [getHeader, here, header]
  simp only [Member.length_header, Nat.lt_irrefl, if_false, size, roundedSize_size]
  rw [wrap64_of_range (by rw [Member.span] at step; omega)]
  have next : offset members k + (512 * blocksOf members[k].size + 512) = offset members (k + 1) := by
    rw [step, Member.span]
    omega
  rw [next]

theorem getHeader_end (small : offset members members.length < 9223372036854775808) {pos : HeaderPos}
    (here : pos.offsetNextHeader = offset members members.length) :
    ∃ next, getHeader (image members behind) junk pos = some (zeroBlock, next) ∧
      next.offset = offset members members.length := by
  have header : tfsReadBlock (image members behind) 512 512 (offset members members.length) =
      zeroBlock := by
    have readable : (offset members members.length / 512 + 1) * 512 ≤
        (image members behind).length := by
      have := Nat.div_mul_cancel (offset_dvd members members.length)
      rw [length_image]
      omega
    rw [tfsReadBlock_aligned (by decide) (Nat.dvd_refl 512) (offset_dvd _ _) readable (by omega),
      take_end]
  rw [getHeader, here, header]
  simp only [length_zeroBlock, Nat.lt_irrefl, if_false]
  exact ⟨_, rfl, rfl⟩

theorem walksHeaders (small : offset members members.length < 1099511627776) :
    WalksHeaders members
      (scan (visitAll (image members behind) junk) (members.length + 1) initPosStart) := by
  apply walksHeaders_of_steps fun k pos => pos.offsetNextHeader = offset members k
  · simp [initPosStart, offset]
  · intro k pos inside here
    rw [visitAll, getHeader_member (by omega) inside here]
    exact .inr ⟨_, rfl, rfl⟩
  · intro pos here
    obtain ⟨next, header, position⟩ := @getHeader_end members behind junk (by omega) pos here
    rw [visitAll, header]
    exact .inr ⟨next, by rw [← position]⟩

end Pbelousov

/-! ### afedosenko -/

namespace Afedosenko

/-- The rounding is right unless it adds a whole block. -/
theorem paddedSize_size {m : Member} (notFull : ¬(0 < m.size ∧ 512 ∣ m.size)) :
    paddedSize m.size = ((512 * blocksOf m.size : Nat) : Int) := by
  have := m.size_small
  unfold paddedSize blocksOf
  rw [wrap64_of_range (by omega)]
  split
  · rw [int32_of_range] <;> omega
  · omega

section Image

variable {blocksize : Nat}

theorem tfsReadBlock_header (small : offset members members.length < 1099511627776)
    (positive : 0 < blocksize) (blocks : 512 ∣ blocksize) (whole : blocksize ∣ (image members behind).length)
    {k : Nat} (inside : k < members.length) :
    tfsReadBlock (image members behind) blocksize 512 (offset members k) = members[k].header := by
  have bound : offset members (k + 1) ≤ offset members members.length := offset_mono inside
  have step := offset_succ inside
  rw [tfsReadBlock_aligned positive blocks (offset_dvd members k)
    (block_readable positive whole (by omega)) (by omega), take_header inside]

theorem tfsReadBlock_end (small : offset members members.length < 1099511627776)
    (positive : 0 < blocksize) (blocks : 512 ∣ blocksize) (whole : blocksize ∣ (image members behind).length) :
    tfsReadBlock (image members behind) blocksize 512 (offset members members.length) = zeroBlock := by
  rw [tfsReadBlock_aligned positive blocks (offset_dvd _ _)
    (block_readable positive whole (Nat.le_refl _)) (by omega), take_end]

end Image

theorem nextSeek_header (small : offset members members.length < 1099511627776) {k : Nat}
    (inside : k < members.length) (notFull : ¬(0 < members[k].size ∧ 512 ∣ members[k].size)) :
    wrap64 (offset members k + (512 + wrap64 (paddedSize members[k].size)) : Nat) =
      offset members (k + 1) := by
  have bound : offset members (k + 1) ≤ offset members members.length := offset_mono inside
  have step := offset_succ inside
  rw [Member.span] at step
  have padded : wrap64 (paddedSize members[k].size) = 512 * blocksOf members[k].size := by
    rw [paddedSize_size notFull, wrap64_of_range (by omega)]
  rw [padded, wrap64_of_range (by omega), step]

theorem walksHeaders (small : offset members members.length < 1099511627776)
    (notFull : ∀ m ∈ members, ¬(0 < m.size ∧ 512 ∣ m.size)) {blocksize : Nat}
    (positive : 0 < blocksize) (blocks : 512 ∣ blocksize)
    (whole : blocksize ∣ (image members behind).length) (isNew : Nat → Bool) (path : List UInt8) :
    WalksHeaders members
      (scan (visit (image members behind) blocksize junk isNew path) (members.length + 1) ⟨0, 0⟩) := by
  apply walksHeaders_of_steps fun k s => s.seek = offset members k
  · simp [offset]
  · intro k s inside here
    rw [visit, here, tfsReadBlock_header small positive blocks whole inside]
    simp only [Member.length_header, Nat.lt_irrefl, if_false, getLongField_size, Member.int32_size,
      fillsInode_header, not_true, and_false]
    split
    · exact .inl rfl
    · refine .inr ⟨_, rfl, ?_⟩
      rw [← Nat.cast_add, nextSeek_header small inside (notFull _ (List.getElem_mem inside))]
  · intro s here
    rw [visit, here, tfsReadBlock_end small positive blocks whole]
    simp only [length_zeroBlock, Nat.lt_irrefl, if_false]
    split
    · exact .inl ⟨_, rfl⟩
    · split
      · exact .inl ⟨_, rfl⟩
      · exact .inr ⟨_, rfl⟩

end Afedosenko

/-! ### aboyaritsev/merge -/

namespace Aboyaritsev

theorem alignedSize_size (m : Member) :
    alignedSize m.size = if m.size = 0 then 0 else 512 * (m.size / 512 + 1) := by
  have := m.size_small
  unfold alignedSize
  rw [wrap64_of_range (by omega)]
  simp only []
  have inner : wrap64 (512 + (m.size : Int)) = 512 + m.size := by
    have same : 512 + (m.size : Int) = ((512 + m.size : Nat) : Int) := by omega
    rw [same, wrap64_of_range (by omega)]
  rw [inner]
  split
  · have same : (m.size : Int) + (512 - ((512 + m.size) % 512 : Nat)) =
        ((512 * (m.size / 512 + 1) : Nat) : Int) := by omega
    rw [same, wrap64_of_range (by omega), if_neg (by omega)]
  · rw [if_pos (by omega)]
    omega

/-- The block the driver takes for the next header. -/
def nextBlockNo (m : Member) (n : Nat) : Nat :=
  n + 1 + if m.size = 0 then 0 else m.size / 512 + 1

theorem fill_member (m : Member) (n : Nat) :
    fillDiskPositionNextFile (image members behind) junk ⟨m.header, n, 0, 0⟩ =
      (tarfsBlockRead (image members behind) (int32 (nextBlockNo m n))).map fun block =>
        ⟨block, int32 (nextBlockNo m n), 0, 0⟩ := by
  have := m.size_small
  have fileEnd : endOffset ⟨m.header, n, 0, 0⟩ m.size = 512 * ((nextBlockNo m n - n : Nat) : Int) := by
    show int32 (0 + 512 + (alignedSize m.size : Int)) = _
    rw [alignedSize_size, nextBlockNo, int32_of_range] <;> (split <;> omega)
  have inBlock : (512 * ((nextBlockNo m n - n : Nat) : Int)).tmod 512 = 0 := Int.mul_tmod_right _ _
  have blockNo : (n : Int) + (512 * ((nextBlockNo m n - n : Nat) : Int) - 0).tdiv 512 =
      (nextBlockNo m n : Int) := by
    rw [Int.sub_zero, Int.mul_tdiv_cancel_left _ (by decide), nextBlockNo]
    omega
  rw [fillDiskPositionNextFile]
  simp only [getSize_header, fileEnd, inBlock, blockNo]
  cases tarfsBlockRead (image members behind) (int32 (nextBlockNo m n)) with
  | none => rfl
  | some block => rfl

theorem nextBlockNo_offset {k : Nat} (inside : k < members.length)
    (notFull : ¬(0 < members[k].size ∧ 512 ∣ members[k].size)) :
    nextBlockNo members[k] (offset members k / 512) = offset members (k + 1) / 512 := by
  rw [offset_div_succ inside, nextBlockNo, blocksOf]
  split <;> omega

theorem getTarField_name (m : Member) (blockNo : Int) :
    getTarField ⟨m.header, blockNo, 0, 0⟩ 0 100 = padTo 100 m.name := by
  obtain ⟨rest, split⟩ := m.header_name
  simp only [getTarField, Int.toNat_zero, Nat.zero_add, List.drop_zero, split]
  exact List.take_left' (length_padTo m.name_length)

theorem name_member (m : Member) (blockNo : Int) :
    cstr (getTarField ⟨m.header, blockNo, 0, 0⟩ 0 100 ++ junk.behind) ≠ [] := by
  obtain ⟨rest, split⟩ := m.header_name
  cases name : m.name with
  | nil => exact absurd name m.name_nonempty
  | cons c tail =>
      have nonzero : c ≠ 0 := m.name_plain c (by simp [name])
      have first : ∃ more, getTarField ⟨m.header, blockNo, 0, 0⟩ 0 100 ++ junk.behind = c :: more := by
        simp only [getTarField, Int.toNat_zero, Nat.zero_add, List.drop_zero, split, name, padTo,
          List.cons_append, List.take_succ_cons]
        exact ⟨_, rfl⟩
      obtain ⟨more, first⟩ := first
      rw [first, cstr_cons nonzero]
      simp

theorem name_zeroBlock (blockNo : Int) :
    cstr (getTarField ⟨zeroBlock, blockNo, 0, 0⟩ 0 100 ++ junk.behind) = [] := by
  have first : ∃ more, getTarField ⟨zeroBlock, blockNo, 0, 0⟩ 0 100 ++ junk.behind = 0 :: more := by
    simp only [getTarField, Int.toNat_zero, Nat.zero_add, List.drop_zero, zeroBlock,
      List.take_replicate]
    exact ⟨_, rfl⟩
  obtain ⟨more, first⟩ := first
  rw [first, cstr_zero]

/-- A copy of the block at a position is a header exactly where the archive has one. -/
theorem visitAll_standing {pos : DiskPosition} {n : Nat} {block : List UInt8}
    (filled : fillDiskPositionNextFile (image members behind) junk pos = some ⟨block, n, 0, 0⟩) :
    visitAll (image members behind) junk pos =
      if cstr (getTarField ⟨block, n, 0, 0⟩ 0 100 ++ junk.behind) = [] then
        .last (512 * n : Nat) .failed
      else .more (512 * n : Nat) ⟨block, n, 0, 0⟩ := by
  have position : (⟨block, n, 0, 0⟩ : DiskPosition).position = ((512 * n : Nat) : Int) := by
    simp only [DiskPosition.position]
    omega
  rw [visitAll, getNextFile, filled]
  simp only []
  split <;> rename_i found <;> (split at found <;> cases found <;> simp_all)

/-- From this position the driver steps to the `k`-th header. -/
def StepsTo (members : List Member) (behind : List UInt8) (junk : Junk) (k : Nat) (pos : DiskPosition) :
    Prop :=
  fillDiskPositionNextFile (image members behind) junk pos =
    (tarfsBlockRead (image members behind) (offset members k / 512 : Nat)).map fun block =>
      ⟨block, (offset members k / 512 : Nat), 0, 0⟩

theorem stepsTo_init : StepsTo members behind junk 0 initDiskPosition := by
  rw [StepsTo, fillDiskPositionNextFile, initDiskPosition]
  simp [offset]

theorem tarfsBlockRead_header {k : Nat} (inside : k < members.length) :
    tarfsBlockRead (image members behind) (offset members k / 512 : Nat) = some members[k].header := by
  rw [tarfsBlockRead, if_pos (by omega), Int.toNat_natCast, sbBread_header inside]

theorem tarfsBlockRead_end :
    tarfsBlockRead (image members behind) (offset members members.length / 512 : Nat) = some zeroBlock := by
  rw [tarfsBlockRead, if_pos (by omega), Int.toNat_natCast, sbBread_end]

theorem stepsTo_succ (small : offset members members.length < 1099511627776) {k : Nat}
    (inside : k < members.length) (notFull : ¬(0 < members[k].size ∧ 512 ∣ members[k].size)) :
    StepsTo members behind junk (k + 1) ⟨members[k].header, (offset members k / 512 : Nat), 0, 0⟩ := by
  have bound : offset members (k + 1) ≤ offset members members.length := offset_mono inside
  have next := nextBlockNo_offset inside notFull
  rw [StepsTo, fill_member, next, int32_of_range] <;> omega

theorem visitAll_member {k : Nat} (inside : k < members.length) {pos : DiskPosition}
    (steps : StepsTo members behind junk k pos) :
    visitAll (image members behind) junk pos =
      .more (offset members k) ⟨members[k].header, (offset members k / 512 : Nat), 0, 0⟩ := by
  rw [StepsTo, tarfsBlockRead_header inside] at steps
  rw [visitAll_standing steps, if_neg (name_member _ _), Nat.mul_div_cancel' (offset_dvd members k)]

theorem visitAll_end {pos : DiskPosition} (steps : StepsTo members behind junk members.length pos) :
    visitAll (image members behind) junk pos = .last (offset members members.length) .failed := by
  rw [StepsTo, tarfsBlockRead_end] at steps
  rw [visitAll_standing steps, if_pos (name_zeroBlock _), Nat.mul_div_cancel' (offset_dvd _ _)]

theorem walksHeaders (small : offset members members.length < 1099511627776)
    (notFull : ∀ m ∈ members, ¬(0 < m.size ∧ 512 ∣ m.size)) :
    WalksHeaders members
      (scan (visitAll (image members behind) junk) (members.length + 1) initDiskPosition) := by
  apply walksHeaders_of_steps (StepsTo members behind junk) stepsTo_init
  · intro k pos inside steps
    exact .inr ⟨_, visitAll_member inside steps,
      stepsTo_succ small inside (notFull _ (List.getElem_mem inside))⟩
  · intro pos steps
    exact .inl ⟨_, visitAll_end steps⟩

/-- Where the first header read by a scan lies. -/
theorem first_position {fuel : Nat} {pos : DiskPosition} {p : Int} {rest : List Int}
    (visited : (scan (visitAll (image members behind) junk) (fuel + 1) pos).1 = p :: rest) :
    ∃ next, fillDiskPositionNextFile (image members behind) junk pos = some next ∧
      p = next.position := by
  rw [scan] at visited
  cases filled : fillDiskPositionNextFile (image members behind) junk pos with
  | none => simp [visitAll, getNextFile, filled] at visited
  | some next =>
      refine ⟨next, rfl, ?_⟩
      simp only [visitAll, getNextFile, filled] at visited
      split at visited <;> rename_i round <;> (split at round <;> rename_i file <;>
        split at file <;> cases file <;> cases round <;> simp_all)

theorem scan_not_found {fuel : Nat} {pos : DiskPosition} :
    (scan (visitAll (image members behind) junk) fuel pos).2 ≠ .found := by
  induction fuel generalizing pos with
  | zero => simp [scan]
  | succ fuel inductionHypothesis =>
      rw [scan]
      cases next : getNextFile (image members behind) junk pos with
      | blockError => simp [visitAll, next]
      | tarEnd next' => simp [visitAll, next]
      | file name next' =>
          simp only [visitAll, next]
          exact inductionHypothesis

/-- A driver that steps to the right block has rounded the size rightly. -/
theorem notFull_of_int32 {m : Member} {n : Nat}
    (right : int32 (nextBlockNo m n) = (n + 1 + blocksOf m.size : Nat)) :
    ¬(0 < m.size ∧ 512 ∣ m.size) := by
  unfold int32 nextBlockNo blocksOf at right
  split at right <;> omega

/-- If the scan reads every header where it is, no member fills its blocks exactly. -/
theorem notFull_of_walk (d k : Nat) (pos : DiskPosition) (total : k + d = members.length)
    (steps : StepsTo members behind junk k pos)
    (visited : (scan (visitAll (image members behind) junk) (d + 1) pos).1 =
      (List.range (d + 1)).map (fun j => (offset members (k + j) : Int))) :
    ∀ j, k ≤ j → (inside : j < members.length) → ¬(0 < members[j].size ∧ 512 ∣ members[j].size) := by
  induction d generalizing k pos with
  | zero =>
      intro j low inside
      omega
  | succ d inductionHypothesis =>
      have inside : k < members.length := by omega
      have tail : (scan (visitAll (image members behind) junk) (d + 1)
          ⟨members[k].header, (offset members k / 512 : Nat), 0, 0⟩).1 =
          (List.range (d + 1)).map (fun j => (offset members (k + 1 + j) : Int)) := by
        rw [scan, visitAll_member inside steps] at visited
        simp only [List.range_succ_eq_map, List.map_cons, List.cons.injEq] at visited ⊢
        simpa [Function.comp_def, Nat.add_assoc, Nat.add_comm, Nat.add_left_comm,
          List.range_succ_eq_map] using visited.2
      -- the next header is read where the driver steps to, and that is where it lies
      have first := tail
      rw [List.range_succ_eq_map, List.map_cons] at first
      obtain ⟨next, filled, position⟩ := first_position first
      rw [fill_member] at filled
      cases read : tarfsBlockRead (image members behind)
          (int32 (nextBlockNo members[k] (offset members k / 512))) with
      | none => simp [read] at filled
      | some block =>
          rw [read] at filled
          cases filled
          have right : int32 (nextBlockNo members[k] (offset members k / 512)) =
              (offset members k / 512 + 1 + blocksOf members[k].size : Nat) := by
            have here := offset_div_succ inside
            have aligned := Nat.mul_div_cancel' (offset_dvd members (k + 1))
            simp only [DiskPosition.position, Nat.add_zero] at position
            omega
          have notFull := notFull_of_int32 right
          have steps' : StepsTo members behind junk (k + 1)
              ⟨members[k].header, (offset members k / 512 : Nat), 0, 0⟩ := by
            rw [StepsTo, fill_member, right, offset_div_succ inside]
          intro j low insideJ
          rcases Nat.eq_or_lt_of_le low with rfl | later
          · exact notFull
          · exact inductionHypothesis (k + 1) _ (by omega) steps' tail j later insideJ

end Aboyaritsev

/-! ### All four -/

theorem notFull_of_scans {blocksize : Nat} (walk : ScansWalkHeaders members behind junk blocksize) :
    ∀ m ∈ members, ¬(0 < m.size ∧ 512 ∣ m.size) := by
  obtain ⟨visited, found | length⟩ := walk.1
  · exact absurd found Aboyaritsev.scan_not_found
  · rw [length] at visited
    intro m member
    obtain ⟨j, inside, rfl⟩ := List.getElem_of_mem member
    exact Aboyaritsev.notFull_of_walk members.length 0 _ (by omega) Aboyaritsev.stepsTo_init
      (by simpa using visited) j (by omega) inside

theorem short_of_scans {blocksize : Nat} (walk : ScansWalkHeaders members behind junk blocksize) :
    offset members members.length < 1099511627776 := by
  -- a name with a zero byte is never found, so this scan goes to the end of the archive
  obtain ⟨visited, found | length⟩ := walk.2.2.1 [0]
  · exact absurd found Ksaltuk.scan_not_found
  · have last : (offset members members.length : Int) ∈
        (scan (Ksaltuk.visitName (image members behind) junk [0]) (members.length + 1) 0).1 := by
      rw [visited, length]
      exact List.mem_map.mpr ⟨members.length, by simp, rfl⟩
    have := Ksaltuk.position_lt (by decide) _ last
    omega

/-- The drivers walk the headers of an archive exactly when no member fills its blocks exactly and the
    archive ends below the block number `2 ^ 31`. -/
theorem scans_walk_headers_iff {blocksize : Nat} (positive : 0 < blocksize) (blocks : 512 ∣ blocksize)
    (whole : blocksize ∣ (image members behind).length) :
    ScansWalkHeaders members behind junk blocksize ↔
      (∀ m ∈ members, ¬(0 < m.size ∧ 512 ∣ m.size)) ∧
        offset members members.length < 1099511627776 := by
  constructor
  · intro walk
    exact ⟨notFull_of_scans walk, short_of_scans walk⟩
  · rintro ⟨notFull, small⟩
    exact ⟨Aboyaritsev.walksHeaders small notFull,
      Afedosenko.walksHeaders small notFull positive blocks whole, Ksaltuk.walksHeaders small,
      Pbelousov.walksHeaders small⟩

/-- A regular file with a name of one byte, filled with zeros. -/
def zeroFile (c : UInt8) (nonzero : c ≠ 0) (size : Nat) (small : size < 1073741824) : Member where
  name := [c]
  mode := 420
  uid := 0
  gid := 0
  size := size
  mtime := 0
  chksum := List.replicate 8 48
  typeflag := 48
  other := List.replicate 188 0
  namePrefix := []
  data := List.replicate (512 * blocksOf size) 0
  name_nonempty := by simp
  name_length := by simp
  name_plain := by simpa [Plain] using nonzero
  size_small := small
  chksum_length := by simp
  other_length := List.length_replicate
  namePrefix_length := by simp
  namePrefix_plain := by simp [Plain]
  data_length := List.length_replicate

/-- An empty file without a prefix. -/
def emptyFile (name : List UInt8) (nonempty : name ≠ []) (length : name.length ≤ 100)
    (plain : Plain name) : Member where
  name := name
  mode := 420
  uid := 0
  gid := 0
  size := 0
  mtime := 0
  chksum := List.replicate 8 48
  typeflag := 48
  other := List.replicate 188 0
  namePrefix := []
  data := []
  name_nonempty := nonempty
  name_length := length
  name_plain := plain
  size_small := by decide
  chksum_length := by simp
  other_length := List.length_replicate
  namePrefix_length := by simp
  namePrefix_plain := by simp [Plain]
  data_length := rfl

/-- An empty file `a`, then a file `b` of one byte. -/
def shortFiles : List Member :=
  [zeroFile 97 (by decide) 0 (by decide), zeroFile 98 (by decide) 1 (by decide)]

theorem shortFiles_walked :
    ScansWalkHeaders shortFiles [] ⟨[], 0⟩ 512 ↔
      (∀ m ∈ shortFiles, ¬(0 < m.size ∧ 512 ∣ m.size)) ∧
        offset shortFiles shortFiles.length < 1099511627776 :=
  scans_walk_headers_iff (by decide) (Nat.dvd_refl 512) (by
    rw [length_image]
    exact Nat.dvd_add (Nat.dvd_add (offset_dvd _ _) (Nat.dvd_refl 512)) (Nat.dvd_zero 512))

/-- A file of one full block before another file. -/
theorem full_block_member_derails_scans :
    ¬ScansWalkHeaders [zeroFile 97 (by decide) 512 (by decide), zeroFile 98 (by decide) 0 (by decide)] []
      ⟨[], 0⟩ 512 := by
  intro walk
  exact notFull_of_scans walk _ List.mem_cons_self ⟨by decide, by decide⟩

end Nfs4Compound.Tar
