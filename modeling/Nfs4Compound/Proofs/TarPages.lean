/-
Module: Nfs4Compound.Proofs.TarPages
Layer: Proofs
Purpose: Pages of the driver of aboyaritsev/merge: without read errors a page is filled with the bytes of
  the member; exactly when a failed read is reported.
Imports: Nfs4Compound.Tar.Pages, Nfs4Compound.Proofs.TarScan
Trusted boundary: none
Main exports: skipBlocks_passed, copyBlocks_passed, mapData_passed, mapData_failed,
  map_file_fills_page, mapFile_negative_iff, read_errors_reported_iff
-/
import Nfs4Compound.Tar.Pages
import Nfs4Compound.Proofs.TarScan
import Nfs4Compound.Proofs.TarHeaders

namespace Nfs4Compound.Tar.Aboyaritsev.Pages

open CText

variable {medium : Medium} {junk : Junk}

/-! ### Block numbers -/

@[simp] theorem length_blocksBehind (blockNo : Int) (count : Nat) :
    (blocksBehind blockNo count).length = count := by
  induction count generalizing blockNo with
  | zero => rfl
  | succ count inductionHypothesis => simp [blocksBehind, inductionHypothesis]

theorem blocksBehind_add (blockNo : Int) (count more : Nat) :
    blocksBehind blockNo (count + more) =
      blocksBehind blockNo count ++ blocksBehind (increment^[count] blockNo) more := by
  induction count generalizing blockNo with
  | zero => simp [blocksBehind]
  | succ count inductionHypothesis =>
      rw [Nat.add_right_comm, blocksBehind, blocksBehind, inductionHypothesis]
      rfl

/-- A call that reads a block reads one with a number. -/
theorem nonneg_of_succeeds {number : Nat} {blockNo : Int}
    (succeeds : medium.blocks.succeeds number blockNo = true) : 0 ≤ blockNo := by
  simp only [Medium.blocks, Bool.and_eq_true, decide_eq_true_eq] at succeeds
  exact succeeds.1.1

/-- Where a block can be read, `++block_no` has not wrapped around. -/
theorem increment_of_nonneg {blockNo : Int} (low : -1 ≤ blockNo) (high : blockNo < 2147483648)
    (read : 0 ≤ increment blockNo) : increment blockNo = blockNo + 1 := by
  unfold increment int32 at *
  omega

theorem increment_lt (blockNo : Int) : increment blockNo < 2147483648 := by
  unfold increment int32
  omega

theorem increment_iterate {blockNo : Int} {number count : Nat} (low : 0 ≤ blockNo)
    (high : blockNo < 2147483648)
    (success : medium.blocks.firstFailure number (blocksBehind blockNo count) = none) :
    increment^[count] blockNo = blockNo + count := by
  induction count generalizing blockNo number with
  | zero => simp
  | succ count inductionHypothesis =>
      obtain ⟨reads, later⟩ := Service.firstFailure_cons_eq_none.mp success
      have nonneg := nonneg_of_succeeds reads
      have step : increment blockNo = blockNo + 1 := increment_of_nonneg (by omega) high nonneg
      rw [Function.iterate_succ_apply, inductionHypothesis nonneg (increment_lt _) later, step]
      omega

/-! ### The loops of `map_file` -/

theorem skipBlocks_failed {place : List UInt8} {offset : Nat} {blockNo b : Int} {calls : Calls}
    {number : Nat}
    (failure : medium.blocks.firstFailure calls.made (blocksBehind blockNo (offset / 512)) =
      some (number, b)) :
    skipBlocks medium place offset blockNo calls =
      (.error (medium.blocks.outcome (number + 1) (increment b)), ⟨number + 2, true⟩) := by
  induction offset using Nat.strongRecOn generalizing place blockNo calls with
  | ind offset inductionHypothesis =>
      by_cases inside : offset < 512
      · rw [Nat.div_eq_of_lt inside] at failure
        cases failure
      · have rounds : offset / 512 = (offset - 512) / 512 + 1 := by omega
        rw [rounds, blocksBehind] at failure
        rw [skipBlocks, dif_neg inside]
        rcases Service.firstFailure_cons_eq_some.mp failure with ⟨reads, found⟩ | ⟨reads, later⟩
        · cases found
          exact run_bind (Service.callTwice_fails _ reads)
        · exact (run_bind (Service.callTwice_succeeds _ reads)).trans
            (inductionHypothesis (offset - 512) (by omega) later)

/-- If all blocks up to the offset can be read, the last one of them is in `place`. -/
theorem skipBlocks_passed {place : List UInt8} {offset : Nat} {blockNo : Int} {calls : Calls}
    (success : medium.blocks.firstFailure calls.made (blocksBehind blockNo (offset / 512)) = none) :
    skipBlocks medium place offset blockNo calls =
      (.ok (if offset < 512 then place else medium.blocks.answer (increment^[offset / 512] blockNo),
          ⟨offset % 512, Nat.mod_lt _ (by decide)⟩, increment^[offset / 512] blockNo),
        ⟨calls.made + offset / 512, calls.failed⟩) := by
  induction offset using Nat.strongRecOn generalizing place blockNo calls with
  | ind offset inductionHypothesis =>
      by_cases inside : offset < 512
      · have rest : offset % 512 = offset := Nat.mod_eq_of_lt inside
        rw [skipBlocks, dif_pos inside]
        simp only [Nat.div_eq_of_lt inside, rest, inside, if_true]
        rfl
      · have rounds : offset / 512 = (offset - 512) / 512 + 1 := by omega
        have rest : (offset - 512) % 512 = offset % 512 := by omega
        rw [rounds, blocksBehind] at success
        rw [skipBlocks, dif_neg inside]
        obtain ⟨reads, others⟩ := Service.firstFailure_cons_eq_none.mp success
        have later := @inductionHypothesis (offset - 512) (by omega)
          (medium.blocks.answer (increment blockNo)) (increment blockNo)
          ⟨calls.made + 1, calls.failed⟩ others
        -- the block read in this round stays in `place` if it is the last one
        have last : (if offset - 512 < 512 then medium.blocks.answer (increment blockNo)
            else medium.blocks.answer (increment^[(offset - 512) / 512] (increment blockNo))) =
              medium.blocks.answer (increment^[(offset - 512) / 512] (increment blockNo)) := by
          split
          · rename_i once
            rw [Nat.div_eq_of_lt once]
            rfl
          · rfl
        have number : calls.made + 1 + (offset - 512) / 512 =
            calls.made + ((offset - 512) / 512 + 1) := by omega
        refine (run_bind (Service.callTwice_succeeds _ reads)).trans ?_
        simp only [later, last, rest, number, rounds, if_neg inside, Function.iterate_succ_apply]

/-! ### Copying -/

/-- Bytes copied behind bytes. -/
theorem memcpyAt_memcpyAt {data : List UInt8} {offset : Nat} (inside : offset ≤ data.length)
    (first second : List UInt8) :
    memcpyAt (memcpyAt data offset first) (offset + first.length) second =
      memcpyAt data offset (first ++ second) := by
  have length : (data.take offset ++ first).length = offset + first.length := by
    simp [Nat.min_eq_left inside]
  have behind : (memcpyAt data offset first).drop (offset + first.length + second.length) =
      data.drop (offset + (first ++ second).length) := by
    rw [memcpyAt, ← List.drop_drop, List.drop_left' length, List.drop_drop, List.length_append,
      Nat.add_assoc]
  rw [memcpyAt, behind, memcpyAt, List.take_left' length, memcpyAt, List.append_assoc (data.take offset)]

theorem le_length_memcpyAt {data : List UInt8} {offset : Nat} (inside : offset ≤ data.length)
    (bytes : List UInt8) : offset + bytes.length ≤ (memcpyAt data offset bytes).length := by
  simp [memcpyAt]
  omega

/-- What is copied to the start of a page, and zeros behind it. -/
theorem memcpyAt_padded {bytes : List UInt8} {count size : Nat} (length : bytes.length = count)
    (limit : count ≤ size) (data : List UInt8) :
    memcpyAt (memcpyAt data 0 bytes) count (List.replicate (size - count) 0) =
      bytes ++ (List.replicate (size - count) 0 ++ data.drop size) := by
  have joined := memcpyAt_memcpyAt (Nat.zero_le data.length) bytes (List.replicate (size - count) 0)
  rw [Nat.zero_add, length] at joined
  have total : (bytes ++ List.replicate (size - count) (0 : UInt8)).length = size := by
    simp [length]
    omega
  rw [joined, memcpyAt, total]
  simp

/-- What a block holds. -/
theorem answer_eq (blockNo : Int) :
    medium.blocks.answer blockNo = medium.disk.bytes (blockNo.toNat * 512) 512 := by
  simp only [Medium.blocks]

/-- What one round copies. -/
theorem answer_piece {blockNo : Int} {offset count : Nat} (inside : offset + count ≤ 512) :
    ((medium.blocks.answer blockNo).drop offset).take count =
      medium.disk.bytes (blockNo.toNat * 512 + offset) count := by
  rw [answer_eq, medium.disk.piece_bytes inside]

section Copying

variable {place data : List UInt8} {offset : Fin 512} {blockNo : Int} {remain written : Nat}

/-- The last round copies all that remains. -/
theorem copyBlocks_last (fits : offset.val + remain ≤ 512) (calls : Calls) :
    ∃ data', copyBlocks medium place offset blockNo remain data written calls =
        ((data', .ok (written + remain)), calls) ∧
      (written ≤ data.length → data' = memcpyAt data written ((place.drop offset).take remain)) := by
  rcases Nat.eq_zero_or_pos remain with rfl | positive
  · refine ⟨data, ?_, ?_⟩
    · rw [copyBlocks]
      rfl
    · intro inside
      simp [memcpyAt]
  · have all : (if 512 - offset.val > remain then remain else 512 - offset.val) = remain := by
      split <;> omega
    refine ⟨_, ?_, fun _ => rfl⟩
    rw [copyBlocks]
    simp only [all, positive, if_true, Nat.sub_self, Nat.lt_irrefl, if_false]
    rfl

/-- Any other round copies the rest of the block, and goes on with the next one. -/
theorem copyBlocks_more (beyond : 512 < offset.val + remain) :
    copyBlocks medium place offset blockNo remain data written =
      (do
        match ← successCheck medium (increment blockNo) (increment (increment blockNo)) with
        | .error again =>
            pure (memcpyAt data written ((place.drop offset).take (512 - offset)), .error again)
        | .ok block =>
            copyBlocks medium block 0 (increment blockNo) (remain - (512 - offset))
              (memcpyAt data written ((place.drop offset).take (512 - offset)))
              (written + (512 - offset))) := by
  have all : (if 512 - offset.val > remain then remain else 512 - offset.val) = 512 - offset.val := by
    split <;> omega
  have positive : 0 < remain := by omega
  have more : 0 < remain - (512 - offset.val) := by omega
  have round := copyBlocks.eq_def medium place offset blockNo remain data written
  simp only [all, positive, more, if_true] at round
  exact round

/-- The blocks a copy goes on to. -/
theorem blocks_more (beyond : 512 < offset.val + remain) :
    (offset.val + remain - 1) / 512 =
      (((0 : Fin 512) : Nat) + (remain - (512 - offset.val)) - 1) / 512 + 1 := by
  have zero : ((0 : Fin 512) : Nat) = 0 := rfl
  rw [zero]
  omega

theorem copyBlocks_failed {calls : Calls} {number : Nat} {b : Int}
    (failure : medium.blocks.firstFailure calls.made
      (blocksBehind blockNo ((offset.val + remain - 1) / 512)) = some (number, b)) :
    ∃ data', copyBlocks medium place offset blockNo remain data written calls =
      ((data', .error (medium.blocks.outcome (number + 1) (increment b))), ⟨number + 2, true⟩) := by
  induction remain using Nat.strongRecOn generalizing place offset blockNo data written calls with
  | ind remain inductionHypothesis =>
      rcases Nat.lt_or_ge 512 (offset.val + remain) with beyond | fits
      · rw [blocks_more beyond, blocksBehind] at failure
        rw [copyBlocks_more beyond]
        rcases Service.firstFailure_cons_eq_some.mp failure with ⟨reads, found⟩ | ⟨reads, others⟩
        · cases found
          exact ⟨_, run_bind (Service.callTwice_fails _ reads)⟩
        · have less := offset.isLt
          obtain ⟨data', later⟩ := @inductionHypothesis (remain - (512 - offset.val)) (by omega)
            (medium.blocks.answer (increment blockNo))
            (memcpyAt data written ((place.drop offset).take (512 - offset))) 0 (increment blockNo)
            (written + (512 - offset)) ⟨calls.made + 1, calls.failed⟩ others
          exact ⟨data', (run_bind (Service.callTwice_succeeds _ reads)).trans later⟩
      · have none : (offset.val + remain - 1) / 512 = 0 := by omega
        rw [none] at failure
        cases failure

/-- If the blocks can be read, the bytes from the offset in the first block on are copied. -/
theorem copyBlocks_passed {calls : Calls}
    (success : medium.blocks.firstFailure calls.made
      (blocksBehind blockNo ((offset.val + remain - 1) / 512)) = none) :
    ∃ data', copyBlocks medium place offset blockNo remain data written calls =
        ((data', .ok (written + remain)),
          ⟨calls.made + (offset.val + remain - 1) / 512, calls.failed⟩) ∧
      (0 ≤ blockNo → blockNo < 2147483648 → place = medium.blocks.answer blockNo →
        written ≤ data.length →
          data' = memcpyAt data written
            (medium.disk.bytes (blockNo.toNat * 512 + offset.val) remain)) := by
  induction remain using Nat.strongRecOn generalizing place offset blockNo data written calls with
  | ind remain inductionHypothesis =>
      have less := offset.isLt
      rcases Nat.lt_or_ge 512 (offset.val + remain) with beyond | fits
      · rw [blocks_more beyond] at success ⊢
        rw [blocksBehind] at success
        rw [copyBlocks_more beyond]
        obtain ⟨reads, others⟩ := Service.firstFailure_cons_eq_none.mp success
        obtain ⟨data', later, content⟩ := @inductionHypothesis (remain - (512 - offset.val))
          (by omega) (medium.blocks.answer (increment blockNo))
          (memcpyAt data written ((place.drop offset).take (512 - offset))) 0 (increment blockNo)
          (written + (512 - offset)) ⟨calls.made + 1, calls.failed⟩ others
        refine ⟨data', ?_, ?_⟩
        · refine (run_bind (Service.callTwice_succeeds _ reads)).trans (later.trans ?_)
          have total : written + (512 - offset.val) + (remain - (512 - offset.val)) =
              written + remain := by omega
          simp only [total, Nat.add_right_comm _ 1, Nat.add_assoc]
        · intro low high here inside
          have piece : (place.drop offset).take (512 - offset) =
              medium.disk.bytes (blockNo.toNat * 512 + offset) (512 - offset) := by
            rw [here, answer_piece (by omega)]
          have length : ((place.drop offset).take (512 - offset)).length = 512 - offset.val := by
            rw [piece, Disk.length_bytes]
          have room := le_length_memcpyAt inside ((place.drop offset).take (512 - offset))
          rw [length] at room
          have rest := content (nonneg_of_succeeds reads) (increment_lt _) rfl room
          have step : increment blockNo = blockNo + 1 :=
            increment_of_nonneg (by omega) high (nonneg_of_succeeds reads)
          have start : (increment blockNo).toNat * 512 + ((0 : Fin 512) : Nat) =
              blockNo.toNat * 512 + offset.val + (512 - offset.val) := by
            have zero : ((0 : Fin 512) : Nat) = 0 := rfl
            rw [zero, step]
            omega
          have whole : 512 - offset.val + (remain - (512 - offset.val)) = remain := by omega
          have copied := memcpyAt_memcpyAt inside ((place.drop offset).take (512 - offset))
            (medium.disk.bytes (blockNo.toNat * 512 + offset.val + (512 - offset.val))
              (remain - (512 - offset.val)))
          rw [length] at copied
          rw [rest, start, copied, piece, ← Disk.bytes_append, whole]
      · have none : (offset.val + remain - 1) / 512 = 0 := by omega
        obtain ⟨data', ran, content⟩ := @copyBlocks_last medium place data offset blockNo remain written
          fits calls
        refine ⟨data', ?_, ?_⟩
        · rw [ran, none]
          rfl
        · intro low high here inside
          rw [content inside, here, answer_piece fits]

end Copying

/-! ### `map_file` behind `get_file_by_inode` -/

section Data

variable {pos : DiskPosition} {data : List UInt8} {start : Nat} {calls : Calls}

/-- The blocks up to the start of the page are read first, then those with the page. -/
theorem firstFailure_dataBlocks (number : Nat) :
    medium.blocks.firstFailure number (dataBlocks junk pos start) =
      (medium.blocks.firstFailure number
          (blocksBehind pos.firstBlockNo ((pos.offsetInFirst.toNat + 512 + start) / 512))).or
        (medium.blocks.firstFailure (number + (pos.offsetInFirst.toNat + 512 + start) / 512)
          (blocksBehind
            (increment^[(pos.offsetInFirst.toNat + 512 + start) / 512] pos.firstBlockNo)
            (((pos.offsetInFirst.toNat + 512 + start) % 512 +
              howMuch (getSize junk pos) start - 1) / 512))) := by
  rw [dataBlocks, dataCount, blocksBehind_add, Service.firstFailure_append, length_blocksBehind]

/-- After a failed read `map_file` returns what a read of the next block brings. -/
theorem mapData_failed {number : Nat} {b : Int}
    (failure : medium.blocks.firstFailure calls.made (dataBlocks junk pos start) = some (number, b)) :
    ∃ data', mapData medium junk pos data start calls =
      ((returned (medium.blocks.outcome (number + 1) (increment b)), data'), ⟨number + 2, true⟩) := by
  rw [firstFailure_dataBlocks] at failure
  cases skipped : medium.blocks.firstFailure calls.made
      (blocksBehind pos.firstBlockNo ((pos.offsetInFirst.toNat + 512 + start) / 512)) with
  | some found =>
      rw [skipped] at failure
      cases failure
      exact ⟨data, run_bind (skipBlocks_failed skipped)⟩
  | none =>
      rw [skipped, Option.none_or] at failure
      obtain ⟨data', copied⟩ := @copyBlocks_failed medium
        (medium.blocks.answer
          (increment^[(pos.offsetInFirst.toNat + 512 + start) / 512] pos.firstBlockNo)) data
        ⟨(pos.offsetInFirst.toNat + 512 + start) % 512, Nat.mod_lt _ (by decide)⟩
        (increment^[(pos.offsetInFirst.toNat + 512 + start) / 512] pos.firstBlockNo)
        (howMuch (getSize junk pos) start) 0
        ⟨calls.made + (pos.offsetInFirst.toNat + 512 + start) / 512, calls.failed⟩ number b failure
      have behind : ¬pos.offsetInFirst.toNat + 512 + start < 512 := by omega
      refine ⟨data', (run_bind (skipBlocks_passed skipped)).trans ?_⟩
      simp only [behind, if_false]
      exact run_bind copied

theorem howMuch_le (fileSize : Int) (start : Nat) : howMuch fileSize start ≤ pageCacheSize := by
  simp only [howMuch]
  split
  · rename_i less
    exact Nat.le_of_lt less
  · exact Nat.le_refl _

/-- If all blocks can be read, the page is filled, and `how_much` returned. -/
theorem mapData_passed
    (success : medium.blocks.firstFailure calls.made (dataBlocks junk pos start) = none) :
    ∃ data', mapData medium junk pos data start calls =
        (((howMuch (getSize junk pos) start : Int), data'),
          ⟨calls.made + dataCount junk pos start, calls.failed⟩) ∧
      (0 ≤ pos.firstBlockNo → pos.firstBlockNo < 2147483648 →
        data' = medium.disk.bytes
            (pos.firstBlockNo.toNat * 512 + (pos.offsetInFirst.toNat + 512 + start))
            (howMuch (getSize junk pos) start) ++
          (List.replicate (pageCacheSize - howMuch (getSize junk pos) start) 0 ++
            data.drop pageCacheSize)) := by
  rw [firstFailure_dataBlocks, Option.or_eq_none_iff] at success
  obtain ⟨skipped, copies⟩ := success
  have inside : (pos.offsetInFirst.toNat + 512 + start) % 512 < 512 := Nat.mod_lt _ (by decide)
  obtain ⟨data', copied, content⟩ := @copyBlocks_passed medium
    (medium.blocks.answer
      (increment^[(pos.offsetInFirst.toNat + 512 + start) / 512] pos.firstBlockNo)) data
    ⟨(pos.offsetInFirst.toNat + 512 + start) % 512, inside⟩
    (increment^[(pos.offsetInFirst.toNat + 512 + start) / 512] pos.firstBlockNo)
    (howMuch (getSize junk pos) start) 0
    ⟨calls.made + (pos.offsetInFirst.toNat + 512 + start) / 512, calls.failed⟩ copies
  have behind : ¬pos.offsetInFirst.toNat + 512 + start < 512 := by omega
  have limit := howMuch_le (getSize junk pos) start
  rw [Nat.zero_add] at copied
  refine ⟨memcpyAt data' (howMuch (getSize junk pos) start)
    (List.replicate (pageCacheSize - howMuch (getSize junk pos) start) 0), ?_, ?_⟩
  · refine (run_bind (skipBlocks_passed skipped)).trans ?_
    simp only [behind, if_false]
    refine (run_bind copied).trans ?_
    simp only [dataCount, Nat.add_assoc]
    rfl
  · intro low high
    have last := increment_iterate low high skipped
    have here : 0 ≤ increment^[(pos.offsetInFirst.toNat + 512 + start) / 512] pos.firstBlockNo := by
      rw [last]
      omega
    have bounded :
        increment^[(pos.offsetInFirst.toNat + 512 + start) / 512] pos.firstBlockNo < 2147483648 := by
      obtain ⟨rounds, found⟩ : ∃ rounds, (pos.offsetInFirst.toNat + 512 + start) / 512 = rounds + 1 :=
        ⟨(pos.offsetInFirst.toNat + start) / 512, by omega⟩
      rw [found, Function.iterate_succ_apply']
      exact increment_lt _
    have place : (pos.firstBlockNo + ((pos.offsetInFirst.toNat + 512 + start) / 512 : Nat)).toNat * 512 +
        (pos.offsetInFirst.toNat + 512 + start) % 512 =
          pos.firstBlockNo.toNat * 512 + (pos.offsetInFirst.toNat + 512 + start) := by omega
    have bytes := content here bounded rfl (Nat.zero_le _)
    simp only [last, place] at bytes
    rw [bytes]
    exact memcpyAt_padded (Disk.length_bytes _ _ _) limit data

end Data

/-! ### `get_file_by_inode` -/

section Header

variable {fresh : List UInt8} {inode : TarfsInode} {calls : Calls}

theorem getFileByInode_passed
    (success : medium.blocks.firstFailure calls.made (headerBlocks inode) = none) :
    getFileByInode medium inode (initDiskPosition fresh) calls =
      ((0, headerPosition medium fresh inode),
        ⟨calls.made + (headerBlocks inode).length, calls.failed⟩) := by
  unfold headerBlocks at success ⊢
  by_cases two : inode.lastFillBufferIndex = 1
  · rw [if_pos two] at success
    obtain ⟨first, later⟩ := Service.firstFailure_cons_eq_none.mp success
    obtain ⟨second, -⟩ := Service.firstFailure_cons_eq_none.mp later
    refine (run_bind (Service.callTwice_succeeds _ first)).trans ?_
    simp only [two, if_true, headerPosition]
    exact run_bind (@Service.callTwice_succeeds _ _ medium.blocks _ ⟨calls.made + 1, calls.failed⟩ _
      second)
  · rw [if_neg two] at success
    obtain ⟨first, -⟩ := Service.firstFailure_cons_eq_none.mp success
    refine (run_bind (Service.callTwice_succeeds _ first)).trans ?_
    simp only [two, if_false, headerPosition]
    rfl

theorem getFileByInode_failed {number : Nat} {b : Int}
    (failure : medium.blocks.firstFailure calls.made (headerBlocks inode) = some (number, b)) :
    getFileByInode medium inode (initDiskPosition fresh) calls =
      ((returned (medium.blocks.outcome (number + 1) b),
          misreadPosition medium fresh inode (number = calls.made)
            (medium.blocks.outcome (number + 1) b)), ⟨number + 2, true⟩) := by
  -- the first block, and the second one if there is one
  have firstFails (fails : medium.blocks.succeeds calls.made inode.firstBlockNo = false)
      (found : (calls.made, inode.firstBlockNo) = (number, b)) :
      getFileByInode medium inode (initDiskPosition fresh) calls =
        ((returned (medium.blocks.outcome (number + 1) b),
            misreadPosition medium fresh inode (number = calls.made)
              (medium.blocks.outcome (number + 1) b)), ⟨number + 2, true⟩) := by
    cases found
    refine (run_bind (Service.callTwice_fails _ fails)).trans ?_
    simp [misreadPosition]
    rfl
  unfold headerBlocks at failure
  by_cases two : inode.lastFillBufferIndex = 1
  · rw [if_pos two] at failure
    rcases Service.firstFailure_cons_eq_some.mp failure with ⟨fails, found⟩ | ⟨first, later⟩
    · exact firstFails fails found
    · rcases Service.firstFailure_cons_eq_some.mp later with ⟨second, found⟩ | ⟨-, none⟩
      · cases found
        refine (run_bind (Service.callTwice_succeeds _ first)).trans ?_
        simp only [two, if_true, misreadPosition]
        refine (run_bind (@Service.callTwice_fails _ _ medium.blocks _
          ⟨calls.made + 1, calls.failed⟩ _ second)).trans ?_
        simp
        rfl
      · cases none
  · rw [if_neg two] at failure
    rcases Service.firstFailure_cons_eq_some.mp failure with ⟨fails, found⟩ | ⟨-, none⟩
    · exact firstFails fails found
    · cases none

end Header

/-! ### `map_file` -/

/-- A read of these blocks fails, and so does the read of the block behind, with which it is repeated. -/
def RefusedTwice (medium : Medium) (number : Nat) (blocks : List Int) : Prop :=
  ∃ number' b, medium.blocks.firstFailure number blocks = some (number', b) ∧
    medium.blocks.succeeds (number' + 1) (increment b) = false

/-- A repeated read makes for a value of 0 or -1. -/
theorem returned_neg_iff {number : Nat} {b : Int} :
    returned (medium.blocks.outcome number b) < 0 ↔ medium.blocks.succeeds number b = false := by
  cases reads : medium.blocks.succeeds number b with
  | false => simp [Service.outcome_fails reads, returned]
  | true => simp [Service.outcome_succeeds reads, returned]

theorem returned_ne_zero_iff {number : Nat} {b : Int} :
    returned (medium.blocks.outcome number b) ≠ 0 ↔ medium.blocks.succeeds number b = false := by
  cases reads : medium.blocks.succeeds number b with
  | false => simp [Service.outcome_fails reads, returned]
  | true => simp [Service.outcome_succeeds reads, returned]

section MapFile

variable {fresh data : List UInt8} {inode : TarfsInode} {start : Nat}

theorem mapData_negative_iff {pos : DiskPosition} {calls : Calls} :
    (mapData medium junk pos data start calls).1.1 < 0 ↔
      RefusedTwice medium calls.made (dataBlocks junk pos start) := by
  cases read : medium.blocks.firstFailure calls.made (dataBlocks junk pos start) with
  | none =>
      obtain ⟨data', ran, -⟩ := @mapData_passed medium junk pos data start calls read
      rw [ran]
      constructor
      · intro negative
        exact absurd negative (by simp)
      · rintro ⟨number, b, failure, -⟩
        rw [read] at failure
        cases failure
  | some found =>
      obtain ⟨number, b⟩ := found
      obtain ⟨data', ran⟩ := @mapData_failed medium junk pos data start calls number b read
      rw [ran]
      constructor
      · intro negative
        exact ⟨number, b, read, returned_neg_iff.mp negative⟩
      · rintro ⟨number', b', failure, refused⟩
        rw [read] at failure
        cases failure
        exact returned_neg_iff.mpr refused

/-- A failed read is not forgotten. -/
theorem mapData_failed_kept {pos : DiskPosition} {calls : Calls} (failed : calls.failed = true) :
    (mapData medium junk pos data start calls).2.failed = true := by
  cases read : medium.blocks.firstFailure calls.made (dataBlocks junk pos start) with
  | none =>
      obtain ⟨data', ran, -⟩ := @mapData_passed medium junk pos data start calls read
      rw [ran]
      exact failed
  | some found =>
      obtain ⟨data', ran⟩ := @mapData_failed medium junk pos data start calls found.1 found.2 read
      rw [ran]

/-- `map_file` after both blocks of the header have been read. -/
theorem mapFile_header (success : medium.blocks.firstFailure 0 (headerBlocks inode) = none) :
    mapFile medium junk fresh inode data start .none =
      mapData medium junk (headerPosition medium fresh inode) data start
        ⟨0 + (headerBlocks inode).length, false⟩ :=
  run_bind (@getFileByInode_passed medium fresh inode .none success)

/-- `map_file` after the read of a block of the header has failed twice. -/
theorem mapFile_refused {number : Nat} {b : Int}
    (failure : medium.blocks.firstFailure 0 (headerBlocks inode) = some (number, b))
    (again : medium.blocks.succeeds (number + 1) b = false) :
    mapFile medium junk fresh inode data start .none =
      (((pageCacheSize : Int), data), ⟨number + 2, true⟩) := by
  refine (run_bind (@getFileByInode_failed medium fresh inode .none number b failure)).trans ?_
  rw [if_pos (returned_ne_zero_iff.mpr again)]
  rfl

/-- `map_file` after a block of the header has been read the second time: it goes on with a position that
    has not been set. -/
theorem mapFile_misread {number : Nat} {b : Int}
    (failure : medium.blocks.firstFailure 0 (headerBlocks inode) = some (number, b))
    (again : medium.blocks.succeeds (number + 1) b = true) :
    mapFile medium junk fresh inode data start .none =
      mapData medium junk
        (misreadPosition medium fresh inode (number = 0) (some (medium.blocks.answer b))) data start
        ⟨number + 2, true⟩ := by
  have zero : ¬returned (medium.blocks.outcome (number + 1) b) ≠ 0 := by
    rw [returned_ne_zero_iff, again]
    decide
  refine (run_bind (@getFileByInode_failed medium fresh inode .none number b failure)).trans ?_
  rw [if_neg zero, Service.outcome_succeeds again]
  rfl

/-- When `map_file` returns a negative value: neither a failed read of the header is enough for this, nor
    one of the data. -/
theorem mapFile_negative_iff :
    (mapFile medium junk fresh inode data start .none).1.1 < 0 ↔
      (medium.blocks.firstFailure 0 (headerBlocks inode) = none ∧
          RefusedTwice medium (headerBlocks inode).length
            (dataBlocks junk (headerPosition medium fresh inode) start)) ∨
        ∃ number b, medium.blocks.firstFailure 0 (headerBlocks inode) = some (number, b) ∧
          medium.blocks.succeeds (number + 1) b = true ∧
            RefusedTwice medium (number + 2) (dataBlocks junk
              (misreadPosition medium fresh inode (number = 0) (some (medium.blocks.answer b))) start) := by
  cases read : medium.blocks.firstFailure 0 (headerBlocks inode) with
  | none =>
      rw [mapFile_header read, mapData_negative_iff]
      simp
  | some found =>
      obtain ⟨number, b⟩ := found
      cases again : medium.blocks.succeeds (number + 1) b with
      | false =>
          rw [mapFile_refused read again]
          simp [again, pageCacheSize]
      | true =>
          rw [mapFile_misread read again, mapData_negative_iff]
          simp [again]

/-- `map_file` runs into a failed read exactly if one of the blocks of the page cannot be read when it is
    its turn. -/
theorem mapFile_failed_iff :
    (mapFile medium junk fresh inode data start .none).2.failed = true ↔
      medium.blocks.firstFailure 0 (pageBlocks medium junk fresh inode start) ≠ none := by
  rw [pageBlocks, Service.firstFailure_append]
  cases read : medium.blocks.firstFailure 0 (headerBlocks inode) with
  | none =>
      rw [mapFile_header read, Option.none_or]
      cases later : medium.blocks.firstFailure (0 + (headerBlocks inode).length)
          (dataBlocks junk (headerPosition medium fresh inode) start) with
      | none =>
          obtain ⟨data', ran, -⟩ := @mapData_passed medium junk (headerPosition medium fresh inode) data
            start ⟨0 + (headerBlocks inode).length, false⟩ later
          rw [ran]
          simp
      | some found =>
          obtain ⟨data', ran⟩ := @mapData_failed medium junk (headerPosition medium fresh inode) data
            start ⟨0 + (headerBlocks inode).length, false⟩ found.1 found.2 later
          rw [ran]
          simp
  | some found =>
      obtain ⟨number, b⟩ := found
      cases again : medium.blocks.succeeds (number + 1) b with
      | false =>
          rw [mapFile_refused read again]
          simp
      | true =>
          rw [mapFile_misread read again, mapData_failed_kept rfl]
          simp

end MapFile

/-! ### `tarfs_readpage` -/

section Readpage

variable {fresh : List UInt8} {inode : TarfsInode} {page : Page} {fPos : Int}

/-- `tarfs_readpage` never returns an error. -/
theorem tarfsReadpage_returns (calls : Calls) :
    (tarfsReadpage medium junk fresh inode page fPos calls).1.1 = 0 := by
  unfold tarfsReadpage
  cases page.uptodate with
  | true => rfl
  | false =>
      rcases ran : mapFile medium junk fresh inode page.data (pageCacheSize * page.index) calls with
        ⟨mapped, calls'⟩
      simp only [Bool.false_eq_true, if_false]
      rw [run_bind ran]
      split <;> rfl

/-- `tarfs_readpage` of a page that is not up to date runs into the failed reads of `map_file`. -/
theorem tarfsReadpage_failed (stale : page.uptodate = false) (calls : Calls) :
    (tarfsReadpage medium junk fresh inode page fPos calls).2.failed =
      (mapFile medium junk fresh inode page.data (pageCacheSize * page.index) calls).2.failed := by
  unfold tarfsReadpage
  rcases ran : mapFile medium junk fresh inode page.data (pageCacheSize * page.index) calls with
    ⟨mapped, calls'⟩
  simp only [stale, Bool.false_eq_true, if_false]
  rw [run_bind ran]
  split <;> rfl

/-- The page is marked up to date unless `map_file` has returned a negative value. -/
theorem tarfsReadpage_uptodate_iff (stale : page.uptodate = false) (calls : Calls) :
    (tarfsReadpage medium junk fresh inode page fPos calls).1.2.1.uptodate = true ↔
      ¬(mapFile medium junk fresh inode page.data (pageCacheSize * page.index) calls).1.1 < 0 := by
  unfold tarfsReadpage
  rcases ran : mapFile medium junk fresh inode page.data (pageCacheSize * page.index) calls with
    ⟨mapped, calls'⟩
  simp only [stale, Bool.false_eq_true, if_false]
  rw [run_bind ran]
  by_cases negative : mapped.1 < 0
  · rw [if_pos negative]
    change false = true ↔ _
    simp [negative]
  · rw [if_neg negative]
    change true = true ↔ _
    simpa using negative

theorem pageErrorsReported_iff :
    PageErrorsReported medium junk fresh inode page fPos ↔
      PageReadable medium junk fresh inode page := by
  cases stale : page.uptodate with
  | true =>
      have silent : (tarfsReadpage medium junk fresh inode page fPos .none).2.failed = false := by
        simp only [tarfsReadpage, stale, if_true]
        rfl
      simp only [PageErrorsReported, PageReadable, silent, stale]
      simp
  | false =>
      have failed := @tarfsReadpage_failed medium junk fresh inode page fPos stale .none
      have value := @tarfsReadpage_returns medium junk fresh inode page fPos .none
      constructor
      · intro reported
        refine .inr ?_
        by_contra unread
        rw [← ne_eq, ← @mapFile_failed_iff medium junk fresh page.data inode, ← failed] at unread
        have negative := (reported unread).2.2
        rw [value] at negative
        exact absurd negative (by decide)
      · rintro (uptodate | readable) unread
        · rw [stale] at uptodate
          cases uptodate
        · rw [failed, mapFile_failed_iff] at unread
          exact absurd readable unread

end Readpage

/-! ### `get_next_file` -/

section NextFile

variable {pos : DiskPosition} {calls : Calls}

theorem fillDiskPositionNextFile_passed
    (success : medium.blocks.firstFailure calls.made (nextBlocks junk pos) = none) :
    fillDiskPositionNextFile medium junk pos calls =
      ((0, nextPosition medium junk pos),
        ⟨calls.made + (nextBlocks junk pos).length, calls.failed⟩) := by
  unfold nextBlocks nextPosition fillDiskPositionNextFile at *
  by_cases fresh : pos.lastFillBufferIndex = -1
  · simp only [fresh, if_true] at success ⊢
    obtain ⟨first, -⟩ := Service.firstFailure_cons_eq_none.mp success
    exact run_bind (Service.callTwice_succeeds _ first)
  · simp only [fresh, if_false] at success ⊢
    by_cases two : 512 - (nextHeader junk pos).2 < 512
    · simp only [two, if_true] at success ⊢
      obtain ⟨first, later⟩ := Service.firstFailure_cons_eq_none.mp success
      obtain ⟨second, -⟩ := Service.firstFailure_cons_eq_none.mp later
      refine (run_bind (Service.callTwice_succeeds _ first)).trans ?_
      exact run_bind (@Service.callTwice_succeeds _ _ medium.blocks _ ⟨calls.made + 1, calls.failed⟩ _
        second)
    · simp only [two, if_false] at success ⊢
      obtain ⟨first, -⟩ := Service.firstFailure_cons_eq_none.mp success
      exact run_bind (Service.callTwice_succeeds _ first)

theorem fillDiskPositionNextFile_failed {number : Nat} {b : Int}
    (failure : medium.blocks.firstFailure calls.made (nextBlocks junk pos) = some (number, b)) :
    fillDiskPositionNextFile medium junk pos calls =
      ((returned (medium.blocks.outcome (number + 1) b),
          halfUpdated medium junk pos (number = calls.made) (medium.blocks.outcome (number + 1) b)),
        ⟨number + 2, true⟩) := by
  unfold nextBlocks at failure
  by_cases fresh : pos.lastFillBufferIndex = -1
  · rw [if_pos fresh] at failure
    rcases Service.firstFailure_cons_eq_some.mp failure with ⟨first, found⟩ | ⟨-, none⟩
    · cases found
      unfold fillDiskPositionNextFile
      rw [if_pos fresh]
      refine (run_bind (Service.callTwice_fails _ first)).trans ?_
      simp [halfUpdated]
      rfl
    · cases none
  · rw [if_neg fresh] at failure
    have firstFails
        (first : medium.blocks.succeeds calls.made (nextHeader junk pos).1 = false)
        (found : (calls.made, (nextHeader junk pos).1) = (number, b)) :
        fillDiskPositionNextFile medium junk pos calls =
          ((returned (medium.blocks.outcome (number + 1) b),
              halfUpdated medium junk pos (number = calls.made)
                (medium.blocks.outcome (number + 1) b)), ⟨number + 2, true⟩) := by
      rw [Prod.mk.injEq] at found
      obtain ⟨rfl, rfl⟩ := found
      unfold fillDiskPositionNextFile
      rw [if_neg fresh]
      refine (run_bind (Service.callTwice_fails _ first)).trans ?_
      simp [halfUpdated]
      rfl
    by_cases two : 512 - (nextHeader junk pos).2 < 512
    · rw [if_pos two] at failure
      rcases Service.firstFailure_cons_eq_some.mp failure with ⟨first, found⟩ | ⟨first, later⟩
      · exact firstFails first found
      · rcases Service.firstFailure_cons_eq_some.mp later with ⟨second, found⟩ | ⟨-, none⟩
        · rw [Prod.mk.injEq] at found
          obtain ⟨rfl, rfl⟩ := found
          unfold fillDiskPositionNextFile
          rw [if_neg fresh]
          refine (run_bind (Service.callTwice_succeeds _ first)).trans ?_
          simp only [two, if_true]
          refine (run_bind (@Service.callTwice_fails _ _ medium.blocks _
            ⟨calls.made + 1, calls.failed⟩ _ second)).trans ?_
          simp [halfUpdated, firstFilled]
          rfl
        · cases none
    · rw [if_neg two] at failure
      rcases Service.firstFailure_cons_eq_some.mp failure with ⟨first, found⟩ | ⟨-, none⟩
      · exact firstFails first found
      · cases none

/-- What `get_next_file` makes of the header it has read. -/
theorem getNextFile_passed
    (success : medium.blocks.firstFailure calls.made (nextBlocks junk pos) = none) :
    (getNextFile medium junk pos calls).2.failed = calls.failed ∧
      (getNextFile medium junk pos calls).1.2.2 = nextPosition medium junk pos := by
  have filled := fillDiskPositionNextFile_passed success
  unfold getNextFile
  rw [run_bind filled]
  simp only [ne_eq, not_true_eq_false, if_false]
  split
  · exact ⟨rfl, rfl⟩
  · exact ⟨rfl, rfl⟩

/-- When `get_next_file` returns a negative value after a failed read. -/
theorem getNextFile_failed {number : Nat} {b : Int}
    (failure : medium.blocks.firstFailure calls.made (nextBlocks junk pos) = some (number, b)) :
    (getNextFile medium junk pos calls).2.failed = true ∧
      ((getNextFile medium junk pos calls).1.1 < 0 ↔
        medium.blocks.succeeds (number + 1) b = false ∨
          nameAt junk (halfUpdated medium junk pos (number = calls.made)
            (some (medium.blocks.answer b))) = []) := by
  have filled := fillDiskPositionNextFile_failed failure
  unfold getNextFile
  rw [run_bind filled]
  cases again : medium.blocks.succeeds (number + 1) b with
  | false =>
      rw [if_pos (returned_ne_zero_iff.mpr again)]
      exact ⟨rfl, fun _ => .inl rfl, fun _ => returned_neg_iff.mpr again⟩
  | true =>
      have zero : ¬returned (medium.blocks.outcome (number + 1) b) ≠ 0 := by
        rw [returned_ne_zero_iff, again]
        decide
      rw [if_neg zero, Service.outcome_succeeds again]
      by_cases empty : nameAt junk (halfUpdated medium junk pos (number = calls.made)
          (some (medium.blocks.answer b))) = []
      · rw [if_pos empty]
        exact ⟨rfl, fun _ => .inr empty, fun _ => (by decide : (-2 : Int) < 0)⟩
      · rw [if_neg empty]
        refine ⟨rfl, fun negative => absurd negative (by decide : ¬(0 : Int) < 0), ?_⟩
        rintro (refused | none)
        · cases refused
        · exact absurd none empty

theorem scanErrorsReported_iff :
    ScanErrorsReported medium junk pos ↔ ScanStops medium junk pos := by
  cases read : medium.blocks.firstFailure 0 (nextBlocks junk pos) with
  | none =>
      have silent := (@getNextFile_passed medium junk pos .none read).1
      constructor
      · intro _ number b failure
        rw [read] at failure
        cases failure
      · intro _ failed
        rw [silent] at failed
        cases failed
  | some found =>
      obtain ⟨number, b⟩ := found
      obtain ⟨failed, negative⟩ := @getNextFile_failed medium junk pos .none number b read
      constructor
      · intro reported number' b' failure
        rw [read] at failure
        cases failure
        exact negative.mp (reported failed)
      · intro stops _
        exact negative.mpr (stops number b read)

end NextFile

/-- Read errors are reported exactly if the page can be read without one, and if a block of the next header
    that cannot be read cannot be read the second time either, or brings no name. -/
theorem read_errors_reported_iff (medium : Medium) (junk : Junk) (fresh : List UInt8)
    (inode : TarfsInode) (page : Page) (fPos : Int) (pos : DiskPosition) :
    PageErrorsReported medium junk fresh inode page fPos ∧ ScanErrorsReported medium junk pos ↔
      PageReadable medium junk fresh inode page ∧ ScanStops medium junk pos := by
  rw [pageErrorsReported_iff, scanErrorsReported_iff]

/-- A device of which this many first calls can read nothing, and later ones can read anything. -/
def troubled (calls : Nat) : Medium where
  disk := { byte := fun _ => 97, readable := fun _ => true }
  answers number _ := calls ≤ number

/-- The inode of a file whose header is the first block. -/
def firstInode : TarfsInode := ⟨420, 0, 0, 0, .genericRo, 0, 0, 0⟩

/-- The header cannot be read: the page is marked up to date as it is, and 4096 bytes are said to have been
    read; and after one failed read the scan goes on from a position without a block number. -/
theorem unread_page_uptodate :
    (tarfsReadpage (troubled 2) ⟨[], 0⟩ [] firstInode ⟨0, false, [120]⟩ 0 .none).1 =
        (0, ⟨0, true, [120]⟩, 4096) ∧
      ¬PageErrorsReported (troubled 2) ⟨[], 0⟩ [] firstInode ⟨0, false, [120]⟩ 0 ∧
      ¬ScanErrorsReported (troubled 1) ⟨[], 0⟩ (initDiskPosition []) := by
  have page : (tarfsReadpage (troubled 2) ⟨[], 0⟩ [] firstInode ⟨0, false, [120]⟩ 0 .none).1 =
      (0, ⟨0, true, [120]⟩, 4096) := rfl
  have pageFailed :
      (tarfsReadpage (troubled 2) ⟨[], 0⟩ [] firstInode ⟨0, false, [120]⟩ 0 .none).2.failed = true := rfl
  have scanFailed :
      (getNextFile (troubled 1) ⟨[], 0⟩ (initDiskPosition []) .none).2.failed = true := by
    decide +kernel
  have scan : ¬(getNextFile (troubled 1) ⟨[], 0⟩ (initDiskPosition []) .none).1.1 < 0 := by
    decide +kernel
  refine ⟨page, ?_, ?_⟩
  · intro reported
    have uptodate := (reported pageFailed).2.1
    rw [page] at uptodate
    cases uptodate
  · intro reported
    exact scan (reported scanFailed)

/-! ### Recorded positions -/

/-- What holds of every position on the way of a scan: headers start at the beginning of a block. -/
structure WellPlaced (pos : DiskPosition) : Prop where
  aligned : pos.offsetInFirst = 0
  blockNo : pos.firstBlockNo < 2147483648
  oneBlock : pos.lastFillBufferIndex ≠ 1

/-- The size of a file is rounded up to whole blocks, if not to the least number of them. -/
theorem alignedSize_dvd (size : Int) : 512 ∣ alignedSize size := by
  unfold alignedSize
  generalize wrap64 size = previous
  unfold wrap64
  simp only
  split
  · omega
  · omega

theorem nextHeader_aligned {pos : DiskPosition} (aligned : pos.offsetInFirst = 0) :
    (nextHeader junk pos).2 = 0 := by
  have blocks := alignedSize_dvd (getSize junk pos)
  simp only [nextHeader, endOffset, aligned]
  generalize alignedSize (getSize junk pos) = size at blocks
  apply Int.tmod_eq_zero_of_dvd
  unfold int32
  omega

theorem nextHeader_lt (pos : DiskPosition) : (nextHeader junk pos).1 < 2147483648 := by
  simp only [nextHeader, int32]
  omega

theorem nextPosition_wellPlaced {pos : DiskPosition} (placed : WellPlaced pos) :
    WellPlaced (nextPosition medium junk pos) := by
  unfold nextPosition
  split
  · exact ⟨rfl, (by decide : (0 : Int) < 2147483648), (by decide : (0 : Int) ≠ 1)⟩
  · have one : ¬512 - (nextHeader junk pos).2 < 512 := by
      rw [nextHeader_aligned placed.aligned]
      decide
    rw [if_neg one]
    exact ⟨nextHeader_aligned placed.aligned, nextHeader_lt pos, (by decide : (0 : Int) ≠ 1)⟩

/-- A scan without read errors only comes to such positions. -/
theorem scanned_wellPlaced {pos : DiskPosition} (scanned : Scanned medium junk pos) : WellPlaced pos := by
  induction scanned with
  | init fresh =>
      exact ⟨rfl, (by decide : (-1 : Int) < 2147483648), (by decide : (-1 : Int) ≠ 1)⟩
  | @next pos _ calls read inductionHypothesis =>
      cases found : medium.blocks.firstFailure calls.made (nextBlocks junk pos) with
      | none =>
          rw [(getNextFile_passed found).2]
          exact nextPosition_wellPlaced inductionHypothesis
      | some failure =>
          have failed := (@getNextFile_failed medium junk pos calls failure.1 failure.2 found).1
          rw [read] at failed
          cases failed

/-! ### Pages without read errors -/

theorem getSize_header_append (m : Member) (rest : List UInt8) (blockNo index : Int) :
    getSize junk ⟨m.header ++ rest, blockNo, 0, index⟩ = m.size := by
  have length := m.length_header
  have field : getTarField ⟨m.header ++ rest, blockNo, 0, index⟩ 124 12 =
      getTarField ⟨m.header, blockNo, 0, index⟩ 124 12 := by
    simp only [getTarField, Int.toNat_zero, Nat.zero_add]
    rw [List.drop_append_of_le_length (by omega), List.take_append_of_le_length]
    rw [List.length_drop, length]
    decide
  rw [getSize, field]
  exact getSize_header junk m blockNo index

theorem howMuch_of_le {size start : Nat} (small : size < 1073741824) (within : start ≤ size) :
    howMuch (size : Int) start = min pageCacheSize (size - start) := by
  have whole : wrap64 (size : Int) = size := wrap64_of_range (by omega)
  have difference : (size : Int) - start = ((size - start : Nat) : Int) := by omega
  have rest : wrap64 ((size - start : Nat) : Int) = size - start := wrap64_of_range (by omega)
  simp only [howMuch, whole, difference, rest]
  split <;> omega

section Filled

variable {pos : DiskPosition} {m : Member} {fresh data : List UInt8} {start : Nat}

/-- The header of a stored member is what its first block holds. -/
theorem answer_header (placed : WellPlaced pos) (nonneg : 0 ≤ pos.firstBlockNo)
    (stored : Stored medium pos m) : medium.blocks.answer pos.firstBlockNo = m.header := by
  have place : pos.position.toNat = pos.firstBlockNo.toNat * 512 := by
    rw [DiskPosition.position, placed.aligned]
    omega
  have first := medium.disk.take_bytes (by unfold Member.span; omega : 512 ≤ m.span)
    (pos.firstBlockNo.toNat * 512)
  rw [answer_eq, ← first, ← place, stored, Member.bytes, List.take_left' m.length_header]

/-- Pieces of its data. -/
theorem bytes_data (placed : WellPlaced pos) (nonneg : 0 ≤ pos.firstBlockNo)
    (stored : Stored medium pos m) {count : Nat} (within : start + count ≤ m.size) :
    medium.disk.bytes (pos.firstBlockNo.toNat * 512 + (512 + start)) count =
      (m.data.drop start).take count := by
  have place : pos.position.toNat = pos.firstBlockNo.toNat * 512 := by
    rw [DiskPosition.position, placed.aligned]
    omega
  have inside : 512 + start + count ≤ m.span := by
    unfold Member.span blocksOf
    omega
  have data : m.bytes.drop (512 + start) = m.data.drop start := by
    rw [Member.bytes, ← List.drop_drop, List.drop_left' m.length_header]
  rw [← medium.disk.piece_bytes inside, ← place, stored, data]

/-- Without read errors `map_file` fills the page at `start` with the bytes of the member from there on,
    and with zeros behind its last byte, and returns their number, wherever a scan has found the member. -/
theorem map_file_fills_page (medium : Medium) (junk : Junk) (fresh : List UInt8) {pos : DiskPosition}
    (scanned : Scanned medium junk pos) {m : Member} (stored : Stored medium pos m) {start : Nat}
    (within : start ≤ m.size) {data : List UInt8} (page : data.length = pageCacheSize)
    (read : (mapFile medium junk fresh (fillNode junk pos) data start .none).2.failed = false) :
    (mapFile medium junk fresh (fillNode junk pos) data start .none).1 =
      (((min pageCacheSize (m.size - start) : Nat) : Int),
        (m.data.drop start).take (min pageCacheSize (m.size - start)) ++
          List.replicate (pageCacheSize - min pageCacheSize (m.size - start)) 0) := by
  have placed := scanned_wellPlaced scanned
  have all : medium.blocks.firstFailure 0
      (pageBlocks medium junk fresh (fillNode junk pos) start) = none := by
    by_contra unread
    rw [← ne_eq, ← @mapFile_failed_iff medium junk fresh data, read] at unread
    cases unread
  rw [pageBlocks, Service.firstFailure_append, Option.or_eq_none_iff] at all
  obtain ⟨headerRead, dataRead⟩ := all
  have nonneg : 0 ≤ pos.firstBlockNo := by
    have one : headerBlocks (fillNode junk pos) = [pos.firstBlockNo] := if_neg placed.oneBlock
    rw [one] at headerRead
    exact nonneg_of_succeeds (Service.firstFailure_cons_eq_none.mp headerRead).1
  have position : headerPosition medium fresh (fillNode junk pos) =
      ⟨m.header ++ fresh.drop 512, pos.firstBlockNo, 0, pos.lastFillBufferIndex⟩ := by
    simp only [headerPosition, fillNode, placed.oneBlock, if_false, placed.aligned, fillFirst,
      initDiskPosition, answer_header placed nonneg stored]
  obtain ⟨data', ran, content⟩ := @mapData_passed medium junk (headerPosition medium fresh
    (fillNode junk pos)) data start ⟨0 + (headerBlocks (fillNode junk pos)).length, false⟩ dataRead
  rw [mapFile_header headerRead, ran]
  simp only [position, getSize_header_append, howMuch_of_le m.size_small within, Int.toNat_zero,
    Nat.zero_add] at content ⊢
  have bytes := bytes_data placed nonneg stored
    (by omega : start + min pageCacheSize (m.size - start) ≤ m.size)
  have rest : data.drop pageCacheSize = [] := by
    rw [← page, List.drop_length]
  rw [content nonneg placed.blockNo, bytes, rest, List.append_nil]

end Filled

theorem greetingName_nonzero : (97 : UInt8) ≠ 0 := by decide

theorem greeting_small : 5 < 1073741824 := by decide

/-- A file of 5 bytes. -/
def greeting : Member :=
  { zeroFile 97 greetingName_nonzero 5 greeting_small with
    data := [104, 101, 108, 108, 111] ++ List.replicate 507 0
    data_length := by decide +kernel }

/-- An archive of this file on a device without errors. -/
def greetingMedium : Medium := ⟨Disk.ofImage (image [greeting] []) 512, fun _ _ => true⟩

/-- Where the scan finds it. -/
def greetingPosition : DiskPosition :=
  (getNextFile greetingMedium ⟨[], 0⟩ (initDiskPosition []) .none).1.2.2

theorem greeting_scanned : Scanned greetingMedium ⟨[], 0⟩ greetingPosition :=
  .next (.init []) .none (by decide +kernel)

theorem greeting_stored : Stored greetingMedium greetingPosition greeting := by
  have place : greetingPosition.position.toNat = 0 := by decide +kernel
  have inside : 0 + greeting.span ≤ (image [greeting] []).length := by
    rw [length_image]
    decide +kernel
  rw [Stored, place]
  refine (Disk.bytes_ofImage inside).trans ?_
  rw [image, List.drop_zero, List.flatMap_cons, List.append_assoc,
    List.take_left' (Member.length_bytes greeting)]

theorem greeting_read :
    (mapFile greetingMedium ⟨[], 0⟩ [] (fillNode ⟨[], 0⟩ greetingPosition)
      (List.replicate pageCacheSize 120) 0 .none).2.failed = false := by
  have readable : greetingMedium.blocks.firstFailure 0 (pageBlocks greetingMedium ⟨[], 0⟩ []
      (fillNode ⟨[], 0⟩ greetingPosition) 0) = none := by
    decide +kernel
  rw [Bool.eq_false_iff, ne_eq, mapFile_failed_iff, readable]
  simp

/-- The only page of the file. -/
theorem greeting_filled :
    (mapFile greetingMedium ⟨[], 0⟩ [] (fillNode ⟨[], 0⟩ greetingPosition)
        (List.replicate pageCacheSize 120) 0 .none).1 =
      (((min pageCacheSize (greeting.size - 0) : Nat) : Int),
        (greeting.data.drop 0).take (min pageCacheSize (greeting.size - 0)) ++
          List.replicate (pageCacheSize - min pageCacheSize (greeting.size - 0)) 0) :=
  map_file_fills_page greetingMedium ⟨[], 0⟩ [] greeting_scanned greeting_stored (Nat.zero_le _)
    List.length_replicate greeting_read

end Nfs4Compound.Tar.Aboyaritsev.Pages
