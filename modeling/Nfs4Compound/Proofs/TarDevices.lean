/-
Module: Nfs4Compound.Proofs.TarDevices
Layer: Proofs
Purpose: The two models of `get_next_file` in aboyaritsev/merge agree: where no read fails but those behind
  the end of the device, the one with reads that may fail comes to the same headers as the one that the
  scans are made of.
Imports: Nfs4Compound.Proofs.TarPages, Nfs4Compound.Tar.Ends
Trusted boundary: none
Main exports: wholeMedium, Shows, Agrees, getNextFile_agrees, visits_scanned
-/
import Nfs4Compound.Proofs.TarPages
import Nfs4Compound.Tar.Ends

namespace Nfs4Compound.Tar.Aboyaritsev.Pages

open CText

/-- The device with these contents, read without errors. -/
def wholeMedium (device : List UInt8) : Medium where
  disk := Disk.ofImage device 512
  answers _ _ := true

/-- A position shows the header of another one: it lies at the same place, and the first buffer holds the
    block. -/
structure Shows (pos plain : DiskPosition) : Prop where
  placed : WellPlaced pos
  firstBlockNo : plain.firstBlockNo = pos.firstBlockNo
  aligned : plain.offsetInFirst = 0
  index : plain.lastFillBufferIndex = pos.lastFillBufferIndex
  block : pos.lastFillBufferIndex ≠ -1 → plain.buffers = pos.buffers.take 512

/-- What the two models of `get_next_file` return for one header. -/
inductive Agrees : Int × List UInt8 × DiskPosition → NextFile → Prop where
  | blockError (pos : DiskPosition) : Agrees (-1, [], pos) .blockError
  | tarEnd {pos plain : DiskPosition} (shows : Shows pos plain) : Agrees (-2, [], pos) (.tarEnd plain)
  | file {pos plain : DiskPosition} (name : List UInt8) (shows : Shows pos plain) :
      Agrees (0, name, pos) (.file name plain)

variable {device : List UInt8} {junk : Junk} {pos plain : DiskPosition}

/-- `sb_bread` on the device. -/
theorem outcome_wholeMedium (number : Nat) (blockNo : Int) :
    (wholeMedium device).blocks.outcome number blockNo = tarfsBlockRead device blockNo := by
  have read := Disk.bread_ofImage (B := 512) device blockNo.toNat
  unfold Disk.bread at read
  unfold Service.outcome tarfsBlockRead sbBread
  rw [← read]
  by_cases low : 0 ≤ blockNo
  · simp [Medium.blocks, wholeMedium, low]
  · simp [Medium.blocks, low]

/-! ### Fields -/

theorem getTarField_shows (shows : Shows pos plain) (filled : pos.lastFillBufferIndex ≠ -1)
    {offset length : Nat} (inside : offset + length ≤ 512) :
    getTarField plain offset length = getTarField pos offset length := by
  simp only [getTarField, shows.aligned, shows.placed.aligned, shows.block filled, Int.toNat_zero,
    Nat.zero_add, List.drop_take, List.take_take]
  rw [Nat.min_eq_left (by omega)]

theorem getSize_shows (shows : Shows pos plain) (filled : pos.lastFillBufferIndex ≠ -1) :
    getSize junk plain = getSize junk pos := by
  rw [getSize, getTarField_shows shows filled (by decide), getSize]

theorem nameAt_shows (shows : Shows pos plain) (filled : pos.lastFillBufferIndex ≠ -1) :
    cstr (getTarField plain 0 100 ++ junk.behind) = nameAt junk pos := by
  rw [getTarField_shows shows filled (by decide), nameAt]

/-! ### The next header -/

/-- The first block of the header that is read next. -/
def headerBlock (junk : Junk) (pos : DiskPosition) : Int :=
  if pos.lastFillBufferIndex = -1 then 0 else (nextHeader junk pos).1

/-- Headers start at the beginning of a block, so one block is read. -/
theorem nextBlocks_wellPlaced (placed : WellPlaced pos) : nextBlocks junk pos = [headerBlock junk pos] := by
  unfold nextBlocks headerBlock
  split
  · rfl
  · have one : ¬512 - (nextHeader junk pos).2 < 512 := by
      rw [nextHeader_aligned placed.aligned]
      decide
    rw [if_neg one]

/-- The scan goes on to the block that the other model reads. -/
theorem fillDiskPositionNextFile_plain (shows : Shows pos plain) :
    Aboyaritsev.fillDiskPositionNextFile device junk plain =
      (tarfsBlockRead device (headerBlock junk pos)).map fun block =>
        ⟨block, headerBlock junk pos, 0, 0⟩ := by
  unfold Aboyaritsev.fillDiskPositionNextFile headerBlock
  rw [shows.index]
  by_cases fresh : pos.lastFillBufferIndex = -1
  · rw [if_pos fresh, if_pos fresh]
  · rw [if_neg fresh, if_neg fresh]
    have ends : endOffset plain (getSize junk plain) = endOffset pos (getSize junk pos) := by
      rw [getSize_shows shows fresh, endOffset, endOffset, shows.aligned, shows.placed.aligned]
    have place : int32 (plain.firstBlockNo +
        (endOffset plain (getSize junk plain) - plain.offsetInFirst).tdiv 512) =
          (nextHeader junk pos).1 := by
      rw [ends, shows.firstBlockNo, shows.aligned, ← shows.placed.aligned, nextHeader]
    have inBlock : (endOffset plain (getSize junk plain)).tmod 512 = 0 := by
      rw [ends]
      exact @nextHeader_aligned junk pos shows.placed.aligned
    simp only [place, inBlock]
    cases tarfsBlockRead device (nextHeader junk pos).1 with
    | none => rfl
    | some block => rfl

/-- The position in front of a header that can be read. -/
theorem nextPosition_shows (placed : WellPlaced pos) {block : List UInt8} (length : block.length = 512)
    (read : (wholeMedium device).blocks.answer (headerBlock junk pos) = block) :
    Shows (nextPosition (wholeMedium device) junk pos) ⟨block, headerBlock junk pos, 0, 0⟩ := by
  have one : ¬512 - (nextHeader junk pos).2 < 512 := by
    rw [nextHeader_aligned placed.aligned]
    decide
  unfold headerBlock at read
  by_cases fresh : pos.lastFillBufferIndex = -1
  · rw [if_pos fresh] at read
    have next : nextPosition (wholeMedium device) junk pos =
        ⟨block ++ pos.buffers.drop 512, 0, 0, 0⟩ := by
      rw [nextPosition, if_pos fresh, read]
      rfl
    have here : headerBlock junk pos = 0 := if_pos fresh
    refine ⟨nextPosition_wellPlaced placed, ?_, rfl, ?_, ?_⟩
    · rw [next, here]
    · rw [next]
    · intro _
      rw [next, ← length, List.take_left]
  · rw [if_neg fresh] at read
    have next : nextPosition (wholeMedium device) junk pos =
        ⟨block ++ pos.buffers.drop 512, (nextHeader junk pos).1, (nextHeader junk pos).2, 0⟩ := by
      rw [nextPosition, if_neg fresh, if_neg one, firstFilled, read]
      rfl
    have here : headerBlock junk pos = (nextHeader junk pos).1 := if_neg fresh
    refine ⟨nextPosition_wellPlaced placed, ?_, rfl, ?_, ?_⟩
    · rw [next, here]
    · rw [next]
    · intro _
      rw [next, ← length, List.take_left]

/-- A header block on the device is read. -/
theorem headerBlock_read (placed : WellPlaced pos) {block : List UInt8}
    (read : tarfsBlockRead device (headerBlock junk pos) = some block) :
    (∀ number, (wholeMedium device).blocks.firstFailure number (nextBlocks junk pos) = none) ∧
      (wholeMedium device).blocks.answer (headerBlock junk pos) = block := by
  have succeeds : ∀ number,
      (wholeMedium device).blocks.succeeds number (headerBlock junk pos) = true ∧
        (wholeMedium device).blocks.answer (headerBlock junk pos) = block := by
    intro number
    rw [← Service.outcome_eq_some_iff, outcome_wholeMedium, read]
  constructor
  · intro number
    rw [nextBlocks_wellPlaced placed, Service.firstFailure_succeeds _ (succeeds number).1,
      Service.firstFailure_nil]
  · exact (succeeds 0).2

/-- A header block behind the end of the device is not. -/
theorem headerBlock_unread (placed : WellPlaced pos)
    (read : tarfsBlockRead device (headerBlock junk pos) = none) (number : Nat) :
    (wholeMedium device).blocks.firstFailure number (nextBlocks junk pos) =
      some (number, headerBlock junk pos) := by
  have fails : (wholeMedium device).blocks.succeeds number (headerBlock junk pos) = false := by
    rw [← Service.outcome_eq_none_iff, outcome_wholeMedium, read]
  rw [nextBlocks_wellPlaced placed, Service.firstFailure_fails _ fails]

/-- The two models of `get_next_file` return the same. -/
theorem getNextFile_agrees (shows : Shows pos plain) (calls : Calls) :
    Agrees (getNextFile (wholeMedium device) junk pos calls).1
      (Aboyaritsev.getNextFile device junk plain) := by
  unfold Aboyaritsev.getNextFile
  rw [fillDiskPositionNextFile_plain shows]
  cases read : tarfsBlockRead device (headerBlock junk pos) with
  | none =>
      have filled := fillDiskPositionNextFile_failed (headerBlock_unread shows.placed read calls.made)
      rw [outcome_wholeMedium, read] at filled
      unfold getNextFile
      rw [run_bind filled]
      exact .blockError _
  | some block =>
      obtain ⟨success, answer⟩ := headerBlock_read shows.placed read
      have length : block.length = 512 := by
        rw [← answer]
        simp only [Medium.blocks, Disk.length_bytes]
      have next := nextPosition_shows shows.placed length answer
      have filled : (nextPosition (wholeMedium device) junk pos).lastFillBufferIndex ≠ -1 := by
        rw [← next.index]
        exact (by decide : (0 : Int) ≠ -1)
      have name := @nameAt_shows junk _ _ next filled
      unfold getNextFile
      rw [run_bind (fillDiskPositionNextFile_passed (success calls.made))]
      simp only [ne_eq, not_true_eq_false, if_false, Option.map_some, name]
      by_cases empty : nameAt junk (nextPosition (wholeMedium device) junk pos) = []
      · rw [if_pos empty, if_pos empty]
        exact .tarEnd next
      · rw [if_neg empty, if_neg empty]
        exact .file _ next

/-- Both start in front of the first header. -/
theorem initDiskPosition_shows (fresh : List UInt8) :
    Shows (initDiskPosition fresh) Aboyaritsev.initDiskPosition := by
  constructor
  · exact ⟨rfl, (by decide : (-1 : Int) < 2147483648), (by decide : (-1 : Int) ≠ 1)⟩
  · rfl
  · rfl
  · rfl
  · intro filled
    exact absurd rfl filled

/-- Where a scan goes on, no read has failed. -/
theorem getNextFile_succeeds (shows : Shows pos plain) {name : List UInt8} {next : DiskPosition}
    (found : Aboyaritsev.getNextFile device junk plain = .file name next) :
    (getNextFile (wholeMedium device) junk pos .none).2.failed = false := by
  unfold Aboyaritsev.getNextFile at found
  rw [fillDiskPositionNextFile_plain shows] at found
  cases read : tarfsBlockRead device (headerBlock junk pos) with
  | none =>
      rw [read] at found
      cases found
  | some block => exact (getNextFile_passed ((headerBlock_read shows.placed read).1 _)).1

/-- All headers that the scan of `tarfs_readdir` comes to are read at the positions of the other model. -/
theorem visits_scanned
    (visited : Visits (visitAll device junk) Aboyaritsev.initDiskPosition plain) :
    ∃ pos, Scanned (wholeMedium device) junk pos ∧ Shows pos plain := by
  induction visited with
  | start => exact ⟨initDiskPosition [], .init [], initDiskPosition_shows []⟩
  | @next plain after p _ round inductionHypothesis =>
      obtain ⟨pos, scanned, shows⟩ := inductionHypothesis
      have agrees := @getNextFile_agrees device junk pos plain shows .none
      unfold visitAll at round
      cases found : Aboyaritsev.getNextFile device junk plain with
      | blockError =>
          rw [found] at round
          cases round
      | tarEnd next =>
          rw [found] at round
          cases round
      | file name next =>
          have read := getNextFile_succeeds shows found
          rw [found] at round agrees
          cases round
          generalize returned : (getNextFile (wholeMedium device) junk pos .none).1 = result at agrees
          cases agrees with
          | file name arrived =>
              have reached := Scanned.next scanned .none read
              rw [returned] at reached
              exact ⟨_, reached, arrived⟩

end Nfs4Compound.Tar.Aboyaritsev.Pages
