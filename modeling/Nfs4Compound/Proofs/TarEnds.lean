/-
Module: Nfs4Compound.Proofs.TarEnds
Layer: Proofs
Purpose: On which devices the header scans end.  Each driver fails to step forward for particular
  numbers in the size field, one of them for fields that do not end in time, and all of them for names
  that do not fit.
Imports: Nfs4Compound.Proofs.TarRounds, Nfs4Compound.Proofs.TarScan
Trusted boundary: none
Main exports: Aboyaritsev.stepsForward_image, Afedosenko.stepsForward_image,
  Ksaltuk.stepsForward_image, scans_end_iff
-/
import Nfs4Compound.Proofs.TarRounds
import Nfs4Compound.Proofs.TarScan

namespace Nfs4Compound.Tar

open CText

variable {device : List UInt8} {blocks : Nat} {junk : Junk}

theorem sbBread_eq_some (whole : device.length = 512 * blocks) {n : Nat} :
    (∃ block, sbBread device 512 n = some block) ↔ n < blocks := by
  rw [sbBread]
  constructor
  · rintro ⟨block, read⟩
    split at read
    · omega
    · cases read
  · intro less
    rw [if_pos (by omega)]
    exact ⟨_, rfl⟩

/-! ### ksaltuk -/

namespace Ksaltuk

theorem getBlocksCount_eq (bytes : Int) :
    getBlocksCount bytes =
      if 0 ≤ bytes then (bytes + 511) / 512
      else if bytes % 512 = 0 then bytes / 512 else bytes / 512 + 2 := by
  unfold getBlocksCount
  rcases Int.le_total 0 bytes with nonneg | nonpos
  · rw [Int.tmod_eq_emod_of_nonneg nonneg, Int.tdiv_eq_ediv_of_nonneg nonneg, if_pos nonneg]
    split <;> omega
  · obtain ⟨t, rfl⟩ : ∃ t : Int, bytes = -t := ⟨-bytes, by omega⟩
    rw [Int.neg_tmod, Int.neg_tdiv, Int.tmod_eq_emod_of_nonneg (by omega),
      Int.tdiv_eq_ediv_of_nonneg (by omega)]
    split <;> split <;> (try split) <;> omega

theorem sizeOf_range (block : List UInt8) :
    -2147483648 ≤ sizeOf junk block ∧ sizeOf junk block < 2147483648 := by
  unfold sizeOf int32
  omega

theorem bread_eq_some (whole : device.length = 512 * blocks) {i : Int} :
    (∃ block, bread device i = some block) ↔ 0 ≤ i ∧ i < blocks := by
  unfold bread
  split
  · rw [sbBread_eq_some whole]
    omega
  · constructor
    · rintro ⟨block, read⟩
      cases read
    · omega

theorem nextBlock_eq (block : List UInt8) (i : Int) :
    nextBlock junk block i = int32 (i + getBlocksCount (sizeOf junk block) + 1) := rfl

/-- A round of `create_inode_by_name` that goes on is a round of `tarfs_readdir`. -/
theorem visitAll_of_visitName {name : List UInt8} {i p next : Int}
    (round : visitName device junk name i = .more p next) : visitAll device junk i = .more p next := by
  unfold visitName at round
  unfold visitAll
  split at round
  · cases round
  · split at round
    · cases round
    · rename_i nonzero
      split at round
      · cases round
      · rw [if_neg nonzero]
        exact round

theorem visits_visitAll {name : List UInt8} {i : Int} (visited : Visits (visitName device junk name) 0 i) :
    Visits (visitAll device junk) 0 i := by
  induction visited with
  | start => exact .start
  | next _ round inductionHypothesis => exact .next inductionHypothesis (visitAll_of_visitName round)

theorem visitAll_eq_visitName : visitAll device junk = visitName device junk [0] := by
  funext i
  unfold visitAll visitName
  cases bread device i with
  | none => rfl
  | some block =>
      simp only [entryName_ne_zero, if_false]

theorem visit_more {name : List UInt8} {i p next : Int}
    (round : visitName device junk name i = .more p next) :
    ∃ block, bread device i = some block ∧ block.head? ≠ some 0 ∧ p = 512 * i ∧
      next = nextBlock junk block i := by
  unfold visitName at round
  split at round
  · cases round
  · rename_i block read
    split at round
    · cases round
    · rename_i nonzero
      split at round
      · cases round
      · cases round
        exact ⟨block, read, nonzero, rfl, rfl⟩

theorem visit_position {name : List UInt8} {i p : Int}
    (position : (visitName device junk name i).position? = some p) :
    (∃ block, bread device i = some block) ∧ p = 512 * i := by
  unfold visitName at position
  split at position
  · cases position
  · rename_i block read
    refine ⟨⟨block, read⟩, ?_⟩
    split at position
    · cases position
      rfl
    · split at position <;> (cases position; rfl)

theorem insideDevice (whole : device.length = 512 * blocks) (name : List UInt8) :
    InsideDevice (visitName device junk name) 0 blocks := by
  intro i p _ position
  obtain ⟨read, rfl⟩ := visit_position position
  obtain ⟨nonneg, less⟩ := (bread_eq_some whole).mp read
  exact ⟨i.toNat, by omega, by omega⟩

/-- Only a block that cannot be read is not reported. -/
theorem reported_of_bread {name block : List UInt8} {i : Int} (read : bread device i = some block)
    {e : Ending} (ends : (visitName device junk name i).ending? = some e) : e.Reported := by
  rw [visitName, read] at ends
  simp only [] at ends
  split at ends
  · cases ends
    simp [Ending.Reported]
  · split at ends
    · cases ends
      simp [Ending.Reported]
    · cases ends

/-- Block numbers are of type `int`. -/
theorem visits_lt {name : List UInt8} {i : Int} (visited : Visits (visitName device junk name) 0 i) :
    i < 2147483648 := by
  cases visited with
  | start => decide
  | next _ round =>
      obtain ⟨block, _, _, _, rfl⟩ := visit_more round
      unfold nextBlock int32
      omega

theorem stepsForward_of_generic (whole : device.length = 512 * blocks)
    (forward : Tar.StepsForward (visitAll device junk) 0) : StepsForward device blocks junk := by
  have readable {i : Int} (visited : Visits (visitAll device junk) 0 i) : 0 ≤ i ∧ i < blocks := by
    rw [← bread_eq_some whole]
    cases read : bread device i with
    | none =>
        have reported := (forward i visited).1 .crashed (by rw [visitAll, read]; rfl)
        exact absurd rfl reported.1
    | some block => exact ⟨block, rfl⟩
  refine ⟨by have := readable .start; omega, ?_⟩
  intro i block visited read nonzero
  have round : visitAll device junk i = .more (512 * i) (nextBlock junk block i) := by
    rw [visitAll, read]
    simp only [nonzero, if_false]
  have next := readable (.next visited round)
  have here := readable visited
  have low : i < 2147483648 := by
    rw [visitAll_eq_visitName] at visited
    exact visits_lt visited
  have increases : 512 * i < 512 * nextBlock junk block i := by
    apply (forward i visited).2 _ _ _ round
    obtain ⟨block', read'⟩ := (bread_eq_some whole).mpr next
    rw [visitAll, read']
    simp only []
    split <;> rfl
  have range := @sizeOf_range junk block
  rw [nextBlock_eq, getBlocksCount_eq] at next increases
  rw [getBlocksCount_eq]
  unfold int32 at next increases
  split at next <;> (try split at next) <;> omega

theorem next_of_stepsForward (forward : StepsForward device blocks junk) {i : Int} {block : List UInt8}
    (visited : Visits (visitAll device junk) 0 i) (read : bread device i = some block)
    (nonzero : block.head? ≠ some 0) (nonneg : 0 ≤ i) :
    i < nextBlock junk block i ∧ nextBlock junk block i < blocks := by
  obtain ⟨sizes, inside, small⟩ := forward.2 i block visited read nonzero
  have range := @sizeOf_range junk block
  rw [nextBlock_eq]
  rw [getBlocksCount_eq] at *
  rw [int32_of_range] <;> (split at inside <;> (try split at inside) <;> omega)

theorem generic_of_stepsForward (whole : device.length = 512 * blocks)
    (forward : StepsForward device blocks junk) (name : List UInt8) :
    Tar.StepsForward (visitName device junk name) 0 := by
  have readable {i : Int} (visited : Visits (visitName device junk name) 0 i) : 0 ≤ i ∧ i < blocks := by
    induction visited with
    | start =>
        have := forward.1
        omega
    | next visited round inductionHypothesis =>
        obtain ⟨block, read, nonzero, _, rfl⟩ := visit_more round
        have := next_of_stepsForward forward (visits_visitAll visited) read nonzero inductionHypothesis.1
        omega
  intro i visited
  constructor
  · intro e ends
    obtain ⟨block, read⟩ := (bread_eq_some whole).mpr (readable visited)
    exact reported_of_bread read ends
  · intro p next p' round position
    obtain ⟨block, read, nonzero, rfl, rfl⟩ := visit_more round
    obtain ⟨_, rfl⟩ := visit_position position
    have := next_of_stepsForward forward (visits_visitAll visited) read nonzero (readable visited).1
    omega

theorem keepsInside_iff :
    (∀ name, KeepsInside (visitName device junk name) 0 fun i => (bread device i).all (nameInside junk)) ↔
      NamesFit device junk := by
  constructor
  · intro keeps i block visited read
    rw [visitAll_eq_visitName] at visited
    have reads : (visitName device junk [0] i).position?.isSome := by
      rw [visitName, read]
      simp only []
      split
      · rfl
      · split <;> rfl
    have inside : (bread device i).all (nameInside junk) := keeps [0] i visited reads
    rwa [read] at inside
  · intro fit name i visited reads
    obtain ⟨p, position⟩ := Option.isSome_iff_exists.mp reads
    obtain ⟨block, read⟩ := (visit_position position).1
    show (bread device i).all (nameInside junk)
    rw [read]
    exact fit i block (visits_visitAll visited) read

/-- The loops of the driver end well exactly when `tarfs_readdir` steps forward and the names fit. -/
theorem ends_iff (whole : device.length = 512 * blocks) :
    (EndsWell blocks (scan (visitAll device junk) (blocks + 1) 0) ∧
        ∀ name, EndsWell blocks (scan (visitNameWithin device junk name) (blocks + 1) 0)) ↔
      StepsForward device blocks junk ∧ NamesFit device junk := by
  have all : EndsWell blocks (scan (visitAll device junk) (blocks + 1) 0) ↔
      Tar.StepsForward (visitAll device junk) 0 := by
    rw [visitAll_eq_visitName]
    exact endsWell_iff (insideDevice whole [0])
  have each (name : List UInt8) :
      EndsWell blocks (scan (visitNameWithin device junk name) (blocks + 1) 0) ↔ _ :=
    endsWell_within_iff (insideDevice whole name)
  constructor
  · rintro ⟨ended, names⟩
    exact ⟨stepsForward_of_generic whole (all.mp ended),
      keepsInside_iff.mp fun name => ((each name).mp (names name)).2⟩
  · rintro ⟨forward, fit⟩
    have generic := generic_of_stepsForward whole forward
    refine ⟨?_, fun name => (each name).mpr ⟨generic name, keepsInside_iff.mpr fit name⟩⟩
    rw [all, visitAll_eq_visitName]
    exact generic [0]

end Ksaltuk

/-! ### aboyaritsev/merge -/

namespace Aboyaritsev

/-- The step in blocks, by the size rounded down to whole blocks.  Only an empty file is followed at
    once; from `2 ^ 31 - 1024` on the offset does not fit in an `int`. -/
theorem fileEnd_eq {size : Int} (low : -2147483648 ≤ size) (high : size < 2147483648) :
    int32 (512 + alignedSize size) =
      512 * (if size = 0 then 1
        else if size / 512 + 2 < 4194304 then size / 512 + 2 else size / 512 + 2 - 8388608) := by
  unfold alignedSize
  simp only []
  by_cases zero : size = 0
  · subst zero
    rfl
  · have positive : 0 < wrap64 size := by
      unfold wrap64
      omega
    have rest : wrap64 (512 + (wrap64 size : Int)) % 512 = (size % 512).toNat := by
      unfold wrap64
      omega
    rw [if_pos positive, rest, if_neg zero]
    have aligned : ((wrap64 ((wrap64 size : Int) + (512 - ((size % 512).toNat : Nat))) : Nat) : Int) =
        if -512 ≤ size ∧ size < 0 then 0 else
          (if size < 0 then 18446744073709551616 else 0) + 512 * (size / 512 + 1) := by
      unfold wrap64
      split <;> (try split) <;> omega
    rw [aligned]
    unfold int32
    split <;> split <;> (try split) <;> omega

theorem blockStep_eq {size : Int} (low : -2147483648 ≤ size) (high : size < 2147483648) :
    blockStep size = if size = 0 then 1
      else if size / 512 + 2 < 4194304 then size / 512 + 2 else size / 512 + 2 - 8388608 := by
  rw [blockStep, fileEnd_eq low high, Int.mul_tdiv_cancel_left _ (by decide)]

theorem getSize_range (pos : DiskPosition) :
    -2147483648 ≤ getSize junk pos ∧ getSize junk pos < 2147483648 := by
  unfold getSize
  split <;> (unfold int32; omega)

/-- A copy of the `b`-th block, with the header at its start. -/
def Standing (device : List UInt8) (b : Int) (pos : DiskPosition) : Prop :=
  ∃ block, tarfsBlockRead device b = some block ∧ pos = ⟨block, b, 0, 0⟩

theorem fill_standing {b : Int} {pos : DiskPosition} (standing : Standing device b pos) :
    fillDiskPositionNextFile device junk pos =
      (tarfsBlockRead device (int32 (b + blockStep (getSize junk pos)))).map fun block =>
        ⟨block, int32 (b + blockStep (getSize junk pos)), 0, 0⟩ := by
  obtain ⟨block, _, rfl⟩ := standing
  obtain ⟨low, high⟩ := @getSize_range junk ⟨block, b, 0, 0⟩
  have fileEnd : endOffset ⟨block, b, 0, 0⟩ (getSize junk ⟨block, b, 0, 0⟩) =
      512 * blockStep (getSize junk ⟨block, b, 0, 0⟩) := by
    rw [blockStep_eq low high, ← fileEnd_eq low high, endOffset, Int.zero_add]
  have inBlock : (512 * blockStep (getSize junk ⟨block, b, 0, 0⟩)).tmod 512 = 0 := Int.mul_tmod_right _ _
  rw [fillDiskPositionNextFile]
  simp only [fileEnd, inBlock, Int.sub_zero, Int.mul_tdiv_cancel_left _ (show (512 : Int) ≠ 0 by decide)]
  cases tarfsBlockRead device (int32 (b + blockStep (getSize junk ⟨block, b, 0, 0⟩))) with
  | none => rfl
  | some block' => rfl

theorem tarfsBlockRead_eq_some (whole : device.length = 512 * blocks) {b : Int} :
    (∃ block, tarfsBlockRead device b = some block) ↔ 0 ≤ b ∧ b < blocks := by
  unfold tarfsBlockRead
  split
  · rw [sbBread_eq_some whole]
    omega
  · constructor
    · rintro ⟨block, read⟩
      cases read
    · omega

theorem visit_of_none {name : List UInt8} {pos : DiskPosition}
    (filled : fillDiskPositionNextFile device junk pos = none) :
    visitName device junk name pos = .unreadable .failed := by
  rw [visitName, getNextFile, filled]

/-- A round steps to the next position, and goes on there or ends. -/
theorem visit_of_some {name : List UInt8} {pos next : DiskPosition}
    (filled : fillDiskPositionNextFile device junk pos = some next) :
    visitName device junk name pos = .last next.position .failed ∨
      visitName device junk name pos = .last next.position .found ∨
      visitName device junk name pos = .more next.position next := by
  rw [visitName, getNextFile, filled]
  simp only []
  by_cases ends : cstr (getTarField next 0 100 ++ junk.behind) = []
  · simp [ends]
  · by_cases same : dropSlash (cstr (getTarField next 0 100 ++ junk.behind)) = name
    · simp [ends, same]
    · simp [ends, same]

theorem visit_more {name : List UInt8} {pos next : DiskPosition} {p : Int}
    (round : visitName device junk name pos = .more p next) :
    fillDiskPositionNextFile device junk pos = some next ∧ p = next.position := by
  cases filled : fillDiskPositionNextFile device junk pos with
  | none =>
      rw [visit_of_none filled] at round
      cases round
  | some next' =>
      rcases @visit_of_some device junk name pos next' filled with last | found | more
      · rw [last] at round
        cases round
      · rw [found] at round
        cases round
      · rw [more] at round
        cases round
        exact ⟨rfl, rfl⟩

theorem visit_position {name : List UInt8} {pos : DiskPosition} {p : Int} :
    (visitName device junk name pos).position? = some p ↔
      ∃ next, fillDiskPositionNextFile device junk pos = some next ∧ p = next.position := by
  cases filled : fillDiskPositionNextFile device junk pos with
  | none => simp [visit_of_none filled, Visit.position?]
  | some next =>
      have position : (visitName device junk name pos).position? = some next.position := by
        rcases @visit_of_some device junk name pos next filled with last | found | more
        · rw [last]
          rfl
        · rw [found]
          rfl
        · rw [more]
          rfl
      rw [position]
      simp [eq_comm]

/-- A round that goes on does so at a header. -/
theorem standing_of_round {name : List UInt8} {pos next : DiskPosition} {p : Int}
    (from_ : pos = initDiskPosition ∨ ∃ b, b < 2147483648 ∧ Standing device b pos)
    (round : visitName device junk name pos = .more p next) :
    ∃ b, b < 2147483648 ∧ Standing device b next := by
  have filled := (visit_more round).1
  rcases from_ with rfl | ⟨b, _, standing⟩
  · rw [fillDiskPositionNextFile, initDiskPosition, if_pos rfl, Option.map_eq_some_iff] at filled
    obtain ⟨block, read, rfl⟩ := filled
    exact ⟨0, by decide, block, read, rfl⟩
  · rw [fill_standing standing, Option.map_eq_some_iff] at filled
    obtain ⟨block, read, rfl⟩ := filled
    exact ⟨_, by unfold int32; omega, block, read, rfl⟩

/-- The positions from which a scan goes on: before the first header, or at a header. -/
theorem visits_standing {name : List UInt8} {pos : DiskPosition}
    (visited : Visits (visitName device junk name) initDiskPosition pos) :
    pos = initDiskPosition ∨ ∃ b, b < 2147483648 ∧ Standing device b pos := by
  induction visited with
  | start => exact .inl rfl
  | next _ round inductionHypothesis => exact .inr (standing_of_round inductionHypothesis round)

theorem visits_visitAll {name : List UInt8} {pos : DiskPosition}
    (visited : Visits (visitName device junk name) initDiskPosition pos) :
    Visits (visitAll device junk) initDiskPosition pos := by
  have more {pos next : DiskPosition} {p : Int} (round : visitName device junk name pos = .more p next) :
      visitAll device junk pos = .more p next := by
    unfold visitName at round
    unfold visitAll
    split at round
    · cases round
    · cases round
    · split at round
      · cases round
      · exact round
  induction visited with
  | start => exact .start
  | next _ round inductionHypothesis => exact .next inductionHypothesis (more round)

theorem visitAll_eq_visitName : visitAll device junk = visitName device junk [0] := by
  funext pos
  unfold visitAll visitName
  cases next : getNextFile device junk pos with
  | blockError => rfl
  | tarEnd next => rfl
  | file name next' =>
      have other : name ≠ [0] := by
        unfold getNextFile at next
        split at next
        · cases next
        · simp only [] at next
          split at next
          · cases next
          · cases next
            intro same
            exact plain_dropSlash (plain_cstr _) 0 (by rw [same]; simp) rfl
      simp only [other, if_false]

theorem insideDevice (whole : device.length = 512 * blocks) (name : List UInt8) :
    InsideDevice (visitName device junk name) initDiskPosition blocks := by
  intro pos p visited position
  obtain ⟨next, filled, rfl⟩ := visit_position.mp position
  rcases visits_standing visited with rfl | ⟨b, _, standing⟩
  · rw [fillDiskPositionNextFile, initDiskPosition, if_pos rfl, Option.map_eq_some_iff] at filled
    obtain ⟨block, read, rfl⟩ := filled
    have inside := (tarfsBlockRead_eq_some whole).mp ⟨block, read⟩
    exact ⟨0, rfl, by omega⟩
  · rw [fill_standing standing, Option.map_eq_some_iff] at filled
    obtain ⟨block, read, rfl⟩ := filled
    have inside := (tarfsBlockRead_eq_some whole).mp ⟨block, read⟩
    refine ⟨(int32 (b + blockStep (getSize junk pos))).toNat, ?_, by omega⟩
    simp only [DiskPosition.position]
    omega

/-- Every ending is reported. -/
theorem reported_of_ending {name : List UInt8} {pos : DiskPosition} {e : Ending}
    (ends : (visitName device junk name pos).ending? = some e) : e.Reported := by
  cases filled : fillDiskPositionNextFile device junk pos with
  | none =>
      rw [visit_of_none filled] at ends
      cases ends
      simp [Ending.Reported]
  | some next =>
      rcases @visit_of_some device junk name pos next filled with last | found | more
      · rw [last] at ends
        cases ends
        simp [Ending.Reported]
      · rw [found] at ends
        cases ends
        simp [Ending.Reported]
      · rw [more] at ends
        cases ends

theorem blockStep_pos_iff {size : Int} (low : -2147483648 ≤ size) (high : size < 2147483648) :
    0 < blockStep size ↔ -512 ≤ size ∧ size < 2147482624 := by
  rw [blockStep_eq low high]
  split
  · omega
  · split <;> omega

theorem blockStep_bounds {size : Int} (low : -2147483648 ≤ size) (high : size < 2147483648) :
    -8388608 < blockStep size ∧ blockStep size < 4194304 := by
  rw [blockStep_eq low high]
  split
  · omega
  · split <;> omega

/-- Stepping forward from a header: the next one is behind it, or outside the device. -/
theorem forward_iff (whole : device.length = 512 * blocks) {name : List UInt8} {b : Int}
    (small : b < 2147483648) {pos : DiskPosition} (standing : Standing device b pos) :
    (∀ p', (visitName device junk name pos).position? = some p' → pos.position < p') ↔
      (-512 ≤ getSize junk pos ∧ getSize junk pos < 2147482624) ∨
        pos.firstBlockNo + blockStep (getSize junk pos) < 0 := by
  obtain ⟨low, high⟩ := @getSize_range junk pos
  have bounds := blockStep_bounds low high
  have here : 0 ≤ b ∧ b < blocks := by
    obtain ⟨block, read, _⟩ := standing
    exact (tarfsBlockRead_eq_some whole).mp ⟨block, read⟩
  have number : pos.firstBlockNo = b := by
    obtain ⟨block, _, rfl⟩ := standing
    rfl
  have position : pos.position = 512 * b := by
    obtain ⟨block, _, rfl⟩ := standing
    simp only [DiskPosition.position]
    omega
  rw [← blockStep_pos_iff low high, number, position]
  constructor
  · intro behind
    by_contra back
    have back : blockStep (getSize junk pos) ≤ 0 ∧ 0 ≤ b + blockStep (getSize junk pos) := by omega
    have same : int32 (b + blockStep (getSize junk pos)) = b + blockStep (getSize junk pos) :=
      int32_of_range (by omega) (by omega)
    obtain ⟨block, read⟩ := (tarfsBlockRead_eq_some whole).mpr
      (show 0 ≤ b + blockStep (getSize junk pos) ∧ b + blockStep (getSize junk pos) < blocks by omega)
    have less := behind (512 * (b + blockStep (getSize junk pos))) (visit_position.mpr
      ⟨⟨block, b + blockStep (getSize junk pos), 0, 0⟩, by
        rw [fill_standing standing, same, read]
        rfl, by
        simp only [DiskPosition.position]
        omega⟩)
    omega
  · intro forward p' read
    obtain ⟨next, filled, rfl⟩ := visit_position.mp read
    rw [fill_standing standing, Option.map_eq_some_iff] at filled
    obtain ⟨block, readable, rfl⟩ := filled
    have inside := (tarfsBlockRead_eq_some whole).mp ⟨block, readable⟩
    simp only [DiskPosition.position]
    unfold int32 at inside ⊢
    omega

theorem generic_of_stepsForward (whole : device.length = 512 * blocks)
    (forward : StepsForward device junk) (name : List UInt8) :
    Tar.StepsForward (visitName device junk name) initDiskPosition := by
  intro pos visited
  refine ⟨fun e ends => reported_of_ending ends, ?_⟩
  intro p next p' round read
  rw [(visit_more round).2]
  obtain ⟨b, small, standing⟩ := standing_of_round (visits_standing visited) round
  have notInit : next.lastFillBufferIndex ≠ -1 := by
    obtain ⟨block, _, rfl⟩ := standing
    exact (by decide : (0 : Int) ≠ -1)
  exact (@forward_iff device blocks junk whole name b small next standing).mpr
    (forward next (visits_visitAll (.next visited round)) notInit) p' read

theorem stepsForward_of_generic (whole : device.length = 512 * blocks)
    (generic : Tar.StepsForward (visitAll device junk) initDiskPosition) : StepsForward device junk := by
  intro pos visited standing
  rw [visitAll_eq_visitName] at generic visited
  cases visited with
  | start => exact absurd rfl standing
  | @next before _ p visited round =>
      obtain ⟨b, small, standing'⟩ := standing_of_round (visits_standing visited) round
      apply (@forward_iff device blocks junk whole [0] b small pos standing').mp
      intro p' read
      have less := (generic before visited).2 p pos p' round read
      rwa [(visit_more round).2] at less

theorem keepsInside_iff :
    (∀ name, KeepsInside (visitName device junk name) initDiskPosition
        fun pos => (fillDiskPositionNextFile device junk pos).all (nameInside junk)) ↔
      NamesFit device junk := by
  constructor
  · intro keeps pos next visited filled
    rw [visitAll_eq_visitName] at visited
    have position := (@visit_position device junk [0] pos _).mpr ⟨next, filled, rfl⟩
    have inside : (fillDiskPositionNextFile device junk pos).all (nameInside junk) :=
      keeps [0] pos visited (by rw [position]; rfl)
    rwa [filled] at inside
  · intro fit name pos visited reads
    obtain ⟨p, position⟩ := Option.isSome_iff_exists.mp reads
    obtain ⟨next, filled, _⟩ := visit_position.mp position
    show (fillDiskPositionNextFile device junk pos).all (nameInside junk)
    rw [filled]
    exact fit pos next (visits_visitAll visited) filled

/-- The loops of the driver end well exactly when `tarfs_readdir` steps forward and the names fit. -/
theorem ends_iff (whole : device.length = 512 * blocks) :
    (EndsWell blocks (scan (visitAllWithin device junk) (blocks + 1) initDiskPosition) ∧
        ∀ name, EndsWell blocks
          (scan (visitNameWithin device junk name) (blocks + 1) initDiskPosition)) ↔
      StepsForward device junk ∧ NamesFit device junk := by
  have all : visitAllWithin device junk = visitNameWithin device junk [0] := by
    funext pos
    rw [visitAllWithin, visitNameWithin, visitAll_eq_visitName]
  have each (name : List UInt8) :
      EndsWell blocks (scan (visitNameWithin device junk name) (blocks + 1) initDiskPosition) ↔ _ :=
    endsWell_within_iff (insideDevice whole name)
  constructor
  · rintro ⟨-, names⟩
    have generic := ((each [0]).mp (names [0])).1
    rw [← visitAll_eq_visitName] at generic
    exact ⟨stepsForward_of_generic whole generic,
      keepsInside_iff.mp fun name => ((each name).mp (names name)).2⟩
  · rintro ⟨forward, fit⟩
    have ends (name : List UInt8) := (each name).mpr
      ⟨generic_of_stepsForward whole forward name, keepsInside_iff.mpr fit name⟩
    refine ⟨?_, ends⟩
    rw [all]
    exact ends [0]

end Aboyaritsev

/-! ### afedosenko -/

namespace Afedosenko

variable {blocksize : Nat} {isNew : Nat → Bool} {path : List UInt8}

/-- The padded size, by the size rounded down to whole blocks.  An empty file has none; from
    `2 ^ 31 - 512` on it does not fit in an `int`. -/
theorem paddedSize_eq {filesize : Int} (low : -2147483648 ≤ filesize) (high : filesize < 2147483648) :
    paddedSize filesize = if filesize = 0 then 0
      else if filesize / 512 + 1 < 4194304 then 512 * (filesize / 512 + 1)
      else 512 * (filesize / 512 + 1) - 4294967296 := by
  unfold paddedSize wrap64 int32
  split <;> split <;> (try split) <;> omega

theorem paddedSize_pos_iff {filesize : Int} (low : -2147483648 ≤ filesize)
    (high : filesize < 2147483648) :
    0 < 512 + paddedSize filesize ↔ -512 ≤ filesize ∧ filesize < 2147483136 := by
  rw [paddedSize_eq low high]
  split
  · omega
  · split <;> omega

theorem paddedSize_bounds {filesize : Int} (low : -2147483648 ≤ filesize)
    (high : filesize < 2147483648) :
    -4294967296 < paddedSize filesize ∧ paddedSize filesize < 2147483648 ∧
      paddedSize filesize % 512 = 0 := by
  rw [paddedSize_eq low high]
  split
  · omega
  · split <;> omega

theorem filesizeAt_range (seek : Nat) :
    -2147483648 ≤ filesizeAt device blocksize junk seek ∧
      filesizeAt device blocksize junk seek < 2147483648 := by
  unfold filesizeAt int32
  omega

/-- The block that holds the position can be read. -/
def Readable (device : List UInt8) (blocksize seek : Nat) : Prop :=
  (seek / blocksize + 1) * blocksize ≤ device.length

theorem end_of_readable (positive : 0 < blocksize) (units : 512 ∣ blocksize) {seek : Nat}
    (aligned : 512 ∣ seek) (readable : Readable device blocksize seek) : seek + 512 ≤ device.length := by
  have fits := (range_inside_block positive units aligned).1
  have split := Nat.div_add_mod seek blocksize
  unfold Readable at readable
  rw [Nat.add_mul, Nat.one_mul, Nat.mul_comm] at readable
  omega

theorem header_length (positive : 0 < blocksize) (units : 512 ∣ blocksize)
    (small : device.length < 9223372036854775808) {seek : Nat} (aligned : 512 ∣ seek) :
    ¬(tfsReadBlock device blocksize 512 seek).length < 512 ↔ Readable device blocksize seek := by
  by_cases readable : Readable device blocksize seek
  · have inside := end_of_readable positive units aligned readable
    rw [tfsReadBlock_aligned positive units aligned readable (by omega)]
    simp only [List.length_take, List.length_drop, readable, iff_true]
    omega
  · have empty : tfsReadBlock device blocksize 512 seek = [] := by
      unfold Readable at readable
      rw [tfsReadBlock, sbBread, if_neg readable]
    simp [empty, readable]

/-- The position of the next header. -/
def nextSeek (device : List UInt8) (blocksize : Nat) (junk : Junk) (seek : Nat) : Nat :=
  wrap64 (seek + (512 + wrap64 (paddedSize (filesizeAt device blocksize junk seek)) : Nat))

theorem nextSeek_eq (seek : Nat) :
    (nextSeek device blocksize junk seek : Int) =
      ((seek : Int) + 512 + paddedSize (filesizeAt device blocksize junk seek)) %
        18446744073709551616 := by
  unfold nextSeek wrap64
  omega

/-- A field is copied inside `mem` exactly if it has a zero byte. -/
theorem getLongField_isSome {header : List UInt8} {offset length : Nat}
    (inside : offset + length ≤ header.length) :
    (getLongField junk (header ++ [0]) offset length).isSome ↔ FieldEnds header offset length := by
  have reach : ((header ++ [0]).drop offset).take length = (header.drop offset).take length := by
    rw [List.drop_append_of_le_length (by omega), List.take_append_of_le_length (by
      rw [List.length_drop]
      omega)]
  have fits : (cstr ((header ++ [0]).drop offset)).length < length ↔ FieldEnds header offset length := by
    rw [length_cstr_lt (by simp; omega), reach]
    rfl
  rw [← fits, getLongField]
  split
  · rename_i room
    exact ⟨fun _ => room, fun _ => rfl⟩
  · rename_i runs
    constructor
    · intro none
      cases none
    · intro room
      exact absurd room runs

theorem fillsInode_iff {header : List UInt8} (long : 512 ≤ header.length) :
    fillsInode junk (header ++ [0]) ↔ ∀ field ∈ inodeFields, FieldEnds header field.1 field.2 := by
  have places : ∀ field ∈ inodeFields, field.1 + field.2 ≤ 512 := by decide
  rw [fillsInode, List.all_eq_true]
  constructor
  · intro all field member
    exact (getLongField_isSome (Nat.le_trans (places field member) long)).mp (all field member)
  · intro all field member
    exact (getLongField_isSome (Nat.le_trans (places field member) long)).mpr (all field member)

/-- A round that reads a header whose size field does not end. -/
theorem visit_of_runs {s : State} (long : ¬(tfsReadBlock device blocksize 512 s.seek).length < 512)
    (runs : ¬FieldEnds (tfsReadBlock device blocksize 512 s.seek) 124 12) :
    visit device blocksize junk isNew path s = .last s.seek .overrun := by
  have none : getLongField junk (tfsReadBlock device blocksize 512 s.seek ++ [0]) 124 12 = none := by
    rw [← Option.not_isSome_iff_eq_none, getLongField_isSome (by omega)]
    exact runs
  rw [visit]
  simp only [long, if_false, none]

/-- A round that reads a header whose size field ends. -/
theorem visit_of_ends {s : State} (long : ¬(tfsReadBlock device blocksize 512 s.seek).length < 512)
    (ends : FieldEnds (tfsReadBlock device blocksize 512 s.seek) 124 12) :
    visit device blocksize junk isNew path s =
      if dropSlash (getName (tfsReadBlock device blocksize 512 s.seek ++ [0])) = path then
        .last s.seek (if isNew (s.number + 1) ∧
          ¬fillsInode junk (tfsReadBlock device blocksize 512 s.seek ++ [0]) then .overrun else .found)
      else .more s.seek ⟨nextSeek device blocksize junk s.seek, s.number + 1⟩ := by
  have fits : (cstr ((tfsReadBlock device blocksize 512 s.seek ++ [0]).drop 124)).length + 1 ≤ 12 := by
    have some := (@getLongField_isSome junk _ 124 12 (by omega)).mpr ends
    rw [getLongField] at some
    by_contra runs
    rw [if_neg runs] at some
    cases some
  rw [visit]
  simp only [long, if_false, getLongField, fits, if_true]
  rfl

theorem visit_more {s next : State} {p : Int}
    (round : visit device blocksize junk isNew path s = .more p next) :
    ¬(tfsReadBlock device blocksize 512 s.seek).length < 512 ∧ p = s.seek ∧
      next.seek = nextSeek device blocksize junk s.seek := by
  by_cases long : ¬(tfsReadBlock device blocksize 512 s.seek).length < 512
  · by_cases ends : FieldEnds (tfsReadBlock device blocksize 512 s.seek) 124 12
    · rw [visit_of_ends long ends] at round
      split at round
      · cases round
      · cases round
        exact ⟨long, rfl, rfl⟩
    · rw [visit_of_runs long ends] at round
      cases round
  · rw [visit, if_pos (not_not.mp long)] at round
    cases round

theorem visit_position {s : State} {p : Int} :
    (visit device blocksize junk isNew path s).position? = some p ↔
      ¬(tfsReadBlock device blocksize 512 s.seek).length < 512 ∧ p = s.seek := by
  by_cases long : ¬(tfsReadBlock device blocksize 512 s.seek).length < 512
  · have position : (visit device blocksize junk isNew path s).position? = some (s.seek : Int) := by
      by_cases ends : FieldEnds (tfsReadBlock device blocksize 512 s.seek) 124 12
      · rw [visit_of_ends long ends]
        split <;> rfl
      · rw [visit_of_runs long ends]
        rfl
    rw [position]
    simp [long, eq_comm]
  · rw [visit, if_pos (not_not.mp long)]
    simp [Visit.position?, long]

theorem visits_aligned {s : State} (visited : Visits (visit device blocksize junk isNew path) ⟨0, 0⟩ s) :
    512 ∣ s.seek := by
  induction visited with
  | start => exact Nat.dvd_zero 512
  | @next s next p _ round inductionHypothesis =>
      obtain ⟨low, high⟩ := @filesizeAt_range device junk blocksize s.seek
      have bounds := paddedSize_bounds low high
      have here := @nextSeek_eq device junk blocksize s.seek
      rw [(visit_more round).2.2]
      omega

theorem insideDevice (positive : 0 < blocksize) (units : 512 ∣ blocksize)
    (whole : device.length = 512 * blocks) (small : device.length < 9223372036854775808) :
    InsideDevice (visit device blocksize junk isNew path) ⟨0, 0⟩ blocks := by
  intro s p visited position
  obtain ⟨long, rfl⟩ := visit_position.mp position
  have aligned := visits_aligned visited
  have inside := end_of_readable positive units aligned ((header_length positive units small aligned).mp long)
  exact ⟨s.seek / 512, by omega, by omega⟩

theorem readable_of_le {seek seek' : Nat} (le : seek' ≤ seek) (readable : Readable device blocksize seek) :
    Readable device blocksize seek' := by
  unfold Readable at *
  have : (seek' / blocksize + 1) * blocksize ≤ (seek / blocksize + 1) * blocksize :=
    Nat.mul_le_mul_right _ (Nat.succ_le_succ (Nat.div_le_div_right le))
  omega

theorem forward_iff (positive : 0 < blocksize) (units : 512 ∣ blocksize)
    (small : device.length < 9223372036854775808) {s next : State} {p : Int}
    (visited : Visits (visit device blocksize junk isNew path) ⟨0, 0⟩ s)
    (round : visit device blocksize junk isNew path s = .more p next) :
    (∀ p', (visit device blocksize junk isNew path next).position? = some p' → p < p') ↔
      (-512 ≤ filesizeAt device blocksize junk s.seek ∧
          filesizeAt device blocksize junk s.seek < 2147483136) ∨
        (s.seek : Int) + 512 + paddedSize (filesizeAt device blocksize junk s.seek) < 0 := by
  obtain ⟨low, high⟩ := @filesizeAt_range device junk blocksize s.seek
  have bounds := paddedSize_bounds low high
  have here := @nextSeek_eq device junk blocksize s.seek
  have aligned := visits_aligned visited
  have aligned' := visits_aligned (.next visited round)
  obtain ⟨long, rfl, seek⟩ := visit_more round
  have readable := (header_length positive units small aligned).mp long
  have inside := end_of_readable positive units aligned readable
  rw [← paddedSize_pos_iff low high]
  constructor
  · intro behind
    by_contra back
    have less : nextSeek device blocksize junk s.seek ≤ s.seek := by omega
    have long' : ¬(tfsReadBlock device blocksize 512 next.seek).length < 512 := by
      rw [header_length positive units small aligned', seek]
      exact readable_of_le less readable
    have := behind next.seek (visit_position.mpr ⟨long', rfl⟩)
    omega
  · intro forward p' position
    obtain ⟨long', rfl⟩ := visit_position.mp position
    have inside' := end_of_readable positive units aligned'
      ((header_length positive units small aligned').mp long')
    omega

/-- The loop of `tfs_lookup` steps forward, as a scan, when it does so by its headers. -/
theorem generic_iff (positive : 0 < blocksize) (units : 512 ∣ blocksize)
    (small : device.length < 9223372036854775808) :
    (∀ isNew path, Tar.StepsForward (visit device blocksize junk isNew path) ⟨0, 0⟩) ↔
      StepsForward device junk blocksize := by
  constructor
  · intro generic isNew path s visited header long
    obtain ⟨reported, further⟩ := generic isNew path s visited
    have ends : FieldEnds header 124 12 := by
      by_contra runs
      rw [visit_of_runs long runs] at reported
      exact (reported .overrun rfl).2.1 rfl
    have round := @visit_of_ends device junk blocksize isNew path s long ends
    refine ⟨ends, ?_⟩
    split
    · rename_i found
      rw [if_pos found] at round
      intro new
      rw [← fillsInode_iff (Nat.le_of_not_lt long)]
      by_contra runs
      rw [round, if_pos ⟨new, runs⟩] at reported
      exact (reported .overrun rfl).2.1 rfl
    · rename_i other
      rw [if_neg other] at round
      rw [← forward_iff positive units small visited round]
      intro p' position
      exact further _ _ p' round position
  · intro forward isNew path s visited
    constructor
    · intro e ended
      by_cases long : ¬(tfsReadBlock device blocksize 512 s.seek).length < 512
      · obtain ⟨ends, filled⟩ := forward isNew path s visited long
        rw [visit_of_ends long ends] at ended
        split at ended
        · rename_i found
          rw [if_pos found, ← fillsInode_iff (Nat.le_of_not_lt long)] at filled
          rw [if_neg fun runs => runs.2 (filled runs.1)] at ended
          cases ended
          simp [Ending.Reported]
        · cases ended
      · rw [visit, if_pos (not_not.mp long)] at ended
        cases ended
        simp [Ending.Reported]
    · intro p next p' round position
      apply (forward_iff positive units small visited round).mpr _ p' position
      have long := (visit_more round).1
      obtain ⟨ends, stepped⟩ := forward isNew path s visited long
      rw [visit_of_ends long ends] at round
      split at round
      · cases round
      · rename_i other
        rwa [if_neg other] at stepped

/-- The loop of `tfs_lookup` ends well, whatever it looks for, exactly when it steps forward and the
    names fit. -/
theorem ends_iff {before : UInt8} (positive : 0 < blocksize) (units : 512 ∣ blocksize)
    (whole : device.length = 512 * blocks) (small : device.length < 9223372036854775808) :
    (∀ isNew path, EndsWell blocks
        (scan (visitWithin device blocksize junk before isNew path) (blocks + 1) ⟨0, 0⟩)) ↔
      StepsForward device junk blocksize ∧ NamesFit device junk before blocksize := by
  have each (isNew : Nat → Bool) (path : List UInt8) :
      EndsWell blocks (scan (visitWithin device blocksize junk before isNew path) (blocks + 1) ⟨0, 0⟩) ↔
        _ := endsWell_within_iff (insideDevice positive units whole small)
  simp only [each, forall_and, generic_iff positive units small]
  apply and_congr_right
  intro _
  constructor
  · intro keeps isNew path s visited header long
    have position := (@visit_position device junk blocksize isNew path s _).mpr ⟨long, rfl⟩
    exact keeps isNew path s visited (by rw [position]; rfl)
  · intro fit isNew path s visited reads
    obtain ⟨p, position⟩ := Option.isSome_iff_exists.mp reads
    exact fit isNew path s visited (visit_position.mp position).1

end Afedosenko

/-! ### Archives -/

section Archives

variable {members : List Member} {behind : List UInt8} (small : offset members members.length < 1099511627776)

namespace Ksaltuk

include small

/-- In an archive `tarfs_readdir` comes to the headers of the members, and to its end. -/
theorem visits_image {i : Int} (visited : Visits (visitAll (image members behind) junk) 0 i) :
    ∃ k ≤ members.length, i = ((offset members k / 512 : Nat) : Int) := by
  refine visited.invariant (fun i => ∃ k ≤ members.length, i = ((offset members k / 512 : Nat) : Int))
    ⟨0, Nat.zero_le _, by simp [offset]⟩ ?_
  rintro _ p next ⟨k, le, rfl⟩ round
  rcases Nat.lt_or_eq_of_le le with inside | rfl
  · rw [visitAll, bread_header inside] at round
    simp only [head_header, if_false] at round
    cases round
    exact ⟨k + 1, inside, nextBlock_small small inside⟩
  · rw [visitAll, bread_end] at round
    cases round

theorem stepsForward_image (whole : (image members behind).length = 512 * blocks) :
    StepsForward (image members behind) blocks junk := by
  have length := @length_image members behind
  refine ⟨by omega, ?_⟩
  intro i block visited read nonzero
  obtain ⟨k, le, rfl⟩ := visits_image small visited
  rcases Nat.lt_or_eq_of_le le with inside | rfl
  · rw [bread_header inside] at read
    cases read
    have size : sizeOf junk members[k].header = members[k].size := by
      rw [sizeOf, readOctalInt_size, Member.int32_size]
    have next := offset_div_succ inside
    have reach : offset members (k + 1) ≤ offset members members.length := offset_mono inside
    rw [size, getBlocksCount_natCast]
    omega
  · rw [bread_end] at read
    cases read
    exact absurd rfl nonzero

theorem namesFit_image (short : ∀ m ∈ members, m.name.length < 100) :
    NamesFit (image members behind) junk := by
  intro i block visited read
  obtain ⟨k, le, rfl⟩ := visits_image small visited
  rw [nameInside, decide_eq_true_iff]
  rintro -
  rcases Nat.lt_or_eq_of_le le with inside | rfl
  · rw [bread_header inside] at read
    cases read
    have short := short _ (List.getElem_mem inside)
    obtain ⟨rest, split⟩ := members[k].header_name
    rw [split, List.append_assoc, cstr_padTo members[k].name_plain short]
    omega
  · rw [bread_end] at read
    cases read
    exact Nat.zero_le 100

end Ksaltuk

namespace Aboyaritsev

include small

/-- Its scan comes to the headers of the members, in which it stands when it steps on, and to the end. -/
theorem visits_image (notFull : ∀ m ∈ members, ¬(0 < m.size ∧ 512 ∣ m.size)) {pos : DiskPosition}
    (visited : Visits (visitAll (image members behind) junk) initDiskPosition pos) :
    ∃ k ≤ members.length, StepsTo members behind junk k pos ∧
      (pos.lastFillBufferIndex ≠ -1 → ∃ (m : Member) (b : Int), pos = ⟨m.header, b, 0, 0⟩) := by
  refine visited.invariant
    (fun pos => ∃ k ≤ members.length, StepsTo members behind junk k pos ∧
      (pos.lastFillBufferIndex ≠ -1 → ∃ (m : Member) (b : Int), pos = ⟨m.header, b, 0, 0⟩))
    ⟨0, Nat.zero_le _, stepsTo_init, fun other => absurd rfl other⟩ ?_
  rintro pos p next ⟨k, le, steps, -⟩ round
  rcases Nat.lt_or_eq_of_le le with inside | rfl
  · rw [visitAll_member inside steps] at round
    cases round
    exact ⟨k + 1, inside, stepsTo_succ small inside (notFull _ (List.getElem_mem inside)),
      fun _ => ⟨_, _, rfl⟩⟩
  · rw [visitAll_end steps] at round
    cases round

theorem stepsForward_image (notFull : ∀ m ∈ members, ¬(0 < m.size ∧ 512 ∣ m.size)) :
    StepsForward (image members behind) junk := by
  intro pos visited stands
  obtain ⟨-, -, -, header⟩ := visits_image small notFull visited
  obtain ⟨m, b, rfl⟩ := header stands
  have size := m.size_small
  left
  rw [getSize_header]
  omega

theorem namesFit_image (notFull : ∀ m ∈ members, ¬(0 < m.size ∧ 512 ∣ m.size))
    (short : ∀ m ∈ members, m.name.length < 100) : NamesFit (image members behind) junk := by
  intro pos next visited filled
  obtain ⟨k, le, steps, -⟩ := visits_image small notFull visited
  rw [StepsTo] at steps
  rw [nameInside, decide_eq_true_iff]
  rcases Nat.lt_or_eq_of_le le with inside | rfl
  · rw [tarfsBlockRead_header inside, filled] at steps
    cases steps
    have short := short _ (List.getElem_mem inside)
    rw [getTarField_name, cstr_padTo members[k].name_plain short]
    omega
  · rw [tarfsBlockRead_end, filled] at steps
    cases steps
    rw [name_zeroBlock]
    intro last
    cases last

end Aboyaritsev

namespace Afedosenko

variable {blocksize : Nat} (positive : 0 < blocksize) (units : 512 ∣ blocksize)
  (whole : blocksize ∣ (image members []).length)

theorem filesize_header (m : Member) :
    int32 ((scanSigned (48 :: cstr ((m.header ++ [0]).drop 124))).getD junk.value) = m.size := by
  have size := getLongField_size junk m
  rw [getLongField] at size
  split at size
  · rw [Option.some.inj size, m.int32_size]
  · cases size

theorem filesize_zeroBlock :
    int32 ((scanSigned (48 :: cstr ((zeroBlock ++ [0]).drop 124))).getD junk.value) = 0 := by
  have text : cstr ((zeroBlock ++ [0]).drop 124) = [] := by decide
  have number : scanSigned [48] = some 0 := by decide
  rw [text, number]
  rfl

theorem fieldEnds_header (m : Member) :
    FieldEnds m.header 124 12 ∧ ∀ field ∈ inodeFields, FieldEnds m.header field.1 field.2 := by
  have length : m.header.length = 512 := m.length_header
  refine ⟨?_, ?_⟩
  · rw [← @getLongField_isSome ⟨[], 0⟩ _ _ _ (by omega), getLongField_size]
    rfl
  · exact (@fillsInode_iff ⟨[], 0⟩ _ (by omega)).mp (fillsInode_header _ m)

theorem getName_header {m : Member} (short : m.name.length < 100) :
    getName (m.header ++ [0]) = m.namePrefix ++ m.name := by
  have length : m.header.length = 512 := m.length_header
  have first : cstr ((m.header ++ [0]).drop 345) = m.namePrefix := by
    obtain ⟨d, room⟩ : ∃ d, 155 - m.namePrefix.length + 12 = d + 1 := ⟨_, rfl⟩
    have field : (m.header ++ [0]).drop 345 = m.namePrefix ++ 0 :: (List.replicate d 0 ++ [0]) := by
      rw [List.drop_append_of_le_length (by omega), m.header_drop_prefix, padTo, padTo, List.nil_append,
        List.append_assoc, List.append_assoc, ← List.append_assoc (List.replicate _ _),
        List.replicate_append_replicate, List.length_nil, Nat.sub_zero, room, List.replicate_succ,
        List.cons_append]
    rw [field, cstr_append_zero m.namePrefix_plain]
  obtain ⟨rest, split⟩ := m.header_name
  rw [getName, first, split, List.append_assoc, cstr_padTo m.name_plain short]

include small positive units whole

/-- The loop of `tfs_lookup` comes to the headers of the members, to the end, and to what is behind the
    device. -/
theorem visits_image (notFull : ∀ m ∈ members, ¬(0 < m.size ∧ 512 ∣ m.size)) {isNew : Nat → Bool}
    {path : List UInt8} {s : State}
    (visited : Visits (visit (image members []) blocksize junk isNew path) ⟨0, 0⟩ s) :
    (∃ k ≤ members.length, s.seek = offset members k) ∨ s.seek = offset members members.length + 512 := by
  have length := @length_image members []
  rw [List.length_nil] at length
  refine visited.invariant
    (fun s => (∃ k ≤ members.length, s.seek = offset members k) ∨
      s.seek = offset members members.length + 512)
    (.inl ⟨0, Nat.zero_le _, by simp [offset]⟩) ?_
  rintro s p next (⟨k, le, here⟩ | behind) round
  · obtain ⟨-, -, seek⟩ := visit_more round
    rw [here, nextSeek, filesizeAt] at seek
    rcases Nat.lt_or_eq_of_le le with inside | rfl
    · rw [tfsReadBlock_header small positive units whole inside, filesize_header,
        ← Nat.cast_add, nextSeek_header small inside (notFull _ (List.getElem_mem inside))] at seek
      exact .inl ⟨k + 1, inside, seek⟩
    · have padded : wrap64 (paddedSize 0) = 0 := by decide
      rw [tfsReadBlock_end small positive units whole, filesize_zeroBlock, padded,
        ← Nat.cast_add, wrap64_of_range (by omega)] at seek
      exact .inr seek
  · have aligned : 512 ∣ s.seek := by
      rw [behind]
      exact Nat.dvd_add (offset_dvd _ _) (Nat.dvd_refl 512)
    obtain ⟨long, -⟩ := visit_more round
    have readable := (header_length positive units (by omega) aligned).mp long
    have reach := end_of_readable positive units aligned readable
    omega

theorem header_image (notFull : ∀ m ∈ members, ¬(0 < m.size ∧ 512 ∣ m.size)) {isNew : Nat → Bool}
    {path : List UInt8} {s : State}
    (visited : Visits (visit (image members []) blocksize junk isNew path) ⟨0, 0⟩ s)
    (long : ¬(tfsReadBlock (image members []) blocksize 512 s.seek).length < 512) :
    (∃ m ∈ members, tfsReadBlock (image members []) blocksize 512 s.seek = m.header) ∨
      tfsReadBlock (image members []) blocksize 512 s.seek = zeroBlock := by
  have length := @length_image members []
  rw [List.length_nil] at length
  rcases visits_image small positive units whole notFull visited with ⟨k, le, here⟩ | behind
  · rw [here]
    rcases Nat.lt_or_eq_of_le le with inside | rfl
    · exact .inl ⟨_, List.getElem_mem inside, tfsReadBlock_header small positive units whole inside⟩
    · exact .inr (tfsReadBlock_end small positive units whole)
  · have aligned : 512 ∣ s.seek := by
      rw [behind]
      exact Nat.dvd_add (offset_dvd _ _) (Nat.dvd_refl 512)
    have readable := (header_length positive units (by omega) aligned).mp long
    have reach := end_of_readable positive units aligned readable
    omega

theorem stepsForward_image (notFull : ∀ m ∈ members, ¬(0 < m.size ∧ 512 ∣ m.size)) :
    StepsForward (image members []) junk blocksize := by
  intro isNew path s visited header long
  rcases header_image small positive units whole notFull visited long with ⟨m, -, read⟩ | read
  · obtain ⟨ends, inodeEnds⟩ := fieldEnds_header m
    have size := m.size_small
    simp only [header, filesizeAt, read, filesize_header]
    refine ⟨ends, ?_⟩
    split
    · exact fun _ => inodeEnds
    · exact .inl ⟨by omega, by omega⟩
  · simp only [header, filesizeAt, read, filesize_zeroBlock]
    refine ⟨by unfold FieldEnds; decide, ?_⟩
    split
    · intro _
      unfold FieldEnds
      decide
    · exact .inl ⟨by decide, by decide⟩

theorem namesFit_image {before : UInt8} (notFull : ∀ m ∈ members, ¬(0 < m.size ∧ 512 ∣ m.size))
    (short : ∀ m ∈ members, m.name.length < 100) (room : ∀ m ∈ members, m.namePrefix.length + m.name.length ≤ 255)
    (noSlash : before ≠ slash) : NamesFit (image members []) junk before blocksize := by
  intro isNew path s visited header long
  rw [nameInside, decide_eq_true_iff]
  rcases header_image small positive units whole notFull visited long with ⟨m, member, read⟩ | read
  · have room := room m member
    rw [show header = m.header from read, getName_header (short m member), List.length_append]
    exact ⟨by omega, fun _ => noSlash⟩
  · have none : getName (zeroBlock ++ [0]) = [] := by decide
    rw [show header = zeroBlock from read, none]
    exact ⟨by decide, fun _ => noSlash⟩

end Afedosenko

end Archives

/-! ### All three -/

theorem length_shortFiles : (image shortFiles []).length = 512 * 4 := by
  rw [length_image]
  decide

/-- A header with the name `a` and the text `-1000` in its size field. -/
def negativeSize : List UInt8 :=
  97 :: (List.replicate 123 0 ++ ([45, 49, 48, 48, 48] ++ List.replicate 383 0))

theorem length_negativeSize : negativeSize.length = 512 * 1 := by
  simp only [negativeSize, List.length_cons, List.length_append, List.length_replicate]
  rfl

namespace Aboyaritsev

theorem visits_negativeSize :
    Visits (visitAll negativeSize ⟨[], 0⟩) initDiskPosition ⟨negativeSize, 0, 0, 0⟩ := by
  have read : tarfsBlockRead negativeSize 0 = some negativeSize := by
    have start : negativeSize.drop (0 * 512) = negativeSize ++ [] := by
      rw [Nat.zero_mul, List.drop_zero, List.append_nil]
    rw [tarfsBlockRead, if_pos (Int.le_refl 0)]
    exact sbBread_of_drop length_negativeSize start
  have filled : fillDiskPositionNextFile negativeSize ⟨[], 0⟩ initDiskPosition =
      some ⟨negativeSize, 0, 0, 0⟩ := by
    rw [fillDiskPositionNextFile, initDiskPosition, if_pos rfl, read]
    rfl
  have name : cstr (getTarField ⟨negativeSize, 0, 0, 0⟩ 0 100 ++ []) ≠ [] := by
    obtain ⟨more, first⟩ : ∃ more, getTarField ⟨negativeSize, 0, 0, 0⟩ 0 100 ++ [] = 97 :: more :=
      ⟨_, rfl⟩
    rw [first, cstr_cons (by decide)]
    simp
  apply Visits.next (p := 0) .start
  rw [visitAll, getNextFile, filled]
  simp only [name, if_false]
  rfl

theorem getSize_negativeSize : getSize ⟨[], 0⟩ ⟨negativeSize, 0, 0, 0⟩ = -1000 := by
  have field : getTarField ⟨negativeSize, 0, 0, 0⟩ 124 12 =
      [45, 49, 48, 48, 48] ++ 0 :: List.replicate 6 0 := by
    have front : (97 :: List.replicate 123 (0 : UInt8)).length = 124 := by
      rw [List.length_cons, List.length_replicate]
    have rest : negativeSize.drop 124 = [45, 49, 48, 48, 48] ++ List.replicate 383 0 := by
      rw [negativeSize, ← List.cons_append, List.drop_left' front]
    simp only [getTarField, Int.toNat_zero, Nat.zero_add, rest]
    rw [List.take_append, List.take_replicate]
    rfl
  have text : cstr ([45, 49, 48, 48, 48] ++ 0 :: List.replicate 6 0 ++ []) = [45, 49, 48, 48, 48] := by
    rw [List.append_nil]
    exact cstr_append_zero (by decide) _
  have number : scanSigned [45, 49, 48, 48, 48] = some (-1000) := by decide
  rw [getSize, field, text, number]
  exact int32_of_range (by decide) (by decide)

end Aboyaritsev

end Nfs4Compound.Tar
