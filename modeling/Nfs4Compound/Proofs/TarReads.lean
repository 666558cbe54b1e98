/-
Module: Nfs4Compound.Proofs.TarReads
Layer: Proofs
Purpose: What the reads of file data return: `tfs_read_block` of both drivers gives the bytes of the
  range up to the first unreadable block; `tfs_read` and `tarfs_read` give the bytes of the file there
  are, except for requests that ask for none of them or go to the end of the data.
Imports: Nfs4Compound.Tar.Reads, Nfs4Compound.Proofs.TarScan
Trusted boundary: none
Main exports: tfsReadBlockWith_reaches, byte_range_reads_agree, tfsReadBlockOn_header,
  Afedosenko.tfsRead_returns_file_iff, Ksaltuk.tarfsRead_returns_file_iff
-/
import Nfs4Compound.Tar.Reads
import Nfs4Compound.Proofs.TarScan

namespace Nfs4Compound.Tar

open CText

/-! ### Pieces and runs of blocks -/

section Blocks

variable {B : Nat} {disk : Disk UInt8 B}

/-- A piece of a block of the device. -/
theorem piece_bytes {offset count : Nat} (inside : offset + count ≤ B) (start : Nat) :
    piece (disk.bytes start B) offset count = some (disk.bytes (start + offset) count) := by
  rw [piece, if_pos (by simpa using inside), Disk.piece_bytes _ inside]

theorem store_empty (data : List UInt8) :
    (Buffer.holding []).store 0 data = Buffer.holding data :=
  Buffer.store_holding [] data

/-- The loop over the blocks in the middle stores a run of blocks behind what is there. -/
theorem copyBlocks_holding (rounds n : Nat) (data : List UInt8) :
    copyBlocks disk rounds n (Buffer.holding data) data.length =
      (Buffer.holding (data ++ (disk.run n rounds).1), (data ++ (disk.run n rounds).1).length,
        (disk.run n rounds).2) := by
  induction rounds generalizing n data with
  | zero => simp [copyBlocks, Disk.run]
  | succ rounds inductionHypothesis =>
      cases readable : disk.readable n with
      | false => simp [copyBlocks, Disk.run, Disk.bread_unreadable readable]
      | true =>
          have length : data.length + B = (data ++ disk.bytes (n * B) B).length := by simp
          rw [copyBlocks, Disk.run, Disk.bread_readable readable]
          simp only [Buffer.store_holding]
          rw [length, inductionHypothesis (n + 1) (data ++ disk.bytes (n * B) B), List.append_assoc]

/-- If it starts with a range that ends where the run begins, it ends with a longer range. -/
theorem copyBlocks_readable {rounds n start length : Nat} (meets : start + length = n * B)
    (readable : ∀ k < rounds, disk.readable (n + k) = true) :
    copyBlocks disk rounds n (Buffer.holding (disk.bytes start length)) length =
      (Buffer.holding (disk.bytes start (length + rounds * B)), length + rounds * B, true) := by
  have stored := @copyBlocks_holding B disk rounds n (disk.bytes start length)
  rw [Disk.run_readable readable, ← meets, ← Disk.bytes_append] at stored
  simpa using stored

theorem copyBlocks_unreadable {rounds n start length j : Nat} (meets : start + length = n * B)
    (inside : j < rounds) (readable : ∀ k < j, disk.readable (n + k) = true)
    (unreadable : disk.readable (n + j) = false) :
    copyBlocks disk rounds n (Buffer.holding (disk.bytes start length)) length =
      (Buffer.holding (disk.bytes start (length + j * B)), length + j * B, false) := by
  have stored := @copyBlocks_holding B disk rounds n (disk.bytes start length)
  rw [Disk.run_unreadable inside readable unreadable, ← meets, ← Disk.bytes_append] at stored
  simpa using stored

/-- What the loop over the blocks in the middle finds filled stays filled. -/
theorem isSome_copyBlocks {buffer : Buffer UInt8} {i : Nat} (filled : (buffer i).isSome)
    (rounds n seek : Nat) : ((copyBlocks disk rounds n buffer seek).1 i).isSome := by
  induction rounds generalizing n buffer seek with
  | zero => exact filled
  | succ rounds inductionHypothesis =>
      rw [copyBlocks]
      cases disk.bread n with
      | none => exact filled
      | some block => exact inductionHypothesis (Buffer.isSome_store filled seek block) _ _

end Blocks

/-! ### `tfs_read_block` -/

section ReadBlock

variable {B : Nat} {disk : Disk UInt8 B} {lastLength : Nat → Nat → Nat} {size start m : Nat}

/-- The numbers of the first and the last block give the number of blocks. -/
theorem blocks_count {first last : Nat} (order : first ≤ last) (small : last < 18446744073709551615) :
    wrap64 ((last : Int) - first + 1) = last - first + 1 := by
  have same : (last : Int) - first + 1 = ((last - first + 1 : Nat) : Int) := by omega
  rw [same, wrap64_of_range (by omega)]

/-- How many blocks lie between the first and the last one. -/
theorem middle_count {first last : Nat} (order : first < last) (small : last < 18446744073709551615) :
    wrap64 (((last - first + 1 : Nat) : Int) - 1) - 1 = last - (first + 1) := by
  have same : ((last - first + 1 : Nat) : Int) - 1 = ((last - first : Nat) : Int) := by omega
  rw [same, wrap64_of_range (by omega)]
  omega

/-- The bytes of a range that lie before the first unreadable block are stored, whichever way the last
    length is computed, if it is right when everything before has been read. -/
theorem tfsReadBlockWith_reaches (positive : 0 < B) (nonempty : 0 < size)
    (fits : start + size < 18446744073709551616)
    (right : ∀ last, last = (start + size - 1) / B → start / B < last →
      lastLength last (last * B - start) = start + size - last * B)
    (reaches : disk.Reaches start size m) :
    tfsReadBlockWith disk lastLength size start = .stored (Buffer.holding (disk.bytes start m)) m := by
  have ending : wrap64 ((start : Int) + size - 1) = start + size - 1 := by
    have same : (start : Int) + size - 1 = ((start + size - 1 : Nat) : Int) := by omega
    rw [same, wrap64_of_range (by omega)]
  have begins : start / B * B + start % B = start := Nat.div_add_mod' start B
  have inBlock : start % B < B := Nat.mod_lt _ positive
  have within : start - start / B * B = start % B := by omega
  have lastBegins : (start + size - 1) / B * B ≤ start + size - 1 := Nat.div_mul_le_self _ _
  have lastEnds : start + size ≤ (start + size - 1) / B * B + B := by
    have := Nat.div_add_mod' (start + size - 1) B
    have := Nat.mod_lt (start + size - 1) positive
    omega
  have order : start / B ≤ (start + size - 1) / B := Nat.div_le_div_right (by omega)
  have small : (start + size - 1) / B < 18446744073709551615 :=
    Nat.lt_of_le_of_lt (Nat.div_le_self _ _) (by omega)
  have unique : ∀ j, start / B ≤ j → j ≤ (start + size - 1) / B →
      (∀ k, start / B ≤ k → k < j → disk.readable k = true) → disk.readable j = false →
        m = j * B - start :=
    fun j low high before unreadable =>
      Disk.reaches_unique reaches (.inr ⟨j, low, high, before, unreadable, rfl⟩)
  have whole : (∀ k, start / B ≤ k → k ≤ (start + size - 1) / B → disk.readable k = true) → m = size :=
    fun all => Disk.reaches_unique reaches (.inl ⟨rfl, all⟩)
  unfold Disk.Reaches at reaches
  rw [tfsReadBlockWith]
  simp only [ending, blocks_count order small, within]
  specialize right _ rfl
  generalize (start + size - 1) / B = last at *
  generalize start / B = first at *
  cases firstReadable : disk.readable first with
  | false =>
      have none := unique first (Nat.le_refl _) order (fun k low less => by omega) firstReadable
      have : m = 0 := by omega
      rw [Disk.bread_unreadable firstReadable, this, Disk.bytes_zero]
  | true =>
      rw [Disk.bread_readable firstReadable]
      simp only []
      rcases Nat.eq_or_lt_of_le order with single | several
      · -- the range lies in one block
        have all : m = size := by
          apply whole
          intro k low high
          have : k = first := by omega
          rwa [this]
        have inside : start % B + size ≤ B := by
          rw [← single] at lastEnds
          omega
        rw [if_pos (by omega), piece_bytes inside, begins, all]
        simp only [store_empty]
      · have firstPart : (disk.bytes (first * B) B).drop (start % B) =
            disk.bytes start (B - start % B) := by
          rw [Disk.drop_bytes, begins]
        have meets : start + (B - start % B) = (first + 1) * B := by
          rw [Nat.succ_mul]
          omega
        -- where the buffer ends after blocks of the middle
        have upTo : ∀ j, first < j → B - start % B + (j - (first + 1)) * B = j * B - start := by
          intro j above
          have : (first + 1) * B + (j - (first + 1)) * B = j * B := by
            rw [← Nat.add_mul]
            congr 1
            omega
          omega
        rw [if_neg (by omega), middle_count several small, store_empty, firstPart]
        by_cases middle : ∀ k, first ≤ k → k < last → disk.readable k = true
        · rw [copyBlocks_readable meets (fun k inside => middle _ (by omega) (by omega)),
            upTo last several]
          simp only [if_true]
          cases lastReadable : disk.readable last with
          | false =>
              rw [Disk.bread_unreadable lastReadable,
                unique last order (Nat.le_refl _) middle lastReadable]
          | true =>
              have all : m = size := by
                apply whole
                intro k low high
                rcases Nat.eq_or_lt_of_le high with same | less
                · rwa [same]
                · exact middle k low less
              have startsBefore : start ≤ last * B := by
                have := upTo last several
                omega
              have lastInside : 0 + (start + size - last * B) ≤ B := by omega
              have joined := Buffer.store_holding (disk.bytes start (last * B - start))
                (disk.bytes (last * B) (start + size - last * B))
              rw [Disk.length_bytes, ← Disk.bytes_split disk startsBefore (by omega)] at joined
              have total : last * B - start + (start + size - last * B) = size := by omega
              rw [Disk.bread_readable lastReadable]
              simp only [right several, piece_bytes lastInside, Nat.add_zero, joined, total, all]
        · -- the first unreadable block is one in the middle
          obtain ⟨j, low, high, before, unreadable, here⟩ := reaches.resolve_left fun all =>
            middle fun k low less => all.2 k low (by omega)
          have above : first < j := by
            rcases Nat.eq_or_lt_of_le low with same | above
            · rw [← same, firstReadable] at unreadable
              cases unreadable
            · exact above
          have below : j < last := by
            by_contra beyond
            exact middle fun k low less => before k low (by omega)
          have next : first + 1 + (j - (first + 1)) = j := by omega
          rw [copyBlocks_unreadable meets (by omega : j - (first + 1) < last - (first + 1))
            (fun k inside => before _ (by omega) (by omega)) (by rwa [next]), upTo j above, here]
          simp

/-- Nothing is stored if the first block cannot be read. -/
theorem tfsReadBlockWith_unreadable (unreadable : disk.readable (start / B) = false) :
    tfsReadBlockWith disk lastLength size start = .stored (Buffer.holding []) 0 := by
  rw [tfsReadBlockWith, Disk.bread_unreadable unreadable]

/-- Something is stored if it can, unless no bytes are asked for and they are taken to lie in one
    block. -/
theorem tfsReadBlockWith_fills (positive : 0 < B) (readable : disk.readable (start / B) = true)
    (asked : 0 < size ∨
      wrap64 (((wrap64 ((start : Int) + size - 1) / B : Nat) : Int) - (start / B : Nat) + 1) ≠ 1)
    {buffer : Buffer UInt8} {count : Nat}
    (stored : tfsReadBlockWith disk lastLength size start = .stored buffer count) :
    (buffer 0).isSome := by
  rw [tfsReadBlockWith, Disk.bread_readable readable] at stored
  simp only [] at stored
  split at stored
  · rename_i single
    have some : 0 < size := asked.resolve_right fun other => other single
    unfold piece at stored
    split at stored
    · cases stored
    · rename_i data taken
      cases stored
      apply Buffer.isSome_store_first
      split at taken
      · rename_i inside
        cases taken
        apply List.ne_nil_of_length_pos
        rw [List.length_take, List.length_drop]
        omega
      · cases taken
  · have within : start - start / B * B < B := by
      have := Nat.div_add_mod' start B
      have := Nat.mod_lt start positive
      omega
    have begun : ((disk.bytes (start / B * B) B).drop (start - start / B * B)) ≠ [] := by
      apply List.ne_nil_of_length_pos
      rw [List.length_drop, Disk.length_bytes]
      omega
    have filled := @isSome_copyBlocks B disk _ 0
      (Buffer.isSome_store_first (Buffer.holding []) 0 begun)
    split at stored
    · split at stored
      · cases stored
        exact filled _ _ _
      · split at stored
        · cases stored
        · cases stored
          exact Buffer.isSome_store (filled _ _ _) _ _
    · cases stored
      exact filled _ _ _

/-- Both last lengths are what is left of the range. -/
theorem Pbelousov.tfsReadBlockOn_reaches (positive : 0 < B) (nonempty : 0 < size)
    (fits : start + size < 9223372036854775808) (reaches : disk.Reaches start size m) :
    Pbelousov.tfsReadBlockOn disk size start = .stored (Buffer.holding (disk.bytes start m)) m := by
  apply tfsReadBlockWith_reaches positive nonempty (by omega) _ reaches
  rintro last rfl -
  have := Nat.div_mul_le_self (start + size - 1) B
  have same : (size : Int) + start - ((start + size - 1) / B : Nat) * B =
      ((start + size - (start + size - 1) / B * B : Nat) : Int) := by
    rw [← Int.natCast_mul]
    omega
  rw [same, wrap64_of_range (by omega)]

theorem Afedosenko.tfsReadBlockOn_reaches (positive : 0 < B) (nonempty : 0 < size)
    (fits : start + size < 9223372036854775808) (reaches : disk.Reaches start size m) :
    Afedosenko.tfsReadBlockOn disk size start = .stored (Buffer.holding (disk.bytes start m)) m := by
  apply tfsReadBlockWith_reaches positive nonempty (by omega) _ reaches
  rintro last rfl several
  have := Nat.div_mul_le_self (start + size - 1) B
  have before : start ≤ (start + size - 1) / B * B := by
    have := Nat.div_add_mod' start B
    have := Nat.mod_lt start positive
    have := Nat.mul_le_mul_right B several
    rw [Nat.succ_mul] at this
    omega
  have same : (size : Int) - ((start + size - 1) / B * B - start : Nat) =
      ((start + size - (start + size - 1) / B * B : Nat) : Int) := by omega
  rw [same, wrap64_of_range (by omega)]

/-- Both versions of `tfs_read_block` store the same bytes and return the same count: the whole range
    if all its blocks can be read, else what lies before the first that cannot, and never more than
    `size` bytes. -/
theorem byte_range_reads_agree (disk : Disk UInt8 B) (positive : 0 < B) (nonempty : 0 < size)
    (fits : start + size < 9223372036854775808) :
    Pbelousov.tfsReadBlockOn disk size start = Afedosenko.tfsReadBlockOn disk size start ∧
      ((∀ k, start / B ≤ k → k ≤ (start + size - 1) / B → disk.readable k = true) →
        Afedosenko.tfsReadBlockOn disk size start =
          .stored (Buffer.holding (disk.bytes start size)) size) ∧
      (∀ j, start / B ≤ j → j ≤ (start + size - 1) / B →
        (∀ k, start / B ≤ k → k < j → disk.readable k = true) → disk.readable j = false →
        Afedosenko.tfsReadBlockOn disk size start =
          .stored (Buffer.holding (disk.bytes start (j * B - start))) (j * B - start)) ∧
      ∃ buffer count, Afedosenko.tfsReadBlockOn disk size start = .stored buffer count ∧
        count ≤ size ∧ ∀ i, size ≤ i → buffer i = none := by
  obtain ⟨m, reaches⟩ := disk.exists_reaches start size
  have read := Afedosenko.tfsReadBlockOn_reaches positive nonempty fits reaches
  constructor
  · rw [read, Pbelousov.tfsReadBlockOn_reaches positive nonempty fits reaches]
  · constructor
    · intro all
      exact Afedosenko.tfsReadBlockOn_reaches positive nonempty fits (.inl ⟨rfl, all⟩)
    · constructor
      · intro j low high before unreadable
        exact Afedosenko.tfsReadBlockOn_reaches positive nonempty fits
          (.inr ⟨j, low, high, before, unreadable, rfl⟩)
      · have inside := Disk.reaches_le nonempty reaches
        refine ⟨_, m, read, inside, ?_⟩
        intro i beyond
        apply Buffer.holding_beyond
        rw [Disk.length_bytes]
        omega

end ReadBlock

/-! ### The reads of the header scans -/

section Headers

variable {B start : Nat}

/-- Reading a header from a device with the given contents is what the scans take it for. -/
theorem tfsReadBlockOn_header (device : List UInt8) (positive : 0 < B) (units : 512 ∣ B)
    (aligned : 512 ∣ start) (fits : start + 512 < 9223372036854775808) :
    Afedosenko.tfsReadBlockOn (Disk.ofImage device B) 512 start =
        .stored (Buffer.holding (Afedosenko.tfsReadBlock device B 512 start))
          (Afedosenko.tfsReadBlock device B 512 start).length ∧
      Pbelousov.tfsReadBlockOn (Disk.ofImage device B) 512 start =
        .stored (Buffer.holding (Pbelousov.tfsReadBlock device B 512 start))
          (Pbelousov.tfsReadBlock device B 512 start).length := by
  obtain ⟨inside, single⟩ := range_inside_block positive units aligned
  have begins := Nat.div_add_mod' start B
  by_cases readable : (start / B + 1) * B ≤ device.length
  · have reach : start + 512 ≤ device.length := by
      rw [Nat.succ_mul] at readable
      omega
    have whole : (Disk.ofImage device B).Reaches start 512 512 := by
      refine .inl ⟨rfl, ?_⟩
      intro k low high
      have here : k = start / B := by omega
      rw [here]
      exact decide_eq_true readable
    have length : ((device.drop start).take 512).length = 512 := by
      rw [List.length_take, List.length_drop]
      omega
    rw [Afedosenko.tfsReadBlockOn_reaches positive (by decide) fits whole,
      Pbelousov.tfsReadBlockOn_reaches positive (by decide) fits whole,
      Afedosenko.tfsReadBlock_aligned positive units aligned readable (by omega),
      Pbelousov.tfsReadBlock_aligned positive units aligned readable (by omega),
      Disk.bytes_ofImage reach, length]
    exact ⟨rfl, rfl⟩
  · have unreadable : (Disk.ofImage device B).readable (start / B) = false := decide_eq_false readable
    rw [Afedosenko.tfsReadBlockOn, Pbelousov.tfsReadBlockOn, tfsReadBlockWith_unreadable unreadable,
      tfsReadBlockWith_unreadable unreadable, Afedosenko.tfsReadBlock, Pbelousov.tfsReadBlock, sbBread,
      if_neg readable]
    exact ⟨rfl, rfl⟩

end Headers

/-! ### afedosenko -/

namespace Afedosenko

variable {B : Nat} {disk : Disk UInt8 B} {b s n o : Nat}

/-- A read that stores something where there is nothing to be read is wrong. -/
theorem not_readsFile_of_fills (nothing : min n (s - o) = 0)
    (fills : ∀ buffer value position, tfsRead disk b s n o = .returned value buffer position →
      (buffer 0).isSome) : ¬ReadsFile disk b s n o := by
  intro reads
  have := fills _ _ _ reads
  rw [nothing, Disk.bytes_zero] at this
  simp [Buffer.holding] at this

/-- A request for no bytes from a position inside a block. -/
theorem tfsReadBlockOn_nothing {start : Nat} (positive : 0 < B) (small : start < 18446744073709551616)
    (inside : ¬B ∣ start) : tfsReadBlockOn disk 0 start = .stored (Buffer.holding []) 0 := by
  cases readable : disk.readable (start / B) with
  | false => exact tfsReadBlockWith_unreadable readable
  | true =>
      have remainder : 0 < start % B :=
        Nat.pos_of_ne_zero fun zero => inside (Nat.dvd_of_mod_eq_zero zero)
      have begins : start / B * B + start % B = start := Nat.div_add_mod' start B
      have less : start % B < B := Nat.mod_lt _ positive
      have same : (start : Int) + (0 : Nat) - 1 = ((start - 1 : Nat) : Int) := by omega
      have last : (start - 1) / B = start / B := by
        apply Nat.div_eq_of_lt_le
        · omega
        · rw [Nat.succ_mul]
          omega
      have single : wrap64 (((start / B : Nat) : Int) - (start / B : Nat) + 1) = 1 := by
        rw [Int.sub_self]
        rfl
      have within : start - start / B * B + 0 ≤ B := by omega
      rw [tfsReadBlockOn, tfsReadBlockWith, Disk.bread_readable readable, same,
        wrap64_of_range (by omega), last]
      simp only [single, if_true, piece_bytes within, Disk.bytes_zero, store_empty]

theorem tfsReadBlockOn_fills {size start : Nat} (positive : 0 < B)
    (readable : disk.readable (start / B) = true)
    (asked : 0 < size ∨
      wrap64 (((wrap64 ((start : Int) + size - 1) / B : Nat) : Int) - (start / B : Nat) + 1) ≠ 1)
    {buffer : Buffer UInt8} {count : Nat} (stored : tfsReadBlockOn disk size start = .stored buffer count) :
    (buffer 0).isSome := by
  unfold tfsReadBlockOn at stored
  exact tfsReadBlockWith_fills positive readable asked stored

/-- What `tfs_read` makes of the answer of `tfs_read_block`. -/
theorem tfsRead_eq (fits : b + s < 2147483648) (small : n < 9223372036854775808)
    (position : o < 9223372036854775808) :
    tfsRead disk b s n o =
      match tfsReadBlockOn disk (if s < o + n then wrap64 ((s : Int) - o) else n) (b + o) with
      | .overrun => .overrun
      | .stored buffer seek => .returned (int32 seek) buffer (o + int32 seek) := by
  have private_ : int32 (b : Int) = b := int32_of_range (by omega) (by omega)
  have start : wrap64 ((b : Int) + o) = b + o := by
    have same : (b : Int) + o = ((b + o : Nat) : Int) := by omega
    rw [same, wrap64_of_range (by omega)]
  have ending : wrap64 ((o : Int) + n) = o + n := by
    have same : (o : Int) + n = ((o + n : Nat) : Int) := by omega
    rw [same, wrap64_of_range (by omega)]
  have answer := tfsRead.eq_1 disk (b : Int) s n o
  simp only [private_, start, ending] at answer
  exact answer

/-- The count that is asked of `tfs_read_block`, if the position is in the file or at its end. -/
theorem count_inside (fits : s < 2147483648) (before : o ≤ s) :
    (if s < o + n then wrap64 ((s : Int) - o) else n) = min n (s - o) := by
  split
  · have same : (s : Int) - o = ((s - o : Nat) : Int) := by omega
    rw [same, wrap64_of_range (by omega)]
    omega
  · omega

/-- A read of bytes of the file, and of what is stored if some cannot be read. -/
theorem tfsRead_asked (positive : 0 < B) (fits : b + s < 2147483648) (small : n < 9223372036854775808)
    (asked : 0 < min n (s - o)) {m : Nat} (reaches : disk.Reaches (b + o) (min n (s - o)) m) :
    tfsRead disk b s n o = .returned m (Buffer.holding (disk.bytes (b + o) m)) (o + m : Nat) := by
  have inside := Disk.reaches_le asked reaches
  have value : int32 (m : Int) = m := int32_of_range (by omega) (by omega)
  rw [tfsRead_eq fits small (by omega), count_inside (by omega) (by omega),
    tfsReadBlockOn_reaches positive asked (by omega) reaches]
  simp only [value]
  rfl

/-- Where no bytes are asked for at the beginning of a block, the number of blocks is off by one. -/
theorem blocks_off_by_one {start : Nat} (positive : 0 < B) (blocksize : B < 18446744073709551616)
    (small : start < 18446744073709551616) (aligned : B ∣ start) :
    wrap64 (((wrap64 ((start : Int) + (0 : Nat) - 1) / B : Nat) : Int) - (start / B : Nat) + 1) ≠ 1 := by
  obtain ⟨q, rfl⟩ := aligned
  rw [Nat.mul_div_cancel_left q positive]
  rcases Nat.eq_zero_or_pos q with rfl | later
  · have wrapped : wrap64 (((B * 0 : Nat) : Int) + (0 : Nat) - 1) = 18446744073709551615 := rfl
    have some : 1 ≤ 18446744073709551615 / B := (Nat.one_le_div_iff positive).mpr (by omega)
    have bound : 18446744073709551615 / B ≤ 18446744073709551615 := Nat.div_le_self _ _
    rw [wrapped]
    generalize 18446744073709551615 / B = last at *
    unfold wrap64
    omega
  · have begins : 0 < B * q := Nat.mul_pos positive later
    have same : ((B * q : Nat) : Int) + (0 : Nat) - 1 = ((B * q - 1 : Nat) : Int) := by omega
    have last : (B * q - 1) / B = q - 1 := by
      apply Nat.div_eq_of_lt_le
      · have : (q - 1) * B + B = B * q := by
          rw [← Nat.succ_mul, Nat.mul_comm]
          congr 1
          omega
        omega
      · have : (q - 1 + 1) * B = B * q := by
          rw [Nat.mul_comm]
          congr 1
          omega
        omega
    have none : ((q - 1 : Nat) : Int) - (q : Nat) + 1 = ((0 : Nat) : Int) := by omega
    rw [same, wrap64_of_range (by omega), last, none]
    exact Nat.zero_ne_one

/-- A read of no bytes of the file, at a block that can be read. -/
theorem readsFile_iff_of_nothing (positive : 0 < B) (blocksize : B < 18446744073709551616)
    (fits : b + s < 2147483648) (small : n < 9223372036854775808) (position : o < 9223372036854775808)
    (nothing : min n (s - o) = 0) (readable : disk.readable ((b + o) / B) = true) :
    ReadsFile disk b s n o ↔ o ≤ s ∧ ¬B ∣ b + o := by
  constructor
  · intro reads
    by_contra other
    refine not_readsFile_of_fills nothing ?_ reads
    intro buffer value position' returned
    rw [tfsRead_eq fits small position] at returned
    split at returned
    · cases returned
    · rename_i buffer' seek stored
      rw [ReadEnd.returned.injEq] at returned
      rw [← returned.2.1]
      rcases Nat.lt_or_ge s o with beyond | before
      · -- the count is a negative number
        have some : 0 < if s < o + n then wrap64 ((s : Int) - o) else n := by
          rw [if_pos (by omega)]
          unfold wrap64
          omega
        exact tfsReadBlockOn_fills positive readable (.inl some) stored
      · have aligned : B ∣ b + o := by
          by_contra inside
          exact other ⟨before, inside⟩
        rw [count_inside (by omega) before, nothing] at stored
        exact tfsReadBlockOn_fills positive readable
          (.inr (blocks_off_by_one positive blocksize (by omega) aligned)) stored
  · rintro ⟨before, inside⟩
    rw [ReadsFile, tfsRead_eq fits small position, count_inside (by omega) before, nothing,
      tfsReadBlockOn_nothing positive (by omega) inside]
    rfl

/-- `tfs_read` returns the bytes of the file that are asked for exactly when the request can be
    answered. -/
theorem tfsRead_returns_file_iff (positive : 0 < B) (blocksize : B < 18446744073709551616)
    (fits : b + s < 2147483648) (small : n < 9223372036854775808) (position : o < 9223372036854775808) :
    ReadsFile disk b s n o ↔ Answerable disk b s n o := by
  rw [Answerable]
  split
  · rename_i asked
    obtain ⟨m, reaches⟩ := disk.exists_reaches (b + o) (min n (s - o))
    rw [ReadsFile, tfsRead_asked positive fits small asked reaches]
    constructor
    · intro same
      by_contra unreadable
      have less := Disk.reaches_lt asked reaches unreadable
      injection same with value
      omega
    · intro all
      have whole := Disk.reaches_unique reaches (.inl ⟨rfl, all⟩)
      rw [whole]
  · have nothing : min n (s - o) = 0 := by omega
    cases readable : disk.readable ((b + o) / B) with
    | false =>
        have reads : ReadsFile disk b s n o := by
          rw [ReadsFile, tfsRead_eq fits small position, tfsReadBlockOn,
            tfsReadBlockWith_unreadable readable, nothing]
          rfl
        simp [reads]
    | true =>
        rw [readsFile_iff_of_nothing positive blocksize fits small position nothing readable]
        simp

/-- A device with readable blocks of a page, all zero. -/
def zeroPages : Disk UInt8 4096 := ⟨fun _ => 0, fun _ => true⟩

/-- A read from the middle of a file of 3584 bytes. -/
theorem zeroPages_read :
    ReadsFile zeroPages 512 3584 100 1000 ↔ Answerable zeroPages 512 3584 100 1000 :=
  tfsRead_returns_file_iff (by decide) (by decide) (by decide) (by decide) (by decide)

/-- At its end, which is the end of a block, a read stores bytes from behind the file. -/
theorem read_at_aligned_end_runs_on : ¬ReadsFile zeroPages 512 3584 1 3584 := by
  rw [readsFile_iff_of_nothing (by decide) (by decide) (by decide) (by decide) (by decide) (by decide) rfl]
  decide

end Afedosenko

/-! ### ksaltuk -/

namespace Ksaltuk

variable {disk : Disk UInt8 512} {inode : TarInode} {n o : Nat}

/-- The smaller one of two natural numbers, compared as they are or as integers. -/
theorem ite_eq_min (a b : Nat) : (if a < b then (a : Int) else (b : Int)) = (min a b : Nat) := by
  split <;> omega

theorem ite_int_eq_min (a b : Nat) : (if (a : Int) < b then (a : Int) else (b : Int)) = (min a b : Nat) := by
  split <;> omega

/-- The smaller one of what is left of a block and of the request fits in an `int`. -/
theorem needRead_eq {fSize : Int} {c p : Nat} (request : n < 18446744073709551616) (copied : c ≤ n) :
    needRead fSize n c p =
      int32 (if ((min (512 - p % 512) (n - c) : Nat) : Int) < fSize - p
        then ((min (512 - p % 512) (n - c) : Nat) : Int) else fSize - p) := by
  have within : (p : Int).tmod 512 = (p % 512 : Nat) := Int.tmod_eq_emod_of_nonneg (by omega)
  have inBlock : (512 : Int) - (p % 512 : Nat) = ((512 - p % 512 : Nat) : Int) := by omega
  have left : (n : Int) - c = ((n - c : Nat) : Int) := by omega
  have fits : min (512 - p % 512) (n - c) ≤ 512 := by omega
  have first : int32 ((min (512 - p % 512) (n - c) : Nat) : Int) = (min (512 - p % 512) (n - c) : Nat) :=
    int32_of_range (by omega) (by omega)
  rw [needRead, within, inBlock, left]
  rw [wrap64_of_range (by omega), wrap64_of_range (by omega)]
  simp only [ite_eq_min, first]

/-- The number of bytes copied in a round that starts inside the file or at its end. -/
theorem needRead_inside {s c : Nat} (small : s < 2147483648) (request : n < 18446744073709551616)
    (copied : c ≤ n) (before : o + c ≤ s) :
    needRead s n c (o + c : Nat) =
      (min (min (512 - (o + c) % 512) (n - c)) (s - (o + c)) : Nat) := by
  have rest : (s : Int) - (o + c : Nat) = ((s - (o + c) : Nat) : Int) := by omega
  rw [needRead_eq request copied, rest, ite_int_eq_min]
  generalize min (512 - (o + c) % 512) (n - c) = first
  exact int32_of_range (by omega) (by omega)

/-- The number copied in a round that starts beyond the end. -/
theorem needRead_beyond {s : Nat} (request : n < 18446744073709551616) (beyond : s < o) :
    needRead s n 0 o = int32 ((s : Int) - o) := by
  rw [needRead_eq request (Nat.zero_le n)]
  generalize min (512 - o % 512) (n - 0) = first
  rw [if_neg (by omega)]

/-- The block of a position of the file, and where the position lies on the device. -/
theorem block_of_position (p : Nat) :
    (((p : Int).tdiv 512 + inode.offset + 1).toNat = inode.offset + 1 + p / 512) ∧
      ((p : Int).tmod 512).toNat = p % 512 ∧
        (inode.offset + 1 + p / 512) * 512 + p % 512 = 512 * (inode.offset + 1) + p := by
  have quotient : (p : Int).tdiv 512 = (p / 512 : Nat) := Int.tdiv_eq_ediv_of_nonneg (by omega)
  have remainder : (p : Int).tmod 512 = (p % 512 : Nat) := Int.tmod_eq_emod_of_nonneg (by omega)
  rw [quotient, remainder]
  refine ⟨by omega, by omega, by omega⟩

/-- One round inside the file or at its end, at a readable block. -/
theorem tarfsReadRound_inside {c k : Nat} (small : inode.size < 2147483648)
    (request : n < 18446744073709551616) (copied : c ≤ n) (before : o + c ≤ inode.size)
    (next : k = min (min (512 - (o + c) % 512) (n - c)) (inode.size - (o + c)))
    (readable : disk.readable (inode.offset + 1 + (o + c) / 512) = true) :
    tarfsReadRound disk inode n c (o + c : Nat)
        (Buffer.holding (disk.bytes (512 * (inode.offset + 1) + o) c)) =
      if 0 < k then
        .again (c + k) (o + (c + k) : Nat)
          (Buffer.holding (disk.bytes (512 * (inode.offset + 1) + o) (c + k)))
      else
        .done (.returned c (Buffer.holding (disk.bytes (512 * (inode.offset + 1) + o) c)) (o + c : Nat)) := by
  have inside : (o + c) % 512 + k ≤ 512 := by omega
  have position : ((o + c : Nat) : Int) + (k : Nat) = (o + (c + k) : Nat) := by omega
  have notNegative : ¬(k : Int) < 0 := by omega
  have positive : (0 : Int) < k ↔ 0 < k := by omega
  have size : int32 (inode.size : Int) = inode.size := int32_of_range (by omega) (by omega)
  have count := @needRead_inside n o inode.size c small request copied before
  rw [← next] at count
  obtain ⟨number, within, place⟩ := @block_of_position inode (o + c)
  have stored := Buffer.store_holding (disk.bytes (512 * (inode.offset + 1) + o) c)
    (disk.bytes (512 * (inode.offset + 1) + o + c) k)
  rw [Disk.length_bytes, ← Disk.bytes_append] at stored
  rw [tarfsReadRound, number, Disk.bread_readable readable, size, count]
  simp only [copyPiece, within, Int.toNat_natCast, piece_bytes inside, place, notNegative, if_false,
    ← Nat.add_assoc, stored, position, positive]
  split
  · rfl
  · rename_i none
    simp only [Nat.eq_zero_of_not_pos none, Nat.add_zero]

/-- A round at an unreadable block. -/
theorem tarfsReadRound_unreadable {c p : Nat} {buffer : Buffer UInt8}
    (unreadable : disk.readable (inode.offset + 1 + p / 512) = false) :
    tarfsReadRound disk inode n c p buffer = .done (.returned (-12) buffer p) := by
  rw [tarfsReadRound, (@block_of_position inode p).1, Disk.bread_unreadable unreadable]

/-- The rounds inside the file, up to the position at which there is nothing more to copy. -/
theorem tarfsReadLoop_reads {m c fuel : Nat} (small : inode.size < 2147483648)
    (request : n < 18446744073709551616) (before : o ≤ inode.size) (total : m = min n (inode.size - o))
    (copied : c ≤ m) (enough : m - c < fuel)
    (readable : ∀ p, o + c ≤ p → p ≤ o + m → disk.readable (inode.offset + 1 + p / 512) = true) :
    tarfsReadLoop disk inode n fuel c (o + c : Nat)
        (Buffer.holding (disk.bytes (512 * (inode.offset + 1) + o) c)) =
      .returned m (Buffer.holding (disk.bytes (512 * (inode.offset + 1) + o) m)) (o + m : Nat) := by
  induction fuel generalizing c with
  | zero => omega
  | succ fuel inductionHypothesis =>
      rw [tarfsReadLoop, tarfsReadRound_inside small request (by omega) (by omega) rfl
        (readable _ (Nat.le_refl _) (by omega))]
      by_cases more : c < m
      · rw [if_pos (by omega)]
        apply inductionHypothesis
        · omega
        · omega
        · exact fun p low high => readable p (by omega) high
      · have done : c = m := by omega
        rw [if_neg (by omega), done]

/-- If the block at that position cannot be read, the loop does not return what was copied. -/
theorem tarfsReadLoop_fails {m c fuel : Nat} (small : inode.size < 2147483648)
    (request : n < 18446744073709551616) (before : o ≤ inode.size) (total : m = min n (inode.size - o))
    (copied : c ≤ m)
    (readable : ∀ p, o + c ≤ p → p < o + m → disk.readable (inode.offset + 1 + p / 512) = true)
    (unreadable : disk.readable (inode.offset + 1 + (o + m) / 512) = false) (buffer : Buffer UInt8)
    (position : Int) :
    tarfsReadLoop disk inode n fuel c (o + c : Nat)
        (Buffer.holding (disk.bytes (512 * (inode.offset + 1) + o) c)) ≠
      .returned m buffer position := by
  induction fuel generalizing c with
  | zero => exact fun same => ReadEnd.noConfusion same
  | succ fuel inductionHypothesis =>
      rcases Nat.eq_or_lt_of_le copied with done | more
      · rw [← done] at unreadable
        rw [tarfsReadLoop, tarfsReadRound_unreadable unreadable]
        intro same
        rw [ReadEnd.returned.injEq] at same
        have := same.1
        omega
      · rw [tarfsReadLoop, tarfsReadRound_inside small request (by omega) (by omega) rfl
          (readable _ (Nat.le_refl _) (by omega)), if_pos (by omega)]
        apply inductionHypothesis
        · omega
        · exact fun p low high => readable p (by omega) high

/-- What a round and the loop find filled stays filled. -/
theorem isSome_copyPiece {i c : Nat} {position : Int} {buffer : Buffer UInt8}
    (filled : (buffer i).isSome) (block : List UInt8) (count : Int) :
    (∀ value buffer' position',
      copyPiece block c position buffer count = .done (.returned value buffer' position') →
        (buffer' i).isSome) ∧
    ∀ c' position' buffer', copyPiece block c position buffer count = .again c' position' buffer' →
      (buffer' i).isSome := by
  unfold copyPiece
  split
  · simp
  · cases piece block (position.tmod 512).toNat count.toNat with
    | none => simp
    | some data =>
        have stays := Buffer.isSome_store filled c data
        constructor
        · intro value buffer' position' ends
          simp only [] at ends
          split at ends
          · cases ends
          · rw [Round.done.injEq, ReadEnd.returned.injEq] at ends
            rw [← ends.2.1]
            exact stays
        · intro c' position' buffer' goes
          simp only [] at goes
          split at goes
          · rw [Round.again.injEq] at goes
            rw [← goes.2.2]
            exact stays
          · cases goes

theorem isSome_tarfsReadRound {i c : Nat} {position : Int} {buffer : Buffer UInt8}
    (filled : (buffer i).isSome) :
    (∀ value buffer' position', tarfsReadRound disk inode n c position buffer =
      .done (.returned value buffer' position') → (buffer' i).isSome) ∧
    ∀ c' position' buffer', tarfsReadRound disk inode n c position buffer = .again c' position' buffer' →
      (buffer' i).isSome := by
  rw [tarfsReadRound]
  cases disk.bread (position.tdiv 512 + inode.offset + 1).toNat with
  | none =>
      constructor
      · intro value buffer' position' ends
        rw [Round.done.injEq, ReadEnd.returned.injEq] at ends
        rw [← ends.2.1]
        exact filled
      · exact fun _ _ _ goes => Round.noConfusion goes
  | some block => exact isSome_copyPiece filled block _

theorem isSome_tarfsReadLoop {i fuel c : Nat} {position : Int} {buffer : Buffer UInt8}
    (filled : (buffer i).isSome) {value position' : Int} {buffer' : Buffer UInt8}
    (returned : tarfsReadLoop disk inode n fuel c position buffer = .returned value buffer' position') :
    (buffer' i).isSome := by
  induction fuel generalizing c position buffer with
  | zero => cases returned
  | succ fuel inductionHypothesis =>
      obtain ⟨ends, goes⟩ := @isSome_tarfsReadRound disk inode n i c position buffer filled
      rw [tarfsReadLoop] at returned
      split at returned
      · rename_i result round
        rw [returned] at round
        exact ends _ _ _ round
      · rename_i c' position'' buffer'' round
        exact inductionHypothesis (goes _ _ _ round) returned

/-- The blocks a read inside the file goes through, but for the one behind its end. -/
theorem readable_inside (data : DataReadable disk inode) {p : Nat}
    (inside : p < inode.size ∨ (p = inode.size ∧ ¬512 ∣ inode.size)) :
    disk.readable (inode.offset + 1 + p / 512) = true := by
  apply data
  unfold blocksOf
  omega

/-- A read that starts beyond the end copies nothing only if the distance is 0 as an `int`. -/
theorem not_reads_beyond {fuel : Nat} (request : n < 18446744073709551616)
    (small : inode.size < 2147483648) (beyond : inode.size < o)
    (nonzero : int32 ((inode.size : Int) - o) ≠ 0) {value position : Int} {buffer : Buffer UInt8}
    (returned : tarfsRead disk inode n o fuel = .returned value buffer position) :
    value < 0 ∨ (buffer 0).isSome := by
  have size : int32 (inode.size : Int) = inode.size := int32_of_range (by omega) (by omega)
  have count := @needRead_beyond n o inode.size request beyond
  cases fuel with
  | zero => cases returned
  | succ fuel =>
      rw [tarfsRead, tarfsReadLoop, tarfsReadRound, size, count] at returned
      generalize int32 ((inode.size : Int) - o) = distance at nonzero returned
      cases read : disk.bread ((o : Int).tdiv 512 + inode.offset + 1).toNat with
      | none =>
          rw [read] at returned
          simp only [ReadEnd.returned.injEq] at returned
          left
          rw [← returned.1]
          decide
      | some block =>
          rw [read] at returned
          right
          simp only [copyPiece] at returned
          by_cases negative : distance < 0
          · rw [if_pos negative] at returned
            cases returned
          · rw [if_neg negative] at returned
            unfold piece at returned
            by_cases inside : ((o : Int).tmod 512).toNat + distance.toNat ≤ block.length
            · rw [if_pos inside] at returned
              simp only [] at returned
              rw [if_pos (by omega)] at returned
              apply isSome_tarfsReadLoop _ returned
              apply Buffer.isSome_store_first
              apply List.ne_nil_of_length_pos
              rw [List.length_take, List.length_drop]
              omega
            · rw [if_neg inside] at returned
              cases returned

/-- One that finds it to be 0 returns. -/
theorem reads_beyond {fuel : Nat} (request : n < 18446744073709551616)
    (small : inode.size < 2147483648) (beyond : inode.size < o)
    (zero : int32 ((inode.size : Int) - o) = 0)
    (readable : disk.readable (inode.offset + 1 + o / 512) = true) :
    tarfsRead disk inode n o (fuel + 1) = .returned 0 (Buffer.holding []) o := by
  obtain ⟨number, within, -⟩ := @block_of_position inode o
  have size : int32 (inode.size : Int) = inode.size := int32_of_range (by omega) (by omega)
  have count := @needRead_beyond n o inode.size request beyond
  have inside : o % 512 + 0 ≤ 512 := by omega
  rw [tarfsRead, tarfsReadLoop, tarfsReadRound, number, Disk.bread_readable readable, size, count, zero]
  simp only [copyPiece, within, Int.lt_irrefl, if_false, Int.toNat_zero, piece_bytes inside,
    Disk.bytes_zero, store_empty, Int.add_zero, Nat.add_zero]
  rfl

theorem int32_distance {s : Nat} (beyond : s < o) :
    int32 ((s : Int) - o) = 0 ↔ 4294967296 ∣ o - s := by
  unfold int32
  omega

/-- `tarfs_read` returns the bytes of the file that are asked for exactly when the request can be
    answered. -/
theorem tarfsRead_returns_file_iff (small : inode.size < 2147483648) (request : n < 18446744073709551616)
    (data : DataReadable disk inode) : ReadsFile disk inode n o ↔ Answerable disk inode n o := by
  rw [Answerable]
  split
  · rename_i before
    constructor
    · rintro ⟨enough, reads⟩ end_ full
      by_contra unreadable
      have position : o + min n (inode.size - o) = inode.size := by omega
      have fails := @tarfsReadLoop_fails disk inode n o (min n (inode.size - o)) 0 enough small request
        before rfl (Nat.zero_le _) (fun p low high => readable_inside data (.inl (by omega)))
        (by rw [position]; simpa using unreadable)
      exact fails _ _ (reads enough (Nat.le_refl _))
    · intro readable
      refine ⟨min n (inode.size - o) + 1, ?_⟩
      intro fuel enough
      apply tarfsReadLoop_reads small request before rfl (Nat.zero_le _) (by omega)
      intro p low high
      by_cases last : p < inode.size ∨ (p = inode.size ∧ ¬512 ∣ inode.size)
      · exact readable_inside data last
      · have here : p = inode.size := by omega
        rw [here]
        exact readable (by omega) (by omega)
  · have beyond : inode.size < o := by omega
    have nothing : min n (inode.size - o) = 0 := by omega
    rw [ReadsFile, nothing, Disk.bytes_zero]
    constructor
    · rintro ⟨enough, reads⟩
      have returned := reads (enough + 1) (by omega)
      have zero : int32 ((inode.size : Int) - o) = 0 := by
        by_contra nonzero
        rcases not_reads_beyond request small beyond nonzero returned with negative | filled
        · omega
        · simp [Buffer.holding] at filled
      refine ⟨(int32_distance beyond).mp zero, ?_⟩
      by_contra unreadable
      have stop : disk.readable (inode.offset + 1 + o / 512) = false := by simpa using unreadable
      rw [tarfsRead, tarfsReadLoop, tarfsReadRound_unreadable stop, ReadEnd.returned.injEq] at returned
      have := returned.1
      omega
    · rintro ⟨distance, readable⟩
      refine ⟨1, ?_⟩
      intro fuel enough
      obtain ⟨rest, rfl⟩ : ∃ rest, fuel = rest + 1 := ⟨fuel - 1, by omega⟩
      exact reads_beyond request small beyond ((int32_distance beyond).mpr distance) readable

/-- A device with readable blocks, all zero. -/
def zeroDisk : Disk UInt8 512 := ⟨fun _ => 0, fun _ => true⟩

/-- A device that ends behind the data of a file of one block. -/
def twoBlocks : Disk UInt8 512 := ⟨fun _ => 0, fun n => n < 2⟩

/-- A read of the first bytes of such a file. -/
theorem twoBlocks_read : ReadsFile twoBlocks ⟨0, 512⟩ 10 0 ↔ Answerable twoBlocks ⟨0, 512⟩ 10 0 := by
  apply tarfsRead_returns_file_iff (by decide) (by decide)
  intro k inside
  have one : blocksOf 512 = 1 := rfl
  rw [one] at inside
  simp [twoBlocks]
  omega

/-- A read from beyond the end copies a negative number of bytes, and one of the whole file fails
    because the block behind it cannot be read. -/
theorem reads_past_data_fail :
    ¬ReadsFile zeroDisk ⟨0, 512⟩ 1 513 ∧ ¬ReadsFile twoBlocks ⟨0, 512⟩ 512 0 := by
  constructor
  · rintro ⟨enough, reads⟩
    have distance : int32 ((512 : Nat) - (513 : Nat) : Int) ≠ 0 := by decide
    rcases not_reads_beyond (by decide) (by decide) (by decide) distance
      (reads enough (Nat.le_refl _)) with negative | filled
    · exact absurd negative (by decide)
    · simp [Buffer.holding] at filled
  · rintro ⟨enough, reads⟩
    refine @tarfsReadLoop_fails twoBlocks ⟨0, 512⟩ 512 0 512 0 enough (by decide) (by decide) (by decide)
      rfl (by decide) ?_ rfl _ _ (reads enough (Nat.le_refl _))
    intro p _ high
    simp [twoBlocks]
    omega

end Ksaltuk

/-- A disk with blocks of four bytes, the third of which cannot be read. -/
def gappedDisk : Disk UInt8 4 where
  byte n := UInt8.ofNat n
  readable n := n ≠ 2

/-- A range over four blocks of it. -/
theorem gappedDisk_read :
    Pbelousov.tfsReadBlockOn gappedDisk 11 2 = Afedosenko.tfsReadBlockOn gappedDisk 11 2 ∧
      ((∀ k, 2 / 4 ≤ k → k ≤ (2 + 11 - 1) / 4 → gappedDisk.readable k = true) →
        Afedosenko.tfsReadBlockOn gappedDisk 11 2 =
          .stored (Buffer.holding (gappedDisk.bytes 2 11)) 11) ∧
      (∀ j, 2 / 4 ≤ j → j ≤ (2 + 11 - 1) / 4 →
        (∀ k, 2 / 4 ≤ k → k < j → gappedDisk.readable k = true) → gappedDisk.readable j = false →
        Afedosenko.tfsReadBlockOn gappedDisk 11 2 =
          .stored (Buffer.holding (gappedDisk.bytes 2 (j * 4 - 2))) (j * 4 - 2)) ∧
      ∃ buffer count, Afedosenko.tfsReadBlockOn gappedDisk 11 2 = .stored buffer count ∧
        count ≤ 11 ∧ ∀ i, 11 ≤ i → buffer i = none :=
  byte_range_reads_agree gappedDisk (by decide) (by decide) (by decide)

end Nfs4Compound.Tar
