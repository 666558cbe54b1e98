/-
Module: Nfs4Compound.Proofs.TarPositions
Layer: Proofs
Purpose: Going back to a header in the driver of pbelousov: `init_pos_offset` accepts exactly the
  offsets of headers and the end, and a scan from there is the rest of the scan from the start.
Imports: Nfs4Compound.Proofs.TarReaddir, Nfs4Compound.Proofs.TarFields
Trusted boundary: none
Main exports: entryStations, reads_archive, Rising, initPosOffsetLoop_reads, PositionsExact,
  positions_exact
-/
import Nfs4Compound.Proofs.TarReaddir
import Nfs4Compound.Proofs.TarFields

namespace Nfs4Compound.Tar.Pbelousov

open CText

variable {device : List UInt8} {junk : Junk} {entries : List Entry} {blocks : Nat}

/-! ### The headers of an archive -/

/-- The headers of the files from a position on, and the zero blocks behind them. -/
def entryStations (blocks : Nat) : List Entry → HeaderPos → List (List UInt8 × HeaderPos)
  | [], pos => zeroStations (blocks + 1) pos
  | e :: rest, pos =>
      let next := ⟨pos.offsetNextHeader, pos.offsetNextHeader + e.span, pos.num + 1⟩
      (e.header, next) :: entryStations blocks rest next

theorem roundedSize_eq {size : Nat} (small : size < 8 ^ 11) : roundedSize size = 512 * blocksOf size := by
  have bound : (8 : Nat) ^ 11 = 8589934592 := by norm_num
  unfold roundedSize blocksOf
  split
  · rw [wrap64_of_range] <;> omega
  · omega

/-- `get_header` at the header of a file. -/
theorem getHeader_entry (e : Entry) {pos : HeaderPos} {rest : List UInt8}
    (aligned : 512 ∣ pos.offsetNextHeader) (small : device.length < 9223372036854775808)
    (here : device.drop pos.offsetNextHeader = e.bytes ++ rest) :
    getHeader device junk pos =
      some (e.header, ⟨pos.offsetNextHeader, pos.offsetNextHeader + e.span, pos.num + 1⟩) := by
  have total := congrArg List.length here
  rw [Entry.bytes, List.length_drop, List.length_append, List.length_append, e.header_length,
    e.data_length] at total
  have readable : (pos.offsetNextHeader / 512 + 1) * 512 ≤ device.length := by omega
  have sizeBound := e.size_small
  have bound : (8 : Nat) ^ 11 = 8589934592 := by norm_num
  have field : HoldsField e.header 124 12 e.size := e.size_field
  have size : wrap64 (getTarOctalField junk e.header 124) = e.size := by
    rw [field.getTarOctalField junk sizeBound (by decide), wrap64_of_range (by omega)]
  rw [getHeader, tfsReadBlock_aligned (by decide) (Nat.dvd_refl 512) aligned readable (by omega), here,
    Entry.bytes, List.append_assoc, List.take_left' e.header_length]
  simp only [e.header_length, Nat.lt_irrefl, if_false, size, roundedSize_eq sizeBound]
  rw [wrap64_of_range (by omega), Entry.span, Nat.add_comm (512 * blocksOf e.size) 512]

/-- The loops read the headers of the files and then the zero blocks. -/
theorem reads_entries (small : device.length < 9223372036854775808) (entries : List Entry)
    (pos : HeaderPos) (aligned : 512 ∣ pos.offsetNextHeader)
    (inside : pos.offsetNextHeader ≤ device.length)
    (here : device.drop pos.offsetNextHeader = archive entries blocks) :
    Reads device junk pos (entryStations blocks entries pos) := by
  induction entries generalizing pos with
  | nil => exact reads_zeros small (blocks + 1) pos aligned inside here
  | cons e rest inductionHypothesis =>
      have split : archive (e :: rest) blocks = e.bytes ++ archive rest blocks := by
        rw [archive, List.flatMap_cons, List.append_assoc, archive]
      rw [split] at here
      have length : e.bytes.length = e.span := by
        rw [Entry.bytes, List.length_append, e.header_length, e.data_length, Entry.span]
      have total := congrArg List.length here
      rw [List.length_drop, List.length_append, length] at total
      refine .some (getHeader_entry e aligned small here) (inductionHypothesis _ ?_ ?_ ?_)
      · apply Nat.dvd_add aligned
        exact ⟨1 + blocksOf e.size, by rw [Entry.span]; ring⟩
      · show pos.offsetNextHeader + e.span ≤ device.length
        rw [Entry.span] at *
        omega
      · show device.drop (pos.offsetNextHeader + e.span) = archive rest blocks
        rw [← List.drop_drop, here, List.drop_left' length]

theorem reads_archive (small : (archive entries blocks).length < 9223372036854775808) :
    Reads (archive entries blocks) junk initPosStart (entryStations blocks entries initPosStart) :=
  reads_entries small entries initPosStart (Nat.dvd_zero 512) (Nat.zero_le _) rfl

/-! ### Headers one behind the other -/

/-- Every header lies where the one before it says, the first one at `position`, and takes some room. -/
def Rising : Nat → List (List UInt8 × HeaderPos) → Prop
  | _, [] => True
  | position, (_, next) :: rest =>
      next.offset = position ∧ position < next.offsetNextHeader ∧ Rising next.offsetNextHeader rest

theorem rising_zeros (blocks : Nat) (pos : HeaderPos) :
    Rising pos.offsetNextHeader (zeroStations blocks pos) := by
  induction blocks generalizing pos with
  | zero => trivial
  | succ blocks inductionHypothesis =>
      refine ⟨rfl, ?_, inductionHypothesis _⟩
      exact Nat.lt_add_of_pos_right (by decide)

theorem rising_entries (entries : List Entry) (pos : HeaderPos) :
    Rising pos.offsetNextHeader (entryStations blocks entries pos) := by
  induction entries generalizing pos with
  | nil => exact rising_zeros (blocks + 1) pos
  | cons e rest inductionHypothesis =>
      refine ⟨rfl, ?_, inductionHypothesis _⟩
      exact Nat.lt_add_of_pos_right (Nat.lt_of_lt_of_le (by decide : 0 < 512) (Nat.le_add_right _ _))

/-- No header lies before the first one, and the end lies behind all of them. -/
theorem rising_range {headers : List (List UInt8 × HeaderPos)} {pos : HeaderPos}
    (rising : Rising pos.offsetNextHeader headers) :
    (∀ read ∈ headers, pos.offsetNextHeader ≤ read.2.offset ∧
      read.2.offset < (endOf pos headers).offsetNextHeader) ∧
      pos.offsetNextHeader ≤ (endOf pos headers).offsetNextHeader := by
  induction headers generalizing pos with
  | nil => simp [endOf]
  | cons read rest inductionHypothesis =>
      obtain ⟨header, next⟩ := read
      obtain ⟨here, less, more⟩ := rising
      obtain ⟨later, end_⟩ := inductionHypothesis more
      refine ⟨?_, by rw [endOf]; omega⟩
      intro read member
      rcases List.mem_cons.mp member with rfl | member
      · rw [endOf]
        simp only [here]
        omega
      · have := later read member
        rw [endOf]
        omega

/-- A header ends behind the position it lies at. -/
theorem rising_ends {headers : List (List UInt8 × HeaderPos)} {position : Nat}
    (rising : Rising position headers) : ∀ read ∈ headers, position < read.2.offsetNextHeader := by
  induction headers generalizing position with
  | nil => simp
  | cons read rest inductionHypothesis =>
      obtain ⟨header, next⟩ := read
      obtain ⟨-, less, more⟩ := rising
      intro read member
      rcases List.mem_cons.mp member with rfl | member
      · exact less
      · exact Nat.lt_trans less (inductionHypothesis more read member)

/-- A header lies at the first position or where another one ends. -/
theorem rising_begins {headers : List (List UInt8 × HeaderPos)} {position : Nat}
    (rising : Rising position headers) : ∀ read ∈ headers,
      read.2.offset = position ∨ ∃ other ∈ headers, other.2.offsetNextHeader = read.2.offset := by
  induction headers generalizing position with
  | nil => simp
  | cons first rest inductionHypothesis =>
      obtain ⟨header, next⟩ := first
      obtain ⟨here, -, more⟩ := rising
      intro read member
      rcases List.mem_cons.mp member with rfl | member
      · exact .inl here
      · right
        rcases inductionHypothesis more read member with start | ⟨other, known, ends⟩
        · exact ⟨(header, next), List.mem_cons_self, start.symm⟩
        · exact ⟨other, List.mem_cons_of_mem _ known, ends⟩

theorem rising_append {earlier later : List (List UInt8 × HeaderPos)} {header : List UInt8}
    {next : HeaderPos} {position : Nat} (rising : Rising position (earlier ++ (header, next) :: later)) :
    Rising next.offsetNextHeader later := by
  induction earlier generalizing position with
  | nil => exact rising.2.2
  | cons read rest inductionHypothesis =>
      obtain ⟨_, _⟩ := read
      exact inductionHypothesis rising.2.2

theorem endOf_append (earlier later : List (List UInt8 × HeaderPos)) (header : List UInt8)
    (next pos : HeaderPos) : endOf pos (earlier ++ (header, next) :: later) = endOf next later := by
  induction earlier generalizing pos with
  | nil => rfl
  | cons read rest inductionHypothesis =>
      obtain ⟨_, _⟩ := read
      exact inductionHypothesis _

/-! ### `init_pos_offset` -/

/-- From a position before `offset`, the loop stops behind the header that ends there, and with an error
    if there is none. -/
theorem initPosOffsetLoop_reads {pos : HeaderPos} {headers : List (List UInt8 × HeaderPos)}
    (reads : Reads device junk pos headers) (rising : Rising pos.offsetNextHeader headers) {offset : Nat}
    {fuel : Nat} (enough : headers.length < fuel) :
    (∃ earlier header next later, headers = earlier ++ (header, next) :: later ∧
        next.offsetNextHeader = offset ∧ Reads device junk next later ∧
          initPosOffsetLoop device junk offset fuel pos = .standing next) ∨
      ((∀ read ∈ headers, read.2.offsetNextHeader ≠ offset) ∧
        initPosOffsetLoop device junk offset fuel pos = .invalid) := by
  induction reads generalizing fuel with
  | none read =>
      obtain ⟨fuel, rfl⟩ : ∃ k, fuel = k + 1 := ⟨fuel - 1, by simp at enough; omega⟩
      right
      rw [initPosOffsetLoop, read]
      simp
  | @some pos next header rest read more inductionHypothesis =>
      rw [List.length_cons] at enough
      obtain ⟨fuel, rfl⟩ : ∃ k, fuel = k + 1 := ⟨fuel - 1, by omega⟩
      obtain ⟨-, -, rising⟩ := rising
      rw [initPosOffsetLoop, read]
      simp only []
      rcases Nat.lt_trichotomy offset next.offsetNextHeader with beyond | here | short
      · right
        rw [if_pos beyond]
        refine ⟨?_, rfl⟩
        intro read member
        rcases List.mem_cons.mp member with rfl | member
        · exact Nat.ne_of_gt beyond
        · exact Nat.ne_of_gt (Nat.lt_trans beyond (rising_ends rising read member))
      · left
        refine ⟨[], header, next, rest, rfl, here.symm, more, ?_⟩
        rw [if_neg (Nat.not_lt_of_le (Nat.le_of_eq here.symm)), if_pos here.symm]
      · rw [if_neg (Nat.not_lt_of_lt short), if_neg (Nat.ne_of_lt short)]
        rcases inductionHypothesis rising (Nat.lt_of_succ_lt_succ enough) with
          ⟨earlier, header', next', later, split, ends, reads, stands⟩ | ⟨others, fails⟩
        · left
          refine ⟨(header, next) :: earlier, header', next', later, ?_, ends, reads, stands⟩
          rw [split, List.cons_append]
        · right
          refine ⟨?_, fails⟩
          intro read member
          rcases List.mem_cons.mp member with rfl | member
          · exact Nat.ne_of_lt short
          · exact others read member

/-- The offsets `init_pos_offset` should accept: the start, the end, and those of the headers. -/
def Known (headers : List (List UInt8 × HeaderPos)) (tarSize offset : Nat) : Prop :=
  offset = 0 ∨ offset = tarSize ∨ ∃ read ∈ headers, read.2.offset = offset

/-- What is asked of `init_pos_offset`, beside the headers that `get_header` reads from the start and the
    size that `init_tar_size` computes.  It accepts exactly the known offsets.  From a position accepted
    before the end, `get_header` reads the header there and all after it, with the same offsets and
    numbers as from the start. -/
def PositionsExact (device : List UInt8) (junk : Junk) : Prop :=
  ∃ headers tarSize enough, Reads device junk initPosStart headers ∧ ∀ fuel, enough ≤ fuel →
    initTarSize device junk fuel = some tarSize ∧ ∀ offset,
      (Known headers tarSize offset →
        ∃ pos, initPosOffset device junk tarSize offset fuel = .standing pos ∧
          (offset < tarSize → ∃ earlier header next later, headers = earlier ++ (header, next) :: later ∧
            next.offset = offset ∧ Reads device junk pos ((header, next) :: later))) ∧
      (¬Known headers tarSize offset → initPosOffset device junk tarSize offset fuel = .invalid)

/-- So it does in every well-formed archive. -/
theorem positions_exact (junk : Junk) (entries : List Entry) (blocks : Nat)
    (small : (archive entries blocks).length < 9223372036854775808) :
    PositionsExact (archive entries blocks) junk := by
  have reads := @reads_archive junk entries blocks small
  have rising : Rising 0 (entryStations blocks entries initPosStart) := rising_entries entries initPosStart
  have first : ∃ header next later,
      entryStations blocks entries initPosStart = (header, next) :: later := by
    cases entries with
    | nil => exact ⟨_, _, _, rfl⟩
    | cons e rest => exact ⟨_, _, _, rfl⟩
  refine ⟨entryStations blocks entries initPosStart,
    (endOf initPosStart (entryStations blocks entries initPosStart)).offsetNextHeader,
    (entryStations blocks entries initPosStart).length + 1, reads, ?_⟩
  intro fuel enough
  refine ⟨initTarSizeLoop_reads reads enough, ?_⟩
  generalize entryStations blocks entries initPosStart = headers at *
  have range := @rising_range headers initPosStart rising
  generalize sizeIs : (endOf initPosStart headers).offsetNextHeader = tarSize at *
  intro offset
  rw [initPosOffset]
  by_cases zero : offset = 0
  · rw [if_pos zero]
    refine ⟨fun _ => ⟨initPosStart, rfl, fun _ => ?_⟩, fun unknown => absurd (.inl zero) unknown⟩
    obtain ⟨header, next, later, split⟩ := first
    rw [split] at rising reads
    exact ⟨[], header, next, later, split, by rw [rising.1, zero], reads⟩
  · rw [if_neg zero]
    by_cases last : offset = tarSize
    · rw [if_pos last]
      exact ⟨fun _ => ⟨_, rfl, fun less => by omega⟩, fun unknown => absurd (.inr (.inl last)) unknown⟩
    · rw [if_neg last]
      by_cases inside : offset < tarSize
      · rw [if_pos inside]
        rcases initPosOffsetLoop_reads reads rising enough with
          ⟨earlier, header, next, later, split, ends, more, stands⟩ | ⟨others, fails⟩
        · -- the header that begins where the one found ends is there, since the offset is before the end
          rw [split] at rising sizeIs
          have rest := rising_append rising
          rw [endOf_append] at sizeIs
          cases later with
          | nil =>
              rw [endOf, ends] at sizeIs
              exact absurd sizeIs last
          | cons read later =>
              obtain ⟨header', next'⟩ := read
              have here : next'.offset = offset := rest.1.trans ends
              have known : Known headers tarSize offset := by
                refine .inr (.inr ⟨(header', next'), ?_, here⟩)
                rw [split]
                simp
              refine ⟨fun _ => ⟨next, stands, fun _ => ?_⟩, fun unknown => absurd known unknown⟩
              refine ⟨earlier ++ [(header, next)], header', next', later, ?_, here, more⟩
              rw [split, List.append_assoc]
              rfl
        · have unknown : ¬Known headers tarSize offset := by
            rintro (start | end_ | ⟨read, member, here⟩)
            · exact zero start
            · exact last end_
            · rcases rising_begins rising read member with start | ⟨other, known, ends⟩
              · exact zero (here.symm.trans start)
              · exact others other known (ends.trans here)
          exact ⟨fun known => absurd known unknown, fun _ => fails⟩
      · rw [if_neg inside]
        have unknown : ¬Known headers tarSize offset := by
          rintro (start | end_ | ⟨read, member, here⟩)
          · exact zero start
          · exact last end_
          · have := (range.1 read member).2
            omega
        exact ⟨fun known => absurd known unknown, fun _ => rfl⟩

/-- A member is such a file. -/
def ofMember (m : Member) : Entry where
  header := m.header
  size := m.size
  data := m.data
  header_length := m.length_header
  size_small := Nat.lt_trans m.size_small (by norm_num)
  size_field := by
    obtain ⟨rest, field⟩ := m.header_drop_size
    exact ⟨rest, by rw [field, octalField_append]⟩
  data_length := m.data_length

theorem image_eq_archive (members : List Member) (blocks : Nat) :
    image members (padding blocks) = archive (members.map ofMember) blocks := by
  have zeros : zeroBlock ++ padding blocks = padding (blocks + 1) := by
    rw [zeroBlock, padding, padding, List.replicate_append_replicate]
    congr 1
    omega
  rw [image, archive, zeros, List.flatMap_map]
  rfl

/-- An archive of two files and one more zero block. -/
theorem twoFiles_positions : PositionsExact (archive (twoFiles.map ofMember) 1) ⟨[], 0⟩ :=
  positions_exact ⟨[], 0⟩ (twoFiles.map ofMember) 1 (image_eq_archive twoFiles 1 ▸ twoFiles_small)

end Nfs4Compound.Tar.Pbelousov
