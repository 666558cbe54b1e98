/-
Module: Nfs4Compound.Proofs.TarReaddir
Layer: Proofs
Purpose: Which sequences of calls read a directory once.  Two of the drivers ignore a refusal, the third
  starts over: with any of them exactly the runs without a refusal do.
Imports: Nfs4Compound.Tar.Readdir, Nfs4Compound.Proofs.TarKsaltuk, Nfs4Compound.Proofs.TarChildren,
  Nfs4Compound.Proofs.TarAboyaritsev
Trusted boundary: none
Main exports: Pbelousov.readsOnce_iff, Ksaltuk.readsOnce_iff, Aboyaritsev.readsOnce_iff,
  directory_read_once_iff
-/
import Nfs4Compound.Tar.Readdir
import Nfs4Compound.Proofs.TarKsaltuk
import Nfs4Compound.Proofs.TarChildren
import Nfs4Compound.Proofs.TarAboyaritsev

namespace Nfs4Compound.Tar

open CText Delivery

variable {members : List Member} {behind : List UInt8} {junk : Junk} {device : List UInt8}

/-! ### Enough fuel -/

section Fuel

variable {ε π : Type} {call : Nat → Call ε π} {answers : Nat → Answers} {start : π}

/-- If from some amount of fuel on the calls read everything once exactly when nothing is refused, then
    so it is for the driver. -/
theorem readsOnce_iff_of_fuel (enough : Nat)
    (same : ∀ fuel, enough ≤ fuel →
      (ReadOnce (call fuel) answers start ↔ RefusesNone (call fuel) answers start)) :
    ReadsOnce call answers start ↔ RefusesNoEntry call answers start := by
  constructor
  · rintro ⟨least, read⟩
    refine ⟨max enough least, fun fuel large => ?_⟩
    exact (same fuel (by omega)).mp (read fuel (by omega))
  · rintro ⟨least, none⟩
    refine ⟨max enough least, fun fuel large => ?_⟩
    exact (same fuel (by omega)).mpr (none fuel (by omega))

/-- A run that reads everything once begins with a call that returns. -/
theorem returns_of_readsOnce (read : ReadsOnce call answers start) :
    ∃ enough, ∀ fuel, enough ≤ fuel →
      ∃ entries position, call fuel (fun _ => true) start = some (entries, position) := by
  obtain ⟨enough, read⟩ := read
  refine ⟨enough, fun fuel large => ?_⟩
  obtain ⟨entries, ⟨position, listing⟩, _⟩ := read fuel large
  exact ⟨entries, position, listing⟩

/-- A consumer that accepts the first entry of every call accepts one in every call. -/
theorem acceptsOnePerCall_of_first (first : ∀ k, answers k 0 = true) :
    AcceptsOnePerCall call answers start := by
  intro fuel k offers _ nonempty
  obtain ⟨entry, rest, rfl⟩ := List.exists_cons_of_ne_nil nonempty
  simp [accepted, acceptedFrom, first]

theorem refusesNoEntry_of_all (all : ∀ k i, answers k i = true) : RefusesNoEntry call answers start :=
  ⟨0, fun _ _ k _ _ i _ => all k i⟩

/-- An entry is refused if the first call offers it and the answer is no. -/
theorem refused_of_first {offers : List ε} {enough i : Nat}
    (first : ∀ fuel, enough ≤ fuel → ∃ position, call fuel (answers 0) start = some (offers, position))
    (inside : i < offers.length) (refused : answers 0 i = false) :
    ¬RefusesNoEntry call answers start := by
  rintro ⟨least, none⟩
  obtain ⟨position, offered⟩ := first (max enough least) (Nat.le_max_left _ _)
  have accepted := none (max enough least) (Nat.le_max_right _ _) 0 offers (offersAt_zero offered).1 i inside
  rw [refused] at accepted
  cases accepted

end Fuel

/-! ### pbelousov -/

namespace Pbelousov

variable {blocks : Nat} {before : UInt8} {names : List Component} {answers : Nat → Answers}

/-- Where `get_header` fails, if it reads these headers from a position on. -/
def endOf (pos : HeaderPos) : List (List UInt8 × HeaderPos) → HeaderPos
  | [] => pos
  | (_, next) :: rest => endOf next rest

theorem initTarSizeLoop_reads {pos : HeaderPos} {headers : List (List UInt8 × HeaderPos)}
    (reads : Reads device junk pos headers) {fuel : Nat} (enough : headers.length < fuel) :
    initTarSizeLoop device junk fuel pos = some (endOf pos headers).offsetNextHeader := by
  induction reads generalizing fuel with
  | none read =>
      obtain ⟨fuel, rfl⟩ : ∃ k, fuel = k + 1 := ⟨fuel - 1, by simp at enough; omega⟩
      rw [initTarSizeLoop, read]
      rfl
  | @some pos next header rest read more inductionHypothesis =>
      rw [List.length_cons] at enough
      obtain ⟨fuel, rfl⟩ : ∃ k, fuel = k + 1 := ⟨fuel - 1, by omega⟩
      rw [initTarSizeLoop, read]
      exact inductionHypothesis (Nat.lt_of_succ_lt_succ enough)

/-- A pass gives the entries of the listing, and ends where `get_header` fails. -/
theorem readdirPass_reads {pos : HeaderPos} {headers : List (List UInt8 × HeaderPos)}
    (reads : Reads device junk pos headers) {dir : List UInt8} {fuel : Nat}
    (enough : headers.length < fuel) :
    readdirPass device junk before dir fuel pos =
      if (readdirIn junk before dir headers).2 = .notFound then
        some ((readdirIn junk before dir headers).1, (endOf pos headers).offsetNextHeader)
      else none := by
  induction reads generalizing fuel with
  | none read =>
      obtain ⟨fuel, rfl⟩ : ∃ k, fuel = k + 1 := ⟨fuel - 1, by simp at enough; omega⟩
      rw [readdirPass, read]
      rfl
  | @some pos next header rest read more inductionHypothesis =>
      rw [List.length_cons] at enough
      obtain ⟨fuel, rfl⟩ : ∃ k, fuel = k + 1 := ⟨fuel - 1, by omega⟩
      have later := inductionHypothesis (Nat.lt_of_succ_lt_succ enough)
      rw [readdirPass, read, readdirIn, endOf]
      cases judged : isChildFile junk before dir header with
      | no => simp only [judged, later]
      | overrun => simp [judged]
      | yes child =>
          simp only [judged, later]
          split
          · rfl
          · rfl

/-- `get_header` fails at the end. -/
theorem getHeader_endOf {pos : HeaderPos} {headers : List (List UInt8 × HeaderPos)}
    (reads : Reads device junk pos headers) : getHeader device junk (endOf pos headers) = none := by
  induction reads with
  | none read => exact read
  | some read more inductionHypothesis => exact inductionHypothesis

/-- Whether `get_header` fails depends on the offset only. -/
theorem getHeader_none_of_offset {pos pos' : HeaderPos} (failed : getHeader device junk pos = none)
    (same : pos'.offsetNextHeader = pos.offsetNextHeader) : getHeader device junk pos' = none := by
  simp only [getHeader, same] at failed ⊢
  split at failed
  · rename_i short
    rw [if_pos short]
  · cases failed

theorem endOf_zeros (blocks : Nat) (pos : HeaderPos) :
    pos.offsetNextHeader + 512 * blocks ≤ (endOf pos (zeroStations blocks pos)).offsetNextHeader := by
  induction blocks generalizing pos with
  | zero => exact Nat.le_refl _
  | succ blocks inductionHypothesis =>
      have rest := inductionHypothesis ⟨pos.offsetNextHeader, pos.offsetNextHeader + 512, pos.num + 1⟩
      rw [zeroStations, endOf]
      simp only [] at rest
      omega

/-- The end lies behind the zero block, so it is never the start. -/
theorem endOf_stations (members : List Member) (pos : HeaderPos) :
    pos.offsetNextHeader + 512 ≤ (endOf pos (stations blocks members pos)).offsetNextHeader := by
  induction members generalizing pos with
  | nil =>
      have start : 512 ≤ 512 * (blocks + 1) := Nat.le_mul_of_pos_right 512 (Nat.succ_pos blocks)
      exact Nat.le_trans (Nat.add_le_add_left start _) (endOf_zeros (blocks + 1) pos)
  | cons m rest inductionHypothesis =>
      have tail := inductionHypothesis ⟨pos.offsetNextHeader, pos.offsetNextHeader + m.span, pos.num + 1⟩
      rw [stations, endOf]
      simp only [] at tail
      omega

/-- A pass crashes exactly if some header is copied past the end of the buffer. -/
theorem readdirIn_returns_iff {dir : List UInt8} (headers : List (List UInt8 × HeaderPos)) :
    (readdirIn junk before dir headers).2 = .notFound ↔
      ∀ read ∈ headers, isChildFile junk before dir read.1 ≠ .overrun := by
  induction headers with
  | nil => simp [readdirIn]
  | cons read rest inductionHypothesis =>
      obtain ⟨header, next⟩ := read
      rw [readdirIn, List.forall_mem_cons]
      cases judged : isChildFile junk before dir header with
      | no => simpa using inductionHypothesis
      | overrun => simp
      | yes child => simpa using inductionHypothesis

theorem forall_zeroStations {p : List UInt8 → Prop} (blocks : Nat) (pos : HeaderPos) :
    (∀ read ∈ zeroStations (blocks + 1) pos, p read.1) ↔ p zeroBlock := by
  induction blocks generalizing pos with
  | zero => simp [zeroStations]
  | succ blocks inductionHypothesis =>
      rw [zeroStations, List.forall_mem_cons, inductionHypothesis]
      exact and_self_iff

theorem forall_stations {p : List UInt8 → Prop} (members : List Member) (pos : HeaderPos) :
    (∀ read ∈ stations blocks members pos, p read.1) ↔ (∀ m ∈ members, p m.header) ∧ p zeroBlock := by
  induction members generalizing pos with
  | nil =>
      rw [stations, forall_zeroStations]
      simp
  | cons m rest inductionHypothesis =>
      rw [stations, List.forall_mem_cons, inductionHypothesis, List.forall_mem_cons, and_assoc]

/-! #### Calls -/

section Calls

variable (small : (image members (padding blocks)).length < 9223372036854775808)

include small

theorem initTarSize_image {fuel : Nat}
    (enough : (stations blocks members initPosStart).length < fuel) :
    initTarSize (image members (padding blocks)) junk fuel =
      some (endOf initPosStart (stations blocks members initPosStart)).offsetNextHeader :=
  initTarSizeLoop_reads (reads_image small) enough

/-- The first call goes over all headers, whatever the consumer answers. -/
theorem readdirCall_start {fuel : Nat} (enough : (stations blocks members initPosStart).length < fuel)
    {path : List UInt8} (fits : dentryPathRaw names 256 = some path) (answered : Answers) :
    readdirCall (image members (padding blocks)) junk before names fuel answered 0 =
      if (readdirIn junk before (path.drop 1) (stations blocks members initPosStart)).2 = .notFound then
        some ((readdirIn junk before (path.drop 1) (stations blocks members initPosStart)).1,
          (endOf initPosStart (stations blocks members initPosStart)).offsetNextHeader)
      else none := by
  rw [readdirCall, initTarSize_image small enough, Option.bind_some, tfsReaddir, initPosOffset,
    if_pos rfl, fits]
  exact readdirPass_reads (reads_image small) enough

/-- A call at the end offers nothing and stays there. -/
theorem readdirCall_end {fuel : Nat} (enough : (stations blocks members initPosStart).length < fuel)
    {path : List UInt8} (fits : dentryPathRaw names 256 = some path) (answered : Answers) :
    readdirCall (image members (padding blocks)) junk before names fuel answered
        (endOf initPosStart (stations blocks members initPosStart)).offsetNextHeader =
      some ([], (endOf initPosStart (stations blocks members initPosStart)).offsetNextHeader) := by
  have behindStart := @endOf_stations blocks members initPosStart
  have nonzero : (endOf initPosStart (stations blocks members initPosStart)).offsetNextHeader ≠ 0 :=
    Nat.ne_of_gt (Nat.lt_of_lt_of_le (Nat.succ_pos 511) (Nat.le_trans (Nat.le_add_left 512 _) behindStart))
  obtain ⟨fuel, rfl⟩ := Nat.exists_eq_add_of_lt (Nat.lt_of_le_of_lt (Nat.zero_le _) enough)
  rw [readdirCall, initTarSize_image small enough, Option.bind_some, tfsReaddir, initPosOffset,
    if_neg nonzero, if_pos rfl, fits]
  have failed := getHeader_endOf (@reads_image members blocks junk small)
  have standing : getHeader (image members (padding blocks)) junk { initPosStart with
      offsetNextHeader := (endOf initPosStart (stations blocks members initPosStart)).offsetNextHeader } =
        none := getHeader_none_of_offset failed rfl
  simp only [readdirPass, standing]

omit small in
theorem returns_of_passReturns {path : List UInt8} (fits : dentryPathRaw names 256 = some path) :
    (readdirIn junk before (path.drop 1) (stations blocks members initPosStart)).2 = .notFound ↔
      PassReturns members junk before names := by
  have judged := @forall_stations blocks
    (fun header => isChildFile junk before (path.drop 1) header ≠ .overrun) members initPosStart
  rw [readdirIn_returns_iff, judged]
  constructor
  · intro quiet
    exact ⟨path, fits, quiet⟩
  · rintro ⟨path', fits', quiet⟩
    rw [fits] at fits'
    cases fits'
    exact quiet

theorem passReturns_of_readsOnce
    (read : ReadsOnce (readdirCall (image members (padding blocks)) junk before names) answers 0) :
    PassReturns members junk before names := by
  obtain ⟨enough, returns⟩ := returns_of_readsOnce read
  obtain ⟨entries, position, first⟩ := returns
    (max enough ((stations blocks members initPosStart).length + 1)) (Nat.le_max_left _ _)
  have large : (stations blocks members initPosStart).length <
      max enough ((stations blocks members initPosStart).length + 1) :=
    Nat.lt_of_succ_le (Nat.le_max_right _ _)
  cases fits : dentryPathRaw names 256 with
  | none =>
      rw [readdirCall, initTarSize_image small large, Option.bind_some, tfsReaddir, initPosOffset,
        if_pos rfl, fits] at first
      cases first
  | some path =>
      rw [readdirCall_start small large fits] at first
      split at first
      · rename_i returned
        exact (returns_of_passReturns fits).mp returned
      · cases first

/-- The entries refused in the first call are lost: the position is behind all headers after it. -/
theorem readsOnce_iff :
    ReadsOnce (readdirCall (image members (padding blocks)) junk before names) answers 0 ↔
      PassReturns members junk before names ∧
        RefusesNoEntry (readdirCall (image members (padding blocks)) junk before names) answers 0 := by
  by_cases returns : PassReturns members junk before names
  · obtain ⟨path, fits, _⟩ := id returns
    have returned := (@returns_of_passReturns members junk blocks before names path fits).mpr returns
    simp only [returns, true_and]
    apply readsOnce_iff_of_fuel ((stations blocks members initPosStart).length + 1)
    intro fuel large
    have stays : ∀ answered position,
        position = (endOf initPosStart (stations blocks members initPosStart)).offsetNextHeader →
          ∃ next, readdirCall (image members (padding blocks)) junk before names fuel answered position =
            some ([], next) ∧
              next = (endOf initPosStart (stations blocks members initPosStart)).offsetNextHeader := by
      rintro answered position rfl
      exact ⟨_, readdirCall_end small large fits answered, rfl⟩
    apply readOnce_iff_of_ignoring stays
    intro answered
    refine ⟨_, ?_, rfl⟩
    rw [readdirCall_start small large fits, if_pos returned]
  · simp only [returns, false_and, iff_false]
    intro read
    exact returns (passReturns_of_readsOnce small read)

end Calls

end Pbelousov

/-! ### ksaltuk -/

namespace Ksaltuk

variable {parent : List UInt8} {answers : Nat → Answers} {dir : Option Nat}

/-- For a consumer that accepts everything a pass is the listing, if the listing is complete. -/
theorem readdirAnswered_all (fuel n : Nat) (i : Int) :
    readdirAnswered device junk parent (fun _ => true) fuel n i =
      if (readdirLoop device junk parent fuel i).2 = .notFound then
        some ((readdirLoop device junk parent fuel i).1, true)
      else none := by
  induction fuel generalizing n i with
  | zero => rfl
  | succ fuel inductionHypothesis =>
      rw [readdirAnswered, readdirLoop]
      cases read : bread device i with
      | none => rfl
      | some block =>
          by_cases zero : block.head? = some 0
          · simp [zero]
          · simp only [zero, if_false, if_true, inductionHypothesis]
            split
            · split
              · rfl
              · rfl
            · rfl

/-- The entries of the headers that are read. -/
def entriesOf (junk : Junk) (parent : List UInt8) (headers : List (Int × List UInt8)) :
    List (List UInt8 × Int) :=
  headers.filterMap fun read =>
    let entry := cstr (read.2 ++ junk.behind)
    if parent.length < entry.length ∧ isEntryOf entry parent then
      some (entry.drop parent.length, read.1 + 1) else none

/-- A pass that reaches the end of the archive unless an entry is refused. -/
theorem readdirAnswered_reads {i : Int} {headers : List (Int × List UInt8)} {ending : Ending}
    (reads : Reads device junk i headers ending) (returns : ending = .notFound) {fuel : Nat}
    (enough : headers.length < fuel) (answered : Answers) (n : Nat) :
    readdirAnswered device junk parent answered fuel n i =
      some (untilRefusalFrom answered n (entriesOf junk parent headers),
        decide (∀ j < (entriesOf junk parent headers).length, answered (n + j) = true)) := by
  induction reads generalizing fuel n with
  | crash read => cases returns
  | stop read zero =>
      obtain ⟨fuel, rfl⟩ : ∃ k, fuel = k + 1 := ⟨fuel - 1, by simp at enough; omega⟩
      rw [readdirAnswered, read]
      simp [zero, entriesOf, untilRefusalFrom]
  | @more i block rest ending read nonzero next inductionHypothesis =>
      rw [List.length_cons] at enough
      obtain ⟨fuel, rfl⟩ : ∃ k, fuel = k + 1 := ⟨fuel - 1, by omega⟩
      have later := fun n => inductionHypothesis returns (Nat.lt_of_succ_lt_succ enough) n
      rw [readdirAnswered, read]
      simp only [nonzero, if_false]
      by_cases entry : parent.length < (cstr (block ++ junk.behind)).length ∧
          isEntryOf (cstr (block ++ junk.behind)) parent = true
      · have listed : entriesOf junk parent ((i, block) :: rest) =
            ((cstr (block ++ junk.behind)).drop parent.length, i + 1) :: entriesOf junk parent rest := by
          simp [entriesOf, entry]
        rw [if_pos entry, listed, untilRefusalFrom]
        by_cases takes : answered n = true
        · have all := @forall_answers_succ answered n (entriesOf junk parent rest).length
          simp only [takes, true_and] at all
          simp only [takes, if_true, later, Option.map_some, List.length_cons, all]
        · have some_ : ¬∀ j < (entriesOf junk parent rest).length + 1, answered (n + j) = true :=
            fun all => takes (all 0 (Nat.succ_pos _))
          simp only [takes, if_false, List.length_cons, decide_eq_false some_, Bool.false_eq_true]
      · have listed : entriesOf junk parent ((i, block) :: rest) = entriesOf junk parent rest := by
          simp [entriesOf, entry]
        rw [if_neg entry, listed, later]

/-! #### Calls -/

/-- The name of a directory of the archive can be read. -/
theorem directory_opens (inside : ∀ d, dir = some d → d < members.length) :
    ∃ parent, (if 0 < directoryOffset members dir then
      directoryName (image members behind) junk (directoryOffset members dir) else some []) =
        some parent := by
  split
  · rename_i positive
    cases dir with
    | none => exact absurd positive (by simp [directoryOffset])
    | some d =>
        rw [directoryName, directoryOffset, bread_header (inside d rfl)]
        exact ⟨_, rfl⟩
  · exact ⟨[], rfl⟩

/-- A call at position 0 offers the listing up to the first refusal. -/
theorem readdirCall_start {parent : List UInt8} {offset : Int} {headers : List (Int × List UInt8)}
    (opens : (if 0 < offset then directoryName device junk offset else some []) = some parent)
    (reads : Reads device junk 0 headers .notFound) {fuel : Nat} (enough : headers.length < fuel)
    (answered : Answers) :
    readdirCall device junk offset fuel answered 0 =
      some (untilRefusal answered (entriesOf junk parent headers),
        if ∀ i < (entriesOf junk parent headers).length, answered i = true then 1 else 0) := by
  have pass := @readdirAnswered_reads junk _ parent _ _ _ reads rfl fuel enough answered 0
  simp only [Nat.zero_add] at pass
  rw [readdirCall, if_neg (by decide), opens]
  simp only [pass, Option.map_some, untilRefusal, decide_eq_true_eq]

/-- After a refusal the next call begins again: the position only changes at the end of the archive. -/
theorem readsOnce_iff (inside : ∀ d, dir = some d → d < members.length)
    (one : AcceptsOnePerCall (readdirCall (image members behind) junk (directoryOffset members dir))
      answers 0) :
    ReadsOnce (readdirCall (image members behind) junk (directoryOffset members dir)) answers 0 ↔
      offset members members.length < 1099511627776 ∧
        RefusesNoEntry (readdirCall (image members behind) junk (directoryOffset members dir))
          answers 0 := by
  obtain ⟨parent, opens⟩ := @directory_opens members behind junk dir inside
  rcases @reads_image members behind junk with ⟨short, reads⟩ | ⟨long, n, reads⟩
  · simp only [short, true_and]
    apply readsOnce_iff_of_fuel ((stations members 0 members).length + 1)
    intro fuel large
    have stays : ∀ answered position, position = 1 →
        ∃ next, readdirCall (image members behind) junk (directoryOffset members dir) fuel answered
          position = some ([], next) ∧ next = 1 := by
      rintro answered position rfl
      exact ⟨1, rfl, rfl⟩
    apply readOnce_iff_of_restarting stays (one fuel)
    intro answered
    refine ⟨_, readdirCall_start opens reads large answered, ?_⟩
    split
    · rfl
    · rfl
  · simp only [long, false_and, iff_false]
    intro read
    obtain ⟨enough, returns⟩ := returns_of_readsOnce read
    obtain ⟨entries, position, first⟩ := returns
      (max enough ((stations members 0 (members.take n)).length + 1)) (Nat.le_max_left _ _)
    rw [readdirCall, if_neg (by decide), opens] at first
    simp only [readdirAnswered_all] at first
    rw [readdirLoop_reads reads (Nat.lt_of_succ_le (Nat.le_max_right _ _))] at first
    cases first

end Ksaltuk

/-! ### aboyaritsev/merge -/

namespace Aboyaritsev

variable {names : List Component} {answers : Nat → Answers} {directoryName : List UInt8}

/-- A loop that returns has come to the end of the scan. -/
theorem files_of_readdirLoop {fuel : Nat} {pos : DiskPosition} {fileCount fPos : Int}
    {entries : List (List UInt8)}
    (done : readdirLoop device junk directoryName fuel pos fileCount = .done entries fPos) :
    ∃ files, Files device junk pos files := by
  induction fuel generalizing pos fileCount entries fPos with
  | zero => cases done
  | succ fuel inductionHypothesis =>
      rw [readdirLoop] at done
      cases next : getNextFile device junk pos with
      | blockError => exact ⟨[], .stop (by simp [next])⟩
      | tarEnd end_ => exact ⟨[], .stop (by simp [next])⟩
      | file name after =>
          rw [next] at done
          cases rest : readdirLoop device junk directoryName fuel after (int32 (fileCount + 1)) with
          | done entries' fPos' =>
              obtain ⟨files, others⟩ := inductionHypothesis rest
              exact ⟨(name, after) :: files, .more next others⟩
          | crashed => simp [rest] at done
          | unfinished => simp [rest] at done

/-- Every call at position 0 offers the whole listing, whatever the consumer answers. -/
theorem readdirCall_start {files : List (List UInt8 × DiskPosition)} {path : List UInt8}
    (read : Files device junk initDiskPosition files) (fits : dentryPathRaw names 100 = some path)
    {fuel : Nat} (enough : files.length < fuel) (answered : Answers) :
    readdirCall device junk names fuel answered 0 =
      some (emittedIn junk path files, int32 files.length) := by
  have listed := @readdirLoop_files _ _ _ _ read path fuel enough 0
  rw [zero_add] at listed
  have loop : readdirLoop device junk path fuel initDiskPosition 0 =
      .done (emittedIn junk path files) (int32 files.length) := listed
  rw [readdirCall, tarfsReaddir, if_neg (by decide), fits]
  simp only [loop]

theorem readdirCall_later {position : Int} (nonzero : position ≠ 0) (fuel : Nat) (answered : Answers) :
    readdirCall device junk names fuel answered position = some ([], position) := by
  rw [readdirCall, tarfsReaddir, if_pos nonzero]

theorem int32_natCast_eq_zero (count : Nat) : int32 (count : Int) = 0 ↔ 4294967296 ∣ count := by
  unfold int32
  omega

/-- The entries refused in the first call are lost: the position is the count of files after it. -/
theorem readsOnce_iff :
    ReadsOnce (readdirCall (image members behind) junk names) answers 0 ↔
      PassReturns members behind junk names ∧
        RefusesNoEntry (readdirCall (image members behind) junk names) answers 0 := by
  by_cases returns : PassReturns members behind junk names
  · obtain ⟨path, fits, files, read, counted⟩ := id returns
    simp only [returns, true_and]
    apply readsOnce_iff_of_fuel (files.length + 1)
    intro fuel large
    have first := readdirCall_start read fits large
    have finished : int32 (files.length : Int) ≠ 0 ∨ emittedIn junk path files = [] := by
      by_cases zero : int32 (files.length : Int) = 0
      · exact .inr (counted ((int32_natCast_eq_zero _).mp zero))
      · exact .inl zero
    have stays : ∀ answered position, (position ≠ 0 ∨ emittedIn junk path files = []) →
        ∃ next, readdirCall (image members behind) junk names fuel answered position = some ([], next) ∧
          (next ≠ 0 ∨ emittedIn junk path files = []) := by
      intro answered position stopped
      by_cases zero : position = 0
      · subst zero
        have empty := stopped.resolve_left (fun nonzero => nonzero rfl)
        refine ⟨int32 files.length, ?_, .inr empty⟩
        rw [first, empty]
      · exact ⟨position, readdirCall_later zero fuel answered, .inl zero⟩
    apply readOnce_iff_of_ignoring stays
    intro answered
    exact ⟨int32 files.length, first answered, finished⟩
  · simp only [returns, false_and, iff_false]
    intro read
    obtain ⟨enough, once⟩ := read
    obtain ⟨entries, ⟨position, listing⟩, _⟩ := once enough (Nat.le_refl _)
    rw [readdirCall, tarfsReaddir, if_neg (by decide)] at listing
    cases fits : dentryPathRaw names 100 with
    | none => simp [fits] at listing
    | some path =>
        simp only [fits] at listing
        cases loop : readdirLoop (image members behind) junk path enough initDiskPosition 0 with
        | crashed => simp [loop] at listing
        | unfinished => simp [loop] at listing
        | done entries' fPos' =>
            obtain ⟨files, scanned⟩ := files_of_readdirLoop loop
            -- the count of files is 0 as an `int`, so every call begins again
            have again : 4294967296 ∣ files.length ∧ emittedIn junk path files ≠ [] := by
              by_contra counted
              exact returns ⟨path, fits, files, scanned, fun zero => by
                by_contra some_
                exact counted ⟨zero, some_⟩⟩
            have first := @readdirCall_start junk (image members behind) names files path scanned fits
              (max enough (files.length + 1)) (Nat.lt_of_succ_le (Nat.le_max_right _ _))
            rw [(int32_natCast_eq_zero _).mpr again.1] at first
            exact not_readOnce_of_standing first again.2 (once _ (Nat.le_max_left _ _))

end Aboyaritsev

/-! ### All three -/

/-- With each of the drivers, the calls on an open directory read it once exactly when an uninterrupted
    pass over it returns and the consumer refuses no entry. -/
theorem directory_read_once_iff {blocks : Nat} {before : UInt8}
    (small : (image members (padding blocks)).length < 9223372036854775808)
    (names : List Component) (dir : Option Nat) (inside : ∀ d, dir = some d → d < members.length)
    (answers : Nat → Answers) :
    (AcceptsOnePerCall (Pbelousov.readdirCall (image members (padding blocks)) junk before names)
        answers 0 →
      (ReadsOnce (Pbelousov.readdirCall (image members (padding blocks)) junk before names) answers 0 ↔
        Pbelousov.PassReturns members junk before names ∧
          RefusesNoEntry (Pbelousov.readdirCall (image members (padding blocks)) junk before names)
            answers 0)) ∧
      (AcceptsOnePerCall (Ksaltuk.readdirCall (image members behind) junk
          (Ksaltuk.directoryOffset members dir)) answers 0 →
        (ReadsOnce (Ksaltuk.readdirCall (image members behind) junk
            (Ksaltuk.directoryOffset members dir)) answers 0 ↔
          offset members members.length < 1099511627776 ∧
            RefusesNoEntry (Ksaltuk.readdirCall (image members behind) junk
              (Ksaltuk.directoryOffset members dir)) answers 0)) ∧
      (AcceptsOnePerCall (Aboyaritsev.readdirCall (image members behind) junk names) answers 0 →
        (ReadsOnce (Aboyaritsev.readdirCall (image members behind) junk names) answers 0 ↔
          Aboyaritsev.PassReturns members behind junk names ∧
            RefusesNoEntry (Aboyaritsev.readdirCall (image members behind) junk names) answers 0)) := by
  refine ⟨?_, ?_, ?_⟩
  · intro _
    exact Pbelousov.readsOnce_iff small
  · intro one
    exact Ksaltuk.readsOnce_iff inside one
  · intro _
    exact Aboyaritsev.readsOnce_iff

/-! ### Two files -/

theorem nextName_nonempty : ([98] : List UInt8) ≠ [] := by decide

theorem nextName_short : ([98] : List UInt8).length ≤ 100 := by decide

theorem nextName_plain : Plain [98] := by decide

/-- The files `a` and `b`. -/
def twoFiles : List Member :=
  [emptyFile [97] Ksaltuk.letterName_nonempty Ksaltuk.letterName_short Ksaltuk.letterName_plain,
    emptyFile [98] nextName_nonempty nextName_short nextName_plain]

/-- A consumer with room for one entry in every call. -/
def oneEach : Nat → Answers := fun _ i => i = 0

theorem twoFiles_small : (image twoFiles (padding 1)).length < 9223372036854775808 :=
  Pbelousov.small_of_emptyFiles (by decide) (by decide)

theorem twoFiles_pbelousov : Pbelousov.PassReturns twoFiles ⟨[], 0⟩ 0 [] :=
  ⟨[slash], rfl, by decide +kernel, by decide +kernel⟩

theorem twoFiles_scanned : Aboyaritsev.Files (image twoFiles []) ⟨[], 0⟩ Aboyaritsev.initDiskPosition
    ((Aboyaritsev.reachFrom twoFiles 0).map (Aboyaritsev.station twoFiles)) :=
  Aboyaritsev.files_image (by decide) (by decide)

theorem twoFiles_aboyaritsev : Aboyaritsev.PassReturns twoFiles [] ⟨[], 0⟩ [] :=
  ⟨[slash], rfl, _, twoFiles_scanned, fun counted => absurd counted (by decide +kernel)⟩

/-- A consumer that accepts everything reads the root directory once. -/
theorem two_files_read_once :
    ReadsOnce (Pbelousov.readdirCall (image twoFiles (padding 1)) ⟨[], 0⟩ 0 []) (fun _ _ => true) 0 ∧
      ReadsOnce (Ksaltuk.readdirCall (image twoFiles []) ⟨[], 0⟩ (Ksaltuk.directoryOffset twoFiles none))
        (fun _ _ => true) 0 ∧
      ReadsOnce (Aboyaritsev.readdirCall (image twoFiles []) ⟨[], 0⟩ []) (fun _ _ => true) 0 := by
  obtain ⟨pbelousov, ksaltuk, aboyaritsev⟩ := @directory_read_once_iff twoFiles [] ⟨[], 0⟩ 1 0
    twoFiles_small [] none (fun d none => by cases none) (fun _ _ => true)
  refine ⟨?_, ?_, ?_⟩
  · apply (pbelousov (acceptsOnePerCall_of_first fun _ => rfl)).mpr
    exact ⟨twoFiles_pbelousov, refusesNoEntry_of_all fun _ _ => rfl⟩
  · apply (ksaltuk (acceptsOnePerCall_of_first fun _ => rfl)).mpr
    exact ⟨by decide, refusesNoEntry_of_all fun _ _ => rfl⟩
  · apply (aboyaritsev (acceptsOnePerCall_of_first fun _ => rfl)).mpr
    exact ⟨twoFiles_aboyaritsev, refusesNoEntry_of_all fun _ _ => rfl⟩

/-- A consumer with room for one entry in every call never gets the second with two of the drivers, and
    gets the first in every call with the third. -/
theorem refused_file_not_read_once :
    (∀ k, oneEach k 0 = true) ∧
      ¬ReadsOnce (Pbelousov.readdirCall (image twoFiles (padding 1)) ⟨[], 0⟩ 0 []) oneEach 0 ∧
      ¬ReadsOnce (Ksaltuk.readdirCall (image twoFiles []) ⟨[], 0⟩ (Ksaltuk.directoryOffset twoFiles none))
        oneEach 0 ∧
      ¬ReadsOnce (Aboyaritsev.readdirCall (image twoFiles []) ⟨[], 0⟩ []) oneEach 0 := by
  refine ⟨fun _ => rfl, ?_, ?_, ?_⟩
  · rw [Pbelousov.readsOnce_iff twoFiles_small]
    rintro ⟨returns, none⟩
    have fits : dentryPathRaw [] 256 = some [slash] := rfl
    have returned := (@Pbelousov.returns_of_passReturns _ _ 1 _ _ _ fits).mpr returns
    have first := fun fuel
        (large : (Pbelousov.stations 1 twoFiles Pbelousov.initPosStart).length < fuel) =>
      (@Pbelousov.readdirCall_start twoFiles ⟨[], 0⟩ 1 0 [] twoFiles_small fuel large _ fits
        (oneEach 0)).trans (if_pos returned)
    refine refused_of_first (fun fuel large => ⟨_, first fuel large⟩) ?_
      (by decide : oneEach 0 1 = false) none
    decide +kernel
  · rw [Ksaltuk.readsOnce_iff (fun d none => by cases none) (acceptsOnePerCall_of_first fun _ => rfl)]
    rintro ⟨short, none⟩
    have reads := (@Ksaltuk.reads_image twoFiles [] ⟨[], 0⟩).resolve_right (fun long => long.1 short)
    refine refused_of_first (fun fuel large => ⟨_, Ksaltuk.readdirCall_start rfl reads.2 large _⟩) ?_
      (by decide : oneEach 0 1 = false) none
    decide +kernel
  · rw [Aboyaritsev.readsOnce_iff]
    rintro ⟨_, none⟩
    have fits : dentryPathRaw [] 100 = some [slash] := rfl
    refine refused_of_first (fun fuel large =>
      ⟨_, Aboyaritsev.readdirCall_start twoFiles_scanned fits large _⟩) ?_
      (by decide : oneEach 0 1 = false) none
    decide +kernel

end Nfs4Compound.Tar
