/-
Module: Nfs4Compound.Proofs.TarSeek
Layer: Proofs
Purpose: Which members the driver of pbelousov finds by their path.
Imports: Nfs4Compound.Proofs.TarNames
Trusted boundary: none
Main exports: finds_first_iff
-/
import Nfs4Compound.Proofs.TarNames

namespace Nfs4Compound.Tar.Pbelousov

open CText

variable {members : List Member} {blocks : Nat} {junk : Junk}

/-! ### Looking for a path -/

section Seek

variable {path : List UInt8}

/-- `seek_header` over the headers it reads. -/
def seekIn (junk : Junk) (path : List UInt8) : List (List UInt8 × HeaderPos) → Seek
  | [] => .notFound
  | (header, next) :: rest =>
      if nameOverruns junk header then .overrun
      else if comparedName junk header = path then .found next.num (next.offset + 512)
      else seekIn junk path rest

theorem seekHeader_reads {device : List UInt8} {pos : HeaderPos}
    {headers : List (List UInt8 × HeaderPos)} (reads : Reads device junk pos headers) {fuel : Nat}
    (enough : headers.length < fuel) :
    seekHeader device junk path fuel pos = seekIn junk path headers := by
  induction reads generalizing fuel with
  | none read =>
      obtain ⟨fuel, rfl⟩ : ∃ k, fuel = k + 1 := ⟨fuel - 1, by simp at enough; omega⟩
      rw [seekHeader, read]
      rfl
  | some read more inductionHypothesis =>
      rw [List.length_cons] at enough
      obtain ⟨fuel, rfl⟩ : ∃ k, fuel = k + 1 := ⟨fuel - 1, by omega⟩
      rw [seekHeader, read, seekIn]
      simp only []
      rw [inductionHypothesis (by omega)]

theorem seekIn_zeros (nonempty : path ≠ []) (blocks : Nat) (pos : HeaderPos) :
    seekIn junk path (zeroStations blocks pos) = .notFound := by
  induction blocks generalizing pos with
  | zero => rfl
  | succ blocks inductionHypothesis =>
      rw [zeroStations, seekIn, nameOverruns_zeroBlock, comparedName_zeroBlock, if_neg nonempty.symm]
      exact inductionHypothesis _

/-- The first member of the path among those from a position on. -/
def firstFrom (members : List Member) (path : List UInt8) (pos : HeaderPos) : Seek :=
  match members.findIdx? (fun m => ustarPath m = path) with
  | some j => .found (pos.num + j + 1) (pos.offsetNextHeader + Tar.offset members j + 512)
  | none => .notFound

theorem firstFrom_cons (m : Member) (rest : List Member) (pos : HeaderPos) :
    firstFrom (m :: rest) path pos =
      if ustarPath m = path then .found (pos.num + 1) (pos.offsetNextHeader + 512)
      else firstFrom rest path
        ⟨pos.offsetNextHeader, pos.offsetNextHeader + m.span, pos.num + 1⟩ := by
  unfold firstFrom
  rw [List.findIdx?_cons]
  by_cases same : ustarPath m = path
  · simp [same, Tar.offset]
  · simp only [same, decide_false, Bool.false_eq_true, if_false]
    cases List.findIdx? (fun m => decide (ustarPath m = path)) rest with
    | none => rfl
    | some j =>
        simp only [Option.map_some, Tar.offset, List.take_succ_cons, List.map_cons, List.sum_cons]
        congr 1 <;> omega

theorem number_gt_of_firstFrom {members : List Member} {pos : HeaderPos} {number start : Nat}
    (found : firstFrom members path pos = .found number start) : pos.num < number := by
  unfold firstFrom at found
  split at found
  · cases found
    omega
  · cases found

theorem number_gt_of_seekIn (nonempty : path ≠ []) {members : List Member} {pos : HeaderPos}
    {number start : Nat} (found : seekIn junk path (stations blocks members pos) = .found number start) :
    pos.num < number := by
  induction members generalizing pos with
  | nil =>
      rw [stations, seekIn_zeros nonempty] at found
      cases found
  | cons m rest inductionHypothesis =>
      rw [stations, seekIn] at found
      split at found
      · cases found
      · split at found
        · cases found
          exact Nat.lt_succ_self _
        · exact Nat.lt_of_succ_lt (inductionHypothesis found)

theorem firstFrom_ne_overrun (members : List Member) (pos : HeaderPos) :
    firstFrom members path pos ≠ .overrun := by
  unfold firstFrom
  split <;> exact fun same => by cases same

/-- A member is matched by its path, and its name fits in the buffer. -/
def Matched (junk : Junk) (path : List UInt8) (m : Member) : Prop :=
  nameOverruns junk m.header = false ∧ (comparedName junk m.header = path ↔ ustarPath m = path)

/-- Members up to the first of that path are matched by their path. -/
def MatchedUpToFirst (junk : Junk) (path : List UInt8) (members : List Member) : Prop :=
  ∀ j, (inside : j < members.length) → (∀ i, (less : i < j) → ustarPath members[i] ≠ path) →
    Matched junk path members[j]

theorem matchedUpToFirst_cons (m : Member) (rest : List Member) :
    MatchedUpToFirst junk path (m :: rest) ↔
      Matched junk path m ∧ (ustarPath m ≠ path → MatchedUpToFirst junk path rest) := by
  constructor
  · intro all
    refine ⟨all 0 (by simp) (fun i less => by omega), ?_⟩
    intro other j inside before
    apply all (j + 1) (by simpa using inside)
    intro i less
    cases i with
    | zero => exact other
    | succ i => exact before i (by omega)
  · rintro ⟨first, others⟩ j inside before
    cases j with
    | zero => exact first
    | succ j =>
        have other : ustarPath m ≠ path := before 0 (by omega)
        exact others other j (by simpa using inside) fun i less => before (i + 1) (by omega)

theorem seekIn_stations (nonempty : path ≠ []) (members : List Member) (pos : HeaderPos) :
    seekIn junk path (stations blocks members pos) = firstFrom members path pos ↔
      MatchedUpToFirst junk path members := by
  induction members generalizing pos with
  | nil =>
      rw [stations, seekIn_zeros nonempty]
      constructor
      · intro _ j inside
        simp at inside
      · intro _
        rfl
  | cons m rest inductionHypothesis =>
      rw [stations, seekIn, firstFrom_cons, matchedUpToFirst_cons, Matched]
      by_cases overruns : nameOverruns junk m.header
      · simp only [overruns, if_true, reduceCtorEq, false_and, iff_false]
        split
        · exact fun same => by cases same
        · exact (firstFrom_ne_overrun _ _).symm
      · by_cases matched : comparedName junk m.header = path
        · by_cases right : ustarPath m = path
          · simp [overruns, matched, right]
          · -- the loop stops here, the member of that path comes later
            simp only [overruns, matched, right, if_true, if_false, iff_false, not_true, and_false,
              false_and]
            intro same
            exact Nat.lt_irrefl _ (number_gt_of_firstFrom same.symm)
        · by_cases right : ustarPath m = path
          · simp only [overruns, matched, right, if_true, if_false, false_iff, not_true, and_false,
              false_and, iff_false]
            intro same
            exact Nat.lt_irrefl _ (number_gt_of_seekIn nonempty same)
          · simp only [overruns, matched, right, if_false, iff_self, and_true, true_and, ne_eq,
              not_false_eq_true, true_implies]
            exact inductionHypothesis _

/-- `seek_header` finds the first member of a path exactly when every member up to it is matched by
    its path. -/
theorem findsFirst_iff_matched (nonempty : path ≠ [])
    (small : (image members (padding blocks)).length < 9223372036854775808) :
    FindsFirst members blocks junk path ↔ MatchedUpToFirst junk path members := by
  have reads := @reads_image members blocks junk small
  have spec : firstMember members path = firstFrom members path initPosStart := by
    unfold firstMember firstFrom
    cases List.findIdx? (fun m => decide (ustarPath m = path)) members with
    | none => rfl
    | some j => simp [initPosStart]
  rw [← seekIn_stations nonempty members initPosStart, ← spec]
  constructor
  · rintro ⟨enough, finds⟩
    have run := finds (max enough ((stations blocks members initPosStart).length + 1))
      (Nat.le_max_left _ _)
    rwa [seekHeader_reads reads (Nat.lt_of_succ_le (Nat.le_max_right _ _))] at run
  · intro same
    refine ⟨(stations blocks members initPosStart).length + 1, fun fuel enough => ?_⟩
    rw [seekHeader_reads reads enough, same]

/-- A shorter text with the same last byte is another path, unless nothing is left of it. -/
theorem dropSlash_eq_nil_of_shorter {short long : List UInt8} (less : short.length < long.length)
    (last : short ≠ [] → short.getLast? = long.getLast?) (same : dropSlash short = dropSlash long) :
    dropSlash short = [] := by
  by_cases empty : short = []
  · rw [empty]
    rfl
  · have lengths := congrArg List.length same
    have positive := List.length_pos_iff.mpr empty
    unfold dropSlash at lengths
    rw [last empty] at lengths
    split at lengths
    · rw [List.length_dropLast, List.length_dropLast] at lengths
      omega
    · omega

/-- A terminated member with a prefix or a hidden name is not compared by its path. -/
theorem asCompared_ne_ustarPath {m : Member} (hidden : ¬PlainlyNamed m)
    (same : asCompared (m.namePrefix ++ m.name) = ustarPath m) :
    asCompared (m.namePrefix ++ m.name) = [] := by
  have nonempty := m.name_nonempty
  have positive : 0 < m.name.length := List.length_pos_iff.mpr nonempty
  -- the full name, and the one that is compared, both end as the name does
  have last (front : List UInt8) (k : Nat) (kept : (front ++ m.name).drop k ≠ []) :
      ((front ++ m.name).drop k).getLast? = m.name.getLast? := by
    rw [List.getLast?_drop, if_neg (by
      rw [ne_eq, List.drop_eq_nil_iff] at kept
      exact kept), List.getLast?_append, List.getLast?_eq_some_getLast nonempty, Option.some_or]
  unfold asCompared at same ⊢
  rw [ustarPath] at same
  by_cases noPrefix : m.namePrefix = []
  · rw [if_pos noPrefix] at same
    have dot : m.name.head? = some period ∧ m.name.take 2 ≠ [period, slash] := by
      by_contra visible
      apply hidden
      refine ⟨noPrefix, fun dot => ?_⟩
      by_contra other
      exact visible ⟨dot, other⟩
    simp only [noPrefix, List.nil_append, skipped, dot.1, if_true, dot.2, if_false] at same ⊢
    apply dropSlash_eq_nil_of_shorter _ _ same
    · rw [List.length_drop]
      omega
    · intro kept
      exact last [] 2 (by simpa using kept)
  · rw [if_neg noPrefix] at same
    have full : m.namePrefix ++ slash :: m.name = (m.namePrefix ++ [slash]) ++ m.name := by simp
    have prefixed : 0 < m.namePrefix.length := List.length_pos_iff.mpr noPrefix
    rw [full] at same
    have whole (k : Nat) (kept : k ≤ 2) : (((m.namePrefix ++ [slash]) ++ m.name).drop k).getLast? =
        m.name.getLast? := by
      apply last
      rw [ne_eq, List.drop_eq_nil_iff]
      simp only [List.length_append, List.length_singleton]
      omega
    have head (rest : List UInt8) : (m.namePrefix ++ rest).head? = m.namePrefix.head? := by
      rw [List.head?_append, List.head?_eq_some_head noPrefix, Option.some_or]
    unfold skipped at same ⊢
    rw [head] at same ⊢
    by_cases dot : m.namePrefix.head? = some period
    · rw [if_pos dot] at same ⊢
      split at same
      · apply dropSlash_eq_nil_of_shorter _ _ same
        · simp only [List.length_drop, List.length_append, List.length_singleton]
          omega
        · intro kept
          rw [last _ _ kept, whole 2 (by decide)]
      · apply dropSlash_eq_nil_of_shorter _ _ same
        · simp only [List.length_drop, List.length_append, List.length_singleton]
          omega
        · intro kept
          rw [last _ _ kept]
          exact (whole 0 (by decide)).symm
    · rw [if_neg dot] at same ⊢
      have other : ((m.namePrefix ++ [slash]) ++ m.name).take 2 ≠ [period, slash] := by
        intro start
        apply dot
        have first := congrArg List.head? start
        rw [List.head?_take, if_neg (by decide), List.append_assoc, head] at first
        exact first
      rw [if_neg other] at same
      apply dropSlash_eq_nil_of_shorter _ _ same
      · simp only [List.length_drop, List.length_append, List.length_singleton]
        omega
      · intro kept
        rw [last _ _ kept]
        exact (whole 0 (by decide)).symm

/-- A member that is not plainly named is matched by its path exactly if it is out of the way. -/
theorem matched_iff_outOfTheWay (nonempty : path ≠ []) {m : Member} (hidden : ¬PlainlyNamed m) :
    Matched junk path m ↔ OutOfTheWay junk path m := by
  rw [Matched, OutOfTheWay, nameOverruns_member, comparedName, tarName_member]
  split
  · rename_i ends
    rw [joinedName_terminated ends]
    simp only [fits_of_terminated ends, true_and]
    constructor
    · intro matched
      have apart : ustarPath m ≠ path := by
        intro right
        have same := matched.mpr right
        exact nonempty (same.symm.trans (asCompared_ne_ustarPath hidden (same.trans right.symm)))
      exact ⟨apart, fun same => apart (matched.mp same)⟩
    · rintro ⟨apart, other⟩
      exact ⟨fun same => absurd same other, fun right => absurd right apart⟩
  · apply and_congr_right
    intro _
    constructor
    · intro matched
      by_cases right : ustarPath m = path
      · exact .inl ((matched.mpr right).trans right.symm)
      · exact .inr ⟨right, fun same => right (matched.mp same)⟩
    · rintro (same | ⟨apart, other⟩)
      · rw [same]
      · exact ⟨fun same => absurd same other, fun right => absurd right apart⟩

/-- `seek_header` finds the first member of a path exactly when those members up to it that have a
    prefix or a hidden name are out of the way. -/
theorem finds_first_iff (nonempty : path ≠ [])
    (small : (image members (padding blocks)).length < 9223372036854775808) :
    FindsFirst members blocks junk path ↔
      ∀ j, (inside : j < members.length) → (∀ i, (less : i < j) → ustarPath members[i] ≠ path) →
        ¬PlainlyNamed members[j] → OutOfTheWay junk path members[j] := by
  rw [findsFirst_iff_matched nonempty small]
  constructor
  · intro all j inside before hidden
    exact (matched_iff_outOfTheWay nonempty hidden).mp (all j inside before)
  · intro others j inside before
    by_cases plainly : PlainlyNamed members[j]
    · rw [Matched, comparedName_member plainly, nameOverruns_member]
      exact ⟨fits_of_terminated (terminated_of_noPrefix plainly.1), Iff.rfl⟩
    · exact (matched_iff_outOfTheWay nonempty plainly).mpr (others j inside before plainly)

theorem small_of_emptyFiles {members : List Member} (few : members.length ≤ 4)
    (empty : ∀ m ∈ members, m.size = 0) :
    (image members (padding 1)).length < 9223372036854775808 := by
  have spans : ∀ files : List Member, (∀ m ∈ files, m.size = 0) →
      (files.map Member.span).sum = 512 * files.length := by
    intro files
    induction files with
    | nil => intro _; rfl
    | cons m rest inductionHypothesis =>
        intro sizes
        have span : m.span = 512 := by
          rw [Member.span, sizes m (by simp)]
          rfl
        rw [List.map_cons, List.sum_cons, inductionHypothesis (fun x member => sizes x (by simp [member])),
          span, List.length_cons]
        omega
  rw [length_image, Tar.offset, List.take_length, spans members empty, padding, List.length_replicate]
  omega

/-- The file `x` with the prefix `d`, and the file `b`. -/
def prefixedFiles : List Member :=
  [{ emptyFile [120] (by decide) (by decide) (by decide) with
      namePrefix := [100]
      namePrefix_length := by decide
      namePrefix_plain := by decide },
    emptyFile [98] (by decide) (by decide) (by decide)]

/-- The second file is found, since `dx` is not what is looked for. -/
theorem finds_first_in_prefixedFiles : FindsFirst prefixedFiles 1 ⟨[], 0⟩ [98] :=
  (finds_first_iff (by decide) (small_of_emptyFiles (by decide) (by decide))).mpr (by
    intro j inside before hidden
    have out : ∀ m ∈ prefixedFiles, ¬PlainlyNamed m → OutOfTheWay ⟨[], 0⟩ [98] m := by
      intro m member other
      rw [prefixedFiles, List.mem_cons, List.mem_singleton] at member
      rcases member with rfl | rfl
      · rw [OutOfTheWay, if_pos (by decide)]
        decide
      · exact absurd (by decide) other
    exact out _ (List.getElem_mem inside) hidden)

/-- The hidden file `.ab`, looked for by its name: two bytes of it are skipped. -/
def hiddenFile : Member := emptyFile [46, 97, 98] (by decide) (by decide) (by decide)

theorem hidden_file_not_found : ¬FindsFirst [hiddenFile] 1 ⟨[], 0⟩ [46, 97, 98] := by
  rw [findsFirst_iff_matched (by decide) (small_of_emptyFiles (by decide) (by decide)),
    matchedUpToFirst_cons, matched_iff_outOfTheWay (by decide) (by decide), OutOfTheWay,
    if_pos (by decide)]
  rintro ⟨⟨apart, _⟩, _⟩
  exact apart (by decide)

end Seek

end Nfs4Compound.Tar.Pbelousov
