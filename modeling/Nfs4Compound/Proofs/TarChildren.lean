/-
Module: Nfs4Compound.Proofs.TarChildren
Layer: Proofs
Purpose: Which members the driver of pbelousov lists as children of a directory.
Imports: Nfs4Compound.Proofs.TarSeek
Trusted boundary: none
Main exports: lists_children_iff
-/
import Nfs4Compound.Proofs.TarSeek

namespace Nfs4Compound.Tar.Pbelousov

open CText

variable {members : List Member} {blocks : Nat} {junk : Junk}

/-! ### The last component -/

section Children

variable {dir : List UInt8} {before : UInt8}

/-- A path with this parent is the directory, slashes, and the last component. -/
theorem lastComponent_eq_some {path child : List UInt8} (proper : dir.getLast? ≠ some slash) :
    lastComponent dir path = some child ↔
      child ≠ [] ∧ slash ∉ child ∧
        ∃ n, path = dir ++ (List.replicate n slash ++ child) ∧ (n = 0 → dir = []) := by
  unfold lastComponent
  simp only [Option.ite_none_right_eq_some, Option.some.injEq]
  constructor
  · rintro ⟨⟨nonempty, parent⟩, rfl⟩
    refine ⟨nonempty, ?_, ?_⟩
    · intro member
      have := List.mem_takeWhile_imp (List.mem_reverse.mp member)
      simp at this
    · -- behind the last component, seen from the end, come the slashes and then the directory
      have slashes : (path.reverse.dropWhile (· ≠ slash)).takeWhile (· = slash) =
          List.replicate ((path.reverse.dropWhile (· ≠ slash)).takeWhile (· = slash)).length slash := by
        rw [List.eq_replicate_iff]
        exact ⟨rfl, fun c member => by simpa using List.mem_takeWhile_imp member⟩
      have split : path.reverse = path.reverse.takeWhile (· ≠ slash) ++
          ((path.reverse.dropWhile (· ≠ slash)).takeWhile (· = slash) ++ dir.reverse) := by
        rw [← parent, List.reverse_reverse, List.takeWhile_append_dropWhile,
          List.takeWhile_append_dropWhile]
      refine ⟨((path.reverse.dropWhile (· ≠ slash)).takeWhile (· = slash)).length, ?_, ?_⟩
      · have whole := congrArg List.reverse split
        rw [List.reverse_reverse, List.reverse_append, List.reverse_append, List.reverse_reverse] at whole
        rw [slashes, List.reverse_replicate, List.append_assoc] at whole
        exact whole
      · intro none
        cases tail : path.reverse.dropWhile (· ≠ slash) with
        | nil =>
            rw [tail] at parent
            exact parent.symm
        | cons c rest =>
            have stop := List.head?_dropWhile_not (· ≠ slash) path.reverse
            rw [tail] at stop none
            have : c = slash := by simpa using stop
            simp [this] at none
  · rintro ⟨nonempty, plain, n, rfl, root⟩
    have reversed : (dir ++ (List.replicate n slash ++ child)).reverse =
        child.reverse ++ (List.replicate n slash ++ dir.reverse) := by
      simp
    have inside : ∀ c ∈ child.reverse, decide (c ≠ slash) = true := by
      intro c member
      rw [decide_eq_true_eq]
      rintro rfl
      exact plain (List.mem_reverse.mp member)
    have stop : ∀ c, (List.replicate n slash ++ dir.reverse).head? = some c →
        decide (c ≠ slash) = false := by
      intro c head
      cases n with
      | zero => simp [root rfl] at head
      | succ n =>
          rw [List.replicate_succ, List.cons_append, List.head?_cons, Option.some.injEq] at head
          simp [← head]
    have behind : (List.replicate n slash ++ dir.reverse).dropWhile (· = slash) = dir.reverse := by
      apply dropWhile_run
      · intro c member
        simpa using List.eq_of_mem_replicate member
      · intro c head
        rw [List.head?_reverse] at head
        rw [decide_eq_false_iff_not]
        rintro rfl
        exact proper head
    rw [reversed, takeWhile_run inside stop, dropWhile_run inside stop, behind]
    simpa using nonempty

/-! ### Judging a member -/

/-- `is_child_file` on a path. -/
def childIn (dir path : List UInt8) : ChildTest :=
  if path.length ≤ dir.length then .no
  else if path.take dir.length ≠ dir then .no
  else
    let child := (path.drop dir.length).dropWhile (· = slash)
    if slash ∈ child then .no else .yes child

/-- The name in a buffer, without what is skipped and with a trailing slash cut off, is the name as it is
    compared; its length is right unless nothing is left. -/
theorem strptr_text {buf : List UInt8} (nonempty : (cstr buf).drop (skipped (cstr buf)) ≠ []) :
    ∃ rest, (if (cstr buf).getLast?.getD before = slash then buf.set ((cstr buf).length - 1) 0
        else buf).drop (skipped (cstr buf)) = asCompared (cstr buf) ++ rest ∧
      (∀ c, rest.head? = some c → c = 0) ∧
      ((cstr buf).length : Int) - skipped (cstr buf) -
        (if (cstr buf).getLast?.getD before = slash then 1 else 0) = (asCompared (cstr buf)).length := by
  obtain ⟨rest, split, stop⟩ := cstr_split buf
  rw [asCompared]
  generalize cstr buf = name at *
  obtain ⟨skip, full, parts, length, rfl⟩ : ∃ skip full, name = skip ++ full ∧
      skip.length = skipped name ∧ full = name.drop (skipped name) := by
    refine ⟨name.take (skipped name), _, (List.take_append_drop _ _).symm, ?_, rfl⟩
    rw [List.length_take]
    rw [ne_eq, List.drop_eq_nil_iff] at nonempty
    omega
  generalize name.drop (skipped name) = full at parts nonempty
  have last : name.getLast? = full.getLast? := by
    rw [parts, List.getLast?_append, List.getLast?_eq_some_getLast nonempty, Option.some_or]
  obtain ⟨body, c, rfl⟩ : ∃ body c, full = body ++ [c] :=
    ⟨full.dropLast, full.getLast nonempty, (List.dropLast_concat_getLast nonempty).symm⟩
  rw [List.getLast?_concat] at last
  rw [← length, last, Option.getD_some, dropSlash, List.getLast?_concat]
  by_cases ends : c = slash
  · refine ⟨0 :: rest, ?_, by simp, ?_⟩
    · have cut : buf.set (name.length - 1) 0 = skip ++ (body ++ 0 :: rest) := by
        have position : name.length - 1 = (skip ++ body).length := by
          rw [parts]
          simp
        have whole : buf = (skip ++ body) ++ c :: rest := by
          rw [split, parts]
          simp
        rw [position, whole, List.set_append_right _ _ (Nat.le_refl _), Nat.sub_self, List.set_cons_zero,
          List.append_assoc]
      rw [if_pos ends, if_pos (by rw [ends]; rfl), cut, List.drop_left, List.dropLast_concat]
    · rw [if_pos ends, if_pos (by rw [ends]; rfl), List.dropLast_concat, parts]
      simp
  · have other : ¬some c = some 47 := by simpa [slash] using ends
    refine ⟨rest, ?_, stop, ?_⟩
    · rw [if_neg ends, if_neg other, split, parts, List.append_assoc, List.drop_left]
    · rw [if_neg ends, if_neg other, parts]
      simp

/-- Where a string ends, nothing more of it comes. -/
theorem cstr_of_stop {rest : List UInt8} (stop : ∀ c, rest.head? = some c → c = 0) : cstr rest = [] := by
  cases rest with
  | nil => rfl
  | cons c more =>
      rw [stop c rfl]
      exact cstr_zero _

/-- A name of which something is left is judged as it is compared. -/
theorem isChildFile_eq {header : List UInt8} (fits : nameOverruns junk header = false)
    (nonempty : (tarName junk header).drop (skipped (tarName junk header)) ≠ []) :
    isChildFile junk before dir header = childIn dir (comparedName junk header) := by
  obtain ⟨rest, strptr, stop, len⟩ := @strptr_text before (tarNameBuffer junk header) nonempty
  have plain : Plain (asCompared (cstr (tarNameBuffer junk header))) := by
    unfold asCompared
    apply plain_dropSlash
    intro c member
    exact plain_cstr _ c (List.mem_of_mem_drop member)
  have text : comparedName junk header = asCompared (cstr (tarNameBuffer junk header)) := rfl
  rw [isChildFile, childIn, text]
  simp only [fits, strptr, len, cstr_append plain, cstr_of_stop stop, List.append_nil, Bool.false_eq_true,
    if_false]
  generalize asCompared (cstr (tarNameBuffer junk header)) = compared
  have nonneg : (0 : Int) ≤ compared.length := by omega
  simp only [nonneg, true_and, if_true, Int.ofNat_le]
  split
  · rfl
  · rename_i longer
    split
    · rfl
    · have behind : (compared ++ rest).drop dir.length = compared.drop dir.length ++ rest := by
        rw [List.drop_append_of_le_length (by omega)]
      -- what follows the name is no slash
      have taken : (compared.drop dir.length ++ rest).takeWhile (fun c => decide (c = slash)) =
          (compared.drop dir.length).takeWhile (fun c => decide (c = slash)) := by
        cases rest with
        | nil => rw [List.append_nil]
        | cons c more =>
            rw [stop c rfl]
            exact takeWhile_append_stop (by decide) _ _
      have dropped : (compared.drop dir.length ++ rest).dropWhile (fun c => decide (c = slash)) =
          (compared.drop dir.length).dropWhile (fun c => decide (c = slash)) ++ rest := by
        cases rest with
        | nil => rw [List.append_nil, List.append_nil]
        | cons c more =>
            rw [stop c rfl]
            exact dropWhile_append_stop (by decide) _ _
      have split := congrArg List.length (@List.takeWhile_append_dropWhile _
        (fun c => decide (c = slash)) (compared.drop dir.length))
      rw [List.length_append, List.length_drop] at split
      rw [behind, taken, dropped, List.take_left' (by omega)]

/-- Something is left of the name of a plainly named member. -/
theorem rest_of_plainly {m : Member} (plainly : PlainlyNamed m) (notRoot : m.name ≠ [period, slash]) :
    m.name.drop (skipped m.name) ≠ [] := by
  unfold skipped
  split
  · rename_i dot
    intro empty
    apply notRoot
    rw [← List.take_append_drop 2 m.name, empty, plainly.2 dot]
    rfl
  · rw [List.drop_zero]
    exact m.name_nonempty

theorem isChildFile_member {m : Member} (plainly : PlainlyNamed m) (notRoot : m.name ≠ [period, slash]) :
    isChildFile junk before dir m.header = childIn dir (ustarPath m) := by
  have fits : nameOverruns junk m.header = false := by
    rw [nameOverruns_member, prefixText_of_short (by rw [plainly.1]; decide), plainly.1]
    decide
  have name : tarName junk m.header = m.name := by rw [tarName_member, joinedName_noPrefix plainly.1]
  rw [isChildFile_eq fits (by rw [name]; exact rest_of_plainly plainly notRoot),
    comparedName_member plainly]

/-- A path that the directory is not a proper start of is no child. -/
theorem childIn_outside {path : List UInt8} (apart : ∀ rest, path = dir ++ rest → rest = []) :
    childIn dir path = .no := by
  unfold childIn
  split
  · rfl
  · rename_i longer
    split
    · rfl
    · rename_i start
      have rest := apart (path.drop dir.length) (by
        conv_lhs => rw [← List.take_append_drop dir.length path]
        rw [not_not.mp start])
      rw [List.drop_eq_nil_iff] at rest
      exact absurd rest longer

theorem childIn_inside {rest : List UInt8} (nonempty : rest ≠ []) :
    childIn dir (dir ++ rest) =
      if slash ∈ rest.dropWhile (· = slash) then .no else .yes (rest.dropWhile (· = slash)) := by
  have positive : 0 < rest.length := List.length_pos_iff.mpr nonempty
  have longer : ¬(dir ++ rest).length ≤ dir.length := by
    rw [List.length_append]
    omega
  rw [childIn, if_neg longer, if_neg (by simp), List.drop_left]

/-- What is left of a path behind the directory: slashes and then the child. -/
theorem slashes_split (rest : List UInt8) :
    ∃ n, rest = List.replicate n slash ++ rest.dropWhile (· = slash) := by
  refine ⟨(rest.takeWhile (· = slash)).length, ?_⟩
  have slashes : rest.takeWhile (· = slash) =
      List.replicate (rest.takeWhile (· = slash)).length slash := by
    rw [List.eq_replicate_iff]
    exact ⟨rfl, fun c member => by simpa using List.mem_takeWhile_imp member⟩
  rw [← slashes, List.takeWhile_append_dropWhile]

theorem dropWhile_slashes {n : Nat} {child : List UInt8} (plain : slash ∉ child) :
    (List.replicate n slash ++ child).dropWhile (· = slash) = child := by
  apply dropWhile_run
  · intro c member
    simpa using List.eq_of_mem_replicate member
  · intro c head
    rw [decide_eq_false_iff_not]
    rintro rfl
    exact plain (List.mem_of_mem_head? head)

/-- The last component of a path below the directory, by how it goes on behind the directory. -/
theorem lastComponent_inside {n : Nat} {child : List UInt8} (proper : dir.getLast? ≠ some slash)
    (first : child.head? ≠ some slash) :
    lastComponent dir (dir ++ (List.replicate n slash ++ child)) =
      if child ≠ [] ∧ slash ∉ child ∧ (n = 0 → dir = []) then some child else none := by
  split
  · rename_i proper'
    exact (lastComponent_eq_some proper).mpr ⟨proper'.1, proper'.2.1, n, rfl, proper'.2.2⟩
  · rename_i other
    cases found : lastComponent dir (dir ++ (List.replicate n slash ++ child)) with
    | none => rfl
    | some found' =>
        obtain ⟨nonempty, plain, k, split, root⟩ := (lastComponent_eq_some proper).mp found
        rw [List.append_cancel_left_eq] at split
        have same : child = found' := by
          have dropped := congrArg (List.dropWhile (· = slash)) split
          rw [dropWhile_slashes plain, dropWhile_run] at dropped
          · exact dropped
          · intro c member
            simpa using List.eq_of_mem_replicate member
          · intro c head
            rw [decide_eq_false_iff_not]
            rintro rfl
            exact first head
        have count : n = k := by
          have length := congrArg List.length split
          rw [same] at length
          simpa using length
        rw [same, count] at other
        exact absurd ⟨nonempty, plain, root⟩ other

/-- Behind the directory, a path is mistaken for a child in just two cases. -/
theorem mistaken_iff {n : Nat} {child : List UInt8} (first : child.head? ≠ some slash)
    (nonempty : List.replicate n slash ++ child ≠ []) :
    Mistaken dir (dir ++ (List.replicate n slash ++ child)) ↔
      child = [] ∨ (dir ≠ [] ∧ n = 0 ∧ slash ∉ child) := by
  have only : Mistaken dir (dir ++ (List.replicate n slash ++ child)) ↔
      (∀ c ∈ List.replicate n slash ++ child, c = slash) ∨
        (dir ≠ [] ∧ slash ∉ List.replicate n slash ++ child) := by
    constructor
    · rintro ⟨rest, split, _, either⟩
      rw [List.append_cancel_left_eq] at split
      rwa [split]
    · intro either
      exact ⟨_, rfl, nonempty, either⟩
  rw [only]
  constructor
  · rintro (all | ⟨below, none⟩)
    · left
      cases child with
      | nil => rfl
      | cons c rest =>
          have : c = slash := all c (by simp)
          exact absurd (by rw [this]; rfl) first
    · right
      rw [List.mem_append, not_or, List.mem_replicate] at none
      refine ⟨below, ?_, none.2⟩
      by_contra some
      exact none.1 ⟨some, rfl⟩
  · rintro (rfl | ⟨below, rfl, none⟩)
    · left
      intro c member
      rw [List.append_nil] at member
      exact List.eq_of_mem_replicate member
    · right
      exact ⟨below, by simpa using none⟩

/-- A path is judged rightly exactly when it is not mistaken. -/
theorem childIn_eq_verdict_iff {m : Member} (proper : dir.getLast? ≠ some slash) :
    childIn dir (ustarPath m) = verdict dir m ↔ ¬Mistaken dir (ustarPath m) := by
  rw [verdict]
  generalize ustarPath m = path
  by_cases apart : ∀ rest, path = dir ++ rest → rest = []
  · have none : lastComponent dir path = none := by
      cases found : lastComponent dir path with
      | none => rfl
      | some child =>
          obtain ⟨nonempty, _, n, split, _⟩ := (lastComponent_eq_some proper).mp found
          have empty := apart _ split
          simp at empty
          exact absurd empty.2 nonempty
    rw [childIn_outside apart, none]
    simp only [true_iff]
    rintro ⟨rest, split, nonempty, _⟩
    exact nonempty (apart rest split)
  · obtain ⟨rest, rfl, nonempty⟩ : ∃ rest, path = dir ++ rest ∧ rest ≠ [] := by
      simpa only [not_forall, exists_prop] using apart
    obtain ⟨n, split⟩ := slashes_split rest
    have first : (rest.dropWhile (· = slash)).head? ≠ some slash := by
      intro head
      have stop := List.head?_dropWhile_not (fun c => decide (c = slash)) rest
      rw [head] at stop
      simp at stop
    rw [childIn_inside nonempty]
    generalize rest.dropWhile (· = slash) = child at split first
    subst split
    rw [mistaken_iff first nonempty, lastComponent_inside proper first]
    by_cases deeper : slash ∈ child
    · have some : child ≠ [] := List.ne_nil_of_mem deeper
      simp [deeper, some]
    · by_cases none : child = []
      · simp [none]
      · by_cases root : n = 0 → dir = []
        · rw [if_neg deeper, if_pos ⟨none, deeper, root⟩]
          simp only [none, false_or, true_iff]
          rintro ⟨below, zero, _⟩
          exact below (root zero)
        · rw [if_neg deeper, if_neg fun all => root all.2.2]
          simp only [none, false_or, reduceCtorEq, false_iff, not_not]
          rw [Classical.not_imp] at root
          exact ⟨root.2, root.1, deeper⟩

/-- `is_child_file` takes a text for a child just if it reads as one. -/
theorem childIn_eq_yes_iff {text child : List UInt8} :
    childIn dir text = .yes child ↔ ReadsAsChild dir text child := by
  by_cases apart : ∀ rest, text = dir ++ rest → rest = []
  · rw [childIn_outside apart]
    simp only [reduceCtorEq, false_iff]
    rintro ⟨other, _, n, split⟩
    apply other
    rw [split, apart _ split, List.append_nil]
  · obtain ⟨rest, rfl, nonempty⟩ : ∃ rest, text = dir ++ rest ∧ rest ≠ [] := by
      simpa only [not_forall, exists_prop] using apart
    rw [childIn_inside nonempty]
    constructor
    · intro yes
      split at yes
      · cases yes
      · rename_i plain
        cases yes
        obtain ⟨n, split⟩ := slashes_split rest
        exact ⟨by simpa using nonempty, plain, n, by rw [← split]⟩
    · rintro ⟨_, plain, n, split⟩
      rw [List.append_cancel_left_eq] at split
      rw [split, dropWhile_slashes plain, if_neg plain]

theorem childIn_ne_overrun (text : List UInt8) : childIn dir text ≠ .overrun := by
  unfold childIn
  split
  · simp
  · split
    · simp
    · simp only []
      split <;> simp

/-- A text is judged as a member should be exactly when it stands for its path. -/
theorem childIn_eq_verdict_iff_standsFor {text : List UInt8} {m : Member} :
    childIn dir text = verdict dir m ↔ StandsFor dir text (ustarPath m) := by
  have notOverrun := @childIn_ne_overrun dir text
  simp only [StandsFor, ← childIn_eq_yes_iff, verdict]
  cases lastComponent dir (ustarPath m) with
  | none =>
      cases judged : childIn dir text with
      | no => simp
      | overrun => exact absurd judged notOverrun
      | yes child => simp
  | some right => rfl

/-! #### Names of which nothing is left -/

section Short

variable {m : Member}

theorem joinedName_nonempty (junk : Junk) (m : Member) : joinedName junk m ≠ [] := by
  have nonempty := m.name_nonempty
  rw [joinedName, ne_eq, List.take_eq_nil_iff]
  simp [nonempty]

theorem short_name {name : List UInt8} (nonempty : name ≠ []) (nothing : name.drop (skipped name) = []) :
    name = [period] ∨ ∃ c, name = [period, c] := by
  unfold skipped at nothing
  split at nothing
  · rename_i dot
    cases name with
    | nil => exact absurd rfl nonempty
    | cons first rest =>
        have head : first = period := by simpa using dot
        subst head
        cases rest with
        | nil => exact .inl rfl
        | cons c more =>
            have empty : more = [] := by simpa using nothing
            subst empty
            exact .inr ⟨c, rfl⟩
  · exact absurd nothing nonempty

/-- A name of at most two bytes has a short prefix, or none. -/
theorem parts_of_short (short : (joinedName junk m).length ≤ 2) :
    m.namePrefix.length ≤ 1 ∧ joinedName junk m = m.namePrefix ++ m.name := by
  have positive : 0 < m.name.length := List.length_pos_iff.mpr m.name_nonempty
  have prefixed : m.namePrefix.length ≤ (prefixText junk m).length := by
    rw [prefixText, List.length_append]
    omega
  rw [joinedName, List.length_take, List.length_append, List.length_append] at short
  have few : m.namePrefix.length ≤ 1 := by omega
  exact ⟨few, joinedName_terminated ⟨by omega, .inr (by omega)⟩⟩

/-- Without junk, the name `./` is put together of prefix and name alone. -/
theorem joinedName_eq_root (junk : Junk) :
    joinedName junk m = [period, slash] ↔ m.namePrefix ++ m.name = [period, slash] := by
  constructor
  · intro root
    rw [← (@parts_of_short junk m (by rw [root]; exact Nat.le_refl 2)).2, root]
  · intro parts
    have length := congrArg List.length parts
    rw [List.length_append, List.length_cons, List.length_singleton] at length
    rw [joinedName_terminated ⟨by omega, .inl (by omega)⟩, parts]

/-- The names `.` and `./` are shorter than what is skipped of them. -/
theorem isChildFile_dot (dot : joinedName junk m = [period] ∨ joinedName junk m = [period, slash]) :
    isChildFile junk before dir m.header =
      if dir = [] ∧ slash ∉ (junk.behind.set 100 0).take 103 then .overrun else .no := by
  have short : (joinedName junk m).length ≤ 2 := by
    rcases dot with same | same <;> (rw [same]; decide)
  obtain ⟨few, parts⟩ := parts_of_short short
  have fits : nameOverruns junk m.header = false := by
    rw [nameOverruns_member, prefixText_of_short (by omega)]
    omega
  have name : cstr (tarNameBuffer junk m.header) = joinedName junk m := tarName_member junk m
  have buffer := @tarNameBuffer_member junk m (by omega)
  have count : 155 - m.namePrefix.length - m.name.length = 155 - (joinedName junk m).length := by
    rw [parts, List.length_append]
    omega
  rw [← parts, count] at buffer
  generalize junk.behind.set 100 0 = behind at *
  -- behind what is skipped come the zeros that fill up the name
  have strptr : (if (joinedName junk m).getLast?.getD before = slash then
      (tarNameBuffer junk m.header).set ((joinedName junk m).length - 1) 0
        else tarNameBuffer junk m.header).drop 2 = List.replicate 153 0 ++ behind := by
    rw [buffer]
    rcases dot with same | same <;> (rw [same]; rfl)
  have len : ((joinedName junk m).length : Int) - (2 : Nat) -
      (if (joinedName junk m).getLast?.getD before = slash then 1 else 0) = -1 := by
    rcases dot with same | same <;> (rw [same]; rfl)
  have start : skipped (joinedName junk m) = 2 := by
    rcases dot with same | same <;> (rw [same]; rfl)
  have empty : cstr (List.replicate 153 0 ++ behind) = [] := cstr_zero _
  rw [isChildFile]
  simp only [fits, name, start, strptr, len, empty, Bool.false_eq_true, if_false]
  have negative : ¬(0 : Int) ≤ -1 := by decide
  simp only [negative, false_and, if_false, List.take_nil]
  by_cases root : dir = []
  · subst root
    have kept : (List.replicate 153 0 ++ behind).dropWhile (fun c => decide (c = slash)) =
        List.replicate 153 0 ++ behind := List.dropWhile_cons_of_neg (by decide)
    have reach : slash ∈ (List.replicate 153 0 ++ behind).take 256 ↔ slash ∈ behind.take 103 := by
      rw [List.take_append, List.mem_append, List.length_replicate]
      constructor
      · rintro (zeros | reached)
        · have zero := List.eq_of_mem_replicate (List.mem_of_mem_take zeros)
          cases zero
        · exact reached
      · exact Or.inr
    simp only [List.length_nil, List.drop_zero, kept, ne_eq, not_true, if_false, reach, true_and]
    split <;> simp_all
  · have other : ¬[] = dir := fun same => root same.symm
    simp [root, other]

/-- The path of `./` is empty. -/
theorem ustarPath_root (root : joinedName junk m = [period, slash]) : ustarPath m = [] := by
  obtain ⟨few, parts⟩ := @parts_of_short junk m (by rw [root]; decide)
  rw [root] at parts
  rw [ustarPath]
  cases first : m.namePrefix with
  | nil =>
      rw [first, List.nil_append] at parts
      rw [← parts]
      rfl
  | cons c rest =>
      have none : rest = [] := by
        rw [first, List.length_cons] at few
        exact List.length_eq_zero_iff.mp (by omega)
      rw [first, none, List.cons_append, List.nil_append, List.cons.injEq] at parts
      rw [none, ← parts.1, ← parts.2]
      rfl

/-- So is what is left of the names of one or two bytes that begin with a period. -/
theorem isChildFile_short (nothing : (joinedName junk m).drop (skipped (joinedName junk m)) = [])
    (notRoot : joinedName junk m ≠ [period, slash]) :
    isChildFile junk before dir m.header = verdict dir m ↔
      StandsFor dir (asCompared (joinedName junk m)) (ustarPath m) := by
  have compared : asCompared (joinedName junk m) = [] := by
    rw [asCompared, nothing]
    rfl
  have empty : childIn dir [] = .no := by
    rw [childIn, if_pos (by simp)]
  rw [← childIn_eq_verdict_iff_standsFor, compared, empty]
  rcases short_name (joinedName_nonempty junk m) nothing with dot | ⟨c, name⟩
  · rw [isChildFile_dot (.inl dot)]
    split
    · -- the root lists the member `.`, whatever the junk is
      rename_i overruns
      obtain ⟨few, parts⟩ := @parts_of_short junk m (by rw [dot]; decide)
      have positive : 0 < m.name.length := List.length_pos_iff.mpr m.name_nonempty
      have noPrefix : m.namePrefix = [] := by
        have length := congrArg List.length parts
        rw [dot, List.length_append, List.length_singleton] at length
        exact List.length_eq_zero_iff.mp (by omega)
      rw [dot, noPrefix, List.nil_append] at parts
      have path : ustarPath m = [period] := by
        rw [ustarPath, if_pos noPrefix, ← parts]
        rfl
      rw [verdict, path, overruns.1]
      have listed : lastComponent [] [period] = some [period] := by decide
      rw [listed]
      simp
    · rfl
  · have visible : ¬c = slash := by
      rintro rfl
      exact notRoot name
    have fits : nameOverruns junk m.header = false := by
      have few := (@parts_of_short junk m (by rw [name]; exact Nat.le_refl 2)).1
      rw [nameOverruns_member, prefixText_of_short (by omega)]
      omega
    have text : cstr (tarNameBuffer junk m.header) = [period, c] := (tarName_member junk m).trans name
    have no : isChildFile junk before dir m.header = .no := by
      have last : [period, c].getLast?.getD before = c := rfl
      have start : skipped [period, c] = 2 := rfl
      have len : (([period, c].length : Nat) : Int) - (2 : Nat) - 0 = 0 := rfl
      rw [isChildFile]
      simp only [fits, text, last, visible, if_false, start, len, Bool.false_eq_true]
      rw [if_pos ⟨Int.le_refl 0, Int.natCast_nonneg _⟩]
    rw [no]

end Short

/-! ### Listing a directory -/

/-- `tfs_readdir` over the headers it reads. -/
def readdirIn (junk : Junk) (before : UInt8) (dir : List UInt8) :
    List (List UInt8 × HeaderPos) → List (List UInt8 × Nat) × Ending
  | [] => ([], .notFound)
  | (header, next) :: rest =>
      match isChildFile junk before dir header with
      | .no => readdirIn junk before dir rest
      | .overrun => ([], .crashed)
      | .yes child =>
          ((child, next.num) :: (readdirIn junk before dir rest).1, (readdirIn junk before dir rest).2)

theorem readdirLoop_reads {device : List UInt8} {pos : HeaderPos}
    {headers : List (List UInt8 × HeaderPos)} (reads : Reads device junk pos headers) {fuel : Nat}
    (enough : headers.length < fuel) :
    readdirLoop device junk before dir fuel pos = readdirIn junk before dir headers := by
  induction reads generalizing fuel with
  | none read =>
      obtain ⟨fuel, rfl⟩ : ∃ k, fuel = k + 1 := ⟨fuel - 1, by simp at enough; omega⟩
      rw [readdirLoop, read]
      rfl
  | @some pos next header rest read more inductionHypothesis =>
      rw [List.length_cons] at enough
      obtain ⟨fuel, rfl⟩ : ∃ k, fuel = k + 1 := ⟨fuel - 1, by omega⟩
      have later := inductionHypothesis (Nat.lt_of_succ_lt_succ enough)
      rw [readdirLoop, read, readdirIn]
      cases judged : isChildFile junk before dir header with
      | no => simp only [judged, later]
      | overrun => simp only [judged]
      | yes child => simp only [judged, later]

theorem children_cons (m : Member) (rest : List Member) (number : Nat) :
    children dir (m :: rest) number =
      match verdict dir m with
      | .yes child => (child, number + 1) :: children dir rest (number + 1)
      | _ => children dir rest (number + 1) := by
  rw [children, List.zipIdx_cons, List.filterMap_cons, children, verdict]
  cases lastComponent dir (ustarPath m) with
  | none => rfl
  | some child => rfl

theorem number_gt_of_children {members : List Member} {number : Nat} {entry : List UInt8 × Nat}
    (listed : entry ∈ children dir members number) : number < entry.2 := by
  obtain ⟨⟨m, n⟩, member, found⟩ := List.mem_filterMap.mp listed
  cases last : lastComponent dir (ustarPath m) with
  | none => simp [last] at found
  | some child =>
      have number' : n = entry.2 := by
        rw [last, Option.map_some, Option.some.injEq] at found
        rw [← found]
      have := List.le_snd_of_mem_zipIdx member
      omega

theorem number_gt_of_readdirIn_zeros {blocks : Nat} {pos : HeaderPos} {entry : List UInt8 × Nat}
    (listed : entry ∈ (readdirIn junk before dir (zeroStations blocks pos)).1) : pos.num < entry.2 := by
  induction blocks generalizing pos with
  | zero => simp [zeroStations, readdirIn] at listed
  | succ blocks inductionHypothesis =>
      rw [zeroStations, readdirIn] at listed
      split at listed
      · exact Nat.lt_of_succ_lt (inductionHypothesis listed)
      · simp at listed
      · rcases List.mem_cons.mp listed with rfl | listed
        · exact Nat.lt_succ_self _
        · exact Nat.lt_of_succ_lt (inductionHypothesis listed)

theorem number_gt_of_readdirIn {members : List Member} {pos : HeaderPos} {entry : List UInt8 × Nat}
    (listed : entry ∈ (readdirIn junk before dir (stations blocks members pos)).1) :
    pos.num < entry.2 := by
  induction members generalizing pos with
  | nil => exact number_gt_of_readdirIn_zeros listed
  | cons m rest inductionHypothesis =>
      rw [stations, readdirIn] at listed
      split at listed
      · exact Nat.lt_of_succ_lt (inductionHypothesis listed)
      · simp at listed
      · rcases List.mem_cons.mp listed with rfl | listed
        · exact Nat.lt_succ_self _
        · exact Nat.lt_of_succ_lt (inductionHypothesis listed)

theorem readdirIn_zeros (blocks : Nat) (pos : HeaderPos) :
    readdirIn junk before dir (zeroStations (blocks + 1) pos) = ([], .notFound) ↔
      isChildFile junk before dir zeroBlock = .no := by
  constructor
  · intro quiet
    rw [zeroStations, readdirIn] at quiet
    split at quiet
    · assumption
    · simp at quiet
    · simp at quiet
  · intro no
    have all : ∀ (blocks : Nat) (pos : HeaderPos),
        readdirIn junk before dir (zeroStations blocks pos) = ([], .notFound) := by
      intro blocks
      induction blocks with
      | zero => intro pos; rfl
      | succ blocks inductionHypothesis =>
          intro pos
          rw [zeroStations, readdirIn, no]
          exact inductionHypothesis _
    exact all _ _

theorem verdict_ne_overrun (m : Member) : verdict dir m ≠ .overrun := by
  rw [verdict]
  cases lastComponent dir (ustarPath m) with
  | none => simp
  | some child => simp

theorem readdirIn_stations (members : List Member) (pos : HeaderPos) :
    readdirIn junk before dir (stations blocks members pos) =
        (children dir members pos.num, .notFound) ↔
      (∀ m ∈ members, isChildFile junk before dir m.header = verdict dir m) ∧
        isChildFile junk before dir zeroBlock = .no := by
  induction members generalizing pos with
  | nil =>
      have nothing : children dir [] pos.num = [] := rfl
      rw [stations, nothing, readdirIn_zeros]
      simp
  | cons m rest inductionHypothesis =>
      rw [stations, readdirIn, children_cons, List.forall_mem_cons, and_assoc]
      have notOverrun := @verdict_ne_overrun dir m
      cases judged : isChildFile junk before dir m.header with
      | no =>
          cases right : verdict dir m with
          | no =>
              simp only [true_and]
              exact inductionHypothesis _
          | overrun => exact absurd right notOverrun
          | yes child =>
              -- the entry is missing: those that follow have larger numbers
              simp only [reduceCtorEq, false_and, iff_false]
              intro same
              have missing := number_gt_of_readdirIn (by rw [same]; exact List.mem_cons_self)
              exact Nat.lt_irrefl _ missing
      | overrun =>
          simp only [notOverrun.symm, false_and, iff_false]
          intro same
          cases congrArg Prod.snd same
      | yes child =>
          cases right : verdict dir m with
          | no =>
              simp only [reduceCtorEq, false_and, iff_false]
              intro same
              have extra : (child, pos.num + 1) ∈ children dir rest (pos.num + 1) := by
                have listed := congrArg Prod.fst same
                simp only [] at listed
                rw [← listed]
                exact List.mem_cons_self
              exact Nat.lt_irrefl _ (number_gt_of_children extra)
          | overrun => exact absurd right notOverrun
          | yes child' =>
              simp only [Prod.mk.injEq, List.cons.injEq, and_true, ChildTest.yes.injEq, and_assoc]
              apply and_congr_right
              intro _
              rw [← inductionHypothesis, Prod.ext_iff]

/-! ### The zero blocks -/

theorem mem_take_set {bytes : List UInt8} :
    slash ∈ (bytes.set 100 0).take 101 ↔ slash ∈ bytes.take 100 := by
  have start : (bytes.set 100 0).take 100 = bytes.take 100 := by
    rw [List.take_set_of_le (Nat.le_refl 100)]
  rw [List.take_add_one, start, List.mem_append]
  constructor
  · rintro (member | member)
    · exact member
    · rw [Option.mem_toList, List.getElem?_set_self'] at member
      cases at100 : bytes[100]? with
      | none => simp [at100] at member
      | some c =>
          rw [at100] at member
          have zero : (0 : UInt8) = slash := Option.some.inj member
          exact absurd zero (by decide)
  · exact .inl

theorem isChildFile_zeroBlock :
    isChildFile junk before dir zeroBlock = .no ↔ EndJudgedRightly junk before dir := by
  have text : cstr (tarNameBuffer junk zeroBlock) = [] := by
    rw [tarNameBuffer_zeroBlock]
    exact cstr_zero _
  unfold isChildFile EndJudgedRightly
  simp only [nameOverruns_zeroBlock, Bool.false_eq_true, if_false, text, List.getLast?_nil, Option.getD_none, List.length_nil, skipped, List.head?_nil]
  by_cases corrupted : before = slash
  · have unchanged : (tarNameBuffer junk zeroBlock).set (0 - 1) 0 = tarNameBuffer junk zeroBlock := by
      rw [tarNameBuffer_zeroBlock]
      rfl
    simp only [corrupted, if_true, unchanged, reduceCtorEq, if_false, List.drop_zero, text]
    have negative : ¬(0 : Int) ≤ ((0 : Nat) : Int) - (0 : Nat) - 1 := by decide
    simp only [negative, false_and, if_false, List.take_nil, true_implies]
    by_cases root : dir = []
    · have kept : (tarNameBuffer junk zeroBlock).dropWhile (· = slash) = tarNameBuffer junk zeroBlock := by
        rw [tarNameBuffer_zeroBlock]
        exact List.dropWhile_cons_of_neg (by decide)
      have reach : slash ∈ (tarNameBuffer junk zeroBlock).take 256 ↔ slash ∈ junk.behind.take 100 := by
        rw [← mem_take_set, tarNameBuffer_zeroBlock, List.take_append, List.mem_append,
          List.length_replicate]
        constructor
        · intro reached
          rcases reached with zeros | reached
          · have zero := List.eq_of_mem_replicate (List.mem_of_mem_take zeros)
            cases zero
          · exact reached
        · exact Or.inr
      subst root
      simp only [List.length_nil, List.drop_zero, kept, ne_eq, not_true, if_false, reach, true_implies]
      split <;> simp_all
    · have other : [] ≠ dir := fun same => root same.symm
      simp [root, other]
  · simp [corrupted]

/-! ### The whole pass -/

theorem listsChildren_iff_judged
    (small : (image members (padding blocks)).length < 9223372036854775808) :
    ListsChildren members blocks junk before dir ↔
      (∀ m ∈ members, isChildFile junk before dir m.header = verdict dir m) ∧
        isChildFile junk before dir zeroBlock = .no := by
  have reads := @reads_image members blocks junk small
  rw [← @readdirIn_stations blocks junk dir before members initPosStart]
  constructor
  · rintro ⟨enough, lists⟩
    have run := lists (max enough ((stations blocks members initPosStart).length + 1))
      (Nat.le_max_left _ _)
    rwa [readdirLoop_reads reads (Nat.lt_of_succ_le (Nat.le_max_right _ _))] at run
  · intro same
    refine ⟨(stations blocks members initPosStart).length + 1, fun fuel enough => ?_⟩
    rw [readdirLoop_reads reads enough, same]
    rfl

/-- What is asked of the members that are neither plainly named nor the entry of the root. -/
theorem isChildFile_other {m : Member} (notRoot : joinedName junk m ≠ [period, slash]) :
    isChildFile junk before dir m.header = verdict dir m ↔
      (prefixText junk m).length ≤ 156 ∧ StandsFor dir (asCompared (joinedName junk m)) (ustarPath m) := by
  by_cases fits : (prefixText junk m).length ≤ 156
  · have inside : nameOverruns junk m.header = false := (nameOverruns_member junk m).mpr fits
    simp only [fits, true_and]
    by_cases nothing : (joinedName junk m).drop (skipped (joinedName junk m)) = []
    · exact isChildFile_short nothing notRoot
    · rw [isChildFile_eq inside (by rw [tarName_member]; exact nothing), comparedName, tarName_member,
        childIn_eq_verdict_iff_standsFor]
  · have overruns : nameOverruns junk m.header = true := by
      rw [← Bool.not_eq_false, nameOverruns_member]
      exact fits
    have overrun : isChildFile junk before dir m.header = .overrun := by
      rw [isChildFile]
      simp only [overruns, if_true]
    rw [overrun]
    simp only [fits, false_and, iff_false]
    exact (verdict_ne_overrun m).symm

theorem judgedRightly_iff (proper : dir.getLast? ≠ some slash) (m : Member) :
    isChildFile junk before dir m.header = verdict dir m ↔ JudgedRightly junk dir m := by
  unfold JudgedRightly
  split
  · rename_i plainly
    rw [isChildFile_member plainly.1 plainly.2, childIn_eq_verdict_iff proper]
  · split
    · rename_i parts
      have root := (joinedName_eq_root junk).mpr parts
      have none : lastComponent dir [] = none := rfl
      rw [isChildFile_dot (.inr root), verdict, ustarPath_root root, none]
      by_cases top : dir = []
      · by_cases reach : slash ∈ (junk.behind.set 100 0).take 103
        · simp [top, reach]
        · simp [top, reach]
      · simp [top]
    · rename_i notRoot
      rw [isChildFile_other fun root => notRoot ((joinedName_eq_root junk).mp root)]
      split
      · rename_i ends
        rw [joinedName_terminated ends]
        simp only [fits_of_terminated ends, true_and]
      · rfl

theorem directoryName_nonempty : ([97, 98, 47] : List UInt8) ≠ [] := by decide

theorem directoryName_short : ([97, 98, 47] : List UInt8).length ≤ 100 := by decide

theorem directoryName_plain : Plain [97, 98, 47] := by decide

/-- The directory `ab/` and the file `abc`. -/
def siblings : List Member :=
  [emptyFile [97, 98, 47] directoryName_nonempty directoryName_short directoryName_plain,
    emptyFile [97, 98, 99] (by decide) (by decide) (by decide)]

theorem childName_nonempty : ([99] : List UInt8) ≠ [] := by decide

theorem childName_short : ([99] : List UInt8).length ≤ 100 := by decide

theorem childName_plain : Plain [99] := by decide

theorem childPrefix_short : ([97, 98] : List UInt8).length ≤ 155 := by decide

theorem childPrefix_plain : Plain [97, 98] := by decide

/-- With the directory `ab` as a prefix the file `c` is listed under it, where it belongs. -/
def prefixedChild : List Member :=
  [emptyFile [97, 98, 47] directoryName_nonempty directoryName_short directoryName_plain,
    { emptyFile [99] childName_nonempty childName_short childName_plain with
      namePrefix := [97, 98]
      namePrefix_length := childPrefix_short
      namePrefix_plain := childPrefix_plain }]

end Children

end Nfs4Compound.Tar.Pbelousov
