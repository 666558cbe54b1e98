/-
Module: Nfs4Compound.Proofs.TarAboyaritsev
Layer: Proofs
Purpose: When the listings and the lookups of the driver of aboyaritsev/merge agree.
Imports: Nfs4Compound.Tar.Aboyaritsev, Nfs4Compound.Proofs.TarScan
Trusted boundary: none
Main exports: Files, files_image, isChildOfFirstLevel_iff, listing_agrees_with_lookup_iff
-/
import Nfs4Compound.Tar.Aboyaritsev
import Nfs4Compound.Proofs.TarScan

namespace Nfs4Compound.Tar.Aboyaritsev

open CText

variable {members : List Member} {behind : List UInt8} {junk : Junk} {device : List UInt8}

/-! ### The files a loop reads -/

/-- What the loop of `find_file_by_dentry` makes of the files it reads. -/
def findIn (fileName : List UInt8) : List (List UInt8 × DiskPosition) → Nat → Find
  | [], _ => .failed
  | (name, _) :: rest, inodeNo =>
      if name = fileName then .found (inodeNo + 1) else findIn fileName rest (inodeNo + 1)

theorem findLoop_files {pos : DiskPosition} {files : List (List UInt8 × DiskPosition)}
    (read : Files device junk pos files) {fileName : List UInt8} {fuel : Nat}
    (enough : files.length < fuel) (inodeNo : Nat) :
    findLoop device junk fileName fuel pos inodeNo = findIn fileName files inodeNo := by
  induction read generalizing fuel inodeNo with
  | @stop pos ends =>
      cases fuel with
      | zero => simp at enough
      | succ fuel =>
          rw [findLoop, findIn]
          cases next : getNextFile device junk pos with
          | blockError => rfl
          | tarEnd end_ => rfl
          | file name after => exact absurd next (ends name after)
  | @more pos next name rest file others inductionHypothesis =>
      cases fuel with
      | zero => simp at enough
      | succ fuel =>
          have less : rest.length < fuel := by simpa using enough
          rw [findLoop, findIn, file]
          simp only [inductionHypothesis less]

/-- Some file is found exactly when one of those that are read has the name. -/
theorem findIn_found_iff {fileName : List UInt8} {files : List (List UInt8 × DiskPosition)}
    (inodeNo : Nat) :
    (∃ number, findIn fileName files inodeNo = .found number) ↔ ∃ file ∈ files, file.1 = fileName := by
  induction files generalizing inodeNo with
  | nil => simp [findIn]
  | cons file rest inductionHypothesis =>
      obtain ⟨name, next⟩ := file
      rw [findIn]
      by_cases same : name = fileName
      · simp [same]
      · simp [same, inductionHypothesis]

theorem int32_succ (count : Int) : int32 (int32 count + 1) = int32 (count + 1) := by
  unfold int32
  omega

/-- The loop of `tarfs_readdir` over the files it reads, with the count of files as an `int`. -/
theorem readdirLoop_files {pos : DiskPosition} {files : List (List UInt8 × DiskPosition)}
    (read : Files device junk pos files) {directoryName : List UInt8} {fuel : Nat}
    (enough : files.length < fuel) (count : Int) :
    readdirLoop device junk directoryName fuel pos (int32 count) =
      .done (emittedIn junk directoryName files) (int32 (count + files.length)) := by
  induction read generalizing fuel count with
  | @stop pos ends =>
      cases fuel with
      | zero => simp at enough
      | succ fuel =>
          rw [readdirLoop, List.length_nil, Nat.cast_zero, add_zero]
          cases next : getNextFile device junk pos with
          | blockError => rfl
          | tarEnd end_ => rfl
          | file name after => exact absurd next (ends name after)
  | @more pos next name rest file others inductionHypothesis =>
      cases fuel with
      | zero => simp at enough
      | succ fuel =>
          have less : rest.length < fuel := by simpa using enough
          have total : count + 1 + (rest.length : Int) = count + ((rest.length + 1 : Nat) : Int) := by omega
          rw [readdirLoop, file]
          simp only [int32_succ, inductionHypothesis less, emittedIn, List.filter_cons, List.length_cons,
            total]
          split
          · rfl
          · rfl

/-! ### The files of an archive -/

/-- The position at the header of a member. -/
def station (members : List Member) (entry : Member × Nat) : List UInt8 × DiskPosition :=
  (dropSlash entry.1.name, ⟨entry.1.header, (offset members entry.2 / 512 : Nat), 0, 0⟩)

/-- The members in reach, from the `k`-th on. -/
def reachFrom (members : List Member) (k : Nat) : List (Member × Nat) :=
  ((members.drop k).zipIdx k).filter fun entry => offset members entry.2 < 1099511627776

theorem reachFrom_zero : (reachFrom members 0).map Prod.fst = inReach members := rfl

theorem reachFrom_succ {k : Nat} (inside : k < members.length)
    (reached : offset members k < 1099511627776) :
    reachFrom members k = (members[k], k) :: reachFrom members (k + 1) := by
  rw [reachFrom, List.drop_eq_getElem_cons inside, List.zipIdx_cons, List.filter_cons, reachFrom]
  simp [reached]

/-- Behind a member that is out of reach all are. -/
theorem reachFrom_behind {k : Nat} (far : ¬offset members k < 1099511627776) :
    reachFrom members k = [] := by
  rw [reachFrom, List.filter_eq_nil_iff]
  rintro ⟨m, j⟩ listed
  have later : k ≤ j := (List.mem_zipIdx listed).1
  have short := (List.mem_zipIdx listed).2.1
  rw [List.length_drop] at short
  by_cases inside : j ≤ members.length
  · have := @offset_mono members k j later
    simp only [decide_eq_true_eq]
    omega
  · omega

/-- A trailing slash is overwritten by the zero byte that ends the path. -/
theorem openFileName_member {m : Member} (short : m.name.length < 100) (blockNo : Int) :
    ∃ rest, openFileName junk ⟨m.header, blockNo, 0, 0⟩ = slash :: (dropSlash m.name ++ 0 :: rest) := by
  have name : cstr (padTo 100 m.name ++ junk.behind) = m.name := cstr_padTo m.name_plain short _
  obtain ⟨d, room⟩ : ∃ d, 100 - m.name.length = d + 1 := ⟨100 - m.name.length - 1, by omega⟩
  have memory : padTo 100 m.name ++ junk.behind =
      m.name ++ 0 :: (List.replicate d 0 ++ junk.behind) := by
    rw [padTo, room, List.replicate_succ, List.append_assoc, List.cons_append]
  rw [openFileName, getTarField_name]
  simp only [name]
  rw [memory]
  by_cases trailing : m.name.getLast? = some slash
  · obtain ⟨path, text⟩ := List.getLast?_eq_some_iff.mp trailing
    have cut : dropSlash m.name = path := by
      have stripped : dropSlash m.name = m.name.dropLast := if_pos trailing
      rw [stripped, text, List.dropLast_concat]
    have last : m.name.length - 1 = path.length := by simp [text]
    refine ⟨0 :: (List.replicate d 0 ++ junk.behind), ?_⟩
    rw [if_pos trailing, last, cut, text, List.append_assoc,
      List.set_append_right _ _ (Nat.le_refl _), Nat.sub_self]
    rfl
  · refine ⟨List.replicate d 0 ++ junk.behind, ?_⟩
    have whole : dropSlash m.name = m.name := if_neg trailing
    rw [if_neg trailing, whole]

theorem cstr_openFileName {m : Member} (short : m.name.length < 100) (blockNo : Int) :
    cstr (openFileName junk ⟨m.header, blockNo, 0, 0⟩) = slash :: dropSlash m.name := by
  obtain ⟨rest, memory⟩ := @openFileName_member junk m short blockNo
  rw [memory, cstr_cons (by decide), cstr_append_zero (plain_dropSlash m.name_plain)]

theorem getNextFile_member {k : Nat} (inside : k < members.length) (short : members[k].name.length < 100)
    {pos : DiskPosition} (steps : StepsTo members behind junk k pos) :
    getNextFile (image members behind) junk pos =
      .file (station members (members[k], k)).1 (station members (members[k], k)).2 := by
  have name : cstr (getTarField ⟨members[k].header, (offset members k / 512 : Nat), 0, 0⟩ 0 100 ++
      junk.behind) = members[k].name := by
    rw [getTarField_name]
    exact cstr_padTo members[k].name_plain short _
  rw [StepsTo, tarfsBlockRead_header inside] at steps
  rw [getNextFile, steps]
  simp only [Option.map_some, name, members[k].name_nonempty, if_false]
  rfl

/-- Behind a member the driver steps to the next header if its block number is of type `int`, and to a
    block that does not exist if not. -/
theorem stepsTo_next {k : Nat} (inside : k < members.length)
    (notFull : ¬(0 < members[k].size ∧ 512 ∣ members[k].size))
    (reached : offset members k < 1099511627776) :
    if offset members (k + 1) < 1099511627776 then
      StepsTo members behind junk (k + 1) (station members (members[k], k)).2
    else
      fillDiskPositionNextFile (image members behind) junk (station members (members[k], k)).2 =
        none := by
  have next := nextBlockNo_offset inside notFull
  have bound := offset_div_succ inside
  have few := blocksOf_small members[k]
  have filled := @fill_member members behind junk members[k] (offset members k / 512)
  rw [next] at filled
  split
  · rw [int32_of_range (by omega) (by omega)] at filled
    exact filled
  · rename_i far
    have negative : ¬0 ≤ int32 ((offset members (k + 1) / 512 : Nat) : Int) := by
      unfold int32
      omega
    rw [tarfsBlockRead, if_neg negative] at filled
    exact filled

/-- `get_next_file` gives the members in reach, whatever lies behind the archive. -/
theorem files_from (notFull : ∀ m ∈ members, ¬(0 < m.size ∧ 512 ∣ m.size))
    (short : ∀ m ∈ members, m.name.length < 100) {k : Nat} (inside : k ≤ members.length)
    (reached : offset members k < 1099511627776) {pos : DiskPosition}
    (steps : StepsTo members behind junk k pos) :
    Files (image members behind) junk pos ((reachFrom members k).map (station members)) := by
  -- the induction is on the number of members still to come
  induction left : members.length - k generalizing k pos with
  | zero =>
      have all : k = members.length := by omega
      subst all
      have none : reachFrom members members.length = [] := by rw [reachFrom, List.drop_length]; rfl
      rw [none]
      apply Files.stop
      intro name next
      rw [StepsTo, tarfsBlockRead_end] at steps
      rw [getNextFile, steps]
      simp only [Option.map_some, name_zeroBlock, if_true]
      simp
  | succ d inductionHypothesis =>
      have less : k < members.length := by omega
      have member : members[k] ∈ members := List.getElem_mem less
      rw [reachFrom_succ less reached, List.map_cons]
      apply Files.more (getNextFile_member less (short _ member) steps)
      have next := @stepsTo_next members behind junk k less (notFull _ member) reached
      by_cases further : offset members (k + 1) < 1099511627776
      · rw [if_pos further] at next
        exact inductionHypothesis less further next (by omega)
      · rw [if_neg further] at next
        rw [reachFrom_behind further]
        apply Files.stop
        intro name after
        rw [getNextFile, next]
        simp

theorem files_image (notFull : ∀ m ∈ members, ¬(0 < m.size ∧ 512 ∣ m.size))
    (short : ∀ m ∈ members, m.name.length < 100) :
    Files (image members behind) junk initDiskPosition
      ((reachFrom members 0).map (station members)) :=
  files_from notFull short (Nat.zero_le _) (by simp [offset]) stepsTo_init

theorem mem_reachFrom_iff {p : Member → Prop} :
    (∃ entry ∈ reachFrom members 0, p entry.1) ↔ ∃ m ∈ inReach members, p m := by
  rw [← reachFrom_zero]
  simp

/-! ### The last component of a path -/

theorem lastDentryLoop_noSlash {text : List UInt8} (noSlash : slash ∉ text) (i lastIndex : Nat) :
    lastDentryLoop text i lastIndex = lastIndex := by
  induction text generalizing i with
  | nil => rfl
  | cons c rest inductionHypothesis =>
      obtain ⟨first, others⟩ := List.ne_and_not_mem_of_not_mem_cons noSlash
      rw [lastDentryLoop, if_neg (Ne.symm first)]
      exact inductionHypothesis others (i + 1)

theorem lastDentryLoop_slash (parent : List UInt8) {child : List UInt8} (noSlash : slash ∉ child)
    (i lastIndex : Nat) :
    lastDentryLoop (parent ++ slash :: child) i lastIndex = i + parent.length + 1 := by
  induction parent generalizing i lastIndex with
  | nil =>
      rw [List.nil_append, lastDentryLoop, if_pos rfl, lastDentryLoop_noSlash noSlash]
      simp
  | cons c rest inductionHypothesis =>
      rw [List.cons_append, lastDentryLoop, inductionHypothesis, List.length_cons]
      omega

/-- `get_last_dentry` skips the path of the parent and the slash behind it. -/
theorem getLastDentry_child (parent : List UInt8) {child : List UInt8} (noSlash : slash ∉ child) :
    getLastDentry (parent ++ slash :: child) = (parent ++ [slash]).length := by
  rw [getLastDentry, lastDentryLoop_slash parent noSlash, List.length_append, List.length_singleton,
    Nat.zero_add]

/-- The name given to `filldir` ends where the last component does. -/
theorem cstr_emittedName {m : Member} (short : m.name.length < 100) (blockNo : Int)
    {parent child : List UInt8} (text : slash :: dropSlash m.name = parent ++ slash :: child)
    (noSlash : slash ∉ child) :
    cstr (emittedName junk ⟨m.header, blockNo, 0, 0⟩) = child := by
  obtain ⟨rest, memory⟩ := @openFileName_member junk m short blockNo
  have shortChild : child.length < 100 := by
    have cut := length_dropSlash_le m.name
    have length := congrArg List.length text
    simp only [List.length_cons, List.length_append] at length
    omega
  have plainChild : Plain child := by
    have plain := plain_dropSlash m.name_plain
    intro c member
    have inside : c ∈ slash :: dropSlash m.name := by
      rw [text]
      simp [member]
    rcases List.mem_cons.mp inside with rfl | inside
    · decide
    · exact plain c inside
  have split : openFileName junk ⟨m.header, blockNo, 0, 0⟩ = (parent ++ [slash]) ++ (child ++ 0 :: rest) := by
    rw [memory, ← List.cons_append, text]
    simp
  obtain ⟨room, enough⟩ : ∃ room, 100 = child.length + (room + 1) := ⟨99 - child.length, by omega⟩
  rw [emittedName, cstr_openFileName short, text, getLastDentry_child parent noSlash, split,
    List.drop_left, enough, List.take_length_add_append, List.take_succ_cons]
  exact cstr_append_zero plainChild _

/-! ### Children -/

/-- A text with one slash falls into what is before and what is behind it. -/
theorem count_slash_eq_one {text : List UInt8} :
    text.count slash = 1 ↔ ∃ more child, text = more ++ slash :: child ∧ slash ∉ more ∧ slash ∉ child := by
  constructor
  · intro one
    have member : slash ∈ text := List.count_pos_iff.mp (by omega)
    obtain ⟨more, child, split, first⟩ := List.eq_append_cons_of_mem member
    refine ⟨more, child, split, first, ?_⟩
    rw [split, List.count_append, List.count_cons_self, List.count_eq_zero.mpr first] at one
    exact List.count_eq_zero.mp (by omega)
  · rintro ⟨more, child, rfl, first, last⟩
    rw [List.count_append, List.count_cons_self, List.count_eq_zero.mpr first,
      List.count_eq_zero.mpr last]

theorem isChildOfFirstLevel_root (path : List UInt8) :
    isChildOfFirstLevel [slash] (slash :: path) = true ↔ slash ∉ path := by
  rw [isChildOfFirstLevel, decide_eq_true_eq]
  simp [List.count_eq_zero]

/-- Below the root, what is taken for a child is any path that goes on behind the path of the directory
    with just one slash, wherever that comes. -/
theorem isChildOfFirstLevel_iff {dir text : List UInt8} (nonempty : dir ≠ [])
    (proper : dir.getLast? ≠ some slash) :
    isChildOfFirstLevel dir text = true ↔
      ∃ more child, text = dir ++ (more ++ slash :: child) ∧ slash ∉ more ∧ slash ∉ child := by
  have split := List.dropLast_concat_getLast nonempty
  have last : dir.getLast nonempty ≠ slash := by
    intro same
    exact proper (by rw [List.getLast?_eq_some_getLast nonempty, same])
  have cut : ∀ rest : List UInt8,
      ((dir ++ rest).drop (dir.length - 1)).count slash = rest.count slash := by
    intro rest
    have whole : dir ++ rest = dir.dropLast ++ dir.getLast nonempty :: rest := by
      rw [List.append_cons, split]
    rw [whole, List.drop_left' List.length_dropLast, List.count_cons_of_ne last]
  rw [isChildOfFirstLevel, decide_eq_true_eq]
  constructor
  · rintro ⟨start, one⟩
    have whole : dir ++ text.drop dir.length = text := by
      nth_rewrite 1 [← start]
      exact List.take_append_drop _ _
    rw [← whole, cut, count_slash_eq_one] at one
    obtain ⟨more, child, rest, first, last⟩ := one
    exact ⟨more, child, by rw [← rest, whole], first, last⟩
  · rintro ⟨more, child, rfl, first, last⟩
    constructor
    · exact List.take_left
    · rw [cut, count_slash_eq_one]
      exact ⟨more, child, rfl, first, last⟩

/-! ### Paths of dentries -/

/-- The path of a name in a directory. -/
theorem pathOf_child (names : List Component) (c : Component) :
    pathOf (names ++ [c]) = (if names = [] then [] else pathOf names) ++ slash :: c.name := by
  by_cases root : names = []
  · simp [root, pathOf]
  · simp [root, pathOf]

theorem pathOf_nonempty {names : List Component} (below : names ≠ []) : pathOf names ≠ [] := by
  obtain ⟨first, rest, rfl⟩ := List.exists_cons_of_ne_nil below
  simp [pathOf]

theorem pathOf_getLast {names : List Component} (below : names ≠ []) :
    (pathOf names).getLast? ≠ some slash := by
  rcases names.eq_nil_or_concat with root | ⟨parents, c, last⟩
  · exact absurd root below
  · rw [last, List.concat_eq_append, pathOf_child, List.getLast?_append]
    intro same
    have final : c.name.getLast? = some slash := by
      obtain ⟨first, rest, name⟩ := List.exists_cons_of_ne_nil c.nonempty
      simpa [name] using same
    exact c.noSlash (List.mem_of_getLast? final)

/-! ### Listings and lookups -/

section Agreement

variable {names : List Component} {c : Component}

/-- A path of at most 98 bytes fits in the buffer, and so does the path of its directory. -/
theorem dentryPathRaw_fits (fits : (pathOf (names ++ [c])).length < 100) :
    dentryPathRaw (names ++ [c]) 100 = some (pathOf (names ++ [c])) ∧
      dentryPathRaw names 100 = some (pathOf names) := by
  have shorter : (pathOf names).length + 1 ≤ 100 := by
    rw [pathOf_child] at fits
    by_cases root : names = []
    · simp [root, pathOf]
    · simp [root] at fits
      omega
  exact ⟨if_pos fits, if_pos shorter⟩

/-- Which members a listing has as `c`. -/
def ListedAs (names : List Component) (c : Component) (m : Member) : Prop :=
  if names = [] then dropSlash m.name = c.name
  else ∃ more, slash ∉ more ∧ slash :: dropSlash m.name = pathOf names ++ (more ++ slash :: c.name)

theorem listedAs_iff {m : Member} (short : m.name.length < 100) (blockNo : Int) :
    (isChildOfFirstLevel (pathOf names) (cstr (openFileName junk ⟨m.header, blockNo, 0, 0⟩)) = true ∧
        cstr (emittedName junk ⟨m.header, blockNo, 0, 0⟩) = c.name) ↔ ListedAs names c m := by
  rw [cstr_openFileName short]
  by_cases root : names = []
  · have path : pathOf names = [slash] := by rw [root]; rfl
    rw [path, isChildOfFirstLevel_root, ListedAs, if_pos root]
    constructor
    · rintro ⟨noSlash, emitted⟩
      rw [← emitted]
      exact (@cstr_emittedName junk m short blockNo [] _ rfl noSlash).symm
    · intro same
      have noSlash : slash ∉ dropSlash m.name := by
        rw [same]
        exact c.noSlash
      exact ⟨noSlash, (@cstr_emittedName junk m short blockNo [] _ rfl noSlash).trans same⟩
  · rw [isChildOfFirstLevel_iff (pathOf_nonempty root) (pathOf_getLast root), ListedAs, if_neg root]
    constructor
    · rintro ⟨⟨more, child, text, first, last⟩, emitted⟩
      have split := text
      rw [← List.append_assoc] at split
      rw [cstr_emittedName short blockNo split last] at emitted
      rw [← emitted]
      exact ⟨more, first, text⟩
    · rintro ⟨more, first, text⟩
      have split := text
      rw [← List.append_assoc] at split
      exact ⟨⟨more, c.name, text, first, c.noSlash⟩, cstr_emittedName short blockNo split c.noSlash⟩

theorem mem_of_inReach {m : Member} (reached : m ∈ inReach members) : m ∈ members := by
  obtain ⟨⟨m, k⟩, listed, rfl⟩ := List.mem_map.mp reached
  have entry := (List.mem_filter.mp listed).1
  rw [List.mk_mem_zipIdx_iff_getElem?] at entry
  exact List.mem_of_getElem? entry

theorem length_reachFrom_le : (reachFrom members 0).length ≤ members.length := by
  have filtered := List.length_filter_le (fun entry => decide (offset members entry.2 < 1099511627776))
    ((members.drop 0).zipIdx 0)
  rw [List.length_zipIdx, List.drop_zero] at filtered
  exact filtered

/-- An entry of the listing is one of the members in reach. -/
theorem emittedIn_iff (short : ∀ m ∈ members, m.name.length < 100) :
    (∃ entry ∈ emittedIn junk (pathOf names) ((reachFrom members 0).map (station members)),
        cstr entry = c.name) ↔ ∃ m ∈ inReach members, ListedAs names c m := by
  have shortReached : ∀ entry ∈ reachFrom members 0, entry.1.name.length < 100 := by
    intro entry reached
    apply short
    apply mem_of_inReach
    rw [← reachFrom_zero]
    exact List.mem_map_of_mem reached
  rw [← mem_reachFrom_iff]
  constructor
  · rintro ⟨entry, emitted, name⟩
    obtain ⟨file, listed, rfl⟩ := List.mem_map.mp emitted
    obtain ⟨stationed, child⟩ := List.mem_filter.mp listed
    obtain ⟨entry, reached, rfl⟩ := List.mem_map.mp stationed
    exact ⟨entry, reached, (listedAs_iff (shortReached entry reached) _).mp ⟨child, name⟩⟩
  · rintro ⟨entry, reached, listed⟩
    obtain ⟨child, name⟩ := (@listedAs_iff junk _ _ _ (shortReached entry reached)
      (offset members entry.2 / 512 : Nat)).mpr listed
    refine ⟨emittedName junk (station members entry).2, ?_, name⟩
    apply List.mem_map_of_mem
    exact List.mem_filter.mpr ⟨List.mem_map_of_mem reached, child⟩

/-- `tarfs_readdir` returns, and lists `c` exactly if one of the members in reach is listed so. -/
theorem readdir_lists_iff (notFull : ∀ m ∈ members, ¬(0 < m.size ∧ 512 ∣ m.size))
    (short : ∀ m ∈ members, m.name.length < 100) (fits : (pathOf (names ++ [c])).length < 100)
    {fuel : Nat} (enough : members.length < fuel) :
    ∃ entries fPos, tarfsReaddir (image members behind) junk names 0 fuel = .done entries fPos ∧
      ((∃ entry ∈ entries, cstr entry = c.name) ↔ ∃ m ∈ inReach members, ListedAs names c m) := by
  have files := @files_image members behind junk notFull short
  have few : ((reachFrom members 0).map (station members)).length < fuel := by
    rw [List.length_map]
    exact Nat.lt_of_le_of_lt length_reachFrom_le enough
  have listed := @readdirLoop_files _ _ _ _ files (pathOf names) fuel few 0
  refine ⟨emittedIn junk (pathOf names) ((reachFrom members 0).map (station members)),
    int32 (0 + ((reachFrom members 0).map (station members)).length), ?_, ?_⟩
  · rw [tarfsReaddir, if_neg (by decide), (dentryPathRaw_fits fits).2]
    exact listed
  · exact emittedIn_iff short

/-- `find_file_by_dentry` finds the path exactly if one of the members in reach has it. -/
theorem find_found_iff (notFull : ∀ m ∈ members, ¬(0 < m.size ∧ 512 ∣ m.size))
    (short : ∀ m ∈ members, m.name.length < 100) (fits : (pathOf (names ++ [c])).length < 100)
    {fuel : Nat} (enough : members.length < fuel) :
    (∃ number, findFileByDentry (image members behind) junk (names ++ [c]) fuel = .found number) ↔
      ∃ m ∈ inReach members, slash :: dropSlash m.name = pathOf (names ++ [c]) := by
  have files := @files_image members behind junk notFull short
  have few : ((reachFrom members 0).map (station members)).length < fuel := by
    rw [List.length_map]
    exact Nat.lt_of_le_of_lt length_reachFrom_le enough
  have leading : ∃ path, pathOf (names ++ [c]) = slash :: path := by
    cases names with
    | nil => exact ⟨_, rfl⟩
    | cons first rest => exact ⟨_, rfl⟩
  obtain ⟨path, leading⟩ := leading
  rw [findFileByDentry, (dentryPathRaw_fits fits).1, leading]
  simp only [List.drop_succ_cons, List.drop_zero, findLoop_files files few, findIn_found_iff,
    List.cons.injEq, true_and]
  rw [← mem_reachFrom_iff]
  simp [station]

/-- A file in the directory is listed. -/
theorem listedAs_child {m : Member} (path : slash :: dropSlash m.name = pathOf (names ++ [c])) :
    ListedAs names c m := by
  rw [pathOf_child] at path
  by_cases root : names = []
  · rw [ListedAs, if_pos root]
    rw [if_pos root] at path
    exact (List.cons.inj path).2
  · rw [ListedAs, if_neg root]
    rw [if_neg root] at path
    exact ⟨[], List.not_mem_nil, path⟩

/-- A member that is listed is a file in the directory, or it is mistaken for one. -/
theorem listedAs_cases {m : Member} (reached : m ∈ inReach members) (listed : ListedAs names c m) :
    slash :: dropSlash m.name = pathOf (names ++ [c]) ∨ (names ≠ [] ∧ Mistaken members names c) := by
  rw [pathOf_child]
  by_cases root : names = []
  · rw [ListedAs, if_pos root] at listed
    rw [if_pos root, listed]
    exact .inl rfl
  · rw [ListedAs, if_neg root] at listed
    obtain ⟨more, noSlash, text⟩ := listed
    rw [if_neg root]
    by_cases empty : more = []
    · subst empty
      exact .inl text
    · exact .inr ⟨root, m, reached, more, empty, noSlash, text⟩

/-- They agree if and only if exactly the members with the path are listed. -/
theorem listingMatchesLookup_iff_listedAs (notFull : ∀ m ∈ members, ¬(0 < m.size ∧ 512 ∣ m.size))
    (short : ∀ m ∈ members, m.name.length < 100) (fits : (pathOf (names ++ [c])).length < 100) :
    ListingMatchesLookup members behind junk names c ↔
      ((∃ m ∈ inReach members, ListedAs names c m) ↔
        ∃ m ∈ inReach members, slash :: dropSlash m.name = pathOf (names ++ [c])) := by
  constructor
  · rintro ⟨enough, agree⟩
    obtain ⟨entries, fPos, listed, agree⟩ := agree (enough + members.length + 1) (by omega)
    obtain ⟨entries', fPos', listed', lists⟩ := @readdir_lists_iff members behind junk names c notFull
      short fits (enough + members.length + 1) (by omega)
    rw [listed'] at listed
    cases listed
    rw [← lists, agree]
    exact find_found_iff notFull short fits (by omega)
  · intro agree
    refine ⟨members.length + 1, fun fuel enough => ?_⟩
    obtain ⟨entries, fPos, listed, lists⟩ := @readdir_lists_iff members behind junk names c notFull
      short fits fuel enough
    refine ⟨entries, fPos, listed, ?_⟩
    rw [lists, agree]
    exact (find_found_iff notFull short fits enough).symm

/-- The listing of a directory and the lookup of a name in it agree exactly when the listing is right
    about the name: the directory is the root, or it has such a file, or there is no file of that name
    in a directory whose name begins with the name of this one. -/
theorem listing_agrees_with_lookup_iff (notFull : ∀ m ∈ members, ¬(0 < m.size ∧ 512 ∣ m.size))
    (short : ∀ m ∈ members, m.name.length < 100) (fits : (pathOf (names ++ [c])).length < 100) :
    ListingMatchesLookup members behind junk names c ↔ ListedRightly members names c := by
  rw [listingMatchesLookup_iff_listedAs notFull short fits]
  constructor
  · intro agree
    by_cases mistaken : Mistaken members names c
    · by_cases root : names = []
      · exact .inl root
      · obtain ⟨m, reached, more, nonempty, noSlash, text⟩ := mistaken
        refine .inr (.inl (agree.mp ⟨m, reached, ?_⟩))
        rw [ListedAs, if_neg root]
        exact ⟨more, noSlash, text⟩
    · exact .inr (.inr mistaken)
  · intro right
    constructor
    · rintro ⟨m, reached, listed⟩
      rcases listedAs_cases reached listed with path | ⟨below, mistaken⟩
      · exact ⟨m, reached, path⟩
      · rcases right with root | found | notMistaken
        · exact absurd root below
        · exact found
        · exact absurd mistaken notMistaken
    · rintro ⟨m, reached, path⟩
      exact ⟨m, reached, listedAs_child path⟩

end Agreement

/-! ### Directories with similar names -/

/-- A directory in the archive. -/
def emptyDirectory (name : List UInt8) (nonempty : name ≠ []) (length : name.length ≤ 100)
    (plain : Plain name) : Member :=
  { emptyFile name nonempty length plain with typeflag := 53 }

/-- The directories `a/` and `ab/`, and the file `ab/c`. -/
def similarDirectories : List Member :=
  [emptyDirectory [97, 47] (by decide) (by decide) (by decide),
    emptyDirectory [97, 98, 47] (by decide) (by decide) (by decide),
    emptyFile [97, 98, 47, 99] (by decide) (by decide) (by decide)]

def componentA : Component := ⟨[97], by decide, by decide, by decide⟩

def componentB : Component := ⟨[97, 98], by decide, by decide, by decide⟩

def componentC : Component := ⟨[99], by decide, by decide, by decide⟩

theorem similarDirectories_notFull : ∀ m ∈ similarDirectories, ¬(0 < m.size ∧ 512 ∣ m.size) := by
  simp [similarDirectories, emptyDirectory, emptyFile]

theorem similarDirectories_short : ∀ m ∈ similarDirectories, m.name.length < 100 := by
  simp [similarDirectories, emptyDirectory, emptyFile]

theorem inReach_similarDirectories : inReach similarDirectories = similarDirectories := rfl

/-- The file is listed and found in its own directory. -/
theorem listing_agrees_in_own_directory :
    ListingMatchesLookup similarDirectories [] ⟨[], 0⟩ [componentB] componentC :=
  (listing_agrees_with_lookup_iff similarDirectories_notFull similarDirectories_short (by decide)).mpr
    (.inr (.inl (by
      rw [inReach_similarDirectories]
      decide)))

/-- The file `c` of the directory `ab` is listed in the directory `a` too. -/
theorem file_listed_in_similar_directory :
    ¬ListingMatchesLookup similarDirectories [] ⟨[], 0⟩ [componentA] componentC := by
  rw [listingMatchesLookup_iff_listedAs similarDirectories_notFull similarDirectories_short (by decide),
    inReach_similarDirectories]
  intro agree
  have notFound : ¬∃ m ∈ similarDirectories,
      slash :: dropSlash m.name = pathOf ([componentA] ++ [componentC]) := by decide
  apply notFound
  apply agree.mp
  refine ⟨emptyFile [97, 98, 47, 99] (by decide) (by decide) (by decide), ?_, [98], by decide, by decide⟩
  simp [similarDirectories]

end Nfs4Compound.Tar.Aboyaritsev
