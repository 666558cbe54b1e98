/-
Module: Nfs4Compound.Proofs.TarKsaltuk
Layer: Proofs
Purpose: When the listings and the lookups of the driver of ksaltuk agree.
Imports: Nfs4Compound.Tar.Ksaltuk, Nfs4Compound.Proofs.TarScan
Trusted boundary: none
Main exports: Reads, entryName_short, Reachable.short, listing_matches_lookup_iff
-/
import Nfs4Compound.Tar.Ksaltuk
import Nfs4Compound.Proofs.TarScan

namespace Nfs4Compound.Tar.Ksaltuk

open CText

variable {members : List Member} {behind : List UInt8} {junk : Junk}

/-! ### The headers a loop reads -/

/-- The loops read these headers, one after the other, each at its block; and then they end. -/
inductive Reads (device : List UInt8) (junk : Junk) : Int → List (Int × List UInt8) → Ending → Prop where
  | crash {i : Int} (read : bread device i = none) : Reads device junk i [] .crashed
  | stop {i : Int} {block : List UInt8} (read : bread device i = some block)
      (zero : block.head? = some 0) : Reads device junk i [] .notFound
  | more {i : Int} {block : List UInt8} {rest : List (Int × List UInt8)} {ending : Ending}
      (read : bread device i = some block) (nonzero : block.head? ≠ some 0)
      (next : Reads device junk (nextBlock junk block i) rest ending) :
      Reads device junk i ((i, block) :: rest) ending

/-- The headers of some members, from the `k`-th on. -/
def stations (members : List Member) (k : Nat) (some : List Member) : List (Int × List UInt8) :=
  (some.zipIdx k).map fun entry => (((offset members entry.2 / 512 : Nat) : Int), entry.1.header)

theorem stations_cons (k : Nat) (m : Member) (rest : List Member) :
    stations members k (m :: rest) =
      (((offset members k / 512 : Nat) : Int), m.header) :: stations members (k + 1) rest := by
  rw [stations, List.zipIdx_cons, List.map_cons, stations]

/-- A loop reads the headers of the members to the end of the archive; or, in an archive that is too
    long for block numbers of type `int`, of some of them. -/
theorem reads_stations (k : Nat) (inside : k ≤ members.length)
    (reached : offset members k < 1099511627776) :
    (offset members members.length < 1099511627776 ∧
        Reads (image members behind) junk ((offset members k / 512 : Nat) : Int)
          (stations members k (members.drop k)) .notFound) ∨
      (¬offset members members.length < 1099511627776 ∧
        ∃ n, Reads (image members behind) junk ((offset members k / 512 : Nat) : Int)
          (stations members k ((members.drop k).take n)) .crashed) := by
  -- the induction is on the number of members still to come
  induction hd : members.length - k generalizing k with
  | zero =>
      have all : k = members.length := by omega
      subst all
      left
      refine ⟨reached, ?_⟩
      rw [List.drop_length]
      exact Reads.stop bread_end rfl
  | succ d inductionHypothesis =>
      have less : k < members.length := by omega
      have next := @nextBlock_offset _ junk k less
      have bound := offset_div_succ less
      have few := blocksOf_small members[k]
      rw [List.drop_eq_getElem_cons less]
      by_cases further : offset members (k + 1) < 1099511627776
      · rw [int32_of_range (by omega) (by omega)] at next
        rcases inductionHypothesis (k + 1) less further (by omega) with ⟨short, reads⟩ | ⟨long, n, reads⟩
        · left
          refine ⟨short, ?_⟩
          rw [stations_cons]
          apply Reads.more (bread_header less) (head_header _)
          rw [next]
          exact reads
        · right
          refine ⟨long, n + 1, ?_⟩
          rw [List.take_succ_cons, stations_cons]
          apply Reads.more (bread_header less) (head_header _)
          rw [next]
          exact reads
      · -- the number of the next block is negative
        right
        have mono : offset members (k + 1) ≤ offset members members.length := offset_mono less
        refine ⟨by omega, 1, ?_⟩
        rw [List.take_succ_cons, stations_cons, List.take_zero]
        apply Reads.more (bread_header less) (head_header _)
        rw [next]
        apply Reads.crash
        rw [bread, if_neg]
        unfold int32
        omega

theorem reads_image :
    (offset members members.length < 1099511627776 ∧
        Reads (image members behind) junk 0 (stations members 0 members) .notFound) ∨
      (¬offset members members.length < 1099511627776 ∧
        ∃ n, Reads (image members behind) junk 0 (stations members 0 (members.take n)) .crashed) := by
  have start : offset members 0 = 0 := by simp [offset]
  have whole := @reads_stations members behind junk 0 (Nat.zero_le _) (by omega)
  simpa [start] using whole

/-- A header among those read is that of a member, at its block. -/
theorem mem_stations {n : Nat} {b : Int} {block : List UInt8}
    (member : (b, block) ∈ stations members 0 (members.take n)) :
    ∃ k, ∃ inside : k < members.length,
      b = ((offset members k / 512 : Nat) : Int) ∧ block = members[k].header := by
  obtain ⟨⟨m, k⟩, listed, position⟩ := List.mem_map.mp member
  obtain ⟨position, header⟩ := Prod.mk.inj position
  rw [List.mk_mem_zipIdx_iff_getElem?] at listed
  obtain ⟨inside, found⟩ := List.getElem?_eq_some_iff.mp listed
  rw [List.length_take] at inside
  rw [List.getElem_take] at found
  refine ⟨k, by omega, position.symm, ?_⟩
  rw [found]
  exact header.symm

/-! ### The loops over the headers -/

section Loops

variable {device name parent : List UInt8} {i : Int} {headers : List (Int × List UInt8)} {ending : Ending}

theorem createInodeByName_reads (reads : Reads device junk i headers ending) {fuel : Nat}
    (enough : headers.length < fuel) :
    createInodeByName device junk name fuel i =
      match headers.find? (fun read => entryName junk read.2 = name) with
      | some read => .found read.1
      | none => if ending = .notFound then .notFound else .crashed := by
  induction reads generalizing fuel with
  | crash read =>
      obtain ⟨fuel, rfl⟩ : ∃ n, fuel = n + 1 := ⟨fuel - 1, by simp at enough; omega⟩
      rw [createInodeByName, read]
      rfl
  | stop read zero =>
      obtain ⟨fuel, rfl⟩ : ∃ n, fuel = n + 1 := ⟨fuel - 1, by simp at enough; omega⟩
      rw [createInodeByName, read]
      simp [zero]
  | @more i block rest ending read nonzero next inductionHypothesis =>
      rw [List.length_cons] at enough
      obtain ⟨fuel, rfl⟩ : ∃ n, fuel = n + 1 := ⟨fuel - 1, by omega⟩
      rw [createInodeByName, read]
      simp only [nonzero, if_false]
      by_cases same : entryName junk block = name
      · simp [same]
      · simp only [same, if_false, decide_false, Bool.false_eq_true, not_false_eq_true,
          List.find?_cons_of_neg]
        exact inductionHypothesis (Nat.lt_of_succ_lt_succ enough)

/-- Whatever is found has been read, and has the name. -/
theorem mem_of_found (reads : Reads device junk i headers ending) {fuel : Nat} {b : Int}
    (found : createInodeByName device junk name fuel i = .found b) :
    ∃ block, (b, block) ∈ headers ∧ entryName junk block = name := by
  induction reads generalizing fuel with
  | crash read =>
      cases fuel with
      | zero => cases found
      | succ fuel => simp [createInodeByName, read] at found
  | stop read zero =>
      cases fuel with
      | zero => cases found
      | succ fuel => simp [createInodeByName, read, zero] at found
  | @more i block rest ending read nonzero next inductionHypothesis =>
      cases fuel with
      | zero => cases found
      | succ fuel =>
          simp only [createInodeByName, read, nonzero, if_false] at found
          split at found
          · rename_i same
            cases found
            exact ⟨block, List.mem_cons_self, same⟩
          · obtain ⟨block', member, same⟩ := inductionHypothesis found
            exact ⟨block', List.mem_cons_of_mem _ member, same⟩

theorem readdirLoop_reads (reads : Reads device junk i headers ending) {fuel : Nat}
    (enough : headers.length < fuel) :
    readdirLoop device junk parent fuel i =
      (headers.filterMap (fun read =>
        let entry := cstr (read.2 ++ junk.behind)
        if parent.length < entry.length ∧ isEntryOf entry parent then
          some (entry.drop parent.length, read.1 + 1) else none), ending) := by
  induction reads generalizing fuel with
  | crash read =>
      obtain ⟨fuel, rfl⟩ : ∃ n, fuel = n + 1 := ⟨fuel - 1, by simp at enough; omega⟩
      rw [readdirLoop, read]
      rfl
  | stop read zero =>
      obtain ⟨fuel, rfl⟩ : ∃ n, fuel = n + 1 := ⟨fuel - 1, by simp at enough; omega⟩
      rw [readdirLoop, read]
      simp [zero]
  | @more i block rest ending read nonzero next inductionHypothesis =>
      rw [List.length_cons] at enough
      obtain ⟨fuel, rfl⟩ : ∃ n, fuel = n + 1 := ⟨fuel - 1, by omega⟩
      rw [readdirLoop, read]
      simp only [nonzero, if_false, inductionHypothesis (Nat.lt_of_succ_lt_succ enough),
        List.filterMap_cons]
      split <;> rfl

end Loops

/-! ### Names in a header -/

theorem header_text (m : Member) : cstr (m.header ++ junk.behind) = headerText m := by
  unfold headerText
  split
  · rename_i short
    obtain ⟨rest, header⟩ := m.header_name
    rw [header, List.append_assoc, cstr_padTo m.name_plain short]
  · rename_i long
    have fits := m.name_length
    have full : padTo 100 m.name = m.name := by
      rw [padTo, show 100 - m.name.length = 0 by omega, List.replicate_zero, List.append_nil]
    have plain : Plain (m.name ++ octalDigits 7 m.mode) := by
      intro c member
      rcases List.mem_append.mp member with member | member
      · exact m.name_plain c member
      · exact plain_octalDigits _ _ c member
    rw [Member.header, full, Member.owner, octalField]
    simp only [List.append_assoc, List.singleton_append]
    rw [← List.append_assoc m.name]
    exact cstr_append_zero plain _

theorem strncpy_name (m : Member) : strncpy 100 m.header = padTo 100 m.name := by
  obtain ⟨rest, header⟩ := m.header_name
  rw [header]
  exact strncpy_field m.name_plain m.name_length rest

theorem entryName_short {m : Member} (short : m.name.length < 100) :
    entryName junk m.header = dropSlash m.name := by
  have len : cstr (m.header ++ junk.behind) = m.name := by
    rw [header_text, headerText, if_pos short]
  obtain ⟨k, room⟩ : ∃ k, 100 - m.name.length = k + 1 := ⟨99 - m.name.length, by omega⟩
  have nonempty := List.length_pos_iff.mpr m.name_nonempty
  have name := (List.dropLast_concat_getLast m.name_nonempty).symm
  have plain := m.name_plain
  have position : m.name.length - 1 = m.name.dropLast.length := by simp
  rw [entryName, len, strncpy_name, padTo, room, List.replicate_succ, dropSlash,
    List.getLast?_eq_some_getLast m.name_nonempty]
  simp only [nonempty, true_and]
  have last : (m.name ++ (0 :: List.replicate k 0) ++ junk.behind)[m.name.length - 1]? =
      some (m.name.getLast m.name_nonempty) := by
    rw [List.append_assoc, List.getElem?_append_left (by omega), List.getLast_eq_getElem,
      List.getElem?_eq_getElem (by omega)]
  rw [last]
  split
  · have cut : (m.name ++ (0 :: List.replicate k 0) ++ junk.behind).set (m.name.length - 1) 0 =
        m.name.dropLast ++ 0 :: (0 :: List.replicate k 0 ++ junk.behind) := by
      have split : m.name ++ (0 :: List.replicate k 0) ++ junk.behind =
          m.name.dropLast ++ m.name.getLast m.name_nonempty :: (0 :: List.replicate k 0 ++ junk.behind) := by
        conv_lhs => rw [name]
        simp
      rw [position, split, List.set_append_right _ _ (Nat.le_refl _), Nat.sub_self, List.set_cons_zero]
    rw [cut, cstr_append_zero]
    intro c member
    exact plain c ((List.dropLast_sublist _).subset member)
  · rw [List.append_assoc, List.cons_append, cstr_append_zero plain]

/-- A name that fills its field is compared with more than 99 bytes. -/
theorem entryName_long {m : Member} (long : ¬m.name.length < 100) :
    100 ≤ (entryName junk m.header).length := by
  have fits := m.name_length
  have full : padTo 100 m.name = m.name := by
    rw [padTo, show 100 - m.name.length = 0 by omega, List.replicate_zero, List.append_nil]
  have len : (cstr (m.header ++ junk.behind)).length = 107 := by
    rw [header_text, headerText, if_neg long, List.length_append, length_octalDigits]
    omega
  rw [entryName, len, strncpy_name, full]
  split
  · rw [List.set_append_right _ _ (by omega), cstr_append m.name_plain, List.length_append]
    omega
  · rw [cstr_append m.name_plain, List.length_append]
    omega

/-- A name of at most 99 bytes is compared with the names of less than 100 bytes. -/
theorem entryName_eq_iff {m : Member} {name : List UInt8} (fits : name.length ≤ 99) :
    entryName junk m.header = name ↔ m.name.length < 100 ∧ dropSlash m.name = name := by
  by_cases short : m.name.length < 100
  · rw [entryName_short short]
    simp [short]
  · simp only [short, false_and, iff_false]
    rintro rfl
    have := @entryName_long junk m short
    omega

/-! ### Directories that are reached -/

theorem offset_strict {k l : Nat} (less : k < l) (inside : l ≤ members.length) :
    offset members k / 512 < offset members l / 512 := by
  have step := @offset_div_succ members k (by omega)
  have mono : offset members (k + 1) ≤ offset members l := offset_mono less
  have := Nat.div_le_div_right (c := 512) mono
  omega

theorem directoryOffset_inj {j k : Nat} (insideJ : j < members.length) (insideK : k < members.length)
    (same : directoryOffset members (some j) = directoryOffset members (some k)) : j = k := by
  rw [directoryOffset, directoryOffset, Int.ofNat_inj] at same
  rcases Nat.lt_trichotomy j k with less | equal | more
  · have := offset_strict less (Nat.le_of_lt insideK)
    omega
  · exact equal
  · have := offset_strict more (Nat.le_of_lt insideJ)
    omega

theorem directoryName_short {d : Nat} (inside : d < members.length)
    (short : members[d].name.length < 100) :
    directoryName (image members behind) junk (directoryOffset members (some d)) =
      some members[d].name := by
  rw [directoryName, directoryOffset, bread_header inside, Option.map_some, strncpy_name,
    cstr_padTo members[d].name_plain short]

theorem length_fullName {parent c : List UInt8} (short : parent.length ≤ 99) :
    fullName parent c = (parent ++ c).take 99 ∧ (fullName parent c).length ≤ 99 := by
  have cut : fullName parent c = (parent ++ c).take 99 := by
    rw [fullName, if_pos short, List.take_append, List.take_of_length_le short]
  rw [cut]
  exact ⟨rfl, by simp⟩

/-- The name a lookup in the directory puts in front. -/
def Opened (members : List Member) (dir : Option Nat) : Prop :=
  ∀ d, dir = some d → ∃ inside : d < members.length, members[d].name.length < 100

theorem tarfsLookup_opened {dir : Option Nat} (opened : Opened members dir) (c : List UInt8) (fuel : Nat) :
    tarfsLookup (image members behind) junk (directoryOffset members dir) c fuel =
      createInodeByName (image members behind) junk ((directoryPath members dir ++ c).take 99) fuel 0 := by
  cases dir with
  | none =>
      have root : ¬0 ≤ directoryOffset members none := by simp [directoryOffset]
      rw [tarfsLookup, if_neg root]
      simp only []
      rw [(@length_fullName [] c (by simp)).1]
      rfl
  | some d =>
      obtain ⟨inside, short⟩ := opened d rfl
      have nonneg : 0 ≤ directoryOffset members (some d) := Int.natCast_nonneg _
      have path : directoryPath members (some d) = members[d].name := by
        rw [directoryPath, List.getElem?_eq_getElem inside]
        rfl
      rw [tarfsLookup, if_pos nonneg, directoryName_short inside short, path]
      simp only []
      rw [(@length_fullName _ c (by omega)).1]

/-- The directories reached have names of less than 100 bytes. -/
theorem Reachable.opened {dir : Option Nat} (reachable : Reachable members behind junk dir) :
    Opened members dir := by
  induction reachable with
  | root =>
      intro d none
      cases none
  | @step dir d fuel c parent inside found directory inductionHypothesis =>
      intro d' same
      cases same
      refine ⟨inside, ?_⟩
      rw [tarfsLookup_opened inductionHypothesis] at found
      have read : ∃ n block, (directoryOffset members (some d), block) ∈
          stations members 0 (members.take n) ∧
            entryName junk block = (directoryPath members dir ++ c).take 99 := by
        rcases @reads_image members behind junk with ⟨_, reads⟩ | ⟨_, n, reads⟩
        · refine ⟨members.length, ?_⟩
          rw [List.take_length]
          exact mem_of_found reads found
        · exact ⟨n, mem_of_found reads found⟩
      obtain ⟨n, block, member, same⟩ := read
      obtain ⟨k, inside', position, rfl⟩ := mem_stations member
      have index : d = k := directoryOffset_inj inside inside' position
      subst index
      exact ((entryName_eq_iff (by simp)).mp same).1

/-! ### What is found and what is listed -/

theorem find_stations (p : List UInt8 → Bool) (k : Nat) (some : List Member) :
    ((stations members k some).find? fun read => p read.2).map Prod.fst =
      (some.findIdx? fun m => p m.header).map fun j => directoryOffset members (.some (k + j)) := by
  induction some generalizing k with
  | nil => rfl
  | cons m rest inductionHypothesis =>
      rw [stations_cons, List.findIdx?_cons]
      by_cases here : p m.header = true
      · simp [here, directoryOffset]
      · rw [List.find?_cons_of_neg (by simpa using here), inductionHypothesis, if_neg here, Option.map_map]
        congr 1
        funext j
        simp only [Function.comp_apply]
        congr 2
        omega

/-- In an archive that is not too long, a lookup finds the first member that is compared as equal. -/
theorem lookup_found_iff {dir : Option Nat} (opened : Opened members dir) {c : List UInt8} {fuel : Nat}
    (reads : Reads (image members behind) junk 0 (stations members 0 members) .notFound)
    (enough : (stations members 0 members).length < fuel) (block : Int) :
    tarfsLookup (image members behind) junk (directoryOffset members dir) c fuel = .found block ↔
      ∃ j, members.findIdx? (fun m => m.name.length < 100 ∧
          dropSlash m.name = (directoryPath members dir ++ c).take 99) = some j ∧
        block = directoryOffset members (some j) := by
  have same : (fun m : Member => decide (entryName junk m.header =
        (directoryPath members dir ++ c).take 99)) =
      fun m => decide (m.name.length < 100 ∧
        dropSlash m.name = (directoryPath members dir ++ c).take 99) := by
    funext m
    exact decide_eq_decide.mpr (entryName_eq_iff (by simp))
  have first := @find_stations members (fun block => entryName junk block =
    (directoryPath members dir ++ c).take 99) 0 members
  rw [same] at first
  rw [tarfsLookup_opened opened, createInodeByName_reads reads enough]
  cases found : (stations members 0 members).find? fun read =>
      decide (entryName junk read.2 = (directoryPath members dir ++ c).take 99) with
  | none =>
      rw [found, Option.map_none] at first
      cases index : members.findIdx? (fun m => decide (m.name.length < 100 ∧
          dropSlash m.name = (directoryPath members dir ++ c).take 99)) with
      | none => simp
      | some j =>
          rw [index] at first
          cases first
  | some read =>
      rw [found, Option.map_some] at first
      cases index : members.findIdx? (fun m => decide (m.name.length < 100 ∧
          dropSlash m.name = (directoryPath members dir ++ c).take 99)) with
      | none =>
          rw [index] at first
          cases first
      | some j =>
          rw [index, Option.map_some, Nat.zero_add, Option.some.injEq] at first
          simp only [first, Lookup.found.injEq, Option.some.injEq, exists_eq_left']
          exact eq_comm

/-- The name of the directory as the listing reads it. -/
theorem tarfsReaddir_opened {dir : Option Nat} (opened : Opened members dir) (fuel : Nat) :
    tarfsReaddir (image members behind) junk (directoryOffset members dir) fuel =
      readdirLoop (image members behind) junk
        (if dir = some 0 then [] else directoryPath members dir) fuel 0 := by
  cases dir with
  | none =>
      have root : ¬0 < directoryOffset members none := by simp [directoryOffset]
      rw [tarfsReaddir, if_neg root]
      rfl
  | some d =>
      obtain ⟨inside, short⟩ := opened d rfl
      cases d with
      | zero =>
          have first : ¬0 < directoryOffset members (some 0) := by simp [directoryOffset, offset]
          rw [tarfsReaddir, if_neg first]
          rfl
      | succ d =>
          have positive : 0 < directoryOffset members (some (d + 1)) := by
            have := @offset_strict members 0 (d + 1) (by omega) (by omega)
            rw [directoryOffset]
            omega
          have path : directoryPath members (some (d + 1)) = members[d + 1].name := by
            rw [directoryPath, List.getElem?_eq_getElem inside]
            rfl
          rw [tarfsReaddir, if_pos positive, directoryName_short inside short, path, if_neg (by simp)]

/-- An entry is listed as `c` if its text is the directory and then `c`. -/
theorem listed_iff {parent c : List UInt8} (component : slash ∉ c) (entry : List UInt8) :
    (parent.length < entry.length ∧ isEntryOf entry parent) ∧ entry.drop parent.length = c ↔
      c ≠ [] ∧ entry = parent ++ c := by
  constructor
  · rintro ⟨⟨longer, isEntry⟩, rfl⟩
    rw [isEntryOf, decide_eq_true_eq] at isEntry
    constructor
    · rw [ne_eq, List.drop_eq_nil_iff]
      omega
    · conv_lhs => rw [← List.take_append_drop parent.length entry]
      rw [isEntry.1]
  · rintro ⟨nonempty, rfl⟩
    have positive := List.length_pos_iff.mpr nonempty
    refine ⟨⟨by rw [List.length_append]; omega, ?_⟩, by simp⟩
    rw [isEntryOf, decide_eq_true_eq]
    refine ⟨by simp, ?_⟩
    rw [List.drop_left]
    exact fun member => component ((List.dropLast_sublist _).subset member)

theorem mem_listing_iff {dir : Option Nat} (opened : Opened members dir) {c : List UInt8} {fuel : Nat}
    (component : slash ∉ c)
    (reads : Reads (image members behind) junk 0 (stations members 0 members) .notFound)
    (enough : (stations members 0 members).length < fuel) :
    c ∈ (tarfsReaddir (image members behind) junk (directoryOffset members dir) fuel).1.map Prod.fst ↔
      c ≠ [] ∧ ∃ m ∈ members, headerText m = listedName members dir c := by
  have parent : listedName members dir c =
      (if dir = some 0 then [] else directoryPath members dir) ++ c := by
    rw [listedName]
    split <;> rfl
  rw [tarfsReaddir_opened opened, readdirLoop_reads reads enough, parent, List.mem_map]
  generalize (if dir = some 0 then [] else directoryPath members dir) = parent
  constructor
  · rintro ⟨entry, member, rfl⟩
    obtain ⟨⟨b, block⟩, read, listed⟩ := List.mem_filterMap.mp member
    obtain ⟨k, inside, rfl, rfl⟩ := @mem_stations members members.length b block (by
      rwa [List.take_length])
    simp only [header_text, Option.ite_none_right_eq_some, Option.some.injEq] at listed
    have text := (listed_iff component _).mp ⟨listed.1, congrArg Prod.fst listed.2⟩
    exact ⟨text.1, members[k], List.getElem_mem inside, text.2⟩
  · rintro ⟨nonempty, m, member, text⟩
    obtain ⟨k, inside, rfl⟩ := List.getElem_of_mem member
    have text := (listed_iff component _).mpr ⟨nonempty, text⟩
    refine ⟨(c, directoryOffset members (some k) + 1), List.mem_filterMap.mpr ?_, rfl⟩
    refine ⟨(directoryOffset members (some k), members[k].header), ?_, ?_⟩
    · apply List.mem_map.mpr
      refine ⟨(members[k], k), ?_, rfl⟩
      rw [List.mk_mem_zipIdx_iff_getElem?]
      exact List.getElem?_eq_getElem inside
    · simp only [header_text, text.1, text.2, and_self, if_true]

/-! ### When the listing and the lookups agree -/

/-- What is asked for, of the names of the members: one is listed exactly when one is found, and the
    first one found is the first of that path. -/
def NamesMatch (members : List Member) (dir : Option Nat) (c : List UInt8) : Prop :=
  ((c ≠ [] ∧ ∃ m ∈ members, headerText m = listedName members dir c) ↔
      ∃ m ∈ members, m.name.length < 100 ∧
        dropSlash m.name = (directoryPath members dir ++ c).take 99) ∧
    ∀ j, members.findIdx? (fun m => m.name.length < 100 ∧
        dropSlash m.name = (directoryPath members dir ++ c).take 99) = some j →
      members.findIdx? (fun m => dropSlash m.name = directoryPath members dir ++ c) = some j

theorem findIdx_some_iff (p : Member → Bool) :
    (∃ j, members.findIdx? p = some j) ↔ ∃ m ∈ members, p m = true := by
  rw [← Option.isSome_iff_exists, List.findIdx?_isSome, List.any_eq_true]

theorem listingMatchesLookup_iff_names {dir : Option Nat} (opened : Opened members dir) {c : List UInt8}
    (component : slash ∉ c) :
    ListingMatchesLookup members behind junk dir c ↔
      offset members members.length < 1099511627776 ∧ NamesMatch members dir c := by
  rcases @reads_image members behind junk with ⟨short, reads⟩ | ⟨long, n, reads⟩
  · -- for enough fuel, listing and lookup are those of the names
    have run (fuel : Nat) (enough : (stations members 0 members).length < fuel) :
        (let listing := tarfsReaddir (image members behind) junk (directoryOffset members dir) fuel
          let found := tarfsLookup (image members behind) junk (directoryOffset members dir) c fuel
          listing.2 = .notFound ∧ (c ∈ listing.1.map Prod.fst ↔ ∃ block, found = .found block) ∧
            ∀ block, found = .found block →
              ∃ j, members.findIdx? (fun m => dropSlash m.name = directoryPath members dir ++ c) =
                some j ∧ block = directoryOffset members (some j)) ↔ NamesMatch members dir c := by
      have ending : (tarfsReaddir (image members behind) junk (directoryOffset members dir) fuel).2 =
          .notFound := by
        rw [tarfsReaddir_opened opened, readdirLoop_reads reads enough]
      have found := @lookup_found_iff members behind junk dir opened c fuel reads enough
      have some : (∃ block, tarfsLookup (image members behind) junk (directoryOffset members dir) c fuel =
            .found block) ↔
          ∃ m ∈ members, m.name.length < 100 ∧
            dropSlash m.name = (directoryPath members dir ++ c).take 99 := by
        have first := @findIdx_some_iff members (fun m => m.name.length < 100 ∧
          dropSlash m.name = (directoryPath members dir ++ c).take 99)
        simp only [decide_eq_true_eq] at first
        rw [← first]
        constructor
        · rintro ⟨block, here⟩
          obtain ⟨j, index, _⟩ := (found block).mp here
          exact ⟨j, index⟩
        · rintro ⟨j, index⟩
          exact ⟨_, (found _).mpr ⟨j, index, rfl⟩⟩
      simp only [ending, true_and]
      rw [mem_listing_iff opened component reads enough, some, NamesMatch]
      apply and_congr_right
      intro _
      constructor
      · intro right j index
        obtain ⟨j', index', same⟩ := right _ ((found _).mpr ⟨j, index, rfl⟩)
        have insideJ := (List.findIdx?_eq_some_iff_getElem.mp index).1
        have insideJ' := (List.findIdx?_eq_some_iff_getElem.mp index').1
        rw [directoryOffset_inj insideJ insideJ' same]
        exact index'
      · intro right block here
        obtain ⟨j, index, same⟩ := (found block).mp here
        exact ⟨j, right j index, same⟩
    constructor
    · rintro ⟨enough, all⟩
      refine ⟨short, ?_⟩
      have last := all (max enough ((stations members 0 members).length + 1)) (Nat.le_max_left _ _)
      exact (run _ (Nat.lt_of_succ_le (Nat.le_max_right _ _))).mp last
    · rintro ⟨_, names⟩
      exact ⟨(stations members 0 members).length + 1, fun fuel enough => (run fuel enough).mpr names⟩
  · -- the listing crashes
    simp only [long, false_and, iff_false]
    rintro ⟨enough, all⟩
    have last := (all (max enough ((stations members 0 (members.take n)).length + 1))
      (Nat.le_max_left _ _)).1
    rw [tarfsReaddir_opened opened, readdirLoop_reads reads (Nat.lt_of_succ_le (Nat.le_max_right _ _))] at last
    cases last

theorem headerText_eq_iff {m : Member} {name : List UInt8} (fits : name.length ≤ 99) :
    headerText m = name ↔ m.name = name := by
  unfold headerText
  split
  · rfl
  · constructor
    · rintro rfl
      rw [List.length_append, length_octalDigits] at fits
      omega
    · rintro rfl
      omega

theorem namesMatch_iff (dir : Option Nat) (c : List UInt8) :
    NamesMatch members dir c ↔ NamesAgree members dir c := by
  unfold NamesAgree
  simp only []
  split
  · rename_i fits
    have listed : (listedName members dir c).length ≤ 99 := by
      unfold listedName
      rw [List.length_append] at fits
      split
      · omega
      · rwa [List.length_append]
    rw [NamesMatch, List.take_of_length_le fits]
    simp only [headerText_eq_iff listed]
  · rename_i long
    have cut : ((directoryPath members dir ++ c).take 99).length = 99 := by
      rw [List.length_take]
      omega
    constructor
    · rintro ⟨same, right⟩
      -- a member of the path cut off would be found, and is not of the path
      have none : ∀ m ∈ members, m.name.length < 100 →
          dropSlash m.name ≠ (directoryPath members dir ++ c).take 99 := by
        intro m member short path
        have first := @findIdx_some_iff members (fun m => m.name.length < 100 ∧
          dropSlash m.name = (directoryPath members dir ++ c).take 99)
        simp only [decide_eq_true_eq] at first
        obtain ⟨j, index⟩ := first.mpr ⟨m, member, short, path⟩
        have whole := (List.findIdx?_eq_some_iff_getElem.mp (right j index)).2.1
        have part := (List.findIdx?_eq_some_iff_getElem.mp index).2.1
        rw [decide_eq_true_eq] at whole part
        rw [part.2] at whole
        rw [whole] at cut
        omega
      refine ⟨none, ?_⟩
      intro nonempty m member text
      obtain ⟨m', member', short, path⟩ := same.mp ⟨nonempty, m, member, text⟩
      exact none m' member' short path
    · rintro ⟨noneFound, noneListed⟩
      constructor
      · constructor
        · rintro ⟨nonempty, m, member, text⟩
          exact absurd text (noneListed nonempty m member)
        · rintro ⟨m, member, short, path⟩
          exact absurd path (noneFound m member short)
      · intro j index
        have part := (List.findIdx?_eq_some_iff_getElem.mp index).2.1
        rw [decide_eq_true_eq] at part
        exact absurd part.2 (noneFound _ (List.getElem_mem _) part.1)

/-- In a directory that is reached, the listing and the lookup of a name agree exactly when the archive
    ends below the block number `2 ^ 31` and the names of its members agree on it. -/
theorem listing_matches_lookup_iff {dir : Option Nat} (reachable : Reachable members behind junk dir)
    {c : List UInt8} (component : slash ∉ c) :
    ListingMatchesLookup members behind junk dir c ↔
      offset members members.length < 1099511627776 ∧ NamesAgree members dir c := by
  rw [listingMatchesLookup_iff_names reachable.opened component, namesMatch_iff]

theorem letterName_nonempty : ([97] : List UInt8) ≠ [] := by decide

theorem letterName_short : ([97] : List UInt8).length ≤ 100 := by decide

theorem letterName_plain : Plain [97] := by decide

/-- The file `a` and the directory `d/`. -/
def fileAndDirectory : List Member :=
  [emptyFile [97] letterName_nonempty letterName_short letterName_plain,
    emptyFile [100, 47] (by decide) (by decide) (by decide)]

theorem root_listing_matches_lookup_of_file :
    ListingMatchesLookup fileAndDirectory [] ⟨[], 0⟩ none [97] ↔
      offset fileAndDirectory fileAndDirectory.length < 1099511627776 ∧
        NamesAgree fileAndDirectory none [97] :=
  listing_matches_lookup_iff .root (by decide)

/-- The directory `d` of the root is found, and listed as `d/`. -/
theorem directory_found_but_not_listed :
    ¬ListingMatchesLookup fileAndDirectory [] ⟨[], 0⟩ none [100] := by
  have opened : Opened fileAndDirectory none := fun d none => by cases none
  rw [listingMatchesLookup_iff_names opened (by decide)]
  rintro ⟨_, same, _⟩
  have found : ∃ m ∈ fileAndDirectory, m.name.length < 100 ∧
      dropSlash m.name = (directoryPath fileAndDirectory none ++ [100]).take 99 := by decide
  exact absurd (same.mpr found) (by decide)

end Nfs4Compound.Tar.Ksaltuk
