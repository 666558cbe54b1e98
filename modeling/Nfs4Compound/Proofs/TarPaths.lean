/-
Module: Nfs4Compound.Proofs.TarPaths
Layer: Proofs
Purpose: `get_path` writes the path of a dentry, each byte once, as long as its length is an `int` and the
  buffer can be allocated.
Imports: Nfs4Compound.Tar.Paths
Trusted boundary: none
Main exports: content_writes, fillPath_perm, get_path_builds_path, long_path_not_built
-/
import Nfs4Compound.Tar.Paths
import Mathlib.Data.List.Perm.Basic

namespace Nfs4Compound.Tar

open CText

/-! ### Writes -/

@[simp] theorem laid_nil (start : Int) : laid start [] = [] := rfl

theorem laid_cons (start : Int) (byte : UInt8) (text : List UInt8) :
    laid start (byte :: text) = (start, byte) :: laid (start + 1) text := by
  have shift : ∀ k : Nat, start + ((k + 1 : Nat) : Int) = start + 1 + k := by
    intro k
    omega
  rw [laid, List.zipIdx_cons']
  simp [laid, Function.comp_def]
  intro c k _
  exact shift k

theorem laid_append (start : Int) (first second : List UInt8) :
    laid start (first ++ second) = laid start first ++ laid (start + first.length) second := by
  induction first generalizing start with
  | nil => simp
  | cons byte rest inductionHypothesis =>
      have shift : start + 1 + (rest.length : Int) = start + (rest.length + 1 : Nat) := by omega
      rw [List.cons_append, laid_cons, laid_cons, inductionHypothesis, shift]
      rfl

/-- The writes of a text, and their places. -/
theorem mem_laid {text : List UInt8} {write : Int × UInt8} (member : write ∈ laid 0 text) :
    text[write.1.toNat]? = some write.2 := by
  obtain ⟨⟨byte, k⟩, inside, rfl⟩ := List.mem_map.mp member
  simpa using List.mem_zipIdx_iff_getElem?.mp inside

theorem exists_mem_laid {text : List UInt8} {i : Nat} (inside : i < text.length) :
    ∃ write ∈ laid 0 text, write.1.toNat = i := by
  exists ((i : Int), text[i])
  constructor
  · apply List.mem_map.mpr
    exists (text[i], i)
    constructor
    · exact List.mem_zipIdx_iff_getElem?.mpr (List.getElem?_eq_getElem inside)
    · simp
  · simp

/-- What writes leave that put the bytes of one text in their places. -/
theorem foldl_writes {text : List UInt8} {writes : List (Int × UInt8)}
    (agree : ∀ write ∈ writes, text[write.1.toNat]? = some write.2) (buffer : Buffer UInt8) (i : Nat) :
    writes.foldl (fun buffer write => buffer.store write.1.toNat [write.2]) buffer i =
      if ∃ write ∈ writes, write.1.toNat = i then text[i]? else buffer i := by
  induction writes generalizing buffer with
  | nil => simp
  | cons write rest inductionHypothesis =>
      have here := agree write (by simp)
      rw [List.foldl_cons, inductionHypothesis fun other member => agree other (by simp [member])]
      by_cases later : ∃ other ∈ rest, other.1.toNat = i
      · simp [later]
      · by_cases now : write.1.toNat = i
        · subst now
          simp [later, Buffer.store, here]
        · have outside : ¬(write.1.toNat ≤ i ∧ i < write.1.toNat + [write.2].length) := by
            rw [List.length_singleton]
            omega
          have untouched : buffer.store write.1.toNat [write.2] i = buffer i := if_neg outside
          simp [later, now, untouched]

/-- A buffer of the text's size into which each byte of the text is written holds the text. -/
theorem content_writes {path : PathBuffer} {text : List UInt8} (size : path.size = text.length)
    (writes : path.writes.Perm (laid 0 text)) : path.content = Buffer.holding text := by
  funext i
  have agree : ∀ write ∈ path.writes, text[write.1.toNat]? = some write.2 := by
    intro write member
    exact mem_laid (writes.subset member)
  rw [PathBuffer.content, foldl_writes agree]
  rcases Nat.lt_or_ge i text.length with inside | beyond
  · obtain ⟨write, member, place⟩ := exists_mem_laid inside
    rw [if_pos ⟨write, writes.symm.subset member, place⟩]
    rfl
  · have nothing : text[i]? = none := List.getElem?_eq_none beyond
    have zeros : (List.replicate path.size (0 : UInt8)).length ≤ i := by simpa [size] using beyond
    rw [nothing, Buffer.holding_beyond zeros, Buffer.holding_beyond beyond]
    simp

/-! ### The text of a path -/

/-- The names of parents, from the root's child on, each with a separator behind it. -/
def parentsText : List (List UInt8) → List UInt8
  | [] => []
  | name :: rest => parentsText rest ++ (name ++ [slash])

@[simp] theorem length_parentsText_cons (name : List UInt8) (rest : List (List UInt8)) :
    (parentsText (name :: rest)).length = (parentsText rest).length + (name.length + 1) := by
  simp [parentsText]

theorem intercalate_concat {parents : List (List UInt8)} (nonempty : parents ≠ []) (name : List UInt8) :
    [slash].intercalate (parents ++ [name]) = [slash].intercalate parents ++ [slash] ++ name := by
  induction parents with
  | nil => exact absurd rfl nonempty
  | cons parent rest inductionHypothesis =>
      cases rest with
      | nil => simp
      | cons next rest =>
          rw [List.cons_append, List.intercalate_cons_of_ne_nil (by simp),
            inductionHypothesis (by simp), List.intercalate_cons_cons]
          simp

theorem intercalate_reverse (name : List UInt8) (rest : List (List UInt8)) :
    [slash].intercalate (name :: rest).reverse = parentsText rest ++ name := by
  induction rest generalizing name with
  | nil => simp [parentsText]
  | cons parent rest inductionHypothesis =>
      have nonempty : (parent :: rest).reverse ≠ [] := by simp
      rw [List.reverse_cons, intercalate_concat nonempty, inductionHypothesis]
      simp [parentsText]

theorem pathText_cons (name : List UInt8) (rest : List (List UInt8)) :
    pathText (name :: rest) = parentsText rest ++ (name ++ [0]) := by
  rw [pathText, intercalate_reverse, List.append_assoc]

namespace Afedosenko

/-! ### The two passes -/

/-- The first pass computes the length, as long as it is an `int`. -/
theorem nameLength_eq (names : List (List UInt8)) {length : Int} (low : 0 ≤ length)
    (high : length + (parentsText names).length < 2147483648) :
    nameLength names length = length + (parentsText names).length := by
  induction names generalizing length with
  | nil => simp [nameLength, parentsText]
  | cons name rest inductionHypothesis =>
      rw [length_parentsText_cons] at high ⊢
      have next : int32 (length + (name.length + 1 : Nat)) = length + (name.length + 1 : Nat) :=
        int32_of_range (by omega) (by omega)
      rw [nameLength, next, inductionHypothesis (by omega) (by omega)]
      omega

/-- A byte, the name in front of it and what belongs in front of both, written backwards from `finish`. -/
theorem backwards_perm {finish : Int} {parents : List UInt8} {before : List (Int × UInt8)} (last : UInt8)
    (name : List UInt8)
    (written : before.Perm (laid (finish - 1 - name.length - parents.length) parents)) :
    ((finish - 1, last) :: (laid (finish - 1 - name.length) name ++ before)).Perm
      (laid (finish - 1 - name.length - parents.length) (parents ++ (name ++ [last]))) := by
  have nameEnd : finish - 1 - name.length - parents.length + parents.length =
      finish - 1 - name.length := by omega
  have textEnd : finish - 1 - name.length + name.length = finish - 1 := by omega
  have whole : laid (finish - 1 - name.length - parents.length) (parents ++ (name ++ [last])) =
      laid (finish - 1 - name.length - parents.length) parents ++
        (laid (finish - 1 - name.length) name ++ [(finish - 1, last)]) := by
    rw [laid_append, nameEnd, laid_append, textEnd, laid_cons, laid_nil]
  rw [whole, ← List.append_assoc]
  calc
    ((finish - 1, last) :: (laid (finish - 1 - name.length) name ++ before)).Perm
        ((laid (finish - 1 - name.length) name ++ before) ++ [(finish - 1, last)]) :=
      (List.perm_append_singleton _ _).symm
    ((laid (finish - 1 - name.length) name ++ before) ++ [(finish - 1, last)]).Perm
        ((before ++ laid (finish - 1 - name.length) name) ++ [(finish - 1, last)]) :=
      List.perm_append_comm.append_right _
    ((before ++ laid (finish - 1 - name.length) name) ++ [(finish - 1, last)]).Perm
        ((laid (finish - 1 - name.length - parents.length) parents ++
          laid (finish - 1 - name.length) name) ++ [(finish - 1, last)]) :=
      (written.append_right _).append_right _

/-- The second pass writes, behind the first name, the text of the parents up to where it has come. -/
theorem fillPath_perm (length : Int) (rest : List (List UInt8)) {seek : Int} (later : 1 < seek)
    (short : seek + (parentsText rest).length < 2147483648) :
    (fillPath length rest seek).Perm
      (laid (length - seek - (parentsText rest).length) (parentsText rest)) := by
  induction rest generalizing seek with
  | nil => simp [fillPath, parentsText]
  | cons name rest inductionHypothesis =>
      rw [length_parentsText_cons] at short
      have notFirst : seek ≠ 1 := by omega
      have separated : int32 (seek + 1) = seek + 1 := int32_of_range (by omega) (by omega)
      have next : int32 (seek + 1 + name.length) = seek + 1 + name.length :=
        int32_of_range (by omega) (by omega)
      have separator : length - (seek + 1) = length - seek - 1 := by omega
      have namePlace : length - (seek + 1 + name.length) = length - seek - 1 - name.length := by omega
      have start : length - seek - (parentsText (name :: rest)).length =
          length - seek - 1 - name.length - (parentsText rest).length := by
        rw [length_parentsText_cons]
        omega
      have parents := @inductionHypothesis (seek + 1 + name.length) (by omega) (by omega)
      rw [namePlace] at parents
      rw [fillPath, if_pos notFirst, start]
      simp only [separated, next, separator, namePlace]
      exact backwards_perm slash name parents

/-- The path of a dentry below the root is built in the buffer: every name and separator and the zero
    byte once, and nothing else, if its length is an `int` and the buffer can be allocated. -/
theorem get_path_builds_path (kzalloc : Nat → Bool) (names : List (List UInt8)) (below : names ≠ [])
    (nonempty : ∀ name ∈ names, name ≠ []) (short : (pathText names).length < 2147483648)
    (allocated : kzalloc (pathText names).length = true) :
    ∃ path, getPath kzalloc names = some path ∧ BuildsPath names path := by
  cases names with
  | nil => exact absurd rfl below
  | cons name rest =>
      have nameLong : 0 < name.length := List.length_pos_iff.mpr (nonempty name (by simp))
      have total : (pathText (name :: rest)).length = (parentsText (name :: rest)).length := by
        simp [pathText_cons]
      have size : nameLength (name :: rest) 0 = ((pathText (name :: rest)).length : Nat) := by
        rw [nameLength_eq _ (Int.le_refl 0) (by omega), total]
        omega
      have request : wrap64 ((pathText (name :: rest)).length : Nat) =
          (pathText (name :: rest)).length := wrap64_of_range (by omega)
      rw [getPath, size, request, if_pos allocated]
      have written : ((((pathText (name :: rest)).length : Int) - 1, (0 : UInt8)) ::
          fillPath (pathText (name :: rest)).length (name :: rest) 1).Perm
            (laid 0 (pathText (name :: rest))) := by
        rw [total, length_parentsText_cons] at short
        have next : int32 (1 + name.length) = 1 + name.length := int32_of_range (by omega) (by omega)
        have parents := @fillPath_perm (pathText (name :: rest)).length rest (1 + name.length) (by omega)
          (by omega)
        have namePlace : ((pathText (name :: rest)).length : Int) - (1 + name.length) =
            (pathText (name :: rest)).length - 1 - name.length := by omega
        have start : ((pathText (name :: rest)).length : Int) - 1 - name.length -
            (parentsText rest).length = 0 := by
          rw [total, length_parentsText_cons]
          omega
        rw [namePlace] at parents
        have all := backwards_perm 0 name parents
        rw [start, ← pathText_cons] at all
        rw [fillPath, if_neg (by simp)]
        simp only [next, namePlace]
        exact all
      exact ⟨_, rfl, rfl, written, content_writes rfl written⟩

theorem childPath_built : ∃ path, getPath (fun _ => true) [[98, 99], [97]] = some path ∧
    BuildsPath [[98, 99], [97]] path :=
  get_path_builds_path (fun _ => true) [[98, 99], [97]] (by decide) (by decide) (by decide) rfl

/-- The length of a path is an `int`: with a name of 2³¹ − 1 bytes it is negative, more memory is asked for
    than there are addresses in the kernel's half of them, and no path is returned. -/
theorem long_path_not_built : ¬∀ (names : List (List UInt8)), names ≠ [] →
    (∀ name ∈ names, name ≠ []) →
      ∃ path, getPath (fun size => size < 9223372036854775808) names = some path ∧
        BuildsPath names path := by
  intro always
  obtain ⟨name, long⟩ : ∃ name : List UInt8, name.length = 2147483647 :=
    ⟨List.replicate 2147483647 97, List.length_replicate⟩
  have positive : name ≠ [] := by
    apply List.ne_nil_of_length_pos
    omega
  obtain ⟨path, returned, -⟩ := always [name] (List.cons_ne_nil _ _) (by simpa using positive)
  have length : nameLength [name] 0 = -2147483648 := by
    rw [nameLength, nameLength, long]
    rfl
  have refused : ¬wrap64 (-2147483648) < 9223372036854775808 := by decide
  simp [getPath, length, refused] at returned

end Afedosenko

end Nfs4Compound.Tar
