/-
Module: Nfs4Compound.Lib.Disk
Layer: Lib
Purpose: Disks that are read in blocks, some of which cannot be read, ranges of their elements that
  begin and end inside blocks, and buffers that remember what was stored in them and where.
Trusted boundary: none
Main exports: Disk, Disk.bytes, Disk.bread, Disk.run, Disk.bytes_append, Disk.run_readable,
  Disk.run_unreadable, Disk.Reaches, Disk.ofImage, Buffer, Buffer.holding, Buffer.store_holding
-/
import Mathlib.Data.List.Range
import Mathlib.Data.Nat.Find
import Mathlib.Tactic.Ring

namespace Nfs4Compound

/-- A disk with blocks of `B` elements: what every position holds, and which blocks can be read. -/
structure Disk (α : Type) (B : Nat) where
  byte : Nat → α
  readable : Nat → Bool

namespace Disk

variable {α : Type} {B : Nat} (disk : Disk α B)

/-- The `size` elements from `start` on. -/
def bytes (start size : Nat) : List α := (List.range size).map fun i => disk.byte (start + i)

/-- The `n`-th block, if it can be read. -/
def bread (n : Nat) : Option (List α) := if disk.readable n then some (disk.bytes (n * B) B) else none

/-- Whole blocks from the `first` on, up to the first one that cannot be read; and whether all `count`
    were read. -/
def run (first : Nat) : Nat → List α × Bool
  | 0 => ([], true)
  | count + 1 =>
      match disk.bread first with
      | none => ([], false)
      | some block => (block ++ (run (first + 1) count).1, (run (first + 1) count).2)

/-! ### Ranges -/

@[simp] theorem length_bytes (start size : Nat) : (disk.bytes start size).length = size := by
  simp [bytes]

@[simp] theorem bytes_zero (start : Nat) : disk.bytes start 0 = [] := rfl

/-- A range is the one up to a position inside it and the one from there on. -/
theorem bytes_append (start first second : Nat) :
    disk.bytes start (first + second) = disk.bytes start first ++ disk.bytes (start + first) second := by
  simp [bytes, List.range_add, Function.comp_def, Nat.add_assoc]

/-- The same, if the end is given. -/
theorem bytes_split {start middle size : Nat} (low : start ≤ middle) (high : middle ≤ start + size) :
    disk.bytes start size =
      disk.bytes start (middle - start) ++ disk.bytes middle (start + size - middle) := by
  have whole : size = (middle - start) + (start + size - middle) := by omega
  have here : start + (middle - start) = middle := by omega
  conv_lhs => rw [whole, bytes_append, here]

theorem drop_bytes (start size k : Nat) :
    (disk.bytes start size).drop k = disk.bytes (start + k) (size - k) := by
  rcases Nat.le_total k size with inside | beyond
  · obtain ⟨d, rfl⟩ := Nat.exists_eq_add_of_le inside
    rw [bytes_append, List.drop_left' (disk.length_bytes _ _), Nat.add_sub_cancel_left]
  · rw [List.drop_of_length_le (by simpa using beyond), Nat.sub_eq_zero_of_le beyond, bytes_zero]

theorem take_bytes {size k : Nat} (inside : k ≤ size) (start : Nat) :
    (disk.bytes start size).take k = disk.bytes start k := by
  obtain ⟨d, rfl⟩ := Nat.exists_eq_add_of_le inside
  rw [bytes_append, List.take_left' (disk.length_bytes _ _)]

/-- A piece of a range. -/
theorem piece_bytes {size k count : Nat} (inside : k + count ≤ size) (start : Nat) :
    ((disk.bytes start size).drop k).take count = disk.bytes (start + k) count := by
  rw [drop_bytes, take_bytes]
  omega

/-! ### Blocks -/

variable {disk}

theorem bread_readable {n : Nat} (readable : disk.readable n = true) :
    disk.bread n = some (disk.bytes (n * B) B) := by
  rw [bread, if_pos readable]

theorem bread_unreadable {n : Nat} (unreadable : disk.readable n = false) : disk.bread n = none := by
  simp [bread, unreadable]

/-- A run of readable blocks. -/
theorem run_readable {first count : Nat} (readable : ∀ k < count, disk.readable (first + k) = true) :
    disk.run first count = (disk.bytes (first * B) (count * B), true) := by
  induction count generalizing first with
  | zero => simp [run]
  | succ count inductionHypothesis =>
      have here : disk.readable first = true := readable 0 (by omega)
      have later : ∀ k < count, disk.readable (first + 1 + k) = true := by
        intro k inside
        have := readable (k + 1) (by omega)
        rwa [Nat.add_assoc, Nat.add_comm 1 k]
      have start : first * B + B = (first + 1) * B := by ring
      have total : (count + 1) * B = B + count * B := by ring
      rw [run, bread_readable here]
      rw [inductionHypothesis later, total, bytes_append, start]

/-- A run ends where the first unreadable block begins. -/
theorem run_unreadable {first count j : Nat} (inside : j < count)
    (readable : ∀ k < j, disk.readable (first + k) = true)
    (unreadable : disk.readable (first + j) = false) :
    disk.run first count = (disk.bytes (first * B) (j * B), false) := by
  induction j generalizing first count with
  | zero =>
      obtain ⟨rest, rfl⟩ : ∃ rest, count = rest + 1 := ⟨count - 1, by omega⟩
      rw [run, bread_unreadable (by simpa using unreadable)]
      simp
  | succ j inductionHypothesis =>
      obtain ⟨rest, rfl⟩ : ∃ rest, count = rest + 1 := ⟨count - 1, by omega⟩
      have here : disk.readable first = true := readable 0 (by omega)
      have shift : ∀ k, first + 1 + k = first + (k + 1) := by
        intro k
        omega
      have later : ∀ k < j, disk.readable (first + 1 + k) = true := by
        intro k less
        rw [shift]
        exact readable (k + 1) (by omega)
      have stop : disk.readable (first + 1 + j) = false := by
        rw [shift]
        exact unreadable
      have start : first * B + B = (first + 1) * B := by ring
      have total : (j + 1) * B = B + j * B := by ring
      rw [run, bread_readable here]
      have tail := @inductionHypothesis (first + 1) rest (by omega) later stop
      simp only [tail]
      rw [total, bytes_append, start]

/-! ### How far a range can be read -/

/-- Of a range that is read block by block, `m` elements lie before the first unreadable block. -/
def Reaches (disk : Disk α B) (start size m : Nat) : Prop :=
  (m = size ∧ ∀ k, start / B ≤ k → k ≤ (start + size - 1) / B → disk.readable k = true) ∨
    ∃ j, start / B ≤ j ∧ j ≤ (start + size - 1) / B ∧
      (∀ k, start / B ≤ k → k < j → disk.readable k = true) ∧ disk.readable j = false ∧
        m = j * B - start

theorem exists_reaches (disk : Disk α B) (start size : Nat) : ∃ m, disk.Reaches start size m := by
  classical
  by_cases all : ∀ k, start / B ≤ k → k ≤ (start + size - 1) / B → disk.readable k = true
  · exact ⟨size, .inl ⟨rfl, all⟩⟩
  · have some : ∃ k, start / B ≤ k ∧ k ≤ (start + size - 1) / B ∧ disk.readable k = false := by
      by_contra none
      apply all
      intro k low high
      by_contra unreadable
      exact none ⟨k, low, high, by simpa using unreadable⟩
    obtain ⟨low, high, unreadable⟩ := Nat.find_spec some
    refine ⟨_, .inr ⟨Nat.find some, low, high, ?_, unreadable, rfl⟩⟩
    intro k above less
    by_contra other
    exact Nat.find_min some less ⟨above, by omega, by simpa using other⟩

/-- There is only one such number. -/
theorem reaches_unique {start size m m' : Nat} (reaches : disk.Reaches start size m)
    (reaches' : disk.Reaches start size m') : m = m' := by
  rcases reaches with ⟨whole, all⟩ | ⟨j, low, high, before, unreadable, here⟩
  · rcases reaches' with ⟨whole', -⟩ | ⟨j', low', high', -, unreadable', -⟩
    · rw [whole, whole']
    · have := all j' low' high'
      simp [unreadable'] at this
  · rcases reaches' with ⟨-, all'⟩ | ⟨j', low', high', before', unreadable', here'⟩
    · have := all' j low high
      simp [unreadable] at this
    · have same : j = j' := by
        rcases Nat.lt_trichotomy j j' with less | same | greater
        · have := before' j low less
          simp [unreadable] at this
        · exact same
        · have := before j' low' greater
          simp [unreadable'] at this
      rw [here, here', same]

/-- No more than the range. -/
theorem reaches_le {start size m : Nat} (nonempty : 0 < size) (reaches : disk.Reaches start size m) :
    m ≤ size := by
  rcases reaches with ⟨whole, -⟩ | ⟨j, -, high, -, -, here⟩
  · exact Nat.le_of_eq whole
  · have := Nat.mul_le_of_le_div _ _ _ high
    omega

/-- Only as much, if there are elements in an unreadable block. -/
theorem reaches_lt {start size m : Nat} (nonempty : 0 < size) (reaches : disk.Reaches start size m)
    (unreadable : ¬∀ k, start / B ≤ k → k ≤ (start + size - 1) / B → disk.readable k = true) :
    m < size := by
  rcases reaches with ⟨-, all⟩ | ⟨j, -, high, -, -, here⟩
  · exact absurd all unreadable
  · have := Nat.mul_le_of_le_div _ _ _ high
    omega

/-! ### Images -/

/-- The disk with the given contents; a block that goes beyond their end cannot be read. -/
def ofImage [Inhabited α] (image : List α) (B : Nat) : Disk α B where
  byte n := image.getD n default
  readable n := (n + 1) * B ≤ image.length

theorem bytes_ofImage [Inhabited α] {image : List α} {start size : Nat}
    (inside : start + size ≤ image.length) :
    (ofImage image B).bytes start size = (image.drop start).take size := by
  apply List.ext_getElem
  · simp
    omega
  · intro i low high
    have reach : start + i < image.length := by
      simp at high
      omega
    simp [bytes, ofImage, List.getElem?_eq_getElem reach]

theorem bread_ofImage [Inhabited α] (image : List α) (n : Nat) :
    (ofImage image B).bread n =
      if (n + 1) * B ≤ image.length then some ((image.drop (n * B)).take B) else none := by
  by_cases inside : (n + 1) * B ≤ image.length
  · have reach : n * B + B ≤ image.length := by
      rw [Nat.succ_mul] at inside
      exact inside
    simp [bread, ofImage, inside]
    exact bytes_ofImage reach
  · simp [bread, ofImage, inside]

end Disk

/-! ### Buffers -/

/-- What has been stored in a buffer, by the offset. -/
def Buffer (α : Type) := Nat → Option α

namespace Buffer

variable {α : Type}

/-- A buffer that holds these elements from its beginning on, and nothing else. -/
def holding (data : List α) : Buffer α := fun i => data[i]?

/-- Store elements at an offset. -/
def store (buffer : Buffer α) (offset : Nat) (data : List α) : Buffer α := fun i =>
  if offset ≤ i ∧ i < offset + data.length then data[i - offset]? else buffer i

/-- What is stored right behind the data becomes part of it. -/
theorem store_holding (data more : List α) :
    (holding data).store data.length more = holding (data ++ more) := by
  funext i
  unfold store holding
  rcases Nat.lt_or_ge i data.length with before | behind
  · rw [if_neg (by omega), List.getElem?_append_left before]
  · rw [List.getElem?_append_right behind]
    by_cases inside : i < data.length + more.length
    · rw [if_pos ⟨behind, inside⟩]
    · rw [if_neg (fun both => inside both.2), List.getElem?_eq_none behind, List.getElem?_eq_none]
      omega

/-- A store fills its first place, and empties none. -/
theorem isSome_store_first (buffer : Buffer α) (offset : Nat) {data : List α} (nonempty : data ≠ []) :
    (buffer.store offset data offset).isSome := by
  have positive : 0 < data.length := List.length_pos_iff.mpr nonempty
  rw [store, if_pos (by omega), Nat.sub_self, List.getElem?_eq_getElem positive]
  rfl

theorem isSome_store {buffer : Buffer α} {i : Nat} (filled : (buffer i).isSome) (offset : Nat)
    (data : List α) : (buffer.store offset data i).isSome := by
  unfold store
  split
  · rename_i inside
    rw [List.getElem?_eq_getElem (by omega)]
    rfl
  · exact filled

/-- Nothing is stored behind the data. -/
theorem holding_beyond {data : List α} {i : Nat} (beyond : data.length ≤ i) : holding data i = none :=
  List.getElem?_eq_none beyond

end Buffer

end Nfs4Compound
