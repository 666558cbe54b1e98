/-
Module: Nfs4Compound.Proofs.Handles
Layer: Proofs
Purpose: The buffers of a chain lookup are freed as they were allocated exactly when no allocation fails
  before the last handle and attribute block, and no label fails.
Imports: Nfs4Compound.Rpc.Handles
Trusted boundary: none
Main exports: freedSafely_of_allocatesThrough, allocatesThrough_of_freedSafely, freed_safely_iff
-/
import Mathlib.Data.List.Nodup
import Nfs4Compound.Rpc.Handles

namespace Nfs4Compound.Rpc

variable {a : Allocations} {arrays : Arrays} {size count i k : Nat}

/-! ### What the allocation loop writes -/

/-- The slots of the `k`-th name hold what was allocated for it. -/
structure Written (a : Allocations) (arrays : Arrays) (k : Nat) : Prop where
  fhandle : arrays.fhandleAt k = some (a.nfsAllocFhandle k)
  fattr : arrays.fattrAt k = some (a.nfsAllocFattr k)
  label : arrays.labelAt k = some (a.nfs4LabelAlloc k)

/-- The arrays are where they were, and slots before the `i`-th are what they were. -/
structure KeepsBelow (i : Nat) (arrays arrays' : Arrays) : Prop where
  fhandles : arrays'.fhandles = arrays.fhandles
  fattrs : arrays'.fattrs = arrays.fattrs
  labels : arrays'.labels = arrays.labels
  fhandleAt : ∀ k, k < i → arrays'.fhandleAt k = arrays.fhandleAt k
  fattrAt : ∀ k, k < i → arrays'.fattrAt k = arrays.fattrAt k
  labelAt : ∀ k, k < i → arrays'.labelAt k = arrays.labelAt k

theorem keepsBelow_store (arrays : Arrays) (a : Allocations) (i : Nat) :
    KeepsBelow i arrays (arrays.store a i) := by
  have other : ∀ k, k < i → k ≠ i := fun k less => Nat.ne_of_lt less
  refine ⟨rfl, rfl, rfl, ?_, ?_, ?_⟩
  · intro k less
    exact Function.update_of_ne (other k less) _ _
  · intro k less
    exact Function.update_of_ne (other k less) _ _
  · intro k less
    exact Function.update_of_ne (other k less) _ _

theorem KeepsBelow.trans {first second third : Arrays} (one : KeepsBelow i first second)
    (two : KeepsBelow (i + 1) second third) : KeepsBelow i first third :=
  ⟨two.fhandles.trans one.fhandles, two.fattrs.trans one.fattrs, two.labels.trans one.labels,
    fun k less => (two.fhandleAt k (Nat.lt_succ_of_lt less)).trans (one.fhandleAt k less),
    fun k less => (two.fattrAt k (Nat.lt_succ_of_lt less)).trans (one.fattrAt k less),
    fun k less => (two.labelAt k (Nat.lt_succ_of_lt less)).trans (one.labelAt k less)⟩

theorem allocateFrom_keeps (a : Allocations) (count i : Nat) (arrays : Arrays) :
    KeepsBelow i arrays (allocateFrom a count i arrays).1 := by
  induction count generalizing i arrays with
  | zero => exact ⟨rfl, rfl, rfl, fun _ _ => rfl, fun _ _ => rfl, fun _ _ => rfl⟩
  | succ count inductionHypothesis =>
      rw [allocateFrom]
      split
      · exact (keepsBelow_store arrays a i).trans (inductionHypothesis (i + 1) _)
      · exact keepsBelow_store arrays a i

/-- The loop goes on behind the `i`-th name. -/
def Allocations.good (a : Allocations) (i : Nat) : Prop := a.handle i = true ∧ a.attr i = true

theorem allocateFrom_good (good : a.good i) :
    allocateFrom a (count + 1) i arrays =
      ((allocateFrom a count (i + 1) (arrays.store a i)).1,
        a.madeFor i ++ (allocateFrom a count (i + 1) (arrays.store a i)).2.1,
        (allocateFrom a count (i + 1) (arrays.store a i)).2.2) := by
  simp [allocateFrom, good.1, good.2]

theorem allocateFrom_bad (bad : ¬a.good i) :
    allocateFrom a (count + 1) i arrays = (arrays.store a i, a.madeFor i, false) := by
  have stops : (a.handle i && a.attr i) = false := by
    rw [Bool.eq_false_iff, ne_eq, Bool.and_eq_true]
    exact bad
  simp [allocateFrom, stops]

theorem written_store : Written a (arrays.store a i) i :=
  ⟨Function.update_self _ _ _, Function.update_self _ _ _, Function.update_self _ _ _⟩

theorem Written.kept {arrays' : Arrays} (written : Written a arrays k) (keeps : KeepsBelow i arrays arrays')
    (less : k < i) : Written a arrays' k :=
  ⟨(keeps.fhandleAt k less).trans written.fhandle, (keeps.fattrAt k less).trans written.fattr,
    (keeps.labelAt k less).trans written.label⟩

/-- Up to the first name for which something is missing, all slots are written. -/
theorem allocateFrom_written (count : Nat) (since : i ≤ k) (till : k < i + count)
    (good : ∀ j, i ≤ j → j < k → a.good j) : Written a (allocateFrom a count i arrays).1 k := by
  induction count generalizing i arrays with
  | zero => exact absurd till (Nat.not_lt.mpr since)
  | succ count inductionHypothesis =>
      rcases Nat.eq_or_lt_of_le since with rfl | later
      · by_cases here : a.good i
        · rw [allocateFrom_good here]
          exact written_store.kept (allocateFrom_keeps a count (i + 1) _) (Nat.lt_succ_self i)
        · rw [allocateFrom_bad here]
          exact written_store
      · rw [allocateFrom_good (good i (Nat.le_refl i) later)]
        apply inductionHypothesis later
        · rw [Nat.succ_add_eq_add_succ]
          exact till
        · exact fun j later less => good j (Nat.le_of_succ_le later) less

/-- Behind the first name for which something is missing, nothing is written. -/
theorem allocateFrom_blank {j : Nat} (count : Nat) (blank : arrays.fhandleAt k = none) (since : i ≤ j)
    (till : j < k) (bad : ¬a.good j) : (allocateFrom a count i arrays).1.fhandleAt k = none := by
  have stored : (arrays.store a i).fhandleAt k = none := by
    have other : k ≠ i := Nat.ne_of_gt (Nat.lt_of_le_of_lt since till)
    exact (Function.update_of_ne other _ _).trans blank
  induction count generalizing i arrays with
  | zero => exact blank
  | succ count inductionHypothesis =>
      by_cases here : a.good i
      · rw [allocateFrom_good here]
        have later : i + 1 ≤ j := by
          rcases Nat.eq_or_lt_of_le since with rfl | later
          · exact absurd here bad
          · exact later
        apply inductionHypothesis stored later
        have other : k ≠ i + 1 := Nat.ne_of_gt (Nat.lt_of_le_of_lt later till)
        exact (Function.update_of_ne other _ _).trans stored
      · rw [allocateFrom_bad here]
        exact stored

theorem allocateFrom_made (count : Nat) (good : ∀ j, i ≤ j → j + 1 < i + count → a.good j) :
    (allocateFrom a count i arrays).2.1 = (List.range' i count).flatMap a.madeFor := by
  induction count generalizing i arrays with
  | zero => rfl
  | succ count inductionHypothesis =>
      rw [List.range'_succ, List.flatMap_cons]
      by_cases here : a.good i
      · rw [allocateFrom_good here]
        simp only
        rw [inductionHypothesis]
        intro j since less
        apply good j (Nat.le_of_succ_le since)
        rw [Nat.succ_add_eq_add_succ] at less
        exact less
      · rw [allocateFrom_bad here]
        -- only the last name may be missing something
        have last : count = 0 := by
          by_contra more
          apply here
          apply good i (Nat.le_refl i)
          have pos := Nat.pos_of_ne_zero more
          exact Nat.add_lt_add_left (Nat.succ_lt_succ pos) i
        subst last
        simp

/-! ### What the freeing loop reads -/

theorem bind_eq_ok {α β : Type} {x : Except FreeFault α} {f : α → Except FreeFault β} {result : β}
    (ran : x >>= f = .ok result) : ∃ value, x = .ok value ∧ f value = .ok result := by
  cases x with
  | error fault => cases ran
  | ok value => exact ⟨value, rfl, ran⟩

theorem readSlot_eq_ok {array value : Pointer} {slot : Option Pointer}
    (read : readSlot array slot = .ok value) : (∃ buffer, array = .address buffer) ∧ slot = some value := by
  cases array with
  | null => cases read
  | error => cases read
  | address buffer =>
      cases slot with
      | none => cases read
      | some pointer =>
          cases read
          exact ⟨⟨buffer, rfl⟩, rfl⟩

/-- What a turn of the loop that does not go wrong has read. -/
structure Readable (arrays : Arrays) (i : Nat) : Prop where
  fhandles : ∃ buffer, arrays.fhandles = .address buffer
  fattrs : ∃ buffer, arrays.fattrs = .address buffer
  labels : ∃ buffer, arrays.labels = .address buffer
  fhandle : arrays.fhandleAt i ≠ none
  label : arrays.labelAt i ≠ some .error

theorem freeSlot_readable {freed : List Buffer} (ran : freeSlot arrays i = .ok freed) :
    Readable arrays i := by
  obtain ⟨handle, handleRead, ran⟩ := bind_eq_ok ran
  obtain ⟨_, -, ran⟩ := bind_eq_ok ran
  obtain ⟨attr, attrRead, ran⟩ := bind_eq_ok ran
  obtain ⟨_, -, ran⟩ := bind_eq_ok ran
  obtain ⟨label, labelRead, ran⟩ := bind_eq_ok ran
  obtain ⟨_, labelFreed, -⟩ := bind_eq_ok ran
  obtain ⟨fhandles, fhandle⟩ := readSlot_eq_ok handleRead
  obtain ⟨labels, labelIs⟩ := readSlot_eq_ok labelRead
  refine ⟨fhandles, (readSlot_eq_ok attrRead).1, labels, ?_, ?_⟩
  · rw [fhandle]
    exact Option.some_ne_none _
  · rw [labelIs]
    intro wrong
    cases wrong
    cases labelFreed

theorem freeFrom_readable {freed : List Buffer} (ran : freeFrom arrays count i = .ok freed) (since : i ≤ k)
    (till : k < i + count) : Readable arrays k := by
  induction count generalizing i freed with
  | zero => exact absurd till (Nat.not_lt.mpr since)
  | succ count inductionHypothesis =>
      obtain ⟨slot, slotFreed, ran⟩ := bind_eq_ok ran
      obtain ⟨rest, restFreed, -⟩ := bind_eq_ok ran
      rcases Nat.eq_or_lt_of_le since with rfl | later
      · exact freeSlot_readable slotFreed
      · apply inductionHypothesis restFreed later
        rw [Nat.succ_add_eq_add_succ]
        exact till

/-- Slots that were written are freed as they were allocated. -/
theorem freeSlot_written (written : Written a arrays i)
    (addresses : ∃ x y z, arrays.fhandles = .address x ∧ arrays.fattrs = .address y ∧ arrays.labels = .address z)
    (label : a.label i ≠ .failed) : freeSlot arrays i = .ok (a.madeFor i) := by
  obtain ⟨x, y, z, fhandles, fattrs, labels⟩ := addresses
  have freed : ∀ granted buffer, kfree (kmalloc granted buffer) = .ok (kmalloc granted buffer).buffers := by
    intro granted buffer
    cases granted <;> rfl
  rw [freeSlot, written.fhandle, written.fattr, written.label, fhandles, fattrs, labels]
  change (do
    let handle ← kfree (a.nfsAllocFhandle i)
    let attr ← kfree (a.nfsAllocFattr i)
    let label ← nfs4LabelFree i (a.nfs4LabelAlloc i)
    return handle ++ attr ++ label) = _
  rw [Allocations.madeFor, Allocations.nfs4LabelAlloc, Allocations.nfsAllocFhandle, freed,
    Allocations.nfsAllocFattr, freed]
  cases labelIs : a.label i with
  | unused => rfl
  | failed => exact absurd labelIs label
  | allocated => rfl

theorem freeFrom_written
    (addresses : ∃ x y z, arrays.fhandles = .address x ∧ arrays.fattrs = .address y ∧ arrays.labels = .address z)
    (count : Nat) (written : ∀ k, i ≤ k → k < i + count → Written a arrays k ∧ a.label k ≠ .failed) :
    freeFrom arrays count i = .ok ((List.range' i count).flatMap a.madeFor) := by
  induction count generalizing i with
  | zero => rfl
  | succ count inductionHypothesis =>
      obtain ⟨here, label⟩ := written i (Nat.le_refl i) (Nat.lt_add_of_pos_right (Nat.succ_pos count))
      have rest := inductionHypothesis (i := i + 1) (by
        intro k since till
        rw [Nat.succ_add_eq_add_succ] at till
        exact written k (Nat.le_of_succ_le since) till)
      rw [freeFrom, freeSlot_written here addresses label, rest, List.range'_succ, List.flatMap_cons]
      rfl

/-! ### Each buffer once -/

/-- The name a buffer belongs to. -/
def Buffer.index : Buffer → Option Nat
  | .handle i | .attr i | .label i | .labelText i => some i
  | _ => none

theorem index_of_mem_madeFor {buffer : Buffer} (member : buffer ∈ a.madeFor i) : buffer.index = some i := by
  simp only [Allocations.madeFor, Allocations.nfsAllocFhandle, Allocations.nfsAllocFattr, kmalloc,
    List.mem_append] at member
  rcases member with (handle | attr) | label
  · split at handle
    · cases List.mem_singleton.mp handle
      rfl
    · cases handle
  · split at attr
    · cases List.mem_singleton.mp attr
      rfl
    · cases attr
  · split at label
    · simp only [List.mem_cons, List.not_mem_nil, or_false] at label
      rcases label with rfl | rfl <;> rfl
    · cases label

theorem nodup_madeFor (a : Allocations) (i : Nat) : (a.madeFor i).Nodup := by
  unfold Allocations.madeFor Allocations.nfsAllocFhandle Allocations.nfsAllocFattr kmalloc
  cases a.handle i <;> cases a.attr i <;> cases a.label i <;> simp [Pointer.buffers]

theorem nodup_made (a : Allocations) (i count : Nat) : ((List.range' i count).flatMap a.madeFor).Nodup := by
  rw [List.nodup_flatMap]
  refine ⟨fun k _ => nodup_madeFor a k, ?_⟩
  have distinct : (List.range' i count).Nodup := List.nodup_range'
  apply List.Pairwise.imp _ distinct
  intro j k other buffer left right
  have same := (index_of_mem_madeFor left).symm.trans (index_of_mem_madeFor right)
  cases same
  exact other rfl

/-! ### Whole lookups -/

/-- The arrays are there. -/
structure ArraysMade (a : Allocations) : Prop where
  handleArray : a.handleArray = true
  attrArray : a.attrArray = true
  labelArray : a.labelArray = true

theorem nfsAllocateHandles_eq (made : ArraysMade a) (size : Nat) :
    nfsAllocateHandles a size =
      ((allocateFrom a size 0 (Arrays.fresh a)).1,
        [.handleArray, .attrArray, .labelArray] ++ (allocateFrom a size 0 (Arrays.fresh a)).2.1,
        (allocateFrom a size 0 (Arrays.fresh a)).2.2) := by
  simp [nfsAllocateHandles, made.handleArray, made.attrArray, made.labelArray, Arrays.fresh, kmalloc,
    Pointer.buffers]

theorem arrays_kept (made : ArraysMade a) (size : Nat) :
    (allocateFrom a size 0 (Arrays.fresh a)).1.fhandles = .address .handleArray ∧
      (allocateFrom a size 0 (Arrays.fresh a)).1.fattrs = .address .attrArray ∧
      (allocateFrom a size 0 (Arrays.fresh a)).1.labels = .address .labelArray := by
  have keeps := allocateFrom_keeps a size 0 (Arrays.fresh a)
  refine ⟨?_, ?_, ?_⟩
  · rw [keeps.fhandles, Arrays.fresh, made.handleArray]
    rfl
  · rw [keeps.fattrs, Arrays.fresh, made.attrArray]
    rfl
  · rw [keeps.labels, Arrays.fresh, made.labelArray]
    rfl

theorem freedSafely_of_allocatesThrough (through : AllocatesThrough a size) :
    FreedSafely (chainLookupBuffers a size) := by
  obtain ⟨⟨handleArray, attrArray, labelArray⟩, slots, labels⟩ := through
  have arraysMade : ArraysMade a := ⟨handleArray, attrArray, labelArray⟩
  obtain ⟨fhandles, fattrs, labelsAt⟩ := arrays_kept arraysMade size
  have written : ∀ k, k < size →
      Written a (allocateFrom a size 0 (Arrays.fresh a)).1 k ∧ a.label k ≠ .failed := by
    intro k less
    refine ⟨allocateFrom_written size (Nat.zero_le k) (by rwa [Nat.zero_add]) ?_, labels k less⟩
    intro j _ before
    exact slots j (Nat.lt_of_le_of_lt before less)
  have freed : freeFrom (allocateFrom a size 0 (Arrays.fresh a)).1 size 0 =
      .ok ((List.range' 0 size).flatMap a.madeFor) := by
    apply freeFrom_written ⟨_, _, _, fhandles, fattrs, labelsAt⟩ size
    intro k _ less
    exact written k (by rwa [Nat.zero_add] at less)
  have made : (allocateFrom a size 0 (Arrays.fresh a)).2.1 = (List.range' 0 size).flatMap a.madeFor := by
    apply allocateFrom_made size
    intro j _ less
    exact slots j (by rwa [Nat.zero_add] at less)
  have result : nfsFreeHandles (allocateFrom a size 0 (Arrays.fresh a)).1 size =
      .ok ((List.range' 0 size).flatMap a.madeFor ++ [.handleArray, .attrArray, .labelArray]) := by
    rw [nfsFreeHandles, freed, fhandles, fattrs, labelsAt]
    rfl
  rw [chainLookupBuffers, nfsAllocateHandles_eq arraysMade, made]
  constructor
  · refine ⟨_, result, List.perm_append_comm, ?_⟩
    rw [List.nodup_append]
    refine ⟨nodup_made a 0 size, by decide, ?_⟩
    rintro buffer ofName _ ofArray rfl
    obtain ⟨k, -, member⟩ := List.mem_flatMap.mp ofName
    have index := index_of_mem_madeFor member
    simp only [List.mem_cons, List.not_mem_nil, or_false] at ofArray
    rcases ofArray with rfl | rfl | rfl <;> cases index
  · intro wrong
    simp only at wrong
    split at wrong
    · obtain ⟨k, inRange, given⟩ := List.mem_map.mp wrong
      obtain ⟨written, label⟩ := written k (List.mem_range.mp inRange)
      rw [written.label, Allocations.nfs4LabelAlloc] at given
      cases labelIs : a.label k with
      | unused =>
          rw [labelIs] at given
          cases given
      | failed => exact label labelIs
      | allocated =>
          rw [labelIs] at given
          cases given
    · cases wrong

theorem allocatesThrough_of_freedSafely (nonempty : 1 ≤ size) (safe : FreedSafely (chainLookupBuffers a size)) :
    AllocatesThrough a size := by
  obtain ⟨⟨freed, ran, -, -⟩, -⟩ := safe
  have arraysMade : ArraysMade a := by
    by_contra missing
    have stops : (a.attrArray && a.handleArray && a.labelArray) = false := by
      rw [Bool.eq_false_iff, ne_eq, Bool.and_eq_true, Bool.and_eq_true]
      rintro ⟨⟨attrArray, handleArray⟩, labelArray⟩
      exact missing ⟨handleArray, attrArray, labelArray⟩
    simp only [chainLookupBuffers, nfsAllocateHandles, stops] at ran
    obtain ⟨slots, slotsFreed, -⟩ := bind_eq_ok ran
    have first := freeFrom_readable slotsFreed (Nat.le_refl 0) (by rwa [Nat.zero_add])
    have granted : ∀ granted buffer, (∃ x, kmalloc granted buffer = .address x) → granted = true := by
      rintro granted buffer ⟨x, given⟩
      cases granted with
      | true => rfl
      | false => cases given
    exact missing ⟨granted _ _ first.fhandles, granted _ _ first.fattrs, granted _ _ first.labels⟩
  rw [chainLookupBuffers, nfsAllocateHandles_eq arraysMade] at ran
  obtain ⟨slots, slotsFreed, -⟩ := bind_eq_ok ran
  have readable := fun k (less : k < size) =>
    freeFrom_readable slotsFreed (Nat.zero_le k) (by rwa [Nat.zero_add])
  have good : ∀ i, i + 1 < size → a.good i := by
    intro i less
    by_contra bad
    apply (readable (i + 1) less).fhandle
    exact allocateFrom_blank size rfl (Nat.zero_le i) (Nat.lt_succ_self i) bad
  refine ⟨⟨arraysMade.handleArray, arraysMade.attrArray, arraysMade.labelArray⟩, good, ?_⟩
  intro i less failed
  apply (readable i less).label
  have written : Written a (allocateFrom a size 0 (Arrays.fresh a)).1 i := by
    apply allocateFrom_written size (Nat.zero_le i) (by rwa [Nat.zero_add])
    intro j _ before
    exact good j (Nat.lt_of_le_of_lt before less)
  rw [written.label, Allocations.nfs4LabelAlloc, failed]

/-- The buffers of a chain lookup are freed safely exactly when all arrays, all handles and attribute
    blocks but possibly the last ones, and all labels could be allocated. -/
theorem freed_safely_iff (nonempty : 1 ≤ size) :
    FreedSafely (chainLookupBuffers a size) ↔ AllocatesThrough a size :=
  ⟨allocatesThrough_of_freedSafely nonempty, freedSafely_of_allocatesThrough⟩

/-- Every allocation succeeds. -/
def plentiful : Allocations where
  handleArray := true
  attrArray := true
  labelArray := true
  handle _ := true
  attr _ := true
  label _ := .allocated

theorem plentiful_freed_safely : FreedSafely (chainLookupBuffers plentiful 2) :=
  (freed_safely_iff (by decide)).mpr ⟨⟨rfl, rfl, rfl⟩, fun _ _ => ⟨rfl, rfl⟩, fun _ _ => nofun⟩

/-- No memory is left for the first of two handles: the second slot is read though nothing was stored in
    it. -/
theorem short_of_handles_reads_unwritten :
    (chainLookupBuffers { plentiful with handle := fun _ => false } 2).freed = .error .neverWritten ∧
      ¬FreedSafely (chainLookupBuffers { plentiful with handle := fun _ => false } 2) := by
  have fault : (chainLookupBuffers { plentiful with handle := fun _ => false } 2).freed =
      .error .neverWritten := rfl
  refine ⟨fault, ?_⟩
  rintro ⟨⟨freed, ran, -⟩, -⟩
  rw [fault] at ran
  cases ran

end Nfs4Compound.Rpc
