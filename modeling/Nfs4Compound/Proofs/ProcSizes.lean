/-
Module: Nfs4Compound.Proofs.ProcSizes
Layer: Proofs
Purpose: When the shared procedure sizes survive concurrent chain lookups.  The invariant says that the
  record holds the initial sizes times the chain lengths of all calls in progress, and that each call
  saved that product over the calls that began before it.  A write-back keeps it when the call is the
  last one that began; written back out of order, the saved values of other calls stay in the record.
Imports: Nfs4Compound.Rpc.ProcSizes
Trusted boundary: none
Main exports: NestedStep, sizes_survive_nested_calls, overlapping_calls_corrupt_sizes
-/
import Nfs4Compound.Rpc.ProcSizes
import Mathlib.Algebra.BigOperators.Group.List.Basic
import Mathlib.Algebra.Order.Ring.Nat
import Mathlib.Tactic.Ring

namespace Nfs4Compound.ProcSizes

open Transition

/-- The calls that began after call `id` and are still in progress. -/
def begunAfter (id : Nat) (calls : List ChainCall) : List ChainCall :=
  calls.takeWhile fun call => call.id ≠ id

/-- The guard on steps: scaling does not overflow the fields, and a call writes back only when no call
    that began after it is in progress, unless it and all of those have chains of length one, for which
    scaling changes nothing. -/
def NestedStep (s : SharedState) : CallStep → Prop
  | .scale _ size => s.rpcProc.pArglen * size < 2 ^ 32 ∧ s.rpcProc.pReplen * size < 2 ^ 32
  | .issue _ => True
  | .writeBack id =>
      begunAfter id s.calls = [] ∨
        ((∀ call ∈ begunAfter id s.calls, call.size = 1) ∧
          ∀ call ∈ s.calls, call.id = id → call.size = 1)

instance (s : SharedState) : (a : CallStep) → Decidable (NestedStep s a)
  | .scale _ _ => inferInstanceAs (Decidable (_ ∧ _))
  | .issue _ => inferInstanceAs (Decidable True)
  | .writeBack _ => inferInstanceAs (Decidable (_ ∨ _))

/-- The product of the chain lengths of a list of calls. -/
def sizeProduct (calls : List ChainCall) : Nat := (calls.map ChainCall.size).prod

@[simp] theorem sizeProduct_nil : sizeProduct [] = 1 := rfl

@[simp] theorem sizeProduct_cons (call : ChainCall) (calls : List ChainCall) :
    sizeProduct (call :: calls) = call.size * sizeProduct calls := by
  simp [sizeProduct]

/-- Every call in progress has a chain, and saved the product over the calls that began before it. -/
def SavedInOrder (initial : ProcInfo) : List ChainCall → Prop
  | [] => True
  | call :: older =>
      1 ≤ call.size ∧ call.arglen = initial.pArglen * sizeProduct older ∧
        call.replen = initial.pReplen * sizeProduct older ∧
        (∀ other ∈ older, other.id ≠ call.id) ∧ SavedInOrder initial older

/-- The invariant of nested runs. -/
structure ScaledBy (initial : ProcInfo) (s : SharedState) : Prop where
  arglen : s.rpcProc.pArglen = initial.pArglen * sizeProduct s.calls
  replen : s.rpcProc.pReplen = initial.pReplen * sizeProduct s.calls
  saved : SavedInOrder initial s.calls
  rpcs : ∀ rpc ∈ s.rpcs,
    initial.pArglen * rpc.size ≤ rpc.arglen ∧ initial.pReplen * rpc.size ≤ rpc.replen

theorem ScaledBy.survive {initial : ProcInfo} {s : SharedState} (scaled : ScaledBy initial s) :
    SizesSurvive initial s := by
  refine ⟨fun none => ?_, scaled.rpcs⟩
  have arglen := scaled.arglen
  have replen := scaled.replen
  rw [none, sizeProduct_nil, Nat.mul_one] at arglen replen
  rcases s with ⟨⟨_, _⟩, _, _⟩
  rcases initial with ⟨_, _⟩
  exact congrArg₂ ProcInfo.mk arglen replen

/-- A product that fits is stored as it is. -/
theorem storeU32_of_lt {n : Nat} (fits : n < 2 ^ 32) : storeU32 n = n := Nat.mod_eq_of_lt fits

/-! ### Lists of calls -/

theorem sizeProduct_pos {initial : ProcInfo} :
    ∀ {calls : List ChainCall}, SavedInOrder initial calls → 1 ≤ sizeProduct calls
  | [], _ => le_refl 1
  | call :: older, saved => by
      rw [sizeProduct_cons]
      exact Nat.mul_le_mul saved.1 (sizeProduct_pos saved.2.2.2.2)

/-- A call in progress is one factor of the product. -/
theorem size_le_sizeProduct {initial : ProcInfo} {call : ChainCall} :
    ∀ {calls : List ChainCall}, SavedInOrder initial calls → call ∈ calls →
      call.size ≤ sizeProduct calls
  | newest :: older, saved, member => by
      rw [sizeProduct_cons]
      rcases List.mem_cons.mp member with rfl | earlier
      · exact Nat.le_mul_of_pos_right _ (sizeProduct_pos saved.2.2.2.2)
      · calc
          call.size ≤ sizeProduct older := size_le_sizeProduct saved.2.2.2.2 earlier
          _ ≤ newest.size * sizeProduct older := Nat.le_mul_of_pos_left _ saved.1

/-- Issuing an RPC changes neither sizes nor saved values. -/
theorem sizeProduct_markIssued (id : Nat) (calls : List ChainCall) :
    sizeProduct (markIssued id calls) = sizeProduct calls := by
  induction calls with
  | nil => rfl
  | cons call older inductionHypothesis =>
      have head : (if call.id = id then { call with issued := true } else call).size = call.size := by
        split <;> rfl
      simp only [markIssued, List.map_cons, sizeProduct_cons, head] at inductionHypothesis ⊢
      rw [inductionHypothesis]

theorem savedInOrder_markIssued {initial : ProcInfo} (id : Nat) :
    ∀ {calls : List ChainCall}, SavedInOrder initial calls →
      SavedInOrder initial (markIssued id calls)
  | [], _ => trivial
  | call :: older, ⟨size, arglen, replen, fresh, saved⟩ => by
      have tail := savedInOrder_markIssued id saved
      have product := sizeProduct_markIssued id older
      have olderIds : ∀ other ∈ markIssued id older, other.id ≠ call.id := by
        intro other member
        obtain ⟨before, isOlder, rfl⟩ := List.mem_map.mp member
        split <;> exact fresh before isOlder
      show SavedInOrder initial ((if call.id = id then { call with issued := true } else call) ::
        markIssued id older)
      split <;> exact ⟨size, by rw [product]; exact arglen, by rw [product]; exact replen,
        olderIds, tail⟩

/-- Removing an identifier that no call carries changes nothing. -/
theorem filter_id_of_fresh {id : Nat} {calls : List ChainCall}
    (fresh : ∀ other ∈ calls, other.id ≠ id) :
    calls.filter (fun other => other.id ≠ id) = calls := by
  rw [List.filter_eq_self]
  intro other member
  simpa using fresh other member

/-- Dropping a call of length one does not change the product. -/
theorem sizeProduct_drop_one {initial : ProcInfo} {id : Nat} {call : ChainCall} :
    ∀ {calls : List ChainCall}, SavedInOrder initial calls →
      calls.find? (fun other => other.id = id) = some call → call.size = 1 →
      sizeProduct calls = sizeProduct (calls.filter fun other => other.id ≠ id)
  | newest :: older, ⟨_, _, _, fresh, saved⟩, found, one => by
      by_cases isNewest : newest.id = id
      · subst isNewest
        have same : newest = call := by simpa using found
        subst same
        rw [List.filter_cons_of_neg (by simp), filter_id_of_fresh fresh, sizeProduct_cons, one,
          Nat.one_mul]
      · have foundOlder : older.find? (fun other => other.id = id) = some call := by
          simpa [isNewest] using found
        rw [List.filter_cons_of_pos (by simpa using isNewest), sizeProduct_cons, sizeProduct_cons,
          sizeProduct_drop_one saved foundOlder one]

/-- The product without call `id`, when that call and the calls after it have length one, or when no
    call came after it. -/
theorem sizeProduct_without {initial : ProcInfo} {id : Nat} {call : ChainCall} :
    ∀ {calls : List ChainCall}, SavedInOrder initial calls →
      calls.find? (fun other => other.id = id) = some call →
      (begunAfter id calls = [] ∨
        ((∀ other ∈ begunAfter id calls, other.size = 1) ∧
          ∀ other ∈ calls, other.id = id → other.size = 1)) →
      call.arglen = initial.pArglen * sizeProduct (calls.filter fun other => other.id ≠ id) ∧
        call.replen = initial.pReplen * sizeProduct (calls.filter fun other => other.id ≠ id) ∧
        SavedInOrder initial (calls.filter fun other => other.id ≠ id)
  | newest :: older, ⟨size, arglen, replen, fresh, saved⟩, found, nested => by
      by_cases isNewest : newest.id = id
      · -- The call is the newest one: it saved exactly the product over the rest.
        subst isNewest
        have same : newest = call := by simpa using found
        subst same
        have rest : (newest :: older).filter (fun other => other.id ≠ newest.id) = older := by
          rw [List.filter_cons_of_neg (by simp), filter_id_of_fresh fresh]
        rw [rest]
        exact ⟨arglen, replen, saved⟩
      · -- A newer call is in progress, so both have length one.
        have after : begunAfter id (newest :: older) = newest :: begunAfter id older := by
          simp [begunAfter, isNewest]
        rw [after] at nested
        obtain ⟨sizes, own⟩ := nested.resolve_left (by simp)
        have one : newest.size = 1 := sizes newest (by simp)
        have foundOlder : older.find? (fun other => other.id = id) = some call := by
          simpa [isNewest] using found
        obtain ⟨arglenOlder, replenOlder, savedOlder⟩ :=
          sizeProduct_without saved foundOlder
            (Or.inr ⟨fun other member => sizes other (by simp [member]),
              fun other member => own other (by simp [member])⟩)
        have rest : (newest :: older).filter (fun other => other.id ≠ id) =
            newest :: older.filter (fun other => other.id ≠ id) :=
          List.filter_cons_of_pos (by simpa using isNewest)
        have callOne : call.size = 1 :=
          own call (by simp [List.mem_of_find?_eq_some foundOlder])
            (by simpa using List.find?_some foundOlder)
        have product : sizeProduct older =
            sizeProduct (older.filter fun other => other.id ≠ id) :=
          sizeProduct_drop_one saved foundOlder callOne
        rw [rest, sizeProduct_cons, one, Nat.one_mul]
        refine ⟨arglenOlder, replenOlder, size, ?_, ?_, ?_, savedOlder⟩
        · rw [← product]; exact arglen
        · rw [← product]; exact replen
        · intro other member
          exact fresh other (List.mem_of_mem_filter member)

/-! ### One step, then every run -/

theorem scaledBy_idle (initial : ProcInfo) : ScaledBy initial (idle initial) where
  arglen := by simp [idle]
  replen := by simp [idle]
  saved := trivial
  rpcs := by simp [idle]

/-- Every step that meets the guard keeps the invariant. -/
theorem callStep_scaledBy {initial : ProcInfo} {s s' : SharedState} {a : CallStep}
    (scaled : ScaledBy initial s) (nested : NestedStep s a) (move : callStep s a = some s') :
    ScaledBy initial s' := by
  obtain ⟨arglen, replen, saved, rpcs⟩ := scaled
  cases a with
  | scale id size =>
      simp only [callStep] at move
      split at move
      · rename_i fresh
        cases move
        refine ⟨?_, ?_, ⟨fresh.1, arglen, replen, fresh.2, saved⟩, rpcs⟩
        · rw [storeU32_of_lt nested.1, arglen, sizeProduct_cons]
          ring
        · rw [storeU32_of_lt nested.2, replen, sizeProduct_cons]
          ring
      · cases move
  | issue id =>
      simp only [callStep] at move
      split at move
      · rename_i call found
        split at move
        · cases move
        · cases move
          have member : call ∈ s.calls := List.mem_of_find?_eq_some found
          have room := size_le_sizeProduct saved member
          refine ⟨?_, ?_, savedInOrder_markIssued id saved, ?_⟩
          · rw [sizeProduct_markIssued, arglen]
          · rw [sizeProduct_markIssued, replen]
          · intro rpc issued
            rcases List.mem_cons.mp issued with rfl | earlier
            · rw [arglen, replen]
              exact ⟨Nat.mul_le_mul_left _ room, Nat.mul_le_mul_left _ room⟩
            · exact rpcs rpc earlier
      · cases move
  | writeBack id =>
      simp only [callStep] at move
      split at move
      · rename_i call found
        split at move
        · cases move
          obtain ⟨arglenRest, replenRest, savedRest⟩ := sizeProduct_without saved found nested
          exact ⟨arglenRest, replenRest, savedRest, rpcs⟩
        · cases move
      · cases move

/-- In every run whose scaling steps do not overflow and whose calls write back in the reverse order in
    which they began, no call in progress means the initial sizes, and every RPC had room. -/
theorem sizes_survive_nested_calls (initial : ProcInfo) (s : SharedState)
    (run : GuardedRun callStep NestedStep (idle initial) s) : SizesSurvive initial s :=
  (run.invariant (scaledBy_idle initial)
    fun _ _ _ scaled nested move => callStep_scaledBy scaled nested move).survive

/-- Two calls, the second begun and finished while the first one sleeps in its RPC. -/
def nestedPair : List CallStep :=
  [.scale 0 2, .issue 0, .scale 1 3, .issue 1, .writeBack 1, .writeBack 0]

/-- The state `nestedPair` ends in, from the sizes of the table entry. -/
theorem nestedPair_survives :
    SizesSurvive ⟨118, 688⟩
      { rpcProc := ⟨118, 688⟩, calls := [], rpcs := [⟨3, 708, 4128⟩, ⟨2, 236, 1376⟩] } :=
  sizes_survive_nested_calls ⟨118, 688⟩ _
    (GuardedRun.replay (fun s a => decide (NestedStep s a))
      (fun _ _ checked => of_decide_eq_true checked) nestedPair .refl (by decide))

/-- Two overlapping calls of lengths two and three: the first writes back while the second has not yet
    issued its RPC. -/
def overlappingPair : List CallStep :=
  [.scale 0 2, .scale 1 3, .issue 0, .writeBack 0, .issue 1, .writeBack 1]

/-- The second RPC is issued with the sizes of one name, and the table entry stays doubled after both
    calls have returned. -/
theorem overlapping_calls_corrupt_sizes :
    ∃ s, GuardedRun callStep anyStep (idle ⟨118, 688⟩) s ∧ s.calls = [] ∧
      s.rpcProc = ⟨236, 1376⟩ ∧ (⟨3, 118, 688⟩ : IssuedRpc) ∈ s.rpcs ∧
      ¬ SizesSurvive ⟨118, 688⟩ s := by
  refine ⟨{ rpcProc := ⟨236, 1376⟩, calls := [], rpcs := [⟨3, 118, 688⟩, ⟨2, 708, 4128⟩] },
    ?_, rfl, rfl, by decide, by decide⟩
  exact GuardedRun.replay (fun _ _ => true) (fun _ _ _ => trivial) overlappingPair .refl (by decide)

end Nfs4Compound.ProcSizes
