/-
Module: Nfs4Compound.Proofs.Calls
Layer: Proofs
Purpose: How the statuses of a server come out of the retry loop of a single lookup and out of the one
  call of a chain lookup.
Imports: Nfs4Compound.Rpc.Calls, Nfs4Compound.Proofs.ChainReply
Trusted boundary: none
Main exports: ReplyAgrees.callStatus, handleException_local, lookupLoop_ends, lookupReturns_chain_iff,
  handles_errors_iff
-/
import Nfs4Compound.Rpc.Calls
import Nfs4Compound.Proofs.ChainReply

namespace Nfs4Compound.Rpc

variable {r : Recovery} {replies : Nat → CallReply} {call fuel : Nat} {err : Int} {e : Exception}

/-! ### Statuses -/

/-- What the decoder returns for a chain is the status of the call: the two models of a reply agree. -/
theorem ReplyAgrees.callStatus {idmap : IdMap} {labelWord : UInt32} {args : ChainLookupArg}
    {results : List OpResult} {reply : Xdr.Bytes} {start : Results}
    (agrees : ReplyAgrees idmap labelWord args results reply start) :
    (decodeReply idmap args.session args.names.length reply start).1 =
      (CallReply.nfs ((failure results).elim 0 NfsErr.status)).status := by
  rw [agrees.status]
  cases failure results with
  | none => rfl
  | some e => rfl

theorem errtbl_local : ∀ entry ∈ nfsErrtbl, -1000 ≤ entry.2 ∧ entry.2 ≤ 0 := by decide

/-- A status that is not left to the recovery routines is an error number or 0. -/
theorem status_local {reply : CallReply} (kept : reply.passedOn = false) :
    -1000 ≤ reply.status ∧ reply.status ≤ 0 := by
  cases reply with
  | rpc error =>
      have small := error.small
      simp only [CallReply.status]
      omega
  | nfs stat =>
      simp only [CallReply.status, nfs4StatToErrno]
      split
      · rename_i entry found
        exact errtbl_local entry (List.mem_of_find?_eq_some found)
      · rename_i missing
        simp only [CallReply.passedOn, decide_eq_false_iff_not] at kept
        rw [List.find?_eq_none] at missing
        split
        · exact ⟨by decide, by decide⟩
        · rename_i range
          exact absurd ⟨by omega, by omega, fun entry member => by simpa using missing entry member⟩ kept

/-- A status that is left to them is the NFSv4 status. -/
theorem status_passedOn {reply : CallReply} (passed : reply.passedOn = true) :
    -10100 ≤ reply.status ∧ reply.status < -10000 := by
  cases reply with
  | rpc error => cases passed
  | nfs stat =>
      simp only [CallReply.passedOn, decide_eq_true_eq] at passed
      obtain ⟨above, below, absent⟩ := passed
      simp only [CallReply.status, nfs4StatToErrno]
      split
      · rename_i entry found
        have same : entry.1 = asInt32 stat := by simpa using List.find?_some found
        exact absurd same (absent entry (List.mem_of_find?_eq_some found))
      · rw [if_neg (by omega)]
        omega

/-! ### The exception handler -/

theorem among_local (kept : -1000 ≤ err) {cases : List Nfs4Err} (high : ∀ c ∈ cases, 1000 < c.code) :
    among cases err = false := by
  rw [among, List.any_eq_false]
  intro c member
  have above := high c member
  simp only [decide_eq_true_eq]
  omega

/-- An error number that is no NFSv4 status is not handled. -/
theorem handleException_kept (kept : -1000 ≤ err) :
    nfs4HandleException r call err e = (err, { e with retry := false }) := by
  have none : ∀ cases : List Nfs4Err, (∀ c ∈ cases, 1000 < c.code) → among cases err = false :=
    fun cases => among_local kept
  have mapped : nfs4MapErrors err = err := if_pos kept
  simp only [nfs4HandleException, exceptionSwitch, mapped]
  rw [none, none, none, none, none, none, none, none, none]
  · by_cases zero : err = 0
    · simp [zero]
    · simp [zero]
  all_goals decide

theorem mapErrors_local (err : Int) : -1000 ≤ nfs4MapErrors err := by
  unfold nfs4MapErrors eremoteio eio
  split
  · assumption
  · split_ifs <;> decide

theorem waitOnRecovery_local : -1000 ≤ (waitOnRecovery r call e).1 := by
  have io : -1000 ≤ -eio := by decide
  unfold waitOnRecovery
  split
  · exact io
  · cases waited : r.waitClntRecover call with
    | none => exact (by decide : (-1000 : Int) ≤ 0)
    | some error =>
        have small := error.small
        simp only
        omega

theorem local_ite {condition : Prop} [Decidable condition] {x y : Int × Exception}
    (yes : -1000 ≤ x.1) (no : -1000 ≤ y.1) : -1000 ≤ (if condition then x else y).1 := by
  split
  · exact yes
  · exact no

/-- Whatever is handled, what comes out is an error number. -/
theorem handleException_local : -1000 ≤ (nfs4HandleException r call err e).1 := by
  unfold nfs4HandleException exceptionSwitch
  apply local_ite (by decide : (-1000 : Int) ≤ 0)
  apply local_ite (mapErrors_local err)
  apply local_ite waitOnRecovery_local
  apply local_ite (local_ite waitOnRecovery_local (mapErrors_local (-eio)))
  apply local_ite waitOnRecovery_local
  apply local_ite waitOnRecovery_local
  apply local_ite (mapErrors_local (-16))
  apply local_ite (mapErrors_local (nfs4Delay r call _).1)
  apply local_ite (mapErrors_local err)
  apply local_ite (mapErrors_local err)
  exact mapErrors_local err

/-! ### The loops -/

theorem fsLocations_local {status : Int}
    (returns : nfs4ProcFsLocations r fuel call e = some status) : -1000 ≤ status := by
  induction fuel generalizing call e with
  | zero => cases returns
  | succ fuel inductionHypothesis =>
      have handled := @handleException_local r call (r.fsLocations call).status e
      simp only [nfs4ProcFsLocations] at returns
      split at returns
      · exact inductionHypothesis returns
      · cases returns
        exact handled

/-- A referral comes back with an error number, or as a migration. -/
theorem getReferral_ends {nomap : Bool} {status : Int}
    (returns : nfs4GetReferral r fuel call nomap = some status) :
    -1000 ≤ status ∨ status = -Nfs4Err.moved.code := by
  unfold nfs4GetReferral at returns
  split at returns
  · split at returns
    · cases returns
    · rename_i located found
      have bound := fsLocations_local found
      split_ifs at returns <;> cases returns
      · exact .inl bound
      · exact .inr rfl
      · exact .inl (by decide)
  · cases returns
    exact .inl (by decide)

/-- However often it asks, a single lookup comes back with an error number or as a migration:
    induction on the calls it makes. -/
theorem lookupLoop_ends {negotiated : Bool} {status : Int}
    (returns : lookupCommonLoop r replies fuel call negotiated e = some status) :
    -1000 ≤ status ∨ status = -Nfs4Err.moved.code := by
  induction fuel generalizing call negotiated e with
  | zero => cases returns
  | succ fuel inductionHypothesis =>
      have handled := @handleException_local r call (replies call).status e
      simp only [lookupCommonLoop] at returns
      split at returns
      · cases returns
        exact .inl (by decide)
      · split at returns
        · exact getReferral_ends returns
        · split at returns
          · split at returns
            · cases returns
              exact .inl (by decide)
            · split at returns
              · rename_i error _
                have small := error.small
                cases returns
                exact .inl (by omega)
              · exact inductionHypothesis returns
          · split at returns
            · exact inductionHypothesis returns
            · cases returns
              exact .inl handled

/-! ### One call against many -/

/-- A single lookup that is told of no NFSv4 status comes back with what it is told. -/
theorem lookupReturns_kept (kept : (replies 0).passedOn = false) :
    LookupReturns r replies (replies 0).status := by
  have bound := (status_local kept).1
  have other : ∀ c : Nfs4Err, 1000 < c.code → (replies 0).status ≠ -c.code := by
    intro c high same
    omega
  refine ⟨1, ?_⟩
  simp only [nfs4ProcLookupCommon, lookupCommonLoop, handleException_kept bound]
  rw [if_neg (other .badname (by decide)), if_neg (other .moved (by decide)),
    if_neg (other .wrongsec (by decide))]
  rfl

/-- The server moved the filesystem, and says that it is the same one in a new place. -/
def Migrates (r : Recovery) (replies : Nat → CallReply) : Prop :=
  (replies 0).status = -Nfs4Err.moved.code ∧ r.allocates = true ∧ r.sameFsid = true ∧
    ∃ fuel, nfs4ProcFsLocations r fuel 0 ⟨0, false, r.nomap⟩ = some 0

/-- A chain of one name comes back with the status of a single lookup exactly when its status is not
    left to the recovery routines, or is the one that the single lookup leaves to its caller too. -/
theorem lookupReturns_chain_iff :
    LookupReturns r replies (nfs4ProcChainLookup replies) ↔
      (replies 0).passedOn = false ∨ Migrates r replies := by
  have moved : (replies 0).status = -Nfs4Err.moved.code → ∀ fuel,
      nfs4ProcLookupCommon r replies (fuel + 1) = nfs4GetReferral r fuel 0 r.nomap := by
    intro status fuel
    rw [nfs4ProcLookupCommon, lookupCommonLoop]
    simp only [status]
    rw [if_neg (by decide), if_pos trivial]
  constructor
  · rintro ⟨fuel, returns⟩
    cases passed : (replies 0).passedOn with
    | false => exact .inl rfl
    | true =>
        right
        have status : (replies 0).status = -Nfs4Err.moved.code := by
          have low := (status_passedOn passed).2
          rcases lookupLoop_ends returns with high | same
          · unfold nfs4ProcChainLookup at high
            omega
          · exact same
        cases fuel with
        | zero => cases returns
        | succ fuel =>
            rw [moved status, nfs4ProcChainLookup, status] at returns
            unfold nfs4GetReferral at returns
            split at returns
            · rename_i allocates
              split at returns
              · cases returns
              · rename_i located found
                have bound := fsLocations_local found
                split_ifs at returns with failed same
                · cases returns
                  exact absurd bound (by decide)
                · rw [not_not] at failed
                  exact ⟨status, allocates, same, fuel, failed ▸ found⟩
                · exact absurd returns (by decide)
            · exact absurd returns (by decide)
  · rintro (kept | ⟨status, allocates, same, fuel, located⟩)
    · exact lookupReturns_kept kept
    · refine ⟨fuel + 1, ?_⟩
      rw [moved status, nfs4GetReferral, if_pos allocates, located]
      simp only [ne_eq, not_true_eq_false, if_false, same, if_true]
      rw [nfs4ProcChainLookup, status]

/-- A chain lookup handles errors as a single lookup does, and returns error numbers only, exactly when
    the server's reply to its one call is no status for the recovery routines. -/
theorem handles_errors_iff (r : Recovery) (replies : Nat → CallReply) (size : Nat) :
    HandlesErrors r replies size ↔ (replies 0).passedOn = false := by
  constructor
  · intro handles
    by_contra passed
    obtain ⟨_, low⟩ := status_passedOn (Bool.not_eq_false _ ▸ passed)
    rcases handles.isErr with zero | ⟨above, _⟩
    · unfold nfs4ProcChainLookup at zero
      omega
    · unfold nfs4ProcChainLookup at above
      omega
  · intro kept
    constructor
    · intro _
      exact lookupReturns_chain_iff.mpr (.inl kept)
    · obtain ⟨above, below⟩ := status_local kept
      by_cases zero : (replies 0).status = 0
      · exact .inl zero
      · exact .inr ⟨le_trans (by decide) above, Int.le_sub_one_of_lt (lt_of_le_of_ne below zero)⟩

/-- A client without trouble of its own. -/
def calmRecovery : Recovery where
  hz := 1000
  nomap := false
  interrupted _ := false
  migrates _ := true
  waitClntRecover _ := none
  migFailed _ := false
  negotiateSecurity _ := none
  allocates := true
  fsLocations _ := .nfs 0
  sameFsid := false

/-- The server is busy once, and then finds the name. -/
def busyOnce : Nat → CallReply
  | 0 => .nfs 10008
  | _ => .nfs 0

/-- The single lookup waits and finds the name; the chain returns a number that is no error number. -/
theorem busy_server_fails_chain :
    nfs4ProcLookupCommon calmRecovery busyOnce 2 = some 0 ∧
      nfs4ProcChainLookup busyOnce = -10008 ∧ ¬HandlesErrors calmRecovery busyOnce 1 := by
  refine ⟨by decide, by decide, ?_⟩
  intro handles
  rcases handles.isErr with zero | ⟨above, _⟩
  · exact absurd zero (by decide)
  · exact absurd above (by decide)

end Nfs4Compound.Rpc
