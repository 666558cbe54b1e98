/-
Module: Nfs4Compound.Rpc.Calls
Layer: Rpc
Purpose: The calls behind a lookup and what becomes of the status a server returns: the retry loops of
  `nfs4_proc_lookup_common` and `nfs4_proc_fs_locations` around `nfs4_handle_exception`, and the
  single call of `nfs4_proc_chain_lookup`, of `fs/nfs/nfs4proc.c`.
Imports: Nfs4Compound.Rpc.Reply
Trusted boundary: built with CONFIG_NFS_V4_1; a reply is what `nfs4_call_sync` brings back, after it has
  sent the compound again as often as the status of the SEQUENCE asked for it; the state manager, the
  security negotiation and the allocators are asked through `Recovery`; an error of the kernel's own is
  at least -1000, as `nfs4_map_errors` has it
Main exports: CallReply, Recovery, nfs4MapErrors, nfs4HandleException, nfs4ProcLookupCommon,
  nfs4ProcChainLookup, HandlesErrors
-/
import Nfs4Compound.Rpc.Reply

namespace Nfs4Compound.Rpc

/-! ### Statuses -/

/-- The NFSv4 statuses that the client treats in a way of their own. -/
inductive Nfs4Err where
  | access
  | delay
  | expired
  | grace
  | shareDenied
  | wrongsec
  | resource
  | moved
  | minorVersMismatch
  | staleClientid
  | staleStateid
  | oldStateid
  | badStateid
  | leaseMoved
  | openmode
  | badowner
  | badname
  | fileOpen
  | adminRevoked
  | badsession
  | badslot
  | connNotBoundToSession
  | layouttrylater
  | recallconflict
  | seqMisordered
  | retryUncachedRep
  | seqFalseRetry
  | badHighSlot
  | deadsession
  | wrongCred
  | delegRevoked
deriving DecidableEq, Repr

def Nfs4Err.code : Nfs4Err → Int
  | .access => 13
  | .delay => 10008
  | .expired => 10011
  | .grace => 10013
  | .shareDenied => 10015
  | .wrongsec => 10016
  | .resource => 10018
  | .moved => 10019
  | .minorVersMismatch => 10021
  | .staleClientid => 10022
  | .staleStateid => 10023
  | .oldStateid => 10024
  | .badStateid => 10025
  | .leaseMoved => 10031
  | .openmode => 10038
  | .badowner => 10039
  | .badname => 10041
  | .fileOpen => 10046
  | .adminRevoked => 10047
  | .badsession => 10052
  | .badslot => 10053
  | .connNotBoundToSession => 10055
  | .layouttrylater => 10058
  | .recallconflict => 10061
  | .seqMisordered => 10063
  | .retryUncachedRep => 10068
  | .seqFalseRetry => 10076
  | .badHighSlot => 10077
  | .deadsession => 10078
  | .wrongCred => 10082
  | .delegRevoked => 10087

/-- `err` is one of the cases of a switch. -/
def among (cases : List Nfs4Err) (err : Int) : Bool := cases.any fun e => err = -e.code

/-- An error number of the kernel itself. -/
structure LocalError where
  code : Nat
  pos : 0 < code
  small : code ≤ 1000
deriving DecidableEq, Repr

/-- What a call brings back in the end: the status of a compound, or an error of the transport. -/
inductive CallReply where
  | nfs (stat : UInt32)
  | rpc (error : LocalError)
deriving DecidableEq, Repr

/-- What `nfs4_call_sync` returns. -/
def CallReply.status : CallReply → Int
  | .nfs stat => nfs4StatToErrno (asInt32 stat)
  | .rpc error => -error.code

/-- A status that `nfs4_stat_to_errno` leaves to the recovery routines: the NFSv4 statuses from 10001
    to 10100 without an entry of their own in the table. -/
def CallReply.passedOn : CallReply → Bool
  | .nfs stat =>
      10000 < asInt32 stat ∧ asInt32 stat ≤ 10100 ∧ ∀ entry ∈ nfsErrtbl, entry.1 ≠ asInt32 stat
  | .rpc _ => false

/-! ### The exception handler -/

/-- `nfs4_map_errors`. -/
def nfs4MapErrors (err : Int) : Int :=
  if err ≥ -1000 then err
  else if among [.resource, .layouttrylater, .recallconflict] err then -eremoteio
  else if among [.wrongsec, .wrongCred] err then -1
  else if among [.badowner, .badname] err then -22
  else if among [.shareDenied] err then -13
  else if among [.minorVersMismatch] err then -93
  else if among [.access] err then -13
  else if among [.fileOpen] err then -16
  else -eio

/-- What the recovery of a lookup asks of the client and of its surroundings; the first argument
    numbers the call whose status is being handled. -/
structure Recovery where
  /-- `HZ`. -/
  hz : Nat
  /-- `NFS_CAP_UIDGID_NOMAP` when the lookup starts. -/
  nomap : Bool
  /-- A fatal signal is pending after a delay. -/
  interrupted : Nat → Bool
  /-- `nfs4_schedule_migration_recovery` returns 0. -/
  migrates : Nat → Bool
  /-- `nfs4_wait_clnt_recover`. -/
  waitClntRecover : Nat → Option LocalError
  /-- `NFS_MIG_FAILED` after the wait. -/
  migFailed : Nat → Bool
  /-- The error pointer of `nfs4_negotiate_security`, or none for a new client. -/
  negotiateSecurity : Nat → Option LocalError
  /-- The page and the buffer of `nfs4_get_referral`. -/
  allocates : Bool
  /-- The replies to FS_LOCATIONS. -/
  fsLocations : Nat → CallReply
  /-- The locations have the fsid of the directory. -/
  sameFsid : Bool

/-- `struct nfs4_exception` without a state and without an inode, and the capability that the handler
    can withdraw. -/
structure Exception where
  timeout : Int
  retry : Bool
  nomap : Bool
deriving DecidableEq, Repr

/-- `nfs4_update_delay` and `nfs4_delay`. -/
def nfs4Delay (r : Recovery) (call : Nat) (e : Exception) : Int × Exception :=
  let timeout : Int := if e.timeout ≤ 0 then (r.hz / 10 : Nat) else e.timeout
  let timeout := if timeout > 15 * r.hz then 15 * (r.hz : Int) else timeout
  (if r.interrupted call then -512 else 0, { e with timeout := 2 * timeout })

/-- The label `wait_on_recovery`. -/
def waitOnRecovery (r : Recovery) (call : Nat) (e : Exception) : Int × Exception :=
  if r.migFailed call then (-eio, e)
  else
    match r.waitClntRecover call with
    | none => (0, { e with retry := true })
    | some error => (-error.code, e)

/-- The switch of `nfs4_handle_exception`, behind `exception->retry = 0`. -/
def exceptionSwitch (r : Recovery) (call : Nat) (errorcode : Int) (e : Exception) : Int × Exception :=
  if errorcode = 0 then (0, e)
  else if among [.openmode, .delegRevoked, .adminRevoked, .badStateid] errorcode then
    -- there is neither a state to recover nor a delegation to return
    (nfs4MapErrors errorcode, e)
  else if among [.expired, .staleStateid, .staleClientid] errorcode then
    waitOnRecovery r call e
  else if among [.moved] errorcode then
    if r.migrates call then waitOnRecovery r call e else (nfs4MapErrors (-eio), e)
  else if among [.leaseMoved] errorcode then
    waitOnRecovery r call e
  else if among [.badsession, .badslot, .badHighSlot, .connNotBoundToSession, .deadsession,
      .seqFalseRetry, .seqMisordered] errorcode then
    waitOnRecovery r call e
  else if among [.fileOpen] errorcode ∧ e.timeout > r.hz then
    (nfs4MapErrors (-16), e)
  else if among [.fileOpen, .grace, .delay] errorcode then
    let (ret, e) := nfs4Delay r call e
    (nfs4MapErrors ret, { e with retry := ret = 0 })
  else if among [.retryUncachedRep, .oldStateid] errorcode then
    (nfs4MapErrors errorcode, { e with retry := true })
  else if among [.badowner, .badname] errorcode ∧ e.nomap then
    (nfs4MapErrors errorcode, { e with nomap := false, retry := true })
  else (nfs4MapErrors errorcode, e)

/-- `nfs4_handle_exception`. -/
def nfs4HandleException (r : Recovery) (call : Nat) (errorcode : Int) (e : Exception) :
    Int × Exception :=
  exceptionSwitch r call errorcode { e with retry := false }

/-! ### The calls -/

/-- `nfs4_proc_fs_locations`, from one call on; nothing when the fuel runs out. -/
def nfs4ProcFsLocations (r : Recovery) : (fuel call : Nat) → Exception → Option Int
  | 0, _, _ => none
  | fuel + 1, call, e =>
      let (err, e) := nfs4HandleException r call (r.fsLocations call).status e
      if e.retry then nfs4ProcFsLocations r fuel (call + 1) e else some err

/-- `nfs4_get_referral`. -/
def nfs4GetReferral (r : Recovery) (fuel call : Nat) (nomap : Bool) : Option Int :=
  if r.allocates then
    match nfs4ProcFsLocations r fuel call ⟨0, false, nomap⟩ with
    | none => none
    | some status =>
        if status ≠ 0 then some status
        else if r.sameFsid then some (-Nfs4Err.moved.code)
        else some 0
  else some (-12)

/-- The loop of `nfs4_proc_lookup_common`, from one call on; `negotiated` once the client is not the
    one the lookup was started with. -/
def lookupCommonLoop (r : Recovery) (replies : Nat → CallReply) :
    (fuel call : Nat) → (negotiated : Bool) → Exception → Option Int
  | 0, _, _, _ => none
  | fuel + 1, call, negotiated, e =>
      let err := (replies call).status
      if err = -Nfs4Err.badname.code then some (-2)
      else if err = -Nfs4Err.moved.code then nfs4GetReferral r fuel call e.nomap
      else if err = -Nfs4Err.wrongsec.code then
        if negotiated then some (-1)
        else
          match r.negotiateSecurity call with
          | some error => some (-error.code)
          | none => lookupCommonLoop r replies fuel (call + 1) true { e with retry := true }
      else
        let (err, e) := nfs4HandleException r call err e
        if e.retry then lookupCommonLoop r replies fuel (call + 1) negotiated e else some err

/-- `nfs4_proc_lookup_common`, for a server whose replies to the lookups are `replies`. -/
def nfs4ProcLookupCommon (r : Recovery) (replies : Nat → CallReply) (fuel : Nat) : Option Int :=
  lookupCommonLoop r replies fuel 0 false ⟨0, false, r.nomap⟩

/-- `nfs4_proc_chain_lookup`: one call of `nfs4_call_sync`, and its status. -/
def nfs4ProcChainLookup (replies : Nat → CallReply) : Int := (replies 0).status

/-! ### What is expected of a chain lookup -/

/-- `nfs4_proc_lookup_common` comes back with `status`. -/
def LookupReturns (r : Recovery) (replies : Nat → CallReply) (status : Int) : Prop :=
  ∃ fuel, nfs4ProcLookupCommon r replies fuel = some status

/-- `IS_ERR` of `ERR_PTR`. -/
def IsErr (status : Int) : Prop := -4095 ≤ status ∧ status ≤ -1

/-- A chain of `size` names handles what the server replies as a single lookup does, and its status is
    0 or an error number. -/
structure HandlesErrors (r : Recovery) (replies : Nat → CallReply) (size : Nat) : Prop where
  agrees : size = 1 → LookupReturns r replies (nfs4ProcChainLookup replies)
  isErr : nfs4ProcChainLookup replies = 0 ∨ IsErr (nfs4ProcChainLookup replies)

end Nfs4Compound.Rpc
