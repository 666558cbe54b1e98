/-
Module: Nfs4Compound.Rpc.ProcSizes
Layer: Rpc
Purpose: The buffer sizes of the shared procedure entry that `nfs4_proc_chain_lookup` scales before its
  RPC and puts back after it, as the steps of any number of concurrent calls.
Trusted boundary: human-reviewed model of fs/nfs/nfs4proc.c and of the table in fs/nfs/nfs4xdr.c
Main exports: ProcInfo, ChainCall, SharedState, CallStep, callStep, SizesSurvive
-/
import Nfs4Compound.Lib.Transition
import Mathlib.Algebra.Group.Nat.Defs

namespace Nfs4Compound.ProcSizes

/-!
`nfs4_procedures[NFSPROC4_CLNT_CHAIN_LOOKUP]` is one global record.  A call reads `p_arglen` and
`p_replen`, stores them multiplied by the length of its chain, sleeps in the RPC, which sizes its
buffers from what the record holds at that moment, and writes the two values it read back.  No lock is
held over the three steps, so the steps of different calls interleave freely.
-/

/-- The two fields of `struct rpc_procinfo` that the call changes (both `unsigned int`). -/
structure ProcInfo where
  pArglen : Nat
  pReplen : Nat
deriving DecidableEq, Repr

/-- The value an `unsigned int` field holds after an `int` product is stored in it. -/
def storeU32 (n : Nat) : Nat := n % 2 ^ 32

/-- One call in progress: its chain length, the values it saved in `arglen` and `replen`, and whether
    its RPC has been issued. -/
structure ChainCall where
  id : Nat
  size : Nat
  arglen : Nat
  replen : Nat
  issued : Bool
deriving DecidableEq, Repr

/-- The sizes one RPC was issued with. -/
structure IssuedRpc where
  size : Nat
  arglen : Nat
  replen : Nat
deriving DecidableEq, Repr

/-- The shared record, the calls in progress (the one that began last comes first) and every RPC issued
    so far. -/
structure SharedState where
  rpcProc : ProcInfo
  calls : List ChainCall
  rpcs : List IssuedRpc
deriving DecidableEq, Repr

/-- The three steps of a call. -/
inductive CallStep where
  | scale (id size : Nat)
  | issue (id : Nat)
  | writeBack (id : Nat)
deriving DecidableEq, Repr

/-- Before any call. -/
def idle (initial : ProcInfo) : SharedState := { rpcProc := initial, calls := [], rpcs := [] }

/-- Mark the RPC of call `id` as issued. -/
def markIssued (id : Nat) (calls : List ChainCall) : List ChainCall :=
  calls.map fun call => if call.id = id then { call with issued := true } else call

/-- One step of one call.  `none` says that this step is not the call's next one: a call scales once,
    before its RPC, and writes back once, after it. -/
def callStep (s : SharedState) : CallStep → Option SharedState
  | .scale id size =>
      if 1 ≤ size ∧ ∀ call ∈ s.calls, call.id ≠ id then
        let arglen := s.rpcProc.pArglen
        let replen := s.rpcProc.pReplen
        some { s with
          rpcProc := { pArglen := storeU32 (arglen * size), pReplen := storeU32 (replen * size) }
          calls := { id, size, arglen, replen, issued := false } :: s.calls }
      else none
  | .issue id =>
      match s.calls.find? (fun call => call.id = id) with
      | some call =>
          if call.issued then none
          else
            some { s with
              calls := markIssued id s.calls
              rpcs :=
                { size := call.size, arglen := s.rpcProc.pArglen, replen := s.rpcProc.pReplen }
                  :: s.rpcs }
      | none => none
  | .writeBack id =>
      match s.calls.find? (fun call => call.id = id) with
      | some call =>
          if call.issued then
            some { s with
              rpcProc := { pArglen := call.arglen, pReplen := call.replen }
              calls := s.calls.filter fun other => other.id ≠ id }
          else none
      | none => none

/-- What the calls are meant to keep: with no call in progress the record is as it was initially, and
    every RPC was issued with room for its own chain. -/
def SizesSurvive (initial : ProcInfo) (s : SharedState) : Prop :=
  (s.calls = [] → s.rpcProc = initial) ∧
    ∀ rpc ∈ s.rpcs, initial.pArglen * rpc.size ≤ rpc.arglen ∧ initial.pReplen * rpc.size ≤ rpc.replen

instance (initial : ProcInfo) (s : SharedState) : Decidable (SizesSurvive initial s) :=
  inferInstanceAs (Decidable (_ ∧ _))

end Nfs4Compound.ProcSizes
