/-
Module: Nfs4Compound.Vfs.Chain
Layer: Vfs
Purpose: Components walked as a chain: names that are not cached are queued as temporary dentries and
  looked up by one compound.  `walk_chain`, `chain_lookup` and `free_dchain_list` of `fs/namei.c`,
  `nfs_chain_lookup` and `nfs_fill_dchain_list` of `fs/nfs/dir.c`.
Imports: Nfs4Compound.Vfs.Component
Trusted boundary: none
Main exports: dchainListPop, freeDchainList, nfsFillDchainList, nfsChainLookup, chainLookup, walkChain
-/
import Nfs4Compound.Vfs.Component

namespace Nfs4Compound.Vfs

/-- A chain is flushed when it gets this long. -/
def chainLimit : Nat := 30

/-! ### The pending list -/

/-- `dchain_list_pop`: drop the last entry. -/
def dchainListPop : Walk Unit := do
  match (← getNd).dchainList.getLast? with
  | none => Prog.fault .wildPointer
  | some entry =>
      modifyHeap (·.dput entry.dentry)
      modifyNd fun nd =>
        { nd with dchainList := nd.dchainList.dropLast, chainSize := nd.chainSize - 1 }

/-- The loop of `free_dchain_list`, for a walk that is at `here`; `hasPrev` is false for the first
    entry.  Every entry but `here` is put; a symlink becomes the last component of the walk, and puts
    `here` once more when an entry stands before it. -/
def freeEntries (here : DentryId) : Bool → List ChainDentry → Heap × Qstr → Heap × Qstr
  | _, [], state => state
  | hasPrev, entry :: rest, (h, last) =>
      let h := if entry.dentry ≠ here then h.dput entry.dentry else h
      if h.dIsSymlink entry.dentry then
        freeEntries here true rest (if hasPrev then h.dput here else h, entry.name)
      else
        freeEntries here true rest (h, last)

def freeDchainList : Walk Unit :=
  Prog.update fun w =>
    let freed := freeEntries w.nd.path.dentry false w.nd.dchainList (w.heap, w.nd.last)
    { w with
      heap := freed.1
      nd := { w.nd with last := freed.2, dchainList := [], chainSize := 0 } }

/-! ### One compound for the whole chain -/

/-- How `nfs_fill_dchain_list` ends: in the middle with an error of `d_materialise_unique`, at a
    symlink, or past the last entry; with the dentry and the inode of the last slot it filled. -/
inductive Filled where
  | failed
  | symlink (dentry : DentryId) (inode : Option Ino)
  | all (slot : Option (DentryId × Option Ino))
deriving DecidableEq, Repr

/-- The loop of `nfs_fill_dchain_list` from the `index`-th slot on: every entry gets the inode of its
    slot, or none.  Returns the entries as they are now. -/
def fillEntries (env : Env) (slot : Nat → Option Ino) (index : Nat)
    (previous : Option (DentryId × Option Ino)) : List ChainDentry → Dcache (List ChainDentry × Filled)
  | [] => return ([], .all previous)
  | entry :: rest => do
      match ← dMaterialiseUnique env entry.dentry (slot index) with
      | .failed _ => return (entry :: rest, .failed)
      | .other other =>
          if (← get).dIsSymlink entry.dentry then
            return ({ entry with dentry := other } :: rest, .symlink entry.dentry (slot index))
          else
            let (rest, filled) ←
              fillEntries env slot (index + 1) (some (entry.dentry, slot index)) rest
            return ({ entry with dentry := other } :: rest, filled)
      | .null =>
          if (← get).dIsSymlink entry.dentry then
            return (entry :: rest, .symlink entry.dentry (slot index))
          else
            let (rest, filled) ←
              fillEntries env slot (index + 1) (some (entry.dentry, slot index)) rest
            return (entry :: rest, filled)

/-- `nfs_fill_dchain_list`: fill the slots and move the walk to the last one filled.  True if the walk
    stopped at a symlink (`ERR_PTR(10)`). -/
def nfsFillDchainList (env : Env) (slot : Nat → Option Ino) : Walk Bool := do
  let (entries, filled) ← dcache (fillEntries env slot 0 none (← getNd).dchainList)
  modifyNd fun nd => { nd with dchainList := entries }
  match filled with
  | .failed => return false
  | .all none => Prog.fault .nullDeref
  | .symlink dentry inode =>
      modifyNd fun nd => { nd with path := { nd.path with dentry := dentry }, inode := inode }
      return true
  | .all (some (dentry, inode)) =>
      modifyNd fun nd => { nd with path := { nd.path with dentry := dentry }, inode := inode }
      return false

/-- The statuses after which the slots are filled all the same. -/
def fillsAnyway : Option Errno → Bool
  | none => true
  | some error => error = .ENOENT ∨ error = .EACCES ∨ error = .ELOOP

/-- What `nfs_chain_lookup` returns when it does not stop at a symlink. -/
def Status.ofReply : Option Errno → Status
  | none => .done
  | some error => .fail error

/-- `nfs_chain_lookup`.  On 10 the walk stands on the symlink, which is not a place of its own yet:
    `chain_lookup` steps back to its parent. -/
def nfsChainLookup (env : Env) : Walk Status := do
  let nd ← getNd
  let parent := nd.path.dentry
  let dir ← derefInode parent
  match ← dcache (ask env.allocateHandles) with
  | .failed wild =>
      modifyHeap (·.dput parent)
      if wild then Prog.fault .wildPointer else return .fail .ENOMEM
  | .done =>
      let reply ← dcache (ask (env.chainRpc · dir (nd.dchainList.map (·.name.text))))
      observe (.answered reply)
      if fillsAnyway reply.status then
        let atSymlink ← nfsFillDchainList env reply.slot
        modifyHeap (·.dput parent)
        if atSymlink then
          return .chainLink (← getNd).path
        else
          return Status.ofReply reply.status
      else
        modifyHeap (·.dput parent)
        return Status.ofReply reply.status

/-- `chain_lookup` up to the return. -/
def chainLookupBody (env : Env) : Walk Status := do
  match (← getNd).inode with
  | none => Prog.fault .nullDeref
  | some inode =>
      if env.chainLookup inode then
        let status ← nfsChainLookup env
        match status with
        | .chainLink path =>
            let parent := (← getHeap).parent path.dentry
            let inode := (← getHeap).inode parent
            modifyNd fun nd => { nd with path := { nd.path with dentry := parent }, inode := inode }
            modifyHeap (·.dget parent)
            freeDchainList
        | .fail _ =>
            freeDchainList
            terminateWalk
        | _ => freeDchainList
        mutexUnlock (← getNd).chainParent
        return status
      else
        Prog.fault .noMethod

/-- `chain_lookup`: look up the whole pending chain. -/
def chainLookup (env : Env) : Walk Status := do
  let status ← chainLookupBody env
  observe (.returned .chainLookup)
  return status

/-! ### One component of a chain -/

/-- The directory in which the next name is looked up: the last pending dentry, or where the walk is,
    which becomes the parent of a new chain and is locked. -/
def chainBase : Walk DentryId := do
  let nd ← getNd
  if nd.chainSize ≠ 0 then
    match nd.dchainList.getLast? with
    | none => Prog.fault .wildPointer
    | some entry => return entry.dentry
  else
    modifyNd fun nd => { nd with chainParent := nd.path.dentry }
    mutexLock nd.path.dentry
    return nd.path.dentry

/-- The `out_err` exit of `walk_chain`. -/
def chainFail (error : Errno) : Walk Status := do
  terminateWalk
  freeDchainList
  mutexUnlock (← getNd).chainParent
  return .fail error

/-- The path of a cached dentry: what is mounted on it, or the dentry itself. -/
def chainPath (env : Env) (dentry : DentryId) : Walk Path := do
  let found : Path := ⟨(← getNd).path.mnt, dentry⟩
  if env.mountpoint dentry then
    let path ← dcache (followMount env env.mountDepth found)
    observe (.cross dentry path)
    return path
  else
    return found

/-- The branch of `walk_chain` for a cached dentry.  The walk goes to what is mounted on the dentry,
    but keeps the inode of the dentry itself. -/
def chainHit (env : Env) (dentry : DentryId) (follow : Bool) : Walk Status := do
  let path ← chainPath env dentry
  if (← getHeap).dIsSymlink path.dentry ∧ follow then
    mutexUnlock (← getNd).chainParent
    return .link path
  else
    pathToNameidata path
    let inode := (← getHeap).inode dentry
    modifyNd fun nd => { nd with inode := inode }
    freeDchainList
    mutexUnlock (← getNd).chainParent
    if inode = none then
      terminateWalk
      return .fail .ENOENT
    else
      return .done

/-- The branch of `walk_chain` for a dentry that has to be looked up: queue it, and flush the chain
    when it is full. -/
def chainQueue (env : Env) (dentry : DentryId) : Walk Status := do
  observe .extend
  if ← dcache (ask env.kmalloc) then
    modifyHeap (·.dSetType dentry .chainTemp)
    modifyNd fun nd =>
      { nd with
        dchainList := nd.dchainList ++ [⟨dentry, nd.last⟩]
        chainSize := nd.chainSize + 1 }
    if chainLimit ≤ (← getNd).chainSize then
      observe (.flush .full)
      chainLookup env
    else
      return .done
  else
    chainFail .ENOMEM

/-- `walk_chain` for a name. -/
def walkChainName (env : Env) (follow : Bool) : Walk Status := do
  let base ← chainBase
  match ← dcache (lookupDcache env (← getNd).last.text base) with
  | .error error => chainFail error
  | .ok (dentry, false) =>
      observe (.accept base dentry)
      chainHit env dentry follow
  | .ok (dentry, true) => chainQueue env dentry

/-- `walk_chain` for `.` and `..`. -/
def walkChainDots (env : Env) : Walk Status := do
  let nd ← getNd
  if nd.chainSize > 0 ∧ nd.lastType = .dotdot then
    observe .dots
    dchainListPop
    if (← getNd).chainSize = 0 then
      mutexUnlock (← getNd).chainParent
    return .done
  else if nd.chainSize > 0 ∧ nd.lastType = .dot then
    observe .dots
    return .done
  else
    handleDots env nd.lastType

/-- `walk_chain`: one component, as part of a chain. -/
def walkChain (env : Env) (follow : Bool) : Walk Status := do
  let nd ← getNd
  let status ← if nd.lastType ≠ .norm then walkChainDots env else walkChainName env follow
  observe (.returned .walkChain)
  return status

end Nfs4Compound.Vfs
