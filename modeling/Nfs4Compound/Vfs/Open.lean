/-
Module: Nfs4Compound.Vfs.Open
Layer: Vfs
Purpose: Opening a file by its name: `atomic_open`, `lookup_open`, `do_last` and `path_openat` of
  `fs/namei.c`.
Imports: Nfs4Compound.Vfs.PathWalk
Trusted boundary: what the filesystem's `atomic_open` and `create` do, what `may_open` and `vfs_open`
  answer, and the checks behind them, are asked of an `OpenEnv`; a filesystem's `atomic_open` fills the
  dentry it is given; write counts of mounts are left out
Main exports: OpenFlags, OpenEnv, atomicOpen, lookupOpen, doLast, pathOpenat
-/
import Nfs4Compound.Vfs.PathWalk

namespace Nfs4Compound.Vfs

/-- `struct open_flags` as `do_last` reads it; `intentOpen` is `LOOKUP_OPEN` in `intent`. -/
structure OpenFlags where
  creat : Bool
  excl : Bool
  trunc : Bool
  /-- `O_WRONLY` or `O_RDWR`. -/
  write : Bool
  /-- `O_PATH`. -/
  path : Bool
  intentOpen : Bool
deriving DecidableEq, Repr

/-- What a filesystem's `atomic_open` did: it failed, opened the file, or only looked the name up. -/
inductive AtomicReply where
  | failed (error : Errno)
  | opened (inode : Ino) (created : Bool)
  | noOpen (inode : Option Ino) (created : Bool)
deriving DecidableEq, Repr

/-- What `vfs_open` says: 0, `-EOPENSTALE`, or another error. -/
inductive OpenReply where
  | opened
  | openStale
  | failed (error : Errno)
deriving DecidableEq, Repr

/-- What an open asks of its environment beyond what a walk asks. -/
structure OpenEnv where
  /-- `get_empty_filp` gives a file. -/
  emptyFilp : Option Errno
  /-- The directory's inode operations have an `atomic_open` method. -/
  hasAtomicOpen : Ino → Bool
  /-- `mnt_want_write` returns 0. -/
  wantWrite : Nat → MountId → Bool
  /-- `may_o_create`, and the checks of `vfs_create`. -/
  mayCreate : Nat → Ino → Option Errno
  create : Nat → Ino → Name → Except Errno Ino
  atomicOpen : Nat → Ino → Name → AtomicReply
  mayOpen : Nat → Option Ino → Option Errno
  vfsOpen : Nat → DentryId → OpenReply
  /-- `open_check_o_direct`, `ima_file_check` and, for a file to truncate, `handle_truncate`. -/
  openChecks : Nat → Bool → Option Errno

def erofs : Errno := .other 30

def eopenstale : Errno := .other 518

/-! ### The last component -/

/-- What `lookup_open` returns: an error, an opened file, which may have to be truncated, or the path of
    a dentry that is not opened yet, with `FILE_CREATED`. -/
inductive Looked where
  | fail (error : Errno)
  | opened (old : Bool)
  | path (path : Path) (created : Bool)
deriving DecidableEq, Repr

/-- The label `no_open` of `atomic_open`. -/
def atomicNoOpen (env : Env) (op : OpenFlags) (dir : Ino) (dentry : DentryId) (needLookup : Bool)
    (createError : Option Errno) : Walk Looked := do
  let mnt := (← getNd).path.mnt
  if needLookup then
    match ← dcache (lookupReal env dir dentry) with
    | .error error => return .fail error
    | .ok dentry =>
        match createError, (← getHeap).inode dentry with
        | none, _ => return .path ⟨mnt, dentry⟩ false
        | some error, none =>
            modifyHeap (·.dput dentry)
            return .fail error
        | some error, some inode =>
            if ¬op.excl ∧ op.trunc ∧ env.kind inode = .regular then
              modifyHeap (·.dput dentry)
              return .fail error
            else
              return .path ⟨mnt, dentry⟩ false
  else
    return .path ⟨mnt, dentry⟩ false

/-- The call of the filesystem's `atomic_open`, and what follows it. -/
def atomicCall (env : Env) (oenv : OpenEnv) (op : OpenFlags) (dir : Ino) (dentry : DentryId)
    (createError : Option Errno) : Walk Looked := do
  let mnt := (← getNd).path.mnt
  let name := ((← getHeap).dentry dentry).name
  match ← dcache (ask (oenv.atomicOpen · dir name)) with
  | .failed error =>
      modifyHeap (·.dput dentry)
      return .fail (if error = .ENOENT then createError.getD .ENOENT else error)
  | .noOpen none _ =>
      modifyHeap (dInstantiate env dentry none)
      match createError with
      | some error =>
          modifyHeap (·.dput dentry)
          return .fail error
      | none => return .path ⟨mnt, dentry⟩ false
  | .noOpen (some inode) created =>
      modifyHeap (dInstantiate env dentry (some inode))
      if op.excl ∧ op.creat ∧ ¬created then
        modifyHeap (·.dput dentry)
        return .fail .EEXIST
      else
        return .path ⟨mnt, dentry⟩ created
  | .opened inode created =>
      modifyHeap (dInstantiate env dentry (some inode))
      let error ← dcache (ask (oenv.mayOpen · (some inode)))
      modifyHeap (·.dput dentry)
      match error with
      | some error => return .fail error
      | none => return .opened (!created && env.kind inode == .regular)

/-- `atomic_open`, for a negative dentry. -/
def atomicOpen (env : Env) (oenv : OpenEnv) (op : OpenFlags) (gotWrite : Bool) (dir : Ino)
    (dentry : DentryId) (needLookup : Bool) : Walk Looked := do
  if (← getHeap).inode dentry ≠ none then
    Prog.fault .bugOn
  else if env.deadDir dir then
    modifyHeap (·.dput dentry)
    return .fail .ENOENT
  else if (op.creat ∨ op.trunc ∨ op.write) ∧ ¬gotWrite then
    if ¬op.creat then
      atomicNoOpen env op dir dentry needLookup none
    else if op.excl ∨ op.trunc then
      atomicNoOpen env op dir dentry needLookup (some erofs)
    else
      atomicCall env oenv op dir dentry (some erofs)
  else if op.creat then
    match ← dcache (ask (oenv.mayCreate · dir)) with
    | none => atomicCall env oenv op dir dentry none
    | some error =>
        if op.excl then
          atomicNoOpen env op dir dentry needLookup (some error)
        else
          atomicCall env oenv op dir dentry (some error)
  else
    atomicCall env oenv op dir dentry none

/-- The end of `lookup_open` without `atomic_open`: a missing file is created. -/
def lookupCreate (env : Env) (oenv : OpenEnv) (op : OpenFlags) (gotWrite : Bool) (dir : Ino)
    (dentry : DentryId) : Walk Looked := do
  let mnt := (← getNd).path.mnt
  if (← getHeap).inode dentry = none ∧ op.creat then
    if gotWrite then
      match ← dcache (ask (oenv.mayCreate · dir)) with
      | some error =>
          modifyHeap (·.dput dentry)
          return .fail error
      | none =>
          let name := ((← getHeap).dentry dentry).name
          match ← dcache (ask (oenv.create · dir name)) with
          | .error error =>
              modifyHeap (·.dput dentry)
              return .fail error
          | .ok inode =>
              modifyHeap (dInstantiate env dentry (some inode))
              return .path ⟨mnt, dentry⟩ true
    else
      modifyHeap (·.dput dentry)
      return .fail erofs
  else
    return .path ⟨mnt, dentry⟩ false

/-- `lookup_open`, with the mutex of the directory held. -/
def lookupOpen (env : Env) (oenv : OpenEnv) (op : OpenFlags) (gotWrite : Bool) : Walk Looked := do
  let nd ← getNd
  let dir ← derefInode nd.path.dentry
  match ← dcache (lookupDcache env nd.last.text nd.path.dentry) with
  | .error error => return .fail error
  | .ok (dentry, needLookup) =>
      if ¬needLookup ∧ (← getHeap).inode dentry ≠ none then
        return .path ⟨nd.path.mnt, dentry⟩ false
      else if op.intentOpen ∧ oenv.hasAtomicOpen dir then
        atomicOpen env oenv op gotWrite dir dentry needLookup
      else if needLookup then
        match ← dcache (lookupReal env dir dentry) with
        | .error error => return .fail error
        | .ok dentry => lookupCreate env oenv op gotWrite dir dentry
      else
        lookupCreate env oenv op gotWrite dir dentry

/-! ### The last step of an open -/

/-- The label `out` of `do_last`: `saveParent` and the place of the walk are put. -/
def openOut (saveParent : Option Path) (status : Status) : Walk Status := do
  match saveParent with
  | some path => pathPut path
  | none => pure ()
  terminateWalk
  return status

/-- From the label `opened` on. -/
def openedChecks (oenv : OpenEnv) (saveParent : Option Path) (truncate : Bool) : Walk Status := do
  match ← dcache (ask (oenv.openChecks · truncate)) with
  | some error => openOut saveParent (.fail error)
  | none => openOut saveParent .done

/-- What is left when a file was not opened: start over at `retry_lookup`, with `will_truncate` as it is
    then, or the end. -/
inductive Finish where
  | retry (willTruncate : Bool)
  | ended (status : Status)
deriving DecidableEq, Repr

/-- From `finish_open_created` on; `dir` is where the last component was looked up. -/
def finishOpenCreated (oenv : OpenEnv) (saveParent : Option Path) (dir : DentryId)
    (willTruncate retried : Bool) : Walk Finish := do
  let nd ← getNd
  let inode := (← getHeap).inode nd.path.dentry
  match ← dcache (ask (oenv.mayOpen · inode)) with
  | some error => return .ended (← openOut saveParent (.fail error))
  | none =>
      match ← dcache (ask (oenv.vfsOpen · nd.path.dentry)) with
      | .opened => return .ended (← openedChecks oenv saveParent willTruncate)
      | .failed error => return .ended (← openOut saveParent (.fail error))
      | .openStale =>
          match saveParent with
          | none => return .ended (← openOut none (.fail eopenstale))
          | some parent =>
              if retried then
                return .ended (← openOut (some parent) (.fail eopenstale))
              else if parent.dentry ≠ dir then
                Prog.fault .bugOn
              else
                pathPut nd.path
                let inode := (← getHeap).inode dir
                modifyNd fun nd => { nd with path := parent, inode := inode }
                return .retry willTruncate

/-- From `finish_open` on.  What is not a regular file is not truncated, nor what a second lookup finds
    in its place. -/
def finishOpen (env : Env) (oenv : OpenEnv) (saveParent : Option Path) (dir : DentryId)
    (willTruncate retried : Bool) : Walk Finish := do
  let nd ← getNd
  match nd.inode with
  | none => Prog.fault .nullDeref
  | some inode =>
      let willTruncate := willTruncate && env.kind inode == .regular
      if willTruncate then
        if ← dcache (ask (oenv.wantWrite · nd.path.mnt)) then
          finishOpenCreated oenv saveParent dir willTruncate retried
        else
          return .ended (← openOut saveParent (.fail erofs))
      else
        finishOpenCreated oenv saveParent dir willTruncate retried

/-- `d_is_dir`. -/
def Heap.dIsDir (h : Heap) (d : DentryId) : Bool := h.type d == .directory || h.type d == .autodir

/-- From `finish_lookup` on, once the walk has gone to the object found. -/
def finishLookupCompletes (env : Env) (oenv : OpenEnv) (op : OpenFlags) (dir : DentryId)
    (willTruncate retried : Bool) (saveParent : Option Path) : Walk Finish := do
  match ← completeWalk env with
  | some error =>
      match saveParent with
      | some parent => pathPut parent
      | none => pure ()
      return .ended (.fail error)
  | none =>
      let nd ← getNd
      let h ← getHeap
      if op.creat ∧ h.dIsDir nd.path.dentry then
        return .ended (← openOut saveParent (.fail .EISDIR))
      else if nd.flags.directory ∧ ¬h.dCanLookup nd.path.dentry then
        return .ended (← openOut saveParent (.fail .ENOTDIR))
      else
        finishOpen env oenv saveParent dir willTruncate retried

/-- From `finish_lookup` on: the walk goes to the object found, and keeps the directory in
    `save_parent`. -/
def finishLookupOpen (env : Env) (oenv : OpenEnv) (op : OpenFlags) (symlinkOk : Bool)
    (dir : DentryId) (willTruncate retried : Bool) (path : Path) : Walk Finish := do
  let h ← getHeap
  let inode := h.inode path.dentry
  if inode = none ∨ h.dIsNegative path.dentry then
    pathToNameidata path
    return .ended (← openOut none (.fail .ENOENT))
  else if h.dIsSymlink path.dentry ∧ ¬symlinkOk then
    return .ended (.link path)
  else
    let nd ← getNd
    let saveParent ←
      if nd.path.mnt ≠ path.mnt then do
        pathToNameidata path
        pure none
      else do
        modifyNd fun nd => { nd with path := { nd.path with dentry := path.dentry } }
        pure (some nd.path)
    modifyNd fun nd => { nd with inode := inode }
    finishLookupCompletes env oenv op dir willTruncate retried saveParent

/-- From `retry_lookup` on: the last component is looked up, and created if it has to be.  The file is
    opened at most twice. -/
def retryLookup (env : Env) (oenv : OpenEnv) (op : OpenFlags) (symlinkOk : Bool) (dir : DentryId) :
    Nat → Bool → Bool → Walk Status
  | 0, _, _ => Prog.fault .fuel
  | fuel + 1, willTruncate, retried => do
      let gotWrite ←
        if op.creat ∨ op.trunc ∨ op.write then dcache (ask (oenv.wantWrite · (← getNd).path.mnt))
        else pure false
      mutexLock dir
      let looked ← lookupOpen env oenv op gotWrite
      mutexUnlock dir
      let finish ← match looked with
        | .fail error => pure (.ended (← openOut none (.fail error)))
        | .opened old => pure (.ended (← openedChecks oenv none (willTruncate && old)))
        | .path path true => do
            pathToNameidata path
            finishOpenCreated oenv none dir false retried
        | .path path false =>
            if op.excl ∧ op.creat then do
              pathPut path
              pure (.ended (← openOut none (.fail .EEXIST)))
            else do
              let (path, crossed) ← dcache (followManaged env path)
              if crossed then
                modifyNd fun nd => { nd with flags := { nd.flags with jumped := true } }
              finishLookupOpen env oenv op symlinkOk dir willTruncate retried path
      match finish with
      | .ended status => return status
      | .retry willTruncate => retryLookup env oenv op symlinkOk dir fuel willTruncate true

/-- How often `do_last` opens the file at most. -/
def openTries : Nat := 2

/-- `do_last` for a component that is no name. -/
def doLastDots (env : Env) (oenv : OpenEnv) (op : OpenFlags) (dir : DentryId) (type : LastType) :
    Walk Status := do
  let status ← if type = .dot ∨ type = .dotdot then handleDots env type else pure .done
  match status with
  | .done =>
      match ← completeWalk env with
      | some error => return .fail error
      | none =>
          if op.creat ∧ type ≠ .bind then
            openOut none (.fail .EISDIR)
          else
            match ← finishOpen env oenv none dir op.trunc false with
            | .ended status => return status
            | .retry _ => Prog.fault .bugOn
  | other => return other

/-- `do_last` for a name. -/
def doLastName (env : Env) (oenv : OpenEnv) (op : OpenFlags) (dir : DentryId) : Walk Status := do
  let nd ← getNd
  if op.creat then
    match ← completeWalk env with
    | some error => return .fail error
    | none =>
        if nd.last.slashAfter then
          openOut none (.fail .EISDIR)
        else
          retryLookup env oenv op false dir openTries op.trunc false
  else
    let slashes := nd.last.slashAfter
    modifyNd fun nd =>
      { nd with
        flags := { nd.flags with
          follow := nd.flags.follow || slashes
          directory := nd.flags.directory || slashes } }
    let symlinkOk := op.path && !(nd.flags.follow || slashes)
    match ← lookupFast env with
    | .error error => openOut none (.fail error)
    | .ok (some path) =>
        match ← finishLookupOpen env oenv op symlinkOk dir op.trunc false path with
        | .ended status => return status
        | .retry willTruncate => retryLookup env oenv op symlinkOk dir openTries willTruncate true
    | .ok none =>
        if (← getNd).inode ≠ (← getHeap).inode dir then
          Prog.fault .bugOn
        else
          retryLookup env oenv op symlinkOk dir openTries op.trunc false

/-- `do_last`: a pending chain is flushed first. -/
def doLast (env : Env) (oenv : OpenEnv) (op : OpenFlags) : Walk Status := do
  let nd ← getNd
  let status ←
    if chainable env nd.flags ((← getHeap).inode nd.path.dentry) ∧ nd.chainSize ≠ 0 then do
      observe (.flush .doLast)
      chainLookup env
    else
      pure .done
  match status with
  | .done =>
      observe .search
      modifyNd fun nd => { nd with flags := { nd.flags with parent := false } }
      let nd ← getNd
      if nd.lastType = .norm then
        doLastName env oenv op nd.path.dentry
      else
        doLastDots env oenv op nd.path.dentry nd.lastType
  | other => return other

/-! ### The whole open -/

/-- The loop of `path_openat` over trailing symlinks. -/
def openTrailing (env : Env) (oenv : OpenEnv) (op : OpenFlags) : Nat → Path → Walk Status
  | 0, _ => Prog.fault .fuel
  | fuel + 1, path => do
      if (← getNd).flags.follow then
        if ← mayFollowLink env path then
          modifyNd fun nd => { nd with flags := { nd.flags with parent := true } }
          match ← followLink env (walkText env) path with
          | .error error => return .fail error
          | .ok link =>
              let status ← doLast env oenv op
              putLink link
              match status with
              | .link path => openTrailing env oenv op fuel path
              | .chainLink path => openTrailing env oenv op fuel path
              | other => return other
        else
          return .fail .EACCES
      else
        pathPut path
        pathPut (← getNd).path
        return .fail .ELOOP

/-- `path_openat` from the label `relookup` on.  Returns `pathname->name` as it is then, too. -/
def openRelookup (env : Env) (oenv : OpenEnv) (op : OpenFlags) :
    Nat → List UInt8 → Walk (Status × List UInt8)
  | 0, _ => Prog.fault .fuel
  | fuel + 1, name => do
      match ← walkText env (components name) with
      | .done =>
          match ← doLast env oenv op with
          | .chainLink path =>
              observe (.symlink path)
              observe (.restart name)
              openRelookup env oenv op fuel (← getNd).last.name
          | .link path => return (← openTrailing env oenv op (maxTotalLinks + 1) path, name)
          | other => return (other, name)
      | other => return (other, name)

/-- The end of `path_openat`: the reference to the root, and `-EOPENSTALE`. -/
def finishOpenat (status : Status) : Walk Status := do
  let nd ← getNd
  match nd.root with
  | some root => if nd.flags.root then pure () else pathPut root
  | none => pure ()
  if status = .fail eopenstale then return .fail .ESTALE else return status

/-- `struct filename`.  A pointer into the text is what the text is from there on; a name that is not
    `separate` lies in one block with the structure. -/
@[ext] structure Filename where
  name : List UInt8
  separate : Bool
deriving DecidableEq, Repr

/-- `path_openat`, with what it makes of its `pathname`; `.done` is a file, and the walk restarts at most
    `fuel` times. -/
def openPathname (env : Env) (oenv : OpenEnv) (op : OpenFlags) (fuel : Nat) (dfd : Option Nat)
    (pathname : Filename) (flags : LookupFlags) : Walk (Status × Filename) := do
  match oenv.emptyFilp with
  | some error => return (.fail error, pathname)
  | none =>
      match ← pathInit env dfd pathname.name { flags with parent := true } with
      | some error => return (← finishOpenat (.fail error), pathname)
      | none =>
          Prog.update fun w => { w with totalLinkCount := 0 }
          let (status, name) ← openRelookup env oenv op fuel pathname.name
          return (← finishOpenat status, { pathname with name := name })

/-- The file `path_openat` gives for a name. -/
def pathOpenat (env : Env) (oenv : OpenEnv) (op : OpenFlags) (fuel : Nat) (dfd : Option Nat)
    (name : List UInt8) (flags : LookupFlags) : Walk Status := do
  return (← openPathname env oenv op fuel dfd ⟨name, false⟩ flags).1

end Nfs4Compound.Vfs
