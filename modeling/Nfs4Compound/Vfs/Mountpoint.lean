/-
Module: Nfs4Compound.Vfs.Mountpoint
Layer: Vfs
Purpose: Looking up a path to be unmounted: `mountpoint_last` and `path_mountpoint` of `fs/namei.c`,
  which do not revalidate the last component.
Imports: Nfs4Compound.Vfs.PathWalk
Trusted boundary: none
Main exports: Mounted, mountpointLast, pathMountpoint
-/
import Nfs4Compound.Vfs.PathWalk

namespace Nfs4Compound.Vfs

/-- What `mountpoint_last` returns: a path, 1 with the path of a symlink to follow, or something else. -/
inductive Mounted where
  | found (path : Path)
  | link (path : Path)
  | ended (status : Status)
deriving DecidableEq, Repr

/-- The path has been found. -/
def Mounted.isFound : Mounted → Prop
  | .found _ => True
  | _ => False

/-- The label `out` of `mountpoint_last`. -/
def mountpointFail (error : Errno) : Walk Mounted := do
  terminateWalk
  return .ended (.fail error)

/-- From the label `done` of `mountpoint_last` on. -/
def mountpointDone (env : Env) (dentry : DentryId) : Walk Mounted := do
  let h ← getHeap
  if h.inode dentry = none ∨ h.dIsNegative dentry then
    modifyHeap (·.dput dentry)
    mountpointFail .ENOENT
  else
    let nd ← getNd
    if h.dIsSymlink dentry ∧ nd.flags.follow then
      return .link ⟨nd.path.mnt, dentry⟩
    else
      let path ← dcache (followMount env env.mountDepth ⟨nd.path.mnt, dentry⟩)
      terminateWalk
      return .found path

/-- `mountpoint_last` for a name that is not cached, with the mutex of the directory held. -/
def mountpointLookup (env : Env) (dir : DentryId) (name : Name) : Walk Mounted := do
  match ← dcache (dAlloc env dir name) with
  | none =>
      mutexUnlock dir
      mountpointFail .ENOMEM
  | some dentry =>
      let inode ← derefInode dir
      if env.kind inode = .directory then
        match ← dcache (lookupReal env inode dentry) with
        | .error error =>
            mutexUnlock dir
            mountpointFail error
        | .ok dentry =>
            mutexUnlock dir
            mountpointDone env dentry
      else
        Prog.fault .noMethod

/-- `mountpoint_last` for a name. -/
def mountpointName (env : Env) (dir : DentryId) (name : Name) : Walk Mounted := do
  mutexLock dir
  match ← dcache (dLookup dir name) with
  | some dentry =>
      mutexUnlock dir
      mountpointDone env dentry
  | none => mountpointLookup env dir name

/-- `mountpoint_last`. -/
def mountpointLast (env : Env) : Walk Mounted := do
  observe .search
  modifyNd fun nd => { nd with flags := { nd.flags with parent := false } }
  let nd ← getNd
  if nd.lastType ≠ .norm then
    match ← handleDots env nd.lastType with
    | .done =>
        let dentry := (← getNd).path.dentry
        modifyHeap (·.dget dentry)
        mountpointDone env dentry
    | other => return .ended other
  else
    mountpointName env nd.path.dentry nd.last.text

/-- The loop of `path_mountpoint` over trailing symlinks. -/
def mountpointLinks (env : Env) : Nat → Path → Walk Mounted
  | 0, _ => Prog.fault .fuel
  | fuel + 1, link => do
      if ← mayFollowLink env link then
        modifyNd fun nd => { nd with flags := { nd.flags with parent := true } }
        match ← followLink env (walkText env) link with
        | .error error => return .ended (.fail error)
        | .ok link =>
            let last ← mountpointLast env
            putLink link
            match last with
            | .link path => mountpointLinks env fuel path
            | other => return other
      else
        return .ended (.fail .EACCES)

/-- The label `out` of `path_mountpoint`: the reference to the root is put. -/
def mountpointOut (result : Mounted) : Walk Mounted := do
  match (← getNd).root with
  | some root =>
      if (← getNd).flags.root then
        return result
      else
        pathPut root
        return result
  | none => return result

/-- `path_mountpoint`; a walk that ends with `.found` has found the path. -/
def pathMountpoint (env : Env) (dfd : Option Nat) (name : List UInt8) (flags : LookupFlags) :
    Walk Mounted := do
  match ← pathInit env dfd name { flags with parent := true } with
  | some error => return .ended (.fail error)
  | none =>
      Prog.update fun w => { w with totalLinkCount := 0 }
      match ← walkText env (components name) with
      | .done =>
          match ← mountpointLast env with
          | .link path => mountpointOut (← mountpointLinks env (maxTotalLinks + 1) path)
          | other => mountpointOut other
      | other => mountpointOut (.ended other)

end Nfs4Compound.Vfs
