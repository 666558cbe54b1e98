/-
Module: Nfs4Compound.Vfs.Component
Layer: Vfs
Purpose: One component walked by itself, as the kernel does without chains: `follow_dotdot`,
  `lookup_fast`, `lookup_slow` and `walk_component` of `fs/namei.c`.
Imports: Nfs4Compound.Vfs.Nameidata
Trusted boundary: none
Main exports: followDotdot, handleDots, lookupFast, lookupSlow, walkComponent
-/
import Nfs4Compound.Vfs.Nameidata

namespace Nfs4Compound.Vfs

/-! ### Dots -/

/-- `follow_up`: from the root of a mount to where it is mounted; false at the top. -/
def followUp (env : Env) : Walk Bool := do
  let path := (← getNd).path
  let mount := env.mount path.mnt
  if mount.parent = path.mnt then
    return false
  else
    modifyHeap (·.dget mount.mountpoint)
    pathPut path
    modifyNd fun nd => { nd with path := ⟨mount.parent, mount.mountpoint⟩ }
    return true

/-- The loop of `follow_dotdot`, up to the parent or to the root. -/
def followDotdotLoop (env : Env) : Nat → Walk Status
  | 0 => Prog.fault .fuel
  | depth + 1 => do
      let nd ← getNd
      if nd.root = some nd.path then
        return .done
      else if nd.path.dentry ≠ (env.mount nd.path.mnt).root then
        let parent := (← getHeap).parent nd.path.dentry
        modifyHeap (·.dget parent)
        modifyNd fun nd => { nd with path := { nd.path with dentry := parent } }
        modifyHeap (·.dput nd.path.dentry)
        if ← dcache (ask (env.pathConnected · parent)) then
          return .done
        else
          terminateWalk
          return .fail .ENOENT
      else if ← followUp env then
        followDotdotLoop env depth
      else
        return .done

def followDotdot (env : Env) : Walk Status := do
  setRoot env
  match ← followDotdotLoop env (env.mountDepth + 1) with
  | .done =>
      let path ← dcache (followMount env env.mountDepth (← getNd).path)
      modifyNd fun nd => { nd with path := path }
      let inode := (← getHeap).inode path.dentry
      modifyNd fun nd => { nd with inode := inode }
      return .done
  | other => return other

def handleDots (env : Env) (type : LastType) : Walk Status :=
  if type = .dotdot then followDotdot env else return .done

/-! ### Looking up a component -/

/-- `__lookup_hash`, with the mutex of the directory held. -/
def lookupHash (env : Env) (name : Name) (base : DentryId) : Walk (Except Errno DentryId) := do
  match ← dcache (lookupDcache env name base) with
  | .error error => return .error error
  | .ok (dentry, false) =>
      observe (.accept base dentry)
      return .ok dentry
  | .ok (dentry, true) =>
      let dir ← derefInode base
      if env.kind dir = .directory then
        dcache (lookupReal env dir dentry)
      else
        Prog.fault .noMethod

/-- The end of `lookup_fast` and `lookup_slow`: cross what is mounted on the dentry found. -/
def crossMounts (env : Env) (dentry : DentryId) : Walk Path := do
  let (path, crossed) ← dcache (followManaged env ⟨(← getNd).path.mnt, dentry⟩)
  if crossed then
    modifyNd fun nd => { nd with flags := { nd.flags with jumped := true } }
  return path

/-- `lookup_fast`: the path of a cached component, nothing if it has to be looked up, or an error. -/
def lookupFast (env : Env) : Walk (Except Errno (Option Path)) := do
  let nd ← getNd
  match ← dcache (dLookup nd.path.dentry nd.last.text) with
  | none => return .ok none
  | some dentry =>
      match ← dcache (ask (env.revalidate · dentry)) with
      | .failed error =>
          modifyHeap (·.dput dentry)
          return .error error
      | .valid =>
          observe (.accept nd.path.dentry dentry)
          return .ok (some (← crossMounts env dentry))
      | .stale =>
          if ← dcache (dInvalidate env dentry) then
            modifyHeap (·.dput dentry)
            return .ok none
          else
            observe (.accept nd.path.dentry dentry)
            return .ok (some (← crossMounts env dentry))

def lookupSlow (env : Env) : Walk (Except Errno Path) := do
  let nd ← getNd
  let parent := nd.path.dentry
  if nd.inode ≠ (← getHeap).inode parent then
    Prog.fault .bugOn
  else
    mutexLock parent
    let found ← lookupHash env nd.last.text parent
    mutexUnlock parent
    match found with
    | .error error => return .error error
    | .ok dentry => return .ok (← crossMounts env dentry)

/-- The end of `walk_component`: step to the object found, unless it is a symlink to follow. -/
def stepInto (path : Path) (follow : Bool) : Walk Status := do
  let h ← getHeap
  if h.inode path.dentry = none ∨ h.dIsNegative path.dentry then
    pathToNameidata path
    terminateWalk
    return .fail .ENOENT
  else if h.dIsSymlink path.dentry ∧ follow then
    return .link path
  else
    pathToNameidata path
    modifyNd fun nd => { nd with inode := h.inode path.dentry }
    return .done

def walkComponent (env : Env) (follow : Bool) : Walk Status := do
  observe .search
  let nd ← getNd
  if nd.lastType ≠ .norm then
    handleDots env nd.lastType
  else
    match ← lookupFast env with
    | .error error =>
        terminateWalk
        return .fail error
    | .ok (some path) => stepInto path follow
    | .ok none =>
        match ← lookupSlow env with
        | .error error =>
            terminateWalk
            return .fail error
        | .ok path => stepInto path follow

end Nfs4Compound.Vfs
