/-
Module: Nfs4Compound.Vfs.MountCounts
Layer: Vfs
Purpose: The reference counts of mounts where a walk takes a cached component: the branch of
  `walk_chain` with `follow_mount`, and the end of `walk_component` with `follow_managed`.  The
  functions are those of the walk with the counts added.
Imports: Nfs4Compound.Lib.Ghost, Nfs4Compound.Vfs.Chain
Trusted boundary: `lookup_mnt` returns a mount with a reference taken; nothing has to be mounted first
  (`follow_automount`, `->d_manage`)
Main exports: followMountCounted, followManagedCounted, chainHitCounted, componentHitCounted,
  CrossesRightly, Crosses
-/
import Nfs4Compound.Lib.Ghost
import Nfs4Compound.Vfs.Chain
import Mathlib.Algebra.Group.Pi.Basic
import Mathlib.Algebra.Ring.Int.Defs

namespace Nfs4Compound.Vfs

/-- The reference counts of the mounts. -/
abbrev Counts := MountId → Int

/-- Walks that count. -/
abbrev MountWalk := Prog Oops (World × Counts) Event

/-- A part of the walk that leaves the counts alone. -/
abbrev uncounted {α : Type} (x : Walk α) : MountWalk α := Prog.withGhost x

def mntget (mnt : MountId) : MountWalk Unit := Prog.updateGhost (· + Pi.single mnt 1)

def mntput (mnt : MountId) : MountWalk Unit := Prog.updateGhost (· - Pi.single mnt 1)

/-! ### References to paths -/

/-- `path_to_nameidata`. -/
def pathToNameidataCounted (path : Path) : MountWalk Unit := do
  let nd ← uncounted getNd
  uncounted (pathToNameidata path)
  if nd.path.mnt ≠ path.mnt then mntput nd.path.mnt else pure ()

/-- `terminate_walk`. -/
def terminateWalkCounted : MountWalk Unit := do
  let nd ← uncounted getNd
  uncounted terminateWalk
  mntput nd.path.mnt

/-! ### Piles of mounts -/

/-- `follow_mount`. -/
def followMountCounted (env : Env) : Nat → Path → MountWalk Path
  | 0, path => return path
  | depth + 1, path => do
      if env.mountpoint path.dentry then
        match env.lookupMnt path with
        | none => return path
        | some mounted =>
            let root := (env.mount mounted).root
            mntget mounted
            uncounted (dcache (modify fun h => (h.dput path.dentry).dget root))
            mntput path.mnt
            followMountCounted env depth ⟨mounted, root⟩
      else
        return path

/-- The loop of `follow_managed`.  The mount of the first path is held by the caller. -/
def followManagedLoop (env : Env) : Nat → Path → Bool → MountWalk (Path × Bool)
  | 0, path, needMntput => return (path, needMntput)
  | depth + 1, path, needMntput => do
      if env.mountpoint path.dentry then
        match env.lookupMnt path with
        | none => return (path, needMntput)
        | some mounted =>
            let root := (env.mount mounted).root
            mntget mounted
            uncounted (dcache (modify fun h => (h.dput path.dentry).dget root))
            if needMntput then mntput path.mnt else pure ()
            followManagedLoop env depth ⟨mounted, root⟩ true
      else
        return (path, needMntput)

/-- `follow_managed`. -/
def followManagedCounted (env : Env) (path : Path) : MountWalk (Path × Bool) := do
  let (followed, needMntput) ← followManagedLoop env env.mountDepth path false
  if needMntput ∧ followed.mnt = path.mnt then mntput followed.mnt else pure ()
  return (followed, needMntput)

/-! ### A cached component -/

/-- The path of a cached dentry in `walk_chain`. -/
def chainPathCounted (env : Env) (dentry : DentryId) : MountWalk Path := do
  let found : Path := ⟨(← uncounted getNd).path.mnt, dentry⟩
  if env.mountpoint dentry then
    let path ← followMountCounted env env.mountDepth found
    uncounted (observe (.cross dentry path))
    return path
  else
    return found

/-- The branch of `walk_chain` for a cached dentry. -/
def chainHitCounted (env : Env) (dentry : DentryId) (follow : Bool) : MountWalk Status := do
  let path ← chainPathCounted env dentry
  if (← uncounted getHeap).dIsSymlink path.dentry ∧ follow then
    uncounted (mutexUnlock (← uncounted getNd).chainParent)
    return .link path
  else
    pathToNameidataCounted path
    let inode := (← uncounted getHeap).inode dentry
    uncounted (modifyNd fun nd => { nd with inode := inode })
    uncounted freeDchainList
    uncounted (mutexUnlock (← uncounted getNd).chainParent)
    if inode = none then
      terminateWalkCounted
      return .fail .ENOENT
    else
      return .done

/-- The end of `lookup_fast` and `lookup_slow`. -/
def crossMountsCounted (env : Env) (dentry : DentryId) : MountWalk Path := do
  let (path, crossed) ← followManagedCounted env ⟨(← uncounted getNd).path.mnt, dentry⟩
  if crossed then
    uncounted (modifyNd fun nd => { nd with flags := { nd.flags with jumped := true } })
  return path

/-- The end of `walk_component`. -/
def stepIntoCounted (path : Path) (follow : Bool) : MountWalk Status := do
  let h ← uncounted getHeap
  if h.inode path.dentry = none ∨ h.dIsNegative path.dentry then
    pathToNameidataCounted path
    terminateWalkCounted
    return .fail .ENOENT
  else if h.dIsSymlink path.dentry ∧ follow then
    return .link path
  else
    pathToNameidataCounted path
    uncounted (modifyNd fun nd => { nd with inode := h.inode path.dentry })
    return .done

/-- What `walk_component` does with a dentry that `lookup_fast` or `lookup_slow` has found. -/
def componentHitCounted (env : Env) (dentry : DentryId) (follow : Bool) : MountWalk Status := do
  let path ← crossMountsCounted env dentry
  stepIntoCounted path follow

/-! ### What is asked of a crossing -/

/-- The top of the pile of mounts on a path. -/
def pileTop (env : Env) : Nat → Path → Path
  | 0, path => path
  | depth + 1, path =>
      if env.mountpoint path.dentry then
        match env.lookupMnt path with
        | none => path
        | some mounted => pileTop env depth ⟨mounted, (env.mount mounted).root⟩
      else path

/-- How the counts change where a walk goes from one mount to another: the mount left loses the
    reference of the walk and the mount entered gains one.  A walk that stops at a symlink has not left
    its mount yet; one that fails has no reference any more. -/
def countsAfter (left entered : MountId) (status : Status) (counts : Counts) : Counts :=
  match status with
  | .fail _ => counts - Pi.single left 1
  | .done => counts - Pi.single left 1 + Pi.single entered 1
  | _ => if entered = left then counts else counts + Pi.single entered 1

/-- After `walk_chain` has taken a cached component, the walk is at the top of the pile mounted on it,
    with its inode; whether there is such an object was decided on that inode; and the counts of the
    mounts are right. -/
def CrossesRightly (env : Env) (dentry : DentryId) (follow : Bool) (w : World) (counts : Counts) :
    Prop :=
  let top := pileTop env env.mountDepth ⟨w.nd.path.mnt, dentry⟩
  let run := chainHitCounted env dentry follow (w, counts)
  ∃ status, run.result = .ok status ∧
    (status = .done → run.state.1.nd.path = top ∧
      run.state.1.nd.inode = run.state.1.heap.inode top.dentry) ∧
    (status ≠ .link top → (status = .fail .ENOENT ↔ w.heap.inode top.dentry = none)) ∧
    run.state.2 = countsAfter w.nd.path.mnt top.mnt status counts

/-- Something is mounted on the component, in the mount where the walk is. -/
def Crosses (env : Env) (dentry : DentryId) (w : World) : Prop :=
  env.mountpoint dentry = true ∧ env.lookupMnt ⟨w.nd.path.mnt, dentry⟩ ≠ none

/-- Mounts form a tree: a mount lies deeper than the one it is mounted on, and no deeper than
    `mountDepth`. -/
def MountTree (env : Env) : Prop :=
  ∃ depth : MountId → Nat, ∀ path mounted, env.lookupMnt path = some mounted →
    depth path.mnt < depth mounted ∧ depth mounted ≤ env.mountDepth

/-- The walk holds the mutex of the directory in which it has looked for the component. -/
def ParentLocked (w : World) : Prop :=
  ∃ inode, w.heap.inode w.nd.chainParent = some inode ∧ inode ∈ w.heap.held

end Nfs4Compound.Vfs
