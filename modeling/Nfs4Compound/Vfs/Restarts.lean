/-
Module: Nfs4Compound.Vfs.Restarts
Layer: Vfs
Purpose: Walks that start over behind a symlink at which a chain has stopped: what they make of the name
  they were given, `do_filp_open` and `do_file_open_root` of `fs/namei.c`, which use that name again, and
  how often they start over.
Imports: Nfs4Compound.Vfs.SearchPermission
Trusted boundary: what `getname_kernel` gives is a parameter; `LOOKUP_REVAL` is read by no function here
Main exports: restartNames, putname, doFilpOpen, doFileOpenRoot, KeepsPathname, Rejects, Resumes
-/
import Nfs4Compound.Vfs.SearchPermission

namespace Nfs4Compound.Vfs

/-- The name a walk starts over with. -/
def Event.restartName : Event → Option (List UInt8)
  | .restart _ w => some w.nd.last.name
  | _ => none

/-- The names with which a walk starts over, in order. -/
def restartNames (events : List Event) : List (List UInt8) := events.filterMap Event.restartName

/-! ### The name that is opened -/

/-- What `putname` gives back with the last reference: one block with the structure and the text, or the
    text at `name` and the structure. -/
inductive Freed where
  | block
  | text (name : List UInt8)
deriving DecidableEq, Repr

def putname (pathname : Filename) : Freed :=
  if pathname.separate then .text pathname.name else .block

/-- `do_filp_open`: the second attempt, after `-ESTALE`, is made with the same `pathname`. -/
def doFilpOpen (env : Env) (oenv : OpenEnv) (op : OpenFlags) (fuel : Nat) (dfd : Option Nat)
    (pathname : Filename) (flags : LookupFlags) : Walk (Status × Filename) := do
  let (status, pathname) ← openPathname env oenv op fuel dfd pathname flags
  if status = .fail .ESTALE then
    openPathname env oenv op fuel dfd pathname flags
  else
    return (status, pathname)

/-- `do_file_open_root`; `kernelName` is what `getname_kernel` gives. -/
def doFileOpenRoot (env : Env) (oenv : OpenEnv) (op : OpenFlags) (fuel : Nat) (root : Path)
    (kernelName : Except Errno Filename) (flags : LookupFlags) : Walk (Status × Option Freed) := do
  modifyNd fun nd => { nd with root := some root }
  if (← getHeap).dIsSymlink root.dentry ∧ op.intentOpen then
    return (.fail .ELOOP, none)
  else
    match kernelName with
    | .error error => return (.fail error, none)
    | .ok pathname =>
        let (status, pathname) ←
          doFilpOpen env oenv op fuel none pathname { flags with root := true }
        return (status, some (putname pathname))

/-- `path_openat` leaves its `pathname` as it is: the name is the one it was given, a second attempt walks
    that name again, and what is freed in the end is what was allocated.  Names are compared as texts, not
    as places in memory. -/
structure KeepsPathname (env : Env) (oenv : OpenEnv) (op : OpenFlags) (fuel : Nat) (dfd : Option Nat)
    (pathname : Filename) (flags : LookupFlags) (w : World) : Prop where
  name : ∀ status pathname', (openPathname env oenv op fuel dfd pathname flags w).result =
    .ok (status, pathname') → pathname'.name = pathname.name
  again : ∀ pathname', (openPathname env oenv op fuel dfd pathname flags w).result =
    .ok (.fail .ESTALE, pathname') → (doFilpOpen env oenv op fuel dfd pathname flags w).result =
      (openPathname env oenv op fuel dfd pathname flags
        (openPathname env oenv op fuel dfd pathname flags w).state).result
  freed : ∀ status pathname', (openPathname env oenv op fuel dfd pathname flags w).result =
    .ok (status, pathname') → putname pathname' = putname pathname

/-- The walk has not started over, or the text from the symlink on, behind which it did so last, is the
    whole name.  The rest of another text that reads like the name counts as the name, too. -/
def RestartsAtStart (name : List UInt8) (events : List Event) : Prop :=
  ∀ last, (restartNames events).getLast? = some last → last = name

/-! ### How often a walk starts over -/

/-- The revalidation that comes next drops the dentry. -/
def Rejects (env : Env) (h : Heap) (d : DentryId) : Prop :=
  env.revalidate h.tick d = .stale ∧ env.invalidate (h.tick + 1) d = true

instance (env : Env) (h : Heap) (d : DentryId) : Decidable (Rejects env h d) :=
  inferInstanceAs (Decidable (_ ∧ _))

/-- What the first component of the name with which a walk goes on is cached as. -/
def nextCached (w : World) : Option DentryId :=
  match components w.nd.last.name with
  | [] => none
  | this :: _ => if this.type = .norm then w.heap.hash w.nd.path.dentry this.text else none

/-- Where a walk starts over, the name it goes on with is cached as a symlink on which nothing is mounted,
    and the dcache does not reject it. -/
def Resumes (env : Env) : Event → Prop
  | .restart _ w => ∃ link ∈ nextCached w, w.heap.dIsSymlink link = true ∧ w.heap.inode link ≠ none ∧
      env.mountpoint link = false ∧ ¬Rejects env w.heap link
  | _ => True

instance (env : Env) (event : Event) : Decidable (Resumes env event) :=
  match event with
  | .restart _ w => inferInstanceAs (Decidable (∃ link ∈ nextCached w, _))
  | .returned _ _ | .flush _ _ | .dots _ | .extend _ | .cross _ _ _ | .search _ | .accept _ _ _ |
    .answered _ _ | .symlink _ _ => isTrue trivial

end Nfs4Compound.Vfs
