/-
Module: Nfs4Compound.Vfs.Parents
Layer: Vfs
Purpose: Lookups of the directory above a name, for callers that lock it and look the name up themselves:
  `filename_lookup`, `kern_path_locked` and `filename_create` of `fs/namei.c`, and how many names of a
  path such a walk leaves in its chain.
Imports: Nfs4Compound.Vfs.PlainTree
Trusted boundary: `LOOKUP_REVAL`, `LOOKUP_CREATE` and `LOOKUP_EXCL` are only read by what the environment
  answers; the audit record of a lookup is left out; an answer of `mnt_want_write` is a parameter
Main exports: filenameLookup, kernPathLocked, filenameCreate, parentNames, leftOver, World.due, createAnswer
-/
import Nfs4Compound.Vfs.PlainTree

namespace Nfs4Compound.Vfs

/-! ### The functions of the source -/

/-- `filename_lookup`: a lookup that meets something stale is made once more. -/
def filenameLookup (env : Env) (fuel : Nat) (dfd : Option Nat) (name : List UInt8) (flags : LookupFlags) :
    Walk Status := do
  match ← pathLookupat env fuel dfd name flags with
  | .fail .ESTALE => pathLookupat env fuel dfd name flags
  | other => return other

/-- `LOOKUP_PARENT`. -/
def lookupParent : LookupFlags where
  follow := false
  directory := false
  automount := false
  parent := true
  jumped := false
  root := false

/-- `kern_path_locked`: the dentry of the last component, with the mutex of its parent held. -/
def kernPathLocked (env : Env) (fuel : Nat) (name : List UInt8) : Walk (Except Errno DentryId) := do
  match ← filenameLookup env fuel none name lookupParent with
  | .fail error => return .error error
  | _ =>
      let nd ← getNd
      if nd.lastType ≠ .norm then
        pathPut nd.path
        return .error (.other 22)
      else
        mutexLock nd.path.dentry
        match ← lookupHash env nd.last.text nd.path.dentry with
        | .error error =>
            mutexUnlock nd.path.dentry
            pathPut nd.path
            return .error error
        | .ok dentry => return .ok dentry

/-- The labels `unlock` and `out` of `filename_create`. -/
def createFails (nd : Nameidata) (error : Errno) : Walk (Except Errno DentryId) := do
  mutexUnlock nd.path.dentry
  pathPut nd.path
  return .error error

/-- The label `fail` in front of them. -/
def createRefused (nd : Nameidata) (dentry : DentryId) (error : Errno) : Walk (Except Errno DentryId) := do
  modifyHeap (·.dput dentry)
  createFails nd error

/-- `filename_create`: a dentry without an inode for the last component, with the mutex of its parent held.
    `readOnly` is what `mnt_want_write` returns. -/
def filenameCreate (env : Env) (readOnly : MountId → Option Errno) (fuel : Nat) (dfd : Option Nat)
    (name : List UInt8) (isDir : Bool) : Walk (Except Errno DentryId) := do
  match ← filenameLookup env fuel dfd name lookupParent with
  | .fail error => return .error error
  | _ =>
      let nd ← getNd
      if nd.lastType ≠ .norm then
        pathPut nd.path
        return .error .EEXIST
      else
        modifyNd fun nd => { nd with flags := { nd.flags with parent := false } }
        mutexLock nd.path.dentry
        match ← lookupHash env nd.last.text nd.path.dentry with
        | .error error => createFails nd error
        | .ok dentry =>
            if ¬(← getHeap).dIsNegative dentry then
              createRefused nd dentry .EEXIST
            else if ¬isDir ∧ nd.last.slashAfter then
              createRefused nd dentry .ENOENT
            else
              match readOnly nd.path.mnt with
              | some error => createRefused nd dentry error
              | none => return .ok dentry

/-! ### What a walk leaves in its chain -/

/-- Where a lookup of this path starts. -/
def Env.start (env : Env) (name : List UInt8) : DentryId :=
  (if name.head? = some slash then env.fsRoot else env.fsPwd).dentry

/-- The names before the last one. -/
def parentNames (name : List UInt8) : List Name := (components name).dropLast.map Qstr.text

/-- How many of these names a walk through chains still has in its list at their end: the names that are
    cached are taken one by one, the others are looked up when the list is full. -/
def leftOver (h : Heap) : DentryId → List Name → Nat
  | _, [] => 0
  | d, name :: rest =>
      match h.hash d name with
      | some child => leftOver h child rest
      | none => (rest.length + 1) % chainLimit

/-- The same in the middle of a walk, for the names that are left. -/
def World.due (w : World) (rest : List Name) : Nat :=
  if w.nd.chainSize = 0 then leftOver w.heap w.nd.path.dentry rest
  else (w.nd.chainSize + rest.length) % chainLimit

/-! ### Answers -/

/-- What `filename_create` has to say of a name in a directory of the server: nothing if it is free. -/
def createAnswer (serve : Lookup) (readOnly : Option Errno) (dir : Ino) (last : Qstr) (isDir : Bool) :
    Option Errno :=
  match serve dir last.text with
  | .ok _ => some .EEXIST
  | .error .ENOENT => if ¬isDir ∧ last.slashAfter then some .ENOENT else readOnly
  | .error error => some error

end Nfs4Compound.Vfs
