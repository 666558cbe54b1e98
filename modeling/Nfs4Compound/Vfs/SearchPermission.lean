/-
Module: Nfs4Compound.Vfs.SearchPermission
Layer: Vfs
Purpose: The calls that resolve a name, and what it means that they check the search permission of the
  directories without chain lookups in which they take a component.
Imports: Nfs4Compound.Vfs.Open
Trusted boundary: none
Main exports: NameCall, searchedIn, searched, denials, SearchChecked, StartDenied, SearchGranted, EndsAlike
-/
import Nfs4Compound.Vfs.Open

namespace Nfs4Compound.Vfs

/-- `path_lookupat` or `path_openat` with its arguments. -/
inductive NameCall where
  | lookup (fuel : Nat) (dfd : Option Nat) (name : List UInt8) (flags : LookupFlags)
  | openat (oenv : OpenEnv) (op : OpenFlags) (fuel : Nat) (dfd : Option Nat) (name : List UInt8)
      (flags : LookupFlags)

namespace NameCall

def run (env : Env) : NameCall → Walk Status
  | lookup fuel dfd name flags => pathLookupat env fuel dfd name flags
  | openat oenv op fuel dfd name flags => pathOpenat env oenv op fuel dfd name flags

def name : NameCall → List UInt8
  | lookup _ _ name _ => name
  | openat _ _ _ _ name _ => name

def flags : NameCall → LookupFlags
  | lookup _ _ _ flags => flags
  | openat _ _ _ _ _ flags => flags

end NameCall

/-- The last component is one, and not only slashes or a link that has been followed. -/
def LastType.isComponent : LastType → Bool
  | .norm => true
  | .dot => true
  | .dotdot => true
  | .root => false
  | .bind => false

/-- The inode of a directory, unless it offers chain lookups. -/
def unchained (env : Env) (h : Heap) (d : DentryId) : Option Ino :=
  (h.inode d).filter fun dir => !env.chainLookup dir

/-- The directory in which an event reports that a component is taken, unless it offers chain lookups.
    Behind a mount point `walk_chain` may take a name in such a one, too, cached or as the first of a
    chain; a `.` or `..` that it hands to `handle_dots` there is not reported. -/
def searchedIn (env : Env) : Event → Option Ino
  | .search w => if w.nd.lastType.isComponent then unchained env w.heap w.nd.path.dentry else none
  | .accept base _ w => unchained env w.heap base
  | .extend w => if w.nd.chainSize = 0 then unchained env w.heap w.nd.path.dentry else none
  | _ => none

/-- The directories in which components were taken, in order. -/
def searched (env : Env) (events : List Event) : List Ino := events.filterMap (searchedIn env)

/-- The errors of those that may not be searched. -/
def denials (env : Env) (events : List Event) : List Errno :=
  (searched env events).filterMap env.permission

/-- The call returns the error of the first directory that may not be searched: it succeeds only if
    there is none. -/
def SearchChecked (env : Env) (call : NameCall) (w : World) : Prop :=
  ∀ error, (denials env (call.run env w).events).head? = some error →
    (call.run env w).result = .ok (.fail error)

/-- The same surroundings with every directory open to everybody. -/
def Env.granting (env : Env) : Env := { env with permission := fun _ => none }

/-- The one check that is left: a walk from a given root (`LOOKUP_ROOT`) may not search it. -/
def StartDenied (env : Env) (call : NameCall) (w : World) : Prop :=
  call.flags.root = true ∧ call.name ≠ [] ∧ ∃ root inode error, w.nd.root = some root ∧
    w.heap.dCanLookup root.dentry = true ∧ w.heap.inode root.dentry = some inode ∧
      env.permission inode = some error

/-- Every directory that the call goes through may be searched. -/
def SearchGranted (env : Env) (call : NameCall) (w : World) : Prop :=
  ∀ dir ∈ searched env (call.run env.granting w).events, env.permission dir = none

/-- Some may not be searched, but permissions aside the call fails anyway, and with the very error of
    the first of them. -/
def EndsAlike (env : Env) (call : NameCall) (w : World) : Prop :=
  ∃ error, (denials env (call.run env.granting w).events).head? = some error ∧
    (call.run env.granting w).result = .ok (.fail error)

end Nfs4Compound.Vfs
