/-
Module: Nfs4Compound.Vfs.Nameidata
Layer: Vfs
Purpose: The state of a path walk (`struct nameidata` with its pending chain, the dcache, the link
  counters of the task) and the programs over it.  A walk reports an event where a property of whole
  runs is stated: after `path_init`, at every return of `walk_chain` and `chain_lookup`, before a
  chain is flushed or extended, where `.` or `..` meets a pending chain, where `walk_chain` goes
  through a mount point, where a component is taken by itself in the directory of the walk, where a
  cached dentry is used, where a chain is answered, where a symlink is followed, and where a walk
  restarts behind a symlink.
Imports: Nfs4Compound.Lib.Prog, Nfs4Compound.Vfs.Dcache
Trusted boundary: walks are reference walks, as every caller in `fs/namei.c` has `LOOKUP_RCU`
  commented out; counts of mounts are left out
Main exports: Nameidata, World, Event, Walk, mutexLock, mutexUnlock, pathToNameidata, terminateWalk
-/
import Nfs4Compound.Lib.Prog
import Nfs4Compound.Vfs.Dcache

namespace Nfs4Compound.Vfs

/-- `struct qstr`: a component is a position in the text it was read from, and a length. -/
structure Qstr where
  name : List UInt8
  len : Nat
deriving DecidableEq, Repr

/-- The bytes of the component. -/
def Qstr.text (q : Qstr) : Name := q.name.take q.len

/-- `name[len]` is not the end of the text. -/
def Qstr.slashAfter (q : Qstr) : Bool := q.len < q.name.length

inductive LastType where
  | norm
  | root
  | dot
  | dotdot
  | bind
deriving DecidableEq, Repr

/-- The `LOOKUP_` flags a reference walk reads. -/
structure LookupFlags where
  follow : Bool
  directory : Bool
  automount : Bool
  parent : Bool
  jumped : Bool
  root : Bool
deriving DecidableEq, Repr

/-- `struct chain_dentry`. -/
structure ChainDentry where
  dentry : DentryId
  name : Qstr
deriving DecidableEq, Repr

structure Nameidata where
  path : Path
  last : Qstr
  /-- Unset while `root.mnt` is NULL. -/
  root : Option Path
  inode : Option Ino
  flags : LookupFlags
  lastType : LastType
  depth : Nat
  dchainList : List ChainDentry
  chainSize : Nat
  chainParent : DentryId
deriving DecidableEq, Repr

/-- A walk, the dcache it runs on, and the link counters of `current`. -/
structure World where
  nd : Nameidata
  heap : Heap
  linkCount : Nat
  totalLinkCount : Nat

/-- How a walk can crash or hang. -/
inductive Oops where
  | nullDeref
  | wildPointer
  | bugOn
  | noMethod
  | deadlock
  | notLocked
  | fuel
deriving DecidableEq, Repr

/-- Where the invariant of the chain is observed. -/
inductive Point where
  | pathInit
  | walkChain
  | chainLookup
deriving DecidableEq, Repr

/-- Where a pending chain is flushed: the full chain, after the text of a link, and for the last
    component of a lookup or an open. -/
inductive Site where
  | full
  | followLink
  | lookupLast
  | doLast
deriving DecidableEq, Repr

inductive Event where
  | returned (point : Point) (world : World)
  | flush (site : Site) (world : World)
  | dots (world : World)
  | extend (world : World)
  | cross (covered : DentryId) (mounted : Path) (world : World)
  | search (world : World)
  | accept (base dentry : DentryId) (world : World)
  | answered (reply : ChainReply) (world : World)
  | symlink (link : Path) (world : World)
  | restart (name : List UInt8) (world : World)

abbrev Walk := Prog Oops World Event

/-- The outcome of a step of the walk: 0, 1 or 10 with the symlink found, or an error. -/
inductive Status where
  | done
  | link (path : Path)
  | chainLink (path : Path)
  | fail (error : Errno)
deriving DecidableEq, Repr

/-! ### Access to the state -/

def getNd : Walk Nameidata := do return (← Prog.read).nd

def getHeap : Walk Heap := do return (← Prog.read).heap

def modifyNd (f : Nameidata → Nameidata) : Walk Unit :=
  Prog.update fun w => { w with nd := f w.nd }

def modifyHeap (f : Heap → Heap) : Walk Unit :=
  Prog.update fun w => { w with heap := f w.heap }

/-- Run an operation of the dcache. -/
def dcache {α : Type} (op : Dcache α) : Walk α :=
  Prog.zoom World.heap (fun h w => { w with heap := h }) op

/-- Report where the walk is. -/
def observe (event : World → Event) : Walk Unit := do
  Prog.report (event (← Prog.read))

/-- `dentry->d_inode`, where it is dereferenced. -/
def derefInode (dentry : DentryId) : Walk Ino := do
  match (← Prog.read).heap.inode dentry with
  | some inode => return inode
  | none => Prog.fault .nullDeref

/-! ### Mutexes -/

/-- `mutex_lock(&dentry->d_inode->i_mutex)`. -/
def mutexLock (dentry : DentryId) : Walk Unit := do
  let inode ← derefInode dentry
  if inode ∈ (← getHeap).held then
    Prog.fault .deadlock
  else
    modifyHeap fun h => { h with held := inode :: h.held }

/-- `mutex_unlock(&dentry->d_inode->i_mutex)`. -/
def mutexUnlock (dentry : DentryId) : Walk Unit := do
  let inode ← derefInode dentry
  if inode ∈ (← getHeap).held then
    modifyHeap fun h => { h with held := h.held.erase inode }
  else
    Prog.fault .notLocked

/-! ### References to paths -/

/-- `path_put`, and `path_put_conditional` up to the count of the mount. -/
def pathPut (path : Path) : Walk Unit := modifyHeap (·.dput path.dentry)

def pathGet (path : Path) : Walk Unit := modifyHeap (·.dget path.dentry)

/-- `terminate_walk`: drop the reference to where the walk is. -/
def terminateWalk : Walk Unit := do pathPut (← getNd).path

/-- `path_to_nameidata`: step to `path`, taking over its reference. -/
def pathToNameidata (path : Path) : Walk Unit := do
  pathPut (← getNd).path
  modifyNd fun nd => { nd with path := path }

/-- `set_root`. -/
def setRoot (env : Env) : Walk Unit := do
  match (← getNd).root with
  | some _ => return ()
  | none =>
      pathGet env.fsRoot
      modifyNd fun nd => { nd with root := some env.fsRoot }

end Nfs4Compound.Vfs
