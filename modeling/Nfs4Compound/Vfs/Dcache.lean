/-
Module: Nfs4Compound.Vfs.Dcache
Layer: Vfs
Purpose: The dentry heap a path walk runs on: dentries, the name hash, reference counts and the
  inode mutexes the walk holds, with the dcache, mount and inode operations that `fs/namei.c` and
  `fs/nfs/dir.c` call.  What the kernel around these files decides (revalidation, allocation, the
  replies of the server) is asked of an environment that may answer differently at every call.
Trusted boundary: `d_lookup`, `d_alloc`, `d_invalidate`, `d_materialise_unique`, `dget`, `dput` and
  the mutexes as documented for Linux 3.10.  A dentry is never freed and its identity never reused;
  the reference a child holds on its parent is not counted.
Main exports: Env, Heap, dget, dput, dLookup, dAlloc, dInvalidate, dMaterialiseUnique, lookupDcache,
  nfsLookup
-/
import Mathlib.Logic.Function.Basic
import Mathlib.Data.List.Basic

namespace Nfs4Compound.Vfs

abbrev DentryId := Nat
abbrev Ino := Nat
abbrev MountId := Nat

/-- The bytes of one path component. -/
abbrev Name := List UInt8

/-- Error numbers; a function that returns `-EXXX` in the source returns `EXXX` here. -/
inductive Errno where
  | ENOENT
  | EBADF
  | ENOMEM
  | EACCES
  | EEXIST
  | ENOTDIR
  | EISDIR
  | ENAMETOOLONG
  | ELOOP
  | ESTALE
  | other (code : Nat)
deriving DecidableEq, Repr

/-- The file type of an inode; an `automount` is a directory that `nfs_fhget` has marked
    `S_AUTOMOUNT`, which has no `lookup` method. -/
inductive Kind where
  | directory
  | automount
  | regular
  | symlink
deriving DecidableEq, Repr

/-- `DCACHE_ENTRY_TYPE`. -/
inductive EntryType where
  | miss
  | directory
  | autodir
  | symlink
  | file
  | chainTemp
deriving DecidableEq, Repr

structure Dentry where
  parent : DentryId
  name : Name
  inode : Option Ino
  type : EntryType
deriving DecidableEq, Repr

structure Path where
  mnt : MountId
  dentry : DentryId
deriving DecidableEq, Repr

/-- A mount: the root of what is mounted, and where; the top mount is its own parent. -/
structure Mount where
  root : DentryId
  parent : MountId
  mountpoint : DentryId
deriving DecidableEq, Repr

/-! ### What the walk asks of its environment -/

/-- The answer of `->d_revalidate`: positive, zero, or an error. -/
inductive Revalidation where
  | valid
  | stale
  | failed (error : Errno)
deriving DecidableEq, Repr

/-- What `d_materialise_unique` returns: NULL, another dentry of the inode, or an error. -/
inductive Materialised where
  | null
  | other (dentry : DentryId)
  | failed (error : Errno)
deriving DecidableEq, Repr

/-- Whether the buffers for handles and attributes were allocated.  A failure is `wild` when it leaves
    buffers that are read although nothing was stored in them. -/
inductive Allocation where
  | done
  | failed (wild : Bool)
deriving DecidableEq, Repr

/-- What a LOOKUP compound brings back: an error status, a handle `nfs_fhget` makes no inode of, or
    an inode. -/
inductive LookupReply where
  | status (error : Errno)
  | badHandle (error : Errno)
  | found (inode : Ino)
deriving DecidableEq, Repr

/-- What a chain of LOOKUPs brings back: its status (`none` for 0), and for each slot the inode that
    `nfs_fhget` makes of the handle and attributes in it, or nothing when it returns an error. -/
structure ChainReply where
  status : Option Errno
  slot : Nat → Option Ino

/-- The world around the walk.  A first argument of type `Nat` numbers the question, so that two
    questions of one kind may get different answers. -/
structure Env where
  kind : Ino → Kind
  /-- The directory's inode operations have a `chain_lookup` method. -/
  chainLookup : Ino → Bool
  /-- `IS_DEADDIR`. -/
  deadDir : Ino → Bool
  /-- `inode_permission(inode, MAY_EXEC)`. -/
  permission : Ino → Option Errno
  /-- The longest name the mount accepts, `NFS_SERVER(dir)->namelen`. -/
  namelen : Nat
  revalidate : Nat → DentryId → Revalidation
  weakRevalidate : Nat → DentryId → Revalidation
  /-- `d_invalidate` returns 0. -/
  invalidate : Nat → DentryId → Bool
  dAlloc : Nat → Bool
  kmalloc : Nat → Bool
  /-- The handle and attribute buffers of one lookup or of a whole chain. -/
  allocateHandles : Nat → Allocation
  materialise : Nat → DentryId → Option Ino → Materialised
  lookupRpc : Nat → Ino → Name → LookupReply
  chainRpc : Nat → Ino → List Name → ChainReply
  /-- The error `->follow_link` returns, or what it stores with `nd_set_link`: a text, or an error
      pointer. -/
  readlink : Nat → Ino → Except Errno (Except Errno (List UInt8))
  /-- `may_follow_link` lets this link be followed from this directory. -/
  mayFollowLink : Option Ino → Option Ino → Bool
  /-- `path_connected`. -/
  pathConnected : Nat → DentryId → Bool
  mount : MountId → Mount
  /-- `d_mountpoint`. -/
  mountpoint : DentryId → Bool
  lookupMnt : Path → Option MountId
  /-- An upper bound for the length of a pile of mounts. -/
  mountDepth : Nat
  /-- `current->fs->root` and `current->fs->pwd`. -/
  fsRoot : Path
  fsPwd : Path
  /-- The open files of the task, for a walk that starts at a file descriptor. -/
  file : Nat → Option Path

/-- An environment that stays out of the way: nothing is mounted, nothing fails, every object is a
    directory with chain lookups, and the server knows no name. -/
def Env.calm : Env where
  kind _ := .directory
  chainLookup _ := true
  deadDir _ := false
  permission _ := none
  namelen := 255
  revalidate _ _ := .valid
  weakRevalidate _ _ := .valid
  invalidate _ _ := true
  dAlloc _ := true
  kmalloc _ := true
  allocateHandles _ := .done
  materialise _ _ _ := .null
  lookupRpc _ _ _ := .status .ENOENT
  chainRpc _ _ _ := ⟨some .ENOENT, fun _ => none⟩
  readlink _ _ := .error .ENOENT
  mayFollowLink _ _ := true
  pathConnected _ _ := true
  mount _ := ⟨0, 0, 0⟩
  mountpoint _ := false
  lookupMnt _ := none
  mountDepth := 0
  fsRoot := ⟨0, 0⟩
  fsPwd := ⟨0, 0⟩
  file _ := none

/-! ### The heap -/

/-- The dcache as one walk sees it.  `hash d n` is what a lookup of `n` under `d` finds; `held` are the
    mutexes the walk holds; `low` remembers the least value every count has had, and `tick` numbers
    the questions asked of the environment. -/
structure Heap where
  dentry : DentryId → Dentry
  hash : DentryId → Name → Option DentryId
  next : DentryId
  count : DentryId → Int
  low : DentryId → Int
  held : List Ino
  tick : Nat

namespace Heap

/-- `d_inode`. -/
def inode (h : Heap) (d : DentryId) : Option Ino := (h.dentry d).inode

/-- `__d_entry_type`. -/
def type (h : Heap) (d : DentryId) : EntryType := (h.dentry d).type

/-- `d_parent`. -/
def parent (h : Heap) (d : DentryId) : DentryId := (h.dentry d).parent

/-- Not `d_unhashed`. -/
def isHashed (h : Heap) (d : DentryId) : Bool := h.hash (h.dentry d).parent (h.dentry d).name == some d

def dCanLookup (h : Heap) (d : DentryId) : Bool := h.type d == .directory

def dIsSymlink (h : Heap) (d : DentryId) : Bool := h.type d == .symlink

def dIsNegative (h : Heap) (d : DentryId) : Bool := h.type d == .miss

def dIsChainTemp (h : Heap) (d : DentryId) : Bool := h.type d == .chainTemp

def setDentry (h : Heap) (d : DentryId) (dentry : Dentry) : Heap :=
  { h with dentry := Function.update h.dentry d dentry }

/-- What `name` under `dir` hashes to from now on. -/
def setHash (h : Heap) (dir : DentryId) (name : Name) (found : Option DentryId) : Heap :=
  { h with hash := Function.update h.hash dir (Function.update (h.hash dir) name found) }

def dget (h : Heap) (d : DentryId) : Heap :=
  { h with count := Function.update h.count d (h.count d + 1) }

def dput (h : Heap) (d : DentryId) : Heap :=
  { h with
    count := Function.update h.count d (h.count d - 1)
    low := Function.update h.low d (min (h.low d) (h.count d - 1)) }

def dSetType (h : Heap) (d : DentryId) (type : EntryType) : Heap :=
  h.setDentry d { h.dentry d with type := type }

/-- `__d_drop`: take a dentry out of the hash. -/
def dDrop (h : Heap) (d : DentryId) : Heap :=
  if h.isHashed d then h.setHash (h.dentry d).parent (h.dentry d).name none else h

/-- `d_rehash`. -/
def dRehash (h : Heap) (d : DentryId) : Heap :=
  h.setHash (h.dentry d).parent (h.dentry d).name (some d)

def ticked (h : Heap) : Heap := { h with tick := h.tick + 1 }

end Heap

/-- The entry type a dentry gets with its inode, `d_flags_for_inode`. -/
def dFlagsForInode (env : Env) : Option Ino → EntryType
  | none => .miss
  | some inode =>
      match env.kind inode with
      | .directory => .directory
      | .automount => .autodir
      | .regular => .file
      | .symlink => .symlink

/-- Operations on the heap. -/
abbrev Dcache := StateM Heap

/-- Put one question to the environment. -/
def ask {α : Type} (question : Nat → α) : Dcache α := fun h => (question h.tick, h.ticked)

/-! ### The dcache -/

/-- `d_lookup`: the hashed child of that name, with a reference. -/
def dLookup (dir : DentryId) (name : Name) : Dcache (Option DentryId) := fun h =>
  match h.hash dir name with
  | some dentry => (some dentry, h.dget dentry)
  | none => (none, h)

/-- `d_alloc`: a fresh unhashed negative dentry with one reference. -/
def dAlloc (env : Env) (dir : DentryId) (name : Name) : Dcache (Option DentryId) := do
  if ← ask env.dAlloc then
    let h ← get
    let fresh := h.next
    set ({ h with
      dentry := Function.update h.dentry fresh ⟨dir, name, none, .miss⟩
      next := fresh + 1
      count := Function.update h.count fresh 1
      low := Function.update h.low fresh 0 } : Heap)
    return some fresh
  else
    return none

/-- `d_invalidate`: drop the dentry unless it is busy. -/
def dInvalidate (env : Env) (dentry : DentryId) : Dcache Bool := do
  if ← ask (env.invalidate · dentry) then
    modify (·.dDrop dentry)
    return true
  else
    return false

/-- `__d_instantiate` and `d_rehash`. -/
def dInstantiate (env : Env) (dentry : DentryId) (inode : Option Ino) (h : Heap) : Heap :=
  (h.setDentry dentry
    { h.dentry dentry with inode := inode, type := dFlagsForInode env inode }).dRehash dentry

/-- Move another dentry of the inode to the place of `dentry`. -/
def dMoveTo (env : Env) (moved dentry : DentryId) (h : Heap) : Heap :=
  let dropped := h.dDrop moved
  (dropped.setDentry moved
    { dropped.dentry moved with
      parent := h.parent dentry
      name := (h.dentry dentry).name
      type := dFlagsForInode env (h.inode moved) }).dRehash moved

/-- `d_materialise_unique`.  Only a hashed dentry of the same inode can take the place of the new one,
    and a negative dentry has no alias. -/
def dMaterialiseUnique (env : Env) (dentry : DentryId) (inode : Option Ino) : Dcache Materialised := do
  match ← ask (env.materialise · dentry inode) with
  | .failed error =>
      if inode.isSome then
        return .failed error
      else
        modify (dInstantiate env dentry inode)
        return .null
  | .other other =>
      let h ← get
      if inode.isSome ∧ h.isHashed other ∧ h.inode other = inode ∧ other ≠ dentry then
        modify fun h => (dMoveTo env other dentry h).dget other
        return .other other
      else
        modify (dInstantiate env dentry inode)
        return .null
  | .null =>
      modify (dInstantiate env dentry inode)
      return .null

/-! ### Looking up one name -/

/-- The end of `lookup_dcache` for a name that is not cached. -/
def lookupAlloc (env : Env) (name : Name) (dir : DentryId) :
    Dcache (Except Errno (DentryId × Bool)) := do
  match ← dAlloc env dir name with
  | some dentry => return .ok (dentry, true)
  | none => return .error .ENOMEM

/-- `lookup_dcache`: the dentry, and whether it still has to be looked up. -/
def lookupDcache (env : Env) (name : Name) (dir : DentryId) :
    Dcache (Except Errno (DentryId × Bool)) := do
  match ← dLookup dir name with
  | none => lookupAlloc env name dir
  | some dentry =>
      if (← get).dIsChainTemp dentry then
        return .ok (dentry, true)
      else
        match ← ask (env.revalidate · dentry) with
        | .valid => return .ok (dentry, false)
        | .failed error =>
            modify (·.dput dentry)
            return .error error
        | .stale =>
            if ← dInvalidate env dentry then
              modify (·.dput dentry)
              lookupAlloc env name dir
            else
              return .ok (dentry, false)

/-- `nfs_lookup` for a walk that does not create. -/
def nfsLookup (env : Env) (dir : Ino) (dentry : DentryId) : Dcache Materialised := do
  let name := ((← get).dentry dentry).name
  if env.namelen < name.length then
    return .failed .ENAMETOOLONG
  else
    match ← ask env.allocateHandles with
    | .failed _ => return .failed .ENOMEM
    | .done =>
        match ← ask (env.lookupRpc · dir name) with
        | .status .ENOENT => dMaterialiseUnique env dentry none
        | .status error => return .failed error
        | .badHandle error => return .failed error
        | .found inode => dMaterialiseUnique env dentry (some inode)

/-- `lookup_real` in a directory that has a `lookup` method. -/
def lookupReal (env : Env) (dir : Ino) (dentry : DentryId) : Dcache (Except Errno DentryId) := do
  if env.deadDir dir then
    modify (·.dput dentry)
    return .error .ENOENT
  else
    match ← nfsLookup env dir dentry with
    | .null => return .ok dentry
    | .other other =>
        modify (·.dput dentry)
        return .ok other
    | .failed error =>
        modify (·.dput dentry)
        return .error error

/-! ### Mounts -/

/-- `follow_mount`: to the top of the pile mounted on `path`. -/
def followMount (env : Env) : Nat → Path → Dcache Path
  | 0, path => return path
  | depth + 1, path => do
      if env.mountpoint path.dentry then
        match env.lookupMnt path with
        | none => return path
        | some mounted =>
            let root := (env.mount mounted).root
            modify fun h => (h.dput path.dentry).dget root
            followMount env depth ⟨mounted, root⟩
      else
        return path

/-- `follow_managed` where no automount point is met; the flag tells that a mount was crossed. -/
def followManaged (env : Env) (path : Path) : Dcache (Path × Bool) := do
  let followed ← followMount env env.mountDepth path
  return (followed, followed.mnt != path.mnt)

end Nfs4Compound.Vfs
