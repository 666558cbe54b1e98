/-
Module: Nfs4Compound.Vfs.Boundaries
Layer: Vfs
Purpose: The filesystems of a server behind one mount.  `nfs_fhget` of `fs/nfs/inode.c` marks a directory
  that lies in another filesystem than its superblock as an automount point, and `follow_managed` of
  `fs/namei.c` mounts that filesystem; what it means that a chain lookup stops where a filesystem ends.
Imports: Nfs4Compound.Vfs.ChainEnds
Trusted boundary: `->d_automount` of NFS mounts the filesystem below the mount of the walk, and never
  declines with `EISDIR`; two walks that mount one filesystem at once are left out, and so are referrals,
  which no reply to a chain brings
Main exports: Exports, followAutomount, followManagedMounting, StopsAtBoundary, WithinFilesystem
-/
import Nfs4Compound.Vfs.ChainEnds

namespace Nfs4Compound.Vfs

/-! ### The marks of `nfs_fhget` -/

/-- `nfs_attr_check_mountpoint`: the attributes come from another filesystem than the superblock. -/
def nfsAttrCheckMountpoint (sbFsid fsid : Nat) : Bool := fsid ≠ sbFsid

/-- What `nfs_fhget` makes of attributes with this file type. -/
def nfsFhgetKind (type : Kind) (mountpoint : Bool) : Kind :=
  if type = .directory ∧ mountpoint then .automount else type

/-- The filesystems of the server, as a client meets them: the type and the fsid in the attributes of the
    object that an inode stands for, the fsid of the superblock of the inode, and what `->d_automount`
    mounts.  The mounts form a tree, in which `rank` is the depth. -/
structure Exports (env : Env) where
  type : Ino → Kind
  fsid : Ino → Nat
  sbFsid : Ino → Nat
  dAutomount : Nat → Path → Except Errno MountId
  rank : MountId → Nat
  plain : ∀ inode, type inode ≠ .automount
  made : ∀ inode, env.kind inode =
    nfsFhgetKind (type inode) (nfsAttrCheckMountpoint (sbFsid inode) (fsid inode))
  willing : ∀ tick path, dAutomount tick path ≠ .error .EISDIR
  deeper : ∀ path mounted,
    env.lookupMnt path = some mounted ∨ (∃ tick, dAutomount tick path = .ok mounted) →
      rank path.mnt < rank mounted ∧ rank mounted ≤ env.mountDepth

variable {env : Env}

/-- The inode stands for an object of another filesystem. -/
def Exports.Foreign (exports : Exports env) (inode : Ino) : Prop :=
  exports.fsid inode ≠ exports.sbFsid inode

instance (exports : Exports env) (inode : Ino) : Decidable (exports.Foreign inode) :=
  inferInstanceAs (Decidable (_ ≠ _))

/-! ### `follow_managed` -/

def eremote : Errno := .other 66

/-- `DCACHE_NEED_AUTOMOUNT`, which a dentry gets with an inode that is marked. -/
def Heap.needAutomount (env : Env) (h : Heap) (d : DentryId) : Bool :=
  match h.inode d with
  | none => false
  | some inode => env.kind inode = .automount

/-- Somebody wants to look below the directory, or to open it; `opening` stands for `LOOKUP_OPEN` and
    `LOOKUP_CREATE`. -/
def LookupFlags.wantsMount (flags : LookupFlags) (opening : Bool) : Bool :=
  flags.parent || flags.directory || opening || flags.automount

/-- `follow_automount`: the filesystem that is mounted now, or nothing where `-EISDIR` lets the walk stay. -/
def followAutomount (exports : Exports env) (opening : Bool) (path : Path) :
    Walk (Except Errno (Option MountId)) := do
  let flags := (← getNd).flags
  if flags.wantsMount opening then
    Prog.update fun w => { w with totalLinkCount := w.totalLinkCount + 1 }
    if maxTotalLinks ≤ (← Prog.read).totalLinkCount then
      return .error .ELOOP
    else
      match ← dcache (ask (exports.dAutomount · path)) with
      | .error .EISDIR => if flags.parent then return .error eremote else return .ok none
      | .error error => return .error error
      | .ok mounted => return .ok (some mounted)
  else
    return .ok none

/-- What is mounted on a path. -/
def Env.mountedOn (env : Env) (path : Path) : Option MountId :=
  if env.mountpoint path.dentry then env.lookupMnt path else none

/-- To the root of what is mounted on a path. -/
def enterMount (env : Env) (path : Path) (mounted : MountId) : Walk Path := do
  let root := (env.mount mounted).root
  modifyHeap fun h => (h.dput path.dentry).dget root
  return ⟨mounted, root⟩

/-- `follow_managed`. -/
def followManagedMounting (exports : Exports env) (opening : Bool) : Nat → Path → Walk (Except Errno Path)
  | 0, path => return .ok path
  | depth + 1, path => do
      match env.mountedOn path with
      | some mounted => followManagedMounting exports opening depth (← enterMount env path mounted)
      | none =>
          if (← getHeap).needAutomount env path.dentry then
            match ← followAutomount exports opening path with
            | .error error => return .error error
            | .ok none => return .ok path
            | .ok (some mounted) => followManagedMounting exports opening depth (← enterMount env path mounted)
          else
            return .ok path

/-! ### What is asked of a chain lookup -/

/-- The first slot that holds an object of another filesystem. -/
def Exports.BoundaryAt (exports : Exports env) (slot : Nat → Option Ino) (k : Nat) : Prop :=
  (∃ inode, slot k = some inode ∧ exports.Foreign inode) ∧
    ∀ j inode, j < k → slot j = some inode → ¬exports.Foreign inode

/-- The dentry is in the tree, or has an inode. -/
def Heap.Instantiated (h : Heap) (d : DentryId) : Prop := h.isHashed d = true ∨ h.inode d ≠ none

/-- `nfs_chain_lookup` instantiates nothing below the first name of another filesystem; and when it has got
    there and returns 0, the walk is in the mount and at the object where `follow_managed` leads. -/
structure StopsAtBoundary (exports : Exports env) (opening : Bool) (w : World) (reply : ChainReply) :
    Prop where
  below : ∀ k i entry, exports.BoundaryAt reply.slot k → k < i →
    (nfsChainLookup env w).state.nd.dchainList[i]? = some entry →
      ¬(nfsChainLookup env w).state.heap.Instantiated entry.dentry
  crosses : let w' := (nfsChainLookup env w).state
    ∀ k entry, exports.BoundaryAt reply.slot k → w'.nd.dchainList[k]? = some entry →
      w'.heap.Instantiated entry.dentry → (nfsChainLookup env w).result = .ok .done →
        let follow := followManagedMounting exports opening (env.mountDepth + 1) ⟨w.nd.path.mnt, entry.dentry⟩ w'
        ∃ path, follow.result = .ok (.ok path) ∧ w'.nd.path.mnt = path.mnt ∧
          w'.nd.inode = follow.state.heap.inode path.dentry

/-- The loop of `nfs_fill_dchain_list` comes to the `i`-th entry, and `d_materialise_unique` does not
    refuse it. -/
def FillsSlot (env : Env) (slot : Nat → Option Ino) (entries : List ChainDentry) (tick i : Nat) : Prop :=
  (∀ j, j < i → GoesOn env slot entries tick j) ∧
    ∃ entry, entries[i]? = some entry ∧ ∀ inode error, slot i = some inode →
      env.materialise (tick + i) entry.dentry (some inode) ≠ .failed error

/-- A name of another filesystem is the last that is filled; and if the lookup returns 0, it is a symlink,
    or the last name of the chain and nothing has to be mounted there. -/
def WithinFilesystem (exports : Exports env) (opening : Bool) (w : World) (reply : ChainReply) : Prop :=
  Fills env w reply → ∀ k inode, FillsSlot env reply.slot w.nd.dchainList (w.heap.tick + 2) k →
    reply.slot k = some inode → exports.Foreign inode →
      ¬FillsSlot env reply.slot w.nd.dchainList (w.heap.tick + 2) (k + 1) ∧
        (reply.status = none → exports.type inode = .symlink ∨
          (k + 1 = w.nd.dchainList.length ∧
            ¬(exports.type inode = .directory ∧ w.nd.flags.wantsMount opening = true)))

/-- Nothing is mounted on a dentry that was never hashed, nor on one that `d_materialise_unique` moves. -/
structure Unmounted (env : Env) (w : World) : Prop where
  pending : ∀ entry ∈ w.nd.dchainList, env.mountpoint entry.dentry = false
  moved : ∀ tick d inode o, env.materialise tick d inode = .other o → env.mountpoint o = false

end Nfs4Compound.Vfs
