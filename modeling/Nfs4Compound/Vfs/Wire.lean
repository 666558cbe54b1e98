/-
Module: Nfs4Compound.Vfs.Wire
Layer: Vfs
Purpose: The environment of a walk whose lookups go over the wire: the calls of `fs/nfs/dir.c` are those
  of a client at one end, and a server that exports a tree stands at the other.
Imports: Nfs4Compound.Vfs.PlainTree, Nfs4Compound.Rpc.Export
Trusted boundary: the error numbers of Linux
Main exports: Errno.ofStatus, exported, Env.wired, Wired
-/
import Nfs4Compound.Vfs.PlainTree
import Nfs4Compound.Rpc.Export

namespace Nfs4Compound.Vfs

/-! ### Error numbers -/

/-- The error numbers that a walk tells apart. -/
def errnos : List (Int × Errno) :=
  [(-2, .ENOENT), (-9, .EBADF), (-12, .ENOMEM), (-13, .EACCES), (-17, .EEXIST), (-20, .ENOTDIR),
    (-21, .EISDIR), (-36, .ENAMETOOLONG), (-40, .ELOOP), (-116, .ESTALE)]

/-- The error that a negative status stands for. -/
def Errno.ofStatus (status : Int) : Errno :=
  match errnos.find? fun entry => entry.1 = status with
  | some entry => entry.2
  | none => .other status.natAbs

/-- What the client makes of a lookup's outcome on the server. -/
def errnoOf : Except Rpc.NfsErr Ino → Except Errno Ino
  | .ok inode => .ok inode
  | .error error => .error (Errno.ofStatus (Rpc.nfs4StatToErrno (Rpc.asInt32 error.status)))

/-- The tree of a server, with the errors that the client knows. -/
def exported (tree : Rpc.Export) : Lookup := fun dir name => errnoOf (tree.lookup dir name)

/-! ### The calls -/

/-- What `nfs_lookup` is told: a status, or the inode of the handle in its only slot.  A call that does not
    come back counts as an input/output error. -/
def lookupReplyOf : Option (Int × Option Ino) → LookupReply
  | none => .status (.other 5)
  | some (status, slot) =>
      if status ≠ 0 then .status (Errno.ofStatus status)
      else
        match slot with
        | some inode => .found inode
        | none => .badHandle .ESTALE

/-- What `nfs_chain_lookup` is told. -/
def chainReplyOf : Option (Int × (Nat → Option Ino)) → ChainReply
  | none => ⟨some (.other 5), fun _ => none⟩
  | some (status, slot) => ⟨if status = 0 then none else some (Errno.ofStatus status), slot⟩

/-- The environment whose calls are those of a client, to a server with this tree. -/
def Env.wired (env : Env) (client : Rpc.Client) (tree : Rpc.Export) : Env :=
  { env with
    lookupRpc := fun t dir name => lookupReplyOf (client.lookup tree t dir name)
    chainRpc := fun t dir names => chainReplyOf (client.chainLookup tree t dir names) }

/-- The mount of the walk is that of the client: its names are no longer than NFSv4 allows, the server
    looks nothing up in a file, and it refuses no lookup with `EACCES` or `ELOOP`, after which the client
    fills the slots all the same. -/
structure Wired (env : Env) (client : Rpc.Client) (tree : Rpc.Export) : Prop
    extends Rpc.Mounted client tree where
  namelen : env.namelen ≤ Rpc.nfs4Maxnamlen
  files : ∀ inode name, env.kind inode ≠ .directory → exported tree inode name = .error .ENOTDIR
  refuses : ∀ dir name error, exported tree dir name = .error error → error ≠ .EACCES ∧ error ≠ .ELOOP

end Nfs4Compound.Vfs
