/-
Module: Nfs4Compound.Vfs.ChainEnds
Layer: Vfs
Purpose: Where a chain lookup leaves the walk: what it means that the walk stands on the dentry that is in
  the tree now, and how the filling loop of `nfs_fill_dchain_list` gets through its entries.
Imports: Nfs4Compound.Vfs.ChainAnswers
Trusted boundary: none
Main exports: Fate, fillFate, Attached, EndsInTree, ChainPlaced
-/
import Nfs4Compound.Vfs.ChainAnswers

namespace Nfs4Compound.Vfs

/-- How the filling loop gets through a chain: every entry keeps its dentry, it stops at a symlink, some
    entry is replaced by another dentry, or an entry is refused. -/
inductive Fate where
  | placed
  | link
  | replaced
  | refused
deriving DecidableEq, Repr

/-- The slot holds a symlink. -/
def Env.isLink (env : Env) : Option Ino → Bool
  | none => false
  | some inode => env.kind inode = .symlink

/-- What the answers of `d_materialise_unique`, entry by entry, make of the loop. -/
def fillFate (env : Env) (slot : Nat → Option Ino) : Nat → List ChainDentry → Heap → Fate
  | _, [], _ => .placed
  | index, entry :: rest, h =>
      match dMaterialiseUnique env entry.dentry (slot index) h with
      | (.failed _, _) => .refused
      | (.null, h') => if env.isLink (slot index) then .link else fillFate env slot (index + 1) rest h'
      | (.other _, h') =>
          match fillFate env slot (index + 1) rest h' with
          | .placed => .replaced
          | fate => fate

/-- The entries are hashed one below the other, the first below `parent`. -/
def Attached (h : Heap) : DentryId → List ChainDentry → Prop
  | _, [] => True
  | parent, entry :: rest =>
      h.parent entry.dentry = parent ∧ h.isHashed entry.dentry = true ∧ Attached h entry.dentry rest

/-- The slots are filled: the buffers were allocated, and the status is one that is tolerated. -/
def Fills (env : Env) (w : World) (reply : ChainReply) : Prop :=
  env.allocateHandles w.heap.tick = .done ∧ fillsAnyway reply.status = true

/-- `nfs_chain_lookup` returns 0 only on the dentry that represents the last name now, with the inode of
    the last handle, and with every entry below the dentry that represents its parent; and it does not
    return 0 if `d_materialise_unique` has failed. -/
structure EndsInTree (env : Env) (w : World) (reply : ChainReply) : Prop where
  arrives : (nfsChainLookup env w).result = .ok .done →
    let w' := (nfsChainLookup env w).state
    (w'.nd.dchainList.getLast?).map (·.dentry) = some w'.nd.path.dentry ∧
      Attached w'.heap w.nd.path.dentry w'.nd.dchainList ∧
      w'.nd.inode = w'.heap.inode w'.nd.path.dentry ∧
      ∃ inode, reply.slot (w.nd.dchainList.length - 1) = some inode ∧ w'.nd.inode = some inode
  fails : Fills env w reply → fillFate env reply.slot 0 w.nd.dchainList w.heap.ticked.ticked = .refused →
    ∃ error, (nfsChainLookup env w).result = .ok (.fail error)

/-- A chain that the server followed to its end: the loop stops at a symlink, or every entry keeps its
    dentry and the last handle gives an inode. -/
def ChainPlaced (env : Env) (w : World) (reply : ChainReply) : Prop :=
  env.allocateHandles w.heap.tick = .done → reply.status = none →
    fillFate env reply.slot 0 w.nd.dchainList w.heap.ticked.ticked = .link ∨
      (fillFate env reply.slot 0 w.nd.dchainList w.heap.ticked.ticked = .placed ∧
        reply.slot (w.nd.dchainList.length - 1) ≠ none)

end Nfs4Compound.Vfs
