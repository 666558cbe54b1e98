/-
Module: Nfs4Compound.Access.Cache
Layer: Access
Purpose: The access cache of one inode, of `fs/nfs/dir.c`: what the server has said a user may do, kept in
  a tree by the user's credentials and in a list by the last use; and what the functions of the cache do
  with it while they hold `i_lock`.
Imports: Nfs4Compound.Attr.Cache, Nfs4Compound.Lib.SearchTree
Trusted boundary: the red-black tree of the kernel is any balanced tree that keeps the sequence of its
  nodes; an entry has the number of its allocation for its address; jiffies do not wrap
Main exports: Mask, nfsAccessSetMask, AccessEntry, AccessInode, nfsAccessSearchRbtree, nfsAccessAddRbtree,
  nfsAccessGetCached, reclaimOldest, unhookFirst
-/
import Nfs4Compound.Attr.Cache
import Nfs4Compound.Lib.SearchTree

namespace Nfs4Compound.Access

open SearchTree (Balancing inorder search)

/-- An `int` or `u32` of permission bits. -/
abbrev Mask := BitVec 32

/-- A `struct rpc_cred *`; the tree compares the pointers. -/
abbrev Cred := Nat

def mayExec : Mask := 0x1
def mayWrite : Mask := 0x2
def mayRead : Mask := 0x4
def mayNotBlock : Mask := 0x80

def nfs4AccessRead : Mask := 0x1
def nfs4AccessLookup : Mask := 0x2
def nfs4AccessModify : Mask := 0x4
def nfs4AccessExtend : Mask := 0x8
def nfs4AccessDelete : Mask := 0x10
def nfs4AccessExecute : Mask := 0x20

/-- `nfs_access_set_mask`: the rights of a `u32` that an ACCESS operation has returned. -/
def nfsAccessSetMask (accessResult : Mask) : Mask :=
  (if accessResult &&& nfs4AccessRead ≠ 0 then mayRead else 0) |||
    (if accessResult &&& (nfs4AccessModify ||| nfs4AccessExtend ||| nfs4AccessDelete) ≠ 0
      then mayWrite else 0) |||
    (if accessResult &&& (nfs4AccessLookup ||| nfs4AccessExecute) ≠ 0 then mayExec else 0)

/-- None of the rights that are asked for is missing. -/
def granted (asked checked rights : Mask) : Bool := asked &&& ~~~rights &&& checked = 0

/-- What a `struct nfs_access_entry` says: when the server was asked, about whom, and the rights. -/
structure Rights where
  jiffies : Nat
  cred : Cred
  mask : Mask
deriving DecidableEq, Repr

/-- A `struct nfs_access_entry` of the cache. -/
structure AccessEntry extends Rights where
  /-- Which of all allocated entries it is. -/
  number : Nat
deriving DecidableEq, Repr

/-- What `struct nfs_inode` has to do with the cache.  The entry used last stands last in the list. -/
structure AccessInode where
  accessCache : BinaryTree AccessEntry
  accessCacheEntryLru : List AccessEntry
  /-- `NFS_INO_ACL_LRU_SET` in `flags`. -/
  aclLruSet : Bool
  /-- `NFS_INO_INVALID_ACCESS` in `cache_validity`. -/
  invalidAccess : Bool
  attrtimeo : Nat
  /-- What `nfs_have_delegated_attributes` says. -/
  delegatedAttributes : Bool
  /-- The call that holds `i_lock` between two of its steps. -/
  iLock : Option Nat
deriving DecidableEq, Repr

namespace AccessInode

variable (tree : Balancing AccessEntry) (inode : AccessInode)

/-- The entry is too old to be believed, and there is no delegation. -/
def stale (jiffies : Nat) (cache : AccessEntry) : Bool :=
  !inode.delegatedAttributes && !Attr.timeInRangeOpen jiffies cache.jiffies inode.attrtimeo

/-- `nfs_access_search_rbtree`. -/
def nfsAccessSearchRbtree (cred : Cred) : Option AccessEntry := search (·.cred) cred inode.accessCache

/-- `rb_erase(&cache->rb_node, …)` and `list_del(&cache->lru)`. -/
def unhook (cache : AccessEntry) : AccessInode :=
  { inode with
    accessCache := tree.erase cache inode.accessCache
    accessCacheEntryLru := inode.accessCacheEntryLru.erase cache }

/-- What `nfs_access_get_cached` comes to under the lock. -/
inductive Cached where
  | outZap
  | missing
  | outStale (cache : AccessEntry)
  | hit (cache : AccessEntry)
deriving DecidableEq, Repr

/-- `nfs_access_get_cached`, from `spin_lock(&inode->i_lock)` to the `spin_unlock` of its way out. -/
def nfsAccessGetCached (jiffies : Nat) (cred : Cred) : AccessInode × Cached :=
  if inode.invalidAccess then (inode, .outZap)
  else
    match inode.nfsAccessSearchRbtree cred with
    | none => (inode, .missing)
    | some cache =>
        if inode.stale jiffies cache then (inode.unhook tree cache, .outStale cache)
        else
          -- list_move_tail
          ({ inode with accessCacheEntryLru := inode.accessCacheEntryLru.erase cache ++ [cache] },
            .hit cache)

/-- `nfs_access_add_rbtree`, under the lock: the new cache, and the entry that has been replaced. -/
def nfsAccessAddRbtree (set : AccessEntry) : AccessInode × Option AccessEntry :=
  match inode.nfsAccessSearchRbtree set.cred with
  | none =>
      ({ inode with
          accessCache := tree.insertColor (SearchTree.link (·.cred) set inode.accessCache)
          accessCacheEntryLru := inode.accessCacheEntryLru ++ [set] },
        none)
  | some entry =>
      ({ inode with
          accessCache := SearchTree.replace (·.cred) set inode.accessCache
          accessCacheEntryLru := (inode.accessCacheEntryLru ++ [set]).erase entry },
        some entry)

/-- What `nfs_access_cache_shrinker` does with an inode under its lock: the entry it takes, if any, and
    whether the inode may stay on the list of inodes. -/
def reclaimOldest : AccessInode × Option AccessEntry × Bool :=
  match inode.accessCacheEntryLru with
  | [] => ({ inode with aclLruSet := false }, none, false)
  | cache :: rest =>
      let inode := inode.unhook tree cache
      if rest = [] then ({ inode with aclLruSet := false }, some cache, false)
      else (inode, some cache, true)

/-- One round of the loop of `__nfs_access_zap_cache`: the first entry of the tree. -/
def unhookFirst : Option (AccessInode × AccessEntry) :=
  (SearchTree.first inode.accessCache).map fun entry => (inode.unhook tree entry, entry)

end AccessInode

end Nfs4Compound.Access
