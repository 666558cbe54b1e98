/-
Module: Nfs4Compound.Access.Invariant
Layer: Access
Purpose: What the access cache is between any two steps of its calls: every inode's tree and list hold
  the same entries, every entry ever allocated is in exactly one place, the global count differs from the
  number of entries only by what calls are in the middle of, and an inode with entries can be found by
  the shrinker.
Imports: Nfs4Compound.Access.Calls, Nfs4Compound.Lib.Lock, Nfs4Compound.Lib.Tally
Trusted boundary: none
Main exports: AccessInode.Consistent, Point.held, Point.uncounted, State.load, Consistent, AtRest, Settled
-/
import Nfs4Compound.Access.Calls
import Nfs4Compound.Lib.Lock
import Nfs4Compound.Lib.Tally

namespace Nfs4Compound.Access

open SearchTree (inorder Ordered)

/-- The tree is ordered by the credentials, and the list has the tree's entries. -/
structure AccessInode.Consistent (inode : AccessInode) : Prop where
  ordered : Ordered (·.cred) inode.accessCache
  listed : inode.accessCacheEntryLru.Perm (inorder inode.accessCache)

namespace Point

/-- The entries that a call has taken out of a cache and not yet freed. -/
def held : Point → List AccessEntry
  | .outStale _ cache => [cache]
  | .zapEntries _ _ head => head
  | .zapFree _ head => head
  | .found _ _ _ entry => [entry]
  | .scan _ _ _ head => head
  | .shrinkFree head => head
  | _ => []

/-- The entries that a call has put into a cache and not yet counted. -/
def uncounted : Point → Nat
  | .found _ _ _ _ => 1
  | .account _ _ _ => 1
  | _ => 0

/-- The call has put an entry into the cache of this inode and will see to it that the inode is on the
    list, or it will take all entries out of this cache. -/
def WillList (i : Nat) : Point → Prop
  | .found j _ _ _ => j = i
  | .account j _ _ => j = i
  | .addTest j _ _ => j = i
  | .addLru j _ _ => j = i
  | .zapInode j _ => j = i
  | .zapEntries j _ _ => j = i
  | _ => False

/-- The call has `nfs_access_lru_lock`. -/
def HasLruLock : Point → Prop
  | .zapInode _ _ => True
  | .zapEntries _ _ _ => True
  | .scan _ _ _ _ => True
  | _ => False

/-- The call has the `i_lock` of this inode. -/
def HasILock (i : Nat) : Point → Prop
  | .zapEntries j _ _ => j = i
  | _ => False

end Point

/-- The entries of all caches and those in the hands of all calls, each with its weight. -/
def State.load (s : State) (weight : AccessEntry → Nat) : Nat :=
  tally (fun inode => tally weight inode.accessCacheEntryLru) s.inodes +
    tally (fun point => tally weight point.held) s.calls

/-- Every lock of an inode is held by the call that is between its `spin_lock` and its `spin_unlock`. -/
def ILocks (inodes : List AccessInode) (calls : List Point) : Prop :=
  ∀ (i : Nat) (inode : AccessInode), inodes[i]? = some inode → Held (Point.HasILock i) inode.iLock calls

/-- The bit of an inode says whether it is on the global list. -/
def LruBits (inodes : List AccessInode) (lru : List Nat) : Prop :=
  ∀ i, i ∈ lru ↔ ∃ inode : AccessInode, inodes[i]? = some inode ∧ inode.aclLruSet = true

/-- The shrinker's cursors are the first two inodes of the list, or the first one is at the end. -/
def Cursors (lru : List Nat) (calls : List Point) : Prop :=
  ∀ (call : Nat) (nrToScan : Int) (i : Nat) (next : Option Nat) (head : List AccessEntry),
    calls[call]? = some (Point.scan nrToScan (some i) next head) → lru.head? = some i ∧ next = lru[1]?

/-- An inode with entries is on the list, or a call will put it there or empty its cache. -/
def Listed (inodes : List AccessInode) (calls : List Point) : Prop :=
  ∀ (i : Nat) (inode : AccessInode), inodes[i]? = some inode → inode.accessCacheEntryLru ≠ [] →
    inode.aclLruSet = true ∨ ∃ point ∈ calls, point.WillList i

/-- What holds between any two steps. -/
structure Consistent (s : State) : Prop where
  inodes : ∀ inode ∈ s.inodes, inode.Consistent
  lruLock : Held Point.HasLruLock s.nfsAccessLruLock s.calls
  iLocks : ILocks s.inodes s.calls
  lruOnce : s.nfsAccessLruList.Nodup
  lruBits : LruBits s.inodes s.nfsAccessLruList
  cursors : Cursors s.nfsAccessLruList s.calls
  listed : Listed s.inodes s.calls
  /-- Every entry ever allocated is freed, or in one cache, or in the hands of one call. -/
  conserved : ∀ number, s.freed.count number + s.load (fun entry => if entry.number = number then 1 else 0) =
    if number < s.allocated then 1 else 0
  /-- The global count lacks the entries that calls have yet to count, and still has those that calls have
      yet to free. -/
  accounted : s.nfsAccessNrEntries + tally Point.uncounted s.calls = s.load fun _ => 1

/-- Every call has returned. -/
def AtRest (s : State) : Prop := ∀ point ∈ s.calls, point = .done

/-- What the cache has come to when every call has returned: no lock is held, the global count is the
    number of cached entries, the shrinker can find each of them, and all others have been freed. -/
structure Settled (s : State) : Prop where
  lruFree : s.nfsAccessLruLock = none
  iFree : ∀ inode ∈ s.inodes, inode.iLock = none
  counted : s.nfsAccessNrEntries = tally (fun inode => inode.accessCacheEntryLru.length) s.inodes
  found : ∀ (i : Nat) (inode : AccessInode), s.inodes[i]? = some inode →
    inode.accessCacheEntryLru ≠ [] → i ∈ s.nfsAccessLruList
  freed : ∀ number < s.allocated,
    (number ∈ s.freed ↔ ∀ inode ∈ s.inodes, ∀ entry ∈ inode.accessCacheEntryLru, entry.number ≠ number)

end Nfs4Compound.Access
