/-
Module: Nfs4Compound.Access.Calls
Layer: Access
Purpose: The calls of the access cache of `fs/nfs/dir.c`, many at a time: `nfs_do_access` with its lookup
  without a lock and its lookup under `i_lock`, `nfs4_opendata_access`, `nfs_access_add_cache`,
  `nfs_access_zap_cache` and `nfs_access_cache_shrinker`.  A step is what one call does between two points
  at which another call can come in between: a section under `i_lock`, or one access to what is shared.
Imports: Nfs4Compound.Access.Cache, Nfs4Compound.Lib.History
Trusted boundary: an access to what is shared is seen by all calls at once, and a section under `i_lock`
  as one, also by the lookup without a lock, which takes the reads of its comparison in one step;
  allocations get new numbers
Main exports: Ask, Caller, Point, Event, State, advance, Move, step, State.start
-/
import Nfs4Compound.Access.Cache
import Nfs4Compound.Lib.History

namespace Nfs4Compound.Access

open SearchTree (Balancing)
open Vfs (Errno)

def ECHILD : Errno := .other 10

/-- `nfs_do_access(inode, cred, mask)`. -/
structure Ask where
  inode : Nat
  cred : Cred
  mask : Mask
deriving DecidableEq, Repr

/-- What calls `nfs_access_add_cache`. -/
inductive Caller where
  | doAccess (ask : Ask)
  /-- `nfs4_opendata_access`, with its local `mask`. -/
  | opendata (mask : Mask)
deriving DecidableEq, Repr

/-- Where a call is: what it is about to do, and what it has in its hands. -/
inductive Point where
  /-- `nfs_access_get_cached_rcu`, before it reads `cache_validity`. -/
  | validity (ask : Ask)
  /-- … before it reads `access_cache_entry_lru.prev`. -/
  | prev (ask : Ask)
  /-- … before it reads the entry. -/
  | compare (ask : Ask) (cache : AccessEntry)
  /-- `nfs_access_get_cached`, before it takes `i_lock`. -/
  | search (ask : Ask)
  /-- … at `out_stale`, before it frees the entry. -/
  | outStale (ask : Ask) (cache : AccessEntry)
  /-- Both have returned an error. -/
  | missed (ask : Ask)
  /-- The server has been asked at the time `asked`. -/
  | access (ask : Ask) (asked : Nat)
  /-- `nfs_zap_caches`, for a stale handle. -/
  | zapCaches (ask : Ask)
  /-- `nfs_access_zap_cache`, before it tests `NFS_INO_ACL_LRU_SET`; from `nfs_access_get_cached`, if
      there is a question. -/
  | zapTest (inode : Nat) (ask : Option Ask)
  /-- … before it takes `nfs_access_lru_lock`. -/
  | zapLru (inode : Nat) (ask : Option Ask)
  /-- … before it takes `i_lock`. -/
  | zapInode (inode : Nat) (ask : Option Ask)
  /-- … in the loop of `__nfs_access_zap_cache`. -/
  | zapEntries (inode : Nat) (ask : Option Ask) (head : List AccessEntry)
  /-- … in `nfs_access_free_list`. -/
  | zapFree (ask : Option Ask) (head : List AccessEntry)
  /-- `nfs_access_add_cache`, before it allocates an entry. -/
  | add (inode : Nat) (set : Rights) (caller : Caller)
  /-- … in `nfs_access_add_rbtree`, before it frees the entry it has replaced. -/
  | found (inode : Nat) (set : Rights) (caller : Caller) (entry : AccessEntry)
  /-- … before it counts the entry. -/
  | account (inode : Nat) (set : Rights) (caller : Caller)
  /-- … before it tests `NFS_INO_ACL_LRU_SET`. -/
  | addTest (inode : Nat) (set : Rights) (caller : Caller)
  /-- … before it takes `nfs_access_lru_lock`. -/
  | addLru (inode : Nat) (set : Rights) (caller : Caller)
  /-- `nfs_access_cache_shrinker`, before it takes `nfs_access_lru_lock`. -/
  | shrink (nrToScan : Int)
  /-- … in its loop, with the two cursors of `list_for_each_entry_safe`. -/
  | scan (nrToScan : Int) (nfsi next : Option Nat) (head : List AccessEntry)
  /-- … in `nfs_access_free_list`. -/
  | shrinkFree (head : List AccessEntry)
  /-- The call has returned. -/
  | done
deriving DecidableEq, Repr

/-- What can be seen of the calls, and of what is done to the inodes. -/
inductive Event where
  /-- The call of this number is one of `nfs_do_access`. -/
  | began (call : Nat) (ask : Ask)
  /-- The server says what a user may do with a file. -/
  | replied (inode : Nat) (cred : Cred) (access : Mask)
  | inserted (inode : Nat) (cache : AccessEntry)
  /-- `NFS_INO_INVALID_ACCESS` is set. -/
  | invalidated (inode : Nat)
  /-- `__nfs_access_zap_cache` is through. -/
  | zapped (inode : Nat)
  /-- `nfs_do_access` returns, for the entry of the cache it has found, if any. -/
  | answered (call : Nat) (ask : Ask) (cache : Option AccessEntry) (status : Option Errno)
  /-- `nfs4_opendata_access` returns. -/
  | opened (call : Nat) (status : Option Errno)
  /-- The shrinker returns. -/
  | shrunk (call : Nat) (left : Int)
deriving DecidableEq, Repr

/-- The inodes, the cache's global variables, and all calls there have been. -/
structure State where
  inodes : List AccessInode
  nfsAccessLruList : List Nat
  /-- The call that holds `nfs_access_lru_lock` between two of its steps. -/
  nfsAccessLruLock : Option Nat
  nfsAccessNrEntries : Int
  sysctlVfsCachePressure : Int
  jiffies : Nat
  /-- `NFS_MINATTRTIMEO`. -/
  minAttrtimeo : Nat
  /-- How many entries have been allocated, and which ones freed. -/
  allocated : Nat
  freed : List Nat
  calls : List Point
deriving DecidableEq, Repr

namespace State

variable (s : State)

/-- The call of this number goes on. -/
def goOn (call : Nat) (point : Point) : State := { s with calls := s.calls.set call point }

def setInode (i : Nat) (inode : AccessInode) : State := { s with inodes := s.inodes.set i inode }

/-- `nfs_access_free_entry`. -/
def nfsAccessFreeEntry (entry : AccessEntry) : State :=
  { s with
    freed := entry.number :: s.freed
    nfsAccessNrEntries := s.nfsAccessNrEntries - 1 }

def lock (call : Nat) : State := { s with nfsAccessLruLock := some call }

def unlock : State := { s with nfsAccessLruLock := none }

/-- `list_del_init(&nfsi->access_cache_inode_lru)`. -/
def delLru (i : Nat) : State := { s with nfsAccessLruList := s.nfsAccessLruList.erase i }

/-- `list_add_tail(&nfsi->access_cache_inode_lru, &nfs_access_lru_list)`. -/
def addLru (i : Nat) : State := { s with nfsAccessLruList := s.nfsAccessLruList ++ [i] }

/-- The successor on the list of inodes; none if that is the list's head. -/
def nextOf (i : Nat) : Option Nat := (s.nfsAccessLruList.dropWhile (· ≠ i))[1]?

/-- The call returns. -/
def returns (call : Nat) (event : Event) : State × List Event := (s.goOn call .done, [event])

end State

/-- `nfs_do_access` returns with the rights it has got, at `out_cached`. -/
def Ask.outCached (ask : Ask) (call : Nat) (cache : Option AccessEntry) (rights : Mask) : Event :=
  .answered call ask cache
    (if granted ask.mask (mayRead ||| mayWrite ||| mayExec) rights then none else some .EACCES)

/-- What the caller of `nfs_access_add_cache` returns. -/
def Caller.returned (call : Nat) (set : Rights) : Caller → Event
  | .doAccess ask => ask.outCached call none set.mask
  | .opendata mask =>
      .opened call (if granted mask (mayRead ||| mayExec) set.mask then none else some .EACCES)

/-- What comes after `nfs_access_zap_cache`. -/
def Point.afterZap : Option Ask → Point
  | none => .done
  | some ask => .missed ask

/-- What the surroundings give to a step that asks for it: whether `kmalloc` has memory, and the reply of
    the server. -/
structure Given where
  memory : Bool
  reply : Except Errno Mask
deriving Repr

variable (tree : Balancing AccessEntry)

/-- The next step of a call of `nfs_do_access`, up to what it does with the reply. -/
def lookUp (s : State) (call : Nat) (given : Given) : Point → Option (State × List Event)
  | .validity ask => do
      let inode ← s.inodes[ask.inode]?
      pure (s.goOn call (if inode.invalidAccess then .search ask else .prev ask), [])
  | .prev ask => do
      let inode ← s.inodes[ask.inode]?
      match inode.accessCacheEntryLru.getLast? with
      | none => pure (s.goOn call (.search ask), [])
      | some cache => pure (s.goOn call (.compare ask cache), [])
  | .compare ask cache => do
      let inode ← s.inodes[ask.inode]?
      if ask.cred ≠ cache.cred ∨ inode.stale s.jiffies cache then pure (s.goOn call (.search ask), [])
      else pure (s.returns call (ask.outCached call (some cache) cache.mask))
  | .search ask => do
      let inode ← s.inodes[ask.inode]?
      guard (inode.iLock = none)
      match inode.nfsAccessGetCached tree s.jiffies ask.cred with
      | (_, .outZap) => pure (s.goOn call (.zapTest ask.inode (some ask)), [])
      | (_, .missing) => pure (s.goOn call (.missed ask), [])
      | (inode, .outStale cache) => pure ((s.setInode ask.inode inode).goOn call (.outStale ask cache), [])
      | (inode, .hit cache) => 
          pure ((s.setInode ask.inode inode).returns call (ask.outCached call (some cache) cache.mask))
  | .outStale ask cache => pure ((s.nfsAccessFreeEntry cache).goOn call (.missed ask), [])
  | .missed ask =>
      if ask.mask &&& mayNotBlock ≠ 0 then
        pure (s.returns call (.answered call ask none (some ECHILD)))
      else pure (s.goOn call (.access ask s.jiffies), [])
  | .access ask asked =>
      match given.reply with
      | .ok access =>
          pure (s.goOn call (.add ask.inode ⟨asked, ask.cred, nfsAccessSetMask access⟩ (.doAccess ask)),
            [.replied ask.inode ask.cred access])
      | .error status =>
          if status = .ESTALE then pure (s.goOn call (.zapCaches ask), [])
          else pure (s.returns call (.answered call ask none (some status)))
  | .zapCaches ask => do
      let inode ← s.inodes[ask.inode]?
      guard (inode.iLock = none)
      pure ((s.setInode ask.inode
          { inode with
            attrtimeo := s.minAttrtimeo
            invalidAccess := true }).goOn call .done,
        [.invalidated ask.inode, .answered call ask none (some .ESTALE)])
  | _ => none

/-- The next step of `nfs_access_zap_cache`. -/
def zapCache (s : State) (call : Nat) : Point → Option (State × List Event)
  | .zapTest i ask => do
      let inode ← s.inodes[i]?
      pure (s.goOn call (if inode.aclLruSet then .zapLru i ask else .afterZap ask), [])
  | .zapLru i ask => do
      let inode ← s.inodes[i]?
      guard (s.nfsAccessLruLock = none)
      -- test_and_clear_bit
      let s := if inode.aclLruSet then (s.setInode i { inode with aclLruSet := false }).delLru i else s
      pure ((s.lock call).goOn call (.zapInode i ask), [])
  | .zapInode i ask => do
      let inode ← s.inodes[i]?
      guard (inode.iLock = none)
      pure ((s.setInode i { inode with iLock := some call }).goOn call (.zapEntries i ask []), [])
  | .zapEntries i ask head => do
      let inode ← s.inodes[i]?
      match inode.unhookFirst tree with
      | some (inode, entry) =>
          pure ((s.setInode i inode).goOn call (.zapEntries i ask (entry :: head)), [])
      | none =>
          pure (((s.setInode i
              { inode with
                invalidAccess := false
                iLock := none }).unlock).goOn call (.zapFree ask head),
            [.zapped i])
  | .zapFree ask [] => pure (s.goOn call (.afterZap ask), [])
  | .zapFree ask (entry :: head) => pure ((s.nfsAccessFreeEntry entry).goOn call (.zapFree ask head), [])
  | _ => none

/-- The next step of `nfs_access_add_cache`. -/
def addCache (s : State) (call : Nat) (given : Given) : Point → Option (State × List Event)
  | .add i set caller =>
      if !given.memory then pure (s.returns call (caller.returned call set))
      else do
        let inode ← s.inodes[i]?
        guard (inode.iLock = none)
        let cache : AccessEntry := { set with number := s.allocated }
        let s := { s with allocated := s.allocated + 1 }
        match inode.nfsAccessAddRbtree tree cache with
        | (inode, none) => pure ((s.setInode i inode).goOn call (.account i set caller), [.inserted i cache])
        | (inode, some entry) =>
            pure ((s.setInode i inode).goOn call (.found i set caller entry), [.inserted i cache])
  | .found i set caller entry => pure ((s.nfsAccessFreeEntry entry).goOn call (.account i set caller), [])
  | .account i set caller =>
      pure (({ s with nfsAccessNrEntries := s.nfsAccessNrEntries + 1 }).goOn call (.addTest i set caller), [])
  | .addTest i set caller => do
      let inode ← s.inodes[i]?
      if inode.aclLruSet then pure (s.returns call (caller.returned call set))
      else pure (s.goOn call (.addLru i set caller), [])
  | .addLru i set caller => do
      let inode ← s.inodes[i]?
      guard (s.nfsAccessLruLock = none)
      -- test_and_set_bit
      let s := if inode.aclLruSet then s else (s.setInode i { inode with aclLruSet := true }).addLru i
      pure (s.returns call (caller.returned call set))
  | _ => none

/-- The next step of `nfs_access_cache_shrinker`. -/
def shrinkCache (s : State) (call : Nat) : Point → Option (State × List Event)
  | .shrink nrToScan => do
      guard (s.nfsAccessLruLock = none)
      let first := s.nfsAccessLruList.head?
      pure ((s.lock call).goOn call (.scan nrToScan first (first.bind s.nextOf) []), [])
  | .scan nrToScan nfsi next head =>
      match nfsi with
      | none => pure (s.unlock.goOn call (.shrinkFree head), [])
      | some i =>
          if nrToScan = 0 then pure (s.unlock.goOn call (.shrinkFree head), [])
          else do
            let inode ← s.inodes[i]?
            guard (inode.iLock = none)
            let (inode, taken, stays) := inode.reclaimOldest tree
            let s := (s.setInode i inode).delLru i
            -- list_move_tail, or list_del_init
            let s := if stays then s.addLru i else s
            pure (s.goOn call (.scan (nrToScan - 1) next (next.bind s.nextOf) (taken.toList ++ head)), [])
  | .shrinkFree [] =>
      pure (s.returns call (.shrunk call (s.nfsAccessNrEntries.tdiv 100 * s.sysctlVfsCachePressure)))
  | .shrinkFree (entry :: head) => pure ((s.nfsAccessFreeEntry entry).goOn call (.shrinkFree head), [])
  | _ => none

/-- The next step of a call, whatever it is. -/
def advance (s : State) (call : Nat) (given : Given) (point : Point) : Option (State × List Event) :=
  (lookUp tree s call given point).or <|
    (zapCache tree s call point).or <| (addCache tree s call given point).or (shrinkCache tree s call point)

/-! ### Steps of the system -/

/-- What can happen. -/
inductive Move where
  /-- `nfs_do_access` is called. -/
  | doAccess (ask : Ask)
  /-- `nfs4_opendata_access` is called, with the reply to an OPEN; `exec` stands for `__FMODE_EXEC` in
      the flags, `read` for `FMODE_READ` in the mode. -/
  | opendataAccess (inode : Nat) (cred : Cred) (accessSupported accessResult : Mask)
      (exec read fileCreated : Bool)
  /-- `nfs_access_zap_cache` is called by itself. -/
  | zapCache (inode : Nat)
  /-- `nfs_access_cache_shrinker` is called, with `GFP_KERNEL` in its mask or without. -/
  | shrinker (nrToScan : Int) (gfpKernel : Bool)
  /-- `NFS_INO_INVALID_ACCESS` is set, under `i_lock`. -/
  | invalidate (inode : Nat)
  /-- The attributes' timeout changes, or the delegation does. -/
  | revise (inode : Nat) (attrtimeo : Nat) (delegatedAttributes : Bool)
  | clock (ticks : Nat)
  /-- A call takes its next step. -/
  | go (call : Nat) (given : Given)
deriving Repr

namespace State

/-- A new call. -/
def call (s : State) (point : Point) : State := { s with calls := s.calls ++ [point] }

end State

/-- The rights `nfs4_opendata_access` looks for. -/
def opendataMask (exec read fileCreated : Bool) : Mask :=
  if exec then mayExec else if read && !fileCreated then mayRead else 0

def step (s : State) : Move → Option (State × List Event)
  | .doAccess ask => do
      guard (ask.inode < s.inodes.length)
      pure (s.call (.validity ask), [.began s.calls.length ask])
  | .opendataAccess i cred accessSupported accessResult exec read fileCreated => do
      guard (i < s.inodes.length)
      if accessSupported = 0 then pure (s.call .done, [.opened s.calls.length none])
      else
        pure (s.call (.add i ⟨s.jiffies, cred, nfsAccessSetMask accessResult⟩
            (.opendata (opendataMask exec read fileCreated))),
          [.replied i cred accessResult])
  | .zapCache i => do
      guard (i < s.inodes.length)
      pure (s.call (.zapTest i none), [])
  | .shrinker nrToScan gfpKernel =>
      if gfpKernel then pure (s.call (.shrink nrToScan), [])
      else pure (s.call .done, [.shrunk s.calls.length (if nrToScan = 0 then 0 else -1)])
  | .invalidate i => do
      let inode ← s.inodes[i]?
      guard (inode.iLock = none)
      pure (s.setInode i { inode with invalidAccess := true }, [.invalidated i])
  | .revise i attrtimeo delegatedAttributes => do
      let inode ← s.inodes[i]?
      guard (inode.iLock = none)
      pure (s.setInode i { inode with attrtimeo, delegatedAttributes }, [])
  | .clock ticks => pure ({ s with jiffies := s.jiffies + ticks }, [])
  | .go call given => do
      let point ← s.calls[call]?
      advance tree s call given point

/-- An inode with nothing cached: whether its cache is marked invalid, the timeout of its attributes, and
    whether there is a delegation. -/
structure NewInode where
  invalidAccess : Bool
  attrtimeo : Nat
  delegatedAttributes : Bool
deriving Repr

def NewInode.inode (new : NewInode) : AccessInode where
  accessCache := .nil
  accessCacheEntryLru := []
  aclLruSet := false
  invalidAccess := new.invalidAccess
  attrtimeo := new.attrtimeo
  delegatedAttributes := new.delegatedAttributes
  iLock := none

/-- Before the first call. -/
def State.start (inodes : List NewInode) (sysctlVfsCachePressure : Int) (jiffies minAttrtimeo : Nat) : State where
  inodes := inodes.map NewInode.inode
  nfsAccessLruList := []
  nfsAccessLruLock := none
  nfsAccessNrEntries := 0
  sysctlVfsCachePressure
  jiffies
  minAttrtimeo
  allocated := 0
  freed := []
  calls := []

end Nfs4Compound.Access
