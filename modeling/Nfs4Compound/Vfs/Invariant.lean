/-
Module: Nfs4Compound.Vfs.Invariant
Layer: Vfs
Purpose: What a dcache that only the kernel's own operations have touched looks like, and what the
  pending chain of a walk has to look like wherever it can be observed.
Imports: Nfs4Compound.Vfs.PathWalk
Trusted boundary: none
Main exports: HeapOk, TempChain, ChainInv, EveryReturn, SearchesIdle, ChainInOrder, OrderlyRun,
  crossesAlike
-/
import Nfs4Compound.Vfs.PathWalk

namespace Nfs4Compound.Vfs

/-- The hash finds a dentry under its own parent and name only, finds no temporary dentry, and knows
    nothing of dentries that have not been allocated. -/
structure HeapOk (h : Heap) : Prop where
  hashed : ∀ d n c, h.hash d n = some c →
    h.parent c = d ∧ (h.dentry c).name = n ∧ h.type c ≠ .chainTemp ∧ c < h.next
  unborn : ∀ d, h.next ≤ d → h.inode d = none ∧ ∀ n, h.hash d n = none

/-- The entries are unhashed temporary dentries, each a child of the one before, the first a child of
    `parent`. -/
def TempChain (h : Heap) : DentryId → List ChainDentry → Prop
  | _, [] => True
  | parent, entry :: rest =>
      h.parent entry.dentry = parent ∧ h.isHashed entry.dentry = false ∧
        h.type entry.dentry = .chainTemp ∧ TempChain h entry.dentry rest

/-- The counter, the list, the parent pointer and the mutex of a pending chain fit together. -/
structure ChainInv (w : World) : Prop where
  size : w.nd.chainSize = w.nd.dchainList.length
  limit : w.nd.chainSize ≤ 29
  idle : w.nd.chainSize = 0 → w.heap.held = []
  busy : 0 < w.nd.chainSize →
    (∃ inode, w.heap.inode w.nd.chainParent = some inode ∧ w.heap.held = [inode]) ∧
      w.nd.path.dentry = w.nd.chainParent
  linked : TempChain w.heap w.nd.chainParent w.nd.dchainList

/-- The invariant holds where the event reports a return. -/
def EveryReturn : Event → Prop
  | .returned _ w => ChainInv w
  | _ => True

/-- Where a component is looked up by itself, no chain is pending. -/
def SearchesIdle : Event → Prop
  | .search w => w.nd.chainSize = 0
  | _ => True

/-- The run keeps its chain in order: the invariant holds at every return, and no mutex is locked twice
    or unlocked without being held. -/
def ChainInOrder {α : Type} (x : Walk α) (w : World) : Prop :=
  (∀ event ∈ (x w).events, EveryReturn event) ∧
    ∀ fault, (x w).result = .error fault → fault ≠ .deadlock ∧ fault ≠ .notLocked

/-- No chain is pending, and the walk holds no mutex. -/
structure NothingPending (w : World) : Prop where
  size : w.nd.chainSize = 0
  list : w.nd.dchainList = []
  held : w.heap.held = []

/-- If no component is looked up by itself while a chain is pending, the chain is in order throughout, and
    a run that found what it was to find leaves nothing pending. -/
def OrderlyRun {α : Type} (x : Walk α) (found : α → Prop) (w : World) : Prop :=
  (∀ event ∈ (x w).events, SearchesIdle event) →
    ChainInOrder x w ∧ ∀ value, (x w).result = .ok value → found value → NothingPending (x w).state

/-- The inode has a `chain_lookup` method. -/
def Env.hasChainLookup (env : Env) : Option Ino → Bool
  | none => false
  | some inode => env.chainLookup inode

/-- Where `walk_chain` goes through a mount point of a directory with chain lookups, the root of what
    is mounted there has them too. -/
def crossesAlike (env : Env) : Event → Prop
  | .cross covered mounted w =>
      env.hasChainLookup (w.heap.inode covered) → env.hasChainLookup (w.heap.inode mounted.dentry)
  | _ => True

end Nfs4Compound.Vfs
