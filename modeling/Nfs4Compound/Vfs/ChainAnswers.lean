/-
Module: Nfs4Compound.Vfs.ChainAnswers
Layer: Vfs
Purpose: What a server says to a chain of LOOKUPs, what `nfs_fhget` makes of it, and what it means
  that the dcache says the same afterwards.
Imports: Nfs4Compound.Vfs.Invariant
Trusted boundary: `nfs_fhget` fails on attributes that were never decoded; where it is given decoded
  ones, whether it can make an inode is left open
Main exports: Answer, Answer.reply, Pending, Truthful, CachesTruth, TruthSlots, InPlace
-/
import Nfs4Compound.Vfs.Invariant

namespace Nfs4Compound.Vfs

/-- The operations of a chain compound; `start` stands for those before the first LOOKUP. -/
inductive ChainOp where
  | start
  | lookup
  | getfh
  | getattr
deriving DecidableEq, Repr

/-- What a server says to a chain of names: the objects of the names whose LOOKUP, GETFH and GETATTR
    all succeeded, and the operation and status that stopped the compound before the end. -/
structure Answer (names : Nat) where
  objects : List Ino
  stop : Option (ChainOp × Errno)
  complete : stop = none → objects.length = names
  cut : stop ≠ none → objects.length < names

namespace Answer

variable {names : Nat}

/-- The reply as `nfs_chain_lookup` sees it: the status, and of every slot what `nfs_fhget` makes. -/
def reply (answer : Answer names) (makesInode : Nat → Bool) : ChainReply where
  status := answer.stop.map Prod.snd
  slot i := if makesInode i then answer.objects[i]? else none

/-- The server has said that the `i`-th name is missing, or one that it lies below. -/
def Missing (answer : Answer names) (i : Nat) : Prop :=
  answer.stop = some (.lookup, .ENOENT) ∧ answer.objects.length ≤ i

end Answer

/-- The entries of a chain that is about to be looked up: unhashed temporary dentries without an
    inode, each a child of the one before. -/
structure Pending (h : Heap) (parent : DentryId) (entries : List ChainDentry) : Prop where
  linked : TempChain h parent entries
  distinct : (parent :: entries.map (·.dentry)).Nodup
  negative : ∀ entry ∈ entries, h.inode entry.dentry = none

/-- What the dentry `d` says of the `i`-th name is what the server said. -/
structure Truthful {names : Nat} (answer : Answer names) (h : Heap) (i : Nat) (d : DentryId) : Prop where
  positive : ∀ inode, h.inode d = some inode ↔ answer.objects[i]? = some inode
  negative : h.inode d = none → answer.Missing i

/-- After `nfs_chain_lookup` the dentries of the chain that are hashed, and those that took the place
    of one, say what the server said. -/
def CachesTruth (env : Env) (w : World) (answer : Answer w.nd.dchainList.length) : Prop :=
  let w' := (nfsChainLookup env w).state
  ∀ i, (∀ entry, w.nd.dchainList[i]? = some entry → w'.heap.isHashed entry.dentry = true →
      Truthful answer w'.heap i entry.dentry) ∧
    ∀ entry, w'.nd.dchainList[i]? = some entry → w'.heap.isHashed entry.dentry = true →
      Truthful answer w'.heap i entry.dentry

/-- The filling loop goes on behind the `j`-th entry: it is no symlink, and `d_materialise_unique`
    does not refuse it. -/
def GoesOn (env : Env) (slot : Nat → Option Ino) (entries : List ChainDentry) (tick j : Nat) : Prop :=
  ∀ inode, slot j = some inode → env.kind inode ≠ .symlink ∧
    ∀ entry error, entries[j]? = some entry →
      env.materialise (tick + j) entry.dentry (some inode) ≠ .failed error

/-- Every slot has an inode, and `d_materialise_unique` puts it into the dentry of the chain. -/
def InPlace (env : Env) (slot : Nat → Option Ino) (entries : List ChainDentry) (tick : Nat) : Prop :=
  ∀ k entry, entries[k]? = some entry →
    ∃ inode, slot k = some inode ∧ env.materialise (tick + k) entry.dentry (some inode) = .null

/-- If the slots are filled at all: for every entry the loop comes to, the handle of an object gives an
    inode, and where there is no object the compound was stopped by a LOOKUP of a missing name. -/
def TruthSlots (env : Env) (w : World) (answer : Answer w.nd.dchainList.length)
    (makesInode : Nat → Bool) : Prop :=
  env.allocateHandles w.heap.tick = .done → fillsAnyway (answer.stop.map Prod.snd) = true →
    ∀ i, i < w.nd.dchainList.length →
      (∀ j, j < i → GoesOn env (answer.reply makesInode).slot w.nd.dchainList (w.heap.tick + 2) j) →
        (i < answer.objects.length → makesInode i = true) ∧
          (answer.objects.length ≤ i → answer.stop = some (.lookup, .ENOENT))

end Nfs4Compound.Vfs
