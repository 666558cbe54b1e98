/-
Module: Nfs4Compound.Access.Returns
Layer: Access
Purpose: That the calls of the access cache return: how much there is left to do, which inodes a call may
  come to, and which steps belong to calls under way.
Imports: Nfs4Compound.Access.Invariant
Trusted boundary: none
Main exports: State.work, Placed, Stuck, AllReturn
-/
import Nfs4Compound.Access.Invariant
import Nfs4Compound.Lib.History

namespace Nfs4Compound.Access

open SearchTree (Balancing)

namespace Point

/-- How many points a call has still before it, at most, apart from what it does for each entry and for
    each inode of the list. -/
def rank : Point → Nat
  | .validity _ => 18
  | .prev _ => 17
  | .compare _ _ => 16
  | .search _ => 15
  | .zapTest _ _ => 14
  | .zapLru _ _ => 13
  | .zapInode _ _ => 12
  | .zapEntries _ _ _ => 11
  | .zapFree _ _ => 10
  | .outStale _ _ => 10
  | .missed _ => 9
  | .access _ _ => 8
  -- A new entry adds two.
  | .add _ _ _ => 7
  | .found _ _ _ _ => 5
  | .account _ _ _ => 4
  | .addTest _ _ _ => 3
  -- The list grows by one.
  | .addLru _ _ _ => 2
  | .shrink _ => 3
  | .scan _ _ _ _ => 2
  | .shrinkFree _ => 1
  | .zapCaches _ => 1
  | .done => 0

/-- The inodes that the call may come to, apart from the shrinker's. -/
def inodes : Point → List Nat
  | .validity ask => [ask.inode]
  | .prev ask => [ask.inode]
  | .compare ask _ => [ask.inode]
  | .search ask => [ask.inode]
  | .outStale ask _ => [ask.inode]
  | .missed ask => [ask.inode]
  | .access ask _ => [ask.inode]
  | .zapCaches ask => [ask.inode]
  | .zapTest i ask => i :: (ask.map Ask.inode).toList
  | .zapLru i ask => i :: (ask.map Ask.inode).toList
  | .zapInode i ask => i :: (ask.map Ask.inode).toList
  | .zapEntries i ask _ => i :: (ask.map Ask.inode).toList
  | .zapFree ask _ => (ask.map Ask.inode).toList
  | .add i _ _ => [i]
  | .found i _ _ _ => [i]
  | .account i _ _ => [i]
  | .addTest i _ _ => [i]
  | .addLru i _ _ => [i]
  | .shrink _ => []
  | .scan _ _ _ _ => []
  | .shrinkFree _ => []
  | .done => []

end Point

/-- The number of cached entries. -/
def State.cached (s : State) : Nat := tally (fun inode => inode.accessCacheEntryLru.length) s.inodes

/-- What is left to do: an entry has to be taken out of its cache and then freed, an inode to be taken off
    the list, and a call to come to its end. -/
def State.work (s : State) : Nat :=
  s.load (fun _ => 1) + s.cached + s.nfsAccessLruList.length + tally Point.rank s.calls

/-- There is every inode that a call may come to. -/
def Placed (s : State) : Prop :=
  ∀ point ∈ s.calls, ∀ i ∈ point.inodes, i < s.inodes.length

variable (tree : Balancing AccessEntry)

/-- No call can take a step. -/
def Stuck (s : State) : Prop := ∀ call given, step tree s (.go call given) = none

/-- Whatever steps the calls under way take, in whatever order, there are no more of them than this, and
    when none of the calls can go on, all have returned. -/
structure AllReturn (s : State) : Prop where
  bounded : ∀ (turns : List (Nat × Given)) s' events,
    History.replayFrom (step tree) s (turns.map fun turn => .go turn.1 turn.2) = some (s', events) →
      turns.length ≤ s.work
  settles : ∀ (turns : List (Nat × Given)) s' events,
    History.replayFrom (step tree) s (turns.map fun turn => .go turn.1 turn.2) = some (s', events) →
      Stuck tree s' → AtRest s' ∧ Settled s'

end Nfs4Compound.Access
