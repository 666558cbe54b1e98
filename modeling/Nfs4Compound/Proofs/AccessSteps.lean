/-
Module: Nfs4Compound.Proofs.AccessSteps
Layer: Proofs
Purpose: All that the next step of a call of the access cache can do, case by case; every proof about the
  calls goes through these cases.
Imports: Nfs4Compound.Proofs.AccessInodes
Trusted boundary: none
Main exports: Took, took_of_advance, Stepped, stepped_of_step
-/
import Nfs4Compound.Proofs.AccessInodes

namespace Nfs4Compound.Access

open SearchTree (Balancing)
open Vfs (Errno)

variable {tree : Balancing AccessEntry} {s s' : State} {call : Nat} {given : Given} {point : Point}
  {events : List Event}

/-- What a step of a call does, from the point where the call is. -/
inductive Took (tree : Balancing AccessEntry) (s : State) (call : Nat) :
    Point → State → List Event → Prop where
  | invalid {ask : Ask} : Took tree s call (.validity ask) (s.goOn call (.search ask)) []
  | valid {ask : Ask} {inode : AccessInode} (here : s.inodes[ask.inode]? = some inode)
      (clear : inode.invalidAccess = false) : Took tree s call (.validity ask) (s.goOn call (.prev ask)) []
  | noPrev {ask : Ask} : Took tree s call (.prev ask) (s.goOn call (.search ask)) []
  | prev {ask : Ask} {cache : AccessEntry} {inode : AccessInode} (here : s.inodes[ask.inode]? = some inode)
      (last : inode.accessCacheEntryLru.getLast? = some cache) :
      Took tree s call (.prev ask) (s.goOn call (.compare ask cache)) []
  | differs {ask : Ask} {cache : AccessEntry} :
      Took tree s call (.compare ask cache) (s.goOn call (.search ask)) []
  | agrees {ask : Ask} {cache : AccessEntry} (same : ask.cred = cache.cred) :
      Took tree s call (.compare ask cache) (s.goOn call .done) [ask.outCached call (some cache) cache.mask]
  | outZap {ask : Ask} : Took tree s call (.search ask) (s.goOn call (.zapTest ask.inode (some ask))) []
  | missing {ask : Ask} : Took tree s call (.search ask) (s.goOn call (.missed ask)) []
  | outStale {ask : Ask} {cache : AccessEntry} {inode : AccessInode}
      (here : s.inodes[ask.inode]? = some inode) (free : inode.iLock = none)
      (found : inode.nfsAccessSearchRbtree ask.cred = some cache) :
      Took tree s call (.search ask)
        ((s.setInode ask.inode (inode.unhook tree cache)).goOn call (.outStale ask cache)) []
  | hit {ask : Ask} {cache : AccessEntry} {inode : AccessInode}
      (here : s.inodes[ask.inode]? = some inode) (free : inode.iLock = none)
      (clear : inode.invalidAccess = false) (found : inode.nfsAccessSearchRbtree ask.cred = some cache) :
      Took tree s call (.search ask)
        ((s.setInode ask.inode { inode with
          accessCacheEntryLru := inode.accessCacheEntryLru.erase cache ++ [cache] }).goOn call .done)
        [ask.outCached call (some cache) cache.mask]
  | freeStale {ask : Ask} {cache : AccessEntry} :
      Took tree s call (.outStale ask cache) ((s.nfsAccessFreeEntry cache).goOn call (.missed ask)) []
  | gaveUp {ask : Ask} {status : Errno} {point : Point}
      (asking : point = .missed ask ∨ ∃ asked, point = .access ask asked) :
      Took tree s call point (s.goOn call .done) [.answered call ask none (some status)]
  | asks {ask : Ask} : Took tree s call (.missed ask) (s.goOn call (.access ask s.jiffies)) []
  | replied {ask : Ask} {asked : Nat} {access : Mask} :
      Took tree s call (.access ask asked)
        (s.goOn call (.add ask.inode ⟨asked, ask.cred, nfsAccessSetMask access⟩ (.doAccess ask)))
        [.replied ask.inode ask.cred access]
  | staleHandle {ask : Ask} {asked : Nat} :
      Took tree s call (.access ask asked) (s.goOn call (.zapCaches ask)) []
  | zapCaches {ask : Ask} {inode : AccessInode} (here : s.inodes[ask.inode]? = some inode)
      (free : inode.iLock = none) :
      Took tree s call (.zapCaches ask)
        ((s.setInode ask.inode
          { inode with
            attrtimeo := s.minAttrtimeo
            invalidAccess := true }).goOn call .done)
        [.invalidated ask.inode, .answered call ask none (some .ESTALE)]
  | zapNothing {i : Nat} {ask : Option Ask} :
      Took tree s call (.zapTest i ask) (s.goOn call (.afterZap ask)) []
  | zapTest {i : Nat} {ask : Option Ask} : Took tree s call (.zapTest i ask) (s.goOn call (.zapLru i ask)) []
  | zapListed {i : Nat} {ask : Option Ask} {inode : AccessInode} (here : s.inodes[i]? = some inode)
      (free : s.nfsAccessLruLock = none) (listed : inode.aclLruSet = true) :
      Took tree s call (.zapLru i ask)
        ((((s.setInode i { inode with aclLruSet := false }).delLru i).lock call).goOn call
          (.zapInode i ask)) []
  | zapUnlisted {i : Nat} {ask : Option Ask} {inode : AccessInode} (here : s.inodes[i]? = some inode)
      (free : s.nfsAccessLruLock = none) (unlisted : inode.aclLruSet = false) :
      Took tree s call (.zapLru i ask) ((s.lock call).goOn call (.zapInode i ask)) []
  | zapInode {i : Nat} {ask : Option Ask} {inode : AccessInode} (here : s.inodes[i]? = some inode)
      (free : inode.iLock = none) :
      Took tree s call (.zapInode i ask)
        ((s.setInode i { inode with iLock := some call }).goOn call (.zapEntries i ask [])) []
  | zapEntry {i : Nat} {ask : Option Ask} {head : List AccessEntry} {entry : AccessEntry}
      {inode inode' : AccessInode} (here : s.inodes[i]? = some inode)
      (first : inode.unhookFirst tree = some (inode', entry)) :
      Took tree s call (.zapEntries i ask head)
        ((s.setInode i inode').goOn call (.zapEntries i ask (entry :: head))) []
  | zapped {i : Nat} {ask : Option Ask} {head : List AccessEntry} {inode : AccessInode}
      (here : s.inodes[i]? = some inode) (empty : inode.unhookFirst tree = none) :
      Took tree s call (.zapEntries i ask head)
        (((s.setInode i
          { inode with
            invalidAccess := false
            iLock := none }).unlock).goOn call (.zapFree ask head))
        [.zapped i]
  | zapFreed {ask : Option Ask} : Took tree s call (.zapFree ask []) (s.goOn call (.afterZap ask)) []
  | zapFree {ask : Option Ask} {entry : AccessEntry} {head : List AccessEntry} :
      Took tree s call (.zapFree ask (entry :: head))
        ((s.nfsAccessFreeEntry entry).goOn call (.zapFree ask head)) []
  | noMemory {i : Nat} {set : Rights} {caller : Caller} :
      Took tree s call (.add i set caller) (s.goOn call .done)
        [caller.returned call set]
  | inserted {i : Nat} {set : Rights} {caller : Caller} {inode : AccessInode}
      (here : s.inodes[i]? = some inode) (free : inode.iLock = none)
      (absent : (inode.nfsAccessAddRbtree tree { set with number := s.allocated }).2 = none) :
      Took tree s call (.add i set caller)
        ((({ s with allocated := s.allocated + 1 }).setInode i
          (inode.nfsAccessAddRbtree tree { set with number := s.allocated }).1).goOn call
            (.account i set caller))
        [.inserted i { set with number := s.allocated }]
  | replaced {i : Nat} {set : Rights} {caller : Caller} {inode : AccessInode} {entry : AccessEntry}
      (here : s.inodes[i]? = some inode) (free : inode.iLock = none)
      (found : (inode.nfsAccessAddRbtree tree { set with number := s.allocated }).2 = some entry) :
      Took tree s call (.add i set caller)
        ((({ s with allocated := s.allocated + 1 }).setInode i
          (inode.nfsAccessAddRbtree tree { set with number := s.allocated }).1).goOn call
            (.found i set caller entry))
        [.inserted i { set with number := s.allocated }]
  | freeReplaced {i : Nat} {set : Rights} {caller : Caller} {entry : AccessEntry} :
      Took tree s call (.found i set caller entry)
        ((s.nfsAccessFreeEntry entry).goOn call (.account i set caller)) []
  | account {i : Nat} {set : Rights} {caller : Caller} :
      Took tree s call (.account i set caller)
        (({ s with nfsAccessNrEntries := s.nfsAccessNrEntries + 1 }).goOn call (.addTest i set caller)) []
  | listedAlready {i : Nat} {set : Rights} {caller : Caller} {inode : AccessInode}
      (here : s.inodes[i]? = some inode) (listed : inode.aclLruSet = true) :
      Took tree s call (.addTest i set caller) (s.goOn call .done)
        [caller.returned call set]
  | addTest {i : Nat} {set : Rights} {caller : Caller} :
      Took tree s call (.addTest i set caller) (s.goOn call (.addLru i set caller)) []
  | listedMeanwhile {i : Nat} {set : Rights} {caller : Caller} {inode : AccessInode}
      (here : s.inodes[i]? = some inode) (listed : inode.aclLruSet = true) :
      Took tree s call (.addLru i set caller) (s.goOn call .done)
        [caller.returned call set]
  | addLru {i : Nat} {set : Rights} {caller : Caller} {inode : AccessInode}
      (here : s.inodes[i]? = some inode) (free : s.nfsAccessLruLock = none)
      (unlisted : inode.aclLruSet = false) :
      Took tree s call (.addLru i set caller)
        (((s.setInode i { inode with aclLruSet := true }).addLru i).goOn call .done)
        [caller.returned call set]
  | shrink {nrToScan : Int} (free : s.nfsAccessLruLock = none) :
      Took tree s call (.shrink nrToScan)
        ((s.lock call).goOn call
          (.scan nrToScan s.nfsAccessLruList.head? (s.nfsAccessLruList.head?.bind s.nextOf) [])) []
  | scanned {nrToScan : Int} {nfsi next : Option Nat} {head : List AccessEntry} :
      Took tree s call (.scan nrToScan nfsi next head) (s.unlock.goOn call (.shrinkFree head)) []
  | scanKeeps {nrToScan : Int} {i : Nat} {next : Option Nat} {head rest : List AccessEntry}
      {cache : AccessEntry} {inode : AccessInode} (here : s.inodes[i]? = some inode)
      (free : inode.iLock = none) (whole : inode.accessCacheEntryLru = cache :: rest) (more : rest ≠ []) :
      Took tree s call (.scan nrToScan (some i) next head)
        ((((s.setInode i (inode.unhook tree cache)).delLru i).addLru i).goOn call
          (.scan (nrToScan - 1) next
            (next.bind (((s.setInode i (inode.unhook tree cache)).delLru i).addLru i).nextOf)
            (cache :: head))) []
  | scanDrops {nrToScan : Int} {i : Nat} {next : Option Nat} {head taken : List AccessEntry}
      {inode inode' : AccessInode} (here : s.inodes[i]? = some inode) (free : inode.iLock = none)
      (gone : (taken = [] ∧ inode.accessCacheEntryLru = [] ∧ inode' = { inode with aclLruSet := false }) ∨
        ∃ cache, taken = [cache] ∧ inode.accessCacheEntryLru = [cache] ∧
          inode' = { inode.unhook tree cache with aclLruSet := false }) :
      Took tree s call (.scan nrToScan (some i) next head)
        (((s.setInode i inode').delLru i).goOn call
          (.scan (nrToScan - 1) next (next.bind ((s.setInode i inode').delLru i).nextOf)
            (taken ++ head))) []
  | shrunk : Took tree s call (.shrinkFree []) (s.goOn call .done)
      [.shrunk call (s.nfsAccessNrEntries.tdiv 100 * s.sysctlVfsCachePressure)]
  | shrinkFree {entry : AccessEntry} {head : List AccessEntry} :
      Took tree s call (.shrinkFree (entry :: head))
        ((s.nfsAccessFreeEntry entry).goOn call (.shrinkFree head)) []

/-! ### The cases are complete -/

private theorem guarded {p : Prop} [Decidable p] {α : Type} {rest : Option α} {value : α}
    (ran : (do
      guard p
      rest) = some value) : p ∧ rest = some value := by
  by_cases holds : p
  · rw [guard, if_pos holds] at ran
    exact ⟨holds, ran⟩
  · rw [guard, if_neg holds] at ran
    cases ran

theorem took_of_lookUp (ran : lookUp tree s call given point = some (s', events)) :
    Took tree s call point s' events := by
  cases point with
  | validity ask =>
      obtain ⟨inode, here, ended⟩ := Option.bind_eq_some_iff.mp ran
      cases clear : inode.invalidAccess <;> rw [clear] at ended <;> cases ended
      · exact .valid here clear
      · exact .invalid
  | prev ask =>
      obtain ⟨inode, here, ended⟩ := Option.bind_eq_some_iff.mp ran
      cases last : inode.accessCacheEntryLru.getLast? <;> rw [last] at ended <;> cases ended
      · exact .noPrev
      · exact .prev here last
  | compare ask cache =>
      obtain ⟨inode, here, ended⟩ := Option.bind_eq_some_iff.mp ran
      split at ended
      · cases ended
        exact .differs
      · rename_i usable
        cases ended
        exact .agrees (not_not.mp (not_or.mp usable).1)
  | search ask =>
      obtain ⟨inode, here, guarded_⟩ := Option.bind_eq_some_iff.mp ran
      obtain ⟨free, ended⟩ := guarded guarded_
      cases looked : inode.nfsAccessGetCached tree s.jiffies ask.cred with
      | mk inode' found =>
          rw [looked] at ended
          rcases AccessInode.nfsAccessGetCached_cases looked with ⟨rfl, -⟩ | ⟨rfl, -⟩ |
            ⟨cache, rfl, search, rfl⟩ | ⟨cache, rfl, clear, search, rfl⟩ <;> cases ended
          · exact .outZap
          · exact .missing
          · exact .outStale here free search
          · exact .hit here free clear search
  | outStale ask cache =>
      cases ran
      exact .freeStale
  | missed ask =>
      rw [lookUp] at ran
      split at ran <;> cases ran
      · exact .gaveUp (.inl rfl)
      · exact .asks
  | access ask asked =>
      rw [lookUp] at ran
      split at ran
      · cases ran
        exact .replied
      · split at ran <;> cases ran
        · exact .staleHandle
        · exact .gaveUp (.inr ⟨asked, rfl⟩)
  | zapCaches ask =>
      obtain ⟨inode, here, guarded_⟩ := Option.bind_eq_some_iff.mp ran
      obtain ⟨free, ended⟩ := guarded guarded_
      cases ended
      exact .zapCaches here free
  | _ => cases ran

theorem took_of_zapCache (ran : zapCache tree s call point = some (s', events)) :
    Took tree s call point s' events := by
  cases point with
  | zapTest i ask =>
      obtain ⟨inode, here, ended⟩ := Option.bind_eq_some_iff.mp ran
      cases listed : inode.aclLruSet <;> rw [listed] at ended <;> cases ended
      · exact .zapNothing
      · exact .zapTest
  | zapLru i ask =>
      obtain ⟨inode, here, guarded_⟩ := Option.bind_eq_some_iff.mp ran
      obtain ⟨free, ended⟩ := guarded guarded_
      cases listed : inode.aclLruSet <;> rw [listed] at ended <;> cases ended
      · exact .zapUnlisted here free listed
      · exact .zapListed here free listed
  | zapInode i ask =>
      obtain ⟨inode, here, guarded_⟩ := Option.bind_eq_some_iff.mp ran
      obtain ⟨free, ended⟩ := guarded guarded_
      cases ended
      exact .zapInode here free
  | zapEntries i ask head =>
      obtain ⟨inode, here, ended⟩ := Option.bind_eq_some_iff.mp ran
      cases first : inode.unhookFirst tree with
      | none =>
          rw [first] at ended
          cases ended
          exact .zapped here first
      | some next =>
          rw [first] at ended
          cases ended
          exact .zapEntry here first
  | zapFree ask head =>
      cases head <;> cases ran
      · exact .zapFreed
      · exact .zapFree
  | _ => cases ran

theorem took_of_addCache (ran : addCache tree s call given point = some (s', events)) :
    Took tree s call point s' events := by
  cases point with
  | add i set caller =>
      by_cases memory : (!given.memory) = true
      · rw [addCache, if_pos memory] at ran
        cases ran
        exact .noMemory
      · rw [addCache, if_neg memory] at ran
        obtain ⟨inode, here, guarded_⟩ := Option.bind_eq_some_iff.mp ran
        obtain ⟨free, ended⟩ := guarded guarded_
        cases added : inode.nfsAccessAddRbtree tree { set with number := s.allocated } with
        | mk inode' old =>
            dsimp only at ended
            rw [added] at ended
            have first : (inode.nfsAccessAddRbtree tree { set with number := s.allocated }).1 = inode' := by
              rw [added]
            have second : (inode.nfsAccessAddRbtree tree { set with number := s.allocated }).2 = old := by
              rw [added]
            cases old with
            | none =>
                cases ended
                rw [← first]
                exact .inserted here free second
            | some entry =>
                cases ended
                rw [← first]
                exact .replaced here free second
  | found i set caller entry =>
      cases ran
      exact .freeReplaced
  | account i set caller =>
      cases ran
      exact .account
  | addTest i set caller =>
      obtain ⟨inode, here, ended⟩ := Option.bind_eq_some_iff.mp ran
      split at ended
      · rename_i listed
        cases ended
        exact .listedAlready here listed
      · cases ended
        exact .addTest
  | addLru i set caller =>
      obtain ⟨inode, here, guarded_⟩ := Option.bind_eq_some_iff.mp ran
      obtain ⟨free, ended⟩ := guarded guarded_
      cases listed : inode.aclLruSet <;> rw [listed] at ended <;> cases ended
      · exact .addLru here free listed
      · exact .listedMeanwhile here listed
  | _ => cases ran

theorem took_of_shrinkCache (ran : shrinkCache tree s call point = some (s', events)) :
    Took tree s call point s' events := by
  cases point with
  | shrink nrToScan =>
      obtain ⟨free, ended⟩ := guarded ran
      cases ended
      exact .shrink free
  | scan nrToScan nfsi next head =>
      cases nfsi with
      | none =>
          cases ran
          exact .scanned
      | some i =>
          by_cases last : nrToScan = 0
          · rw [shrinkCache, if_pos last] at ran
            cases ran
            exact .scanned
          · rw [shrinkCache, if_neg last] at ran
            obtain ⟨inode, here, guarded_⟩ := Option.bind_eq_some_iff.mp ran
            obtain ⟨free, ended⟩ := guarded guarded_
            cases reclaimed : inode.reclaimOldest tree with
            | mk inode' rest =>
                cases rest with
                | mk taken stays =>
                    rw [reclaimed] at ended
                    rcases AccessInode.reclaimOldest_cases reclaimed with ⟨rfl, rfl, empty, rfl⟩ |
                      ⟨cache, rest, whole, rfl, ⟨rfl, rfl, rfl⟩ | ⟨more, rfl, rfl⟩⟩ <;> cases ended
                    · exact .scanDrops here free (.inl ⟨rfl, empty, rfl⟩)
                    · exact .scanDrops here free (.inr ⟨cache, rfl, whole, rfl⟩)
                    · exact .scanKeeps here free whole more
  | shrinkFree head =>
      cases head <;> cases ran
      · exact .shrunk
      · exact .shrinkFree
  | _ => cases ran

theorem took_of_advance (ran : advance tree s call given point = some (s', events)) :
    Took tree s call point s' events := by
  rw [advance, Option.or_eq_some_iff, Option.or_eq_some_iff, Option.or_eq_some_iff] at ran
  rcases ran with ran | ⟨-, ran | ⟨-, ran | ⟨-, ran⟩⟩⟩
  · exact took_of_lookUp ran
  · exact took_of_zapCache ran
  · exact took_of_addCache ran
  · exact took_of_shrinkCache ran

/-- All that can happen in a step of the system. -/
inductive Stepped (tree : Balancing AccessEntry) (s : State) : State → List Event → Prop where
  | doAccess {ask : Ask} (inside : ask.inode < s.inodes.length) :
      Stepped tree s (s.call (.validity ask)) [.began s.calls.length ask]
  | opened : Stepped tree s (s.call .done) [.opened s.calls.length none]
  | opendata {i : Nat} {cred : Cred} {accessResult mask : Mask} (inside : i < s.inodes.length) :
      Stepped tree s (s.call (.add i ⟨s.jiffies, cred, nfsAccessSetMask accessResult⟩ (.opendata mask)))
        [.replied i cred accessResult]
  | zapCache {i : Nat} (inside : i < s.inodes.length) : Stepped tree s (s.call (.zapTest i none)) []
  | shrinker {nrToScan : Int} : Stepped tree s (s.call (.shrink nrToScan)) []
  | refused {left : Int} : Stepped tree s (s.call .done) [.shrunk s.calls.length left]
  | invalidate {i : Nat} {inode : AccessInode} (here : s.inodes[i]? = some inode)
      (free : inode.iLock = none) :
      Stepped tree s (s.setInode i { inode with invalidAccess := true }) [.invalidated i]
  | revise {i : Nat} {inode : AccessInode} (here : s.inodes[i]? = some inode) (free : inode.iLock = none)
      {attrtimeo : Nat} {delegatedAttributes : Bool} :
      Stepped tree s (s.setInode i { inode with attrtimeo, delegatedAttributes }) []
  | clock {ticks : Nat} : Stepped tree s { s with jiffies := s.jiffies + ticks } []
  | go {call : Nat} {point : Point} {s' : State} {events : List Event} (here : s.calls[call]? = some point)
      (took : Took tree s call point s' events) : Stepped tree s s' events

theorem stepped_of_step {move : Move} (ran : step tree s move = some (s', events)) :
    Stepped tree s s' events := by
  cases move with
  | doAccess ask =>
      obtain ⟨inside, ended⟩ := guarded ran
      cases ended
      exact .doAccess inside
  | opendataAccess i cred accessSupported accessResult exec read fileCreated =>
      obtain ⟨inside, ended⟩ := guarded ran
      split at ended <;> cases ended
      · exact .opened
      · exact .opendata inside
  | zapCache i =>
      obtain ⟨inside, ended⟩ := guarded ran
      cases ended
      exact .zapCache inside
  | shrinker nrToScan gfpKernel =>
      cases gfpKernel <;> cases ran
      · exact .refused
      · exact .shrinker
  | invalidate i =>
      obtain ⟨inode, here, guarded_⟩ := Option.bind_eq_some_iff.mp ran
      obtain ⟨free, ended⟩ := guarded guarded_
      cases ended
      exact .invalidate here free
  | revise i attrtimeo delegatedAttributes =>
      obtain ⟨inode, here, guarded_⟩ := Option.bind_eq_some_iff.mp ran
      obtain ⟨free, ended⟩ := guarded guarded_
      cases ended
      exact .revise here free
  | clock ticks =>
      cases ran
      exact .clock
  | go call given =>
      obtain ⟨point, here, ended⟩ := Option.bind_eq_some_iff.mp ran
      exact .go here (took_of_advance ended)

end Nfs4Compound.Access
