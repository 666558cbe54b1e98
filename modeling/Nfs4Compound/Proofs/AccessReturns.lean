/-
Module: Nfs4Compound.Proofs.AccessReturns
Layer: Proofs
Purpose: No calls of the access cache block each other for ever, and none goes on for ever: in whatever
  order those under way take their steps, all of them return.
Imports: Nfs4Compound.Access.Returns, Nfs4Compound.Proofs.AccessShape
Trusted boundary: none
Main exports: took_lessens, not_stuck, calls_all_return
-/
import Nfs4Compound.Access.Returns
import Nfs4Compound.Proofs.AccessShape

namespace Nfs4Compound.Access

open SearchTree (Balancing)
open History (replayFrom)

variable {tree : Balancing AccessEntry} {s s' : State} {call : Nat} {given : Given} {point point' : Point}
  {events : List Event} {i : Nat} {old new : AccessInode}

/-! ### Every step leaves less to do -/

/-- The entries there are: none is lost but those that are freed. -/
theorem Flow.entries {brought gone : List AccessEntry} (flow : Flow s s' brought gone) :
    s'.load (fun _ => 1) + s'.freed.length + s.allocated =
      s.load (fun _ => 1) + s.freed.length + s'.allocated := by
  have balance := flow.balance fun _ => 1
  rw [tally_one, tally_one] at balance
  rw [flow.freed, List.length_append, List.length_map]
  rcases flow.allocated with ⟨rfl, same⟩ | ⟨set, rfl, more⟩
  · rw [same]
    simp only [List.length_nil] at balance
    omega
  · rw [more]
    simp only [List.length_cons, List.length_nil] at balance
    omega

theorem work_lt (here : s.calls[call]? = some point) (calls : s'.calls = s.calls.set call point')
    (entries : s'.load (fun _ => 1) + s'.freed.length + s.allocated =
      s.load (fun _ => 1) + s.freed.length + s'.allocated)
    (less : s'.allocated + s.freed.length + s'.cached + s'.nfsAccessLruList.length + point'.rank <
      s.allocated + s'.freed.length + s.cached + s.nfsAccessLruList.length + point.rank) :
    s'.work < s.work := by
  have ranks := @tally_set _ Point.rank s.calls call point point' here
  rw [State.work, State.work, calls]
  omega

theorem cached_setInode (there : s.inodes[i]? = some old) (new : AccessInode) :
    (s.setInode i new).cached + old.accessCacheEntryLru.length =
      s.cached + new.accessCacheEntryLru.length :=
  @tally_set _ (fun inode : AccessInode => inode.accessCacheEntryLru.length) s.inodes i old new there

/-- A step under a lock, which changes an inode and the list. -/
theorem work_lt_setInode {lock : Option Nat} {lru : List Nat} (here : s.calls[call]? = some point)
    (there : s.inodes[i]? = some old)
    (entries : State.load ({ s.setInode i new with nfsAccessLruLock := lock, nfsAccessLruList := lru }.goOn
        call point') (fun _ => 1) + s.freed.length + s.allocated =
      s.load (fun _ => 1) + s.freed.length + s.allocated)
    (less : new.accessCacheEntryLru.length + lru.length + point'.rank <
      old.accessCacheEntryLru.length + s.nfsAccessLruList.length + point.rank) :
    State.work ({ s.setInode i new with nfsAccessLruLock := lock, nfsAccessLruList := lru }.goOn call point') <
      s.work := by
  have cached := cached_setInode there new
  refine work_lt here rfl entries ?_
  change s.allocated + s.freed.length + (s.setInode i new).cached + lru.length + point'.rank <
    s.allocated + s.freed.length + s.cached + s.nfsAccessLruList.length + point.rank
  omega

/-- A new entry comes into a cache, with an old one going out of it or not. -/
theorem work_lt_add {set : Rights} {caller : Caller} (here : s.calls[call]? = some (.add i set caller))
    (there : s.inodes[i]? = some old)
    (entries : State.load ((({ s with allocated := s.allocated + 1 }).setInode i new).goOn call point')
        (fun _ => 1) + s.freed.length + s.allocated =
      s.load (fun _ => 1) + s.freed.length + (s.allocated + 1))
    (less : new.accessCacheEntryLru.length + point'.rank < old.accessCacheEntryLru.length + 6) :
    State.work ((({ s with allocated := s.allocated + 1 }).setInode i new).goOn call point') < s.work := by
  have cached := cached_setInode there new
  refine work_lt here rfl entries ?_
  change s.allocated + 1 + s.freed.length + (s.setInode i new).cached + s.nfsAccessLruList.length +
    point'.rank < s.allocated + s.freed.length + s.cached + s.nfsAccessLruList.length + 7
  omega

/-- A step that changes no inode and leaves the list as it is. -/
theorem work_lt_pass {t : State} (here : s.calls[call]? = some point)
    (calls : t.calls = s.calls.set call point')
    (same : t.inodes = s.inodes ∧ t.allocated = s.allocated ∧ t.nfsAccessLruList = s.nfsAccessLruList)
    (entries : t.load (fun _ => 1) + t.freed.length + s.allocated =
      s.load (fun _ => 1) + s.freed.length + t.allocated)
    (less : s.freed.length + point'.rank < t.freed.length + point.rank) : t.work < s.work := by
  obtain ⟨inodes, allocated, lru⟩ := same
  refine work_lt here calls entries ?_
  rw [State.cached, inodes, allocated, lru, ← State.cached]
  omega

theorem length_unhook {cache : AccessEntry} (inside : cache ∈ old.accessCacheEntryLru) :
    (old.unhook tree cache).accessCacheEntryLru.length + 1 = old.accessCacheEntryLru.length := by
  have one := List.length_erase_of_mem inside
  have nonempty := List.length_pos_of_mem inside
  change (old.accessCacheEntryLru.erase cache).length + 1 = _
  omega

/-- The inode that the shrinker is at is on the list. -/
theorem Consistent.length_erase_first {nrToScan : Int} {next : Option Nat} {head : List AccessEntry}
    (consistent : Consistent s) (here : s.calls[call]? = some (.scan nrToScan (some i) next head)) :
    (s.nfsAccessLruList.erase i).length + 1 = s.nfsAccessLruList.length := by
  have first := List.mem_of_head? (consistent.cursors call nrToScan i next head here).1
  have one := List.length_erase_of_mem first
  have nonempty := List.length_pos_of_mem first
  omega

/-- A step leaves less to do than there was before it. -/
theorem took_lessens (consistent : Consistent s) (here : s.calls[call]? = some point)
    (took : Took tree s call point s' events) : s'.work < s.work := by
  obtain ⟨brought, gone, flow⟩ := took_flow consistent.inodes here took
  have entries := flow.entries
  have at_ {i : Nat} {inode : AccessInode} (there : s.inodes[i]? = some inode) : inode.Consistent :=
    consistent.inodes inode (List.mem_of_getElem? there)
  cases took with
  | outStale there _ found =>
      have one := @length_unhook tree _ _ (AccessInode.nfsAccessSearchRbtree_eq_some (at_ there) found).1
      exact work_lt_setInode here there entries (by simp only [Point.rank]; omega)
  | hit there _ _ found =>
      have same := (AccessInode.used_perm
        (AccessInode.nfsAccessSearchRbtree_eq_some (at_ there) found).1).length_eq
      exact work_lt_setInode here there entries (by simp only [Point.rank]; omega)
  | freeStale =>
      exact work_lt_pass here rfl ⟨rfl, rfl, rfl⟩ entries
        (Nat.add_lt_add (Nat.lt_succ_self _) (by simp [Point.rank]))
  | gaveUp asking =>
      rcases asking with rfl | ⟨asked, rfl⟩ <;>
        exact work_lt_pass here rfl ⟨rfl, rfl, rfl⟩ entries (Nat.add_lt_add_left (by simp [Point.rank]) _)
  | zapCaches there _ => exact work_lt_setInode here there entries (by simp only [Point.rank]; omega)
  | @zapNothing _ ask =>
      cases ask <;>
        exact work_lt_pass here rfl ⟨rfl, rfl, rfl⟩ entries
          (Nat.add_lt_add_left (by simp [Point.rank, Point.afterZap]) _)
  | @zapListed i _ inode there _ _ =>
      have shorter : (s.nfsAccessLruList.erase i).length ≤ s.nfsAccessLruList.length :=
        List.erase_sublist.length_le
      refine work_lt_setInode here there entries ?_
      change inode.accessCacheEntryLru.length + (s.nfsAccessLruList.erase i).length + 12 <
        inode.accessCacheEntryLru.length + s.nfsAccessLruList.length + 13
      omega
  | zapInode there _ => exact work_lt_setInode here there entries (by simp only [Point.rank]; omega)
  | @zapEntry i _ _ entry inode _ there found =>
      obtain ⟨inside, rfl⟩ := AccessInode.unhookFirst_eq_some (at_ there) found
      have one := @length_unhook tree _ _ inside
      refine work_lt_setInode here there entries ?_
      change (inode.unhook tree entry).accessCacheEntryLru.length + s.nfsAccessLruList.length + 11 <
        inode.accessCacheEntryLru.length + s.nfsAccessLruList.length + 11
      omega
  | @zapped i _ _ inode there _ =>
      refine work_lt_setInode here there entries ?_
      change inode.accessCacheEntryLru.length + s.nfsAccessLruList.length + 10 <
        inode.accessCacheEntryLru.length + s.nfsAccessLruList.length + 11
      omega
  | @zapFreed ask =>
      cases ask <;>
        exact work_lt_pass here rfl ⟨rfl, rfl, rfl⟩ entries
          (Nat.add_lt_add_left (by simp [Point.rank, Point.afterZap]) _)
  | zapFree =>
      exact work_lt_pass here rfl ⟨rfl, rfl, rfl⟩ entries (Nat.add_lt_add_right (Nat.lt_succ_self _) _)
  | @inserted _ set _ _ there _ absent =>
      have moved := (AccessInode.nfsAccessAddRbtree_perm tree { set with number := s.allocated }
        (at_ there)).length_eq
      rw [absent, List.length_append, List.length_cons] at moved
      exact work_lt_add here there entries
        (by simp only [Point.rank, Option.toList, List.length_nil] at *; omega)
  | @replaced _ set _ _ _ there _ found =>
      have moved := (AccessInode.nfsAccessAddRbtree_perm tree { set with number := s.allocated }
        (at_ there)).length_eq
      rw [found, List.length_append, List.length_cons] at moved
      exact work_lt_add here there entries
        (by simp only [Point.rank, Option.toList, List.length_cons, List.length_nil] at *; omega)
  | freeReplaced =>
      exact work_lt_pass here rfl ⟨rfl, rfl, rfl⟩ entries
        (Nat.add_lt_add (Nat.lt_succ_self _) (by simp [Point.rank]))
  | @addLru i _ _ inode there _ _ =>
      have longer : (s.nfsAccessLruList ++ [i]).length = s.nfsAccessLruList.length + 1 :=
        List.length_append
      refine work_lt_setInode here there entries ?_
      change inode.accessCacheEntryLru.length + (s.nfsAccessLruList ++ [i]).length + 0 <
        inode.accessCacheEntryLru.length + s.nfsAccessLruList.length + 2
      omega
  | @scanKeeps _ i _ _ _ cache inode there _ whole _ =>
      have one := @length_unhook tree inode cache (whole ▸ List.mem_cons_self)
      have shorter := consistent.length_erase_first here
      have longer : (s.nfsAccessLruList.erase i ++ [i]).length = (s.nfsAccessLruList.erase i).length + 1 :=
        List.length_append
      refine work_lt_setInode here there entries ?_
      change (inode.unhook tree cache).accessCacheEntryLru.length +
        (s.nfsAccessLruList.erase i ++ [i]).length + 2 <
          inode.accessCacheEntryLru.length + s.nfsAccessLruList.length + 2
      omega
  | @scanDrops _ i _ _ _ inode _ there _ gone =>
      have shorter := consistent.length_erase_first here
      rcases gone with ⟨rfl, -, rfl⟩ | ⟨cache, rfl, whole, rfl⟩
      · refine work_lt_setInode here there entries ?_
        change inode.accessCacheEntryLru.length + (s.nfsAccessLruList.erase i).length + 2 <
          inode.accessCacheEntryLru.length + s.nfsAccessLruList.length + 2
        omega
      · have one := @length_unhook tree inode cache (whole ▸ List.mem_cons_self)
        refine work_lt_setInode here there entries ?_
        change (inode.unhook tree cache).accessCacheEntryLru.length + (s.nfsAccessLruList.erase i).length + 2 <
          inode.accessCacheEntryLru.length + s.nfsAccessLruList.length + 2
        omega
  | shrinkFree =>
      exact work_lt_pass here rfl ⟨rfl, rfl, rfl⟩ entries (Nat.add_lt_add_right (Nat.lt_succ_self _) _)
  | _ => exact work_lt_pass here rfl ⟨rfl, rfl, rfl⟩ entries (Nat.add_lt_add_left (by simp [Point.rank]) _)

/-! ### Some call can always go on -/

/-- A step leaves the call at inodes it has already been given. -/
theorem took_stays (took : Took tree s call point s' events) :
    ∃ point' : Point, s'.calls = s.calls.set call point' ∧ s'.inodes.length = s.inodes.length ∧
      ∀ i ∈ point'.inodes, i ∈ point.inodes := by
  have set_ (i : Nat) (new : AccessInode) : (s.setInode i new).inodes.length = s.inodes.length :=
    List.length_set
  cases took with
  | outStale => exact ⟨_, rfl, set_ _ _, fun _ inside => inside⟩
  | hit => exact ⟨_, rfl, set_ _ _, by simp [Point.inodes]⟩
  | gaveUp => exact ⟨_, rfl, rfl, by simp [Point.inodes]⟩
  | zapCaches => exact ⟨_, rfl, set_ _ _, by simp [Point.inodes]⟩
  | @zapNothing _ ask => cases ask <;> exact ⟨_, rfl, rfl, by simp [Point.inodes, Point.afterZap]⟩
  | @zapFreed ask => cases ask <;> exact ⟨_, rfl, rfl, by simp [Point.inodes, Point.afterZap]⟩
  | zapListed => exact ⟨_, rfl, set_ _ _, fun _ inside => inside⟩
  | zapInode => exact ⟨_, rfl, set_ _ _, fun _ inside => inside⟩
  | zapEntry => exact ⟨_, rfl, set_ _ _, fun _ inside => inside⟩
  | zapped => exact ⟨_, rfl, set_ _ _, fun _ inside => List.mem_cons_of_mem _ inside⟩
  | inserted => exact ⟨_, rfl, set_ _ _, fun _ inside => inside⟩
  | replaced => exact ⟨_, rfl, set_ _ _, fun _ inside => inside⟩
  | addLru => exact ⟨_, rfl, set_ _ _, by simp [Point.inodes]⟩
  | scanKeeps => exact ⟨_, rfl, set_ _ _, fun _ inside => inside⟩
  | scanDrops => exact ⟨_, rfl, set_ _ _, fun _ inside => inside⟩
  | _ => exact ⟨_, rfl, rfl, by simp [Point.inodes]⟩

theorem stepped_placed (placed : Placed s) (stepped : Stepped tree s s' events) : Placed s' := by
  have called {point : Point} (inside : ∀ i ∈ point.inodes, i < s.inodes.length) :
      Placed (s.call point) := by
    intro other among
    rcases List.mem_append.mp among with old | new
    · exact placed other old
    · exact List.mem_singleton.mp new ▸ inside
  have revised (i : Nat) (new : AccessInode) : Placed (s.setInode i new) := fun other among j at_ =>
    (placed other among j at_).trans_eq List.length_set.symm
  cases stepped with
  | doAccess inside => exact called (by simpa [Point.inodes] using inside)
  | opendata inside => exact called (by simpa [Point.inodes] using inside)
  | zapCache inside => exact called (by simpa [Point.inodes] using inside)
  | opened => exact called (by simp [Point.inodes])
  | shrinker => exact called (by simp [Point.inodes])
  | refused => exact called (by simp [Point.inodes])
  | invalidate => exact revised _ _
  | revise => exact revised _ _
  | clock => exact placed
  | go here took =>
      obtain ⟨point', calls, length, stays⟩ := took_stays took
      intro other among i at_
      rw [calls] at among
      rw [length]
      rcases List.mem_or_eq_of_mem_set among with old | rfl
      · exact placed other old i at_
      · exact placed _ (List.mem_of_getElem? here) i (stays i at_)

section Goes

variable {α β : Type} {p : Prop} [Decidable p]

private theorem goes_bind {x : Option α} {value : α} {rest : α → Option β} (here : x = some value)
    (goes : (rest value).isSome) : (x.bind rest).isSome := by
  rw [here]
  exact goes

private theorem goes_guard {rest : Option α} (holds : p)
    (goes : rest.isSome) : (do
      guard p
      rest).isSome := by
  rw [guard, if_pos holds]
  exact goes

private theorem goes_or {x other : Option α} (goes : x.isSome) : (x.or other).isSome := by
  rw [Option.isSome_or, goes, Bool.true_or]

end Goes

/-- A call that has an inode's lock can go on. -/
theorem zapEntries_goes {ask : Option Ask} {head : List AccessEntry} (there : i < s.inodes.length) :
    (advance tree s call given (.zapEntries i ask head)).isSome := by
  have here := List.getElem?_eq_getElem there
  change ((zapCache tree s call (.zapEntries i ask head)).or _).isSome
  refine goes_or (goes_bind here ?_)
  cases found : s.inodes[i].unhookFirst tree <;> rfl

/-- With all inodes unlocked, a call that has the list's lock can go on, and if that is free, so can any
    other. -/
theorem advance_goes (placed : ∀ i ∈ point.inodes, i < s.inodes.length)
    (cursor : ∀ nrToScan i next head, point = .scan nrToScan (some i) next head → i < s.inodes.length)
    (free : ∀ inode ∈ s.inodes, inode.iLock = none) (lru : s.nfsAccessLruLock = none ∨ point.HasLruLock)
    (under : point ≠ .done) : (advance tree s call given point).isSome := by
  have unlocked {i : Nat} (there : i < s.inodes.length) : s.inodes[i].iLock = none :=
    free _ (List.getElem_mem there)
  cases point with
  | validity ask =>
      have there := List.getElem?_eq_getElem (placed ask.inode (by simp [Point.inodes]))
      exact goes_or (goes_bind there rfl)
  | prev ask =>
      have inside := placed ask.inode (by simp [Point.inodes])
      refine goes_or (goes_bind (List.getElem?_eq_getElem inside) ?_)
      cases last : s.inodes[ask.inode].accessCacheEntryLru.getLast? <;> rfl
  | compare ask cache =>
      have there := List.getElem?_eq_getElem (placed ask.inode (by simp [Point.inodes]))
      refine goes_or (goes_bind there ?_)
      split <;> rfl
  | search ask =>
      have inside := placed ask.inode (by simp [Point.inodes])
      refine goes_or (goes_bind (List.getElem?_eq_getElem inside) (goes_guard (unlocked inside) ?_))
      rcases found : s.inodes[ask.inode].nfsAccessGetCached tree s.jiffies ask.cred with ⟨inode, cached⟩
      cases cached <;> rfl
  | outStale ask cache => rfl
  | missed ask =>
      refine goes_or ?_
      rw [lookUp]
      split <;> rfl
  | access ask asked =>
      refine goes_or ?_
      rw [lookUp]
      cases given.reply with
      | ok access => rfl
      | error status =>
          dsimp only
          split <;> rfl
  | zapCaches ask =>
      have inside := placed ask.inode (by simp [Point.inodes])
      exact goes_or (goes_bind (List.getElem?_eq_getElem inside) (goes_guard (unlocked inside) rfl))
  | zapTest i ask =>
      have there := List.getElem?_eq_getElem (placed i (by simp [Point.inodes]))
      change ((zapCache tree s call (.zapTest i ask)).or _).isSome
      exact goes_or (goes_bind there rfl)
  | zapLru i ask =>
      have there := List.getElem?_eq_getElem (placed i (by simp [Point.inodes]))
      have lruFree := lru.resolve_right id
      change ((zapCache tree s call (.zapLru i ask)).or _).isSome
      exact goes_or (goes_bind there (goes_guard lruFree rfl))
  | zapInode i ask =>
      have inside := placed i (by simp [Point.inodes])
      change ((zapCache tree s call (.zapInode i ask)).or _).isSome
      exact goes_or (goes_bind (List.getElem?_eq_getElem inside) (goes_guard (unlocked inside) rfl))
  | zapEntries i ask head => exact zapEntries_goes (placed i (by simp [Point.inodes]))
  | zapFree ask head => cases head <;> rfl
  | add i set caller =>
      have inside := placed i (by simp [Point.inodes])
      change ((addCache tree s call given (.add i set caller)).or _).isSome
      refine goes_or ?_
      rw [addCache]
      cases given.memory with
      | false => rfl
      | true =>
          refine goes_bind (List.getElem?_eq_getElem inside) (goes_guard (unlocked inside) ?_)
          dsimp only
          split <;> rfl
  | found i set caller entry => rfl
  | account i set caller => rfl
  | addTest i set caller =>
      have there := List.getElem?_eq_getElem (placed i (by simp [Point.inodes]))
      change ((addCache tree s call given (.addTest i set caller)).or _).isSome
      refine goes_or (goes_bind there ?_)
      split <;> rfl
  | addLru i set caller =>
      have there := List.getElem?_eq_getElem (placed i (by simp [Point.inodes]))
      have lruFree := lru.resolve_right id
      change ((addCache tree s call given (.addLru i set caller)).or _).isSome
      exact goes_or (goes_bind there (goes_guard lruFree rfl))
  | shrink nrToScan =>
      have lruFree := lru.resolve_right id
      change (shrinkCache tree s call (.shrink nrToScan)).isSome
      exact goes_guard lruFree rfl
  | scan nrToScan nfsi next head =>
      change (shrinkCache tree s call (.scan nrToScan nfsi next head)).isSome
      cases nfsi with
      | none => rfl
      | some i =>
          have inside := cursor nrToScan i next head rfl
          rw [shrinkCache]
          by_cases enough : nrToScan = 0
          · rw [if_pos enough]
            rfl
          · rw [if_neg enough]
            exact goes_bind (List.getElem?_eq_getElem inside) (goes_guard (unlocked inside) rfl)
  | shrinkFree head => cases head <;> rfl
  | done => exact absurd rfl under

/-- As long as a call is under way, some call can go on: one that has an inode's lock, or else the one that
    has the list's, or else any. -/
theorem not_stuck (consistent : Consistent s) (placed : Placed s) (stuck : Stuck tree s) : AtRest s := by
  have waits {call : Nat} {point : Point} (here : s.calls[call]? = some point) :
      ¬(advance tree s call ⟨true, .ok 0⟩ point).isSome := by
    have ended := stuck call ⟨true, .ok 0⟩
    rw [step, here] at ended
    change advance tree s call _ point = none at ended
    rw [ended]
    exact Bool.false_ne_true
  have at_ {call : Nat} {point : Point} (here : s.calls[call]? = some point) :
      ∀ i ∈ point.inodes, i < s.inodes.length := placed point (List.mem_of_getElem? here)
  have cursor {call : Nat} {point : Point} (here : s.calls[call]? = some point) (nrToScan : Int) (i : Nat)
      (next : Option Nat) (head : List AccessEntry) (scans : point = .scan nrToScan (some i) next head) :
      i < s.inodes.length := by
    have first := (consistent.cursors call nrToScan i next head (scans ▸ here)).1
    obtain ⟨inode, there, -⟩ := (consistent.lruBits i).mp (List.mem_of_head? first)
    exact (List.getElem?_eq_some_iff.mp there).1
  have free : ∀ inode ∈ s.inodes, inode.iLock = none := by
    intro inode inside
    obtain ⟨i, there⟩ := List.getElem?_of_mem inside
    refine Option.eq_none_iff_forall_ne_some.mpr fun call holds => ?_
    obtain ⟨point, here, has⟩ := (consistent.iLocks i inode there call).mp holds
    cases point with
    | zapEntries j ask head => exact waits here (zapEntries_goes (at_ here j List.mem_cons_self))
    | _ => exact has
  have lruFree : s.nfsAccessLruLock = none := by
    refine Option.eq_none_iff_forall_ne_some.mpr fun call holds => ?_
    obtain ⟨point, here, has⟩ := (consistent.lruLock call).mp holds
    have under : point ≠ .done := by
      rintro rfl
      exact has
    exact waits here (advance_goes (at_ here) (cursor here) free (.inr has) under)
  intro point inside
  obtain ⟨call, here⟩ := List.getElem?_of_mem inside
  by_contra under
  exact waits here (advance_goes (at_ here) (cursor here) free (.inl lruFree) under)

/-! ### All calls return -/

theorem run_placed {inodes : List NewInode} {pressure : Int} {jiffies minAttrtimeo : Nat}
    {history : List Event}
    (run : History.HistoryRun (step tree) (State.start inodes pressure jiffies minAttrtimeo) history s) :
    Placed s :=
  @History.HistoryRun.invariant _ _ _ _ _ _ _ (fun _ s => Placed s) (fun _ among => by cases among)
    (fun _ _ _ _ _ before moved => stepped_placed before (stepped_of_step moved)) run

/-- Some steps of calls that are under way. -/
theorem turns_lessen (turns : List (Nat × Given)) (consistent : Consistent s) (placed : Placed s)
    (ran : replayFrom (step tree) s (turns.map fun turn => .go turn.1 turn.2) = some (s', events)) :
    turns.length + s'.work ≤ s.work ∧ Consistent s' ∧ Placed s' := by
  induction turns generalizing s events with
  | nil =>
      cases ran
      exact ⟨(Nat.zero_add _).le, consistent, placed⟩
  | cons turn rest inductionHypothesis =>
      obtain ⟨⟨next, first⟩, moved, after⟩ := Option.bind_eq_some_iff.mp ran
      obtain ⟨⟨last, later⟩, further, same⟩ := Option.map_eq_some_iff.mp after
      cases same
      have stepped := stepped_of_step moved
      obtain ⟨point, here, goes⟩ := Option.bind_eq_some_iff.mp moved
      have less := took_lessens consistent here (took_of_advance goes)
      obtain ⟨bound, consistent', placed'⟩ :=
        inductionHypothesis (stepped_consistent consistent stepped) (stepped_placed placed stepped) further
      refine ⟨?_, consistent', placed'⟩
      rw [List.length_cons]
      omega

/-- At every moment of every run, with any number of calls at a time: in whatever order those under way
    take their steps, there is a bound on how many they can take, and they do not come to a halt before all
    have returned; and then the cache has settled. -/
theorem calls_all_return {inodes : List NewInode} {pressure : Int} {jiffies minAttrtimeo : Nat}
    {history : List Event}
    (run : History.HistoryRun (step tree) (State.start inodes pressure jiffies minAttrtimeo) history s) :
    AllReturn tree s := by
  have before := run_consistent run
  have given := run_placed run
  constructor
  · intro turns s' events ran
    have bound := (turns_lessen turns before given ran).1
    omega
  · intro turns s' events ran stuck
    obtain ⟨-, consistent, placed⟩ := turns_lessen turns before given ran
    have rest := not_stuck consistent placed stuck
    exact ⟨rest, consistent.settled rest⟩

/-- Two calls for one user and the shrinker have just come. -/
theorem shared_calls_return :
    ∃ s : State, replayFrom (step SearchTree.unbalanced) sharedStart
        [.doAccess ⟨0, 7, mayRead⟩, .doAccess ⟨0, 7, mayRead⟩, .shrinker 1 true] =
          some (s, [.began 0 ⟨0, 7, mayRead⟩, .began 1 ⟨0, 7, mayRead⟩]) ∧
      s.work = 39 ∧ AllReturn SearchTree.unbalanced s := by
  have run := @History.HistoryRun.replay _ _ _ (step SearchTree.unbalanced) sharedStart
    [.doAccess ⟨0, 7, mayRead⟩, .doAccess ⟨0, 7, mayRead⟩, .shrinker 1 true] _ _ [] _
    History.HistoryRun.refl rfl
  exact ⟨_, rfl, rfl, calls_all_return run⟩

end Nfs4Compound.Access
