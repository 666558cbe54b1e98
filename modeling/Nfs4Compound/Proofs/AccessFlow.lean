/-
Module: Nfs4Compound.Proofs.AccessFlow
Layer: Proofs
Purpose: Where the entries of the access cache go in a step of a call: an inode with entries remains
  within the shrinker's reach, and no entry is lost or in two places.
Imports: Nfs4Compound.Proofs.AccessLocks
Trusted boundary: none
Main exports: took_listed, Flow, took_flow
-/
import Nfs4Compound.Proofs.AccessLocks

namespace Nfs4Compound.Access

open SearchTree (Balancing)

variable {tree : Balancing AccessEntry} {s s' : State} {call : Nat} {point point' : Point}
  {events : List Event} {inodes : List AccessInode} {calls : List Point} {lru : List Nat} {i : Nat}
  {old new : AccessInode}

/-! ### The shrinker finds every entry -/

theorem mem_set_of_some {α : Type} {members : List α} {k : Nat} {old new member : α}
    (here : members[k]? = some old) (inside : member ∈ members) : member ∈ members.set k new ∨ member = old := by
  obtain ⟨j, found⟩ := List.getElem?_of_mem inside
  by_cases this : j = k
  · rw [this, here] at found
    exact .inr (Option.some.inj found).symm
  · have kept : (members.set k new)[j]? = some member := by
      rw [getElem?_set_of_some new here, if_neg this, found]
    exact .inl (List.mem_of_getElem? kept)

theorem mem_set_self {α : Type} {members : List α} {k : Nat} {old new : α} (here : members[k]? = some old) :
    new ∈ members.set k new := by
  have now : (members.set k new)[k]? = some new := by rw [getElem?_set_of_some new here, if_pos rfl]
  exact List.mem_of_getElem? now

/-- The call that had promised to list an inode goes on; either it still will, or the inode is listed or
    has no entries. -/
theorem Listed.keep (listed : Listed inodes calls) (here : calls[call]? = some point)
    (keeps : ∀ j, point.WillList j → point'.WillList j ∨
      ∀ inode : AccessInode, inodes[j]? = some inode →
        inode.accessCacheEntryLru = [] ∨ inode.aclLruSet = true) :
    Listed inodes (calls.set call point') := by
  intro j inode found entries
  rcases listed j inode found entries with set | ⟨other, inside, will⟩
  · exact .inl set
  · rcases mem_set_of_some here inside with stays | rfl
    · exact .inr ⟨other, stays, will⟩
    · rcases keeps j will with still | settled
      · exact .inr ⟨point', mem_set_self here, still⟩
      · exact .inl ((settled inode found).resolve_left entries)

/-- An inode changes, and has entries only if it had some before, or has no need of a promise. -/
theorem Listed.set (listed : Listed inodes calls) (there : inodes[i]? = some old)
    (keeps : new.accessCacheEntryLru ≠ [] →
      (old.accessCacheEntryLru ≠ [] ∧ new.aclLruSet = old.aclLruSet) ∨ new.aclLruSet = true ∨
        ∃ point ∈ calls, point.WillList i) : Listed (inodes.set i new) calls := by
  intro j inode found entries
  rw [getElem?_set_of_some new there] at found
  split at found
  · rename_i this
    cases found
    subst this
    rcases keeps entries with ⟨before, same⟩ | set | promised
    · rw [same]
      exact listed j old there before
    · exact .inl set
    · exact .inr promised
  · exact listed j inode found entries

/-- What has been taken out was there. -/
theorem ne_nil_of_unhook {cache : AccessEntry}
    (entries : (old.unhook tree cache).accessCacheEntryLru ≠ []) : old.accessCacheEntryLru ≠ [] := by
  rintro empty
  apply entries
  change old.accessCacheEntryLru.erase cache = []
  rw [empty, List.erase_nil]

theorem took_listed (listed : Listed s.inodes s.calls) (consistent : ∀ inode ∈ s.inodes, inode.Consistent)
    (here : s.calls[call]? = some point) (took : Took tree s call point s' events) :
    Listed s'.inodes s'.calls := by
  cases took with
  | @outStale ask cache inode there _ _ =>
      have kept : Listed (s.inodes.set ask.inode (inode.unhook tree cache)) s.calls :=
        listed.set there fun entries => .inl ⟨ne_nil_of_unhook entries, rfl⟩
      exact kept.keep here fun _ => False.elim
  | @hit ask cache inode there _ _ found =>
      have inside := (AccessInode.nfsAccessSearchRbtree_eq_some
        (consistent inode (List.mem_of_getElem? there)) found).1
      have kept : Listed (s.inodes.set ask.inode
          { inode with accessCacheEntryLru := inode.accessCacheEntryLru.erase cache ++ [cache] }) s.calls :=
        listed.set there fun _ => .inl ⟨List.ne_nil_of_mem inside, rfl⟩
      exact kept.keep here fun _ => False.elim
  | @zapCaches ask inode there _ =>
      have kept : Listed (s.inodes.set ask.inode
          { inode with attrtimeo := s.minAttrtimeo, invalidAccess := true }) s.calls :=
        listed.set there fun entries => .inl ⟨entries, rfl⟩
      exact kept.keep here fun _ => False.elim
  | @zapListed i ask inode there _ _ =>
      have promised : Listed s.inodes (s.calls.set call (.zapInode i ask)) :=
        listed.keep here fun _ => False.elim
      exact promised.set there fun _ => .inr (.inr ⟨_, mem_set_self here, rfl⟩)
  | @zapInode i ask inode there _ =>
      have kept : Listed (s.inodes.set i { inode with iLock := some call }) s.calls :=
        listed.set there fun entries => .inl ⟨entries, rfl⟩
      exact kept.keep here fun _ same => .inl same
  | @zapEntry i ask head entry inode inode' there first =>
      obtain ⟨-, rfl⟩ := AccessInode.unhookFirst_eq_some (consistent inode (List.mem_of_getElem? there)) first
      have kept : Listed (s.inodes.set i (inode.unhook tree entry)) s.calls :=
        listed.set there fun entries => .inl ⟨ne_nil_of_unhook entries, rfl⟩
      exact kept.keep here fun _ same => .inl same
  | @zapped i ask head inode there empty =>
      have nothing := AccessInode.unhookFirst_eq_none (consistent inode (List.mem_of_getElem? there)) empty
      have kept : Listed (s.inodes.set i { inode with invalidAccess := false, iLock := none }) s.calls :=
        listed.set there fun entries => .inl ⟨entries, rfl⟩
      refine kept.keep here fun j same => .inr fun other found => .inl ?_
      rw [getElem?_set_of_some _ there, if_pos (Eq.symm same)] at found
      cases found
      exact nothing
  | @inserted i set caller inode there _ _ =>
      have promised : Listed s.inodes (s.calls.set call (.account i set caller)) :=
        listed.keep here fun _ => False.elim
      exact promised.set there fun _ => .inr (.inr ⟨_, mem_set_self here, rfl⟩)
  | @replaced i set caller inode entry there _ _ =>
      have promised : Listed s.inodes (s.calls.set call (.found i set caller entry)) :=
        listed.keep here fun _ => False.elim
      exact promised.set there fun _ => .inr (.inr ⟨_, mem_set_self here, rfl⟩)
  | @listedAlready i _ _ inode there isListed =>
      refine listed.keep here fun j same => .inr fun other found => .inr ?_
      have this : i = j := same
      rw [← this, there] at found
      cases found
      exact isListed
  | @listedMeanwhile i _ _ inode there isListed =>
      refine listed.keep here fun j same => .inr fun other found => .inr ?_
      have this : i = j := same
      rw [← this, there] at found
      cases found
      exact isListed
  | @addLru i _ _ inode there _ _ =>
      have kept : Listed (s.inodes.set i { inode with aclLruSet := true }) s.calls :=
        listed.set there fun _ => .inr (.inl rfl)
      refine kept.keep here fun j same => .inr fun other found => .inr ?_
      rw [getElem?_set_of_some _ there, if_pos (Eq.symm same)] at found
      cases found
      rfl
  | @scanKeeps _ i _ _ _ cache inode there _ _ _ =>
      have kept : Listed (s.inodes.set i (inode.unhook tree cache)) s.calls :=
        listed.set there fun entries => .inl ⟨ne_nil_of_unhook entries, rfl⟩
      exact kept.keep here fun _ => False.elim
  | @scanDrops _ i _ _ _ inode inode' there _ gone =>
      have empty : inode'.accessCacheEntryLru = [] := by
        rcases gone with ⟨-, empty, rfl⟩ | ⟨cache, -, whole, rfl⟩
        · exact empty
        · exact AccessInode.unhook_first tree whole
      have kept : Listed (s.inodes.set i inode') s.calls :=
        listed.set there fun entries => absurd empty entries
      exact kept.keep here fun _ => False.elim
  | gaveUp asking =>
      rcases asking with rfl | ⟨asked, rfl⟩ <;> exact listed.keep here fun _ => False.elim
  | freeReplaced => exact listed.keep here fun _ same => .inl same
  | account => exact listed.keep here fun _ same => .inl same
  | addTest => exact listed.keep here fun _ same => .inl same
  | _ => exact listed.keep here fun _ => False.elim

/-! ### The entries -/

/-- What a step does to the entries: these are brought in, and those are freed. -/
structure Flow (s s' : State) (brought gone : List AccessEntry) : Prop where
  balance : ∀ weight, s'.load weight + tally weight gone = s.load weight + tally weight brought
  freed : s'.freed = gone.map (·.number) ++ s.freed
  allocated : brought = [] ∧ s'.allocated = s.allocated ∨
    ∃ set : Rights, brought = [{ set with number := s.allocated }] ∧ s'.allocated = s.allocated + 1
  count : s'.nfsAccessNrEntries + gone.length + tally Point.uncounted s'.calls =
    s.nfsAccessNrEntries + brought.length + tally Point.uncounted s.calls

section Steps

variable {lock : Option Nat}

/-- A call goes on with the same entries in its hands. -/
theorem Flow.passes (here : s.calls[call]? = some point) (held : point'.held = point.held)
    (uncounted : point'.uncounted = point.uncounted) :
    Flow s ({ s with nfsAccessLruLock := lock, nfsAccessLruList := lru }.goOn call point') [] [] where
  balance := fun weight => by
    have same : tally (fun point => tally weight point.held) (s.calls.set call point') =
        tally (fun point => tally weight point.held) s.calls := tally_set_of_eq here (by rw [held])
    change tally _ s.inodes + tally _ (s.calls.set call point') + _ = _
    rw [same]
    rfl
  freed := rfl
  allocated := .inl ⟨rfl, rfl⟩
  count := by
    have same : tally Point.uncounted (s.calls.set call point') = tally Point.uncounted s.calls :=
      tally_set_of_eq here uncounted
    change s.nfsAccessNrEntries + _ + (tally Point.uncounted (s.calls.set call point') : Int) = _
    rw [same]

/-- Under `i_lock` a call changes the cache of an inode, takes entries out of it, and goes on with them in
    its hands. -/
theorem Flow.exchange {taken : List AccessEntry} (there : s.inodes[i]? = some old)
    (moved : (taken ++ new.accessCacheEntryLru).Perm old.accessCacheEntryLru)
    (here : s.calls[call]? = some point) (held : point'.held = taken ++ point.held)
    (uncounted : point'.uncounted = point.uncounted) :
    Flow s ({ s.setInode i new with nfsAccessLruLock := lock, nfsAccessLruList := lru }.goOn call point')
      [] [] where
  balance := fun weight => by
    have inodes := @tally_set _ (fun inode => tally weight inode.accessCacheEntryLru) s.inodes i old new there
    have calls := @tally_set _ (fun point => tally weight point.held) s.calls call point point' here
    have same := tally_perm weight moved
    rw [tally_append] at same
    rw [held, tally_append] at calls
    change tally _ (s.inodes.set i new) + tally _ (s.calls.set call point') + 0 = s.load weight + 0
    rw [State.load]
    omega
  freed := rfl
  allocated := .inl ⟨rfl, rfl⟩
  count := by
    have same : tally Point.uncounted (s.calls.set call point') = tally Point.uncounted s.calls :=
      tally_set_of_eq here uncounted
    change s.nfsAccessNrEntries + _ + (tally Point.uncounted (s.calls.set call point') : Int) = _
    rw [same]

/-- A call frees the first of the entries in its hands. -/
theorem Flow.frees {entry : AccessEntry} (here : s.calls[call]? = some point)
    (held : point.held = entry :: point'.held) (uncounted : point'.uncounted = point.uncounted) :
    Flow s ((s.nfsAccessFreeEntry entry).goOn call point') [] [entry] where
  balance := fun weight => by
    have calls := @tally_set _ (fun point => tally weight point.held) s.calls call point point' here
    rw [held, tally_cons] at calls
    change tally _ s.inodes + tally _ (s.calls.set call point') + tally weight [entry] = s.load weight + 0
    rw [State.load, tally_cons, tally_nil]
    omega
  freed := rfl
  allocated := .inl ⟨rfl, rfl⟩
  count := by
    have same : tally Point.uncounted (s.calls.set call point') = tally Point.uncounted s.calls :=
      tally_set_of_eq here uncounted
    change s.nfsAccessNrEntries - 1 + (1 : Int) + (tally Point.uncounted (s.calls.set call point') : Int) =
      s.nfsAccessNrEntries + 0 + _
    rw [same]
    omega

/-- A call allocates an entry and puts it into a cache. -/
theorem Flow.inserts {set : Rights} (there : s.inodes[i]? = some old) (consistent : old.Consistent)
    (here : s.calls[call]? = some point) (empty : point.held = []) (before : point.uncounted = 0)
    (held : point'.held = (old.nfsAccessAddRbtree tree { set with number := s.allocated }).2.toList)
    (uncounted : point'.uncounted = 1) :
    Flow s ((({ s with allocated := s.allocated + 1 }).setInode i
      (old.nfsAccessAddRbtree tree { set with number := s.allocated }).1).goOn call point')
      [{ set with number := s.allocated }] [] where
  balance := fun weight => by
    have moved := tally_perm weight
      (AccessInode.nfsAccessAddRbtree_perm tree { set with number := s.allocated } consistent)
    rw [tally_append, tally_cons, ← held] at moved
    have inodes := @tally_set _ (fun inode => tally weight inode.accessCacheEntryLru) s.inodes i old
      (old.nfsAccessAddRbtree tree { set with number := s.allocated }).1 there
    have calls := @tally_set _ (fun point => tally weight point.held) s.calls call point point' here
    rw [empty, tally_nil] at calls
    change tally _ (s.inodes.set i _) + tally _ (s.calls.set call point') + 0 = s.load weight + tally weight [_]
    rw [State.load, tally_cons, tally_nil]
    omega
  freed := rfl
  allocated := .inr ⟨set, rfl, rfl⟩
  count := by
    have calls := @tally_set _ Point.uncounted s.calls call point point' here
    rw [before, uncounted] at calls
    change s.nfsAccessNrEntries + 0 + (tally Point.uncounted (s.calls.set call point') : Int) =
      s.nfsAccessNrEntries + 1 + (tally Point.uncounted s.calls : Int)
    omega

/-- A call takes one entry out of a cache. -/
theorem Flow.takes {entry : AccessEntry} (there : s.inodes[i]? = some old)
    (inside : entry ∈ old.accessCacheEntryLru)
    (without : new.accessCacheEntryLru = old.accessCacheEntryLru.erase entry)
    (here : s.calls[call]? = some point) (held : point'.held = entry :: point.held)
    (uncounted : point'.uncounted = point.uncounted) :
    Flow s ({ s.setInode i new with nfsAccessLruLock := lock, nfsAccessLruList := lru }.goOn call point')
      [] [] := by
  have moved : ([entry] ++ new.accessCacheEntryLru).Perm old.accessCacheEntryLru := by
    rw [without]
    exact (List.perm_cons_erase inside).symm
  exact Flow.exchange there moved here held uncounted

/-- A call changes an inode, but none of its entries comes or goes. -/
theorem Flow.keepsAll (there : s.inodes[i]? = some old)
    (same : new.accessCacheEntryLru.Perm old.accessCacheEntryLru)
    (here : s.calls[call]? = some point) (held : point'.held = point.held)
    (uncounted : point'.uncounted = point.uncounted) :
    Flow s ({ s.setInode i new with nfsAccessLruLock := lock, nfsAccessLruList := lru }.goOn call point')
      [] [] := by
  have moved : ([] ++ new.accessCacheEntryLru).Perm old.accessCacheEntryLru := same
  exact Flow.exchange there moved here held uncounted

theorem Flow.keeps (there : s.inodes[i]? = some old)
    (same : new.accessCacheEntryLru = old.accessCacheEntryLru)
    (here : s.calls[call]? = some point) (held : point'.held = point.held)
    (uncounted : point'.uncounted = point.uncounted) :
    Flow s ({ s.setInode i new with nfsAccessLruLock := lock, nfsAccessLruList := lru }.goOn call point')
      [] [] := Flow.keepsAll there (same ▸ List.Perm.refl _) here held uncounted

/-- A call counts the entry it has put into a cache. -/
theorem Flow.counts {set : Rights} {caller : Caller} (here : s.calls[call]? = some (.account i set caller)) :
    Flow s (({ s with nfsAccessNrEntries := s.nfsAccessNrEntries + 1 }).goOn call (.addTest i set caller))
      [] [] where
  balance := fun weight => by
    have same : tally (fun point => tally weight point.held) (s.calls.set call (.addTest i set caller)) =
        tally (fun point => tally weight point.held) s.calls := tally_set_of_eq here rfl
    change tally _ s.inodes + tally _ (s.calls.set call _) + _ = _
    rw [same]
    rfl
  freed := rfl
  allocated := .inl ⟨rfl, rfl⟩
  count := by
    have calls := @tally_set _ Point.uncounted s.calls call _ (.addTest i set caller) here
    change _ + 1 = _ + 0 at calls
    change s.nfsAccessNrEntries + 1 + 0 + (tally Point.uncounted (s.calls.set call _) : Int) =
      s.nfsAccessNrEntries + 0 + (tally Point.uncounted s.calls : Int)
    omega

end Steps

theorem took_flow (consistent : ∀ inode ∈ s.inodes, inode.Consistent) (here : s.calls[call]? = some point)
    (took : Took tree s call point s' events) : ∃ brought gone, Flow s s' brought gone := by
  have at_ {i : Nat} {inode : AccessInode} (there : s.inodes[i]? = some inode) : inode.Consistent :=
    consistent inode (List.mem_of_getElem? there)
  cases took with
  | outStale there _ found =>
      have inside := (AccessInode.nfsAccessSearchRbtree_eq_some (at_ there) found).1
      exact ⟨[], [], Flow.takes there inside rfl here rfl rfl⟩
  | hit there _ _ found =>
      have inside := (AccessInode.nfsAccessSearchRbtree_eq_some (at_ there) found).1
      exact ⟨[], [], Flow.keepsAll there (AccessInode.used_perm inside) here rfl rfl⟩
  | freeStale => exact ⟨[], [_], Flow.frees here rfl rfl⟩
  | gaveUp asking =>
      rcases asking with rfl | ⟨asked, rfl⟩ <;> exact ⟨[], [], Flow.passes here rfl rfl⟩
  | zapCaches there _ => exact ⟨[], [], Flow.keeps there rfl here rfl rfl⟩
  | @zapNothing _ ask => cases ask <;> exact ⟨[], [], Flow.passes here rfl rfl⟩
  | zapListed there _ _ => exact ⟨[], [], Flow.keeps there rfl here rfl rfl⟩
  | zapInode there _ => exact ⟨[], [], Flow.keeps there rfl here rfl rfl⟩
  | zapEntry there first =>
      obtain ⟨inside, rfl⟩ := AccessInode.unhookFirst_eq_some (at_ there) first
      exact ⟨[], [], Flow.takes there inside rfl here rfl rfl⟩
  | zapped there _ => exact ⟨[], [], Flow.keeps there rfl here rfl rfl⟩
  | @zapFreed ask => cases ask <;> exact ⟨[], [], Flow.passes here rfl rfl⟩
  | zapFree => exact ⟨[], [_], Flow.frees here rfl rfl⟩
  | inserted there _ absent => exact ⟨[_], [], Flow.inserts there (at_ there) here rfl rfl (by rw [absent]; rfl) rfl⟩
  | replaced there _ found => exact ⟨[_], [], Flow.inserts there (at_ there) here rfl rfl (by rw [found]; rfl) rfl⟩
  | @freeReplaced i set caller entry =>
      exact ⟨[], [_], Flow.frees here rfl rfl⟩
  | account => exact ⟨[], [], Flow.counts here⟩
  | addLru there _ _ => exact ⟨[], [], Flow.keeps there rfl here rfl rfl⟩
  | scanKeeps there _ whole _ =>
      have inside := whole ▸ List.mem_cons_self
      exact ⟨[], [], Flow.takes there inside rfl here rfl rfl⟩
  | scanDrops there _ gone =>
      rcases gone with ⟨rfl, -, rfl⟩ | ⟨cache, rfl, whole, rfl⟩
      · exact ⟨[], [], Flow.keeps there rfl here rfl rfl⟩
      · exact ⟨[], [], Flow.takes there (whole ▸ List.mem_cons_self) rfl here rfl rfl⟩
  | shrinkFree => exact ⟨[], [_], Flow.frees here rfl rfl⟩
  | _ => exact ⟨[], [], Flow.passes here rfl rfl⟩

end Nfs4Compound.Access
