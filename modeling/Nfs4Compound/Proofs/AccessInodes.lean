/-
Module: Nfs4Compound.Proofs.AccessInodes
Layer: Proofs
Purpose: What the sections under `i_lock` do to the access cache of one inode: the tree and the list go on
  having the same entries, in the tree's order, and which entries come in and go out.
Imports: Nfs4Compound.Access.Invariant
Trusted boundary: none
Main exports: unhook_consistent, nfsAccessGetCached_cases, nfsAccessAddRbtree_cases, reclaimOldest_cases,
  unhookFirst_eq_some, unhookFirst_eq_none
-/
import Nfs4Compound.Access.Invariant
import Mathlib.Data.Nat.Basic

namespace Nfs4Compound.Access

open SearchTree (Balancing inorder Ordered search)

namespace AccessInode

variable {tree : Balancing AccessEntry} {inode inode' : AccessInode} {cache set : AccessEntry}
  {jiffies : Nat} {cred : Cred}

/-- What a search finds is in the list. -/
theorem nfsAccessSearchRbtree_eq_some (consistent : inode.Consistent)
    (found : inode.nfsAccessSearchRbtree cred = some cache) :
    cache ∈ inode.accessCacheEntryLru ∧ cache.cred = cred := by
  obtain ⟨inTree, same⟩ := (SearchTree.search_eq_some_iff consistent.ordered).mp found
  exact ⟨consistent.listed.mem_iff.mpr inTree, same⟩

/-- A search finds the one entry with the credentials. -/
theorem nfsAccessSearchRbtree_eq_none (consistent : inode.Consistent)
    (absent : inode.nfsAccessSearchRbtree cred = none) :
    ∀ cache ∈ inode.accessCacheEntryLru, cache.cred ≠ cred := fun cache inList =>
  (SearchTree.search_eq_none_iff consistent.ordered).mp absent cache (consistent.listed.mem_iff.mp inList)

theorem eq_of_cred_eq {cache' : AccessEntry} (consistent : inode.Consistent)
    (inside : cache ∈ inode.accessCacheEntryLru) (inside' : cache' ∈ inode.accessCacheEntryLru)
    (same : cache.cred = cache'.cred) : cache = cache' :=
  SearchTree.eq_of_key_eq consistent.ordered (consistent.listed.mem_iff.mp inside)
    (consistent.listed.mem_iff.mp inside') same

theorem entries_nodup (consistent : inode.Consistent) : inode.accessCacheEntryLru.Nodup :=
  consistent.listed.nodup_iff.mpr (consistent.ordered.imp fun small same => absurd (same ▸ small) (lt_irrefl _))

theorem unhook_consistent (consistent : inode.Consistent) : (inode.unhook tree cache).Consistent where
  ordered := by
    rw [Ordered, unhook, tree.inorder_erase]
    exact consistent.ordered.sublist List.erase_sublist
  listed := by
    rw [unhook, tree.inorder_erase]
    exact consistent.listed.erase cache

/-- The four ways of `nfs_access_get_cached`. -/
theorem nfsAccessGetCached_cases {found : Cached}
    (ran : inode.nfsAccessGetCached tree jiffies cred = (inode', found)) :
    (found = .outZap ∧ inode.invalidAccess = true) ∨
    (found = .missing ∧ inode.invalidAccess = false) ∨
    (∃ cache, found = .outStale cache ∧ inode.nfsAccessSearchRbtree cred = some cache ∧
      inode' = inode.unhook tree cache) ∨
    ∃ cache, found = .hit cache ∧ inode.invalidAccess = false ∧
      inode.nfsAccessSearchRbtree cred = some cache ∧
      inode' = { inode with accessCacheEntryLru := inode.accessCacheEntryLru.erase cache ++ [cache] } := by
  rw [nfsAccessGetCached] at ran
  split at ran
  · rename_i invalid
    cases ran
    exact .inl ⟨rfl, invalid⟩
  · rename_i valid
    have clear : inode.invalidAccess = false := by simpa using valid
    split at ran
    · cases ran
      exact .inr (.inl ⟨rfl, clear⟩)
    · rename_i cache search
      split at ran
      · cases ran
        exact .inr (.inr (.inl ⟨cache, rfl, search, rfl⟩))
      · cases ran
        exact .inr (.inr (.inr ⟨cache, rfl, clear, search, rfl⟩))

theorem used_perm (inside : cache ∈ inode.accessCacheEntryLru) :
    (inode.accessCacheEntryLru.erase cache ++ [cache]).Perm inode.accessCacheEntryLru :=
  (List.perm_append_singleton cache _).trans (List.perm_cons_erase inside).symm

theorem used_consistent (consistent : inode.Consistent) (inside : cache ∈ inode.accessCacheEntryLru) :
    ({ inode with
      accessCacheEntryLru := inode.accessCacheEntryLru.erase cache ++ [cache] } : AccessInode).Consistent where
  ordered := consistent.ordered
  listed := (used_perm inside).trans consistent.listed

/-- A new entry is all that comes in, and the entry with its credentials is all that goes out. -/
theorem nfsAccessAddRbtree_perm (tree : Balancing AccessEntry) (set : AccessEntry)
    (consistent : inode.Consistent) :
    ((inode.nfsAccessAddRbtree tree set).2.toList ++
        (inode.nfsAccessAddRbtree tree set).1.accessCacheEntryLru).Perm
      (set :: inode.accessCacheEntryLru) := by
  rw [nfsAccessAddRbtree]
  cases search : inode.nfsAccessSearchRbtree set.cred with
  | none => exact List.perm_append_singleton set _
  | some entry =>
      have inside := (nfsAccessSearchRbtree_eq_some consistent search).1
      have back := List.perm_cons_erase (List.mem_append_left [set] inside)
      exact back.symm.trans (List.perm_append_singleton set _)

theorem nfsAccessAddRbtree_consistent (consistent : inode.Consistent) :
    (inode.nfsAccessAddRbtree tree set).1.Consistent := by
  rw [nfsAccessAddRbtree]
  cases search : inode.nfsAccessSearchRbtree set.cred with
  | none =>
      obtain ⟨before, after, whole, linked, -⟩ := SearchTree.inorder_link consistent.ordered search
      constructor
      · rw [Ordered, tree.inorder_insertColor]
        exact SearchTree.ordered_link consistent.ordered search
      · change (inode.accessCacheEntryLru ++ [set]).Perm (inorder (tree.insertColor _))
        rw [tree.inorder_insertColor, linked]
        have inserted := (whole ▸ consistent.listed).cons set
        exact (List.perm_append_singleton set _).trans (inserted.trans List.perm_middle.symm)
  | some entry =>
      obtain ⟨before, after, whole, replaced⟩ := SearchTree.inorder_replace search
      have inside := (nfsAccessSearchRbtree_eq_some consistent search).1
      constructor
      · exact SearchTree.ordered_replace consistent.ordered search
      · change ((inode.accessCacheEntryLru ++ [set]).erase entry).Perm (inorder (SearchTree.replace _ set _))
        rw [replaced, List.erase_append_left _ inside]
        have rest : (inode.accessCacheEntryLru.erase entry).Perm (before ++ after) := by
          have exchanged := consistent.listed.erase entry
          rw [whole] at exchanged
          have middle : (before ++ entry :: after).Perm (entry :: (before ++ after)) := List.perm_middle
          have out := middle.erase entry
          rw [List.erase_cons_head] at out
          exact exchanged.trans out
        exact (List.perm_append_singleton set _).trans ((rest.cons set).trans List.perm_middle.symm)

/-- The flags and the lock stay as they are. -/
theorem nfsAccessAddRbtree_same (tree : Balancing AccessEntry) (inode : AccessInode) (set : AccessEntry) :
    (inode.nfsAccessAddRbtree tree set).1.iLock = inode.iLock ∧
      (inode.nfsAccessAddRbtree tree set).1.aclLruSet = inode.aclLruSet ∧
        (inode.nfsAccessAddRbtree tree set).1.invalidAccess = inode.invalidAccess := by
  rw [nfsAccessAddRbtree]
  split <;> exact ⟨rfl, rfl, rfl⟩

/-- What the shrinker does with an inode: it takes the entry used longest ago, and keeps the inode on the
    list if there is another one. -/
theorem reclaimOldest_cases {taken : Option AccessEntry} {stays : Bool}
    (ran : inode.reclaimOldest tree = (inode', taken, stays)) :
    (taken = none ∧ stays = false ∧ inode.accessCacheEntryLru = [] ∧
      inode' = { inode with aclLruSet := false }) ∨
    ∃ cache rest, inode.accessCacheEntryLru = cache :: rest ∧ taken = some cache ∧
      ((rest = [] ∧ stays = false ∧ inode' = { inode.unhook tree cache with aclLruSet := false }) ∨
        (rest ≠ [] ∧ stays = true ∧ inode' = inode.unhook tree cache)) := by
  rw [reclaimOldest] at ran
  split at ran
  · rename_i empty
    cases ran
    exact .inl ⟨rfl, rfl, empty, rfl⟩
  · rename_i cache rest whole
    refine .inr ⟨cache, rest, whole, ?_⟩
    dsimp only at ran
    split at ran
    · rename_i last
      cases ran
      exact ⟨rfl, .inl ⟨last, rfl, rfl⟩⟩
    · rename_i more
      cases ran
      exact ⟨rfl, .inr ⟨more, rfl, rfl⟩⟩

theorem unhook_first (tree : Balancing AccessEntry) {rest : List AccessEntry} (whole : inode.accessCacheEntryLru = cache :: rest) :
    (inode.unhook tree cache).accessCacheEntryLru = rest := by
  rw [unhook, whole, List.erase_cons_head]

theorem unhookFirst_eq_some (consistent : inode.Consistent)
    (ran : inode.unhookFirst tree = some (inode', cache)) :
    cache ∈ inode.accessCacheEntryLru ∧ inode' = inode.unhook tree cache := by
  obtain ⟨entry, leftmost, same⟩ := Option.map_eq_some_iff.mp ran
  cases same
  rw [SearchTree.first_eq_head?] at leftmost
  exact ⟨consistent.listed.mem_iff.mpr (List.mem_of_head? leftmost), rfl⟩

theorem unhookFirst_eq_none (consistent : inode.Consistent) (ran : inode.unhookFirst tree = none) :
    inode.accessCacheEntryLru = [] := by
  rw [unhookFirst, Option.map_eq_none_iff, SearchTree.first_eq_head?, List.head?_eq_none_iff] at ran
  have listed := consistent.listed
  rw [ran] at listed
  exact listed.eq_nil

end AccessInode

end Nfs4Compound.Access
