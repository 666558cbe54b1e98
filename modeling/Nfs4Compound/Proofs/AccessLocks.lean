/-
Module: Nfs4Compound.Proofs.AccessLocks
Layer: Proofs
Purpose: What a step of a call of the access cache keeps of the inodes, of the two kinds of locks, and of
  the list of inodes that the shrinker goes through.
Imports: Nfs4Compound.Proofs.AccessSteps
Trusted boundary: none
Main exports: took_inodes, took_lruLock, took_iLocks, took_lru, took_cursors
-/
import Nfs4Compound.Proofs.AccessSteps

namespace Nfs4Compound.Access

open SearchTree (Balancing)

variable {tree : Balancing AccessEntry} {s s' : State} {call : Nat} {point point' : Point}
  {events : List Event} {inodes : List AccessInode} {calls : List Point} {lru : List Nat} {i : Nat}
  {old new : AccessInode}

/-! ### The inodes -/

theorem forall_mem_set {α : Type} {holds : α → Prop} {members : List α} {new : α}
    (all : ∀ member ∈ members, holds member) (this : holds new) :
    ∀ member ∈ members.set i new, holds member := fun member inside => by
  rcases List.mem_or_eq_of_mem_set inside with before | rfl
  · exact all member before
  · exact this

/-- The tree and the list of every inode stay together. -/
theorem took_inodes (consistent : ∀ inode ∈ s.inodes, inode.Consistent)
    (took : Took tree s call point s' events) : ∀ inode ∈ s'.inodes, inode.Consistent := by
  have at_ {i : Nat} {inode : AccessInode} (here : s.inodes[i]? = some inode) : inode.Consistent :=
    consistent inode (List.mem_of_getElem? here)
  cases took with
  | outStale here _ _ => exact forall_mem_set consistent (AccessInode.unhook_consistent (at_ here))
  | hit here _ _ found =>
      have inside := (AccessInode.nfsAccessSearchRbtree_eq_some (at_ here) found).1
      exact forall_mem_set consistent (AccessInode.used_consistent (at_ here) inside)
  | zapCaches here _ => exact forall_mem_set consistent ⟨(at_ here).ordered, (at_ here).listed⟩
  | zapListed here _ _ => exact forall_mem_set consistent ⟨(at_ here).ordered, (at_ here).listed⟩
  | zapInode here _ => exact forall_mem_set consistent ⟨(at_ here).ordered, (at_ here).listed⟩
  | zapEntry here first =>
      obtain ⟨-, rfl⟩ := AccessInode.unhookFirst_eq_some (at_ here) first
      exact forall_mem_set consistent (AccessInode.unhook_consistent (at_ here))
  | zapped here _ => exact forall_mem_set consistent ⟨(at_ here).ordered, (at_ here).listed⟩
  | inserted here _ _ => exact forall_mem_set consistent (AccessInode.nfsAccessAddRbtree_consistent (at_ here))
  | replaced here _ _ => exact forall_mem_set consistent (AccessInode.nfsAccessAddRbtree_consistent (at_ here))
  | addLru here _ _ => exact forall_mem_set consistent ⟨(at_ here).ordered, (at_ here).listed⟩
  | scanKeeps here _ _ _ => exact forall_mem_set consistent (AccessInode.unhook_consistent (at_ here))
  | scanDrops here _ gone =>
      rcases gone with ⟨-, -, rfl⟩ | ⟨cache, -, -, rfl⟩
      · exact forall_mem_set consistent ⟨(at_ here).ordered, (at_ here).listed⟩
      · have without : (AccessInode.unhook tree _ cache).Consistent :=
          AccessInode.unhook_consistent (at_ here)
        exact forall_mem_set consistent ⟨without.ordered, without.listed⟩
  | _ => exact consistent

/-! ### The locks -/

theorem took_lruLock (held : Held Point.HasLruLock s.nfsAccessLruLock s.calls)
    (here : s.calls[call]? = some point) (took : Took tree s call point s' events) :
    Held Point.HasLruLock s'.nfsAccessLruLock s'.calls := by
  cases took with
  | zapListed _ free _ =>
      rw [free] at held
      exact held.take here trivial
  | zapUnlisted _ free _ =>
      rw [free] at held
      exact held.take here trivial
  | shrink free =>
      rw [free] at held
      exact held.take here trivial
  | zapped _ _ => exact held.release here trivial id
  | scanned => exact held.release here trivial id
  | gaveUp asking =>
      rcases asking with rfl | ⟨asked, rfl⟩ <;> exact held.keep here Iff.rfl
  | @zapNothing _ ask => cases ask <;> exact held.keep here Iff.rfl
  | @zapFreed ask => cases ask <;> exact held.keep here Iff.rfl
  | _ => exact held.keep here Iff.rfl

theorem ILocks.keep (locks : ILocks inodes calls) (here : calls[call]? = some point)
    (same : ∀ i, point'.HasILock i ↔ point.HasILock i) : ILocks inodes (calls.set call point') :=
  fun i inode found => (locks i inode found).keep here (same i)

theorem ILocks.set (locks : ILocks inodes calls) (there : inodes[i]? = some old)
    (same : new.iLock = old.iLock) : ILocks (inodes.set i new) calls := by
  intro j inode found
  rw [getElem?_set_of_some new there] at found
  split at found
  · rename_i this
    cases found
    rw [this, same]
    exact locks i old there
  · exact locks j inode found

theorem ILocks.setKeep (locks : ILocks inodes calls) (here : calls[call]? = some point)
    (there : inodes[i]? = some old) (sameLock : new.iLock = old.iLock)
    (same : ∀ i, point'.HasILock i ↔ point.HasILock i) :
    ILocks (inodes.set i new) (calls.set call point') := (locks.set there sameLock).keep here same

theorem took_iLocks (locks : ILocks s.inodes s.calls) (here : s.calls[call]? = some point)
    (consistent : ∀ inode ∈ s.inodes, inode.Consistent)
    (took : Took tree s call point s' events) : ILocks s'.inodes s'.calls := by
  cases took with
  | outStale there _ _ => exact locks.setKeep here there rfl fun _ => Iff.rfl
  | hit there _ _ _ => exact locks.setKeep here there rfl fun _ => Iff.rfl
  | zapCaches there _ => exact locks.setKeep here there rfl fun _ => Iff.rfl
  | zapListed there _ _ => exact locks.setKeep here there rfl fun _ => Iff.rfl
  | @zapInode i _ inode there free =>
      intro j other found
      change (s.inodes.set i { inode with iLock := some call })[j]? = some other at found
      rw [getElem?_set_of_some _ there] at found
      split at found
      · rename_i this
        cases found
        subst this
        have held := locks j inode there
        rw [free] at held
        exact held.take here rfl
      · rename_i different
        have elsewhere : ¬i = j := fun same => different same.symm
        exact (locks j other found).keep here (iff_of_false elsewhere not_false)
  | @zapEntry _ _ _ _ inode inode' there first =>
      obtain ⟨-, rfl⟩ := AccessInode.unhookFirst_eq_some (consistent inode (List.mem_of_getElem? there)) first
      exact locks.setKeep here there rfl fun _ => Iff.rfl
  | @zapped i _ _ inode there _ =>
      intro j other found
      change (s.inodes.set i { inode with invalidAccess := false, iLock := none })[j]? = some other at found
      rw [getElem?_set_of_some _ there] at found
      split at found
      · rename_i this
        cases found
        subst this
        exact (locks j inode there).release here rfl not_false
      · rename_i different
        have elsewhere : ¬i = j := fun same => different same.symm
        exact (locks j other found).keep here (iff_of_false not_false elsewhere)
  | inserted there _ _ =>
      exact locks.setKeep here there (AccessInode.nfsAccessAddRbtree_same tree _ _).1 fun _ => Iff.rfl
  | replaced there _ _ =>
      exact locks.setKeep here there (AccessInode.nfsAccessAddRbtree_same tree _ _).1 fun _ => Iff.rfl
  | addLru there _ _ => exact locks.setKeep here there rfl fun _ => Iff.rfl
  | scanKeeps there _ _ _ => exact locks.setKeep here there rfl fun _ => Iff.rfl
  | scanDrops there _ gone =>
      rcases gone with ⟨-, -, rfl⟩ | ⟨cache, -, -, rfl⟩
      · exact locks.setKeep here there rfl fun _ => Iff.rfl
      · exact locks.setKeep here there rfl fun _ => Iff.rfl
  | gaveUp asking =>
      rcases asking with rfl | ⟨asked, rfl⟩ <;> exact locks.keep here fun _ => Iff.rfl
  | @zapNothing _ ask => cases ask <;> exact locks.keep here fun _ => Iff.rfl
  | @zapFreed ask => cases ask <;> exact locks.keep here fun _ => Iff.rfl
  | _ => exact locks.keep here fun _ => Iff.rfl

/-! ### The global list -/

theorem LruBits.set (bits : LruBits inodes lru) (there : inodes[i]? = some old)
    (same : new.aclLruSet = old.aclLruSet) : LruBits (inodes.set i new) lru := by
  intro j
  rw [bits j, getElem?_set_of_some new there]
  by_cases this : j = i
  · subst this
    rw [if_pos rfl, there]
    simp [same]
  · rw [if_neg this]

theorem LruBits.del (bits : LruBits inodes lru) (once : lru.Nodup) (there : inodes[i]? = some old)
    (clear : new.aclLruSet = false) : LruBits (inodes.set i new) (lru.erase i) := by
  intro j
  rw [once.mem_erase_iff, bits j, getElem?_set_of_some new there]
  by_cases this : j = i
  · simp [this, clear]
  · simp [this]

theorem LruBits.add (bits : LruBits inodes lru) (there : inodes[i]? = some old)
    (listed : new.aclLruSet = true) : LruBits (inodes.set i new) (lru ++ [i]) := by
  intro j
  rw [List.mem_append, List.mem_singleton, bits j, getElem?_set_of_some new there]
  by_cases this : j = i
  · simp [this, listed]
  · simp [this]

theorem LruBits.rotate (bits : LruBits inodes lru) (inside : i ∈ lru) : LruBits inodes (lru.erase i ++ [i]) := by
  intro j
  rw [(List.perm_append_singleton i _).mem_iff, ← (List.perm_cons_erase inside).mem_iff]
  exact bits j

theorem nodup_concat (once : lru.Nodup) (absent : i ∉ lru) : (lru ++ [i]).Nodup := by
  rw [← List.concat_eq_append]
  exact once.concat absent

/-- The inode the shrinker is about to look at is the first one, and still on the list. -/
theorem Cursors.first {nrToScan : Int} {next : Option Nat} {head : List AccessEntry}
    (cursors : Cursors lru calls) (here : calls[call]? = some (.scan nrToScan (some i) next head)) :
    ∃ rest, lru = i :: rest ∧ next = rest.head? := by
  obtain ⟨first, second⟩ := cursors call nrToScan i next head here
  cases lru with
  | nil => cases first
  | cons j rest =>
      cases first
      exact ⟨rest, rfl, by rw [second, List.getElem?_cons_succ, List.head?_eq_getElem?]⟩

/-- The list, and each inode's bit in it. -/
theorem took_lru (once : s.nfsAccessLruList.Nodup) (bits : LruBits s.inodes s.nfsAccessLruList)
    (cursors : Cursors s.nfsAccessLruList s.calls) (consistent : ∀ inode ∈ s.inodes, inode.Consistent)
    (here : s.calls[call]? = some point) (took : Took tree s call point s' events) :
    s'.nfsAccessLruList.Nodup ∧ LruBits s'.inodes s'.nfsAccessLruList := by
  cases took with
  | outStale there _ _ => exact ⟨once, bits.set there rfl⟩
  | hit there _ _ _ => exact ⟨once, bits.set there rfl⟩
  | zapCaches there _ => exact ⟨once, bits.set there rfl⟩
  | zapListed there _ _ => exact ⟨once.erase _, bits.del once there rfl⟩
  | zapInode there _ => exact ⟨once, bits.set there rfl⟩
  | @zapEntry _ _ _ _ inode inode' there first =>
      obtain ⟨-, rfl⟩ := AccessInode.unhookFirst_eq_some (consistent inode (List.mem_of_getElem? there)) first
      exact ⟨once, bits.set there rfl⟩
  | zapped there _ => exact ⟨once, bits.set there rfl⟩
  | inserted there _ _ => exact ⟨once, bits.set there (AccessInode.nfsAccessAddRbtree_same tree _ _).2.1⟩
  | replaced there _ _ => exact ⟨once, bits.set there (AccessInode.nfsAccessAddRbtree_same tree _ _).2.1⟩
  | @addLru i _ _ inode there _ unlisted =>
      have absent : i ∉ s.nfsAccessLruList := by
        rw [bits i, there]
        simp [unlisted]
      exact ⟨nodup_concat once absent, bits.add there rfl⟩
  | @scanKeeps _ i _ _ _ cache inode there _ _ _ =>
      obtain ⟨rest, whole, -⟩ := cursors.first here
      have kept : LruBits (s.inodes.set i (inode.unhook tree cache)) s.nfsAccessLruList := bits.set there rfl
      exact ⟨nodup_concat (once.erase i) once.not_mem_erase, kept.rotate (whole ▸ List.mem_cons_self)⟩
  | scanDrops there _ gone =>
      refine ⟨once.erase _, ?_⟩
      rcases gone with ⟨-, -, rfl⟩ | ⟨cache, -, -, rfl⟩ <;> exact bits.del once there rfl
  | _ => exact ⟨once, bits⟩

/-- While the lock is free no call scans the list. -/
theorem not_scanning (held : Held Point.HasLruLock none calls) {nrToScan : Int} {nfsi next : Option Nat}
    {head : List AccessEntry} : calls[call]? ≠ some (.scan nrToScan nfsi next head) := fun here => by
  have taken := (held call).mpr ⟨_, here, trivial⟩
  cases taken

/-- While no call scans it, the list may change. -/
theorem Cursors.ofFree {lru' : List Nat} (held : Held Point.HasLruLock none calls)
    (here : calls[call]? = some point)
    (start : ∀ nrToScan i next head, point' = .scan nrToScan (some i) next head →
      lru'.head? = some i ∧ next = lru'[1]?) : Cursors lru' (calls.set call point') := by
  intro other nrToScan i next head found
  rw [getElem?_set_of_some point' here] at found
  split at found
  · exact start nrToScan i next head (Option.some.inj found)
  · exact absurd found (not_scanning held)

/-- A call that scans is the only one, and may change the list. -/
theorem Cursors.ofScan {lock : Option Nat} {lru' : List Nat} (held : Held Point.HasLruLock lock calls)
    (here : calls[call]? = some point) (has : point.HasLruLock)
    (goes : ∀ nrToScan i next head, point' = .scan nrToScan (some i) next head →
      lru'.head? = some i ∧ next = lru'[1]?) : Cursors lru' (calls.set call point') := by
  intro other nrToScan i next head found
  rw [getElem?_set_of_some point' here] at found
  split at found
  · exact goes nrToScan i next head (Option.some.inj found)
  · rename_i different
    exact absurd (held.unique here has found trivial) different

/-- A step to a point outside the loop of the shrinker. -/
theorem Cursors.keep (cursors : Cursors lru calls) (here : calls[call]? = some point)
    (outside : ∀ nrToScan nfsi next head, point' ≠ .scan nrToScan nfsi next head) :
    Cursors lru (calls.set call point') := by
  intro other nrToScan i next head found
  rw [getElem?_set_of_some point' here] at found
  split at found
  · exact absurd (Option.some.inj found) (outside nrToScan _ next head)
  · exact cursors other nrToScan i next head found

/-- What follows the first inode of a list that has it once. -/
theorem nextOf_first {rest : List Nat} (whole : s.nfsAccessLruList = i :: rest) : s.nextOf i = rest.head? := by
  rw [State.nextOf, whole, List.dropWhile_cons_of_neg (by simp), List.getElem?_cons_succ,
    List.head?_eq_getElem?]

/-- Going on with `next`, which is the first inode of the list as it is now. -/
theorem cursors_go {rest more : List Nat} {nrToScan nrToScan' : Int} {head head' : List AccessEntry} {j : Nat}
    {next' : Option Nat} (now : s.nfsAccessLruList = rest ++ more)
    (goes : Point.scan nrToScan rest.head? (rest.head?.bind s.nextOf) head =
      .scan nrToScan' (some j) next' head') :
    s.nfsAccessLruList.head? = some j ∧ next' = s.nfsAccessLruList[1]? := by
  cases rest with
  | nil => cases goes
  | cons first rest =>
      cases goes
      rw [List.cons_append] at now
      refine ⟨by rw [now]; rfl, ?_⟩
      change s.nextOf j = _
      rw [nextOf_first now, now, List.getElem?_cons_succ, List.head?_eq_getElem?]

theorem took_cursors (held : Held Point.HasLruLock s.nfsAccessLruLock s.calls)
    (cursors : Cursors s.nfsAccessLruList s.calls) (here : s.calls[call]? = some point)
    (took : Took tree s call point s' events) : Cursors s'.nfsAccessLruList s'.calls := by
  cases took with
  | zapListed _ free _ =>
      rw [free] at held
      exact Cursors.ofFree held here (by rintro _ _ _ _ ⟨⟩)
  | addLru _ free _ =>
      rw [free] at held
      exact Cursors.ofFree held here (by rintro _ _ _ _ ⟨⟩)
  | shrink free =>
      rw [free] at held
      refine Cursors.ofFree held here fun nrToScan i next head same => ?_
      exact cursors_go (s := s) (List.append_nil _).symm same
  | @scanKeeps _ i next _ _ cache inode _ _ _ _ =>
      obtain ⟨rest, whole, rfl⟩ := cursors.first here
      refine Cursors.ofScan held here trivial fun nrToScan j next' head same => ?_
      have now : (((s.setInode i (inode.unhook tree cache)).delLru i).addLru i).nfsAccessLruList =
          rest ++ [i] := by
        change s.nfsAccessLruList.erase i ++ [i] = rest ++ [i]
        rw [whole, List.erase_cons_head]
      exact cursors_go now same
  | @scanDrops _ i next _ _ _ inode' _ _ _ =>
      obtain ⟨rest, whole, rfl⟩ := cursors.first here
      refine Cursors.ofScan held here trivial fun nrToScan j next' head same => ?_
      have now : ((s.setInode i inode').delLru i).nfsAccessLruList = rest ++ [] := by
        change s.nfsAccessLruList.erase i = rest ++ []
        rw [whole, List.erase_cons_head, List.append_nil]
      exact cursors_go now same
  | @zapNothing _ ask => cases ask <;> exact cursors.keep here (by rintro _ _ _ _ ⟨⟩)
  | @zapFreed ask => cases ask <;> exact cursors.keep here (by rintro _ _ _ _ ⟨⟩)
  | _ => exact cursors.keep here (by rintro _ _ _ _ ⟨⟩)

end Nfs4Compound.Access
