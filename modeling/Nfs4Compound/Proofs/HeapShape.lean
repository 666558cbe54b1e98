/-
Module: Nfs4Compound.Proofs.HeapShape
Layer: Proofs
Purpose: What the operations of the dcache leave alone, that they keep the heap well formed, and the
  ways in which `lookup_dcache` can end.
Imports: Nfs4Compound.Vfs.Invariant
Trusted boundary: none
Main exports: SameDentries, SameShape, Trimmed, HeapOk.instantiate, lookupDcache_ends, Filling
-/
import Nfs4Compound.Vfs.Invariant

namespace Nfs4Compound.Vfs

open Prog

variable {h h' h'' : Heap} {env : Env} {d : DentryId}

namespace Heap

section Fields

variable (h : Heap) (d x : DentryId)

@[simp] theorem dget_dentry : (h.dget d).dentry = h.dentry := rfl
@[simp] theorem dget_hash : (h.dget d).hash = h.hash := rfl
@[simp] theorem dget_next : (h.dget d).next = h.next := rfl
@[simp] theorem dget_held : (h.dget d).held = h.held := rfl
@[simp] theorem dput_dentry : (h.dput d).dentry = h.dentry := rfl
@[simp] theorem dput_hash : (h.dput d).hash = h.hash := rfl
@[simp] theorem dput_next : (h.dput d).next = h.next := rfl
@[simp] theorem dput_held : (h.dput d).held = h.held := rfl
@[simp] theorem ticked_dentry : h.ticked.dentry = h.dentry := rfl
@[simp] theorem ticked_hash : h.ticked.hash = h.hash := rfl
@[simp] theorem ticked_next : h.ticked.next = h.next := rfl
@[simp] theorem ticked_held : h.ticked.held = h.held := rfl
@[simp] theorem setHash_dentry (n : Name) (found : Option DentryId) :
    (h.setHash d n found).dentry = h.dentry := rfl
@[simp] theorem setHash_next (n : Name) (found : Option DentryId) :
    (h.setHash d n found).next = h.next := rfl
@[simp] theorem setHash_held (n : Name) (found : Option DentryId) :
    (h.setHash d n found).held = h.held := rfl
@[simp] theorem setDentry_hash (value : Dentry) : (h.setDentry d value).hash = h.hash := rfl
@[simp] theorem setDentry_next (value : Dentry) : (h.setDentry d value).next = h.next := rfl
@[simp] theorem setDentry_held (value : Dentry) : (h.setDentry d value).held = h.held := rfl

theorem setHash_apply (n : Name) (found : Option DentryId) (m : Name) :
    (h.setHash d n found).hash x m = if x = d ∧ m = n then found else h.hash x m := by
  by_cases same : x = d
  · subst same
    by_cases name : m = n
    · subst name
      simp [setHash]
    · simp [setHash, name]
  · simp [setHash, same]

@[simp] theorem setDentry_self (value : Dentry) : (h.setDentry d value).dentry d = value := by
  simp [setDentry]

theorem setDentry_other (value : Dentry) (other : x ≠ d) :
    (h.setDentry d value).dentry x = h.dentry x := by
  simp [setDentry, other]

end Fields

theorem isHashed_iff : h.isHashed d = true ↔ h.hash (h.parent d) (h.dentry d).name = some d := by
  simp [isHashed, parent]

end Heap

/-! ### Operations that move references only -/

/-- The two heaps have the same dentries and the same hash. -/
structure SameDentries (h h' : Heap) : Prop where
  dentry : h'.dentry = h.dentry
  hash : h'.hash = h.hash
  next : h'.next = h.next

/-- The same mutexes are held, too. -/
structure SameShape (h h' : Heap) : Prop extends SameDentries h h' where
  held : h'.held = h.held

theorem SameDentries.trans (first : SameDentries h h') (second : SameDentries h' h'') :
    SameDentries h h'' :=
  ⟨second.dentry.trans first.dentry, second.hash.trans first.hash, second.next.trans first.next⟩

theorem SameDentries.inode (same : SameDentries h h') (x : DentryId) : h'.inode x = h.inode x := by
  simp [Heap.inode, same.dentry]

theorem SameDentries.type (same : SameDentries h h') (x : DentryId) : h'.type x = h.type x := by
  simp [Heap.type, same.dentry]

theorem SameDentries.parent (same : SameDentries h h') (x : DentryId) : h'.parent x = h.parent x := by
  simp [Heap.parent, same.dentry]

theorem SameShape.refl (h : Heap) : SameShape h h := ⟨⟨rfl, rfl, rfl⟩, rfl⟩

theorem SameShape.trans (first : SameShape h h') (second : SameShape h' h'') : SameShape h h'' :=
  ⟨first.toSameDentries.trans second.toSameDentries, second.held.trans first.held⟩

theorem SameShape.dget (h : Heap) (d : DentryId) : SameShape h (h.dget d) := ⟨⟨rfl, rfl, rfl⟩, rfl⟩

theorem SameShape.dput (h : Heap) (d : DentryId) : SameShape h (h.dput d) := ⟨⟨rfl, rfl, rfl⟩, rfl⟩

theorem SameShape.ticked (h : Heap) : SameShape h h.ticked := ⟨⟨rfl, rfl, rfl⟩, rfl⟩

/-! ### Operations that only take dentries out of the hash -/

/-- The heaps have the same dentries and mutexes, and the second finds nothing the first does not. -/
structure Trimmed (h h' : Heap) : Prop where
  dentry : h'.dentry = h.dentry
  hash : ∀ x n c, h'.hash x n = some c → h.hash x n = some c
  next : h'.next = h.next
  held : h'.held = h.held

theorem SameShape.trimmed (same : SameShape h h') : Trimmed h h' :=
  ⟨same.dentry, fun _ _ _ found => by rwa [← same.hash], same.next, same.held⟩

theorem Trimmed.trans (first : Trimmed h h') (second : Trimmed h' h'') : Trimmed h h'' :=
  ⟨second.dentry.trans first.dentry, fun x n c found => first.hash x n c (second.hash x n c found),
    second.next.trans first.next, second.held.trans first.held⟩

theorem Trimmed.hash_none (trimmed : Trimmed h h') {x : DentryId} {n : Name}
    (missing : h.hash x n = none) : h'.hash x n = none := by
  cases found : h'.hash x n with
  | none => rfl
  | some c =>
      rw [trimmed.hash x n c found] at missing
      cases missing

theorem trimmed_dDrop (h : Heap) (d : DentryId) : Trimmed h (h.dDrop d) := by
  unfold Heap.dDrop
  split
  · refine ⟨rfl, ?_, rfl, rfl⟩
    intro x n c found
    rw [Heap.setHash_apply] at found
    split at found
    · cases found
    · exact found
  · exact (SameShape.refl h).trimmed

namespace HeapOk

theorem trimmed (ok : HeapOk h) (trim : Trimmed h h') : HeapOk h' := by
  constructor
  · intro x n c found
    have old := ok.hashed x n c (trim.hash x n c found)
    simpa [Heap.parent, Heap.type, trim.dentry, trim.next] using old
  · intro x above
    rw [trim.next] at above
    obtain ⟨negative, childless⟩ := ok.unborn x above
    exact ⟨by simpa [Heap.inode, trim.dentry] using negative, fun n => trim.hash_none (childless n)⟩

theorem sameShape (ok : HeapOk h) (same : SameShape h h') : HeapOk h' := ok.trimmed same.trimmed

theorem sameDentries (ok : HeapOk h) (same : SameDentries h h') : HeapOk h' := by
  have shape : SameShape h { h' with held := h.held } := ⟨⟨same.dentry, same.hash, same.next⟩, rfl⟩
  exact ⟨(ok.sameShape shape).hashed, (ok.sameShape shape).unborn⟩

/-- A dentry with an inode has been allocated. -/
theorem born (ok : HeapOk h) {inode : Ino} (positive : h.inode d = some inode) : d < h.next := by
  by_contra above
  rw [(ok.unborn d (Nat.le_of_not_lt above)).1] at positive
  cases positive

/-- A dentry that is not in the hash at its own place is nowhere in it. -/
theorem unhashed (ok : HeapOk h) (notHashed : h.isHashed d = false) (x : DentryId) (n : Name) :
    h.hash x n ≠ some d := by
  intro found
  obtain ⟨parentOf, nameOf, -, -⟩ := ok.hashed x n d found
  rw [← parentOf, ← nameOf] at found
  rw [Heap.isHashed_iff.mpr found] at notHashed
  cases notHashed

end HeapOk

/-! ### A new dentry -/

/-- The heap after `d_alloc` of `name` under `dir`, up to counts. -/
structure Allocated (dir : DentryId) (name : Name) (h h' : Heap) : Prop where
  dentry : h'.dentry = Function.update h.dentry h.next ⟨dir, name, none, .miss⟩
  hash : h'.hash = h.hash
  next : h'.next = h.next + 1
  held : h'.held = h.held

theorem Allocated.old {dir : DentryId} {name : Name} (allocated : Allocated dir name h h')
    {x : DentryId} (born : x < h.next) : h'.dentry x = h.dentry x := by
  rw [allocated.dentry, Function.update_of_ne (Nat.ne_of_lt born)]

theorem Allocated.fresh {dir : DentryId} {name : Name} (allocated : Allocated dir name h h') :
    h'.dentry h.next = ⟨dir, name, none, .miss⟩ := by
  rw [allocated.dentry, Function.update_self]

theorem HeapOk.allocated {dir : DentryId} {name : Name} (ok : HeapOk h)
    (allocated : Allocated dir name h h') : HeapOk h' := by
  constructor
  · intro x n c found
    rw [allocated.hash] at found
    obtain ⟨parentOf, nameOf, notTemp, born⟩ := ok.hashed x n c found
    rw [Heap.parent, Heap.type, allocated.old born, allocated.next]
    exact ⟨parentOf, nameOf, notTemp, Nat.lt_succ_of_lt born⟩
  · intro x above
    rw [allocated.next] at above
    obtain ⟨negative, childless⟩ := ok.unborn x (Nat.le_of_succ_le above)
    refine ⟨?_, by simpa [allocated.hash] using childless⟩
    rw [Heap.inode, allocated.dentry, Function.update_of_ne (Nat.ne_of_gt above)]
    exact negative

/-! ### Hashing a dentry -/

/-- The heap after `d` got `value` and was hashed under its parent and name. -/
theorem HeapOk.rehash (ok : HeapOk h) {value : Dentry} (born : d < h.next)
    (parentBorn : value.parent < h.next) (notTemp : value.type ≠ .chainTemp)
    (unhashed : ∀ x n, h.hash x n = some d → x = value.parent ∧ n = value.name) :
    HeapOk ((h.setDentry d value).dRehash d) := by
  constructor
  · intro x n c found
    rw [Heap.dRehash, Heap.setHash_apply] at found
    simp only [Heap.setDentry_self, Heap.setDentry_hash] at found
    by_cases here : x = value.parent ∧ n = value.name
    · rw [if_pos here] at found
      cases found
      simp [Heap.dRehash, Heap.parent, Heap.type, here, notTemp, born]
    · rw [if_neg here] at found
      by_cases same : c = d
      · subst same
        exact absurd (unhashed x n found) here
      · have old := ok.hashed x n c found
        simpa [Heap.dRehash, Heap.parent, Heap.type, Heap.setDentry_other _ _ _ _ same] using old
  · intro x above
    have other : x ≠ d := by
      rintro rfl
      exact absurd born (Nat.not_lt.mpr above)
    have notParent : x ≠ value.parent := by
      rintro rfl
      exact absurd parentBorn (Nat.not_lt.mpr above)
    obtain ⟨negative, childless⟩ := ok.unborn x above
    constructor
    · simpa [Heap.dRehash, Heap.inode, Heap.setDentry_other _ _ _ _ other] using negative
    · intro n
      simp [Heap.dRehash, Heap.setHash_apply, notParent, childless n]

theorem dFlagsForInode_ne_temp (env : Env) (inode : Option Ino) :
    dFlagsForInode env inode ≠ .chainTemp := by
  unfold dFlagsForInode
  split
  · simp
  · split <;> simp

theorem HeapOk.instantiate (ok : HeapOk h) (born : d < h.next) (parentBorn : h.parent d < h.next)
    (inode : Option Ino) : HeapOk (dInstantiate env d inode h) := by
  apply ok.rehash born
  · exact parentBorn
  · exact dFlagsForInode_ne_temp env inode
  · intro x n found
    obtain ⟨parentOf, nameOf, -, -⟩ := ok.hashed x n d found
    exact ⟨parentOf.symm, nameOf.symm⟩

/-- After `__d_drop` the dentry is nowhere in the hash. -/
theorem HeapOk.dDrop_unhashed (ok : HeapOk h) (x : DentryId) (n : Name) :
    (h.dDrop d).hash x n ≠ some d := by
  intro found
  obtain ⟨parentOf, nameOf, -, -⟩ := ok.hashed x n d ((trimmed_dDrop h d).hash x n d found)
  unfold Heap.dDrop at found
  split at found
  · rw [Heap.setHash_apply, if_pos ⟨parentOf.symm, nameOf.symm⟩] at found
    cases found
  · rename_i notHashed
    exact ok.unhashed (by simpa using notHashed) x n found

theorem HeapOk.moveTo (ok : HeapOk h) {moved : DentryId} (born : moved < h.next)
    (parentBorn : h.parent d < h.next) : HeapOk (dMoveTo env moved d h) := by
  have trim := trimmed_dDrop h moved
  apply (ok.trimmed trim).rehash
  · rwa [trim.next]
  · rwa [trim.next]
  · exact dFlagsForInode_ne_temp env _
  · intro x n found
    exact absurd found (ok.dDrop_unhashed x n)

/-! ### The ways a lookup in the dcache can end -/

@[simp] theorem after_ask {α : Type} (question : Nat → α) (post : α → Heap → Prop) :
    after (ask question) post h ↔ post (question h.tick) h.ticked := Iff.rfl

/-- How `lookup_dcache` can end: with an error, with a cached dentry, or with a new one. -/
inductive LookupEnds (dir : DentryId) (name : Name) (h : Heap) :
    Except Errno (DentryId × Bool) → Heap → Prop where
  | failed {error h'} (trimmed : Trimmed h h') : LookupEnds dir name h (.error error) h'
  | cached {dentry h'} (found : h.hash dir name = some dentry) (same : SameShape h h') :
      LookupEnds dir name h (.ok (dentry, false)) h'
  | fresh {middle h'} (trimmed : Trimmed h middle) (missing : middle.hash dir name = none)
      (allocated : Allocated dir name middle h') : LookupEnds dir name h (.ok (h.next, true)) h'

theorem after_dLookup (dir : DentryId) (name : Name) (post : Option DentryId → Heap → Prop) :
    after (dLookup dir name) post h ↔
      match h.hash dir name with
      | some dentry => post (some dentry) (h.dget dentry)
      | none => post none h := by
  unfold after dLookup
  split <;> simp_all

theorem after_dInvalidate (env : Env) (d : DentryId) (post : Bool → Heap → Prop)
    (busy : post false h.ticked) (dropped : post true (h.ticked.dDrop d)) :
    after (dInvalidate env d) post h := by
  cases granted : env.invalidate h.tick d with
  | false => simpa [dInvalidate, granted] using busy
  | true => simpa [dInvalidate, granted] using dropped

theorem lookupAlloc_ends (env : Env) {dir : DentryId} {name : Name} {middle : Heap}
    (trimmed : Trimmed h middle) (missing : middle.hash dir name = none) :
    after (lookupAlloc env name dir) (LookupEnds dir name h) middle := by
  cases granted : env.dAlloc middle.tick with
  | false =>
      simp only [lookupAlloc, dAlloc, after_bind, after_ask, granted]
      exact .failed (trimmed.trans (SameShape.ticked middle).trimmed)
  | true =>
      simp only [lookupAlloc, dAlloc, after_bind, after_ask, granted]
      have fresh : middle.ticked.next = h.next := trimmed.next
      simp only [if_true, after_bind, after_get, after_set, after_pure, fresh]
      exact .fresh trimmed missing ⟨by rw [trimmed.next]; rfl, rfl, by rw [trimmed.next], rfl⟩

theorem lookupDcache_ends (env : Env) (ok : HeapOk h) (name : Name) (dir : DentryId) :
    after (lookupDcache env name dir) (LookupEnds dir name h) h := by
  rw [lookupDcache, after_bind, after_dLookup]
  cases found : h.hash dir name with
  | none => exact lookupAlloc_ends env (SameShape.refl h).trimmed found
  | some c =>
      have notTemp : (h.dget c).dIsChainTemp c = false := by
        have := (ok.hashed dir name c found).2.2.1
        simpa [Heap.dIsChainTemp, Heap.type] using this
      have same : SameShape h (h.dget c).ticked := (SameShape.dget h c).trans (SameShape.ticked _)
      simp only [after_bind, after_get, notTemp, after_ask, Bool.false_eq_true, if_false]
      cases env.revalidate (h.dget c).tick c with
      | valid => exact .cached found same
      | failed error => exact .failed (same.trans (SameShape.dput _ c)).trimmed
      | stale =>
          -- a busy dentry is used all the same; a dropped one leaves its name free
          rw [after_bind]
          apply after_dInvalidate
          · exact .cached found (same.trans (SameShape.ticked _))
          · have dropped : Trimmed h (((h.dget c).ticked.ticked.dDrop c).dput c) :=
              ((same.trans (SameShape.ticked _)).trimmed.trans (trimmed_dDrop _ c)).trans
                (SameShape.dput _ c).trimmed
            apply lookupAlloc_ends env dropped
            cases left : (((h.dget c).ticked.ticked.dDrop c).dput c).hash dir name with
            | none => rfl
            | some other =>
                have old := dropped.hash dir name other left
                rw [found] at old
                cases old
                exact absurd left ((ok.sameShape (same.trans (SameShape.ticked _))).dDrop_unhashed _ _)

/-! ### Giving a dentry its inode -/

/-- What looking up the dentry `d` can do to the heap. -/
structure Filling (d : DentryId) (h h' : Heap) : Prop where
  ok : HeapOk h'
  next : h'.next = h.next
  held : h'.held = h.held
  inode : ∀ x, x ≠ d → h'.inode x = h.inode x
  parents : ∀ x, h.parent x < h.next → h'.parent x < h'.next

theorem Filling.before (same : SameShape h h') (filling : Filling d h' h'') : Filling d h h'' := by
  refine ⟨filling.ok, filling.next.trans same.next, filling.held.trans same.held, ?_, ?_⟩
  · intro x other
    rw [filling.inode x other, same.inode]
  · intro x born
    apply filling.parents
    rwa [same.parent, same.next]

theorem Filling.after (filling : Filling d h h') (same : SameShape h' h'') : Filling d h h'' := by
  refine ⟨filling.ok.sameShape same, same.next.trans filling.next, same.held.trans filling.held, ?_, ?_⟩
  · intro x other
    rw [same.inode, filling.inode x other]
  · intro x born
    rw [same.parent, same.next]
    exact filling.parents x born

theorem SameShape.filling (ok : HeapOk h) (same : SameShape h h') : Filling d h h' :=
  ⟨ok.sameShape same, same.next, same.held, fun x _ => same.inode x, fun x born => by
    rwa [same.parent, same.next]⟩

theorem filling_instantiate (env : Env) (ok : HeapOk h) (born : d < h.next) (parentBorn : h.parent d < h.next)
    (inode : Option Ino) :
    Filling d h (dInstantiate env d inode h) ∧ (dInstantiate env d inode h).inode d = inode := by
  refine ⟨⟨ok.instantiate born parentBorn inode, rfl, rfl, ?_, ?_⟩, ?_⟩
  · intro x other
    simp [dInstantiate, Heap.dRehash, Heap.inode, Heap.setDentry_other _ _ _ _ other]
  · intro x bornParent
    by_cases same : x = d
    · subst same
      simpa [dInstantiate, Heap.dRehash, Heap.parent] using bornParent
    · simpa [dInstantiate, Heap.dRehash, Heap.parent, Heap.setDentry_other _ _ _ _ same]
        using bornParent
  · simp [dInstantiate, Heap.dRehash, Heap.inode]

theorem moveTo_inode (env : Env) (moved x : DentryId) :
    (dMoveTo env moved d h).inode x = h.inode x := by
  have trim := trimmed_dDrop h moved
  by_cases same : x = moved
  · subst same
    simp [dMoveTo, Heap.dRehash, Heap.inode, trim.dentry]
  · simp [dMoveTo, Heap.dRehash, Heap.inode, Heap.setDentry_other _ _ _ _ same, trim.dentry]

theorem filling_moveTo (env : Env) (ok : HeapOk h) {moved : DentryId} (born : moved < h.next)
    (parentBorn : h.parent d < h.next) (x : DentryId) :
    Filling d h (dMoveTo env moved d h) ∧ (dMoveTo env moved d h).inode x = h.inode x := by
  have trim := trimmed_dDrop h moved
  refine ⟨⟨ok.moveTo born parentBorn, trim.next, trim.held, fun y _ => moveTo_inode env moved y, ?_⟩,
    moveTo_inode env moved x⟩
  intro y bornParent
  have next : (dMoveTo env moved d h).next = h.next := trim.next
  rw [next]
  by_cases same : y = moved
  · subst same
    simpa [dMoveTo, Heap.dRehash, Heap.parent] using parentBorn
  · simpa [dMoveTo, Heap.dRehash, Heap.parent, Heap.setDentry_other _ _ _ _ same, trim.dentry]
      using bornParent

end Nfs4Compound.Vfs
