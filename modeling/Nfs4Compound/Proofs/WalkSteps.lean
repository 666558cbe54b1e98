/-
Module: Nfs4Compound.Proofs.WalkSteps
Layer: Proofs
Purpose: The rules of the calculus for the smallest steps of a walk.
Imports: Nfs4Compound.Vfs.Nameidata, Nfs4Compound.Proofs.HeapShape
Trusted boundary: none
Main exports: wp_getNd, wp_modifyNd, wp_dcache, wp_observe, wp_derefInode, wp_mutexLock_free,
  wp_mutexUnlock_held
-/
import Nfs4Compound.Vfs.Nameidata
import Nfs4Compound.Proofs.HeapShape

namespace Nfs4Compound.Vfs

open Prog

variable {use : Event → Prop → Prop} {faults : Oops → World → Prop} {w : World}

@[simp] theorem wp_getNd (post : Nameidata → World → Prop) :
    wp use faults getNd post w ↔ post w.nd w := Iff.rfl

@[simp] theorem wp_getHeap (post : Heap → World → Prop) :
    wp use faults getHeap post w ↔ post w.heap w := Iff.rfl

@[simp] theorem wp_modifyNd (f : Nameidata → Nameidata) (post : Unit → World → Prop) :
    wp use faults (modifyNd f) post w ↔ post () { w with nd := f w.nd } := Iff.rfl

@[simp] theorem wp_modifyHeap (f : Heap → Heap) (post : Unit → World → Prop) :
    wp use faults (modifyHeap f) post w ↔ post () { w with heap := f w.heap } := Iff.rfl

@[simp] theorem wp_dcache {α : Type} (op : Dcache α) (post : α → World → Prop) :
    wp use faults (dcache op) post w ↔
      after op (fun value h => post value { w with heap := h }) w.heap := Iff.rfl

@[simp] theorem wp_observe (event : World → Event) (post : Unit → World → Prop) :
    wp use faults (observe event) post w ↔ use (event w) (post () w) := Iff.rfl

theorem wp_derefInode (d : DentryId) (post : Ino → World → Prop) :
    wp use faults (derefInode d) post w ↔
      (∀ inode, w.heap.inode d = some inode → post inode w) ∧
        (w.heap.inode d = none → faults .nullDeref w) := by
  rw [derefInode, wp_bind, wp_read]
  cases w.heap.inode d with
  | none => simp
  | some inode => simp

/-- A mutex that nobody holds is taken. -/
theorem wp_mutexLock_free {post : Unit → World → Prop} {d : DentryId} {inode : Ino}
    (positive : w.heap.inode d = some inode) (free : w.heap.held = [])
    (continues : post () { w with heap := { w.heap with held := [inode] } }) :
    wp use faults (mutexLock d) post w := by
  rw [mutexLock, wp_bind, wp_derefInode]
  constructor
  · intro other same
    cases positive.symm.trans same
    rw [wp_bind, wp_getHeap, wp_ite, free]
    constructor
    · intro member
      cases member
    · intro _
      rw [wp_modifyHeap, free]
      exact continues
  · intro missing
    rw [positive] at missing
    cases missing

/-- A mutex that is held is released. -/
theorem wp_mutexUnlock_held {post : Unit → World → Prop} {d : DentryId} {inode : Ino}
    (positive : w.heap.inode d = some inode) (held : inode ∈ w.heap.held)
    (continues : post () { w with heap := { w.heap with held := w.heap.held.erase inode } }) :
    wp use faults (mutexUnlock d) post w := by
  rw [mutexUnlock, wp_bind, wp_derefInode]
  constructor
  · intro other same
    cases positive.symm.trans same
    rw [wp_bind, wp_getHeap, wp_ite]
    constructor
    · intro _
      exact continues
    · intro absent
      exact absurd held absent
  · intro missing
    rw [positive] at missing
    cases missing

end Nfs4Compound.Vfs
