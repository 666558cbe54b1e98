/-
Module: Nfs4Compound.Proofs.OpenOrder
Layer: Proofs
Purpose: An open that has come to its last component keeps the mutexes it holds and gives back the one it
  takes; with the walks of the texts this gives the order of the chain in whole opens and unmounts.
Imports: Nfs4Compound.Proofs.ChainOrder
Trusted boundary: none
Main exports: Idle, Keeps, Leaves, doLast_orderly, openPathname_orderly
-/
import Nfs4Compound.Proofs.ChainOrder

namespace Nfs4Compound.Vfs

open Prog

variable {α β : Type} {env : Env} {oenv : OpenEnv} {benign : Event → Prop} {held : List Ino} {d : DentryId}
  {h' : Heap} {w : World}

/-! ### Steps without a chain -/

/-- No chain is pending, and these mutexes are held. -/
structure Idle (held : List Ino) (w : World) : Prop where
  ok : HeapOk w.heap
  held : w.heap.held = held
  size : w.nd.chainSize = 0
  list : w.nd.dchainList = []

theorem Quiet.idle (quiet : Quiet w) : Idle [] w := ⟨quiet.ok, quiet.held, quiet.size, quiet.list⟩

theorem Idle.quiet (idle : Idle [] w) : Quiet w := ⟨idle.ok, idle.held, idle.size, idle.list⟩

/-- The walk holds the same mutexes as before, and dentries have kept their inodes. -/
structure Kept (held : List Ino) (w w' : World) : Prop where
  idle : Idle held w'
  grows : Grows w.heap w'.heap

theorem Kept.refl (idle : Idle held w) : Kept held w w := ⟨idle, .refl _⟩

theorem Kept.trans {w₁ w₂ : World} (first : Kept held w w₁) (second : Kept held w₁ w₂) : Kept held w w₂ :=
  ⟨second.idle, first.grows.trans second.grows⟩

theorem Idle.trimmed (idle : Idle held w) (trimmed : Trimmed w.heap h') (tick : w.heap.tick ≤ h'.tick) :
    Kept held w { w with heap := h' } :=
  ⟨⟨idle.ok.trimmed trimmed, trimmed.held.trans idle.held, idle.size, idle.list⟩, trimmed.grows tick⟩

theorem Idle.counted (idle : Idle held w) (same : SameShape w.heap h') (tick : w.heap.tick ≤ h'.tick) :
    Kept held w { w with heap := h' } :=
  idle.trimmed same.trimmed tick

/-- A dentry that had no inode is filled. -/
theorem Idle.filled (idle : Idle held w) (fresh : w.heap.inode d = none) (filling : Filling d w.heap h')
    (tick : w.heap.tick ≤ h'.tick) : Kept held w { w with heap := h' } :=
  ⟨⟨filling.ok, filling.held.trans idle.held, idle.size, idle.list⟩, filling.grows fresh tick⟩

/-- A step that keeps the mutexes a walk holds. -/
def Keeps (benign : Event → Prop) (x : Walk α) : Prop :=
  ∀ held w, Idle held w → Shows benign x (fun _ w' => Kept held w w') w

@[grind ←] theorem keeps_bind {x : Walk α} {f : α → Walk β} (first : Keeps benign x)
    (rest : ∀ value, Keeps benign (f value)) : Keeps benign (x >>= f) := by
  intro held w idle
  unfold Shows
  rw [wp_bind]
  apply Shows.mono (first held w idle)
  intro value w₁ kept
  apply Shows.mono (rest value held w₁ kept.idle)
  intro _ w₂ more
  exact kept.trans more

@[grind ←] theorem keeps_pure (value : α) : Keeps benign (pure value : Walk α) := fun _ _ idle => .refl idle

@[grind ←] theorem keeps_fault {cause : Oops} (tame : cause ≠ .deadlock ∧ cause ≠ .notLocked) :
    Keeps benign (Prog.fault cause : Walk α) := fun _ _ _ => tame

@[grind ←] theorem keeps_getNd : Keeps benign getNd := fun _ _ idle => .refl idle

@[grind ←] theorem keeps_getHeap : Keeps benign getHeap := fun _ _ idle => .refl idle

/-- The walk changes anything but its chain. -/
@[grind ←] theorem keeps_modifyNd {f : Nameidata → Nameidata}
    (chain : ∀ nd, (f nd).chainSize = nd.chainSize ∧ (f nd).dchainList = nd.dchainList) :
    Keeps benign (modifyNd f) := by
  intro held w idle
  refine ⟨⟨idle.ok, idle.held, ?_, ?_⟩, .refl _⟩
  · exact (chain w.nd).1.trans idle.size
  · exact (chain w.nd).2.trans idle.list

@[grind ←] theorem keeps_pathPut (path : Path) : Keeps benign (pathPut path) :=
  fun _ _ idle => idle.counted (.dput _ _) (Nat.le_refl _)

theorem keeps_dput (d : DentryId) : Keeps benign (modifyHeap (·.dput d)) :=
  fun _ _ idle => idle.counted (.dput _ _) (Nat.le_refl _)

theorem keeps_dget (d : DentryId) : Keeps benign (modifyHeap (·.dget d)) :=
  fun _ _ idle => idle.counted (.dget _ _) (Nat.le_refl _)

@[grind ←] theorem keeps_ask (question : Nat → α) : Keeps benign (dcache (ask question)) :=
  fun _ _ idle => idle.counted (.ticked _) (Nat.le_succ _)

@[grind ←] theorem keeps_derefInode (d : DentryId) : Keeps benign (derefInode d) := by
  intro held w idle
  unfold Shows
  rw [wp_derefInode]
  exact ⟨fun _ _ => .refl idle, fun _ => ⟨by simp, by simp⟩⟩

@[grind ←] theorem keeps_terminateWalk : Keeps benign terminateWalk := by
  unfold terminateWalk
  grind

@[grind ←] theorem keeps_pathToNameidata (path : Path) : Keeps benign (pathToNameidata path) := by
  unfold pathToNameidata
  grind

@[grind ←] theorem keeps_followManaged (path : Path) : Keeps benign (dcache (followManaged env path)) := by
  intro held w idle
  unfold Shows
  rw [wp_dcache, followManaged, after_bind]
  apply after_mono (followMount_pile _ _ _)
  rintro followed h' ⟨-, same, tick⟩
  exact idle.counted same (Nat.le_of_eq tick.symm)

@[grind ←] theorem keeps_lookupFast : Keeps benign (lookupFast env) := by
  intro held w idle
  apply Shows.mono lookupFast_ends
  intro result w' ends
  have stays : Stays w w' := by
    cases ends with
    | failed stays => exact stays
    | missed stays => exact stays
    | found stays _ _ => exact stays
  refine ⟨⟨idle.ok.trimmed stays.trimmed, stays.trimmed.held.trans idle.held, ?_, ?_⟩,
    stays.trimmed.grows stays.tick⟩
  · rw [stays.nd]
    exact idle.size
  · rw [stays.nd]
    exact idle.list

@[grind ←] theorem keeps_handleDots (type : LastType) : Keeps benign (handleDots env type) := by
  intro held w idle
  apply Shows.mono (handleDots_ends type)
  have wandered : ∀ {w' : World}, Wanders w w' → Kept held w w' := fun wanders =>
    ⟨⟨idle.ok.sameShape wanders.shape, wanders.shape.held.trans idle.held, wanders.size.trans idle.size,
      wanders.list.trans idle.list⟩, wanders.shape.toSameDentries.grows wanders.tick⟩
  intro status w' ends
  cases ends with
  | failed _ wanders => exact wandered wanders
  | moved _ wanders _ => exact wandered wanders
  | stayed => exact .refl idle

@[grind ←] theorem keeps_completeWalk : Keeps benign (completeWalk env) := by
  unfold completeWalk
  grind

/-! ### The end of an open -/

@[grind ←] theorem keeps_openOut (saveParent : Option Path) (status : Status) :
    Keeps benign (openOut saveParent status) := by
  unfold openOut
  grind

@[grind ←] theorem keeps_openedChecks (saveParent : Option Path) (truncate : Bool) :
    Keeps benign (openedChecks oenv saveParent truncate) := by
  unfold openedChecks
  grind

@[grind ←] theorem keeps_finishOpenCreated (saveParent : Option Path) (dir : DentryId)
    (truncate retried : Bool) : Keeps benign (finishOpenCreated oenv saveParent dir truncate retried) := by
  unfold finishOpenCreated
  apply keeps_bind keeps_getNd
  intro nd
  apply keeps_bind keeps_getHeap
  intro h
  apply keeps_bind (keeps_ask _)
  intro may
  cases may with
  | some error => grind
  | none =>
      apply keeps_bind (keeps_ask _)
      intro answer
      cases answer with
      | opened => grind
      | failed error => grind
      | openStale =>
          cases saveParent with
          | none => grind
          | some parent =>
              simp only
              split
              · grind
              · split
                · exact keeps_fault ⟨by simp, by simp⟩
                · apply keeps_bind (keeps_pathPut _)
                  intro _
                  apply keeps_bind keeps_getHeap
                  intro h
                  apply keeps_bind
                  · exact keeps_modifyNd fun nd => ⟨rfl, rfl⟩
                  · intro _
                    exact keeps_pure _

@[grind ←] theorem keeps_finishOpen (saveParent : Option Path) (dir : DentryId)
    (truncate retried : Bool) : Keeps benign (finishOpen env oenv saveParent dir truncate retried) := by
  unfold finishOpen
  grind

theorem keeps_finishLookupCompletes (op : OpenFlags) (dir : DentryId) (truncate retried : Bool)
    (saveParent : Option Path) :
    Keeps benign (finishLookupCompletes env oenv op dir truncate retried saveParent) := by
  unfold finishLookupCompletes
  apply keeps_bind keeps_completeWalk
  intro error
  grind

@[grind ←] theorem keeps_finishLookupOpen (op : OpenFlags) (symlinkOk : Bool) (dir : DentryId)
    (truncate retried : Bool) (path : Path) :
    Keeps benign (finishLookupOpen env oenv op symlinkOk dir truncate retried path) := by
  have completes : ∀ inode saveParent, Keeps benign
      (modifyNd (fun nd => { nd with inode := inode }) >>= fun _ =>
        finishLookupCompletes env oenv op dir truncate retried saveParent) := by
    intro inode saveParent
    apply keeps_bind
    · exact keeps_modifyNd fun nd => ⟨rfl, rfl⟩
    · intro _
      exact keeps_finishLookupCompletes op dir truncate retried saveParent
  unfold finishLookupOpen
  apply keeps_bind keeps_getHeap
  intro h
  simp only
  split
  · grind
  · split
    · exact keeps_pure _
    · apply keeps_bind keeps_getNd
      intro nd
      split
      · apply keeps_bind (keeps_pathToNameidata _)
        intro _
        apply keeps_bind (keeps_pure _)
        intro saved
        exact completes _ saved
      · apply keeps_bind
        · exact keeps_modifyNd fun nd => ⟨rfl, rfl⟩
        · intro _
          apply keeps_bind (keeps_pure _)
          intro saved
          exact completes _ saved

/-! ### Looking the last name up -/

/-- A dentry that has been allocated, like its parent. -/
structure Placed (h : Heap) (d : DentryId) : Prop where
  born : d < h.next
  parentBorn : h.parent d < h.next

theorem Filling.placed {h : Heap} {x : DentryId} (filling : Filling d h h') (placed : Placed h x) :
    Placed h' x :=
  ⟨by rw [filling.next]; exact placed.born, filling.parents x placed.parentBorn⟩

/-- A dentry that is found in the hash has been allocated, like its parent. -/
theorem HeapOk.placed {h : Heap} {dir : DentryId} {name : Name} (ok : HeapOk h)
    (found : h.hash dir name = some d) : Placed h d := by
  obtain ⟨parent, -, -, born⟩ := ok.hashed dir name d found
  refine ⟨born, ?_⟩
  by_contra unborn
  rw [parent] at unborn
  have childless := (ok.unborn dir (Nat.not_lt.mp unborn)).2 name
  rw [childless] at found
  cases found

theorem dMaterialiseUnique_positive (inode : Option Ino) {h : Heap} :
    after (dMaterialiseUnique env d inode)
      (fun result h' => ∀ o, result = .other o → h'.inode o ≠ none) h := by
  apply after_mono (dMaterialiseUnique_ends inode)
  rintro result h' ends o rfl
  cases ends with
  | other question positive hashed same different =>
      have moved : ((dMoveTo env o d h.ticked).dget o).inode o = h.inode o := moveTo_inode env o o
      rw [moved, same]
      exact Option.isSome_iff_ne_none.mp positive

/-- Where `lookup_real` gives another dentry, that one has an inode. -/
theorem lookupReal_positive (dir : Ino) {h : Heap} :
    after (lookupReal env dir d)
      (fun result h' => ∀ x, result = .ok x → x = d ∨ h'.inode x ≠ none) h := by
  have looked : after (nfsLookup env dir d)
      (fun result h' => ∀ o, result = .other o → h'.inode o ≠ none) h := by
    rw [nfsLookup, after_bind, after_get, after_ite]
    constructor
    · intro _ o other
      cases other
    · intro _
      rw [after_bind, after_ask]
      cases env.allocateHandles h.tick with
      | failed wild =>
          intro o other
          cases other
      | done =>
          simp only [after_bind, after_ask]
          cases env.lookupRpc h.ticked.tick dir (h.dentry d).name with
          | badHandle error =>
              intro o other
              cases other
          | found inode => exact dMaterialiseUnique_positive (some inode)
          | status error =>
              cases error with
              | ENOENT => exact dMaterialiseUnique_positive none
              | _ =>
                  intro o other
                  cases other
  rw [lookupReal, after_ite]
  constructor
  · intro _ x other
    cases other
  · intro _
    rw [after_bind]
    apply after_mono looked
    intro result h' positive
    cases result with
    | null =>
        rintro x same
        cases same
        exact .inl rfl
    | other o =>
        rintro x same
        cases same
        exact .inr (positive o rfl)
    | failed error =>
        intro x other
        cases other

/-- `lookup_real` fills a fresh dentry, and what it gives is that one or has an inode. -/
theorem lookupReal_fills (placed : Placed w.heap d) (fresh : w.heap.inode d = none) (idle : Idle held w)
    (dir : Ino) :
    Shows benign (dcache (lookupReal env dir d))
      (fun result w' => Kept held w w' ∧
        ∀ x, result = .ok x → Placed w'.heap x ∨ w'.heap.inode x ≠ none) w := by
  unfold Shows
  rw [wp_dcache]
  have both : after (lookupReal env dir d)
      (fun result h' => (Filling d w.heap h' ∧ w.heap.tick ≤ h'.tick ∧
        ∀ x, result = .ok x → Told env dir (w.heap.dentry d).name w.heap h' x) ∧
          ∀ x, result = .ok x → x = d ∨ h'.inode x ≠ none) w.heap :=
    ⟨lookupReal_told idle.ok placed.born placed.parentBorn dir, lookupReal_positive dir⟩
  apply after_mono both
  rintro result h' ⟨⟨filling, tick, -⟩, given⟩
  refine ⟨idle.filled fresh filling tick, ?_⟩
  intro x equal
  rcases given x equal with rfl | positive
  · exact .inl (filling.placed placed)
  · exact .inr positive

/-- A fresh dentry is given an inode. -/
theorem dInstantiate_keeps (placed : Placed w.heap d) (fresh : w.heap.inode d = none) (idle : Idle held w)
    (inode : Option Ino) : Kept held w { w with heap := dInstantiate env d inode w.heap } :=
  idle.filled fresh (filling_instantiate env idle.ok placed.born placed.parentBorn inode).1 (Nat.le_refl _)

/-- A step that keeps the mutexes follows. -/
theorem Kept.andThen {x : Walk α} {w₁ : World} (kept : Kept held w w₁) (keeps : Keeps benign x) :
    Shows benign x (fun _ w' => Kept held w w') w₁ :=
  (keeps held w₁ kept.idle).mono fun _ _ more => kept.trans more

theorem keeps_putAndFail (d : DentryId) (looked : Looked) :
    Keeps benign (modifyHeap (·.dput d) >>= fun _ => pure looked) := by
  apply keeps_bind (keeps_dput d)
  intro _
  exact keeps_pure _

theorem atomicNoOpen_keeps (op : OpenFlags) (dir : Ino) (needLookup : Bool) (createError : Option Errno)
    (placed : Placed w.heap d) (fresh : w.heap.inode d = none) (idle : Idle held w) :
    Shows benign (atomicNoOpen env op dir d needLookup createError) (fun _ w' => Kept held w w') w := by
  unfold Shows
  rw [atomicNoOpen, wp_bind, wp_getNd]
  change wp _ _ (if _ then _ else _) _ _
  rw [wp_ite]
  constructor
  · intro _
    rw [wp_bind]
    apply Shows.mono (lookupReal_fills placed fresh idle dir)
    rintro result w₁ ⟨kept, -⟩
    apply kept.andThen
    cases result with
    | error error => exact keeps_pure _
    | ok dentry =>
        apply keeps_bind keeps_getHeap
        intro h
        cases createError with
        | none => exact keeps_pure _
        | some error =>
            cases h.inode dentry with
            | none => exact keeps_putAndFail dentry _
            | some inode =>
                simp only
                split
                · exact keeps_putAndFail dentry _
                · exact keeps_pure _
  · intro _
    exact .refl idle

theorem atomicCall_keeps (op : OpenFlags) (dir : Ino) (createError : Option Errno)
    (placed : Placed w.heap d) (fresh : w.heap.inode d = none) (idle : Idle held w) :
    Shows benign (atomicCall env oenv op dir d createError) (fun _ w' => Kept held w w') w := by
  have asked : Kept held w { w with heap := w.heap.ticked } := idle.counted (.ticked _) (Nat.le_succ _)
  have filled : ∀ inode, Kept held w { w with heap := dInstantiate env d inode w.heap.ticked } := by
    intro inode
    exact asked.trans (dInstantiate_keeps (w := { w with heap := w.heap.ticked })
      ⟨placed.born, placed.parentBorn⟩ fresh asked.idle inode)
  unfold Shows
  rw [atomicCall, wp_bind, wp_getNd]
  change wp _ _ (getHeap >>= _) _ _
  rw [wp_bind, wp_getHeap]
  change wp _ _ (dcache _ >>= _) _ _
  rw [wp_bind, wp_dcache, after_ask]
  cases oenv.atomicOpen w.heap.tick dir (w.heap.dentry d).name with
  | failed error => exact asked.andThen (keeps_putAndFail d _)
  | noOpen inode created =>
      cases inode with
      | none =>
          simp only [wp_bind, wp_modifyHeap]
          apply (filled none).andThen
          cases createError with
          | none => exact keeps_pure _
          | some error => exact keeps_putAndFail d _
      | some inode =>
          simp only [wp_bind, wp_modifyHeap]
          apply (filled (some inode)).andThen
          split
          · exact keeps_putAndFail d _
          · exact keeps_pure _
  | opened inode created =>
      rw [wp_bind, wp_modifyHeap]
      apply (filled (some inode)).andThen
      apply keeps_bind (keeps_ask _)
      intro error
      apply keeps_bind (keeps_dput d)
      intro _
      cases error with
      | none => exact keeps_pure _
      | some error => exact keeps_pure _

theorem atomicOpen_keeps (op : OpenFlags) (gotWrite : Bool) (dir : Ino) (needLookup : Bool)
    (placed : Placed w.heap d) (idle : Idle held w) :
    Shows benign (atomicOpen env oenv op gotWrite dir d needLookup) (fun _ w' => Kept held w w') w := by
  unfold Shows
  rw [atomicOpen, wp_bind, wp_getHeap, wp_ite]
  constructor
  · intro _
    exact ⟨by simp, by simp⟩
  · intro negative
    rw [not_not] at negative
    have noOpen := fun createError =>
      @atomicNoOpen_keeps env benign held d w op dir needLookup createError placed negative idle
    have call := fun createError =>
      @atomicCall_keeps env oenv benign held d w op dir createError placed negative idle
    split
    · exact (Kept.refl idle).andThen (keeps_putAndFail d _)
    · split
      · split
        · exact noOpen none
        · split
          · exact noOpen (some erofs)
          · exact call (some erofs)
      · split
        · rw [wp_bind, wp_dcache, after_ask]
          have asked : Kept held w { w with heap := w.heap.ticked } :=
            idle.counted (.ticked _) (Nat.le_succ _)
          have callNow := fun createError =>
            (@atomicCall_keeps env oenv benign held d { w with heap := w.heap.ticked } op dir createError
              ⟨placed.born, placed.parentBorn⟩ negative asked.idle).mono fun _ _ more => asked.trans more
          cases oenv.mayCreate w.heap.tick dir with
          | none => exact callNow none
          | some error =>
              simp only
              split
              · apply (@atomicNoOpen_keeps env benign held d { w with heap := w.heap.ticked } op dir needLookup
                  (some error) ⟨placed.born, placed.parentBorn⟩ negative asked.idle).mono
                exact fun _ _ more => asked.trans more
              · exact callNow (some error)
        · exact call none

theorem lookupCreate_keeps (op : OpenFlags) (gotWrite : Bool) (dir : Ino)
    (placed : Placed w.heap d ∨ w.heap.inode d ≠ none) (idle : Idle held w) :
    Shows benign (lookupCreate env oenv op gotWrite dir d) (fun _ w' => Kept held w w') w := by
  unfold Shows
  rw [lookupCreate, wp_bind, wp_getNd]
  change wp _ _ (getHeap >>= _) _ _
  rw [wp_bind, wp_getHeap, wp_ite]
  constructor
  · rintro ⟨fresh, -⟩
    have born : Placed w.heap d := placed.resolve_right fun positive => positive fresh
    rw [wp_ite]
    constructor
    · intro _
      rw [wp_bind, wp_dcache, after_ask]
      have asked : Kept held w { w with heap := w.heap.ticked } := idle.counted (.ticked _) (Nat.le_succ _)
      cases oenv.mayCreate w.heap.tick dir with
      | some error => exact asked.andThen (keeps_putAndFail d _)
      | none =>
          simp only
          rw [wp_bind, wp_getHeap]
          change wp _ _ (dcache _ >>= _) _ _
          rw [wp_bind, wp_dcache, after_ask]
          have twice : Kept held w { w with heap := w.heap.ticked.ticked } :=
            asked.trans (asked.idle.counted (.ticked _) (Nat.le_succ _))
          cases oenv.create w.heap.ticked.tick dir (w.heap.ticked.dentry d).name with
          | error error => exact twice.andThen (keeps_putAndFail d _)
          | ok inode =>
              simp only [wp_bind, wp_modifyHeap, wp_pure]
              exact twice.trans
                (dInstantiate_keeps (w := { w with heap := w.heap.ticked.ticked })
                  ⟨born.born, born.parentBorn⟩ fresh twice.idle (some inode))
    · intro _
      exact (Kept.refl idle).andThen (keeps_putAndFail d _)
  · intro _
    exact .refl idle

/-- A fresh dentry has a place in its directory and no inode. -/
theorem Idle.allocates {dir : DentryId} {name : Name} {inode : Ino} {middle : Heap} (idle : Idle held w)
    (positive : w.heap.inode dir = some inode) (trimmed : Trimmed w.heap middle)
    (allocated : Allocated dir name middle h') (tick : w.heap.tick ≤ h'.tick) :
    Placed h' w.heap.next ∧ h'.inode w.heap.next = none ∧ Kept held w { w with heap := h' } := by
  have okMiddle := idle.ok.trimmed trimmed
  have new : h'.dentry w.heap.next = ⟨dir, name, none, .miss⟩ := by
    rw [← trimmed.next]
    exact allocated.fresh
  have born : w.heap.next < h'.next := by
    rw [allocated.next, trimmed.next]
    exact Nat.lt_succ_self _
  refine ⟨⟨born, ?_⟩, ?_, ⟨okMiddle.allocated allocated, ?_, idle.size, idle.list⟩, tick, ?_, ?_⟩
  · rw [Heap.parent, new]
    exact Nat.lt_trans (idle.ok.born positive) born
  · rw [Heap.inode, new]
  · exact (allocated.held.trans trimmed.held).trans idle.held
  · rw [allocated.next, trimmed.next]
    exact Nat.le_succ _
  · intro x i found
    rw [Heap.inode, allocated.old (by rw [trimmed.next]; exact idle.ok.born found), trimmed.dentry]
    exact found

theorem keeps_lookupOpen (op : OpenFlags) (gotWrite : Bool) :
    Keeps benign (lookupOpen env oenv op gotWrite) := by
  intro held w idle
  unfold Shows
  rw [lookupOpen, wp_bind, wp_getNd, wp_bind, wp_derefInode]
  constructor
  · intro dir positive
    rw [wp_bind, wp_dcache]
    have looked : after (lookupDcache env w.nd.last.text w.nd.path.dentry)
        (fun result h' => LookupEnds w.nd.path.dentry w.nd.last.text w.heap result h' ∧
          w.heap.tick ≤ h'.tick) w.heap :=
      ⟨lookupDcache_ends env idle.ok _ _, ticks_lookupDcache env _ _ _⟩
    apply after_mono looked
    rintro result h' ⟨ends, tick⟩
    cases ends with
    | failed trimmed => exact idle.trimmed trimmed tick
    | @cached c _ found same =>
        have kept := idle.counted same tick
        have placed : Placed h' c := by
          have before := idle.ok.placed found
          exact ⟨by rw [same.next]; exact before.born, by rw [same.parent, same.next]; exact before.parentBorn⟩
        simp only [wp_bind, wp_getHeap]
        split
        · exact kept
        · split
          · apply (atomicOpen_keeps op gotWrite dir false placed kept.idle).mono
            exact fun _ _ more => kept.trans more
          · simp only [Bool.false_eq_true, if_false]
            apply (lookupCreate_keeps op gotWrite dir (.inl placed) kept.idle).mono
            exact fun _ _ more => kept.trans more
    | @fresh middle _ trimmed missing allocated =>
        obtain ⟨placed, negative, kept⟩ := idle.allocates positive trimmed allocated tick
        simp only [wp_bind, wp_getHeap]
        split
        · exact kept
        · split
          · apply (atomicOpen_keeps op gotWrite dir true placed kept.idle).mono
            exact fun _ _ more => kept.trans more
          · simp only [if_true, wp_bind]
            apply Shows.mono (lookupReal_fills placed negative kept.idle dir)
            rintro result w₂ ⟨filled, given⟩
            have all := kept.trans filled
            cases result with
            | error error => exact all
            | ok x =>
                apply (lookupCreate_keeps op gotWrite dir (given x rfl) filled.idle).mono
                exact fun _ _ more => all.trans more
  · intro _
    exact ⟨by simp, by simp⟩

/-! ### Under the mutex of the directory -/

/-- A walk that holds no mutex takes that of a directory. -/
theorem Quiet.locks {f : Unit → Walk β} {post : β → World → Prop} {dir : DentryId} (quiet : Quiet w)
    (rest : ∀ inode w', w.heap.inode dir = some inode → Grows w.heap w'.heap → Idle [inode] w' →
      Shows benign (f ()) post w') : Shows benign (mutexLock dir >>= f) post w := by
  unfold Shows
  rw [wp_bind]
  apply shows_mutexLock quiet.held
  intro inode positive
  have locked : SameDentries w.heap { w.heap with held := [inode] } := ⟨rfl, rfl, rfl⟩
  apply rest inode _ positive (locked.grows (Nat.le_refl _))
  exact ⟨quiet.ok.sameDentries locked, rfl, quiet.size, quiet.list⟩

/-- The walk gives the mutex of the directory back. -/
theorem Idle.unlocks {f : Unit → Walk β} {post : β → World → Prop} {dir : DentryId} {inode : Ino}
    (idle : Idle [inode] w) (positive : w.heap.inode dir = some inode)
    (rest : ∀ w', Quiet w' → Grows w.heap w'.heap → Shows benign (f ()) post w') :
    Shows benign (mutexUnlock dir >>= f) post w := by
  have released : SameDentries w.heap { w.heap with held := [] } := ⟨rfl, rfl, rfl⟩
  unfold Shows
  rw [wp_bind]
  apply shows_mutexUnlock positive idle.held
  exact rest _ ⟨idle.ok.sameDentries released, rfl, idle.size, idle.list⟩ (released.grows (Nat.le_refl _))

/-- A step under the mutex of a directory gives it back. -/
theorem locked_orderly {x : Walk α} {f : α → Walk β} {post : β → World → Prop} {dir : DentryId}
    (quiet : Quiet w) (keeps : Keeps benign x)
    (rest : ∀ value w', Quiet w' → Shows benign (f value) post w') :
    Shows benign
      (mutexLock dir >>= fun _ => x >>= fun value => mutexUnlock dir >>= fun _ => f value) post w := by
  apply quiet.locks
  intro inode w₁ positive grows idle
  unfold Shows
  rw [wp_bind]
  apply Shows.mono (keeps [inode] w₁ idle)
  intro value w₂ kept
  apply kept.idle.unlocks ((grows.trans kept.grows).inode _ _ positive)
  exact fun w' quiet _ => rest value w' quiet

/-- A step that keeps the mutexes, with none held. -/
theorem Keeps.quiet {x : Walk α} (keeps : Keeps benign x) (quiet : Quiet w) :
    Shows benign x (fun _ w' => Quiet w') w :=
  (keeps [] w quiet.idle).mono fun _ _ kept => kept.idle.quiet

theorem Keeps.follow {x : Walk α} {f : α → Walk β} {post : β → World → Prop} (keeps : Keeps benign x)
    (quiet : Quiet w) (rest : ∀ value w', Quiet w' → Shows benign (f value) post w') :
    Shows benign (x >>= f) post w := by
  unfold Shows
  rw [wp_bind]
  exact (keeps.quiet quiet).mono rest

theorem retryLookup_orderly (op : OpenFlags) (symlinkOk : Bool) (dir : DentryId) (fuel : Nat)
    (truncate retried : Bool) (quiet : Quiet w) :
    Shows benign (retryLookup env oenv op symlinkOk dir fuel truncate retried) (fun _ w' => Quiet w') w := by
  induction fuel generalizing truncate retried w with
  | zero => exact ⟨by simp, by simp⟩
  | succ fuel inductionHypothesis =>
      unfold retryLookup
      extract_lets goesOn looksUp
      have goes : ∀ finish w', Quiet w' → Shows benign (goesOn finish) (fun _ w' => Quiet w') w' := by
        intro finish w' quiet
        cases finish with
        | ended status => exact quiet
        | retry truncate => exact inductionHypothesis truncate true quiet
      have looks : ∀ gotWrite w', Quiet w' →
          Shows benign (looksUp gotWrite) (fun _ w' => Quiet w') w' := by
        intro gotWrite w' quiet
        clear_value goesOn
        apply locked_orderly quiet (keeps_lookupOpen op gotWrite)
        intro looked w₁ quiet
        have ends : ∀ {x : Walk Finish} {w₂ : World}, Keeps benign x → Quiet w₂ →
            Shows benign (x >>= goesOn) (fun _ w' => Quiet w') w₂ :=
          fun keeps quiet => keeps.follow quiet goes
        have ended : ∀ {x : Walk Status} {w₂ : World}, Keeps benign x → Quiet w₂ →
            Shows benign (x >>= fun status => pure (Finish.ended status) >>= goesOn)
              (fun _ w' => Quiet w') w₂ :=
          fun keeps quiet => keeps.follow quiet fun status w' quiet => goes (.ended status) w' quiet
        split
        · exact ended (keeps_openOut none _) quiet
        · exact ended (keeps_openedChecks none _) quiet
        · apply (keeps_pathToNameidata _).follow quiet
          intro _ w₂ quiet
          exact ends (keeps_finishOpenCreated none dir false retried) quiet
        · split
          · apply (keeps_pathPut _).follow quiet
            intro _ w₂ quiet
            exact ended (keeps_openOut none _) quiet
          · apply (keeps_followManaged _).follow quiet
            rintro ⟨path, crossed⟩ w₂ quiet
            have finishes : ∀ {w' : World}, Quiet w' →
                Shows benign (finishLookupOpen env oenv op symlinkOk dir truncate retried path >>= goesOn)
                  (fun _ w' => Quiet w') w' :=
              fun quiet => ends (keeps_finishLookupOpen op symlinkOk dir truncate retried path) quiet
            simp only
            split
            · unfold Shows
              rw [wp_bind, wp_modifyNd]
              exact finishes (quiet.transport rfl rfl rfl)
            · exact finishes quiet
      clear_value looksUp
      split
      · unfold Shows
        rw [wp_bind, wp_getNd, wp_bind]
        apply Shows.mono ((keeps_ask _).quiet quiet)
        exact fun gotWrite w' quiet => looks gotWrite w' quiet
      · exact looks false w quiet

/-! ### The last component of an open -/

theorem doLastDots_keeps (op : OpenFlags) (dir : DentryId) (type : LastType) :
    Keeps benign (doLastDots env oenv op dir type) := by
  unfold doLastDots
  extract_lets goesOn
  have completes : ∀ status, Keeps benign (goesOn status) := by
    intro status
    cases status with
    | done =>
        apply keeps_bind keeps_completeWalk
        intro error
        cases error with
        | some error => exact keeps_pure _
        | none =>
            simp only
            split
            · exact keeps_openOut none _
            · apply keeps_bind (keeps_finishOpen none dir op.trunc false)
              intro finish
              cases finish with
              | ended status => exact keeps_pure _
              | retry truncate => exact keeps_fault ⟨by simp, by simp⟩
    | link path => exact keeps_pure _
    | chainLink path => exact keeps_pure _
    | fail error => exact keeps_pure _
  clear_value goesOn
  split
  · exact keeps_bind (keeps_handleDots type) completes
  · exact keeps_bind (keeps_pure _) completes

theorem doLastName_orderly (op : OpenFlags) (dir : DentryId) (quiet : Quiet w) :
    Shows benign (doLastName env oenv op dir) (fun _ w' => Quiet w') w := by
  unfold Shows
  rw [doLastName, wp_bind, wp_getNd, wp_ite]
  constructor
  · intro _
    apply Keeps.follow keeps_completeWalk quiet
    intro error w₁ quiet
    cases error with
    | some error => exact quiet
    | none =>
        simp only
        split
        · exact (keeps_openOut none _).quiet quiet
        · exact retryLookup_orderly op false dir openTries op.trunc false quiet
  · intro _
    rw [wp_bind, wp_modifyNd]
    change wp _ _ (lookupFast env >>= _) _ _
    have slashed : Quiet { w with nd := { w.nd with
        flags := { w.nd.flags with
          follow := w.nd.flags.follow || w.nd.last.slashAfter
          directory := w.nd.flags.directory || w.nd.last.slashAfter } } } :=
      quiet.transport rfl rfl rfl
    apply Keeps.follow keeps_lookupFast slashed
    intro found w₁ quiet
    cases found with
    | error error => exact (keeps_openOut none _).quiet quiet
    | ok found =>
        cases found with
        | some path =>
            apply Keeps.follow (keeps_finishLookupOpen op _ dir op.trunc false path) quiet
            intro finish w₂ quiet
            cases finish with
            | ended status => exact quiet
            | retry truncate => exact retryLookup_orderly op _ dir openTries truncate true quiet
        | none =>
            simp only [wp_bind, wp_getNd, wp_getHeap, wp_ite]
            refine ⟨fun _ => ⟨by simp, by simp⟩, fun _ => ?_⟩
            exact retryLookup_orderly op _ dir openTries op.trunc false quiet

/-- `do_last` flushes a pending chain, and leaves none. -/
theorem doLast_orderly (idles : ∀ event, benign event → SearchesIdle event) (op : OpenFlags)
    (between : Between w) : Shows benign (doLast env oenv op) (fun _ w' => Quiet w') w := by
  have searches : ∀ {w₁ : World}, Between w₁ → Shows benign
      (do
        observe .search
        modifyNd fun nd => { nd with flags := { nd.flags with parent := false } }
        let nd ← getNd
        if nd.lastType = .norm then
          doLastName env oenv op nd.path.dentry
        else
          doLastDots env oenv op nd.path.dentry nd.lastType) (fun _ w' => Quiet w') w₁ := by
    intro w₁ between
    unfold Shows
    rw [wp_bind, wp_observe]
    intro told
    have quiet := between.quiet (idles _ told)
    have flagged : Quiet { w₁ with nd := { w₁.nd with flags := { w₁.nd.flags with parent := false } } } :=
      quiet.transport rfl rfl rfl
    refine ⟨trivial, ?_⟩
    rw [wp_bind, wp_modifyNd, wp_bind, wp_getNd, wp_ite]
    constructor
    · intro _
      exact doLastName_orderly op _ flagged
    · intro _
      exact (doLastDots_keeps op _ _).quiet flagged
  unfold Shows
  rw [doLast, wp_bind, wp_getNd, wp_bind, wp_getHeap]
  change wp _ _ (if _ then _ else _) _ _
  rw [wp_ite]
  constructor
  · rintro ⟨-, busy⟩
    rw [wp_bind, wp_observe]
    intro _
    refine ⟨trivial, ?_⟩
    rcases between with quiet | ⟨queued, -⟩
    · exact absurd quiet.size busy
    · rw [wp_bind]
      apply Shows.mono (chainLookup_ends queued)
      intro status w₁ ends
      have quiet := ends.flushed.quiet
      cases status with
      | done => exact searches (.inl quiet)
      | fail error => exact quiet
      | link path => exact quiet
      | chainLink path => exact quiet
  · intro _
    exact searches between

theorem openTrailing_orderly (idles : ∀ event, benign event → SearchesIdle event) (op : OpenFlags)
    (fuel : Nat) (path : Path) (quiet : Quiet w) :
    Shows benign (openTrailing env oenv op fuel path) (fun status w' => Leaves (status = .done) w') w := by
  induction fuel generalizing path w with
  | zero => exact ⟨by simp, by simp⟩
  | succ fuel inductionHypothesis =>
      unfold Shows
      rw [openTrailing, wp_bind, wp_getNd, wp_ite]
      constructor
      · intro _
        rw [wp_bind]
        apply Shows.mono (mayFollowLink_ends quiet path)
        intro may w₁ quiet
        rw [wp_ite]
        constructor
        · intro _
          have flagged :
              Quiet { w₁ with nd := { w₁.nd with flags := { w₁.nd.flags with parent := true } } } :=
            quiet.transport rfl rfl rfl
          rw [wp_bind, wp_modifyNd, wp_bind]
          apply Shows.mono (followLink_orderly (walkText_orderly idles) flagged path)
          intro result w₂ between
          cases result with
          | error error => exact between.leaves (by simp)
          | ok link =>
              simp only [wp_bind]
              apply Shows.mono (doLast_orderly idles op between)
              intro status w₃ quiet
              apply shows_putLink
              have counted := quiet.counted (.dput _ link.dentry)
              cases status with
              | done => exact counted.leaves
              | fail error => exact counted.leaves
              | link path => exact inductionHypothesis path counted
              | chainLink path => exact inductionHypothesis path counted
        · intro _
          exact quiet.leaves
      · intro _
        exact (quiet.gaveUp _ _).leaves (by simp)

theorem openRelookup_orderly (idles : ∀ event, benign event → SearchesIdle event) (op : OpenFlags)
    (fuel : Nat) (name : List UInt8) (between : Between w) :
    Shows benign (openRelookup env oenv op fuel name) (fun result w' => Leaves (result.1 = .done) w') w := by
  induction fuel generalizing name w with
  | zero => exact ⟨by simp, by simp⟩
  | succ fuel inductionHypothesis =>
      unfold Shows
      rw [openRelookup, wp_bind]
      apply Shows.mono (walkText_orderly idles (components name) w between)
      intro status w₁ left
      cases status with
      | fail error => exact Between.leaves left (by simp)
      | link path => exact left.elim
      | chainLink path => exact left.elim
      | done =>
          simp only [wp_bind]
          apply Shows.mono (doLast_orderly idles op left)
          intro status w₂ quiet
          cases status with
          | done => exact quiet.leaves
          | fail error => exact quiet.leaves
          | link path =>
              simp only [wp_bind, wp_pure]
              exact openTrailing_orderly idles op _ path quiet
          | chainLink path =>
              simp only [wp_bind, wp_observe, wp_getNd]
              intro _
              refine ⟨trivial, fun _ => ⟨trivial, ?_⟩⟩
              exact inductionHypothesis _ (.inl quiet)

/-- The end of an open leaves the chain as it is. -/
theorem finishOpenat_orderly (status : Status) (left : Leaves (status = .done) w) :
    Shows benign (finishOpenat status) (fun result w' => Leaves (result = .done) w') w := by
  have ended : ∀ {w₁ : World}, Leaves (status = .done) w₁ → Shows benign
      (if status = .fail eopenstale then return .fail .ESTALE else return status : Walk Status)
      (fun result w' => Leaves (result = .done) w') w₁ := by
    intro w₁ left
    split
    · exact left.between.leaves (by simp)
    · exact left
  unfold Shows
  rw [finishOpenat, wp_bind, wp_getNd]
  cases w.nd.root with
  | none => exact ended left
  | some root =>
      simp only
      split
      · exact ended left
      · rw [wp_bind, pathPut, wp_modifyHeap]
        exact ended ⟨left.between.counted (.dput _ _), fun done => (left.quiet done).counted (.dput _ _)⟩

/-- An open leaves its chain in order, and none behind a file. -/
theorem openPathname_orderly (idles : ∀ event, benign event → SearchesIdle event) (op : OpenFlags)
    (ok : HeapOk w.heap) (free : w.heap.held = []) (fuel : Nat) (dfd : Option Nat) (pathname : Filename)
    (flags : LookupFlags) :
    Shows benign (openPathname env oenv op fuel dfd pathname flags)
      (fun result w' => result.1 = .done → Quiet w') w := by
  unfold Shows
  rw [openPathname]
  cases oenv.emptyFilp with
  | some error => exact fun other => by cases other
  | none =>
      simp only
      rw [wp_bind]
      apply Shows.mono (pathInit_ends ok free dfd pathname.name _)
      intro error w₁ started
      cases error with
      | some error =>
          simp only [wp_bind, wp_pure]
          apply Shows.mono (finishOpenat_orderly _ started.quiet.leaves)
          exact fun _ _ left => left.quiet
      | none =>
          simp only [wp_bind, wp_update]
          have between : Between { w₁ with totalLinkCount := 0 } :=
            .inl (started.quiet.transport rfl rfl rfl)
          apply Shows.mono (openRelookup_orderly idles op fuel pathname.name between)
          rintro ⟨status, name⟩ w₂ left
          simp only [wp_pure]
          apply Shows.mono (finishOpenat_orderly status left)
          exact fun _ _ left => left.quiet

end Nfs4Compound.Vfs
