/-
Module: Nfs4Compound.Proofs.WalkChain
Layer: Proofs
Purpose: The ways in which `walk_chain` can end for a name and for dots: the queue grows, a cached
  dentry takes the walk further, or the whole chain is looked up.
Imports: Nfs4Compound.Proofs.ChainSteps
Trusted boundary: none
Main exports: MountPile, Accepted, Extended, NameEnds, walkChainName_ends
-/
import Nfs4Compound.Proofs.ChainSteps

namespace Nfs4Compound.Vfs

open Prog

variable {env : Env} {benign : Event → Prop} {h h' : Heap} {d : DentryId} {w : World}

/-! ### A longer chain -/

/-- Where the next name of the chain is looked up. -/
def lastDentry (w : World) : DentryId :=
  match w.nd.dchainList.getLast? with
  | some entry => entry.dentry
  | none => w.nd.path.dentry

theorem TempChain.snoc {parent : DentryId} {entries : List ChainDentry} {entry : ChainDentry}
    (linked : TempChain h parent entries)
    (link : h.parent entry.dentry = ((entries.getLast?).map (·.dentry)).getD parent)
    (unhashed : h.isHashed entry.dentry = false) (type : h.type entry.dentry = .chainTemp) :
    TempChain h parent (entries ++ [entry]) := by
  induction entries generalizing parent with
  | nil => exact ⟨link, unhashed, type, trivial⟩
  | cons e rest inductionHypothesis =>
      obtain ⟨first, notHashed, temporary, more⟩ := linked
      refine ⟨first, notHashed, temporary, inductionHypothesis more ?_⟩
      rw [link, List.getLast?_cons]
      cases rest.getLast? with
      | none => rfl
      | some last => rfl

theorem HeapOk.setType (ok : HeapOk h) (unhashed : ∀ x n, h.hash x n ≠ some d) (type : EntryType) :
    HeapOk (h.dSetType d type) := by
  constructor
  · intro x n c found
    have other : c ≠ d := by
      rintro rfl
      exact unhashed x n found
    have old := ok.hashed x n c found
    simpa [Heap.dSetType, Heap.parent, Heap.type, Heap.setDentry_other _ _ _ _ other] using old
  · intro x above
    obtain ⟨negative, childless⟩ := ok.unborn x above
    refine ⟨?_, childless⟩
    by_cases same : x = d
    · subst same
      simpa [Heap.dSetType, Heap.inode] using negative
    · simpa [Heap.dSetType, Heap.inode, Heap.setDentry_other _ _ _ _ same] using negative

/-- What one more name in the queue means. -/
structure Extended (w w' : World) : Prop where
  queued : Queued w'
  list : ∃ d, w'.nd.dchainList = w.nd.dchainList ++ [⟨d, w.nd.last⟩]
  path : w'.nd.path = w.nd.path
  inode : w'.nd.inode = w.nd.inode
  flags : w'.nd.flags = w.nd.flags
  grows : Grows w.heap w'.heap

/-- The new dentry is allocated, and becomes the last temporary one of the chain. -/
theorem Locked.extended {middle : Heap} (locked : Locked w) (trimmed : Trimmed w.heap middle)
    (allocated : Allocated (lastDentry w) w.nd.last.text middle h) (order : w.heap.tick ≤ h.tick) :
    Extended w { w with
      heap := h.ticked.dSetType w.heap.next .chainTemp
      nd := { w.nd with
        dchainList := w.nd.dchainList ++ [⟨w.heap.next, w.nd.last⟩]
        chainSize := w.nd.chainSize + 1 } } := by
  obtain ⟨inode, positive, held⟩ := locked.locked
  have parentBorn := locked.ok.born positive
  have same : SameShape h h.ticked := .ticked h
  have fresh : h.dentry w.heap.next = ⟨lastDentry w, w.nd.last.text, none, .miss⟩ := by
    rw [← trimmed.next]
    exact allocated.fresh
  have next : h.next = w.heap.next + 1 := by rw [allocated.next, trimmed.next]
  have okMiddle := locked.ok.trimmed trimmed
  have ok : HeapOk h.ticked := (okMiddle.allocated allocated).sameShape same
  have unhashed : ∀ x n, h.ticked.hash x n ≠ some w.heap.next := by
    intro x n found
    rw [same.hash, allocated.hash] at found
    have born := (okMiddle.hashed x n _ found).2.2.2
    rw [trimmed.next] at born
    exact Nat.lt_irrefl _ born
  -- the dentries that were there before are not touched
  have old : ∀ x, x < w.heap.next →
      (h.ticked.dSetType w.heap.next .chainTemp).dentry x = w.heap.dentry x := by
    intro x born
    rw [Heap.dSetType, Heap.setDentry_other _ _ _ _ (Nat.ne_of_lt born), same.dentry,
      allocated.old (by rw [trimmed.next]; exact born), trimmed.dentry]
  have new : (h.ticked.dSetType w.heap.next .chainTemp).dentry w.heap.next =
      ⟨lastDentry w, w.nd.last.text, none, .chainTemp⟩ := by
    rw [Heap.dSetType, Heap.setDentry_self, same.dentry, fresh]
  have hash : ∀ x n c, (h.ticked.dSetType w.heap.next .chainTemp).hash x n = some c →
      w.heap.hash x n = some c := by
    intro x n c found
    change h.hash x n = some c at found
    rw [allocated.hash] at found
    exact trimmed.hash x n c found
  have still : ∀ e ∈ w.nd.dchainList,
      (h.ticked.dSetType w.heap.next .chainTemp).dentry e.dentry = w.heap.dentry e.dentry :=
    fun e member => old _ (locked.barren e member).1
  refine ⟨⟨⟨⟨ok.setType unhashed _, inode, ?_, ?_⟩, ?_, locked.place, ?_, ?_⟩, by simp⟩, ⟨_, rfl⟩, rfl, rfl, rfl,
    Nat.le_trans order (Nat.le_succ _), ?_, ?_⟩
  · rw [Heap.inode, old _ parentBorn]
    exact positive
  · change h.held = [inode]
    rw [allocated.held, trimmed.held, held]
  · simp [locked.size]
  · refine ⟨?_, ?_, ?_⟩
    · apply TempChain.snoc (locked.pending.linked.transport still _)
      · rw [Heap.parent, new, lastDentry]
        cases w.nd.dchainList.getLast? with
        | none => exact locked.place
        | some entry => rfl
      · rw [Bool.eq_false_iff, ne_eq, Heap.isHashed_iff]
        exact unhashed _ _
      · rw [Heap.type, new]
      · intro e member notHashed
        rw [Bool.eq_false_iff, ne_eq, isHashed_of_dentry (still e member)] at *
        rw [Heap.isHashed_iff] at notHashed
        exact fun found => notHashed (hash _ _ _ found)
    · rw [List.map_append, ← List.cons_append, List.nodup_append]
      refine ⟨locked.pending.distinct, by simp, ?_⟩
      intro x member y single same
      rw [List.map_singleton, List.mem_singleton] at single
      subst single same
      rcases List.mem_cons.mp member with equal | inList
      · have equal : w.heap.next = w.nd.chainParent := equal
        rw [← equal] at parentBorn
        exact Nat.lt_irrefl _ parentBorn
      · obtain ⟨e, inList, equal⟩ := List.mem_map.mp inList
        have born := (locked.barren e inList).1
        rw [equal] at born
        exact Nat.lt_irrefl _ born
    · intro e member
      rcases List.mem_append.mp member with inList | single
      · rw [Heap.inode, still e inList]
        exact locked.pending.negative e inList
      · rw [List.mem_singleton.mp single, Heap.inode, new]
  · intro e member
    have nothing : ∀ x n, w.heap.hash x n = none →
        (h.ticked.dSetType w.heap.next .chainTemp).hash x n = none := by
      intro x n missing
      cases found : (h.ticked.dSetType w.heap.next .chainTemp).hash x n with
      | none => rfl
      | some c =>
          rw [hash x n c found] at missing
          cases missing
    rcases List.mem_append.mp member with inList | single
    · obtain ⟨born, childless⟩ := locked.barren e inList
      refine ⟨?_, fun n => nothing _ _ (childless n)⟩
      change e.dentry < h.next
      rw [next]
      exact Nat.lt_succ_of_lt born
    · rw [List.mem_singleton.mp single]
      refine ⟨?_, fun n => nothing _ _ ((locked.ok.unborn _ (Nat.le_refl _)).2 n)⟩
      change w.heap.next < h.next
      rw [next]
      exact Nat.lt_succ_self _
  · change w.heap.next ≤ h.next
    rw [next]
    exact Nat.le_succ _
  · intro x i found
    rw [Heap.inode, old x (locked.ok.born found)]
    exact found

/-! ### The directory of the next name -/

/-- The mutex is held and the dentries are as they were. -/
structure Based (w w' : World) : Prop where
  locked : Locked w'
  nd : w'.nd = { w.nd with chainParent := w'.nd.chainParent }
  same : SameDentries w.heap w'.heap
  tick : w'.heap.tick = w.heap.tick

theorem chainBase_ends (between : Quiet w ∨ Queued w) :
    Shows benign chainBase (fun base w' => base = lastDentry w' ∧ Based w w') w := by
  unfold Shows
  rw [chainBase, wp_bind, wp_getNd, wp_ite]
  rcases between with quiet | queued
  · constructor
    · intro busy
      exact absurd quiet.size busy
    · intro _
      rw [wp_bind, wp_modifyNd, wp_bind]
      apply shows_mutexLock
      · exact quiet.held
      intro inode positive
      have same : SameDentries w.heap { w.heap with held := [inode] } := ⟨rfl, rfl, rfl⟩
      rw [wp_pure]
      refine ⟨?_, ⟨⟨⟨quiet.ok.sameDentries same, inode, positive, rfl⟩, ?_, rfl, ?_, ?_⟩, rfl, same, rfl⟩⟩
      · simp [lastDentry, quiet.list]
      · simp [quiet.size, quiet.list]
      · refine ⟨?_, ?_, ?_⟩
        · simp [quiet.list, TempChain]
        · simp [quiet.list]
        · simp [quiet.list]
      · simp [quiet.list]
  · constructor
    · intro _
      cases last : w.nd.dchainList.getLast? with
      | none => exact absurd (List.getLast?_eq_none_iff.mp last) queued.nonempty
      | some entry =>
          have base : entry.dentry = lastDentry w := by
            rw [lastDentry, last]
          exact ⟨base, queued.toLocked, rfl, ⟨rfl, rfl, rfl⟩, rfl⟩
    · intro idle
      exact absurd (Nat.ne_of_gt queued.pos) idle

theorem Based.flushed {w₁ w' : World} (based : Based w w₁) (flushed : Flushed w₁ w') : Flushed w w' := by
  refine ⟨flushed.quiet, ?_, (based.same.grows (Nat.le_of_eq based.tick.symm)).trans flushed.grows⟩
  rw [flushed.flags, based.nd]

theorem Based.extended {w₁ w' : World} (based : Based w w₁) (extended : Extended w₁ w') : Extended w w' := by
  refine ⟨extended.queued, ?_, ?_, ?_, ?_,
    (based.same.grows (Nat.le_of_eq based.tick.symm)).trans extended.grows⟩
  · obtain ⟨d, list⟩ := extended.list
    exact ⟨d, by rw [list, based.nd]⟩
  · rw [extended.path, based.nd]
  · rw [extended.inode, based.nd]
  · rw [extended.flags, based.nd]

/-! ### An error -/

theorem chainFail_ends (holds : Holds w) (error : Errno) :
    Shows benign (chainFail error) (fun status w' => status = .fail error ∧ Flushed w w') w := by
  unfold Shows
  simp only [chainFail, terminateWalk, pathPut, wp_bind, wp_getNd, wp_modifyHeap]
  apply shows_freeDchainList
  intro h' last same tick
  obtain ⟨ok, inode, positive, held⟩ := holds
  have shape : SameShape w.heap h' := (SameShape.dput _ _).trans same
  apply Holds.unlocked ⟨ok.sameShape shape, inode, (shape.inode _).trans positive, shape.held.trans held⟩ rfl rfl
  intro quiet
  exact ⟨rfl, quiet, rfl, Nat.le_of_eq tick.symm, Nat.le_of_eq shape.next.symm,
    fun x i found => (shape.inode x).trans found⟩

/-! ### A cached dentry -/

/-- From a path to what is mounted on it, and so on. -/
inductive MountPile (env : Env) : Path → Path → Prop where
  | top {path} : MountPile env path path
  | covered {path mounted top} (mountpoint : env.mountpoint path.dentry = true)
      (found : env.lookupMnt path = some mounted)
      (more : MountPile env ⟨mounted, (env.mount mounted).root⟩ top) : MountPile env path top

theorem followMount_pile (depth : Nat) (path : Path) (h : Heap) :
    after (followMount env depth path)
      (fun top h' => MountPile env path top ∧ SameShape h h' ∧ h'.tick = h.tick) h := by
  induction depth generalizing path h with
  | zero => exact ⟨.top, .refl h, rfl⟩
  | succ depth inductionHypothesis =>
      rw [followMount, after_ite]
      constructor
      · intro mountpoint
        split
        · exact ⟨.top, .refl h, rfl⟩
        · rename_i mounted found
          rw [after_bind, after_modify]
          apply after_mono (inductionHypothesis ⟨mounted, (env.mount mounted).root⟩ _)
          rintro top h' ⟨pile, same, tick⟩
          exact ⟨.covered mountpoint found pile,
            ((SameShape.dput h _).trans (SameShape.dget _ _)).trans same, tick⟩
      · intro _
        exact ⟨.top, .refl h, rfl⟩

/-- How `walk_chain` gets from a cached dentry to the path it steps to; going through a mount point is
    reported. -/
inductive Crossing (benign : Event → Prop) (env : Env) (h : Heap) (found : Path) : Path → Prop where
  | straight (unmounted : env.mountpoint found.dentry = false) : Crossing benign env h found found
  | through {path w} (pile : MountPile env found path) (told : benign (.cross found.dentry path w))
      (same : SameDentries h w.heap) : Crossing benign env h found path

theorem chainPath_ends (d : DentryId) :
    Shows benign (chainPath env d)
      (fun path w' => ∃ h', w' = { w with heap := h' } ∧ SameShape w.heap h' ∧ h'.tick = w.heap.tick ∧
        Crossing benign env w.heap ⟨w.nd.path.mnt, d⟩ path) w := by
  unfold Shows
  rw [chainPath, wp_bind, wp_getNd, wp_ite]
  constructor
  · intro _
    rw [wp_bind, wp_dcache]
    apply after_mono (followMount_pile _ _ _)
    rintro path h' ⟨pile, same, tick⟩
    rw [wp_bind, wp_observe]
    intro told
    exact ⟨trivial, h', rfl, same, tick, .through pile told same.toSameDentries⟩
  · intro unmounted
    rw [Bool.not_eq_true] at unmounted
    exact ⟨w.heap, rfl, .refl _, rfl, .straight unmounted⟩

/-- How `walk_chain` ends at a cached dentry. -/
inductive HitEnds (benign : Event → Prop) (env : Env) (d : DentryId) (w : World) : Status → World → Prop where
  | negative {w'} (flushed : Flushed w w') : HitEnds benign env d w (.fail .ENOENT) w'
  | link {path w'} (flushed : Flushed w w') : HitEnds benign env d w (.link path) w'
  | done {inode w'} (flushed : Flushed w w') (positive : w.heap.inode d = some inode)
      (crossing : Crossing benign env w.heap ⟨w.nd.path.mnt, d⟩ w'.nd.path)
      (inodeIs : w'.nd.inode = some inode) : HitEnds benign env d w .done w'

theorem chainHit_ends (holds : Holds w) (size : w.nd.chainSize = 0) (list : w.nd.dchainList = [])
    (follow : Bool) :
    Shows benign (chainHit env d follow) (HitEnds benign env d w) w := by
  obtain ⟨ok, inode, positive, held⟩ := holds
  have flushed : ∀ (h' : Heap) (nd' : Nameidata), SameShape w.heap h' → h'.tick = w.heap.tick →
      nd'.flags = w.nd.flags → Quiet { w with nd := nd', heap := { h' with held := [] } } →
      Flushed w { w with nd := nd', heap := { h' with held := [] } } := by
    intro h' nd' same tick flags quiet
    exact ⟨quiet, flags, Nat.le_of_eq tick.symm, Nat.le_of_eq same.next.symm,
      fun x i found => (same.inode x).trans found⟩
  unfold Shows
  rw [chainHit, wp_bind]
  apply Shows.mono (chainPath_ends d)
  rintro path _ ⟨h₁, rfl, same, tick, crossing⟩
  rw [wp_bind, wp_getHeap, wp_ite]
  constructor
  · intro _
    rw [wp_bind, wp_getNd, wp_bind]
    have holds : Holds { w with heap := h₁ } :=
      ⟨ok.sameShape same, inode, (same.inode _).trans positive, same.held.trans held⟩
    apply holds.unlocked size list
    intro quiet
    exact .link (flushed h₁ w.nd same tick rfl quiet)
  · intro _
    simp only [pathToNameidata, pathPut, wp_bind, wp_getNd, wp_modifyHeap, wp_modifyNd, wp_getHeap]
    apply shows_freeDchainList
    intro h₂ last freed tick₂
    have shape : SameShape w.heap h₂ := (same.trans (.dput _ _)).trans freed
    have time : h₂.tick = w.heap.tick := tick₂.trans tick
    apply Holds.unlocked ⟨ok.sameShape shape, inode, (shape.inode _).trans positive, shape.held.trans held⟩ rfl rfl
    intro quiet
    rw [wp_ite]
    constructor
    · intro _
      simp only [terminateWalk, pathPut, wp_bind, wp_getNd, wp_modifyHeap]
      have put := (shape.trans (.dput h₂ path.dentry))
      exact .negative (flushed _ _ put time rfl
        ⟨quiet.ok.sameDentries ⟨rfl, rfl, rfl⟩, rfl, rfl, rfl⟩)
    · intro found
      obtain ⟨object, found⟩ := Option.ne_none_iff_exists'.mp found
      have old : w.heap.inode d = some object := by
        rw [← found]
        exact ((same.trans (.dput _ _)).inode d).symm
      exact .done (flushed _ _ shape time rfl quiet) old crossing found

/-! ### A name of the chain -/

/-- The dentry `d` was used from the dcache between `w` and `w'`. -/
inductive Accepted (benign : Event → Prop) (w w' : World) (base d : DentryId) : Prop where
  | at {moment : World} (told : benign (.accept base d moment))
      (same : moment.heap.dentry = w.heap.dentry)
      (since : w.heap.tick ≤ moment.heap.tick) (till : moment.heap.tick ≤ w'.heap.tick) :
      Accepted benign w w' base d

/-- How `walk_chain` ends for a name. -/
inductive NameEnds (benign : Event → Prop) (env : Env) (w : World) : Status → World → Prop where
  | failed {error w'} (flushed : Flushed w w') : NameEnds benign env w (.fail error) w'
  | link {path w'} (flushed : Flushed w w') : NameEnds benign env w (.link path) w'
  | hit {d inode w'} (idle : w.nd.dchainList = [])
      (found : w.heap.hash w.nd.path.dentry w.nd.last.text = some d)
      (positive : w.heap.inode d = some inode) (accepted : Accepted benign w w' w.nd.path.dentry d)
      (crossing : Crossing benign env w.heap ⟨w.nd.path.mnt, d⟩ w'.nd.path)
      (inodeIs : w'.nd.inode = some inode) (flushed : Flushed w w') : NameEnds benign env w .done w'
  | queued {w'} (extended : Extended w w') (limit : w'.nd.chainSize ≤ 29) : NameEnds benign env w .done w'
  | flushed {middle status w'} (extended : Extended w middle)
      (ends : ChainLookupEnds benign env middle status w') : NameEnds benign env w status w'

theorem Trimmed.grows (trimmed : Trimmed h h') (tick : h.tick ≤ h'.tick) : Grows h h' := by
  refine ⟨tick, Nat.le_of_eq trimmed.next.symm, ?_⟩
  intro x i found
  rw [Heap.inode, trimmed.dentry]
  exact found

theorem Crossing.before {h₁ : Heap} {found path : Path} (same : SameDentries h h₁)
    (crossing : Crossing benign env h₁ found path) : Crossing benign env h found path := by
  cases crossing with
  | straight unmounted => exact .straight unmounted
  | through pile told later => exact .through pile told (same.trans later)

/-- The new dentry is queued, and a full chain is looked up. -/
theorem chainQueue_ends {middle : Heap} (locked : Locked w) (trimmed : Trimmed w.heap middle)
    (allocated : Allocated (lastDentry w) w.nd.last.text middle h) (order : w.heap.tick ≤ h.tick) :
    Shows benign (chainQueue env w.heap.next) (NameEnds benign env w) { w with heap := h } := by
  have extended := locked.extended trimmed allocated order
  obtain ⟨inode, positive, held⟩ := locked.locked
  have okMiddle := locked.ok.trimmed trimmed
  have old : ∀ x i, w.heap.inode x = some i → h.inode x = some i := by
    intro x i found
    rw [Heap.inode, allocated.old (by rw [trimmed.next]; exact locked.ok.born found), trimmed.dentry]
    exact found
  unfold Shows
  rw [chainQueue, wp_bind, wp_observe]
  intro _
  refine ⟨trivial, ?_⟩
  rw [wp_bind, wp_dcache, after_ask, wp_ite]
  constructor
  · intro _
    simp only [wp_bind, wp_modifyHeap, wp_modifyNd, wp_getNd, wp_ite]
    constructor
    · intro _
      rw [wp_observe]
      intro _
      refine ⟨trivial, ?_⟩
      apply Shows.mono (chainLookup_ends extended.queued)
      intro status w' ends
      exact .flushed extended ends
    · intro short
      exact .queued extended (Nat.le_of_lt_succ (Nat.lt_of_not_le short))
  · intro _
    have holds : Holds { w with heap := h.ticked } := by
      refine ⟨(okMiddle.allocated allocated).sameShape (.ticked h), inode, ?_, ?_⟩
      · exact old _ _ positive
      · change h.held = [inode]
        rw [allocated.held, trimmed.held, held]
    apply Shows.mono (chainFail_ends holds .ENOMEM)
    rintro status w' ⟨rfl, flushed⟩
    have next : w.heap.next ≤ h.next := by
      rw [allocated.next, trimmed.next]
      exact Nat.le_succ _
    have grows : Grows w.heap h.ticked := ⟨Nat.le_trans order (Nat.le_succ _), next, old⟩
    exact .failed ⟨flushed.quiet, flushed.flags, grows.trans flushed.grows⟩

/-- A name is looked up in the dcache below the last pending dentry, or below the place of the walk. -/
theorem walkChainName_locked (locked : Locked w) (follow : Bool) :
    Shows benign
      (do
        match ← dcache (lookupDcache env w.nd.last.text (lastDentry w)) with
        | .error error => chainFail error
        | .ok (dentry, false) =>
            observe (.accept (lastDentry w) dentry)
            chainHit env dentry follow
        | .ok (dentry, true) => chainQueue env dentry)
      (NameEnds benign env w) w := by
  have looked : after (lookupDcache env w.nd.last.text (lastDentry w))
      (fun result h' => LookupEnds (lastDentry w) w.nd.last.text w.heap result h' ∧
        w.heap.tick ≤ h'.tick) w.heap :=
    ⟨lookupDcache_ends env locked.ok _ _, ticks_lookupDcache env _ _ _⟩
  obtain ⟨inode, positive, held⟩ := locked.locked
  unfold Shows
  rw [wp_bind, wp_dcache]
  apply after_mono looked
  rintro result h' ⟨ends, order⟩
  cases ends with
  | failed trimmed =>
      have grows := trimmed.grows order
      have holds : Holds { w with heap := h' } :=
        ⟨locked.ok.trimmed trimmed, inode, grows.inode _ _ positive, trimmed.held.trans held⟩
      apply Shows.mono (chainFail_ends holds _)
      rintro status w' ⟨rfl, flushed⟩
      exact .failed ⟨flushed.quiet, flushed.flags, grows.trans flushed.grows⟩
  | @cached d _ found same =>
      -- a pending dentry has no cached children
      have idle : w.nd.dchainList = [] := by
        cases last : w.nd.dchainList.getLast? with
        | none => exact List.getLast?_eq_none_iff.mp last
        | some entry =>
            have childless := (locked.barren entry (List.mem_of_getLast? last)).2 w.nd.last.text
            rw [lastDentry, last] at found
            rw [found] at childless
            cases childless
      have size : w.nd.chainSize = 0 := by
        rw [locked.size, idle]
        rfl
      have base : lastDentry w = w.nd.path.dentry := by
        rw [lastDentry, idle]
        rfl
      have holds : Holds { w with heap := h' } :=
        ⟨locked.ok.sameShape same, inode, (same.inode _).trans positive, same.held.trans held⟩
      simp only [wp_bind, wp_observe]
      intro told
      refine ⟨trivial, ?_⟩
      apply Shows.mono (chainHit_ends holds size idle follow)
      intro status w' ends
      have flushed : Flushed { w with heap := h' } w' → Flushed w w' := fun flushed =>
        ⟨flushed.quiet, flushed.flags, (same.toSameDentries.grows order).trans flushed.grows⟩
      rw [base] at told found
      cases ends with
      | negative flush => exact .failed (flushed flush)
      | link flush => exact .link (flushed flush)
      | done flush object crossing inodeIs =>
          refine .hit idle found ((same.inode d).symm.trans object) ?_ (crossing.before same.toSameDentries)
            inodeIs (flushed flush)
          exact .at told same.dentry order flush.grows.tick
  | fresh trimmed missing allocated => exact chainQueue_ends locked trimmed allocated order

theorem walkChainName_ends (between : Quiet w ∨ Queued w) (follow : Bool) :
    Shows benign (walkChainName env follow) (NameEnds benign env w) w := by
  unfold Shows
  rw [walkChainName, wp_bind]
  apply Shows.mono (chainBase_ends between)
  rintro base w₁ ⟨rfl, based⟩
  rw [wp_bind, wp_getNd]
  apply Shows.mono (walkChainName_locked based.locked follow)
  intro status w' ends
  have path : w₁.nd.path = w.nd.path := by rw [based.nd]
  have list : w₁.nd.dchainList = w.nd.dchainList := by rw [based.nd]
  have last : w₁.nd.last = w.nd.last := by rw [based.nd]
  cases ends with
  | failed flushed => exact .failed (based.flushed flushed)
  | link flushed => exact .link (based.flushed flushed)
  | hit idle found positive accepted crossing inodeIs flushed =>
      rw [path, last, based.same.hash] at found
      rw [path] at accepted crossing
      rw [based.same.inode] at positive
      obtain ⟨told, same, since, till⟩ := accepted
      refine .hit (list.symm.trans idle) found positive ?_ (crossing.before based.same) inodeIs
        (based.flushed flushed)
      exact .at told (same.trans based.same.dentry) (by rw [← based.tick]; exact since) till
  | queued extended limit => exact .queued (based.extended extended) limit
  | flushed extended ends => exact .flushed (based.extended extended) ends

end Nfs4Compound.Vfs
