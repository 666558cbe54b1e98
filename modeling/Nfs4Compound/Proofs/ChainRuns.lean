/-
Module: Nfs4Compound.Proofs.ChainRuns
Layer: Proofs
Purpose: The order of the pending chain in whole lookups, opens and unmounts: as long as no component is
  looked up by itself while a chain is pending, the chain, its counter and the mutex fit together at every
  return, and a walk that has found what it looks for holds no mutex.
Imports: Nfs4Compound.Proofs.OpenOrder
Trusted boundary: none
Main exports: mountpointLast_orderly, pathMountpoint_orderly, chain_in_order
-/
import Nfs4Compound.Proofs.OpenOrder

namespace Nfs4Compound.Vfs

open Prog

variable {env : Env} {oenv : OpenEnv} {benign : Event → Prop} {held : List Ino} {d : DentryId} {w : World}

/-! ### The last component of an unmount -/

theorem keeps_followMount (path : Path) :
    Keeps benign (dcache (followMount env env.mountDepth path)) := by
  intro held w idle
  unfold Shows
  rw [wp_dcache]
  apply after_mono (followMount_pile _ _ _)
  rintro followed h' ⟨-, same, tick⟩
  exact idle.counted same (Nat.le_of_eq tick.symm)

theorem keeps_mountpointFail (error : Errno) : Keeps benign (mountpointFail error) := by
  unfold mountpointFail
  grind

theorem keeps_mountpointDone (dentry : DentryId) : Keeps benign (mountpointDone env dentry) := by
  unfold mountpointDone
  apply keeps_bind keeps_getHeap
  intro h
  split
  · exact keeps_bind (keeps_dput dentry) fun _ => keeps_mountpointFail _
  · apply keeps_bind keeps_getNd
    intro nd
    split
    · exact keeps_pure _
    · apply keeps_bind (keeps_followMount _)
      intro path
      exact keeps_bind keeps_terminateWalk fun _ => keeps_pure _

/-- `d_alloc` fails, or gives a fresh dentry. -/
theorem dAlloc_ends (env : Env) {h : Heap} (dir : DentryId) (name : Name) :
    after (dAlloc env dir name)
      (fun result h' => (result = none ∧ h' = h.ticked) ∨
        (result = some h.next ∧ Allocated dir name h.ticked h' ∧ h'.tick = h.tick + 1)) h := by
  cases granted : env.dAlloc h.tick with
  | false =>
      simp only [dAlloc, after_bind, after_ask, granted]
      exact .inl ⟨rfl, rfl⟩
  | true =>
      simp only [dAlloc, after_bind, after_ask, granted]
      exact .inr ⟨rfl, ⟨rfl, rfl, rfl, rfl⟩, rfl⟩

theorem mountpointLookup_orderly {dir : DentryId} {inode : Ino} (name : Name) (idle : Idle [inode] w)
    (positive : w.heap.inode dir = some inode) :
    Shows benign (mountpointLookup env dir name) (fun _ w' => Quiet w') w := by
  unfold Shows
  rw [mountpointLookup, wp_bind, wp_dcache]
  apply after_mono (dAlloc_ends env dir name)
  rintro result h' (⟨rfl, rfl⟩ | ⟨rfl, allocated, tick⟩)
  · have kept : Kept [inode] w { w with heap := w.heap.ticked } :=
      idle.counted (.ticked _) (Nat.le_succ _)
    apply kept.idle.unlocks positive
    intro w' quiet _
    exact (keeps_mountpointFail _).quiet quiet
  · obtain ⟨placed, negative, kept⟩ :=
      idle.allocates positive (SameShape.ticked _).trimmed allocated (by rw [tick]; exact Nat.le_succ _)
    have positive := kept.grows.inode _ _ positive
    change wp _ _ (derefInode dir >>= _) _ _
    rw [wp_bind, wp_derefInode]
    constructor
    · intro other _
      rw [wp_ite]
      constructor
      · intro _
        rw [wp_bind]
        apply Shows.mono (lookupReal_fills placed negative kept.idle other)
        rintro result w₁ ⟨filled, -⟩
        have positive := filled.grows.inode _ _ positive
        cases result with
        | error error =>
            apply filled.idle.unlocks positive
            intro w' quiet _
            exact (keeps_mountpointFail _).quiet quiet
        | ok dentry =>
            apply filled.idle.unlocks positive
            intro w' quiet _
            exact (keeps_mountpointDone dentry).quiet quiet
      · intro _
        exact ⟨by simp, by simp⟩
    · intro _
      exact ⟨by simp, by simp⟩

/-- `mountpoint_last` leaves no chain and no mutex behind, if none was pending. -/
theorem mountpointName_orderly (dir : DentryId) (name : Name) (quiet : Quiet w) :
    Shows benign (mountpointName env dir name) (fun _ w' => Quiet w') w := by
  apply quiet.locks
  intro inode w₁ positive grows idle
  have positive := grows.inode _ _ positive
  unfold Shows
  rw [wp_bind, wp_dcache, after_dLookup]
  cases found : w₁.heap.hash dir name with
  | none => exact mountpointLookup_orderly name idle positive
  | some dentry =>
      have kept : Kept [inode] w₁ { w₁ with heap := w₁.heap.dget dentry } :=
        idle.counted (.dget _ _) (Nat.le_refl _)
      apply kept.idle.unlocks positive
      intro w' quiet _
      exact (keeps_mountpointDone dentry).quiet quiet

/-- Where the last component is looked up, no chain may be pending; none is left. -/
theorem mountpointLast_orderly (idles : ∀ event, benign event → SearchesIdle event)
    (between : Between w) : Shows benign (mountpointLast env) (fun _ w' => Quiet w') w := by
  unfold Shows
  rw [mountpointLast, wp_bind, wp_observe]
  intro told
  have quiet := between.quiet (idles _ told)
  refine ⟨trivial, ?_⟩
  have flagged : Quiet { w with nd := { w.nd with flags := { w.nd.flags with parent := false } } } :=
    quiet.transport rfl rfl rfl
  rw [wp_bind, wp_modifyNd, wp_bind, wp_getNd, wp_ite]
  constructor
  · intro _
    apply Keeps.follow (keeps_handleDots _) flagged
    intro status w₁ quiet
    cases status with
    | done =>
        change wp _ _ (getNd >>= _) _ _
        rw [wp_bind, wp_getNd]
        apply Keeps.follow (keeps_dget _) quiet
        intro _ w₂ quiet
        exact (keeps_mountpointDone _).quiet quiet
    | fail error => exact quiet
    | link path => exact quiet
    | chainLink path => exact quiet
  · intro _
    exact mountpointName_orderly _ _ flagged

/-! ### Whole unmounts -/

theorem mountpointLinks_orderly (idles : ∀ event, benign event → SearchesIdle event) (fuel : Nat)
    (link : Path) (quiet : Quiet w) :
    Shows benign (mountpointLinks env fuel link) (fun result w' => Leaves result.isFound w') w := by
  induction fuel generalizing link w with
  | zero => exact ⟨by simp, by simp⟩
  | succ fuel inductionHypothesis =>
      unfold Shows
      rw [mountpointLinks, wp_bind]
      apply Shows.mono (mayFollowLink_ends quiet link)
      intro may w₁ quiet
      rw [wp_ite]
      constructor
      · intro _
        have flagged : Quiet { w₁ with nd := { w₁.nd with flags := { w₁.nd.flags with parent := true } } } :=
          quiet.transport rfl rfl rfl
        rw [wp_bind, wp_modifyNd, wp_bind]
        apply Shows.mono (followLink_orderly (walkText_orderly idles) flagged link)
        intro result w₂ between
        cases result with
        | error error => exact between.leaves id
        | ok link =>
            simp only [wp_bind]
            apply Shows.mono (mountpointLast_orderly idles between)
            intro last w₃ quiet
            apply shows_putLink
            have counted := quiet.counted (.dput _ link.dentry)
            cases last with
            | found path => exact counted.leaves
            | ended status => exact counted.leaves
            | link path => exact inductionHypothesis path counted
      · intro _
        exact quiet.leaves

theorem mountpointOut_orderly (result : Mounted) (left : Leaves result.isFound w) :
    Shows benign (mountpointOut result) (fun result w' => result.isFound → Quiet w') w := by
  unfold Shows
  rw [mountpointOut, wp_bind, wp_getNd]
  cases w.nd.root with
  | none => exact left.quiet
  | some root =>
      simp only [wp_ite, wp_pure, wp_bind, pathPut, wp_modifyHeap, wp_getNd]
      exact ⟨fun _ => left.quiet, fun _ found => (left.quiet found).counted (.dput _ _)⟩

theorem pathMountpoint_orderly (idles : ∀ event, benign event → SearchesIdle event) (ok : HeapOk w.heap)
    (free : w.heap.held = []) (dfd : Option Nat) (name : List UInt8) (flags : LookupFlags) :
    Shows benign (pathMountpoint env dfd name flags) (fun result w' => result.isFound → Quiet w') w := by
  unfold Shows
  rw [pathMountpoint, wp_bind]
  apply Shows.mono (pathInit_ends ok free dfd name _)
  intro error w₁ started
  cases error with
  | some error => exact fun found => found.elim
  | none =>
      simp only [wp_bind, wp_update]
      have between : Between { w₁ with totalLinkCount := 0 } :=
        .inl (started.quiet.transport rfl rfl rfl)
      apply Shows.mono (walkText_orderly idles (components name) _ between)
      intro status w₂ left
      cases status with
      | fail error => exact mountpointOut_orderly _ (Between.leaves left id)
      | link path => exact left.elim
      | chainLink path => exact left.elim
      | done =>
          simp only [wp_bind]
          apply Shows.mono (mountpointLast_orderly idles left)
          intro last w₃ quiet
          cases last with
          | found path => exact mountpointOut_orderly _ quiet.leaves
          | ended status => exact mountpointOut_orderly _ quiet.leaves
          | link path =>
              simp only [wp_bind]
              apply Shows.mono (mountpointLinks_orderly idles _ path quiet)
              intro result w₄ left
              exact mountpointOut_orderly result left

/-! ### Lookups, opens and unmounts -/

theorem Quiet.nothingPending (quiet : Quiet w) : NothingPending w := ⟨quiet.size, quiet.list, quiet.held⟩

/-- What has been shown of a run whose searches find no chain pending. -/
theorem orderlyRun_of_shows {α : Type} {x : Walk α} {found : α → Prop} {post : α → World → Prop}
    (shows : Shows SearchesIdle x post w) (settles : ∀ value w', post value w' → found value → Quiet w') :
    OrderlyRun x found w := by
  intro events
  obtain ⟨returns, ended⟩ := wp_contract shows events
  refine ⟨⟨returns, ?_⟩, ?_⟩
  · intro fault stopped
    rw [stopped] at ended
    exact ended
  · intro value returned holds
    rw [returned] at ended
    exact (settles value _ ended holds).nothingPending

/-- Lookups, opens and unmounts keep their chain in order, and leave none pending and no mutex held
    where they have found something. -/
theorem chain_in_order (ok : HeapOk w.heap) (free : w.heap.held = []) (fuel : Nat) (dfd : Option Nat)
    (name : List UInt8) (flags : LookupFlags) (op : OpenFlags) (pathname : Filename) :
    OrderlyRun (pathLookupat env fuel dfd name flags)
        (fun status => status = .done ∧ flags.parent = false) w ∧
      OrderlyRun (openPathname env oenv op fuel dfd pathname flags) (fun result => result.1 = .done) w ∧
      OrderlyRun (pathMountpoint env dfd name flags) Mounted.isFound w := by
  have idles : ∀ event, SearchesIdle event → SearchesIdle event := fun _ idle => idle
  refine ⟨?_, ?_, ?_⟩
  · apply orderlyRun_of_shows (pathLookupat_orderly idles ok free fuel dfd name flags)
    exact fun _ _ left found => left.quiet found
  · apply orderlyRun_of_shows (openPathname_orderly idles op ok free fuel dfd pathname flags)
    exact fun _ _ left found => left found
  · apply orderlyRun_of_shows (pathMountpoint_orderly idles ok free dfd name flags)
    exact fun _ _ left found => left found

/-! ### An empty dcache -/

/-- A dcache that knows only the root. -/
def rootHeap : Heap where
  dentry d := if d = 0 then ⟨0, [slash], some 1, .directory⟩ else ⟨0, [], none, .miss⟩
  hash _ _ := none
  next := 1
  count _ := 1
  low _ := 1
  held := []
  tick := 0

/-- A task that has not walked yet. -/
def rootWorld : World where
  nd :=
    { path := ⟨0, 0⟩
      last := ⟨[], 0⟩
      root := none
      inode := none
      flags := ⟨true, false, false, false, false, false⟩
      lastType := .root
      depth := 0
      dchainList := []
      chainSize := 0
      chainParent := 0 }
  heap := rootHeap
  linkCount := 0
  totalLinkCount := 0

theorem rootHeap_ok : HeapOk rootHeap := by
  constructor
  · intro d n c found
    cases found
  · intro d above
    have other : d ≠ 0 := Nat.ne_of_gt above
    exact ⟨by simp [Heap.inode, rootHeap, other], fun n => rfl⟩

/-- A filesystem without an `atomic_open` method that lets every file be opened. -/
def OpenEnv.calm : OpenEnv where
  emptyFilp := none
  hasAtomicOpen _ := false
  wantWrite _ _ := true
  mayCreate _ _ := none
  create _ _ _ := .error .EACCES
  atomicOpen _ _ _ := .failed .ENOENT
  mayOpen _ _ := none
  vfsOpen _ _ := .opened
  openChecks _ _ := none

instance (event : Event) : Decidable (SearchesIdle event) :=
  match event with
  | .search w => inferInstanceAs (Decidable (w.nd.chainSize = 0))
  | .returned _ _ | .flush _ _ | .dots _ | .extend _ | .cross _ _ _ | .accept _ _ _ | .answered _ _
  | .symlink _ _ | .restart _ _ => .isTrue trivial

/-- Two names are looked up in one compound, and one name is looked up for an unmount. -/
theorem cold_runs_in_order :
    ChainInOrder (pathLookupat Env.calm 1 none [97, slash, 98] rootWorld.nd.flags) rootWorld ∧
      ChainInOrder (pathMountpoint Env.calm none [97] rootWorld.nd.flags) rootWorld :=
  have runs := @chain_in_order Env.calm OpenEnv.calm rootWorld rootHeap_ok rfl 1 none
  ⟨((runs [97, slash, 98] rootWorld.nd.flags ⟨false, false, false, false, false, false⟩ ⟨[], false⟩).1
      (by decide +kernel)).1,
    ((runs [97] rootWorld.nd.flags ⟨false, false, false, false, false, false⟩ ⟨[], false⟩).2.2
      (by decide +kernel)).1⟩

-- The chain of `a/b` is still pending where `mountpoint_last` looks `b` up, below a directory it has locked.
example : (pathMountpoint Env.calm none [97, slash, 98] rootWorld.nd.flags rootWorld).result =
    .error .deadlock := by decide +kernel

end Nfs4Compound.Vfs
