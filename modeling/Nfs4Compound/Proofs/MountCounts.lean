/-
Module: Nfs4Compound.Proofs.MountCounts
Layer: Proofs
Purpose: The walk with counts of mounts is the walk; and which crossings of `walk_chain` leave the inode
  and the counts as those of `walk_component` do.
Imports: Nfs4Compound.Vfs.MountCounts, Nfs4Compound.Proofs.WalkChain
Trusted boundary: none
Main exports: chainHitCounted_forgets, componentHitCounted_forgets, componentHit_counts,
  crosses_rightly_iff
-/
import Nfs4Compound.Vfs.MountCounts
import Nfs4Compound.Proofs.WalkChain
import Mathlib.Tactic.Abel

namespace Nfs4Compound.Vfs

open Prog

variable {env : Env} {d : DentryId} {follow : Bool} {w : World} {counts : Counts}

/-! ### Forgetting the counts -/

theorem dcache_bind {α β : Type} (x : Dcache α) (f : α → Dcache β) :
    dcache (x >>= f) = dcache x >>= fun value => dcache (f value) := rfl

theorem followMountCounted_forgets (depth : Nat) (path : Path) :
    Forgets (followMountCounted env depth path) (dcache (followMount env depth path)) := by
  induction depth generalizing path with
  | zero => exact forgets_pure path
  | succ depth inductionHypothesis =>
      unfold followMountCounted followMount
      split
      · cases found : env.lookupMnt path with
        | none => exact forgets_pure path
        | some mounted =>
            simp only [mntget, mntput]
            apply forgets_updateGhost_bind
            rw [dcache_bind]
            apply forgets_bind (forgets_withGhost _)
            intro _
            apply forgets_updateGhost_bind
            exact inductionHypothesis _
      · exact forgets_pure path

theorem getNd_bind_const {α : Type} (x : Walk α) : (getNd >>= fun _ => x) = x := rfl

theorem bind_pure_unit (x : Walk Unit) : (x >>= fun _ => pure ()) = x := by
  funext s
  rcases bind_cases x (fun _ => pure ()) s with ⟨fault, ended, run⟩ | ⟨value, ended, run⟩
  · rw [run, ← ended]
  · rw [run]
    change (⟨.ok (), (x s).state, (x s).events ++ []⟩ : Run Oops World Event Unit) = x s
    rw [List.append_nil, ← ended]

theorem forgets_mntput (mnt : MountId) : Forgets (mntput mnt) (pure () : Walk Unit) :=
  fun _ _ => ⟨rfl, rfl, rfl⟩

theorem pathToNameidataCounted_forgets (path : Path) :
    Forgets (pathToNameidataCounted path) (pathToNameidata path) := by
  have whole : pathToNameidata path = getNd >>= fun _ => pathToNameidata path >>= fun _ => pure () := by
    rw [bind_pure_unit, getNd_bind_const]
  rw [whole]
  apply forgets_bind (forgets_withGhost _)
  intro nd
  apply forgets_bind (forgets_withGhost _)
  intro _
  split
  · exact forgets_mntput _
  · exact forgets_pure ()

theorem terminateWalkCounted_forgets : Forgets terminateWalkCounted terminateWalk := by
  have whole : terminateWalk = getNd >>= fun _ => terminateWalk >>= fun _ => pure () := by
    rw [bind_pure_unit, getNd_bind_const]
  rw [whole]
  apply forgets_bind (forgets_withGhost _)
  intro nd
  apply forgets_bind (forgets_withGhost _)
  intro _
  exact forgets_mntput _

theorem chainPathCounted_forgets (env : Env) (d : DentryId) :
    Forgets (chainPathCounted env d) (chainPath env d) := by
  unfold chainPathCounted chainPath
  apply forgets_bind (forgets_withGhost _)
  intro nd
  split
  · apply forgets_bind (followMountCounted_forgets _ _)
    intro path
    apply forgets_bind (forgets_withGhost _)
    intro _
    exact forgets_pure path
  · exact forgets_pure _

/-- The counts do not decide what `walk_chain` does with a cached dentry. -/
theorem chainHitCounted_forgets (env : Env) (d : DentryId) (follow : Bool) :
    Forgets (chainHitCounted env d follow) (chainHit env d follow) := by
  unfold chainHitCounted chainHit
  apply forgets_bind (chainPathCounted_forgets env d)
  intro path
  apply forgets_bind (forgets_withGhost _)
  intro h
  split
  · apply forgets_bind (forgets_withGhost _)
    intro nd
    apply forgets_bind (forgets_withGhost _)
    intro _
    exact forgets_pure _
  · apply forgets_bind (pathToNameidataCounted_forgets path)
    intro _
    apply forgets_bind (forgets_withGhost _)
    intro h
    apply forgets_bind (forgets_withGhost _)
    intro _
    apply forgets_bind (forgets_withGhost _)
    intro _
    apply forgets_bind (forgets_withGhost _)
    intro nd
    apply forgets_bind (forgets_withGhost _)
    intro _
    split
    · apply forgets_bind terminateWalkCounted_forgets
      intro _
      exact forgets_pure _
    · exact forgets_pure _

/-! ### Piles of mounts -/

theorem followMount_top (depth : Nat) (path : Path) (h : Heap) :
    (followMount env depth path h).1 = pileTop env depth path := by
  induction depth generalizing path h with
  | zero => rfl
  | succ depth inductionHypothesis =>
      unfold followMount pileTop
      by_cases mountpoint : env.mountpoint path.dentry = true
      · rw [if_pos mountpoint, if_pos mountpoint]
        cases env.lookupMnt path with
        | none => rfl
        | some mounted => exact inductionHypothesis _ _
      · rw [if_neg mountpoint, if_neg mountpoint]
        rfl

/-- The top of a pile lies no higher than its bottom. -/
theorem rank_le_pileTop {rank : MountId → Nat}
    (deeper : ∀ path mounted, env.lookupMnt path = some mounted → rank path.mnt < rank mounted)
    (depth : Nat) (path : Path) : rank path.mnt ≤ rank (pileTop env depth path).mnt := by
  induction depth generalizing path with
  | zero => exact Nat.le_refl _
  | succ depth inductionHypothesis =>
      unfold pileTop
      split
      · cases found : env.lookupMnt path with
        | none => exact Nat.le_refl _
        | some mounted =>
            have first := deeper path mounted found
            have rest := inductionHypothesis ⟨mounted, (env.mount mounted).root⟩
            exact Nat.le_of_lt (Nat.lt_of_lt_of_le first rest)
      · exact Nat.le_refl _

/-- In a tree of mounts, the top of a pile is another mount exactly if something is mounted. -/
theorem pileTop_succ_mnt_ne (tree : MountTree env) {depth : Nat} {path : Path} {mounted : MountId}
    (found : env.lookupMnt path = some mounted) :
    (pileTop env depth ⟨mounted, (env.mount mounted).root⟩).mnt ≠ path.mnt := by
  obtain ⟨rank, deeper⟩ := tree
  have first := (deeper path mounted found).1
  have rest := rank_le_pileTop (fun path mounted found => (deeper path mounted found).1) depth
    ⟨mounted, (env.mount mounted).root⟩
  intro same
  rw [same] at rest
  exact absurd (Nat.lt_of_lt_of_le first rest) (Nat.lt_irrefl _)

/-- Where nothing is mounted the pile is empty. -/
theorem pileTop_of_not_crosses {path : Path}
    (nothing : ¬(env.mountpoint path.dentry = true ∧ env.lookupMnt path ≠ none)) (depth : Nat) :
    pileTop env depth path = path := by
  cases depth with
  | zero => rfl
  | succ depth =>
      unfold pileTop
      split
      · rename_i mountpoint
        cases found : env.lookupMnt path with
        | none => rfl
        | some mounted => exact absurd ⟨mountpoint, by simp [found]⟩ nothing
      · rfl

theorem pileTop_of_crosses (tree : MountTree env) {path : Path}
    (mountpoint : env.mountpoint path.dentry = true) (something : env.lookupMnt path ≠ none) :
    (pileTop env env.mountDepth path).mnt ≠ path.mnt := by
  obtain ⟨mounted, found⟩ := Option.ne_none_iff_exists'.mp something
  have positive : 0 < env.mountDepth := by
    obtain ⟨rank, deeper⟩ := tree
    have bounds := deeper path mounted found
    omega
  obtain ⟨depth, enough⟩ := Nat.exists_eq_add_of_lt positive
  rw [Nat.zero_add] at enough
  rw [enough, pileTop, if_pos mountpoint, found]
  exact pileTop_succ_mnt_ne tree found

/-! ### Forgetting the counts of `walk_component` -/

/-- The loop of `follow_managed` climbs the pile; whether a mount has been crossed is whether the top is
    another mount. -/
theorem followManagedLoop_forgets (tree : MountTree env) (depth : Nat) (path : Path) (needMntput : Bool) :
    Forgets (followManagedLoop env depth path needMntput)
      (dcache (followMount env depth path) >>= fun top =>
        pure (top, needMntput || (pileTop env depth path).mnt != path.mnt)) := by
  induction depth generalizing path needMntput with
  | zero =>
      have same : (path.mnt != path.mnt) = false := by simp
      simp only [pileTop, same, Bool.or_false]
      exact forgets_pure _
  | succ depth inductionHypothesis =>
      have same : (path.mnt != path.mnt) = false := by simp
      unfold followManagedLoop followMount pileTop
      split
      · cases found : env.lookupMnt path with
        | none =>
            simp only [same, Bool.or_false]
            exact forgets_pure _
        | some mounted =>
            have apart := @pileTop_succ_mnt_ne env tree depth path mounted found
            have rest := inductionHypothesis ⟨mounted, (env.mount mounted).root⟩ true
            have flag : (needMntput ||
                (pileTop env depth ⟨mounted, (env.mount mounted).root⟩).mnt != path.mnt) = true := by
              simp [apart]
            simp only [Bool.true_or] at rest
            simp only [flag, mntget]
            apply forgets_updateGhost_bind
            apply @forgets_bind _ _ _ _ _ _ _ (dcache (modify fun h =>
              (h.dput path.dentry).dget (env.mount mounted).root)) _ (fun _ =>
                dcache (followMount env depth ⟨mounted, (env.mount mounted).root⟩) >>= fun top =>
                  pure (top, true)) (forgets_withGhost _)
            intro _
            split
            · exact forgets_updateGhost_bind rest
            · exact rest
      · simp only [same, Bool.or_false]
        exact forgets_pure _

theorem followManagedCounted_forgets (tree : MountTree env) (path : Path) :
    Forgets (followManagedCounted env path) (dcache (followManaged env path)) := by
  have whole : dcache (followManaged env path) =
      (dcache (followMount env env.mountDepth path) >>= fun top =>
        pure (top, false || (pileTop env env.mountDepth path).mnt != path.mnt)) >>= fun found =>
          pure found := by
    funext w
    have top := @followMount_top env env.mountDepth path w.heap
    rw [Bool.false_or, ← top]
    rfl
  rw [whole, followManagedCounted]
  apply forgets_bind (followManagedLoop_forgets tree _ _ _)
  rintro ⟨followed, needMntput⟩
  simp only []
  split
  · exact forgets_updateGhost_bind (forgets_pure _)
  · exact forgets_pure _

theorem stepIntoCounted_forgets (path : Path) (follow : Bool) :
    Forgets (stepIntoCounted path follow) (stepInto path follow) := by
  unfold stepIntoCounted stepInto
  apply forgets_bind (forgets_withGhost _)
  intro h
  split
  · apply forgets_bind (pathToNameidataCounted_forgets path)
    intro _
    apply forgets_bind terminateWalkCounted_forgets
    intro _
    exact forgets_pure _
  · split
    · exact forgets_pure _
    · apply forgets_bind (pathToNameidataCounted_forgets path)
      intro _
      apply forgets_bind (forgets_withGhost _)
      intro _
      exact forgets_pure _

/-- The counts do not decide what `walk_component` does with a dentry it has found. -/
theorem componentHitCounted_forgets (tree : MountTree env) (d : DentryId) (follow : Bool) :
    Forgets (componentHitCounted env d follow)
      (crossMounts env d >>= fun path => stepInto path follow) := by
  unfold componentHitCounted crossMountsCounted crossMounts
  apply forgets_bind
  · apply forgets_bind (forgets_withGhost _)
    intro nd
    apply forgets_bind (followManagedCounted_forgets tree _)
    rintro ⟨path, crossed⟩
    simp only []
    split
    · apply forgets_bind (forgets_withGhost _)
      intro _
      exact forgets_pure path
    · exact forgets_pure path
  · intro path
    exact stepIntoCounted_forgets path follow

/-! ### Counts -/

section Counting

variable {use : Event → Prop → Prop} {faults : Oops → World × Counts → Prop}

@[simp] theorem wp_mntget (mnt : MountId) (post : Unit → World × Counts → Prop) (s : World × Counts) :
    wp use faults (mntget mnt) post s ↔ post () (s.1, s.2 + Pi.single mnt 1) := Iff.rfl

@[simp] theorem wp_mntput (mnt : MountId) (post : Unit → World × Counts → Prop) (s : World × Counts) :
    wp use faults (mntput mnt) post s ↔ post () (s.1, s.2 - Pi.single mnt 1) := Iff.rfl

/-- The state when a pile has been climbed from `bottom` to `top`. -/
def Climbed (s : World × Counts) (bottom top : MountId) (s' : World × Counts) : Prop :=
  ∃ h', SameShape s.1.heap h' ∧
    s' = ({ s.1 with heap := h' }, s.2 - Pi.single bottom 1 + Pi.single top 1)

theorem Climbed.refl (s : World × Counts) (mnt : MountId) : Climbed s mnt mnt s := by
  refine ⟨s.1.heap, .refl _, ?_⟩
  rw [sub_add_cancel]

/-- One step of a pile: a reference to what is mounted, then none to what it is mounted on. -/
theorem Climbed.step {s s' : World × Counts} {bottom mounted top : MountId} {covered root : DentryId}
    (rest : Climbed ({ s.1 with heap := (s.1.heap.dput covered).dget root },
      s.2 + Pi.single mounted 1 - Pi.single bottom 1) mounted top s') : Climbed s bottom top s' := by
  obtain ⟨h', same, rfl⟩ := rest
  refine ⟨h', ((SameShape.dput _ _).trans (SameShape.dget _ _)).trans same, ?_⟩
  simp only [Prod.mk.injEq, true_and]
  abel

/-- `follow_mount` drops a reference to the mount it starts from and takes one to the top. -/
theorem wp_followMountCounted (depth : Nat) (path : Path) {post : Path → World × Counts → Prop}
    (s : World × Counts)
    (continues : ∀ s', Climbed s path.mnt (pileTop env depth path).mnt s' →
      post (pileTop env depth path) s') :
    wp use faults (followMountCounted env depth path) post s := by
  induction depth generalizing path s with
  | zero => exact continues s (.refl s _)
  | succ depth inductionHypothesis =>
      unfold pileTop at continues
      unfold followMountCounted
      by_cases mountpoint : env.mountpoint path.dentry = true
      · rw [if_pos mountpoint] at continues ⊢
        cases found : env.lookupMnt path with
        | none =>
            rw [found] at continues
            exact continues s (.refl s _)
        | some mounted =>
            rw [found] at continues
            simp only [wp_bind, wp_mntget, wp_withGhost, wp_dcache, after_modify, wp_mntput]
            apply inductionHypothesis
            intro s' climbed
            exact continues s' climbed.step
      · rw [if_neg mountpoint] at continues ⊢
        exact continues s (.refl s _)

/-- So does the loop of `follow_managed` once it holds a reference to the mount where it is. -/
theorem wp_followManagedLoop_true (depth : Nat) (path : Path)
    {post : Path × Bool → World × Counts → Prop} (s : World × Counts)
    (continues : ∀ s', Climbed s path.mnt (pileTop env depth path).mnt s' →
      post (pileTop env depth path, true) s') :
    wp use faults (followManagedLoop env depth path true) post s := by
  induction depth generalizing path s with
  | zero => exact continues s (.refl s _)
  | succ depth inductionHypothesis =>
      unfold pileTop at continues
      unfold followManagedLoop
      by_cases mountpoint : env.mountpoint path.dentry = true
      · rw [if_pos mountpoint] at continues ⊢
        cases found : env.lookupMnt path with
        | none =>
            rw [found] at continues
            exact continues s (.refl s _)
        | some mounted =>
            rw [found] at continues
            simp only [wp_bind, wp_mntget, wp_withGhost, wp_dcache, after_modify, if_true, wp_mntput]
            apply inductionHypothesis
            intro s' climbed
            exact continues s' climbed.step
      · rw [if_neg mountpoint] at continues ⊢
        exact continues s (.refl s _)

/-- The state when `follow_managed` has gone to the top of a pile: the reference to the bottom is the
    caller's and is left alone. -/
def Managed (s : World × Counts) (bottom top : MountId) (s' : World × Counts) : Prop :=
  ∃ h', SameShape s.1.heap h' ∧
    s' = ({ s.1 with heap := h' }, if top = bottom then s.2 else s.2 + Pi.single top 1)

theorem followManagedLoop_of_not_crosses {path : Path}
    (nothing : ¬(env.mountpoint path.dentry = true ∧ env.lookupMnt path ≠ none)) (depth : Nat) :
    followManagedLoop env depth path false = pure (path, false) := by
  cases depth with
  | zero => rfl
  | succ depth =>
      unfold followManagedLoop
      split
      · rename_i mountpoint
        cases found : env.lookupMnt path with
        | none => rfl
        | some mounted => exact absurd ⟨mountpoint, by simp [found]⟩ nothing
      · rfl

theorem wp_followManagedCounted (tree : MountTree env) (path : Path)
    {post : Path × Bool → World × Counts → Prop} (s : World × Counts)
    (continues : ∀ s', Managed s path.mnt (pileTop env env.mountDepth path).mnt s' →
      post (pileTop env env.mountDepth path, (pileTop env env.mountDepth path).mnt != path.mnt) s') :
    wp use faults (followManagedCounted env path) post s := by
  unfold followManagedCounted
  rw [wp_bind]
  by_cases crosses : env.mountpoint path.dentry = true ∧ env.lookupMnt path ≠ none
  · obtain ⟨mountpoint, something⟩ := crosses
    obtain ⟨mounted, found⟩ := Option.ne_none_iff_exists'.mp something
    have apart := pileTop_of_crosses tree mountpoint something
    have positive : 0 < env.mountDepth := by
      obtain ⟨rank, deeper⟩ := tree
      have bounds := deeper path mounted found
      omega
    obtain ⟨depth, enough⟩ := Nat.exists_eq_add_of_lt positive
    rw [Nat.zero_add] at enough
    rw [enough, pileTop, if_pos mountpoint, found] at continues apart
    rw [enough, followManagedLoop, if_pos mountpoint, found]
    simp only [wp_bind, wp_mntget, wp_withGhost, wp_dcache, after_modify, Bool.false_eq_true, if_false]
    apply wp_followManagedLoop_true
    rintro s' ⟨h', same, rfl⟩
    simp only [true_and, apart, if_false, wp_pure]
    have flag : ((pileTop env depth ⟨mounted, (env.mount mounted).root⟩).mnt != path.mnt) = true := by
      simpa using apart
    simp only [flag] at continues
    apply continues
    refine ⟨h', ((SameShape.dput _ _).trans (SameShape.dget _ _)).trans same, ?_⟩
    simp only [apart, if_false, Prod.mk.injEq, true_and]
    abel
  · have empty := pileTop_of_not_crosses crosses env.mountDepth
    rw [followManagedLoop_of_not_crosses crosses, wp_pure]
    simp only [Bool.false_eq_true, false_and, if_false, wp_pure]
    rw [empty] at continues
    have flag : (path.mnt != path.mnt) = false := by simp
    rw [flag] at continues
    apply continues
    refine ⟨s.1.heap, .refl _, ?_⟩
    simp

/-- `path_to_nameidata` drops the reference to the mount it leaves. -/
theorem wp_pathToNameidataCounted (path : Path) (post : Unit → World × Counts → Prop)
    (s : World × Counts) :
    wp use faults (pathToNameidataCounted path) post s ↔
      post () ({ s.1 with
          heap := s.1.heap.dput s.1.nd.path.dentry, nd := { s.1.nd with path := path } },
        if s.1.nd.path.mnt = path.mnt then s.2 else s.2 - Pi.single s.1.nd.path.mnt 1) := by
  simp only [pathToNameidataCounted, wp_bind, wp_withGhost, wp_getNd, pathToNameidata, pathPut,
    wp_modifyHeap, wp_modifyNd]
  by_cases same : s.1.nd.path.mnt = path.mnt
  · simp [same]
  · simp [same]

theorem wp_terminateWalkCounted (post : Unit → World × Counts → Prop) (s : World × Counts) :
    wp use faults terminateWalkCounted post s ↔
      post () ({ s.1 with heap := s.1.heap.dput s.1.nd.path.dentry },
        s.2 - Pi.single s.1.nd.path.mnt 1) := by
  simp only [terminateWalkCounted, wp_bind, wp_withGhost, wp_getNd, terminateWalk, pathPut, wp_modifyHeap,
    wp_mntput]

/-! ### `walk_component` -/

/-- The counts where a walk goes on, stops at a symlink or fails, if the caller's reference is left
    alone on the way up. -/
theorem countsAfter_done (left entered : MountId) (counts : Counts) :
    (if left = entered then if entered = left then counts else counts + Pi.single entered 1
      else (if entered = left then counts else counts + Pi.single entered 1) - Pi.single left 1) =
        countsAfter left entered .done counts := by
  by_cases same : entered = left
  · subst same
    simp [countsAfter]
  · rw [if_neg (Ne.symm same), if_neg same]
    simp only [countsAfter]
    abel

theorem stepIntoCounted_counts {entered : MountId} {path : Path} {s : World × Counts}
    (arrived : path.mnt = entered) (left : s.1.nd.path.mnt = w.nd.path.mnt)
    (held : s.2 = if entered = w.nd.path.mnt then counts else counts + Pi.single entered 1) :
    Yields (stepIntoCounted path follow)
      (fun status s' => s'.2 = countsAfter w.nd.path.mnt entered status counts) s := by
  unfold Yields stepIntoCounted
  rw [wp_bind, wp_withGhost, wp_getHeap, wp_ite]
  constructor
  · intro _
    rw [wp_bind, wp_pathToNameidataCounted, wp_bind, wp_terminateWalkCounted, wp_pure]
    simp only [held, left, arrived, countsAfter_done]
    simp only [countsAfter]
    abel
  · intro _
    rw [wp_ite]
    constructor
    · intro _
      rw [wp_pure, held]
      rfl
    · intro _
      rw [wp_bind, wp_pathToNameidataCounted, wp_bind, wp_withGhost, wp_modifyNd, wp_pure]
      simp only [held, left, arrived, countsAfter_done]

/-- `walk_component` changes the counts as it should. -/
theorem componentHit_counts (tree : MountTree env) :
    Yields (componentHitCounted env d follow) (fun status s' =>
      s'.2 = countsAfter w.nd.path.mnt (pileTop env env.mountDepth ⟨w.nd.path.mnt, d⟩).mnt status counts)
      (w, counts) := by
  unfold Yields componentHitCounted crossMountsCounted
  rw [wp_bind, wp_bind, wp_withGhost, wp_getNd, wp_bind]
  apply wp_followManagedCounted tree
  rintro s' ⟨h', same, rfl⟩
  simp only []
  rw [wp_ite]
  constructor
  · intro _
    rw [wp_bind, wp_withGhost, wp_modifyNd, wp_pure]
    exact stepIntoCounted_counts rfl rfl rfl
  · intro _
    rw [wp_pure]
    exact stepIntoCounted_counts rfl rfl rfl

/-! ### `walk_chain` -/

/-- How `walk_chain` leaves a cached component: with the inode of the component, whatever is mounted on
    it, and with one reference too few to the mount it has left. -/
structure HitCounted (env : Env) (d : DentryId) (follow : Bool) (w : World) (counts : Counts)
    (status : Status) (s' : World × Counts) : Prop where
  ended : status =
    if w.heap.dIsSymlink (pileTop env env.mountDepth ⟨w.nd.path.mnt, d⟩).dentry ∧ follow then
      .link (pileTop env env.mountDepth ⟨w.nd.path.mnt, d⟩)
    else if w.heap.inode d = none then .fail .ENOENT else .done
  inodes : ∀ x, s'.1.heap.inode x = w.heap.inode x
  standing : status = .done →
    s'.1.nd.path = pileTop env env.mountDepth ⟨w.nd.path.mnt, d⟩ ∧ s'.1.nd.inode = w.heap.inode d
  counts : s'.2 =
    countsAfter w.nd.path.mnt (pileTop env env.mountDepth ⟨w.nd.path.mnt, d⟩).mnt status counts -
      if (pileTop env env.mountDepth ⟨w.nd.path.mnt, d⟩).mnt = w.nd.path.mnt then 0
      else Pi.single w.nd.path.mnt 1

/-- Both ways to the path of a cached dentry climb the pile. -/
theorem wp_chainPathCounted {post : Path → World × Counts → Prop} (s : World × Counts)
    (observed : ∀ event claim, claim → use event claim)
    (continues : ∀ s', Climbed s s.1.nd.path.mnt
        (pileTop env env.mountDepth ⟨s.1.nd.path.mnt, d⟩).mnt s' →
      post (pileTop env env.mountDepth ⟨s.1.nd.path.mnt, d⟩) s') :
    wp use faults (chainPathCounted env d) post s := by
  unfold chainPathCounted
  rw [wp_bind, wp_withGhost, wp_getNd, wp_ite]
  constructor
  · intro _
    rw [wp_bind]
    apply wp_followMountCounted
    intro s' climbed
    rw [wp_bind, wp_withGhost, wp_observe]
    exact observed _ _ (continues s' climbed)
  · intro unmounted
    have empty : pileTop env env.mountDepth ⟨s.1.nd.path.mnt, d⟩ = ⟨s.1.nd.path.mnt, d⟩ :=
      pileTop_of_not_crosses (fun crosses => unmounted crosses.1) _
    rw [empty] at continues
    exact continues s (.refl s _)

/-- The counts of `walk_chain` where the walk goes on. -/
theorem counts_done (left entered : MountId) (counts : Counts) :
    (if left = entered then counts - Pi.single left 1 + Pi.single entered 1
      else counts - Pi.single left 1 + Pi.single entered 1 - Pi.single left 1) =
      countsAfter left entered .done counts - if entered = left then 0 else Pi.single left 1 := by
  by_cases same : entered = left
  · simp [same, countsAfter]
  · rw [if_neg (Ne.symm same), if_neg same, countsAfter]

theorem counts_link (left : MountId) (entered : Path) (counts : Counts) :
    counts - Pi.single left 1 + Pi.single entered.mnt 1 =
      countsAfter left entered.mnt (.link entered) counts -
        if entered.mnt = left then 0 else Pi.single left 1 := by
  by_cases same : entered.mnt = left
  · simp [same, countsAfter]
  · simp only [countsAfter, if_neg same]
    abel

theorem chainHitCounted_ends (locked : ParentLocked w) :
    Returns (chainHitCounted env d follow) (HitCounted env d follow w counts) (w, counts) := by
  obtain ⟨inode, positive, held⟩ := locked
  unfold Returns chainHitCounted
  rw [wp_bind]
  apply wp_chainPathCounted
  · intro _ _ claim
    exact claim
  rintro _ ⟨h₁, same, rfl⟩
  simp only [] at same
  have symlinks : ∀ x, h₁.dIsSymlink x = w.heap.dIsSymlink x := by
    intro x
    rw [Heap.dIsSymlink, same.type, Heap.dIsSymlink]
  rw [wp_bind, wp_withGhost, wp_getHeap, wp_ite, symlinks]
  constructor
  · intro isLink
    rw [wp_bind, wp_withGhost, wp_getNd, wp_bind, wp_withGhost]
    apply wp_mutexUnlock_held ((same.inode _).trans positive) (same.held.symm ▸ held)
    rw [wp_pure]
    constructor
    · rw [if_pos isLink]
    · exact same.inode
    · intro done
      cases done
    · exact counts_link _ _ _
  · intro notLink
    rw [wp_bind, wp_pathToNameidataCounted, wp_bind, wp_withGhost, wp_getHeap, wp_bind, wp_withGhost,
      wp_modifyNd, wp_bind, wp_withGhost]
    apply wp_freeDchainList
    intro h₂ last freed
    have shape : SameShape w.heap h₂ := (same.trans (SameShape.dput _ _)).trans freed
    have kept : (h₁.dput w.nd.path.dentry).inode d = w.heap.inode d :=
      (same.trans (SameShape.dput _ _)).inode d
    rw [wp_bind, wp_withGhost, wp_getNd, wp_bind, wp_withGhost]
    apply wp_mutexUnlock_held ((shape.inode _).trans positive) (shape.held.symm ▸ held)
    simp only [counts_done]
    rw [wp_ite, kept]
    constructor
    · intro negative
      rw [wp_bind, wp_terminateWalkCounted, wp_pure]
      constructor
      · rw [if_neg notLink, if_pos negative]
      · exact shape.inode
      · intro done
        cases done
      · simp only [countsAfter]
        abel
    · intro present
      rw [wp_pure]
      constructor
      · rw [if_neg notLink, if_neg present]
      · exact shape.inode
      · intro _
        exact ⟨rfl, rfl⟩
      · rfl

end Counting

/-! ### Crossings -/

/-- A real crossing leaves the mount it comes from with one reference too few. -/
theorem not_crossesRightly (tree : MountTree env) (locked : ParentLocked w) (crosses : Crosses env d w) :
    ¬CrossesRightly env d follow w counts := by
  rintro ⟨status', returned', -, -, right⟩
  obtain ⟨mountpoint, something⟩ := crosses
  obtain ⟨status, returned, hit⟩ := returns_iff.mp
    (@chainHitCounted_ends env d follow w counts locked)
  rw [returned] at returned'
  cases returned'
  have apart := pileTop_of_crosses tree mountpoint something
  have counted := hit.counts
  rw [if_neg apart, right] at counted
  have one := congrFun counted w.nd.path.mnt
  rw [Pi.sub_apply, Pi.single_eq_same] at one
  omega

/-- A crossing of `walk_chain` leaves the walk consistent exactly if there is none: if nothing is mounted
    on the component. -/
theorem crosses_rightly_iff (tree : MountTree env) (locked : ParentLocked w) :
    CrossesRightly env d follow w counts ↔ ¬Crosses env d w := by
  constructor
  · intro right crosses
    exact not_crossesRightly tree locked crosses right
  · intro nothing
    have empty : pileTop env env.mountDepth ⟨w.nd.path.mnt, d⟩ = ⟨w.nd.path.mnt, d⟩ := by
      apply pileTop_of_not_crosses
      intro crosses
      exact nothing crosses
    obtain ⟨status, returned, hit⟩ := returns_iff.mp
      (@chainHitCounted_ends env d follow w counts locked)
    refine ⟨status, returned, ?_, ?_, ?_⟩
    · intro done
      obtain ⟨path, inode⟩ := hit.standing done
      refine ⟨path, ?_⟩
      rw [hit.inodes, inode, empty]
    · intro notLink
      have ended := hit.ended
      rw [empty] at ended notLink ⊢
      split at ended
      · exact absurd ended notLink
      · split at ended
        · rename_i negative
          simp [ended, negative]
        · rename_i present
          simp [ended, present]
    · rw [hit.counts, empty, if_pos rfl, sub_zero]

/-! ### One mount -/

/-- A filesystem is mounted on the dentry 1; its root is the dentry 2. -/
def mountEnv : Env :=
  { Env.calm with
    mount := fun mnt => if mnt = 1 then ⟨2, 0, 1⟩ else ⟨0, 0, 0⟩
    mountpoint := fun d => d = 1
    lookupMnt := fun path => if path = ⟨0, 1⟩ then some 1 else none
    mountDepth := 1 }

/-- A walk at the root of the first filesystem, about to take the cached name `m`. -/
def mountWorld : World where
  nd :=
    { path := ⟨0, 0⟩
      last := ⟨[109], 0⟩
      root := none
      inode := some 1
      flags := ⟨true, false, false, false, false, false⟩
      lastType := .norm
      depth := 0
      dchainList := []
      chainSize := 0
      chainParent := 0 }
  heap :=
    { dentry := fun d =>
        if d = 0 then ⟨0, [slash], some 1, .directory⟩
        else if d = 1 then ⟨0, [109], some 2, .directory⟩
        else if d = 2 then ⟨2, [slash], some 3, .directory⟩ else ⟨0, [], none, .miss⟩
      hash := fun d n => if d = 0 ∧ n = [109] then some 1 else none
      next := 3
      count := fun _ => 1
      low := fun _ => 1
      held := [1]
      tick := 0 }
  linkCount := 0
  totalLinkCount := 0

theorem mountEnv_tree : MountTree mountEnv := by
  refine ⟨fun mnt => mnt, ?_⟩
  intro path mounted found
  simp only [mountEnv] at found
  split at found
  · rename_i here
    subst here
    cases found
    decide
  · cases found

theorem mountWorld_locked : ParentLocked mountWorld := ⟨1, by decide, by decide⟩

/-- Nothing is mounted on the name `m` for a walk in another mount. -/
theorem unmounted_name_right :
    CrossesRightly mountEnv 1 true
      { mountWorld with nd := { mountWorld.nd with path := ⟨2, 0⟩ } } fun _ => 1 :=
  (crosses_rightly_iff mountEnv_tree ⟨1, by decide, by decide⟩).mpr (by
    rintro ⟨-, something⟩
    exact something rfl)

/-- After `m` the walk is at the root of the second filesystem with the inode of the covered directory,
    and it has given back two references to the first mount. -/
theorem crossing_keeps_covered_inode :
    let left := (chainHitCounted mountEnv 1 true (mountWorld, fun _ => 1)).state
    left.1.nd.path = ⟨1, 2⟩ ∧ left.1.nd.inode = some 2 ∧ left.1.heap.inode 2 = some 3 ∧ left.2 0 = -1 ∧
      ¬CrossesRightly mountEnv 1 true mountWorld fun _ => 1 :=
  ⟨by decide, by decide, by decide, by decide,
    not_crossesRightly mountEnv_tree mountWorld_locked ⟨by decide, by decide⟩⟩

end Nfs4Compound.Vfs
