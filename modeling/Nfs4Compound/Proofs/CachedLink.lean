/-
Module: Nfs4Compound.Proofs.CachedLink
Layer: Proofs
Purpose: A step to a symlink that is cached, and not rejected by the dcache, gives the link; a link in the
  middle of a path is then followed, which counts.
Imports: Nfs4Compound.Proofs.Pathname, Nfs4Compound.Proofs.WalkSteps
Trusted boundary: none
Main exports: nestedSymlink_counts, CachedLink, LinkTaken, walkChain_cached, walkComponent_cached,
  walkText_counts
-/
import Nfs4Compound.Proofs.Pathname
import Nfs4Compound.Proofs.WalkSteps

namespace Nfs4Compound.Vfs

open Prog

variable {env : Env} {w : World}

/-! ### Following a link counts -/

theorem Steady.yields {α : Type} {x : Walk α} (steady : Steady x) : Yields x (fun _ w' => Counted w w') w :=
  Prog.Stays.yields steady

theorem followLink_counts {walk : List Qstr → Walk Status} (walks : ∀ names, Steady (walk names))
    (link : Path) :
    Yields (followLink env walk link)
      (fun result w' => ∀ kept, result = .ok kept → w.totalLinkCount < w'.totalLinkCount) w := by
  unfold Yields
  rw [followLink_eq, wp_bind, wp_observe, wp_bind, wp_read, wp_ite]
  constructor
  · intro _
    simp only [wp_bind, wp_getNd, pathPut, wp_modifyHeap, wp_pure]
    rintro kept ⟨⟩
  · intro _
    rw [wp_bind, wp_update]
    apply Yields.mono (followText_steady walks link).yields
    intro result w' counted kept _
    exact counted.grows

theorem nestedLoop_counts {walk : List Qstr → Walk Status} (walks : ∀ names, Steady (walk names))
    (fuel : Nat) (path : Path) :
    Yields (nestedLoop env walk fuel path)
      (fun status w' => status = .done → w.totalLinkCount < w'.totalLinkCount) w := by
  cases fuel with
  | zero => trivial
  | succ fuel =>
      unfold Yields
      rw [nestedLoop, wp_bind]
      apply Yields.mono (followLink_counts walks path)
      intro result w₁ counts
      cases result with
      | error error =>
          intro other
          cases other
      | ok link =>
          have first := counts link rfl
          have rest : Steady (do
              let status ← walkComponent env true
              putLink link
              nestedLoopOn env walk fuel status) := by
            apply steady_bind (walkComponent_steady true)
            intro status
            apply steady_bind (putLink_steady link)
            intro _
            cases status with
            | link path => exact nestedLoop_steady walks fuel path
            | chainLink path => exact nestedLoop_steady walks fuel path
            | done => exact steady_pure _
            | fail error => exact steady_pure _
          apply Yields.mono rest.yields
          intro status w' counted _
          exact Nat.lt_of_lt_of_le first counted.grows

theorem nestedSymlink_counts (nest : Nat) (path : Path) :
    Yields (nestedSymlink env nest path)
      (fun status w' => status = .done → w.totalLinkCount < w'.totalLinkCount) w := by
  unfold Yields
  rw [nestedSymlink.eq_def, wp_bind, wp_read, wp_ite]
  constructor
  · intro _
    simp only [wp_bind, wp_getNd, pathPut, wp_modifyHeap, wp_pure]
    intro other
    cases other
  · intro _
    rw [wp_bind, wp_getNd, wp_ite]
    constructor
    · intro _
      trivial
    · intro _
      cases nest with
      | zero => trivial
      | succ nest =>
          simp only [wp_bind, wp_modifyNd, wp_update, wp_pure]
          exact nestedLoop_counts (linkPathWalk_steady (nestedSymlink_steady nest)) _ path

/-! ### A cached link -/

/-- No chain is pending, and the name is cached as a symlink that the dcache does not reject. -/
structure CachedLink (env : Env) (text : Name) (link : DentryId) (w : World) : Prop where
  idle : w.nd.chainSize = 0
  found : w.heap.hash w.nd.path.dentry text = some link
  symlink : w.heap.dIsSymlink link = true
  positive : ∃ inode, w.heap.inode link = some inode
  bare : env.mountpoint link = false
  kept : ¬Rejects env w.heap link

/-- A stale dentry that is not rejected stays. -/
theorem dInvalidate_refused {h h' : Heap} {link : DentryId} (kept : ¬Rejects env h link)
    (stale : env.revalidate h.tick link = .stale) (next : h'.tick = h.tick + 1) :
    dInvalidate env link h' = (false, h'.ticked) := by
  have refused : env.invalidate h'.tick link = false := by
    apply Bool.eq_false_iff.mpr
    intro granted
    rw [next] at granted
    exact kept ⟨stale, granted⟩
  change (if env.invalidate h'.tick link = true then _ else _ : Dcache Bool) h'.ticked = _
  rw [refused]
  rfl

/-- The lookup of a cached link gives the link, or an error. -/
theorem lookupDcache_cached {h : Heap} {dir link : DentryId} {text : Name}
    (found : h.hash dir text = some link) (symlink : h.dIsSymlink link = true)
    (kept : ¬Rejects env h link) :
    after (lookupDcache env text dir)
      (fun result h' => h'.dentry = h.dentry ∧ ∀ value, result = .ok value → value = (link, false)) h := by
  have notTemp : (h.dget link).dIsChainTemp link = false := by
    have type : h.type link = .symlink := by simpa [Heap.dIsSymlink] using symlink
    change (h.type link == .chainTemp) = false
    rw [type]
    rfl
  unfold lookupDcache
  rw [after_bind, after_dLookup]
  simp only [found, after_bind, after_get, notTemp]
  rw [if_neg (by simp)]
  simp only [after_bind, after_ask]
  cases answer : env.revalidate (h.dget link).tick link with
  | valid => exact ⟨rfl, fun value same => (Except.ok.inj same).symm⟩
  | failed error =>
      simp only [after_bind, after_modify, after_pure]
      exact ⟨rfl, fun _ other => (by cases other)⟩
  | stale =>
      have refused : dInvalidate env link (h.dget link).ticked = _ := dInvalidate_refused kept answer rfl
      rw [after_bind, after, refused]
      exact ⟨rfl, fun value same => (Except.ok.inj same).symm⟩

/-- How a step to a cached link ends: with the link, unless it is not to be followed. -/
def LinkTaken (follow : Bool) : Status → Prop
  | .link _ => True
  | .fail _ => True
  | .done => follow = false
  | .chainLink _ => False

theorem mutexUnlock_nd (d : DentryId) : Yields (mutexUnlock d) (fun _ w' => w'.nd = w.nd) w := by
  unfold Yields mutexUnlock
  rw [wp_bind, wp_derefInode]
  refine ⟨fun inode _ => ?_, fun _ => trivial⟩
  rw [wp_bind, wp_getHeap, wp_ite]
  exact ⟨fun _ => rfl, fun _ => trivial⟩

theorem mutexLock_cached {d : DentryId} :
    Yields (mutexLock d) (fun _ w' => w'.nd = w.nd ∧ ∃ held, w'.heap = { w.heap with held := held }) w := by
  unfold Yields mutexLock
  rw [wp_bind, wp_derefInode]
  refine ⟨fun inode _ => ?_, fun _ => trivial⟩
  rw [wp_bind, wp_getHeap, wp_ite]
  exact ⟨fun _ => trivial, fun _ => ⟨rfl, _, rfl⟩⟩

theorem chainHit_cached {link : DentryId} (symlink : w.heap.dIsSymlink link = true)
    (bare : env.mountpoint link = false) (follow : Bool) :
    Yields (chainHit env link follow)
      (fun status w' => LinkTaken follow status ∧ (status = .done → w'.nd.chainSize = 0)) w := by
  unfold Yields chainHit chainPath
  simp only [bare, wp_bind, wp_getNd, wp_getHeap, wp_ite, wp_pure]
  refine ⟨(fun other => by cases other), fun _ => ⟨fun _ => ?_, fun notFollowed => ?_⟩⟩
  · apply Yields.mono yields_true
    intro _ w' _
    exact ⟨trivial, fun other => (by cases other)⟩
  · have off : follow = false := by
      apply Bool.eq_false_iff.mpr
      intro on
      exact notFollowed ⟨symlink, on⟩
    simp only [pathToNameidata, wp_bind, wp_getNd, pathPut, wp_modifyHeap, wp_modifyNd, freeDchainList,
      wp_update]
    apply Yields.mono (mutexUnlock_nd _)
    intro _ w' same
    constructor
    · intro _
      exact ⟨trivial, fun other => (by cases other)⟩
    · intro _
      exact ⟨off, fun _ => by rw [same]⟩

theorem walkChain_cached {link : DentryId} (cached : CachedLink env w.nd.last.text link w)
    (norm : w.nd.lastType = .norm) (follow : Bool) :
    Yields (walkChain env follow)
      (fun status w' => LinkTaken follow status ∧ (status = .done → w'.nd.chainSize = 0)) w := by
  unfold Yields walkChain
  rw [wp_bind, wp_getNd, if_neg (not_not_intro norm), wp_bind]
  unfold walkChainName chainBase
  simp only [wp_bind, wp_getNd, wp_ite, wp_modifyNd]
  refine ⟨fun pending => absurd cached.idle pending, fun _ => ?_⟩
  apply Yields.mono mutexLock_cached
  rintro _ ⟨nd₁, heap₁, _, _⟩ ⟨sameNd, held, sameHeap⟩
  cases sameNd
  cases sameHeap
  rw [wp_pure, wp_dcache]
  apply after_mono (@lookupDcache_cached env { w.heap with held := held } _ link _ cached.found
    cached.symlink cached.kept)
  rintro result h ⟨dentry, only⟩
  cases result with
  | error error =>
      simp only [chainFail, terminateWalk, wp_bind, wp_getNd, pathPut, wp_modifyHeap, freeDchainList,
        wp_update]
      apply Yields.mono yields_true
      intro _ _ _
      exact ⟨trivial, fun other => (by cases other)⟩
  | ok value =>
      rw [only value rfl]
      simp only [wp_bind, wp_observe]
      have symlink : h.dIsSymlink link = true := by
        unfold Heap.dIsSymlink Heap.type
        rw [dentry]
        exact cached.symlink
      apply Yields.mono (chainHit_cached symlink cached.bare follow)
      intro status w' taken
      exact taken

theorem crossMounts_bare {d : DentryId} (bare : env.mountpoint d = false) :
    Yields (crossMounts env d) (fun path w' => path.dentry = d ∧ w'.heap = w.heap) w := by
  have stays : ∀ depth (path : Path), path.dentry = d → ∀ h, followMount env depth path h = (path, h) := by
    intro depth path same h
    cases depth with
    | zero => rfl
    | succ depth =>
        unfold followMount
        rw [same, bare]
        rfl
  unfold Yields crossMounts
  rw [wp_bind, wp_getNd, wp_bind, wp_dcache]
  unfold followManaged
  rw [after_bind]
  unfold after
  rw [stays _ _ rfl]
  change wp _ _ (if _ then _ else _) _ _
  rw [wp_ite]
  exact ⟨fun _ => ⟨rfl, rfl⟩, fun _ => ⟨rfl, rfl⟩⟩

theorem lookupFast_cached {link : DentryId} (cached : CachedLink env w.nd.last.text link w) :
    Yields (lookupFast env)
      (fun result w' => w'.heap.dentry = w.heap.dentry ∧
        ∀ found, result = .ok found → ∃ path, found = some path ∧ path.dentry = link) w := by
  have accepts : ∀ h : Heap, h.dentry = w.heap.dentry →
      Yields (do
          observe (.accept w.nd.path.dentry link)
          return .ok (some (← crossMounts env link)))
        (fun (result : Except Errno (Option Path)) w' => w'.heap.dentry = w.heap.dentry ∧
          ∀ found, result = .ok found → ∃ path, found = some path ∧ path.dentry = link)
        { w with heap := h } := by
    intro h same
    unfold Yields
    rw [wp_bind, wp_observe, wp_bind]
    apply Yields.mono (crossMounts_bare cached.bare)
    rintro path w' ⟨dentry, heap⟩
    rw [wp_pure]
    refine ⟨by rw [heap]; exact same, ?_⟩
    rintro found ⟨⟩
    exact ⟨path, rfl, dentry⟩
  unfold Yields lookupFast
  rw [wp_bind, wp_getNd, wp_bind, wp_dcache, after_dLookup]
  simp only [cached.found]
  rw [wp_bind, wp_dcache, after_ask]
  cases answer : env.revalidate (w.heap.dget link).tick link with
  | failed error =>
      simp only [wp_bind, wp_modifyHeap, wp_pure]
      exact ⟨rfl, fun _ other => (by cases other)⟩
  | valid => exact accepts _ rfl
  | stale =>
      have refused : dInvalidate env link (w.heap.dget link).ticked = _ :=
        dInvalidate_refused cached.kept answer rfl
      simp only [wp_bind, wp_dcache]
      rw [after, refused]
      exact accepts _ rfl

theorem stepInto_cached {path : Path} {inode : Ino} (symlink : w.heap.dIsSymlink path.dentry = true)
    (positive : w.heap.inode path.dentry = some inode) (follow : Bool) :
    Yields (stepInto path follow) (fun status _ => LinkTaken follow status) w := by
  have notNegative : ¬(w.heap.inode path.dentry = none ∨ w.heap.dIsNegative path.dentry = true) := by
    rintro (none | negative)
    · rw [positive] at none
      cases none
    · have type : w.heap.type path.dentry = .symlink := by simpa [Heap.dIsSymlink] using symlink
      rw [Heap.dIsNegative, type] at negative
      cases negative
  unfold Yields stepInto
  rw [wp_bind, wp_getHeap, if_neg notNegative, wp_ite]
  constructor
  · intro _
    trivial
  · intro notFollowed
    simp only [pathToNameidata, wp_bind, wp_getNd, pathPut, wp_modifyHeap, wp_modifyNd, wp_pure]
    apply Bool.eq_false_iff.mpr
    intro on
    exact notFollowed ⟨symlink, on⟩

theorem walkComponent_cached {link : DentryId} (cached : CachedLink env w.nd.last.text link w)
    (norm : w.nd.lastType = .norm) (follow : Bool) :
    Yields (walkComponent env follow) (fun status _ => LinkTaken follow status) w := by
  unfold Yields walkComponent
  rw [wp_bind, wp_observe, wp_bind, wp_getNd, if_neg (not_not_intro norm), wp_bind]
  apply Yields.mono (lookupFast_cached cached)
  rintro result w' ⟨dentry, only⟩
  cases result with
  | error error => exact trivial
  | ok found =>
      obtain ⟨path, rfl, same⟩ := only found rfl
      obtain ⟨inode, positive⟩ := cached.positive
      have symlink : w'.heap.dIsSymlink path.dentry = true := by
        unfold Heap.dIsSymlink Heap.type
        rw [dentry, same]
        exact cached.symlink
      have positive' : w'.heap.inode path.dentry = some inode := by
        unfold Heap.inode
        rw [dentry, same]
        exact positive
      exact stepInto_cached symlink positive' follow

theorem walkStep_cached {link : DentryId} (cached : CachedLink env w.nd.last.text link w)
    (norm : w.nd.lastType = .norm) : Yields (walkStep env) (fun status _ => LinkTaken true status) w := by
  unfold Yields
  rw [walkStep, wp_bind, wp_getNd, wp_ite]
  constructor
  · intro _
    exact (walkChain_cached cached norm true).mono fun _ _ ends => ends.1
  · intro _
    exact walkComponent_cached cached norm true

/-- What is cached does not depend on where in the text the walk is. -/
theorem CachedLink.transport {text : Name} {link : DentryId} {w' : World}
    (cached : CachedLink env text link w) (heap : w'.heap = w.heap) (path : w'.nd.path = w.nd.path)
    (size : w'.nd.chainSize = w.nd.chainSize) : CachedLink env text link w' := by
  refine ⟨size.trans cached.idle, ?_, ?_, ?_, cached.bare, ?_⟩
  · rw [heap, path]
    exact cached.found
  · rw [heap]
    exact cached.symlink
  · rw [heap]
    exact cached.positive
  · rw [heap]
    exact cached.kept

/-- A link in the middle of a path is followed, or the walk ends. -/
theorem walkText_counts {this next : Qstr} {rest : List Qstr} {link : DentryId}
    (cached : CachedLink env this.text link w) (norm : this.type = .norm) :
    Yields (walkText env (this :: next :: rest))
      (fun status w' => status = .done → w.totalLinkCount < w'.totalLinkCount) w := by
  have goesOn : Steady (linkPathWalk env (nestedSymlink env maxNestedLinks) (next :: rest)) :=
    linkPathWalk_steady (nestedSymlink_steady maxNestedLinks) _
  unfold Yields
  rw [walkText, linkPathWalk, wp_bind, setLast, wp_modifyNd, wp_bind]
  refine Yields.mono (Yields.and (walkStep_cached (cached.transport rfl rfl rfl) norm)
    walkStep_steady.yields) ?_
  rintro status w₁ ⟨taken, counted⟩
  have follows : ∀ path, Yields
      (nestedSymlink env maxNestedLinks path >>=
        linkPathWalkOn env (nestedSymlink env maxNestedLinks) (next :: rest))
      (fun status w' => status = .done → w.totalLinkCount < w'.totalLinkCount) w₁ := by
    intro path
    unfold Yields
    rw [wp_bind]
    apply Yields.mono (nestedSymlink_counts maxNestedLinks path)
    intro status w₂ counts
    cases status with
    | link path =>
        intro other
        cases other
    | chainLink path =>
        intro other
        cases other
    | fail error =>
        intro other
        cases other
    | done =>
        have more := counts rfl
        simp only [linkPathWalkOn, wp_bind, wp_getHeap, wp_getNd, wp_ite]
        constructor
        · intro _
          apply Yields.mono goesOn.yields
          intro status w' further _
          exact Nat.lt_of_le_of_lt counted.grows (Nat.lt_of_lt_of_le more further.grows)
        · intro _ other
          cases other
  cases status with
  | link path => exact follows path
  | chainLink path => exact taken.elim
  | done => cases taken
  | fail error =>
      intro other
      cases other

end Nfs4Compound.Vfs
