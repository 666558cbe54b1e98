/-
Module: Nfs4Compound.Proofs.FollowLink
Layer: Proofs
Purpose: `follow_link` does what it owes its callers exactly when the flush behind the text of the link,
  if there is one, neither fails nor stops at another symlink.
Imports: Nfs4Compound.Vfs.FollowLink, Nfs4Compound.Proofs.WalkSteps
Trusted boundary: none
Main exports: followLink_result, flushLinkText_result, keeps_link_iff
-/
import Nfs4Compound.Vfs.FollowLink
import Nfs4Compound.Proofs.WalkSteps

namespace Nfs4Compound.Vfs

open Prog

variable {env : Env} {walk : List Qstr → Walk Status} {link : Path} {w w₁ : World} {status : Status}

/-! ### The steps of `follow_link` -/

/-- `follow_link` behind the walk of the text. -/
def followLinkEnd (env : Env) (link : Path) (status : Status) : Walk (Except Errno Path) := do
  let link ← flushLinkText env link
  match status with
  | .fail error =>
      putLink link
      return .error error
  | _ => return .ok link

/-- Once the text is walked, `follow_link` ends as its end does. -/
theorem followLink_result (walked : textWalked env walk link w = some (status, w₁)) :
    (followLink env walk link w).result = (followLinkEnd env link status w₁).result := by
  unfold textWalked at walked
  split at walked
  · cases walked
  · rename_i few
    split at walked
    · cases walked
    · rename_i inode inodeIs
      split at walked
      · cases walked
      · rename_i stored storedIs
        have ran := @wp_run _ _ _ _ w (followLink env walk link)
          fun result _ => result = (followLinkEnd env link status w₁).result
        rw [← ran, followLink, wp_bind, wp_observe, wp_bind, wp_read, if_neg few, wp_bind, wp_update, wp_bind,
          wp_modifyNd, wp_bind, wp_derefInode]
        constructor
        · intro other same
          cases inodeIs.symm.trans same
          rw [wp_bind, wp_dcache, after_ask]
          simp only [storedIs]
          change wp _ _ (vfsFollowLink env walk stored >>= followLinkEnd env link) _ w.atText
          rw [wp_bind, wp_silent]
          split at walked
          · rename_i value returned
            cases walked
            rw [returned]
            have ends := @wp_run _ _ _ _ (vfsFollowLink env walk stored w.atText).state
              (followLinkEnd env link status) fun result _ =>
                result = (followLinkEnd env link status (vfsFollowLink env walk stored w.atText).state).result
            exact ends.mpr rfl
          · cases walked
        · intro missing
          rw [inodeIs] at missing
          cases missing

/-- A link that is given back comes from a text that was walked without an error. -/
theorem textWalked_of_kept {kept : Path} (returned : (followLink env walk link w).result = .ok (.ok kept)) :
    ∃ status w₁, textWalked env walk link w = some (status, w₁) := by
  have ran := @wp_run _ _ _ _ w (followLink env walk link) fun result _ =>
    result = .ok (.ok kept) → ∃ status w₁, textWalked env walk link w = some (status, w₁)
  refine ran.mp ?_ returned
  rw [followLink, wp_bind, wp_observe, wp_bind, wp_read]
  unfold textWalked
  split
  · simp only [pathPut, wp_bind, wp_getNd, wp_modifyHeap, wp_pure]
    intro other
    cases other
  · rw [wp_bind, wp_update, wp_bind, wp_modifyNd, wp_bind, wp_derefInode]
    constructor
    · intro inode inodeIs
      rw [wp_bind, wp_dcache, after_ask]
      rw [inodeIs]
      cases storedIs : env.readlink w.heap.tick inode with
      | error error =>
          simp only [pathPut, wp_bind, wp_getNd, wp_modifyHeap, wp_pure]
          intro other
          cases other
      | ok stored =>
          simp only [storedIs]
          change wp _ _ (vfsFollowLink env walk stored >>= followLinkEnd env link) _ w.atText
          rw [wp_bind, wp_silent]
          cases (vfsFollowLink env walk stored w.atText).result with
          | error fault =>
              intro other
              cases other
          | ok status =>
              simp only
              rw [wp_silent]
              split
              · exact fun _ => ⟨_, _, rfl⟩
              · intro other
                cases other
    · intro _ other
      cases other

/-! ### The flush -/

/-- The link after a flush that ended with this status. -/
def Status.linkAfter (link : Path) : Status → Path
  | .link path => path
  | .chainLink path => path
  | _ => link

theorem flushLinkText_idle (idle : ¬FlushesText env w) :
    (flushLinkText env link w).result = .ok link ∧ (flushLinkText env link w).state = w := by
  have ran := @wp_run _ _ _ _ w (flushLinkText env link) fun result w' => result = .ok link ∧ w' = w
  unfold FlushesText at idle
  rw [← ran, flushLinkText, wp_bind, wp_getNd, if_neg idle, wp_pure]
  exact ⟨rfl, rfl⟩

theorem flushLinkText_ran (flushes : FlushesText env w) :
    (flushLinkText env link w).result = (chainLookup env w).result.map (Status.linkAfter link) := by
  have ran := @wp_run _ _ _ _ w (flushLinkText env link) fun result _ =>
    result = (chainLookup env w).result.map (Status.linkAfter link)
  unfold FlushesText at flushes
  rw [← ran, flushLinkText, wp_bind, wp_getNd, if_pos flushes, wp_bind, wp_observe, wp_bind, wp_silent]
  cases (chainLookup env w).result with
  | error fault => rfl
  | ok status => cases status <;> rfl

/-- The end of `follow_link`, once the flush has given it a link. -/
theorem followLinkEnd_result {put : Path} (flushed : (flushLinkText env link w).result = .ok put) :
    (∀ kept, (followLinkEnd env link status w).result = .ok (.ok kept) → kept = put) ∧
      (∀ error, (followLinkEnd env link status w).result = .ok (.error error) → status = .fail error) := by
  have ran := @wp_run _ _ _ _ w (followLinkEnd env link status) fun result _ =>
    (∀ kept, result = .ok (.ok kept) → kept = put) ∧ (∀ error, result = .ok (.error error) → status = .fail error)
  rw [← ran, followLinkEnd, wp_bind, wp_silent, flushed]
  cases status with
  | fail error =>
      simp only [putLink, pathPut, wp_bind, wp_derefInode, wp_modifyHeap, wp_pure]
      refine ⟨fun _ _ => ⟨(fun kept other => by cases other), ?_⟩,
        fun _ => ⟨(fun kept other => by cases other), (fun error other => by cases other)⟩⟩
      intro other same
      cases same
      rfl
  | done => exact ⟨fun kept same => by cases same; rfl, fun error other => (by cases other)⟩
  | link path => exact ⟨fun kept same => by cases same; rfl, fun error other => (by cases other)⟩
  | chainLink path => exact ⟨fun kept same => by cases same; rfl, fun error other => (by cases other)⟩

/-- If the text was walked without an error, the link of the flush is given back. -/
theorem followLinkEnd_ok {put : Path} (flushed : (flushLinkText env link w).result = .ok put)
    (walked : status.releases = 0) : (followLinkEnd env link status w).result = .ok (.ok put) := by
  have ran := @wp_run _ _ _ _ w (followLinkEnd env link status) fun result _ => result = .ok (.ok put)
  rw [← ran, followLinkEnd, wp_bind, wp_silent, flushed]
  cases status with
  | fail error => cases walked
  | done => rfl
  | link path => rfl
  | chainLink path => rfl

/-- Every flush gives back the link it was called with. -/
theorem FlushSucceeds.put_eq {put : Path} (succeeds : FlushSucceeds env walk link w)
    (walked : textWalked env walk link w = some (status, w₁))
    (flushed : (flushLinkText env link w₁).result = .ok put) : put = link := by
  by_cases flushes : FlushesText env w₁
  · obtain ⟨-, stops⟩ := succeeds status w₁ walked flushes
    rw [flushLinkText_ran flushes] at flushed
    cases result : (chainLookup env w₁).result with
    | error fault =>
        rw [result] at flushed
        cases flushed
    | ok flush =>
        rw [result] at flushed stops
        cases flush with
        | done => cases flushed; rfl
        | fail error => cases flushed; rfl
        | link path =>
            cases flushed
            exact stops path (.inr rfl)
        | chainLink path =>
            cases flushed
            exact stops path (.inl rfl)
  · rw [(flushLinkText_idle flushes).1] at flushed
    cases flushed
    rfl

theorem FlushSucceeds.keepsLink (succeeds : FlushSucceeds env walk link w) : KeepsLink env walk link w := by
  refine ⟨?_, ?_, ?_⟩
  · intro status w₁ error walked flushes failed
    exact absurd failed ((succeeds status w₁ walked flushes).1 error)
  · intro kept returned
    obtain ⟨status, w₁, walked⟩ := textWalked_of_kept returned
    rw [followLink_result walked] at returned
    cases flushed : (flushLinkText env link w₁).result with
    | ok put =>
        rw [(followLinkEnd_result flushed).1 kept returned]
        exact succeeds.put_eq walked flushed
    | error fault =>
        have ran := @wp_run _ _ _ _ w₁ (followLinkEnd env link status) fun result _ => result = .error fault
        have crashed : (followLinkEnd env link status w₁).result = .error fault := by
          rw [← ran, followLinkEnd, wp_bind, wp_silent, flushed]
        rw [crashed] at returned
        cases returned
  · intro error w₁ put walked flushed
    exact succeeds.put_eq walked flushed

theorem KeepsLink.flushSucceeds (keeps : KeepsLink env walk link w) : FlushSucceeds env walk link w := by
  intro status w₁ walked flushes
  constructor
  · intro error failed
    -- the walk of the text would have to fail, with the same error, but then it has released the place
    obtain ⟨returned, once⟩ := keeps.fails status w₁ error walked flushes failed
    have flushed : (flushLinkText env link w₁).result = .ok link := by
      rw [flushLinkText_ran flushes, failed]
      rfl
    rw [followLink_result walked] at returned
    rw [(followLinkEnd_result flushed).2 error returned] at once
    cases once
  · intro path stopped
    have flushed : (flushLinkText env link w₁).result = .ok path := by
      rw [flushLinkText_ran flushes]
      rcases stopped with result | result <;> rw [result] <;> rfl
    cases status with
    | fail error => exact keeps.puts error w₁ path walked flushed
    | done => exact keeps.keeps path (by rw [followLink_result walked]; exact followLinkEnd_ok flushed rfl)
    | link other => exact keeps.keeps path (by rw [followLink_result walked]; exact followLinkEnd_ok flushed rfl)
    | chainLink other =>
        exact keeps.keeps path (by rw [followLink_result walked]; exact followLinkEnd_ok flushed rfl)

/-- `follow_link` returns the error of a failed flush and keeps its link exactly when the flush behind the
    text of the link, if there is one, does not fail and stops at no other symlink. -/
theorem keeps_link_iff (env : Env) (walk : List Qstr → Walk Status) (link : Path) (w : World) :
    KeepsLink env walk link w ↔ FlushSucceeds env walk link w :=
  ⟨KeepsLink.flushSucceeds, FlushSucceeds.keepsLink⟩

/-! ### A link to a missing directory -/

/-- A task at the root, where the symlink `l` to `b/c` is cached. -/
def linkWorld : World where
  nd :=
    { path := ⟨0, 0⟩
      last := ⟨[108], 1⟩
      root := none
      inode := some 1
      flags := ⟨true, false, false, false, false, false⟩
      lastType := .norm
      depth := 0
      dchainList := []
      chainSize := 0
      chainParent := 0 }
  heap :=
    { dentry := fun d =>
        if d = 0 then ⟨0, [slash], some 1, .directory⟩
        else if d = 1 then ⟨0, [108], some 2, .symlink⟩ else ⟨0, [], none, .miss⟩
      hash := fun d n => if d = 0 ∧ n = [108] then some 1 else none
      next := 2
      count := fun _ => 1
      low := fun _ => 1
      held := []
      tick := 0 }
  linkCount := 0
  totalLinkCount := 0

/-- The server has no `b`. -/
def missingEnv : Env :=
  { Env.calm with
    kind := fun inode => if inode = 2 then .symlink else .directory
    readlink := fun _ _ => .ok (.ok [98, slash, 99]) }

/-- `follow_link` returns 0 although the flush of the chain built from the text has failed. -/
theorem missing_directory_followed :
    ∃ w₁, textWalked missingEnv (walkText missingEnv) ⟨0, 1⟩ linkWorld = some (.done, w₁) ∧
      FlushesText missingEnv w₁ ∧ (chainLookup missingEnv w₁).result = .ok (.fail .ENOENT) ∧
      (followLink missingEnv (walkText missingEnv) ⟨0, 1⟩ linkWorld).result = .ok (.ok ⟨0, 1⟩) ∧
      ¬KeepsLink missingEnv (walkText missingEnv) ⟨0, 1⟩ linkWorld := by
  refine ⟨(vfsFollowLink missingEnv (walkText missingEnv) (.ok [98, slash, 99]) linkWorld.atText).state,
    rfl, ⟨by decide, by decide⟩, by decide, by decide, ?_⟩
  intro keeps
  have failed := (keeps.fails .done _ .ENOENT rfl ⟨by decide, by decide⟩ (by decide)).1
  exact absurd failed (by decide)

end Nfs4Compound.Vfs
