/-
Module: Nfs4Compound.Vfs.FollowLink
Layer: Vfs
Purpose: What `follow_link` owes its callers once the text of the link has been walked: the error of the
  flush behind it, one release of where the walk was, and the link it was given.
Imports: Nfs4Compound.Vfs.PathWalk
Trusted boundary: a walk that fails has released where it was
Main exports: textWalked, FlushesText, KeepsLink, FlushSucceeds
-/
import Nfs4Compound.Vfs.PathWalk

namespace Nfs4Compound.Vfs

/-- The state in which the text of a link is walked. -/
def World.atText (w : World) : World :=
  { w with
    totalLinkCount := w.totalLinkCount + 1
    nd := { w.nd with lastType := .bind }
    heap := w.heap.ticked }

/-- The status with which `__vfs_follow_link` returns to `follow_link`, and the state it leaves, if it is
    called and returns. -/
def textWalked (env : Env) (walk : List Qstr → Walk Status) (link : Path) (w : World) :
    Option (Status × World) :=
  if maxTotalLinks ≤ w.totalLinkCount then none
  else
    match w.heap.inode link.dentry with
    | none => none
    | some inode =>
        match env.readlink w.heap.tick inode with
        | .error _ => none
        | .ok stored =>
            match (vfsFollowLink env walk stored w.atText).result with
            | .ok status => some (status, (vfsFollowLink env walk stored w.atText).state)
            | .error _ => none

/-- The text of the link has left a chain that `follow_link` flushes. -/
def FlushesText (env : Env) (w : World) : Prop :=
  chainable env w.nd.flags w.nd.inode = true ∧ w.nd.chainSize ≠ 0

/-- A failed walk, and a failed flush, have each released where the walk was. -/
def Status.releases : Status → Nat
  | .fail _ => 1
  | _ => 0

/-- `follow_link` returns the error of a failed flush, with one release of where the walk was; and the link
    it gives back, or puts itself because the walk of the text failed, is the one it was called with. -/
structure KeepsLink (env : Env) (walk : List Qstr → Walk Status) (link : Path) (w : World) : Prop where
  fails : ∀ status w₁ error, textWalked env walk link w = some (status, w₁) → FlushesText env w₁ →
    (chainLookup env w₁).result = .ok (.fail error) →
      (followLink env walk link w).result = .ok (.error error) ∧
        status.releases + (Status.fail error).releases = 1
  keeps : ∀ kept, (followLink env walk link w).result = .ok (.ok kept) → kept = link
  puts : ∀ error w₁ put, textWalked env walk link w = some (.fail error, w₁) →
    (flushLinkText env link w₁).result = .ok put → put = link

/-- The flush behind the text of the link, if there is one, does not fail, and stops at no other symlink. -/
def FlushSucceeds (env : Env) (walk : List Qstr → Walk Status) (link : Path) (w : World) : Prop :=
  ∀ status w₁, textWalked env walk link w = some (status, w₁) → FlushesText env w₁ →
    (∀ error, (chainLookup env w₁).result ≠ .ok (.fail error)) ∧
      ∀ path, (chainLookup env w₁).result = .ok (.chainLink path) ∨
        (chainLookup env w₁).result = .ok (.link path) → path = link

end Nfs4Compound.Vfs
