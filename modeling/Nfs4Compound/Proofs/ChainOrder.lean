/-
Module: Nfs4Compound.Proofs.ChainOrder
Layer: Proofs
Purpose: The pending chain is in order at every return of a walk of texts and of a lookup
  in which no component is looked up by itself while a chain is pending.
Imports: Nfs4Compound.Vfs.Open, Nfs4Compound.Vfs.Mountpoint, Nfs4Compound.Proofs.ChainInvariant
Trusted boundary: none
Main exports: Leaves, walkText_orderly, lookupLast_orderly, relookup_orderly, pathLookupat_orderly
-/
import Nfs4Compound.Vfs.Open
import Nfs4Compound.Vfs.Mountpoint
import Nfs4Compound.Proofs.ChainInvariant

namespace Nfs4Compound.Vfs

open Prog

variable {α β : Type} {env : Env} {benign : Event → Prop} {w : World}

/-! ### One component -/

theorem Between.quiet (between : Between w) (idle : w.nd.chainSize = 0) : Quiet w := by
  rcases between with quiet | ⟨queued, -⟩
  · exact quiet
  · exact absurd queued.pos (by rw [idle]; exact Nat.lt_irrefl 0)

/-- A component that is looked up by itself finds no chain pending, and leaves none. -/
theorem walkComponent_orderly (idles : ∀ event, benign event → SearchesIdle event)
    (between : Between w) (follow : Bool) :
    Shows benign (walkComponent env follow) (fun _ w' => Quiet w') w := by
  rcases between with quiet | ⟨queued, -⟩
  · apply Shows.mono (walkComponent_ends quiet follow)
    intro status w' ends
    exact ends.quiet quiet
  · unfold Shows
    rw [walkComponent, wp_bind, wp_observe]
    intro told
    have idle : w.nd.chainSize = 0 := idles _ told
    exact absurd queued.pos (by rw [idle]; exact Nat.lt_irrefl 0)

/-- What one component leaves: a chain stays pending only if the walk goes on. -/
def StepLeaves (status : Status) (w : World) : Prop :=
  match status with
  | .done => Between w
  | _ => Quiet w

theorem StepLeaves.between {status : Status} (left : StepLeaves status w) : Between w := by
  cases status with
  | done => exact left
  | link path => exact .inl left
  | chainLink path => exact .inl left
  | fail error => exact .inl left

theorem StepLeaves.of_quiet {status : Status} (quiet : Quiet w) : StepLeaves status w := by
  cases status with
  | done => exact .inl quiet
  | link path => exact quiet
  | chainLink path => exact quiet
  | fail error => exact quiet

theorem WalkChainEnds.stepLeaves {status : Status} {w' : World} (between : Between w)
    (ends : WalkChainEnds benign env w status w') : StepLeaves status w' := by
  cases status with
  | done => exact ends.between between
  | link path => exact (ends.lastEnds between fun other => by cases other).1
  | chainLink path => exact (ends.lastEnds between fun other => by cases other).1
  | fail error => exact (ends.lastEnds between fun other => by cases other).1

theorem walkStep_orderly (idles : ∀ event, benign event → SearchesIdle event) (between : Between w) :
    Shows benign (walkStep env) StepLeaves w := by
  unfold Shows
  rw [walkStep, wp_bind, wp_getNd, wp_ite]
  constructor
  · intro _
    apply Shows.mono (walkChain_ends between true)
    intro status w' ends
    exact ends.stepLeaves between
  · intro _
    apply Shows.mono (walkComponent_orderly idles between true)
    intro status w' quiet
    exact .of_quiet quiet

/-! ### The components of one text -/

theorem Between.transport {w' : World} (between : Between w) (heap : w'.heap = w.heap)
    (size : w'.nd.chainSize = w.nd.chainSize) (list : w'.nd.dchainList = w.nd.dchainList)
    (path : w'.nd.path = w.nd.path) (parent : w'.nd.chainParent = w.nd.chainParent) : Between w' := by
  rcases between with quiet | ⟨queued, limit⟩
  · exact .inl (quiet.transport heap size list)
  · exact .inr ⟨queued.transport heap size list path parent, by rw [size]; exact limit⟩

theorem Between.setFlags (between : Between w) (flags : LookupFlags) :
    Between { w with nd := { w.nd with flags := flags } } :=
  between.transport rfl rfl rfl rfl rfl

/-- What the walk of a text leaves: it has gone through, or failed. -/
def TextLeaves (status : Status) (w : World) : Prop :=
  match status with
  | .done => Between w
  | .fail _ => Between w
  | _ => False

theorem TextLeaves.between {status : Status} (left : TextLeaves status w) : Between w := by
  cases status with
  | done => exact left
  | fail error => exact left
  | link path => exact left.elim
  | chainLink path => exact left.elim

theorem linkPathWalk_orderly (idles : ∀ event, benign event → SearchesIdle event)
    {nested : Path → Walk Status}
    (nests : ∀ path w, Quiet w → Shows benign (nested path) TextLeaves w) (names : List Qstr)
    (between : Between w) : Shows benign (linkPathWalk env nested names) TextLeaves w := by
  induction names generalizing w with
  | nil => exact between
  | cons this rest inductionHypothesis =>
      have set : Between { w with nd := w.nd.withLast this } := between.transport rfl rfl rfl rfl rfl
      cases rest with
      | nil => exact set
      | cons next rest =>
          -- behind a component the walk goes on from a directory, or fails
          have goesOn : ∀ {w₁ : World}, Between w₁ →
              Shows benign (linkPathWalkOn env nested (next :: rest) .done) TextLeaves w₁ := by
            intro w₁ between
            unfold Shows
            rw [linkPathWalkOn, wp_bind, wp_getHeap, wp_bind, wp_getNd, wp_ite]
            constructor
            · intro _
              exact inductionHypothesis between
            · intro _
              exact between.counted (.dput _ _)
          have follows : ∀ {w₁ : World} (path : Path), Quiet w₁ →
              Shows benign (nested path >>= linkPathWalkOn env nested (next :: rest)) TextLeaves w₁ := by
            intro w₁ path quiet
            unfold Shows
            rw [wp_bind]
            apply Shows.mono (nests path w₁ quiet)
            intro status w₂ left
            cases status with
            | done => exact goesOn left
            | fail error => exact left
            | link path => exact left.elim
            | chainLink path => exact left.elim
          unfold Shows
          rw [linkPathWalk, wp_bind, setLast, wp_modifyNd, wp_bind]
          apply Shows.mono (walkStep_orderly idles set)
          intro status w₁ left
          cases status with
          | done => exact goesOn left
          | fail error => exact .inl left
          | link path => exact follows path left
          | chainLink path => exact follows path left

/-! ### Symlinks -/

/-- A walk of a text that keeps its chain in order. -/
def Walks (benign : Event → Prop) (walk : List Qstr → Walk Status) : Prop :=
  ∀ names w, Between w → Shows benign (walk names) TextLeaves w

theorem vfsFollowLink_orderly {walk : List Qstr → Walk Status} (walks : Walks benign walk)
    (quiet : Quiet w) (stored : Except Errno (List UInt8)) :
    Shows benign (vfsFollowLink env walk stored) TextLeaves w := by
  have fromHere : ∀ {w₁ : World}, Quiet w₁ → ∀ names, Shows benign
      (do
        let inode := (← getHeap).inode (← getNd).path.dentry
        modifyNd fun nd => { nd with inode := inode }
        walk names) TextLeaves w₁ := by
    intro w₁ quiet names
    unfold Shows
    simp only [wp_bind, wp_getHeap, wp_getNd, wp_modifyNd]
    exact walks _ _ (.inl (quiet.transport rfl rfl rfl))
  unfold Shows
  cases stored with
  | error error =>
      simp only [vfsFollowLink, pathPut, wp_bind, wp_getNd, wp_modifyHeap, wp_pure]
      exact Between.counted (.inl quiet) (.dput _ _)
  | ok text =>
      rw [vfsFollowLink]
      change wp _ _ (if _ then _ else _) _ _
      rw [wp_ite]
      constructor
      · intro _
        rw [wp_bind]
        apply Shows.mono setRoot_wanders
        intro _ w₁ wanders
        have there := quiet.wanders wanders
        simp only [pathPut, wp_bind, wp_getNd, wp_modifyHeap]
        cases w₁.nd.root with
        | none => exact ⟨by simp, by simp⟩
        | some root =>
            simp only [pathGet, wp_bind, wp_modifyNd, wp_modifyHeap]
            apply fromHere
            have counted : SameShape w₁.heap ((w₁.heap.dput w₁.nd.path.dentry).dget root.dentry) :=
              (SameShape.dput _ _).trans (.dget _ _)
            exact ⟨there.ok.sameShape counted, there.held, there.size, there.list⟩
      · intro _
        exact fromHere quiet _

theorem flushLinkText_orderly (between : Between w) (link : Path) :
    Shows benign (flushLinkText env link) (fun _ w' => Between w') w := by
  unfold Shows
  rw [flushLinkText, wp_bind, wp_getNd, wp_ite]
  constructor
  · rintro ⟨-, busy⟩
    rw [wp_bind, wp_observe]
    intro _
    refine ⟨trivial, ?_⟩
    rcases between with quiet | ⟨queued, -⟩
    · exact absurd quiet.size busy
    · rw [wp_bind]
      apply Shows.mono (chainLookup_ends queued)
      intro status w' ends
      have quiet := ends.flushed.quiet
      cases status with
      | done => exact .inl quiet
      | fail error => exact .inl quiet
      | link path => exact .inl quiet
      | chainLink path => exact .inl quiet
  · intro _
    exact between

/-- A walk that gives up puts where it is and what it was to follow. -/
theorem Quiet.gaveUp (quiet : Quiet w) (first second : DentryId) :
    Between { w with heap := (w.heap.dput first).dput second } :=
  Between.counted (.inl quiet) ((SameShape.dput _ _).trans (.dput _ _))

theorem followLink_orderly {walk : List Qstr → Walk Status} (walks : Walks benign walk)
    (quiet : Quiet w) (link : Path) :
    Shows benign (followLink env walk link) (fun _ w' => Between w') w := by
  unfold Shows
  rw [followLink, wp_bind, wp_observe]
  intro _
  refine ⟨trivial, ?_⟩
  rw [wp_bind, wp_read, wp_ite]
  constructor
  · intro _
    exact quiet.gaveUp _ _
  · intro _
    rw [wp_bind, wp_update, wp_bind, wp_modifyNd, wp_bind, wp_derefInode]
    constructor
    · intro inode _
      rw [wp_bind, wp_dcache, after_ask]
      have started : Quiet { w with
          totalLinkCount := w.totalLinkCount + 1
          nd := { w.nd with lastType := .bind }
          heap := w.heap.ticked } :=
        ⟨quiet.ok.sameShape (.ticked _), quiet.held, quiet.size, quiet.list⟩
      cases env.readlink w.heap.tick inode with
      | error error => exact started.gaveUp _ _
      | ok stored =>
          simp only [wp_bind]
          apply Shows.mono (vfsFollowLink_orderly walks started stored)
          intro status w₁ left
          apply Shows.mono (flushLinkText_orderly left.between link)
          intro link w₂ between
          cases status with
          | done => exact between
          | fail error =>
              simp only [wp_bind, wp_pure]
              apply shows_putLink
              exact Between.counted between (.dput _ _)
          | link path => exact between
          | chainLink path => exact between
    · intro _
      exact ⟨by simp, by simp⟩

theorem nestedLoop_orderly (idles : ∀ event, benign event → SearchesIdle event)
    {walk : List Qstr → Walk Status} (walks : Walks benign walk) (fuel : Nat) (path : Path)
    (quiet : Quiet w) : Shows benign (nestedLoop env walk fuel path) TextLeaves w := by
  induction fuel generalizing path w with
  | zero => exact ⟨by simp, by simp⟩
  | succ fuel inductionHypothesis =>
      unfold Shows
      rw [nestedLoop, wp_bind]
      apply Shows.mono (followLink_orderly walks quiet path)
      intro result w₁ between
      cases result with
      | error error => exact between
      | ok link =>
          simp only [wp_bind]
          apply Shows.mono (walkComponent_orderly idles between true)
          intro status w₂ quiet
          apply shows_putLink
          have counted := quiet.counted (.dput _ link.dentry)
          cases status with
          | done => exact .inl counted
          | fail error => exact .inl counted
          | link path => exact inductionHypothesis path counted
          | chainLink path => exact inductionHypothesis path counted

theorem nestedSymlink_orderly (idles : ∀ event, benign event → SearchesIdle event) (nest : Nat)
    (path : Path) (quiet : Quiet w) : Shows benign (nestedSymlink env nest path) TextLeaves w := by
  induction nest generalizing path w with
  | zero =>
      unfold Shows
      rw [nestedSymlink]
      simp only [pathPut, wp_bind, wp_read, wp_ite, wp_modifyHeap, wp_getNd, wp_pure, wp_fault]
      refine ⟨fun _ => quiet.gaveUp _ _, fun _ => ?_⟩
      exact ⟨fun _ => ⟨by simp, by simp⟩, fun _ => ⟨by simp, by simp⟩⟩
  | succ nest inductionHypothesis =>
      have walks : Walks benign (linkPathWalk env (nestedSymlink env nest)) := by
        intro names w between
        apply linkPathWalk_orderly idles _ names between
        intro path w quiet
        exact inductionHypothesis path quiet
      unfold Shows
      rw [nestedSymlink]
      simp only [pathPut, wp_bind, wp_read, wp_ite, wp_modifyHeap, wp_getNd, wp_pure, wp_fault, wp_modifyNd,
        wp_update]
      refine ⟨fun _ => quiet.gaveUp _ _, fun _ => ⟨fun _ => ⟨by simp, by simp⟩, fun _ => ?_⟩⟩
      apply Shows.mono (nestedLoop_orderly idles walks _ path _)
      · intro status w₁ left
        cases status with
        | done => exact Between.transport left rfl rfl rfl rfl rfl
        | fail error => exact Between.transport left rfl rfl rfl rfl rfl
        | link path => exact left.elim
        | chainLink path => exact left.elim
      · exact quiet.transport rfl rfl rfl

theorem walkText_orderly (idles : ∀ event, benign event → SearchesIdle event) :
    Walks benign (walkText env) := by
  intro names w between
  apply linkPathWalk_orderly idles _ names between
  intro path w quiet
  exact nestedSymlink_orderly idles _ path quiet

/-! ### Lookups -/

theorem lookupLast_orderly (idles : ∀ event, benign event → SearchesIdle event) (between : Between w) :
    Shows benign (lookupLast env) (fun _ w' => Quiet w') w := by
  unfold Shows
  rw [lookupLast, wp_bind, wp_modifyNd, wp_bind, wp_getNd, wp_bind, wp_getHeap, wp_ite]
  have flagged := between.setFlags
    { w.nd.flags with
      follow := w.nd.flags.follow || decide (w.nd.lastType = .norm ∧ w.nd.last.slashAfter = true)
      directory := w.nd.flags.directory || decide (w.nd.lastType = .norm ∧ w.nd.last.slashAfter = true)
      parent := false }
  constructor
  · intro _
    rw [wp_bind]
    apply Shows.mono (walkChain_ends flagged _)
    intro status w' ends
    have left := ends.stepLeaves flagged
    cases status with
    | done =>
        simp only [wp_bind, wp_getNd, wp_ite, wp_pure, wp_observe]
        constructor
        · intro idle
          exact left.between.quiet idle
        · intro busy _
          refine ⟨trivial, ?_⟩
          rcases left.between with quiet | ⟨queued, -⟩
          · exact absurd quiet.size busy
          · exact (chainLookup_ends queued).mono fun _ _ ends => ends.flushed.quiet
    | fail error => exact left
    | link path => exact left
    | chainLink path => exact left
  · intro _
    exact walkComponent_orderly idles flagged _

/-- What a whole walk leaves: its chain is in order, and where the walk has ended nothing is pending. -/
structure Leaves (ended : Prop) (w : World) : Prop where
  between : Between w
  quiet : ended → Quiet w

theorem Quiet.leaves {ended : Prop} (quiet : Quiet w) : Leaves ended w := ⟨.inl quiet, fun _ => quiet⟩

theorem Between.leaves {ended : Prop} (between : Between w) (goesOn : ¬ended) : Leaves ended w :=
  ⟨between, fun ends => absurd ends goesOn⟩

theorem Leaves.weaken {first second : Prop} (left : Leaves first w) (implies : second → first) :
    Leaves second w :=
  ⟨left.between, fun ends => left.quiet (implies ends)⟩

theorem trailingLinks_orderly (idles : ∀ event, benign event → SearchesIdle event) (fuel : Nat)
    (path : Path) (quiet : Quiet w) :
    Shows benign (trailingLinks env fuel path) (fun status w' => Leaves (status = .done) w') w := by
  induction fuel generalizing path w with
  | zero => exact ⟨by simp, by simp⟩
  | succ fuel inductionHypothesis =>
      unfold Shows
      rw [trailingLinks, wp_bind]
      apply Shows.mono (mayFollowLink_ends quiet path)
      intro may w₁ quiet
      rw [wp_ite]
      constructor
      · intro _
        have flagged : Quiet { w₁ with nd := { w₁.nd with flags := { w₁.nd.flags with parent := true } } } :=
          quiet.transport rfl rfl rfl
        rw [wp_bind, wp_modifyNd, wp_bind]
        apply Shows.mono (followLink_orderly (walkText_orderly idles) flagged path)
        intro result w₂ between
        cases result with
        | error error => exact between.leaves (by simp)
        | ok link =>
            simp only [wp_bind]
            apply Shows.mono (lookupLast_orderly idles between)
            intro status w₃ quiet
            apply shows_putLink
            have counted := quiet.counted (.dput _ link.dentry)
            cases status with
            | done => exact counted.leaves
            | fail error => exact counted.leaves
            | link path => exact inductionHypothesis path counted
            | chainLink path => exact inductionHypothesis path counted
      · intro _
        exact quiet.leaves

/-- A chain stays pending behind the walk only if it failed or looked for a parent. -/
theorem relookup_orderly (idles : ∀ event, benign event → SearchesIdle event) (parentOnly : Bool)
    (fuel : Nat) (name : List UInt8) (between : Between w) :
    Shows benign (relookup env parentOnly fuel name)
      (fun status w' => Leaves (status = .done ∧ parentOnly = false) w') w := by
  induction fuel generalizing name w with
  | zero => exact ⟨by simp, by simp⟩
  | succ fuel inductionHypothesis =>
      unfold Shows
      rw [relookup, wp_bind]
      apply Shows.mono (walkText_orderly idles (components name) w between)
      intro status w₁ left
      cases status with
      | fail error => exact Between.leaves left (by simp)
      | link path => exact left.elim
      | chainLink path => exact left.elim
      | done =>
          simp only [wp_ite]
          constructor
          · intro parent
            exact Between.leaves left (by simp [parent])
          · intro _
            rw [wp_bind]
            apply Shows.mono (lookupLast_orderly idles left)
            intro status w₂ quiet
            cases status with
            | done => exact quiet.leaves
            | fail error => exact quiet.leaves
            | link path =>
                apply Shows.mono (trailingLinks_orderly idles _ path quiet)
                intro status w₃ left
                exact left.weaken fun ended => ended.1
            | chainLink path =>
                simp only [wp_bind, wp_observe, wp_getNd]
                intro _
                refine ⟨trivial, fun _ => ⟨trivial, ?_⟩⟩
                exact inductionHypothesis _ (.inl quiet)

/-! ### The end of a lookup -/

/-- A step that leaves the counter and the parent of the chain alone. -/
def Beside (x : Walk α) : Prop :=
  Prog.Stays (fun w w' => w'.nd.chainSize = w.nd.chainSize ∧ w'.nd.chainParent = w.nd.chainParent)
    (fun _ => True) x

@[grind ←] theorem beside_bind {x : Walk α} {f : α → Walk β} (first : Beside x)
    (rest : ∀ value, Beside (f value)) : Beside (x >>= f) := by
  apply stays_bind _ first rest
  intro w₁ w₂ w₃ near further
  exact ⟨further.1.trans near.1, further.2.trans near.2⟩

@[grind ←] theorem beside_pure (value : α) : Beside (pure value) :=
  stays_of_silent (fun _ => ⟨rfl, rfl⟩) fun _ => rfl

@[grind ←] theorem beside_getNd : Beside getNd := stays_of_silent (fun _ => ⟨rfl, rfl⟩) fun _ => rfl

@[grind ←] theorem beside_getHeap : Beside getHeap := stays_of_silent (fun _ => ⟨rfl, rfl⟩) fun _ => rfl

@[grind ←] theorem beside_dcache (op : Dcache α) : Beside (dcache op) :=
  stays_of_silent (fun _ => ⟨rfl, rfl⟩) fun _ => rfl

@[grind ←] theorem beside_pathPut (path : Path) : Beside (pathPut path) :=
  stays_of_silent (fun _ => ⟨rfl, rfl⟩) fun _ => rfl

@[grind ←] theorem beside_terminateWalk : Beside terminateWalk := by
  unfold terminateWalk
  grind

@[grind ←] theorem beside_completeWalk : Beside (completeWalk env) := by
  unfold completeWalk
  grind

theorem beside_finishRoot (status : Status) : Beside (finishRoot status) := by
  have forgets : Beside (modifyNd fun nd => { nd with root := none }) :=
    stays_of_silent (fun _ => ⟨rfl, rfl⟩) fun _ => rfl
  unfold finishRoot
  grind

theorem finishLookup_beside (status : Status) : Beside (finishLookup env status) := by
  cases status with
  | fail error => exact beside_bind (beside_pure _) beside_finishRoot
  | link path => exact beside_bind (beside_pure _) beside_finishRoot
  | chainLink path => exact beside_bind (beside_pure _) beside_finishRoot
  | done =>
      change Beside (completeWalk env >>= _)
      apply beside_bind beside_completeWalk
      intro error
      cases error with
      | some error => exact beside_bind (beside_pure _) beside_finishRoot
      | none =>
          apply beside_bind beside_getNd
          intro nd
          apply beside_bind beside_getHeap
          intro h
          split
          · apply beside_bind beside_terminateWalk
            intro _
            exact beside_bind (beside_pure _) beside_finishRoot
          · exact beside_bind (beside_pure _) beside_finishRoot

/-- The end of a lookup leaves the chain as it is. -/
theorem finishLookup_orderly {ended : Prop} (status : Status) (left : Leaves ended w) :
    Shows benign (finishLookup env status)
      (fun result w' => Leaves ended w' ∧ (result = .done → status = .done)) w := by
  apply Shows.mono (wp_final (finishLookup_ends status))
  rintro result w' ⟨⟨finished, only⟩, rfl, -⟩
  obtain ⟨size, parent⟩ := (@finishLookup_beside env status w).1
  refine ⟨⟨?_, fun ends => ?_⟩, only⟩
  · exact (left.between.counted finished.shape).transport rfl size finished.list finished.path parent
  · exact ((left.quiet ends).counted finished.shape).transport rfl size finished.list

/-- A lookup leaves its chain in order; one that has found something, and was not to stop at the parent,
    leaves none. -/
theorem pathLookupat_orderly (idles : ∀ event, benign event → SearchesIdle event) (ok : HeapOk w.heap)
    (free : w.heap.held = []) (fuel : Nat) (dfd : Option Nat) (name : List UInt8) (flags : LookupFlags) :
    Shows benign (pathLookupat env fuel dfd name flags)
      (fun status w' => Leaves (status = .done ∧ flags.parent = false) w') w := by
  unfold Shows
  rw [pathLookupat, wp_bind]
  apply Shows.mono (pathInit_ends ok free dfd name _)
  intro error w₁ started
  cases error with
  | some error => exact started.quiet.leaves
  | none =>
      simp only [wp_bind, wp_update]
      have between : Between { w₁ with totalLinkCount := 0 } := .inl (started.quiet.transport rfl rfl rfl)
      apply Shows.mono (relookup_orderly idles flags.parent fuel name between)
      intro status w₂ left
      apply Shows.mono (finishLookup_orderly status left)
      rintro result w' ⟨left, only⟩
      exact left.weaken fun ended => ⟨only ended.1, ended.2⟩

end Nfs4Compound.Vfs
