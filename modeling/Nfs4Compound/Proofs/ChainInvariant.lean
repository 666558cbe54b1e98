/-
Module: Nfs4Compound.Proofs.ChainInvariant
Layer: Proofs
Purpose: The pending chain is in order at every return of `walk_chain` and `chain_lookup`, in every run
  that goes through mount points only where chain lookups go on behind them.
Imports: Nfs4Compound.Proofs.WalkComponent
Trusted boundary: none
Main exports: Busy, Ready, Settled, linkPathWalk_ends, nestedSymlink_ends, lookupLast_ends, pathInit_ends,
  finishLookup_ends
-/
import Nfs4Compound.Proofs.WalkComponent

namespace Nfs4Compound.Vfs

open Prog

variable {env : Env} {benign : Event → Prop} {w : World}

/-! ### The states between two components -/

theorem Quiet.transport {w' : World} (quiet : Quiet w) (heap : w'.heap = w.heap)
    (size : w'.nd.chainSize = w.nd.chainSize) (list : w'.nd.dchainList = w.nd.dchainList) : Quiet w' :=
  ⟨by rw [heap]; exact quiet.ok, by rw [heap]; exact quiet.held, size.trans quiet.size, list.trans quiet.list⟩

/-- A chain is pending in a directory with chain lookups, whichever way the walk looks at it. -/
structure Busy (env : Env) (w : World) : Prop where
  queued : Queued w
  limit : w.nd.chainSize ≤ 29
  chainable : chainable env w.nd.flags w.nd.inode = true
  method : env.hasChainLookup (w.heap.inode w.nd.path.dentry) = true

/-- If `nd->inode` offers chain lookups, so does the inode of the place of the walk. -/
def Alike (env : Env) (w : World) : Prop :=
  env.hasChainLookup w.nd.inode = true → env.hasChainLookup (w.heap.inode w.nd.path.dentry) = true

/-- The walk can take its next component. -/
def Ready (env : Env) (w : World) : Prop := (Quiet w ∧ Alike env w) ∨ Busy env w

/-- No chain is pending, and the walk can take its next component if it stands on a directory. -/
structure Settled (env : Env) (w : World) : Prop where
  quiet : Quiet w
  alike : w.heap.dCanLookup w.nd.path.dentry = true → Alike env w

theorem Ready.between (ready : Ready env w) : Between w := by
  rcases ready with ⟨quiet, -⟩ | busy
  · exact .inl quiet
  · exact .inr ⟨busy.queued, busy.limit⟩

theorem hasChainLookup_of_chainable {flags : LookupFlags} {inode : Option Ino}
    (chains : chainable env flags inode = true) :
    env.hasChainLookup inode = true ∧ flags.automount = false := by
  cases inode with
  | none => cases chains
  | some inode =>
      simp only [chainable, Bool.and_eq_true, Bool.not_eq_true'] at chains
      exact chains

theorem chainable_of_hasChainLookup {flags : LookupFlags} {inode : Option Ino}
    (method : env.hasChainLookup inode = true) (flag : flags.automount = false) :
    chainable env flags inode = true := by
  cases inode with
  | none => cases method
  | some inode =>
      simp only [chainable, Bool.and_eq_true, Bool.not_eq_true']
      exact ⟨method, flag⟩

theorem Grows.hasChainLookup {h h' : Heap} {d : DentryId} (grows : Grows h h')
    (method : env.hasChainLookup (h.inode d) = true) : env.hasChainLookup (h'.inode d) = true := by
  cases found : h.inode d with
  | none =>
      rw [found] at method
      cases method
  | some inode =>
      rw [found] at method
      rw [grows.inode d inode found]
      exact method

theorem alike_of_eq (inode : w.nd.inode = w.heap.inode w.nd.path.dentry) : Alike env w := by
  intro method
  rw [← inode]
  exact method

/-- A walk that is where it was, with an inode that offers chain lookups. -/
theorem alike_of_stayed {w' : World} (grows : Grows w.heap w'.heap) (path : w'.nd.path = w.nd.path)
    (method : env.hasChainLookup (w.heap.inode w.nd.path.dentry) = true) : Alike env w' := by
  intro _
  rw [path]
  exact grows.hasChainLookup method

/-- A chain lookup leaves a walk that can go on. -/
theorem ChainLookupEnds.settled {status : Status} {w' : World}
    (ends : ChainLookupEnds benign env w status w')
    (method : env.hasChainLookup (w.heap.inode w.nd.path.dentry) = true) : Settled env w' := by
  refine ⟨ends.flushed.quiet, ?_⟩
  intro directory
  cases ends.lands with
  | moved inode => exact alike_of_eq inode
  | displaced type =>
      rw [Heap.dCanLookup, type] at directory
      cases directory
  | stayed path inode => exact alike_of_stayed ends.flushed.grows path method

/-! ### One component -/

/-- How one component in the middle of a path ends. -/
def StepEnds (env : Env) (status : Status) (w : World) : Prop :=
  match status with
  | .done => Settled env w ∨ Busy env w
  | _ => Quiet w

theorem Crossing.alike {w' : World} {d : DentryId} {inode : Ino}
    (crosses : ∀ event, benign event → crossesAlike env event)
    (crossing : Crossing benign env w.heap ⟨w.nd.path.mnt, d⟩ w'.nd.path) (grows : Grows w.heap w'.heap)
    (positive : w.heap.inode d = some inode) (inodeIs : w'.nd.inode = some inode) : Alike env w' := by
  intro method
  generalize target : w'.nd.path = path at crossing
  cases crossing with
  | straight unmounted =>
      rw [grows.inode d inode positive, ← inodeIs]
      exact method
  | @through _ moment pile told same =>
      have alike := crosses _ told
      simp only [crossesAlike, same.inode, positive] at alike
      rw [inodeIs] at method
      exact grows.hasChainLookup (alike method)

theorem NameEnds.stepEnds {status : Status} {w' : World}
    (crosses : ∀ event, benign event → crossesAlike env event) (ready : Ready env w)
    (chains : chainable env w.nd.flags w.nd.inode = true) (ends : NameEnds benign env w status w') :
    StepEnds env status w' := by
  have method : env.hasChainLookup (w.heap.inode w.nd.path.dentry) = true := by
    rcases ready with ⟨-, alike⟩ | busy
    · exact alike (hasChainLookup_of_chainable chains).1
    · exact busy.method
  cases ends with
  | failed flushed => exact flushed.quiet
  | link flushed => exact flushed.quiet
  | hit idle found positive accepted crossing inodeIs flushed =>
      left
      exact ⟨flushed.quiet, fun _ => crossing.alike crosses flushed.grows positive inodeIs⟩
  | queued extended limit =>
      right
      refine ⟨extended.queued, limit, ?_, ?_⟩
      · rw [extended.flags, extended.inode]
        exact chains
      · rw [extended.path]
        exact extended.grows.hasChainLookup method
  | flushed extended ends =>
      have settled := ends.settled (by rw [extended.path]; exact extended.grows.hasChainLookup method)
      cases status with
      | done => exact .inl settled
      | link path => exact settled.quiet
      | chainLink path => exact settled.quiet
      | fail error => exact settled.quiet

theorem DotEnds.stepEnds {type : LastType} {status : Status} {w' : World} (quiet : Quiet w)
    (alike : w.heap.dCanLookup w.nd.path.dentry = true → Alike env w) (ends : DotEnds type w status w') :
    StepEnds env status w' := by
  cases ends with
  | failed _ wanders => exact (wanders.flushed quiet).quiet
  | moved _ wanders inode => exact .inl ⟨(wanders.flushed quiet).quiet, fun _ => alike_of_eq inode⟩
  | stayed => exact .inl ⟨quiet, alike⟩

theorem ChainDotsEnd.stepEnds {status : Status} {w' : World} (ready : Ready env w)
    (chains : chainable env w.nd.flags w.nd.inode = true) (ends : ChainDotsEnd w status w') :
    StepEnds env status w' := by
  cases ends with
  | dots quiet ends =>
      rcases ready with ⟨-, alike⟩ | busy
      · exact ends.stepEnds quiet fun _ => alike
      · exact absurd busy.queued.pos (by rw [quiet.size]; exact Nat.lt_irrefl 0)
  | stayed queued =>
      rcases ready with ⟨quiet, -⟩ | busy
      · exact absurd queued.pos (by rw [quiet.size]; exact Nat.lt_irrefl 0)
      · exact .inr busy
  | popped popped =>
      have method : env.hasChainLookup (w.heap.inode w.nd.path.dentry) = true := by
        rcases ready with ⟨-, alike⟩ | busy
        · exact alike (hasChainLookup_of_chainable chains).1
        · exact busy.method
      rcases popped.between with quiet | ⟨queued, shorter⟩
      · exact .inl ⟨quiet, fun _ => alike_of_stayed popped.grows popped.path method⟩
      · right
        refine ⟨queued, ?_, ?_, ?_⟩
        · rcases ready with ⟨quiet, -⟩ | busy
          · rw [quiet.size] at shorter
            exact absurd shorter (Nat.not_lt_zero _)
          · exact Nat.le_trans (Nat.le_of_lt shorter) busy.limit
        · rw [popped.flags, popped.inode]
          exact chains
        · rw [popped.path]
          exact popped.grows.hasChainLookup method

theorem ComponentEnds.stepEnds {status : Status} {w' : World} (quiet : Quiet w)
    (alike : w.heap.dCanLookup w.nd.path.dentry = true → Alike env w)
    (ends : ComponentEnds benign env w status w') : StepEnds env status w' := by
  cases ends with
  | failed moved => exact moved.quiet
  | link moved => exact moved.quiet
  | dots other ends => exact ends.stepEnds quiet alike
  | done norm moved source pile inodeIs positive => exact .inl ⟨moved.quiet, fun _ => alike_of_eq inodeIs⟩

theorem walkStep_ends (crosses : ∀ event, benign event → crossesAlike env event) (ready : Ready env w) :
    Shows benign (walkStep env) (StepEnds env) w := by
  unfold Shows
  rw [walkStep, wp_bind, wp_getNd, wp_ite]
  constructor
  · intro chains
    apply Shows.mono (walkChain_ends ready.between true)
    intro status w' ends
    cases ends with
    | name norm ends => exact ends.stepEnds crosses ready chains
    | dots other ends => exact ends.stepEnds ready chains
  · intro notChains
    rcases ready with ⟨quiet, alike⟩ | busy
    · exact (walkComponent_ends quiet true).mono fun _ _ ends => ends.stepEnds quiet fun _ => alike
    · exact absurd busy.chainable notChains

/-! ### The components of one text -/

theorem Queued.transport {w' : World} (queued : Queued w) (heap : w'.heap = w.heap)
    (size : w'.nd.chainSize = w.nd.chainSize) (list : w'.nd.dchainList = w.nd.dchainList)
    (path : w'.nd.path = w.nd.path) (parent : w'.nd.chainParent = w.nd.chainParent) : Queued w' := by
  refine ⟨⟨⟨?_, ?_⟩, ?_, ?_, ?_, ?_⟩, ?_⟩
  · rw [heap]
    exact queued.ok
  · rw [heap, parent]
    exact queued.locked
  · rw [size, list]
    exact queued.size
  · rw [path, parent]
    exact queued.place
  · rw [heap, parent, list]
    exact queued.pending
  · rw [heap, list]
    exact queued.barren
  · rw [list]
    exact queued.nonempty

theorem Ready.setLast (ready : Ready env w) (nd : Nameidata)
    (same : nd = { w.nd with last := nd.last, lastType := nd.lastType, flags := nd.flags })
    (flag : nd.flags.automount = w.nd.flags.automount) : Ready env { w with nd := nd } := by
  rw [same]
  rcases ready with ⟨quiet, alike⟩ | busy
  · exact .inl ⟨quiet.transport rfl rfl rfl, alike⟩
  · refine .inr ⟨busy.queued.transport rfl rfl rfl rfl rfl, busy.limit, ?_, busy.method⟩
    obtain ⟨method, off⟩ := hasChainLookup_of_chainable busy.chainable
    exact chainable_of_hasChainLookup method (flag.trans off)

/-- How the walk of a text ends. -/
def WalkEnds (env : Env) (status : Status) (w : World) : Prop :=
  match status with
  | .done => Ready env w
  | .fail _ => Between w
  | _ => False

/-- How following a symlink in the middle of a path ends. -/
def NestEnds (env : Env) (status : Status) (w : World) : Prop :=
  match status with
  | .done => Settled env w
  | .fail _ => Between w
  | _ => False

theorem Locked.counted {h : Heap} (locked : Locked w) (same : SameShape w.heap h) :
    Locked { w with heap := h } := by
  obtain ⟨inode, positive, held⟩ := locked.locked
  refine ⟨⟨locked.ok.sameShape same, inode, (same.inode _).trans positive, same.held.trans held⟩,
    locked.size, locked.place, same.pending locked.pending, ?_⟩
  intro e member
  rw [same.next, same.hash]
  exact locked.barren e member

theorem Queued.counted {h : Heap} (queued : Queued w) (same : SameShape w.heap h) :
    Queued { w with heap := h } :=
  ⟨queued.toLocked.counted same, queued.nonempty⟩

theorem Between.counted {h : Heap} (between : Between w) (same : SameShape w.heap h) :
    Between { w with heap := h } := by
  rcases between with quiet | ⟨queued, limit⟩
  · exact .inl ⟨quiet.ok.sameShape same, same.held.trans quiet.held, quiet.size, quiet.list⟩
  · exact .inr ⟨queued.counted same, limit⟩

theorem Settled.ready (settled : Settled env w) (directory : w.heap.dCanLookup w.nd.path.dentry = true) :
    Ready env w :=
  .inl ⟨settled.quiet, settled.alike directory⟩

/-- After a component the walk goes on if it stands on a directory. -/
theorem linkPathWalk_next {rest : Walk Status} (arrived : Settled env w ∨ Busy env w)
    (goesOn : Ready env w → Shows benign rest (WalkEnds env) w) :
    Shows benign
      (do
        if (← getHeap).dCanLookup (← getNd).path.dentry then rest
        else
          terminateWalk
          return .fail .ENOTDIR)
      (WalkEnds env) w := by
  unfold Shows
  rw [wp_bind, wp_getHeap, wp_bind, wp_getNd, wp_ite]
  constructor
  · intro directory
    apply goesOn
    rcases arrived with settled | busy
    · exact settled.ready directory
    · exact .inr busy
  · intro _
    have between : Between w := by
      rcases arrived with settled | busy
      · exact .inl settled.quiet
      · exact .inr ⟨busy.queued, busy.limit⟩
    exact between.counted (.dput _ _)

theorem linkPathWalk_ends (crosses : ∀ event, benign event → crossesAlike env event)
    {nested : Path → Walk Status}
    (nests : ∀ path w, Quiet w → Shows benign (nested path) (NestEnds env) w) (names : List Qstr)
    (ready : Ready env w) : Shows benign (linkPathWalk env nested names) (WalkEnds env) w := by
  induction names generalizing w with
  | nil => exact ready
  | cons this rest inductionHypothesis =>
      have set : Ready env { w with nd := w.nd.withLast this } := ready.setLast _ rfl rfl
      cases rest with
      | nil => exact set
      | cons next rest =>
          unfold Shows
          rw [linkPathWalk, wp_bind, setLast, wp_modifyNd, wp_bind]
          apply Shows.mono (walkStep_ends crosses set)
          intro status w₁ ends
          -- a symlink is followed first; what comes out of it is `.done` or an error
          have follows : ∀ path, Quiet w₁ → Shows benign
              (nested path >>= linkPathWalkOn env nested (next :: rest))
              (WalkEnds env) w₁ := by
            intro path quiet
            unfold Shows
            rw [wp_bind]
            apply Shows.mono (nests path w₁ quiet)
            intro status w₂ ended
            cases status with
            | done => exact linkPathWalk_next (.inl ended) inductionHypothesis
            | fail error => exact ended
            | link path => exact ended.elim
            | chainLink path => exact ended.elim
          cases status with
          | done => exact linkPathWalk_next ends inductionHypothesis
          | fail error => exact .inl ends
          | link path => exact follows path ends
          | chainLink path => exact follows path ends

/-! ### Symlinks -/

/-- A walk of a text that can be called for the text of a link. -/
def WalksText (benign : Event → Prop) (env : Env) (walk : List Qstr → Walk Status) : Prop :=
  ∀ names w, Ready env w → Shows benign (walk names) (WalkEnds env) w

theorem Quiet.wanders {w' : World} (quiet : Quiet w) (wanders : Wanders w w') : Quiet w' :=
  (wanders.flushed quiet).quiet

/-- From where the walk stands now, with `nd->inode` read anew. -/
theorem walks_from_here {walk : List Qstr → Walk Status} (walks : WalksText benign env walk)
    (quiet : Quiet w) (names : List Qstr) :
    Shows benign
      (do
        let inode := (← getHeap).inode (← getNd).path.dentry
        modifyNd fun nd => { nd with inode := inode }
        walk names)
      (WalkEnds env) w := by
  unfold Shows
  simp only [wp_bind, wp_getHeap, wp_getNd, wp_modifyNd]
  exact walks _ _ (.inl ⟨quiet.transport rfl rfl rfl, alike_of_eq rfl⟩)

theorem vfsFollowLink_ends {walk : List Qstr → Walk Status} (walks : WalksText benign env walk)
    (quiet : Quiet w) (stored : Except Errno (List UInt8)) :
    Shows benign (vfsFollowLink env walk stored) (WalkEnds env) w := by
  unfold Shows
  cases stored with
  | error error =>
      simp only [vfsFollowLink, pathPut, wp_bind, wp_getNd, wp_modifyHeap, wp_pure]
      exact Between.counted (.inl quiet) (.dput _ _)
  | ok text =>
      rw [vfsFollowLink]
      change wp _ _ (if _ then _ else _) _ _
      rw [wp_ite]
      constructor
      · intro _
        rw [wp_bind]
        apply Shows.mono setRoot_wanders
        intro _ w₁ wanders
        have there := quiet.wanders wanders
        simp only [pathPut, wp_bind, wp_getNd, wp_modifyHeap]
        cases w₁.nd.root with
        | none => exact ⟨by simp, by simp⟩
        | some root =>
            simp only [pathGet, wp_bind, wp_modifyNd, wp_modifyHeap]
            apply walks_from_here walks
            have counted : SameShape w₁.heap ((w₁.heap.dput w₁.nd.path.dentry).dget root.dentry) :=
              (SameShape.dput _ _).trans (.dget _ _)
            exact ⟨there.ok.sameShape counted, there.held, there.size, there.list⟩
      · intro _
        exact walks_from_here walks quiet _

/-- A chain that the text of a link has left is flushed, whatever came of the text. -/
theorem flushLinkText_ends {status : Status} (ended : WalkEnds env status w) (link : Path) :
    Shows benign (flushLinkText env link)
      (fun _ w' => match status with
        | .done => Settled env w'
        | _ => Between w') w := by
  have between : Between w := by
    cases status with
    | done => exact Ready.between ended
    | fail error => exact ended
    | link path => exact ended.elim
    | chainLink path => exact ended.elim
  unfold Shows
  rw [flushLinkText, wp_bind, wp_getNd, wp_ite]
  constructor
  · rintro ⟨chains, busy⟩
    rw [wp_bind, wp_observe]
    intro _
    refine ⟨trivial, ?_⟩
    rcases between with quiet | ⟨queued, limit⟩
    · exact absurd quiet.size busy
    · rw [wp_bind]
      apply Shows.mono (chainLookup_ends queued)
      intro result w' ends
      have kept : match status with
          | .done => Settled env w'
          | _ => Between w' := by
        cases status with
        | done =>
            rcases ended with ⟨quiet, -⟩ | ready
            · exact absurd quiet.size busy
            · exact ends.settled ready.method
        | fail error => exact .inl ends.flushed.quiet
        | link path => exact ended.elim
        | chainLink path => exact ended.elim
      cases result with
      | done => exact kept
      | fail error => exact kept
      | link path => exact kept
      | chainLink path => exact kept
  · intro idle
    rw [wp_pure]
    cases status with
    | done =>
        rcases ended with ⟨quiet, alike⟩ | ready
        · exact ⟨quiet, fun _ => alike⟩
        · exact absurd ⟨ready.chainable, Nat.ne_of_gt ready.queued.pos⟩ idle
    | fail error => exact between
    | link path => exact ended.elim
    | chainLink path => exact ended.elim

/-- How `follow_link` ends. -/
def FollowEnds (env : Env) (result : Except Errno Path) (w : World) : Prop :=
  match result with
  | .ok _ => Settled env w
  | .error _ => Between w

theorem shows_putLink {link : Path} {post : Unit → World → Prop}
    (continues : post () { w with heap := w.heap.dput link.dentry }) : Shows benign (putLink link) post w := by
  unfold Shows
  rw [putLink, wp_bind, wp_derefInode]
  exact ⟨fun _ _ => continues, fun _ => ⟨by simp, by simp⟩⟩

theorem Settled.counted {h : Heap} (settled : Settled env w) (same : SameShape w.heap h) :
    Settled env { w with heap := h } := by
  obtain ⟨quiet, alike⟩ := settled
  refine ⟨⟨quiet.ok.sameShape same, same.held.trans quiet.held, quiet.size, quiet.list⟩, ?_⟩
  intro directory method
  have type : h.dCanLookup w.nd.path.dentry = w.heap.dCanLookup w.nd.path.dentry := by
    rw [Heap.dCanLookup, Heap.dCanLookup, same.type]
  rw [same.inode]
  exact alike (type.symm.trans directory) method

theorem followLink_ends {walk : List Qstr → Walk Status} (walks : WalksText benign env walk)
    (quiet : Quiet w) (link : Path) :
    Shows benign (followLink env walk link) (FollowEnds env) w := by
  have put : ∀ {w' : World}, Quiet w' → ∀ d x, Between { w' with heap := (w'.heap.dput d).dput x } := by
    intro w' quiet d x
    exact Between.counted (.inl quiet) ((SameShape.dput _ _).trans (.dput _ _))
  unfold Shows
  rw [followLink, wp_bind, wp_observe]
  intro _
  refine ⟨trivial, ?_⟩
  rw [wp_bind, wp_read, wp_ite]
  constructor
  · intro _
    exact put quiet _ _
  · intro _
    rw [wp_bind, wp_update, wp_bind, wp_modifyNd, wp_bind, wp_derefInode]
    constructor
    · intro inode _
      rw [wp_bind, wp_dcache, after_ask]
      have started : Quiet { w with
          totalLinkCount := w.totalLinkCount + 1
          nd := { w.nd with lastType := .bind }
          heap := w.heap.ticked } :=
        ⟨quiet.ok.sameShape (.ticked _), quiet.held, quiet.size, quiet.list⟩
      cases env.readlink w.heap.tick inode with
      | error error => exact put started _ _
      | ok stored =>
          simp only [wp_bind]
          apply Shows.mono (vfsFollowLink_ends walks started stored)
          intro status w₁ ended
          apply Shows.mono (flushLinkText_ends ended link)
          intro link w₂ flushed
          cases status with
          | done => exact flushed
          | fail error =>
              simp only [wp_bind, wp_pure]
              apply shows_putLink
              exact Between.counted flushed (.dput _ _)
          | link path => exact ended.elim
          | chainLink path => exact ended.elim
    · intro _
      exact ⟨by simp, by simp⟩

theorem StepEnds.counted {status : Status} {h : Heap} (ended : StepEnds env status w)
    (same : SameShape w.heap h) (quiet : Quiet w) : StepEnds env status { w with heap := h } := by
  have counted : Quiet { w with heap := h } :=
    ⟨quiet.ok.sameShape same, same.held.trans quiet.held, quiet.size, quiet.list⟩
  cases status with
  | done =>
      rcases ended with settled | busy
      · exact .inl (settled.counted same)
      · exact absurd busy.queued.pos (by rw [quiet.size]; exact Nat.lt_irrefl 0)
  | fail error => exact counted
  | link path => exact counted
  | chainLink path => exact counted

theorem ComponentEnds.quiet {status : Status} {w' : World} (quiet : Quiet w)
    (ends : ComponentEnds benign env w status w') : Quiet w' := by
  cases ends with
  | failed moved => exact moved.quiet
  | link moved => exact moved.quiet
  | dots other ends => exact ends.quiet quiet
  | done _ moved _ _ _ _ => exact moved.quiet

theorem nestedLoop_ends {walk : List Qstr → Walk Status} (walks : WalksText benign env walk) (fuel : Nat)
    (path : Path) (quiet : Quiet w) : Shows benign (nestedLoop env walk fuel path) (NestEnds env) w := by
  induction fuel generalizing path w with
  | zero => exact ⟨by simp, by simp⟩
  | succ fuel inductionHypothesis =>
      unfold Shows
      rw [nestedLoop, wp_bind]
      apply Shows.mono (followLink_ends walks quiet path)
      intro result w₁ followed
      cases result with
      | error error => exact followed
      | ok link =>
          have settled : Settled env w₁ := followed
          simp only [wp_bind]
          apply Shows.mono (walkComponent_ends settled.quiet true)
          intro status w₂ ends
          apply shows_putLink
          have step := (ends.stepEnds settled.quiet settled.alike).counted (.dput _ link.dentry)
            (ends.quiet settled.quiet)
          cases status with
          | done =>
              rcases step with settled | busy
              · exact settled
              · have idle := (ends.quiet settled.quiet).size
                exact absurd busy.queued.pos (by rw [idle]; exact Nat.lt_irrefl 0)
          | fail error => exact .inl step
          | link path => exact inductionHypothesis path step
          | chainLink path => exact inductionHypothesis path step

theorem nestedSymlink_ends (crosses : ∀ event, benign event → crossesAlike env event) (nest : Nat)
    (path : Path) (quiet : Quiet w) : Shows benign (nestedSymlink env nest path) (NestEnds env) w := by
  induction nest generalizing path w with
  | zero =>
      unfold Shows
      rw [nestedSymlink]
      simp only [pathPut, wp_bind, wp_read, wp_ite, wp_modifyHeap, wp_getNd, wp_pure, wp_fault]
      refine ⟨fun _ => ?_, fun _ => ⟨fun _ => ⟨by simp, by simp⟩, fun _ => ⟨by simp, by simp⟩⟩⟩
      exact Between.counted (.inl quiet) ((SameShape.dput _ _).trans (.dput _ _))
  | succ nest inductionHypothesis =>
      have walks : WalksText benign env (linkPathWalk env (nestedSymlink env nest)) := by
        intro names w ready
        exact linkPathWalk_ends crosses (fun path w quiet => inductionHypothesis path quiet) names ready
      unfold Shows
      rw [nestedSymlink]
      simp only [pathPut, wp_bind, wp_read, wp_ite, wp_modifyHeap, wp_getNd, wp_pure, wp_fault, wp_modifyNd,
        wp_update]
      refine ⟨fun _ => ?_, fun _ => ⟨fun _ => ⟨by simp, by simp⟩, fun _ => ?_⟩⟩
      · exact Between.counted (.inl quiet) ((SameShape.dput _ _).trans (.dput _ _))
      · apply Shows.mono (nestedLoop_ends walks _ path _)
        · intro status w₁ ended
          cases status with
          | done => exact ⟨ended.quiet.transport rfl rfl rfl, ended.alike⟩
          | fail error =>
              rcases ended with quiet | ⟨queued, limit⟩
              · exact .inl (quiet.transport rfl rfl rfl)
              · exact .inr ⟨queued.transport rfl rfl rfl rfl rfl, limit⟩
          | link path => exact ended.elim
          | chainLink path => exact ended.elim
        · exact quiet.transport rfl rfl rfl

theorem walkText_ends (crosses : ∀ event, benign event → crossesAlike env event) :
    WalksText benign env (walkText env) :=
  fun names _ ready => linkPathWalk_ends crosses (fun path _ quiet => nestedSymlink_ends crosses _ path quiet)
    names ready

/-! ### Lookups -/

/-- What the last component leaves: no chain; and where a chain stopped at a symlink, the walk can be
    taken up again. -/
def LastEnds (status : Status) (w : World) : Prop :=
  Quiet w ∧ ∀ path, status = .chainLink path → w.nd.inode = w.heap.inode w.nd.path.dentry

theorem ChainLookupEnds.lastEnds {status : Status} {w' : World}
    (ends : ChainLookupEnds benign env w status w') : LastEnds status w' := by
  refine ⟨ends.flushed.quiet, ?_⟩
  rintro path rfl
  cases ends with
  | symlink flushed inode => exact inode

/-- `walk_chain` for the last component, and the flush behind it. -/
theorem WalkChainEnds.lastEnds {status : Status} {w' : World} (between : Between w)
    (ends : WalkChainEnds benign env w status w') (ended : status = .done → w'.nd.chainSize = 0) :
    LastEnds status w' := by
  have quiet : Quiet w' := by
    rcases ends.between between with quiet | ⟨queued, -⟩
    · exact quiet
    · cases ends with
      | dots other ends =>
          cases ends with
          | dots quiet ends => exact ends.quiet quiet
          | stayed _ => exact absurd (ended rfl) (Nat.ne_of_gt queued.pos)
          | popped _ => exact absurd (ended rfl) (Nat.ne_of_gt queued.pos)
      | name norm ends =>
          cases ends with
          | failed flushed => exact flushed.quiet
          | link flushed => exact flushed.quiet
          | hit _ _ _ _ _ _ flushed => exact flushed.quiet
          | queued extended limit => exact absurd (ended rfl) (Nat.ne_of_gt queued.pos)
          | flushed extended ends => exact ends.flushed.quiet
  refine ⟨quiet, ?_⟩
  rintro path rfl
  cases ends with
  | dots other ends =>
      cases ends with
      | dots quiet ends => cases ends
  | name norm ends =>
      cases ends with
      | flushed extended ends => exact (ends.lastEnds).2 path rfl

theorem ComponentEnds.lastEnds {status : Status} {w' : World} (quiet : Quiet w)
    (ends : ComponentEnds benign env w status w') : LastEnds status w' := by
  refine ⟨ends.quiet quiet, ?_⟩
  rintro path rfl
  cases ends with
  | dots other ends => cases ends

/-- The last component can be taken. -/
def AtLast (env : Env) (w : World) : Prop := Quiet w ∨ Busy env w

theorem AtLast.between (atLast : AtLast env w) : Between w := by
  rcases atLast with quiet | busy
  · exact .inl quiet
  · exact .inr ⟨busy.queued, busy.limit⟩

/-- A pending chain is in a directory with chain lookups. -/
theorem AtLast.quiet (atLast : AtLast env w)
    (notChains : ¬chainable env w.nd.flags (w.heap.inode w.nd.path.dentry) = true) : Quiet w := by
  rcases atLast with quiet | busy
  · exact quiet
  · have off := (hasChainLookup_of_chainable busy.chainable).2
    exact absurd (chainable_of_hasChainLookup busy.method off) notChains

theorem AtLast.setFlags (atLast : AtLast env w) (flags : LookupFlags)
    (flag : flags.automount = w.nd.flags.automount) :
    AtLast env { w with nd := { w.nd with flags := flags } } := by
  rcases atLast with quiet | busy
  · exact .inl (quiet.transport rfl rfl rfl)
  · refine .inr ⟨busy.queued.transport rfl rfl rfl rfl rfl, busy.limit, ?_, busy.method⟩
    obtain ⟨method, off⟩ := hasChainLookup_of_chainable busy.chainable
    exact chainable_of_hasChainLookup method (flag.trans off)

theorem lookupLast_ends (atLast : AtLast env w) : Shows benign (lookupLast env) LastEnds w := by
  unfold Shows
  rw [lookupLast, wp_bind, wp_modifyNd, wp_bind, wp_getNd, wp_bind, wp_getHeap, wp_ite]
  have flagged := atLast.setFlags
    { w.nd.flags with
      follow := w.nd.flags.follow || decide (w.nd.lastType = .norm ∧ w.nd.last.slashAfter = true)
      directory := w.nd.flags.directory || decide (w.nd.lastType = .norm ∧ w.nd.last.slashAfter = true)
      parent := false } rfl
  constructor
  · intro _
    rw [wp_bind]
    apply Shows.mono (walkChain_ends flagged.between _)
    intro status w' ends
    cases status with
    | done =>
        simp only [wp_bind, wp_getNd, wp_ite, wp_pure, wp_observe]
        constructor
        · intro idle
          exact ends.lastEnds flagged.between fun _ => idle
        · intro busy _
          refine ⟨trivial, ?_⟩
          rcases ends.between flagged.between with quiet | ⟨queued, -⟩
          · exact absurd quiet.size busy
          · exact (chainLookup_ends queued).mono fun _ _ ends => ends.lastEnds
    | fail error => exact ends.lastEnds flagged.between fun other => (by cases other)
    | link path => exact ends.lastEnds flagged.between fun other => (by cases other)
    | chainLink path => exact ends.lastEnds flagged.between fun other => (by cases other)
  · intro notChains
    have quiet := flagged.quiet notChains
    exact (walkComponent_ends quiet _).mono fun _ _ ends => ends.lastEnds quiet

theorem Quiet.counted {h : Heap} (quiet : Quiet w) (same : SameShape w.heap h) :
    Quiet { w with heap := h } :=
  ⟨quiet.ok.sameShape same, same.held.trans quiet.held, quiet.size, quiet.list⟩

theorem mayFollowLink_ends (quiet : Quiet w) (link : Path) :
    Shows benign (mayFollowLink env link) (fun _ w' => Quiet w') w := by
  unfold Shows
  rw [mayFollowLink, wp_bind, wp_getHeap, wp_bind, wp_getNd, wp_ite]
  constructor
  · intro _
    exact quiet
  · intro _
    exact quiet.counted ((SameShape.dput _ _).trans (.dput _ _))

/-! ### Whole walks -/

theorem startAt_wanders (path : Path) : Shows benign (startAt path) (fun _ w' => Wanders w w') w := by
  unfold Shows
  simp only [startAt, pathGet, wp_bind, wp_modifyNd, wp_modifyHeap]
  exact ⟨.dget _ _, Nat.le_refl _, rfl, rfl, rfl, rfl⟩

theorem pathStart_wanders (dfd : Option Nat) (name : List UInt8) (flags : LookupFlags) :
    Shows benign (pathStart env dfd name flags) (fun _ w' => Wanders w w') w := by
  have here : Wanders w w := ⟨.refl _, Nat.le_refl _, rfl, rfl, rfl, rfl⟩
  have starts : ∀ {w₁ : World} (path : Path), Wanders w w₁ →
      Shows benign (do startAt path; return (none : Option Errno)) (fun _ w' => Wanders w w') w₁ := by
    intro w₁ path wanders
    unfold Shows
    rw [wp_bind]
    exact (startAt_wanders path).mono fun _ _ more => wanders.trans more
  unfold Shows pathStart
  rw [wp_ite]
  constructor
  · intro _
    rw [wp_bind, wp_getNd]
    cases w.nd.root with
    | none => exact ⟨by simp, by simp⟩
    | some root =>
        simp only [wp_ite]
        refine ⟨fun _ => starts root here, fun _ => ?_⟩
        rw [wp_bind, wp_getHeap, wp_ite]
        refine ⟨fun _ => ?_, fun _ => here⟩
        rw [wp_bind, wp_derefInode]
        refine ⟨fun inode _ => ?_, fun _ => ⟨by simp, by simp⟩⟩
        cases env.permission inode with
        | some error => exact here
        | none => exact starts root here
  · intro _
    have unrooted : Wanders w { w with nd := { w.nd with root := none } } :=
      ⟨.refl _, Nat.le_refl _, rfl, rfl, rfl, rfl⟩
    rw [wp_bind, wp_modifyNd, wp_ite]
    constructor
    · intro _
      rw [wp_bind]
      apply Shows.mono setRoot_wanders
      intro _ w₁ more
      exact starts _ (unrooted.trans more)
    · intro _
      cases dfd with
      | none => exact starts _ unrooted
      | some fd =>
          simp only
          cases env.file fd with
          | none => exact unrooted
          | some path =>
              simp only
              rw [wp_bind, wp_getHeap, wp_ite]
              exact ⟨fun _ => unrooted, fun _ => starts path unrooted⟩

/-- What `path_init` leaves. -/
structure Started (w w' : World) (error : Option Errno) : Prop where
  quiet : Quiet w'
  inode : error = none → w'.nd.inode = w'.heap.inode w'.nd.path.dentry
  shape : SameShape w.heap w'.heap
  tick : w.heap.tick ≤ w'.heap.tick
  type : w'.nd.lastType = .root

theorem pathInit_ends (ok : HeapOk w.heap) (free : w.heap.held = []) (dfd : Option Nat)
    (name : List UInt8) (flags : LookupFlags) :
    Shows benign (pathInit env dfd name flags) (fun error w' => Started w w' error) w := by
  unfold Shows
  rw [pathInit, wp_bind, wp_modifyNd, wp_bind]
  apply Shows.mono (pathStart_wanders dfd name flags)
  intro error w₁ wanders
  have quiet : Quiet w₁ :=
    ⟨ok.sameShape wanders.shape, wanders.shape.held.trans free, wanders.size, wanders.list⟩
  change wp _ _ (if _ then _ else _) _ _
  rw [wp_ite]
  constructor
  · intro _
    simp only [wp_bind, wp_getHeap, wp_getNd, wp_modifyNd, wp_observe, wp_pure]
    intro _
    have set : Quiet { w₁ with nd := { w₁.nd with inode := w₁.heap.inode w₁.nd.path.dentry } } :=
      quiet.transport rfl rfl rfl
    exact ⟨set.chainInv, set, fun _ => rfl, wanders.shape, wanders.tick, wanders.type⟩
  · intro failed
    rw [wp_bind, wp_observe]
    intro _
    exact ⟨quiet.chainInv, quiet, fun none => absurd none failed, wanders.shape, wanders.tick, wanders.type⟩

/-- The last checks of a lookup leave the walk where it is. -/
structure Finished (w w' : World) : Prop where
  shape : SameShape w.heap w'.heap
  tick : w.heap.tick ≤ w'.heap.tick
  path : w'.nd.path = w.nd.path
  list : w'.nd.dchainList = w.nd.dchainList

theorem completeWalk_ends : Shows benign (completeWalk env) (fun _ w' => Finished w w') w := by
  unfold Shows
  rw [completeWalk, wp_bind, wp_getNd, wp_ite]
  constructor
  · intro _
    rw [wp_bind, wp_dcache, after_ask]
    cases env.weakRevalidate w.heap.tick w.nd.path.dentry with
    | valid => exact ⟨.ticked _, Nat.le_succ _, rfl, rfl⟩
    | stale => exact ⟨(SameShape.ticked _).trans (.dput _ _), Nat.le_succ _, rfl, rfl⟩
    | failed error => exact ⟨(SameShape.ticked _).trans (.dput _ _), Nat.le_succ _, rfl, rfl⟩
  · intro _
    exact ⟨.refl _, Nat.le_refl _, rfl, rfl⟩

/-- The reference to the root is put. -/
theorem putRoot_ends {w₁ : World} (finished : Finished w w₁) (status : Status) :
    Shows benign
      (do
        match (← getNd).root with
        | some root =>
            if (← getNd).flags.root then
              return status
            else
              pathPut root
              modifyNd fun nd => { nd with root := none }
              return status
        | none => return status)
      (fun result w' => Finished w w' ∧ result = status) w₁ := by
  unfold Shows
  rw [wp_bind, wp_getNd]
  cases w₁.nd.root with
  | none => exact ⟨finished, rfl⟩
  | some root =>
      simp only [pathPut, wp_bind, wp_getNd, wp_ite, wp_pure, wp_modifyHeap, wp_modifyNd]
      refine ⟨fun _ => ⟨finished, trivial⟩, fun _ => ⟨?_, trivial⟩⟩
      exact ⟨finished.shape.trans (.dput _ _), finished.tick, finished.path, finished.list⟩

theorem finishLookup_ends (status : Status) :
    Shows benign (finishLookup env status)
      (fun result w' => Finished w w' ∧ (result = .done → status = .done)) w := by
  have here : Finished w w := ⟨.refl _, Nat.le_refl _, rfl, rfl⟩
  have put : ∀ {w₁ : World} (result : Status), Finished w w₁ → (result = .done → status = .done) →
      Shows benign
        (do
          match (← getNd).root with
          | some root =>
              if (← getNd).flags.root then
                return result
              else
                pathPut root
                modifyNd fun nd => { nd with root := none }
                return result
          | none => return result)
        (fun result w' => Finished w w' ∧ (result = .done → status = .done)) w₁ := by
    intro w₁ result finished only
    apply Shows.mono (putRoot_ends finished result)
    rintro _ w' ⟨finished, rfl⟩
    exact ⟨finished, only⟩
  unfold Shows
  cases status with
  | fail error => exact put _ here (fun other => by cases other)
  | link path => exact put _ here (fun other => by cases other)
  | chainLink path => exact put _ here (fun other => by cases other)
  | done =>
      change wp _ _ (completeWalk env >>= _) _ _
      rw [wp_bind]
      apply Shows.mono completeWalk_ends
      intro error w₁ finished
      cases error with
      | some error =>
          change wp _ _ (pure _ >>= _) _ _
          rw [wp_bind, wp_pure]
          exact put (.fail error) finished (fun _ => rfl)
      | none =>
          change wp _ _ (getNd >>= _) _ _
          rw [wp_bind, wp_getNd, wp_bind, wp_getHeap, wp_ite]
          constructor
          · intro _
            have terminated : Finished w { w₁ with heap := w₁.heap.dput w₁.nd.path.dentry } :=
              ⟨finished.shape.trans (.dput _ _), finished.tick, finished.path, finished.list⟩
            rw [wp_bind, terminateWalk, wp_bind, wp_getNd, pathPut, wp_modifyHeap, wp_bind, wp_pure]
            exact put (.fail .ENOTDIR) terminated (fun _ => rfl)
          · intro _
            rw [wp_bind, wp_pure]
            exact put .done finished (fun _ => rfl)

end Nfs4Compound.Vfs
