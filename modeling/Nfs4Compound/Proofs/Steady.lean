/-
Module: Nfs4Compound.Proofs.Steady
Layer: Proofs
Purpose: What no step of a walk does but the following of a link and the restart of a walk: the count of
  the links followed only grows, up to its limit, and no restart is reported.
Imports: Nfs4Compound.Vfs.Open
Trusted boundary: none
Main exports: Steady, walkText_steady, lookupLast_steady, doLast_steady, trailingLinks_steady,
  openTrailing_steady
-/
import Nfs4Compound.Vfs.Open

namespace Nfs4Compound.Vfs

open Prog

variable {α β : Type} {env : Env}

/-- The count of links followed has not become smaller, nor passed its limit. -/
structure Counted (w w' : World) : Prop where
  grows : w.totalLinkCount ≤ w'.totalLinkCount
  limit : w.totalLinkCount ≤ maxTotalLinks → w'.totalLinkCount ≤ maxTotalLinks

/-- The event is no restart. -/
def NoRestart : Event → Prop
  | .restart _ _ => False
  | _ => True

/-- A step that only follows links. -/
def Steady (x : Walk α) : Prop := Prog.Stays Counted NoRestart x

/-! ### The rules -/

theorem counted_of_eq {w w' : World} (same : w'.totalLinkCount = w.totalLinkCount) : Counted w w' :=
  ⟨Nat.le_of_eq same.symm, fun limit => same.symm ▸ limit⟩

@[grind ←] theorem steady_bind {x : Walk α} {f : α → Walk β} (first : Steady x)
    (rest : ∀ value, Steady (f value)) : Steady (x >>= f) := by
  apply stays_bind _ first rest
  intro w₁ w₂ w₃ near further
  exact ⟨Nat.le_trans near.grows further.grows, fun limit => further.limit (near.limit limit)⟩

/-- A step without events that leaves the count alone. -/
theorem steady_of_silent {x : Walk α} (same : ∀ w, (x w).state.totalLinkCount = w.totalLinkCount)
    (silent : ∀ w, (x w).events = []) : Steady x :=
  stays_of_silent (fun w => counted_of_eq (same w)) silent

@[grind ←] theorem steady_pure (value : α) : Steady (pure value) :=
  steady_of_silent (fun _ => rfl) fun _ => rfl

@[grind ←] theorem steady_fault (cause : Oops) : Steady (Prog.fault cause : Walk α) :=
  steady_of_silent (fun _ => rfl) fun _ => rfl

@[grind ←] theorem steady_read : Steady Prog.read := steady_of_silent (fun _ => rfl) fun _ => rfl

@[grind ←] theorem steady_getNd : Steady getNd := steady_of_silent (fun _ => rfl) fun _ => rfl

@[grind ←] theorem steady_getHeap : Steady getHeap := steady_of_silent (fun _ => rfl) fun _ => rfl

@[grind ←] theorem steady_modifyNd (f : Nameidata → Nameidata) : Steady (modifyNd f) :=
  steady_of_silent (fun _ => rfl) fun _ => rfl

@[grind ←] theorem steady_modifyHeap (f : Heap → Heap) : Steady (modifyHeap f) :=
  steady_of_silent (fun _ => rfl) fun _ => rfl

@[grind ←] theorem steady_dcache (op : Dcache α) : Steady (dcache op) :=
  steady_of_silent (fun _ => rfl) fun _ => rfl

@[grind ←] theorem steady_pathPut (path : Path) : Steady (pathPut path) := steady_modifyHeap _

@[grind ←] theorem steady_pathGet (path : Path) : Steady (pathGet path) := steady_modifyHeap _

@[grind ←] theorem steady_observe {event : World → Event} (quiet : ∀ w, NoRestart (event w)) :
    Steady (observe event) := by
  intro w
  refine ⟨counted_of_eq rfl, ?_⟩
  intro other member
  have only : other = event w := List.mem_singleton.mp member
  rw [only]
  exact quiet w

@[grind ←] theorem steady_derefInode (d : DentryId) : Steady (derefInode d) := by
  unfold derefInode
  grind

@[grind ←] theorem steady_mutexLock (d : DentryId) : Steady (mutexLock d) := by
  unfold mutexLock
  grind

@[grind ←] theorem steady_mutexUnlock (d : DentryId) : Steady (mutexUnlock d) := by
  unfold mutexUnlock
  grind

@[grind ←] theorem steady_terminateWalk : Steady terminateWalk := by
  unfold terminateWalk
  grind

@[grind ←] theorem steady_pathToNameidata (path : Path) : Steady (pathToNameidata path) := by
  unfold pathToNameidata
  grind

@[grind ←] theorem steady_setRoot : Steady (setRoot env) := by
  unfold setRoot
  grind

/-! ### One component -/

theorem followUp_steady : Steady (followUp env) := by
  unfold followUp
  grind

theorem followDotdotLoop_steady (depth : Nat) : Steady (followDotdotLoop env depth) := by
  induction depth with
  | zero => exact steady_fault _
  | succ depth inductionHypothesis =>
      unfold followDotdotLoop
      grind [followUp_steady]

@[grind ←] theorem handleDots_steady (type : LastType) : Steady (handleDots env type) := by
  unfold handleDots followDotdot
  split
  · apply steady_bind steady_setRoot
    intro _
    apply steady_bind (followDotdotLoop_steady _)
    intro status
    grind
  · exact steady_pure _

theorem lookupHash_steady (name : Name) (base : DentryId) : Steady (lookupHash env name base) := by
  unfold lookupHash
  grind [NoRestart]

theorem crossMounts_steady (dentry : DentryId) : Steady (crossMounts env dentry) := by
  unfold crossMounts
  grind

@[grind ←] theorem lookupFast_steady : Steady (lookupFast env) := by
  unfold lookupFast
  apply steady_bind steady_getNd
  intro nd
  apply steady_bind (steady_dcache _)
  intro found
  cases found with
  | none => exact steady_pure _
  | some dentry =>
      apply steady_bind (steady_dcache _)
      intro answer
      grind [NoRestart, crossMounts_steady]

theorem lookupSlow_steady : Steady (lookupSlow env) := by
  unfold lookupSlow
  apply steady_bind steady_getNd
  intro nd
  apply steady_bind steady_getHeap
  intro h
  grind [lookupHash_steady, crossMounts_steady]

theorem stepInto_steady (path : Path) (follow : Bool) : Steady (stepInto path follow) := by
  unfold stepInto
  grind

theorem walkComponent_steady (follow : Bool) : Steady (walkComponent env follow) := by
  unfold walkComponent
  apply steady_bind
  · exact steady_observe fun _ => trivial
  · intro _
    apply steady_bind steady_getNd
    intro nd
    split
    · exact handleDots_steady _
    · apply steady_bind lookupFast_steady
      intro found
      grind [lookupSlow_steady, stepInto_steady]

/-! ### A chain -/

theorem dchainListPop_steady : Steady dchainListPop := by
  unfold dchainListPop
  grind

@[grind ←] theorem freeDchainList_steady : Steady freeDchainList :=
  steady_of_silent (fun _ => rfl) fun _ => rfl

theorem nfsFillDchainList_steady (slot : Nat → Option Ino) : Steady (nfsFillDchainList env slot) := by
  unfold nfsFillDchainList
  grind

theorem nfsChainLookup_steady : Steady (nfsChainLookup env) := by
  unfold nfsChainLookup
  apply steady_bind steady_getNd
  intro nd
  apply steady_bind (steady_derefInode _)
  intro dir
  apply steady_bind (steady_dcache _)
  intro allocated
  cases allocated with
  | failed wild => grind
  | done =>
      apply steady_bind (steady_dcache _)
      intro reply
      apply steady_bind
      · exact steady_observe fun _ => trivial
      · intro _
        grind [nfsFillDchainList_steady]

@[grind ←] theorem chainLookup_steady : Steady (chainLookup env) := by
  unfold chainLookup
  apply steady_bind
  · unfold chainLookupBody
    apply steady_bind steady_getNd
    intro nd
    cases nd.inode with
    | none => exact steady_fault _
    | some inode =>
        simp only
        split
        · apply steady_bind nfsChainLookup_steady
          intro status
          cases status with
          | done => grind
          | link path => grind
          | fail error => grind
          | chainLink path =>
              apply steady_bind
              · grind
              · intro _
                grind
        · exact steady_fault _
  · intro status
    grind [NoRestart]

theorem chainBase_steady : Steady chainBase := by
  unfold chainBase
  grind

theorem chainFail_steady (error : Errno) : Steady (chainFail error) := by
  unfold chainFail
  grind

theorem chainHit_steady (dentry : DentryId) (follow : Bool) : Steady (chainHit env dentry follow) := by
  unfold chainHit
  apply steady_bind
  · unfold chainPath
    grind [NoRestart]
  · intro path
    apply steady_bind steady_getHeap
    intro h
    grind

theorem chainQueue_steady (dentry : DentryId) : Steady (chainQueue env dentry) := by
  unfold chainQueue
  apply steady_bind
  · exact steady_observe fun _ => trivial
  · intro _
    grind [NoRestart, chainFail_steady]

theorem walkChainName_steady (follow : Bool) : Steady (walkChainName env follow) := by
  unfold walkChainName
  apply steady_bind chainBase_steady
  intro base
  apply steady_bind steady_getNd
  intro nd
  apply steady_bind (steady_dcache _)
  intro found
  grind [NoRestart, chainFail_steady, chainHit_steady, chainQueue_steady]

theorem walkChainDots_steady : Steady (walkChainDots env) := by
  unfold walkChainDots
  apply steady_bind steady_getNd
  intro nd
  grind [NoRestart, dchainListPop_steady]

theorem walkChain_steady (follow : Bool) : Steady (walkChain env follow) := by
  unfold walkChain
  grind [NoRestart, walkChainDots_steady, walkChainName_steady]

/-! ### The components of one text -/

theorem walkStep_steady : Steady (walkStep env) := by
  unfold walkStep
  grind [walkChain_steady, walkComponent_steady]

theorem linkPathWalk_steady {nested : Path → Walk Status} (nests : ∀ path, Steady (nested path))
    (names : List Qstr) : Steady (linkPathWalk env nested names) := by
  induction names with
  | nil => exact steady_pure _
  | cons this rest inductionHypothesis =>
      cases rest with
      | nil =>
          unfold linkPathWalk setLast
          grind
      | cons next rest =>
          unfold linkPathWalk setLast
          apply steady_bind (steady_modifyNd _)
          intro _
          apply steady_bind walkStep_steady
          intro status
          grind

theorem vfsFollowLink_steady {walk : List Qstr → Walk Status} (walks : ∀ names, Steady (walk names))
    (stored : Except Errno (List UInt8)) : Steady (vfsFollowLink env walk stored) := by
  have walksOn : ∀ text, Steady (do
      let inode := (← getHeap).inode (← getNd).path.dentry
      modifyNd fun nd => { nd with inode := inode }
      walk (components text)) := fun text => by grind
  unfold vfsFollowLink
  cases stored with
  | error error => grind
  | ok text =>
      simp only
      split
      · apply steady_bind steady_setRoot
        intro _
        apply steady_bind steady_getNd
        intro nd
        apply steady_bind (steady_pathPut _)
        intro _
        apply steady_bind steady_getNd
        intro nd
        cases nd.root with
        | none =>
            apply steady_bind (steady_fault _)
            intro _
            exact walksOn text
        | some root =>
            apply steady_bind (steady_modifyNd _)
            intro _
            apply steady_bind (steady_pathGet _)
            intro _
            exact walksOn text
      · exact walksOn text

theorem flushLinkText_steady (link : Path) : Steady (flushLinkText env link) := by
  unfold flushLinkText
  grind [NoRestart]

theorem putLink_steady (link : Path) : Steady (putLink link) := by
  unfold putLink
  grind

/-- One more link is counted, below the limit. -/
theorem steady_counting {refused followed : Walk α} (refuses : Steady refused) (follows : Steady followed) :
    Steady (do
      if maxTotalLinks ≤ (← Prog.read).totalLinkCount then refused
      else
        Prog.update fun w => { w with totalLinkCount := w.totalLinkCount + 1 }
        followed) := by
  intro w
  by_cases many : maxTotalLinks ≤ w.totalLinkCount
  · have run : (do
        if maxTotalLinks ≤ (← Prog.read).totalLinkCount then refused
        else
          Prog.update fun w => { w with totalLinkCount := w.totalLinkCount + 1 }
          followed : Walk α) w = refused w := by
      rw [Prog.bind_ok_at (show Prog.read w = ⟨.ok w, w, []⟩ from rfl), if_pos many]
      rfl
    rw [run]
    exact refuses w
  · have run : (do
        if maxTotalLinks ≤ (← Prog.read).totalLinkCount then refused
        else
          Prog.update fun w => { w with totalLinkCount := w.totalLinkCount + 1 }
          followed : Walk α) w = followed { w with totalLinkCount := w.totalLinkCount + 1 } := by
      rw [Prog.bind_ok_at (show Prog.read w = ⟨.ok w, w, []⟩ from rfl), if_neg many]
      rfl
    rw [run]
    obtain ⟨counted, events⟩ := follows { w with totalLinkCount := w.totalLinkCount + 1 }
    have more := counted.grows
    exact ⟨⟨Nat.le_of_succ_le more, fun _ => counted.limit (Nat.lt_of_not_le many)⟩, events⟩

/-- `follow_link` behind the count. -/
def followText (env : Env) (walk : List Qstr → Walk Status) (link : Path) : Walk (Except Errno Path) := do
  modifyNd fun nd => { nd with lastType := .bind }
  let inode ← derefInode link.dentry
  match ← dcache (ask (env.readlink · inode)) with
  | .error error =>
      pathPut (← getNd).path
      pathPut link
      return .error error
  | .ok stored =>
      let status ← vfsFollowLink env walk stored
      let link ← flushLinkText env link
      match status with
      | .fail error =>
          putLink link
          return .error error
      | _ => return .ok link

theorem followText_steady {walk : List Qstr → Walk Status} (walks : ∀ names, Steady (walk names))
    (link : Path) : Steady (followText env walk link) := by
  unfold followText
  apply steady_bind (steady_modifyNd _)
  intro _
  apply steady_bind (steady_derefInode _)
  intro inode
  apply steady_bind (steady_dcache _)
  intro read
  grind [vfsFollowLink_steady, flushLinkText_steady, putLink_steady]

theorem followLink_eq (walk : List Qstr → Walk Status) (link : Path) :
    followLink env walk link = (do
      observe (.symlink link)
      if maxTotalLinks ≤ (← Prog.read).totalLinkCount then
        pathPut (← getNd).path
        pathPut link
        return .error .ELOOP
      else
        Prog.update fun w => { w with totalLinkCount := w.totalLinkCount + 1 }
        followText env walk link) := rfl

theorem followLink_steady {walk : List Qstr → Walk Status} (walks : ∀ names, Steady (walk names))
    (link : Path) : Steady (followLink env walk link) := by
  rw [followLink_eq]
  apply steady_bind
  · exact steady_observe fun _ => trivial
  · intro _
    apply steady_counting
    · grind
    · exact followText_steady walks link

theorem nestedLoop_steady {walk : List Qstr → Walk Status} (walks : ∀ names, Steady (walk names))
    (fuel : Nat) (path : Path) : Steady (nestedLoop env walk fuel path) := by
  induction fuel generalizing path with
  | zero => exact steady_fault _
  | succ fuel inductionHypothesis =>
      unfold nestedLoop
      grind [followLink_steady, walkComponent_steady, putLink_steady]

theorem steady_linkCount (f : Nat → Nat) :
    Steady (Prog.update fun w => { w with linkCount := f w.linkCount }) :=
  steady_of_silent (fun _ => rfl) fun _ => rfl

theorem nestedSymlink_steady (nest : Nat) (path : Path) : Steady (nestedSymlink env nest path) := by
  induction nest generalizing path with
  | zero =>
      unfold nestedSymlink
      grind
  | succ nest inductionHypothesis =>
      have loops : ∀ fuel path, Steady (nestedLoop env (linkPathWalk env (nestedSymlink env nest)) fuel path) :=
        nestedLoop_steady (linkPathWalk_steady inductionHypothesis)
      have follows : Steady (do
          modifyNd fun nd => { nd with depth := nd.depth + 1 }
          Prog.update fun w => { w with linkCount := w.linkCount + 1 }
          let status ←
            nestedLoop env (linkPathWalk env (nestedSymlink env nest)) (maxTotalLinks + 1) path
          Prog.update fun w => { w with linkCount := w.linkCount - 1 }
          modifyNd fun nd => { nd with depth := nd.depth - 1 }
          return status) := by
        apply steady_bind (steady_modifyNd _)
        intro _
        apply steady_bind (steady_linkCount (· + 1))
        intro _
        apply steady_bind (loops _ path)
        intro status
        apply steady_bind (steady_linkCount (· - 1))
        intro _
        grind
      unfold nestedSymlink
      grind

theorem walkText_steady (names : List Qstr) : Steady (walkText env names) :=
  linkPathWalk_steady (nestedSymlink_steady maxNestedLinks) names

/-! ### Lookups -/

theorem pathInit_steady (dfd : Option Nat) (name : List UInt8) (flags : LookupFlags) :
    Steady (pathInit env dfd name flags) := by
  have starts : ∀ path, Steady (startAt path) := by
    intro path
    unfold startAt
    grind
  have startsOff : Steady (pathStart env dfd name flags) := by
    unfold pathStart
    split
    · apply steady_bind steady_getNd
      intro nd
      grind
    · apply steady_bind (steady_modifyNd _)
      intro _
      grind
  unfold pathInit
  apply steady_bind (steady_modifyNd _)
  intro _
  apply steady_bind startsOff
  intro error
  grind [NoRestart]

theorem completeWalk_steady : Steady (completeWalk env) := by
  unfold completeWalk
  grind

theorem lookupLast_steady : Steady (lookupLast env) := by
  unfold lookupLast
  apply steady_bind (steady_modifyNd _)
  intro _
  apply steady_bind steady_getNd
  intro nd
  apply steady_bind steady_getHeap
  intro h
  split
  · apply steady_bind (walkChain_steady _)
    intro status
    grind [NoRestart]
  · exact walkComponent_steady _

theorem mayFollowLink_steady (link : Path) : Steady (mayFollowLink env link) := by
  unfold mayFollowLink
  grind

theorem trailingLinks_steady (fuel : Nat) (path : Path) : Steady (trailingLinks env fuel path) := by
  induction fuel generalizing path with
  | zero => exact steady_fault _
  | succ fuel inductionHypothesis =>
      unfold trailingLinks
      apply steady_bind (mayFollowLink_steady _)
      intro may
      split
      · apply steady_bind (steady_modifyNd _)
        intro _
        apply steady_bind (followLink_steady walkText_steady _)
        intro followed
        grind [lookupLast_steady, putLink_steady]
      · exact steady_pure _

theorem finishLookup_steady (status : Status) : Steady (finishLookup env status) := by
  have puts : ∀ status : Status, Steady (finishRoot status) := by
    intro status
    unfold finishRoot
    grind
  unfold finishLookup
  cases status with
  | link path => exact puts _
  | chainLink path => exact puts _
  | fail error => exact puts _
  | done =>
      apply steady_bind completeWalk_steady
      intro error
      cases error with
      | some error =>
          apply steady_bind (steady_pure _)
          exact puts
      | none =>
          apply steady_bind steady_getNd
          intro nd
          apply steady_bind steady_getHeap
          intro h
          split
          · apply steady_bind steady_terminateWalk
            intro _
            apply steady_bind (steady_pure _)
            exact puts
          · apply steady_bind (steady_pure _)
            exact puts

/-! ### Opens -/

theorem openOut_steady (saveParent : Option Path) (status : Status) : Steady (openOut saveParent status) := by
  unfold openOut
  grind

theorem openedChecks_steady {oenv : OpenEnv} (saveParent : Option Path) (truncate : Bool) :
    Steady (openedChecks oenv saveParent truncate) := by
  unfold openedChecks
  grind [openOut_steady]

theorem finishOpenCreated_steady {oenv : OpenEnv} (saveParent : Option Path) (dir : DentryId)
    (truncate retried : Bool) : Steady (finishOpenCreated oenv saveParent dir truncate retried) := by
  unfold finishOpenCreated
  apply steady_bind steady_getNd
  intro nd
  apply steady_bind steady_getHeap
  intro h
  apply steady_bind (steady_dcache _)
  intro may
  cases may with
  | some error => grind [openOut_steady]
  | none =>
      apply steady_bind (steady_dcache _)
      intro answer
      grind [openOut_steady, openedChecks_steady]

theorem finishOpen_steady {oenv : OpenEnv} (saveParent : Option Path) (dir : DentryId)
    (truncate retried : Bool) : Steady (finishOpen env oenv saveParent dir truncate retried) := by
  unfold finishOpen
  grind [openOut_steady, finishOpenCreated_steady]

theorem finishLookupOpen_steady {oenv : OpenEnv} (op : OpenFlags) (symlinkOk : Bool) (dir : DentryId)
    (truncate retried : Bool) (path : Path) :
    Steady (finishLookupOpen env oenv op symlinkOk dir truncate retried path) := by
  have completes : ∀ saveParent : Option Path,
      Steady (finishLookupCompletes env oenv op dir truncate retried saveParent) := by
    intro saveParent
    unfold finishLookupCompletes
    apply steady_bind completeWalk_steady
    intro error
    grind [openOut_steady, finishOpen_steady]
  unfold finishLookupOpen
  apply steady_bind steady_getHeap
  intro h
  simp only
  split
  · grind [openOut_steady]
  · split
    · exact steady_pure _
    · apply steady_bind steady_getNd
      intro nd
      split
      · apply steady_bind (steady_pathToNameidata _)
        intro _
        apply steady_bind (steady_pure _)
        intro saved
        apply steady_bind (steady_modifyNd _)
        intro _
        exact completes saved
      · apply steady_bind (steady_modifyNd _)
        intro _
        apply steady_bind (steady_pure _)
        intro saved
        apply steady_bind (steady_modifyNd _)
        intro _
        exact completes saved

theorem atomicNoOpen_steady (op : OpenFlags) (dir : Ino) (dentry : DentryId) (needLookup : Bool)
    (createError : Option Errno) : Steady (atomicNoOpen env op dir dentry needLookup createError) := by
  unfold atomicNoOpen
  apply steady_bind steady_getNd
  intro nd
  simp only
  split
  · apply steady_bind (steady_dcache _)
    intro looked
    grind
  · exact steady_pure _

theorem atomicCall_steady {oenv : OpenEnv} (op : OpenFlags) (dir : Ino) (dentry : DentryId)
    (createError : Option Errno) : Steady (atomicCall env oenv op dir dentry createError) := by
  unfold atomicCall
  apply steady_bind steady_getNd
  intro nd
  apply steady_bind steady_getHeap
  intro h
  apply steady_bind (steady_dcache _)
  intro reply
  grind

theorem lookupCreate_steady {oenv : OpenEnv} (op : OpenFlags) (gotWrite : Bool) (dir : Ino)
    (dentry : DentryId) : Steady (lookupCreate env oenv op gotWrite dir dentry) := by
  unfold lookupCreate
  apply steady_bind steady_getNd
  intro nd
  apply steady_bind steady_getHeap
  intro h
  simp only
  split
  · split
    · apply steady_bind (steady_dcache _)
      intro may
      grind
    · grind
  · exact steady_pure _

theorem atomicOpen_steady {oenv : OpenEnv} (op : OpenFlags) (gotWrite : Bool) (dir : Ino)
    (dentry : DentryId) (needLookup : Bool) :
    Steady (atomicOpen env oenv op gotWrite dir dentry needLookup) := by
  unfold atomicOpen
  grind [atomicNoOpen_steady, atomicCall_steady]

theorem lookupOpen_steady {oenv : OpenEnv} (op : OpenFlags) (gotWrite : Bool) :
    Steady (lookupOpen env oenv op gotWrite) := by
  unfold lookupOpen
  apply steady_bind steady_getNd
  intro nd
  apply steady_bind (steady_derefInode _)
  intro dir
  apply steady_bind (steady_dcache _)
  intro found
  grind [atomicOpen_steady, lookupCreate_steady]

theorem retryLookup_steady {oenv : OpenEnv} (op : OpenFlags) (symlinkOk : Bool) (dir : DentryId)
    (fuel : Nat) (truncate retried : Bool) :
    Steady (retryLookup env oenv op symlinkOk dir fuel truncate retried) := by
  induction fuel generalizing truncate retried with
  | zero => exact steady_fault _
  | succ fuel inductionHypothesis =>
      unfold retryLookup
      extract_lets goesOn looksUp
      have goes : ∀ finish, Steady (goesOn finish) := by
        intro finish
        cases finish with
        | ended status => exact steady_pure _
        | retry truncate => exact inductionHypothesis truncate true
      have looks : ∀ gotWrite, Steady (looksUp gotWrite) := by
        intro gotWrite
        clear_value goesOn
        apply steady_bind (steady_mutexLock _)
        intro _
        apply steady_bind (lookupOpen_steady _ _)
        intro looked
        apply steady_bind (steady_mutexUnlock _)
        intro _
        split
        · grind [openOut_steady]
        · grind [openedChecks_steady]
        · grind [finishOpenCreated_steady]
        · split
          · grind [openOut_steady]
          · apply steady_bind (steady_dcache _)
            intro crossed
            grind [finishLookupOpen_steady]
      clear_value looksUp
      split
      · grind
      · apply steady_bind (steady_pure _)
        exact looks

theorem doLast_steady {oenv : OpenEnv} (op : OpenFlags) : Steady (doLast env oenv op) := by
  have named : ∀ dir, Steady (doLastName env oenv op dir) := by
    intro dir
    unfold doLastName
    apply steady_bind steady_getNd
    intro nd
    split
    · grind [completeWalk_steady, openOut_steady, retryLookup_steady]
    · apply steady_bind (steady_modifyNd _)
      intro _
      apply steady_bind lookupFast_steady
      intro found
      grind [openOut_steady, retryLookup_steady, finishLookupOpen_steady]
  have dotted : ∀ dir type, Steady (doLastDots env oenv op dir type) := by
    intro dir type
    unfold doLastDots
    grind [completeWalk_steady, openOut_steady, finishOpen_steady]
  unfold doLast
  apply steady_bind steady_getNd
  intro nd
  apply steady_bind steady_getHeap
  intro h
  extract_lets searches
  have search : ∀ status, Steady (searches status) := by
    intro status
    cases status with
    | done =>
        apply steady_bind
        · exact steady_observe fun _ => trivial
        · intro _
          apply steady_bind (steady_modifyNd _)
          intro _
          grind
    | link path => exact steady_pure _
    | chainLink path => exact steady_pure _
    | fail error => exact steady_pure _
  grind [NoRestart]

theorem openTrailing_steady {oenv : OpenEnv} (op : OpenFlags) (fuel : Nat) (path : Path) :
    Steady (openTrailing env oenv op fuel path) := by
  induction fuel generalizing path with
  | zero => exact steady_fault _
  | succ fuel inductionHypothesis =>
      unfold openTrailing
      apply steady_bind steady_getNd
      intro nd
      split
      · apply steady_bind (mayFollowLink_steady _)
        intro may
        split
        · apply steady_bind (steady_modifyNd _)
          intro _
          apply steady_bind (followLink_steady walkText_steady _)
          intro followed
          grind [doLast_steady, putLink_steady]
        · exact steady_pure _
      · grind

theorem finishOpenat_steady (status : Status) : Steady (finishOpenat status) := by
  unfold finishOpenat
  grind

end Nfs4Compound.Vfs
