/-
Module: Nfs4Compound.Proofs.SearchPermission
Layer: Proofs
Purpose: A walk behind `path_init` does not look at search permissions, and what follows for the calls
  that resolve a name.
Imports: Nfs4Compound.Vfs.SearchPermission
Trusted boundary: none
Main exports: walkText_granting, relookup_granting, openRelookup_granting, run_granting,
  search_checked_iff
-/
import Nfs4Compound.Vfs.SearchPermission

namespace Nfs4Compound.Vfs

variable (env : Env)

/-! ### The walk does not depend on permissions -/

@[simp] theorem followMount_granting : followMount env.granting = followMount env := by
  funext depth
  induction depth with
  | zero => rfl
  | succ depth inductionHypothesis =>
      funext path
      simp only [followMount, inductionHypothesis]
      rfl

@[simp] theorem followManaged_granting : followManaged env.granting = followManaged env := by
  funext path
  simp only [followManaged, followMount_granting]
  rfl

@[simp] theorem followDotdotLoop_granting : followDotdotLoop env.granting = followDotdotLoop env := by
  funext depth
  induction depth with
  | zero => rfl
  | succ depth inductionHypothesis =>
      simp only [followDotdotLoop, inductionHypothesis]
      rfl

@[simp] theorem handleDots_granting : handleDots env.granting = handleDots env := by
  funext type
  simp only [handleDots, followDotdot, followMount_granting, followDotdotLoop_granting]
  rfl

@[simp] theorem crossMounts_granting : crossMounts env.granting = crossMounts env := by
  funext dentry
  simp only [crossMounts, followManaged_granting]

@[simp] theorem lookupFast_granting : lookupFast env.granting = lookupFast env := by
  simp only [lookupFast, crossMounts_granting]
  rfl

@[simp] theorem lookupSlow_granting : lookupSlow env.granting = lookupSlow env := by
  simp only [lookupSlow, crossMounts_granting]
  rfl

@[simp] theorem walkComponent_granting : walkComponent env.granting = walkComponent env := by
  funext follow
  simp only [walkComponent, handleDots_granting, lookupFast_granting, lookupSlow_granting]

@[simp] theorem fillEntries_granting (slot : Nat → Option Ino) :
    fillEntries env.granting slot = fillEntries env slot := by
  funext index previous entries
  induction entries generalizing index previous with
  | nil => rfl
  | cons entry rest inductionHypothesis =>
      simp only [fillEntries, inductionHypothesis]
      rfl

@[simp] theorem chainLookup_granting : chainLookup env.granting = chainLookup env := by
  simp only [chainLookup, chainLookupBody, nfsChainLookup, nfsFillDchainList, fillEntries_granting]
  rfl

@[simp] theorem walkChain_granting : walkChain env.granting = walkChain env := by
  funext follow
  simp only [walkChain, walkChainDots, walkChainName, chainHit, chainPath, chainQueue,
    handleDots_granting, chainLookup_granting, followMount_granting]
  rfl

@[simp] theorem walkStep_granting : walkStep env.granting = walkStep env := by
  simp only [walkStep, walkChain_granting, walkComponent_granting]
  rfl

@[simp] theorem linkPathWalk_granting : linkPathWalk env.granting = linkPathWalk env := by
  funext nested names
  induction names with
  | nil => rfl
  | cons this rest inductionHypothesis =>
      cases rest with
      | nil => rfl
      | cons next rest => simp only [linkPathWalk, walkStep_granting, inductionHypothesis]

@[simp] theorem followLink_granting : followLink env.granting = followLink env := by
  funext walk link
  simp only [followLink, flushLinkText, chainLookup_granting]
  rfl

@[simp] theorem nestedLoop_granting : nestedLoop env.granting = nestedLoop env := by
  funext walk fuel
  induction fuel with
  | zero => rfl
  | succ fuel inductionHypothesis =>
      funext path
      simp only [nestedLoop, followLink_granting, walkComponent_granting, inductionHypothesis]

@[simp] theorem nestedSymlink_granting : nestedSymlink env.granting = nestedSymlink env := by
  funext nest
  induction nest with
  | zero =>
      funext path
      rfl
  | succ nest inductionHypothesis =>
      funext path
      simp only [nestedSymlink, nestedLoop_granting, linkPathWalk_granting, inductionHypothesis]

@[simp] theorem walkText_granting : walkText env.granting = walkText env := by
  funext names
  simp only [walkText, linkPathWalk_granting, nestedSymlink_granting]

@[simp] theorem lookupLast_granting : lookupLast env.granting = lookupLast env := by
  simp only [lookupLast, walkChain_granting, chainLookup_granting, walkComponent_granting]
  rfl

@[simp] theorem trailingLinks_granting : trailingLinks env.granting = trailingLinks env := by
  funext fuel
  induction fuel with
  | zero => rfl
  | succ fuel inductionHypothesis =>
      funext path
      simp only [trailingLinks, followLink_granting, walkText_granting, lookupLast_granting,
        inductionHypothesis]
      rfl

@[simp] theorem relookup_granting : relookup env.granting = relookup env := by
  funext parentOnly fuel
  induction fuel with
  | zero => rfl
  | succ fuel inductionHypothesis =>
      funext name
      simp only [relookup, walkText_granting, lookupLast_granting, trailingLinks_granting,
        inductionHypothesis]

@[simp] theorem retryLookup_granting : retryLookup env.granting = retryLookup env := by
  funext oenv op symlinkOk dir fuel
  induction fuel with
  | zero => rfl
  | succ fuel inductionHypothesis =>
      funext truncate retried
      simp only [retryLookup, followManaged_granting, inductionHypothesis]
      rfl

@[simp] theorem doLast_granting : doLast env.granting = doLast env := by
  funext oenv op
  simp only [doLast, doLastName, doLastDots, chainLookup_granting, handleDots_granting,
    lookupFast_granting, retryLookup_granting]
  rfl

@[simp] theorem openTrailing_granting : openTrailing env.granting = openTrailing env := by
  funext oenv op fuel
  induction fuel with
  | zero => rfl
  | succ fuel inductionHypothesis =>
      funext path
      simp only [openTrailing, followLink_granting, walkText_granting, doLast_granting,
        inductionHypothesis]
      rfl

@[simp] theorem openRelookup_granting : openRelookup env.granting = openRelookup env := by
  funext oenv op fuel
  induction fuel with
  | zero => rfl
  | succ fuel inductionHypothesis =>
      funext name
      simp only [openRelookup, walkText_granting, doLast_granting, openTrailing_granting,
        inductionHypothesis]

/-! ### Where it starts -/

section Start

variable {dfd : Option Nat} {name : List UInt8} {flags : LookupFlags} {w : World}

theorem bind_getNd {α : Type} (f : Nameidata → Walk α) : (getNd >>= f) w = f w.nd w := rfl

theorem bind_getHeap {α : Type} (f : Heap → Walk α) : (getHeap >>= f) w = f w.heap w := rfl

theorem bind_modifyNd {α : Type} (change : Nameidata → Nameidata) (f : Unit → Walk α) :
    (modifyNd change >>= f) w = f () { w with nd := change w.nd } := rfl

/-- A dereference is a fault or goes on with the inode. -/
theorem bind_derefInode {α : Type} (d : DentryId) (f : Ino → Walk α) :
    (derefInode d >>= f) w =
      match w.heap.inode d with
      | some inode => f inode w
      | none => ⟨.error .nullDeref, w, []⟩ := by
  have deref : derefInode d w =
      match w.heap.inode d with
      | some inode => ⟨.ok inode, w, []⟩
      | none => ⟨.error .nullDeref, w, []⟩ := by
    change (match w.heap.inode d with
      | some inode => pure inode
      | none => Prog.fault .nullDeref : Walk Ino) w = _
    cases w.heap.inode d with
    | none => rfl
    | some inode => rfl
  change Prog.andThen (derefInode d) f w = _
  rw [Prog.andThen, deref]
  cases w.heap.inode d with
  | none => rfl
  | some inode => rfl

/-- The check of `path_init` for a given root. -/
theorem pathStart_root {root : Path} (isRoot : flags.root = true) (given : w.nd.root = some root)
    (named : name ≠ []) (directory : w.heap.dCanLookup root.dentry = true) :
    pathStart env dfd name flags w =
      match w.heap.inode root.dentry with
      | none => ⟨.error .nullDeref, w, []⟩
      | some inode =>
          match env.permission inode with
          | some error => ⟨.ok (some error), w, []⟩
          | none => (do startAt root; return none : Walk (Option Errno)) w := by
  simp only [pathStart, if_pos isRoot]
  rw [bind_getNd, given]
  simp only [if_neg named]
  rw [bind_getHeap, if_pos directory, bind_derefInode]
  cases w.heap.inode root.dentry with
  | none => rfl
  | some inode =>
      cases permission : env.permission inode with
      | none => simp only [permission]
      | some error =>
          simp only [permission]
          rfl

theorem pathStart_granting
    (granted : flags.root = true → name ≠ [] → ∀ root inode, w.nd.root = some root →
      w.heap.dCanLookup root.dentry = true → w.heap.inode root.dentry = some inode →
        env.permission inode = none) :
    pathStart env.granting dfd name flags w = pathStart env dfd name flags w := by
  by_cases isRoot : flags.root = true
  · by_cases named : name = []
    · simp only [pathStart, isRoot, named, if_true]
    · cases given : w.nd.root with
      | none =>
          simp only [pathStart, if_pos isRoot]
          rw [bind_getNd, bind_getNd, given]
      | some root =>
          by_cases directory : w.heap.dCanLookup root.dentry = true
          · rw [pathStart_root _ isRoot given named directory,
              pathStart_root _ isRoot given named directory]
            cases positive : w.heap.inode root.dentry with
            | none => rfl
            | some inode =>
                simp only [granted isRoot named root inode given directory positive, Env.granting]
          · simp only [pathStart, if_pos isRoot]
            rw [bind_getNd, bind_getNd, given]
            simp only [if_neg named]
            rw [bind_getHeap, bind_getHeap, if_neg directory, if_neg directory]
  · simp only [pathStart, if_neg isRoot]
    rfl

theorem pathInit_granting
    (granted : flags.root = true → name ≠ [] → ∀ root inode, w.nd.root = some root →
      w.heap.dCanLookup root.dentry = true → w.heap.inode root.dentry = some inode →
        env.permission inode = none) :
    pathInit env.granting dfd name flags w = pathInit env dfd name flags w := by
  simp only [pathInit]
  rw [bind_modifyNd, bind_modifyNd]
  exact Prog.bind_congr_at (pathStart_granting env granted) rfl

/-- A denied start: nothing has been searched. -/
theorem pathInit_denied {root : Path} {inode : Ino} {error : Errno} (isRoot : flags.root = true)
    (named : name ≠ []) (given : w.nd.root = some root)
    (directory : w.heap.dCanLookup root.dentry = true)
    (positive : w.heap.inode root.dentry = some inode) (denied : env.permission inode = some error) :
    ∃ w', pathInit env dfd name flags w = ⟨.ok (some error), w', [.returned .pathInit w']⟩ := by
  let started : World :=
    { w with
      nd := { w.nd with
        lastType := .root
        flags := { flags with jumped := true }
        depth := 0
        chainSize := 0
        dchainList := [] } }
  have start : pathStart env dfd name flags started = ⟨.ok (some error), started, []⟩ := by
    rw [@pathStart_root env dfd name flags started root isRoot given named directory]
    simp only [started, positive, denied]
  simp only [pathInit]
  rw [bind_modifyNd]
  exact ⟨started, (Prog.bind_ok_at start).trans rfl⟩

end Start

/-! ### The calls -/

section Calls

variable {env} {call : NameCall} {w : World}

/-- Unless the start is denied, a call does the same whatever the permissions are. -/
theorem run_granting (granted : ¬StartDenied env call w) : call.run env.granting w = call.run env w := by
  have start : call.flags.root = true → call.name ≠ [] → ∀ root inode, w.nd.root = some root →
      w.heap.dCanLookup root.dentry = true → w.heap.inode root.dentry = some inode →
        env.permission inode = none := by
    intro isRoot named root inode given directory positive
    by_contra denied
    obtain ⟨error, permission⟩ := Option.ne_none_iff_exists'.mp denied
    exact granted ⟨isRoot, named, root, inode, error, given, directory, positive, permission⟩
  cases call with
  | lookup fuel dfd name flags =>
      simp only [NameCall.run, pathLookupat, relookup_granting]
      exact Prog.bind_congr_at (pathInit_granting env start) rfl
  | openat oenv op fuel dfd name flags =>
      simp only [NameCall.run, pathOpenat, openPathname, openRelookup_granting]
      apply Prog.bind_congr_at _ rfl
      cases oenv.emptyFilp with
      | some error => rfl
      | none => exact Prog.bind_congr_at (pathInit_granting env start) rfl

theorem finishOpenat_events (status : Status) : (finishOpenat status w).events = [] := by
  simp only [finishOpenat]
  rw [bind_getNd]
  cases w.nd.root with
  | none => by_cases stale : status = .fail eopenstale <;> simp only [stale] <;> rfl
  | some root =>
      by_cases isRoot : w.nd.flags.root = true <;>
        by_cases stale : status = .fail eopenstale <;> simp only [isRoot, stale] <;> rfl

/-- A call whose start is denied searches nothing. -/
theorem denials_startDenied (denied : StartDenied env call w) :
    denials env (call.run env w).events = [] := by
  obtain ⟨isRoot, named, root, inode, error, given, directory, positive, permission⟩ := denied
  cases call with
  | lookup fuel dfd name flags =>
      obtain ⟨w', init⟩ := @pathInit_denied env dfd name { flags with parent := true } w root inode error
        isRoot named given directory positive permission
      simp only [NameCall.run, pathLookupat]
      rw [Prog.bind_ok_at init]
      rfl
  | openat oenv op fuel dfd name flags =>
      obtain ⟨w', init⟩ := @pathInit_denied env dfd name { flags with parent := true } w root inode error
        isRoot named given directory positive permission
      simp only [NameCall.run, pathOpenat]
      rw [Prog.events_bind_pure, openPathname]
      cases oenv.emptyFilp with
      | some error => rfl
      | none =>
          simp only
          rw [Prog.bind_ok_at init]
          simp only [Prog.events_bind_pure, finishOpenat_events]
          rfl

theorem denials_eq_nil {events : List Event} :
    denials env events = [] ↔ ∀ dir ∈ searched env events, env.permission dir = none :=
  List.filterMap_eq_nil_iff

end Calls

/-- A call checks the directories without chain lookups that it searches exactly when there is nothing
    to deny, when the only check left denies the start, or when it fails by itself in the same way. -/
theorem search_checked_iff (call : NameCall) (w : World) :
    SearchChecked env call w ↔
      StartDenied env call w ∨ SearchGranted env call w ∨ EndsAlike env call w := by
  by_cases denied : StartDenied env call w
  · refine ⟨fun _ => .inl denied, fun _ error first => ?_⟩
    rw [denials_startDenied denied] at first
    cases first
  · have same := run_granting denied
    unfold SearchChecked SearchGranted EndsAlike
    rw [← denials_eq_nil, same]
    constructor
    · intro checked
      cases all : denials env (call.run env w).events with
      | nil => exact .inr (.inl rfl)
      | cons error rest =>
          rw [all] at checked
          exact .inr (.inr ⟨error, rfl, checked error rfl⟩)
    · rintro (start | granted | ⟨error, first, ends⟩) other head
      · exact absurd start denied
      · rw [granted] at head
        cases head
      · rw [first] at head
        cases head
        exact ends

/-! ### A closed directory -/

/-- A filesystem without chain lookups that has every name, in an environment where only the root
    directory may be searched. -/
def closedEnv : Env :=
  { Env.calm with
    chainLookup := fun _ => false
    permission := fun inode => if inode = 1 then none else some .EACCES
    lookupRpc := fun _ dir _ => .found (dir + 1) }

/-- A task at the root of that filesystem, with nothing cached. -/
def coldWorld : World where
  nd :=
    { path := ⟨0, 0⟩
      last := ⟨[], 0⟩
      root := none
      inode := none
      flags := ⟨true, false, false, false, false, false⟩
      lastType := .root
      depth := 0
      dchainList := []
      chainSize := 0
      chainParent := 0 }
  heap :=
    { dentry := fun d => if d = 0 then ⟨0, [slash], some 1, .directory⟩ else ⟨0, [], none, .miss⟩
      hash := fun _ _ => none
      next := 1
      count := fun _ => 1
      low := fun _ => 1
      held := []
      tick := 0 }
  linkCount := 0
  totalLinkCount := 0

/-- The lookup of `a/b`. -/
def nestedLookup : NameCall := .lookup 1 none [97, slash, 98] ⟨true, false, false, false, false, false⟩

/-- `b` is found in the directory `a`, which may not be searched. -/
theorem closed_directory_searched :
    (nestedLookup.run closedEnv coldWorld).result = .ok .done ∧
      (denials closedEnv (nestedLookup.run closedEnv coldWorld).events).head? = some .EACCES ∧
      ¬SearchChecked closedEnv nestedLookup coldWorld := by
  have done : (nestedLookup.run closedEnv coldWorld).result = .ok .done := by decide
  have first : (denials closedEnv (nestedLookup.run closedEnv coldWorld).events).head? =
      some .EACCES := by decide
  refine ⟨done, first, ?_⟩
  intro checked
  have failed := checked .EACCES first
  rw [done] at failed
  cases failed

end Nfs4Compound.Vfs
