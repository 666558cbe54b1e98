/-
Module: Nfs4Compound.Proofs.PlainLookup
Layer: Proofs
Purpose: Whole lookups on a tree of directories and regular files: the chains of `path_lookupat` and its
  walk by single components have one outcome, which is what the path means.
Imports: Nfs4Compound.Proofs.PlainWalk, Nfs4Compound.Proofs.ChainRuns
Trusted boundary: none
Main exports: pathLookupat_concludes, chain_walk_agrees, lookups_answer, Env.serving
-/
import Nfs4Compound.Proofs.PlainWalk
import Nfs4Compound.Proofs.ChainRuns

namespace Nfs4Compound.Vfs

open Prog

variable {env : Env} {serve : Lookup} {view : View} {h : Heap} {w : World} {target : Except Errno Ino}
  {directory : Bool} {name : List UInt8} {flags : LookupFlags}

/-! ### The end of a lookup -/

/-- The status and the place of a walk that has come to its end. -/
def Comes (target : Except Errno Ino) (status : Status) (w : World) : Prop :=
  match target with
  | .ok inode => status = .done ∧ w.heap.inode w.nd.path.dentry = some inode
  | .error error => status = .fail error

/-- The walk has ended with this outcome, and holds no mutex. -/
structure Concludes (env : Env) (view : View) (target : Except Errno Ino) (status : Status) (w : World) :
    Prop where
  rests : Rests env view w
  comes : Comes target status w

theorem Concludes.counted {status : Status} (concludes : Concludes env view target status w)
    (same : SameShape w.heap h) (nd : Nameidata) (path : nd.path = w.nd.path) :
    Concludes env view target status { w with heap := h, nd := nd } := by
  have rests := concludes.rests.counted same
  refine ⟨⟨rests.sound, rests.held⟩, ?_⟩
  have comes := concludes.comes
  cases target with
  | error error => exact comes
  | ok inode =>
      refine ⟨comes.1, ?_⟩
      change h.inode nd.path.dentry = some inode
      rw [path, same.inode]
      exact comes.2

theorem finishRoot_concludes {status : Status} (concludes : Concludes env view target status w) :
    Returns (finishRoot status) (Concludes env view target) w := by
  unfold Returns
  rw [finishRoot, wp_bind, wp_getNd]
  cases w.nd.root with
  | none => exact concludes
  | some root =>
      simp only [wp_bind, wp_getNd, wp_ite, wp_pure, pathPut, wp_modifyHeap, wp_modifyNd]
      exact ⟨fun _ => concludes, fun _ => concludes.counted (.dput _ _) _ rfl⟩

theorem completeWalk_plain (plain : Plain env) :
    Returns (completeWalk env) (fun error w' => error = none ∧ w'.nd = w.nd ∧ SameShape w.heap w'.heap) w := by
  unfold Returns
  rw [completeWalk, wp_bind, wp_getNd, wp_ite]
  constructor
  · intro _
    rw [wp_bind, wp_dcache, after_ask, plain.weaklyValid]
    exact ⟨rfl, rfl, .ticked _⟩
  · intro _
    exact ⟨rfl, rfl, .refl _⟩

/-- The last checks of a lookup. -/
theorem finishLookup_concludes (plain : Plain env) {status : Status}
    (reaches : Reaches (AtEnd env view target directory) (Rests env view) target status w) :
    Returns (finishLookup env status) (Concludes env view (checkDirectory env directory target)) w := by
  cases status with
  | link path => exact reaches.elim
  | chainLink path => exact reaches.elim
  | fail error =>
      obtain ⟨rfl, rests⟩ : target = .error error ∧ Rests env view w := reaches
      exact finishRoot_concludes ⟨rests, rfl⟩
  | done =>
      obtain ⟨here, flag⟩ := reaches
      obtain ⟨inode, positive⟩ := here.place
      have found : target = .ok inode := by
        rw [← here.means, resolve, positive]
      subst found
      change Returns (completeWalk env >>= _) _ _
      unfold Returns
      rw [wp_bind]
      apply Returns.mono (completeWalk_plain plain)
      rintro error w₁ ⟨rfl, nd, same⟩
      have still : w₁.heap.inode w₁.nd.path.dentry = some inode := by
        rw [nd, same.inode]
        exact positive
      have can := (here.cached.typed.same same.toSameDentries).canLookup plain (d := w₁.nd.path.dentry)
      have sound : Sound env view w₁.heap :=
        ⟨here.quiet.ok.sameShape same, here.cached.same same.toSameDentries⟩
      have rests : Rests env view w₁ := ⟨sound, same.held.trans here.quiet.held⟩
      change wp _ _ (getNd >>= _) _ _
      rw [wp_bind, wp_getNd, wp_bind, wp_getHeap, wp_ite]
      rw [nd] at can still ⊢
      constructor
      · rintro ⟨wanted, cannot⟩
        have other : env.kind inode ≠ .directory := by
          intro directory
          exact cannot (can.mpr ⟨inode, still, directory⟩)
        have refused : checkDirectory env directory (.ok inode) = .error .ENOTDIR :=
          if_pos ⟨flag.symm.trans wanted, other⟩
        rw [refused]
        exact finishRoot_concludes ⟨rests.counted (.dput _ _), rfl⟩
      · intro passes
        have accepted : checkDirectory env directory (.ok inode) = .ok inode := by
          refine if_neg ?_
          rintro ⟨wanted, other⟩
          refine passes ⟨flag.trans wanted, fun looks => ?_⟩
          obtain ⟨found, isFound, directory⟩ := can.mp looks
          cases still.symm.trans isFound
          exact other directory
        rw [accepted]
        refine finishRoot_concludes ⟨rests, rfl, ?_⟩
        rw [nd]
        exact still

/-! ### The start of a lookup -/

/-- What `path_init` leaves of the flags, and where: in a directory, unless there are no names. -/
structure SetsOut (env : Env) (name : List UInt8) (w : World) (error : Option Errno) (w' : World) : Prop where
  flags : w'.nd.flags = w.nd.flags
  place : error = none → ∃ inode, w.heap.inode w'.nd.path.dentry = some inode ∧
    (name ≠ [] → env.kind inode = .directory)

theorem pathStart_lands (plain : Plain env) (typed : Typed env w.heap) (dfd : Option Nat) (name : List UInt8)
    (rooted : Rooted env dfd flags w) :
    Returns (pathStart env dfd name flags) (SetsOut env name w) w := by
  have refused : ∀ {error : Errno} {w' : World}, w'.nd.flags = w.nd.flags →
      SetsOut env name w (some error) w' :=
    fun flags => ⟨flags, fun failed => (by cases failed)⟩
  unfold Returns
  unfold pathStart
  rw [wp_ite]
  constructor
  · intro given
    obtain ⟨root, inode, isRoot, positive⟩ := rooted.given given
    rw [wp_bind, wp_getNd, isRoot]
    simp only [wp_ite]
    constructor
    · intro empty
      exact ⟨rfl, fun _ => ⟨inode, positive, fun named => absurd empty named⟩⟩
    · intro _
      rw [wp_bind, wp_getHeap, wp_ite]
      constructor
      · intro can
        obtain ⟨found, isFound, directory⟩ := (typed.canLookup plain).mp can
        rw [wp_bind, wp_derefInode]
        constructor
        · intro inode _
          cases env.permission inode with
          | some error => exact refused rfl
          | none => exact ⟨rfl, fun _ => ⟨found, isFound, fun _ => directory⟩⟩
        · intro missing
          cases missing.symm.trans isFound
      · intro _
        exact refused rfl
  · intro _
    rw [wp_bind, wp_modifyNd, wp_ite]
    constructor
    · intro _
      obtain ⟨inode, positive, directory⟩ := rooted.fsRoot
      exact ⟨rfl, fun _ => ⟨inode, positive, fun _ => directory⟩⟩
    · intro _
      cases dfd with
      | none =>
          obtain ⟨inode, positive, directory⟩ := rooted.fsPwd
          exact ⟨rfl, fun _ => ⟨inode, positive, fun _ => directory⟩⟩
      | some fd =>
          simp only
          cases opened : env.file fd with
          | none => exact refused rfl
          | some path =>
              obtain ⟨inode, positive⟩ := rooted.files fd path rfl opened
              simp only
              rw [wp_bind, wp_getHeap, wp_ite]
              constructor
              · intro _
                exact refused rfl
              · intro passes
                refine ⟨rfl, fun _ => ⟨inode, positive, fun named => ?_⟩⟩
                have can : w.heap.dCanLookup path.dentry = true := by
                  by_contra cannot
                  exact passes ⟨named, cannot⟩
                obtain ⟨found, isFound, directory⟩ := (typed.canLookup plain).mp can
                cases positive.symm.trans isFound
                exact directory

/-- What a proof under a contract that asks for nothing has shown of a program that returns. -/
theorem returns_shows {α : Type} {x : Walk α} {first second : α → World → Prop} (returns : Returns x first w)
    (shows : Shows (fun _ => True) x second w) :
    Returns x (fun value w' => first value w' ∧ second value w') w := by
  obtain ⟨value, returned, holds⟩ := returns_iff.mp returns
  obtain ⟨-, ended⟩ := wp_contract shows fun _ _ => trivial
  rw [returned] at ended
  exact returns_iff.mpr ⟨value, returned, holds, ended⟩

theorem pathInit_lands (plain : Plain env) (ok : HeapOk w.heap) (typed : Typed env w.heap)
    (free : w.heap.held = []) (dfd : Option Nat) (name : List UInt8) (rooted : Rooted env dfd flags w) :
    Returns (pathInit env dfd name { flags with parent := true })
      (fun error w' => Started w w' error ∧ w'.nd.flags.directory = flags.directory ∧
        (error = none → ∃ inode, w'.heap.inode w'.nd.path.dentry = some inode ∧
          (name ≠ [] → env.kind inode = .directory))) w := by
  have lands : Returns (pathInit env dfd name { flags with parent := true })
      (fun error w' => w'.nd.flags.directory = flags.directory ∧
        (error = none → ∃ inode, w.heap.inode w'.nd.path.dentry = some inode ∧
          (name ≠ [] → env.kind inode = .directory))) w := by
    unfold Returns
    rw [pathInit, wp_bind, wp_modifyNd]
    generalize world : ({ w with nd := _ } : World) = w₀
    have same : w₀.heap = w.heap ∧ w₀.nd.flags.directory = flags.directory ∧
        w₀.nd.root = w.nd.root := by
      rw [← world]
      exact ⟨rfl, rfl, rfl⟩
    obtain ⟨heap, flag, root⟩ := same
    have rooted₀ : Rooted env dfd { flags with parent := true } w₀ := by
      refine ⟨?_, ?_, ?_, ?_⟩
      · rw [heap]
        exact rooted.fsRoot
      · rw [heap]
        exact rooted.fsPwd
      · rw [heap]
        exact rooted.files
      · rw [heap, root]
        exact rooted.given
    clear world
    rw [wp_bind]
    apply Returns.mono (pathStart_lands plain (by rw [heap]; exact typed) dfd name rooted₀)
    rintro error w₁ ⟨flags, place⟩
    rw [heap] at place
    have kept : w₁.nd.flags.directory = _ := (congrArg _ flags).trans flag
    simp only [wp_bind, wp_ite, wp_getHeap, wp_getNd, wp_modifyNd, wp_observe, wp_pure]
    exact ⟨fun _ => ⟨kept, place⟩, fun _ => ⟨kept, place⟩⟩
  apply Returns.mono (returns_shows lands (pathInit_ends ok free dfd name _))
  rintro error w' ⟨⟨flag, place⟩, started⟩
  refine ⟨started, flag, fun succeeded => ?_⟩
  rw [started.shape.inode]
  exact place succeeded

/-! ### Whole lookups -/

/-- Where a lookup is when its components are walked. -/
structure SetOut (env : Env) (view : View) (target : Except Errno Ino) (name : List UInt8) (flags : LookupFlags)
    (w : World) : Prop where
  here : At env view target (pathNames name) w
  inDirectory : name ≠ [] → InDirectory env w
  type : w.nd.lastType = .root
  flag : w.nd.flags.directory = flags.directory

theorem relookup_reaches (plain : Plain env) (serves : Records env view)
    (ordinary : ∀ q ∈ components name, Ordinary env q) (out : SetOut env view target name flags w)
    (fuel : Nat) :
    Returns (relookup env false (fuel + 1) name)
      (fun status w' =>
        Reaches (AtEnd env view target (wantsDirectory name flags)) (Rests env view) target status w') w := by
  have someName : components name ≠ [] → name ≠ [] := by
    rintro named rfl
    exact named rfl
  have here := out.here
  unfold Returns
  rw [relookup, wp_bind]
  unfold wantsDirectory
  rw [pathNames] at here
  cases names : components name with
  | nil =>
      rw [names] at here
      have rooted := lookupLast_root here out.type
      rw [out.flag] at rooted
      have nothing : Returns (walkText env []) (fun status w' => status = .done ∧ w' = w) w := ⟨rfl, rfl⟩
      apply Returns.mono nothing
      rintro status w' ⟨rfl, rfl⟩
      simp only [wp_ite]
      refine ⟨fun parent => (by cases parent), fun _ => ?_⟩
      rw [wp_bind]
      apply Returns.mono rooted
      intro status w₁ reaches
      cases status with
      | link path => exact reaches.elim
      | chainLink path => exact reaches.elim
      | fail error => exact reaches
      | done => exact reaches
  | cons this rest =>
      have inDirectory := out.inDirectory (someName (by rw [names]; exact List.cons_ne_nil _ _))
      rw [names] at here ordinary
      rw [List.getLast?_eq_some_getLast (List.cons_ne_nil _ _)]
      apply Returns.mono (linkPathWalk_reaches plain serves this rest ordinary (.inl here) inDirectory)
      intro status w₁ reaches
      cases status with
      | link path => exact reaches.elim
      | chainLink path => exact reaches.elim
      | fail error => exact reaches
      | done =>
          have before : BeforeLast env view target flags.directory
              ((this :: rest).getLast (List.cons_ne_nil _ _)) w₁ := by
            rw [← out.flag]
            exact reaches
          simp only [wp_ite]
          refine ⟨fun parent => (by cases parent), fun _ => ?_⟩
          rw [wp_bind]
          apply Returns.mono (lookupLast_reaches plain serves before
            (ordinary _ (List.getLast_mem (List.cons_ne_nil _ _))).2)
          intro status w₂ reaches
          cases status with
          | link path => exact reaches.elim
          | chainLink path => exact reaches.elim
          | fail error => exact reaches
          | done => exact reaches

/-- What a lookup finds: the names are resolved from where `path_init` starts. -/
def lookupMeans (env : Env) (serve : Lookup) (name : List UInt8) (flags : LookupFlags)
    (start : Run Oops World Event (Option Errno)) : Except Errno Ino :=
  match start.result with
  | .ok none =>
      checkDirectory env (wantsDirectory name flags)
        (resolve env serve start.state.heap start.state.nd.path.dentry (pathNames name))
  | .ok (some error) => .error error
  | .error _ => .error .ENOENT

theorem pathLookupat_concludes (plain : Plain env) (serves : Records env view) (ok : HeapOk w.heap)
    (cached : Cached env view w.heap) (free : w.heap.held = []) (dfd : Option Nat)
    (rooted : Rooted env dfd flags w) (ordinary : ∀ q ∈ components name, Ordinary env q)
    (whole : flags.parent = false) (fuel : Nat) :
    Returns (pathLookupat env (fuel + 1) dfd name flags)
      (Concludes env view
        (lookupMeans env view.serve name flags (pathInit env dfd name { flags with parent := true } w))) w := by
  unfold Returns
  rw [pathLookupat, wp_bind]
  apply Returns.mono (wp_final (pathInit_lands plain ok cached.typed free dfd name rooted))
  rintro error w₁ ⟨⟨started, flag, place⟩, state, returned⟩
  rw [lookupMeans, returned, state]
  cases error with
  | some error =>
      refine ⟨⟨⟨started.quiet.ok, cached.same started.shape.toSameDentries⟩, started.quiet.held⟩, rfl⟩
  | none =>
      obtain ⟨inode, positive, directory⟩ := place rfl
      have out : SetOut env view (resolve env view.serve w₁.heap w₁.nd.path.dentry (pathNames name)) name flags
          { w₁ with totalLinkCount := 0 } :=
        ⟨⟨started.quiet.transport rfl rfl rfl, cached.same started.shape.toSameDentries, started.inode rfl,
          ⟨inode, positive⟩, rfl⟩, fun named => ⟨inode, positive, directory named⟩, started.type, flag⟩
      simp only [wp_bind, wp_update, whole]
      apply Returns.mono (relookup_reaches plain serves ordinary out fuel)
      intro status w₂ reaches
      exact finishLookup_concludes plain reaches

theorem outcome_of_concludes {x : Walk Status} (concludes : Returns x (Concludes env view target) w) :
    outcome x w = some target ∧ Rests env view (x w).state := by
  obtain ⟨status, returned, rests, comes⟩ := returns_iff.mp concludes
  refine ⟨?_, rests⟩
  rw [outcome, returned]
  cases target with
  | ok inode =>
      obtain ⟨rfl, positive⟩ := comes
      simp only [positive]
      rfl
  | error error =>
      have failed : status = .fail error := comes
      subst failed
      rfl

/-! ### Chains and single components -/

theorem knownFrom_anything (slot : Nat → Option Ino) (index : Nat) (parent : Option Ino) (names : List Name) :
    KnownFrom (fun _ _ _ => True) slot index parent names := by
  induction names generalizing index parent with
  | nil => trivial
  | cons name rest inductionHypothesis => exact ⟨fun _ _ => trivial, inductionHypothesis _ _⟩

/-- A dcache of which nothing is known. -/
theorem Serves.records (serves : Serves env serve) : Records env ⟨serve, fun _ _ _ => True, h⟩ :=
  ⟨serves, fun _ _ _ _ => trivial, fun _ _ _ => trivial, fun _ _ _ _ _ => knownFrom_anything _ _ _ _⟩

theorem Typed.cached (typed : Typed env h) : Cached env ⟨serve, fun _ _ _ => True, h⟩ h :=
  ⟨typed, fun _ _ _ _ _ _ => trivial, fun _ _ before => before⟩

theorem Plain.oneByOne (plain : Plain env) : Plain env.oneByOne :=
  ⟨plain.kinds, plain.alive, plain.valid, plain.weaklyValid, plain.dentries, plain.entries, plain.handles,
    plain.unaliased, plain.unmounted⟩

theorem Sendable.oneByOne {names : List Name} (sendable : Sendable env.oneByOne names) : Sendable env names :=
  ⟨sendable.some, sendable.limit, sendable.short⟩

theorem Serves.oneByOne (serves : Serves env serve) : Serves env.oneByOne serve :=
  ⟨serves.single, fun t dir names sendable => serves.status t dir names (sendable.oneByOne),
    fun t dir names k inode sendable => serves.slot t dir names k inode sendable.oneByOne, serves.files⟩

theorem resolve_oneByOne (d : DentryId) (names : List Name) :
    resolve env.oneByOne serve h d names = resolve env serve h d names := by
  induction names generalizing d with
  | nil => rfl
  | cons name rest inductionHypothesis =>
      simp only [resolve]
      simp only [inductionHypothesis]
      rfl

theorem lookupMeans_oneByOne (start : Run Oops World Event (Option Errno)) :
    lookupMeans env.oneByOne serve name flags start = lookupMeans env serve name flags start := by
  unfold lookupMeans
  simp only [resolve_oneByOne]
  rfl

theorem Stands.rooted {root pwd : Ino} (stands : Stands env root pwd w.heap) {flags : LookupFlags}
    (own : flags.root = false) : Rooted env none flags w := by
  refine ⟨⟨root, stands.fsRoot, stands.rootDirectory⟩, ⟨pwd, stands.fsPwd, stands.pwdDirectory⟩, ?_, ?_⟩
  · intro fd path other
    cases other
  · intro given
    rw [own] at given
    cases given

/-- The calm client of a server with the tree `serve`. -/
def Env.serving (kind : Ino → Kind) (serve : Lookup) : Env :=
  { Env.calm with
    kind := kind
    lookupRpc := fun _ dir name => singleReply (serve dir name)
    chainRpc := fun _ dir names =>
      ⟨compoundStatus (names.foldlM serve dir), fun k => ((names.take (k + 1)).foldlM serve dir).toOption⟩ }

theorem plain_serving {kind : Ino → Kind} (kinds : ∀ inode, kind inode = .directory ∨ kind inode = .regular) :
    Plain (Env.serving kind serve) :=
  ⟨kinds, fun _ => rfl, fun _ _ => rfl, fun _ _ => rfl, fun _ => rfl, fun _ => rfl, fun _ => rfl,
    fun _ _ _ => rfl, fun _ => rfl⟩

theorem candid_serving {kind : Ino → Kind}
    (files : ∀ inode name, kind inode ≠ .directory → serve inode name = .error .ENOTDIR)
    (refuses : ∀ dir name error, serve dir name = .error error → error ≠ .EACCES ∧ error ≠ .ELOOP) :
    Candid (Env.serving kind serve) serve := by
  refine ⟨⟨fun _ _ _ _ => rfl, fun _ _ _ _ => rfl, ?_, files⟩, refuses, ?_⟩
  · intro t dir names k inode _ _ found
    change ((names.take (k + 1)).foldlM serve dir).toOption = some inode
    rw [found]
    rfl
  · intro t dir names k error _ _ refused
    change ((names.take (k + 1)).foldlM serve dir).toOption = none
    rw [refused]
    rfl

/-- A file `b` in a directory `a` below the root. -/
def fileTree : Lookup := fun dir name =>
  if dir = 3 then .error .ENOTDIR
  else if dir = 1 ∧ name = [97] then .ok 2
  else if dir = 2 ∧ name = [98] then .ok 3
  else .error .ENOENT

def fileKind (inode : Ino) : Kind := if inode = 3 then .regular else .directory

theorem fileKind_plain (inode : Ino) : fileKind inode = .directory ∨ fileKind inode = .regular := by
  unfold fileKind
  split
  · exact .inr rfl
  · exact .inl rfl

theorem fileTree_candid : Candid (Env.serving fileKind fileTree) fileTree := by
  apply candid_serving
  · intro inode name file
    have isFile : inode = 3 := by
      by_contra other
      exact file (if_neg other)
    rw [fileTree, if_pos isFile]
  · intro dir name error refused
    unfold fileTree at refused
    split at refused
    · cases refused
      exact ⟨by decide, by decide⟩
    · split at refused
      · cases refused
      · split at refused
        · cases refused
        · cases refused
          exact ⟨by decide, by decide⟩

theorem rootHeap_typed : Typed (Env.serving fileKind fileTree) rootHeap := by
  intro d
  left
  by_cases root : d = 0
  · subst root
    rfl
  · simp [Heap.type, Heap.inode, rootHeap, root, dFlagsForInode]

theorem rootHeap_stands : Stands (Env.serving fileKind fileTree) 1 1 rootHeap := ⟨rfl, rfl, rfl, rfl⟩

/-- Where the dcache agrees with the server, names mean what the server says. -/
theorem resolve_agrees (serves : Serves env serve) (agrees : Agrees serve h) {d : DentryId} {inode : Ino}
    (positive : h.inode d = some inode) (names : List Name) :
    resolve env serve h d names = names.foldlM serve inode := by
  induction names generalizing d inode with
  | nil =>
      rw [resolve, positive]
      rfl
  | cons name rest inductionHypothesis =>
      rw [List.foldlM_cons]
      by_cases directory : env.kind inode = .directory
      · cases cached : h.hash d name with
        | none =>
            rw [resolve_missing positive directory cached]
            rfl
        | some child =>
            rw [resolve_cached positive directory cached]
            have said := agrees d name child inode cached positive
            unfold told at said
            cases found : h.inode child with
            | some next =>
                rw [found] at said
                rw [inductionHypothesis found, said]
                rfl
            | none =>
                rw [found] at said
                rw [said]
                cases rest with
                | nil =>
                    rw [resolve, found]
                    rfl
                | cons next rest =>
                    rw [resolve, found]
                    rfl
      · rw [serves.files inode name directory]
        simp only [resolve, positive, directory]
        rfl

/-- The slots of a candid server hold what has been found under each name. -/
theorem Candid.slotIs (candid : Candid env serve) (t : Nat) (dir : Ino) {names : List Name}
    (sendable : Sendable env names) {k : Nat} (inside : k < names.length) :
    (env.chainRpc t dir names).slot k = ((names.take (k + 1)).foldlM serve dir).toOption := by
  cases found : (names.take (k + 1)).foldlM serve dir with
  | ok inode => exact candid.slot t dir names k inode sendable inside found
  | error error => exact candid.empty t dir names k error sendable inside found

/-- Where the slots are filled although a name was not found, the server has said that it is missing. -/
theorem Candid.missing (candid : Candid env serve) {t : Nat} {dir parent : Ino} {found rest : List Name}
    {missing : Name} {error : Errno} (sendable : Sendable env (found ++ missing :: rest))
    (before : found.foldlM serve dir = .ok parent)
    (refused : serve parent missing = .error error)
    (fills : fillsAnyway (env.chainRpc t dir (found ++ missing :: rest)).status = true) : error = .ENOENT := by
  obtain ⟨notAccess, notLoop⟩ := candid.refuses parent missing error refused
  have whole : (found ++ missing :: rest).foldlM serve dir = .error error := by
    rw [List.foldlM_append, before]
    change (missing :: rest).foldlM serve parent = .error error
    rw [List.foldlM_cons, refused]
    rfl
  rw [candid.status t dir _ sendable, whole] at fills
  rcases of_decide_eq_true fills with same | same | same
  · exact same
  · exact absurd same notAccess
  · exact absurd same notLoop

/-- The slots of a candid server say of every name what the server says: induction on the names behind
    those that have been found. -/
theorem Candid.knownFrom (candid : Candid env serve) (t : Nat) (dir : Ino) (found rest : List Name)
    (sendable : Sendable env (found ++ rest))
    (fills : fillsAnyway (env.chainRpc t dir (found ++ rest)).status = true) :
    KnownFrom (told serve) (env.chainRpc t dir (found ++ rest)).slot found.length
      (found.foldlM serve dir).toOption rest := by
  induction rest generalizing found with
  | nil => trivial
  | cons next rest inductionHypothesis =>
      have further := inductionHypothesis (found ++ [next])
      have inside : found.length < (found ++ next :: rest).length := by simp
      have slot := candid.slotIs t dir sendable inside
      have firsts : (found ++ next :: rest).take (found.length + 1) = found ++ [next] := by
        rw [List.append_cons]
        exact List.take_left' (by simp)
      rw [firsts] at slot
      rw [List.append_assoc, List.singleton_append, List.length_append, List.length_singleton, ← slot]
        at further
      refine ⟨?_, further sendable fills⟩
      intro parent isParent
      cases before : found.foldlM serve dir with
      | error error =>
          rw [before] at isParent
          cases isParent
      | ok inode =>
          rw [before] at isParent
          cases isParent
          rw [slot, List.foldlM_append, before]
          change told serve parent next ([next].foldlM serve parent).toOption
          rw [List.foldlM_cons]
          cases said : serve parent next with
          | ok child => exact said
          | error error =>
              cases candid.missing sendable before said fills
              exact said

theorem Candid.records (candid : Candid env serve) : Records env ⟨serve, told serve, h⟩ := by
  refine ⟨candid.toServes, fun _ _ _ said => said, fun _ _ said => said, ?_⟩
  intro t dir names sendable fills
  exact candid.knownFrom t dir [] names sendable fills

theorem pathInit_own (name : List UInt8) {flags : LookupFlags} (own : flags.root = false) :
    Returns (pathInit env none name { flags with parent := true })
      (fun error w' => (error = none ∧ w'.nd.path =
        if name.head? = some slash then env.fsRoot else env.fsPwd) ∧
        w'.nd.flags = { flags with parent := true, jumped := true }) w := by
  unfold Returns
  rw [pathInit, wp_bind, wp_modifyNd, wp_bind]
  unfold pathStart
  rw [wp_ite]
  refine ⟨fun given => absurd (own.symm.trans given) (by simp), fun _ => ?_⟩
  rw [wp_bind, wp_modifyNd, wp_ite]
  constructor
  · intro absolute
    rw [if_pos absolute]
    exact ⟨⟨rfl, rfl⟩, rfl⟩
  · intro relative
    rw [if_neg relative]
    exact ⟨⟨rfl, rfl⟩, rfl⟩

theorem Stands.kept {root pwd : Ino} (stands : Stands env root pwd h) {h' : Heap}
    (kept : ∀ d inode, h.inode d = some inode → h'.inode d = some inode) : Stands env root pwd h' :=
  ⟨kept _ _ stands.fsRoot, kept _ _ stands.fsPwd, stands.rootDirectory, stands.pwdDirectory⟩

/-- One lookup on a dcache that agrees with the server. -/
theorem lookup_answers (plain : Plain env) (candid : Candid env serve) {root pwd : Ino} {request : Request}
    (ordinary : request.Ordinary env) (ok : HeapOk w.heap)
    (cached : Cached env ⟨serve, told serve, w.heap⟩ w.heap) (free : w.heap.held = [])
    (stands : Stands env root pwd w.heap) (fuel : Nat) :
    Returns (pathLookupat env (fuel + 1) none request.name request.flags)
      (Concludes env ⟨serve, told serve, w.heap⟩ (treeLookup env serve root pwd request)) w := by
  have start := returns_shows (@pathInit_own env w request.name _ ordinary.own) (pathInit_ends ok free none _ _)
  obtain ⟨error, returned, ⟨⟨rfl, place⟩, -⟩, started⟩ := returns_iff.mp start
  have concludes := pathLookupat_concludes plain candid.records ok cached free none (stands.rooted ordinary.own)
    ordinary.names ordinary.whole fuel
  rw [lookupMeans, returned, resolve_same started.shape.toSameDentries, place] at concludes
  have from_start : resolve env serve w.heap
      (if request.name.head? = some slash then env.fsRoot else env.fsPwd).dentry (pathNames request.name) =
        (pathNames request.name).foldlM serve (if request.name.head? = some slash then root else pwd) := by
    apply resolve_agrees candid.toServes cached.knows
    split
    · exact stands.fsRoot
    · exact stands.fsPwd
  rw [treeLookup, ← from_start]
  exact concludes

/-- Every lookup of a run finds what the server has and leaves a dcache on which the next one does. -/
theorem lookups_run (plain : Plain env) (candid : Candid env serve) {root pwd : Ino} (fuel : Nat)
    (requests : List Request) (ordinary : ∀ request ∈ requests, request.Ordinary env) (ok : HeapOk w.heap)
    (cached : Cached env ⟨serve, told serve, w.heap⟩ w.heap) (free : w.heap.held = [])
    (stands : Stands env root pwd w.heap) :
    lookups env (fuel + 1) requests w =
      requests.map fun request => some (treeLookup env serve root pwd request) := by
  induction requests generalizing w with
  | nil => rfl
  | cons request rest inductionHypothesis =>
      obtain ⟨found, rests⟩ := outcome_of_concludes
        (lookup_answers plain candid (ordinary request List.mem_cons_self) ok cached free stands fuel)
      have more := inductionHypothesis (fun other member => ordinary other (List.mem_cons_of_mem _ member))
        rests.sound.ok ⟨rests.sound.cached.typed, rests.sound.cached.knows, fun _ _ before => before⟩ rests.held
        (stands.kept rests.sound.cached.kept)
      simp only [lookups, List.map_cons]
      rw [found, more]

/-- Lookups one after the other find what the server has, on a dcache that agrees with it: in a tree of
    directories and files without mounts, and of a server that hides nothing. -/
theorem lookups_answer (plain : Plain env) (candid : Candid env serve) {root pwd : Ino}
    (requests : List Request) (ordinary : ∀ request ∈ requests, request.Ordinary env) (ok : HeapOk w.heap)
    (typed : Typed env w.heap) (agrees : Agrees serve w.heap) (free : w.heap.held = [])
    (stands : Stands env root pwd w.heap) (fuel : Nat) :
    lookups env (fuel + 1) requests w =
      requests.map fun request => some (treeLookup env serve root pwd request) :=
  lookups_run plain candid fuel requests ordinary ok ⟨typed, agrees, fun _ _ before => before⟩ free stands

/-- A file, a missing name, the file again, and the file as if it were a directory. -/
def fileRequests : List Request :=
  [⟨[97, slash, 98], rootWorld.nd.flags⟩, ⟨[97, slash, 99], rootWorld.nd.flags⟩,
    ⟨[slash, 97, slash, 98], rootWorld.nd.flags⟩, ⟨[97, slash, 98, slash], rootWorld.nd.flags⟩]

theorem fileRequests_ordinary :
    ∀ request ∈ fileRequests, request.Ordinary (Env.serving fileKind fileTree) := by
  have checked : ∀ request ∈ fileRequests, request.flags.parent = false ∧ request.flags.root = false ∧
      ∀ q ∈ components request.name, q.type = .norm ∧ q.text.length ≤ 255 := by decide
  intro request member
  obtain ⟨whole, own, names⟩ := checked request member
  exact ⟨whole, own, names⟩

theorem warm_lookups_answer :
    lookups (Env.serving fileKind fileTree) 1 fileRequests rootWorld =
      [some (.ok 3), some (.error .ENOENT), some (.ok 3), some (.error .ENOTDIR)] :=
  (lookups_answer (plain_serving fileKind_plain) fileTree_candid fileRequests fileRequests_ordinary rootHeap_ok
    rootHeap_typed (by intro d name child dir found; cases found) rfl rootHeap_stands 0).trans (by rfl)

end Nfs4Compound.Vfs
