/-
Module: Nfs4Compound.Proofs.Parents
Layer: Proofs
Purpose: A walk to the directory above a name does not look up the chain that is left at its end.  When
  the chain is not empty, the walk still stands in the directory where the chain starts and holds its
  mutex, and a caller that locks the directory of the walk waits for itself.
Imports: Nfs4Compound.Vfs.Parents, Nfs4Compound.Proofs.PlainLookup
Trusted boundary: none
Main exports: linkPathWalk_parents, filenameLookup_parks, parent_lock_hangs_iff
-/
import Nfs4Compound.Vfs.Parents
import Nfs4Compound.Proofs.PlainLookup

namespace Nfs4Compound.Vfs

open Prog

variable {env : Env} {serve : Lookup} {h : Heap} {w : World} {view : View} {parent : Ino} {names : List Name}

/-! ### The walk -/

/-- On the way to a directory the walk is in directories. -/
theorem Midway.inDirectory (midway : Midway env view (.ok parent) names w)
    (directory : env.kind parent = .directory) : InDirectory env w := by
  rcases midway with here | ⟨waiting, -⟩
  · obtain ⟨inode, positive⟩ := here.place
    have means := here.means
    cases names with
    | nil =>
        rw [resolve, positive] at means
        cases means
        exact ⟨parent, positive, directory⟩
    | cons name rest =>
        rw [resolve, positive] at means
        simp only at means
        split at means
        · rename_i isDirectory
          exact ⟨inode, positive, isDirectory⟩
        · cases means
  · obtain ⟨dir, positive, isDirectory, -, -⟩ := waiting.place
    exact ⟨dir, positive, isDirectory⟩

/-- At the end of the names what is due is what the list holds. -/
theorem Midway.due_nil {target : Except Errno Ino} (midway : Midway env view target names w) :
    w.due [] = w.nd.chainSize := by
  rw [World.due]
  rcases midway with here | ⟨waiting, limit⟩
  · rw [if_pos here.quiet.size, here.quiet.size]
    rfl
  · rw [if_neg (Nat.ne_of_gt waiting.queued.pos)]
    exact Nat.mod_eq_of_lt limit

/-- Where the walk of a text ends when the names before the last lead to the directory `parent`. -/
structure BeforeName (env : Env) (view : View) (parent : Ino) (last : Qstr) (w : World) : Prop where
  midway : Midway env view (.ok parent) [] w
  last : w.nd.last = last
  type : w.nd.lastType = .norm

/-- Every step of the walk keeps what is due: by induction on the names. -/
theorem linkPathWalk_parents (plain : Plain env) (serves : Records env view)
    (chains : ∀ dir, env.chainLookup dir = true) {nested : Path → Walk Status}
    (directory : env.kind parent = .directory) (this : Qstr) (rest : List Qstr)
    (ordinary : ∀ q ∈ this :: rest, Ordinary env q)
    (midway : Midway env view (.ok parent) ((this :: rest).dropLast.map Qstr.text) w)
    (automount : w.nd.flags.automount = false) :
    Returns (linkPathWalk env nested (this :: rest))
      (fun status w' => status = .done ∧
        BeforeName env view parent ((this :: rest).getLast (List.cons_ne_nil _ _)) w' ∧
        w'.nd.flags.directory = w.nd.flags.directory ∧
        w'.nd.chainSize = w.due ((this :: rest).dropLast.map Qstr.text)) w := by
  induction rest generalizing this w with
  | nil =>
      exact ⟨rfl, ⟨midway.withLast this, rfl, (ordinary this List.mem_cons_self).1⟩, rfl, midway.due_nil.symm⟩
  | cons next rest inductionHypothesis =>
      obtain ⟨norm, short⟩ := ordinary this List.mem_cons_self
      have inDirectory := midway.inDirectory directory
      unfold Returns
      rw [linkPathWalk, wp_bind, setLast, wp_modifyNd, wp_bind]
      have set := midway.withLast this
      have mode : chainable env (w.nd.withLast this).flags w.nd.inode = true := by
        obtain ⟨dir, positive, -⟩ := inDirectory
        rw [midway.inode.1, positive, chainable, chains, Bool.true_and]
        change (!w.nd.flags.automount) = true
        rw [automount]
        rfl
      apply Returns.mono (walkStep_reaches (w := { w with nd := w.nd.withLast this }) plain serves set
        inDirectory norm short)
      rintro status w₁ ⟨reaches, flags, due⟩
      cases status with
      | link path => exact reaches.elim
      | chainLink path => exact reaches.elim
      | fail error => cases reaches.1
      | done =>
          have there : Midway env view (.ok parent) ((next :: rest).dropLast.map Qstr.text) w₁ := reaches
          have goesOn : Returns (linkPathWalkOn env nested (next :: rest) .done)
              (fun status w' => status = .done ∧
                BeforeName env view parent ((this :: next :: rest).getLast (List.cons_ne_nil _ _)) w' ∧
                w'.nd.flags.directory = w.nd.flags.directory ∧
                w'.nd.chainSize = w.due ((this :: next :: rest).dropLast.map Qstr.text)) w₁ := by
            unfold Returns
            rw [linkPathWalkOn, wp_bind, wp_getHeap, wp_bind, wp_getNd, wp_ite]
            constructor
            · intro _
              have more := inductionHypothesis next (fun q member => ordinary q (List.mem_cons_of_mem _ member))
                there (by rw [flags]; exact automount)
              rw [due mode rfl, flags] at more
              rw [List.getLast_cons (List.cons_ne_nil _ _)]
              exact more
            · intro cannot
              exact absurd ((there.cached.typed.canLookup plain).mpr (there.inDirectory directory)) cannot
          exact goesOn

/-! ### The lookup of a parent -/

/-- The walk has come to the directory and holds no mutex. -/
structure InParent (env : Env) (view : View) (parent : Ino) (w : World) : Prop where
  sound : Sound env view w.heap
  free : w.heap.held = []
  place : w.heap.inode w.nd.path.dentry = some parent

/-- The walk holds the mutex of the directory in which it stands. -/
def HoldsOwn (w : World) : Prop := ∃ dir, w.heap.inode w.nd.path.dentry = some dir ∧ w.heap.held = [dir]

/-- A walk to a parent has ended before its last name; whether it has come to the parent depends on what
    is left in its chain. -/
structure Parked (env : Env) (view : View) (parent : Ino) (last : Qstr) (pending : Nat) (w : World) :
    Prop where
  last : w.nd.last = last
  type : w.nd.lastType = .norm
  arrived : pending = 0 → InParent env view parent w
  stuck : pending ≠ 0 → HoldsOwn w

theorem BeforeName.parked {last : Qstr} (before : BeforeName env view parent last w) :
    Parked env view parent last w.nd.chainSize w := by
  refine ⟨before.last, before.type, ?_, ?_⟩
  · intro idle
    rcases before.midway with here | ⟨waiting, -⟩
    · obtain ⟨inode, positive⟩ := here.place
      have means := here.means
      rw [resolve, positive] at means
      cases means
      exact ⟨here.sound, here.quiet.held, positive⟩
    · exact absurd idle (Nat.ne_of_gt waiting.queued.pos)
  · intro busy
    rcases before.midway with here | ⟨waiting, -⟩
    · exact absurd here.quiet.size busy
    · obtain ⟨dir, positive, held⟩ := waiting.queued.locked
      refine ⟨dir, ?_, held⟩
      rw [waiting.queued.place]
      exact positive

theorem Parked.counted {last : Qstr} {pending : Nat} {w' : World}
    (parked : Parked env view parent last pending w) (same : SameShape w.heap w'.heap)
    (path : w'.nd.path = w.nd.path) (name : w'.nd.last = w.nd.last)
    (type : w'.nd.lastType = w.nd.lastType) : Parked env view parent last pending w' := by
  refine ⟨name.trans parked.last, type.trans parked.type, ?_, ?_⟩
  · intro idle
    obtain ⟨sound, free, place⟩ := parked.arrived idle
    refine ⟨⟨sound.ok.sameShape same, sound.cached.same same.toSameDentries⟩, same.held.trans free, ?_⟩
    rw [path, same.inode]
    exact place
  · intro busy
    obtain ⟨dir, positive, held⟩ := parked.stuck busy
    refine ⟨dir, ?_, same.held.trans held⟩
    rw [path, same.inode]
    exact positive

/-- The last checks change nothing. -/
theorem finishLookup_parks (plain : Plain env) {last : Qstr} {pending : Nat}
    (parked : Parked env view parent last pending w) (flag : w.nd.flags.directory = false) :
    Returns (finishLookup env .done)
      (fun status w' => status = .done ∧ Parked env view parent last pending w') w := by
  change Returns (completeWalk env >>= _) _ _
  unfold Returns
  rw [wp_bind]
  apply Returns.mono (completeWalk_plain plain)
  rintro error w₁ ⟨rfl, nd, same⟩
  have still : Parked env view parent last pending w₁ :=
    parked.counted same (by rw [nd]) (by rw [nd]) (by rw [nd])
  have noFlag : w₁.nd.flags.directory = false := by
    rw [nd]
    exact flag
  change wp _ _ (getNd >>= _) _ _
  rw [wp_bind, wp_getNd, wp_bind, wp_getHeap, wp_ite]
  refine ⟨fun wanted => absurd wanted.1 (by rw [noFlag]; simp), fun _ => ?_⟩
  change wp _ _ (finishRoot .done) _ _
  rw [finishRoot, wp_bind, wp_getNd]
  cases w₁.nd.root with
  | none => exact ⟨rfl, still⟩
  | some root =>
      simp only [wp_bind, wp_getNd, wp_ite, wp_pure, pathPut, wp_modifyHeap, wp_modifyNd]
      exact ⟨fun _ => ⟨trivial, still⟩, fun _ => ⟨trivial, still.counted (.dput _ _) rfl rfl rfl⟩⟩

/-- A lookup of a parent that is a directory: its walk ends before the last name. -/
theorem pathLookupat_parks (plain : Plain env) (serves : Records env view)
    (chains : ∀ dir, env.chainLookup dir = true) (directory : env.kind parent = .directory)
    (ok : HeapOk w.heap) (cached : Cached env view w.heap) (free : w.heap.held = []) {root pwd : Ino}
    (stands : Stands env root pwd w.heap) {name : List UInt8} {last : Qstr}
    (isLast : (components name).getLast? = some last) (ordinary : ∀ q ∈ components name, Ordinary env q)
    (found : resolve env view.serve w.heap (env.start name) (parentNames name) = .ok parent) (fuel : Nat) :
    Returns (pathLookupat env (fuel + 1) none name lookupParent)
      (fun status w' => status = .done ∧
        Parked env view parent last (leftOver w.heap (env.start name) (parentNames name)) w') w := by
  unfold Returns
  rw [pathLookupat, wp_bind]
  apply Returns.mono
    (returns_shows (@pathInit_own env w name lookupParent rfl) (pathInit_ends ok free none _ _))
  rintro error w₁ ⟨⟨⟨rfl, place⟩, flags⟩, started⟩
  simp only [wp_bind, wp_update]
  generalize world : ({ w₁ with totalLinkCount := 0 } : World) = w₂
  have same : SameDentries w.heap w₂.heap := by
    rw [← world]
    exact started.shape.toSameDentries
  have flags₂ : w₂.nd.flags = { lookupParent with parent := true, jumped := true } := by
    rw [← world]
    exact flags
  have start : w₂.nd.path.dentry = env.start name := by
    rw [← world, Env.start, ← place]
  have here : At env view (.ok parent) (parentNames name) w₂ := by
    have positive : ∃ inode, w₂.heap.inode (env.start name) = some inode := by
      rw [same.inode, Env.start]
      split
      · exact ⟨root, stands.fsRoot⟩
      · exact ⟨pwd, stands.fsPwd⟩
    rw [← world] at positive start same ⊢
    refine ⟨started.quiet.transport rfl rfl rfl, cached.same same, started.inode rfl, ?_, ?_⟩
    · rw [start]
      exact positive
    · rw [start]
      exact (resolve_same same _ _).trans found
  clear world place started
  rw [relookup, wp_bind]
  obtain ⟨this, rest, split⟩ : ∃ this rest, components name = this :: rest := by
    cases names : components name with
    | nil =>
        rw [names] at isLast
        cases isLast
    | cons this rest => exact ⟨this, rest, rfl⟩
  have lastIs : (this :: rest).getLast (List.cons_ne_nil _ _) = last := by
    rw [split, List.getLast?_eq_some_getLast (List.cons_ne_nil _ _)] at isLast
    exact Option.some.inj isLast
  have due : w₂.due (parentNames name) = leftOver w.heap (env.start name) (parentNames name) := by
    rw [World.due, if_pos here.quiet.size, start, leftOver_same same]
  rw [← due]
  rw [parentNames, split] at here ⊢
  rw [split] at ordinary
  apply Returns.mono (linkPathWalk_parents plain serves chains directory this rest ordinary (.inl here)
    (by rw [flags₂]; rfl))
  rintro status w₃ ⟨rfl, before, flag, size⟩
  rw [lastIs] at before
  have parked := before.parked
  rw [size] at parked
  simp only [wp_ite, lookupParent]
  refine ⟨fun _ => ?_, fun whole => absurd trivial whole⟩
  exact finishLookup_parks plain parked (flag.trans (by rw [flags₂]; rfl))

/-- `filename_lookup` has nothing to do a second time. -/
theorem filenameLookup_returns {post : World → Prop} {fuel : Nat} {dfd : Option Nat} {name : List UInt8}
    {flags : LookupFlags}
    (looked : Returns (pathLookupat env fuel dfd name flags) (fun status w' => status = .done ∧ post w') w) :
    Returns (filenameLookup env fuel dfd name flags) (fun status w' => status = .done ∧ post w') w := by
  unfold Returns
  rw [filenameLookup, wp_bind]
  apply Returns.mono looked
  rintro status w' ⟨rfl, holds⟩
  exact ⟨rfl, holds⟩

/-! ### The caller's lock -/

theorem mutexLock_hangs {d : DentryId} {dir : Ino} (positive : w.heap.inode d = some dir)
    (held : dir ∈ w.heap.held) : (mutexLock d w).result = .error .deadlock := by
  apply (wp_run (mutexLock d) fun result _ => result = .error .deadlock).mp
  rw [mutexLock, wp_bind, wp_derefInode]
  constructor
  · intro other same
    cases positive.symm.trans same
    rw [wp_bind, wp_getHeap, wp_ite]
    exact ⟨fun _ => rfl, fun absent => absurd held absent⟩
  · intro missing
    cases positive.symm.trans missing

/-- A name is looked up: in the dcache, or on the server. -/
def Answered (serve : Lookup) (dir : Ino) (name : Name) (result : Except Errno DentryId) (h : Heap) : Prop :=
  match result with
  | .ok child => told serve dir name (h.inode child) ∧ h.type child ≠ .chainTemp
  | .error error => serve dir name = .error error ∧ error ≠ .ENOENT

/-- What stays when a name is looked up. -/
structure AfterName (env : Env) (dir : Ino) (w w' : World) : Prop where
  nd : w'.nd = w.nd
  typed : Typed env w'.heap
  held : w'.heap.held = w.heap.held
  place : w'.heap.inode w.nd.path.dentry = some dir

theorem lookupHash_answers (plain : Plain env) (serves : Records env ⟨serve, told serve, h⟩)
    (sound : Sound env ⟨serve, told serve, h⟩ w.heap) {dir : Ino} {name : Name}
    (positive : w.heap.inode w.nd.path.dentry = some dir) (directory : env.kind dir = .directory)
    (short : name.length ≤ env.namelen) :
    Returns (lookupHash env name w.nd.path.dentry)
      (fun result w' => Answered serve dir name result w'.heap ∧ AfterName env dir w w') w := by
  cases hashed : w.heap.hash w.nd.path.dentry name with
  | some child =>
      unfold Returns
      rw [lookupHash, wp_bind, wp_dcache]
      apply after_mono (lookupDcache_found plain sound.ok hashed)
      rintro result h' ⟨rfl, same⟩
      simp only [wp_bind, wp_observe, wp_pure]
      have means := sound.cached.knows _ _ _ _ hashed positive
      refine ⟨⟨?_, ?_⟩, rfl, sound.cached.typed.same same.toSameDentries, same.held, ?_⟩
      · rw [same.inode]
        exact means
      · rw [same.type]
        exact (sound.ok.hashed _ _ _ hashed).2.2.1
      · rw [same.inode]
        exact positive
  | none =>
      apply Returns.mono (lookupHash_serves plain serves w.nd.path.mnt sound positive directory hashed short)
      rintro result w' ⟨ends, nd, sound', held, still⟩
      refine ⟨?_, nd, sound'.cached.typed, held, still⟩
      cases result with
      | error error =>
          cases ends with
          | failed served other => exact ⟨served, other⟩
      | ok child =>
          cases ends with
          | found served isInode barren notTemp =>
              refine ⟨?_, notTemp⟩
              rw [isInode]
              exact served
          | missing served negative notTemp =>
              refine ⟨?_, notTemp⟩
              rw [negative]
              exact served

/-- The caller locks the parent and looks the last name up. -/
theorem lockedLookup_answers (plain : Plain env) (serves : Records env ⟨serve, told serve, h⟩)
    (directory : env.kind parent = .directory) {name : Name} (short : name.length ≤ env.namelen)
    (arrived : InParent env ⟨serve, told serve, h⟩ parent w) {α : Type}
    {f : Except Errno DentryId → Walk α} {post : α → World → Prop}
    (continues : ∀ result w', Answered serve parent name result w'.heap → w'.nd = w.nd → Typed env w'.heap →
      w'.heap.held = [parent] → w'.heap.inode w.nd.path.dentry = some parent → Returns (f result) post w') :
    Returns (mutexLock w.nd.path.dentry >>= fun _ => lookupHash env name w.nd.path.dentry >>= f) post w := by
  obtain ⟨sound, free, place⟩ := arrived
  unfold Returns
  rw [wp_bind]
  apply wp_mutexLock_free place free
  have locked : SameDentries w.heap { w.heap with held := [parent] } := ⟨rfl, rfl, rfl⟩
  rw [wp_bind]
  apply Returns.mono (lookupHash_answers (w := { w with heap := { w.heap with held := [parent] } }) plain serves
    ⟨sound.ok.sameDentries locked, sound.cached.same locked⟩ place directory short)
  rintro result w' ⟨answered, nd, typed, held, still⟩
  exact continues result w' answered nd typed held still

/-- What `kern_path_locked` is for: the last name, with the mutex of its directory held, or an error. -/
def Locks (serve : Lookup) (dir : Ino) (name : Name) (result : Except Errno DentryId) (w : World) : Prop :=
  match result with
  | .ok child => w.heap.held = [dir] ∧ told serve dir name (w.heap.inode child)
  | .error error => w.heap.held = [] ∧ serve dir name = .error error

/-- What `filename_create` is for: a free name, with the mutex of its directory held, or the answer why
    there is none. -/
def Creates (answer : Option Errno) (dir : Ino) (result : Except Errno DentryId) (w : World) : Prop :=
  match result with
  | .ok child => answer = none ∧ w.heap.held = [dir] ∧ w.heap.inode child = none
  | .error error => answer = some error ∧ w.heap.held = []

/-- A creation that fails lets the parent go. -/
theorem createFails_frees {nd : Nameidata} (held : w.heap.held = [parent])
    (place : w.heap.inode nd.path.dentry = some parent) (error : Errno) :
    Returns (createFails nd error)
      (fun result w' => result = .error error ∧ w'.heap.held = [] ∧ w'.nd = w.nd) w := by
  unfold Returns
  rw [createFails, wp_bind]
  apply wp_mutexUnlock_held place (by rw [held]; exact List.mem_singleton.mpr rfl)
  refine ⟨rfl, ?_, rfl⟩
  change w.heap.held.erase parent = []
  rw [held]
  exact List.erase_cons_head parent []

theorem createRefused_frees {nd : Nameidata} (held : w.heap.held = [parent])
    (place : w.heap.inode nd.path.dentry = some parent) (child : DentryId) (error : Errno) :
    Returns (createRefused nd child error)
      (fun result w' => result = .error error ∧ w'.heap.held = [] ∧ w'.nd = w.nd) w := by
  unfold Returns
  rw [createRefused, wp_bind, wp_modifyHeap]
  exact createFails_frees (w := { w with heap := w.heap.dput child }) held place error

theorem Typed.isNegative (typed : Typed env h) (plain : Plain env) {d : DentryId}
    (notTemp : h.type d ≠ .chainTemp) : h.dIsNegative d = true ↔ h.inode d = none := by
  constructor
  · intro negative
    cases found : h.inode d with
    | none => rfl
    | some inode =>
        rw [typed.negative plain found] at negative
        cases negative
  · intro missing
    rcases typed d with type | ⟨temp, -⟩
    · rw [missing] at type
      rw [Heap.dIsNegative, type]
      rfl
    · exact absurd temp notTemp

section Callers

variable {last : Qstr} {pending fuel : Nat} {dfd : Option Nat} {name : List UInt8}
  (parks : Returns (pathLookupat env fuel dfd name lookupParent)
    (fun status w' => status = .done ∧ Parked env ⟨serve, told serve, h⟩ parent last pending w') w)

include parks

theorem kernPathLocked_hangs (whole : dfd = none) (busy : pending ≠ 0) :
    (kernPathLocked env fuel name w).result = .error .deadlock := by
  subst whole
  rw [kernPathLocked]
  apply (filenameLookup_returns parks).stops
  rintro status w' ⟨rfl, parked⟩
  obtain ⟨dir, positive, held⟩ := parked.stuck busy
  have nd : Returns getNd (fun nd w₁ => nd = w'.nd ∧ w₁ = w') w' := ⟨rfl, rfl⟩
  apply nd.stops
  rintro nd w₁ ⟨rfl, rfl⟩
  rw [if_neg (not_not.mpr parked.type)]
  exact stops_bind _ (mutexLock_hangs positive (by rw [held]; exact List.mem_singleton.mpr rfl))

theorem filenameCreate_hangs (readOnly : MountId → Option Errno) (isDir : Bool) (busy : pending ≠ 0) :
    (filenameCreate env readOnly fuel dfd name isDir w).result = .error .deadlock := by
  rw [filenameCreate]
  apply (filenameLookup_returns parks).stops
  rintro status w' ⟨rfl, parked⟩
  obtain ⟨dir, positive, held⟩ := parked.stuck busy
  have nd : Returns getNd (fun nd w₁ => nd = w'.nd ∧ w₁ = w') w' := ⟨rfl, rfl⟩
  apply nd.stops
  rintro nd w₁ ⟨rfl, rfl⟩
  rw [if_neg (not_not.mpr parked.type)]
  have flags : Returns (modifyNd fun nd => { nd with flags := { nd.flags with parent := false } })
      (fun _ w₂ => w₂.heap = w₁.heap) w₁ := rfl
  apply flags.stops
  rintro _ w₂ heap
  apply stops_bind
  apply mutexLock_hangs
  · rw [heap]
    exact positive
  · rw [heap, held]
    exact List.mem_singleton.mpr rfl

theorem kernPathLocked_locks (plain : Plain env) (serves : Records env ⟨serve, told serve, h⟩)
    (directory : env.kind parent = .directory) (short : last.text.length ≤ env.namelen) (whole : dfd = none)
    (idle : pending = 0) : Returns (kernPathLocked env fuel name) (Locks serve parent last.text) w := by
  subst whole
  unfold Returns
  rw [kernPathLocked, wp_bind]
  apply Returns.mono (filenameLookup_returns parks)
  rintro status w' ⟨rfl, parked⟩
  change wp _ _ (getNd >>= _) _ _
  rw [wp_bind, wp_getNd, if_neg (not_not.mpr parked.type), parked.last]
  apply lockedLookup_answers plain serves directory short (parked.arrived idle)
  intro result w₁ answered nd typed held place
  cases result with
  | ok child => exact ⟨held, answered.1⟩
  | error error =>
      change wp _ _ (mutexUnlock _ >>= _) _ _
      rw [wp_bind]
      apply wp_mutexUnlock_held place (by rw [held]; exact List.mem_singleton.mpr rfl)
      refine ⟨?_, answered.1⟩
      change w₁.heap.held.erase parent = []
      rw [held]
      exact List.erase_cons_head parent []

theorem filenameCreate_creates (plain : Plain env) (serves : Records env ⟨serve, told serve, h⟩)
    (directory : env.kind parent = .directory) (short : last.text.length ≤ env.namelen)
    (readOnly : MountId → Option Errno) (isDir : Bool) (idle : pending = 0) :
    Returns (filenameCreate env readOnly fuel dfd name isDir)
      (fun result w' =>
        Creates (createAnswer serve (readOnly w'.nd.path.mnt) parent last isDir) parent result w') w := by
  unfold Returns
  rw [filenameCreate, wp_bind]
  apply Returns.mono (filenameLookup_returns parks)
  rintro status w' ⟨rfl, parked⟩
  change wp _ _ (getNd >>= _) _ _
  rw [wp_bind, wp_getNd, if_neg (not_not.mpr parked.type), wp_bind, wp_modifyNd, parked.last]
  generalize world : ({ w' with nd := _ } : World) = w₀
  have arrived : InParent env ⟨serve, told serve, h⟩ parent w₀ := by
    obtain ⟨sound, free, place⟩ := parked.arrived idle
    rw [← world]
    exact ⟨sound, free, place⟩
  have path : w'.nd.path = w₀.nd.path := by rw [← world]
  clear world
  rw [path]
  apply lockedLookup_answers plain serves directory short arrived
  intro result w₁ answered nd typed held place
  rw [← path] at place
  have fails : ∀ {x : Walk (Except Errno DentryId)} {error : Errno},
      createAnswer serve (readOnly w₁.nd.path.mnt) parent last isDir = some error →
      Returns x (fun result w₂ => result = .error error ∧ w₂.heap.held = [] ∧ w₂.nd = w₁.nd) w₁ →
      Returns x (fun result w₂ => Creates (createAnswer serve (readOnly w₂.nd.path.mnt) parent last isDir)
        parent result w₂) w₁ := by
    intro x error answers ends
    apply Returns.mono ends
    rintro result w₂ ⟨rfl, free, nd⟩
    refine ⟨?_, free⟩
    rw [nd]
    exact answers
  cases result with
  | error error =>
      obtain ⟨refused, other⟩ := answered
      refine fails ?_ (createFails_frees held place error)
      rw [createAnswer, refused]
      cases error with
      | ENOENT => exact absurd rfl other
      | _ => rfl
  | ok child =>
      obtain ⟨means, notTemp⟩ := answered
      have negative := typed.isNegative plain notTemp
      change wp _ _ (getHeap >>= _) _ _
      rw [wp_bind, wp_getHeap, wp_ite]
      constructor
      · intro positive
        refine fails ?_ (createRefused_frees held place child .EEXIST)
        cases found : w₁.heap.inode child with
        | none => exact absurd (negative.mpr found) positive
        | some inode =>
            rw [found] at means
            rw [createAnswer, means]
      · intro missing
        have free : w₁.heap.inode child = none := negative.mp (not_not.mp missing)
        rw [free] at means
        have answer : createAnswer serve (readOnly w₁.nd.path.mnt) parent last isDir =
            if ¬isDir ∧ last.slashAfter then some .ENOENT else readOnly w₁.nd.path.mnt := by
          rw [createAnswer, means]
        rw [wp_ite]
        constructor
        · intro slash
          exact fails (answer.trans (if_pos slash)) (createRefused_frees held place child .ENOENT)
        · intro plainName
          have mount : w₀.nd.path.mnt = w₁.nd.path.mnt := by rw [nd]
          rw [if_neg plainName] at answer
          rw [mount]
          cases writes : readOnly w₁.nd.path.mnt with
          | some error => exact fails (answer.trans writes) (createRefused_frees held place child error)
          | none => exact ⟨answer.trans writes, held, free⟩

end Callers

/-! ### All parents -/

/-- A caller comes to the lock of an existing parent, and waits for itself there exactly when the walk has
    left names in its chain; otherwise it has the parent locked and the answer of the server. -/
structure LocksOrHangs (env : Env) (serve : Lookup) (parent : Ino) (last : Qstr) (pending fuel : Nat)
    (name : List UInt8) (readOnly : MountId → Option Errno) (isDir : Bool) (w : World) : Prop where
  lockedHangs : (kernPathLocked env fuel name w).result = .error .deadlock ↔ pending ≠ 0
  createHangs : (filenameCreate env readOnly fuel none name isDir w).result = .error .deadlock ↔ pending ≠ 0
  locks : pending = 0 → Returns (kernPathLocked env fuel name) (Locks serve parent last.text) w
  creates : pending = 0 → Returns (filenameCreate env readOnly fuel none name isDir)
    (fun result w' => Creates (createAnswer serve (readOnly w'.nd.path.mnt) parent last isDir) parent result w')
    w

theorem hangs_iff {α : Type} {x : Walk α} {post : α → World → Prop} {pending : Nat}
    (stuck : pending ≠ 0 → (x w).result = .error .deadlock) (free : pending = 0 → Returns x post w) :
    (x w).result = .error .deadlock ↔ pending ≠ 0 := by
  refine ⟨?_, stuck⟩
  rintro hangs rfl
  obtain ⟨value, returned, -⟩ := returns_iff.mp (free rfl)
  rw [hangs] at returned
  cases returned

theorem rootHeap_agrees : Agrees fileTree rootHeap := by
  intro d name child dir found
  cases found

theorem filePath_ordinary : ∀ q ∈ components [97, slash, 98], Ordinary (Env.serving fileKind fileTree) q := by
  simp only [Ordinary]
  decide

end Nfs4Compound.Vfs
