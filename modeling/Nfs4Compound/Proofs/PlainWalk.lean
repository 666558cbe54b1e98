/-
Module: Nfs4Compound.Proofs.PlainWalk
Layer: Proofs
Purpose: On a tree of directories and regular files a walk comes to what its path means, whether it
  queues the names that are not cached and looks them up in compounds, or looks them up one by one.
Imports: Nfs4Compound.Vfs.Parents, Nfs4Compound.Proofs.ChainInvariant
Trusted boundary: none
Main exports: At, Waiting, walkStep_arrives, linkPathWalk_arrives, lookupLast_arrives
-/
import Nfs4Compound.Vfs.Parents
import Nfs4Compound.Proofs.ChainInvariant

namespace Nfs4Compound.Vfs

open Prog

variable {env : Env} {serve : Lookup} {h h' : Heap} {d : DentryId} {w : World}
  {target : Except Errno Ino} {name : Name} {rest : List Name}

/-- What a walk is compared with: the tree on the server, what the dcache may know of it, and the inodes
    from before the walk. -/
structure View where
  serve : Lookup
  known : Known
  base : Heap

variable {view : View}

/-- The server, and that what it says may be cached. -/
structure Records (env : Env) (view : View) : Prop extends Serves env view.serve where
  found : ∀ dir name inode, view.serve dir name = .ok inode → view.known dir name (some inode)
  missing : ∀ dir name, view.serve dir name = .error .ENOENT → view.known dir name none
  slots : ∀ t dir names, Sendable env names → fillsAnyway (env.chainRpc t dir names).status = true →
    KnownFrom view.known (env.chainRpc t dir names).slot 0 (some dir) names

/-- The dcache of a walk: typed, with nothing cached that may not be, and with all inodes from before. -/
structure Cached (env : Env) (view : View) (h : Heap) : Prop where
  typed : Typed env h
  knows : Knows view.known h
  kept : ∀ d inode, view.base.inode d = some inode → h.inode d = some inode

/-! ### Types -/

theorem Plain.type_cases (plain : Plain env) (inode : Option Ino) :
    dFlagsForInode env inode ≠ .symlink ∧ dFlagsForInode env inode ≠ .chainTemp := by
  cases inode with
  | none => exact ⟨by simp [dFlagsForInode], by simp [dFlagsForInode]⟩
  | some inode =>
      rcases plain.kinds inode with kind | kind
      · simp [dFlagsForInode, kind]
      · simp [dFlagsForInode, kind]

theorem Plain.type_directory (plain : Plain env) (inode : Ino) :
    dFlagsForInode env (some inode) = .directory ↔ env.kind inode = .directory := by
  rcases plain.kinds inode with kind | kind
  · simp [dFlagsForInode, kind]
  · simp [dFlagsForInode, kind]

theorem Typed.symlink (typed : Typed env h) (plain : Plain env) (d : DentryId) : h.dIsSymlink d = false := by
  rcases typed d with type | ⟨type, -⟩
  · have other := (plain.type_cases (h.inode d)).1
    rw [← type] at other
    simpa [Heap.dIsSymlink] using other
  · simp [Heap.dIsSymlink, type]

theorem Typed.negative (typed : Typed env h) (plain : Plain env) {inode : Ino}
    (found : h.inode d = some inode) :
    h.dIsNegative d = false := by
  rcases typed d with type | ⟨-, missing⟩
  · rw [found] at type
    rcases plain.kinds inode with kind | kind
    · simp [Heap.dIsNegative, type, dFlagsForInode, kind]
    · simp [Heap.dIsNegative, type, dFlagsForInode, kind]
  · rw [found] at missing
    cases missing

/-- A dentry can be looked in if and only if its inode is a directory. -/
theorem Typed.canLookup (typed : Typed env h) (plain : Plain env) :
    h.dCanLookup d = true ↔ ∃ inode, h.inode d = some inode ∧ env.kind inode = .directory := by
  rcases typed d with type | ⟨type, missing⟩
  · rw [Heap.dCanLookup, type]
    cases found : h.inode d with
    | none => simp [dFlagsForInode]
    | some inode => simp [plain.type_directory]
  · simp [Heap.dCanLookup, type, missing]

theorem Typed.same (typed : Typed env h) (same : SameDentries h h') : Typed env h' := by
  intro x
  rw [same.type, same.inode]
  exact typed x

theorem Typed.allocated {dir : DentryId} (typed : Typed env h) (allocated : Allocated dir name h h') :
    Typed env h' := by
  intro x
  by_cases new : x = h.next
  · subst new
    rw [Heap.type, Heap.inode, allocated.fresh]
    exact .inl rfl
  · have old : h'.dentry x = h.dentry x := by
      rw [allocated.dentry, Function.update_of_ne new]
    rw [Heap.type, Heap.inode, old]
    exact typed x

theorem Typed.setTemp (typed : Typed env h) (missing : h.inode d = none) :
    Typed env (h.dSetType d .chainTemp) := by
  intro x
  by_cases same : x = d
  · subst same
    refine .inr ⟨by simp [Heap.dSetType, Heap.type], ?_⟩
    simpa [Heap.dSetType, Heap.inode] using missing
  · simpa [Heap.dSetType, Heap.type, Heap.inode, Heap.setDentry_other _ _ _ _ same] using typed x

theorem Typed.instantiate (typed : Typed env h) (inode : Option Ino) :
    Typed env (dInstantiate env d inode h) := by
  intro x
  by_cases same : x = d
  · subst same
    rw [instantiate_type, instantiate_inode, if_pos rfl]
    exact .inl rfl
  · have kept : (dInstantiate env d inode h).dentry x = h.dentry x := by
      simp [dInstantiate, Heap.dRehash, Heap.setDentry_other _ _ _ _ same]
    rw [Heap.type, Heap.inode, kept]
    exact typed x

/-! ### What is cached -/

theorem Cached.same (cached : Cached env view h) (same : SameDentries h h') : Cached env view h' := by
  refine ⟨cached.typed.same same, ?_, ?_⟩
  · intro x n child dir found isDir
    rw [same.hash] at found
    rw [same.inode] at isDir ⊢
    exact cached.knows x n child dir found isDir
  · intro x inode before
    rw [same.inode]
    exact cached.kept x inode before

theorem Cached.allocated {dir : DentryId} (cached : Cached env view h) (ok : HeapOk h)
    (allocated : Allocated dir name h h') : Cached env view h' := by
  have old : ∀ x, x < h.next → h'.inode x = h.inode x := by
    intro x born
    rw [Heap.inode, allocated.old born]
    rfl
  refine ⟨cached.typed.allocated allocated, ?_, ?_⟩
  · intro x n child parent found isDir
    rw [allocated.hash] at found
    have born : x < h.next := by
      by_contra above
      rw [(ok.unborn x (Nat.le_of_not_lt above)).2 n] at found
      cases found
    rw [old x born] at isDir
    rw [old child (ok.hashed x n child found).2.2.2]
    exact cached.knows x n child parent found isDir
  · intro x inode before
    have still := cached.kept x inode before
    rw [old x (ok.born still)]
    exact still

theorem Cached.setTemp (cached : Cached env view h) (missing : h.inode d = none) :
    Cached env view (h.dSetType d .chainTemp) := by
  have inodes : ∀ x, (h.dSetType d .chainTemp).inode x = h.inode x := by
    intro x
    by_cases same : x = d
    · subst same
      simp [Heap.dSetType, Heap.inode]
    · simp [Heap.dSetType, Heap.inode, Heap.setDentry_other _ _ _ _ same]
  refine ⟨cached.typed.setTemp missing, ?_, ?_⟩
  · intro x n child dir found isDir
    rw [inodes] at isDir ⊢
    exact cached.knows x n child dir found isDir
  · intro x inode before
    rw [inodes]
    exact cached.kept x inode before

/-- A dentry that nothing is cached below is filled with what its name may be known to be. -/
theorem Cached.instantiate (cached : Cached env view h) (ok : HeapOk h) (negative : h.inode d = none)
    (elsewhere : h.parent d ≠ d) (barren : ∀ n, h.hash d n = none) {inode : Option Ino}
    (allowed : ∀ dir, h.inode (h.parent d) = some dir → view.known dir (h.dentry d).name inode) :
    Cached env view (dInstantiate env d inode h) := by
  refine ⟨cached.typed.instantiate inode, ?_, ?_⟩
  · intro x n child dir found isDir
    rw [instantiate_hash] at found
    rw [instantiate_inode] at isDir ⊢
    split at found
    · rename_i here
      cases found
      rw [if_neg (by rw [here.1]; exact elsewhere), here.1] at isDir
      rw [if_pos rfl, here.2]
      exact allowed dir isDir
    · rename_i other
      obtain ⟨parent, named, -⟩ := ok.hashed x n child found
      have apart : child ≠ d := by
        rintro rfl
        exact other ⟨parent.symm, named.symm⟩
      have above : x ≠ d := by
        rintro rfl
        rw [barren n] at found
        cases found
      rw [if_neg above] at isDir
      rw [if_neg apart]
      exact cached.knows x n child dir found isDir
  · intro x before isBefore
    have still := cached.kept x before isBefore
    have apart : x ≠ d := by
      rintro rfl
      rw [negative] at still
      cases still
    rw [instantiate_inode, if_neg apart]
    exact still

/-! ### The meaning of a path -/

theorem resolve_same (same : SameDentries h h') (d : DentryId) (names : List Name) :
    resolve env serve h' d names = resolve env serve h d names := by
  induction names generalizing d with
  | nil => rw [resolve, resolve, same.inode]
  | cons name rest inductionHypothesis =>
      simp only [resolve, same.inode, same.hash]
      cases h.inode d with
      | none => rfl
      | some inode =>
          simp only
          cases h.hash d name with
          | none => rfl
          | some child => simp only [inductionHypothesis child]

theorem leftOver_same (same : SameDentries h h') (d : DentryId) (names : List Name) :
    leftOver h' d names = leftOver h d names := by
  induction names generalizing d with
  | nil => rfl
  | cons name rest inductionHypothesis =>
      simp only [leftOver, same.hash]
      cases h.hash d name with
      | none => rfl
      | some child => exact inductionHypothesis child

theorem leftOver_barren (barren : ∀ n, h.hash d n = none) (names : List Name) :
    leftOver h d names = names.length % chainLimit := by
  cases names with
  | nil => rfl
  | cons name rest => simp only [leftOver, barren, List.length_cons]

/-- Below a dentry without cached names only the server can answer. -/
theorem resolve_barren (serves : Serves env serve) {inode : Ino} (found : h.inode d = some inode)
    (barren : ∀ n, h.hash d n = none) (names : List Name) :
    resolve env serve h d names = names.foldlM serve inode := by
  cases names with
  | nil => simp [resolve, found]; rfl
  | cons name rest =>
      simp only [resolve, found, barren]
      split
      · rfl
      · rename_i other
        rw [List.foldlM_cons, serves.files _ _ other]
        rfl

/-! ### The dcache -/

theorem followMount_plain (plain : Plain env) (depth : Nat) (path : Path) :
    followMount env depth path = pure path := by
  cases depth with
  | zero => rfl
  | succ depth =>
      rw [followMount, plain.unmounted]
      rfl

theorem returns_crossMounts (plain : Plain env) (d : DentryId) :
    Returns (crossMounts env d) (fun path w' => path = ⟨w.nd.path.mnt, d⟩ ∧ w' = w) w := by
  unfold Returns
  rw [crossMounts, wp_bind, wp_getNd, wp_bind, wp_dcache, followManaged, followMount_plain plain]
  simp [after_pure]

theorem dMaterialiseUnique_plain (plain : Plain env) (inode : Option Ino)
    (post : Materialised → Heap → Prop) :
    after (dMaterialiseUnique env d inode) post h ↔ post .null (dInstantiate env d inode h.ticked) := by
  rw [dMaterialiseUnique, after_bind, after_ask, plain.unaliased]
  rfl

/-- A name that is not cached gets a fresh dentry. -/
theorem lookupDcache_missing (plain : Plain env) (missing : h.hash d name = none) :
    after (lookupDcache env name d)
      (fun result h' => result = .ok (h.next, true) ∧ Allocated d name h.ticked h' ∧ h.tick ≤ h'.tick) h := by
  rw [lookupDcache, after_bind, after_dLookup, missing]
  simp only [lookupAlloc, dAlloc, after_bind, after_ask, plain.dentries, if_true, after_get, after_set,
    after_pure]
  exact ⟨rfl, ⟨rfl, rfl, rfl, rfl⟩, Nat.le_succ _⟩

/-- A cached name is accepted. -/
theorem lookupDcache_found (plain : Plain env) (ok : HeapOk h) {child : DentryId}
    (found : h.hash d name = some child) :
    after (lookupDcache env name d)
      (fun result h' => result = .ok (child, false) ∧ SameShape h h') h := by
  have notTemp : (h.dget child).dIsChainTemp child = false := by
    have other := (ok.hashed d name child found).2.2.1
    simpa [Heap.dIsChainTemp, Heap.type] using other
  rw [lookupDcache, after_bind, after_dLookup, found]
  simp only [after_bind, after_get, notTemp, plain.valid]
  exact ⟨rfl, (SameShape.dget h child).trans (.ticked _)⟩

/-! ### One component -/

/-- What a lookup on the server leaves: a fresh dentry with the inode that was found, or without one. -/
inductive ServedEnds (serve : Lookup) (dir : Ino) (name : Name) (mnt : MountId) :
    Except Errno Path → Heap → Prop where
  | found {child inode h'} (served : serve dir name = .ok inode) (isInode : h'.inode child = some inode)
      (barren : ∀ n, h'.hash child n = none) (notTemp : h'.type child ≠ .chainTemp) :
      ServedEnds serve dir name mnt (.ok ⟨mnt, child⟩) h'
  | missing {child h'} (served : serve dir name = .error .ENOENT) (negative : h'.inode child = none)
      (notTemp : h'.type child ≠ .chainTemp) : ServedEnds serve dir name mnt (.ok ⟨mnt, child⟩) h'
  | failed {error h'} (served : serve dir name = .error error) (other : error ≠ .ENOENT) :
      ServedEnds serve dir name mnt (.error error) h'

/-- What filling a dentry that nothing is cached below leaves. -/
structure Instantiated (env : Env) (view : View) (d : DentryId) (inode : Option Ino) (h h' : Heap) : Prop where
  ok : HeapOk h'
  cached : Cached env view h'
  held : h'.held = h.held
  filled : h'.inode d = inode
  type : h'.type d = dFlagsForInode env inode
  barren : ∀ n, h'.hash d n = none
  other : ∀ x, x ≠ d → h'.inode x = h.inode x

theorem instantiated (ok : HeapOk h) (cached : Cached env view h) (born : d < h.next)
    (parentBorn : h.parent d < h.next) (negative : h.inode d = none) (elsewhere : h.parent d ≠ d)
    (barren : ∀ n, h.hash d n = none) {inode : Option Ino}
    (allowed : ∀ dir, h.inode (h.parent d) = some dir → view.known dir (h.dentry d).name inode) :
    Instantiated env view d inode h (dInstantiate env d inode h) := by
  obtain ⟨filling, filled⟩ := filling_instantiate env ok born parentBorn inode
  refine ⟨filling.ok, cached.instantiate ok negative elsewhere barren allowed, filling.held, filled,
    instantiate_type inode, ?_, filling.inode⟩
  intro n
  rw [instantiate_hash, if_neg fun here => elsewhere here.1.symm]
  exact barren n

theorem Instantiated.notTemp (plain : Plain env) {inode : Option Ino}
    (filled : Instantiated env view d inode h h') : h'.type d ≠ .chainTemp := by
  rw [filled.type]
  exact (plain.type_cases inode).2

/-- A dentry that is about to be looked up in the directory `dir`. -/
structure Unfilled (dir : Ino) (name : Name) (d : DentryId) (h : Heap) : Prop where
  born : d < h.next
  parentBorn : h.parent d < h.next
  parent : h.inode (h.parent d) = some dir
  named : (h.dentry d).name = name
  negative : h.inode d = none
  elsewhere : h.parent d ≠ d
  barren : ∀ n, h.hash d n = none

/-- `lookup_real` of a fresh dentry asks the server. -/
theorem lookupReal_serves (plain : Plain env) (serves : Records env view) (mnt : MountId) {dir : Ino}
    (ok : HeapOk h) (cached : Cached env view h) (unfilled : Unfilled dir name d h)
    (short : name.length ≤ env.namelen) :
    after (lookupReal env dir d)
      (fun result h' => ServedEnds view.serve dir name mnt (result.map (Path.mk mnt)) h' ∧
        ∃ inode, Instantiated env view d inode h h' ∨ SameShape h h') h := by
  obtain ⟨born, parentBorn, parent, named, negative, elsewhere, barren⟩ := unfilled
  have ticked : SameShape h h.ticked.ticked.ticked := ⟨⟨rfl, rfl, rfl⟩, rfl⟩
  have fills : ∀ inode, view.known dir name inode →
      Instantiated env view d inode h (dInstantiate env d inode h.ticked.ticked.ticked) := by
    intro inode allowed
    have filled := instantiated (ok.sameShape ticked) (cached.same ticked.toSameDentries) born parentBorn
      negative elsewhere barren (by
        intro found isParent
        cases parent.symm.trans isParent
        change view.known dir (h.dentry d).name inode
        rw [named]
        exact allowed)
    exact ⟨filled.ok, filled.cached, filled.held, filled.filled, filled.type, filled.barren, filled.other⟩
  rw [lookupReal, plain.alive]
  simp only [Bool.false_eq_true, if_false, after_bind, nfsLookup, after_get]
  rw [if_neg (by rw [named]; exact Nat.not_lt.mpr short)]
  simp only [after_bind, after_ask, plain.handles, named, serves.single _ _ _ short]
  cases served : view.serve dir name with
  | ok inode =>
      simp only [singleReply]
      rw [dMaterialiseUnique_plain plain]
      have filled := fills (some inode) (serves.found dir name inode served)
      exact ⟨.found served filled.filled filled.barren (filled.notTemp plain), some inode, .inl filled⟩
  | error error =>
      simp only [singleReply]
      cases error with
      | ENOENT =>
          rw [dMaterialiseUnique_plain plain]
          have filled := fills none (serves.missing dir name served)
          exact ⟨.missing served filled.filled (filled.notTemp plain), none, .inl filled⟩
      | _ =>
          have put := (SameShape.ticked h).trans ((SameShape.ticked h.ticked).trans (.dput _ d))
          exact ⟨.failed served (by simp), none, .inr put⟩

/-- The fresh dentry of a name below `dir`. -/
structure FreshAt (env : Env) (view : View) (dir : DentryId) (name : Name) (h h' : Heap) : Prop where
  ok : HeapOk h'
  cached : Cached env view h'
  held : h'.held = h.held
  fresh : h'.dentry h.next = ⟨dir, name, none, .miss⟩
  born : h.next < h'.next
  barren : ∀ n, h'.hash h.next n = none
  old : ∀ x, x < h.next → h'.dentry x = h.dentry x
  hash : h'.hash = h.hash

theorem Allocated.freshAt {dir : DentryId} (ok : HeapOk h) (cached : Cached env view h)
    (allocated : Allocated dir name h.ticked h') : FreshAt env view dir name h h' := by
  have ticked : SameShape h h.ticked := .ticked h
  have okTicked := ok.sameShape ticked
  refine ⟨okTicked.allocated allocated, (cached.same ticked.toSameDentries).allocated okTicked allocated,
    allocated.held, allocated.fresh, ?_, ?_, fun x born => allocated.old born, allocated.hash⟩
  · rw [allocated.next]
    exact Nat.lt_succ_self _
  · intro n
    rw [allocated.hash]
    exact (ok.unborn _ (Nat.le_refl _)).2 n

/-! ### One component -/

theorem lookupFast_found (plain : Plain env) {child : DentryId}
    (found : w.heap.hash w.nd.path.dentry w.nd.last.text = some child) :
    Returns (lookupFast env)
      (fun result w' => result = .ok (some ⟨w.nd.path.mnt, child⟩) ∧ w'.nd = w.nd ∧
        SameShape w.heap w'.heap) w := by
  unfold Returns
  rw [lookupFast, wp_bind, wp_getNd, wp_bind, wp_dcache, after_dLookup, found]
  simp only [wp_bind, wp_dcache, after_ask, plain.valid, wp_observe]
  apply Returns.mono (returns_crossMounts plain child)
  rintro path w' ⟨rfl, rfl⟩
  exact ⟨rfl, rfl, (SameShape.dget _ _).trans (.ticked _)⟩

theorem lookupFast_missing (missing : w.heap.hash w.nd.path.dentry w.nd.last.text = none) :
    Returns (lookupFast env) (fun result w' => result = .ok none ∧ w' = w) w := by
  unfold Returns
  rw [lookupFast, wp_bind, wp_getNd, wp_bind, wp_dcache, after_dLookup, missing]
  exact ⟨rfl, rfl⟩

/-- A heap on which a walk can go on. -/
structure Sound (env : Env) (view : View) (h : Heap) : Prop where
  ok : HeapOk h
  cached : Cached env view h

/-- `__lookup_hash` of a name that is not cached. -/
theorem lookupHash_serves (plain : Plain env) (serves : Records env view) (mnt : MountId) {dir : Ino}
    (sound : Sound env view w.heap) (positive : w.heap.inode d = some dir)
    (directory : env.kind dir = .directory) (missing : w.heap.hash d name = none)
    (short : name.length ≤ env.namelen) :
    Returns (lookupHash env name d)
      (fun result w' => ServedEnds view.serve dir name mnt (result.map (Path.mk mnt)) w'.heap ∧
        w'.nd = w.nd ∧ Sound env view w'.heap ∧ w'.heap.held = w.heap.held ∧ w'.heap.inode d = some dir) w := by
  have born := sound.ok.born positive
  unfold Returns
  rw [lookupHash, wp_bind, wp_dcache]
  apply after_mono (lookupDcache_missing plain missing)
  rintro result h₁ ⟨rfl, allocated, -⟩
  have fresh := allocated.freshAt sound.ok sound.cached
  have still : h₁.inode d = some dir := by
    rw [Heap.inode, fresh.old d born]
    exact positive
  change wp _ _ (derefInode d >>= _) _ _
  rw [wp_bind, wp_derefInode]
  constructor
  · intro inode same
    cases still.symm.trans same
    rw [wp_ite]
    constructor
    · intro _
      have parent : h₁.parent w.heap.next = d := by rw [Heap.parent, fresh.fresh]
      have unfilled : Unfilled dir name w.heap.next h₁ := by
        refine ⟨fresh.born, ?_, ?_, ?_, ?_, ?_, fresh.barren⟩
        · rw [parent]
          exact Nat.lt_trans born fresh.born
        · rw [parent]
          exact still
        · rw [fresh.fresh]
        · rw [Heap.inode, fresh.fresh]
        · rw [parent]
          exact Nat.ne_of_lt born
      rw [wp_dcache]
      apply after_mono (lookupReal_serves plain serves mnt fresh.ok fresh.cached unfilled short)
      rintro result h₂ ⟨ends, filled, instantiated | same⟩
      · refine ⟨ends, rfl, ⟨instantiated.ok, instantiated.cached⟩, instantiated.held.trans fresh.held, ?_⟩
        rw [instantiated.other d (Nat.ne_of_lt born)]
        exact still
      · refine ⟨ends, rfl, ⟨fresh.ok.sameShape same, fresh.cached.same same.toSameDentries⟩,
          same.held.trans fresh.held, ?_⟩
        rw [same.inode]
        exact still
    · intro other
      exact absurd directory other
  · intro negative
    exact absurd (still.symm.trans negative) (Option.some_ne_none dir)

/-- Between two components: no chain is pending, and the names that are left mean `target` from here. -/
structure At (env : Env) (view : View) (target : Except Errno Ino) (rest : List Name) (w : World) :
    Prop where
  quiet : Quiet w
  cached : Cached env view w.heap
  inode : w.nd.inode = w.heap.inode w.nd.path.dentry
  place : ∃ inode, w.heap.inode w.nd.path.dentry = some inode
  means : resolve env view.serve w.heap w.nd.path.dentry rest = target

theorem At.sound (here : At env view target rest w) : Sound env view w.heap := ⟨here.quiet.ok, here.cached⟩

/-- The walk is in a directory. -/
def InDirectory (env : Env) (w : World) : Prop :=
  ∃ inode, w.heap.inode w.nd.path.dentry = some inode ∧ env.kind inode = .directory

theorem lookupSlow_serves (plain : Plain env) (serves : Records env view) {dir : Ino}
    (here : At env view target rest w) (positive : w.heap.inode w.nd.path.dentry = some dir)
    (directory : env.kind dir = .directory)
    (missing : w.heap.hash w.nd.path.dentry w.nd.last.text = none)
    (short : w.nd.last.text.length ≤ env.namelen) :
    Returns (lookupSlow env)
      (fun result w' => ServedEnds view.serve dir w.nd.last.text w.nd.path.mnt result w'.heap ∧
        w'.nd = w.nd ∧ Sound env view w'.heap ∧ w'.heap.held = []) w := by
  unfold Returns
  rw [lookupSlow, wp_bind, wp_getNd, wp_bind, wp_getHeap, wp_ite]
  constructor
  · intro other
    exact absurd here.inode other
  · intro _
    rw [wp_bind]
    apply wp_mutexLock_free positive here.quiet.held
    have locked : SameDentries w.heap { w.heap with held := [dir] } := ⟨rfl, rfl, rfl⟩
    rw [wp_bind]
    apply Returns.mono (lookupHash_serves (w := { w with heap := { w.heap with held := [dir] } }) plain serves
      w.nd.path.mnt ⟨here.quiet.ok.sameDentries locked, here.cached.same locked⟩ positive directory missing
      short)
    rintro result w₁ ⟨ends, nd, sound, held, still⟩
    rw [wp_bind]
    apply wp_mutexUnlock_held still (by rw [held]; exact List.mem_singleton.mpr rfl)
    have released : SameDentries w₁.heap { w₁.heap with held := w₁.heap.held.erase dir } := ⟨rfl, rfl, rfl⟩
    have free : w₁.heap.held.erase dir = [] := by
      rw [held]
      exact List.erase_cons_head dir []
    have soundReleased : Sound env view { w₁.heap with held := w₁.heap.held.erase dir } :=
      ⟨sound.ok.sameDentries released, sound.cached.same released⟩
    cases result with
    | error error =>
        cases ends with
        | failed served other => exact ⟨.failed served other, nd, soundReleased, free⟩
    | ok child =>
        simp only [wp_bind]
        apply Returns.mono (returns_crossMounts plain child)
        rintro path w₂ ⟨rfl, rfl⟩
        refine ⟨?_, nd, soundReleased, free⟩
        rw [nd]
        cases ends with
        | found served isInode barren notTemp => exact .found served isInode barren notTemp
        | missing served negative notTemp => exact .missing served negative notTemp

/-- A walk that has failed holds no mutex. -/
structure Rests (env : Env) (view : View) (w : World) : Prop where
  sound : Sound env view w.heap
  held : w.heap.held = []

theorem Rests.counted (rests : Rests env view w) (same : SameShape w.heap h) :
    Rests env view { w with heap := h } :=
  ⟨⟨rests.sound.ok.sameShape same, rests.sound.cached.same same.toSameDentries⟩, same.held.trans rests.held⟩

/-- What a component leaves, if `target` is what the names mean: the names that are left mean it, or it
    is the error. -/
def Reaches (there failed : World → Prop) (target : Except Errno Ino) (status : Status) (w : World) : Prop :=
  match status with
  | .done => there w
  | .fail error => target = .error error ∧ failed w
  | _ => False

theorem Reaches.imp {there there' failed : World → Prop} {status : Status}
    (reaches : Reaches there failed target status w) (implies : there w → there' w) :
    Reaches there' failed target status w := by
  cases status with
  | done => exact implies reaches
  | fail error => exact reaches
  | link path => exact reaches.elim
  | chainLink path => exact reaches.elim

/-- The walk steps to what was found, if it is something. -/
theorem stepInto_reaches (plain : Plain env) {path : Path} (follow : Bool) (sound : Sound env view w.heap)
    (held : w.heap.held = []) (size : w.nd.chainSize = 0) (list : w.nd.dchainList = [])
    (means : resolve env view.serve w.heap path.dentry rest = target) :
    Returns (stepInto path follow)
      (fun status w' => Reaches (At env view target rest) (Rests env view) target status w' ∧
        w'.nd.flags = w.nd.flags)
      w := by
  unfold Returns
  rw [stepInto, wp_bind, wp_getHeap, wp_ite]
  cases found : w.heap.inode path.dentry with
  | none =>
      refine ⟨fun _ => ?_, fun positive => absurd (.inl rfl) positive⟩
      simp only [pathToNameidata, terminateWalk, pathPut, wp_bind, wp_getNd, wp_modifyHeap, wp_modifyNd,
        wp_pure]
      have put : SameShape w.heap ((w.heap.dput w.nd.path.dentry).dput path.dentry) :=
        (SameShape.dput _ _).trans (.dput _ _)
      refine ⟨⟨?_, ⟨sound.ok.sameShape put, sound.cached.same put.toSameDentries⟩, held⟩, trivial⟩
      rw [← means]
      cases rest with
      | nil => simp [resolve, found]
      | cons name rest => simp [resolve, found]
  | some inode =>
      constructor
      · rintro (none | negative)
        · cases none
        · rw [sound.cached.typed.negative plain found] at negative
          cases negative
      · intro _
        rw [wp_ite]
        constructor
        · rintro ⟨symlink, -⟩
          rw [sound.cached.typed.symlink plain] at symlink
          cases symlink
        · intro _
          simp only [pathToNameidata, pathPut, wp_bind, wp_getNd, wp_modifyHeap, wp_modifyNd, wp_pure]
          have put : SameShape w.heap (w.heap.dput w.nd.path.dentry) := .dput _ _
          have cached := sound.cached.same put.toSameDentries
          refine ⟨⟨⟨sound.ok.sameShape put, held, size, list⟩, cached, ?_, ?_, ?_⟩, trivial⟩
          · exact (found.symm.trans (put.inode _).symm)
          · exact ⟨inode, found⟩
          · exact (resolve_same put.toSameDentries _ _).trans means

/-- The meaning of a name that is not cached is what the server says of it. -/
theorem resolve_missing {dir : Ino} (positive : h.inode d = some dir) (directory : env.kind dir = .directory)
    (missing : h.hash d name = none) :
    resolve env serve h d (name :: rest) = (name :: rest).foldlM serve dir := by
  simp [resolve, positive, directory, missing]

theorem resolve_cached {dir : Ino} {child : DentryId} (positive : h.inode d = some dir)
    (directory : env.kind dir = .directory) (found : h.hash d name = some child) :
    resolve env serve h d (name :: rest) = resolve env serve h child rest := by
  simp [resolve, positive, directory, found]

/-- One component by itself. -/
theorem walkComponent_reaches (plain : Plain env) (serves : Records env view) (follow : Bool)
    (here : At env view target (w.nd.last.text :: rest) w) (inDirectory : InDirectory env w)
    (norm : w.nd.lastType = .norm) (short : w.nd.last.text.length ≤ env.namelen) :
    Returns (walkComponent env follow)
      (fun status w' => Reaches (At env view target rest) (Rests env view) target status w' ∧
        w'.nd.flags = w.nd.flags)
      w := by
  obtain ⟨dir, positive, directory⟩ := inDirectory
  have means := here.means
  unfold Returns
  rw [walkComponent, wp_bind, wp_observe, wp_bind, wp_getNd, wp_ite]
  refine ⟨fun other => absurd norm other, fun _ => ?_⟩
  rw [wp_bind]
  cases cached : w.heap.hash w.nd.path.dentry w.nd.last.text with
  | some child =>
      apply Returns.mono (lookupFast_found plain cached)
      rintro result w₁ ⟨rfl, nd, same⟩
      rw [resolve_cached positive directory cached] at means
      apply Returns.mono (stepInto_reaches plain follow
        ⟨here.quiet.ok.sameShape same, here.cached.same same.toSameDentries⟩ (same.held.trans here.quiet.held)
        (by rw [nd]; exact here.quiet.size) (by rw [nd]; exact here.quiet.list)
        ((resolve_same same.toSameDentries _ _).trans means))
      rintro status w' ⟨reaches, flags⟩
      exact ⟨reaches, flags.trans (by rw [nd])⟩
  | none =>
      apply Returns.mono (lookupFast_missing cached)
      rintro result w₁ ⟨rfl, rfl⟩
      rw [resolve_missing positive directory cached] at means
      simp only [wp_bind]
      apply Returns.mono (lookupSlow_serves plain serves here positive directory cached short)
      rintro result w₂ ⟨ends, nd, sound, held⟩
      have steps : ∀ {path : Path}, resolve env view.serve w₂.heap path.dentry rest = target →
          Returns (stepInto path follow)
            (fun status w' => Reaches (At env view target rest) (Rests env view) target status w' ∧
              w'.nd.flags = w₁.nd.flags) w₂ := by
        intro path means
        apply Returns.mono (stepInto_reaches plain follow sound held (by rw [nd]; exact here.quiet.size)
          (by rw [nd]; exact here.quiet.list) means)
        rintro status w' ⟨reaches, flags⟩
        exact ⟨reaches, flags.trans (by rw [nd])⟩
      cases ends with
      | found served isInode barren notTemp =>
          apply steps
          rw [resolve_barren serves.toServes isInode barren, ← means, List.foldlM_cons, served]
          rfl
      | missing served negative notTemp =>
          apply steps
          rw [List.foldlM_cons, served] at means
          rw [← means]
          cases rest with
          | nil =>
              rw [resolve, negative]
              rfl
          | cons name rest =>
              rw [resolve, negative]
              rfl
      | failed served =>
          rw [List.foldlM_cons, served] at means
          simp only [terminateWalk, pathPut, wp_bind, wp_getNd, wp_modifyHeap, wp_pure]
          have put : SameShape w₂.heap (w₂.heap.dput w₂.nd.path.dentry) := .dput _ _
          refine ⟨⟨means.symm, ⟨sound.ok.sameShape put, sound.cached.same put.toSameDentries⟩, held⟩, ?_⟩
          rw [nd]

/-! ### Filling a chain -/

/-- What the filling loop makes of entries that nothing takes the place of. -/
structure FilledThrough (env : Env) (slot : Nat → Option Ino) (index : Nat)
    (previous : Option (DentryId × Option Ino)) (entries : List ChainDentry) (h : Heap)
    (ended : List ChainDentry × Filled) (h' : Heap) : Prop where
  same : ended.1 = entries
  nothing : entries = [] → ended.2 = .all previous ∧ h' = h
  last : ∀ e, entries.getLast? = some e →
    ended.2 = .all (some (e.dentry, slot (index + (entries.length - 1)))) ∧
      h'.inode e.dentry = slot (index + (entries.length - 1))
  hash : ∀ x, (∀ e ∈ entries, h.parent e.dentry ≠ x) → ∀ n, h'.hash x n = h.hash x n

theorem fillEntries_through (plain : Plain env) (slot : Nat → Option Ino) (index : Nat)
    (previous : Option (DentryId × Option Ino)) (entries : List ChainDentry) :
    after (fillEntries env slot index previous entries)
      (FilledThrough env slot index previous entries h) h := by
  induction entries generalizing index previous h with
  | nil => exact ⟨rfl, fun _ => ⟨rfl, rfl⟩, fun e none => (by cases none), fun _ _ _ => rfl⟩
  | cons entry rest inductionHypothesis =>
      rw [fillEntries, after_bind, dMaterialiseUnique_plain plain]
      have noLink : (dInstantiate env entry.dentry (slot index) h.ticked).dIsSymlink entry.dentry = false := by
        rw [Heap.dIsSymlink, instantiate_type]
        simpa using (plain.type_cases (slot index)).1
      simp only [after_bind, after_get, noLink, Bool.false_eq_true, if_false]
      apply after_mono (inductionHypothesis (index + 1) (some (entry.dentry, slot index)))
      intro ended h' through
      have place := fun x => (@instantiate_place env h.ticked entry.dentry (slot index) x).1
      change FilledThrough env slot index previous (entry :: rest) h (entry :: ended.1, ended.2) h'
      refine ⟨?_, fun empty => (by cases empty), ?_, ?_⟩
      · rw [through.same]
      · intro e last
        cases rest with
        | nil =>
            rw [List.getLast?_singleton] at last
            cases last
            obtain ⟨all, still⟩ := through.nothing rfl
            subst still
            exact ⟨all, by rw [instantiate_inode, if_pos rfl]; rfl⟩
        | cons next rest =>
            rw [List.getLast?_cons_cons] at last
            have behind := through.last e last
            have shift : index + 1 + ((next :: rest).length - 1) =
                index + ((entry :: next :: rest).length - 1) := by
              simp only [List.length_cons]
              omega
            rw [shift] at behind
            exact behind
      · intro x apart n
        rw [through.hash x _ n, instantiate_hash, if_neg]
        · rfl
        · exact fun here => apart entry List.mem_cons_self here.1.symm
        · intro e member
          rw [place]
          exact apart e (List.mem_cons_of_mem _ member)

/-- The dentries of a chain have the names of its entries. -/
def Named (h : Heap) (entries : List ChainDentry) : Prop :=
  ∀ e ∈ entries, (h.dentry e.dentry).name = e.name.text

theorem Named.same {entries : List ChainDentry} (named : Named h entries) (same : SameDentries h h') :
    Named h' entries := by
  intro e member
  rw [same.dentry]
  exact named e member

/-- The loop caches what the slots say: induction on the entries, each below the one before. -/
theorem fillEntries_cached (plain : Plain env) (slot : Nat → Option Ino) (index : Nat)
    (previous : Option (DentryId × Option Ino)) {parent : DentryId} {entries : List ChainDentry} (ok : HeapOk h)
    (cached : Cached env view h) (pending : Pending h parent entries) (parentBorn : parent < h.next)
    (barren : ∀ e ∈ entries, e.dentry < h.next ∧ ∀ n, h.hash e.dentry n = none)
    (named : Named h entries)
    (known : KnownFrom view.known slot index (h.inode parent) (entries.map (·.name.text))) :
    after (fillEntries env slot index previous entries) (fun _ h' => Cached env view h') h := by
  induction entries generalizing index previous parent h with
  | nil => exact cached
  | cons entry rest inductionHypothesis =>
      obtain ⟨born, empty⟩ := barren entry List.mem_cons_self
      obtain ⟨apart, distinct⟩ := List.nodup_cons.mp pending.distinct
      have elsewhere : parent ≠ entry.dentry := fun same => apart (by rw [same]; exact List.mem_cons_self)
      have below : h.parent entry.dentry = parent := pending.linked.1
      have ticked : SameShape h h.ticked := .ticked h
      have fills : Instantiated env view entry.dentry (slot index) h.ticked
          (dInstantiate env entry.dentry (slot index) h.ticked) := by
        apply instantiated (ok.sameShape ticked) (cached.same ticked.toSameDentries) born
        · rw [← below] at parentBorn
          exact parentBorn
        · exact pending.negative entry List.mem_cons_self
        · rw [← below] at elsewhere
          exact elsewhere
        · exact empty
        · intro dir isDir
          have isDir : h.inode (h.parent entry.dentry) = some dir := isDir
          rw [below] at isDir
          change view.known dir (h.dentry entry.dentry).name (slot index)
          rw [named entry List.mem_cons_self]
          exact known.1 dir isDir
      rw [fillEntries, after_bind, dMaterialiseUnique_plain plain]
      have noLink : (dInstantiate env entry.dentry (slot index) h.ticked).dIsSymlink entry.dentry = false := by
        rw [Heap.dIsSymlink, instantiate_type]
        simpa using (plain.type_cases (slot index)).1
      simp only [after_bind, after_get, noLink, Bool.false_eq_true, if_false]
      have step := @fillStep_instantiate env h entry.dentry (slot index)
      have below : ∀ e ∈ rest, e.dentry ≠ entry.dentry ∧ h.parent entry.dentry ≠ e.dentry := by
        intro e member
        have inRest : e.dentry ∈ rest.map (·.dentry) := List.mem_map_of_mem member
        refine ⟨?_, ?_⟩
        · rintro same
          rw [same] at inRest
          exact (List.nodup_cons.mp distinct).1 inRest
        · rintro same
          rw [below] at same
          rw [same] at apart
          exact apart (List.mem_cons_of_mem _ inRest)
      apply inductionHypothesis (index + 1) (some (entry.dentry, slot index)) fills.ok fills.cached
        (pending.tail step) born
      · intro e member
        obtain ⟨bornRest, emptyRest⟩ := barren e (List.mem_cons_of_mem _ member)
        refine ⟨bornRest, fun n => ?_⟩
        rw [instantiate_hash, if_neg fun here => (below e member).2 here.1.symm]
        exact emptyRest n
      · intro e member
        rw [(instantiate_place _ _).2]
        exact named e (List.mem_cons_of_mem _ member)
      · rw [instantiate_inode, if_pos rfl]
        exact known.2

/-- The parents of a chain stand before its last entry. -/
theorem TempChain.last_childless {parent : DentryId} {entries : List ChainDentry} {last : ChainDentry}
    (linked : TempChain h parent entries) (distinct : (parent :: entries.map (·.dentry)).Nodup)
    (isLast : entries.getLast? = some last) : ∀ e ∈ entries, h.parent e.dentry ≠ last.dentry := by
  induction entries generalizing parent with
  | nil => cases isLast
  | cons entry rest inductionHypothesis =>
      intro e member
      have inList : last.dentry ∈ (entry :: rest).map (·.dentry) :=
        List.mem_map_of_mem (List.mem_of_getLast? isLast)
      rcases List.mem_cons.mp member with rfl | behind
      · intro same
        rw [linked.1] at same
        rw [← same] at inList
        exact (List.nodup_cons.mp distinct).1 inList
      · cases rest with
        | nil => cases behind
        | cons next rest =>
            rw [List.getLast?_cons_cons] at isLast
            exact inductionHypothesis linked.2.2.2 (List.nodup_cons.mp distinct).2 isLast e behind

/-- A chain is pending: the names in it and those that are left mean `target` on the server. -/
structure Waiting (env : Env) (view : View) (target : Except Errno Ino) (rest : List Name) (w : World) :
    Prop where
  queued : Queued w
  cached : Cached env view w.heap
  named : Named w.heap w.nd.dchainList
  short : ∀ name ∈ w.nd.dchainList.map (·.name.text), name.length ≤ env.namelen
  limit : w.nd.dchainList.length ≤ chainLimit
  mode : chainable env w.nd.flags w.nd.inode = true
  place : ∃ dir, w.heap.inode w.nd.path.dentry = some dir ∧ env.kind dir = .directory ∧
    w.nd.inode = some dir ∧ (w.nd.dchainList.map (·.name.text) ++ rest).foldlM view.serve dir = target

theorem Waiting.sendable (waiting : Waiting env view target rest w) :
    Sendable env (w.nd.dchainList.map (·.name.text)) := by
  refine ⟨?_, ?_, waiting.short⟩
  · intro empty
    exact waiting.queued.nonempty (List.map_eq_nil_iff.mp empty)
  · rw [List.length_map]
    exact waiting.limit

/-- The slots of a chain are filled. -/
theorem nfsFillDchainList_fills (plain : Plain env) (queued : Queued w) (cached : Cached env view w.heap)
    (named : Named w.heap w.nd.dchainList) {slot : Nat → Option Ino}
    (known : KnownFrom view.known slot 0 (w.heap.inode w.nd.chainParent) (w.nd.dchainList.map (·.name.text))) :
    Returns (nfsFillDchainList env slot)
      (fun atSymlink w' => ∃ last, w.nd.dchainList.getLast? = some last ∧ atSymlink = false ∧
        w'.nd = { w.nd with
          path := { w.nd.path with dentry := last.dentry }
          inode := slot (w.nd.dchainList.length - 1) } ∧
        Sound env view w'.heap ∧ w'.heap.held = w.heap.held ∧
        w'.heap.inode last.dentry = slot (w.nd.dchainList.length - 1) ∧
        (∀ n, w'.heap.hash last.dentry n = none) ∧
        w'.heap.inode w.nd.chainParent = w.heap.inode w.nd.chainParent) w := by
  obtain ⟨inode, positive, held⟩ := queued.locked
  have absent : w.nd.chainParent ∉ w.nd.dchainList.map (·.dentry) :=
    (List.nodup_cons.mp queued.pending.distinct).1
  have stops := @fillEntries_stops env _ slot 0 none _ _ queued.ok queued.pending (queued.ok.born positive)
    fun e member => (queued.barren e member).1
  have through := @fillEntries_through env w.heap plain slot 0 none w.nd.dchainList
  have caches := fillEntries_cached plain slot 0 none queued.ok cached queued.pending (queued.ok.born positive)
    queued.barren named known
  obtain ⟨last, isLast⟩ : ∃ last, w.nd.dchainList.getLast? = some last :=
    ⟨_, List.getLast?_eq_some_getLast queued.nonempty⟩
  unfold Returns
  rw [nfsFillDchainList, wp_bind, wp_getNd, wp_bind, wp_dcache]
  have both : after (fillEntries env slot 0 none w.nd.dchainList)
      (fun ended h' => FilledThrough env slot 0 none w.nd.dchainList w.heap ended h' ∧
        FillKeeps w.nd.dchainList w.heap h' ∧ Cached env view h') w.heap :=
    ⟨through, stops.1, caches⟩
  apply after_mono both
  rintro ⟨entries, filled⟩ h' ⟨through, keeps, cached⟩
  obtain ⟨all, filledLast⟩ := through.last last isLast
  have same : entries = w.nd.dchainList := through.same
  change filled = _ at all
  subst same all
  rw [Nat.zero_add] at filledLast ⊢
  simp only [wp_bind, wp_modifyNd, wp_pure]
  refine ⟨last, isLast, trivial, rfl, ⟨keeps.ok, cached⟩, keeps.held, filledLast, ?_, keeps.inode _ absent⟩
  intro n
  rw [through.hash last.dentry (queued.pending.linked.last_childless queued.pending.distinct isLast) n]
  exact (queued.barren last (List.mem_of_getLast? isLast)).2 n

/-! ### Looking a chain up -/

/-- The parent of the chain is still locked. -/
structure StillLocked (env : Env) (view : View) (w w' : World) : Prop where
  sound : Sound env view w'.heap
  held : w'.heap.held = w.heap.held
  flags : w'.nd.flags = w.nd.flags
  parent : w'.nd.chainParent = w.nd.chainParent
  locked : w'.heap.inode w.nd.chainParent = w.heap.inode w.nd.chainParent

theorem StillLocked.later {w' w'' : World} (still : StillLocked env view w w')
    (same : SameShape w'.heap w''.heap) (flags : w''.nd.flags = w'.nd.flags)
    (parent : w''.nd.chainParent = w'.nd.chainParent) : StillLocked env view w w'' :=
  ⟨⟨still.sound.ok.sameShape same, still.sound.cached.same same.toSameDentries⟩, same.held.trans still.held,
    flags.trans still.flags, parent.trans still.parent, (same.inode _).trans still.locked⟩

/-- The walk stands on a dentry that nothing is cached below. -/
structure OnFresh (env : Env) (view : View) (target : Except Errno Ino) (rest : List Name) (w : World) :
    Prop where
  inode : w.nd.inode = w.heap.inode w.nd.path.dentry
  barren : ∀ n, w.heap.hash w.nd.path.dentry n = none
  means : ∃ inode, w.heap.inode w.nd.path.dentry = some inode ∧ rest.foldlM view.serve inode = target

theorem nfsChainLookup_reaches (plain : Plain env) (serves : Records env view)
    (waiting : Waiting env view target rest w) :
    Returns (nfsChainLookup env)
      (fun status w' => Reaches (OnFresh env view target rest) (fun _ => True) target status w' ∧
        StillLocked env view w w')
      w := by
  obtain ⟨dir, positive, directory, inodeIs, means⟩ := waiting.place
  have queued := waiting.queued
  have ticked : SameShape w.heap w.heap.ticked.ticked := ⟨⟨rfl, rfl, rfl⟩, rfl⟩
  have asked : StillLocked env view w { w with heap := w.heap.ticked.ticked } :=
    ⟨⟨queued.ok.sameShape ticked, waiting.cached.same ticked.toSameDentries⟩, rfl, rfl, rfl, rfl⟩
  unfold Returns
  rw [nfsChainLookup, wp_bind, wp_getNd, wp_bind, wp_derefInode]
  refine ⟨fun inode same => ?_, fun negative => absurd (positive.symm.trans negative) (Option.some_ne_none dir)⟩
  cases positive.symm.trans same
  rw [wp_bind, wp_dcache, after_ask, plain.handles]
  simp only [wp_bind, wp_dcache, after_ask, wp_observe]
  have sendable := waiting.sendable
  have status := serves.status w.heap.ticked.tick dir _ sendable
  have slots := fun k inode => serves.slot w.heap.ticked.tick dir _ k inode sendable
  have allowed := serves.slots w.heap.ticked.tick dir _ sendable
  generalize env.chainRpc w.heap.ticked.tick dir (w.nd.dchainList.map (·.name.text)) = reply
    at status slots allowed ⊢
  rw [List.foldlM_append] at means
  rw [wp_ite]
  constructor
  · intro fills
    have known := allowed fills
    rw [← positive, queued.place] at known
    rw [wp_bind]
    apply Returns.mono (nfsFillDchainList_fills plain (queued.counted ticked)
      (waiting.cached.same ticked.toSameDentries) (waiting.named.same ticked.toSameDentries) known)
    rintro atSymlink w' ⟨last, isLast, rfl, nd, sound, held, filled, barren, locked⟩
    have put : SameShape w'.heap (w'.heap.dput w.nd.path.dentry) := .dput _ _
    have still : StillLocked env view w { w' with heap := w'.heap.dput w.nd.path.dentry } :=
      StillLocked.later ⟨sound, held, by rw [nd], by rw [nd], locked⟩ put rfl rfl
    simp only [wp_bind, wp_modifyHeap, Bool.false_eq_true, if_false, wp_pure]
    refine ⟨?_, still⟩
    cases served : (w.nd.dchainList.map (·.name.text)).foldlM view.serve dir with
    | error error =>
        rw [served] at status means
        rw [status]
        exact ⟨means.symm, trivial⟩
    | ok inode =>
        rw [served] at status means
        rw [status]
        have landed : reply.slot (w.nd.dchainList.length - 1) = some inode := by
          have whole : (w.nd.dchainList.map (·.name.text)).take (w.nd.dchainList.length - 1 + 1) =
              w.nd.dchainList.map (·.name.text) := by
            rw [Nat.sub_add_cancel (List.length_pos_iff.mpr queued.nonempty)]
            exact List.take_of_length_le (Nat.le_of_eq (List.length_map _))
          apply slots
          · rw [List.length_map]
            exact Nat.sub_lt (List.length_pos_iff.mpr queued.nonempty) Nat.one_pos
          · rw [whole, served]
        have here : w'.nd.path.dentry = last.dentry := by rw [nd]
        refine ⟨?_, ?_, inode, ?_, means⟩
        · change w'.nd.inode = w'.heap.inode w'.nd.path.dentry
          rw [here, filled, nd]
        · change ∀ n, w'.heap.hash w'.nd.path.dentry n = none
          rw [here]
          exact barren
        · change w'.heap.inode w'.nd.path.dentry = some inode
          rw [here, filled]
          exact landed
  · intro refused
    have put : SameShape w.heap.ticked.ticked (w.heap.ticked.ticked.dput w.nd.path.dentry) := .dput _ _
    have still : StillLocked env view w { w with heap := w.heap.ticked.ticked.dput w.nd.path.dentry } :=
      asked.later put rfl rfl
    simp only [wp_bind, wp_modifyHeap, wp_pure]
    refine ⟨?_, still⟩
    cases served : (w.nd.dchainList.map (·.name.text)).foldlM view.serve dir with
    | error error =>
        rw [served] at status means
        rw [status]
        exact ⟨means.symm, trivial⟩
    | ok inode =>
        rw [served] at status
        rw [status] at refused
        exact absurd rfl refused

/-- The list is freed and the parent of the chain unlocked. -/
theorem StillLocked.released {w' : World} {post : Unit → World → Prop} (locked : Locked w)
    (still : StillLocked env view w w') (size : w'.nd.chainSize = 0) (list : w'.nd.dchainList = [])
    (continues : ∀ h', SameDentries w'.heap h' → Quiet { w' with heap := h' } → Sound env view h' →
      post () { w' with heap := h' }) :
    Returns (mutexUnlock w'.nd.chainParent) post w' := by
  obtain ⟨inode, positive, held⟩ := locked.locked
  have holds : w'.heap.held = [inode] := still.held.trans held
  have released : SameDentries w'.heap { w'.heap with held := w'.heap.held.erase inode } := ⟨rfl, rfl, rfl⟩
  have free : w'.heap.held.erase inode = [] := by
    rw [holds]
    exact List.erase_cons_head inode []
  apply wp_mutexUnlock_held
  · rw [still.parent]
    exact still.locked.trans positive
  · rw [holds]
    exact List.mem_singleton.mpr rfl
  · exact continues _ released ⟨still.sound.ok.sameDentries released, free, size, list⟩
      ⟨still.sound.ok.sameDentries released, still.sound.cached.same released⟩

theorem chainLookup_reaches (plain : Plain env) (serves : Records env view)
    (waiting : Waiting env view target rest w) :
    Returns (chainLookup env)
      (fun status w' => Reaches (At env view target rest) (Rests env view) target status w' ∧
        w'.nd.flags = w.nd.flags ∧ (status = .done → ∀ n, w'.heap.hash w'.nd.path.dentry n = none))
      w := by
  obtain ⟨dir, positive, directory, inodeIs, means⟩ := waiting.place
  have queued := waiting.queued
  have method : env.chainLookup dir = true := by
    have mode := waiting.mode
    rw [inodeIs, chainable, Bool.and_eq_true] at mode
    exact mode.1
  unfold Returns
  rw [chainLookup, wp_bind, chainLookupBody, wp_bind, wp_getNd, inodeIs]
  simp only [method, if_true, wp_bind, wp_observe, wp_pure]
  apply Returns.mono (nfsChainLookup_reaches plain serves waiting)
  rintro status w₁ ⟨reaches, still⟩
  cases status with
  | link path => exact reaches.elim
  | chainLink path => exact reaches.elim
  | fail error =>
      simp only [wp_bind]
      apply wp_freeDchainList
      intro h₂ last same
      simp only [terminateWalk, pathPut, wp_bind, wp_getNd, wp_modifyHeap]
      have put := same.trans (SameShape.dput h₂ w₁.nd.path.dentry)
      apply StillLocked.released queued.toLocked
      · exact still.later put rfl rfl
      · rfl
      · rfl
      · intro h₃ released quiet sound
        exact ⟨⟨reaches.1, sound, quiet.held⟩, still.flags, fun done => by cases done⟩
  | done =>
      simp only [wp_bind]
      apply wp_freeDchainList
      intro h₂ last same
      simp only [wp_getNd]
      apply StillLocked.released queued.toLocked
      · exact still.later same rfl rfl
      · rfl
      · rfl
      · intro h₃ released quiet sound
        have freed : SameDentries w₁.heap h₃ := same.toSameDentries.trans released
        obtain ⟨inode, positive, means⟩ := reaches.means
        refine ⟨⟨quiet, sound.cached, ?_, ⟨inode, (freed.inode _).trans positive⟩, ?_⟩, still.flags, ?_⟩
        · exact reaches.inode.trans (freed.inode _).symm
        · have meant := resolve_barren serves.toServes positive reaches.barren rest
          exact (resolve_same freed _ _).trans (meant.trans means)
        · intro _ n
          exact (congrFun (congrFun freed.hash _) n).trans (reaches.barren n)

/-! ### One component of a chain -/

/-- Between two components, with or without a chain. -/
def Midway (env : Env) (view : View) (target : Except Errno Ino) (rest : List Name) (w : World) : Prop :=
  At env view target rest w ∨
    Waiting env view target rest w ∧ w.nd.chainSize < chainLimit

/-- The base of a chain: the walk is in a directory with chain lookups and holds its mutex, and the names
    in the chain, if there are any, come before the next one. -/
structure Opened (env : Env) (view : View) (target : Except Errno Ino) (names : List Name) (w : World) :
    Prop where
  locked : Locked w
  cached : Cached env view w.heap
  named : Named w.heap w.nd.dchainList
  short : ∀ name ∈ w.nd.dchainList.map (·.name.text), name.length ≤ env.namelen
  limit : w.nd.dchainList.length < chainLimit
  mode : chainable env w.nd.flags w.nd.inode = true
  place : ∃ dir, w.heap.inode w.nd.path.dentry = some dir ∧ env.kind dir = .directory ∧
    w.nd.inode = some dir ∧ (w.nd.dchainList.map (·.name.text) ++ names).foldlM view.serve dir = target

/-- A name that is not cached is queued, and the chain looked up if it is full. -/
theorem chainQueue_reaches (plain : Plain env) (serves : Records env view)
    (opened : Opened env view target (w.nd.last.text :: rest) w)
    (short : w.nd.last.text.length ≤ env.namelen) {h₁ : Heap}
    (allocated : Allocated (lastDentry w) w.nd.last.text w.heap.ticked h₁) (tick : w.heap.tick ≤ h₁.tick) :
    Returns (chainQueue env w.heap.next)
      (fun status w' => Reaches (Midway env view target rest) (Rests env view) target status w' ∧
        w'.nd.flags = w.nd.flags ∧
        (status = .done → ∀ names, w'.due names = (w.nd.chainSize + 1 + names.length) % chainLimit))
      { w with heap := h₁ } := by
  obtain ⟨dir, positive, directory, inodeIs, means⟩ := opened.place
  have extended := opened.locked.extended (SameShape.ticked w.heap).trimmed allocated tick
  have fresh := allocated.freshAt opened.locked.ok opened.cached
  have negative : h₁.ticked.inode w.heap.next = none := by
    change h₁.inode w.heap.next = none
    rw [Heap.inode, fresh.fresh]
  have named : Named (h₁.ticked.dSetType w.heap.next .chainTemp)
      (w.nd.dchainList ++ [⟨w.heap.next, w.nd.last⟩]) := by
    intro e member
    rcases List.mem_append.mp member with before | new
    · have born := (opened.locked.barren e before).1
      rw [Heap.dSetType, Heap.setDentry_other _ _ _ _ (Nat.ne_of_lt born)]
      change (h₁.dentry e.dentry).name = e.name.text
      rw [fresh.old _ born]
      exact opened.named e before
    · cases List.mem_singleton.mp new
      rw [Heap.dSetType, Heap.setDentry_self]
      change (h₁.dentry w.heap.next).name = w.nd.last.text
      rw [fresh.fresh]
  have waiting : Waiting env view target rest { w with
      heap := h₁.ticked.dSetType w.heap.next .chainTemp
      nd := { w.nd with
        dchainList := w.nd.dchainList ++ [⟨w.heap.next, w.nd.last⟩]
        chainSize := w.nd.chainSize + 1 } } := by
    refine ⟨extended.queued, (fresh.cached.same (SameShape.ticked h₁).toSameDentries).setTemp negative,
      named, ?_, ?_, opened.mode, dir, extended.grows.inode _ _ positive, directory, inodeIs, ?_⟩
    · intro name member
      rw [List.map_append, List.mem_append] at member
      rcases member with before | new
      · exact opened.short name before
      · rw [List.mem_singleton.mp new]
        exact short
    · change (w.nd.dchainList ++ [ChainDentry.mk w.heap.next w.nd.last]).length ≤ chainLimit
      rw [List.length_append, List.length_singleton]
      exact opened.limit
    · simp only [List.map_append, List.map_cons, List.map_nil, List.append_assoc]
      exact means
  unfold Returns
  rw [chainQueue, wp_bind, wp_observe, wp_bind, wp_dcache, after_ask, plain.entries]
  simp only [if_true, wp_bind, wp_modifyHeap, wp_modifyNd, wp_getNd, wp_ite, wp_observe]
  constructor
  · intro full
    apply Returns.mono (chainLookup_reaches plain serves waiting)
    rintro status w' ⟨reaches, flags, barren⟩
    refine ⟨reaches.imp .inl, flags, ?_⟩
    rintro rfl names
    have here : At env view target rest w' := reaches
    have size : w.nd.chainSize + 1 = chainLimit := by
      have few := opened.limit
      rw [← opened.locked.size] at few
      exact Nat.le_antisymm few full
    rw [World.due, if_pos here.quiet.size, leftOver_barren (barren rfl), size, Nat.add_mod_left]
  · intro notFull
    exact ⟨.inr ⟨waiting, Nat.lt_of_not_le notFull⟩, rfl, fun _ names => if_neg (Nat.succ_ne_zero _)⟩

/-- A cached dentry takes the walk further. -/
theorem chainHit_reaches (plain : Plain env) (follow : Bool) {child : DentryId}
    (locked : Locked w) (cached : Cached env view w.heap)
    (means : resolve env view.serve w.heap child rest = target) :
    Returns (chainHit env child follow)
      (fun status w' => Reaches (At env view target rest) (Rests env view) target status w' ∧
        w'.nd.flags = w.nd.flags ∧
        (status = .done → ∀ names, w'.due names = leftOver w.heap child names))
      w := by
  obtain ⟨inode, positive, held⟩ := locked.locked
  unfold Returns
  rw [chainHit, wp_bind, chainPath, wp_bind, wp_getNd, plain.unmounted]
  simp only [Bool.false_eq_true, if_false, wp_pure, wp_bind, wp_getHeap, cached.typed.symlink plain, false_and,
    pathToNameidata, pathPut, wp_getNd, wp_modifyHeap, wp_modifyNd]
  apply wp_freeDchainList
  intro h₂ last same
  have put : SameShape w.heap h₂ := (SameShape.dput w.heap w.nd.path.dentry).trans same
  apply StillLocked.released locked
  · exact ⟨⟨locked.ok.sameShape put, cached.same put.toSameDentries⟩, put.held, rfl, rfl, put.inode _⟩
  · rfl
  · rfl
  · intro h₃ released quiet sound
    have freed : SameDentries w.heap h₃ := put.toSameDentries.trans released
    change Returns (if w.heap.inode child = none then _ else _) _ _
    unfold Returns
    rw [wp_ite]
    constructor
    · intro negative
      simp only [terminateWalk, pathPut, wp_bind, wp_getNd, wp_modifyHeap, wp_pure]
      have put : SameShape h₃ (h₃.dput child) := .dput _ _
      refine ⟨⟨?_, ⟨sound.ok.sameShape put, sound.cached.same put.toSameDentries⟩, quiet.held⟩, trivial,
        fun done => by cases done⟩
      rw [← means]
      cases rest with
      | nil => rw [resolve, negative]
      | cons name rest => rw [resolve, negative]
    · intro found
      obtain ⟨inode, found⟩ := Option.ne_none_iff_exists'.mp found
      refine ⟨⟨quiet, sound.cached, ?_, ⟨inode, (freed.inode _).trans found⟩, ?_⟩, rfl, ?_⟩
      · exact (freed.inode child).symm
      · exact (resolve_same freed _ _).trans means
      · intro _ names
        exact (if_pos quiet.size).trans (leftOver_same freed child names)

/-- A walk that starts a chain takes the mutex of the directory it is in. -/
theorem chainBase_opens {dir : Ino} (here : At env view target (name :: rest) w)
    (positive : w.heap.inode w.nd.path.dentry = some dir) :
    Returns chainBase
      (fun base w' => base = w.nd.path.dentry ∧ Locked w' ∧ w'.nd.dchainList = [] ∧
        w'.nd = { w.nd with chainParent := w.nd.path.dentry } ∧ SameDentries w.heap w'.heap) w := by
  unfold Returns
  rw [chainBase, wp_bind, wp_getNd, wp_ite]
  refine ⟨fun busy => absurd here.quiet.size busy, fun _ => ?_⟩
  rw [wp_bind, wp_modifyNd, wp_bind]
  have locked : SameDentries w.heap { w.heap with held := [dir] } := ⟨rfl, rfl, rfl⟩
  apply wp_mutexLock_free
  · exact positive
  · exact here.quiet.held
  · have empty : Pending { w.heap with held := [dir] } w.nd.path.dentry w.nd.dchainList := by
      rw [here.quiet.list]
      exact ⟨trivial, by simp, fun e member => by cases member⟩
    refine ⟨rfl, ⟨⟨here.quiet.ok.sameDentries locked, dir, positive, rfl⟩, ?_, rfl, empty, ?_⟩, here.quiet.list,
      rfl, locked⟩
    · change w.nd.chainSize = w.nd.dchainList.length
      rw [here.quiet.size, here.quiet.list]
      rfl
    · change ∀ e ∈ w.nd.dchainList, _
      rw [here.quiet.list]
      intro e member
      cases member

/-- The next name of a pending chain is looked up below the last one. -/
theorem chainBase_waits (waiting : Waiting env view target (name :: rest) w) :
    Returns chainBase (fun base w' => base = lastDentry w ∧ w' = w) w := by
  obtain ⟨last, isLast⟩ : ∃ last, w.nd.dchainList.getLast? = some last :=
    ⟨_, List.getLast?_eq_some_getLast waiting.queued.nonempty⟩
  unfold Returns
  rw [chainBase, wp_bind, wp_getNd, wp_ite]
  refine ⟨fun _ => ?_, fun idle => absurd (Nat.ne_of_gt waiting.queued.pos) idle⟩
  rw [isLast, lastDentry, isLast]
  exact ⟨rfl, rfl⟩

theorem walkChainName_reaches (plain : Plain env) (serves : Records env view) (follow : Bool)
    (midway : Midway env view target (w.nd.last.text :: rest) w) (inDirectory : InDirectory env w)
    (mode : chainable env w.nd.flags w.nd.inode = true) (short : w.nd.last.text.length ≤ env.namelen) :
    Returns (walkChainName env follow)
      (fun status w' => Reaches (Midway env view target rest) (Rests env view) target status w' ∧
        w'.nd.flags = w.nd.flags ∧
        (status = .done → ∀ names, w'.due names = w.due (w.nd.last.text :: names)))
      w := by
  obtain ⟨dir, positive, directory⟩ := inDirectory
  unfold Returns
  rw [walkChainName, wp_bind]
  rcases midway with here | ⟨waiting, limit⟩
  · apply Returns.mono (chainBase_opens here positive)
    rintro base w₁ ⟨rfl, locked, list, nd, same⟩
    have sound := here.cached.same same
    have means := (resolve_same same _ _).trans here.means
    have place : w₁.nd.path = w.nd.path := by rw [nd]
    have text : w₁.nd.last = w.nd.last := by rw [nd]
    have still : w₁.heap.inode w.nd.path.dentry = some dir := (same.inode _).trans positive
    rw [wp_bind, wp_getNd, wp_bind, wp_dcache]
    rw [text]
    cases hashed : w₁.heap.hash w.nd.path.dentry w.nd.last.text with
    | some child =>
        rw [resolve_cached still directory hashed] at means
        apply after_mono (lookupDcache_found plain locked.ok hashed)
        rintro result h' ⟨rfl, counted⟩
        simp only [wp_bind, wp_observe]
        apply Returns.mono (chainHit_reaches plain follow (locked.counted counted)
          (sound.same counted.toSameDentries) ((resolve_same counted.toSameDentries _ _).trans means))
        rintro status w' ⟨reaches, flags, due⟩
        refine ⟨reaches.imp .inl, flags.trans (by rw [nd]), ?_⟩
        intro done names
        rw [due done names, leftOver_same counted.toSameDentries, World.due, if_pos here.quiet.size]
        rw [same.hash] at hashed
        simp only [leftOver, hashed]
        exact leftOver_same same child names
    | none =>
        rw [resolve_missing still directory hashed] at means
        have named : Named w₁.heap w₁.nd.dchainList := by
          rw [list]
          intro e member
          cases member
        have opened : Opened env view target (w₁.nd.last.text :: rest) w₁ := by
          refine ⟨locked, sound, named, ?_, ?_, by rw [nd]; exact mode, dir, by rw [place]; exact still,
            directory, ?_, ?_⟩
          · rw [list]
            intro name member
            cases member
          · rw [list]
            exact Nat.lt_of_lt_of_le Nat.zero_lt_one (by decide)
          · rw [nd]
            exact here.inode.trans positive
          · rw [list, text]
            exact means
        have base : lastDentry w₁ = w.nd.path.dentry := by
          rw [lastDentry, list, place]
          rfl
        apply after_mono (lookupDcache_missing plain hashed)
        rintro result h' ⟨rfl, allocated, tick⟩
        rw [← base, ← text] at allocated
        apply Returns.mono (chainQueue_reaches plain serves opened (by rw [text]; exact short) allocated tick)
        rintro status w' ⟨reaches, flags, due⟩
        refine ⟨reaches, flags.trans (by rw [nd]), ?_⟩
        intro done names
        rw [same.hash] at hashed
        have size : w₁.nd.chainSize = 0 := by
          rw [nd]
          exact here.quiet.size
        rw [due done names, World.due, if_pos here.quiet.size, size]
        simp only [leftOver, hashed, Nat.zero_add, Nat.add_comm]
  · apply Returns.mono (chainBase_waits waiting)
    rintro base w₁ ⟨rfl, rfl⟩
    have opened : Opened env view target (w₁.nd.last.text :: rest) w₁ :=
      ⟨waiting.queued.toLocked, waiting.cached, waiting.named, waiting.short,
        by rw [← waiting.queued.size]; exact limit, waiting.mode, waiting.place⟩
    have missing : w₁.heap.hash (lastDentry w₁) w₁.nd.last.text = none := by
      rw [lastDentry, List.getLast?_eq_some_getLast waiting.queued.nonempty]
      exact (waiting.queued.barren _ (List.getLast_mem _)).2 _
    rw [wp_bind, wp_getNd, wp_bind, wp_dcache]
    apply after_mono (lookupDcache_missing plain missing)
    rintro result h' ⟨rfl, allocated, tick⟩
    apply Returns.mono (chainQueue_reaches plain serves opened short allocated tick)
    rintro status w' ⟨reaches, flags, due⟩
    refine ⟨reaches, flags, ?_⟩
    intro done names
    rw [due done names, World.due, if_neg (Nat.ne_of_gt waiting.queued.pos), List.length_cons]
    congr 1
    omega

theorem walkChain_reaches (plain : Plain env) (serves : Records env view) (follow : Bool)
    (midway : Midway env view target (w.nd.last.text :: rest) w) (inDirectory : InDirectory env w)
    (mode : chainable env w.nd.flags w.nd.inode = true) (norm : w.nd.lastType = .norm)
    (short : w.nd.last.text.length ≤ env.namelen) :
    Returns (walkChain env follow)
      (fun status w' => Reaches (Midway env view target rest) (Rests env view) target status w' ∧
        w'.nd.flags = w.nd.flags ∧
        (status = .done → ∀ names, w'.due names = w.due (w.nd.last.text :: names)))
      w := by
  unfold Returns
  rw [walkChain, wp_bind, wp_getNd]
  change wp _ _ (if _ then _ else _) _ _
  rw [wp_ite]
  refine ⟨fun other => absurd norm other, fun _ => ?_⟩
  rw [wp_bind]
  apply Returns.mono (walkChainName_reaches plain serves follow midway inDirectory mode short)
  rintro status w' ends
  rw [wp_bind, wp_observe, wp_pure]
  exact ends

/-- One component, by itself or as part of a chain. -/
theorem walkStep_reaches (plain : Plain env) (serves : Records env view)
    (midway : Midway env view target (w.nd.last.text :: rest) w) (inDirectory : InDirectory env w)
    (norm : w.nd.lastType = .norm) (short : w.nd.last.text.length ≤ env.namelen) :
    Returns (walkStep env)
      (fun status w' => Reaches (Midway env view target rest) (Rests env view) target status w' ∧
        w'.nd.flags = w.nd.flags ∧
        (chainable env w.nd.flags w.nd.inode = true → status = .done →
          ∀ names, w'.due names = w.due (w.nd.last.text :: names)))
      w := by
  unfold Returns
  rw [walkStep, wp_bind, wp_getNd, wp_ite]
  constructor
  · intro mode
    apply Returns.mono (walkChain_reaches plain serves true midway inDirectory mode norm short)
    rintro status w' ⟨reaches, flags, due⟩
    exact ⟨reaches, flags, fun _ => due⟩
  · intro single
    rcases midway with here | ⟨waiting, -⟩
    · apply Returns.mono (walkComponent_reaches plain serves true here inDirectory norm short)
      rintro status w' ⟨reaches, flags⟩
      exact ⟨reaches.imp .inl, flags, fun mode => absurd mode single⟩
    · exact absurd waiting.mode single

/-! ### The components of a path -/

theorem Midway.cached (midway : Midway env view target rest w) : Cached env view w.heap := by
  rcases midway with here | ⟨waiting, -⟩
  · exact here.cached
  · exact waiting.cached

theorem Midway.inode (midway : Midway env view target rest w) :
    w.nd.inode = w.heap.inode w.nd.path.dentry ∧ ∃ inode, w.heap.inode w.nd.path.dentry = some inode := by
  rcases midway with here | ⟨waiting, -⟩
  · exact ⟨here.inode, here.place⟩
  · obtain ⟨dir, positive, -, inodeIs, -⟩ := waiting.place
    exact ⟨inodeIs.trans positive.symm, dir, positive⟩

/-- The next component is named. -/
theorem Midway.withLast (midway : Midway env view target rest w) (this : Qstr) :
    Midway env view target rest { w with nd := w.nd.withLast this } := by
  rcases midway with here | ⟨waiting, limit⟩
  · exact .inl ⟨here.quiet.transport rfl rfl rfl, here.cached, here.inode, here.place, here.means⟩
  · exact .inr ⟨⟨waiting.queued.transport rfl rfl rfl rfl rfl, waiting.cached, waiting.named,
      waiting.short, waiting.limit, waiting.mode,
      waiting.place⟩, limit⟩

theorem At.flagged (here : At env view target rest w) (flags : LookupFlags) :
    At env view target rest { w with nd := { w.nd with flags := flags } } :=
  ⟨here.quiet.transport rfl rfl rfl, here.cached, here.inode, here.place, here.means⟩

theorem Midway.flagged (midway : Midway env view target rest w) (flags : LookupFlags)
    (automount : flags.automount = w.nd.flags.automount) :
    Midway env view target rest { w with nd := { w.nd with flags := flags } } := by
  rcases midway with here | ⟨waiting, limit⟩
  · exact .inl (here.flagged flags)
  · refine .inr ⟨⟨waiting.queued.transport rfl rfl rfl rfl rfl, waiting.cached, waiting.named,
      waiting.short, waiting.limit, ?_, waiting.place⟩, limit⟩
    have mode := waiting.mode
    obtain ⟨dir, -, -, inodeIs, -⟩ := waiting.place
    change chainable env flags w.nd.inode = true
    rw [inodeIs, chainable] at mode ⊢
    rw [automount]
    exact mode

/-- The walk fails where it cannot look anything up. -/
theorem Midway.blocked (plain : Plain env) (midway : Midway env view target (name :: rest) w)
    (blocked : w.heap.dCanLookup w.nd.path.dentry = false) : target = .error .ENOTDIR ∧ Rests env view w := by
  rcases midway with here | ⟨waiting, -⟩
  · obtain ⟨inode, positive⟩ := here.place
    have other : env.kind inode ≠ .directory := by
      intro directory
      have can := (here.cached.typed.canLookup plain).mpr ⟨inode, positive, directory⟩
      rw [blocked] at can
      cases can
    refine ⟨?_, here.sound, here.quiet.held⟩
    rw [← here.means]
    simp [resolve, positive, other]
  · obtain ⟨dir, positive, directory, -, -⟩ := waiting.place
    have can := (waiting.cached.typed.canLookup plain).mpr ⟨dir, positive, directory⟩
    rw [blocked] at can
    cases can

/-- Where the walk of a text ends: before its last component. -/
structure BeforeLast (env : Env) (view : View) (target : Except Errno Ino) (directory : Bool) (last : Qstr)
    (w : World) : Prop where
  midway : Midway env view target [last.text] w
  inDirectory : InDirectory env w
  last : w.nd.last = last
  type : w.nd.lastType = .norm
  flag : w.nd.flags.directory = directory

theorem linkPathWalk_reaches (plain : Plain env) (serves : Records env view) {nested : Path → Walk Status}
    (this : Qstr) (names : List Qstr) (ordinary : ∀ q ∈ this :: names, Ordinary env q)
    (midway : Midway env view target ((this :: names).map Qstr.text) w) (inDirectory : InDirectory env w) :
    Returns (linkPathWalk env nested (this :: names))
      (fun status w' => Reaches
        (BeforeLast env view target w.nd.flags.directory ((this :: names).getLast (List.cons_ne_nil _ _)))
        (Rests env view) target status w') w := by
  induction names generalizing this w with
  | nil =>
      exact ⟨midway.withLast this, inDirectory, rfl, (ordinary this List.mem_cons_self).1, rfl⟩
  | cons next rest inductionHypothesis =>
      obtain ⟨norm, short⟩ := ordinary this List.mem_cons_self
      unfold Returns
      rw [linkPathWalk, wp_bind, setLast, wp_modifyNd, wp_bind]
      have set := midway.withLast this
      apply Returns.mono (walkStep_reaches (w := { w with nd := w.nd.withLast this }) plain serves set
        inDirectory norm short)
      rintro status w₁ ⟨reaches, flags, -⟩
      have sameFlag : w₁.nd.flags.directory = w.nd.flags.directory := by
        rw [flags]
        rfl
      cases status with
      | link path => exact reaches.elim
      | chainLink path => exact reaches.elim
      | fail error => exact reaches
      | done =>
          have there : Midway env view target ((next :: rest).map Qstr.text) w₁ := reaches
          have goesOn : Returns (linkPathWalkOn env nested (next :: rest) .done)
              (fun status w' => Reaches
                (BeforeLast env view target w.nd.flags.directory
                  ((this :: next :: rest).getLast (List.cons_ne_nil _ _))) (Rests env view) target status w')
              w₁ := by
            unfold Returns
            rw [linkPathWalkOn, wp_bind, wp_getHeap, wp_bind, wp_getNd, wp_ite]
            constructor
            · intro can
              have more := inductionHypothesis next
                (fun q member => ordinary q (List.mem_cons_of_mem _ member)) there
                ((there.cached.typed.canLookup plain).mp can)
              rw [sameFlag] at more
              rw [List.getLast_cons (List.cons_ne_nil _ _)]
              exact more
            · intro cannot
              obtain ⟨failed, rests⟩ := there.blocked plain (Bool.eq_false_iff.mpr cannot)
              exact ⟨failed, rests.counted (.dput _ _)⟩
          exact goesOn

/-! ### The last component -/

/-- Where a lookup ends. -/
structure AtEnd (env : Env) (view : View) (target : Except Errno Ino) (directory : Bool) (w : World) :
    Prop where
  here : At env view target [] w
  flag : w.nd.flags.directory = directory

theorem lookupLast_reaches (plain : Plain env) (serves : Records env view) {directory : Bool} {last : Qstr}
    (before : BeforeLast env view target directory last w) (short : last.text.length ≤ env.namelen) :
    Returns (lookupLast env)
      (fun status w' =>
        Reaches (AtEnd env view target (directory || last.slashAfter)) (Rests env view) target status w')
      w := by
  unfold Returns
  rw [lookupLast, wp_bind, wp_modifyNd]
  generalize world : ({ w with nd := _ } : World) = w₀
  have ready : BeforeLast env view target (directory || last.slashAfter) last w₀ := by
    rw [← world]
    refine ⟨before.midway.flagged _ rfl, before.inDirectory, before.last, before.type, ?_⟩
    change (w.nd.flags.directory || decide (w.nd.lastType = .norm ∧ w.nd.last.slashAfter = true)) = _
    rw [before.flag, before.type, before.last]
    simp
  clear world before
  have text := ready.last
  have midway := ready.midway
  rw [← text] at midway
  rw [wp_bind, wp_getNd, wp_bind, wp_getHeap, wp_ite]
  constructor
  · intro mode
    rw [← midway.inode.1] at mode
    rw [wp_bind]
    apply Returns.mono (walkChain_reaches plain serves _ midway ready.inDirectory mode ready.type
      (by rw [text]; exact short))
    rintro status w₁ ⟨reaches, flags, -⟩
    have flag : w₁.nd.flags.directory = (directory || last.slashAfter) := by
      rw [flags]
      exact ready.flag
    cases status with
    | link path => exact reaches.elim
    | chainLink path => exact reaches.elim
    | fail error => exact reaches
    | done =>
        simp only [wp_bind, wp_getNd, wp_ite, wp_pure, wp_observe]
        rcases reaches with here | ⟨waiting, limit⟩
        · exact ⟨fun _ => ⟨here, flag⟩, fun busy => absurd here.quiet.size busy⟩
        · refine ⟨fun idle => absurd idle (Nat.ne_of_gt waiting.queued.pos), fun _ => ?_⟩
          apply Returns.mono (chainLookup_reaches plain serves waiting)
          rintro status w₂ ⟨reaches, flags, -⟩
          exact reaches.imp fun here => ⟨here, by rw [flags]; exact flag⟩
  · intro single
    rcases midway with here | ⟨waiting, -⟩
    · apply Returns.mono (walkComponent_reaches plain serves _ here ready.inDirectory ready.type
        (by rw [text]; exact short))
      rintro status w₁ ⟨reaches, flags⟩
      exact reaches.imp fun here => ⟨here, by rw [flags]; exact ready.flag⟩
    · have mode := waiting.mode
      obtain ⟨dir, positive, -, inodeIs, -⟩ := waiting.place
      rw [inodeIs, ← positive] at mode
      exact absurd mode single

/-- A path without components ends where it starts. -/
theorem lookupLast_root (here : At env view target [] w) (root : w.nd.lastType = .root) :
    Returns (lookupLast env)
      (fun status w' =>
        Reaches (AtEnd env view target w.nd.flags.directory) (Rests env view) target status w') w := by
  unfold Returns
  rw [lookupLast, wp_bind, wp_modifyNd]
  generalize world : ({ w with nd := _ } : World) = w₀
  have ready : AtEnd env view target w.nd.flags.directory w₀ ∧ w₀.nd.lastType = .root := by
    rw [← world]
    refine ⟨⟨here.flagged _, ?_⟩, root⟩
    change (w.nd.flags.directory || decide (w.nd.lastType = .norm ∧ w.nd.last.slashAfter = true)) = _
    rw [root]
    simp
  obtain ⟨ready, root⟩ := ready
  clear world here
  have idle : ¬w₀.nd.chainSize > 0 := by
    rw [ready.here.quiet.size]
    exact Nat.lt_irrefl 0
  rw [wp_bind, wp_getNd, wp_bind, wp_getHeap, wp_ite]
  constructor
  · intro _
    rw [wp_bind, walkChain, wp_bind, wp_getNd]
    change wp _ _ (if _ then _ else _) _ _
    rw [if_pos (by rw [root]; simp), wp_bind, walkChainDots, wp_bind, wp_getNd,
      if_neg fun both => idle both.1, if_neg fun both => idle both.1, root, handleDots, if_neg (by simp),
      wp_pure, wp_bind, wp_observe, wp_pure]
    simp only [wp_bind, wp_getNd, wp_ite, wp_pure]
    exact ⟨fun _ => ready, fun busy => absurd ready.here.quiet.size busy⟩
  · intro _
    rw [walkComponent, wp_bind, wp_observe, wp_bind, wp_getNd, if_pos (by rw [root]; simp), root, handleDots,
      if_neg (by simp), wp_pure]
    exact ready

end Nfs4Compound.Vfs
