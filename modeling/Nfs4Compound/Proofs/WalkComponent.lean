/-
Module: Nfs4Compound.Proofs.WalkComponent
Layer: Proofs
Purpose: The ways in which `walk_component` can end, for dots and for a name that is cached or is asked
  of the server, when no chain is pending; and what dots do to a pending chain.
Imports: Nfs4Compound.Proofs.WalkChain
Trusted boundary: none
Main exports: Wanders, Moved, Source, walkComponent_ends, walkChain_ends
-/
import Nfs4Compound.Proofs.WalkChain

namespace Nfs4Compound.Vfs

open Prog

variable {env : Env} {benign : Event → Prop} {h h' h'' : Heap} {d : DentryId} {w : World}

/-! ### Dots -/

/-- The walk went somewhere else, and the dentries and its chain are what they were. -/
structure Wanders (w w' : World) : Prop where
  shape : SameShape w.heap w'.heap
  tick : w.heap.tick ≤ w'.heap.tick
  size : w'.nd.chainSize = w.nd.chainSize
  list : w'.nd.dchainList = w.nd.dchainList
  flags : w'.nd.flags = w.nd.flags
  type : w'.nd.lastType = w.nd.lastType

theorem Wanders.trans {w' w'' : World} (first : Wanders w w') (second : Wanders w' w'') : Wanders w w'' :=
  ⟨first.shape.trans second.shape, Nat.le_trans first.tick second.tick, second.size.trans first.size,
    second.list.trans first.list, second.flags.trans first.flags, second.type.trans first.type⟩

theorem Wanders.flushed {w' : World} (quiet : Quiet w) (wanders : Wanders w w') : Flushed w w' :=
  ⟨⟨quiet.ok.sameShape wanders.shape, wanders.shape.held.trans quiet.held, wanders.size.trans quiet.size,
    wanders.list.trans quiet.list⟩, wanders.flags, wanders.shape.toSameDentries.grows wanders.tick⟩

theorem followUp_wanders : Shows benign (followUp env) (fun _ w' => Wanders w w') w := by
  unfold Shows
  simp only [followUp, wp_bind, wp_getNd, wp_ite, wp_pure, wp_modifyHeap, wp_modifyNd, pathPut]
  constructor
  · intro _
    exact ⟨.refl _, Nat.le_refl _, rfl, rfl, rfl, rfl⟩
  · intro _
    exact ⟨(SameShape.dget _ _).trans (.dput _ _), Nat.le_refl _, rfl, rfl, rfl, rfl⟩

/-- How dots end: with an error, or at a place whose inode is `nd->inode`. -/
def DotsEnd (w : World) (status : Status) (w' : World) : Prop :=
  Wanders w w' ∧ ((∃ error, status = .fail error) ∨ status = .done)

theorem followDotdotLoop_ends (depth : Nat) :
    Shows benign (followDotdotLoop env depth) (DotsEnd w) w := by
  induction depth generalizing w with
  | zero => exact ⟨by simp, by simp⟩
  | succ depth inductionHypothesis =>
      unfold Shows
      rw [followDotdotLoop, wp_bind, wp_getNd, wp_ite]
      constructor
      · intro _
        exact ⟨⟨.refl _, Nat.le_refl _, rfl, rfl, rfl, rfl⟩, .inr rfl⟩
      · intro _
        rw [wp_ite]
        constructor
        · intro _
          simp only [wp_bind, wp_getHeap, wp_modifyHeap, wp_modifyNd, wp_dcache, after_ask, wp_ite, wp_pure,
            terminateWalk, pathPut, wp_getNd]
          have shape : SameShape w.heap
              (((w.heap.dget (w.heap.parent w.nd.path.dentry)).dput w.nd.path.dentry).ticked) :=
            ((SameShape.dget _ _).trans (.dput _ _)).trans (.ticked _)
          constructor
          · intro _
            exact ⟨⟨shape, Nat.le_succ _, rfl, rfl, rfl, rfl⟩, .inr rfl⟩
          · intro _
            exact ⟨⟨shape.trans (.dput _ _), Nat.le_succ _, rfl, rfl, rfl, rfl⟩, .inl ⟨_, rfl⟩⟩
        · intro _
          rw [wp_bind]
          apply Shows.mono followUp_wanders
          intro up w' wanders
          rw [wp_ite]
          constructor
          · intro _
            apply Shows.mono inductionHypothesis
            rintro status w'' ⟨more, ended⟩
            exact ⟨wanders.trans more, ended⟩
          · intro _
            exact ⟨wanders, .inr rfl⟩

theorem setRoot_wanders : Shows benign (setRoot env) (fun _ w' => Wanders w w') w := by
  unfold Shows
  rw [setRoot, wp_bind, wp_getNd]
  cases w.nd.root with
  | some root => exact ⟨.refl _, Nat.le_refl _, rfl, rfl, rfl, rfl⟩
  | none =>
      simp only [pathGet, wp_bind, wp_modifyHeap, wp_modifyNd]
      exact ⟨.dget _ _, Nat.le_refl _, rfl, rfl, rfl, rfl⟩

/-- How `handle_dots` ends; only `..` leaves the place of the walk. -/
inductive DotEnds (type : LastType) (w : World) : Status → World → Prop where
  | failed {error w'} (up : type = .dotdot) (wanders : Wanders w w') : DotEnds type w (.fail error) w'
  | moved {w'} (up : type = .dotdot) (wanders : Wanders w w')
      (inode : w'.nd.inode = w'.heap.inode w'.nd.path.dentry) : DotEnds type w .done w'
  | stayed : DotEnds type w .done w

theorem handleDots_ends (type : LastType) : Shows benign (handleDots env type) (DotEnds type w) w := by
  unfold Shows
  rw [handleDots, wp_ite]
  constructor
  · intro up
    rw [followDotdot, wp_bind]
    apply Shows.mono setRoot_wanders
    intro _ w₁ rooted
    rw [wp_bind]
    apply Shows.mono (followDotdotLoop_ends _)
    rintro status w₂ ⟨climbed, ended⟩
    have wanders := rooted.trans climbed
    rcases ended with ⟨error, rfl⟩ | rfl
    · exact .failed up wanders
    · simp only [wp_bind, wp_getNd, wp_dcache]
      apply after_mono (followMount_pile _ _ _)
      rintro path h' ⟨-, same, tick⟩
      simp only [wp_modifyNd, wp_getHeap, wp_pure]
      exact .moved up (wanders.trans ⟨same, Nat.le_of_eq tick.symm, rfl, rfl, rfl, rfl⟩) rfl
  · intro _
    exact .stayed

/-! ### Asking the server for one name -/

/-- If the dentry `d` has an inode, the server gave it for `name` in `dir` between the two heaps. -/
def Told (env : Env) (dir : Ino) (name : Name) (h h' : Heap) (d : DentryId) : Prop :=
  ∀ i, h'.inode d = some i → ∃ t, h.tick ≤ t ∧ t < h'.tick ∧ env.lookupRpc t dir name = .found i

theorem tick_dMaterialiseUnique {inode : Option Ino} {result : Materialised}
    (ends : MaterialiseEnds env d inode h result h') : h'.tick = h.tick + 1 := by
  cases ends with
  | null kept => rfl
  | other question positive hashed same different => exact tick_dDrop _ _
  | failed question positive => rfl

/-- `d_materialise_unique` with what the server said: the dentry that counts from now on says so. -/
theorem dMaterialiseUnique_told {dir : Ino} {name : Name} {inode : Option Ino} {early : Heap} (ok : HeapOk h)
    (born : d < h.next) (parentBorn : h.parent d < h.next) (same : SameShape early h) {t : Nat}
    (since : early.tick ≤ t) (till : t < h.tick)
    (reply : ∀ i, inode = some i → env.lookupRpc t dir name = .found i) :
    after (dMaterialiseUnique env d inode)
      (fun result h' => Filling d early h' ∧ early.tick ≤ h'.tick ∧
        (result = .null → Told env dir name early h' d) ∧
          ∀ o, result = .other o → Told env dir name early h' o) h := by
  apply after_mono (dMaterialiseUnique_ends inode)
  intro result h' ends
  have tick := tick_dMaterialiseUnique ends
  have later : t < h'.tick := by omega
  refine ⟨(ends.keeps ok born parentBorn).2.before same, by omega, ?_, ?_⟩
  · rintro rfl i found
    cases ends with
    | null kept =>
        rw [instantiate_inode, if_pos rfl] at found
        exact ⟨t, since, later, reply i found⟩
  · rintro o rfl i found
    cases ends with
    | other question positive hashed sameInode different =>
        have old : h.inode o = some i := (moveTo_inode (h := h.ticked) (d := d) env o o).symm.trans found
        exact ⟨t, since, later, reply i (sameInode.symm.trans old)⟩

theorem nfsLookup_told (ok : HeapOk h) (born : d < h.next) (parentBorn : h.parent d < h.next) (dir : Ino) :
    after (nfsLookup env dir d)
      (fun result h' => Filling d h h' ∧ h.tick ≤ h'.tick ∧
        (result = .null → Told env dir (h.dentry d).name h h' d) ∧
          ∀ o, result = .other o → Told env dir (h.dentry d).name h h' o) h := by
  have asked : SameShape h h.ticked.ticked := (SameShape.ticked h).trans (SameShape.ticked _)
  have untold : ∀ {error : Errno} {late : Heap}, SameShape h late → h.tick ≤ late.tick →
      Filling d h late ∧ h.tick ≤ late.tick ∧
        (Materialised.failed error = .null → Told env dir (h.dentry d).name h late d) ∧
          ∀ o, Materialised.failed error = .other o → Told env dir (h.dentry d).name h late o := by
    intro error late same order
    exact ⟨same.filling ok, order, (fun other => by cases other), (fun o other => by cases other)⟩
  have two : h.tick ≤ h.ticked.ticked.tick := Nat.le_succ_of_le (Nat.le_succ _)
  rw [nfsLookup, after_bind, after_get, after_ite]
  constructor
  · intro _
    exact untold (.refl h) (Nat.le_refl _)
  · intro _
    rw [after_bind, after_ask]
    cases env.allocateHandles h.tick with
    | failed wild => exact untold (.ticked h) (Nat.le_succ _)
    | done =>
        simp only [after_bind, after_ask]
        have materialised := fun inode => @dMaterialiseUnique_told env h.ticked.ticked d dir (h.dentry d).name
          inode h (ok.sameShape asked) born parentBorn asked (h.tick + 1) (Nat.le_succ _) (Nat.lt_succ_self _)
        cases reply : env.lookupRpc h.ticked.tick dir (h.dentry d).name with
        | badHandle error => exact untold asked two
        | found inode =>
            apply materialised (some inode)
            intro i same
            cases same
            exact reply
        | status error =>
            cases error with
            | ENOENT => exact materialised none fun i same => (by cases same)
            | _ => exact untold asked two

theorem lookupReal_told (ok : HeapOk h) (born : d < h.next) (parentBorn : h.parent d < h.next) (dir : Ino) :
    after (lookupReal env dir d)
      (fun result h' => Filling d h h' ∧ h.tick ≤ h'.tick ∧
        ∀ x, result = .ok x → Told env dir (h.dentry d).name h h' x) h := by
  rw [lookupReal, after_ite]
  constructor
  · intro _
    exact ⟨(SameShape.dput h d).filling ok, Nat.le_refl _, fun x other => (by cases other)⟩
  · intro _
    rw [after_bind]
    apply after_mono (nfsLookup_told ok born parentBorn dir)
    rintro result h' ⟨filled, order, null, other⟩
    have put : SameShape h' (h'.dput d) := .dput h' d
    cases result with
    | null =>
        refine ⟨filled, order, ?_⟩
        rintro x same
        cases same
        exact null rfl
    | other o =>
        refine ⟨filled.after put, order, ?_⟩
        rintro x same
        cases same
        exact other o rfl
    | failed error => exact ⟨filled.after put, order, fun x other => (by cases other)⟩

/-! ### One name by itself -/

/-- The flags but for `LOOKUP_JUMPED`. -/
def SameFlags (flags flags' : LookupFlags) : Prop := flags' = { flags with jumped := flags'.jumped }

theorem SameFlags.trans {f f' f'' : LookupFlags} (first : SameFlags f f') (second : SameFlags f' f'') :
    SameFlags f f'' := by
  unfold SameFlags at *
  rw [second, first]

theorem SameFlags.of_eq {f f' : LookupFlags} (same : f' = f) : SameFlags f f' := by
  subst same
  rfl

/-- The walk may have taken dentries out of the hash, and is where it was. -/
structure Stays (w w' : World) : Prop where
  trimmed : Trimmed w.heap w'.heap
  tick : w.heap.tick ≤ w'.heap.tick
  nd : w'.nd = { w.nd with flags := w'.nd.flags }
  flags : SameFlags w.nd.flags w'.nd.flags

theorem Stays.trans {w' w'' : World} (first : Stays w w') (second : Stays w' w'') : Stays w w'' := by
  refine ⟨first.trimmed.trans second.trimmed, Nat.le_trans first.tick second.tick, ?_,
    first.flags.trans second.flags⟩
  rw [second.nd, first.nd]

theorem Stays.of_heap (trimmed : Trimmed w.heap h) (tick : w.heap.tick ≤ h.tick) :
    Stays w { w with heap := h } :=
  ⟨trimmed, tick, rfl, .of_eq rfl⟩

theorem Stays.quiet {w' : World} (quiet : Quiet w) (stays : Stays w w') : Quiet w' := by
  refine ⟨quiet.ok.trimmed stays.trimmed, stays.trimmed.held.trans quiet.held, ?_, ?_⟩
  · rw [stays.nd]
    exact quiet.size
  · rw [stays.nd]
    exact quiet.list

/-- Where a dentry comes from: from the dcache, or from the server. -/
inductive Source (benign : Event → Prop) (env : Env) (w w' : World) (d : DentryId) : Prop where
  | cached (found : w.heap.hash w.nd.path.dentry w.nd.last.text = some d)
      (same : w'.heap.inode d = w.heap.inode d) (accepted : Accepted benign w w' w.nd.path.dentry d) :
      Source benign env w w' d
  | asked {dir} (dirIs : w.heap.inode w.nd.path.dentry = some dir)
      (told : Told env dir w.nd.last.text w.heap w'.heap d) : Source benign env w w' d

theorem crossMounts_ends (d : DentryId) :
    Shows benign (crossMounts env d)
      (fun path w' => MountPile env ⟨w.nd.path.mnt, d⟩ path ∧ Stays w w' ∧ SameShape w.heap w'.heap) w := by
  unfold Shows
  rw [crossMounts, wp_bind, wp_getNd, wp_bind, wp_dcache, followManaged, after_bind]
  apply after_mono (followMount_pile _ _ _)
  rintro path h' ⟨pile, same, tick⟩
  simp only [after_pure, wp_bind, wp_ite, wp_modifyNd, wp_pure]
  have stays : Stays w { w with heap := h' } := .of_heap same.trimmed (Nat.le_of_eq tick.symm)
  constructor
  · intro _
    exact ⟨pile, ⟨stays.trimmed, stays.tick, rfl, rfl⟩, same⟩
  · intro _
    exact ⟨pile, stays, same⟩

/-- How `lookup_fast` ends. -/
inductive FastEnds (benign : Event → Prop) (env : Env) (w : World) :
    Except Errno (Option Path) → World → Prop where
  | failed {error w'} (stays : Stays w w') : FastEnds benign env w (.error error) w'
  | missed {w'} (stays : Stays w w') : FastEnds benign env w (.ok none) w'
  | found {d path w'} (stays : Stays w w') (source : Source benign env w w' d)
      (pile : MountPile env ⟨w.nd.path.mnt, d⟩ path) : FastEnds benign env w (.ok (some path)) w'

/-- A dentry that is used as it is. -/
theorem crossMounts_found (found : w.heap.hash w.nd.path.dentry w.nd.last.text = some d)
    (same : SameShape w.heap h) (tick : w.heap.tick ≤ h.tick)
    (told : benign (.accept w.nd.path.dentry d { w with heap := h })) :
    Shows benign (crossMounts env d)
      (fun path w' => Stays w w' ∧ Source benign env w w' d ∧ MountPile env ⟨w.nd.path.mnt, d⟩ path)
      { w with heap := h } := by
  apply Shows.mono (crossMounts_ends d)
  rintro path w' ⟨pile, stays, shape⟩
  have all := same.trans shape
  refine ⟨(Stays.of_heap same.trimmed tick).trans stays, ?_, pile⟩
  exact .cached found (all.inode d) (.at told same.dentry tick stays.tick)

theorem lookupFast_ends : Shows benign (lookupFast env) (FastEnds benign env w) w := by
  unfold Shows
  rw [lookupFast, wp_bind, wp_getNd, wp_bind, wp_dcache, after_dLookup]
  cases found : w.heap.hash w.nd.path.dentry w.nd.last.text with
  | none => exact .missed (.of_heap (SameShape.refl w.heap).trimmed (Nat.le_refl _))
  | some d =>
      have asked : SameShape w.heap (w.heap.dget d).ticked := (SameShape.dget _ _).trans (.ticked _)
      simp only [wp_bind, wp_dcache, after_ask]
      cases env.revalidate (w.heap.dget d).tick d with
      | failed error =>
          exact .failed (.of_heap (asked.trans (.dput _ _)).trimmed (Nat.le_succ _))
      | valid =>
          simp only [wp_bind, wp_observe]
          intro told
          refine ⟨trivial, ?_⟩
          apply Shows.mono (crossMounts_found found asked (Nat.le_succ _) told)
          rintro path w' ⟨stays, source, pile⟩
          exact .found stays source pile
      | stale =>
          simp only [wp_bind, wp_dcache]
          have two : w.heap.tick ≤ w.heap.tick + 1 + 1 := Nat.le_succ_of_le (Nat.le_succ _)
          apply after_dInvalidate
          · simp only [Bool.false_eq_true, if_false, wp_bind, wp_observe]
            intro told
            refine ⟨trivial, ?_⟩
            apply Shows.mono (crossMounts_found found (asked.trans (.ticked _)) two told)
            rintro path w' ⟨stays, source, pile⟩
            exact .found stays source pile
          · simp only [if_true, wp_bind, wp_modifyHeap, wp_pure]
            have dropped : Trimmed w.heap (((w.heap.dget d).ticked.ticked.dDrop d).dput d) :=
              ((asked.trans (.ticked _)).trimmed.trans (trimmed_dDrop _ d)).trans (SameShape.dput _ d).trimmed
            apply FastEnds.missed (.of_heap dropped _)
            change w.heap.tick ≤ (Heap.dDrop _ d).tick
            rw [tick_dDrop]
            exact two

/-- What looking up a name under the mutex of its directory leaves. -/
structure Grown (h h' : Heap) : Prop extends Grows h h' where
  ok : HeapOk h'
  held : h'.held = h.held

/-- A dentry that nobody has seen is filled. -/
theorem Filling.grows (fresh : h.inode d = none) (filling : Filling d h h') (tick : h.tick ≤ h'.tick) :
    Grows h h' := by
  refine ⟨tick, Nat.le_of_eq filling.next.symm, ?_⟩
  intro x i found
  have other : x ≠ d := by
    rintro rfl
    rw [fresh] at found
    cases found
  rw [filling.inode x other, found]

theorem Told.before {dir : Ino} {name : Name} (told : Told env dir name h' h'' d) (tick : h.tick ≤ h'.tick) :
    Told env dir name h h'' d := by
  intro i found
  obtain ⟨t, since, till, reply⟩ := told i found
  exact ⟨t, Nat.le_trans tick since, till, reply⟩

theorem lookupHash_ends {dir : Ino} (ok : HeapOk w.heap) (dirIs : w.heap.inode w.nd.path.dentry = some dir) :
    Shows benign (lookupHash env w.nd.last.text w.nd.path.dentry)
      (fun result w' => (∃ h', w' = { w with heap := h' } ∧ Grown w.heap h') ∧
        ∀ d, result = .ok d → Source benign env w w' d) w := by
  have looked : after (lookupDcache env w.nd.last.text w.nd.path.dentry)
      (fun result h' => LookupEnds w.nd.path.dentry w.nd.last.text w.heap result h' ∧
        w.heap.tick ≤ h'.tick) w.heap :=
    ⟨lookupDcache_ends env ok _ _, ticks_lookupDcache env _ _ _⟩
  unfold Shows
  rw [lookupHash, wp_bind, wp_dcache]
  apply after_mono looked
  rintro result h' ⟨ends, order⟩
  cases ends with
  | failed trimmed =>
      refine ⟨⟨h', rfl, trimmed.grows order, ok.trimmed trimmed, trimmed.held⟩, ?_⟩
      intro d other
      cases other
  | @cached c _ found same =>
      simp only [wp_bind, wp_observe, wp_pure]
      intro told
      refine ⟨trivial, ⟨h', rfl, same.toSameDentries.grows order, ok.sameShape same, same.held⟩, ?_⟩
      intro d equal
      cases equal
      exact .cached found (same.inode c) (.at told same.dentry order (Nat.le_refl _))
  | @fresh middle _ trimmed missing allocated =>
      have okMiddle := ok.trimmed trimmed
      have okFresh := okMiddle.allocated allocated
      have grows : Grows w.heap h' := by
        refine ⟨order, ?_, ?_⟩
        · rw [allocated.next, trimmed.next]
          exact Nat.le_succ _
        · intro x i found
          rw [Heap.inode, allocated.old (by rw [trimmed.next]; exact ok.born found), trimmed.dentry]
          exact found
      have fresh : h'.dentry w.heap.next = ⟨w.nd.path.dentry, w.nd.last.text, none, .miss⟩ := by
        rw [← trimmed.next]
        exact allocated.fresh
      have born : w.heap.next < h'.next := by
        rw [allocated.next, trimmed.next]
        exact Nat.lt_succ_self _
      have parentBorn : h'.parent w.heap.next < h'.next := by
        rw [Heap.parent, fresh]
        exact Nat.lt_trans (ok.born dirIs) born
      simp only [wp_bind, wp_derefInode]
      constructor
      · intro inode found
        cases (grows.inode _ _ dirIs).symm.trans found
        rw [wp_ite]
        constructor
        · intro _
          rw [wp_dcache]
          apply after_mono (lookupReal_told okFresh born parentBorn dir)
          rintro result h'' ⟨filling, later, told⟩
          have negative : h'.inode w.heap.next = none := by rw [Heap.inode, fresh]
          refine ⟨⟨h'', rfl, grows.trans (filling.grows negative later), filling.ok, ?_⟩, ?_⟩
          · rw [filling.held, allocated.held, trimmed.held]
          · intro d equal
            have tells := told d equal
            rw [fresh] at tells
            exact .asked dirIs (tells.before order)
        · intro _
          exact ⟨by simp, by simp⟩
      · intro _
        exact ⟨by simp, by simp⟩

/-- What one component leaves when no chain is pending. -/
structure Moved (w w' : World) : Prop where
  quiet : Quiet w'
  flags : SameFlags w.nd.flags w'.nd.flags
  grows : Grows w.heap w'.heap

/-- How `lookup_slow` ends. -/
inductive SlowEnds (benign : Event → Prop) (env : Env) (w : World) : Except Errno Path → World → Prop where
  | failed {error w'} (moved : Moved w w') : SlowEnds benign env w (.error error) w'
  | found {d path w'} (moved : Moved w w') (source : Source benign env w w' d)
      (pile : MountPile env ⟨w.nd.path.mnt, d⟩ path) : SlowEnds benign env w (.ok path) w'

/-- What was found from `w₁` on was found from `w` on. -/
theorem Source.later {w₁ w' w'' : World} (source : Source benign env w₁ w' d)
    (dentries : w₁.heap.dentry = w.heap.dentry)
    (hash : ∀ x n c, w₁.heap.hash x n = some c → w.heap.hash x n = some c)
    (tick : w.heap.tick ≤ w₁.heap.tick) (path : w₁.nd.path = w.nd.path) (last : w₁.nd.last = w.nd.last)
    (inode : w''.heap.inode d = w'.heap.inode d)
    (till : w'.heap.tick ≤ w''.heap.tick) : Source benign env w w'' d := by
  have inodes : ∀ x, w₁.heap.inode x = w.heap.inode x := by
    intro x
    rw [Heap.inode, dentries]
    rfl
  cases source with
  | cached found same accepted =>
      rw [path, last] at found
      rw [path] at accepted
      obtain ⟨told, equal, since, before⟩ := accepted
      refine .cached (hash _ _ _ found) ?_ (.at told (equal.trans dentries) (Nat.le_trans tick since)
        (Nat.le_trans before till))
      rw [inode, same, inodes]
  | asked dirIs told =>
      rw [path, inodes] at dirIs
      rw [last] at told
      refine .asked dirIs ?_
      intro i found
      rw [inode] at found
      obtain ⟨t, since, before, reply⟩ := told i found
      exact ⟨t, Nat.le_trans tick since, Nat.lt_of_lt_of_le before till, reply⟩

theorem lookupSlow_ends (quiet : Quiet w) : Shows benign (lookupSlow env) (SlowEnds benign env w) w := by
  unfold Shows
  rw [lookupSlow, wp_bind, wp_getNd, wp_bind, wp_getHeap, wp_ite]
  constructor
  · intro _
    exact ⟨by simp, by simp⟩
  · intro _
    rw [wp_bind]
    apply shows_mutexLock quiet.held
    intro dir dirIs
    have locked : SameDentries w.heap { w.heap with held := [dir] } := ⟨rfl, rfl, rfl⟩
    rw [wp_bind]
    apply Shows.mono (lookupHash_ends (w := { w with heap := { w.heap with held := [dir] } })
      (quiet.ok.sameDentries locked) dirIs)
    rintro result w₁ ⟨⟨h', rfl, grown⟩, source⟩
    have released : SameDentries h' { h' with held := [] } := ⟨rfl, rfl, rfl⟩
    rw [wp_bind]
    apply shows_mutexUnlock (grown.inode _ _ dirIs) grown.held
    have moved : Moved w { w with heap := { h' with held := [] } } :=
      ⟨⟨grown.ok.sameDentries released, rfl, quiet.size, quiet.list⟩, .of_eq rfl,
        grown.tick, grown.next, grown.inode⟩
    cases result with
    | error error => exact .failed moved
    | ok d =>
        simp only [wp_bind]
        apply Shows.mono (crossMounts_ends d)
        rintro path w'' ⟨pile, stays, same⟩
        refine .found ⟨stays.quiet moved.quiet, moved.flags.trans stays.flags,
          moved.grows.trans (same.toSameDentries.grows stays.tick)⟩ ?_ pile
        exact (source d rfl).later rfl (fun _ _ _ found => found) (Nat.le_refl _) rfl rfl (same.inode d) stays.tick

/-- How `walk_component` steps to the path it has found. -/
theorem stepInto_ends (path : Path) (follow : Bool) :
    Shows benign (stepInto path follow)
      (fun status w' => Wanders w w' ∧ (status = .fail .ENOENT ∨ status = .link path ∨
        (status = .done ∧ w'.nd.path = path ∧ w'.nd.inode = w'.heap.inode path.dentry ∧
          w'.heap.inode path.dentry ≠ none))) w := by
  unfold Shows
  rw [stepInto, wp_bind, wp_getHeap, wp_ite]
  constructor
  · intro _
    exact ⟨⟨(SameShape.dput _ _).trans (.dput _ _), Nat.le_refl _, rfl, rfl, rfl, rfl⟩, .inl rfl⟩
  · intro positive
    rw [wp_ite]
    constructor
    · intro _
      exact ⟨⟨.refl _, Nat.le_refl _, rfl, rfl, rfl, rfl⟩, .inr (.inl rfl)⟩
    · intro _
      rw [not_or] at positive
      exact ⟨⟨.dput _ _, Nat.le_refl _, rfl, rfl, rfl, rfl⟩, .inr (.inr ⟨rfl, rfl, rfl, positive.1⟩)⟩

/-- How `walk_component` ends. -/
inductive ComponentEnds (benign : Event → Prop) (env : Env) (w : World) : Status → World → Prop where
  | failed {error w'} (moved : Moved w w') : ComponentEnds benign env w (.fail error) w'
  | link {path w'} (moved : Moved w w') : ComponentEnds benign env w (.link path) w'
  | dots {status w'} (other : w.nd.lastType ≠ .norm) (ends : DotEnds w.nd.lastType w status w') :
      ComponentEnds benign env w status w'
  | done {d w'} (norm : w.nd.lastType = .norm) (moved : Moved w w') (source : Source benign env w w' d)
      (pile : MountPile env ⟨w.nd.path.mnt, d⟩ w'.nd.path)
      (inodeIs : w'.nd.inode = w'.heap.inode w'.nd.path.dentry) (positive : w'.nd.inode ≠ none) :
      ComponentEnds benign env w .done w'

/-- A component that has been found. -/
theorem stepInto_found {w₁ : World} {path : Path} (norm : w.nd.lastType = .norm) (follow : Bool)
    (moved : Moved w w₁) (source : Source benign env w w₁ d) (pile : MountPile env ⟨w.nd.path.mnt, d⟩ path) :
    Shows benign (stepInto path follow) (ComponentEnds benign env w) w₁ := by
  apply Shows.mono (stepInto_ends path follow)
  rintro status w' ⟨wanders, ended⟩
  have flushed := wanders.flushed moved.quiet
  have all : Moved w w' :=
    ⟨flushed.quiet, moved.flags.trans (.of_eq flushed.flags), moved.grows.trans flushed.grows⟩
  rcases ended with rfl | rfl | ⟨rfl, rfl, inodeIs, positive⟩
  · exact .failed all
  · exact .link all
  · refine .done norm all ?_ pile inodeIs (by rw [inodeIs]; exact positive)
    exact source.later rfl (fun _ _ _ found => found) (Nat.le_refl _) rfl rfl (wanders.shape.inode d) wanders.tick

theorem walkComponent_ends (quiet : Quiet w) (follow : Bool) :
    Shows benign (walkComponent env follow) (ComponentEnds benign env w) w := by
  have terminated : ∀ {w₁ : World} {error : Errno}, Moved w w₁ →
      Shows benign (do terminateWalk; return .fail error) (ComponentEnds benign env w) w₁ := by
    intro w₁ error moved
    unfold Shows
    simp only [terminateWalk, pathPut, wp_bind, wp_getNd, wp_modifyHeap, wp_pure]
    have put : SameShape w₁.heap (w₁.heap.dput w₁.nd.path.dentry) := .dput _ _
    exact .failed ⟨⟨moved.quiet.ok.sameShape put, put.held.trans moved.quiet.held, moved.quiet.size,
      moved.quiet.list⟩, moved.flags, moved.grows.trans (put.toSameDentries.grows (Nat.le_refl _))⟩
  have stayed : ∀ {w₁ : World}, Stays w w₁ → Moved w w₁ := fun stays =>
    ⟨stays.quiet quiet, stays.flags, stays.trimmed.grows stays.tick⟩
  unfold Shows
  rw [walkComponent, wp_bind, wp_observe]
  intro _
  refine ⟨trivial, ?_⟩
  rw [wp_bind, wp_getNd, wp_ite]
  constructor
  · intro other
    apply Shows.mono (handleDots_ends _)
    intro status w' ends
    exact .dots other ends
  · intro norm
    rw [not_not] at norm
    rw [wp_bind]
    apply Shows.mono lookupFast_ends
    intro result w₁ ends
    cases ends with
    | failed stays => exact terminated (stayed stays)
    | found stays source pile => exact stepInto_found norm follow (stayed stays) source pile
    | missed stays =>
        have path : w₁.nd.path = w.nd.path := by rw [stays.nd]
        have last : w₁.nd.last = w.nd.last := by rw [stays.nd]
        simp only [wp_bind]
        apply Shows.mono (lookupSlow_ends (stays.quiet quiet))
        intro result w₂ ends
        have both : Moved w₁ w₂ → Moved w w₂ := fun moved =>
          ⟨moved.quiet, stays.flags.trans moved.flags, (stayed stays).grows.trans moved.grows⟩
        cases ends with
        | failed moved => exact terminated (both moved)
        | found moved source pile =>
            rw [path] at pile
            apply stepInto_found norm follow (both moved) _ pile
            exact source.later stays.trimmed.dentry stays.trimmed.hash stays.tick path last rfl (Nat.le_refl _)

/-! ### Dots in a pending chain -/

theorem TempChain.left {parent : DentryId} {first second : List ChainDentry}
    (linked : TempChain h parent (first ++ second)) : TempChain h parent first := by
  induction first generalizing parent with
  | nil => trivial
  | cons e rest inductionHypothesis =>
      obtain ⟨link, unhashed, type, more⟩ := linked
      exact ⟨link, unhashed, type, inductionHypothesis more⟩

/-- What `dchain_list_pop` leaves: a shorter chain, or none and no mutex. -/
structure Popped (w w' : World) : Prop where
  path : w'.nd.path = w.nd.path
  inode : w'.nd.inode = w.nd.inode
  flags : w'.nd.flags = w.nd.flags
  list : w'.nd.dchainList = w.nd.dchainList.dropLast
  grows : Grows w.heap w'.heap
  between : Quiet w' ∨ (Queued w' ∧ w'.nd.chainSize < w.nd.chainSize)

/-- The last entry is gone; the chain that is left may be empty. -/
theorem Queued.shorter (queued : Queued w) (d : DentryId) :
    Locked { w with
      heap := w.heap.dput d
      nd := { w.nd with dchainList := w.nd.dchainList.dropLast, chainSize := w.nd.chainSize - 1 } } := by
  obtain ⟨inode, positive, held⟩ := queued.locked
  have put : SameShape w.heap (w.heap.dput d) := .dput _ _
  have split : w.nd.dchainList.dropLast ++ [w.nd.dchainList.getLast queued.nonempty] = w.nd.dchainList :=
    List.dropLast_append_getLast queued.nonempty
  have inside : ∀ e ∈ w.nd.dchainList.dropLast, e ∈ w.nd.dchainList :=
    fun e member => List.dropLast_subset _ member
  have pending := queued.pending
  refine ⟨⟨queued.ok.sameShape put, inode, positive, held⟩, ?_, queued.place, ⟨?_, ?_, ?_⟩, ?_⟩
  · simp [queued.size]
  · apply put.tempChain
    have linked := pending.linked
    rw [← split] at linked
    exact linked.left
  · have sublist : w.nd.dchainList.dropLast.Sublist w.nd.dchainList := List.dropLast_sublist _
    exact pending.distinct.sublist ((sublist.map _).cons_cons _)
  · exact fun e member => pending.negative e (inside e member)
  · exact fun e member => queued.barren e (inside e member)

/-- How `walk_chain` ends for dots. -/
inductive ChainDotsEnd (w : World) : Status → World → Prop where
  | dots {status w'} (quiet : Quiet w) (ends : DotEnds w.nd.lastType w status w') :
      ChainDotsEnd w status w'
  | stayed (queued : Queued w) : ChainDotsEnd w .done w
  | popped {w'} (popped : Popped w w') : ChainDotsEnd w .done w'

theorem dchainListPop_ends (queued : Queued w) :
    Shows benign
      (do
        dchainListPop
        if (← getNd).chainSize = 0 then
          mutexUnlock (← getNd).chainParent
        return .done)
      (ChainDotsEnd w) w := by
  unfold Shows
  rw [wp_bind, dchainListPop, wp_bind, wp_getNd]
  cases last : w.nd.dchainList.getLast? with
  | none => exact absurd (List.getLast?_eq_none_iff.mp last) queued.nonempty
  | some entry =>
      have shorter := queued.shorter entry.dentry
      have pos := queued.pos
      simp only [wp_bind, wp_modifyHeap, wp_modifyNd, wp_getNd, wp_ite, wp_pure]
      constructor
      · intro empty
        have list : w.nd.dchainList.dropLast = [] := by
          apply List.eq_nil_of_length_eq_zero
          rw [← empty]
          exact shorter.size.symm
        apply shorter.toHolds.unlocked empty list
        intro quiet
        exact .popped ⟨rfl, rfl, rfl, rfl, ⟨Nat.le_refl _, Nat.le_refl _, fun _ _ found => found⟩, .inl quiet⟩
      · intro more
        refine .popped ⟨rfl, rfl, rfl, rfl, ⟨Nat.le_refl _, Nat.le_refl _, fun _ _ found => found⟩, .inr ?_⟩
        refine ⟨⟨shorter, ?_⟩, Nat.sub_lt pos Nat.one_pos⟩
        intro empty
        apply more
        have size := shorter.size
        rw [empty] at size
        exact size

theorem walkChainDots_ends (between : Quiet w ∨ Queued w) :
    Shows benign (walkChainDots env) (ChainDotsEnd w) w := by
  unfold Shows
  rw [walkChainDots, wp_bind, wp_getNd]
  rcases between with quiet | queued
  · have idle : ¬w.nd.chainSize > 0 := by
      rw [quiet.size]
      exact Nat.lt_irrefl 0
    simp only [idle, false_and, if_false]
    exact (handleDots_ends _).mono fun _ _ ends => .dots quiet ends
  · rw [wp_ite]
    constructor
    · intro _
      rw [wp_bind, wp_observe]
      intro _
      exact ⟨trivial, dchainListPop_ends queued⟩
    · intro notUp
      rw [wp_ite]
      constructor
      · intro _
        rw [wp_bind, wp_observe]
        intro _
        exact ⟨trivial, .stayed queued⟩
      · intro _
        have other : ¬w.nd.lastType = .dotdot := fun up => notUp ⟨queued.pos, up⟩
        rw [handleDots, if_neg other]
        exact .stayed queued

/-! ### One component of a chain -/

/-- How `walk_chain` ends. -/
inductive WalkChainEnds (benign : Event → Prop) (env : Env) (w : World) : Status → World → Prop where
  | name {status w'} (norm : w.nd.lastType = .norm) (ends : NameEnds benign env w status w') :
      WalkChainEnds benign env w status w'
  | dots {status w'} (other : w.nd.lastType ≠ .norm) (ends : ChainDotsEnd w status w') :
      WalkChainEnds benign env w status w'

/-- Between two components a chain is shorter than the limit. -/
def Between (w : World) : Prop := Quiet w ∨ (Queued w ∧ w.nd.chainSize ≤ 29)

theorem Between.ok (between : Between w) : HeapOk w.heap := by
  rcases between with quiet | ⟨queued, -⟩
  · exact quiet.ok
  · exact queued.ok

theorem Between.chainInv (between : Between w) : ChainInv w := by
  rcases between with quiet | ⟨queued, limit⟩
  · exact quiet.chainInv
  · exact queued.chainInv limit

theorem NameEnds.between {status : Status} {w' : World} (ends : NameEnds benign env w status w') :
    Between w' := by
  cases ends with
  | failed flushed => exact .inl flushed.quiet
  | link flushed => exact .inl flushed.quiet
  | hit _ _ _ _ _ _ flushed => exact .inl flushed.quiet
  | queued extended limit => exact .inr ⟨extended.queued, limit⟩
  | flushed extended ends => exact .inl ends.flushed.quiet

theorem DotEnds.quiet {type : LastType} {status : Status} {w' : World} (quiet : Quiet w)
    (ends : DotEnds type w status w') : Quiet w' := by
  cases ends with
  | failed _ wanders => exact (wanders.flushed quiet).quiet
  | moved _ wanders _ => exact (wanders.flushed quiet).quiet
  | stayed => exact quiet

theorem ChainDotsEnd.between {status : Status} {w' : World} (between : Between w)
    (ends : ChainDotsEnd w status w') : Between w' := by
  cases ends with
  | dots quiet ends => exact .inl (ends.quiet quiet)
  | stayed queued => exact between
  | popped popped =>
      rcases popped.between with quiet | ⟨queued, shorter⟩
      · exact .inl quiet
      · refine .inr ⟨queued, ?_⟩
        rcases between with quiet | ⟨-, limit⟩
        · rw [quiet.size] at shorter
          exact absurd shorter (Nat.not_lt_zero _)
        · exact Nat.le_trans (Nat.le_of_lt shorter) limit

theorem WalkChainEnds.between {status : Status} {w' : World} (between : Between w)
    (ends : WalkChainEnds benign env w status w') : Between w' := by
  cases ends with
  | name _ ends => exact ends.between
  | dots _ ends => exact ends.between between

theorem walkChain_ends (between : Between w) (follow : Bool) :
    Shows benign (walkChain env follow) (WalkChainEnds benign env w) w := by
  have either : Quiet w ∨ Queued w := between.imp id And.left
  have returned : ∀ {x : Walk Status}, Shows benign x (WalkChainEnds benign env w) w →
      Shows benign (do let status ← x; observe (.returned .walkChain); return status)
        (WalkChainEnds benign env w) w := by
    intro x shows
    unfold Shows
    rw [wp_bind]
    apply Shows.mono shows
    intro status w' ends
    rw [wp_bind, wp_observe]
    intro _
    exact ⟨(ends.between between).chainInv, ends⟩
  unfold Shows
  rw [walkChain, wp_bind, wp_getNd]
  change wp _ _ (if _ then _ else _) _ _
  rw [wp_ite]
  constructor
  · intro other
    exact returned ((walkChainDots_ends either).mono fun _ _ ends => .dots other ends)
  · intro norm
    rw [not_not] at norm
    exact returned ((walkChainName_ends either follow).mono fun _ _ ends => .name norm ends)

end Nfs4Compound.Vfs
