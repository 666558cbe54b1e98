/-
Module: Nfs4Compound.Proofs.Restarts
Layer: Proofs
Purpose: A walk that finds the symlink behind which it starts over in the dcache follows it, so that the
  limit of followed links bounds the number of restarts; and a walk that does not find it there starts
  over without end.
Imports: Nfs4Compound.Proofs.CachedLink
Trusted boundary: none
Main exports: Gives, StopsRightly, Passed.counts, passThrough_bounded, restarts_bounded,
  rejected_link_restarts
-/
import Nfs4Compound.Proofs.CachedLink

namespace Nfs4Compound.Vfs

open Prog

variable {env : Env} {oenv : OpenEnv} {op : OpenFlags} {w : World}

/-! ### Where a chain can stop -/

/-- The outcome is not that a chain has stopped at a symlink. -/
def Status.goesOn : Status → Prop
  | .chainLink _ => False
  | _ => True

/-- Every value a program returns is of one kind. -/
def Gives {α : Type} (kind : α → Prop) (x : Walk α) : Prop :=
  ∀ w value, (x w).result = .ok value → kind value

section Gives

variable {α β : Type} {kind : β → Prop}

theorem gives_bind {first : α → Prop} {x : Walk α} {f : α → Walk β} (gives : Gives first x)
    (rest : ∀ value, first value → Gives kind (f value)) : Gives kind (x >>= f) := by
  intro w value returned
  obtain ⟨found, ended, went, -⟩ := bind_returned returned
  exact rest found (gives w found ended) _ value went

@[grind ←] theorem gives_then {x : Walk α} {f : α → Walk β} (rest : ∀ value, Gives kind (f value)) :
    Gives kind (x >>= f) :=
  gives_bind (fun _ _ _ => trivial) fun value (_ : True) => rest value

@[grind ←] theorem gives_pure {value : β} (holds : kind value) : Gives kind (pure value : Walk β) := by
  rintro w other ⟨⟩
  exact holds

@[grind ←] theorem gives_fault (cause : Oops) : Gives kind (Prog.fault cause : Walk β) := by
  rintro w value ⟨⟩

end Gives

theorem handleDots_goesOn (type : LastType) : Gives Status.goesOn (handleDots env type) := by
  have loops : ∀ depth, Gives Status.goesOn (followDotdotLoop env depth) := by
    intro depth
    induction depth with
    | zero => exact gives_fault _
    | succ depth inductionHypothesis =>
        unfold followDotdotLoop
        apply gives_then
        intro nd
        split
        · exact gives_pure trivial
        · split
          · apply gives_then
            intro h
            grind [Status.goesOn]
          · grind [Status.goesOn]
  unfold handleDots followDotdot
  split
  · apply gives_then
    intro _
    refine gives_bind (loops _) ?_
    intro status goes
    cases status with
    | done => grind [Status.goesOn]
    | link path => exact gives_pure goes
    | chainLink path => exact gives_pure goes
    | fail error => exact gives_pure goes
  · exact gives_pure trivial

theorem walkComponent_goesOn (follow : Bool) : Gives Status.goesOn (walkComponent env follow) := by
  have steps : ∀ path, Gives Status.goesOn (stepInto path follow) := by
    intro path
    unfold stepInto
    grind [Status.goesOn]
  unfold walkComponent
  apply gives_then
  intro _
  apply gives_then
  intro nd
  split
  · exact handleDots_goesOn _
  · grind [Status.goesOn]

theorem openOut_goesOn (saveParent : Option Path) {status : Status} (goes : status.goesOn) :
    Gives Status.goesOn (openOut saveParent status) := by
  unfold openOut
  grind

theorem openedChecks_goesOn (saveParent : Option Path) (truncate : Bool) :
    Gives Status.goesOn (openedChecks oenv saveParent truncate) := by
  unfold openedChecks
  grind [Status.goesOn, openOut_goesOn]

/-- An open that has not ended in a chain. -/
def Finish.goesOn : Finish → Prop
  | .retry _ => True
  | .ended status => status.goesOn

theorem gives_ended {x : Walk Status} (gives : Gives Status.goesOn x) :
    Gives Finish.goesOn (do return .ended (← x)) :=
  gives_bind gives fun _ goes => gives_pure goes

theorem finishOpenCreated_goesOn (saveParent : Option Path) (dir : DentryId) (truncate retried : Bool) :
    Gives Finish.goesOn (finishOpenCreated oenv saveParent dir truncate retried) := by
  have failed : ∀ saveParent error, Gives Finish.goesOn (do
      return .ended (← openOut saveParent (.fail error))) :=
    fun saveParent error => gives_ended (openOut_goesOn saveParent trivial)
  have checked := gives_ended (openedChecks_goesOn saveParent truncate : Gives _ (openedChecks oenv _ _))
  unfold finishOpenCreated
  apply gives_then
  intro nd
  apply gives_then
  intro h
  apply gives_then
  intro may
  cases may with
  | some error => exact failed _ _
  | none =>
      apply gives_then
      intro answer
      cases answer with
      | opened => exact checked
      | failed error => exact failed _ _
      | openStale =>
          cases saveParent with
          | none => exact failed _ _
          | some parent =>
              simp only
              split
              · exact failed _ _
              · grind [Finish.goesOn]

theorem finishOpen_goesOn (saveParent : Option Path) (dir : DentryId) (truncate retried : Bool) :
    Gives Finish.goesOn (finishOpen env oenv saveParent dir truncate retried) := by
  have failed : Gives Finish.goesOn (do return .ended (← openOut saveParent (.fail erofs))) :=
    gives_ended (openOut_goesOn saveParent trivial)
  unfold finishOpen
  grind [finishOpenCreated_goesOn]

theorem finishLookupOpen_goesOn (symlinkOk : Bool) (dir : DentryId) (truncate retried : Bool)
    (path : Path) :
    Gives Finish.goesOn (finishLookupOpen env oenv op symlinkOk dir truncate retried path) := by
  have failed : ∀ saveParent error, Gives Finish.goesOn (do
      return .ended (← openOut saveParent (.fail error))) :=
    fun saveParent error => gives_ended (openOut_goesOn saveParent trivial)
  have completes : ∀ saveParent : Option Path,
      Gives Finish.goesOn (finishLookupCompletes env oenv op dir truncate retried saveParent) := by
    intro saveParent
    unfold finishLookupCompletes
    apply gives_then
    intro error
    grind [Finish.goesOn, Status.goesOn, finishOpen_goesOn]
  unfold finishLookupOpen
  apply gives_then
  intro h
  simp only
  split
  · apply gives_then
    intro _
    exact failed _ _
  · split
    · exact gives_pure trivial
    · apply gives_then
      intro nd
      split
      · apply gives_then
        intro _
        apply gives_then
        intro saved
        apply gives_then
        intro _
        exact completes saved
      · apply gives_then
        intro _
        apply gives_then
        intro saved
        apply gives_then
        intro _
        exact completes saved

theorem retryLookup_goesOn (symlinkOk : Bool) (dir : DentryId) (fuel : Nat) (truncate retried : Bool) :
    Gives Status.goesOn (retryLookup env oenv op symlinkOk dir fuel truncate retried) := by
  induction fuel generalizing truncate retried with
  | zero => exact gives_fault _
  | succ fuel inductionHypothesis =>
      unfold retryLookup
      extract_lets goesOn looksUp
      have goes : ∀ finish : Finish, finish.goesOn → Gives Status.goesOn (goesOn finish) := by
        intro finish holds
        cases finish with
        | ended status => exact gives_pure holds
        | retry truncate => exact inductionHypothesis truncate true
      have looks : ∀ gotWrite, Gives Status.goesOn (looksUp gotWrite) := by
        intro gotWrite
        clear_value goesOn
        apply gives_then
        intro _
        apply gives_then
        intro looked
        apply gives_then
        intro _
        split
        · refine gives_bind (openOut_goesOn _ trivial) fun status holds => ?_
          exact gives_bind (gives_pure holds) goes
        · refine gives_bind (openedChecks_goesOn _ _) fun status holds => ?_
          exact gives_bind (gives_pure holds) goes
        · apply gives_then
          intro _
          exact gives_bind (finishOpenCreated_goesOn _ _ _ _) goes
        · split
          · apply gives_then
            intro _
            refine gives_bind (openOut_goesOn _ trivial) fun status holds => ?_
            exact gives_bind (gives_pure holds) goes
          · apply gives_then
            rintro ⟨path, crossed⟩
            have finishes := gives_bind
              (finishLookupOpen_goesOn symlinkOk dir truncate retried path :
                Gives _ (finishLookupOpen env oenv op _ _ _ _ _))
              goes
            grind
      clear_value looksUp
      split
      · grind
      · apply gives_then
        exact looks

theorem doLastName_goesOn (dir : DentryId) : Gives Status.goesOn (doLastName env oenv op dir) := by
  have failed : ∀ error, Gives Status.goesOn (openOut none (.fail error)) :=
    fun error => openOut_goesOn none trivial
  unfold doLastName
  apply gives_then
  intro nd
  split
  · grind [Status.goesOn, retryLookup_goesOn]
  · apply gives_then
    intro _
    apply gives_then
    intro found
    split
    · exact failed _
    · refine gives_bind (finishLookupOpen_goesOn _ _ _ _ _) fun finish holds => ?_
      cases finish with
      | ended status => exact gives_pure holds
      | retry truncate => exact retryLookup_goesOn _ _ _ _ _
    · grind [retryLookup_goesOn]

theorem doLastDots_goesOn (dir : DentryId) (type : LastType) :
    Gives Status.goesOn (doLastDots env oenv op dir type) := by
  unfold doLastDots
  extract_lets finishes
  have ends : ∀ status : Status, status.goesOn → Gives Status.goesOn (finishes status) := by
    intro status holds
    cases status with
    | link path => exact gives_pure holds
    | chainLink path => exact gives_pure holds
    | fail error => exact gives_pure holds
    | done =>
        apply gives_then
        intro error
        cases error with
        | some error => exact gives_pure trivial
        | none =>
            simp only
            split
            · exact openOut_goesOn none trivial
            · refine gives_bind (finishOpen_goesOn _ _ _ _) fun finish holds => ?_
              cases finish with
              | ended status => exact gives_pure holds
              | retry => exact gives_fault _
  clear_value finishes
  split
  · exact gives_bind (handleDots_goesOn _) ends
  · exact gives_bind (gives_pure trivial) ends

/-! ### The last component of a pass -/

/-- What a pass needs of its last part: a chain that stops leaves none pending, and none stops where the
    last component is a cached link. -/
structure StopsRightly (env : Env) (last : Walk Status) : Prop where
  steady : Steady last
  idle : ∀ w, Yields last (fun status w' => ¬status.goesOn → w'.nd.chainSize = 0) w
  cached : ∀ w link, CachedLink env w.nd.last.text link w → w.nd.lastType = .norm →
    Yields last (fun status _ => status.goesOn) w

theorem Gives.yields {α : Type} {kind : α → Prop} {x : Walk α} (gives : Gives kind x) :
    Yields x (fun value _ => kind value) w :=
  yields_iff.mpr fun value returned => gives w value returned

theorem chainLookup_idle : Yields (chainLookup env) (fun _ w' => w'.nd.chainSize = 0) w := by
  have unlocks : ∀ (status : Status) (w : World), w.nd.chainSize = 0 →
      Yields (do
          mutexUnlock (← getNd).chainParent
          return status : Walk Status) (fun _ w' => w'.nd.chainSize = 0) w := by
    intro status w idle
    unfold Yields
    rw [wp_bind, wp_getNd, wp_bind]
    apply Yields.mono (mutexUnlock_nd _)
    intro _ w' same
    rw [wp_pure, same]
    exact idle
  unfold Yields chainLookup
  rw [wp_bind]
  suffices body : Yields (chainLookupBody env) (fun _ w' => w'.nd.chainSize = 0) w from body
  unfold Yields chainLookupBody
  rw [wp_bind, wp_getNd]
  cases w.nd.inode with
  | none => trivial
  | some inode =>
      simp only [wp_ite]
      refine ⟨fun _ => ?_, fun _ => trivial⟩
      rw [wp_bind]
      apply Yields.mono yields_true
      intro status w₁ _
      have frees : ∀ status, Yields (do
          freeDchainList
          mutexUnlock (← getNd).chainParent
          return status : Walk Status) (fun _ w' => w'.nd.chainSize = 0) w₁ :=
        fun status => unlocks status _ rfl
      cases status with
      | done => exact frees _
      | link path => exact frees _
      | chainLink path =>
          rw [wp_bind, wp_getHeap, wp_bind, wp_getHeap, wp_bind, wp_modifyNd, wp_bind, wp_modifyHeap, wp_bind,
            freeDchainList, wp_update]
          exact unlocks _ _ rfl
      | fail error =>
          rw [wp_bind, freeDchainList, wp_update, wp_bind, terminateWalk, wp_bind, wp_getNd, pathPut,
            wp_modifyHeap]
          exact unlocks _ _ rfl

theorem walkChain_idle (follow : Bool) :
    Yields (walkChain env follow) (fun status w' => ¬status.goesOn → w'.nd.chainSize = 0) w := by
  have goes : ∀ {x : Walk Status} {w : World}, Gives Status.goesOn x →
      Yields x (fun status w' => ¬status.goesOn → w'.nd.chainSize = 0) w :=
    fun gives => gives.yields.mono fun _ _ goes stops => absurd goes stops
  have dots : Gives Status.goesOn (walkChainDots env) := by
    unfold walkChainDots
    apply gives_then
    intro nd
    grind [Status.goesOn, handleDots_goesOn]
  have hits : ∀ dentry, Gives Status.goesOn (chainHit env dentry follow) := by
    intro dentry
    unfold chainHit
    apply gives_then
    intro path
    apply gives_then
    intro h
    split
    · grind [Status.goesOn]
    · apply gives_then
      intro _
      grind [Status.goesOn]
  have fails : ∀ error, Gives Status.goesOn (chainFail error) := by
    intro error
    unfold chainFail
    grind [Status.goesOn]
  unfold Yields walkChain
  rw [wp_bind, wp_getNd]
  split
  · rw [wp_bind]
    exact goes dots
  · rw [wp_bind]
    suffices named : Yields (walkChainName env follow)
        (fun status w' => ¬status.goesOn → w'.nd.chainSize = 0) w from named
    unfold Yields walkChainName
    rw [wp_bind]
    apply Yields.mono yields_true
    intro base w₁ _
    rw [wp_bind, wp_getNd, wp_bind]
    apply Yields.mono yields_true
    intro found w₂ _
    rcases found with error | ⟨dentry, need⟩
    · exact goes (fails error)
    · cases need with
      | false => exact goes (hits dentry)
      | true =>
          unfold chainQueue
          simp only [wp_bind, wp_observe]
          apply Yields.mono yields_true
          intro granted w₃ _
          rw [wp_ite]
          refine ⟨fun _ => ?_, fun _ => goes (fails _)⟩
          simp only [wp_bind, wp_modifyHeap, wp_modifyNd, wp_getNd, wp_ite, wp_observe, wp_pure]
          refine ⟨fun _ => ?_, fun _ stops => absurd trivial stops⟩
          exact chainLookup_idle.mono fun _ _ idle _ => idle

theorem lookupLast_stops : StopsRightly env (lookupLast env) where
  steady := lookupLast_steady
  idle := by
    intro w
    unfold Yields lookupLast
    rw [wp_bind, wp_modifyNd, wp_bind, wp_getNd, wp_bind, wp_getHeap, wp_ite]
    constructor
    · intro _
      rw [wp_bind]
      apply Yields.mono (walkChain_idle _)
      intro status w₁ idle
      cases status with
      | done =>
          simp only [wp_bind, wp_getNd, wp_ite, wp_pure, wp_observe]
          refine ⟨fun _ stops => absurd trivial stops, fun _ => ?_⟩
          exact chainLookup_idle.mono fun _ _ idle _ => idle
      | link path => exact idle
      | chainLink path => exact idle
      | fail error => exact idle
    · intro _
      exact (walkComponent_goesOn _).yields.mono fun _ _ goes stops => absurd goes stops
  cached := by
    intro w link cached norm
    have flagged : ∀ flags follow, Yields (walkChain env follow)
        (fun status w' => LinkTaken follow status ∧ (status = .done → w'.nd.chainSize = 0))
        { w with nd := { w.nd with flags := flags } } :=
      fun flags follow => @walkChain_cached env { w with nd := { w.nd with flags := flags } } link
        (cached.transport rfl rfl rfl) norm follow
    unfold Yields lookupLast
    rw [wp_bind, wp_modifyNd, wp_bind, wp_getNd, wp_bind, wp_getHeap, wp_ite]
    constructor
    · intro _
      rw [wp_bind]
      apply Yields.mono (flagged _ _)
      rintro status w₁ ⟨taken, idle⟩
      cases status with
      | done =>
          simp only [wp_bind, wp_getNd, wp_ite, wp_pure]
          exact ⟨fun _ => trivial, fun busy => absurd (idle rfl) busy⟩
      | link path => exact trivial
      | chainLink path => exact taken.elim
      | fail error => exact trivial
    · intro _
      exact (walkComponent_goesOn _).yields

/-- `do_last` behind its flush. -/
theorem doLast_searches :
    Gives Status.goesOn (do
      observe .search
      modifyNd fun nd => { nd with flags := { nd.flags with parent := false } }
      let nd ← getNd
      if nd.lastType = .norm then
        doLastName env oenv op nd.path.dentry
      else
        doLastDots env oenv op nd.path.dentry nd.lastType) := by
  grind [doLastName_goesOn, doLastDots_goesOn]

theorem doLast_stops : StopsRightly env (doLast env oenv op) where
  steady := doLast_steady op
  idle := by
    intro w
    unfold Yields doLast
    rw [wp_bind, wp_getNd, wp_bind, wp_getHeap]
    split
    · simp only [wp_bind, wp_observe]
      apply Yields.mono chainLookup_idle
      intro status w₁ idle
      cases status with
      | done => exact doLast_searches.yields.mono fun _ _ goes stops => absurd goes stops
      | link path => exact fun _ => idle
      | chainLink path => exact fun _ => idle
      | fail error => exact fun _ => idle
    · exact doLast_searches.yields.mono fun _ _ goes stops => absurd goes stops
  cached := by
    intro w link cached norm
    unfold Yields doLast
    rw [wp_bind, wp_getNd, wp_bind, wp_getHeap]
    split
    · rename_i pending
      exact absurd cached.idle pending.2
    · exact doLast_searches.yields

/-! ### The bound -/

/-- The walk of the name begins with a cached link. -/
def Resuming (env : Env) (name : List UInt8) (w : World) : Prop :=
  ∃ this rest link, components name = this :: rest ∧ this.type = .norm ∧ CachedLink env this.text link w

section Bound

variable {last : Walk Status} {name : List UInt8} {w₁ w₂ : World}

theorem Passed.counted (stops : StopsRightly env last) (passed : Passed env last name w w₁ w₂) :
    Counted w w₁ ∧ Counted w₁ w₂ := by
  have first := ((walkText_steady (components name) : Steady (walkText env _)) w).1
  have second := (stops.steady w₁).1
  rw [passed.reached] at first
  rw [passed.left] at second
  exact ⟨first, second⟩

/-- A pass that starts over leaves no chain, so that the walk resumes if its first name is cached. -/
theorem Passed.resuming (stops : StopsRightly env last) (passed : Passed env last name w w₁ w₂)
    (resumes : Resumes env (.restart name w₂)) : Resuming env w₂.nd.last.name w₂ := by
  obtain ⟨path, stopped⟩ := passed.stopped
  have idle := yields_iff.mp (stops.idle w₁) _ stopped id
  rw [passed.left] at idle
  obtain ⟨link, cached, symlink, positive, bare, kept⟩ := resumes
  unfold nextCached at cached
  split at cached
  · cases cached
  · rename_i this rest first
    split at cached
    · rename_i norm
      exact ⟨this, rest, link, first, norm, idle, cached, symlink, Option.ne_none_iff_exists'.mp positive, bare,
        kept⟩
    · cases cached

/-- A pass that begins with a cached link starts over only behind another link that it has followed. -/
theorem Passed.counts (stops : StopsRightly env last) (resuming : Resuming env name w)
    (passed : Passed env last name w w₁ w₂) : w.totalLinkCount < w₂.totalLinkCount := by
  obtain ⟨this, rest, link, first, norm, cached⟩ := resuming
  obtain ⟨-, behind⟩ := passed.counted stops
  cases rest with
  | cons next rest =>
      have counts := yields_iff.mp (walkText_counts cached norm : Yields (walkText env (this :: next :: rest)) _ w)
      rw [← first] at counts
      have more := counts _ passed.walked rfl
      rw [passed.reached] at more
      exact Nat.lt_of_lt_of_le more behind.grows
  | nil =>
      -- the walk of the text only sets `nd->last`, so `last` finds the cached link
      have reached := passed.reached
      rw [first] at reached
      obtain ⟨path, stopped⟩ := passed.stopped
      have there : CachedLink env w₁.nd.last.text link w₁ := by
        rw [← reached]
        exact cached.transport rfl rfl rfl
      have type : w₁.nd.lastType = .norm := by
        rw [← reached]
        exact norm
      exact (yields_iff.mp (stops.cached w₁ link there type) _ stopped).elim

/-- The number of restarts is bounded by the links that may still be followed. -/
def Bounded (events : List Event) (w : World) : Prop :=
  (restartNames events).length ≤ maxTotalLinks - w.totalLinkCount

/-- One pass, in front of a walk that is bounded. -/
theorem passThrough_bounded {α : Type} {again : Walk α} {trailing : Path → Walk α} {ends : Status → Walk α}
    (stops : StopsRightly env last) (trails : ∀ path, Steady (trailing path))
    (quits : ∀ status, Steady (ends status))
    (bounded : ∀ w₂ : World, Resuming env w₂.nd.last.name w₂ → w₂.totalLinkCount ≤ maxTotalLinks →
      (∀ event ∈ (again w₂).events, Resumes env event) → Bounded (again w₂).events w₂)
    (few : w.totalLinkCount ≤ maxTotalLinks)
    (resumes : ∀ event ∈ (passThrough env last name again trailing ends w).events, Resumes env event) :
    (restartNames (passThrough env last name again trailing ends w).events).length ≤
        maxTotalLinks - w.totalLinkCount + 1 ∧
      (Resuming env name w → Bounded (passThrough env last name again trailing ends w).events w) := by
  unfold Bounded
  rcases @passThrough_cases env α last name again trailing ends (fun _ => True) stops.steady
      (fun path => ⟨trails path, fun _ _ _ => trivial⟩) (fun status => ⟨quits status, fun _ _ _ => trivial⟩) w
    with ⟨without, -⟩ | ⟨w₁, w₂, before, passed, quiet, -, events⟩
  · rw [without]
    exact ⟨Nat.zero_le _, fun _ => Nat.zero_le _⟩
  · obtain ⟨near, behind⟩ := passed.counted stops
    rw [events] at resumes ⊢
    have rest : Bounded _ w₂ := bounded w₂
      (passed.resuming stops (resumes _ (List.mem_append_right _ List.mem_cons_self)))
      (behind.limit (near.limit few))
      (fun event member => resumes event (List.mem_append_right _ (List.mem_cons_of_mem _ member)))
    have one : (restartNames (before ++ .restart name w₂ :: (again w₂).events)).length =
        (restartNames (again w₂).events).length + 1 := by
      rw [restartNames_append, restartNames_eq_nil quiet]
      rfl
    have total := Nat.le_trans near.grows behind.grows
    have limit := behind.limit (near.limit few)
    unfold Bounded at rest
    rw [one]
    constructor
    · omega
    · intro resuming
      have more := passed.counts stops resuming
      omega

theorem relookup_bounded (fuel : Nat) (name : List UInt8) (few : w.totalLinkCount ≤ maxTotalLinks)
    (resumes : ∀ event ∈ (relookup env false fuel name w).events, Resumes env event) :
    (restartNames (relookup env false fuel name w).events).length ≤ maxTotalLinks - w.totalLinkCount + 1 ∧
      (Resuming env name w → Bounded (relookup env false fuel name w).events w) := by
  induction fuel generalizing name w with
  | zero => exact ⟨Nat.zero_le _, fun _ => Nat.zero_le _⟩
  | succ fuel inductionHypothesis =>
      rw [relookup_succ] at resumes ⊢
      apply passThrough_bounded lookupLast_stops (trailingLinks_steady _) steady_pure _ few resumes
      intro w₂ resuming limit more
      exact (inductionHypothesis w₂.nd.last.name limit more).2 resuming

theorem openRelookup_bounded (fuel : Nat) (name : List UInt8) (few : w.totalLinkCount ≤ maxTotalLinks)
    (resumes : ∀ event ∈ (openRelookup env oenv op fuel name w).events, Resumes env event) :
    (restartNames (openRelookup env oenv op fuel name w).events).length ≤
        maxTotalLinks - w.totalLinkCount + 1 ∧
      (Resuming env name w → Bounded (openRelookup env oenv op fuel name w).events w) := by
  induction fuel generalizing name w with
  | zero => exact ⟨Nat.zero_le _, fun _ => Nat.zero_le _⟩
  | succ fuel inductionHypothesis =>
      rw [openRelookup_succ] at resumes ⊢
      have trails : ∀ path, Steady (do
          return (← openTrailing env oenv op (maxTotalLinks + 1) path, name)) :=
        fun path => steady_bind (openTrailing_steady _ _ _) fun _ => steady_pure _
      apply passThrough_bounded doLast_stops trails (fun _ => steady_pure _) _ few resumes
      intro w₂ resuming limit more
      exact (inductionHypothesis w₂.nd.last.name limit more).2 resuming

/-- With `LOOKUP_PARENT` there is only one pass. -/
theorem relookup_parent_steady (fuel : Nat) (name : List UInt8) : Steady (relookup env true fuel name) := by
  cases fuel with
  | zero => exact steady_fault _
  | succ fuel =>
      unfold relookup
      apply steady_bind (walkText_steady _)
      intro status
      grind

end Bound

/-- A run that resumes whenever it starts over does so at most `bound` times. -/
def RestartsWithin {α : Type} (env : Env) (bound : Nat) (x : Walk α) (w : World) : Prop :=
  (∀ event ∈ (x w).events, Resumes env event) → (restartNames (x w).events).length ≤ bound

theorem Steady.within {α : Type} {x : Walk α} (steady : Steady x) (bound : Nat) (w : World) :
    RestartsWithin env bound x w := by
  intro _
  rw [steady.restartNames]
  exact Nat.zero_le _

/-- What comes before or behind starts nothing over. -/
theorem RestartsWithin.behind {α β : Type} {x : Walk α} {f : α → Walk β} {bound : Nat}
    (quiet : restartNames (x w).events = [])
    (rest : ∀ value, RestartsWithin env bound (f value) (x w).state) :
    RestartsWithin env bound (x >>= f) w := by
  intro resumes
  rcases bind_cases x f w with ⟨fault, -, run⟩ | ⟨value, -, run⟩
  · rw [run, quiet]
    exact Nat.zero_le _
  · rw [run] at resumes ⊢
    rw [restartNames_append, quiet]
    exact rest value fun event member => resumes event (List.mem_append_right _ member)

/-- What comes behind, if it starts nothing over, adds no restart. -/
theorem restartNames_bind {α β : Type} {x : Walk α} {f : α → Walk β} (rest : ∀ value, Steady (f value))
    (w : World) : restartNames ((x >>= f) w).events = restartNames (x w).events := by
  rcases bind_cases x f w with ⟨fault, -, run⟩ | ⟨value, -, run⟩
  · rw [run]
  · rw [run, restartNames_append, (rest value).restartNames, List.append_nil]

theorem RestartsWithin.before {α β : Type} {x : Walk α} {f : α → Walk β} {bound : Nat}
    (within : RestartsWithin env bound x w) (rest : ∀ value, Steady (f value)) :
    RestartsWithin env bound (x >>= f) w := by
  intro resumes
  rw [restartNames_bind rest]
  apply within
  intro event member
  rcases bind_cases x f w with ⟨fault, -, run⟩ | ⟨value, -, run⟩
  · rw [run] at resumes
    exact resumes event member
  · rw [run] at resumes
    exact resumes event (List.mem_append_left _ member)

/-- If the dcache always finds the symlink behind which a walk starts over, no walk starts over more often
    than links may be followed, and once more. -/
theorem restarts_bounded (call : NameCall) (w : World)
    (resumes : ∀ event ∈ (call.run env w).events, Resumes env event) :
    (restartNames (call.run env w).events).length ≤ maxTotalLinks + 1 := by
  suffices within : RestartsWithin env (maxTotalLinks + 1) (call.run env) w from within resumes
  cases call with
  | lookup fuel dfd name flags =>
      apply RestartsWithin.behind ((pathInit_steady _ _ _).restartNames w)
      intro error
      cases error with
      | some error => exact (steady_pure _).within _ _
      | none =>
          apply RestartsWithin.behind rfl
          intro _
          apply RestartsWithin.before _ finishLookup_steady
          cases flags.parent with
          | true => exact (relookup_parent_steady fuel name).within _ _
          | false => exact fun resumes => (relookup_bounded fuel name (Nat.zero_le _) resumes).1
  | openat oenv op fuel dfd name flags =>
      apply RestartsWithin.before _ fun _ => steady_pure _
      unfold openPathname
      cases oenv.emptyFilp with
      | some error => exact (steady_pure _).within _ _
      | none =>
          apply RestartsWithin.behind ((pathInit_steady _ _ _).restartNames w)
          intro error
          cases error with
          | some error =>
              apply Steady.within
              exact steady_bind (finishOpenat_steady _) fun _ => steady_pure _
          | none =>
              apply RestartsWithin.behind rfl
              intro _
              apply RestartsWithin.before
              · exact fun resumes => (openRelookup_bounded fuel name (Nat.zero_le _) resumes).1
              · intro value
                exact steady_bind (finishOpenat_steady _) fun _ => steady_pure _

/-- The open of `l/x` starts over once, and follows the link. -/
theorem leading_link_bounded :
    restartNames (NameCall.run rootLinkEnv (.openat staleOpen readFlags 3 none [108, slash, 120] followFlags)
        coldWorld).events = [[108, slash, 120]] ∧
      (restartNames (NameCall.run rootLinkEnv (.openat staleOpen readFlags 3 none [108, slash, 120]
        followFlags) coldWorld).events).length ≤ maxTotalLinks + 1 := by
  refine ⟨by decide +kernel, restarts_bounded _ _ ?_⟩
  decide +kernel

/-! ### A link that is never accepted -/

/-- A server with the one symlink `l`, and a dcache that never accepts it. -/
def rejectingEnv : Env :=
  { Env.calm with
    kind := fun inode => if inode = 2 then .symlink else .directory
    revalidate := fun _ _ => .stale
    chainRpc := fun _ _ _ => ⟨none, fun _ => some 2⟩ }

/-- The root is there, and nothing temporary is hashed under the name. -/
structure SpinHeap (h : Heap) : Prop where
  root : h.dentry 0 = ⟨0, [slash], some 1, .directory⟩
  young : h.next ≠ 0
  cached : ∀ d, h.hash 0 [108] = some d → h.type d ≠ .chainTemp

theorem lookupDcache_rejects {h : Heap} (spins : SpinHeap h) :
    after (lookupDcache rejectingEnv [108] 0)
      (fun result h' => result = .ok (h.next, true) ∧ h'.dentry h.next = ⟨0, [108], none, .miss⟩ ∧
        h'.dentry 0 = ⟨0, [slash], some 1, .directory⟩ ∧ h'.held = h.held ∧ h'.next ≠ 0) h := by
  have allocates : ∀ h₁ : Heap, h₁.dentry = h.dentry → h₁.next = h.next → h₁.held = h.held →
      after (lookupAlloc rejectingEnv [108] 0)
        (fun result h' => result = .ok (h.next, true) ∧ h'.dentry h.next = ⟨0, [108], none, .miss⟩ ∧
          h'.dentry 0 = ⟨0, [slash], some 1, .directory⟩ ∧ h'.held = h.held ∧ h'.next ≠ 0) h₁ := by
    intro h₁ dentry next held
    have other : (0 : DentryId) ≠ h.next := fun same => spins.young same.symm
    simp only [lookupAlloc, dAlloc, rejectingEnv, Env.calm, after_bind, after_ask, if_true, after_get, after_set,
      after_pure]
    change Except.ok (h₁.next, true) = _ ∧ Function.update h₁.dentry h₁.next _ h.next = _ ∧
      Function.update h₁.dentry h₁.next _ 0 = _ ∧ h₁.held = _ ∧ h₁.next + 1 ≠ 0
    rw [next, dentry, Function.update_self, Function.update_of_ne other, spins.root]
    exact ⟨rfl, rfl, rfl, held, Nat.succ_ne_zero _⟩
  unfold lookupDcache
  rw [after_bind, after_dLookup]
  cases found : h.hash 0 [108] with
  | none => exact allocates h rfl rfl rfl
  | some d =>
      have notTemp : (h.dget d).dIsChainTemp d = false := by
        have type := spins.cached d found
        simpa [Heap.dIsChainTemp, Heap.type] using type
      simp only [after_bind, after_get, notTemp]
      rw [if_neg (by simp)]
      simp only [after_bind, after_ask, rejectingEnv, dInvalidate, Env.calm, if_true, after_modify, after_pure]
      have trimmed : Trimmed h _ := ((SameShape.dget h d).trimmed.trans (SameShape.ticked _).trimmed).trans
        ((SameShape.ticked _).trimmed.trans ((trimmed_dDrop _ d).trans (SameShape.dput _ d).trimmed))
      exact allocates _ trimmed.dentry trimmed.next trimmed.held

/-- A walk at the root with nothing pending. -/
structure Spinning (w : World) : Prop where
  heap : SpinHeap w.heap
  held : w.heap.held = []
  path : w.nd.path.dentry = 0
  inode : w.nd.inode = some 1
  size : w.nd.chainSize = 0
  list : w.nd.dchainList = []
  flag : w.nd.flags.automount = false

/-- The link is queued. -/
structure SpinQueued (fresh : DentryId) (w : World) : Prop where
  root : w.heap.dentry 0 = ⟨0, [slash], some 1, .directory⟩
  queued : w.heap.dentry fresh = ⟨0, [108], none, .chainTemp⟩
  apart : fresh ≠ 0
  young : w.heap.next ≠ 0
  held : w.heap.held = [1]
  path : w.nd.path.dentry = 0
  inode : w.nd.inode = some 1
  list : w.nd.dchainList = [⟨fresh, ⟨[108], 1⟩⟩]
  parent : w.nd.chainParent = 0
  flag : w.nd.flags.automount = false

/-- The link in place of the queued dentry. -/
theorem instantiated_spins {h : Heap} {fresh : DentryId}
    (queued : h.dentry fresh = ⟨0, [108], none, .chainTemp⟩) (apart : fresh ≠ 0) :
    (dInstantiate rejectingEnv fresh (some 2) h).dentry fresh = ⟨0, [108], some 2, .symlink⟩ ∧
      (dInstantiate rejectingEnv fresh (some 2) h).dentry 0 = h.dentry 0 ∧
      (dInstantiate rejectingEnv fresh (some 2) h).hash 0 [108] = some fresh := by
  have placed : (dInstantiate rejectingEnv fresh (some 2) h).dentry =
      Function.update h.dentry fresh ⟨0, [108], some 2, .symlink⟩ := by
    change Function.update h.dentry fresh _ = _
    rw [queued]
    rfl
  refine ⟨?_, ?_, ?_⟩
  · rw [placed, Function.update_self]
  · rw [placed, Function.update_of_ne apart.symm]
  · change Function.update h.hash _ (Function.update (h.hash _) _ (some fresh)) 0 [108] = _
    simp [Heap.setDentry, queued]

theorem fillEntries_spins {h : Heap} {fresh : DentryId} (name : Qstr)
    (queued : h.dentry fresh = ⟨0, [108], none, .chainTemp⟩) (apart : fresh ≠ 0) :
    fillEntries rejectingEnv (fun _ => some 2) 0 none [⟨fresh, name⟩] h =
      (([⟨fresh, name⟩], .symlink fresh (some 2)), dInstantiate rejectingEnv fresh (some 2) h.ticked) := by
  have placed := (@instantiated_spins h.ticked fresh queued apart).1
  have symlink : (dInstantiate rejectingEnv fresh (some 2) h.ticked).dIsSymlink fresh = true := by
    rw [Heap.dIsSymlink, Heap.type, placed]
    rfl
  change (if (dInstantiate rejectingEnv fresh (some 2) h.ticked).dIsSymlink fresh = true then _ else _ :
    Dcache _) (dInstantiate rejectingEnv fresh (some 2) h.ticked) = _
  rw [if_pos symlink]
  rfl

theorem chainLookup_spins {w : World} {fresh : DentryId} (queued : SpinQueued fresh w) :
    wp (fun _ claim => claim) (fun _ _ => False) (chainLookup rejectingEnv)
      (fun status w' => (∃ path, status = .chainLink path) ∧ Spinning w' ∧ w'.nd.last = ⟨[108], 1⟩) w := by
  have rootInode : w.heap.inode 0 = some 1 := by rw [Heap.inode, queued.root]
  have apart : (0 : DentryId) ≠ fresh := queued.apart.symm
  have filled := @fillEntries_spins w.heap.ticked.ticked fresh ⟨[108], 1⟩ queued.queued queued.apart
  obtain ⟨placed, root, hashed⟩ := @instantiated_spins w.heap.ticked.ticked.ticked fresh queued.queued queued.apart
  have held : (dInstantiate rejectingEnv fresh (some 2) w.heap.ticked.ticked.ticked).held = [1] := queued.held
  have young : (dInstantiate rejectingEnv fresh (some 2) w.heap.ticked.ticked.ticked).next ≠ 0 := queued.young
  unfold chainLookup
  rw [wp_bind]
  unfold chainLookupBody
  rw [wp_bind, wp_getNd, queued.inode]
  simp only
  rw [if_pos (by rfl), wp_bind]
  unfold nfsChainLookup
  rw [wp_bind, wp_getNd, queued.path, wp_bind, wp_derefInode]
  refine ⟨fun inode found => ?_, fun missing => (by cases rootInode.symm.trans missing)⟩
  rw [wp_bind, wp_dcache, after_ask, show rejectingEnv.allocateHandles w.heap.tick = .done from rfl]
  simp only
  rw [wp_bind, wp_dcache, after_ask, wp_bind, wp_observe, if_pos (by rfl), wp_bind]
  unfold nfsFillDchainList
  rw [wp_bind, wp_getNd, queued.list, wp_bind, wp_dcache]
  change after (fillEntries rejectingEnv (fun _ => some 2) 0 none _) _ w.heap.ticked.ticked
  rw [after, filled]
  simp only [wp_bind, wp_modifyNd, wp_modifyHeap, wp_getNd, wp_getHeap, wp_ite, wp_pure]
  generalize dInstantiate rejectingEnv fresh (some 2) w.heap.ticked.ticked.ticked = h at *
  refine ⟨fun _ => ?_, fun other => absurd trivial other⟩
  have back : (h.dput 0).parent fresh = 0 := by
    change (h.dentry fresh).parent = 0
    rw [placed]
  have symlink : h.dIsSymlink fresh = true := by
    rw [Heap.dIsSymlink, Heap.type, placed]
    rfl
  have rootInode' : h.inode 0 = some 1 := by
    rw [Heap.inode, root]
    exact rootInode
  rw [back, freeDchainList, wp_update]
  have freed : freeEntries 0 false [⟨fresh, ⟨[108], 1⟩⟩] ((h.dput 0).dget 0, w.nd.last) =
      (((h.dput 0).dget 0).dput fresh, ⟨[108], 1⟩) := by
    unfold freeEntries
    simp only [ne_eq, queued.apart, not_false_eq_true, if_true]
    exact if_pos symlink
  simp only [freed, queued.parent, mutexUnlock, wp_bind, wp_derefInode]
  refine ⟨fun inode' found' => ?_, fun missing => (by cases rootInode'.symm.trans missing)⟩
  cases rootInode'.symm.trans found'
  rw [wp_getHeap, if_pos (by change 1 ∈ h.held; rw [held]; exact List.mem_singleton.mpr rfl), wp_modifyHeap,
    wp_observe]
  refine ⟨⟨_, rfl⟩, ⟨⟨?_, young, ?_⟩, ?_, rfl, rootInode', rfl, rfl, queued.flag⟩, rfl⟩
  · exact root.trans queued.root
  · intro d hashes
    cases hashed.symm.trans hashes
    change (h.dentry fresh).type ≠ _
    rw [placed]
    intro other
    cases other
  · change h.held.erase 1 = []
    rw [held]
    rfl

theorem lookupLast_spins {w : World} (spins : Spinning w) (last : w.nd.last = ⟨[108], 1⟩)
    (norm : w.nd.lastType = .norm) :
    wp (fun _ claim => claim) (fun _ _ => False) (lookupLast rejectingEnv)
      (fun status w' => (∃ path, status = .chainLink path) ∧ Spinning w' ∧ w'.nd.last = ⟨[108], 1⟩) w := by
  have text : (⟨[108], 1⟩ : Qstr).text = [108] := rfl
  have rootInode : w.heap.inode 0 = some 1 := by rw [Heap.inode, spins.heap.root]
  unfold lookupLast
  rw [wp_bind, wp_modifyNd, wp_bind, wp_getNd, wp_bind, wp_getHeap]
  simp only [spins.path, rootInode]
  rw [if_pos (by simp [chainable, rejectingEnv, Env.calm, spins.flag])]
  unfold walkChain walkChainName chainBase
  simp only [wp_bind, wp_getNd, norm, wp_ite, wp_modifyNd, spins.size, spins.path, mutexLock, wp_derefInode,
    wp_getHeap, spins.held, wp_modifyHeap, wp_pure, wp_dcache, wp_observe, last, text]
  refine ⟨fun other => absurd rfl other, fun _ => ⟨fun other => absurd rfl other, fun _ => ⟨?_, ?_⟩⟩⟩
  · intro inode found
    cases rootInode.symm.trans found
    refine ⟨(fun held => by cases held), fun _ => ?_⟩
    apply after_mono (@lookupDcache_rejects { w.heap with held := [1] } ⟨spins.heap.root, spins.heap.young, spins.heap.cached⟩)
    rintro result h ⟨rfl, fresh, root, held, young⟩
    have apart : w.heap.next ≠ 0 := spins.heap.young
    unfold chainQueue
    simp only [wp_bind, wp_observe, wp_dcache, after_ask]
    rw [if_pos (by rfl)]
    simp only [wp_bind, wp_modifyHeap, wp_modifyNd, wp_getNd, wp_ite, wp_pure, wp_observe, spins.list,
      List.nil_append]
    refine ⟨fun full => absurd full (by decide), fun _ => ⟨(fun none => by cases none), fun _ => ?_⟩⟩
    apply chainLookup_spins
    have typed : (h.ticked.dSetType w.heap.next .chainTemp).dentry =
        Function.update h.dentry w.heap.next ⟨0, [108], none, .chainTemp⟩ := by
      change Function.update h.dentry w.heap.next _ = _
      rw [show h.ticked.dentry w.heap.next = _ from fresh]
    refine ⟨?_, ?_, apart, young, held, spins.path, spins.inode, rfl, rfl, spins.flag⟩
    · simp only
      rw [typed, Function.update_of_ne apart.symm]
      exact root
    · simp only
      rw [typed, Function.update_self]
  · intro missing
    cases rootInode.symm.trans missing

/-- Every pass starts over, for as long as it is let. -/
theorem relookup_spins (fuel : Nat) {w : World} (spins : Spinning w) :
    (restartNames (relookup rejectingEnv false fuel [108] w).events).length = fuel := by
  induction fuel generalizing w with
  | zero => rfl
  | succ fuel inductionHypothesis =>
      let nd : Nameidata :=
        { w.nd with last := ⟨[108], 1⟩, lastType := .norm, flags := { w.nd.flags with jumped := false } }
      have text : walkText rejectingEnv (components [108]) w = ⟨.ok .done, { w with nd := nd }, []⟩ := rfl
      have set : Spinning { w with nd := nd } :=
        ⟨spins.heap, spins.held, spins.path, spins.inode, spins.size, spins.list, spins.flag⟩
      have ran := lookupLast_spins set rfl rfl
      rw [wp_silent] at ran
      have quiet := (lookupLast_steady : Steady (lookupLast rejectingEnv)).restartNames { w with nd := nd }
      rw [relookup_succ, passThrough, bind_ok_at text]
      simp only [List.nil_append]
      rcases bind_cases (lookupLast rejectingEnv) _ { w with nd := nd } with
        ⟨fault, failed, -⟩ | ⟨status, ended, run⟩
      · rw [failed] at ran
        exact ran.elim
      · rw [ended] at ran
        obtain ⟨⟨path, rfl⟩, again, last⟩ := ran
        rw [lastThrough, run, restartNames_append, quiet]
        generalize (lookupLast rejectingEnv { w with nd := nd }).state = w₂ at again last
        have rest := inductionHypothesis again
        change (restartNames (relookup rejectingEnv false fuel w₂.nd.last.name w₂).events).length + 1 = _
        rw [last, rest]

/-- A lookup of `l` with nothing cached starts over as often as it is let. -/
theorem lookup_spins (fuel : Nat) :
    (restartNames (NameCall.run rejectingEnv (.lookup fuel none [108] followFlags) coldWorld).events).length =
      fuel := by
  let started := (pathInit rejectingEnv none [108] { followFlags with parent := true } coldWorld).state
  have spins : Spinning { started with totalLinkCount := 0 } :=
    ⟨⟨rfl, Nat.one_ne_zero, fun _ found => (by cases found)⟩, rfl, rfl, rfl, rfl, rfl, rfl⟩
  have init : pathInit rejectingEnv none [108] { followFlags with parent := true } coldWorld =
      ⟨.ok none, started, [.returned .pathInit started]⟩ := rfl
  simp only [NameCall.run, pathLookupat]
  rw [bind_ok_at init]
  change (restartNames ((relookup rejectingEnv false fuel [108] >>= finishLookup rejectingEnv)
    { started with totalLinkCount := 0 }).events).length = fuel
  rw [restartNames_bind finishLookup_steady]
  exact relookup_spins fuel spins

/-- No number bounds the restarts of a lookup of `l`. -/
theorem rejected_link_restarts :
    ¬∃ bound : List UInt8 → Nat, ∀ (env : Env) (call : NameCall) (w : World),
      (restartNames (call.run env w).events).length ≤ bound call.name := by
  rintro ⟨bound, bounds⟩
  have bounded := bounds rejectingEnv (.lookup (bound [108] + 1) none [108] followFlags) coldWorld
  rw [lookup_spins] at bounded
  exact absurd bounded (Nat.not_succ_le_self _)

end Nfs4Compound.Vfs
