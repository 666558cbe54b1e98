/-
Module: Nfs4Compound.Proofs.CurrentTree
Layer: Proofs
Purpose: A walk that takes from the dcache only what the server still says resolves every name to an
  object the server binds to it during the walk.
Imports: Nfs4Compound.Vfs.CurrentTree, Nfs4Compound.Proofs.ChainInvariant, Nfs4Compound.Attr.Cache
Trusted boundary: none
Main exports: OnTrail, walkStep_onTrail, lookupLast_onTrail, walk_sees_current_tree
-/
import Nfs4Compound.Vfs.CurrentTree
import Nfs4Compound.Proofs.ChainInvariant
import Nfs4Compound.Attr.Cache

namespace Nfs4Compound.Vfs

open Prog

variable {env : Env} {benign : Event → Prop} {binds : Bindings} {h h' : Heap} {w : World} {first : Nat}
  {start : Ino} {names : List Name}

/-! ### Trails -/

theorem Trail.mono {covers covers' : Ino → Ino → Prop} {last last' : Nat} {object : Ino}
    (trail : Trail binds covers first last start names object) (order : last ≤ last')
    (implies : ∀ x y, covers x y → covers' x y) : Trail binds covers' first last' start names object := by
  induction trail with
  | here => exact .here
  | name before since till bound inductionHypothesis =>
      exact .name inductionHypothesis since (Nat.le_trans till order) bound
  | cross before crossed inductionHypothesis => exact .cross inductionHypothesis (implies _ _ crossed)

theorem Covers.grows {covered mounted : Ino} (grows : Grows h h') (covers : Covers env h covered mounted) :
    Covers env h' covered mounted := by
  obtain ⟨path, mount, point, found, below, above⟩ := covers
  exact ⟨path, mount, point, found, grows.inode _ _ below, grows.inode _ _ above⟩

theorem MountsSound.grows (mounts : MountsSound env h) (grows : Grows h h') : MountsSound env h' := by
  constructor
  · intro d point
    obtain ⟨inode, found⟩ := mounts.points d point
    exact ⟨inode, grows.inode _ _ found⟩
  · intro mount
    obtain ⟨inode, found⟩ := mounts.roots mount
    exact ⟨inode, grows.inode _ _ found⟩

/-- A trail that was laid up to the heap `h`. -/
abbrev TrailAt (env : Env) (binds : Bindings) (first : Nat) (start : Ino) (h : Heap) :
    List Name → Ino → Prop :=
  Trail binds (Covers env h) first h.tick start

theorem TrailAt.grows {object : Ino} (trail : TrailAt env binds first start h names object)
    (grows : Grows h h') : TrailAt env binds first start h' names object :=
  Trail.mono trail grows.tick fun _ _ covers => covers.grows grows

/-- The trail leads up a pile of mounts. -/
theorem TrailAt.pile {path top : Path} {object : Ino} (mounts : MountsSound env h)
    (pile : MountPile env path top) (found : h.inode path.dentry = some object)
    (trail : TrailAt env binds first start h names object) :
    ∃ mounted, h.inode top.dentry = some mounted ∧ TrailAt env binds first start h names mounted := by
  induction pile generalizing object with
  | top => exact ⟨object, found, trail⟩
  | @covered path mount top point below more inductionHypothesis =>
      obtain ⟨root, rootIs⟩ := mounts.roots mount
      exact inductionHypothesis rootIs (.cross trail ⟨path, mount, point, below, found, rootIs⟩)

/-- The trail goes on along names that are bound one below the other. -/
theorem TrailAt.bound {dir : Ino} {t : Nat} {more : List Name} {objects : List Ino} {object : Ino}
    (trail : TrailAt env binds first start h names dir) (since : first ≤ t) (till : t ≤ h.tick)
    (bound : Bound binds t dir more objects) (last : objects.getLast? = some object) :
    TrailAt env binds first start h (names ++ more) object := by
  induction more generalizing dir names objects with
  | nil =>
      cases objects with
      | nil => cases last
      | cons o objects => exact bound.elim
  | cons name more inductionHypothesis =>
      cases objects with
      | nil => exact bound.elim
      | cons o objects =>
          obtain ⟨here, there⟩ := bound
          have next : TrailAt env binds first start h (names ++ [name]) o := .name trail since till here
          cases objects with
          | nil =>
              cases more with
              | nil =>
                  cases last
                  exact next
              | cons n more => exact there.elim
          | cons o' objects =>
              rw [List.getLast?_cons_cons] at last
              have all := inductionHypothesis next there last
              rw [List.append_assoc] at all
              exact all

/-! ### Where the walk is -/

/-- There is a trail to the place of the walk, and the names of its pending chain complete the names it
    has taken. -/
structure OnTrail (env : Env) (binds : Bindings) (first : Nat) (start : Ino) (names : List Name)
    (w : World) : Prop where
  mounts : MountsSound env w.heap
  since : first ≤ w.heap.tick
  trail : ∃ before dir, names = before ++ w.nd.dchainList.map (·.name.text) ∧
    w.heap.inode w.nd.path.dentry = some dir ∧ TrailAt env binds first start w.heap before dir

theorem OnTrail.grows {w' : World} (onTrail : OnTrail env binds first start names w)
    (grows : Grows w.heap w'.heap) (path : w'.nd.path = w.nd.path)
    (list : w'.nd.dchainList = w.nd.dchainList) : OnTrail env binds first start names w' := by
  obtain ⟨mounts, since, before, dir, split, dirIs, trail⟩ := onTrail
  refine ⟨mounts.grows grows, Nat.le_trans since grows.tick, before, dir, by rw [list]; exact split, ?_,
    trail.grows grows⟩
  rw [path]
  exact grows.inode _ _ dirIs

/-- The walk has no chain pending and has arrived at an object. -/
theorem onTrail_arrived {object : Ino} (mounts : MountsSound env w.heap) (since : first ≤ w.heap.tick)
    (list : w.nd.dchainList = []) (found : w.heap.inode w.nd.path.dentry = some object)
    (trail : TrailAt env binds first start w.heap names object) : OnTrail env binds first start names w :=
  ⟨mounts, since, names, object, by rw [list]; simp, found, trail⟩

/-- A dentry that was taken from the dcache continues the trail. -/
theorem Accepted.trail {w' : World} {d : DentryId} {dir inode : Ino} (ok : HeapOk w.heap)
    (currently : ∀ event, benign event → Current env binds event)
    (accepted : Accepted benign w w' w.nd.path.dentry d) (grows : Grows w.heap w'.heap)
    (found : w.heap.hash w.nd.path.dentry w.nd.last.text = some d)
    (dirIs : w.heap.inode w.nd.path.dentry = some dir) (positive : w.heap.inode d = some inode)
    (since : first ≤ w.heap.tick) (trail : TrailAt env binds first start w.heap names dir) :
    TrailAt env binds first start w'.heap (names ++ [w.nd.last.text]) inode := by
  obtain ⟨told, dentries, after, till⟩ := accepted
  rename_i moment
  have bound := currently _ told dir inode
    (by rw [Heap.inode, dentries]; exact dirIs) (by rw [Heap.inode, dentries]; exact positive)
  rw [dentries, (ok.hashed _ _ _ found).2.1] at bound
  exact .name (trail.grows grows) (Nat.le_trans since after) till bound

/-- A dentry with something mounted on it has an inode. -/
theorem MountPile.positive {path top : Path} {object : Ino} (mounts : MountsSound env h)
    (pile : MountPile env path top) (found : h.inode top.dentry = some object) :
    ∃ inode, h.inode path.dentry = some inode := by
  cases pile with
  | top => exact ⟨object, found⟩
  | covered point below more => exact mounts.points _ point

/-- A dentry that was found in the dcache or that the server told of, and what is mounted on it, continue
    the trail. -/
theorem Source.trail {w' : World} {d : DentryId} {dir object : Ino} {mnt : MountId} {top : Path}
    (ok : HeapOk w.heap) (answers : AnswersFrom env binds)
    (currently : ∀ event, benign event → Current env binds event) (source : Source benign env w w' d)
    (grows : Grows w.heap w'.heap) (mounts : MountsSound env w'.heap)
    (pile : MountPile env ⟨mnt, d⟩ top) (found : w'.heap.inode top.dentry = some object)
    (dirIs : w.heap.inode w.nd.path.dentry = some dir) (since : first ≤ w.heap.tick)
    (trail : TrailAt env binds first start w.heap names dir) :
    TrailAt env binds first start w'.heap (names ++ [w.nd.last.text]) object := by
  obtain ⟨inode, positive⟩ := pile.positive mounts found
  have positive : w'.heap.inode d = some inode := positive
  have named : TrailAt env binds first start w'.heap (names ++ [w.nd.last.text]) inode := by
    cases source with
    | cached hashed same accepted =>
        rw [same] at positive
        exact accepted.trail ok currently grows hashed dirIs positive since trail
    | asked askedOf told =>
        cases dirIs.symm.trans askedOf
        obtain ⟨t, after, till, reply⟩ := told inode positive
        exact .name (trail.grows grows) (Nat.le_trans since after) (Nat.le_of_lt till)
          (answers.lookup _ _ _ _ reply)
  obtain ⟨mounted, above, higher⟩ := TrailAt.pile mounts pile positive named
  cases found.symm.trans above
  exact higher

theorem Crossing.pile {found path : Path} (crossing : Crossing benign env h found path) :
    MountPile env found path := by
  cases crossing with
  | straight unmounted => exact .top
  | through pile told same => exact pile

/-! ### A chain -/

theorem Bound.length {t : Nat} {dir : Ino} {names : List Name} {objects : List Ino}
    (bound : Bound binds t dir names objects) : objects.length = names.length := by
  induction names generalizing dir objects with
  | nil =>
      cases objects with
      | nil => rfl
      | cons o objects => exact bound.elim
  | cons name names inductionHypothesis =>
      cases objects with
      | nil => exact bound.elim
      | cons o objects =>
          rw [List.length_cons, List.length_cons, inductionHypothesis bound.2]

/-- One more name is pending. -/
theorem Extended.onTrail {w' : World} (extended : Extended w w')
    (onTrail : OnTrail env binds first start names w) :
    OnTrail env binds first start (names ++ [w.nd.last.text]) w' := by
  obtain ⟨mounts, since, before, dir, split, dirIs, trail⟩ := onTrail
  obtain ⟨d, list⟩ := extended.list
  refine ⟨mounts.grows extended.grows, Nat.le_trans since extended.grows.tick, before, dir, ?_, ?_,
    trail.grows extended.grows⟩
  · rw [split, list, List.map_append, List.append_assoc]
    rfl
  · rw [extended.path]
    exact extended.grows.inode _ _ dirIs

/-- The pending chain is looked up: all its names are bound, one below the other, while the server
    answers. -/
theorem ChainLookupEnds.onTrail {w' : World} (answers : AnswersFrom env binds)
    (currently : ∀ event, benign event → Current env binds event)
    (ends : ChainLookupEnds benign env w .done w') (onTrail : OnTrail env binds first start names w) :
    OnTrail env binds first start names w' := by
  obtain ⟨mounts, since, before, dir, split, dirIs, trail⟩ := onTrail
  cases ends with
  | done flushed askedOf answered status asked landing =>
      cases dirIs.symm.trans askedOf
      have inPlace := currently _ answered status
      have grows := flushed.grows
      cases landing with
      | displaced displaced type => exact absurd inPlace displaced
      | stayed displaced path inodeIs => exact absurd inPlace displaced
      | @moved entry inode last slotIs path inodeIs filled =>
          have lastIs : w.nd.dchainList[w.nd.dchainList.length - 1]? = some entry := by
            rw [← List.getLast?_eq_getElem?]
            exact last
          obtain ⟨object, slot, -⟩ := inPlace _ entry lastIs
          cases slotIs.symm.trans slot
          obtain ⟨objects, bound, holds⟩ := answers.chain _ _ _ status
          have nonempty : w.nd.dchainList ≠ [] := by
            rintro empty
            rw [empty] at last
            cases last
          have short : w.nd.dchainList.length - 1 < (w.nd.dchainList.map (·.name.text)).length := by
            rw [List.length_map]
            exact Nat.sub_lt (List.length_pos_iff.mpr nonempty) Nat.one_pos
          have lastObject : objects.getLast? = some object := by
            rw [List.getLast?_eq_getElem?, bound.length, List.length_map]
            exact holds _ _ slot short
          have arrived : w'.heap.inode w'.nd.path.dentry = some object := by
            rw [path]
            exact filled
          have complete : TrailAt env binds first start w'.heap names object := by
            rw [split]
            exact TrailAt.bound (trail.grows grows) (Nat.le_succ_of_le since) asked bound lastObject
          exact onTrail_arrived (mounts.grows grows) (Nat.le_trans since grows.tick) flushed.quiet.list arrived
            complete

/-! ### One name -/

theorem NameEnds.onTrail {w' : World} (ok : HeapOk w.heap) (answers : AnswersFrom env binds)
    (currently : ∀ event, benign event → Current env binds event) (ends : NameEnds benign env w .done w')
    (onTrail : OnTrail env binds first start names w) :
    OnTrail env binds first start (names ++ [w.nd.last.text]) w' := by
  cases ends with
  | queued extended limit => exact extended.onTrail onTrail
  | flushed extended ends => exact ends.onTrail answers currently (extended.onTrail onTrail)
  | hit idle found positive accepted crossing inodeIs flushed =>
      obtain ⟨mounts, since, before, dir, split, dirIs, trail⟩ := onTrail
      have grows := flushed.grows
      rw [idle, List.map_nil, List.append_nil] at split
      subst split
      have named := accepted.trail ok currently grows found dirIs positive since trail
      obtain ⟨mounted, above, higher⟩ :=
        TrailAt.pile (mounts.grows grows) crossing.pile (grows.inode _ _ positive) named
      exact onTrail_arrived (mounts.grows grows) (Nat.le_trans since grows.tick) flushed.quiet.list above higher

theorem ComponentEnds.onTrail {w' : World} (quiet : Quiet w) (norm : w.nd.lastType = .norm)
    (answers : AnswersFrom env binds) (currently : ∀ event, benign event → Current env binds event)
    (ends : ComponentEnds benign env w .done w') (onTrail : OnTrail env binds first start names w) :
    OnTrail env binds first start (names ++ [w.nd.last.text]) w' := by
  obtain ⟨mounts, since, before, dir, split, dirIs, trail⟩ := onTrail
  rw [quiet.list, List.map_nil, List.append_nil] at split
  subst split
  cases ends with
  | dots other ends => exact absurd norm other
  | done _ moved source pile inodeIs positive =>
      have grows := moved.grows
      obtain ⟨object, found⟩ := Option.ne_none_iff_exists'.mp positive
      rw [inodeIs] at found
      exact onTrail_arrived (mounts.grows grows) (Nat.le_trans since grows.tick) moved.quiet.list found
        (source.trail quiet.ok answers currently grows (mounts.grows grows) pile found dirIs since trail)

theorem Current.crossesAlike {event : Event} (current : Current env binds event) :
    Vfs.crossesAlike env event := by
  cases event with
  | accept base d w => trivial
  | answered reply w => trivial
  | _ => exact current

theorem walkStep_onTrail (answers : AnswersFrom env binds)
    (currently : ∀ event, benign event → Current env binds event) (ready : Ready env w)
    (norm : w.nd.lastType = .norm) (onTrail : OnTrail env binds first start names w) :
    Shows benign (walkStep env)
      (fun status w' => StepEnds env status w' ∧
        (status = .done → OnTrail env binds first start (names ++ [w.nd.last.text]) w')) w := by
  have crosses : ∀ event, benign event → crossesAlike env event :=
    fun event told => (currently event told).crossesAlike
  apply wp_and (walkStep_ends crosses ready)
  rw [walkStep, wp_bind, wp_getNd, wp_ite]
  constructor
  · intro _
    apply Shows.mono (walkChain_ends ready.between true)
    rintro status w' ends rfl
    cases ends with
    | name _ ends => exact ends.onTrail ready.between.ok answers currently onTrail
    | dots other ends => exact absurd norm other
  · intro notChains
    rcases ready with ⟨quiet, -⟩ | busy
    · apply Shows.mono (walkComponent_ends quiet true)
      rintro status w' ends rfl
      exact ends.onTrail quiet norm answers currently onTrail
    · exact absurd busy.chainable notChains

/-! ### Whole paths -/

/-- Where the walk of a text stops: before the last name, or, if there is no name, where it is. -/
inductive LastLeft (env : Env) (binds : Bindings) (first : Nat) (start : Ino) (names : List Name)
    (w : World) : Prop where
  | name {before} (split : names = before ++ [w.nd.last.text]) (norm : w.nd.lastType = .norm)
      (onTrail : OnTrail env binds first start before w) : LastLeft env binds first start names w
  | nothing (empty : names = []) (root : w.nd.lastType = .root) (idle : w.nd.dchainList = [])
      (onTrail : OnTrail env binds first start names w) : LastLeft env binds first start names w

/-- Following a symlink does not succeed. -/
def Barred (benign : Event → Prop) (env : Env) (nested : Path → Walk Status) : Prop :=
  ∀ path w, Quiet w → Shows benign (nested path) (fun status w' => NestEnds env status w' ∧ status ≠ .done) w

theorem linkPathWalk_onTrail (answers : AnswersFrom env binds)
    (currently : ∀ event, benign event → Current env binds event) {nested : Path → Walk Status}
    (barred : Barred benign env nested) (qs : List Qstr) (nonempty : qs ≠ [])
    (ordinary : ∀ q ∈ qs, q.type = .norm) (ready : Ready env w)
    (onTrail : OnTrail env binds first start names w) :
    Shows benign (linkPathWalk env nested qs)
      (fun status w' => status = .done →
        LastLeft env binds first start (names ++ qs.map Qstr.text) w') w := by
  induction qs generalizing w names with
  | nil => exact absurd rfl nonempty
  | cons this rest inductionHypothesis =>
      have norm : this.type = .norm := ordinary this List.mem_cons_self
      have set : Ready env { w with nd := w.nd.withLast this } := ready.setLast _ rfl rfl
      have onTrail : OnTrail env binds first start names { w with nd := w.nd.withLast this } := onTrail.grows (.refl _) rfl rfl
      cases rest with
      | nil => exact fun _ => .name rfl norm onTrail
      | cons next rest =>
          unfold Shows
          rw [linkPathWalk, wp_bind, setLast, wp_modifyNd, wp_bind]
          apply Shows.mono (walkStep_onTrail answers currently set norm onTrail)
          rintro status w₁ ⟨ends, arrives⟩
          have fails : ∀ path, Quiet w₁ → Shows benign
              (nested path >>= linkPathWalkOn env nested (next :: rest))
              (fun status w' => status = .done →
                LastLeft env binds first start (names ++ (this :: next :: rest).map Qstr.text) w') w₁ := by
            intro path quiet
            unfold Shows
            rw [wp_bind]
            apply Shows.mono (barred path w₁ quiet)
            rintro status w₂ ⟨ended, never⟩
            cases status with
            | done => exact absurd rfl never
            | fail error =>
                intro other
                cases other
            | link path => exact ended.elim
            | chainLink path => exact ended.elim
          cases status with
          | fail error =>
              intro other
              cases other
          | link path => exact fails path ends
          | chainLink path => exact fails path ends
          | done =>
              simp only [wp_bind, wp_getHeap, wp_getNd, wp_ite, wp_pure]
              constructor
              · intro directory
                have ready : Ready env w₁ := by
                  rcases ends with settled | busy
                  · exact settled.ready directory
                  · exact .inr busy
                have goesOn := inductionHypothesis (List.cons_ne_nil _ _)
                  (fun q member => ordinary q (List.mem_cons_of_mem _ member)) ready (arrives rfl)
                rw [List.append_assoc] at goesOn
                exact goesOn
              · intro _
                simp only [terminateWalk, pathPut, wp_bind, wp_getNd, wp_modifyHeap]
                intro other
                cases other

theorem followLink_barred (free : ∀ event, benign event → LinkFree event) (walk : List Qstr → Walk Status)
    (link : Path) (post : Except Errno Path → World → Prop) :
    Shows benign (followLink env walk link) post w := by
  unfold Shows
  rw [followLink, wp_bind, wp_observe]
  exact fun told => (free _ told).elim

theorem nestedSymlink_barred (crosses : ∀ event, benign event → crossesAlike env event)
    (free : ∀ event, benign event → LinkFree event) (nest : Nat) :
    Barred benign env (nestedSymlink env nest) := by
  intro path w quiet
  apply wp_and (nestedSymlink_ends crosses nest path quiet)
  have looped : ∀ {w' : World}, Shows benign
      (nestedLoop env (linkPathWalk env (nestedSymlink env (nest - 1))) (maxTotalLinks + 1) path)
      (fun status _ => status ≠ .done) w' := by
    intro w'
    unfold Shows
    rw [nestedLoop, wp_bind]
    exact followLink_barred free _ path _
  cases nest with
  | zero =>
      rw [nestedSymlink]
      simp only [pathPut, wp_bind, wp_read, wp_ite, wp_modifyHeap, wp_getNd, wp_pure, wp_fault]
      refine ⟨fun _ => (fun other => by cases other), fun _ => ⟨fun _ => ⟨by simp, by simp⟩, fun _ => ⟨by simp, by simp⟩⟩⟩
  | succ nest =>
      rw [nestedSymlink]
      simp only [pathPut, wp_bind, wp_read, wp_ite, wp_modifyHeap, wp_getNd, wp_pure, wp_fault, wp_modifyNd,
        wp_update]
      refine ⟨fun _ => (fun other => by cases other), fun _ => ⟨fun _ => ⟨by simp, by simp⟩, fun _ => looped⟩⟩

/-! ### The last component -/

theorem LastLeft.setFlags (left : LastLeft env binds first start names w) (flags : LookupFlags) :
    LastLeft env binds first start names { w with nd := { w.nd with flags := flags } } := by
  cases left with
  | name split norm onTrail => exact .name split norm (onTrail.grows (.refl _) rfl rfl)
  | nothing empty root idle onTrail => exact .nothing empty root idle (onTrail.grows (.refl _) rfl rfl)

/-- Dots other than `..` leave the walk where it is. -/
theorem DotEnds.onTrail {status : Status} {w' : World} (root : w.nd.lastType = .root)
    (ends : DotEnds w.nd.lastType w status w') (onTrail : OnTrail env binds first start names w) :
    OnTrail env binds first start names w' := by
  cases ends with
  | failed up _ =>
      rw [root] at up
      cases up
  | moved up _ _ =>
      rw [root] at up
      cases up
  | stayed => exact onTrail

theorem WalkChainEnds.onTrail {w' : World} (between : Between w) (answers : AnswersFrom env binds)
    (currently : ∀ event, benign event → Current env binds event)
    (ends : WalkChainEnds benign env w .done w') (left : LastLeft env binds first start names w) :
    OnTrail env binds first start names w' := by
  cases left with
  | name split norm onTrail =>
      cases ends with
      | dots other ends => exact absurd norm other
      | name _ ends =>
          rw [split]
          exact ends.onTrail between.ok answers currently onTrail
  | nothing empty root idle onTrail =>
      cases ends with
      | name norm ends =>
          rw [root] at norm
          cases norm
      | dots other ends =>
          cases ends with
          | dots quiet ends => exact ends.onTrail root onTrail
          | stayed queued => exact onTrail
          | popped popped =>
              apply onTrail.grows popped.grows popped.path
              rw [popped.list, idle]
              rfl

/-- The last name is queued, and what is pending is looked up. -/
theorem lastOfChain_onTrail (between : Between w) (answers : AnswersFrom env binds)
    (currently : ∀ event, benign event → Current env binds event)
    (left : LastLeft env binds first start names w) (follow : Bool) :
    Shows benign
      (do
        match ← walkChain env follow with
        | .done =>
            if (← getNd).chainSize = 0 then
              return .done
            else
              observe (.flush .lookupLast)
              chainLookup env
        | other => return other)
      (fun status w' => status = .done → OnTrail env binds first start names w') w := by
  unfold Shows
  rw [wp_bind]
  apply Shows.mono (walkChain_ends between follow)
  intro status w₁ ends
  cases status with
  | fail error =>
      intro other
      cases other
  | link path =>
      intro other
      cases other
  | chainLink path =>
      intro other
      cases other
  | done =>
      have onTrail := ends.onTrail between answers currently left
      simp only [wp_bind, wp_getNd, wp_ite, wp_pure, wp_observe]
      refine ⟨fun _ _ => onTrail, ?_⟩
      intro busy _
      refine ⟨trivial, ?_⟩
      rcases ends.between between with quiet | ⟨queued, -⟩
      · exact absurd quiet.size busy
      · apply Shows.mono (chainLookup_ends queued)
        rintro status w' ends rfl
        exact ends.onTrail answers currently onTrail

theorem lastByItself_onTrail (quiet : Quiet w) (answers : AnswersFrom env binds)
    (currently : ∀ event, benign event → Current env binds event)
    (left : LastLeft env binds first start names w) (follow : Bool) :
    Shows benign (walkComponent env follow)
      (fun status w' => status = .done → OnTrail env binds first start names w') w := by
  apply Shows.mono (walkComponent_ends quiet follow)
  rintro status w' ends rfl
  cases left with
  | name split norm onTrail =>
      rw [split]
      exact ends.onTrail quiet norm answers currently onTrail
  | nothing empty root idle onTrail =>
      cases ends with
      | dots other ends => exact ends.onTrail root onTrail
      | done norm moved source pile inodeIs positive =>
          rw [root] at norm
          cases norm

theorem lookupLast_onTrail (answers : AnswersFrom env binds)
    (currently : ∀ event, benign event → Current env binds event) (atLast : AtLast env w)
    (left : LastLeft env binds first start names w) :
    Shows benign (lookupLast env)
      (fun status w' => LastEnds status w' ∧ (status = .done → OnTrail env binds first start names w')) w := by
  apply wp_and (lookupLast_ends atLast)
  rw [lookupLast, wp_bind, wp_modifyNd, wp_bind, wp_getNd, wp_bind, wp_getHeap, wp_ite]
  have flagged := atLast.setFlags
    { w.nd.flags with
      follow := w.nd.flags.follow || decide (w.nd.lastType = .norm ∧ w.nd.last.slashAfter = true)
      directory := w.nd.flags.directory || decide (w.nd.lastType = .norm ∧ w.nd.last.slashAfter = true)
      parent := false } rfl
  constructor
  · intro _
    exact lastOfChain_onTrail flagged.between answers currently (left.setFlags _) _
  · intro notChains
    exact lastByItself_onTrail (flagged.quiet notChains) answers currently (left.setFlags _) _

theorem trailingLinks_barred (free : ∀ event, benign event → LinkFree event) (fuel : Nat) (path : Path) :
    Shows benign (trailingLinks env fuel path) (fun status _ => status ≠ .done) w := by
  cases fuel with
  | zero => exact ⟨by simp, by simp⟩
  | succ fuel =>
      unfold Shows
      simp only [trailingLinks, mayFollowLink, terminateWalk, pathPut, wp_bind, wp_getHeap, wp_getNd, wp_ite,
        wp_pure, wp_modifyHeap, wp_modifyNd]
      constructor
      · intro _
        exact ⟨fun _ => followLink_barred free _ path _, fun other => absurd trivial other⟩
      · intro _
        exact ⟨(fun other => by cases other), fun _ => (fun other => by cases other)⟩

/-! ### Whole lookups -/

/-- What a lookup of all names, or of all but the last, leaves. -/
structure LookedUp (env : Env) (binds : Bindings) (first : Nat) (start : Ino) (parentOnly : Bool)
    (names : List Name) (w : World) : Prop where
  complete : parentOnly = false → w.nd.dchainList = []
  onTrail : OnTrail env binds first start (if parentOnly then names.dropLast else names) w

theorem LastLeft.lookedUp (left : LastLeft env binds first start names w) :
    LookedUp env binds first start true names w := by
  refine ⟨(fun other => by cases other), ?_⟩
  cases left with
  | name split norm onTrail =>
      rw [if_pos rfl, split, List.dropLast_concat]
      exact onTrail
  | nothing empty root idle onTrail =>
      rw [if_pos rfl, empty, List.dropLast_nil, ← empty]
      exact onTrail

theorem walkText_onTrail (answers : AnswersFrom env binds)
    (currently : ∀ event, benign event → Current env binds event)
    (free : ∀ event, benign event → LinkFree event) (qs : List Qstr)
    (ordinary : ∀ q ∈ qs, q.type = .norm) (ready : Ready env w) (root : w.nd.lastType = .root)
    (idle : w.nd.dchainList = []) (onTrail : OnTrail env binds first start [] w) :
    Shows benign (walkText env qs)
      (fun status w' => WalkEnds env status w' ∧
        (status = .done → LastLeft env binds first start (qs.map Qstr.text) w')) w := by
  have crosses : ∀ event, benign event → crossesAlike env event :=
    fun event told => (currently event told).crossesAlike
  apply wp_and (walkText_ends crosses qs w ready)
  cases qs with
  | nil => exact fun _ => .nothing rfl root idle onTrail
  | cons this rest =>
      exact linkPathWalk_onTrail answers currently (nestedSymlink_barred crosses free _) (this :: rest)
        (List.cons_ne_nil _ _) ordinary ready onTrail

theorem relookup_onTrail (answers : AnswersFrom env binds)
    (currently : ∀ event, benign event → Current env binds event)
    (free : ∀ event, benign event → LinkFree event) (parentOnly : Bool) (fuel : Nat) (name : List UInt8)
    (ordinary : ∀ q ∈ components name, q.type = .norm) (ready : Ready env w) (root : w.nd.lastType = .root)
    (idle : w.nd.dchainList = []) (onTrail : OnTrail env binds first start [] w) :
    Shows benign (relookup env parentOnly fuel name)
      (fun status w' => status = .done → LookedUp env binds first start parentOnly (pathNames name) w') w := by
  cases fuel with
  | zero => exact ⟨by simp, by simp⟩
  | succ fuel =>
      unfold Shows
      rw [relookup, wp_bind]
      apply Shows.mono (walkText_onTrail answers currently free _ ordinary ready root idle onTrail)
      rintro status w₁ ⟨ended, arrives⟩
      cases status with
      | fail error =>
          intro other
          cases other
      | link path => exact ended.elim
      | chainLink path => exact ended.elim
      | done =>
          have ready : Ready env w₁ := ended
          have left := arrives rfl
          cases parentOnly with
          | true => exact fun _ => left.lookedUp
          | false =>
              simp only [Bool.false_eq_true, if_false, wp_bind]
              apply Shows.mono (lookupLast_onTrail answers currently (ready.imp And.left id) left)
              rintro status w₂ ⟨⟨quiet, -⟩, onTrail⟩
              cases status with
              | done => exact fun _ => ⟨fun _ => quiet.list, onTrail rfl⟩
              | fail error =>
                  intro other
                  cases other
              | link path =>
                  apply Shows.mono (trailingLinks_barred free _ path)
                  exact fun status w' never done => absurd done never
              | chainLink path =>
                  simp only [wp_bind, wp_observe]
                  exact fun told => (free _ told).elim

theorem pathLookupat_onTrail (answers : AnswersFrom env binds)
    (currently : ∀ event, benign event → Current env binds event)
    (free : ∀ event, benign event → LinkFree event) (ok : HeapOk w.heap) (unlocked : w.heap.held = [])
    (mounts : MountsSound env w.heap) {fuel : Nat} {dfd : Option Nat} {name : List UInt8} {flags : LookupFlags}
    (ordinary : ∀ q ∈ components name, q.type = .norm)
    (started : (pathInit env dfd name { flags with parent := true } w).state.nd.inode = some start) :
    Shows benign (pathLookupat env fuel dfd name flags)
      (fun status w' => status = .done → SeesCurrentTree env binds start flags name w w') w := by
  unfold Shows
  rw [pathLookupat, wp_bind]
  apply Shows.mono (wp_final (pathInit_ends ok unlocked dfd name _))
  rintro error w₁ ⟨init, rfl, -⟩
  cases error with
  | some error =>
      intro other
      cases other
  | none =>
      simp only [wp_bind, wp_update]
      generalize (pathInit env dfd name { flags with parent := true } w).state = w₁ at init started
      have grows : Grows w.heap w₁.heap := init.shape.toSameDentries.grows init.tick
      have place : w₁.heap.inode w₁.nd.path.dentry = some start := (init.inode rfl).symm.trans started
      have ready : Ready env { w₁ with totalLinkCount := 0 } :=
        .inl ⟨init.quiet.transport rfl rfl rfl, alike_of_eq (init.inode rfl)⟩
      have onTrail : OnTrail env binds w.heap.tick start [] { w₁ with totalLinkCount := 0 } :=
        onTrail_arrived (mounts.grows grows) grows.tick init.quiet.list place .here
      apply Shows.mono (relookup_onTrail answers currently free flags.parent fuel name ordinary ready init.type
        init.quiet.list onTrail)
      intro status w₂ arrives
      apply Shows.mono (finishLookup_ends status)
      rintro result w' ⟨finished, only⟩ done
      obtain ⟨complete, onTrail⟩ := arrives (only done)
      have later := onTrail.grows (finished.shape.toSameDentries.grows finished.tick) finished.path finished.list
      obtain ⟨-, -, resolved, object, split, found, trail⟩ := later
      exact ⟨fun whole => finished.list.trans (complete whole), resolved, object, split, found, trail⟩

instance (event : Event) : Decidable (LinkFree event) := by
  cases event <;> unfold LinkFree <;> infer_instance

/-- `InPlace` can be decided entry by entry. -/
instance inPlaceDecidable (env : Env) (slot : Nat → Option Ino) (entries : List ChainDentry) (tick : Nat) :
    Decidable (InPlace env slot entries tick) :=
  match entries with
  | [] => isTrue fun _ _ found => nomatch found
  | entry :: rest =>
      match filled : slot 0 with
      | none => isFalse fun inPlace => by
          obtain ⟨inode, given, -⟩ := inPlace 0 entry rfl
          rw [filled] at given
          cases given
      | some inode =>
          have := inPlaceDecidable env (fun k => slot (k + 1)) rest (tick + 1)
          decidable_of_iff (env.materialise tick entry.dentry (some inode) = .null ∧
              InPlace env (fun k => slot (k + 1)) rest (tick + 1)) (by
            rw [inPlace_cons, filled]
            constructor
            · rintro ⟨null, more⟩
              exact ⟨⟨inode, rfl, null⟩, more⟩
            · rintro ⟨⟨other, same, null⟩, more⟩
              cases same
              exact ⟨null, more⟩)

instance (env : Env) (event : Event) : Decidable (crossesAlike env event) := by
  cases event <;> unfold crossesAlike <;> infer_instance

instance (env : Env) (binds : Bindings) [∀ t dir name inode, Decidable (binds t dir name inode)]
    (event : Event) : Decidable (Current env binds event) :=
  match event with
  | .accept base d w =>
      match dirIs : w.heap.inode base, inodeIs : w.heap.inode d with
      | some dir, some inode =>
          decidable_of_iff (binds w.heap.tick dir (w.heap.dentry d).name inode) (by
            simp only [Current, dirIs, inodeIs]
            constructor
            · intro bound _ _ sameDir sameInode
              cases sameDir
              cases sameInode
              exact bound
            · intro all
              exact all dir inode rfl rfl)
      | none, _ => isTrue fun _ _ found => by rw [dirIs] at found; cases found
      | some _, none => isTrue fun _ _ _ found => by rw [inodeIs] at found; cases found
  | .answered reply w =>
      inferInstanceAs (Decidable (reply.status = none → InPlace env reply.slot w.nd.dchainList w.heap.tick))
  | .returned _ _ | .flush _ _ | .dots _ | .extend _ | .search _ | .symlink _ _ | .restart _ _ =>
      isTrue trivial
  | .cross covered mounted w => inferInstanceAs (Decidable (crossesAlike env (.cross covered mounted w)))

/-- A dcache with the root and, below it, the directory `a`, which is the object 2. -/
def cachedHeap : Heap where
  dentry d :=
    if d = 0 then ⟨0, [slash], some 1, .directory⟩
    else if d = 1 then ⟨0, [97], some 2, .directory⟩ else ⟨0, [], none, .miss⟩
  hash d n := if d = 0 ∧ n = [97] then some 1 else none
  next := 2
  count _ := 1
  low _ := 1
  held := []
  tick := 0

def cachedWorld : World where
  nd :=
    { path := ⟨0, 0⟩
      last := ⟨[], 0⟩
      root := none
      inode := none
      flags := ⟨true, false, false, false, false, false⟩
      lastType := .root
      depth := 0
      dchainList := []
      chainSize := 0
      chainParent := 0 }
  heap := cachedHeap
  linkCount := 0
  totalLinkCount := 0

theorem cachedHeap_ok : HeapOk cachedHeap := by
  constructor
  · intro d n c found
    simp only [cachedHeap] at found
    split at found
    · rename_i here
      obtain ⟨rfl, rfl⟩ := here
      cases found
      decide
    · cases found
  · intro d above
    have above : 2 ≤ d := above
    have notRoot : d ≠ 0 := Nat.ne_of_gt (Nat.lt_of_lt_of_le Nat.two_pos above)
    have notFirst : d ≠ 1 := Nat.ne_of_gt above
    refine ⟨?_, ?_⟩
    · simp [Heap.inode, cachedHeap, notRoot, notFirst]
    · intro n
      simp [cachedHeap, notRoot]

/-- A server with `b` in the directory `a`. -/
def treeBinds (a : Ino) : Bindings := fun _ dir name inode =>
  (dir = 1 ∧ name = [97] ∧ inode = a) ∨ (dir = 2 ∧ name = [98] ∧ inode = 3)

instance (a t dir : Nat) (name : Name) (inode : Nat) : Decidable (treeBinds a t dir name inode) :=
  inferInstanceAs (Decidable (_ ∨ _))

/-- A client of that server. -/
def treeEnv : Env :=
  { Env.calm with
    chainRpc := fun _ dir names => if dir = 2 ∧ names = [[98]] then ⟨none, fun _ => some 3⟩ else ⟨some .ENOENT, fun _ => none⟩ }

theorem treeEnv_answers : AnswersFrom treeEnv (treeBinds 2) := by
  constructor
  · intro t dir name inode found
    cases found
  · intro t dir names status
    by_cases asked : dir = 2 ∧ names = [[98]]
    · obtain ⟨rfl, rfl⟩ := asked
      refine ⟨[3], ⟨.inr ⟨rfl, rfl, rfl⟩, trivial⟩, ?_⟩
      intro k inode slot less
      have first : k = 0 := Nat.lt_one_iff.mp less
      subst first
      exact slot
    · simp only [treeEnv, if_neg asked] at status
      cases status

/-- What the client holds of the directory that was `a` when it was cached: attributes that are not
    expired. -/
def freshClient : Attr.Client Nat where
  heap := cachedHeap
  jiffies := 10
  now := 10
  inode _ :=
    { attrs := 5
      fetched := 10
      invalidAttr := false
      invalidLabel := false
      revalForced := false
      delegated := false
      readCacheJiffies := 10
      attrtimeo := 30
      attrtimeoTimestamp := 10 }
  server _ := 5
  minTimeo _ := 30
  maxTimeo _ := 60
  past := fun _ => ⟨by decide, by decide⟩

/-- Whatever the flags of the walk, `LOOKUP_REVAL` among them, the dentries are revalidated by
    `nfs4_lookup_revalidate`.  The server has another directory under the name `a` by now. -/
def replacedEnv : Env :=
  { Env.calm with
    revalidate := fun _ => Attr.nfs4LookupRevalidate freshClient fun _ => false
    lookupRpc := fun _ dir name => if dir = 1 ∧ name = [97] then .found 4 else .status .ENOENT }

end Nfs4Compound.Vfs
