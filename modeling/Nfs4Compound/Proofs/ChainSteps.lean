/-
Module: Nfs4Compound.Proofs.ChainSteps
Layer: Proofs
Purpose: What one step of a walk can do when components are walked as a chain: the states between two
  steps, with and without a pending chain, and for `chain_lookup`, `walk_chain` and `walk_component` the
  ways in which they can end.  What is proved of whole walks is derived from these statements.
Imports: Nfs4Compound.Proofs.ChainAnswers
Trusted boundary: none
Main exports: Grows, Quiet, Queued, Shows, chainLookup_ends
-/
import Nfs4Compound.Proofs.ChainAnswers

namespace Nfs4Compound.Vfs

open Prog

variable {env : Env} {benign : Event → Prop} {h h' h'' : Heap} {d : DentryId} {w : World}

/-! ### Heaps that only grow -/

/-- Time has passed, dentries may have been added, and no dentry has lost its inode. -/
structure Grows (h h' : Heap) : Prop where
  tick : h.tick ≤ h'.tick
  next : h.next ≤ h'.next
  inode : ∀ x i, h.inode x = some i → h'.inode x = some i

theorem Grows.refl (h : Heap) : Grows h h := ⟨Nat.le_refl _, Nat.le_refl _, fun _ _ same => same⟩

theorem Grows.trans (first : Grows h h') (second : Grows h' h'') : Grows h h'' :=
  ⟨Nat.le_trans first.tick second.tick, Nat.le_trans first.next second.next,
    fun x i found => second.inode x i (first.inode x i found)⟩

theorem SameDentries.grows (same : SameDentries h h') (tick : h.tick ≤ h'.tick) : Grows h h' :=
  ⟨tick, Nat.le_of_eq same.next.symm, fun x i found => by rwa [same.inode]⟩

/-- An operation of the dcache does not turn back time. -/
def Ticks {α : Type} (op : Dcache α) : Prop := ∀ h, h.tick ≤ (op h).2.tick

section Ticks

variable {α β : Type}

theorem ticks_pure (value : α) : Ticks (pure value : Dcache α) := fun _ => Nat.le_refl _

theorem Ticks.bind {op : Dcache α} {f : α → Dcache β} (first : Ticks op) (second : ∀ value, Ticks (f value)) :
    Ticks (op >>= f) :=
  fun h => Nat.le_trans (first h) (second _ _)

theorem Ticks.ite {condition : Prop} [Decidable condition] {x y : Dcache α} (first : Ticks x)
    (second : Ticks y) : Ticks (if condition then x else y) := by
  split
  · exact first
  · exact second

theorem ticks_ask (question : Nat → α) : Ticks (ask question) := fun _ => Nat.le_succ _

theorem ticks_get : Ticks (get : Dcache Heap) := fun _ => Nat.le_refl _

theorem ticks_modify {f : Heap → Heap} (same : ∀ h, (f h).tick = h.tick) : Ticks (modify f : Dcache PUnit) :=
  fun h => Nat.le_of_eq (same h).symm

theorem ticks_dput (d : DentryId) : Ticks (modify (·.dput d) : Dcache PUnit) := ticks_modify fun _ => rfl

theorem tick_dDrop (d : DentryId) (h : Heap) : (h.dDrop d).tick = h.tick := by
  unfold Heap.dDrop
  split <;> rfl

theorem ticks_lookupAlloc (env : Env) (name : Name) (dir : DentryId) : Ticks (lookupAlloc env name dir) := by
  apply Ticks.bind
  · apply Ticks.bind (ticks_ask _)
    intro granted
    exact Ticks.ite (fun h => Nat.le_refl _) (ticks_pure _)
  · intro fresh
    cases fresh with
    | none => exact ticks_pure _
    | some d => exact ticks_pure _

theorem ticks_dInvalidate (env : Env) (d : DentryId) : Ticks (dInvalidate env d) :=
  (ticks_ask _).bind fun _ => ((ticks_modify (tick_dDrop d)).bind fun _ => ticks_pure _).ite (ticks_pure _)

theorem ticks_lookupDcache (env : Env) (name : Name) (dir : DentryId) : Ticks (lookupDcache env name dir) := by
  apply Ticks.bind
  · intro h
    unfold dLookup
    split <;> exact Nat.le_refl _
  · intro found
    cases found with
    | none => exact ticks_lookupAlloc env name dir
    | some d =>
        apply ticks_get.bind
        intro h
        apply Ticks.ite (ticks_pure _)
        apply (ticks_ask _).bind
        intro answer
        cases answer with
        | valid => exact ticks_pure _
        | failed error => exact (ticks_dput d).bind fun _ => ticks_pure _
        | stale =>
            apply (ticks_dInvalidate env d).bind
            intro dropped
            apply Ticks.ite _ (ticks_pure _)
            exact (ticks_dput d).bind fun _ => ticks_lookupAlloc env name dir

end Ticks

/-! ### The states between two steps -/

/-- No chain is pending, and the walk holds no mutex. -/
structure Quiet (w : World) : Prop where
  ok : HeapOk w.heap
  held : w.heap.held = []
  size : w.nd.chainSize = 0
  list : w.nd.dchainList = []

/-- The walk holds the mutex of the parent of its chain, and no other. -/
structure Holds (w : World) : Prop where
  ok : HeapOk w.heap
  locked : ∃ inode, w.heap.inode w.nd.chainParent = some inode ∧ w.heap.held = [inode]

/-- The parent of the chain is the place of the walk, and what is pending below it, if anything, is a
    chain of dentries nobody else has seen. -/
structure Locked (w : World) : Prop extends Holds w where
  size : w.nd.chainSize = w.nd.dchainList.length
  place : w.nd.path.dentry = w.nd.chainParent
  pending : Pending w.heap w.nd.chainParent w.nd.dchainList
  barren : ∀ e ∈ w.nd.dchainList, e.dentry < w.heap.next ∧ ∀ n, w.heap.hash e.dentry n = none

/-- A chain is pending. -/
structure Queued (w : World) : Prop extends Locked w where
  nonempty : w.nd.dchainList ≠ []

theorem Quiet.chainInv (quiet : Quiet w) : ChainInv w := by
  refine ⟨by rw [quiet.size, quiet.list]; rfl, by rw [quiet.size]; exact Nat.zero_le _,
    fun _ => quiet.held, ?_, by rw [quiet.list]; trivial⟩
  intro busy
  rw [quiet.size] at busy
  exact absurd busy (Nat.lt_irrefl 0)

theorem Queued.pos (queued : Queued w) : 0 < w.nd.chainSize := by
  rw [queued.size]
  exact List.length_pos_iff.mpr queued.nonempty

theorem Queued.chainInv (queued : Queued w) (limit : w.nd.chainSize ≤ 29) : ChainInv w := by
  refine ⟨queued.size, limit, ?_, fun _ => ⟨queued.locked, queued.place⟩, queued.pending.linked⟩
  intro idle
  exact absurd queued.pos (by rw [idle]; exact Nat.lt_irrefl 0)

/-- The faults a walk may stop with: not that it locks a mutex twice, or unlocks one it does not
    hold. -/
def Tame (fault : Oops) (_ : World) : Prop := fault ≠ .deadlock ∧ fault ≠ .notLocked

/-- From `w` on, if all events are benign, the chain is in order at every return, and the program stops
    with a tame fault or ends with `post`. -/
abbrev Shows {α : Type} (benign : Event → Prop) (x : Walk α) (post : α → World → Prop) (w : World) :
    Prop :=
  wp (contract benign EveryReturn) Tame x post w

theorem Shows.mono {α : Type} {x : Walk α} {post post' : α → World → Prop}
    (shows : Shows benign x post w) (implies : ∀ value w', post value w' → post' value w') :
    Shows benign x post' w :=
  wp_mono (monotone_contract _ _) shows implies

/-! ### Mutexes -/

theorem shows_mutexLock {post : Unit → World → Prop} (free : w.heap.held = [])
    (continues : ∀ inode, w.heap.inode d = some inode →
      post () { w with heap := { w.heap with held := [inode] } }) :
    Shows benign (mutexLock d) post w := by
  unfold Shows
  rw [mutexLock, wp_bind, wp_derefInode]
  constructor
  · intro inode found
    rw [wp_bind, wp_getHeap, wp_ite, free]
    constructor
    · intro member
      cases member
    · intro _
      rw [wp_modifyHeap, free]
      exact continues inode found
  · intro _
    exact ⟨by simp, by simp⟩

theorem shows_mutexUnlock {post : Unit → World → Prop} {inode : Ino} (found : w.heap.inode d = some inode)
    (held : w.heap.held = [inode]) (continues : post () { w with heap := { w.heap with held := [] } }) :
    Shows benign (mutexUnlock d) post w := by
  unfold Shows
  rw [mutexUnlock, wp_bind, wp_derefInode]
  constructor
  · intro other same
    cases found.symm.trans same
    rw [wp_bind, wp_getHeap, wp_ite, held]
    constructor
    · intro _
      rw [wp_modifyHeap, held, List.erase_cons_head]
      exact continues
    · intro absent
      exact absurd (List.mem_singleton.mpr rfl) absent
  · intro missing
    rw [found] at missing
    cases missing

/-! ### Filling a chain -/

/-- What the filling loop leaves alone. -/
structure FillKeeps (entries : List ChainDentry) (h h' : Heap) : Prop where
  ok : HeapOk h'
  next : h'.next = h.next
  held : h'.held = h.held
  tick : h.tick ≤ h'.tick
  inode : ∀ x, x ∉ entries.map (·.dentry) → h'.inode x = h.inode x

/-- Where the filling loop stops: at an inode it cannot place, at a symlink, or at the last entry, which
    has got its inode or, if another dentry took its place, is still a temporary one. -/
inductive FillStops (env : Env) (slot : Nat → Option Ino) (previous : Option (DentryId × Option Ino))
    (entries : List ChainDentry) (h h' : Heap) : Filled → Prop where
  | failed (displaced : ¬InPlace env slot entries h.tick) :
      FillStops env slot previous entries h h' .failed
  | symlink {d inode} : FillStops env slot previous entries h h' (.symlink d inode)
  | nothing (empty : entries = []) (same : h' = h) :
      FillStops env slot previous entries h h' (.all previous)
  | last {entry inode} (last : entries.getLast? = some entry) (slotIs : slot (entries.length - 1) = inode)
      (filled : h'.inode entry.dentry = inode)
      (type : h'.type entry.dentry = dFlagsForInode env inode) :
      FillStops env slot previous entries h h' (.all (some (entry.dentry, inode)))
  | displaced {entry inode} (last : entries.getLast? = some entry)
      (displaced : ¬InPlace env slot entries h.tick) (type : h'.type entry.dentry = .chainTemp) :
      FillStops env slot previous entries h h' (.all (some (entry.dentry, inode)))

theorem inPlace_cons {slot : Nat → Option Ino} {entry : ChainDentry} {rest : List ChainDentry}
    {tick : Nat} :
    InPlace env slot (entry :: rest) tick ↔
      (∃ inode, slot 0 = some inode ∧ env.materialise tick entry.dentry (some inode) = .null) ∧
        InPlace env (fun k => slot (k + 1)) rest (tick + 1) := by
  constructor
  · intro all
    refine ⟨all 0 entry rfl, ?_⟩
    intro k e found
    obtain ⟨inode, filled, null⟩ := all (k + 1) e (by rw [List.getElem?_cons_succ]; exact found)
    exact ⟨inode, filled, by rw [Nat.add_right_comm]; exact null⟩
  · rintro ⟨first, more⟩ k e found
    cases k with
    | zero =>
        cases found
        exact first
    | succ k =>
        rw [List.getElem?_cons_succ] at found
        obtain ⟨inode, filled, null⟩ := more k e found
        exact ⟨inode, filled, by rw [← Nat.add_assoc, Nat.add_right_comm]; exact null⟩

/-- One dentry is filled. -/
theorem MaterialiseEnds.keeps {inode : Option Ino} {result : Materialised} (ok : HeapOk h)
    (born : d < h.next) (parentBorn : h.parent d < h.next) (ends : MaterialiseEnds env d inode h result h') :
    FillStep d h h' ∧ Filling d h h' := by
  have same : SameShape h h.ticked := SameShape.ticked h
  cases ends with
  | null kept =>
      exact ⟨fillStep_instantiate inode,
        (filling_instantiate env (ok.sameShape same) born parentBorn inode).1.before same⟩
  | @other o question positive hashed sameInode different =>
      obtain ⟨i, found⟩ := Option.isSome_iff_exists.mp positive
      have bornOther := (ok.hashed _ _ _ (Heap.isHashed_iff.mp hashed)).2.2.2
      have moved := (filling_moveTo env (ok.sameShape same) bornOther parentBorn d).1
      exact ⟨fillStep_moveTo hashed (sameInode.trans found),
        (moved.before same).after (SameShape.dget _ _)⟩
  | failed question positive =>
      exact ⟨⟨fun _ _ => rfl, fun _ _ _ => rfl, fun _ _ unhashed => unhashed,
        fun _ _ _ hashed _ => hashed, rfl⟩, same.filling ok⟩

theorem FillKeeps.cons {entry : ChainDentry} {rest : List ChainDentry} {middle : Heap}
    (step : FillStep entry.dentry h middle) (filling : Filling entry.dentry h middle)
    (more : FillKeeps rest middle h') : FillKeeps (entry :: rest) h h' := by
  refine ⟨more.ok, more.next.trans filling.next, more.held.trans filling.held, ?_, ?_⟩
  · have order := more.tick
    rw [step.tick] at order
    exact Nat.le_of_succ_le order
  · intro x absent
    rw [List.map_cons, List.mem_cons, not_or] at absent
    rw [more.inode x absent.2, step.inode x absent.1]

theorem FillKeeps.refl (ok : HeapOk h) (entries : List ChainDentry) : FillKeeps entries h h :=
  ⟨ok, rfl, rfl, Nat.le_refl _, fun _ _ => rfl⟩

/-- The loop has gone on behind the first entry. -/
theorem FillStops.cons {slot : Nat → Option Ino} {previous : Option (DentryId × Option Ino)}
    {entry : ChainDentry} {rest : List ChainDentry} {middle : Heap} {filled : Filled}
    (tick : middle.tick = h.tick + 1)
    (alone : rest = [] → FillStops env slot previous [entry] h middle (.all (some (entry.dentry, slot 0))))
    (more : FillStops env (fun k => slot (k + 1)) (some (entry.dentry, slot 0)) rest middle h' filled) :
    FillStops env slot previous (entry :: rest) h h' filled := by
  have later : ¬InPlace env (fun k => slot (k + 1)) rest middle.tick →
      ¬InPlace env slot (entry :: rest) h.tick := by
    intro displaced inPlace
    rw [tick] at displaced
    exact displaced (inPlace_cons.mp inPlace).2
  have lastOf : ∀ e, rest.getLast? = some e → (entry :: rest).getLast? = some e := by
    intro e last
    rw [List.getLast?_cons, last]
    rfl
  cases more with
  | failed displaced => exact .failed (later displaced)
  | symlink => exact .symlink
  | nothing empty same =>
      subst empty same
      exact alone rfl
  | last last slotIs filled type =>
      refine .last (lastOf _ last) ?_ filled type
      have behind : rest.length - 1 + 1 = rest.length := by
        cases rest with
        | nil => cases last
        | cons e rest => rfl
      rw [behind] at slotIs
      exact slotIs
  | displaced last displaced type => exact .displaced (lastOf _ last) (later displaced) type

/-- The loop of `nfs_fill_dchain_list`, whatever the slots hold: induction on the entries. -/
theorem fillEntries_stops (slot : Nat → Option Ino) (index : Nat)
    (previous : Option (DentryId × Option Ino)) {parent : DentryId} {entries : List ChainDentry}
    (ok : HeapOk h) (pending : Pending h parent entries) (parentBorn : parent < h.next)
    (born : ∀ e ∈ entries, e.dentry < h.next) :
    after (fillEntries env slot index previous entries)
      (fun ended h' => FillKeeps entries h h' ∧
        FillStops env (fun k => slot (index + k)) previous entries h h' ended.2) h := by
  induction entries generalizing index previous parent h with
  | nil => exact ⟨.refl ok [], .nothing rfl rfl⟩
  | cons entry rest inductionHypothesis =>
      rw [fillEntries, after_bind]
      apply after_mono (dMaterialiseUnique_ends (slot index))
      intro materialised middle ends
      have linked : h.parent entry.dentry = parent := pending.linked.1
      obtain ⟨step, filling⟩ := ends.keeps ok (born entry List.mem_cons_self) (by rw [linked]; exact parentBorn)
      have stopped : FillKeeps (entry :: rest) h middle := .cons step filling (.refl filling.ok rest)
      have goesOn := fun previous => @inductionHypothesis middle (index + 1) previous entry.dentry filling.ok
        (pending.tail step) (by rw [filling.next]; exact born entry List.mem_cons_self)
        fun e member => by rw [filling.next]; exact born e (List.mem_cons_of_mem _ member)
      have shift : (fun k => slot (index + 1 + k)) = fun k => slot (index + (k + 1)) := by
        funext k
        rw [Nat.add_right_comm, Nat.add_assoc]
      rw [shift] at goesOn
      cases ends with
      | failed question positive =>
          refine ⟨stopped, .failed ?_⟩
          intro inPlace
          obtain ⟨⟨inode, filled, null⟩, -⟩ := inPlace_cons.mp inPlace
          rw [Nat.add_zero] at filled
          rw [filled, null] at question
          cases question
      | null kept =>
          simp only [after_bind, after_get, after_ite, after_pure]
          constructor
          · intro _
            exact ⟨stopped, .symlink⟩
          · intro _
            apply after_mono (goesOn _)
            rintro ended h' ⟨keeps, stops⟩
            refine ⟨.cons step filling keeps, .cons step.tick ?_ stops⟩
            intro _
            exact .last rfl rfl (by rw [instantiate_inode, if_pos rfl]; rfl) (instantiate_type _)
      | @other o question positive hashed same different =>
          have kept : ((dMoveTo env o entry.dentry h.ticked).dget o).dentry entry.dentry =
              h.dentry entry.dentry := moveTo_dentry (h := h.ticked) different.symm
          have type : ((dMoveTo env o entry.dentry h.ticked).dget o).type entry.dentry = .chainTemp := by
            rw [Heap.type, kept]
            exact pending.linked.2.2.1
          simp only [after_bind, after_get, after_ite, after_pure]
          constructor
          · intro symlink
            rw [Heap.dIsSymlink, type] at symlink
            cases symlink
          · intro _
            apply after_mono (goesOn _)
            rintro ended h' ⟨keeps, stops⟩
            refine ⟨.cons step filling keeps, .cons step.tick ?_ stops⟩
            intro _
            refine .displaced rfl ?_ type
            intro inPlace
            obtain ⟨⟨inode, filled, null⟩, -⟩ := inPlace_cons.mp inPlace
            rw [Nat.add_zero] at filled
            rw [filled, null] at question
            cases question

/-! ### Looking up a chain -/

/-- Where a chain lookup without an error leaves the walk: on the last dentry of the chain; on that
    dentry although another one took its place; or where it was, because an inode could not be
    placed. -/
inductive Landing (env : Env) (reply : ChainReply) (w w' : World) : Prop where
  | moved {entry inode} (last : w.nd.dchainList.getLast? = some entry)
      (slotIs : reply.slot (w.nd.dchainList.length - 1) = inode)
      (path : w'.nd.path = { w.nd.path with dentry := entry.dentry }) (inodeIs : w'.nd.inode = inode)
      (filled : w'.heap.inode entry.dentry = inode) : Landing env reply w w'
  | displaced (displaced : ¬InPlace env reply.slot w.nd.dchainList (w.heap.tick + 2))
      (type : w'.heap.type w'.nd.path.dentry = .chainTemp) : Landing env reply w w'
  | stayed (displaced : ¬InPlace env reply.slot w.nd.dchainList (w.heap.tick + 2))
      (path : w'.nd.path = w.nd.path) (inodeIs : w'.nd.inode = w.nd.inode) : Landing env reply w w'

theorem Landing.later {reply : ChainReply} {w' w'' : World} (landing : Landing env reply w w')
    (same : SameDentries w'.heap w''.heap) (path : w''.nd.path = w'.nd.path)
    (inode : w''.nd.inode = w'.nd.inode) : Landing env reply w w'' := by
  cases landing with
  | moved last slotIs moved inodeIs filled =>
      exact .moved last slotIs (path.trans moved) (inode.trans inodeIs) ((same.inode _).trans filled)
  | displaced displaced type =>
      refine .displaced displaced ?_
      rw [path, same.type, type]
  | stayed displaced moved inodeIs =>
      exact .stayed displaced (path.trans moved) (inode.trans inodeIs)

/-- Where the walk stands after a chain lookup, whatever its result: where `nd->inode` is the inode of
    the dentry; on a temporary dentry; or where it was. -/
inductive Lands (w w' : World) : Prop where
  | moved (inode : w'.nd.inode = w'.heap.inode w'.nd.path.dentry) : Lands w w'
  | displaced (type : w'.heap.type w'.nd.path.dentry = .chainTemp) : Lands w w'
  | stayed (path : w'.nd.path = w.nd.path) (inode : w'.nd.inode = w.nd.inode) : Lands w w'

theorem Lands.later {w' w'' : World} (lands : Lands w w') (same : SameDentries w'.heap w''.heap)
    (path : w''.nd.path = w'.nd.path) (inode : w''.nd.inode = w'.nd.inode) : Lands w w'' := by
  cases lands with
  | moved moved => exact .moved (by rw [inode, moved, path, same.inode])
  | displaced type => exact .displaced (by rw [path, same.type, type])
  | stayed stayed kept => exact .stayed (path.trans stayed) (inode.trans kept)

theorem Landing.lands {reply : ChainReply} {w' : World} (landing : Landing env reply w w') : Lands w w' := by
  cases landing with
  | moved last slotIs path inodeIs filled => exact .moved (by rw [inodeIs, path, filled])
  | displaced displaced type => exact .displaced type
  | stayed displaced path inodeIs => exact .stayed path inodeIs

/-- What looking up a chain leaves alone while its parent is still locked. -/
structure Searched (w w' : World) : Prop where
  keeps : FillKeeps w.nd.dchainList w.heap w'.heap
  parent : w'.nd.chainParent = w.nd.chainParent
  flags : w'.nd.flags = w.nd.flags

/-- The reply to the chain that is pending in `w`. -/
def chainReply (env : Env) (w : World) (dir : Ino) : ChainReply :=
  env.chainRpc (w.heap.tick + 1) dir (w.nd.dchainList.map (·.name.text))

/-- How `nfs_chain_lookup` ends. -/
inductive NfsLookupEnds (benign : Event → Prop) (env : Env) (w : World) : Status → World → Prop where
  | failed {error w'} (looked : Searched w w') (lands : Lands w w') :
      NfsLookupEnds benign env w (.fail error) w'
  | symlink {w'} (looked : Searched w w') : NfsLookupEnds benign env w (.chainLink w'.nd.path) w'
  | done {dir w'} (looked : Searched w w') (dirIs : w.heap.inode w.nd.path.dentry = some dir)
      (answered : benign (.answered (chainReply env w dir) { w with heap := w.heap.ticked.ticked }))
      (status : (chainReply env w dir).status = none) (asked : w.heap.tick < w'.heap.tick)
      (landing : Landing env (chainReply env w dir) w w') : NfsLookupEnds benign env w .done w'

theorem Searched.of_sameShape (queued : Queued w) (same : SameShape w.heap h) (tick : w.heap.tick ≤ h.tick) :
    Searched w { w with heap := h } :=
  ⟨⟨queued.ok.sameShape same, same.next, same.held, tick, fun x _ => same.inode x⟩, rfl, rfl⟩

theorem Searched.later {w' w'' : World} (looked : Searched w w') (same : SameShape w'.heap w''.heap)
    (tick : w'.heap.tick ≤ w''.heap.tick) (nd : w''.nd.chainParent = w'.nd.chainParent)
    (flags : w''.nd.flags = w'.nd.flags) : Searched w w'' := by
  obtain ⟨⟨ok, next, held, order, inode⟩, parent, sameFlags⟩ := looked
  exact ⟨⟨ok.sameShape same, same.next.trans next, same.held.trans held, Nat.le_trans order tick,
    fun x absent => (same.inode x).trans (inode x absent)⟩, nd.trans parent, flags.trans sameFlags⟩

/-- The slots are filled, two questions after the chain was handed over, and the walk moves to where the
    loop stopped. -/
theorem nfsFillDchainList_ends (queued : Queued w) (reply : ChainReply) :
    Shows benign (nfsFillDchainList env reply.slot)
      (fun atSymlink w' => Searched w w' ∧ w.heap.tick < w'.heap.tick ∧
        (atSymlink = false → Landing env reply w w'))
      { w with heap := w.heap.ticked.ticked } := by
  obtain ⟨inode, positive, -⟩ := queued.locked
  have ticked : SameShape w.heap w.heap.ticked.ticked := ⟨⟨rfl, rfl, rfl⟩, rfl⟩
  have fills := @fillEntries_stops env _ reply.slot 0 none _ _ (queued.ok.sameShape ticked)
    (ticked.pending queued.pending) (queued.ok.born positive) fun e member => (queued.barren e member).1
  unfold Shows
  rw [nfsFillDchainList, wp_bind, wp_getNd, wp_bind, wp_dcache]
  apply after_mono fills
  rintro ⟨entries, filled⟩ h' ⟨⟨ok, next, held, tick, inodes⟩, stops⟩
  have looked : ∀ nd' : Nameidata, nd'.chainParent = w.nd.chainParent → nd'.flags = w.nd.flags →
      Searched w { w with nd := nd', heap := h' } := by
    intro nd' parent flags
    exact ⟨⟨ok, next, held, Nat.le_of_succ_le (Nat.le_of_succ_le tick), inodes⟩, parent, flags⟩
  have asked : w.heap.tick < h'.tick := Nat.lt_of_succ_le (Nat.le_of_succ_le tick)
  have slots : (fun k => reply.slot (0 + k)) = reply.slot := by
    funext k
    rw [Nat.zero_add]
  rw [slots] at stops
  cases stops with
  | failed displaced =>
      simp only [wp_bind, wp_modifyNd, wp_pure]
      exact ⟨looked _ rfl rfl, asked, fun _ => .stayed displaced rfl rfl⟩
  | symlink =>
      simp only [wp_bind, wp_modifyNd, wp_pure]
      exact ⟨looked _ rfl rfl, asked, fun other => (by cases other)⟩
  | nothing empty => exact absurd empty queued.nonempty
  | last last slotIs inodeIs type =>
      simp only [wp_bind, wp_modifyNd, wp_pure]
      exact ⟨looked _ rfl rfl, asked, fun _ => .moved last slotIs rfl rfl inodeIs⟩
  | displaced last displaced type =>
      simp only [wp_bind, wp_modifyNd, wp_pure]
      exact ⟨looked _ rfl rfl, asked, fun _ => .displaced displaced type⟩

theorem nfsChainLookup_ends (queued : Queued w) :
    Shows benign (nfsChainLookup env) (NfsLookupEnds benign env w) w := by
  have counted := fun h : Heap => SameShape.dput h w.nd.path.dentry
  unfold Shows
  rw [nfsChainLookup, wp_bind, wp_getNd, wp_bind, wp_derefInode]
  constructor
  · intro dir dirIs
    rw [wp_bind, wp_dcache, after_ask]
    cases env.allocateHandles w.heap.tick with
    | failed wild =>
        have same : SameShape w.heap (w.heap.ticked.dput w.nd.path.dentry) :=
          (SameShape.ticked _).trans (counted _)
        simp only [wp_bind, wp_modifyHeap, wp_ite, wp_fault, wp_pure]
        exact ⟨fun _ => ⟨by simp, by simp⟩, fun _ => .failed (.of_sameShape queued same (Nat.le_succ _)) (.stayed rfl rfl)⟩
    | done =>
        rw [wp_bind, wp_dcache, after_ask, wp_bind, wp_observe]
        intro answered
        refine ⟨trivial, ?_⟩
        rw [wp_ite]
        constructor
        · intro _
          rw [wp_bind]
          apply Shows.mono (nfsFillDchainList_ends queued (chainReply env w dir))
          rintro atSymlink w' ⟨looked, asked, landing⟩
          have put : Searched w { w' with heap := w'.heap.dput w.nd.path.dentry } :=
            looked.later (counted _) (Nat.le_refl _) rfl rfl
          simp only [wp_bind, wp_modifyHeap, wp_ite, wp_getNd, wp_pure]
          constructor
          · intro _
            exact .symlink put
          · intro notSymlink
            have landed : Landing env (chainReply env w dir) w
                { w' with heap := w'.heap.dput w.nd.path.dentry } :=
              (landing (by simpa using notSymlink)).later (counted _).toSameDentries rfl rfl
            change NfsLookupEnds benign env w (Status.ofReply (chainReply env w dir).status) _
            cases status : (chainReply env w dir).status with
            | none => exact .done put dirIs answered status asked landed
            | some error => exact .failed put landed.lands
        · intro refused
          have same : SameShape w.heap (w.heap.ticked.ticked.dput w.nd.path.dentry) :=
            ((SameShape.ticked _).trans (SameShape.ticked _)).trans (counted _)
          simp only [wp_bind, wp_modifyHeap, wp_pure]
          change NfsLookupEnds benign env w (Status.ofReply (chainReply env w dir).status) _
          cases status : (chainReply env w dir).status with
          | none =>
              change ¬fillsAnyway (chainReply env w dir).status = true at refused
              rw [status] at refused
              exact absurd rfl refused
          | some error =>
              exact .failed (.of_sameShape queued same (by show _ ≤ _ + 1 + 1; omega)) (.stayed rfl rfl)
  · intro _
    exact ⟨by simp, by simp⟩

/-! ### Freeing a chain -/

theorem freeEntries_counts (here : DentryId) (hasPrev : Bool) (entries : List ChainDentry)
    (state : Heap × Qstr) :
    SameShape state.1 (freeEntries here hasPrev entries state).1 ∧
      (freeEntries here hasPrev entries state).1.tick = state.1.tick := by
  induction entries generalizing hasPrev state with
  | nil => exact ⟨.refl _, rfl⟩
  | cons entry rest inductionHypothesis =>
      obtain ⟨h, last⟩ := state
      have put : ∀ (condition : Prop) [Decidable condition] (x : DentryId) (h : Heap),
          SameShape h (if condition then h.dput x else h) ∧
            (if condition then h.dput x else h).tick = h.tick := by
        intro condition _ x h
        split
        · exact ⟨.dput h x, rfl⟩
        · exact ⟨.refl h, rfl⟩
      have first := put (entry.dentry ≠ here) entry.dentry h
      simp only [freeEntries]
      generalize (if entry.dentry ≠ here then h.dput entry.dentry else h) = freed at first ⊢
      split
      · have second := put (hasPrev = true) here freed
        generalize (if hasPrev = true then freed.dput here else freed) = put at second ⊢
        have more := inductionHypothesis true (put, entry.name)
        exact ⟨(first.1.trans second.1).trans more.1, more.2.trans (second.2.trans first.2)⟩
      · have more := inductionHypothesis true (freed, last)
        exact ⟨first.1.trans more.1, more.2.trans first.2⟩

theorem wp_freeDchainList {use : Event → Prop → Prop} {faults : Oops → World → Prop}
    {post : Unit → World → Prop}
    (continues : ∀ h' last, SameShape w.heap h' →
      post () { w with heap := h', nd := { w.nd with last := last, dchainList := [], chainSize := 0 } }) :
    wp use faults freeDchainList post w := by
  have same := (freeEntries_counts w.nd.path.dentry false w.nd.dchainList (w.heap, w.nd.last)).1
  exact continues _ _ same

/-- What `free_dchain_list` changes: counts, and that there is no list any more. -/
theorem shows_freeDchainList {post : Unit → World → Prop}
    (continues : ∀ h' last, SameShape w.heap h' → h'.tick = w.heap.tick →
      post () { w with heap := h', nd := { w.nd with last := last, dchainList := [], chainSize := 0 } }) :
    Shows benign freeDchainList post w := by
  have counts := freeEntries_counts w.nd.path.dentry false w.nd.dchainList (w.heap, w.nd.last)
  exact continues _ _ counts.1 counts.2

/-- What every chain lookup leaves: no chain, and no mutex. -/
structure Flushed (w w' : World) : Prop where
  quiet : Quiet w'
  flags : w'.nd.flags = w.nd.flags
  grows : Grows w.heap w'.heap

/-- The parent of the chain is unlocked after the list was freed. -/
theorem Holds.unlocked (holds : Holds w) {post : Unit → World → Prop} (size : w.nd.chainSize = 0)
    (list : w.nd.dchainList = [])
    (continues : Quiet { w with heap := { w.heap with held := [] } } →
      post () { w with heap := { w.heap with held := [] } }) :
    Shows benign (mutexUnlock w.nd.chainParent) post w := by
  obtain ⟨ok, inode, positive, held⟩ := holds
  have released : SameDentries w.heap { w.heap with held := [] } := ⟨rfl, rfl, rfl⟩
  apply shows_mutexUnlock positive held
  exact continues ⟨ok.sameDentries released, rfl, size, list⟩

theorem Searched.holds {w' : World} (queued : Queued w) (looked : Searched w w') : Holds w' := by
  obtain ⟨inode, positive, held⟩ := queued.locked
  have absent : w.nd.chainParent ∉ w.nd.dchainList.map (·.dentry) :=
    (List.nodup_cons.mp queued.pending.distinct).1
  refine ⟨looked.keeps.ok, inode, ?_, ?_⟩
  · rw [looked.parent, looked.keeps.inode _ absent, positive]
  · rw [looked.keeps.held, held]

theorem Searched.grows {w' : World} (queued : Queued w) (looked : Searched w w') : Grows w.heap w'.heap := by
  refine ⟨looked.keeps.tick, Nat.le_of_eq looked.keeps.next.symm, ?_⟩
  -- a dentry with an inode is not one of the chain
  intro x i found
  rw [looked.keeps.inode x, found]
  intro member
  obtain ⟨e, inList, same⟩ := List.mem_map.mp member
  have negative := queued.pending.negative e inList
  rw [same, found] at negative
  cases negative

theorem Searched.unlocked {w' : World} (queued : Queued w) (looked : Searched w w')
    {post : Unit → World → Prop} (size : w'.nd.chainSize = 0) (list : w'.nd.dchainList = [])
    (continues : Flushed w { w' with heap := { w'.heap with held := [] } } →
      post () { w' with heap := { w'.heap with held := [] } }) :
    Shows benign (mutexUnlock w'.nd.chainParent) post w' := by
  apply (looked.holds queued).unlocked size list
  intro quiet
  have grows := looked.grows queued
  exact continues ⟨quiet, looked.flags, grows.tick, grows.next, grows.inode⟩

/-- How `chain_lookup` ends. -/
inductive ChainLookupEnds (benign : Event → Prop) (env : Env) (w : World) : Status → World → Prop where
  | failed {error w'} (flushed : Flushed w w') (lands : Lands w w') :
      ChainLookupEnds benign env w (.fail error) w'
  | symlink {path w'} (flushed : Flushed w w') (inode : w'.nd.inode = w'.heap.inode w'.nd.path.dentry) :
      ChainLookupEnds benign env w (.chainLink path) w'
  | done {dir w'} (flushed : Flushed w w') (dirIs : w.heap.inode w.nd.path.dentry = some dir)
      (answered : benign (.answered (chainReply env w dir) { w with heap := w.heap.ticked.ticked }))
      (status : (chainReply env w dir).status = none) (asked : w.heap.tick < w'.heap.tick)
      (landing : Landing env (chainReply env w dir) w w') : ChainLookupEnds benign env w .done w'

theorem ChainLookupEnds.flushed {status : Status} {w' : World}
    (ends : ChainLookupEnds benign env w status w') : Flushed w w' := by
  cases ends <;> assumption

theorem ChainLookupEnds.lands {status : Status} {w' : World}
    (ends : ChainLookupEnds benign env w status w') : Lands w w' := by
  cases ends with
  | failed _ lands => exact lands
  | symlink _ inode => exact .moved inode
  | done _ _ _ _ _ landing => exact landing.lands

theorem chainLookupBody_ends (queued : Queued w) :
    Shows benign (chainLookupBody env) (ChainLookupEnds benign env w) w := by
  unfold Shows
  rw [chainLookupBody, wp_bind, wp_getNd]
  cases w.nd.inode with
  | none => exact ⟨by simp, by simp⟩
  | some inode =>
      simp only [wp_ite]
      constructor
      · intro _
        rw [wp_bind]
        apply Shows.mono (nfsChainLookup_ends queued)
        intro status w' ends
        cases ends with
        | failed looked lands =>
            simp only [wp_bind]
            apply shows_freeDchainList
            intro h' last same tick
            simp only [terminateWalk, pathPut, wp_bind, wp_getNd, wp_modifyHeap]
            apply Searched.unlocked queued
            · exact looked.later (same.trans (.dput _ _)) (Nat.le_of_eq tick.symm) rfl rfl
            · rfl
            · rfl
            · intro flushed
              have put : SameDentries w'.heap { h'.dput w'.nd.path.dentry with held := [] } :=
                same.toSameDentries.trans ⟨rfl, rfl, rfl⟩
              exact .failed flushed (lands.later put rfl rfl)
        | symlink looked =>
            simp only [wp_bind, wp_getHeap, wp_modifyNd, wp_modifyHeap]
            apply shows_freeDchainList
            intro h' last same tick
            simp only [wp_getNd]
            apply Searched.unlocked queued
            · exact looked.later ((SameShape.dget _ _).trans same) (Nat.le_of_eq tick.symm) rfl rfl
            · rfl
            · rfl
            · intro flushed
              exact .symlink flushed (same.inode _).symm
        | done looked dirIs answered status asked landing =>
            simp only [wp_bind]
            apply shows_freeDchainList
            intro h' last same tick
            simp only [wp_getNd]
            apply Searched.unlocked queued
            · exact looked.later same (Nat.le_of_eq tick.symm) rfl rfl
            · rfl
            · rfl
            · intro flushed
              have freed : SameDentries w'.heap { h' with held := [] } :=
                same.toSameDentries.trans ⟨rfl, rfl, rfl⟩
              have later : w.heap.tick < h'.tick := by
                rw [tick]
                exact asked
              exact .done flushed dirIs answered status later (landing.later freed rfl rfl)
      · intro _
        exact ⟨by simp, by simp⟩

theorem chainLookup_ends (queued : Queued w) :
    Shows benign (chainLookup env) (ChainLookupEnds benign env w) w := by
  unfold Shows
  rw [chainLookup, wp_bind]
  apply Shows.mono (chainLookupBody_ends queued)
  intro status w' ends
  rw [wp_bind, wp_observe]
  intro _
  exact ⟨ends.flushed.quiet.chainInv, ends⟩

end Nfs4Compound.Vfs
