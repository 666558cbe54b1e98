/-
Module: Nfs4Compound.Proofs.Boundaries
Layer: Proofs
Purpose: A chain lookup stops where a filesystem of the server ends exactly when the chain does not leave
  its filesystem before the last name that is filled, and nothing has to be mounted there.
Imports: Nfs4Compound.Vfs.Boundaries, Nfs4Compound.Proofs.ChainEnds
Trusted boundary: none
Main exports: fillEntries_slots, followManagedMounting_leaves, stops_at_boundary_iff
-/
import Nfs4Compound.Vfs.Boundaries
import Nfs4Compound.Proofs.ChainEnds

namespace Nfs4Compound.Vfs

open Prog

variable {env : Env} {h h' : Heap} {parent : DentryId} {entry : ChainDentry}
  {rest entries : List ChainDentry} {slot : Nat → Option Ino} {w : World} {dir : Ino}

/-! ### The slots that are filled -/

theorem fillsSlot_zero {tick : Nat} :
    FillsSlot env slot (entry :: rest) tick 0 ↔
      ∀ inode error, slot 0 = some inode → env.materialise tick entry.dentry (some inode) ≠ .failed error := by
  constructor
  · rintro ⟨-, e, found, kept⟩
    cases found
    exact kept
  · intro kept
    exact ⟨fun j less => absurd less (Nat.not_lt_zero j), entry, rfl, kept⟩

theorem fillsSlot_succ {tick i : Nat} :
    FillsSlot env slot (entry :: rest) tick (i + 1) ↔
      GoesOn env slot (entry :: rest) tick 0 ∧ FillsSlot env (fun k => slot (k + 1)) rest (tick + 1) i := by
  have numbered : tick + (i + 1) = tick + 1 + i := by rw [Nat.add_comm i, Nat.add_assoc]
  constructor
  · rintro ⟨reached, e, found, kept⟩
    refine ⟨reached 0 (Nat.succ_pos i), ?_, e, found, ?_⟩
    · intro j less
      exact goesOn_succ.mp (reached (j + 1) (Nat.succ_lt_succ less))
    · rw [numbered] at kept
      exact kept
  · rintro ⟨first, reached, e, found, kept⟩
    refine ⟨?_, e, found, ?_⟩
    · intro j less
      cases j with
      | zero => exact first
      | succ j => exact goesOn_succ.mpr (reached j (Nat.lt_of_succ_lt_succ less))
    · rw [numbered]
      exact kept

theorem FillsSlot.less {tick i : Nat} (fills : FillsSlot env slot entries tick i) : i < entries.length := by
  obtain ⟨-, e, found, -⟩ := fills
  exact (List.getElem?_eq_some_iff.mp found).1

/-- The loop goes on behind a slot that it fills, but for a symlink. -/
theorem FillsSlot.goesOn {tick i : Nat} (fills : FillsSlot env slot entries tick i)
    (noLink : ∀ inode, slot i = some inode → env.kind inode ≠ .symlink) : GoesOn env slot entries tick i := by
  obtain ⟨-, e, found, kept⟩ := fills
  intro inode here
  refine ⟨noLink inode here, ?_⟩
  intro e' error there failed
  cases found.symm.trans there
  exact kept inode error here failed

/-! ### How the loop leaves the chain -/

/-- Where the loop stops: at an entry that is refused, at a symlink, or behind the last entry. -/
inductive LoopStops (env : Env) (slot : Nat → Option Ino) (entries : List ChainDentry) (tick : Nat)
    (previous : Option (DentryId × Option Ino)) : Filled → Prop where
  | refused {i : Nat} (reached : ∀ j, j < i → GoesOn env slot entries tick j) (less : i < entries.length)
      (unfilled : ¬FillsSlot env slot entries tick i) : LoopStops env slot entries tick previous .failed
  | link {i : Nat} {d : DentryId} {inode : Ino} (fills : FillsSlot env slot entries tick i)
      (found : slot i = some inode) (kind : env.kind inode = .symlink) :
      LoopStops env slot entries tick previous (.symlink d (some inode))
  | through {place : Option (DentryId × Option Ino)}
      (all : ∀ i, i < entries.length → GoesOn env slot entries tick i)
      (last : entries = [] ∧ place = previous ∨
        entries ≠ [] ∧ ∃ d, place = some (d, slot (entries.length - 1))) :
      LoopStops env slot entries tick previous (.all place)

/-- The loop goes on behind the first entry. -/
theorem LoopStops.cons {tick : Nat} {previous : Option (DentryId × Option Ino)} {filled : Filled}
    {d : DentryId} (goesOn : GoesOn env slot (entry :: rest) tick 0)
    (more : LoopStops env (fun k => slot (k + 1)) rest (tick + 1) (some (d, slot 0)) filled) :
    LoopStops env slot (entry :: rest) tick previous filled := by
  have reached : ∀ {i : Nat}, (∀ j, j < i → GoesOn env (fun k => slot (k + 1)) rest (tick + 1) j) →
      ∀ j, j < i + 1 → GoesOn env slot (entry :: rest) tick j := by
    intro i all j less
    cases j with
    | zero => exact goesOn
    | succ j => exact goesOn_succ.mpr (all j (Nat.lt_of_succ_lt_succ less))
  cases more with
  | @refused i all less unfilled =>
      apply LoopStops.refused (reached all) (Nat.succ_lt_succ less)
      intro fills
      exact unfilled (fillsSlot_succ.mp fills).2
  | link fills found kind => exact .link (fillsSlot_succ.mpr ⟨goesOn, fills⟩) found kind
  | through all last =>
      refine LoopStops.through (fun i => reached all i) (.inr ⟨List.cons_ne_nil _ _, ?_⟩)
      rcases last with ⟨rfl, rfl⟩ | ⟨nonempty, d, rfl⟩
      · exact ⟨d, rfl⟩
      · cases rest with
        | nil => exact absurd rfl nonempty
        | cons next rest => exact ⟨d, rfl⟩

/-- What the loop leaves of the chain: a slot that it fills gives its inode to the dentry that is in the
    place of the entry now, and the other entries are as they were. -/
structure SlotsFilled (env : Env) (slot : Nat → Option Ino) (entries entries' : List ChainDentry)
    (h h' : Heap) : Prop where
  others : ∀ x, x ∉ entries.map (·.dentry) → h'.inode x = h.inode x
  filled : ∀ i, FillsSlot env slot entries h.tick i →
    ∃ entry' : ChainDentry, entries'[i]? = some entry' ∧ h'.inode entry'.dentry = slot i
  left : ∀ (i : Nat) (entry' : ChainDentry), entries'[i]? = some entry' → ¬FillsSlot env slot entries h.tick i →
    ¬h'.Instantiated entry'.dentry
  place : ∀ (i : Nat) (entry' : ChainDentry), entries'[i]? = some entry' → entries[i]? = some entry' ∨
    ∃ tick d inode, env.materialise tick d inode = .other entry'.dentry

theorem slotsFilled_nil : SlotsFilled env slot [] [] h h := by
  refine ⟨fun _ _ => rfl, ?_, ?_, ?_⟩
  · intro i fills
    exact absurd fills.less (Nat.not_lt_zero i)
  · intro i entry found
    cases found
  · intro i entry found
    cases found

/-- The loop stops at the first entry. -/
theorem slotsFilled_stop (pending : Pending h parent (entry :: rest)) (step : FillStep entry.dentry h h')
    (stops : ¬GoesOn env slot (entry :: rest) h.tick 0)
    (filled : FillsSlot env slot (entry :: rest) h.tick 0 → h'.inode entry.dentry = slot 0)
    (left : ¬FillsSlot env slot (entry :: rest) h.tick 0 → ¬h'.Instantiated entry.dentry) :
    SlotsFilled env slot (entry :: rest) (entry :: rest) h h' := by
  refine ⟨?_, ?_, ?_, fun i e found => .inl found⟩
  · intro x outside
    rw [List.map_cons, List.mem_cons, not_or] at outside
    exact step.inode x outside.1
  · intro i fills
    cases i with
    | zero => exact ⟨entry, rfl, filled fills⟩
    | succ i => exact absurd (fillsSlot_succ.mp fills).1 stops
  · intro i e found unfilled
    cases i with
    | zero =>
        cases found
        exact left unfilled
    | succ i =>
        rw [List.getElem?_cons_succ] at found
        have member := List.mem_of_getElem? found
        have tail := pending.tail step
        rintro (hashed | positive)
        · rw [tail.linked.unhashed e member] at hashed
          cases hashed
        · exact positive (tail.negative e member)

/-- The loop goes on behind the first entry, whose place `entry'` has now. -/
theorem slotsFilled_more {entry' : ChainDentry} {rest' : List ChainDentry} {middle : Heap}
    (step : FillStep entry.dentry h middle) (goesOn : GoesOn env slot (entry :: rest) h.tick 0)
    (fills : FillsSlot env slot (entry :: rest) h.tick 0)
    (filled : middle.inode entry'.dentry = slot 0) (outside : entry'.dentry ∉ rest.map (·.dentry))
    (place : entry' = entry ∨ ∃ tick d inode, env.materialise tick d inode = .other entry'.dentry)
    (more : SlotsFilled env (fun k => slot (k + 1)) rest rest' middle h') :
    SlotsFilled env slot (entry :: rest) (entry' :: rest') h h' := by
  have behind : ∀ i, FillsSlot env slot (entry :: rest) h.tick (i + 1) ↔
      FillsSlot env (fun k => slot (k + 1)) rest middle.tick i := by
    intro i
    rw [fillsSlot_succ, step.tick]
    exact and_iff_right goesOn
  refine ⟨?_, ?_, ?_, ?_⟩
  · intro x absent
    rw [List.map_cons, List.mem_cons, not_or] at absent
    rw [more.others x absent.2, step.inode x absent.1]
  · intro i here
    cases i with
    | zero => exact ⟨entry', rfl, (more.others _ outside).trans filled⟩
    | succ i => exact more.filled i ((behind i).mp here)
  · intro i e found unfilled
    cases i with
    | zero => exact absurd fills unfilled
    | succ i => exact more.left i e found fun here => unfilled ((behind i).mpr here)
  · intro i e found
    cases i with
    | zero =>
        cases found
        rcases place with rfl | moved
        · exact .inl rfl
        · exact .inr moved
    | succ i => exact more.place i e found

/-- The loop of `nfs_fill_dchain_list`: induction on the entries, as they are filled. -/
theorem fillEntries_slots (noAlias : NoLinkAlias env) (slot : Nat → Option Ino) (index : Nat)
    (previous : Option (DentryId × Option Ino)) (pending : Pending h parent entries) :
    after (fillEntries env slot index previous entries)
      (fun ended h' => SlotsFilled env (fun k => slot (index + k)) entries ended.1 h h' ∧
        LoopStops env (fun k => slot (index + k)) entries h.tick previous ended.2) h := by
  induction entries generalizing index previous parent h with
  | nil => exact ⟨slotsFilled_nil, .through (fun i less => absurd less (Nat.not_lt_zero i)) (.inl ⟨rfl, rfl⟩)⟩
  | cons entry rest inductionHypothesis =>
      have distinct := (List.nodup_cons.mp pending.distinct).2
      have notRest : entry.dentry ∉ rest.map (·.dentry) := (List.nodup_cons.mp distinct).1
      have shift : (fun k => slot (index + 1 + k)) = fun k => slot (index + (k + 1)) := by
        funext k
        rw [Nat.add_right_comm, Nat.add_assoc]
      rw [fillEntries, after_bind]
      apply after_mono (dMaterialiseUnique_ends (slot index))
      intro materialised middle ends
      cases ends with
      | @failed error question positive =>
          obtain ⟨inode, found⟩ := Option.isSome_iff_exists.mp positive
          rw [found] at question
          have step : FillStep entry.dentry h h.ticked :=
            ⟨fun _ _ => rfl, fun _ _ _ => rfl, fun _ _ unhashed => unhashed,
              fun _ _ _ hashed _ => hashed, rfl⟩
          have stops : ¬GoesOn env (fun k => slot (index + k)) (entry :: rest) h.tick 0 := fun goesOn =>
            (goesOn inode found).2 entry error rfl question
          have unfilled : ¬FillsSlot env (fun k => slot (index + k)) (entry :: rest) h.tick 0 := fun fills =>
            fillsSlot_zero.mp fills inode error found question
          constructor
          · apply slotsFilled_stop pending step stops (fun fills => absurd fills unfilled)
            rintro - (hashed | some)
            · have unhashed : h.ticked.isHashed entry.dentry = false := pending.linked.2.1
              rw [unhashed] at hashed
              cases hashed
            · exact some (pending.negative entry List.mem_cons_self)
          · exact .refused (fun j less => absurd less (Nat.not_lt_zero j)) (Nat.succ_pos _) unfilled
      | null kept =>
          have step := @fillStep_instantiate env h entry.dentry (slot index)
          have filled : (dInstantiate env entry.dentry (slot index) h.ticked).inode entry.dentry =
              slot index := by
            rw [instantiate_inode, if_pos rfl]
          have fills : FillsSlot env (fun k => slot (index + k)) (entry :: rest) h.tick 0 := by
            rw [fillsSlot_zero]
            intro inode error found failed
            rw [show slot index = some inode from found] at kept
            exact kept rfl error failed
          simp only [after_bind, after_get, after_ite, after_pure]
          constructor
          · intro symlink
            obtain ⟨inode, found, kind⟩ := (dIsSymlink_instantiate _).mp symlink
            constructor
            · apply slotsFilled_stop pending step _ (fun _ => filled) (fun unfilled => absurd fills unfilled)
              intro goesOn
              exact (goesOn inode found).1 kind
            · rw [found]
              exact .link fills found kind
          · intro notSymlink
            have goesOn := fills.goesOn fun inode found kind =>
              notSymlink ((dIsSymlink_instantiate _).mpr ⟨inode, found, kind⟩)
            apply after_mono (inductionHypothesis (index + 1) _ (pending.tail step))
            rintro ended h' ⟨more, stops⟩
            rw [shift] at more stops
            exact ⟨slotsFilled_more step goesOn fills filled notRest (.inl rfl) more, stops.cons goesOn⟩
      | @other o question positive hashed same different =>
          obtain ⟨inode, found⟩ := Option.isSome_iff_exists.mp positive
          have step := @fillStep_moveTo env h entry.dentry o inode hashed (same.trans found)
          have dentry : ((dMoveTo env o entry.dentry h.ticked).dget o).dentry entry.dentry =
              h.dentry entry.dentry := moveTo_dentry (h := h.ticked) different.symm
          have fills : FillsSlot env (fun k => slot (index + k)) (entry :: rest) h.tick 0 := by
            rw [fillsSlot_zero]
            intro other error here failed
            rw [← show slot index = some other from here, question] at failed
            cases failed
          have goesOn := fills.goesOn fun other here kind => by
            rw [show slot index = some other from here] at question
            exact noAlias _ _ _ _ kind question
          have outside : o ∉ rest.map (·.dentry) := by
            intro member
            obtain ⟨e, inRest, equal⟩ := List.mem_map.mp member
            have unhashed := pending.linked.unhashed e (List.mem_cons_of_mem _ inRest)
            rw [equal, hashed] at unhashed
            cases unhashed
          simp only [after_bind, after_get, after_ite, after_pure]
          constructor
          · intro symlink
            -- the old dentry keeps the type of a pending one
            have type : h.type entry.dentry = .chainTemp := pending.linked.2.2.1
            rw [Heap.dIsSymlink, Heap.type, dentry, ← Heap.type, type] at symlink
            cases symlink
          · intro _
            apply after_mono (inductionHypothesis (index + 1) _ (pending.tail step))
            rintro ended h' ⟨more, stops⟩
            rw [shift] at more stops
            rw [step.tick] at stops
            refine ⟨slotsFilled_more step goesOn fills ?_ outside (.inr ⟨_, _, _, question⟩) more,
              stops.cons goesOn⟩
            exact (moveTo_inode env o o).trans same

/-! ### The whole lookup -/

/-- How the walk is left behind a loop that stopped so. -/
def WalkLeft (w : World) (reply : ChainReply) (result : Except Oops Status) (w' : World) : Filled → Prop
  | .failed => result = .ok (Status.ofReply reply.status) ∧ w'.nd.inode = w.nd.inode
  | .symlink _ _ => ∃ path, result = .ok (.chainLink path)
  | .all none => result = .error .nullDeref
  | .all (some (_, inode)) => result = .ok (Status.ofReply reply.status) ∧ w'.nd.inode = inode

/-- How a lookup that fills the slots ends. -/
structure LookupSlots (env : Env) (w : World) (reply : ChainReply) (result : Except Oops Status)
    (w' : World) : Prop where
  mnt : w'.nd.path.mnt = w.nd.path.mnt
  flags : w'.nd.flags = w.nd.flags
  slots : ∃ h', SameShape h' w'.heap ∧
    SlotsFilled env reply.slot w.nd.dchainList w'.nd.dchainList w.heap.ticked.ticked h'
  stops : ∃ filled, LoopStops env reply.slot w.nd.dchainList (w.heap.tick + 2) none filled ∧
    WalkLeft w reply result w' filled

/-- `nfs_fill_dchain_list` and the return behind it. -/
theorem nfsFillDchainList_slots (noAlias : NoLinkAlias env)
    (pending : Pending w.heap w.nd.path.dentry w.nd.dchainList) (reply : ChainReply) :
    wp (fun _ claim => claim) (fun fault => LookupSlots env w reply (.error fault))
      (do
        let atSymlink ← nfsFillDchainList env reply.slot
        modifyHeap (·.dput w.nd.path.dentry)
        if atSymlink then
          return .chainLink (← getNd).path
        else
          return Status.ofReply reply.status)
      (fun status => LookupSlots env w reply (.ok status)) { w with heap := w.heap.ticked.ticked } := by
  have ticked : SameShape w.heap w.heap.ticked.ticked := ⟨⟨rfl, rfl, rfl⟩, rfl⟩
  have fills := @fillEntries_slots env _ _ _ noAlias reply.slot 0 none (ticked.pending pending)
  simp only [Nat.zero_add] at fills
  rw [wp_bind, nfsFillDchainList, wp_bind, wp_getNd, wp_bind, wp_dcache]
  apply after_mono fills
  rintro ⟨entries, filled⟩ h' ⟨slots, stops⟩
  have put : SameShape h' (h'.dput w.nd.path.dentry) := .dput h' w.nd.path.dentry
  cases filled with
  | failed =>
      simp only [wp_bind, wp_modifyNd, wp_modifyHeap, wp_ite, wp_getNd, wp_pure]
      exact ⟨(fun other => by cases other), fun _ => ⟨rfl, rfl, ⟨h', put, slots⟩, _, stops, rfl, rfl⟩⟩
  | symlink d inode =>
      simp only [wp_bind, wp_modifyNd, wp_modifyHeap, wp_ite, wp_getNd, wp_pure]
      exact ⟨fun _ => ⟨rfl, rfl, ⟨h', put, slots⟩, _, stops, _, rfl⟩, fun other => absurd trivial other⟩
  | all place =>
      cases place with
      | none =>
          simp only [wp_bind, wp_modifyNd, wp_fault]
          exact ⟨rfl, rfl, ⟨h', .refl h', slots⟩, _, stops, rfl⟩
      | some last =>
          simp only [wp_bind, wp_modifyNd, wp_modifyHeap, wp_ite, wp_getNd, wp_pure]
          exact ⟨(fun other => by cases other), fun _ => ⟨rfl, rfl, ⟨h', put, slots⟩, _, stops, rfl, rfl⟩⟩

/-! ### Where `follow_managed` leads -/

section Follow

variable {exports : Exports env} {opening : Bool} {path : Path}

theorem Exports.automount_iff {inode : Ino} (foreign : exports.Foreign inode) :
    env.kind inode = .automount ↔ exports.type inode = .directory := by
  have plain := exports.plain inode
  have marked : nfsAttrCheckMountpoint (exports.sbFsid inode) (exports.fsid inode) = true := by
    simp only [nfsAttrCheckMountpoint, decide_eq_true_eq]
    exact foreign
  rw [exports.made, nfsFhgetKind, marked]
  by_cases directory : exports.type inode = .directory
  · simp [directory]
  · simp [directory, plain]

theorem Exports.symlink_iff (exports : Exports env) (inode : Ino) :
    env.kind inode = .symlink ↔ exports.type inode = .symlink := by
  rw [exports.made, nfsFhgetKind]
  split
  · rename_i marked
    simp [marked.1]
  · rfl

/-- A directory with a `lookup` method lies in the filesystem of its superblock. -/
theorem Exports.home {inode : Ino} (directory : env.kind inode = .directory) : ¬exports.Foreign inode := by
  intro foreign
  have other := exports.automount_iff foreign
  rw [exports.made, nfsFhgetKind] at directory
  split at directory
  · cases directory
  · have automount := other.mpr directory
    rw [exports.made, nfsFhgetKind, if_neg (by assumption), directory] at automount
    cases automount

/-- `follow_automount` lets the walk stay where nobody wants to go on. -/
theorem wp_followAutomount_unwanted {use : Event → Prop → Prop} {faults : Oops → World → Prop}
    {post : Except Errno (Option MountId) → World → Prop} (unwanted : w.nd.flags.wantsMount opening = false) :
    wp use faults (followAutomount exports opening path) post w ↔ post (.ok none) w := by
  rw [followAutomount, wp_bind, wp_getNd]
  simp only [unwanted, Bool.false_eq_true, if_false]
  exact Iff.rfl

/-- What `follow_automount` mounts lies deeper, and it does not let the walk stay where somebody wants to
    go on. -/
theorem followAutomount_wanted (wanted : w.nd.flags.wantsMount opening = true) :
    Yields (followAutomount exports opening path)
      (fun found _ => found ≠ .ok none ∧
        ∀ mounted, found = .ok (some mounted) → exports.rank path.mnt < exports.rank mounted) w := by
  unfold Yields
  rw [followAutomount, wp_bind, wp_getNd]
  simp only [wanted, if_true, wp_bind, wp_update, wp_read, wp_ite, wp_dcache, after_ask]
  constructor
  · intro _
    exact ⟨(fun other => by cases other), fun mounted other => (by cases other)⟩
  · intro _
    cases mounts : exports.dAutomount w.heap.tick path with
    | ok mounted =>
        refine ⟨(fun other => by cases other), ?_⟩
        intro mounted same
        cases same
        exact (exports.deeper path _ (.inr ⟨_, mounts⟩)).1
    | error error =>
        have willing := exports.willing w.heap.tick path
        rw [mounts] at willing
        cases error with
        | EISDIR => exact absurd rfl willing
        | _ => exact ⟨(fun other => by cases other), fun mounted other => (by cases other)⟩

/-- The walk stays where nothing is mounted, and nothing has to be. -/
theorem followManagedMounting_stays (depth : Nat) (bare : env.mountedOn path = none)
    (unwanted : w.heap.needAutomount env path.dentry = true → w.nd.flags.wantsMount opening = false) :
    (followManagedMounting exports opening depth path w).result = .ok (.ok path) ∧
      (followManagedMounting exports opening depth path w).state = w := by
  have ran := @wp_run _ _ _ _ w (followManagedMounting exports opening depth path)
    fun result w' => result = .ok (.ok path) ∧ w' = w
  rw [← ran]
  cases depth with
  | zero => exact ⟨rfl, rfl⟩
  | succ depth =>
      rw [followManagedMounting, bare]
      simp only [wp_bind, wp_getHeap, wp_ite]
      constructor
      · intro need
        rw [wp_followAutomount_unwanted (unwanted need)]
        exact ⟨rfl, rfl⟩
      · intro _
        exact ⟨rfl, rfl⟩

/-- `follow_managed` never leads up: induction on the mounts it still may enter. -/
theorem followManagedMounting_rank (depth : Nat) :
    Yields (followManagedMounting exports opening depth path)
      (fun found _ => ∀ path', found = .ok path' → exports.rank path.mnt ≤ exports.rank path'.mnt) w := by
  induction depth generalizing path w with
  | zero =>
      intro path' same
      cases same
      exact Nat.le_refl _
  | succ depth inductionHypothesis =>
      have stays : ∀ path', Except.ok (ε := Errno) path = .ok path' →
          exports.rank path.mnt ≤ exports.rank path'.mnt := by
        rintro path' ⟨⟩
        exact Nat.le_refl _
      have enters : ∀ {mounted : MountId} (w : World), exports.rank path.mnt < exports.rank mounted →
          Yields (do followManagedMounting exports opening depth (← enterMount env path mounted))
            (fun found _ => ∀ path', found = .ok path' → exports.rank path.mnt ≤ exports.rank path'.mnt) w := by
        intro mounted w deeper
        unfold Yields
        simp only [enterMount, wp_bind, wp_modifyHeap, wp_pure]
        refine Yields.mono inductionHypothesis ?_
        intro found w' rank path' same
        exact Nat.le_trans (Nat.le_of_lt deeper) (rank path' same)
      rw [followManagedMounting]
      cases mounts : env.mountedOn path with
      | some mounted =>
          apply enters w
          unfold Env.mountedOn at mounts
          split at mounts
          · exact (exports.deeper path mounted (.inl mounts)).1
          · cases mounts
      | none =>
          unfold Yields
          simp only [wp_bind, wp_getHeap, wp_ite]
          refine ⟨fun _ => ?_, fun _ => stays⟩
          by_cases wanted : w.nd.flags.wantsMount opening = true
          · refine Yields.mono (followAutomount_wanted wanted) ?_
            rintro found w' ⟨-, deeper⟩
            cases found with
            | error error =>
                intro path' other
                cases other
            | ok found =>
                cases found with
                | none => exact stays
                | some mounted => exact enters w' (deeper mounted rfl)
          · rw [wp_followAutomount_unwanted (Bool.eq_false_iff.mpr wanted)]
            exact stays

/-- From an automount point `follow_managed` leads into another mount, or fails. -/
theorem followManagedMounting_leaves (depth : Nat) (bare : env.mountedOn path = none)
    (need : w.heap.needAutomount env path.dentry = true) (wanted : w.nd.flags.wantsMount opening = true) :
    Yields (followManagedMounting exports opening (depth + 1) path)
      (fun found _ => ∀ path', found = .ok path' → path'.mnt ≠ path.mnt) w := by
  rw [followManagedMounting, bare]
  unfold Yields
  simp only [wp_bind, wp_getHeap, need, if_true]
  refine Yields.mono (followAutomount_wanted wanted) ?_
  rintro found w' ⟨goes, deeper⟩
  cases found with
  | error error =>
      intro path' other
      cases other
  | ok found =>
      cases found with
      | none => exact absurd rfl goes
      | some mounted =>
          simp only [enterMount, wp_bind, wp_modifyHeap, wp_pure]
          refine Yields.mono (followManagedMounting_rank depth) ?_
          intro found w'' rank path' same back
          have below := rank path' same
          rw [back] at below
          exact absurd (deeper mounted rfl) (Nat.not_lt.mpr below)

end Follow

/-! ### Boundaries -/

/-- Every slot before one that is filled is filled. -/
theorem FillsSlot.before {tick i j : Nat} (fills : FillsSlot env slot entries tick i) (before : j ≤ i) :
    FillsSlot env slot entries tick j := by
  rcases Nat.lt_or_eq_of_le before with less | rfl
  · have inside : j < entries.length := Nat.lt_trans less fills.less
    refine ⟨fun l lower => fills.1 l (Nat.lt_trans lower less), entries[j], List.getElem?_eq_getElem inside, ?_⟩
    intro inode error found
    exact (fills.1 j less inode found).2 _ error (List.getElem?_eq_getElem inside)
  · exact fills

/-- The loop fills what it gets through. -/
theorem fillsSlot_of_all {tick i : Nat} (all : ∀ j, j < entries.length → GoesOn env slot entries tick j)
    (less : i < entries.length) : FillsSlot env slot entries tick i := by
  refine ⟨fun j lower => all j (Nat.lt_trans lower less), entries[i], List.getElem?_eq_getElem less, ?_⟩
  intro inode error found
  exact (all i less inode found).2 _ error (List.getElem?_eq_getElem less)

theorem Exports.exists_boundary (exports : Exports env) {k : Nat} {inode : Ino} (found : slot k = some inode)
    (foreign : exports.Foreign inode) : ∃ first, first ≤ k ∧ exports.BoundaryAt slot first := by
  induction k using Nat.strongRecOn generalizing inode with
  | ind k inductionHypothesis =>
      by_cases earlier : ∃ j other, j < k ∧ slot j = some other ∧ exports.Foreign other
      · obtain ⟨j, other, less, here, foreign⟩ := earlier
        obtain ⟨first, before, boundary⟩ := inductionHypothesis j less here foreign
        exact ⟨first, Nat.le_trans before (Nat.le_of_lt less), boundary⟩
      · refine ⟨k, Nat.le_refl k, ⟨inode, found, foreign⟩, ?_⟩
        intro j other less here there
        exact earlier ⟨j, other, less, here, there⟩

section Boundary

variable {exports : Exports env} {opening : Bool} {reply : ChainReply}
  (noAlias : NoLinkAlias env) (unmounted : Unmounted env w)
  (pending : Pending w.heap w.nd.path.dentry w.nd.dchainList)
  (replyIs : env.chainRpc (w.heap.tick + 1) dir (w.nd.dchainList.map (·.name.text)) = reply)
  (positive : w.heap.inode w.nd.path.dentry = some dir)

include noAlias pending replyIs positive

theorem nfsChainLookup_slots (fills : Fills env w reply) :
    LookupSlots env w reply (nfsChainLookup env w).result (nfsChainLookup env w).state :=
  nfsChainLookup_fills replyIs positive fills (nfsFillDchainList_slots noAlias pending reply)

/-- A slot that is filled is instantiated. -/
theorem instantiated_of_fillsSlot (fills : Fills env w reply) {i : Nat}
    (filled : FillsSlot env reply.slot w.nd.dchainList (w.heap.tick + 2) i) :
    ∃ entry, (nfsChainLookup env w).state.nd.dchainList[i]? = some entry ∧
      (nfsChainLookup env w).state.heap.Instantiated entry.dentry ∧
      (nfsChainLookup env w).state.heap.inode entry.dentry = reply.slot i := by
  obtain ⟨-, -, ⟨h', same, slots⟩, -⟩ := nfsChainLookup_slots noAlias pending replyIs positive fills
  obtain ⟨entry, found, inode⟩ := slots.filled i filled
  rw [← same.inode] at inode
  refine ⟨entry, found, ?_, inode⟩
  cases slot : reply.slot i with
  | some object =>
      right
      rw [inode, slot]
      exact Option.some_ne_none _
  | none =>
      left
      have leaves := nfsChainLookup_leaves noAlias pending positive
      rw [replyIs] at leaves
      cases leaves with
      | untouched skipped => exact absurd fills skipped
      | filled _ _ same ends =>
          rw [same.isHashed]
          rcases ends.took i entry found with old | ⟨-, some⟩
          · exact ends.hides i entry old filled.1 slot
          · exact absurd slot some

/-- A slot that is not filled is not instantiated. -/
theorem fillsSlot_of_instantiated (fills : Fills env w reply) {i : Nat} {entry : ChainDentry}
    (found : (nfsChainLookup env w).state.nd.dchainList[i]? = some entry)
    (instantiated : (nfsChainLookup env w).state.heap.Instantiated entry.dentry) :
    FillsSlot env reply.slot w.nd.dchainList (w.heap.tick + 2) i := by
  obtain ⟨-, -, ⟨h', same, slots⟩, -⟩ := nfsChainLookup_slots noAlias pending replyIs positive fills
  by_contra unfilled
  apply slots.left i entry found unfilled
  rcases instantiated with hashed | some
  · exact .inl ((same.isHashed _).symm.trans hashed)
  · rw [same.inode] at some
    exact .inr some

/-- A lookup that fills no slot instantiates nothing. -/
theorem fills_of_instantiated {i : Nat} {entry : ChainDentry}
    (found : (nfsChainLookup env w).state.nd.dchainList[i]? = some entry)
    (instantiated : (nfsChainLookup env w).state.heap.Instantiated entry.dentry) : Fills env w reply := by
  have leaves := nfsChainLookup_leaves noAlias pending positive
  rw [replyIs] at leaves
  cases leaves with
  | filled allocated fills => exact ⟨allocated, fills⟩
  | untouched _ same entries =>
      rw [entries] at found
      have member := List.mem_of_getElem? found
      rcases instantiated with hashed | some
      · rw [same.isHashed, pending.linked.unhashed entry member] at hashed
        cases hashed
      · rw [same.inode] at some
        exact absurd (pending.negative entry member) some

include unmounted

/-- Nothing is mounted on the dentries of the chain. -/
theorem mountedOn_chain (fills : Fills env w reply) {i : Nat} {entry : ChainDentry} (mnt : MountId)
    (found : (nfsChainLookup env w).state.nd.dchainList[i]? = some entry) :
    env.mountedOn ⟨mnt, entry.dentry⟩ = none := by
  obtain ⟨-, -, ⟨h', -, slots⟩, -⟩ := nfsChainLookup_slots noAlias pending replyIs positive fills
  have bare : env.mountpoint entry.dentry = false := by
    rcases slots.place i entry found with old | ⟨tick, d, inode, moved⟩
    · exact unmounted.pending entry (List.mem_of_getElem? old)
    · exact unmounted.moved tick d inode _ moved
  rw [Env.mountedOn, bare]
  rfl

/-- Where `follow_managed` leads from the last name that is filled: nowhere, if nothing has to be mounted,
    and out of the mount otherwise. -/
theorem crosses_iff (fills : Fills env w reply) {k : Nat} {entry : ChainDentry} {inode : Ino}
    (found : (nfsChainLookup env w).state.nd.dchainList[k]? = some entry)
    (object : (nfsChainLookup env w).state.heap.inode entry.dentry = some inode)
    (foreign : exports.Foreign inode) :
    let w' := (nfsChainLookup env w).state
    let follow := followManagedMounting exports opening (env.mountDepth + 1) ⟨w.nd.path.mnt, entry.dentry⟩ w'
    (∃ path, follow.result = .ok (.ok path) ∧ w'.nd.path.mnt = path.mnt ∧
        w'.nd.inode = follow.state.heap.inode path.dentry) ↔
      ¬(exports.type inode = .directory ∧ w.nd.flags.wantsMount opening = true) ∧ w'.nd.inode = some inode := by
  intro w' follow
  have ends := nfsChainLookup_slots noAlias pending replyIs positive fills
  have bare := mountedOn_chain noAlias unmounted pending replyIs positive fills w.nd.path.mnt found
  have flags : w'.nd.flags = w.nd.flags := ends.flags
  have need : w'.heap.needAutomount env entry.dentry = true ↔ exports.type inode = .directory := by
    rw [Heap.needAutomount, object]
    simp only [decide_eq_true_eq]
    exact exports.automount_iff foreign
  by_cases mounts : exports.type inode = .directory ∧ w.nd.flags.wantsMount opening = true
  · have leaves := @followManagedMounting_leaves env w' exports opening ⟨w.nd.path.mnt, entry.dentry⟩
      env.mountDepth bare (need.mpr mounts.1) (by rw [flags]; exact mounts.2)
    rw [yields_iff] at leaves
    constructor
    · rintro ⟨path, result, here, -⟩
      exact absurd (here.symm.trans ends.mnt) (leaves _ result path rfl)
    · rintro ⟨none, -⟩
      exact absurd mounts none
  · obtain ⟨result, state⟩ := @followManagedMounting_stays env w' exports opening
      ⟨w.nd.path.mnt, entry.dentry⟩ (env.mountDepth + 1) bare (by
        intro automount
        rw [flags, Bool.eq_false_iff]
        exact fun wanted => mounts ⟨need.mp automount, wanted⟩)
    have follows : follow.result = .ok (.ok ⟨w.nd.path.mnt, entry.dentry⟩) := result
    have still : follow.state = w' := state
    rw [follows, still]
    constructor
    · rintro ⟨path, same, -, inode⟩
      cases same
      exact ⟨mounts, inode.trans object⟩
    · rintro ⟨-, inode⟩
      exact ⟨_, rfl, ends.mnt, inode.trans object.symm⟩

variable (stands : w.nd.inode = some dir) (directory : env.kind dir = .directory)

theorem stopsAtBoundary_of_within (within : WithinFilesystem exports opening w reply) :
    StopsAtBoundary exports opening w reply := by
  constructor
  · intro k i entry boundary behind found instantiated
    have fills := fills_of_instantiated noAlias pending replyIs positive found instantiated
    have filled := fillsSlot_of_instantiated noAlias pending replyIs positive fills found instantiated
    obtain ⟨⟨inode, object, foreign⟩, -⟩ := boundary
    exact (within fills k inode (filled.before (Nat.le_of_lt behind)) object foreign).1 (filled.before behind)
  · intro w' k entry boundary found instantiated done
    have fills := fills_of_instantiated noAlias pending replyIs positive found instantiated
    have filled := fillsSlot_of_instantiated noAlias pending replyIs positive fills found instantiated
    obtain ⟨⟨inode, object, foreign⟩, -⟩ := boundary
    obtain ⟨same, here, -, stored⟩ := instantiated_of_fillsSlot noAlias pending replyIs positive fills filled
    cases found.symm.trans here
    rw [object] at stored
    apply (crosses_iff noAlias unmounted pending replyIs positive fills found stored foreign).mpr
    obtain ⟨-, last⟩ := within fills k inode filled object foreign
    obtain ⟨-, -, -, stop, stops, left⟩ := nfsChainLookup_slots noAlias pending replyIs positive fills
    have whole : ∀ {status}, Except.ok (ε := Oops) Status.done = .ok (Status.ofReply status) → status = none := by
      intro status same
      cases status with
      | none => rfl
      | some error => cases same
    cases stops with
    | link =>
        obtain ⟨path, other⟩ := left
        cases done.symm.trans other
    | @refused i reached less unfilled =>
        obtain ⟨result, -⟩ := left
        exfalso
        have lower : i ≤ k → False := fun before => unfilled (filled.before before)
        rcases last (whole (done.symm.trans result)) with symlink | ⟨length, -⟩
        · have goesOn := reached k (Nat.lt_of_not_le lower) inode object
          exact goesOn.1 ((exports.symlink_iff inode).mpr symlink)
        · rw [← length] at less
          exact lower (Nat.le_of_lt_succ less)
    | @through place all position =>
        cases place with
        | none => cases done.symm.trans left
        | some place =>
            obtain ⟨result, inodeLeft⟩ := left
            rcases last (whole (done.symm.trans result)) with symlink | ⟨length, unwanted⟩
            · have goesOn := all k filled.less inode object
              exact absurd ((exports.symlink_iff inode).mpr symlink) goesOn.1
            · refine ⟨unwanted, inodeLeft.trans ?_⟩
              rcases position with ⟨-, other⟩ | ⟨-, d, same⟩
              · cases other
              · cases same
                rw [← length, Nat.add_sub_cancel]
                exact object

include stands directory

theorem within_of_stopsAtBoundary (stopsAt : StopsAtBoundary exports opening w reply) :
    WithinFilesystem exports opening w reply := by
  intro fills k inode filled object foreign
  obtain ⟨entry, found, instantiated, stored⟩ :=
    instantiated_of_fillsSlot noAlias pending replyIs positive fills filled
  rw [object] at stored
  obtain ⟨first, before, boundary⟩ := exports.exists_boundary object foreign
  have isFirst : first = k := by
    rcases Nat.lt_or_eq_of_le before with less | same
    · exact absurd instantiated (stopsAt.below first k entry boundary less found)
    · exact same
  subst isFirst
  have unfilled : ¬FillsSlot env reply.slot w.nd.dchainList (w.heap.tick + 2) (first + 1) := by
    intro next
    obtain ⟨other, there, below, -⟩ := instantiated_of_fillsSlot noAlias pending replyIs positive fills next
    exact stopsAt.below first (first + 1) other boundary (Nat.lt_succ_self first) there below
  refine ⟨unfilled, fun whole => ?_⟩
  by_cases symlink : exports.type inode = .symlink
  · exact .inl symlink
  right
  have crosses := fun done => (crosses_iff noAlias unmounted pending replyIs positive fills found stored
    foreign).mp (stopsAt.crosses first entry boundary found instantiated done)
  obtain ⟨-, -, -, stop, stops, left⟩ := nfsChainLookup_slots noAlias pending replyIs positive fills
  have done : Status.ofReply reply.status = .done := by
    rw [whole]
    rfl
  cases stops with
  | @link i d other fillsLink atLink kind =>
      exfalso
      rcases Nat.lt_trichotomy i first with less | rfl | greater
      · exact (filled.1 i less other atLink).1 kind
      · cases object.symm.trans atLink
        exact symlink ((exports.symlink_iff inode).mp kind)
      · exact unfilled (fillsLink.before greater)
  | refused =>
      -- the walk is still in the directory where the chain starts, which lies in the filesystem
      obtain ⟨result, same⟩ := left
      rw [done] at result
      obtain ⟨-, arrived⟩ := crosses result
      cases stands.symm.trans (same.symm.trans arrived)
      exact absurd foreign (exports.home directory)
  | @through place all position =>
      have length : first + 1 = w.nd.dchainList.length := by
        by_contra short
        exact unfilled (fillsSlot_of_all all (Nat.lt_of_le_of_ne filled.less short))
      rcases position with ⟨empty, -⟩ | ⟨-, d, rfl⟩
      · rw [empty] at length
        cases length
      · obtain ⟨result, -⟩ := left
        rw [done] at result
        exact ⟨length, (crosses result).1⟩

/-- A chain lookup stops where the filesystem of its superblock ends, and leaves the walk where
    `follow_managed` leads from there, exactly when a name of another filesystem is the last that is filled
    and, if the lookup returns 0, it is a symlink or nothing has to be mounted on the last name. -/
theorem stops_at_boundary_iff :
    StopsAtBoundary exports opening w reply ↔ WithinFilesystem exports opening w reply :=
  ⟨within_of_stopsAtBoundary noAlias unmounted pending replyIs positive stands directory,
    stopsAtBoundary_of_within noAlias unmounted pending replyIs positive⟩

end Boundary

/-! ### A chain through a mount point of the server -/

/-- The directory `b` of `a` is the root of another filesystem of the server. -/
def lastForeignEnv : Env :=
  { followedEnv with
    kind := fun inode => if inode = 3 then .automount else .directory
    mount := fun mnt => if mnt = 1 then ⟨4, 0, 2⟩ else ⟨0, 0, 0⟩
    mountDepth := 1 }

def lastForeignExports : Exports lastForeignEnv where
  type _ := .directory
  fsid inode := if inode = 3 then 7 else 0
  sbFsid _ := 0
  dAutomount _ path := if path.mnt = 0 then .ok 1 else .error .ENOENT
  rank mnt := mnt
  plain _ := (fun other => by cases other)
  made inode := by
    by_cases b : inode = 3
    · subst b
      rfl
    · simp [lastForeignEnv, nfsFhgetKind, nfsAttrCheckMountpoint, b]
  willing tick path := by split <;> exact (fun other => by cases other)
  deeper := by
    rintro path mounted (other | ⟨tick, mounts⟩)
    · cases other
    · split at mounts
      · rename_i here
        cases mounts
        exact ⟨here ▸ Nat.zero_lt_one, Nat.le_refl 1⟩
      · cases mounts

/-- A lookup that only asks for `a/b` ends rightly on the automount point `b`. -/
theorem last_foreign_name_right :
    lastForeignExports.BoundaryAt followedReply.slot 1 ∧
      (nfsChainLookup lastForeignEnv twoNamesWorld).state.nd.path = ⟨0, 2⟩ ∧
      StopsAtBoundary lastForeignExports false twoNamesWorld followedReply := by
  have noAlias : NoLinkAlias lastForeignEnv := by
    intro tick d inode o _ given
    cases given
  refine ⟨⟨⟨3, rfl, by decide⟩, ?_⟩, by decide, (stops_at_boundary_iff noAlias
    ⟨fun _ _ => rfl, fun _ _ _ _ _ => rfl⟩ twoNames_pending rfl rfl rfl rfl).mpr ?_⟩
  · intro j inode less slot
    cases Nat.lt_one_iff.mp less
    cases slot
    decide
  · intro _ k inode filled slot foreign
    have last : k = 1 := by
      by_contra other
      cases slot
      exact foreign (if_neg (show ¬k + 2 = 3 by omega))
    subst last
    exact ⟨fun more => absurd more.less (by decide),
      fun _ => .inr ⟨rfl, fun wanted => absurd wanted.2 (by decide)⟩⟩

/-- The directory `a` is the root of another filesystem of the server, in which `b` is a file. -/
def nestedEnv : Env :=
  { followedEnv with
    kind := fun inode => if inode = 2 then .automount else if inode = 3 then .regular else .directory
    mount := fun mnt => if mnt = 1 then ⟨4, 0, 1⟩ else ⟨0, 0, 0⟩
    mountDepth := 1 }

/-- The two filesystems have the fsids 0 and 7. -/
def nestedExports : Exports nestedEnv where
  type inode := if inode = 3 then .regular else .directory
  fsid inode := if inode = 2 ∨ inode = 3 then 7 else 0
  sbFsid _ := 0
  dAutomount _ path := if path.mnt = 0 then .ok 1 else .error .ENOENT
  rank mnt := mnt
  plain inode := by split <;> exact (fun other => by cases other)
  made inode := by
    by_cases a : inode = 2
    · subst a
      rfl
    · by_cases b : inode = 3
      · subst b
        rfl
      · simp [nestedEnv, nfsFhgetKind, nfsAttrCheckMountpoint, a, b]
  willing tick path := by split <;> exact (fun other => by cases other)
  deeper := by
    rintro path mounted (other | ⟨tick, mounts⟩)
    · cases other
    · split at mounts
      · rename_i here
        cases mounts
        exact ⟨here ▸ Nat.zero_lt_one, Nat.le_refl 1⟩
      · cases mounts

/-- The lookup returns 0 on the file `b`, which it has made in the superblock of the walk, and the walk is
    in the mount where it was. -/
theorem nested_filesystem_not_entered :
    Pending twoNamesWorld.heap twoNamesWorld.nd.path.dentry twoNamesWorld.nd.dchainList ∧
      nestedExports.BoundaryAt followedReply.slot 0 ∧
      (nfsChainLookup nestedEnv twoNamesWorld).result = .ok .done ∧
      (nfsChainLookup nestedEnv twoNamesWorld).state.heap.inode 2 = some 3 ∧
      (nfsChainLookup nestedEnv twoNamesWorld).state.nd.path = ⟨0, 2⟩ ∧
      ¬StopsAtBoundary nestedExports false twoNamesWorld followedReply := by
  have boundary : nestedExports.BoundaryAt followedReply.slot 0 :=
    ⟨⟨2, rfl, by decide⟩, fun j _ less => absurd less (Nat.not_lt_zero j)⟩
  refine ⟨twoNames_pending, boundary, by decide, by decide, by decide, ?_⟩
  intro stopsAt
  exact stopsAt.below 0 1 ⟨2, ⟨[98], 1⟩⟩ boundary Nat.zero_lt_one (by decide) (.inr (by decide))

end Nfs4Compound.Vfs
