/-
Module: Nfs4Compound.Proofs.ChainAnswers
Layer: Proofs
Purpose: When the dcache says what the server said after a chain lookup.
Imports: Nfs4Compound.Vfs.ChainAnswers, Nfs4Compound.Proofs.WalkSteps
Trusted boundary: none
Main exports: MaterialiseEnds, fillEntries_fills, caches_truth_iff
-/
import Nfs4Compound.Vfs.ChainAnswers
import Nfs4Compound.Proofs.WalkSteps

namespace Nfs4Compound.Vfs

open Prog

variable {env : Env} {h h' : Heap} {d x : DentryId}

/-! ### One dentry -/

/-- How `d_materialise_unique` ends. -/
inductive MaterialiseEnds (env : Env) (d : DentryId) (inode : Option Ino) (h : Heap) :
    Materialised → Heap → Prop where
  | null (kept : inode.isSome = true → ∀ error, env.materialise h.tick d inode ≠ .failed error) :
      MaterialiseEnds env d inode h .null (dInstantiate env d inode h.ticked)
  | other {o : DentryId} (question : env.materialise h.tick d inode = .other o)
      (positive : inode.isSome = true) (hashed : h.isHashed o = true) (same : h.inode o = inode)
      (different : o ≠ d) :
      MaterialiseEnds env d inode h (.other o) ((dMoveTo env o d h.ticked).dget o)
  | failed {error : Errno} (question : env.materialise h.tick d inode = .failed error)
      (positive : inode.isSome = true) : MaterialiseEnds env d inode h (.failed error) h.ticked

theorem dMaterialiseUnique_ends (inode : Option Ino) :
    after (dMaterialiseUnique env d inode) (MaterialiseEnds env d inode h) h := by
  rw [dMaterialiseUnique, after_bind, after_ask]
  cases question : env.materialise h.tick d inode with
  | null => exact .null fun _ error => by rw [question]; simp
  | failed error =>
      simp only [after_ite]
      constructor
      · intro positive
        exact .failed question positive
      · intro none
        exact .null fun some => absurd some none
  | other other =>
      simp only [after_bind, after_get, after_ite]
      constructor
      · rintro ⟨positive, hashed, same, different⟩
        exact .other question positive hashed same different
      · intro _
        exact .null fun _ error => by rw [question]; simp

/-! ### What filling one dentry does to the others -/

theorem instantiate_inode (inode : Option Ino) (x : DentryId) :
    (dInstantiate env d inode h).inode x = if x = d then inode else h.inode x := by
  by_cases same : x = d
  · subst same
    simp [dInstantiate, Heap.dRehash, Heap.inode]
  · simp [dInstantiate, Heap.dRehash, Heap.inode, Heap.setDentry_other _ _ _ _ same, same]

theorem instantiate_place (inode : Option Ino) (x : DentryId) :
    (dInstantiate env d inode h).parent x = h.parent x ∧
      ((dInstantiate env d inode h).dentry x).name = (h.dentry x).name := by
  by_cases same : x = d
  · subst same
    simp [dInstantiate, Heap.dRehash, Heap.parent]
  · simp [dInstantiate, Heap.dRehash, Heap.parent, Heap.setDentry_other _ _ _ _ same]

theorem instantiate_type (inode : Option Ino) :
    (dInstantiate env d inode h).type d = dFlagsForInode env inode := by
  simp [dInstantiate, Heap.dRehash, Heap.type]

theorem instantiate_hash (inode : Option Ino) (p : DentryId) (n : Name) :
    (dInstantiate env d inode h).hash p n =
      if p = h.parent d ∧ n = (h.dentry d).name then some d else h.hash p n := by
  simp only [dInstantiate, Heap.dRehash, Heap.setHash_apply, Heap.setDentry_hash, Heap.setDentry_self,
    Heap.parent]
  rfl

theorem moveTo_dentry {o : DentryId} (other : x ≠ o) : (dMoveTo env o d h).dentry x = h.dentry x := by
  have trim := trimmed_dDrop h o
  simp [dMoveTo, Heap.dRehash, Heap.setDentry_other _ _ _ _ other, trim.dentry]

theorem moveTo_hash {o : DentryId} (hashed : h.isHashed o = true) (p : DentryId) (n : Name) :
    (dMoveTo env o d h).hash p n =
      if p = h.parent d ∧ n = (h.dentry d).name then some o
      else if p = h.parent o ∧ n = (h.dentry o).name then none else h.hash p n := by
  simp only [dMoveTo, Heap.dRehash, Heap.setHash_apply, Heap.setDentry_hash, Heap.setDentry_self,
    Heap.dDrop, hashed, if_true]
  rfl

/-- What filling the dentry `d` leaves of the others: their inodes, the place of those that cannot be
    moved, and that those are hashed or not. -/
structure FillStep (d : DentryId) (h h' : Heap) : Prop where
  inode : ∀ x, x ≠ d → h'.inode x = h.inode x
  dentry : ∀ x, x ≠ d → h.isHashed x = false ∨ h.inode x = none → h'.dentry x = h.dentry x
  unhashed : ∀ x, x ≠ d → h.isHashed x = false → h'.isHashed x = false
  stays : ∀ x, x ≠ d → h.inode x = none → h.isHashed x = true → h.parent x ≠ h.parent d →
    h'.isHashed x = true
  tick : h'.tick = h.tick + 1

theorem isHashed_of_dentry (same : h'.dentry x = h.dentry x) :
    h'.isHashed x = true ↔ h'.hash (h.parent x) (h.dentry x).name = some x := by
  rw [Heap.isHashed_iff, Heap.parent, same]
  rfl

theorem fillStep_instantiate (inode : Option Ino) : FillStep d h (dInstantiate env d inode h.ticked) := by
  have dentry : ∀ x, x ≠ d → (dInstantiate env d inode h.ticked).dentry x = h.dentry x := by
    intro x other
    simp [dInstantiate, Heap.dRehash, Heap.setDentry_other _ _ _ _ other]
  refine ⟨?_, fun x other _ => dentry x other, ?_, ?_, rfl⟩
  · intro x other
    rw [instantiate_inode, if_neg other]
    rfl
  · intro x other unhashed
    rw [Bool.eq_false_iff] at unhashed ⊢
    rw [ne_eq, isHashed_of_dentry (dentry x other), instantiate_hash]
    rw [ne_eq, Heap.isHashed_iff] at unhashed
    split
    · intro same
      exact other (Option.some.inj same).symm
    · exact unhashed
  · intro x other _ hashed elsewhere
    rw [isHashed_of_dentry (dentry x other), instantiate_hash, if_neg fun same => elsewhere same.1]
    exact Heap.isHashed_iff.mp hashed

theorem fillStep_moveTo {o : DentryId} {inode : Ino} (hashed : h.isHashed o = true)
    (positive : h.inode o = some inode) : FillStep d h ((dMoveTo env o d h.ticked).dget o) := by
  have notMoved : ∀ x, h.isHashed x = false ∨ h.inode x = none → x ≠ o := by
    rintro x still rfl
    rcases still with unhashed | negative
    · rw [hashed] at unhashed
      cases unhashed
    · rw [positive] at negative
      cases negative
  have dentry : ∀ x, x ≠ o → ((dMoveTo env o d h.ticked).dget o).dentry x = h.dentry x := by
    intro x other
    rw [Heap.dget_dentry, moveTo_dentry other]
    rfl
  have hash := @moveTo_hash env h.ticked d o hashed
  refine ⟨?_, fun x _ still => dentry x (notMoved x still), ?_, ?_, ?_⟩
  · intro x _
    exact moveTo_inode env o x
  · intro x _ unhashed
    have other := notMoved x (.inl unhashed)
    rw [Bool.eq_false_iff] at unhashed ⊢
    rw [ne_eq, isHashed_of_dentry (dentry x other), Heap.dget_hash, hash]
    rw [ne_eq, Heap.isHashed_iff] at unhashed
    split
    · intro same
      exact other (Option.some.inj same).symm
    · split
      · simp
      · exact unhashed
  · intro x _ negative isHashed elsewhere
    have other := notMoved x (.inr negative)
    rw [Heap.isHashed_iff] at isHashed
    rw [isHashed_of_dentry (dentry x other), Heap.dget_hash, hash, if_neg fun same => elsewhere same.1, if_neg]
    · exact isHashed
    · -- two dentries are not hashed in one place
      rintro ⟨parent, name⟩
      have here := Heap.isHashed_iff.mp hashed
      rw [parent, name] at isHashed
      exact other (Option.some.inj (isHashed.symm.trans here))
  · have kept : (h.ticked.dDrop o).tick = h.tick + 1 := by
      unfold Heap.dDrop
      split <;> rfl
    exact kept

/-! ### The whole chain -/

/-- A chain whose dentries have not changed, and have not been hashed, is still one. -/
theorem TempChain.transport {parent : DentryId} {entries : List ChainDentry}
    (linked : TempChain h parent entries) (still : ∀ e ∈ entries, h'.dentry e.dentry = h.dentry e.dentry)
    (unhashed : ∀ e ∈ entries, h.isHashed e.dentry = false → h'.isHashed e.dentry = false) :
    TempChain h' parent entries := by
  induction entries generalizing parent with
  | nil => trivial
  | cons e rest inductionHypothesis =>
      obtain ⟨link, notHashed, type, more⟩ := linked
      have here := still e List.mem_cons_self
      refine ⟨?_, unhashed e List.mem_cons_self notHashed, ?_, inductionHypothesis more
        (fun x member => still x (List.mem_cons_of_mem _ member))
        fun x member => unhashed x (List.mem_cons_of_mem _ member)⟩
      · rw [Heap.parent, here]
        exact link
      · rw [Heap.type, here]
        exact type

theorem Pending.tail {parent : DentryId} {entry : ChainDentry} {rest : List ChainDentry}
    (pending : Pending h parent (entry :: rest)) (step : FillStep entry.dentry h h') :
    Pending h' entry.dentry rest := by
  have distinct := (List.nodup_cons.mp pending.distinct).2
  rw [List.map_cons] at distinct
  have others : ∀ e ∈ rest, e.dentry ≠ entry.dentry := by
    intro e member same
    exact (List.nodup_cons.mp distinct).1 (List.mem_map.mpr ⟨e, member, same⟩)
  have still : ∀ e ∈ rest, h'.dentry e.dentry = h.dentry e.dentry := by
    intro e member
    exact step.dentry _ (others e member) (.inr (pending.negative e (List.mem_cons_of_mem _ member)))
  refine ⟨?_, distinct, ?_⟩
  · exact pending.linked.2.2.2.transport still fun e member => step.unhashed _ (others e member)
  · intro e member
    rw [step.inode _ (others e member)]
    exact pending.negative e (List.mem_cons_of_mem _ member)

theorem SameDentries.isHashed (same : SameDentries h h') (x : DentryId) : h'.isHashed x = h.isHashed x := by
  rw [Heap.isHashed, same.hash, same.dentry]
  rfl

theorem SameDentries.tempChain (same : SameDentries h h') {parent : DentryId} {entries : List ChainDentry}
    (linked : TempChain h parent entries) : TempChain h' parent entries :=
  linked.transport (fun _ _ => by rw [same.dentry]) fun _ _ unhashed => by rw [same.isHashed, unhashed]

theorem SameDentries.pending (same : SameDentries h h') {parent : DentryId} {entries : List ChainDentry}
    (pending : Pending h parent entries) : Pending h' parent entries := by
  refine ⟨same.tempChain pending.linked, pending.distinct, ?_⟩
  intro entry member
  rw [same.inode]
  exact pending.negative entry member

/-- The entries of a pending chain are unhashed. -/
theorem TempChain.unhashed {parent : DentryId} {entries : List ChainDentry}
    (linked : TempChain h parent entries) : ∀ e ∈ entries, h.isHashed e.dentry = false := by
  induction entries generalizing parent with
  | nil => simp
  | cons e rest inductionHypothesis =>
      intro x member
      rcases List.mem_cons.mp member with rfl | member
      · exact linked.2.1
      · exact inductionHypothesis linked.2.2.2 x member

/-- What the filling loop leaves behind, from the `index`-th slot on: what the dentries that are hashed
    say, that it came to them, and that a dentry it comes to without an inode is hashed. -/
structure FillEnds (env : Env) (slot : Nat → Option Ino) (parent : DentryId)
    (entries entries' : List ChainDentry) (h h' : Heap) : Prop where
  inode : ∀ x, x ∉ entries.map (·.dentry) → h'.inode x = h.inode x
  unhashed : ∀ x, x ∉ entries.map (·.dentry) → h.isHashed x = false → h'.isHashed x = false
  stays : ∀ x, x ∉ entries.map (·.dentry) → h.inode x = none → h.isHashed x = true →
    h.parent x ∉ parent :: entries.map (·.dentry) → h'.isHashed x = true
  tells : ∀ i entry, entries[i]? = some entry → h'.isHashed entry.dentry = true →
    h'.inode entry.dentry = slot i ∧ ∀ j, j < i → GoesOn env slot entries h.tick j
  took : ∀ i entry', entries'[i]? = some entry' →
    entries[i]? = some entry' ∨ (h'.inode entry'.dentry = slot i ∧ slot i ≠ none)
  hides : ∀ i entry, entries[i]? = some entry → (∀ j, j < i → GoesOn env slot entries h.tick j) →
    slot i = none → h'.isHashed entry.dentry = true

/-- The loop does not come past an entry that is left as it was. -/
theorem fillEnds_stop {slot : Nat → Option Ino} {parent : DentryId} {entry : ChainDentry}
    {rest : List ChainDentry} (pending : Pending h parent (entry :: rest))
    (step : FillStep entry.dentry h h') (first : h'.isHashed entry.dentry = true →
      h'.inode entry.dentry = slot 0)
    (stops : ¬GoesOn env slot (entry :: rest) h.tick 0)
    (hides : slot 0 = none → h'.isHashed entry.dentry = true) :
    FillEnds env slot parent (entry :: rest) (entry :: rest) h h' := by
  have unhashed := pending.linked.unhashed
  have apart : ∀ e ∈ rest, e.dentry ≠ entry.dentry := by
    intro e member same
    have distinct := (List.nodup_cons.mp pending.distinct).2
    rw [List.map_cons] at distinct
    exact (List.nodup_cons.mp distinct).1 (List.mem_map.mpr ⟨e, member, same⟩)
  have outside : ∀ x, x ∉ (entry :: rest).map (·.dentry) → x ≠ entry.dentry := by
    rintro x absent rfl
    exact absent (by simp)
  refine ⟨fun x absent => step.inode x (outside x absent),
    fun x absent => step.unhashed x (outside x absent), ?_, ?_, fun i e found => .inl found, ?_⟩
  · intro x absent negative hashed elsewhere
    apply step.stays x (outside x absent) negative hashed
    intro same
    rw [pending.linked.1] at same
    exact elsewhere (by simp [same])
  · intro i e found hashed
    cases i with
    | zero =>
        cases found
        exact ⟨first hashed, fun j less => absurd less (Nat.not_lt_zero j)⟩
    | succ i =>
        rw [List.getElem?_cons_succ] at found
        have member := List.mem_of_getElem? found
        rw [step.unhashed _ (apart e member) (unhashed e (List.mem_cons_of_mem _ member))] at hashed
        cases hashed
  · intro i e found reached none
    cases i with
    | zero =>
        cases found
        exact hides none
    | succ i => exact absurd (reached 0 (Nat.succ_pos i)) stops

theorem goesOn_succ {slot : Nat → Option Ino} {entry : ChainDentry} {rest : List ChainDentry}
    {tick j : Nat} :
    GoesOn env slot (entry :: rest) tick (j + 1) ↔
      GoesOn env (fun k => slot (k + 1)) rest (tick + 1) j := by
  unfold GoesOn
  rw [List.getElem?_cons_succ, show tick + (j + 1) = tick + 1 + j by omega]

/-- The loop goes on behind the first entry. -/
theorem fillEnds_more {slot : Nat → Option Ino} {parent : DentryId} {entry entry' : ChainDentry}
    {rest rest' : List ChainDentry} {middle : Heap} (pending : Pending h parent (entry :: rest))
    (step : FillStep entry.dentry h middle)
    (first : middle.isHashed entry.dentry = true → middle.inode entry.dentry = slot 0)
    (goesOn : GoesOn env slot (entry :: rest) h.tick 0)
    (hides : slot 0 = none → middle.isHashed entry.dentry = true ∧ middle.parent entry.dentry = parent)
    (replaced : entry' = entry ∨ (entry'.dentry ∉ rest.map (·.dentry) ∧
      middle.inode entry'.dentry = slot 0 ∧ slot 0 ≠ none))
    (more : FillEnds env (fun k => slot (k + 1)) entry.dentry rest rest' middle h') :
    FillEnds env slot parent (entry :: rest) (entry' :: rest') h h' := by
  have distinct := List.nodup_cons.mp pending.distinct
  have notParent : parent ∉ entry.dentry :: rest.map (·.dentry) := distinct.1
  have notRest : entry.dentry ∉ rest.map (·.dentry) := (List.nodup_cons.mp distinct.2).1
  have outside : ∀ x, x ∉ (entry :: rest).map (·.dentry) →
      x ≠ entry.dentry ∧ x ∉ rest.map (·.dentry) := by
    intro x absent
    rw [List.map_cons, List.mem_cons, not_or] at absent
    exact absent
  have reached : ∀ i, (∀ j, j < i → GoesOn env (fun k => slot (k + 1)) rest middle.tick j) →
      ∀ j, j < i + 1 → GoesOn env slot (entry :: rest) h.tick j := by
    intro i all j less
    cases j with
    | zero => exact goesOn
    | succ j =>
        rw [goesOn_succ, ← step.tick]
        exact all j (by omega)
  refine ⟨?_, ?_, ?_, ?_, ?_, ?_⟩
  · intro x absent
    rw [more.inode x (outside x absent).2, step.inode x (outside x absent).1]
  · intro x absent unhashed
    exact more.unhashed x (outside x absent).2 (step.unhashed x (outside x absent).1 unhashed)
  · intro x absent negative hashed elsewhere
    rw [List.map_cons, List.mem_cons, not_or] at elsewhere
    have place : middle.parent x = h.parent x := by
      rw [Heap.parent, step.dentry x (outside x absent).1 (.inr negative)]
      rfl
    apply more.stays x (outside x absent).2
    · rw [step.inode x (outside x absent).1, negative]
    · apply step.stays x (outside x absent).1 negative hashed
      rw [pending.linked.1]
      exact elsewhere.1
    · rw [place]
      exact elsewhere.2
  · intro i e found hashed
    cases i with
    | zero =>
        cases found
        refine ⟨?_, fun j less => absurd less (Nat.not_lt_zero j)⟩
        rw [more.inode _ notRest]
        apply first
        by_contra unhashed
        rw [Bool.not_eq_true] at unhashed
        rw [more.unhashed _ notRest unhashed] at hashed
        cases hashed
    | succ i =>
        rw [List.getElem?_cons_succ] at found
        obtain ⟨inode, all⟩ := more.tells i e found hashed
        exact ⟨inode, reached i all⟩
  · intro i e found
    cases i with
    | zero =>
        cases found
        rcases replaced with rfl | ⟨absent, inode, some⟩
        · exact .inl rfl
        · refine .inr ⟨?_, some⟩
          rw [more.inode _ absent, inode]
    | succ i => exact more.took i e found
  · intro i e found all none
    cases i with
    | zero =>
        cases found
        obtain ⟨hashed, place⟩ := hides none
        apply more.stays _ notRest _ hashed
        · rw [place]
          exact notParent
        · rw [first hashed, none]
    | succ i =>
        rw [List.getElem?_cons_succ] at found
        apply more.hides i e found _ none
        intro j less
        rw [step.tick, ← goesOn_succ]
        exact all (j + 1) (by omega)

/-- `d_materialise_unique` gives no other dentry for a symlink. -/
def NoLinkAlias (env : Env) : Prop :=
  ∀ tick d inode o, env.kind inode = .symlink → env.materialise tick d (some inode) ≠ .other o

theorem fillEnds_nil {slot : Nat → Option Ino} {parent : DentryId} :
    FillEnds env slot parent [] [] h h := by
  refine ⟨fun _ _ => rfl, fun _ _ unhashed => unhashed, fun _ _ _ hashed _ => hashed, ?_, ?_, ?_⟩ <;>
  · intro i entry found
    cases found

/-- The place of a filled dentry is the one it had. -/
theorem instantiate_isHashed (inode : Option Ino) : (dInstantiate env d inode h).isHashed d = true := by
  obtain ⟨place, name⟩ := @instantiate_place env h d inode d
  rw [Heap.isHashed_iff, place, name, instantiate_hash, if_pos ⟨rfl, rfl⟩]

/-- A dentry whose place another one took is not hashed. -/
theorem moveTo_isHashed {o : DentryId} (hashed : h.isHashed o = true) (different : o ≠ d) :
    (dMoveTo env o d h).isHashed d = false := by
  rw [Bool.eq_false_iff, ne_eq, isHashed_of_dentry (moveTo_dentry different.symm), moveTo_hash hashed,
    if_pos ⟨rfl, rfl⟩]
  exact fun same => different (Option.some.inj same)

theorem dIsSymlink_instantiate (inode : Option Ino) :
    (dInstantiate env d inode h).dIsSymlink d = true ↔ ∃ ino, inode = some ino ∧ env.kind ino = .symlink := by
  rw [Heap.dIsSymlink, instantiate_type]
  cases inode with
  | none => simp [dFlagsForInode]
  | some ino => cases kind : env.kind ino <;> simp [dFlagsForInode, kind]

/-- The loop of `nfs_fill_dchain_list`: induction on the entries, one of which is filled at a time. -/
theorem fillEntries_fills (noAlias : NoLinkAlias env) (slot : Nat → Option Ino) (index : Nat)
    (previous : Option (DentryId × Option Ino)) {parent : DentryId} {entries : List ChainDentry}
    (pending : Pending h parent entries) :
    after (fillEntries env slot index previous entries)
      (fun ended h' => FillEnds env (fun k => slot (index + k)) parent entries ended.1 h h') h := by
  induction entries generalizing index previous parent h with
  | nil => exact fillEnds_nil
  | cons entry rest inductionHypothesis =>
      rw [fillEntries, after_bind]
      apply after_mono (dMaterialiseUnique_ends (slot index))
      intro materialised middle ends
      have shift : (fun k => slot (index + 1 + k)) = fun k => slot (index + (k + 1)) := by
        funext k
        rw [Nat.add_right_comm, Nat.add_assoc]
      cases ends with
      | failed question positive =>
          rename_i error
          obtain ⟨inode, found⟩ := Option.isSome_iff_exists.mp positive
          have step : FillStep entry.dentry h h.ticked :=
            ⟨fun _ _ => rfl, fun _ _ _ => rfl, fun _ _ unhashed => unhashed,
              fun _ _ _ hashed _ => hashed, rfl⟩
          apply fillEnds_stop pending step
          · intro hashed
            have unhashed : h.ticked.isHashed entry.dentry = false := pending.linked.2.1
            rw [unhashed] at hashed
            cases hashed
          · intro goesOn
            rw [found] at question
            exact (goesOn inode found).2 entry error rfl question
          · intro none
            rw [Nat.add_zero, found] at none
            cases none
      | null kept =>
          have step := @fillStep_instantiate env h entry.dentry (slot index)
          have first : (dInstantiate env entry.dentry (slot index) h.ticked).inode entry.dentry =
              slot index := by
            rw [instantiate_inode, if_pos rfl]
          simp only [after_bind, after_get, after_ite, after_pure]
          constructor
          · intro symlink
            obtain ⟨inode, found, kind⟩ := (dIsSymlink_instantiate _).mp symlink
            apply fillEnds_stop pending step (fun _ => first)
            · intro goesOn
              exact (goesOn inode found).1 kind
            · intro _
              exact instantiate_isHashed _
          · intro notSymlink
            apply after_mono (inductionHypothesis (index + 1) _ (pending.tail step))
            intro ended h' more
            rw [shift] at more
            apply fillEnds_more pending step (fun _ => first) _ _ (.inl rfl) more
            · intro inode found
              constructor
              · intro kind
                exact notSymlink ((dIsSymlink_instantiate _).mpr ⟨inode, found, kind⟩)
              · intro e error same question
                cases same
                have found : slot index = some inode := found
                rw [found] at kept
                exact kept rfl error question
            · intro _
              refine ⟨instantiate_isHashed _, ?_⟩
              rw [(instantiate_place _ _).1]
              exact pending.linked.1
      | other question positive hashed same different =>
          rename_i o
          obtain ⟨inode, found⟩ := Option.isSome_iff_exists.mp positive
          have step := @fillStep_moveTo env h entry.dentry o inode hashed (same.trans found)
          have unhashed : ((dMoveTo env o entry.dentry h.ticked).dget o).isHashed entry.dentry = false :=
            moveTo_isHashed (h := h.ticked) hashed different
          have dentry : ((dMoveTo env o entry.dentry h.ticked).dget o).dentry entry.dentry =
              h.dentry entry.dentry := moveTo_dentry (h := h.ticked) different.symm
          simp only [after_bind, after_get, after_ite, after_pure]
          constructor
          · intro symlink
            -- the old dentry keeps the type of a pending one
            have type : h.type entry.dentry = .chainTemp := pending.linked.2.2.1
            rw [Heap.dIsSymlink, Heap.type, dentry, ← Heap.type, type] at symlink
            cases symlink
          · intro _
            apply after_mono (inductionHypothesis (index + 1) _ (pending.tail step))
            intro ended h' more
            rw [shift] at more
            apply fillEnds_more pending step _ _ _ (.inr ⟨_, _, _⟩) more
            · intro isHashed
              rw [unhashed] at isHashed
              cases isHashed
            · intro inode found
              have found : slot index = some inode := found
              rw [found] at question
              constructor
              · intro kind
                exact noAlias _ _ _ _ kind question
              · intro e error here failed
                cases here
                rw [Nat.add_zero, question] at failed
                cases failed
            · intro none
              rw [Nat.add_zero, found] at none
              cases none
            · intro member
              obtain ⟨e, inRest, equal⟩ := List.mem_map.mp member
              have pendingUnhashed := pending.linked.unhashed e (List.mem_cons_of_mem _ inRest)
              rw [equal, hashed] at pendingUnhashed
              cases pendingUnhashed
            · rw [Nat.add_zero, ← same]
              exact moveTo_inode env o o
            · rw [Nat.add_zero, found]
              simp

/-! ### The whole lookup -/

/-- How `nfs_chain_lookup` leaves the chain: as it was, or filled from the slots of the reply. -/
inductive LookupLeaves (env : Env) (w w' : World) (reply : ChainReply) : Prop where
  | untouched (skipped : ¬(env.allocateHandles w.heap.tick = .done ∧ fillsAnyway reply.status = true))
      (same : SameShape w.heap w'.heap) (entries : w'.nd.dchainList = w.nd.dchainList) :
      LookupLeaves env w w' reply
  | filled (allocated : env.allocateHandles w.heap.tick = .done)
      (fills : fillsAnyway reply.status = true) {h' : Heap} (same : SameShape h' w'.heap)
      (ends : FillEnds env reply.slot w.nd.path.dentry w.nd.dchainList w'.nd.dchainList
        w.heap.ticked.ticked h') :
      LookupLeaves env w w' reply

/-- `nfs_fill_dchain_list` runs the loop; what else it changes is where the walk stands. -/
theorem wp_nfsFillDchainList {use : Event → Prop → Prop} {faults : Oops → World → Prop}
    {slot : Nat → Option Ino} {post : Bool → World → Prop} {w : World}
    (fills : after (fillEntries env slot 0 none w.nd.dchainList)
      (fun ended h' => ∀ nd', nd'.dchainList = ended.1 →
        faults .nullDeref { w with nd := nd', heap := h' } ∧
          ∀ atSymlink, post atSymlink { w with nd := nd', heap := h' }) w.heap) :
    wp use faults (nfsFillDchainList env slot) post w := by
  rw [nfsFillDchainList, wp_bind, wp_getNd, wp_bind, wp_dcache]
  apply after_mono fills
  rintro ⟨entries, filled⟩ h' ends
  rw [wp_bind, wp_modifyNd]
  cases filled with
  | failed => exact (ends { w.nd with dchainList := entries } rfl).2 false
  | symlink dentry inode => exact (ends _ rfl).2 true
  | all last =>
      cases last with
      | none => exact (ends { w.nd with dchainList := entries } rfl).1
      | some last => exact (ends _ rfl).2 false

theorem nfsChainLookup_leaves (noAlias : NoLinkAlias env) {w : World} {dir : Ino}
    (pending : Pending w.heap w.nd.path.dentry w.nd.dchainList)
    (positive : w.heap.inode w.nd.path.dentry = some dir) :
    LookupLeaves env w (nfsChainLookup env w).state
      (env.chainRpc (w.heap.tick + 1) dir (w.nd.dchainList.map (·.name.text))) := by
  rw [← wp_state (nfsChainLookup env) (fun w' => LookupLeaves env w w' _)]
  rw [nfsChainLookup, wp_bind, wp_getNd, wp_bind, wp_derefInode]
  constructor
  · intro inode found
    cases positive.symm.trans found
    rw [wp_bind, wp_dcache, after_ask]
    cases allocation : env.allocateHandles w.heap.tick with
    | failed wild =>
        have untouched : LookupLeaves env w
            { w with heap := w.heap.ticked.dput w.nd.path.dentry }
            (env.chainRpc (w.heap.tick + 1) dir (w.nd.dchainList.map (·.name.text))) :=
          .untouched (fun ran => by rw [allocation] at ran; cases ran.1) ⟨⟨rfl, rfl, rfl⟩, rfl⟩ rfl
        simp only [wp_bind, wp_modifyHeap, wp_ite, wp_fault, wp_pure]
        exact ⟨fun _ => untouched, fun _ => untouched⟩
    | done =>
        rw [wp_bind, wp_dcache, after_ask, wp_bind, wp_observe, wp_ite]
        constructor
        · intro fills
          rw [wp_bind]
          apply wp_nfsFillDchainList
          have ticked : SameShape w.heap w.heap.ticked.ticked := ⟨⟨rfl, rfl, rfl⟩, rfl⟩
          apply after_mono (fillEntries_fills noAlias _ 0 none (ticked.pending pending))
          intro ended h' ends nd' entries
          simp only [Nat.zero_add] at ends
          rw [← entries] at ends
          have put : SameShape h' (h'.dput w.nd.path.dentry) := .dput h' w.nd.path.dentry
          constructor
          · exact .filled allocation fills (.refl h') ends
          · intro atSymlink
            simp only [wp_bind, wp_modifyHeap, wp_ite, wp_getNd, wp_pure]
            exact ⟨fun _ => .filled allocation fills put ends, fun _ => .filled allocation fills put ends⟩
        · intro refused
          exact .untouched (fun ran => refused ran.2) ⟨⟨rfl, rfl, rfl⟩, rfl⟩ rfl
  · intro missing
    rw [positive] at missing
    cases missing

section Truth

variable {w : World} {dir : Ino} {answer : Answer w.nd.dchainList.length} {makesInode : Nat → Bool}

theorem reply_slot_behind {i : Nat} (behind : answer.objects.length ≤ i) :
    (answer.reply makesInode).slot i = none := by
  simp only [Answer.reply]
  split
  · exact List.getElem?_eq_none behind
  · rfl

/-- Where the slot of every object has an inode, a slot says what the server said. -/
theorem reply_slot_eq {i : Nat} (made : i < answer.objects.length → makesInode i = true) :
    (answer.reply makesInode).slot i = answer.objects[i]? := by
  by_cases front : i < answer.objects.length
  · simp only [Answer.reply, made front, if_true]
  · rw [reply_slot_behind (Nat.not_lt.mp front), List.getElem?_eq_none (Nat.not_lt.mp front)]

/-- A dentry that has the inode of a good slot says what the server said. -/
theorem truthful_of_slot {i : Nat} (filled : h.inode d = (answer.reply makesInode).slot i)
    (made : i < answer.objects.length → makesInode i = true)
    (missing : answer.objects.length ≤ i → answer.stop = some (.lookup, .ENOENT)) :
    Truthful answer h i d := by
  rw [reply_slot_eq made] at filled
  constructor
  · intro inode
    rw [filled]
  · intro negative
    rw [filled, List.getElem?_eq_none_iff] at negative
    exact ⟨missing negative, negative⟩

theorem cachesTruth_of_untouched {w' : World} (pending : Pending w.heap w.nd.path.dentry w.nd.dchainList)
    (same : SameShape w.heap w'.heap) (entries : w'.nd.dchainList = w.nd.dchainList) (i : Nat) :
    (∀ entry, w.nd.dchainList[i]? = some entry → w'.heap.isHashed entry.dentry = true →
        Truthful answer w'.heap i entry.dentry) ∧
      ∀ entry, w'.nd.dchainList[i]? = some entry → w'.heap.isHashed entry.dentry = true →
        Truthful answer w'.heap i entry.dentry := by
  rw [entries, and_self]
  intro entry found hashed
  rw [same.isHashed, pending.linked.unhashed entry (List.mem_of_getElem? found)] at hashed
  cases hashed

theorem cachesTruth_of_truthSlots (noAlias : NoLinkAlias env)
    (pending : Pending w.heap w.nd.path.dentry w.nd.dchainList)
    (positive : w.heap.inode w.nd.path.dentry = some dir)
    (reply : env.chainRpc (w.heap.tick + 1) dir (w.nd.dchainList.map (·.name.text)) =
      answer.reply makesInode)
    (slots : TruthSlots env w answer makesInode) : CachesTruth env w answer := by
  have leaves := nfsChainLookup_leaves noAlias pending positive
  rw [reply] at leaves
  unfold CachesTruth
  generalize (nfsChainLookup env w).state = w' at leaves ⊢
  intro _ i
  cases leaves with
  | untouched _ same entries => exact cachesTruth_of_untouched pending same entries i
  | filled allocated fills same ends =>
      -- what the dentry of a slot that the loop came to says
      have old : ∀ entry, w.nd.dchainList[i]? = some entry → w'.heap.isHashed entry.dentry = true →
          Truthful answer w'.heap i entry.dentry := by
        intro entry found hashed
        rw [same.isHashed] at hashed
        obtain ⟨inode, reached⟩ := ends.tells i entry found hashed
        obtain ⟨less, _⟩ := List.getElem?_eq_some_iff.mp found
        obtain ⟨made, missing⟩ := slots allocated fills i less reached
        rw [← same.inode] at inode
        exact truthful_of_slot inode made missing
      refine ⟨old, ?_⟩
      intro entry found hashed
      rcases ends.took i entry found with here | ⟨inode, some⟩
      · exact old entry here hashed
      · obtain ⟨object, slot⟩ := Option.ne_none_iff_exists'.mp some
        rw [slot, ← same.inode] at inode
        simp only [Answer.reply] at slot
        split at slot
        · constructor
          · intro other
            rw [inode, slot]
          · intro none
            rw [inode] at none
            cases none
        · cases slot

theorem truthSlots_of_cachesTruth (noAlias : NoLinkAlias env)
    (pending : Pending w.heap w.nd.path.dentry w.nd.dchainList)
    (positive : w.heap.inode w.nd.path.dentry = some dir)
    (reply : env.chainRpc (w.heap.tick + 1) dir (w.nd.dchainList.map (·.name.text)) =
      answer.reply makesInode)
    (truth : CachesTruth env w answer) : TruthSlots env w answer makesInode := by
  have leaves := nfsChainLookup_leaves noAlias pending positive
  rw [reply] at leaves
  unfold CachesTruth at truth
  generalize (nfsChainLookup env w).state = w' at leaves truth
  intro allocated fills i less reached
  cases leaves with
  | untouched skipped _ _ => exact absurd ⟨allocated, fills⟩ skipped
  | filled _ _ same ends =>
      have found := List.getElem?_eq_getElem less
      -- a slot without an inode is told as missing
      have told : (answer.reply makesInode).slot i = none → answer.Missing i := by
        intro none
        have hashed := ends.hides i _ found reached none
        have inode := (ends.tells i _ found hashed).1
        rw [none, ← same.inode] at inode
        rw [← same.isHashed] at hashed
        exact ((truth i).1 _ found hashed).negative inode
      constructor
      · intro front
        by_contra unmade
        have behind := (told (by simp only [Answer.reply, unmade]; rfl)).2
        omega
      · intro behind
        exact (told (reply_slot_behind behind)).1

/-- After a chain lookup the dcache says what the server said exactly when every slot that was filled
    held the inode of an object, or lay behind a LOOKUP of a missing name. -/
theorem caches_truth_iff (noAlias : NoLinkAlias env)
    (pending : Pending w.heap w.nd.path.dentry w.nd.dchainList)
    (positive : w.heap.inode w.nd.path.dentry = some dir)
    (reply : env.chainRpc (w.heap.tick + 1) dir (w.nd.dchainList.map (·.name.text)) =
      answer.reply makesInode) :
    CachesTruth env w answer ↔ TruthSlots env w answer makesInode :=
  ⟨truthSlots_of_cachesTruth noAlias pending positive reply,
    cachesTruth_of_truthSlots noAlias pending positive reply⟩

end Truth

/-! ### Two names -/

/-- The dcache of a walk that has queued `a` and `a/b` at the root. -/
def twoNamesHeap : Heap where
  dentry d :=
    match d with
    | 0 => ⟨0, [slash], some 1, .directory⟩
    | 1 => ⟨0, [97], none, .chainTemp⟩
    | 2 => ⟨1, [98], none, .chainTemp⟩
    | _ => ⟨0, [], none, .miss⟩
  hash _ _ := none
  next := 3
  count _ := 1
  low _ := 1
  held := [1]
  tick := 0

/-- The walk itself. -/
def twoNamesWorld : World where
  nd :=
    { path := ⟨0, 0⟩
      last := ⟨[98], 1⟩
      root := none
      inode := some 1
      flags := ⟨true, false, false, false, false, false⟩
      lastType := .norm
      depth := 0
      dchainList := [⟨1, ⟨[97], 1⟩⟩, ⟨2, ⟨[98], 1⟩⟩]
      chainSize := 2
      chainParent := 0 }
  heap := twoNamesHeap
  linkCount := 0
  totalLinkCount := 0

theorem twoNames_pending :
    Pending twoNamesWorld.heap twoNamesWorld.nd.path.dentry twoNamesWorld.nd.dchainList := by
  refine ⟨⟨rfl, rfl, rfl, rfl, rfl, rfl, trivial⟩, by decide, ?_⟩
  intro entry member
  simp only [twoNamesWorld, List.mem_cons, List.not_mem_nil, or_false] at member
  rcases member with rfl | rfl <;> rfl

/-- The server finds `a` and stops with `error` at the LOOKUP of `b`. -/
def stoppedAnswer (error : Errno) : Answer twoNamesWorld.nd.dchainList.length where
  objects := [2]
  stop := some (.lookup, error)
  complete none := by cases none
  cut _ := by decide

/-- A client of that server. -/
def stoppedEnv (error : Errno) : Env :=
  { Env.calm with chainRpc := fun _ _ _ => (stoppedAnswer error).reply fun _ => true }

theorem noLinkAlias_stopped (error : Errno) : NoLinkAlias (stoppedEnv error) := by
  intro tick d inode o _ given
  cases given

/-- A name that the server says is missing is cached as missing. -/
theorem missing_name_caches_truth :
    CachesTruth (stoppedEnv .ENOENT) twoNamesWorld (stoppedAnswer .ENOENT) := by
  apply (caches_truth_iff (noLinkAlias_stopped _) twoNames_pending rfl rfl).mpr
  intro _ _ i less _
  exact ⟨fun _ => rfl, fun _ => rfl⟩

/-- `b` is cached as missing although the server only refused to search `a` for it. -/
theorem denied_name_cached_as_missing :
    Pending twoNamesWorld.heap twoNamesWorld.nd.path.dentry twoNamesWorld.nd.dchainList ∧
      (stoppedAnswer .EACCES).stop = some (.lookup, .EACCES) ∧
      (nfsChainLookup (stoppedEnv .EACCES) twoNamesWorld).state.heap.hash 1 [98] = some 2 ∧
      (nfsChainLookup (stoppedEnv .EACCES) twoNamesWorld).state.heap.inode 2 = none ∧
      ¬CachesTruth (stoppedEnv .EACCES) twoNamesWorld (stoppedAnswer .EACCES) := by
  refine ⟨twoNames_pending, rfl, by decide, by decide, ?_⟩
  intro truth
  have slots := truthSlots_of_cachesTruth (noLinkAlias_stopped _) twoNames_pending rfl rfl truth
  obtain ⟨_, missing⟩ := slots rfl rfl 1 (by decide) (by
    intro j less inode found
    exact ⟨by simp [stoppedEnv, Env.calm], fun _ _ _ => by simp [stoppedEnv, Env.calm]⟩)
  have other := missing (by decide)
  cases other

end Nfs4Compound.Vfs
