/-
Module: Nfs4Compound.Proofs.ChainEnds
Layer: Proofs
Purpose: `nfs_chain_lookup` ends on the dentry that is in the tree exactly when no entry of its chain is
  replaced by another dentry or refused, and the last handle gives an inode.
Imports: Nfs4Compound.Vfs.ChainEnds, Nfs4Compound.Proofs.ChainAnswers
Trusted boundary: none
Main exports: fillEntries_fate, nfsChainLookup_fate, ends_in_tree_iff
-/
import Nfs4Compound.Vfs.ChainEnds
import Nfs4Compound.Proofs.ChainAnswers

namespace Nfs4Compound.Vfs

open Prog

variable {env : Env} {h h' : Heap} {d : DentryId} {parent : DentryId} {entry : ChainDentry}
  {rest entries : List ChainDentry} {slot : Nat → Option Ino} {index : Nat} {w : World} {dir : Ino}

/-! ### Chains that keep their dentries -/

/-- What the loop leaves when every entry keeps its dentry: nobody is moved, the names outside the chain
    lead where they led, and the chain is attached. -/
structure AllPlaced (slot : Nat → Option Ino) (index : Nat) (parent : DentryId) (entries : List ChainDentry)
    (h h' : Heap) : Prop where
  place : ∀ x, h'.parent x = h.parent x ∧ (h'.dentry x).name = (h.dentry x).name
  hash : ∀ p n, p ∉ parent :: entries.map (·.dentry) → h'.hash p n = h.hash p n
  inode : ∀ x, x ∉ entries.map (·.dentry) → h'.inode x = h.inode x
  attached : Attached h' parent entries
  last : ∀ e, entries.getLast? = some e → h'.inode e.dentry = slot (index + entries.length - 1)

theorem AllPlaced.nil : AllPlaced slot index parent [] h h :=
  ⟨fun _ => ⟨rfl, rfl⟩, fun _ _ _ => rfl, fun _ _ => rfl, trivial, fun _ found => (by cases found)⟩

/-- The first entry keeps its dentry, and so do the others. -/
theorem AllPlaced.cons (pending : Pending h parent (entry :: rest))
    (more : AllPlaced slot (index + 1) entry.dentry rest (dInstantiate env entry.dentry (slot index) h.ticked) h') :
    AllPlaced slot index parent (entry :: rest) h h' := by
  have distinct := List.nodup_cons.mp pending.distinct
  have notParent : parent ∉ entry.dentry :: rest.map (·.dentry) := distinct.1
  have notRest : entry.dentry ∉ rest.map (·.dentry) := (List.nodup_cons.mp distinct.2).1
  have linked : h.parent entry.dentry = parent := pending.linked.1
  have place : ∀ x, h'.parent x = h.parent x ∧ (h'.dentry x).name = (h.dentry x).name := by
    intro x
    obtain ⟨parentMore, nameMore⟩ := more.place x
    obtain ⟨parentHere, nameHere⟩ := @instantiate_place env h.ticked entry.dentry (slot index) x
    exact ⟨parentMore.trans parentHere, nameMore.trans nameHere⟩
  refine ⟨place, ?_, ?_, ⟨(place _).1.trans linked, ?_, more.attached⟩, ?_⟩
  · intro p n outside
    rw [List.map_cons, List.mem_cons, not_or] at outside
    rw [more.hash p n outside.2, instantiate_hash, if_neg]
    · rfl
    · rintro ⟨same, -⟩
      exact outside.1 (same.trans linked)
  · intro x outside
    rw [List.map_cons, List.mem_cons, not_or] at outside
    rw [more.inode x outside.2, instantiate_inode, if_neg outside.1]
    rfl
  · -- the names below the parent are not touched again
    rw [Heap.isHashed_iff, (place _).1, (place _).2, linked, more.hash _ _ notParent, instantiate_hash,
      if_pos ⟨linked.symm, rfl⟩]
  · intro e found
    cases rest with
    | nil =>
        cases found
        change h'.inode entry.dentry = slot index
        rw [more.inode _ notRest, instantiate_inode, if_pos rfl]
    | cons next rest =>
        rw [List.getLast?_cons_cons] at found
        rw [more.last e found]
        congr 1
        simp only [List.length_cons]
        omega

/-! ### Chains that lose a dentry -/

/-- The walk would stand on the last of these entries, and they are attached below some dentry. -/
def AttachedTo (h : Heap) (entries : List ChainDentry) (d : DentryId) : Prop :=
  (∃ parent, Attached h parent entries) ∧ (entries.getLast?).map (·.dentry) = some d

theorem AttachedTo.tail (attached : AttachedTo h (entry :: rest) d) (nonempty : rest ≠ []) :
    AttachedTo h rest d := by
  obtain ⟨⟨parent, -, -, more⟩, last⟩ := attached
  refine ⟨⟨_, more⟩, ?_⟩
  cases rest with
  | nil => exact absurd rfl nonempty
  | cons next rest =>
      rw [List.getLast?_cons_cons] at last
      exact last

/-- How the loop ends, by its fate. -/
def FateEnds (slot : Nat → Option Ino) (index : Nat) (previous : Option (DentryId × Option Ino))
    (parent : DentryId) (entries : List ChainDentry) (h : Heap) (fate : Fate)
    (ended : List ChainDentry × Filled) (h' : Heap) : Prop :=
  match fate with
  | .placed => AllPlaced slot index parent entries h h' ∧ ended.1 = entries ∧
      ended.2 = .all ((entries.getLast?).elim previous fun e =>
        some (e.dentry, slot (index + entries.length - 1)))
  | .link => ∃ d inode, ended.2 = .symlink d inode
  | .replaced => ∃ d inode, ended.2 = .all (some (d, inode)) ∧ ended.1 ≠ [] ∧ ¬AttachedTo h' ended.1 d
  | .refused => ended.2 = .failed

theorem isLink_iff (inode : Option Ino) :
    env.isLink inode = true ↔ ∃ ino, inode = some ino ∧ env.kind ino = .symlink := by
  cases inode with
  | none => simp [Env.isLink]
  | some ino => simp [Env.isLink]

/-- The rest of the chain has lost a dentry, so the chain has. -/
theorem FateEnds.replaced_cons {previous previous' : Option (DentryId × Option Ino)} {middle : Heap}
    {first : ChainDentry} {ended : List ChainDentry × Filled}
    (more : FateEnds slot (index + 1) previous' entry.dentry rest middle .replaced ended h') :
    FateEnds slot index previous parent (entry :: rest) h .replaced (first :: ended.1, ended.2) h' := by
  obtain ⟨d, inode, filled, nonempty, lost⟩ := more
  exact ⟨d, inode, filled, List.cons_ne_nil _ _, fun attached => lost (attached.tail nonempty)⟩

/-- The first entry was replaced: the next one is below the dentry that it had, and without a next one the
    walk stands on that dentry. -/
theorem FateEnds.replaced_first {previous : Option (DentryId × Option Ino)} {o : DentryId}
    {ended : List ChainDentry × Filled} (pending : Pending h parent (entry :: rest))
    (hashed : h.isHashed o = true) (different : o ≠ entry.dentry)
    (more : FateEnds slot (index + 1) (some (entry.dentry, slot index)) entry.dentry rest
      ((dMoveTo env o entry.dentry h.ticked).dget o) .placed ended h') :
    FateEnds slot index previous parent (entry :: rest) h .replaced
      ({ entry with dentry := o } :: ended.1, ended.2) h' := by
  obtain ⟨placed, entries, filled⟩ := more
  cases rest with
  | nil =>
      refine ⟨entry.dentry, slot index, filled, List.cons_ne_nil _ _, ?_⟩
      rintro ⟨-, last⟩
      rw [entries] at last
      cases last
      exact different rfl
  | cons next rest =>
      have still : ((dMoveTo env o entry.dentry h.ticked).dget o).dentry next.dentry = h.dentry next.dentry := by
        apply moveTo_dentry
        rintro same
        have unhashed := pending.linked.unhashed next (List.mem_cons_of_mem _ List.mem_cons_self)
        rw [same, hashed] at unhashed
        cases unhashed
      obtain ⟨e, last⟩ : ∃ e, (next :: rest).getLast? = some e := by
        rw [← Option.isSome_iff_exists, List.getLast?_isSome]
        exact List.cons_ne_nil _ _
      rw [last] at filled
      refine ⟨_, _, filled, List.cons_ne_nil _ _, ?_⟩
      rintro ⟨⟨above, -, -, attached⟩, -⟩
      rw [entries] at attached
      have below : h'.parent next.dentry = entry.dentry := by
        rw [(placed.place _).1, Heap.parent, still]
        exact pending.linked.2.2.2.1
      exact different (attached.1.symm.trans below)

/-- What becomes of a chain whose first dentry has been replaced. -/
def Fate.moved : Fate → Fate
  | .placed => .replaced
  | fate => fate

theorem fillEntries_fate (slot : Nat → Option Ino) (index : Nat)
    (previous : Option (DentryId × Option Ino)) (pending : Pending h parent entries) :
    after (fillEntries env slot index previous entries)
      (FateEnds slot index previous parent entries h (fillFate env slot index entries h)) h := by
  induction entries generalizing index previous parent h with
  | nil => exact ⟨.nil, rfl, rfl⟩
  | cons entry rest inductionHypothesis =>
      have ends := @dMaterialiseUnique_ends env h entry.dentry (slot index)
      rw [fillEntries, after_bind, fillFate]
      unfold after at ends ⊢
      generalize dMaterialiseUnique env entry.dentry (slot index) h = answer at ends ⊢
      obtain ⟨materialised, middle⟩ := answer
      cases ends with
      | failed question positive => exact rfl
      | null kept =>
          have step := @fillStep_instantiate env h entry.dentry (slot index)
          have link : (dInstantiate env entry.dentry (slot index) h.ticked).dIsSymlink entry.dentry = true ↔
              env.isLink (slot index) = true :=
            (dIsSymlink_instantiate (slot index)).trans (isLink_iff (slot index)).symm
          have more := inductionHypothesis (index + 1) (some (entry.dentry, slot index)) (pending.tail step)
          change after _ (FateEnds slot index previous parent (entry :: rest) h
            (if env.isLink (slot index) then .link
              else fillFate env slot (index + 1) rest (dInstantiate env entry.dentry (slot index) h.ticked)))
            (dInstantiate env entry.dentry (slot index) h.ticked)
          simp only [after_bind, after_get, after_ite, after_pure]
          constructor
          · intro symlink
            rw [if_pos (link.mp symlink)]
            exact ⟨_, _, rfl⟩
          · intro notSymlink
            rw [if_neg fun isLink => notSymlink (link.mpr isLink)]
            apply after_mono more
            intro ended h' ends
            cases fate : fillFate env slot (index + 1) rest
                (dInstantiate env entry.dentry (slot index) h.ticked) with
            | link =>
                rw [fate] at ends
                exact ends
            | refused =>
                rw [fate] at ends
                exact ends
            | replaced =>
                rw [fate] at ends
                exact ends.replaced_cons
            | placed =>
                rw [fate] at ends
                obtain ⟨placed, same, filled⟩ := ends
                refine ⟨placed.cons pending, by rw [same], ?_⟩
                rw [filled]
                cases rest with
                | nil => rfl
                | cons next rest =>
                    rw [List.getLast?_cons_cons]
                    simp only [List.length_cons]
                    rw [Nat.add_right_comm index 1]
                    rfl
      | @other o question positive hashed same different =>
          obtain ⟨inode, found⟩ := Option.isSome_iff_exists.mp positive
          have step := @fillStep_moveTo env h entry.dentry o inode hashed (same.trans found)
          have type : ((dMoveTo env o entry.dentry h.ticked).dget o).dIsSymlink entry.dentry = false := by
            -- the old dentry keeps the type of a pending one
            have old : h.type entry.dentry = .chainTemp := pending.linked.2.2.1
            have dentry : ((dMoveTo env o entry.dentry h.ticked).dget o).dentry entry.dentry =
                h.dentry entry.dentry := moveTo_dentry (h := h.ticked) different.symm
            rw [Heap.dIsSymlink, Heap.type, dentry, ← Heap.type, old]
            rfl
          have more := inductionHypothesis (index + 1) (some (entry.dentry, slot index)) (pending.tail step)
          change after _ (FateEnds slot index previous parent (entry :: rest) h
            (fillFate env slot (index + 1) rest ((dMoveTo env o entry.dentry h.ticked).dget o)).moved)
            ((dMoveTo env o entry.dentry h.ticked).dget o)
          simp only [after_bind, after_get, after_ite, after_pure, type, Bool.false_eq_true, false_implies,
            true_and, not_false_eq_true, true_implies]
          apply after_mono more
          intro ended h' ends
          cases fate : fillFate env slot (index + 1) rest ((dMoveTo env o entry.dentry h.ticked).dget o) with
          | link =>
              rw [fate] at ends
              exact ends
          | refused =>
              rw [fate] at ends
              exact ends
          | replaced =>
              rw [fate] at ends
              exact ends.replaced_cons
          | placed =>
              rw [fate] at ends
              exact ends.replaced_first pending hashed different

/-! ### The whole lookup -/

theorem Attached.same (same : SameDentries h h') (attached : Attached h parent entries) :
    Attached h' parent entries := by
  induction entries generalizing parent with
  | nil => trivial
  | cons entry rest inductionHypothesis =>
      obtain ⟨link, hashed, more⟩ := attached
      refine ⟨?_, (same.isHashed _).trans hashed, inductionHypothesis more⟩
      rw [Heap.parent, same.dentry]
      exact link

/-- How `nfs_chain_lookup` ends once the slots are filled, by the fate of the loop. -/
def LookupFate (env : Env) (w : World) (reply : ChainReply) (result : Except Oops Status) (w' : World) : Prop :=
  match fillFate env reply.slot 0 w.nd.dchainList w.heap.ticked.ticked with
  | .placed => result = .ok (Status.ofReply reply.status) ∧
      (w'.nd.dchainList.getLast?).map (·.dentry) = some w'.nd.path.dentry ∧
      Attached w'.heap w.nd.path.dentry w'.nd.dchainList ∧
      w'.nd.inode = reply.slot (w.nd.dchainList.length - 1) ∧
      w'.heap.inode w'.nd.path.dentry = reply.slot (w.nd.dchainList.length - 1)
  | .link => ∃ path, result = .ok (.chainLink path)
  | .replaced => result = .ok (Status.ofReply reply.status) ∧
      ¬AttachedTo w'.heap w'.nd.dchainList w'.nd.path.dentry
  | .refused => result = .ok (Status.ofReply reply.status)

/-- `nfs_fill_dchain_list` and the return behind it. -/
theorem nfsFillDchainList_fate (pending : Pending w.heap w.nd.path.dentry w.nd.dchainList)
    (nonempty : w.nd.dchainList ≠ []) (reply : ChainReply) :
    wp (fun _ claim => claim) (fun fault => LookupFate env w reply (.error fault))
      (do
        let atSymlink ← nfsFillDchainList env reply.slot
        modifyHeap (·.dput w.nd.path.dentry)
        if atSymlink then
          return .chainLink (← getNd).path
        else
          return Status.ofReply reply.status)
      (fun status => LookupFate env w reply (.ok status)) { w with heap := w.heap.ticked.ticked } := by
  have ticked : SameShape w.heap w.heap.ticked.ticked := ⟨⟨rfl, rfl, rfl⟩, rfl⟩
  have fills := @fillEntries_fate env _ _ _ reply.slot 0 none (ticked.pending pending)
  rw [wp_bind, nfsFillDchainList, wp_bind, wp_getNd, wp_bind, wp_dcache]
  apply after_mono fills
  rintro ⟨entries, filled⟩ h' ends
  have put : SameDentries h' (h'.dput w.nd.path.dentry) := (SameShape.dput h' _).toSameDentries
  unfold LookupFate
  cases fate : fillFate env reply.slot 0 w.nd.dchainList w.heap.ticked.ticked with
  | link =>
      rw [fate] at ends
      obtain ⟨d, inode, rfl⟩ := ends
      simp only [wp_bind, wp_modifyNd, wp_modifyHeap, wp_ite, wp_getNd, wp_pure]
      exact ⟨fun _ => ⟨_, rfl⟩, fun other => absurd trivial other⟩
  | refused =>
      rw [fate] at ends
      cases ends
      simp only [wp_bind, wp_modifyNd, wp_modifyHeap, wp_ite, wp_getNd, wp_pure]
      exact ⟨(fun other => by cases other), fun _ => trivial⟩
  | replaced =>
      rw [fate] at ends
      obtain ⟨d, inode, rfl, nonempty, lost⟩ := ends
      simp only [wp_bind, wp_modifyNd, wp_modifyHeap, wp_ite, wp_getNd, wp_pure]
      refine ⟨(fun other => by cases other), fun _ => ⟨trivial, ?_⟩⟩
      rintro ⟨⟨above, attached⟩, last⟩
      have back : SameDentries (h'.dput w.nd.path.dentry) h' := ⟨rfl, rfl, rfl⟩
      exact lost ⟨⟨above, Attached.same back attached⟩, last⟩
  | placed =>
      rw [fate] at ends
      obtain ⟨placed, rfl, rfl⟩ := ends
      obtain ⟨e, last⟩ : ∃ e, w.nd.dchainList.getLast? = some e := by
        rw [← Option.isSome_iff_exists, List.getLast?_isSome]
        exact nonempty
      have lastInode := placed.last e last
      rw [Nat.zero_add] at lastInode
      rw [last]
      simp only [Option.elim, wp_bind, wp_modifyNd, wp_modifyHeap, wp_ite, wp_getNd, wp_pure, Nat.zero_add]
      refine ⟨(fun other => by cases other), fun _ => ⟨trivial, ?_, placed.attached.same put, trivial, ?_⟩⟩
      · rw [last]
        rfl
      · exact (put.inode _).trans lastInode

section

variable {reply : ChainReply} (replyIs : env.chainRpc (w.heap.tick + 1) dir (w.nd.dchainList.map (·.name.text)) = reply)
  (positive : w.heap.inode w.nd.path.dentry = some dir)

include replyIs positive

/-- Without buffers, or with a status that is not tolerated, the lookup fails. -/
theorem nfsChainLookup_skipped (skipped : ¬Fills env w reply) :
    (nfsChainLookup env w).result ≠ .ok .done := by
  have ran := @wp_run _ _ _ _ w (nfsChainLookup env) fun result _ => result ≠ .ok .done
  rw [← ran, nfsChainLookup, wp_bind, wp_getNd, wp_bind, wp_derefInode]
  constructor
  · intro inode found
    cases positive.symm.trans found
    rw [wp_bind, wp_dcache, after_ask]
    cases allocation : env.allocateHandles w.heap.tick with
    | failed wild =>
        simp only [wp_bind, wp_modifyHeap, wp_ite, wp_fault, wp_pure]
        exact ⟨fun _ => (fun other => by cases other), fun _ => (fun other => by cases other)⟩
    | done =>
        rw [wp_bind, wp_dcache, after_ask, wp_bind, wp_observe]
        change wp _ _ (if fillsAnyway (env.chainRpc (w.heap.tick + 1) dir
          (w.nd.dchainList.map (·.name.text))).status = true then _ else _) _ _
        rw [wp_ite, replyIs]
        constructor
        · intro tolerated
          exact absurd ⟨allocation, tolerated⟩ skipped
        · intro refused
          simp only [wp_bind, wp_modifyHeap, wp_pure]
          change Except.ok (Status.ofReply (env.chainRpc (w.heap.tick + 1) dir
            (w.nd.dchainList.map (·.name.text))).status) ≠ _
          rw [replyIs]
          cases status : reply.status with
          | none =>
              rw [status] at refused
              exact absurd rfl refused
          | some error =>
              intro other
              cases other
  · exact fun _ => (fun other => by cases other)

/-- With buffers and a tolerated status, the lookup is the filling of the slots and the return behind it. -/
theorem nfsChainLookup_fills (fills : Fills env w reply) {post : Except Oops Status → World → Prop}
    (ends : wp (fun _ claim => claim) (fun fault => post (.error fault))
      (do
        let atSymlink ← nfsFillDchainList env reply.slot
        modifyHeap (·.dput w.nd.path.dentry)
        if atSymlink then
          return .chainLink (← getNd).path
        else
          return Status.ofReply reply.status)
      (fun status => post (.ok status)) { w with heap := w.heap.ticked.ticked }) :
    post (nfsChainLookup env w).result (nfsChainLookup env w).state := by
  have ran := @wp_run _ _ _ _ w (nfsChainLookup env) post
  rw [← ran, nfsChainLookup, wp_bind, wp_getNd, wp_bind, wp_derefInode]
  constructor
  · intro inode found
    cases positive.symm.trans found
    rw [wp_bind, wp_dcache, after_ask, fills.1]
    simp only
    rw [wp_bind, wp_dcache, after_ask, wp_bind, wp_observe]
    change wp _ _ (if fillsAnyway (env.chainRpc (w.heap.tick + 1) dir
      (w.nd.dchainList.map (·.name.text))).status = true then _ else _) _ _
    rw [wp_ite, replyIs]
    constructor
    · intro _
      rw [← replyIs] at ends
      exact ends
    · intro refused
      exact absurd fills.2 refused
  · intro missing
    rw [positive] at missing
    cases missing

theorem nfsChainLookup_filled (pending : Pending w.heap w.nd.path.dentry w.nd.dchainList)
    (nonempty : w.nd.dchainList ≠ []) (fills : Fills env w reply) :
    LookupFate env w reply (nfsChainLookup env w).result (nfsChainLookup env w).state :=
  nfsChainLookup_fills replyIs positive fills (nfsFillDchainList_fate pending nonempty reply)

/-- A chain lookup that returns 0 leaves the walk on the dentry in the tree, and a failure of
    `d_materialise_unique` is reported, exactly when a chain the server followed to its end stops at a
    symlink or keeps all its dentries and gets the inode of its last handle. -/
theorem ends_in_tree_iff (pending : Pending w.heap w.nd.path.dentry w.nd.dchainList)
    (nonempty : w.nd.dchainList ≠ []) : EndsInTree env w reply ↔ ChainPlaced env w reply := by
  by_cases fills : Fills env w reply
  · have ends := nfsChainLookup_filled replyIs positive pending nonempty fills
    constructor
    · intro inTree allocated whole
      have done : Status.ofReply reply.status = .done := by
        rw [whole]
        rfl
      unfold LookupFate at ends
      cases fate : fillFate env reply.slot 0 w.nd.dchainList w.heap.ticked.ticked with
      | link => exact .inl rfl
      | placed =>
          rw [fate] at ends
          obtain ⟨result, -⟩ := ends
          rw [done] at result
          obtain ⟨-, -, -, inode, lastSlot, -⟩ := inTree.arrives result
          exact .inr ⟨rfl, by rw [lastSlot]; exact Option.some_ne_none _⟩
      | replaced =>
          rw [fate] at ends
          obtain ⟨result, lost⟩ := ends
          rw [done] at result
          obtain ⟨last, attached, -⟩ := inTree.arrives result
          exact absurd ⟨⟨_, attached⟩, last⟩ lost
      | refused =>
          rw [fate] at ends
          have result : (nfsChainLookup env w).result = .ok (Status.ofReply reply.status) := ends
          obtain ⟨error, failed⟩ := inTree.fails fills fate
          rw [result, done] at failed
          cases failed
    · intro placed
      unfold LookupFate at ends
      cases status : reply.status with
      | some error =>
          have failed : Status.ofReply reply.status = .fail error := by
            rw [status]
            rfl
          refine ⟨?_, fun _ fate => ?_⟩
          · intro done
            rw [failed, done] at ends
            cases fate : fillFate env reply.slot 0 w.nd.dchainList w.heap.ticked.ticked with
            | link =>
                rw [fate] at ends
                obtain ⟨path, other⟩ := ends
                cases other
            | placed =>
                rw [fate] at ends
                cases ends.1
            | replaced =>
                rw [fate] at ends
                cases ends.1
            | refused =>
                rw [fate] at ends
                have other : Except.ok (ε := Oops) Status.done = .ok (.fail error) := ends
                cases other
          · rw [fate, failed] at ends
            exact ⟨error, ends⟩
      | none =>
          rcases placed fills.1 status with link | ⟨all, lastSlot⟩
          · rw [link] at ends
            obtain ⟨path, result⟩ := ends
            refine ⟨fun done => ?_, fun _ fate => ?_⟩
            · rw [result] at done
              cases done
            · rw [link] at fate
              cases fate
          · rw [all] at ends
            obtain ⟨-, last, attached, inode, stored⟩ := ends
            refine ⟨fun _ => ⟨last, attached, inode.trans stored.symm, ?_⟩, fun _ fate => ?_⟩
            · obtain ⟨object, found⟩ := Option.ne_none_iff_exists'.mp lastSlot
              exact ⟨object, found, inode.trans found⟩
            · rw [all] at fate
              cases fate
  · have failed := nfsChainLookup_skipped replyIs positive fills
    constructor
    · intro _ allocated whole
      refine absurd ⟨allocated, ?_⟩ fills
      rw [whole]
      rfl
    · intro _
      exact ⟨fun done => absurd done failed, fun filled => absurd filled fills⟩

end

/-! ### A directory that is cached elsewhere -/

/-- The server follows the chain of `a` and `b` to its end. -/
def followedReply : ChainReply := ⟨none, fun k => some (k + 2)⟩

/-- A client of that server; nothing is known of the two directories. -/
def followedEnv : Env := { Env.calm with chainRpc := fun _ _ _ => followedReply }

theorem followed_chain_ends_in_tree : EndsInTree followedEnv twoNamesWorld followedReply :=
  (ends_in_tree_iff rfl rfl twoNames_pending (List.cons_ne_nil _ _)).mpr
    fun _ _ => .inr ⟨by decide, by decide⟩

/-- The same walk, with the directory that is now `a` still cached under the name `o` it had before. -/
def renamedWorld : World :=
  { twoNamesWorld with
    heap := { twoNamesHeap with
      dentry := fun d => if d = 3 then ⟨0, [111], some 2, .directory⟩ else twoNamesHeap.dentry d
      hash := fun d n => if d = 0 ∧ n = [111] then some 3 else none
      next := 4 } }

/-- `d_materialise_unique` moves that dentry to the place of the new one. -/
def renamedEnv : Env :=
  { followedEnv with materialise := fun _ d _ => if d = 1 then .other 3 else .null }

/-- The lookup returns 0 with `b` below the dentry that was allocated for `a`, which is not hashed; the
    dentry that is `a` now has no child. -/
theorem renamed_directory_loses_child :
    Pending renamedWorld.heap renamedWorld.nd.path.dentry renamedWorld.nd.dchainList ∧
      (nfsChainLookup renamedEnv renamedWorld).result = .ok .done ∧
      (nfsChainLookup renamedEnv renamedWorld).state.heap.hash 0 [97] = some 3 ∧
      (nfsChainLookup renamedEnv renamedWorld).state.nd.path.dentry = 2 ∧
      (nfsChainLookup renamedEnv renamedWorld).state.heap.parent 2 = 1 ∧
      (nfsChainLookup renamedEnv renamedWorld).state.heap.isHashed 1 = false ∧
      ¬EndsInTree renamedEnv renamedWorld followedReply := by
  have done : (nfsChainLookup renamedEnv renamedWorld).result = .ok .done := by decide
  refine ⟨⟨⟨rfl, rfl, rfl, rfl, rfl, rfl, trivial⟩, by decide, ?_⟩, done, by decide, by decide, by decide,
    by decide, ?_⟩
  · intro entry member
    simp only [renamedWorld, twoNamesWorld, List.mem_cons, List.not_mem_nil, or_false] at member
    rcases member with rfl | rfl <;> rfl
  · rintro ⟨arrives, -⟩
    obtain ⟨-, attached, -⟩ := arrives done
    exact absurd attached.2.2.1 (by decide)

end Nfs4Compound.Vfs
