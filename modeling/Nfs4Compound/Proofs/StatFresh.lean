/-
Module: Nfs4Compound.Proofs.StatFresh
Layer: Proofs
Purpose: When the attributes that a `stat` call returns were fetched during the call.
Imports: Nfs4Compound.Attr.Stat, Nfs4Compound.Proofs.HeapShape
Trusted boundary: none
Main exports: needRevalidate_happenAll, lookupDcache_decides, stat_fresh_iff
-/
import Nfs4Compound.Attr.Stat
import Nfs4Compound.Proofs.HeapShape

namespace Nfs4Compound.Attr

open Vfs (Ino Name DentryId Errno Heap Env lookupDcache)
open Prog

variable {α : Type} {s : Client α} {i : Ino} {t : Nat}

/-! ### One thing that happens -/

/-- Attributes that have to be revalidated still have to be later on. -/
theorem needRevalidate_later {x : NfsInode α} {jiffies later : Nat} (past : x.readCacheJiffies ≤ jiffies)
    (order : jiffies ≤ later) (needed : nfsNeedRevalidateInode jiffies x = true) :
    nfsNeedRevalidateInode later x = true := by
  simp only [nfsNeedRevalidateInode, nfsAttributeCacheExpired, nfsAttributeTimeout, timeInRangeOpen,
    Bool.or_eq_true, Bool.and_eq_true, Bool.not_eq_true', Bool.and_eq_false_iff,
    decide_eq_false_iff_not] at needed ⊢
  rcases needed with flagged | ⟨undelegated, expired⟩
  · exact .inl flagged
  · exact .inr ⟨undelegated, by omega⟩

theorem refreshes_happenings {call : StatCall α} :
    Refreshes i call.happenings ↔
      Refreshes i call.before ∨ Refreshes i call.between ∨ Refreshes i call.behind := by
  simp only [Refreshes, StatCall.happenings, List.mem_append, exists_or, or_assoc]

variable [DecidableEq α]

/-- What happens to an inode when nothing brings its attributes: they stay what they were, and keep
    having to be revalidated. -/
theorem happen_kept {event : Happening α} (other : ∀ delegated, event ≠ .refresh i delegated) :
    ((s.happen event).inode i).fetched = (s.inode i).fetched ∧
      (s.needRevalidate i = true → (s.happen event).needRevalidate i = true) := by
  cases event with
  | change j attrs => exact ⟨rfl, fun needed => needed⟩
  | clock ticks =>
      exact ⟨rfl, needRevalidate_later (s.past i).2 (Nat.le_add_right s.jiffies ticks)⟩
  | dcache heap => exact ⟨rfl, fun needed => needed⟩
  | refresh j delegated =>
      have apart : i ≠ j := by
        rintro rfl
        exact other delegated rfl
      simp only [Client.happen, Client.modify, Client.refresh, Client.needRevalidate,
        Function.update_of_ne apart, true_and]
      exact fun needed => needed
  | invalidate j label =>
      by_cases here : i = j
      · subst here
        cases label <;>
          simp [Client.happen, Client.modify, Client.tick, Client.needRevalidate, nfsNeedRevalidateInode]
      · simp only [Client.happen, Client.modify, Client.tick, Client.needRevalidate,
          Function.update_of_ne here, true_and]
        exact fun needed => needed
  | undelegate j =>
      by_cases here : i = j
      · subst here
        simp only [Client.happen, Client.modify, Client.tick, Client.needRevalidate,
          Function.update_self, true_and]
        intro needed
        simp only [nfsNeedRevalidateInode, nfsAttributeCacheExpired, nfsHaveDelegatedAttributes,
          Bool.or_eq_true, Bool.and_eq_true] at needed ⊢
        rcases needed with flagged | ⟨_, expired⟩
        · exact .inl flagged
        · exact .inr ⟨rfl, expired⟩
      · simp only [Client.happen, Client.modify, Client.tick, Client.needRevalidate,
          Function.update_of_ne here, true_and]
        exact fun needed => needed

theorem happen_refresh (delegated : Bool) :
    ((s.happen (.refresh i delegated)).inode i).fetched = s.now + 1 := by
  simp [Client.happen, Client.modify, Client.refresh, nfsUpdateInode]

theorem now_happen (event : Happening α) : (s.happen event).now = s.now + 1 := by
  cases event <;> rfl

/-- What is newer than a moment of the past stays so. -/
theorem newer_happen {event : Happening α} (past : t ≤ s.now) (newer : t < (s.inode i).fetched) :
    t < ((s.happen event).inode i).fetched := by
  by_cases refreshed : ∃ delegated, event = .refresh i delegated
  · obtain ⟨delegated, rfl⟩ := refreshed
    rw [happen_refresh]
    omega
  · rw [(happen_kept fun delegated same => refreshed ⟨delegated, same⟩).1]
    exact newer

/-! ### Everything that happens -/

theorem now_happenAll (events : List (Happening α)) : s.now ≤ (s.happenAll events).now := by
  induction events generalizing s with
  | nil => exact Nat.le_refl _
  | cons event rest inductionHypothesis =>
      have step := now_happen (s := s) event
      have later : (s.happen event).now ≤ (s.happenAll (event :: rest)).now := inductionHypothesis
      omega

theorem happenAll_append (first second : List (Happening α)) :
    s.happenAll (first ++ second) = (s.happenAll first).happenAll second := List.foldl_append

theorem happenAll_kept {events : List (Happening α)} (other : ¬Refreshes i events) :
    ((s.happenAll events).inode i).fetched = (s.inode i).fetched ∧
      (s.needRevalidate i = true → (s.happenAll events).needRevalidate i = true) := by
  induction events generalizing s with
  | nil => exact ⟨rfl, fun needed => needed⟩
  | cons event rest inductionHypothesis =>
      have here := @happen_kept α s i _ event fun delegated same =>
        other ⟨delegated, by rw [same]; exact List.mem_cons_self⟩
      have there := @inductionHypothesis (s.happen event) fun ⟨delegated, member⟩ =>
        other ⟨delegated, List.mem_cons_of_mem _ member⟩
      exact ⟨there.1.trans here.1, fun needed => there.2 (here.2 needed)⟩

theorem newer_happenAll {events : List (Happening α)} (past : t ≤ s.now)
    (newer : t < (s.inode i).fetched ∨ Refreshes i events) :
    t < ((s.happenAll events).inode i).fetched := by
  induction events generalizing s with
  | nil =>
      rcases newer with newer | ⟨_, member⟩
      · exact newer
      · cases member
  | cons event rest inductionHypothesis =>
      have step := now_happen (s := s) event
      apply @inductionHypothesis (s.happen event) (by omega)
      rcases newer with newer | ⟨delegated, member⟩
      · exact .inl (newer_happen past newer)
      · rcases List.mem_cons.mp member with rfl | member
        · left
          rw [happen_refresh]
          omega
        · exact .inr ⟨delegated, member⟩

/-! ### The last component -/

/-- How `lookup_dcache` decides whether the server has to be asked. -/
inductive Decides (env : Env) (name : Name) (base : DentryId) (h : Heap) :
    Except Errno (DentryId × Bool) → Heap → Prop where
  | failed {error h'} : Decides env name base h (.error error) h'
  | cached {d h'} (found : h.hash base name = some d) (permanent : h.dIsChainTemp d = false)
      (accepted : env.revalidate h.tick d = .valid ∨ env.invalidate (h.tick + 1) d = false)
      (same : ∀ x, Heap.inode h' x = h.inode x) : Decides env name base h (.ok (d, false)) h'
  | asked {d h'} (dropped : ∀ x, h.hash base name = some x →
        h.dIsChainTemp x = true ∨ env.invalidate (h.tick + 1) x = true) :
      Decides env name base h (.ok (d, true)) h'

theorem lookupAlloc_decides {env : Env} {name : Name} {base : DentryId} {h h' : Heap}
    (dropped : ∀ x, h.hash base name = some x →
      h.dIsChainTemp x = true ∨ env.invalidate (h.tick + 1) x = true) :
    after (Vfs.lookupAlloc env name base) (Decides env name base h) h' := by
  unfold Vfs.lookupAlloc Vfs.dAlloc
  simp only [after_bind, Vfs.after_ask, after_ite, after_get, after_set, after_pure]
  constructor
  · intro _
    exact .asked dropped
  · intro _
    exact .failed

theorem lookupDcache_decides (env : Env) (name : Name) (base : DentryId) (h : Heap) :
    after (lookupDcache env name base) (Decides env name base h) h := by
  rw [lookupDcache, after_bind, Vfs.after_dLookup]
  cases found : h.hash base name with
  | none => exact lookupAlloc_decides fun x other => by rw [found] at other; cases other
  | some d =>
      have only : ∀ x, h.hash base name = some x → x = d := by
        intro x other
        rw [found] at other
        exact (Option.some.inj other).symm
      simp only [after_bind, after_get, after_ite]
      constructor
      · intro temporary
        exact .asked fun x other => .inl (by rw [only x other]; exact temporary)
      · intro permanent
        rw [Bool.not_eq_true] at permanent
        rw [Vfs.after_ask]
        cases answer : env.revalidate (h.dget d).tick d with
        | valid => exact .cached found permanent (.inl answer) fun _ => rfl
        | failed error => exact .failed
        | stale =>
            cases granted : env.invalidate (h.dget d).ticked.tick d with
            | true =>
                simp only [after_bind, Vfs.dInvalidate, Vfs.after_ask, granted, if_true, after_modify,
                  after_pure]
                exact lookupAlloc_decides fun x other => .inr (by rw [only x other]; exact granted)
            | false =>
                simp only [after_bind, Vfs.dInvalidate, Vfs.after_ask, granted, Bool.false_eq_true,
                  if_false, after_pure]
                exact .cached found permanent (.inr granted) fun _ => rfl

/-! ### The whole call -/

variable {call : StatCall α}

/-- How the walk ends at an inode: where it was or in the dcache, which brings no attributes, or on the
    server, which does. -/
inductive WalkEnds (call : StatCall α) (s : Client α) (inode : Ino) (s' : Client α) : Prop where
  | there (route : call.route = .place inode) (ends : s' = s.happenAll call.between) :
      WalkEnds call s inode s'
  | cached {base name heap d} (route : call.route = .name base name)
      (found : s.heap.hash base name = some d) (permanent : s.heap.dIsChainTemp d = false)
      (positive : s.heap.inode d = some inode)
      (accepted : s.needRevalidate inode = false ∨ call.env.invalidate (s.heap.tick + 1) d = false)
      (ends : s' = Client.happenAll { s with heap } call.between) : WalkEnds call s inode s'
  | asked {base name middle} (route : call.route = .name base name)
      (dropped : ∀ d, s.heap.hash base name = some d →
        s.heap.dIsChainTemp d = true ∨ call.env.invalidate (s.heap.tick + 1) d = true)
      (later : s.now ≤ Client.now middle) (ends : s' = middle.refresh inode) : WalkEnds call s inode s'

theorem walk_ends {inode : Ino} {s' : Client α} (walked : call.walk s = (.ok inode, s')) :
    WalkEnds call s inode s' := by
  unfold StatCall.walk at walked
  split at walked
  · rename_i place route
    cases walked
    exact .there route rfl
  · rename_i base name route
    have decides := lookupDcache_decides (call.envAt s) name base s.heap
    unfold after at decides
    generalize lookupDcache (call.envAt s) name base s.heap = looked at decides walked
    obtain ⟨found, heap⟩ := looked
    cases decides with
    | failed => cases walked
    | cached hashed permanent accepted same =>
        rename_i d
        simp only at walked
        split at walked
        · cases walked
        · rename_i object positive
          cases walked
          rw [same] at positive
          refine .cached route hashed permanent positive ?_ rfl
          rcases accepted with valid | busy
          · left
            simp only [StatCall.envAt, nfs4LookupRevalidate, positive] at valid
            split at valid
            · cases valid
            · rename_i current
              rwa [Bool.not_eq_true] at current
          · exact .inr busy
    | asked dropped =>
        simp only at walked
        split at walked
        · cases walked
        · cases walked
          have later : s.now ≤ (Client.happenAll { s with heap } call.between).now :=
            now_happenAll (s := { s with heap }) call.between
          exact .asked route dropped later rfl

/-- What a call that succeeds returns is what the client has in the end. -/
theorem run_ends {inode : Ino} {copy : NfsInode α} (returned : call.run s = .ok (inode, copy)) :
    ∃ s', call.walk (s.happenAll call.before) = (.ok inode, s') ∧
      copy = (s'.happenAll call.behind).inode inode := by
  unfold StatCall.run at returned
  split at returned
  · cases returned
  · rename_i reached s' walked
    refine ⟨s', ?_⟩
    unfold nfsGetattr at returned
    split at returned
    · split at returned
      · cases returned
      · cases returned
        exact ⟨walked, rfl⟩
    · cases returned
      exact ⟨walked, rfl⟩

/-- A walk that does not ask the server leaves the attributes to what happens. -/
theorem fresh_unasked {middle : Client α} (inodes : middle.inode = (s.happenAll call.before).inode)
    (now : middle.now = (s.happenAll call.before).now) :
    s.now < (((middle.happenAll call.between).happenAll call.behind).inode i).fetched ↔
      Refreshes i call.happenings := by
  have order : s.now ≤ middle.now := by
    rw [now]
    exact now_happenAll call.before
  rw [← happenAll_append, refreshes_happenings]
  by_cases early : Refreshes i call.before
  · have newer := newer_happenAll (Nat.le_refl s.now) (.inr early)
    rw [← inodes] at newer
    exact iff_of_true (newer_happenAll order (.inl newer)) (.inl early)
  · have kept := (happenAll_kept (s := s) early).1
    rw [← inodes] at kept
    have later : Refreshes i (call.between ++ call.behind) ↔
        Refreshes i call.between ∨ Refreshes i call.behind := by
      simp only [Refreshes, List.mem_append, exists_or]
    rw [or_iff_right early, ← later]
    constructor
    · intro newer
      by_contra other
      rw [(happenAll_kept other).1, kept] at newer
      exact absurd (s.past i).1 (Nat.not_le.mpr newer)
    · intro refreshed
      exact newer_happenAll order (.inr refreshed)

/-- A call on an inode whose attributes have to be revalidated returns fresh ones exactly when it asks
    the server itself, or when somebody else's reply brings them meanwhile. -/
theorem stat_fresh_iff (call : StatCall α) (s : Client α) : FreshStat call s ↔ Refetched call s := by
  unfold FreshStat Refetched
  apply forall_congr'
  intro inode
  apply forall_congr'
  intro copy
  apply imp_congr_right
  intro returned
  apply imp_congr_right
  intro needed
  obtain ⟨s', walked, rfl⟩ := run_ends returned
  cases walk_ends walked with
  | there route ends =>
      subst ends
      apply Iff.trans (fresh_unasked (by rfl) (by rfl))
      refine ⟨.inr, ?_⟩
      rintro (⟨base, name, named, _⟩ | refreshed)
      · rw [route] at named
        cases named
      · exact refreshed
  | cached route found permanent positive accepted ends =>
      subst ends
      apply Iff.trans (fresh_unasked (by rfl) (by rfl))
      refine ⟨.inr, ?_⟩
      rintro (⟨base, name, named, drops⟩ | refreshed)
      · rw [route] at named
        cases named
        -- the dentry can be dropped, so it was accepted as current: somebody has refreshed the inode
        rcases accepted with current | busy
        · rw [refreshes_happenings]
          left
          by_contra other
          have still := (happenAll_kept other).2 needed
          rw [current] at still
          cases still
        · rcases drops _ found with temporary | dropped
          · rw [permanent] at temporary
            cases temporary
          · rw [busy] at dropped
            cases dropped
      · exact refreshed
  | asked route dropped later ends =>
      subst ends
      rename_i base name middle
      have order : s.now ≤ middle.now := Nat.le_trans (now_happenAll call.before) later
      have fetched : ((middle.refresh inode).inode inode).fetched = middle.now + 1 := by
        simp [Client.refresh, nfsUpdateInode]
      have now : (middle.refresh inode).now = middle.now + 1 := rfl
      apply iff_of_true
      · apply newer_happenAll (by omega)
        left
        omega
      · exact .inl ⟨base, name, route, dropped⟩

/-! ### An open file -/

/-- Attributes that were fetched long ago, and have changed on the server since. -/
def expiredClient : Client Nat where
  heap :=
    { dentry := fun _ => ⟨0, [], none, .miss⟩
      hash := fun _ _ => none
      next := 0
      count := fun _ => 0
      low := fun _ => 0
      held := []
      tick := 0 }
  jiffies := 100
  now := 1
  inode _ :=
    { attrs := 5
      fetched := 0
      invalidAttr := false
      invalidLabel := false
      revalForced := false
      delegated := false
      readCacheJiffies := 0
      attrtimeo := 30
      attrtimeoTimestamp := 0 }
  server _ := 6
  minTimeo _ := 30
  maxTimeo _ := 60
  past := fun _ => ⟨by decide, by decide⟩

/-- `fstat` of an open directory, with nothing else going on. -/
def fstatCall : StatCall Nat where
  env := Env.calm
  negativeStale _ := false
  route := .place 1
  before := []
  between := []
  behind := []
  reply := .error .ENOENT
  flush := none

/-- The call returns the old attributes, past their timeout. -/
theorem fstat_returns_expired :
    expiredClient.needRevalidate 1 = true ∧
      fstatCall.run expiredClient = .ok (1, expiredClient.inode 1) ∧
      (expiredClient.inode 1).attrs ≠ expiredClient.server 1 ∧
      ¬FreshStat fstatCall expiredClient := by
  have returned : fstatCall.run expiredClient = .ok (1, expiredClient.inode 1) := by decide
  refine ⟨by decide, returned, by decide, ?_⟩
  intro fresh
  have newer := fresh 1 _ returned (by decide)
  exact absurd newer (by decide)

end Nfs4Compound.Attr
