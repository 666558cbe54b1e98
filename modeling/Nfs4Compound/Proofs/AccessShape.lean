/-
Module: Nfs4Compound.Proofs.AccessShape
Layer: Proofs
Purpose: The access cache is consistent between any two steps of its calls, however many there are and in
  whatever order they take their steps.
Imports: Nfs4Compound.Proofs.AccessFlow
Trusted boundary: none
Main exports: stepped_consistent, run_consistent, cache_stays_consistent
-/
import Nfs4Compound.Proofs.AccessFlow

namespace Nfs4Compound.Access

open SearchTree (Balancing)

variable {tree : Balancing AccessEntry} {s s' : State} {call : Nat} {point point' : Point}
  {events : List Event} {inodes : List AccessInode} {calls : List Point} {lru : List Nat} {i : Nat}
  {old new : AccessInode}

/-! ### The invariant -/

theorem count_numbers {entries : List AccessEntry} (number : Nat) :
    (entries.map (·.number)).count number = tally (fun entry => if entry.number = number then 1 else 0) entries := by
  induction entries with
  | nil => rfl
  | cons first rest inductionHypothesis =>
      rw [List.map_cons, List.count_cons, inductionHypothesis, tally_cons, Nat.add_comm]
      simp only [beq_iff_eq]

/-- What comes in and goes out leaves every entry in one place, and the count right. -/
theorem Flow.keepsCounts {brought gone : List AccessEntry} (flow : Flow s s' brought gone)
    (consistent : Consistent s) :
    (∀ number, s'.freed.count number + s'.load (fun entry => if entry.number = number then 1 else 0) =
        if number < s'.allocated then 1 else 0) ∧
      s'.nfsAccessNrEntries + tally Point.uncounted s'.calls = s'.load fun _ => 1 := by
  constructor
  · intro number
    have before := consistent.conserved number
    have balance := flow.balance fun entry => if entry.number = number then 1 else 0
    rw [flow.freed, List.count_append, count_numbers]
    rcases flow.allocated with ⟨rfl, same⟩ | ⟨set, rfl, more⟩
    · rw [same]
      simp only [tally_nil] at balance
      omega
    · rw [more]
      simp only [tally_cons, tally_nil] at balance
      split_ifs at before balance ⊢ <;> omega
  · have before := consistent.accounted
    have balance := flow.balance fun _ => 1
    have count := flow.count
    rw [tally_one, tally_one] at balance
    omega

theorem took_consistent (consistent : Consistent s) (here : s.calls[call]? = some point)
    (took : Took tree s call point s' events) : Consistent s' := by
  obtain ⟨brought, gone, flow⟩ := took_flow consistent.inodes here took
  obtain ⟨conserved, accounted⟩ := flow.keepsCounts consistent
  obtain ⟨once, bits⟩ := took_lru consistent.lruOnce consistent.lruBits consistent.cursors
    consistent.inodes here took
  exact {
    inodes := took_inodes consistent.inodes took
    lruLock := took_lruLock consistent.lruLock here took
    iLocks := took_iLocks consistent.iLocks here consistent.inodes took
    lruOnce := once
    lruBits := bits
    cursors := took_cursors consistent.lruLock consistent.cursors here took
    listed := took_listed consistent.listed consistent.inodes here took
    conserved
    accounted }

/-- A new call has nothing yet. -/
theorem Consistent.begin (consistent : Consistent s) (noLru : ¬point.HasLruLock)
    (noLock : ∀ i, ¬point.HasILock i) (held : point.held = []) (uncounted : point.uncounted = 0) :
    Consistent (s.call point) where
  inodes := consistent.inodes
  lruLock := consistent.lruLock.begin noLru
  iLocks := fun i inode found => (consistent.iLocks i inode found).begin (noLock i)
  lruOnce := consistent.lruOnce
  lruBits := consistent.lruBits
  cursors := by
    intro call nrToScan i next head found
    change (s.calls ++ [point])[call]? = _ at found
    rw [List.getElem?_append] at found
    split at found
    · exact consistent.cursors call nrToScan i next head found
    · have last := List.mem_singleton.mp (List.mem_of_getElem? found)
      exact absurd (last ▸ trivial) noLru
  listed := by
    intro i inode found entries
    rcases consistent.listed i inode found entries with set | ⟨other, inside, will⟩
    · exact .inl set
    · exact .inr ⟨other, List.mem_append_left _ inside, will⟩
  conserved := by
    intro number
    have before := consistent.conserved number
    rw [State.load] at before ⊢
    change _ + (_ + tally _ (s.calls ++ [point])) = _
    rw [tally_append, tally_cons, held]
    exact before
  accounted := by
    have before := consistent.accounted
    rw [State.load] at before ⊢
    change s.nfsAccessNrEntries + (tally Point.uncounted (s.calls ++ [point]) : Int) =
      ((_ + tally _ (s.calls ++ [point]) : Nat) : Int)
    rw [tally_append, tally_append, tally_cons, tally_cons, held, uncounted]
    exact before

/-- An inode's flags change, but not whether it is on the list. -/
theorem Consistent.revise (consistent : Consistent s) (there : s.inodes[i]? = some old)
    (tree_ : new.accessCache = old.accessCache) (lru_ : new.accessCacheEntryLru = old.accessCacheEntryLru)
    (bit : new.aclLruSet = old.aclLruSet) (lock : new.iLock = old.iLock) : Consistent (s.setInode i new) where
  inodes := by
    have before := consistent.inodes old (List.mem_of_getElem? there)
    exact forall_mem_set consistent.inodes ⟨tree_ ▸ before.ordered, tree_ ▸ lru_ ▸ before.listed⟩
  lruLock := consistent.lruLock
  iLocks := consistent.iLocks.set there lock
  lruOnce := consistent.lruOnce
  lruBits := consistent.lruBits.set there bit
  cursors := consistent.cursors
  listed := consistent.listed.set there fun entries => .inl ⟨lru_ ▸ entries, bit⟩
  conserved := by
    intro number
    have before := consistent.conserved number
    have same := @tally_set_of_eq _ (fun inode : AccessInode =>
      tally (fun entry => if entry.number = number then 1 else 0) inode.accessCacheEntryLru) s.inodes i old new
      there (by rw [lru_])
    rw [State.load] at before ⊢
    change _ + (tally _ (s.inodes.set i new) + _) = _
    rw [same]
    exact before
  accounted := by
    have before := consistent.accounted
    have same := @tally_set_of_eq _ (fun inode : AccessInode =>
      tally (fun _ => 1) inode.accessCacheEntryLru) s.inodes i old new there (by rw [lru_])
    rw [State.load] at before ⊢
    change _ = ((tally _ (s.inodes.set i new) + _ : Nat) : Int)
    rw [same]
    exact before

/-- What one step of the system keeps. -/
theorem stepped_consistent (consistent : Consistent s) (stepped : Stepped tree s s' events) :
    Consistent s' := by
  cases stepped with
  | doAccess _ => exact consistent.begin id (fun _ => id) rfl rfl
  | opened => exact consistent.begin id (fun _ => id) rfl rfl
  | opendata _ => exact consistent.begin id (fun _ => id) rfl rfl
  | zapCache _ => exact consistent.begin id (fun _ => id) rfl rfl
  | shrinker => exact consistent.begin id (fun _ => id) rfl rfl
  | refused => exact consistent.begin id (fun _ => id) rfl rfl
  | invalidate there _ => exact consistent.revise there rfl rfl rfl rfl
  | revise there _ => exact consistent.revise there rfl rfl rfl rfl
  | clock =>
      exact ⟨consistent.inodes, consistent.lruLock, consistent.iLocks, consistent.lruOnce,
        consistent.lruBits, consistent.cursors, consistent.listed, consistent.conserved,
        consistent.accounted⟩
  | go here took => exact took_consistent consistent here took

/-- Before the first call. -/
theorem start_consistent (inodes : List NewInode) (pressure : Int) (jiffies minAttrtimeo : Nat) :
    Consistent (State.start inodes pressure jiffies minAttrtimeo) := by
  have fresh (i : Nat) (inode : AccessInode) (found : (inodes.map NewInode.inode)[i]? = some inode) :
      ∃ new : NewInode, inode = new.inode := by
    rw [List.getElem?_map, Option.map_eq_some_iff] at found
    obtain ⟨new, -, same⟩ := found
    exact ⟨new, same.symm⟩
  have nothing (weight : AccessEntry → Nat) :
      tally (fun inode => tally weight inode.accessCacheEntryLru) (inodes.map NewInode.inode) = 0 := by
    refine tally_eq_zero_iff.mpr fun inode inside => ?_
    obtain ⟨new, -, rfl⟩ := List.mem_map.mp inside
    rfl
  exact {
    inodes := by
      intro inode inside
      obtain ⟨new, -, rfl⟩ := List.mem_map.mp inside
      exact ⟨List.Pairwise.nil, List.Perm.nil⟩
    lruLock := fun call => by simp [State.start]
    iLocks := by
      intro i inode found call
      obtain ⟨new, rfl⟩ := fresh i inode found
      simp [State.start, NewInode.inode]
    lruOnce := List.nodup_nil
    lruBits := by
      intro i
      refine iff_of_false List.not_mem_nil ?_
      rintro ⟨inode, found, set⟩
      obtain ⟨new, rfl⟩ := fresh i inode found
      cases set
    cursors := fun call nrToScan i next head found => by cases found
    listed := by
      intro i inode found entries
      obtain ⟨new, rfl⟩ := fresh i inode found
      exact absurd rfl entries
    conserved := by
      intro number
      rw [State.load, State.start, nothing]
      rfl
    accounted := by
      rw [State.load, State.start, nothing]
      rfl }

/-- What is left when every call has returned. -/
theorem Consistent.settled (consistent : Consistent s) (rest : AtRest s) : Settled s := by
  have idle {call : Nat} {point : Point} (found : s.calls[call]? = some point) : point = .done :=
    rest point (List.mem_of_getElem? found)
  have empty (f : Point → Nat) (none : f .done = 0) : tally f s.calls = 0 :=
    tally_eq_zero_iff.mpr fun point inside => by rw [rest point inside, none]
  exact {
    lruFree := by
      cases lock : s.nfsAccessLruLock with
      | none => rfl
      | some call =>
          obtain ⟨point, found, has⟩ := (consistent.lruLock call).mp lock
          rw [idle found] at has
          cases has
    iFree := by
      intro inode inside
      obtain ⟨i, there⟩ := List.getElem?_of_mem inside
      cases lock : inode.iLock with
      | none => rfl
      | some call =>
          obtain ⟨point, found, has⟩ := (consistent.iLocks i inode there call).mp lock
          rw [idle found] at has
          cases has
    counted := by
      have accounted := consistent.accounted
      rw [empty _ rfl, State.load, empty _ rfl] at accounted
      simp only [tally_one] at accounted
      simpa using accounted
    found := by
      intro i inode there entries
      rcases consistent.listed i inode there entries with set | ⟨point, inside, will⟩
      · exact (consistent.lruBits i).mpr ⟨inode, there, set⟩
      · rw [rest point inside] at will
        cases will
    freed := by
      intro number small
      have conserved := consistent.conserved number
      rw [if_pos small, State.load, empty _ rfl, Nat.add_zero] at conserved
      rw [← List.count_pos_iff]
      constructor
      · intro freed inode inside entry inList same
        have here := le_tally (f := fun inode : AccessInode =>
          tally (fun entry => if entry.number = number then 1 else 0) inode.accessCacheEntryLru) inside
        have there := le_tally (f := fun entry : AccessEntry =>
          if entry.number = number then 1 else 0) inList
        rw [if_pos same] at there
        omega
      · intro nowhere
        have none : tally (fun inode : AccessInode =>
            tally (fun entry => if entry.number = number then 1 else 0) inode.accessCacheEntryLru)
              s.inodes = 0 :=
          tally_eq_zero_iff.mpr fun inode inside => tally_eq_zero_iff.mpr fun entry inList =>
            if_neg (nowhere inode inside entry inList)
        omega }

theorem run_consistent {inodes : List NewInode} {pressure : Int} {jiffies minAttrtimeo : Nat}
    {history : List Event}
    (run : History.HistoryRun (step tree) (State.start inodes pressure jiffies minAttrtimeo) history s) :
    Consistent s :=
  @History.HistoryRun.invariant _ _ _ _ _ _ _ (fun _ s => Consistent s)
    (start_consistent inodes pressure jiffies minAttrtimeo)
    (fun _ _ _ _ _ before moved => stepped_consistent before (stepped_of_step moved)) run

/-- In every run, with any number of calls at a time: between any two steps the cache is consistent, and
    whenever all calls have returned, no lock is held, the global count is the number of cached entries,
    every inode with entries is on the list the shrinker goes through, and every entry that was ever
    allocated and is in no cache has been freed. -/
theorem cache_stays_consistent {inodes : List NewInode} {pressure : Int} {jiffies minAttrtimeo : Nat}
    {history : List Event}
    (run : History.HistoryRun (step tree) (State.start inodes pressure jiffies minAttrtimeo) history s) :
    Consistent s ∧ (AtRest s → Settled s) := by
  have consistent := run_consistent run
  exact ⟨consistent, consistent.settled⟩

/-! ### A run with three calls -/

/-- Two calls ask at the same time for the same user; the second one finds what the first one has put into
    the cache while the first is still in the middle of it; then the shrinker comes. -/
def sharedMoves : List Move :=
  let given : Given := ⟨true, .ok nfs4AccessRead⟩
  [.doAccess ⟨0, 7, mayRead⟩, .doAccess ⟨0, 7, mayRead⟩] ++ List.replicate 6 (.go 0 given) ++
    List.replicate 3 (.go 1 given) ++ List.replicate 3 (.go 0 given) ++ [.shrinker 1 true] ++
      List.replicate 5 (.go 2 given)

def sharedStart : State := State.start [⟨false, 10, false⟩] 100 5 3

def sharedEvents : List Event :=
  [.began 0 ⟨0, 7, mayRead⟩, .began 1 ⟨0, 7, mayRead⟩, .replied 0 7 nfs4AccessRead,
    .inserted 0 ⟨⟨5, 7, mayRead⟩, 0⟩, .answered 1 ⟨0, 7, mayRead⟩ (some ⟨⟨5, 7, mayRead⟩, 0⟩) none,
    .answered 0 ⟨0, 7, mayRead⟩ none none, .shrunk 2 0]

theorem shared_replays :
    ∃ s : State, History.replayFrom (step SearchTree.unbalanced) sharedStart sharedMoves =
      some (s, sharedEvents) ∧ s.calls = [.done, .done, .done] ∧ s.freed = [0] := by
  have replayed : (History.replayFrom (step SearchTree.unbalanced) sharedStart sharedMoves).map
      (fun last => (last.2, last.1.calls, last.1.freed)) =
        some (sharedEvents, [.done, .done, .done], [0]) := by decide
  obtain ⟨⟨s, history⟩, ran, same⟩ := Option.map_eq_some_iff.mp replayed
  simp only [Prod.mk.injEq] at same
  obtain ⟨rfl, calls, freed⟩ := same
  exact ⟨s, ran, calls, freed⟩

theorem shared_cache_settles :
    ∃ s : State, History.replayFrom (step SearchTree.unbalanced) sharedStart sharedMoves =
      some (s, sharedEvents) ∧ s.freed = [0] ∧ Settled s := by
  obtain ⟨s, ran, calls, freed⟩ := shared_replays
  have rest : AtRest s := by
    intro point inside
    rw [calls] at inside
    simpa using inside
  have run := History.HistoryRun.replay sharedMoves History.HistoryRun.refl ran
  exact ⟨s, ran, freed, (cache_stays_consistent run).2 rest⟩

end Nfs4Compound.Access
