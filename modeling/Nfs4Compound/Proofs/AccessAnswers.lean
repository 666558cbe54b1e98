/-
Module: Nfs4Compound.Proofs.AccessAnswers
Layer: Proofs
Purpose: Every answer of `nfs_do_access` is justified by what has happened before it, whatever other calls
  do at the same time: nothing is permitted that the server has not permitted to this user, and an entry
  that had been superseded, emptied out or marked invalid before the call began is never used.
Imports: Nfs4Compound.Access.Answers, Nfs4Compound.Proofs.AccessShape
Trusted boundary: none
Main exports: Turned, took_turned, Told, answers_are_justified
-/
import Nfs4Compound.Access.Answers
import Nfs4Compound.Proofs.AccessShape

namespace Nfs4Compound.Access

open History (Since Always)
open SearchTree (Balancing)

variable {tree : Balancing AccessEntry} {s s' : State} {call : Nat} {point point' : Point}
  {history events : List Event} {i j : Nat} {inode inode' old new : AccessInode} {ask : Ask}
  {cache : AccessEntry}

/-! ### What a step does to one inode -/

theorem trusts_of_about {event : Event} (quiet : event.about ≠ some j) : Trusts j cache event := by
  refine ⟨?_, ?_, ?_⟩
  · rintro rfl
    exact quiet rfl
  · rintro rfl
    exact quiet rfl
  · rintro other rfl
    exact absurd rfl quiet

/-- What the events of a step say about an inode, and how it changes with them. -/
inductive Turned (j : Nat) (inode inode' : AccessInode) : List Event → Prop where
  | quiet {events : List Event} (said : ∀ event ∈ events, event.about ≠ some j)
      (flag : inode'.invalidAccess = inode.invalidAccess)
      (fewer : ∀ cache ∈ inode'.accessCacheEntryLru, cache ∈ inode.accessCacheEntryLru) :
      Turned j inode inode' events
  | invalidated {rest : List Event} (said : ∀ event ∈ rest, event.about ≠ some j)
      (flag : inode'.invalidAccess = true)
      (fewer : ∀ cache ∈ inode'.accessCacheEntryLru, cache ∈ inode.accessCacheEntryLru) :
      Turned j inode inode' (.invalidated j :: rest)
  | zapped (empty : inode'.accessCacheEntryLru = []) : Turned j inode inode' [.zapped j]
  | inserted {new : AccessEntry} (flag : inode'.invalidAccess = inode.invalidAccess)
      (from_ : ∀ cache ∈ inode'.accessCacheEntryLru,
        cache = new ∨ cache ∈ inode.accessCacheEntryLru ∧ new.cred ≠ cache.cred) :
      Turned j inode inode' [.inserted j new]

/-- Every inode of the new state is one of the old state, changed as the events say. -/
def Turns (s s' : State) (events : List Event) : Prop :=
  ∀ (j : Nat) (inode' : AccessInode), s'.inodes[j]? = some inode' →
    ∃ inode : AccessInode, s.inodes[j]? = some inode ∧ Turned j inode inode' events

theorem turns_of_quiet (same : s'.inodes = s.inodes)
    (quiet : ∀ j, ∀ event ∈ events, event.about ≠ some j) : Turns s s' events := fun j inode' found =>
  ⟨inode', same ▸ found, .quiet (quiet j) rfl fun _ inside => inside⟩

theorem turns_of_set (there : s.inodes[i]? = some old) (set : s'.inodes = s.inodes.set i new)
    (this : Turned i old new events) (others : ∀ j ≠ i, ∀ event ∈ events, event.about ≠ some j) :
    Turns s s' events := by
  intro j inode' found
  rw [set, getElem?_set_of_some new there] at found
  split at found
  · rename_i same
    cases found
    exact ⟨old, same ▸ there, same ▸ this⟩
  · rename_i different
    exact ⟨inode', found, .quiet (others j different) rfl fun _ inside => inside⟩

/-- After an insertion the cache has the new entry and those of other users. -/
theorem AccessInode.mem_nfsAccessAddRbtree (consistent : inode.Consistent) {set : AccessEntry} :
    ∀ cache ∈ (inode.nfsAccessAddRbtree tree set).1.accessCacheEntryLru,
      cache = set ∨ cache ∈ inode.accessCacheEntryLru ∧ set.cred ≠ cache.cred := by
  rw [nfsAccessAddRbtree]
  cases search : inode.nfsAccessSearchRbtree set.cred with
  | none =>
      intro cache inside
      rcases List.mem_append.mp inside with before | new
      · exact .inr ⟨before, (nfsAccessSearchRbtree_eq_none consistent search cache before).symm⟩
      · exact .inl (List.mem_singleton.mp new)
  | some entry =>
      obtain ⟨inList, same⟩ := nfsAccessSearchRbtree_eq_some consistent search
      intro cache inside
      change cache ∈ (inode.accessCacheEntryLru ++ [set]).erase entry at inside
      rw [List.erase_append_left _ inList] at inside
      rcases List.mem_append.mp inside with before | new
      · by_cases equal : set.cred = cache.cred
        · have again : cache = entry := eq_of_cred_eq consistent (List.mem_of_mem_erase before) inList
            (equal.symm.trans same.symm)
          exact absurd (again ▸ before) (entries_nodup consistent).not_mem_erase
        · exact .inr ⟨List.mem_of_mem_erase before, equal⟩
      · exact .inl (List.mem_singleton.mp new)

theorem took_turns (consistent : ∀ inode ∈ s.inodes, inode.Consistent)
    (took : Took tree s call point s' events) : Turns s s' events := by
  have at_ {i : Nat} {inode : AccessInode} (there : s.inodes[i]? = some inode) : inode.Consistent :=
    consistent inode (List.mem_of_getElem? there)
  have silent (j : Nat) : ∀ event ∈ ([] : List Event), event.about ≠ some j := fun event inside => by
    cases inside
  have one {j : Nat} {event : Event} (quiet : event.about ≠ some j) :
      ∀ other ∈ [event], other.about ≠ some j := fun other inside => List.mem_singleton.mp inside ▸ quiet
  have apart {i j : Nat} (different : j ≠ i) : some i ≠ some j := fun same =>
    different (Option.some.inj same).symm
  have returned (caller : Caller) (set : Rights) (j : Nat) : (caller.returned call set).about ≠ some j := by
    cases caller <;> rintro ⟨⟩
  cases took with
  | outStale there _ _ =>
      refine turns_of_set there rfl (.quiet (silent _) rfl ?_) fun j _ => silent j
      exact fun _ inside => List.mem_of_mem_erase inside
  | hit there _ _ found =>
      have inside := (AccessInode.nfsAccessSearchRbtree_eq_some (at_ there) found).1
      refine turns_of_set there rfl (.quiet (one (by rintro ⟨⟩)) rfl ?_) fun j _ => one (by rintro ⟨⟩)
      exact fun cache present => (AccessInode.used_perm inside).mem_iff.mp present
  | zapCaches there _ =>
      refine turns_of_set there rfl (.invalidated (one (by rintro ⟨⟩)) rfl fun _ inside => inside) ?_
      intro j different event inside
      rcases List.mem_cons.mp inside with rfl | last
      · exact apart different
      · exact one (by rintro ⟨⟩) event last
  | zapListed there _ _ =>
      exact turns_of_set there rfl (.quiet (silent _) rfl fun _ inside => inside) fun j _ => silent j
  | zapInode there _ =>
      exact turns_of_set there rfl (.quiet (silent _) rfl fun _ inside => inside) fun j _ => silent j
  | zapEntry there first =>
      obtain ⟨-, rfl⟩ := AccessInode.unhookFirst_eq_some (at_ there) first
      refine turns_of_set there rfl (.quiet (silent _) rfl ?_) fun j _ => silent j
      exact fun _ inside => List.mem_of_mem_erase inside
  | zapped there empty =>
      have nothing := AccessInode.unhookFirst_eq_none (at_ there) empty
      exact turns_of_set there rfl (.zapped nothing) fun j different => one (apart different)
  | inserted there _ _ =>
      refine turns_of_set there rfl (.inserted (AccessInode.nfsAccessAddRbtree_same tree _ _).2.2 ?_) ?_
      · exact AccessInode.mem_nfsAccessAddRbtree (at_ there)
      · exact fun j different => one (apart different)
  | replaced there _ _ =>
      refine turns_of_set there rfl (.inserted (AccessInode.nfsAccessAddRbtree_same tree _ _).2.2 ?_) ?_
      · exact AccessInode.mem_nfsAccessAddRbtree (at_ there)
      · exact fun j different => one (apart different)
  | addLru there _ _ =>
      exact turns_of_set there rfl (.quiet (one (returned _ _ _)) rfl fun _ inside => inside) fun j _ =>
        one (returned _ _ j)
  | scanKeeps there _ _ _ =>
      refine turns_of_set there rfl (.quiet (silent _) rfl ?_) fun j _ => silent j
      exact fun _ inside => List.mem_of_mem_erase inside
  | scanDrops there _ gone =>
      rcases gone with ⟨-, -, rfl⟩ | ⟨cache, -, -, rfl⟩
      · exact turns_of_set there rfl (.quiet (silent _) rfl fun _ inside => inside) fun j _ => silent j
      · refine turns_of_set there rfl (.quiet (silent _) rfl ?_) fun j _ => silent j
        exact fun _ inside => List.mem_of_mem_erase inside
  | noMemory => exact turns_of_quiet rfl fun j => one (returned _ _ j)
  | listedAlready _ _ => exact turns_of_quiet rfl fun j => one (returned _ _ j)
  | listedMeanwhile _ _ => exact turns_of_quiet rfl fun j => one (returned _ _ j)
  | agrees _ => exact turns_of_quiet rfl fun j => one (by rintro ⟨⟩)
  | gaveUp _ => exact turns_of_quiet rfl fun j => one (by rintro ⟨⟩)
  | replied => exact turns_of_quiet rfl fun j => one (by rintro ⟨⟩)
  | shrunk => exact turns_of_quiet rfl fun j => one (by rintro ⟨⟩)
  | _ => exact turns_of_quiet rfl silent

/-! ### What the history tells of the state -/

/-- The entry came in while nothing was pending, and nothing has spoken against it since. -/
def Current (i : Nat) (cache : AccessEntry) (history : List Event) : Prop :=
  Since (Trusts i cache) (fun earlier event => event = .inserted i cache ∧ ¬Pending i earlier) history

/-- The server has said what a call is about to put into the cache; for `nfs_do_access`, during the call. -/
def Backed (call i : Nat) (set : Rights) (caller : Caller) (history : List Event) : Prop :=
  ∃ access, .replied i set.cred access ∈ history ∧ set.mask = nfsAccessSetMask access ∧
    ∀ ask, caller = .doAccess ask → i = ask.inode ∧ set.cred = ask.cred ∧
      ∃ before after, history = before ++ after ∧ .began call ask ∈ before ∧
        .replied ask.inode ask.cred access ∈ after

/-- What every state has of the history that led to it. -/
structure Told (history : List Event) (s : State) : Prop where
  justified : Always Justified history
  pending : ∀ (i : Nat) (inode : AccessInode), s.inodes[i]? = some inode → Pending i history →
    inode.invalidAccess = true
  current : ∀ (i : Nat) (inode : AccessInode), s.inodes[i]? = some inode → inode.invalidAccess = false →
    ∀ cache ∈ inode.accessCacheEntryLru, Current i cache history
  began : ∀ (call : Nat) (point : Point) (ask : Ask), s.calls[call]? = some point →
    point.ask = some ask → .began call ask ∈ history
  /-- The lookup without a lock has seen that the cache was not marked invalid, so that it may use any
      entry it finds, the ones that have come in since too. -/
  prev : ∀ (call : Nat) (ask : Ask) (inode : AccessInode), s.calls[call]? = some (.prev ask) →
    s.inodes[ask.inode]? = some inode → ∀ cache ∈ inode.accessCacheEntryLru, Credible call ask cache history
  compare : ∀ (call : Nat) (ask : Ask) (cache : AccessEntry), s.calls[call]? = some (.compare ask cache) →
    Credible call ask cache history
  adding : ∀ (call : Nat) (point : Point) (i : Nat) (set : Rights) (caller : Caller),
    s.calls[call]? = some point → point.adding = some (i, set, caller) → Backed call i set caller history

theorem Credible.append {more : List Event} (credible : Credible call ask cache history) :
    Credible call ask cache (history ++ more) := by
  obtain ⟨before, after, rfl, began, since⟩ := credible
  exact ⟨before, after ++ more, List.append_assoc _ _ _, began, since⟩

theorem Backed.append {set : Rights} {caller : Caller} {more : List Event}
    (backed : Backed call i set caller history) : Backed call i set caller (history ++ more) := by
  obtain ⟨access, replied, mask, asked⟩ := backed
  refine ⟨access, List.mem_append_left _ replied, mask, fun ask same => ?_⟩
  obtain ⟨inode, cred, before, after, rfl, began, during⟩ := asked ask same
  exact ⟨inode, cred, before, after ++ more, List.append_assoc _ _ _, began, List.mem_append_left _ during⟩

/-- What is current is credible to a call that has begun. -/
theorem Current.credible (current : Current ask.inode cache history) (began : .began call ask ∈ history) :
    Credible call ask cache history :=
  ⟨history, [], (List.append_nil _).symm, began, current.imp (fun _ trusts => trusts) fun _ _ was =>
    ⟨was.1, .inl was.2⟩⟩

/-- What comes in during a call is credible to it. -/
theorem credible_of_inserted (began : .began call ask ∈ history) :
    Credible call ask cache (history ++ [.inserted ask.inode cache]) :=
  ⟨history ++ [.inserted ask.inode cache], [], (List.append_nil _).symm, List.mem_append_left _ began,
    Since.last ⟨rfl, .inr began⟩⟩

/-- The flag is set as long as the history says so. -/
theorem Told.pendingStep (told : Told history s) (turns : Turns s s' events) (found : s'.inodes[i]? = some inode')
    (pending : Pending i (history ++ events)) : inode'.invalidAccess = true := by
  obtain ⟨inode, there, turned⟩ := turns i inode' found
  cases turned with
  | quiet said flag _ =>
      have before : Pending i history := pending.of_append fun _ event inside same => by
        subst same
        exact said _ inside rfl
      rw [flag]
      exact told.pending i inode there before
  | invalidated _ flag _ => exact flag
  | zapped _ =>
      rcases History.since_concat.mp pending with same | ⟨kept, -⟩
      · cases same
      · exact absurd rfl kept
  | inserted flag _ =>
      rcases History.since_concat.mp pending with same | ⟨-, before⟩
      · cases same
      · rw [flag]
        exact told.pending i inode there before

/-- Without the flag every entry is current. -/
theorem Told.currentStep (told : Told history s) (turns : Turns s s' events)
    (found : s'.inodes[i]? = some inode') (clear : inode'.invalidAccess = false)
    (inside : cache ∈ inode'.accessCacheEntryLru) : Current i cache (history ++ events) := by
  obtain ⟨inode, there, turned⟩ := turns i inode' found
  cases turned with
  | quiet said flag fewer =>
      have before := told.current i inode there (flag ▸ clear) cache (fewer cache inside)
      exact before.append fun event inEvents => trusts_of_about (said event inEvents)
  | invalidated _ flag _ =>
      rw [flag] at clear
      cases clear
  | zapped empty =>
      rw [empty] at inside
      cases inside
  | @inserted new flag from_ =>
      rcases from_ cache inside with rfl | ⟨before, other⟩
      · have nothing : ¬Pending i history := fun pending => by
          rw [flag, told.pending i inode there pending] at clear
          cases clear
        exact Since.last ⟨rfl, nothing⟩
      · refine (told.current i inode there (flag ▸ clear) cache before).append fun event inEvents => ?_
        rw [List.mem_singleton.mp inEvents]
        refine ⟨by rintro ⟨⟩, by rintro ⟨⟩, ?_⟩
        rintro same ⟨⟩
        exact other

/-- A lookup that has passed the flag may use what it finds. -/
theorem Told.prevStep (told : Told history s) (turns : Turns s s' events)
    (here : s.calls[call]? = some (.prev ask)) (found : s'.inodes[ask.inode]? = some inode')
    (inside : cache ∈ inode'.accessCacheEntryLru) : Credible call ask cache (history ++ events) := by
  obtain ⟨inode, there, turned⟩ := turns ask.inode inode' found
  cases turned with
  | quiet _ _ fewer => exact (told.prev call ask inode here there cache (fewer cache inside)).append
  | invalidated _ _ fewer => exact (told.prev call ask inode here there cache (fewer cache inside)).append
  | zapped empty =>
      rw [empty] at inside
      cases inside
  | inserted _ from_ =>
      rcases from_ cache inside with rfl | ⟨before, -⟩
      · exact credible_of_inserted (told.began call _ ask here rfl)
      · exact (told.prev call ask inode here there cache before).append

/-! ### The steps of a call -/

/-- A call goes on to another point. -/
theorem Told.go (told : Told history s) (turns : Turns s s' events)
    (same : s'.calls = s.calls.set call point') (here : s.calls[call]? = some point)
    (justified : Always Justified (history ++ events))
    (asks : ∀ ask, point'.ask = some ask → point.ask = some ask)
    (prev : ∀ ask, point' = .prev ask → ∀ inode' : AccessInode, s'.inodes[ask.inode]? = some inode' →
      ∀ cache ∈ inode'.accessCacheEntryLru, Credible call ask cache (history ++ events))
    (compare : ∀ ask cache, point' = .compare ask cache → Credible call ask cache (history ++ events))
    (adding : ∀ i set caller, point'.adding = some (i, set, caller) →
      Backed call i set caller (history ++ events)) : Told (history ++ events) s' where
  justified := justified
  pending := fun _ _ found pending => told.pendingStep turns found pending
  current := fun _ _ found clear _ inside => told.currentStep turns found clear inside
  began := by
    intro other there ask found asked
    rw [same, getElem?_set_of_some point' here] at found
    split at found
    · rename_i this
      cases found
      exact List.mem_append_left _ (this ▸ told.began call point ask here (asks ask asked))
    · exact List.mem_append_left _ (told.began other there ask found asked)
  prev := by
    intro other ask inode' found there cache inside
    rw [same, getElem?_set_of_some point' here] at found
    split at found
    · rename_i this
      exact this ▸ prev ask (Option.some.inj found) inode' there cache inside
    · exact told.prevStep turns found there inside
  compare := by
    intro other ask cache found
    rw [same, getElem?_set_of_some point' here] at found
    split at found
    · rename_i this
      exact this ▸ compare ask cache (Option.some.inj found)
    · exact (told.compare other ask cache found).append
  adding := by
    intro other there i set caller found added
    rw [same, getElem?_set_of_some point' here] at found
    split at found
    · rename_i this
      cases found
      exact this ▸ adding i set caller added
    · exact (told.adding other there i set caller found added).append

/-- A step after which a call has the same question and the same reply of the server in its hands, or
    none, and has found nothing yet. -/
structure Plain (point point' : Point) : Prop where
  ask : ∀ ask, point'.ask = some ask → point.ask = some ask
  prev : ∀ ask, point' ≠ .prev ask
  compare : ∀ ask cache, point' ≠ .compare ask cache
  adding : ∀ added, point'.adding = some added → point.adding = some added

theorem Told.plain (told : Told history s) (turns : Turns s s' events)
    (same : s'.calls = s.calls.set call point') (here : s.calls[call]? = some point)
    (justified : Always Justified (history ++ events)) (plain : Plain point point') :
    Told (history ++ events) s' :=
  told.go turns same here justified plain.ask (fun ask at_ => absurd at_ (plain.prev ask))
    (fun ask cache at_ => absurd at_ (plain.compare ask cache)) fun i set caller added =>
      (told.adding call point i set caller here (plain.adding _ added)).append

theorem plain_done : Plain point .done :=
  ⟨by rintro _ ⟨⟩, by rintro _ ⟨⟩, by rintro _ _ ⟨⟩, by rintro _ ⟨⟩⟩

/-- The rights of a credible entry are those of a reply. -/
theorem Told.outCached (told : Told history s) (credible : Credible call ask cache history)
    (same : cache.cred = ask.cred) : Justified history (ask.outCached call (some cache) cache.mask) := by
  refine ⟨credible, same, ?_⟩
  obtain ⟨before, after, whole, -, earlier, event, later, first, was, -⟩ := credible
  obtain ⟨rfl, -⟩ := was
  rw [first, List.append_assoc, List.cons_append] at whole
  obtain ⟨access, replied, mask⟩ := told.justified earlier _ _ whole
  refine ⟨access, ?_, mask, ?_⟩
  · rw [whole, ← same]
    exact List.mem_append_left _ replied
  · rw [statusOf, mask]

/-- What has been put into the cache is answered with the rights of the reply. -/
theorem justified_returned {set : Rights} {caller : Caller} (backed : Backed call i set caller history) :
    Justified history (caller.returned call set) := by
  cases caller with
  | opendata mask => trivial
  | doAccess ask =>
      obtain ⟨access, -, mask, asked⟩ := backed
      obtain ⟨-, -, before, after, whole, began, during⟩ := asked ask rfl
      rw [Caller.returned, Ask.outCached]
      split
      · rename_i permitted
        refine ⟨before, after, access, whole, began, during, ?_⟩
        rw [statusOf, ← mask, if_pos permitted]
      · trivial

theorem took_told (told : Told history s) (consistent : ∀ inode ∈ s.inodes, inode.Consistent)
    (here : s.calls[call]? = some point) (took : Took tree s call point s' events) :
    Told (history ++ events) s' := by
  have turns : Turns s s' events := took_turns consistent took
  have silent : Always Justified (history ++ []) := by
    rw [List.append_nil]
    exact told.justified
  have tells {event : Event} (justified : Justified history event) : Always Justified (history ++ [event]) :=
    told.justified.concat justified
  cases took with
  | @valid ask inode there clear =>
      refine told.go turns rfl here silent (fun _ same => same) ?_ (by rintro _ _ ⟨⟩) (by rintro _ _ _ ⟨⟩)
      rintro _ ⟨⟩ other found cache inside
      cases there.symm.trans found
      exact ((told.current ask.inode inode there clear cache inside).credible
        (told.began call _ ask here rfl)).append
  | @prev ask cache inode there last =>
      refine told.go turns rfl here silent (fun _ same => same) (by rintro _ ⟨⟩) ?_ (by rintro _ _ _ ⟨⟩)
      rintro _ _ ⟨⟩
      exact (told.prev call ask inode here there cache (List.mem_of_getLast? last)).append
  | @agrees ask cache same =>
      have justified := told.outCached (told.compare call ask cache here) same.symm
      exact told.plain turns rfl here (tells justified) plain_done
  | @hit ask cache inode there _ clear found =>
      obtain ⟨inside, same⟩ := AccessInode.nfsAccessSearchRbtree_eq_some
        (consistent inode (List.mem_of_getElem? there)) found
      have credible := (told.current ask.inode inode there clear cache inside).credible
        (told.began call _ ask here rfl)
      exact told.plain turns rfl here (tells (told.outCached credible same)) plain_done
  | gaveUp _ => exact told.plain turns rfl here (tells trivial) plain_done
  | @replied ask asked access =>
      refine told.go turns rfl here (tells trivial) (by rintro _ ⟨⟩) (by rintro _ ⟨⟩) (by rintro _ _ ⟨⟩) ?_
      rintro _ _ _ ⟨⟩
      refine ⟨access, List.mem_append_right _ List.mem_cons_self, rfl, ?_⟩
      rintro _ ⟨⟩
      exact ⟨rfl, rfl, history, _, rfl, told.began call _ ask here rfl, List.mem_cons_self⟩
  | @zapCaches ask _ _ _ =>
      have first : Always Justified (history ++ [.invalidated ask.inode]) := tells trivial
      have refused : Justified (history ++ [.invalidated ask.inode])
          (.answered call ask none (some .ESTALE)) := trivial
      have both := first.concat refused
      rw [List.append_assoc] at both
      exact told.plain turns rfl here both plain_done
  | @zapNothing i ask =>
      cases ask with
      | none => exact told.plain turns rfl here silent plain_done
      | some ask =>
          exact told.plain turns rfl here silent
            ⟨fun _ same => same, by rintro _ ⟨⟩, by rintro _ _ ⟨⟩, by rintro _ ⟨⟩⟩
  | @zapFreed ask =>
      cases ask with
      | none => exact told.plain turns rfl here silent plain_done
      | some ask =>
          exact told.plain turns rfl here silent
            ⟨fun _ same => same, by rintro _ ⟨⟩, by rintro _ _ ⟨⟩, by rintro _ ⟨⟩⟩
  | zapped _ _ =>
      exact told.plain turns rfl here (tells trivial)
        ⟨fun _ same => same, by rintro _ ⟨⟩, by rintro _ _ ⟨⟩, by rintro _ ⟨⟩⟩
  | noMemory =>
      have backed := told.adding call _ _ _ _ here rfl
      exact told.plain turns rfl here (tells (justified_returned backed)) plain_done
  | inserted _ _ _ =>
      obtain ⟨access, replied, mask, -⟩ := told.adding call _ _ _ _ here rfl
      exact told.plain turns rfl here (tells ⟨access, replied, mask⟩)
        ⟨by rintro _ ⟨⟩, by rintro _ ⟨⟩, by rintro _ _ ⟨⟩, fun _ same => same⟩
  | replaced _ _ _ =>
      obtain ⟨access, replied, mask, -⟩ := told.adding call _ _ _ _ here rfl
      exact told.plain turns rfl here (tells ⟨access, replied, mask⟩)
        ⟨by rintro _ ⟨⟩, by rintro _ ⟨⟩, by rintro _ _ ⟨⟩, fun _ same => same⟩
  | freeReplaced =>
      exact told.plain turns rfl here silent
        ⟨by rintro _ ⟨⟩, by rintro _ ⟨⟩, by rintro _ _ ⟨⟩, fun _ same => same⟩
  | account =>
      exact told.plain turns rfl here silent
        ⟨by rintro _ ⟨⟩, by rintro _ ⟨⟩, by rintro _ _ ⟨⟩, fun _ same => same⟩
  | addTest =>
      exact told.plain turns rfl here silent
        ⟨by rintro _ ⟨⟩, by rintro _ ⟨⟩, by rintro _ _ ⟨⟩, fun _ same => same⟩
  | listedAlready _ _ =>
      have backed := told.adding call _ _ _ _ here rfl
      exact told.plain turns rfl here (tells (justified_returned backed)) plain_done
  | listedMeanwhile _ _ =>
      have backed := told.adding call _ _ _ _ here rfl
      exact told.plain turns rfl here (tells (justified_returned backed)) plain_done
  | addLru _ _ _ =>
      have backed := told.adding call _ _ _ _ here rfl
      exact told.plain turns rfl here (tells (justified_returned backed)) plain_done
  | shrunk => exact told.plain turns rfl here (tells trivial) plain_done
  | _ =>
      exact told.plain turns rfl here silent
        ⟨fun _ same => same, by rintro _ ⟨⟩, by rintro _ _ ⟨⟩, by rintro _ ⟨⟩⟩

/-! ### The other steps -/

/-- A new call. -/
theorem Told.begin (told : Told history s) (quiet : ∀ j, ∀ event ∈ events, event.about ≠ some j)
    (justified : Always Justified (history ++ events))
    (asks : ∀ ask, point.ask = some ask → .began s.calls.length ask ∈ events)
    (prev : ∀ ask, point ≠ .prev ask) (compare : ∀ ask cache, point ≠ .compare ask cache)
    (adding : ∀ i set caller, point.adding = some (i, set, caller) →
      Backed s.calls.length i set caller (history ++ events)) :
    Told (history ++ events) (s.call point) := by
  have turns : Turns s (s.call point) events := turns_of_quiet rfl quiet
  have split {other : Nat} {there : Point} (found : (s.calls ++ [point])[other]? = some there) :
      s.calls[other]? = some there ∨ other = s.calls.length ∧ there = point := by
    rw [List.getElem?_append] at found
    split at found
    · exact .inl found
    · rename_i late
      rw [List.getElem?_singleton] at found
      split at found
      · rename_i zero
        exact .inr ⟨Nat.le_antisymm (Nat.sub_eq_zero_iff_le.mp zero) (Nat.le_of_not_lt late),
          (Option.some.inj found).symm⟩
      · cases found
  exact {
    justified
    pending := fun _ _ found pending => told.pendingStep turns found pending
    current := fun _ _ found clear _ inside => told.currentStep turns found clear inside
    began := by
      intro other there ask found asked
      rcases split found with before | ⟨rfl, rfl⟩
      · exact List.mem_append_left _ (told.began other there ask before asked)
      · exact List.mem_append_right _ (asks ask asked)
    prev := by
      intro other ask inode' found there cache inside
      rcases split found with before | ⟨-, same⟩
      · exact told.prevStep turns before there inside
      · exact absurd same.symm (prev ask)
    compare := by
      intro other ask cache found
      rcases split found with before | ⟨-, same⟩
      · exact (told.compare other ask cache before).append
      · exact absurd same.symm (compare ask cache)
    adding := by
      intro other there i set caller found added
      rcases split found with before | ⟨rfl, rfl⟩
      · exact (told.adding other there i set caller before added).append
      · exact adding i set caller added }

/-- A step of something else than the calls. -/
theorem Told.elsewhere (told : Told history s) (turns : Turns s s' events) (same : s'.calls = s.calls)
    (justified : Always Justified (history ++ events)) : Told (history ++ events) s' where
  justified := justified
  pending := fun _ _ found pending => told.pendingStep turns found pending
  current := fun _ _ found clear _ inside => told.currentStep turns found clear inside
  began := fun call point ask found asked =>
    List.mem_append_left _ (told.began call point ask (same ▸ found) asked)
  prev := fun _ _ _ found there _ inside => told.prevStep turns (same ▸ found) there inside
  compare := fun call ask cache found => (told.compare call ask cache (same ▸ found)).append
  adding := fun call point i set caller found added =>
    (told.adding call point i set caller (same ▸ found) added).append

theorem stepped_told (told : Told history s) (consistent : Consistent s) (stepped : Stepped tree s s' events) :
    Told (history ++ events) s' := by
  have silent : Always Justified (history ++ []) := by
    rw [List.append_nil]
    exact told.justified
  have tells {event : Event} (justified : Justified history event) : Always Justified (history ++ [event]) :=
    told.justified.concat justified
  have nothing (j : Nat) : ∀ event ∈ ([] : List Event), event.about ≠ some j := fun event inside => by
    cases inside
  have one {event : Event} (quiet : ∀ j, event.about ≠ some j) (j : Nat) :
      ∀ other ∈ [event], other.about ≠ some j := fun other inside => List.mem_singleton.mp inside ▸ quiet j
  cases stepped with
  | doAccess _ =>
      refine told.begin (one (by rintro _ ⟨⟩)) (tells trivial) ?_ (by rintro _ ⟨⟩) (by rintro _ _ ⟨⟩)
        (by rintro _ _ _ ⟨⟩)
      rintro _ ⟨⟩
      exact List.mem_cons_self
  | opened =>
      exact told.begin (one (by rintro _ ⟨⟩)) (tells trivial) (by rintro _ ⟨⟩) (by rintro _ ⟨⟩)
        (by rintro _ _ ⟨⟩) (by rintro _ _ _ ⟨⟩)
  | @opendata i cred accessResult mask _ =>
      refine told.begin (one (by rintro _ ⟨⟩)) (tells trivial) (by rintro _ ⟨⟩) (by rintro _ ⟨⟩)
        (by rintro _ _ ⟨⟩) ?_
      rintro _ _ _ ⟨⟩
      exact ⟨accessResult, List.mem_append_right _ List.mem_cons_self, rfl, by rintro _ ⟨⟩⟩
  | zapCache _ =>
      exact told.begin nothing silent (by rintro _ ⟨⟩) (by rintro _ ⟨⟩) (by rintro _ _ ⟨⟩)
        (by rintro _ _ _ ⟨⟩)
  | shrinker =>
      exact told.begin nothing silent (by rintro _ ⟨⟩) (by rintro _ ⟨⟩) (by rintro _ _ ⟨⟩)
        (by rintro _ _ _ ⟨⟩)
  | refused =>
      exact told.begin (one (by rintro _ ⟨⟩)) (tells trivial) (by rintro _ ⟨⟩) (by rintro _ ⟨⟩)
        (by rintro _ _ ⟨⟩) (by rintro _ _ _ ⟨⟩)
  | invalidate there _ =>
      refine told.elsewhere ?_ rfl (tells trivial)
      refine turns_of_set there rfl (.invalidated (nothing _) rfl fun _ inside => inside) ?_
      intro j different other inside
      rw [List.mem_singleton.mp inside]
      exact fun same => different (Option.some.inj same).symm
  | revise there _ =>
      refine told.elsewhere ?_ rfl silent
      exact turns_of_set there rfl (.quiet (nothing _) rfl fun _ inside => inside) fun j _ => nothing j
  | clock => exact told.elsewhere (turns_of_quiet rfl nothing) rfl silent
  | go here took => exact took_told told consistent.inodes here took

/-- Before the first call. -/
theorem start_told (inodes : List NewInode) (pressure : Int) (jiffies minAttrtimeo : Nat) :
    Told [] (State.start inodes pressure jiffies minAttrtimeo) where
  justified := History.always_nil Justified
  pending := by
    rintro _ _ _ ⟨before, event, after, whole, -⟩
    cases before <;> cases whole
  current := by
    intro i inode found _ cache inside
    change (inodes.map NewInode.inode)[i]? = some inode at found
    rw [List.getElem?_map, Option.map_eq_some_iff] at found
    obtain ⟨new, -, rfl⟩ := found
    cases inside
  began := fun _ _ _ found => by cases found
  prev := fun _ _ _ found => by cases found
  compare := fun _ _ _ found => by cases found
  adding := fun _ _ _ _ _ found => by cases found

/-- In every run, with any number of calls at a time, every answer is justified by what has happened
    before it.  An answer from the cache gives the rights that the server has granted to this user for
    this inode, and at some moment of the call it was the newest there was, with nothing marked invalid
    since it had come in; and an answer that permits without the cache has the server's word from within
    the call. -/
theorem answers_are_justified {inodes : List NewInode} {pressure : Int} {jiffies minAttrtimeo : Nat}
    (run : History.HistoryRun (step tree) (State.start inodes pressure jiffies minAttrtimeo) history s) :
    Always Justified history := by
  have both : Consistent s ∧ Told history s :=
    @History.HistoryRun.invariant _ _ _ _ _ _ _ (fun history s => Consistent s ∧ Told history s)
      ⟨start_consistent inodes pressure jiffies minAttrtimeo, start_told inodes pressure jiffies minAttrtimeo⟩
      (fun _ _ _ _ _ before moved =>
        ⟨stepped_consistent before.1 (stepped_of_step moved),
          stepped_told before.2 before.1 (stepped_of_step moved)⟩) run
  exact both.2.justified

/-- The answer that the second of the three calls has from the first. -/
theorem shared_answer_is_justified :
    .answered 1 ⟨0, 7, mayRead⟩ (some ⟨⟨5, 7, mayRead⟩, 0⟩) none ∈ sharedEvents ∧
      Always Justified sharedEvents := by
  obtain ⟨s, ran, -⟩ := shared_replays
  have run := History.HistoryRun.replay sharedMoves History.HistoryRun.refl ran
  exact ⟨by decide, answers_are_justified run⟩

end Nfs4Compound.Access
