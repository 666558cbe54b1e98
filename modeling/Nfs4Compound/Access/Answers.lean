/-
Module: Nfs4Compound.Access.Answers
Layer: Access
Purpose: What the answers of `nfs_do_access` stand for, told by the events alone: which entry of the cache
  is current, and what the server has said.
Imports: Nfs4Compound.Access.Calls
Trusted boundary: none
Main exports: Pending, Trusts, Credible, Justified, Point.ask, Point.adding
-/
import Nfs4Compound.Access.Calls

namespace Nfs4Compound.Access

open History (Since)

/-- The cache of the inode has been marked invalid and not been emptied since. -/
def Pending (i : Nat) (history : List Event) : Prop :=
  Since (· ≠ .zapped i) (fun _ event => event = .invalidated i) history

/-- An event that does not speak against an entry of the cache of the inode: the cache is not marked
    invalid, not emptied, and no newer entry comes in for the same user. -/
def Trusts (i : Nat) (cache : AccessEntry) (event : Event) : Prop :=
  event ≠ .invalidated i ∧ event ≠ .zapped i ∧ ∀ other, event = .inserted i other → other.cred ≠ cache.cred

/-- At some moment during the call the entry was what the cache of the inode had to say: nothing had
    spoken against it since it came in, and it came in while nothing was pending, or during the call. -/
def Credible (call : Nat) (ask : Ask) (cache : AccessEntry) (history : List Event) : Prop :=
  ∃ before after, history = before ++ after ∧ .began call ask ∈ before ∧
    Since (Trusts ask.inode cache)
      (fun earlier event => event = .inserted ask.inode cache ∧
        (¬Pending ask.inode earlier ∨ .began call ask ∈ earlier)) before

/-- The status for the rights of an ACCESS result. -/
def statusOf (ask : Ask) (access : Mask) : Option Vfs.Errno :=
  if granted ask.mask (mayRead ||| mayWrite ||| mayExec) (nfsAccessSetMask access) then none
  else some .EACCES

/-- What must have happened before an event.  An entry comes from a reply of the server about this inode
    and this user.  An answer from the cache gives the rights of such a reply, and the entry was current
    at some moment of the call.  An answer that permits without the cache gives the rights of a reply that
    came during the call. -/
def Justified (earlier : List Event) : Event → Prop
  | .inserted i cache =>
      ∃ access, .replied i cache.cred access ∈ earlier ∧ cache.mask = nfsAccessSetMask access
  | .answered call ask (some cache) status =>
      Credible call ask cache earlier ∧ cache.cred = ask.cred ∧
        ∃ access, .replied ask.inode ask.cred access ∈ earlier ∧
          cache.mask = nfsAccessSetMask access ∧ status = statusOf ask access
  | .answered call ask none none =>
      ∃ before after access, earlier = before ++ after ∧ .began call ask ∈ before ∧
        .replied ask.inode ask.cred access ∈ after ∧ statusOf ask access = none
  | _ => True

/-- The inode to whose cache an event has happened. -/
def Event.about : Event → Option Nat
  | .inserted i _ => some i
  | .invalidated i => some i
  | .zapped i => some i
  | _ => none

/-! ### Where a call is with its question -/

/-- The question of a call of `nfs_do_access`. -/
def Point.ask : Point → Option Ask
  | .validity ask => some ask
  | .prev ask => some ask
  | .compare ask _ => some ask
  | .search ask => some ask
  | .outStale ask _ => some ask
  | .missed ask => some ask
  | .access ask _ => some ask
  | .zapCaches ask => some ask
  | .zapTest _ ask => ask
  | .zapLru _ ask => ask
  | .zapInode _ ask => ask
  | .zapEntries _ ask _ => ask
  | .zapFree ask _ => ask
  | _ => none

/-- What a call of `nfs_access_add_cache` has been given. -/
def Point.adding : Point → Option (Nat × Rights × Caller)
  | .add i set caller => some (i, set, caller)
  | .found i set caller _ => some (i, set, caller)
  | .account i set caller => some (i, set, caller)
  | .addTest i set caller => some (i, set, caller)
  | .addLru i set caller => some (i, set, caller)
  | _ => none

end Nfs4Compound.Access
