/-
Module: Nfs4Compound.Attr.Cache
Layer: Attr
Purpose: The attributes the client keeps of an inode, when it takes them for current, and what brings
  new ones: `nfs_need_revalidate_inode`, `nfs_update_inode` and `nfs_getattr` of `fs/nfs/inode.c`, and
  `nfs4_lookup_revalidate` of `fs/nfs/dir.c`.
Imports: Nfs4Compound.Vfs.Dcache
Trusted boundary: a reply carries all attributes and is stored at the moment the server gives it, so
  that `nfs_inode_attrs_need_update` accepts it; jiffies do not wrap
Main exports: NfsInode, nfsNeedRevalidateInode, nfsUpdateInode, Client, nfsGetattr,
  nfs4LookupRevalidate
-/
import Nfs4Compound.Vfs.Dcache

namespace Nfs4Compound.Attr

open Vfs (Ino Name DentryId Errno Heap Env)

/-- What `struct nfs_inode` keeps of the attributes: the attributes themselves, the moment at which the
    server gave them, the flags of `cache_validity` that say not to trust them, and their timeout. -/
structure NfsInode (α : Type) where
  attrs : α
  fetched : Nat
  invalidAttr : Bool
  invalidLabel : Bool
  revalForced : Bool
  /-- There is a read delegation for the file. -/
  delegated : Bool
  readCacheJiffies : Nat
  attrtimeo : Nat
  attrtimeoTimestamp : Nat
deriving DecidableEq, Repr

section Inode

variable {α : Type}

/-- `time_in_range_open(now, start, start + length)`. -/
def timeInRangeOpen (now start length : Nat) : Bool := start ≤ now && now < start + length

def nfsAttributeTimeout (jiffies : Nat) (inode : NfsInode α) : Bool :=
  !timeInRangeOpen jiffies inode.readCacheJiffies inode.attrtimeo

def nfsHaveDelegatedAttributes (inode : NfsInode α) : Bool := inode.delegated && !inode.revalForced

def nfsAttributeCacheExpired (jiffies : Nat) (inode : NfsInode α) : Bool :=
  !nfsHaveDelegatedAttributes inode && nfsAttributeTimeout jiffies inode

def nfsNeedRevalidateInode (jiffies : Nat) (inode : NfsInode α) : Bool :=
  inode.invalidAttr || inode.invalidLabel || nfsAttributeCacheExpired jiffies inode

/-- `nfs_update_inode`: new attributes, at the moment `now`.  The timeout starts over when they differ
    from the old ones, and is doubled when they have stayed the same for as long. -/
def nfsUpdateInode [DecidableEq α] (jiffies now minTimeo maxTimeo : Nat) (attrs : α)
    (inode : NfsInode α) : NfsInode α :=
  let unstable := attrs ≠ inode.attrs
  let settled := ¬timeInRangeOpen jiffies inode.attrtimeoTimestamp inode.attrtimeo
  { inode with
    attrs := attrs
    fetched := now
    invalidAttr := false
    revalForced := false
    readCacheJiffies := jiffies
    attrtimeo :=
      if unstable then minTimeo
      else if settled then min (2 * inode.attrtimeo) maxTimeo else inode.attrtimeo
    attrtimeoTimestamp := if unstable ∨ settled then jiffies else inode.attrtimeoTimestamp }

end Inode

/-! ### The client and its server -/

/-- The attributes on the server and in the client.  `now` counts the moments; nothing has been
    fetched in the future. -/
structure Client (α : Type) where
  heap : Heap
  jiffies : Nat
  now : Nat
  inode : Ino → NfsInode α
  server : Ino → α
  minTimeo : Ino → Nat
  maxTimeo : Ino → Nat
  past : ∀ i, (inode i).fetched ≤ now ∧ (inode i).readCacheJiffies ≤ jiffies

/-- What can happen on the client and on the server between two steps of a call. -/
inductive Happening (α : Type) where
  /-- The object changes on the server. -/
  | change (inode : Ino) (attrs : α)
  | clock (ticks : Nat)
  /-- A reply brings the attributes, and possibly a delegation, to the client. -/
  | refresh (inode : Ino) (delegated : Bool)
  /-- `NFS_INO_INVALID_ATTR` is set, or `NFS_INO_INVALID_LABEL`. -/
  | invalidate (inode : Ino) (label : Bool)
  /-- `NFS_INO_REVAL_FORCED` is set, or the delegation is returned. -/
  | undelegate (inode : Ino)
  /-- The dcache changes. -/
  | dcache (heap : Heap)

namespace Client

variable {α : Type} [DecidableEq α] (s : Client α)

def needRevalidate (i : Ino) : Bool := nfsNeedRevalidateInode s.jiffies (s.inode i)

/-- The moment after this one, with the same attributes on the client. -/
def tick : Client α :=
  { s with
    now := s.now + 1
    past := fun i => ⟨Nat.le_succ_of_le (s.past i).1, (s.past i).2⟩ }

/-- A change of one inode that leaves alone when its attributes were fetched. -/
def modify (i : Ino) (f : NfsInode α → NfsInode α)
    (same : ∀ x, (f x).fetched = x.fetched ∧ (f x).readCacheJiffies = x.readCacheJiffies) : Client α :=
  { s with
    inode := Function.update s.inode i (f (s.inode i))
    past := fun j => by
      by_cases here : j = i
      · subst here
        rw [Function.update_self, (same _).1, (same _).2]
        exact s.past j
      · rw [Function.update_of_ne here]
        exact s.past j }

/-- `nfs_refresh_inode` of the attributes the server gives now. -/
def refresh (i : Ino) : Client α :=
  { s with
    now := s.now + 1
    inode := Function.update s.inode i
      (nfsUpdateInode s.jiffies (s.now + 1) (s.minTimeo i) (s.maxTimeo i) (s.server i) (s.inode i))
    past := fun j => by
      by_cases here : j = i
      · subst here
        rw [Function.update_self]
        exact ⟨Nat.le_refl _, Nat.le_refl _⟩
      · rw [Function.update_of_ne here]
        exact ⟨Nat.le_succ_of_le (s.past j).1, (s.past j).2⟩ }

/-- One thing happens. -/
def happen : Happening α → Client α
  | .change i attrs => { s.tick with server := Function.update s.server i attrs }
  | .clock ticks =>
      { s.tick with
        jiffies := s.jiffies + ticks
        past := fun i => ⟨(s.tick.past i).1, Nat.le_add_right_of_le (s.past i).2⟩ }
  | .refresh i delegated => (s.refresh i).modify i ({ · with delegated }) fun _ => ⟨rfl, rfl⟩
  | .invalidate i label =>
      s.tick.modify i
        (fun x => if label then { x with invalidLabel := true } else { x with invalidAttr := true })
        fun x => by cases label <;> exact ⟨rfl, rfl⟩
  | .undelegate i => s.tick.modify i ({ · with delegated := false }) fun _ => ⟨rfl, rfl⟩
  | .dcache heap => { s.tick with heap }

/-- One thing after the other. -/
def happenAll (happenings : List (Happening α)) : Client α :=
  happenings.foldl happen s

end Client

/-! ### The functions of the source -/

/-- `nfs4_lookup_revalidate`: what the flags of the walk say is not looked at for a dentry with an
    inode; `negativeStale` is `nfs_neg_need_reval`. -/
def nfs4LookupRevalidate {α : Type} (s : Client α) (negativeStale : DentryId → Bool) (d : DentryId) :
    Vfs.Revalidation :=
  match s.heap.inode d with
  | none => if negativeStale d then .stale else .valid
  | some inode => if s.needRevalidate inode then .stale else .valid

/-- `nfs_getattr`: the data of a regular file is written back first; what is returned is what the
    client has. -/
def nfsGetattr {α : Type} (kind : Ino → Vfs.Kind) (flush : Option Errno) (s : Client α) (inode : Ino) :
    Except Errno (NfsInode α) :=
  match flush with
  | some error => if kind inode = .regular then .error error else .ok (s.inode inode)
  | none => .ok (s.inode inode)

end Nfs4Compound.Attr
