/-
Module: Nfs4Compound.Attr.Stat
Layer: Attr
Purpose: A `stat` or `fstat` call, from where it reaches an inode to `nfs_getattr`, with everything
  else that happens meanwhile; and what it means that the attributes it returns are fresh.
Imports: Nfs4Compound.Attr.Cache
Trusted boundary: the components before the last one are among the things that happen
Main exports: Route, StatCall, StatCall.run, FreshStat, AsksServer, Refetched
-/
import Nfs4Compound.Attr.Cache

namespace Nfs4Compound.Attr

open Vfs (Ino Name DentryId Errno Heap Env lookupDcache)

/-- How a call reaches an inode: by a name that is looked up in a directory, or because it is there
    already, as `.`, as the root of a mount, or as an open file. -/
inductive Route where
  | name (base : DentryId) (name : Name)
  | place (inode : Ino)
deriving DecidableEq, Repr

/-- A call, and what happens before it comes to its last component, while that one is looked up, and
    until the attributes are copied. -/
structure StatCall (α : Type) where
  env : Env
  negativeStale : DentryId → Bool
  route : Route
  before : List (Happening α)
  between : List (Happening α)
  behind : List (Happening α)
  /-- The reply to the lookup, as `nfs_fhget` sees it. -/
  reply : Except Errno Ino
  /-- `filemap_write_and_wait`. -/
  flush : Option Errno

namespace StatCall

variable {α : Type} [DecidableEq α] (call : StatCall α)

/-- The surroundings of the last component: dentries are revalidated by `nfs4_lookup_revalidate`. -/
def envAt (s : Client α) : Env :=
  { call.env with revalidate := fun _ => nfs4LookupRevalidate s call.negativeStale }

/-- The end of the walk: the last component is cached, or is looked up on the server, which brings its
    attributes. -/
def walk (s : Client α) : Except Errno Ino × Client α :=
  match call.route with
  | .place inode => (.ok inode, s.happenAll call.between)
  | .name base name =>
      let (found, heap) := lookupDcache (call.envAt s) name base s.heap
      let s := Client.happenAll { s with heap } call.between
      match found with
      | .error error => (.error error, s)
      | .ok (dentry, false) =>
          match heap.inode dentry with
          | none => (.error .ENOENT, s)
          | some inode => (.ok inode, s)
      | .ok (_, true) =>
          match call.reply with
          | .error error => (.error error, s)
          | .ok inode => (.ok inode, s.refresh inode)

/-- The whole call: the inode it is about, and the attributes it returns. -/
def run (s : Client α) : Except Errno (Ino × NfsInode α) :=
  match call.walk (s.happenAll call.before) with
  | (.error error, _) => .error error
  | (.ok inode, s) =>
      (nfsGetattr call.env.kind call.flush (s.happenAll call.behind) inode).map fun copy => (inode, copy)

/-- Everything that happens during the call. -/
def happenings : List (Happening α) := call.before ++ call.between ++ call.behind

end StatCall

variable {α : Type}

/-- Some reply brings the attributes of the inode. -/
def Refreshes (inode : Ino) (events : List (Happening α)) : Prop :=
  ∃ delegated, Happening.refresh inode delegated ∈ events

variable [DecidableEq α]

/-- Attributes that have to be revalidated when the call starts are returned only after they were
    fetched anew. -/
def FreshStat (call : StatCall α) (s : Client α) : Prop :=
  ∀ inode copy, call.run s = .ok (inode, copy) → s.needRevalidate inode = true → s.now < copy.fetched

/-- The call comes to its inode by a name that is not hashed when the walk comes to it, or whose dentry
    is a temporary one, or one that `d_invalidate` drops. -/
def AsksServer (call : StatCall α) (s : Client α) : Prop :=
  ∃ base name, call.route = .name base name ∧
    let heap := (s.happenAll call.before).heap
    ∀ dentry, heap.hash base name = some dentry →
      heap.dIsChainTemp dentry = true ∨ call.env.invalidate (heap.tick + 1) dentry = true

/-- For an inode whose attributes have to be revalidated, the call asks the server itself, or a reply
    to somebody else brings the attributes while it runs. -/
def Refetched (call : StatCall α) (s : Client α) : Prop :=
  ∀ inode copy, call.run s = .ok (inode, copy) → s.needRevalidate inode = true →
    AsksServer call s ∨ Refreshes inode call.happenings

end Nfs4Compound.Attr
