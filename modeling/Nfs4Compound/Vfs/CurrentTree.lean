/-
Module: Nfs4Compound.Vfs.CurrentTree
Layer: Vfs
Purpose: A server whose tree changes while a walk goes on, what it means that a walk resolves every name
  to an object the server has bound to it meanwhile, and the steps of a walk on which that rests.
Imports: Nfs4Compound.Vfs.ChainAnswers
Trusted boundary: an answer to a LOOKUP, alone or in a chain, is what the server binds to the name at
  some moment before the answer; a mount point and the root of a mount have inodes
Main exports: Bindings, Bound, AnswersFrom, MountsSound, Covers, Trail, LinkFree, Current,
  SeesCurrentTree
-/
import Nfs4Compound.Vfs.ChainAnswers

namespace Nfs4Compound.Vfs

/-- `binds t dir name inode`: at some moment while the walk waits for the answer to its question number
    `t`, the server binds `name` in `dir` to the object `inode`. -/
abbrev Bindings := Nat → Ino → Name → Ino → Prop

/-- The names are bound one below the other while question `t` is answered. -/
def Bound (binds : Bindings) (t : Nat) : Ino → List Name → List Ino → Prop
  | _, [], [] => True
  | dir, name :: names, object :: objects => binds t dir name object ∧ Bound binds t object names objects
  | _, _, _ => False

/-- The server answers from its tree.  A chain whose status is 0 was followed to its end, and a slot that
    `nfs_fhget` makes an inode of holds the object. -/
structure AnswersFrom (env : Env) (binds : Bindings) : Prop where
  lookup : ∀ t dir name inode, env.lookupRpc t dir name = .found inode → binds t dir name inode
  chain : ∀ t dir names, (env.chainRpc t dir names).status = none →
    ∃ objects, Bound binds t dir names objects ∧
      ∀ k inode, (env.chainRpc t dir names).slot k = some inode → k < names.length →
        objects[k]? = some inode

/-- Mount points and the roots of mounts are dentries with an inode. -/
structure MountsSound (env : Env) (h : Heap) : Prop where
  points : ∀ d, env.mountpoint d = true → ∃ inode, h.inode d = some inode
  roots : ∀ mount, ∃ inode, h.inode (env.mount mount).root = some inode

/-- `mounted` is the root of what is mounted on a dentry of `covered`. -/
def Covers (env : Env) (h : Heap) (covered mounted : Ino) : Prop :=
  ∃ path mount, env.mountpoint path.dentry = true ∧ env.lookupMnt path = some mount ∧
    h.inode path.dentry = some covered ∧ h.inode (env.mount mount).root = some mounted

/-- A way from `start` along the names, every one of which the server has bound to the next object while
    one of the questions `first` to `last` was answered; where something is mounted on an object, the way
    may go on there. -/
inductive Trail (binds : Bindings) (covers : Ino → Ino → Prop) (first last : Nat) (start : Ino) :
    List Name → Ino → Prop where
  | here : Trail binds covers first last start [] start
  | name {names dir name object t} (before : Trail binds covers first last start names dir)
      (since : first ≤ t) (till : t ≤ last) (bound : binds t dir name object) :
      Trail binds covers first last start (names ++ [name]) object
  | cross {names covered mounted} (before : Trail binds covers first last start names covered)
      (crossed : covers covered mounted) : Trail binds covers first last start names mounted

/-- No symlink is followed. -/
def LinkFree : Event → Prop
  | .symlink _ _ => False
  | _ => True

/-- A step on which a walk sees the current tree: a dentry with an inode is taken from the dcache only if
    the server binds its name to that inode now; the inodes of a chain that was followed to its end all go
    into the dentries of the chain; and chain lookups go on behind a mount point. -/
def Current (env : Env) (binds : Bindings) : Event → Prop
  | .accept base d w => ∀ dir inode, w.heap.inode base = some dir → w.heap.inode d = some inode →
      binds w.heap.tick dir (w.heap.dentry d).name inode
  | .answered reply w => reply.status = none → InPlace env reply.slot w.nd.dchainList w.heap.tick
  | event => crossesAlike env event

/-- The components of a path name as names. -/
def pathNames (name : List UInt8) : List Name := (components name).map Qstr.text

/-- The names a lookup resolves; `LOOKUP_PARENT` leaves the last one to the caller. -/
def lookedUpNames (flags : LookupFlags) (name : List UInt8) : List Name :=
  if flags.parent then (pathNames name).dropLast else pathNames name

/-- The call ends at an object to which there is a trail, of moments of the call, from where it starts.
    Only a call with `LOOKUP_PARENT` may leave names pending that it has not resolved. -/
structure SeesCurrentTree (env : Env) (binds : Bindings) (start : Ino) (flags : LookupFlags)
    (name : List UInt8) (w w' : World) : Prop where
  complete : flags.parent = false → w'.nd.dchainList = []
  trail : ∃ resolved object, lookedUpNames flags name = resolved ++ w'.nd.dchainList.map (·.name.text) ∧
    w'.heap.inode w'.nd.path.dentry = some object ∧
      Trail binds (Covers env w'.heap) w.heap.tick w'.heap.tick start resolved object

end Nfs4Compound.Vfs
