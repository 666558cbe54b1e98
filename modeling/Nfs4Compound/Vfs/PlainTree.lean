/-
Module: Nfs4Compound.Vfs.PlainTree
Layer: Vfs
Purpose: What a path means on a tree of directories and regular files: the cached names first, then a
  server that looks one name up after the other.  The walks of `fs/namei.c`, through chains or by single
  components, are compared with this meaning.
Imports: Nfs4Compound.Vfs.CurrentTree
Trusted boundary: the server executes the lookups of a compound in order and stops at the first that fails
Main exports: Serves, Candid, Plain, Env.oneByOne, Typed, resolve, checkDirectory, outcome, Agrees, lookups
-/
import Nfs4Compound.Vfs.CurrentTree

namespace Nfs4Compound.Vfs

/-! ### The server -/

/-- A lookup of a name in a directory, on the server. -/
abbrev Lookup := Ino → Name → Except Errno Ino

/-- What a single lookup brings back. -/
def singleReply : Except Errno Ino → LookupReply
  | .ok inode => .found inode
  | .error error => .status error

/-- The status of a compound of lookups. -/
def compoundStatus : Except Errno Ino → Option Errno
  | .ok _ => none
  | .error error => some error

/-- The names of one compound: at most as many as `walk_chain` queues, and none too long for the mount. -/
structure Sendable (env : Env) (names : List Name) : Prop where
  some : names ≠ []
  limit : names.length ≤ chainLimit
  short : ∀ name ∈ names, name.length ≤ env.namelen

/-- A server with a fixed tree: each lookup of a chain starts where the one before it has got, and the
    first that fails ends the compound.  Slots behind that one may hold anything. -/
structure Serves (env : Env) (serve : Lookup) : Prop where
  single : ∀ t dir name, name.length ≤ env.namelen → env.lookupRpc t dir name = singleReply (serve dir name)
  status : ∀ t dir names, Sendable env names →
    (env.chainRpc t dir names).status = compoundStatus (names.foldlM serve dir)
  slot : ∀ t dir names k inode, Sendable env names → k < names.length →
    (names.take (k + 1)).foldlM serve dir = .ok inode → (env.chainRpc t dir names).slot k = some inode
  files : ∀ inode name, env.kind inode ≠ .directory → serve inode name = .error .ENOTDIR

/-! ### The client -/

/-- Directories and regular files without mounts; cached names are accepted, memory suffices, and no
    inode has a dentry elsewhere. -/
structure Plain (env : Env) : Prop where
  kinds : ∀ inode, env.kind inode = .directory ∨ env.kind inode = .regular
  alive : ∀ inode, env.deadDir inode = false
  valid : ∀ t d, env.revalidate t d = .valid
  weaklyValid : ∀ t d, env.weakRevalidate t d = .valid
  dentries : ∀ t, env.dAlloc t = true
  entries : ∀ t, env.kmalloc t = true
  handles : ∀ t, env.allocateHandles t = .done
  unaliased : ∀ t d inode, env.materialise t d inode = .null
  unmounted : ∀ d, env.mountpoint d = false

/-- The same client without chain lookups. -/
def Env.oneByOne (env : Env) : Env := { env with chainLookup := fun _ => false }

/-- Every dentry has the type of its inode, but temporary ones, which have none. -/
def Typed (env : Env) (h : Heap) : Prop :=
  ∀ d, h.type d = dFlagsForInode env (h.inode d) ∨ h.type d = .chainTemp ∧ h.inode d = none

/-! ### The meaning of a path -/

/-- Where the names lead from a dentry: as long as they are cached the dcache answers, then the server. -/
def resolve (env : Env) (serve : Lookup) (h : Heap) : DentryId → List Name → Except Errno Ino
  | d, [] =>
      match h.inode d with
      | some inode => .ok inode
      | none => .error .ENOENT
  | d, name :: rest =>
      match h.inode d with
      | none => .error .ENOENT
      | some inode =>
          if env.kind inode = .directory then
            match h.hash d name with
            | some child => resolve env serve h child rest
            | none => (name :: rest).foldlM serve inode
          else
            .error .ENOTDIR

/-- The check for a directory at the end of a lookup. -/
def checkDirectory (env : Env) (directory : Bool) : Except Errno Ino → Except Errno Ino
  | .ok inode => if directory ∧ env.kind inode ≠ .directory then .error .ENOTDIR else .ok inode
  | .error error => .error error

/-- The outcome of a walk: the inode of the place it has come to, or an error. -/
def outcome (x : Walk Status) (w : World) : Option (Except Errno Ino) :=
  match (x w).result with
  | .ok .done => (x w).state.heap.inode (x w).state.nd.path.dentry |>.map .ok
  | .ok (.fail error) => some (.error error)
  | _ => none

/-! ### Lookups -/

/-- A component the two ways of walking can be compared on: no dots, and not too long for the mount. -/
def Ordinary (env : Env) (q : Qstr) : Prop := q.type = .norm ∧ q.text.length ≤ env.namelen

/-- Only a directory will do: the caller says so, or the last component has a slash behind it. -/
def wantsDirectory (name : List UInt8) (flags : LookupFlags) : Bool :=
  match (components name).getLast? with
  | some last => flags.directory || last.slashAfter
  | none => flags.directory

/-- Where a lookup may start: at directories, or at the file that is open or given as the root. -/
structure Rooted (env : Env) (dfd : Option Nat) (flags : LookupFlags) (w : World) : Prop where
  fsRoot : ∃ inode, w.heap.inode env.fsRoot.dentry = some inode ∧ env.kind inode = .directory
  fsPwd : ∃ inode, w.heap.inode env.fsPwd.dentry = some inode ∧ env.kind inode = .directory
  files : ∀ fd path, dfd = some fd → env.file fd = some path → ∃ inode, w.heap.inode path.dentry = some inode
  given : flags.root = true → ∃ root inode, w.nd.root = some root ∧ w.heap.inode root.dentry = some inode

/-! ### What the dcache knows -/

/-- What cached names may say: of a directory and a name, the inode or that there is none. -/
abbrev Known := Ino → Name → Option Ino → Prop

/-- The names cached below a dentry with an inode say what they may. -/
def Knows (known : Known) (h : Heap) : Prop :=
  ∀ d name child dir, h.hash d name = some child → h.inode d = some dir → known dir name (h.inode child)

/-- What the server says. -/
def told (serve : Lookup) : Known := fun dir name found =>
  serve dir name =
    match found with
    | some inode => .ok inode
    | none => .error .ENOENT

/-- The dcache agrees with the server. -/
abbrev Agrees (serve : Lookup) (h : Heap) : Prop := Knows (told serve) h

/-- The slots of a chain, from one index on, say what cached names may. -/
def KnownFrom (known : Known) (slot : Nat → Option Ino) : Nat → Option Ino → List Name → Prop
  | _, _, [] => True
  | index, parent, name :: rest =>
      (∀ dir, parent = some dir → known dir name (slot index)) ∧
        KnownFrom known slot (index + 1) (slot index) rest

/-- A server that hides nothing: it refuses no lookup with an error after which the client fills the
    slots all the same, and the slots from the first missing name on are empty. -/
structure Candid (env : Env) (serve : Lookup) : Prop extends Serves env serve where
  refuses : ∀ dir name error, serve dir name = .error error → error ≠ .EACCES ∧ error ≠ .ELOOP
  empty : ∀ t dir names k error, Sendable env names → k < names.length →
    (names.take (k + 1)).foldlM serve dir = .error error → (env.chainRpc t dir names).slot k = none

/-! ### Lookups one after the other -/

/-- A path to look up. -/
structure Request where
  name : List UInt8
  flags : LookupFlags

/-- The task's root and working directory are directories on the server. -/
structure Stands (env : Env) (root pwd : Ino) (h : Heap) : Prop where
  fsRoot : h.inode env.fsRoot.dentry = some root
  fsPwd : h.inode env.fsPwd.dentry = some pwd
  rootDirectory : env.kind root = .directory
  pwdDirectory : env.kind pwd = .directory

/-- A path that is looked up whole, from the root or the working directory of the task. -/
structure Request.Ordinary (env : Env) (request : Request) : Prop where
  whole : request.flags.parent = false
  own : request.flags.root = false
  names : ∀ q ∈ components request.name, Vfs.Ordinary env q

/-- What the tree on the server has under a path. -/
def treeLookup (env : Env) (serve : Lookup) (root pwd : Ino) (request : Request) : Except Errno Ino :=
  checkDirectory env (wantsDirectory request.name request.flags)
    ((pathNames request.name).foldlM serve (if request.name.head? = some slash then root else pwd))

/-- The outcomes of lookups one after the other, each on the dcache the one before it has left. -/
def lookups (env : Env) (fuel : Nat) : List Request → World → List (Option (Except Errno Ino))
  | [], _ => []
  | request :: rest, w =>
      let lookup := pathLookupat env fuel none request.name request.flags
      outcome lookup w :: lookups env fuel rest (lookup w).state

end Nfs4Compound.Vfs
