/-
Module: Nfs4Compound.Vfs.PathWalk
Layer: Vfs
Purpose: Whole pathnames: the text cut into components, `link_path_walk`, the following of symlinks,
  and `path_lookupat`, of `fs/namei.c`.  The nesting of link texts is the recursion of
  `nested_symlink`; the loops that the source bounds by a counter or not at all take fuel.
Imports: Nfs4Compound.Vfs.Chain
Trusted boundary: no security module refuses to follow a link; `d_hash` is not set on NFS dentries
Main exports: components, linkPathWalk, followLink, nestedSymlink, pathInit, lookupLast, pathLookupat
-/
import Nfs4Compound.Vfs.Chain

namespace Nfs4Compound.Vfs

/-! ### The text of a path -/

def slash : UInt8 := 47

def period : UInt8 := 46

/-- The components of a text; `atStart` is false inside a component that has already been counted. -/
def componentsFrom : Bool → List UInt8 → List Qstr
  | _, [] => []
  | atStart, c :: rest =>
      if c = slash then componentsFrom true rest
      else if atStart then
        ⟨c :: rest, ((c :: rest).takeWhile (· ≠ slash)).length⟩ :: componentsFrom false rest
      else componentsFrom false rest

/-- The components of a path name, in the order in which `link_path_walk` meets them. -/
def components (name : List UInt8) : List Qstr := componentsFrom true name

/-- The type `link_path_walk` gives a component. -/
def Qstr.type (q : Qstr) : LastType :=
  if q.text = [period] then .dot
  else if q.text = [period, period] then .dotdot
  else .norm

/-! ### Walking the components of one text -/

/-- The component becomes `nd->last`; `LOOKUP_JUMPED` is set by `..` and cleared by a name. -/
def setLast (this : Qstr) : Walk Unit :=
  modifyNd fun nd =>
    { nd with
      last := this
      lastType := this.type
      flags := { nd.flags with
        jumped := match this.type with
          | .dotdot => true
          | .norm => false
          | _ => nd.flags.jumped } }

/-- The walk that `setLast` leaves. -/
def Nameidata.withLast (nd : Nameidata) (this : Qstr) : Nameidata :=
  { nd with
    last := this
    lastType := this.type
    flags := { nd.flags with
      jumped := match this.type with
        | .dotdot => true
        | .norm => false
        | _ => nd.flags.jumped } }

/-- The directory offers chain lookups and the walk may use them. -/
def chainable (env : Env) (flags : LookupFlags) : Option Ino → Bool
  | none => false
  | some inode => env.chainLookup inode && !flags.automount

/-- One component that is not the last one. -/
def walkStep (env : Env) : Walk Status := do
  let nd ← getNd
  if chainable env nd.flags nd.inode then walkChain env true else walkComponent env true

/-- `link_path_walk`: all components but the last, which is left in `nd->last`.  `nested` follows a
    symlink found on the way. -/
def linkPathWalk (env : Env) (nested : Path → Walk Status) : List Qstr → Walk Status
  | [] => return .done
  | [this] => do
      setLast this
      return .done
  | this :: next :: rest => do
      setLast this
      let status ← match ← walkStep env with
        | .link path => nested path
        | .chainLink path => nested path
        | other => pure other
      match status with
      | .done =>
          if (← getHeap).dCanLookup (← getNd).path.dentry then
            linkPathWalk env nested (next :: rest)
          else
            terminateWalk
            return .fail .ENOTDIR
      | other => return other

/-- The rest of a round of `link_path_walk`, after a component or a followed link. -/
def linkPathWalkOn (env : Env) (nested : Path → Walk Status) (rest : List Qstr) : Status → Walk Status
  | .done => do
      if (← getHeap).dCanLookup (← getNd).path.dentry then
        linkPathWalk env nested rest
      else
        terminateWalk
        return .fail .ENOTDIR
  | other => return other

/-! ### Symlinks -/

def maxNestedLinks : Nat := 8

/-- The number of links one walk follows at most. -/
def maxTotalLinks : Nat := 40

/-- `put_link`. -/
def putLink (link : Path) : Walk Unit := do
  let _ ← derefInode link.dentry
  pathPut link

/-- `__vfs_follow_link`: an absolute text starts at the root; an error pointer for a text releases where
    the walk is. -/
def vfsFollowLink (env : Env) (walk : List Qstr → Walk Status) :
    Except Errno (List UInt8) → Walk Status
  | .error error => do
      pathPut (← getNd).path
      return .fail error
  | .ok text => do
      if text.head? = some slash then
        setRoot env
        pathPut (← getNd).path
        match (← getNd).root with
        | none => Prog.fault .nullDeref
        | some root =>
            modifyNd fun nd => { nd with path := root, flags := { nd.flags with jumped := true } }
            pathGet root
      let inode := (← getHeap).inode (← getNd).path.dentry
      modifyNd fun nd => { nd with inode := inode }
      walk (components text)

/-- The flush in `follow_link` of a chain built from the text of a link; its result is not looked at,
    but a symlink it reports takes the place of `link`. -/
def flushLinkText (env : Env) (link : Path) : Walk Path := do
  let nd ← getNd
  if chainable env nd.flags nd.inode ∧ nd.chainSize ≠ 0 then
    observe (.flush .followLink)
    match ← chainLookup env with
    | .link path => return path
    | .chainLink path => return path
    | _ => return link
  else
    return link

/-- `follow_link`: walk the text of a link up to its last component.  Returns the link to put. -/
def followLink (env : Env) (walk : List Qstr → Walk Status) (link : Path) :
    Walk (Except Errno Path) := do
  observe (.symlink link)
  if maxTotalLinks ≤ (← Prog.read).totalLinkCount then
    pathPut (← getNd).path
    pathPut link
    return .error .ELOOP
  else
    Prog.update fun w => { w with totalLinkCount := w.totalLinkCount + 1 }
    modifyNd fun nd => { nd with lastType := .bind }
    let inode ← derefInode link.dentry
    match ← dcache (ask (env.readlink · inode)) with
    | .error error =>
        pathPut (← getNd).path
        pathPut link
        return .error error
    | .ok stored =>
        let status ← vfsFollowLink env walk stored
        let link ← flushLinkText env link
        match status with
        | .fail error =>
            putLink link
            return .error error
        | _ => return .ok link

/-- The loop of `nested_symlink`: follow the link, step to the last component of its text, and go on
    if that is a link again. -/
def nestedLoop (env : Env) (walk : List Qstr → Walk Status) : Nat → Path → Walk Status
  | 0, _ => Prog.fault .fuel
  | fuel + 1, path => do
      match ← followLink env walk path with
      | .error error => return .fail error
      | .ok link =>
          let status ← walkComponent env true
          putLink link
          match status with
          | .link path => nestedLoop env walk fuel path
          | .chainLink path => nestedLoop env walk fuel path
          | other => return other

/-- The rest of a round of this loop, after the last component of the text. -/
def nestedLoopOn (env : Env) (walk : List Qstr → Walk Status) (fuel : Nat) : Status → Walk Status
  | .link path => nestedLoop env walk fuel path
  | .chainLink path => nestedLoop env walk fuel path
  | other => return other

/-- `nested_symlink`: a link in the middle of a path; `nest` bounds the depth of its recursion. -/
def nestedSymlink (env : Env) : Nat → Path → Walk Status
  | nest, path => do
      if maxNestedLinks ≤ (← Prog.read).linkCount then
        pathPut path
        pathPut (← getNd).path
        return .fail .ELOOP
      else if maxNestedLinks ≤ (← getNd).depth then
        Prog.fault .bugOn
      else
        match nest with
        | 0 => Prog.fault .fuel
        | nest + 1 =>
            modifyNd fun nd => { nd with depth := nd.depth + 1 }
            Prog.update fun w => { w with linkCount := w.linkCount + 1 }
            let status ←
              nestedLoop env (linkPathWalk env (nestedSymlink env nest)) (maxTotalLinks + 1) path
            Prog.update fun w => { w with linkCount := w.linkCount - 1 }
            modifyNd fun nd => { nd with depth := nd.depth - 1 }
            return status

/-- The components of a text, with every symlink in the middle followed. -/
def walkText (env : Env) : List Qstr → Walk Status :=
  linkPathWalk env (nestedSymlink env maxNestedLinks)

/-! ### Lookups -/

/-- Go to a path and take a reference to it. -/
def startAt (path : Path) : Walk Unit := do
  modifyNd fun nd => { nd with path := path }
  pathGet path

/-- The part of `path_init` that chooses where the walk starts; an error ends the walk before it
    holds a reference. -/
def pathStart (env : Env) (dfd : Option Nat) (name : List UInt8) (flags : LookupFlags) :
    Walk (Option Errno) := do
  if flags.root then
    match (← getNd).root with
    | none => Prog.fault .nullDeref
    | some root =>
        if name = [] then
          startAt root
          return none
        else if (← getHeap).dCanLookup root.dentry then
          match env.permission (← derefInode root.dentry) with
          | some error => return some error
          | none =>
              startAt root
              return none
        else
          return some .ENOTDIR
  else
    modifyNd fun nd => { nd with root := none }
    if name.head? = some slash then
      setRoot env
      startAt env.fsRoot
      return none
    else
      match dfd with
      | none =>
          startAt env.fsPwd
          return none
      | some fd =>
          match env.file fd with
          | none => return some .EBADF
          | some path =>
              if name ≠ [] ∧ ¬(← getHeap).dCanLookup path.dentry then
                return some .ENOTDIR
              else
                startAt path
                return none

/-- `path_init`.  Callers pass `LOOKUP_PARENT` in `flags`. -/
def pathInit (env : Env) (dfd : Option Nat) (name : List UInt8) (flags : LookupFlags) :
    Walk (Option Errno) := do
  modifyNd fun nd =>
    { nd with
      lastType := .root
      flags := { flags with jumped := true }
      depth := 0
      chainSize := 0
      dchainList := [] }
  let error ← pathStart env dfd name flags
  if error = none then
    let inode := (← getHeap).inode (← getNd).path.dentry
    modifyNd fun nd => { nd with inode := inode }
  observe (.returned .pathInit)
  return error

/-- `complete_walk`. -/
def completeWalk (env : Env) : Walk (Option Errno) := do
  let nd ← getNd
  if nd.flags.jumped then
    match ← dcache (ask (env.weakRevalidate · nd.path.dentry)) with
    | .valid => return none
    | .stale =>
        terminateWalk
        return some .ESTALE
    | .failed error =>
        terminateWalk
        return some error
  else
    return none

/-- `lookup_last`. -/
def lookupLast (env : Env) : Walk Status := do
  modifyNd fun nd =>
    let slashes := nd.lastType = .norm ∧ nd.last.slashAfter
    { nd with
      flags := { nd.flags with
        follow := nd.flags.follow || slashes
        directory := nd.flags.directory || slashes
        parent := false } }
  let nd ← getNd
  if chainable env nd.flags ((← getHeap).inode nd.path.dentry) then
    match ← walkChain env nd.flags.follow with
    | .done =>
        if (← getNd).chainSize = 0 then
          return .done
        else
          observe (.flush .lookupLast)
          chainLookup env
    | other => return other
  else
    walkComponent env nd.flags.follow

/-- `may_follow_link` of a link found where the walk is. -/
def mayFollowLink (env : Env) (link : Path) : Walk Bool := do
  let h ← getHeap
  if env.mayFollowLink (h.inode (← getNd).path.dentry) (h.inode link.dentry) then
    return true
  else
    pathPut link
    terminateWalk
    return false

/-- The loop of `path_lookupat` over trailing symlinks. -/
def trailingLinks (env : Env) : Nat → Path → Walk Status
  | 0, _ => Prog.fault .fuel
  | fuel + 1, path => do
      if ← mayFollowLink env path then
        modifyNd fun nd => { nd with flags := { nd.flags with parent := true } }
        match ← followLink env (walkText env) path with
        | .error error => return .fail error
        | .ok link =>
            let status ← lookupLast env
            putLink link
            match status with
            | .link path => trailingLinks env fuel path
            | .chainLink path => trailingLinks env fuel path
            | other => return other
      else
        return .fail .EACCES

/-- `path_lookupat` from the label `relookup` to the end of the walk proper: a chain that stops at a
    symlink for the last component is walked again from that symlink on. -/
def relookup (env : Env) (parentOnly : Bool) : Nat → List UInt8 → Walk Status
  | 0, _ => Prog.fault .fuel
  | fuel + 1, name => do
      match ← walkText env (components name) with
      | .done =>
          if parentOnly then
            return .done
          else
            match ← lookupLast env with
            | .chainLink path =>
                observe (.symlink path)
                observe (.restart name)
                relookup env parentOnly fuel (← getNd).last.name
            | .link path => trailingLinks env (maxTotalLinks + 1) path
            | other => return other
      | other => return other

/-- The end of `path_lookupat`: the last checks, and the reference to the root. -/
def finishLookup (env : Env) (status : Status) : Walk Status := do
  let status ← match status with
    | .done =>
        match ← completeWalk env with
        | none =>
            let nd ← getNd
            if nd.flags.directory ∧ ¬(← getHeap).dCanLookup nd.path.dentry then
              terminateWalk
              pure (.fail .ENOTDIR)
            else
              pure .done
        | some error => pure (.fail error)
    | other => pure other
  match (← getNd).root with
  | some root =>
      if (← getNd).flags.root then
        return status
      else
        pathPut root
        modifyNd fun nd => { nd with root := none }
        return status
  | none => return status

/-- The end of `path_lookupat`: the root of the walk is put, unless it was given. -/
def finishRoot (status : Status) : Walk Status := do
  match (← getNd).root with
  | some root =>
      if (← getNd).flags.root then
        return status
      else
        pathPut root
        modifyNd fun nd => { nd with root := none }
        return status
  | none => return status

/-- `path_lookupat`; the walk restarts at most `fuel` times. -/
def pathLookupat (env : Env) (fuel : Nat) (dfd : Option Nat) (name : List UInt8)
    (flags : LookupFlags) : Walk Status := do
  match ← pathInit env dfd name { flags with parent := true } with
  | some error => return .fail error
  | none =>
      Prog.update fun w => { w with totalLinkCount := 0 }
      finishLookup env (← relookup env flags.parent fuel name)

end Nfs4Compound.Vfs
