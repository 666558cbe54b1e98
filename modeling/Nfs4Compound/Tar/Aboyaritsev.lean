/-
Module: Nfs4Compound.Tar.Aboyaritsev
Layer: Tar
Purpose: Directories in the driver of aboyaritsev/merge: `find_file_by_dentry`, which compares whole
  paths, and `tarfs_readdir`, which compares the start of every path with the path of the directory and
  counts the slashes behind it.
Imports: Nfs4Compound.Tar.Drivers
Trusted boundary: memory that is read without having been written holds arbitrary junk
Main exports: isChildOfFirstLevel, tarfsReaddir, findFileByDentry, ListingMatchesLookup
-/
import Nfs4Compound.Tar.Drivers

namespace Nfs4Compound.Tar.Aboyaritsev

open CText

/-! ### Looking up a path -/

/-- How `find_file_by_dentry` ends: with the number of the file, with an error of `get_next_file`, or
    in memory that an error pointer does not point to. -/
inductive Find where
  | found (inodeNo : Nat)
  | failed
  | crashed
  | unfinished
deriving DecidableEq, Repr

/-- The loop of `find_file_by_dentry`, with `inode_no` files behind it. -/
def findLoop (device : List UInt8) (junk : Junk) (fileName : List UInt8) :
    Nat → DiskPosition → Nat → Find
  | 0, _, _ => .unfinished
  | fuel + 1, pos, inodeNo =>
      match getNextFile device junk pos with
      | .blockError => .failed
      | .tarEnd _ => .failed
      | .file name next =>
          if name = fileName then .found (inodeNo + 1)
          else findLoop device junk fileName fuel next (inodeNo + 1)

/-- `find_file_by_dentry`: the file whose path is that of the dentry without its first byte. -/
def findFileByDentry (device : List UInt8) (junk : Junk) (names : List Component) (fuel : Nat) : Find :=
  match dentryPathRaw names 100 with
  | none => .crashed
  | some path => findLoop device junk (path.drop 1) fuel initDiskPosition 0

/-! ### Listing a directory -/

/-- `is_child_of_first_level`.  The slashes are counted from the last byte of the directory on. -/
def isChildOfFirstLevel (dir subdir : List UInt8) : Bool :=
  subdir.take dir.length = dir ∧ (subdir.drop (dir.length - 1)).count slash = 1

/-- The loop of `get_last_dentry`, at the `i`-th byte. -/
def lastDentryLoop : List UInt8 → Nat → Nat → Nat
  | [], _, lastIndex => lastIndex
  | c :: rest, i, lastIndex => lastDentryLoop rest (i + 1) (if c = slash then i + 1 else lastIndex)

/-- `get_last_dentry`: where the last component of a path starts. -/
def getLastDentry (fileName : List UInt8) : Nat := lastDentryLoop fileName 0 1

/-- The memory from `open_file_name` on, after `get_next_file` has filled it from its second byte on: a
    slash, the name field, and what lies behind the array.  A trailing slash is overwritten. -/
def openFileName (junk : Junk) (pos : DiskPosition) : List UInt8 :=
  let memory := getTarField pos 0 100 ++ junk.behind
  let name := cstr memory
  slash :: if name.getLast? = some slash then memory.set (name.length - 1) 0 else memory

/-- The 100 bytes that are given to `filldir` as the name of the file at a position. -/
def emittedName (junk : Junk) (pos : DiskPosition) : List UInt8 :=
  ((openFileName junk pos).drop (getLastDentry (cstr (openFileName junk pos)))).take 100

/-- How `tarfs_readdir` ends: it returns, with the entries given to `filldir` and the new position of
    the open file, or it reads through an error pointer. -/
inductive Readdir where
  | done (entries : List (List UInt8)) (fPos : Int)
  | crashed
  | unfinished
deriving DecidableEq, Repr

/-- The loop of `tarfs_readdir`, with `file_count` files behind it.  What `filldir` returns is
    ignored. -/
def readdirLoop (device : List UInt8) (junk : Junk) (directoryName : List UInt8) :
    Nat → DiskPosition → Int → Readdir
  | 0, _, _ => .unfinished
  | fuel + 1, pos, fileCount =>
      match getNextFile device junk pos with
      | .blockError => .done [] fileCount
      | .tarEnd _ => .done [] fileCount
      | .file _ next =>
          match readdirLoop device junk directoryName fuel next (int32 (fileCount + 1)) with
          | .done entries fPos =>
              if isChildOfFirstLevel directoryName (cstr (openFileName junk next)) then
                .done (emittedName junk next :: entries) fPos
              else .done entries fPos
          | other => other

/-- `tarfs_readdir` on an open directory with the position `fPos`. -/
def tarfsReaddir (device : List UInt8) (junk : Junk) (names : List Component) (fPos : Int)
    (fuel : Nat) : Readdir :=
  if fPos ≠ 0 then .done [] fPos
  else
    match dentryPathRaw names 100 with
    | none => .crashed
    | some directoryName => readdirLoop device junk directoryName fuel initDiskPosition 0

/-! ### The files of a scan -/

/-- `get_next_file` gives these files, one after the other, and then fails. -/
inductive Files (device : List UInt8) (junk : Junk) :
    DiskPosition → List (List UInt8 × DiskPosition) → Prop where
  | stop {pos : DiskPosition} (ends : ∀ name next, getNextFile device junk pos ≠ .file name next) :
      Files device junk pos []
  | more {pos next : DiskPosition} {name : List UInt8} {rest : List (List UInt8 × DiskPosition)}
      (file : getNextFile device junk pos = .file name next) (others : Files device junk next rest) :
      Files device junk pos ((name, next) :: rest)

/-- The entries that the loop of `tarfs_readdir` gives to `filldir`. -/
def emittedIn (junk : Junk) (directoryName : List UInt8) (files : List (List UInt8 × DiskPosition)) :
    List (List UInt8) :=
  (files.filter fun file => isChildOfFirstLevel directoryName (cstr (openFileName junk file.2))).map
    fun file => emittedName junk file.2

/-! ### When they agree -/

/-- The listing of a directory has an entry of this name exactly when the path of the name in the
    directory is found. -/
def ListingMatchesLookup (members : List Member) (behind : List UInt8) (junk : Junk)
    (names : List Component) (c : Component) : Prop :=
  ∃ enough, ∀ fuel, enough ≤ fuel →
    ∃ entries fPos,
      tarfsReaddir (image members behind) junk names 0 fuel = .done entries fPos ∧
        ((∃ entry ∈ entries, cstr entry = c.name) ↔
          ∃ number, findFileByDentry (image members behind) junk (names ++ [c]) fuel = .found number)

/-- The members whose block numbers are of type `int`; the scan ends before any other. -/
def inReach (members : List Member) : List Member :=
  (members.zipIdx.filter fun entry => offset members entry.2 < 1099511627776).map Prod.fst

/-- A member in a directory whose name only begins with the name of this one is listed as `c`. -/
def Mistaken (members : List Member) (names : List Component) (c : Component) : Prop :=
  ∃ m ∈ inReach members, ∃ more, more ≠ [] ∧ slash ∉ more ∧
    slash :: dropSlash m.name = pathOf names ++ (more ++ slash :: c.name)

/-- The listing is right about `c`: the directory is the root, or there is such a file in it, or no
    other directory's file is mistaken for it. -/
def ListedRightly (members : List Member) (names : List Component) (c : Component) : Prop :=
  names = [] ∨ (∃ m ∈ inReach members, slash :: dropSlash m.name = pathOf (names ++ [c])) ∨
    ¬Mistaken members names c

end Nfs4Compound.Tar.Aboyaritsev
