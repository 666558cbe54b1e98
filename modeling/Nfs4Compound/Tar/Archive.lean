/-
Module: Nfs4Compound.Tar.Archive
Layer: Tar
Purpose: The device a tar file system is mounted from, ustar archives as they are written to it, and
  scans over headers.  A scan is a loop that reads a header, and then stops or goes on to the next
  position; it reports the positions it read headers at, and how it ended.
Imports: Nfs4Compound.Lib.CText
Trusted boundary: `sb_bread` returns NULL exactly for block numbers outside the device;
  `dentry_path_raw` as in the kernel
Main exports: sbBread, Member, image, offset, Visit, scan, WalksHeaders, Component, dentryPathRaw
-/
import Nfs4Compound.Lib.CText

namespace Nfs4Compound.Tar

open CText

/-- `sb_bread` on a device with the given contents. -/
def sbBread (device : List UInt8) (blocksize n : Nat) : Option (List UInt8) :=
  if (n + 1) * blocksize ≤ device.length then some ((device.drop (n * blocksize)).take blocksize)
  else none

/-! ### Archives -/

/-- The number of 512-byte blocks that hold `size` bytes. -/
def blocksOf (size : Nat) : Nat := (size + 511) / 512

/-- One member of a well-formed archive, of less than 2 ^ 30 bytes.  `other` are the header fields from
    the link name to the device numbers, which no driver interprets; `data` are whole blocks. -/
structure Member where
  name : List UInt8
  mode : Nat
  uid : Nat
  gid : Nat
  size : Nat
  mtime : Nat
  chksum : List UInt8
  typeflag : UInt8
  other : List UInt8
  namePrefix : List UInt8
  data : List UInt8
  name_nonempty : name ≠ []
  name_length : name.length ≤ 100
  name_plain : Plain name
  size_small : size < 1073741824
  chksum_length : chksum.length = 8
  other_length : other.length = 188
  namePrefix_length : namePrefix.length ≤ 155
  namePrefix_plain : Plain namePrefix
  data_length : data.length = 512 * blocksOf size

namespace Member

/-- The header fields between the name and the size. -/
def owner (m : Member) : List UInt8 := octalField 8 m.mode ++ (octalField 8 m.uid ++ octalField 8 m.gid)

/-- The header fields behind the size, up to the prefix. -/
def upToPrefix (m : Member) : List UInt8 :=
  octalField 12 m.mtime ++ (m.chksum ++ (m.typeflag :: m.other))

/-- The header block. -/
def header (m : Member) : List UInt8 :=
  padTo 100 m.name ++ (m.owner ++ (octalField 12 m.size ++
    (m.upToPrefix ++ (padTo 155 m.namePrefix ++ padTo 12 []))))

/-- The header and the data. -/
def bytes (m : Member) : List UInt8 := m.header ++ m.data

/-- The room the member takes on the device. -/
def span (m : Member) : Nat := 512 + 512 * blocksOf m.size

end Member

/-- The block that ends an archive. -/
def zeroBlock : List UInt8 := List.replicate 512 0

/-- A device with the members, the zero block that ends the archive, and anything behind it. -/
def image (members : List Member) (behind : List UInt8) : List UInt8 :=
  members.flatMap Member.bytes ++ (zeroBlock ++ behind)

/-- Where the header of the `k`-th member is; for the number of members, where the archive ends. -/
def offset (members : List Member) (k : Nat) : Nat := ((members.take k).map Member.span).sum

/-! ### Scans -/

/-- How a scan ends.  In an `overrun` it has written past the end of a buffer, and nothing can be said
    about what it does then. -/
inductive Ending where
  | found
  | notFound
  | failed
  | crashed
  | overrun
  | unfinished
deriving DecidableEq, Repr

/-- One round of a scan: no header can be read, the header read is the last, or it is not. -/
inductive Visit (σ : Type) where
  | unreadable (ending : Ending)
  | last (position : Int) (ending : Ending)
  | more (position : Int) (next : σ)

/-- The positions at which a scan reads a header, and how it ends. -/
def scan {σ : Type} (visit : σ → Visit σ) : Nat → σ → List Int × Ending
  | 0, _ => ([], .unfinished)
  | fuel + 1, s =>
      match visit s with
      | .unreadable ending => ([], ending)
      | .last position ending => ([position], ending)
      | .more position next => (position :: (scan visit fuel next).1, (scan visit fuel next).2)

/-- Of a run of at most as many rounds as the archive has headers and the end: it reads one header
    after the other, each where it is, and stops before the end of the archive only if it has found
    what it looks for. -/
def WalksHeaders (members : List Member) (run : List Int × Ending) : Prop :=
  run.1 = (List.range run.1.length).map (fun k => (offset members k : Int)) ∧
    (run.2 = .found ∨ run.1.length = members.length + 1)

/-- What happens to lie in memory that a driver reads without having written it: behind a buffer on
    the stack, and in a variable `sscanf` did not store to. -/
structure Junk where
  behind : List UInt8
  value : Int

def slash : UInt8 := 47

def period : UInt8 := 46

/-- A path without one trailing slash. -/
def dropSlash (path : List UInt8) : List UInt8 :=
  if path.getLast? = some 47 then path.dropLast else path

/-! ### Paths of dentries -/

/-- The name of a dentry: a string that is not empty and has no slash. -/
structure Component where
  name : List UInt8
  nonempty : name ≠ []
  plain : Plain name
  noSlash : slash ∉ name

/-- The path of the dentry that these names lead to from the root of the file system. -/
def pathOf (names : List Component) : List UInt8 :=
  if names = [] then [slash] else names.flatMap fun c => slash :: c.name

/-- `dentry_path_raw` with a buffer of `buflen` bytes.  A path that does not fit is the error pointer
    `-ENAMETOOLONG`. -/
def dentryPathRaw (names : List Component) (buflen : Nat) : Option (List UInt8) :=
  if (pathOf names).length + 1 ≤ buflen then some (pathOf names) else none

end Nfs4Compound.Tar
