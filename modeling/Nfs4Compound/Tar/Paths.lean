/-
Module: Nfs4Compound.Tar.Paths
Layer: Tar
Purpose: `get_path` of afedosenko: a path put together backwards in a buffer whose length a first pass
  over the dentries has computed.  Every byte written is kept as a write of its own, with its index.
Imports: Nfs4Compound.Lib.Disk, Nfs4Compound.Tar.Archive
Trusted boundary: whether `kzalloc` can give a number of bytes depends on this number only
Main exports: PathBuffer, PathBuffer.content, Afedosenko.getPath, pathText, Afedosenko.BuildsPath
-/
import Nfs4Compound.Lib.Disk
import Nfs4Compound.Tar.Archive

namespace Nfs4Compound.Tar

open CText

/-- A buffer of `size` zero bytes, and the bytes written to it in turn, with their indices. -/
structure PathBuffer where
  size : Nat
  writes : List (Int × UInt8)

/-- What the buffer holds after the writes. -/
def PathBuffer.content (path : PathBuffer) : Buffer UInt8 :=
  path.writes.foldl (fun buffer write => buffer.store write.1.toNat [write.2])
    (Buffer.holding (List.replicate path.size 0))

/-- The bytes of a text with their indices, the first one at `start`. -/
def laid (start : Int) (text : List UInt8) : List (Int × UInt8) :=
  text.zipIdx.map fun byte => (start + byte.2, byte.1)

/-- The path of a dentry, given its name and those of its parents below the root: the names from the
    root's child on, joined by slashes, and a zero byte. -/
def pathText (names : List (List UInt8)) : List UInt8 := [slash].intercalate names.reverse ++ [0]

namespace Afedosenko

/-- The first pass of `get_path`: `name_length += nowd->d_name.len + 1`, as `int`. -/
def nameLength : List (List UInt8) → Int → Int
  | [], length => length
  | name :: rest, length => nameLength rest (int32 (length + (name.length + 1 : Nat)))

/-- The second pass: the writes of a separator, unless it is the first round, and of the name; `seek` is
    an `int`, too. -/
def fillPath (length : Int) : List (List UInt8) → Int → List (Int × UInt8)
  | [], _ => []
  | name :: rest, seek =>
      if seek ≠ 1 then
        let separated := int32 (seek + 1)
        let next := int32 (separated + name.length)
        (length - separated, slash) :: (laid (length - next) name ++ fillPath length rest next)
      else
        let next := int32 (seek + name.length)
        laid (length - next) name ++ fillPath length rest next

/-- `get_path` of the dentry with these names, its own first; nothing if the buffer cannot be
    allocated. -/
def getPath (kzalloc : Nat → Bool) (names : List (List UInt8)) : Option PathBuffer :=
  let length := nameLength names 0
  if kzalloc (wrap64 length) then
    some ⟨wrap64 length, (length - 1, 0) :: fillPath length names 1⟩
  else none

/-- The buffer has the length of the path, each of its bytes is written exactly once, with the byte of the
    path, and none outside it. -/
def BuildsPath (names : List (List UInt8)) (path : PathBuffer) : Prop :=
  path.size = (pathText names).length ∧ path.writes.Perm (laid 0 (pathText names)) ∧
    path.content = Buffer.holding (pathText names)

end Afedosenko

end Nfs4Compound.Tar
