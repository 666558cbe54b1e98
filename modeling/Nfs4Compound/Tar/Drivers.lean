/-
Module: Nfs4Compound.Tar.Drivers
Layer: Tar
Purpose: The header scans of the four tar file systems under `tarFS/`: `get_next_file` of
  aboyaritsev/merge, `tfs_lookup` of afedosenko, `create_inode_by_name` of ksaltuk and `get_header` of
  pbelousov, with the integer conversions of each.
Imports: Nfs4Compound.Tar.Archive
Trusted boundary: memory that is read without having been written holds arbitrary junk; `iget_locked`
  finds memory for an inode
Main exports: Aboyaritsev.getNextFile, Afedosenko.visit, Ksaltuk.visitName, Pbelousov.getHeader
-/
import Nfs4Compound.Tar.Archive

namespace Nfs4Compound.Tar

open CText

/-! ### aboyaritsev/merge -/

namespace Aboyaritsev

/-- `struct disk_position`: copies of one or two blocks, and where the current header starts. -/
structure DiskPosition where
  buffers : List UInt8
  firstBlockNo : Int
  offsetInFirst : Int
  lastFillBufferIndex : Int

/-- `init_disk_position`. -/
def initDiskPosition : DiskPosition := ⟨[], -1, 0, -1⟩

/-- The byte position of the current header. -/
def DiskPosition.position (pos : DiskPosition) : Int := pos.firstBlockNo * 512 + pos.offsetInFirst

/-- `tarfs_block_read`; a negative number is no block of any device. -/
def tarfsBlockRead (device : List UInt8) (blockNo : Int) : Option (List UInt8) :=
  if 0 ≤ blockNo then sbBread device 512 blockNo.toNat else none

/-- `get_tar_field`, for the field of that offset and length in `off_lens`. -/
def getTarField (pos : DiskPosition) (offset length : Nat) : List UInt8 :=
  (pos.buffers.drop (pos.offsetInFirst.toNat + offset)).take length

/-- `get_size`: the 12 bytes of the field, read with `%i` into an `int`. -/
def getSize (junk : Junk) (pos : DiskPosition) : Int :=
  match scanSigned (cstr (getTarField pos 124 12 ++ junk.behind)) with
  | some value => int32 value
  | none => int32 junk.value

/-- The padded size of the previous file, as `size_t`; an empty file has none. -/
def alignedSize (size : Int) : Nat :=
  let previous := wrap64 size
  if 0 < previous then wrap64 (previous + (512 - (wrap64 (512 + previous) % 512 : Nat))) else previous

/-- The end of the previous file relative to its first block, as `int`. -/
def endOffset (pos : DiskPosition) (size : Int) : Int :=
  int32 (pos.offsetInFirst + 512 + alignedSize size)

/-- `fill_disk_position_next_file`: step to the header behind the current file.  Nothing if a block
    cannot be read. -/
def fillDiskPositionNextFile (device : List UInt8) (junk : Junk) (pos : DiskPosition) :
    Option DiskPosition :=
  if pos.lastFillBufferIndex = -1 then
    (tarfsBlockRead device 0).map fun block => ⟨block, 0, 0, 0⟩
  else
    let fileEnd := endOffset pos (getSize junk pos)
    let inBlock := fileEnd.tmod 512
    let blockNo := int32 (pos.firstBlockNo + (fileEnd - pos.offsetInFirst).tdiv 512)
    match tarfsBlockRead device blockNo with
    | none => none
    | some block =>
        if 512 - inBlock < 512 then
          (tarfsBlockRead device (int32 (blockNo + 1))).map fun second =>
            ⟨block ++ second, blockNo, inBlock, 1⟩
        else
          some ⟨block, blockNo, inBlock, 0⟩

/-- What `get_next_file` returns: a block could not be read, the name is empty, or the name without a
    trailing slash. -/
inductive NextFile where
  | blockError
  | tarEnd (pos : DiskPosition)
  | file (name : List UInt8) (pos : DiskPosition)

/-- `get_next_file`. -/
def getNextFile (device : List UInt8) (junk : Junk) (pos : DiskPosition) : NextFile :=
  match fillDiskPositionNextFile device junk pos with
  | none => .blockError
  | some pos =>
      let name := cstr (getTarField pos 0 100 ++ junk.behind)
      if name = [] then .tarEnd pos else .file (dropSlash name) pos

/-- One round of the loop of `find_file_by_dentry`. -/
def visitName (device : List UInt8) (junk : Junk) (fileName : List UInt8) (pos : DiskPosition) :
    Visit DiskPosition :=
  match getNextFile device junk pos with
  | .blockError => .unreadable .failed
  | .tarEnd next => .last next.position .failed
  | .file name next =>
      if name = fileName then .last next.position .found else .more next.position next

/-- One round of the loop of `tarfs_readdir`, which goes on until `get_next_file` fails. -/
def visitAll (device : List UInt8) (junk : Junk) (pos : DiskPosition) : Visit DiskPosition :=
  match getNextFile device junk pos with
  | .blockError => .unreadable .failed
  | .tarEnd next => .last next.position .failed
  | .file _ next => .more next.position next

end Aboyaritsev

/-! ### Reading a range of bytes -/

/-- Whole blocks from the `first`-th on, up to the first one that cannot be read; and whether all
    `count` were read. -/
def readBlocks (device : List UInt8) (blocksize first : Nat) : Nat → List UInt8 × Bool
  | 0 => ([], true)
  | count + 1 =>
      match sbBread device blocksize first with
      | none => ([], false)
      | some block =>
          let rest := readBlocks device blocksize (first + 1) count
          (block ++ rest.1, rest.2)

/-! ### afedosenko -/

namespace Afedosenko

/-- `tfs_read_block`: the bytes stored in the buffer. -/
def tfsReadBlock (device : List UInt8) (blocksize size start : Nat) : List UInt8 :=
  let first := start / blocksize
  let last := wrap64 (start + size - 1) / blocksize
  let blocks := wrap64 ((last : Int) - first + 1)
  match sbBread device blocksize first with
  | none => []
  | some block =>
      let begun := block.drop (start - first * blocksize)
      if blocks = 1 then
        begun.take size
      else
        let middle := readBlocks device blocksize (first + 1) (blocks - 2)
        let seek := begun ++ middle.1
        if middle.2 then
          match sbBread device blocksize last with
          | none => seek
          | some block => seek ++ block.take (size - seek.length)
        else
          seek

/-- `get_long_field`, for a field of `length` bytes at that offset: `strcpy` puts its text behind a
    `'0'` into `mem`, which has one byte more than the field.  Nothing if the text, with its zero byte,
    runs past the end of `mem`. -/
def getLongField (junk : Junk) (data : List UInt8) (offset length : Nat) : Option Int :=
  let text := cstr (data.drop offset)
  if text.length + 1 ≤ length then some ((scanSigned (48 :: text)).getD junk.value) else none

/-- `get_name`: the prefix field and the name field as strings, one behind the other.  Together they can
    be longer than the 255 bytes that `tfs_lookup` has room for. -/
def getName (data : List UInt8) : List UInt8 := cstr (data.drop 345) ++ cstr data

/-- The fields `tfs_lookup` fills a new inode from, with their lengths: mode, owner, group and
    modification time. -/
def inodeFields : List (Nat × Nat) := [(100, 8), (108, 8), (116, 8), (136, 12)]

/-- All of them are copied inside `mem`. -/
def fillsInode (junk : Junk) (data : List UInt8) : Bool :=
  inodeFields.all fun field => (getLongField junk data field.1 field.2).isSome

/-- The file size rounded up, as `int`. -/
def paddedSize (filesize : Int) : Int :=
  if filesize ≠ 0 then int32 (wrap64 filesize + (512 - (wrap64 filesize % 512 : Nat))) else filesize

/-- The state of the loop of `tfs_lookup`. -/
structure State where
  seek : Nat
  number : Nat

/-- One round of the loop of `tfs_lookup`.  `data` has a zero byte behind the header; `isNew` tells for
    which numbers `iget_locked` gives an inode that has to be filled in. -/
def visit (device : List UInt8) (blocksize : Nat) (junk : Junk) (isNew : Nat → Bool) (path : List UInt8)
    (s : State) : Visit State :=
  let header := tfsReadBlock device blocksize 512 s.seek
  if header.length < 512 then
    .unreadable .failed
  else
    let data := header ++ [0]
    match getLongField junk data 124 12 with
    | none => .last s.seek .overrun
    | some size =>
        if dropSlash (getName data) = path then
          .last s.seek (if isNew (s.number + 1) ∧ ¬fillsInode junk data then .overrun else .found)
        else
          .more s.seek
            ⟨wrap64 (s.seek + (512 + wrap64 (paddedSize (int32 size)) : Nat)), s.number + 1⟩

end Afedosenko

/-! ### ksaltuk -/

namespace Ksaltuk

/-- `read_octal_int`: the digits up to a blank or a zero byte, whatever they are. -/
def readOctalInt (memory : List UInt8) : Nat :=
  (memory.takeWhile fun c => c ≠ 32 ∧ c ≠ 0).foldl
    (fun n c => wrap64 ((n * 8 : Nat) + ((c.toInt8.toInt : Int) - 48))) 0

/-- `get_blocks_count`. -/
def getBlocksCount (bytes : Int) : Int :=
  if bytes.tmod 512 ≠ 0 then bytes.tdiv 512 + 1 else bytes.tdiv 512

/-- A block number of type `int` given to `sb_bread`. -/
def bread (device : List UInt8) (n : Int) : Option (List UInt8) :=
  if 0 ≤ n then sbBread device 512 n.toNat else none

/-- The next header, after the blocks the size field at `block + 124` tells. -/
def nextBlock (junk : Junk) (block : List UInt8) (i : Int) : Int :=
  int32 (i + getBlocksCount (int32 (readOctalInt (block.drop 124 ++ junk.behind))) + 1)

/-- The name that `create_inode_by_name` compares: 100 bytes in a buffer, with a trailing slash cut
    off where `strlen` of the whole block says the name ends. -/
def entryName (junk : Junk) (block : List UInt8) : List UInt8 :=
  let buff := strncpy 100 block ++ junk.behind
  let len := (cstr (block ++ junk.behind)).length
  if 0 < len ∧ buff[len - 1]? = some 47 then cstr (buff.set (len - 1) 0) else cstr buff

/-- One round of the loop of `create_inode_by_name`.  A block that cannot be read is dereferenced. -/
def visitName (device : List UInt8) (junk : Junk) (name : List UInt8) (i : Int) : Visit Int :=
  match bread device i with
  | none => .unreadable .crashed
  | some block =>
      if block.head? = some 0 then .last (512 * i) .notFound
      else if entryName junk block = name then .last (512 * i) .found
      else .more (512 * i) (nextBlock junk block i)

/-- One round of the loop of `tarfs_readdir`. -/
def visitAll (device : List UInt8) (junk : Junk) (i : Int) : Visit Int :=
  match bread device i with
  | none => .unreadable .crashed
  | some block =>
      if block.head? = some 0 then .last (512 * i) .notFound
      else .more (512 * i) (nextBlock junk block i)

end Ksaltuk

/-! ### pbelousov -/

namespace Pbelousov

/-- `tfs_read_block`: the bytes stored in the buffer. -/
def tfsReadBlock (device : List UInt8) (blocksize size start : Nat) : List UInt8 :=
  let first := start / blocksize
  let last := wrap64 (start + size - 1) / blocksize
  let blocks := wrap64 ((last : Int) - first + 1)
  match sbBread device blocksize first with
  | none => []
  | some block =>
      let begun := block.drop (start - first * blocksize)
      if blocks = 1 then
        begun.take size
      else
        let middle := readBlocks device blocksize (first + 1) (blocks - 2)
        let seek := begun ++ middle.1
        if middle.2 then
          match sbBread device blocksize last with
          | none => seek
          | some block => seek ++ block.take (wrap64 (size + start - last * blocksize : Int))
        else
          seek

/-- `get_tar_octal_field`, for a field at that offset: a `'0'` is put in front of the text.  Every field
    it is used for here ends in a zero byte, so that the copy stays inside `mem`. -/
def getTarOctalField (junk : Junk) (data : List UInt8) (offset : Nat) : Int :=
  match scanSigned (48 :: cstr (data.drop offset ++ junk.behind)) with
  | some value => value
  | none => junk.value

/-- `struct header_pos`. -/
structure HeaderPos where
  offset : Nat
  offsetNextHeader : Nat
  num : Nat
deriving DecidableEq, Repr

def initPosStart : HeaderPos := ⟨0, 0, 0⟩

/-- The file size rounded up to whole blocks. -/
def roundedSize (size : Nat) : Nat :=
  if size ≠ 0 ∧ size % 512 ≠ 0 then wrap64 (size + (512 - size % 512) : Nat) else size

/-- `get_header`: the header at the next position, and the position behind it; nothing at the end of
    the device. -/
def getHeader (device : List UInt8) (junk : Junk) (pos : HeaderPos) :
    Option (List UInt8 × HeaderPos) :=
  let header := tfsReadBlock device 512 512 pos.offsetNextHeader
  if header.length < 512 then
    none
  else
    let size := roundedSize (wrap64 (getTarOctalField junk header 124))
    some (header,
      ⟨pos.offsetNextHeader, wrap64 (pos.offsetNextHeader + (size + 512) : Nat), pos.num + 1⟩)

/-- One round of a loop over `get_header`. -/
def visitAll (device : List UInt8) (junk : Junk) (pos : HeaderPos) : Visit HeaderPos :=
  match getHeader device junk pos with
  | none => .unreadable .failed
  | some (_, next) => .more next.offset next

end Pbelousov

/-! ### All four -/

/-- Whatever they look for, the scans of all four drivers walk the headers of the archive.  The driver
    of afedosenko reads the device in blocks of `blocksize` bytes. -/
def ScansWalkHeaders (members : List Member) (behind : List UInt8) (junk : Junk) (blocksize : Nat) :
    Prop :=
  let device := image members behind
  let rounds := members.length + 1
  WalksHeaders members
      (scan (Aboyaritsev.visitAll device junk) rounds Aboyaritsev.initDiskPosition) ∧
    (∀ isNew path,
      WalksHeaders members (scan (Afedosenko.visit device blocksize junk isNew path) rounds ⟨0, 0⟩)) ∧
    (∀ name, WalksHeaders members (scan (Ksaltuk.visitName device junk name) rounds 0)) ∧
    WalksHeaders members (scan (Pbelousov.visitAll device junk) rounds Pbelousov.initPosStart)

end Nfs4Compound.Tar
