/-
Module: Nfs4Compound.Tar.Pages
Layer: Tar
Purpose: Reads in the driver of aboyaritsev/merge that may fail one by one: `fill_disk_position_next_file`
  and `get_next_file`, what `fill_node` records of a position, and `map_file` and `tarfs_readpage`, which
  read a page of a file from there.
Imports: Nfs4Compound.Tar.Fields, Nfs4Compound.Lib.Disk, Nfs4Compound.Lib.Attempts
Trusted boundary: a page starts below the 2^31st byte, so that its start is an `int`; memory is never short
Main exports: Medium, Pages.fillDiskPositionNextFile, Pages.getNextFile, Pages.fillNode, Pages.mapFile,
  Pages.tarfsReadpage, Pages.pageBlocks, Pages.ErrorsReported
-/
import Nfs4Compound.Tar.Fields
import Nfs4Compound.Lib.Disk
import Nfs4Compound.Lib.Attempts

namespace Nfs4Compound.Tar.Aboyaritsev

open CText

/-- A device of 512-byte blocks, and which calls can read which of its blocks. -/
structure Medium where
  disk : Disk UInt8 512
  answers : Nat → Nat → Bool

/-- `sb_bread` as a service: block numbers are given as `int`, and a negative number is no block. -/
def Medium.blocks (medium : Medium) : Service Int (List UInt8) where
  answer blockNo := medium.disk.bytes (blockNo.toNat * 512) 512
  succeeds number blockNo :=
    decide (0 ≤ blockNo) && medium.disk.readable blockNo.toNat && medium.answers number blockNo.toNat

namespace Pages

/-- `PAGE_CACHE_SIZE`. -/
def pageCacheSize : Nat := 4096

/-- `++block_no`. -/
def increment (blockNo : Int) : Int := int32 (blockNo + 1)

/-- `SUCCESS_CHECK` of a `tarfs_block_read`.  The macro evaluates its argument a second time if the read
    has failed, and returns what this brings; `again` is the number of the block by then. -/
def successCheck (medium : Medium) (blockNo again : Int) :
    StateM Calls (Except (Option (List UInt8)) (List UInt8)) :=
  medium.blocks.callTwice blockNo again

/-- The value that `SUCCESS_CHECK` returns. -/
def returned (again : Option (List UInt8)) : Int := if again.isSome then 0 else -1

/-! ### Disk positions -/

/-- `init_disk_position`, with the memory that `kmalloc` gives. -/
def initDiskPosition (fresh : List UInt8) : DiskPosition := ⟨fresh, -1, 0, -1⟩

/-- The position with a block in `buffers[0]`, if there is one. -/
def fillFirst (pos : DiskPosition) (block : Option (List UInt8)) : DiskPosition :=
  match block with
  | some block => { pos with buffers := block ++ pos.buffers.drop 512 }
  | none => pos

/-- The position with a block in `buffers[1]`, if there is one. -/
def fillSecond (pos : DiskPosition) (block : Option (List UInt8)) : DiskPosition :=
  match block with
  | some block => { pos with buffers := pos.buffers.take 512 ++ block }
  | none => pos

/-- Where the next header starts: the number of its first block, and the offset in it. -/
def nextHeader (junk : Junk) (pos : DiskPosition) : Int × Int :=
  let fileEnd := endOffset pos (getSize junk pos)
  (int32 (pos.firstBlockNo + (fileEnd - pos.offsetInFirst).tdiv 512), fileEnd.tmod 512)

/-- `fill_disk_position_next_file`: the value returned, and the position as it is left. -/
def fillDiskPositionNextFile (medium : Medium) (junk : Junk) (pos : DiskPosition) :
    StateM Calls (Int × DiskPosition) := do
  if pos.lastFillBufferIndex = -1 then
    match ← successCheck medium 0 0 with
    | .error again => pure (returned again, fillFirst pos again)
    | .ok block => pure (0, { fillFirst pos (some block) with
        firstBlockNo := 0, offsetInFirst := 0, lastFillBufferIndex := 0 })
  else
    let next := nextHeader junk pos
    match ← successCheck medium next.1 next.1 with
    | .error again => pure (returned again, fillFirst pos again)
    | .ok block =>
        let here : DiskPosition := { fillFirst pos (some block) with
          firstBlockNo := next.1, offsetInFirst := next.2, lastFillBufferIndex := 0 }
        if 512 - next.2 < 512 then
          match ← successCheck medium (increment next.1) (increment next.1) with
          | .error again => pure (returned again, fillSecond here again)
          | .ok second => pure (0, { fillSecond here (some second) with lastFillBufferIndex := 1 })
        else
          pure (0, here)

/-- The string at the name field of the header at a position. -/
def nameAt (junk : Junk) (pos : DiskPosition) : List UInt8 :=
  cstr (getTarField pos 0 100 ++ junk.behind)

/-- `get_next_file`: the value returned, the name without a trailing slash, and the position. -/
def getNextFile (medium : Medium) (junk : Junk) (pos : DiskPosition) :
    StateM Calls (Int × List UInt8 × DiskPosition) := do
  let filled ← fillDiskPositionNextFile medium junk pos
  if filled.1 ≠ 0 then pure (filled.1, [], filled.2)
  else if nameAt junk filled.2 = [] then pure (-2, [], filled.2)
  else pure (0, dropSlash (nameAt junk filled.2), filled.2)

/-! ### Inodes -/

/-- The operations of an open file. -/
inductive FileOperations where
  | unset
  | genericRo
  | tarfsDir
deriving DecidableEq, Repr

/-- `struct tarfs_inode`, with the fields of the inode that `fill_node` fills. -/
structure TarfsInode where
  iMode : Nat
  iUid : Nat
  iGid : Nat
  iSize : Int
  iFop : FileOperations
  firstBlockNo : Int
  offsetInFirst : Int
  lastFillBufferIndex : Int

/-- `fill_node`, on an inode whose `i_fop` has not been set. -/
def fillNode (junk : Junk) (pos : DiskPosition) : TarfsInode where
  iMode := getMode junk pos
  iUid := getUid junk pos
  iGid := getGid junk pos
  iSize := getSize junk pos
  iFop :=
    if getMode junk pos &&& 0xF000 = 0x8000 then .genericRo
    else if getMode junk pos &&& 0xF000 = 0x4000 then .tarfsDir
    else .unset
  firstBlockNo := pos.firstBlockNo
  offsetInFirst := pos.offsetInFirst
  lastFillBufferIndex := pos.lastFillBufferIndex

/-- `get_file_by_inode`: the value returned, and the position. -/
def getFileByInode (medium : Medium) (inode : TarfsInode) (pos : DiskPosition) :
    StateM Calls (Int × DiskPosition) := do
  match ← successCheck medium inode.firstBlockNo inode.firstBlockNo with
  | .error again => pure (returned again, fillFirst pos again)
  | .ok block =>
      let recorded (filled : DiskPosition) : DiskPosition :=
        ⟨filled.buffers, inode.firstBlockNo, inode.offsetInFirst, inode.lastFillBufferIndex⟩
      if inode.lastFillBufferIndex = 1 then
        match ← successCheck medium (increment inode.firstBlockNo) (increment inode.firstBlockNo) with
        | .error again => pure (returned again, fillSecond (fillFirst pos (some block)) again)
        | .ok second => pure (0, recorded (fillSecond (fillFirst pos (some block)) (some second)))
      else
        pure (0, recorded (fillFirst pos (some block)))

/-! ### Pages -/

/-- `memcpy` of bytes into a buffer. -/
def memcpyAt (data : List UInt8) (offset : Nat) (bytes : List UInt8) : List UInt8 :=
  data.take offset ++ bytes ++ data.drop (offset + bytes.length)

/-- `how_much` of `map_file`: the bytes from `start` to the end of the file in the arithmetic of `size_t`,
    or the size of a page if they are more. -/
def howMuch (fileSize : Int) (start : Nat) : Nat :=
  let rest := wrap64 ((wrap64 fileSize : Int) - start)
  if rest < pageCacheSize then rest else pageCacheSize

/-- The first loop of `map_file` reads block after block until the offset lies in the block it has read;
    it leaves the block in `place`, the offset and `block_no`. -/
def skipBlocks (medium : Medium) (place : List UInt8) (offset : Nat) (blockNo : Int) :
    StateM Calls (Except (Option (List UInt8)) (List UInt8 × Fin 512 × Int)) :=
  if inside : offset < 512 then
    pure (.ok (place, ⟨offset, inside⟩, blockNo))
  else do
    match ← successCheck medium (increment blockNo) (increment (increment blockNo)) with
    | .error again => pure (.error again)
    | .ok block => skipBlocks medium block (offset - 512) (increment blockNo)
termination_by offset

/-- The second loop of `map_file`: copy what belongs to the page out of `place`, and go on with the next
    block.  It leaves the page and the number of bytes written. -/
def copyBlocks (medium : Medium) (place : List UInt8) (offset : Fin 512) (blockNo : Int) (remain : Nat)
    (data : List UInt8) (written : Nat) :
    StateM Calls (List UInt8 × Except (Option (List UInt8)) Nat) :=
  if 0 < remain then do
    let writeBytes := if 512 - offset.val > remain then remain else 512 - offset.val
    let data := memcpyAt data written ((place.drop offset).take writeBytes)
    if 0 < remain - writeBytes then
      match ← successCheck medium (increment blockNo) (increment (increment blockNo)) with
      | .error again => pure (data, .error again)
      | .ok block =>
          copyBlocks medium block 0 (increment blockNo) (remain - writeBytes) data (written + writeBytes)
    else
      pure (data, .ok (written + writeBytes))
  else
    pure (data, .ok written)
termination_by remain
decreasing_by
  have := offset.isLt
  split <;> omega

/-- `map_file` behind `get_file_by_inode`: the value returned, and the page. -/
def mapData (medium : Medium) (junk : Junk) (pos : DiskPosition) (data : List UInt8) (start : Nat) :
    StateM Calls (Int × List UInt8) := do
  let fileSize := getSize junk pos
  let offset := pos.offsetInFirst.toNat + 512 + start
  match ← skipBlocks medium (pos.buffers.take 512) offset pos.firstBlockNo with
  | .error again => pure (returned again, data)
  | .ok (place, offset, blockNo) =>
      let copied ← copyBlocks medium place offset blockNo (howMuch fileSize start) data 0
      match copied.2 with
      | .error again => pure (returned again, copied.1)
      | .ok written =>
          pure (howMuch fileSize start,
            memcpyAt copied.1 written (List.replicate (pageCacheSize - written) 0))

/-- `map_file` of a whole page.  It returns `how_much` also if `get_file_by_inode` has failed. -/
def mapFile (medium : Medium) (junk : Junk) (fresh : List UInt8) (inode : TarfsInode) (data : List UInt8)
    (start : Nat) : StateM Calls (Int × List UInt8) := do
  let found ← getFileByInode medium inode (initDiskPosition fresh)
  if found.1 ≠ 0 then pure ((pageCacheSize : Int), data)
  else mapData medium junk found.2 data start

/-- `struct page`. -/
structure Page where
  index : Nat
  uptodate : Bool
  data : List UInt8

/-- `tarfs_readpage`: the value returned, the page, and the position of the open file. -/
def tarfsReadpage (medium : Medium) (junk : Junk) (fresh : List UInt8) (inode : TarfsInode) (page : Page)
    (fPos : Int) : StateM Calls (Int × Page × Int) := do
  if page.uptodate then pure (0, page, fPos)
  else
    let mapped ← mapFile medium junk fresh inode page.data (pageCacheSize * page.index)
    if mapped.1 < 0 then pure (0, { page with data := mapped.2 }, fPos)
    else pure (0, { page with data := mapped.2, uptodate := true }, fPos + mapped.1)

/-! ### Without read errors -/

/-- The positions that `get_next_file` reaches from `init_disk_position`, while no read fails. -/
inductive Scanned (medium : Medium) (junk : Junk) : DiskPosition → Prop where
  | init (fresh : List UInt8) : Scanned medium junk (initDiskPosition fresh)
  | next {pos : DiskPosition} (scanned : Scanned medium junk pos) (calls : Calls)
      (read : (getNextFile medium junk pos calls).2.failed = false) :
      Scanned medium junk (getNextFile medium junk pos calls).1.2.2

/-- The member lies on the device, its header at this position. -/
def Stored (medium : Medium) (pos : DiskPosition) (m : Member) : Prop :=
  medium.disk.bytes pos.position.toNat m.span = m.bytes

/-! ### The blocks that are read -/

/-- The blocks behind a block, as `++block_no` numbers them. -/
def blocksBehind (blockNo : Int) : Nat → List Int
  | 0 => []
  | count + 1 => increment blockNo :: blocksBehind (increment blockNo) count

/-- The blocks of the header an inode was made from. -/
def headerBlocks (inode : TarfsInode) : List Int :=
  if inode.lastFillBufferIndex = 1 then [inode.firstBlockNo, increment inode.firstBlockNo]
  else [inode.firstBlockNo]

/-- The position with these blocks, when they can be read. -/
def headerPosition (medium : Medium) (fresh : List UInt8) (inode : TarfsInode) : DiskPosition :=
  let first := fillFirst (initDiskPosition fresh) (some (medium.blocks.answer inode.firstBlockNo))
  let filled :=
    if inode.lastFillBufferIndex = 1 then
      fillSecond first (some (medium.blocks.answer (increment inode.firstBlockNo)))
    else first
  ⟨filled.buffers, inode.firstBlockNo, inode.offsetInFirst, inode.lastFillBufferIndex⟩

/-- The position that `get_file_by_inode` leaves if the read of the first of these blocks fails, or that of
    the second one, and what the repeated read brings: the buffers are filled, but not the rest. -/
def misreadPosition (medium : Medium) (fresh : List UInt8) (inode : TarfsInode) (first : Bool)
    (again : Option (List UInt8)) : DiskPosition :=
  if first then fillFirst (initDiskPosition fresh) again
  else
    fillSecond (fillFirst (initDiskPosition fresh) (some (medium.blocks.answer inode.firstBlockNo)))
      again

/-- The number of blocks behind the first one of the header up to the end of what a page shows. -/
def dataCount (junk : Junk) (pos : DiskPosition) (start : Nat) : Nat :=
  let offset := pos.offsetInFirst.toNat + 512 + start
  offset / 512 + (offset % 512 + howMuch (getSize junk pos) start - 1) / 512

/-- These blocks. -/
def dataBlocks (junk : Junk) (pos : DiskPosition) (start : Nat) : List Int :=
  blocksBehind pos.firstBlockNo (dataCount junk pos start)

/-- The blocks that `map_file` reads for the page at `start`. -/
def pageBlocks (medium : Medium) (junk : Junk) (fresh : List UInt8) (inode : TarfsInode) (start : Nat) :
    List Int :=
  headerBlocks inode ++ dataBlocks junk (headerPosition medium fresh inode) start

/-- The blocks that `fill_disk_position_next_file` reads. -/
def nextBlocks (junk : Junk) (pos : DiskPosition) : List Int :=
  if pos.lastFillBufferIndex = -1 then [0]
  else if 512 - (nextHeader junk pos).2 < 512 then
    [(nextHeader junk pos).1, increment (nextHeader junk pos).1]
  else [(nextHeader junk pos).1]

/-- The position in the first block of the next header, with this block. -/
def firstFilled (medium : Medium) (junk : Junk) (pos : DiskPosition) : DiskPosition :=
  { fillFirst pos (some (medium.blocks.answer (nextHeader junk pos).1)) with
    firstBlockNo := (nextHeader junk pos).1, offsetInFirst := (nextHeader junk pos).2,
    lastFillBufferIndex := 0 }

/-- The position of the next header, with its blocks, when they can be read. -/
def nextPosition (medium : Medium) (junk : Junk) (pos : DiskPosition) : DiskPosition :=
  if pos.lastFillBufferIndex = -1 then
    { fillFirst pos (some (medium.blocks.answer 0)) with
      firstBlockNo := 0, offsetInFirst := 0, lastFillBufferIndex := 0 }
  else if 512 - (nextHeader junk pos).2 < 512 then
    { fillSecond (firstFilled medium junk pos)
        (some (medium.blocks.answer (increment (nextHeader junk pos).1))) with
      lastFillBufferIndex := 1 }
  else firstFilled medium junk pos

/-- The position that `fill_disk_position_next_file` leaves if the read of its first block fails, or that
    of the second one, and what the repeated read brings. -/
def halfUpdated (medium : Medium) (junk : Junk) (pos : DiskPosition) (first : Bool)
    (again : Option (List UInt8)) : DiskPosition :=
  if first then fillFirst pos again else fillSecond (firstFilled medium junk pos) again

/-! ### With read errors -/

/-- A failed read makes `map_file` return a negative value and `tarfs_readpage` an error, and the page is
    not marked up to date. -/
def PageErrorsReported (medium : Medium) (junk : Junk) (fresh : List UInt8) (inode : TarfsInode)
    (page : Page) (fPos : Int) : Prop :=
  let run := tarfsReadpage medium junk fresh inode page fPos .none
  let mapped := mapFile medium junk fresh inode page.data (pageCacheSize * page.index) .none
  run.2.failed = true → mapped.1.1 < 0 ∧ run.1.2.1.uptodate = false ∧ run.1.1 < 0

/-- A failed read makes `get_next_file` return a negative value. -/
def ScanErrorsReported (medium : Medium) (junk : Junk) (pos : DiskPosition) : Prop :=
  let run := getNextFile medium junk pos .none
  run.2.failed = true → run.1.1 < 0

/-- The page does not have to be read, or each of its blocks can be read when it is its turn. -/
def PageReadable (medium : Medium) (junk : Junk) (fresh : List UInt8) (inode : TarfsInode)
    (page : Page) : Prop :=
  page.uptodate = true ∨
    medium.blocks.firstFailure 0
      (pageBlocks medium junk fresh inode (pageCacheSize * page.index)) = none

/-- If a block of the next header cannot be read, then it cannot be read the second time either, or there
    is no name in the block that is read the second time. -/
def ScanStops (medium : Medium) (junk : Junk) (pos : DiskPosition) : Prop :=
  ∀ number blockNo, medium.blocks.firstFailure 0 (nextBlocks junk pos) = some (number, blockNo) →
    medium.blocks.succeeds (number + 1) blockNo = false ∨
      nameAt junk (halfUpdated medium junk pos (number = 0) (some (medium.blocks.answer blockNo))) = []

end Pages

end Nfs4Compound.Tar.Aboyaritsev
