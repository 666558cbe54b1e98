/-
Module: Nfs4Compound.Tar.Reads
Layer: Tar
Purpose: Reading the data of a file: `tfs_read_block` of pbelousov and of afedosenko, `tfs_read` of
  afedosenko and `tarfs_read` of ksaltuk, on a device any of whose blocks may be unreadable.  A read
  leaves the caller's buffer, the value returned and the new file position; a copy that runs out of the
  block it copies from is an outcome of its own.
Imports: Nfs4Compound.Lib.Disk, Nfs4Compound.Tar.Archive
Trusted boundary: `sb_bread` returns NULL exactly for unreadable blocks, and the same in every call
Main exports: Pbelousov.tfsReadBlockOn, Afedosenko.tfsReadBlockOn, Afedosenko.tfsRead, Ksaltuk.tarfsRead,
  Afedosenko.ReadsFile, Ksaltuk.ReadsFile
-/
import Nfs4Compound.Lib.Disk
import Nfs4Compound.Tar.Archive

namespace Nfs4Compound.Tar

open CText

/-- The part of a block from `offset` on that a copy of `count` bytes takes; nothing if it goes beyond
    the block. -/
def piece (block : List UInt8) (offset count : Nat) : Option (List UInt8) :=
  if offset + count ≤ block.length then some ((block.drop offset).take count) else none

/-- How the read of a file ends. -/
inductive ReadEnd where
  | returned (value : Int) (buffer : Buffer UInt8) (position : Int)
  | overrun
  | unfinished

/-! ### `tfs_read_block` -/

/-- How `tfs_read_block` ends: with the bytes stored and their number. -/
inductive BlockRead where
  | stored (buffer : Buffer UInt8) (count : Nat)
  | overrun

section ReadBlock

variable {B : Nat} (disk : Disk UInt8 B)

/-- The loop over the blocks in the middle: the buffer, how far it is filled, and whether every block
    could be read. -/
def copyBlocks : Nat → Nat → Buffer UInt8 → Nat → Buffer UInt8 × Nat × Bool
  | 0, _, buffer, seek => (buffer, seek, true)
  | rounds + 1, n, buffer, seek =>
      match disk.bread n with
      | none => (buffer, seek, false)
      | some block => copyBlocks rounds (n + 1) (buffer.store seek block) (seek + B)

/-- `tfs_read_block`.  The two versions differ in the length of the last copy, `lastLength`, given the
    number of the last block and how far the buffer is filled. -/
def tfsReadBlockWith (lastLength : Nat → Nat → Nat) (size start : Nat) : BlockRead :=
  let first := start / B
  let last := wrap64 (start + size - 1) / B
  let blocks := wrap64 ((last : Int) - first + 1)
  let offset := start - first * B
  match disk.bread first with
  | none => .stored (Buffer.holding []) 0
  | some block =>
      if blocks = 1 then
        match piece block offset size with
        | none => .overrun
        | some data => .stored ((Buffer.holding []).store 0 data) size
      else
        -- `for (i = 1; i < blocks - 1; ++i)`, unsigned
        let middle := copyBlocks disk (wrap64 ((blocks : Int) - 1) - 1) (first + 1)
          ((Buffer.holding []).store 0 (block.drop offset)) (B - offset)
        if middle.2.2 then
          match disk.bread last with
          | none => .stored middle.1 middle.2.1
          | some block =>
              match piece block 0 (lastLength last middle.2.1) with
              | none => .overrun
              | some data =>
                  .stored (middle.1.store middle.2.1 data) (middle.2.1 + lastLength last middle.2.1)
        else .stored middle.1 middle.2.1

def Pbelousov.tfsReadBlockOn (size start : Nat) : BlockRead :=
  tfsReadBlockWith disk (fun last _ => wrap64 ((size : Int) + start - last * B)) size start

def Afedosenko.tfsReadBlockOn (size start : Nat) : BlockRead :=
  tfsReadBlockWith disk (fun _ seek => wrap64 ((size : Int) - seek)) size start

end ReadBlock

/-! ### afedosenko -/

namespace Afedosenko

variable {B : Nat} (disk : Disk UInt8 B)

/-- `tfs_read` of a file whose inode has the given `i_private`, where its data starts, and `i_size`.
    The sum of position and count is compared with the size as an unsigned number. -/
def tfsRead (iPrivate : Int) (iSize count offset : Nat) : ReadEnd :=
  let count := if iSize < wrap64 ((offset : Int) + count) then wrap64 ((iSize : Int) - offset) else count
  match tfsReadBlockOn disk count (wrap64 (int32 iPrivate + offset)) with
  | .overrun => .overrun
  | .stored buffer seek => .returned (int32 seek) buffer (offset + int32 seek)

/-- What a read of `n` bytes from the position `o` on should do: store the bytes of the file there are,
    and nothing else, return their number and move the position by it. -/
def ReadsFile (b s n o : Nat) : Prop :=
  tfsRead disk b s n o =
    .returned (min n (s - o) : Nat) (Buffer.holding (disk.bytes (b + o) (min n (s - o))))
      (o + min n (s - o) : Nat)

/-- A request for bytes of the file finds their blocks readable; one for no bytes finds the block at its
    position unreadable, or its position inside the file or at its end, and inside a block. -/
def Answerable (b s n o : Nat) : Prop :=
  if 0 < min n (s - o) then
    ∀ k, (b + o) / B ≤ k → k ≤ (b + o + min n (s - o) - 1) / B → disk.readable k = true
  else disk.readable ((b + o) / B) = false ∨ (o ≤ s ∧ ¬B ∣ b + o)

end Afedosenko

/-! ### ksaltuk -/

namespace Ksaltuk

/-- The `struct tar_inode` of a file: the block number of the header, and `i_size`. -/
structure TarInode where
  offset : Nat
  size : Nat

/-- `need_read`: the smaller one of what is left of the block and of the request, compared as unsigned
    numbers, and then of that and what is left of the file, which are signed. -/
def needRead (fSize : Int) (size copied : Nat) (position : Int) : Int :=
  let left := wrap64 ((size : Int) - copied)
  let request :=
    int32 (if wrap64 (512 - position.tmod 512) < left then 512 - position.tmod 512 else left)
  int32 (if request < fSize - position then request else fSize - position)

/-- One round of the loop of `tarfs_read` ends the loop, or goes on with more bytes copied. -/
inductive Round where
  | done (result : ReadEnd)
  | again (copied : Nat) (position : Int) (buffer : Buffer UInt8)

/-- The copy of `count` bytes of the block, and whether the loop goes on. -/
def copyPiece (block : List UInt8) (copied : Nat) (position : Int) (buffer : Buffer UInt8) (count : Int) :
    Round :=
  if count < 0 then .done .overrun
  else
    match piece block (position.tmod 512).toNat count.toNat with
    | none => .done .overrun
    | some data =>
        if 0 < count then .again (copied + count.toNat) (position + count) (buffer.store copied data)
        else .done (.returned (copied + count.toNat : Nat) (buffer.store copied data) (position + count))

def tarfsReadRound (disk : Disk UInt8 512) (inode : TarInode) (size copied : Nat) (position : Int)
    (buffer : Buffer UInt8) : Round :=
  match disk.bread (position.tdiv 512 + inode.offset + 1).toNat with
  | none => .done (.returned (-12) buffer position)
  | some block =>
      copyPiece block copied position buffer (needRead (int32 inode.size) size copied position)

def tarfsReadLoop (disk : Disk UInt8 512) (inode : TarInode) (size : Nat) :
    Nat → Nat → Int → Buffer UInt8 → ReadEnd
  | 0, _, _, _ => .unfinished
  | fuel + 1, copied, position, buffer =>
      match tarfsReadRound disk inode size copied position buffer with
      | .done result => result
      | .again copied position buffer => tarfsReadLoop disk inode size fuel copied position buffer

/-- `tarfs_read`. -/
def tarfsRead (disk : Disk UInt8 512) (inode : TarInode) (size offset fuel : Nat) : ReadEnd :=
  tarfsReadLoop disk inode size fuel 0 offset (Buffer.holding [])

/-- The blocks of the file's data can be read. -/
def DataReadable (disk : Disk UInt8 512) (inode : TarInode) : Prop :=
  ∀ k < blocksOf inode.size, disk.readable (inode.offset + 1 + k) = true

/-- What a read of `n` bytes from the position `o` on should do: store the bytes of the file there are,
    and nothing else, return their number and move the position by it. -/
def ReadsFile (disk : Disk UInt8 512) (inode : TarInode) (n o : Nat) : Prop :=
  ∃ enough, ∀ fuel, enough ≤ fuel →
    tarfsRead disk inode n o fuel =
      .returned (min n (inode.size - o) : Nat)
        (Buffer.holding (disk.bytes (512 * (inode.offset + 1) + o) (min n (inode.size - o))))
        (o + min n (inode.size - o) : Nat)

/-- A read that comes to the end of the data in whole blocks finds the block behind them readable; one
    from beyond the end is a multiple of `2 ^ 32` away from it, at a readable block. -/
def Answerable (disk : Disk UInt8 512) (inode : TarInode) (n o : Nat) : Prop :=
  if o ≤ inode.size then
    inode.size - o ≤ n → 512 ∣ inode.size → disk.readable (inode.offset + 1 + inode.size / 512) = true
  else 4294967296 ∣ o - inode.size ∧ disk.readable (inode.offset + 1 + o / 512) = true

end Ksaltuk

end Nfs4Compound.Tar
