/-
Module: Nfs4Compound.Tar.Ends
Layer: Tar
Purpose: When the header scans end on an arbitrary device: what ending is asked for, which rounds write
  past the end of a buffer, and, for each driver, which headers let it step forward: by the numbers in
  their size fields, and by the lengths of their fields and names.
Imports: Nfs4Compound.Tar.Drivers
Trusted boundary: `sb_bread` returns NULL exactly for block numbers outside the device
Main exports: Visits, EndsWell, ScansEnd, Aboyaritsev.StepsForward, Aboyaritsev.NamesFit,
  Afedosenko.StepsForward, Afedosenko.NamesFit, Ksaltuk.StepsForward, Ksaltuk.NamesFit
-/
import Nfs4Compound.Tar.Drivers

namespace Nfs4Compound.Tar

open CText

/-! ### Runs of a scan -/

/-- The states in which the rounds of a scan begin. -/
inductive Visits {σ : Type} (visit : σ → Visit σ) (start : σ) : σ → Prop where
  | start : Visits visit start start
  | next {s next : σ} {p : Int} (visited : Visits visit start s) (round : visit s = .more p next) :
      Visits visit start next

/-- The position of the header read in a round. -/
def Visit.position? {σ : Type} : Visit σ → Option Int
  | .unreadable _ => none
  | .last p _ => some p
  | .more p _ => some p

/-- How the scan ends in a round, if it does. -/
def Visit.ending? {σ : Type} : Visit σ → Option Ending
  | .unreadable e => some e
  | .last _ e => some e
  | .more _ _ => none

/-- A scan that has ended so has not followed a block that could not be read, and has not written past
    the end of a buffer; nor has it been cut off. -/
def Ending.Reported (e : Ending) : Prop := e ≠ .crashed ∧ e ≠ .overrun ∧ e ≠ .unfinished

/-- Of a run with one round more than there are blocks: it has ended after at most as many headers as
    there are blocks, each behind the one before, and with an ending that the driver reports. -/
def EndsWell (blocks : Nat) (run : List Int × Ending) : Prop :=
  run.1.length ≤ blocks ∧ run.1.Pairwise (· < ·) ∧ run.2.Reported

/-! ### Buffers for names -/

/-- A round that reads a header and does not stay inside its buffers ends the scan in an overrun. -/
def Visit.within {σ : Type} (inside : Bool) : Visit σ → Visit σ
  | .unreadable e => .unreadable e
  | .last p e => .last p (if inside then e else .overrun)
  | .more p next => if inside then .more p next else .last p .overrun

namespace Aboyaritsev

/-- In the 100 bytes that `find_file_by_dentry` and `tarfs_readdir` have in `open_file_name`: a name that
    goes on behind them does not end in a slash, which would be overwritten. -/
def nameInside (junk : Junk) (pos : DiskPosition) : Bool :=
  let name := cstr (getTarField pos 0 100 ++ junk.behind)
  name.getLast? = some slash → name.length ≤ 100

/-- `visitName`, with the writes to that buffer. -/
def visitNameWithin (device : List UInt8) (junk : Junk) (fileName : List UInt8) (pos : DiskPosition) :
    Visit DiskPosition :=
  (visitName device junk fileName pos).within
    ((fillDiskPositionNextFile device junk pos).all (nameInside junk))

/-- `visitAll`, with the writes to that buffer. -/
def visitAllWithin (device : List UInt8) (junk : Junk) (pos : DiskPosition) : Visit DiskPosition :=
  (visitAll device junk pos).within ((fillDiskPositionNextFile device junk pos).all (nameInside junk))

end Aboyaritsev

namespace Afedosenko

/-- In the 256 bytes of `name` in `tfs_lookup`: there is room for what `get_name` writes; and where that
    is empty, the byte in front of it, tested as its last one, is not a slash. -/
def nameInside (before : UInt8) (data : List UInt8) : Bool :=
  (getName data).length + 1 ≤ 256 ∧ (getName data = [] → before ≠ slash)

/-- `visit`, with the writes to that buffer. -/
def visitWithin (device : List UInt8) (blocksize : Nat) (junk : Junk) (before : UInt8)
    (isNew : Nat → Bool) (path : List UInt8) (s : State) : Visit State :=
  (visit device blocksize junk isNew path s).within
    (nameInside before (tfsReadBlock device blocksize 512 s.seek ++ [0]))

end Afedosenko

namespace Ksaltuk

/-- In the 100 bytes of `buff` in `create_inode_by_name`: where the name in the block is longer, the
    byte tested as its last one is not a slash.  A block that begins with a zero byte is not copied. -/
def nameInside (junk : Junk) (block : List UInt8) : Bool :=
  let buff := strncpy 100 block ++ junk.behind
  let len := (cstr (block ++ junk.behind)).length
  0 < len ∧ buff[len - 1]? = some slash → len ≤ 100

/-- `visitName`, with the writes to that buffer. -/
def visitNameWithin (device : List UInt8) (junk : Junk) (name : List UInt8) (i : Int) : Visit Int :=
  (visitName device junk name i).within ((bread device i).all (nameInside junk))

end Ksaltuk

/-! ### What is asked of the drivers -/

/-- All the loops over headers end well, whatever they look for.  `before` is the byte in front of the
    name buffer of afedosenko. -/
def ScansEnd (device : List UInt8) (blocks : Nat) (junk : Junk) (before : UInt8) (blocksize : Nat) :
    Prop :=
  (EndsWell blocks
      (scan (Aboyaritsev.visitAllWithin device junk) (blocks + 1) Aboyaritsev.initDiskPosition) ∧
    ∀ name, EndsWell blocks
      (scan (Aboyaritsev.visitNameWithin device junk name) (blocks + 1) Aboyaritsev.initDiskPosition)) ∧
  (∀ isNew path, EndsWell blocks
    (scan (Afedosenko.visitWithin device blocksize junk before isNew path) (blocks + 1) ⟨0, 0⟩)) ∧
  EndsWell blocks (scan (Ksaltuk.visitAll device junk) (blocks + 1) 0) ∧
    ∀ name, EndsWell blocks (scan (Ksaltuk.visitNameWithin device junk name) (blocks + 1) 0)

/-! ### Steps forward -/

/-- From a header with this size to the next one, in blocks, as aboyaritsev/merge computes it. -/
def Aboyaritsev.blockStep (size : Int) : Int := (int32 (512 + alignedSize size)).tdiv 512

/-- At every header the scan goes on from, the number in the size field is between -512 and
    2 ^ 31 - 1024, or leads before the start of the device. -/
def Aboyaritsev.StepsForward (device : List UInt8) (junk : Junk) : Prop :=
  ∀ pos, Visits (visitAll device junk) initDiskPosition pos → pos.lastFillBufferIndex ≠ -1 →
    (-512 ≤ getSize junk pos ∧ getSize junk pos < 2147482624) ∨
      pos.firstBlockNo + blockStep (getSize junk pos) < 0

/-- At every header the scan comes to, the name stays inside its buffer. -/
def Aboyaritsev.NamesFit (device : List UInt8) (junk : Junk) : Prop :=
  ∀ pos next, Visits (visitAll device junk) initDiskPosition pos →
    fillDiskPositionNextFile device junk pos = some next → nameInside junk next

/-- The field of `length` bytes at that offset of a header has a zero byte. -/
def FieldEnds (header : List UInt8) (offset length : Nat) : Prop := 0 ∈ (header.drop offset).take length

/-- The size at a position, as `int`. -/
def Afedosenko.filesizeAt (device : List UInt8) (blocksize : Nat) (junk : Junk) (seek : Nat) : Int :=
  int32 ((scanSigned (48 :: cstr ((tfsReadBlock device blocksize 512 seek ++ [0]).drop 124))).getD
    junk.value)

/-- At every header the scan reads, the size field ends inside its 12 bytes; if it is the header looked
    for and its inode is new, the fields that are filled in end, too; and if the scan goes on, the number
    in the size field is between -512 and 2 ^ 31 - 512, or leads before the start of the device. -/
def Afedosenko.StepsForward (device : List UInt8) (junk : Junk) (blocksize : Nat) : Prop :=
  ∀ isNew path s, Visits (visit device blocksize junk isNew path) ⟨0, 0⟩ s →
    let header := tfsReadBlock device blocksize 512 s.seek
    ¬header.length < 512 →
      FieldEnds header 124 12 ∧
        if dropSlash (getName (header ++ [0])) = path then
          isNew (s.number + 1) → ∀ field ∈ inodeFields, FieldEnds header field.1 field.2
        else
          (-512 ≤ filesizeAt device blocksize junk s.seek ∧
              filesizeAt device blocksize junk s.seek < 2147483136) ∨
            (s.seek : Int) + 512 + paddedSize (filesizeAt device blocksize junk s.seek) < 0

/-- At every header the scan reads, the name stays inside its buffer. -/
def Afedosenko.NamesFit (device : List UInt8) (junk : Junk) (before : UInt8) (blocksize : Nat) : Prop :=
  ∀ isNew path s, Visits (visit device blocksize junk isNew path) ⟨0, 0⟩ s →
    let header := tfsReadBlock device blocksize 512 s.seek
    ¬header.length < 512 → nameInside before (header ++ [0])

/-- The size in a header, as `int`. -/
def Ksaltuk.sizeOf (junk : Junk) (block : List UInt8) : Int :=
  int32 (readOctalInt (block.drop 124 ++ junk.behind))

/-- There is a block; and at every header the scan goes on from, the number in the size field is above
    -1024 and not -512, and leads to a block of the device whose number is an `int`. -/
def Ksaltuk.StepsForward (device : List UInt8) (blocks : Nat) (junk : Junk) : Prop :=
  0 < blocks ∧
    ∀ i block, Visits (visitAll device junk) 0 i → bread device i = some block →
      block.head? ≠ some 0 →
        (-1024 < sizeOf junk block ∧ sizeOf junk block ≠ -512) ∧
          i + getBlocksCount (sizeOf junk block) + 1 < blocks ∧
          i + getBlocksCount (sizeOf junk block) + 1 < 2147483648

/-- At every header the scan comes to, the name stays inside the buffer that a search has for it. -/
def Ksaltuk.NamesFit (device : List UInt8) (junk : Junk) : Prop :=
  ∀ i block, Visits (visitAll device junk) 0 i → bread device i = some block → nameInside junk block

end Nfs4Compound.Tar
