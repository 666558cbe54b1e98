/-
Module: Nfs4Compound.Tar.Fields
Layer: Tar
Purpose: The numbers in a ustar header and what the drivers read out of its fields: the accessors of
  `tarparser.c` of afedosenko, of pbelousov and of aboyaritsev/merge, with their tables of offsets, and
  the fields ksaltuk decodes with `read_octal_int`.
Imports: Nfs4Compound.Tar.Drivers
Trusted boundary: `sscanf` with `%u`, `%hi`, `%i` and `%lli` as documented for the kernel
Main exports: offLensFrom, Numbers, Numbers.header, DecodesField, AccessorsReturn,
  Aboyaritsev.FieldsReturn
-/
import Nfs4Compound.Tar.Drivers

namespace Nfs4Compound.Tar

open CText

/-! ### Tables of fields -/

/-- `struct off_len`. -/
structure OffLen where
  offset : Nat
  length : Nat

/-- The table that the loops of `init_offsets` and `init_off_lens` build: every field begins where the
    one before it ends. -/
def offLensFrom : Nat → List Nat → List OffLen
  | _, [] => []
  | offset, length :: rest => ⟨offset, length⟩ :: offLensFrom (offset + length) rest

/-- The entry of a field. -/
def entry (table : List OffLen) (field : Nat) : OffLen := table.getD field ⟨0, 0⟩

/-- The fields of `tarparser.h`. -/
def modeField : Nat := 1
def uidField : Nat := 2
def gidField : Nat := 3
def sizeField : Nat := 4
def mtimeField : Nat := 5
def typeflagField : Nat := 7

/-! ### Headers -/

/-- The numbers of a header, each as large as its field has room for. -/
structure Numbers where
  mode : Nat
  uid : Nat
  gid : Nat
  size : Nat
  mtime : Nat
  mode_small : mode < 8 ^ 7
  uid_small : uid < 8 ^ 7
  gid_small : gid < 8 ^ 7
  size_small : size < 8 ^ 11
  mtime_small : mtime < 8 ^ 11

/-- A header with these numbers, between the name field and the fields behind the modification time. -/
def Numbers.header (numbers : Numbers) (name rest : List UInt8) : List UInt8 :=
  name ++ (octalField 8 numbers.mode ++ (octalField 8 numbers.uid ++ (octalField 8 numbers.gid ++
    (octalField 12 numbers.size ++ (octalField 12 numbers.mtime ++ rest)))))

/-! ### Decoders with a copy of the field -/

/-- The bytes that `strcpy` reads, and writes, for the string at the start of `text`; the last one is
    the zero byte. -/
def strcpyCount (text : List UInt8) : Nat := (cstr text).length + 1

/-- `struct timespec`. -/
structure Timespec where
  tvSec : Int
  tvNsec : Int
deriving DecidableEq, Repr

/-- `ns_to_timespec`: the seconds are rounded down. -/
def nsToTimespec (nsec : Int) : Timespec := ⟨nsec / 1000000000, nsec % 1000000000⟩

namespace Afedosenko

/-- The table `offsets`, filled by `init_offsets`. -/
def offsets : List OffLen :=
  offLensFrom 0 [100, 8, 8, 8, 12, 12, 8, 1, 100, 6, 2, 32, 32, 8, 8, 155]

/-- `get_long_field` of a field of the table. -/
def longField (junk : Junk) (data : List UInt8) (field : Nat) : Option Int :=
  getLongField junk data (entry offsets field).offset (entry offsets field).length

def getTarMtime (junk : Junk) (data : List UInt8) : Option Timespec :=
  (longField junk data mtimeField).map fun mtime => nsToTimespec (int64 (mtime * 1000000000))

def getTarUid (junk : Junk) (data : List UInt8) : Option Int := (longField junk data uidField).map int32

def getTarGid (junk : Junk) (data : List UInt8) : Option Int := (longField junk data gidField).map int32

def getSize (junk : Junk) (data : List UInt8) : Option Int := longField junk data sizeField

def getMode (junk : Junk) (data : List UInt8) : Option Int := (longField junk data modeField).map int32

end Afedosenko

namespace Pbelousov

/-- The table `ustar_offsets`, which gives the length first. -/
def ustarOffsets : List OffLen :=
  [⟨0, 100⟩, ⟨100, 8⟩, ⟨108, 8⟩, ⟨116, 8⟩, ⟨124, 12⟩, ⟨136, 12⟩, ⟨148, 8⟩, ⟨156, 1⟩, ⟨157, 100⟩,
    ⟨257, 6⟩, ⟨263, 2⟩, ⟨265, 32⟩, ⟨297, 32⟩, ⟨329, 8⟩, ⟨337, 8⟩, ⟨345, 155⟩]

/-- `get_tar_octal_field` of a field of the table. -/
def octalFieldOf (junk : Junk) (data : List UInt8) (field : Nat) : Int :=
  getTarOctalField junk data (entry ustarOffsets field).offset

def getTarMtime (junk : Junk) (data : List UInt8) : Timespec :=
  nsToTimespec (int64 (1000000000 * octalFieldOf junk data mtimeField))

def getTarUid (junk : Junk) (data : List UInt8) : Int := int32 (octalFieldOf junk data uidField)

def getTarGid (junk : Junk) (data : List UInt8) : Int := int32 (octalFieldOf junk data gidField)

def getTarSize (junk : Junk) (data : List UInt8) : Nat := wrap64 (octalFieldOf junk data sizeField)

def getTarMode (junk : Junk) (data : List UInt8) : Int := int32 (octalFieldOf junk data modeField)

end Pbelousov

namespace Ksaltuk

/-- The bytes `read_octal_int` reads. -/
def readCount (text : List UInt8) : Nat := (text.takeWhile fun c => c ≠ 32 ∧ c ≠ 0).length + 1

end Ksaltuk

/-- A field of `width` bytes somewhere in a header: the three decoders return the value written to it,
    read nothing behind the field, and `strcpy` writes nothing behind `mem`, which has one byte more than
    the field and is filled from its second byte on. -/
def DecodesField (junk : Junk) (width value : Nat) (before after : List UInt8) : Prop :=
  let data := before ++ (octalField width value ++ after)
  Afedosenko.getLongField junk data before.length width = some (value : Int) ∧
    Pbelousov.getTarOctalField junk data before.length = value ∧
    Ksaltuk.readOctalInt (data.drop before.length) = value ∧
    strcpyCount (data.drop before.length) ≤ width ∧
    1 + strcpyCount (data.drop before.length) ≤ width + 1 ∧
    Ksaltuk.readCount (data.drop before.length) ≤ width

/-- The accessors of afedosenko and of pbelousov, and the fields of ksaltuk, give the numbers of the
    header; the modification time in nanoseconds fits in a signed 64-bit integer. -/
def AccessorsReturn (junk : Junk) (numbers : Numbers) (data : List UInt8) : Prop :=
  (Afedosenko.getMode junk data = some (numbers.mode : Int) ∧
      Afedosenko.getTarUid junk data = some (numbers.uid : Int) ∧
      Afedosenko.getTarGid junk data = some (numbers.gid : Int) ∧
      Afedosenko.getSize junk data = some (numbers.size : Int) ∧
      Afedosenko.getTarMtime junk data = some ⟨numbers.mtime, 0⟩) ∧
    (Pbelousov.getTarMode junk data = numbers.mode ∧ Pbelousov.getTarUid junk data = numbers.uid ∧
      Pbelousov.getTarGid junk data = numbers.gid ∧ Pbelousov.getTarSize junk data = numbers.size ∧
      Pbelousov.getTarMtime junk data = ⟨numbers.mtime, 0⟩) ∧
    (Ksaltuk.readOctalInt (data.drop 100) = numbers.mode ∧
      Ksaltuk.readOctalInt (data.drop 108) = numbers.uid ∧
      Ksaltuk.readOctalInt (data.drop 116) = numbers.gid ∧
      Ksaltuk.readOctalInt (data.drop 124) = numbers.size ∧
      Ksaltuk.readOctalInt (data.drop 136) = numbers.mtime) ∧
    numbers.mtime * 1000000000 < 9223372036854775808

/-! ### Decoders with `%hi`, `%u` and `%i` -/

/-- The number that `sscanf(text, "%u", …)` stores in an unsigned 32-bit integer, if it stores one. -/
def scanUnsigned (text : List UInt8) : Option Nat :=
  match text.dropWhile isSpace with
  | [] => none
  | c :: rest => if isDigit c then some (digitsValue 10 (c :: rest) 0 % 4294967296) else none

namespace Aboyaritsev

/-- The table `off_lens`, filled by `init_off_lens` from `widthes`. -/
def offLens : List OffLen :=
  offLensFrom 0 [100, 8, 8, 8, 12, 12, 8, 1, 100, 6, 2, 32, 32, 8, 8, 167]

/-- `get_tar_field` of a field of the table. -/
def tarField (pos : DiskPosition) (field : Nat) : List UInt8 :=
  getTarField pos (entry offLens field).offset (entry offLens field).length

/-- The file type of `get_mode`: `S_IFREG`, `S_IFDIR` or none, as `short`. -/
def typeBits (type : UInt8) : BitVec 16 := if type = 48 then 0x8000 else if type = 53 then 0x4000 else 0

/-- `get_mode`: the file type and the number of the mode field, read with `%hi`. -/
def getMode (junk : Junk) (pos : DiskPosition) : Nat :=
  let d := match scanSigned (cstr (tarField pos modeField ++ junk.behind)) with
    | some value => value
    | none => junk.value
  (typeBits ((tarField pos typeflagField).headD 0) ||| BitVec.ofInt 16 d).toNat

/-- The number of a field, read with `%u`; where nothing is stored, -1. -/
def unsignedField (junk : Junk) (pos : DiskPosition) (field : Nat) : Nat :=
  match scanUnsigned (cstr (tarField pos field ++ junk.behind)) with
  | some value => value
  | none => 4294967295

def getUid (junk : Junk) (pos : DiskPosition) : Nat := unsignedField junk pos uidField

def getGid (junk : Junk) (pos : DiskPosition) : Nat := unsignedField junk pos gidField

/-- The accessors give the numbers of the header, `get_mode` in its permission bits. -/
def FieldsReturn (junk : Junk) (numbers : Numbers) (pos : DiskPosition) : Prop :=
  getMode junk pos % 8 ^ 4 = numbers.mode ∧ getUid junk pos = numbers.uid ∧
    getGid junk pos = numbers.gid ∧ getSize junk pos = numbers.size

end Aboyaritsev

end Nfs4Compound.Tar
