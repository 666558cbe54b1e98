/-
Module: Nfs4Compound.Tar.Readdir
Layer: Tar
Purpose: Reading a directory in several calls on one open file.  The position kept between the calls is
  the offset behind the last header in the driver of pbelousov (`tfs_readdir`, `init_pos_offset`), a
  flag in that of ksaltuk and a count of files in that of aboyaritsev/merge (`tarfs_readdir`).
Imports: Nfs4Compound.Lib.Delivery, Nfs4Compound.Tar.Ksaltuk, Nfs4Compound.Tar.Pbelousov,
  Nfs4Compound.Tar.Aboyaritsev
Trusted boundary: memory that is read without having been written holds arbitrary junk, the same in
  every call; memory can be allocated
Main exports: Pbelousov.readdirCall, Ksaltuk.readdirCall, Aboyaritsev.readdirCall, ReadsOnce
-/
import Nfs4Compound.Lib.Delivery
import Nfs4Compound.Tar.Ksaltuk
import Nfs4Compound.Tar.Pbelousov
import Nfs4Compound.Tar.Aboyaritsev

namespace Nfs4Compound.Tar

open CText Delivery

/-! ### pbelousov -/

namespace Pbelousov

/-- The loop of `init_tar_size`: where `get_header` fails. -/
def initTarSizeLoop (device : List UInt8) (junk : Junk) : Nat → HeaderPos → Option Nat
  | 0, _ => none
  | fuel + 1, pos =>
      match getHeader device junk pos with
      | none => some pos.offsetNextHeader
      | some (_, next) => initTarSizeLoop device junk fuel next

/-- `init_tar_size`. -/
def initTarSize (device : List UInt8) (junk : Junk) (fuel : Nat) : Option Nat :=
  initTarSizeLoop device junk fuel initPosStart

/-- How `init_pos_offset` ends: with a position, or with `-EINVAL`. -/
inductive PosInit where
  | standing (pos : HeaderPos)
  | invalid
  | unfinished
deriving DecidableEq, Repr

/-- The loop of `init_pos_offset`. -/
def initPosOffsetLoop (device : List UInt8) (junk : Junk) (offset : Nat) : Nat → HeaderPos → PosInit
  | 0, _ => .unfinished
  | fuel + 1, pos =>
      match getHeader device junk pos with
      | none => .invalid
      | some (_, next) =>
          if offset < next.offsetNextHeader then .invalid
          else if next.offsetNextHeader = offset then .standing next
          else initPosOffsetLoop device junk offset fuel next

/-- `init_pos_offset`. -/
def initPosOffset (device : List UInt8) (junk : Junk) (tarSize offset fuel : Nat) : PosInit :=
  if offset = 0 then .standing initPosStart
  else if offset = tarSize then .standing { initPosStart with offsetNextHeader := offset }
  else if offset < tarSize then initPosOffsetLoop device junk offset fuel initPosStart
  else .invalid

/-- The loop of `tfs_readdir`: the entries given to `filldir`, whose answer is ignored, and the offset
    at which `get_header` fails. -/
def readdirPass (device : List UInt8) (junk : Junk) (before : UInt8) (dir : List UInt8) :
    Nat → HeaderPos → Option (List (List UInt8 × Nat) × Nat)
  | 0, _ => none
  | fuel + 1, pos =>
      match getHeader device junk pos with
      | none => some ([], pos.offsetNextHeader)
      | some (header, next) =>
          match isChildFile junk before dir header with
          | .no => readdirPass device junk before dir fuel next
          | .overrun => none
          | .yes child =>
              (readdirPass device junk before dir fuel next).map fun rest =>
                ((child, next.num) :: rest.1, rest.2)

/-- `tfs_readdir` on an open directory with the position `fPos`. -/
def tfsReaddir (device : List UInt8) (junk : Junk) (before : UInt8) (names : List Component)
    (tarSize fPos fuel : Nat) : Option (List (List UInt8 × Nat) × Nat) :=
  match initPosOffset device junk tarSize fPos fuel with
  | .unfinished => none
  | .invalid => some ([], fPos)
  | .standing pos =>
      match dentryPathRaw names 256 with
      | none => none
      | some path => readdirPass device junk before (path.drop 1) fuel pos

/-- A call of `tfs_readdir` on a file system whose size was determined when it was mounted. -/
def readdirCall (device : List UInt8) (junk : Junk) (before : UInt8) (names : List Component)
    (fuel : Nat) : Call (List UInt8 × Nat) Nat := fun _ fPos =>
  (initTarSize device junk fuel).bind fun tarSize =>
    tfsReaddir device junk before names tarSize fPos fuel

/-- The path of the directory fits in its buffer, and the name of no header is copied past the end of
    its own. -/
def PassReturns (members : List Member) (junk : Junk) (before : UInt8) (names : List Component) : Prop :=
  ∃ path, dentryPathRaw names 256 = some path ∧
    (∀ m ∈ members, isChildFile junk before (path.drop 1) m.header ≠ .overrun) ∧
      isChildFile junk before (path.drop 1) zeroBlock ≠ .overrun

end Pbelousov

/-! ### ksaltuk -/

namespace Ksaltuk

/-- The loop of `tarfs_readdir` with the answers of `dir_emit`, after `n` entries: the entries given to
    it, and whether the loop went to the end of the archive. -/
def readdirAnswered (device : List UInt8) (junk : Junk) (parent : List UInt8) (answers : Answers) :
    Nat → Nat → Int → Option (List (List UInt8 × Int) × Bool)
  | 0, _, _ => none
  | fuel + 1, n, i =>
      match bread device i with
      | none => none
      | some block =>
          if block.head? = some 0 then some ([], true)
          else
            let entry := cstr (block ++ junk.behind)
            let next := nextBlock junk block i
            if parent.length < entry.length ∧ isEntryOf entry parent then
              if answers n then
                (readdirAnswered device junk parent answers fuel (n + 1) next).map fun rest =>
                  ((entry.drop parent.length, i + 1) :: rest.1, rest.2)
              else some ([(entry.drop parent.length, i + 1)], false)
            else readdirAnswered device junk parent answers fuel n next

/-- A call of `tarfs_readdir` on an open directory.  The position becomes 1 at the end of the
    archive. -/
def readdirCall (device : List UInt8) (junk : Junk) (offset : Int) (fuel : Nat) :
    Call (List UInt8 × Int) Int := fun answers pos =>
  if pos = 1 then some ([], pos)
  else
    match if 0 < offset then directoryName device junk offset else some [] with
    | none => none
    | some parent =>
        (readdirAnswered device junk parent answers fuel 0 0).map fun pass =>
          (pass.1, if pass.2 then 1 else pos)

end Ksaltuk

/-! ### aboyaritsev/merge -/

namespace Aboyaritsev

/-- A call of `tarfs_readdir` on an open directory. -/
def readdirCall (device : List UInt8) (junk : Junk) (names : List Component) (fuel : Nat) :
    Call (List UInt8) Int := fun _ fPos =>
  match tarfsReaddir device junk names fPos fuel with
  | .done entries fPos => some (entries, fPos)
  | _ => none

/-- The path of the directory fits in its buffer, the scan ends, and the count of files is not 0 as an
    `int` if there are entries. -/
def PassReturns (members : List Member) (behind : List UInt8) (junk : Junk) (names : List Component) :
    Prop :=
  ∃ path, dentryPathRaw names 100 = some path ∧
    ∃ files, Files (image members behind) junk initDiskPosition files ∧
      (4294967296 ∣ files.length → emittedIn junk path files = [])

end Aboyaritsev

/-! ### What is asked of the drivers -/

section Asked

variable {ε π : Type}

/-- With enough fuel, the calls read everything once. -/
def ReadsOnce (call : Nat → Call ε π) (answers : Nat → Answers) (start : π) : Prop :=
  ∃ enough, ∀ fuel, enough ≤ fuel → ReadOnce (call fuel) answers start

/-- The consumer refuses no entry that is offered to it. -/
def RefusesNoEntry (call : Nat → Call ε π) (answers : Nat → Answers) (start : π) : Prop :=
  ∃ enough, ∀ fuel, enough ≤ fuel → RefusesNone (call fuel) answers start

/-- The consumer accepts at least one entry in every call that offers one. -/
def AcceptsOnePerCall (call : Nat → Call ε π) (answers : Nat → Answers) (start : π) : Prop :=
  ∀ fuel, AcceptsOne (call fuel) answers start

end Asked

end Nfs4Compound.Tar
