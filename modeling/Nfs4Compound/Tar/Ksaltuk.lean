/-
Module: Nfs4Compound.Tar.Ksaltuk
Layer: Tar
Purpose: Directories in the driver of ksaltuk: `tarfs_lookup`, which puts the name of the directory and
  the name looked for together, and `tarfs_readdir`, which compares the start of every header with the
  name of the directory.
Imports: Nfs4Compound.Tar.Drivers
Trusted boundary: memory that is read without having been written holds arbitrary junk; `dir_emit`
  accepts every entry
Main exports: tarfsLookup, tarfsReaddir, Reachable, ListingAgrees
-/
import Nfs4Compound.Tar.Drivers

namespace Nfs4Compound.Tar.Ksaltuk

open CText

/-! ### Looking up a name -/

/-- How a lookup ends: with the block of a header, or without. -/
inductive Lookup where
  | found (block : Int)
  | notFound
  | crashed
  | unfinished
deriving DecidableEq, Repr

/-- The loop of `create_inode_by_name`. -/
def createInodeByName (device : List UInt8) (junk : Junk) (name : List UInt8) : Nat → Int → Lookup
  | 0, _ => .unfinished
  | fuel + 1, i =>
      match bread device i with
      | none => .crashed
      | some block =>
          if block.head? = some 0 then .notFound
          else if entryName junk block = name then .found i
          else createInodeByName device junk name fuel (nextBlock junk block i)

/-- The name of a directory, copied into a buffer of 100 bytes.  Nothing if its block cannot be
    read. -/
def directoryName (device : List UInt8) (junk : Junk) (offset : Int) : Option (List UInt8) :=
  (bread device offset).map fun block => cstr (strncpy 100 block ++ junk.behind)

/-- `strncat(name, c, 99 - len)`; the bound is of type `size_t`, so a name of 100 bytes sets none. -/
def fullName (parent c : List UInt8) : List UInt8 :=
  parent ++ if parent.length ≤ 99 then c.take (99 - parent.length) else c

/-- `tarfs_lookup` in the directory whose header is at block `offset`; the root has offset -1. -/
def tarfsLookup (device : List UInt8) (junk : Junk) (offset : Int) (c : List UInt8) (fuel : Nat) :
    Lookup :=
  match if 0 ≤ offset then directoryName device junk offset else some [] with
  | none => .crashed
  | some parent => createInodeByName device junk (fullName parent c) fuel 0

/-! ### Listing a directory -/

/-- `is_entry_of`, for an entry that is longer than the name of the directory. -/
def isEntryOf (entry parent : List UInt8) : Bool :=
  entry.take parent.length = parent ∧ slash ∉ (entry.drop parent.length).dropLast

/-- The loop of `tarfs_readdir`: the entries given to `dir_emit`, with their inode numbers, and how it
    ends. -/
def readdirLoop (device : List UInt8) (junk : Junk) (parent : List UInt8) :
    Nat → Int → List (List UInt8 × Int) × Ending
  | 0, _ => ([], .unfinished)
  | fuel + 1, i =>
      match bread device i with
      | none => ([], .crashed)
      | some block =>
          if block.head? = some 0 then ([], .notFound)
          else
            let entry := cstr (block ++ junk.behind)
            let rest := readdirLoop device junk parent fuel (nextBlock junk block i)
            if parent.length < entry.length ∧ isEntryOf entry parent then
              ((entry.drop parent.length, i + 1) :: rest.1, rest.2)
            else rest

/-- `tarfs_readdir`, from position 0. -/
def tarfsReaddir (device : List UInt8) (junk : Junk) (offset : Int) (fuel : Nat) :
    List (List UInt8 × Int) × Ending :=
  match if 0 < offset then directoryName device junk offset else some [] with
  | none => ([], .crashed)
  | some parent => readdirLoop device junk parent fuel 0

/-! ### Directories of an archive -/

/-- The offset kept for a directory: nothing is the root, else the index of a member. -/
def directoryOffset (members : List Member) : Option Nat → Int
  | none => -1
  | some d => (offset members d / 512 : Nat)

/-- The path of a directory, with its trailing slash. -/
def directoryPath (members : List Member) : Option Nat → List UInt8
  | none => []
  | some d => (members[d]?.map Member.name).getD []

/-- The directories that `tarfs_lookup` reaches from the root. -/
inductive Reachable (members : List Member) (behind : List UInt8) (junk : Junk) : Option Nat → Prop where
  | root : Reachable members behind junk none
  | step {dir : Option Nat} {d fuel : Nat} {c : List UInt8} (parent : Reachable members behind junk dir)
      (inside : d < members.length)
      (found : tarfsLookup (image members behind) junk (directoryOffset members dir) c fuel =
        .found (directoryOffset members (some d)))
      (directory : members[d].name.getLast? = some slash) : Reachable members behind junk (some d)

/-- The listing of a directory is complete, it has the name exactly when a lookup of the name succeeds,
    and then the first member of that name is found. -/
def ListingMatchesLookup (members : List Member) (behind : List UInt8) (junk : Junk) (dir : Option Nat)
    (c : List UInt8) : Prop :=
  ∃ enough, ∀ fuel, enough ≤ fuel →
    let listing := tarfsReaddir (image members behind) junk (directoryOffset members dir) fuel
    let found := tarfsLookup (image members behind) junk (directoryOffset members dir) c fuel
    listing.2 = .notFound ∧ (c ∈ listing.1.map Prod.fst ↔ ∃ block, found = .found block) ∧
      ∀ block, found = .found block →
        ∃ j, members.findIdx? (fun m => dropSlash m.name = directoryPath members dir ++ c) = some j ∧
          block = directoryOffset members (some j)

/-! ### When they agree -/

/-- The string at the start of a header: a name that fills its field goes on with the digits of the
    mode. -/
def headerText (m : Member) : List UInt8 :=
  if m.name.length < 100 then m.name else m.name ++ octalDigits 7 m.mode

/-- The name with which a header is listed as `c`.  For the listing, the directory that is the first
    member is the root. -/
def listedName (members : List Member) (dir : Option Nat) (c : List UInt8) : List UInt8 :=
  if dir = some 0 then c else directoryPath members dir ++ c

/-- The condition on the names of the members.  If the path fits in 99 bytes: a member has the name
    listed as `c`, which is never empty, exactly when one of less than 100 bytes has that path, with or without a trailing
    slash, and the first such one has no name of 100 bytes before it.  Else: there is neither a member
    of the path cut off at 99 bytes nor one that is listed as `c`. -/
def NamesAgree (members : List Member) (dir : Option Nat) (c : List UInt8) : Prop :=
  let path := directoryPath members dir ++ c
  if path.length ≤ 99 then
    ((c ≠ [] ∧ ∃ m ∈ members, m.name = listedName members dir c) ↔
        ∃ m ∈ members, m.name.length < 100 ∧ dropSlash m.name = path) ∧
      ∀ j, members.findIdx? (fun m => m.name.length < 100 ∧ dropSlash m.name = path) = some j →
        members.findIdx? (fun m => dropSlash m.name = path) = some j
  else
    (∀ m ∈ members, m.name.length < 100 → dropSlash m.name ≠ path.take 99) ∧
      (c ≠ [] → ∀ m ∈ members, headerText m ≠ listedName members dir c)

end Nfs4Compound.Tar.Ksaltuk
