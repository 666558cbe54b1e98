/-
Module: Nfs4Compound.Tar.Pbelousov
Layer: Tar
Purpose: Names in the driver of pbelousov: how a member's name is assembled in a buffer, how it is
  compared with a path (`name_header_cmp`, `seek_header`) and with a directory (`is_child_file`,
  `tfs_readdir`); and beside it what a ustar path is.
Imports: Nfs4Compound.Tar.Drivers
Trusted boundary: memory that is read without having been written holds arbitrary junk
Main exports: tarName, seekHeader, isChildFile, readdirLoop, ustarPath, Entry, archive, firstMember,
  lastComponent
-/
import Nfs4Compound.Tar.Drivers

namespace Nfs4Compound.Tar

open CText

/-! ### What a ustar archive says -/

/-- The path of a member: the prefix, a slash if there is one, and the name; without a leading `./`
    and a trailing slash. -/
def ustarPath (m : Member) : List UInt8 :=
  let full := if m.namePrefix = [] then m.name else m.namePrefix ++ slash :: m.name
  dropSlash (if full.take 2 = [period, slash] then full.drop 2 else full)

/-- The last component of a path whose parent directory is `d`, where `[]` is the root.  Several
    slashes count as one. -/
def lastComponent (d path : List UInt8) : Option (List UInt8) :=
  let component := (path.reverse.takeWhile (· ≠ slash)).reverse
  let parent := ((path.reverse.dropWhile (· ≠ slash)).dropWhile (· = slash)).reverse
  if component ≠ [] ∧ parent = d then some component else none

/-- Zero blocks behind the one that ends the archive. -/
def padding (blocks : Nat) : List UInt8 := List.replicate (512 * blocks) 0

/-! ### Files of any size -/

/-- One file of an archive as `get_header` sees it: a header whose size field tells the size, and whole
    blocks of data. -/
structure Entry where
  header : List UInt8
  size : Nat
  data : List UInt8
  header_length : header.length = 512
  size_small : size < 8 ^ 11
  size_field : ∃ after, header.drop 124 = octalField 12 size ++ after
  data_length : data.length = 512 * blocksOf size

def Entry.bytes (e : Entry) : List UInt8 := e.header ++ e.data

/-- The room the file takes on the device. -/
def Entry.span (e : Entry) : Nat := 512 + 512 * blocksOf e.size

/-- A device with these files, the zero block that ends the archive, and more zero blocks. -/
def archive (entries : List Entry) (blocks : Nat) : List UInt8 :=
  entries.flatMap Entry.bytes ++ padding (blocks + 1)

namespace Pbelousov

/-! ### Names -/

/-- The buffer `get_tar_name` fills: the prefix field and the name field as strings, one behind the
    other, in memory that held junk. -/
def tarNameBuffer (junk : Junk) (header : List UInt8) : List UInt8 :=
  let first := strncpy 155 (header.drop 345) ++ junk.behind
  let len := (cstr first).length
  (first.take len ++ (strncpy 100 header ++ first.drop (len + 100))).set 255 0

/-- `get_tar_name`. -/
def tarName (junk : Junk) (header : List UInt8) : List UInt8 := cstr (tarNameBuffer junk header)

/-- `get_tar_name` writes past the end of its buffer: the 100 bytes of the name field do not fit behind
    the prefix, which goes on into the junk if it fills its own field. -/
def nameOverruns (junk : Junk) (header : List UInt8) : Bool :=
  256 < (cstr (strncpy 155 (header.drop 345) ++ junk.behind)).length + 100

/-- How many bytes the comparisons skip: two if the name begins with a period. -/
def skipped (name : List UInt8) : Nat := if name.head? = some period then 2 else 0

/-- A name as `name_header_cmp` compares it.  Where nothing is left of it behind what is skipped, the byte
    that is tested for a slash, and cleared if it is one, lies before the text compared. -/
def asCompared (name : List UInt8) : List UInt8 := dropSlash (name.drop (skipped name))

/-- The name of a header as it is compared. -/
def comparedName (junk : Junk) (header : List UInt8) : List UInt8 := asCompared (tarName junk header)

/-- How `seek_header` ends: with the ordinal and the data offset of a member, without, or not at all
    because a name is copied past the end of its buffer. -/
inductive Seek where
  | found (number start : Nat)
  | notFound
  | overrun
  | unfinished
deriving DecidableEq, Repr

/-- What looking for a path should give: the first member of that path, with its ordinal and where its
    data starts. -/
def firstMember (members : List Member) (path : List UInt8) : Seek :=
  match members.findIdx? (fun m => ustarPath m = path) with
  | some j => .found (j + 1) (Tar.offset members j + 512)
  | none => .notFound

/-- The loop of `seek_header`, for a path without its leading slash. -/
def seekHeader (device : List UInt8) (junk : Junk) (path : List UInt8) : Nat → HeaderPos → Seek
  | 0, _ => .unfinished
  | fuel + 1, pos =>
      match getHeader device junk pos with
      | none => .notFound
      | some (header, next) =>
          if nameOverruns junk header then .overrun
          else if comparedName junk header = path then .found next.num (next.offset + 512)
          else seekHeader device junk path fuel next

/-! ### Children -/

/-- What `is_child_file` returns: 0, 1 with the name of the child, or not at all because a name is copied
    past the end of its buffer. -/
inductive ChildTest where
  | no
  | yes (child : List UInt8)
  | overrun
deriving DecidableEq, Repr

/-- `is_child_file`, for a directory path without its leading slash; `before` is the byte in front of
    the name buffer.  The length of the name is of type `size_t`: below zero it is huge, and then the
    copying only stops at a slash. -/
def isChildFile (junk : Junk) (before : UInt8) (fileName : List UInt8) (header : List UInt8) :
    ChildTest :=
  let buf := tarNameBuffer junk header
  let name := cstr buf
  let start := skipped name
  let endsInSlash := name.getLast?.getD before = slash
  let len : Int := (name.length : Int) - start - (if endsInSlash then 1 else 0)
  let strptr := (if endsInSlash then buf.set (name.length - 1) 0 else buf).drop start
  if nameOverruns junk header then .overrun
  else if 0 ≤ len ∧ len ≤ fileName.length then .no
  else if (cstr strptr).take fileName.length ≠ fileName then .no
  else
    let rest := (strptr.drop fileName.length).dropWhile (· = slash)
    if 0 ≤ len then
      let child := rest.take (len - fileName.length -
        ((strptr.drop fileName.length).takeWhile (· = slash)).length).toNat
      if slash ∈ child then .no else .yes child
    else if slash ∈ rest.take 256 then .no else .overrun

/-- The loop of `tfs_readdir`: the entries given to `filldir`, with their numbers, and how it ends. -/
def readdirLoop (device : List UInt8) (junk : Junk) (before : UInt8) (dir : List UInt8) :
    Nat → HeaderPos → List (List UInt8 × Nat) × Ending
  | 0, _ => ([], .unfinished)
  | fuel + 1, pos =>
      match getHeader device junk pos with
      | none => ([], .notFound)
      | some (header, next) =>
          match isChildFile junk before dir header with
          | .no => readdirLoop device junk before dir fuel next
          | .overrun => ([], .crashed)
          | .yes child =>
              let rest := readdirLoop device junk before dir fuel next
              ((child, next.num) :: rest.1, rest.2)

/-- What a directory should list: of each member whose parent it is, the last component and the
    ordinal; the first member has the ordinal `number + 1`. -/
def children (dir : List UInt8) (members : List Member) (number : Nat) : List (List UInt8 × Nat) :=
  (members.zipIdx (number + 1)).filterMap fun entry =>
    (lastComponent dir (ustarPath entry.1)).map fun child => (child, entry.2)

/-! ### What is asked of the driver -/

/-- `seek_header` finds the first member of the path, with its number and its data, and fails if there
    is none. -/
def FindsFirst (members : List Member) (blocks : Nat) (junk : Junk) (path : List UInt8) : Prop :=
  ∃ enough, ∀ fuel, enough ≤ fuel →
    seekHeader (image members (padding blocks)) junk path fuel initPosStart = firstMember members path

/-- One pass of `tfs_readdir` over a directory lists its children and ends. -/
def ListsChildren (members : List Member) (blocks : Nat) (junk : Junk) (before : UInt8)
    (dir : List UInt8) : Prop :=
  ∃ enough, ∀ fuel, enough ≤ fuel →
    readdirLoop (image members (padding blocks)) junk before dir fuel initPosStart =
      (children dir members 0, .notFound)

/-- A member without a prefix whose name does not begin with a period, unless with `./`. -/
def PlainlyNamed (m : Member) : Prop :=
  m.namePrefix = [] ∧ (m.name.head? = some period → m.name.take 2 = [period, slash])

instance (m : Member) : Decidable (PlainlyNamed m) :=
  inferInstanceAs (Decidable (_ ∧ (_ → _)))

/-! ### Names with a prefix, and hidden ones -/

/-- The prefix as the driver reads it back from its buffer: if it fills its 155 bytes, the junk behind
    them is part of it. -/
def prefixText (junk : Junk) (m : Member) : List UInt8 :=
  m.namePrefix ++ if m.namePrefix.length = 155 then cstr junk.behind else []

/-- What follows a name in the buffer before the next zero byte: junk, if the name fills its 100 bytes
    and reaches behind the zeros that fill up the prefix. -/
def behindName (junk : Junk) (m : Member) : List UInt8 :=
  if m.name.length = 100 ∧ 55 ≤ (prefixText junk m).length then
    cstr (junk.behind.drop ((prefixText junk m).length - 55))
  else []

/-- The name the driver puts together: prefix and name without a slash between them. -/
def joinedName (junk : Junk) (m : Member) : List UInt8 :=
  (prefixText junk m ++ (m.name ++ behindName junk m)).take 255

/-- There is a zero behind the prefix and behind the name, and `joinedName` has no junk. -/
def Terminated (m : Member) : Prop :=
  m.namePrefix.length < 155 ∧ (m.name.length < 100 ∨ m.namePrefix.length < 55)

instance (m : Member) : Decidable (Terminated m) := inferInstanceAs (Decidable (_ ∧ (_ ∨ _)))

/-- A member with a prefix or a hidden name does not get in the way of the search for a path: the path is
    neither its own, by which it is not found, nor prefix and name without a slash between them, or a
    hidden name without its first two bytes.  Only where junk in the name happens to make up its path is
    the member found by it. -/
def OutOfTheWay (junk : Junk) (path : List UInt8) (m : Member) : Prop :=
  if Terminated m then ustarPath m ≠ path ∧ asCompared (m.namePrefix ++ m.name) ≠ path
  else
    (prefixText junk m).length ≤ 156 ∧
      (asCompared (joinedName junk m) = ustarPath m ∨
        ustarPath m ≠ path ∧ asCompared (joinedName junk m) ≠ path)

/-- What is left of a path behind the directory is taken for a name of a child although it is none:
    it is all slashes, or it has no slash at all. -/
def Mistaken (dir path : List UInt8) : Prop :=
  ∃ rest, path = dir ++ rest ∧ rest ≠ [] ∧
    ((∀ c ∈ rest, c = slash) ∨ (dir ≠ [] ∧ slash ∉ rest))

/-- A text goes on behind the directory, with any number of slashes, none included, and then this child
    without a slash. -/
def ReadsAsChild (dir text child : List UInt8) : Prop :=
  text ≠ dir ∧ slash ∉ child ∧ ∃ n, text = dir ++ (List.replicate n slash ++ child)

/-- Where a path is that of a child of the directory, a text goes on behind the directory with slashes and
    this child; where it is not, the text does not go on with slashes and a text without a slash. -/
def StandsFor (dir text path : List UInt8) : Prop :=
  match lastComponent dir path with
  | some child => ReadsAsChild dir text child
  | none => ∀ child, ¬ReadsAsChild dir text child

/-- What `is_child_file` should return for a member. -/
def verdict (dir : List UInt8) (m : Member) : ChildTest :=
  match lastComponent dir (ustarPath m) with
  | some child => .yes child
  | none => .no

/-- The names of a member are such that it is listed just where it belongs.  A plainly named one is not
    mistaken for a child.  The entry `./` of the root is no child of the root, but its length is below
    zero, and the copying has to come to a slash.  Of any other, prefix and name without a slash between
    them, or a hidden name without its first two bytes, stand for its path. -/
def JudgedRightly (junk : Junk) (dir : List UInt8) (m : Member) : Prop :=
  if PlainlyNamed m ∧ m.name ≠ [period, slash] then ¬Mistaken dir (ustarPath m)
  else if m.namePrefix ++ m.name = [period, slash] then
    dir = [] → slash ∈ (junk.behind.set 100 0).take 103
  else if Terminated m then StandsFor dir (asCompared (m.namePrefix ++ m.name)) (ustarPath m)
  else
    (prefixText junk m).length ≤ 156 ∧ StandsFor dir (asCompared (joinedName junk m)) (ustarPath m)

/-- A zero block is no child of the directory: only at the root, and only if the byte in front of the
    name buffer is a slash, the name is copied from behind its end. -/
def EndJudgedRightly (junk : Junk) (before : UInt8) (dir : List UInt8) : Prop :=
  dir = [] → before = slash → slash ∈ junk.behind.take 100

end Pbelousov

end Nfs4Compound.Tar
