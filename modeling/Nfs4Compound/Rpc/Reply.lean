/-
Module: Nfs4Compound.Rpc.Reply
Layer: Rpc
Purpose: The reply side of the CHAIN_LOOKUP compound: the error table, the generic decode routines, the
  attribute decoders in the order `decode_getfattr_attrs` calls them, and `nfs4_xdr_dec_chain_lookup`
  over the arrays of handles, attributes and labels.
Imports: Nfs4Compound.Lib.Reader, Nfs4Compound.Rpc.Request
Trusted boundary: human-reviewed model of fs/nfs/nfs4xdr.c; the identity mapper is a parameter
Main exports: nfs4StatToErrno, Fattr, FhBuf, Results, Decode, nfs4XdrDecChainLookup
-/
import Nfs4Compound.Lib.Reader
import Nfs4Compound.Rpc.Request

namespace Nfs4Compound.Rpc

open Xdr

/-! ### Error numbers -/

def eio : Int := 5
def eremoteio : Int := 121

/-- `nfs_errtbl` without its end mark: NFS status and errno. -/
def nfsErrtbl : List (Int × Int) :=
  [(0, 0), (1, -1), (2, -2), (5, -5), (6, -6), (13, -13), (17, -17), (18, -18), (20, -20), (21, -21),
    (22, -22), (27, -27), (28, -28), (30, -30), (31, -31), (63, -36), (66, -39), (69, -122),
    (70, -116), (10001, -521), (10003, -523), (10004, -524), (10005, -525), (10006, -121),
    (10007, -527), (10012, -11), (10029, -40), (10044, -95), (10045, -35)]

/-- `nfs4_stat_to_errno`. -/
def nfs4StatToErrno (stat : Int) : Int :=
  match nfsErrtbl.find? fun entry => entry.1 = stat with
  | some entry => entry.2
  | none => if stat ≤ 10000 ∨ stat > 10100 then -eremoteio else -stat

/-- Sizes are computed in 32 bits. -/
def wrap32 (n : Nat) : Nat := n % 4294967296

/-- A word read into an `int32_t`. -/
def asInt32 (w : UInt32) : Int := if w.toNat < 2 ^ 31 then w.toNat else (w.toNat : Int) - 2 ^ 32

/-! ### What the decoder fills -/

/-- `struct nfs_fh` as memory: the size and the whole data array. -/
structure FhBuf where
  size : Nat
  data : Bytes
deriving DecidableEq, Repr

/-- After `memset(fh, 0, sizeof(*fh))`. -/
def FhBuf.zero : FhBuf := { size := 0, data := List.replicate nfs4Fhsize 0 }

/-- `struct nfs_fsid`. -/
structure Fsid where
  major : UInt64
  minor : UInt64
deriving DecidableEq, Repr

/-- `struct timespec`, as the bits the wire carries. -/
structure Timespec where
  tvSec : UInt64
  tvNsec : UInt32
deriving DecidableEq, Repr

/-- The fields of `struct nfs_fattr` that GETATTR fills.  `owner_name` and `group_name` are NULL after
    `nfs_fattr_init`, and the chain lookup hands over no threshold to fill. -/
structure Fattr where
  valid : UInt32
  mode : UInt16
  nlink : UInt32
  uid : UInt32
  gid : UInt32
  rdev : UInt32
  size : UInt64
  used : UInt64
  fsid : Fsid
  fileid : UInt64
  mountedOnFileid : UInt64
  atime : Timespec
  mtime : Timespec
  ctime : Timespec
  changeAttr : UInt64
deriving DecidableEq, Repr

/-- `struct nfs4_label`. -/
structure Nfs4Label where
  lfs : UInt32
  pi : UInt32
  label : Bytes
deriving DecidableEq, Repr

/-- The arrays of `struct nfs4_chain_lookup_res`, and the bitmap of the GETATTR being decoded (a local
    of `decode_getfattr_generic`, passed down by pointer). -/
structure Results where
  fhandles : Nat → FhBuf
  fattrs : Nat → Fattr
  labels : Nat → Option Nfs4Label
  bitmap : Bitmap

/-- Replace one slot of an array. -/
def setSlot {α : Type} (slots : Nat → α) (i : Nat) (value : α) : Nat → α :=
  fun j => if j = i then value else slots j

/-- `nfs_map_name_to_uid` and `nfs_map_group_to_gid`: from the name and the present value of the id,
    the value left there and whether the call returned 0. -/
structure IdMap where
  uid : Bytes → UInt32 → UInt32 × Bool
  gid : Bytes → UInt32 → UInt32 × Bool

abbrev Decode (α : Type) := Reader Int Results α

/-! ### Generic routines -/

/-- `xdr_inline_decode`, with the `-EIO` every caller returns for a short buffer. -/
def xdrInlineDecode (nbytes : Nat) : Decode Bytes := inline (-eio) nbytes

/-- One word. -/
def decodeWord : Decode UInt32 := do
  let p ← xdrInlineDecode 4
  pure (wordOf p)

/-- A 64-bit value. -/
def decodeHyper : Decode UInt64 := do
  let p ← xdrInlineDecode 8
  pure (hyperOf (wordOf p) (wordOf (p.drop 4)))

/-- The operation count stands behind the tag; a reply without operations returns its status. -/
def decodeTag (status : Int) (taglen : Nat) : Decode Unit := do
  let tag ← xdrInlineDecode (wrap32 (taglen + 4))
  let nops := wordOf (tag.drop (4 * (wrap32 (taglen + 3) / 4)))
  if nops.toNat < 1 ∧ nfs4StatToErrno status ≠ 0 then throw (nfs4StatToErrno status) else pure ()

/-- `decode_compound_hdr`. -/
def decodeCompoundHdr : Decode Unit := do
  let p ← xdrInlineDecode 8
  decodeTag (asInt32 (wordOf p)) (wordOf (p.drop 4)).toNat

/-- `decode_op_hdr`. -/
def decodeOpHdr (expected : OpNum) : Decode Unit := do
  let p ← xdrInlineDecode 8
  if wordOf p ≠ expected.code then throw (-eremoteio)
  else
    let nfserr := asInt32 (wordOf (p.drop 4))
    if nfserr = 0 then pure () else throw (nfs4StatToErrno nfserr)

/-- `decode_sequence`: nothing without a session.  What it stores of the reply is not read by the
    chain lookup. -/
def decodeSequence (session : Option Session) : Decode Unit :=
  match session with
  | none => pure ()
  | some s => do
      decodeOpHdr .sequence
      let id ← xdrInlineDecode nfs4MaxSessionidLen
      if id ≠ s.sessId then throw (-eremoteio)
      else
        let p ← xdrInlineDecode 20
        if wordOf p ≠ s.seqNr then throw (-eremoteio)
        else if wordOf (p.drop 4) ≠ s.slotNr then throw (-eremoteio)
        else pure ()

/-- `decode_putfh`. -/
def decodePutfh : Decode Unit := decodeOpHdr .putfh

/-- `decode_lookup`. -/
def decodeLookup : Decode Unit := decodeOpHdr .lookup

/-- Store into `fhandles[i]`. -/
def setFhandle (i : Nat) (f : FhBuf → FhBuf) : Decode Unit :=
  modifySide fun r => { r with fhandles := setSlot r.fhandles i (f (r.fhandles i)) }

/-- `decode_getfh` into `fhandles[i]`. -/
def decodeGetfh (i : Nat) : Decode Unit := do
  setFhandle i fun _ => FhBuf.zero
  decodeOpHdr .getfh
  let len ← decodeWord
  if len.toNat > nfs4Fhsize then throw (-eio)
  else
    setFhandle i fun fh => { fh with size := len.toNat }
    let p ← xdrInlineDecode len.toNat
    setFhandle i fun fh => { fh with data := p ++ fh.data.drop p.length }

/-! ### Attributes -/

/-- Which word of the bitmap an attribute stands in. -/
inductive BitmapWord where
  | word0
  | word1
  | word2
deriving DecidableEq, Repr

def Bitmap.get (bm : Bitmap) : BitmapWord → UInt32
  | .word0 => bm.w0
  | .word1 => bm.w1
  | .word2 => bm.w2

def Bitmap.set (bm : Bitmap) (value : UInt32) : BitmapWord → Bitmap
  | .word0 => { bm with w0 := value }
  | .word1 => { bm with w1 := value }
  | .word2 => { bm with w2 := value }

/-- The mask of one attribute in its word. -/
def attrBit (bit : Nat) : UInt32 := UInt32.ofNat (2 ^ bit)

/-- `decode_attr_bitmap` into the local bitmap. -/
def decodeAttrBitmap : Decode Unit := do
  let bmlen ← decodeWord
  modifySide fun r => { r with bitmap := { w0 := 0, w1 := 0, w2 := 0 } }
  let p ← xdrInlineDecode (wrap32 (bmlen.toNat * 4))
  modifySide fun r => { r with bitmap :=
    { w0 := if bmlen.toNat > 0 then wordOf p else 0
      w1 := if bmlen.toNat > 1 then wordOf (p.drop 4) else 0
      w2 := if bmlen.toNat > 2 then wordOf (p.drop 8) else 0 } }

/-- `decode_attr_length`: the length and the position behind it. -/
def decodeAttrLength : Decode (UInt32 × Nat) := do
  let attrlen ← decodeWord
  let savep ← streamPos
  pure (attrlen, savep)

/-- `verify_attr_len`. -/
def verifyAttrLen (savep : Nat) (attrlen : UInt32) : Decode Unit := do
  let pos ← streamPos
  if wrap32 (attrlen.toNat + 3) / 4 ≠ (pos - savep) / 4 then throw (-eio) else pure ()

/-- What the attribute decoders share: an attribute that should have been taken before is an error, an
    attribute that is there is read and its bit is cleared. -/
def attrValue {α : Type} (word : BitmapWord) (bit : Nat) (read : Decode α) : Decode (Option α) := do
  let r ← getSide
  if r.bitmap.get word &&& (attrBit bit - 1) ≠ 0 then throw (-eio)
  else if r.bitmap.get word &&& attrBit bit ≠ 0 then do
    let value ← read
    modifySide fun r =>
      { r with bitmap := r.bitmap.set (r.bitmap.get word &&& ~~~(attrBit bit)) word }
    pure (some value)
  else pure none

/-- Update `fattrs[i]`. -/
def setFattr (i : Nat) (f : Fattr → Fattr) : Decode Unit :=
  modifySide fun r => { r with fattrs := setSlot r.fattrs i (f (r.fattrs i)) }

/-- Store an attribute that is there into `fattrs[i]`. -/
def storeAttr {α : Type} (i : Nat) (store : α → Fattr → Fattr) (v : Option α) : Decode Unit :=
  match v with
  | some a => setFattr i (store a)
  | none => pure ()

/-- `valid |= status`, with one of `NFS_ATTR_FATTR_*` when the attribute is there. -/
def Fattr.markIf (present : Bool) (bit : Nat) (f : Fattr) : Fattr :=
  { f with valid := f.valid ||| (if present then attrBit bit else 0) }

/-- An attribute decoder and the bookkeeping of `decode_getfattr_attrs` around it: the field is set to
    its default first, and to the value, with its `valid` bit, when the attribute is there. -/
def decodeField {α β : Type} (word : BitmapWord) (bit : Nat) (read : Decode α)
    (set : β → Fattr → Fattr) (default : β) (value : α → β) (valid i : Nat) : Decode Unit := do
  setFattr i (set default)
  let v ← attrValue word bit read
  storeAttr i (fun a f => (set (value a) f).markIf true valid) v

/-- `decode_attr_type`: one of `NF4REG` to `NF4NAMEDATTR`. -/
def decodeAttrType : Decode (Option UInt32) :=
  attrValue .word0 1 do
    let type ← decodeWord
    if type.toNat < 1 ∨ type.toNat > 9 then throw (-eio) else pure type

/-- `nfs_type2fmt`. -/
def nfsType2fmt (type : UInt32) : UInt16 :=
  match type.toNat with
  | 1 => 0o100000
  | 2 => 0o040000
  | 3 => 0o060000
  | 4 => 0o020000
  | 5 => 0o120000
  | 6 => 0o140000
  | 7 => 0o010000
  | _ => 0

def decodeAttrChange : Nat → Decode Unit :=
  decodeField .word0 3 decodeHyper (fun v f => { f with changeAttr := v }) 0 id 17

def decodeAttrSize : Nat → Decode Unit :=
  decodeField .word0 4 decodeHyper (fun v f => { f with size := v }) 0 id 6

def decodeFsid : Decode Fsid := do
  let p ← xdrInlineDecode 16
  pure { major := hyperOf (wordOf p) (wordOf (p.drop 4)),
         minor := hyperOf (wordOf (p.drop 8)) (wordOf (p.drop 12)) }

def decodeAttrFsid : Nat → Decode Unit :=
  decodeField .word0 8 decodeFsid (fun v f => { f with fsid := v }) { major := 0, minor := 0 } id 10

/-- `decode_attr_error`: the value stays in a local that nothing reads. -/
def decodeAttrError : Decode Unit := do
  let _ ← attrValue .word0 11 decodeWord
  pure ()

/-- `decode_attr_filehandle` with no handle to fill. -/
def decodeAttrFilehandle : Decode Unit := do
  let _ ← attrValue .word0 19 do
    let len ← decodeWord
    if asInt32 len > nfs4Fhsize then throw (-eio) else xdrInlineDecode len.toNat
  pure ()

def decodeAttrFileid : Nat → Decode Unit :=
  decodeField .word0 20 decodeHyper (fun v f => { f with fileid := v }) 0 id 11

/-- `decode_attr_fs_locations` with no record to fill: a server that sends it all the same is refused. -/
def decodeAttrFsLocations : Decode Unit := do
  let _ ← attrValue .word0 24 (throw (-eio) : Decode Unit)
  pure ()

/-- `tmp & ~S_IFMT`, stored into a `umode_t`. -/
def permBits (tmp : UInt32) : UInt16 := (tmp &&& ~~~0o170000).toUInt16

/-- `decode_attr_mode`: the permission bits join the file type. -/
def decodeAttrMode (i : Nat) : Decode Unit := do
  let mode ← attrValue .word1 1 decodeWord
  storeAttr i (fun v f => { f with mode := f.mode ||| permBits v }.markIf true 1) mode

def decodeAttrNlink : Nat → Decode Unit :=
  decodeField .word1 3 decodeWord (fun v f => { f with nlink := v }) 1 id 2

/-- A counted string. -/
def decodeString : Decode Bytes := do
  let len ← decodeWord
  xdrInlineDecode len.toNat

/-- `XDR_MAX_NETOBJ`. -/
def xdrMaxNetobj : Nat := 1024

/-- `make_kuid(&init_user_ns, -2)`. -/
def nobody : UInt32 := 4294967294

/-- The mapped id of a name, and whether the attribute counts as valid.  Names that are too long are
    not mapped. -/
def mapName (map : Bytes → UInt32 → UInt32 × Bool) (name : Bytes) : UInt32 × Bool :=
  if name.length < xdrMaxNetobj then map name nobody else (nobody, false)

/-- `decode_attr_owner` and `decode_attr_group`: the `valid` bit is set only when the name was mapped. -/
def decodeName (bit : Nat) (map : Bytes → UInt32 → UInt32 × Bool) (set : UInt32 → Fattr → Fattr)
    (valid i : Nat) : Decode Unit := do
  setFattr i (set nobody)
  let v ← attrValue .word1 bit decodeString
  storeAttr i (fun name f => (set (mapName map name).1 f).markIf (mapName map name).2 valid) v

def decodeAttrOwner (idmap : IdMap) : Nat → Decode Unit :=
  decodeName 4 idmap.uid (fun v f => { f with uid := v }) 3

def decodeAttrGroup (idmap : IdMap) : Nat → Decode Unit :=
  decodeName 5 idmap.gid (fun v f => { f with gid := v }) 4

/-- The device number `decode_attr_rdev` stores: `MKDEV`, unless a part does not fit. -/
def rdevOf (major minor : UInt32) : UInt32 :=
  let tmp := (major <<< 20) ||| minor
  if tmp >>> 20 = major ∧ tmp &&& 0xFFFFF = minor then tmp else 0

def decodeRdev : Decode (UInt32 × UInt32) := do
  let p ← xdrInlineDecode 8
  pure (wordOf p, wordOf (p.drop 4))

def decodeAttrRdev : Nat → Decode Unit :=
  decodeField .word1 9 decodeRdev (fun v f => { f with rdev := v }) 0 (fun d => rdevOf d.1 d.2) 5

def decodeAttrSpaceUsed : Nat → Decode Unit :=
  decodeField .word1 13 decodeHyper (fun v f => { f with used := v }) 0 id 9

/-- `decode_attr_time`. -/
def decodeAttrTime : Decode Timespec := do
  let p ← xdrInlineDecode 12
  pure { tvSec := hyperOf (wordOf p) (wordOf (p.drop 4)), tvNsec := wordOf (p.drop 8) }

def Timespec.zero : Timespec := { tvSec := 0, tvNsec := 0 }

def decodeAttrTimeAccess : Nat → Decode Unit :=
  decodeField .word1 15 decodeAttrTime (fun v f => { f with atime := v }) Timespec.zero id 12

def decodeAttrTimeMetadata : Nat → Decode Unit :=
  decodeField .word1 20 decodeAttrTime (fun v f => { f with ctime := v }) Timespec.zero id 14

def decodeAttrTimeModify : Nat → Decode Unit :=
  decodeField .word1 21 decodeAttrTime (fun v f => { f with mtime := v }) Timespec.zero id 13

def decodeAttrMountedOnFileid : Nat → Decode Unit :=
  decodeField .word1 23 decodeHyper (fun v f => { f with mountedOnFileid := v }) 0 id 22

/-- `decode_attr_mdsthreshold` with no threshold to fill. -/
def decodeAttrMdsthreshold : Decode Unit := do
  let _ ← attrValue .word2 4 (throw (-eremoteio) : Decode Unit)
  pure ()

/-- `NFS4_MAXLABELLEN`. -/
def nfs4Maxlabellen : Nat := 2048

/-- `decode_attr_security_label` into `labels[i]`. -/
def decodeAttrSecurityLabel (i : Nat) : Decode Unit := do
  let value ← attrValue .word2 16 do
    let lfs ← decodeWord
    let pi ← decodeWord
    let label ← decodeString
    pure ({ lfs, pi, label } : Nfs4Label)
  match value with
  | some v =>
      if v.label.length < nfs4Maxlabellen then do
        modifySide fun r => { r with labels := setSlot r.labels i (some v) }
        setFattr i (Fattr.markIf true 25)
      else pure ()
  | none => pure ()

/-- The first step of `decode_getfattr_attrs`: the file type goes into a mode that starts at zero. -/
def decodeAttrTypeMode (i : Nat) : Decode Unit := do
  let type ← decodeAttrType
  setFattr i fun f => { f with mode := 0 }
  storeAttr i (fun t f => { f with mode := f.mode ||| nfsType2fmt t }.markIf true 0) type

/-- Its last step, `if (label)`. -/
def decodeAttrLabel (i : Nat) : Decode Unit := do
  let r ← getSide
  match r.labels i with
  | some _ => decodeAttrSecurityLabel i
  | none => pure ()

/-- `decode_getfattr_attrs` into `fattrs[i]` and, when there is one, `labels[i]`. -/
def decodeGetfattrAttrs (idmap : IdMap) (i : Nat) : Decode Unit := do
  decodeAttrTypeMode i
  decodeAttrChange i
  decodeAttrSize i
  decodeAttrFsid i
  decodeAttrError
  decodeAttrFilehandle
  decodeAttrFileid i
  decodeAttrFsLocations
  decodeAttrMode i
  decodeAttrNlink i
  decodeAttrOwner idmap i
  decodeAttrGroup idmap i
  decodeAttrRdev i
  decodeAttrSpaceUsed i
  decodeAttrTimeAccess i
  decodeAttrTimeMetadata i
  decodeAttrTimeModify i
  decodeAttrMountedOnFileid i
  decodeAttrMdsthreshold
  decodeAttrLabel i

/-- `decode_getfattr_label`, which is `decode_getfattr_generic` with no handle and no locations. -/
def decodeGetfattrLabel (idmap : IdMap) (i : Nat) : Decode Unit := do
  modifySide fun r => { r with bitmap := { w0 := 0, w1 := 0, w2 := 0 } }
  decodeOpHdr .getattr
  decodeAttrBitmap
  let (attrlen, savep) ← decodeAttrLength
  decodeGetfattrAttrs idmap i
  verifyAttrLen savep attrlen

/-! ### The chain lookup -/

/-- The body of the loop over the components. -/
def decodeComponent (idmap : IdMap) (i : Nat) : Decode Unit := do
  decodeLookup
  decodeGetfh i
  decodeGetfattrLabel idmap i

/-- The loop: `size` components from slot `i` on. -/
def decodeComponents (idmap : IdMap) : (size i : Nat) → Decode Unit
  | 0, _ => pure ()
  | size + 1, i => do
      decodeComponent idmap i
      decodeComponents idmap size (i + 1)

/-- `nfs4_xdr_dec_chain_lookup`. -/
def nfs4XdrDecChainLookup (idmap : IdMap) (session : Option Session) (size : Nat) : Decode Unit := do
  decodeCompoundHdr
  decodeSequence session
  decodePutfh
  decodeComponents idmap size 0

/-- What a routine returns: 0 or the error it stopped with, and the arrays as it leaves them. -/
def returned : EStateM.Result Int (Cursor Results) Unit → Int × Results
  | .ok _ s => (0, s.side)
  | .error status s => (status, s.side)

/-- The chain lookup's decoder on a whole reply. -/
def decodeReply (idmap : IdMap) (session : Option Session) (size : Nat) (reply : Bytes)
    (results : Results) : Int × Results :=
  returned ((nfs4XdrDecChainLookup idmap session size).run ⟨reply, 0, results⟩)

end Nfs4Compound.Rpc
