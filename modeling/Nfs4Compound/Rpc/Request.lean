/-
Module: Nfs4Compound.Rpc.Request
Layer: Rpc
Purpose: The request side of the CHAIN_LOOKUP compound: the generic encode routines it uses and
  `nfs4_xdr_enc_chain_lookup`, with the buffer that `reserve_space` checks, and the size macros the
  procedure table takes its `p_arglen` from.
Imports: Nfs4Compound.Lib.Xdr
Trusted boundary: human-reviewed model of fs/nfs/nfs4xdr.c; how much room the RPC layer allocates is a
  parameter
Main exports: NfsFh, Session, ChainLookupArg, XdrStream, nfs4XdrEncChainLookup, encChainLookupSz
-/
import Nfs4Compound.Lib.Xdr
import Mathlib.Data.UInt

namespace Nfs4Compound.Rpc

open Xdr

/-! ### Constants and size macros -/

/-- `NFS4_FHSIZE`. -/
def nfs4Fhsize : Nat := 128

/-- `NFS4_MAXNAMLEN`, which is `NAME_MAX`. -/
def nfs4Maxnamlen : Nat := 255

/-- `NFS4_MAX_SESSIONID_LEN`. -/
def nfs4MaxSessionidLen : Nat := 16

/-- `NFS4_MAX_OPS`, as include/uapi/linux/nfs4.h sets it for the chain compounds. -/
def nfs4MaxOps : Nat := 100

/-- The most names one chain lookup carries (`walk_chain` flushes at this length). -/
def chainMax : Nat := 30

def compoundEncodeHdrMaxsz : Nat := 3
def opEncodeHdrMaxsz : Nat := 1
def encodeSequenceMaxsz : Nat := opEncodeHdrMaxsz + quadlen nfs4MaxSessionidLen + 4
def encodePutfhMaxsz : Nat := opEncodeHdrMaxsz + 1 + nfs4Fhsize / 4
def encodeGetfhMaxsz : Nat := opEncodeHdrMaxsz
def nfs4FattrBitmapMaxsz : Nat := 4
def encodeGetattrMaxsz : Nat := opEncodeHdrMaxsz + nfs4FattrBitmapMaxsz
def nfs4NameMaxsz : Nat := 1 + (3 + nfs4Maxnamlen) / 4
def encodeLookupMaxsz : Nat := opEncodeHdrMaxsz + nfs4NameMaxsz

/-- `NFS4_enc_chain_lookup_sz`: the sizes of one header and of one name. -/
def encChainLookupSz : Nat :=
  compoundEncodeHdrMaxsz + encodeSequenceMaxsz + encodePutfhMaxsz + encodeLookupMaxsz +
    encodeGetattrMaxsz + encodeGetfhMaxsz

example : encChainLookupSz = 118 := rfl

/-! ### Operation numbers -/

/-- `enum nfs_opnum4`, the operations of a chain lookup. -/
inductive OpNum where
  | getattr
  | getfh
  | lookup
  | putfh
  | sequence
deriving DecidableEq, Repr

/-- The number an operation has on the wire. -/
def OpNum.code : OpNum → UInt32
  | .getattr => 9
  | .getfh => 10
  | .lookup => 15
  | .putfh => 22
  | .sequence => 53

/-! ### Arguments -/

/-- A file handle: at most `NFS4_FHSIZE` bytes. -/
structure NfsFh where
  data : Bytes
  size_le : data.length ≤ nfs4Fhsize
deriving DecidableEq

/-- What `encode_sequence` reads of the session and its slot. -/
structure Session where
  sessId : Bytes
  sessId_length : sessId.length = nfs4MaxSessionidLen
  seqNr : UInt32
  slotNr : UInt32
  highestUsedSlotid : UInt32
  cacheThis : UInt32
  minorVersion : UInt32

/-- A three-word attribute bitmap. -/
structure Bitmap where
  w0 : UInt32
  w1 : UInt32
  w2 : UInt32
deriving DecidableEq, Repr

/-- `struct nfs4_chain_lookup_arg`: the session of the slot (`none` for minor version 0), the handle of
    the start directory, the attribute mask, and the names of `dchain_list` in order. -/
structure ChainLookupArg where
  session : Option Session
  dirFh : NfsFh
  bitmask : Bitmap
  names : List Bytes

/-- `nfs4_fattr_bitmap`, the mask of attributes GETATTR asks for.  Its third word is empty unless the
    kernel is built with security labels. -/
def nfs4FattrBitmap (labelWord : UInt32) : Bitmap where
  w0 := 2 ^ 1 ||| 2 ^ 3 ||| 2 ^ 4 ||| 2 ^ 8 ||| 2 ^ 20
  w1 := 2 ^ 1 ||| 2 ^ 3 ||| 2 ^ 4 ||| 2 ^ 5 ||| 2 ^ 9 ||| 2 ^ 13 ||| 2 ^ 15 ||| 2 ^ 20 ||| 2 ^ 21 |||
    2 ^ 23
  w2 := labelWord

/-! ### Encode routines -/

/-- The stream being written and the parts of `struct compound_hdr` the routines use: `room` is the
    size of the buffer in bytes, `nopsAt` the place `hdr->nops_p` points to. -/
structure XdrStream where
  out : Bytes
  room : Nat
  nops : Nat
  nopsAt : Nat
deriving DecidableEq

/-- `reserve_space` and the stores behind it.  `none` is the `BUG_ON` for a full buffer. -/
def reserveSpace (nbytes : Nat) (data : Bytes) (xdr : XdrStream) : Option XdrStream :=
  if xdr.out.length + 4 * quadlen nbytes ≤ xdr.room then
    some { xdr with out := xdr.out ++ data }
  else none

/-- `encode_string`. -/
def encodeString (str : Bytes) : XdrStream → Option XdrStream :=
  reserveSpace (4 + str.length) (opaqueBytes str)

/-- `encode_uint32`. -/
def encodeUint32 (n : UInt32) : XdrStream → Option XdrStream := reserveSpace 4 (wordBytes n)

/-- `encode_compound_hdr`, with the empty tag the compound routines leave in `hdr`. -/
def encodeCompoundHdr (minorversion : UInt32) (xdr : XdrStream) : Option XdrStream := do
  let xdr ← encodeString [] xdr
  let xdr' ← reserveSpace 8 (wordBytes minorversion ++ wordBytes (UInt32.ofNat xdr.nops)) xdr
  pure { xdr' with nopsAt := xdr.out.length + 4 }

/-- `encode_op_hdr`. -/
def encodeOpHdr (op : OpNum) (xdr : XdrStream) : Option XdrStream := do
  let xdr ← encodeUint32 op.code xdr
  pure { xdr with nops := xdr.nops + 1 }

/-- `encode_sequence`: nothing without a session. -/
def encodeSequence (session : Option Session) (xdr : XdrStream) : Option XdrStream :=
  match session with
  | none => some xdr
  | some s => do
      let xdr ← encodeOpHdr .sequence xdr
      reserveSpace (nfs4MaxSessionidLen + 16)
        (s.sessId ++ wordBytes s.seqNr ++ wordBytes s.slotNr ++ wordBytes s.highestUsedSlotid ++
          wordBytes s.cacheThis) xdr

/-- `encode_putfh`. -/
def encodePutfh (fh : NfsFh) (xdr : XdrStream) : Option XdrStream := do
  let xdr ← encodeOpHdr .putfh xdr
  encodeString fh.data xdr

/-- `encode_lookup`. -/
def encodeLookup (name : Bytes) (xdr : XdrStream) : Option XdrStream := do
  let xdr ← encodeOpHdr .lookup xdr
  encodeString name xdr

/-- `encode_getfh`. -/
def encodeGetfh (xdr : XdrStream) : Option XdrStream := encodeOpHdr .getfh xdr

/-- The words `encode_getattr_three` sends: trailing zero words of the bitmap are left out. -/
def bitmapBytes (bm : Bitmap) : Bytes :=
  if bm.w2 ≠ 0 then wordBytes 3 ++ wordBytes bm.w0 ++ wordBytes bm.w1 ++ wordBytes bm.w2
  else if bm.w1 ≠ 0 then wordBytes 2 ++ wordBytes bm.w0 ++ wordBytes bm.w1
  else wordBytes 1 ++ wordBytes bm.w0

/-- `encode_getattr_three`. -/
def encodeGetattrThree (bm : Bitmap) (xdr : XdrStream) : Option XdrStream := do
  let xdr ← encodeOpHdr .getattr xdr
  if bm.w2 ≠ 0 then reserveSpace 16 (bitmapBytes bm) xdr
  else if bm.w1 ≠ 0 then reserveSpace 12 (bitmapBytes bm) xdr
  else reserveSpace 8 (bitmapBytes bm) xdr

/-- The bits `encode_getfattr` asks for. -/
def Bitmap.masked (bitmask mask : Bitmap) : Bitmap :=
  { w0 := bitmask.w0 &&& mask.w0, w1 := bitmask.w1 &&& mask.w1, w2 := bitmask.w2 &&& mask.w2 }

/-- `encode_getfattr`, over the third word of `nfs4_fattr_bitmap`. -/
def encodeGetfattr (labelWord : UInt32) (bitmask : Bitmap) : XdrStream → Option XdrStream :=
  encodeGetattrThree (bitmask.masked (nfs4FattrBitmap labelWord))

/-- `encode_nops`: the count goes where the header left room for it.  Its `WARN_ON_ONCE` only logs. -/
def encodeNops (xdr : XdrStream) : XdrStream :=
  { xdr with
    out := xdr.out.take xdr.nopsAt ++ wordBytes (UInt32.ofNat xdr.nops) ++
      xdr.out.drop (xdr.nopsAt + 4) }

/-- `nfs4_xdr_minorversion`. -/
def nfs4XdrMinorversion (session : Option Session) : UInt32 :=
  match session with
  | some s => s.minorVersion
  | none => 0

/-- The body of the loop over `dchain_list`. -/
def encodeComponent (labelWord : UInt32) (bitmask : Bitmap) (name : Bytes) (xdr : XdrStream) :
    Option XdrStream := do
  let xdr ← encodeLookup name xdr
  let xdr ← encodeGetfh xdr
  encodeGetfattr labelWord bitmask xdr

/-- The loop over `dchain_list`. -/
def encodeChain (labelWord : UInt32) (bitmask : Bitmap) :
    List Bytes → XdrStream → Option XdrStream
  | [], xdr => some xdr
  | name :: names, xdr => do
      let xdr ← encodeComponent labelWord bitmask name xdr
      encodeChain labelWord bitmask names xdr

/-- `nfs4_xdr_enc_chain_lookup` into an empty buffer of `room` bytes. -/
def nfs4XdrEncChainLookup (labelWord : UInt32) (room : Nat) (args : ChainLookupArg) :
    Option XdrStream := do
  let xdr ← encodeCompoundHdr (nfs4XdrMinorversion args.session)
    { out := [], room, nops := 0, nopsAt := 0 }
  let xdr ← encodeSequence args.session xdr
  let xdr ← encodePutfh args.dirFh xdr
  let xdr ← encodeChain labelWord args.bitmask args.names xdr
  pure (encodeNops xdr)

/-! ### The operations as the protocol names them -/

/-- One operation of the compound with its arguments. -/
inductive NfsOp where
  | sequence (session : Session)
  | putfh (fh : NfsFh)
  | lookup (name : Bytes)
  | getfh
  | getattr (requested : Bitmap)

/-- The operations a chain of names stands for: for each name its LOOKUP, GETFH and GETATTR. -/
def chainOps (requested : Bitmap) (names : List Bytes) : List NfsOp :=
  names.flatMap fun name => [.lookup name, .getfh, .getattr requested]

/-- The operations of a chain lookup, in order. -/
def requestOps (labelWord : UInt32) (args : ChainLookupArg) : List NfsOp :=
  args.session.toList.map .sequence ++ .putfh args.dirFh ::
    chainOps (args.bitmask.masked (nfs4FattrBitmap labelWord)) args.names

/-- The room `nfs4_proc_chain_lookup` asks for: `p_arglen` words, scaled by the chain length.  The buffer
    that the RPC layer allocates has at least as much. -/
def chainLookupRoom (args : ChainLookupArg) : Nat := 4 * (encChainLookupSz * args.names.length)

end Nfs4Compound.Rpc
