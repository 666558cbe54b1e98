/-
Module: Nfs4Compound.Rpc.Export
Layer: Rpc
Purpose: Lookups over the wire.  A server that exports a tree answers the operations of a compound; the
  client sends a LOOKUP or a chain of them, decodes the reply and makes inodes of what it holds, with
  `nfs_fhget` of `fs/nfs/inode.c`.
Imports: Nfs4Compound.Rpc.Server, Nfs4Compound.Rpc.Calls
Trusted boundary: what a server does with the current filehandle, as the protocol defines it; the inode
  cache is a function from what `nfs_find_actor` compares; the calls reach the server and come back
Main exports: nfs4XdrEncLookup, nfs4XdrDecLookup, nfsFhget, Export, Client, Client.lookup,
  Client.chainLookup
-/
import Nfs4Compound.Rpc.Server
import Nfs4Compound.Rpc.Calls

namespace Nfs4Compound.Rpc

open Xdr

/-! ### LOOKUP on the wire -/

/-- `struct nfs4_lookup_arg`. -/
structure LookupArg where
  session : Option Session
  dirFh : NfsFh
  bitmask : Bitmap
  name : Bytes

/-- `nfs4_xdr_enc_lookup` into an empty buffer of `room` bytes. -/
def nfs4XdrEncLookup (labelWord : UInt32) (room : Nat) (args : LookupArg) : Option XdrStream := do
  let xdr ← encodeCompoundHdr (nfs4XdrMinorversion args.session)
    { out := [], room, nops := 0, nopsAt := 0 }
  let xdr ← encodeSequence args.session xdr
  let xdr ← encodePutfh args.dirFh xdr
  let xdr ← encodeLookup args.name xdr
  let xdr ← encodeGetfh xdr
  let xdr ← encodeGetfattr labelWord args.bitmask xdr
  pure (encodeNops xdr)

/-- `NFS4_enc_lookup_sz`. -/
def encLookupSz : Nat :=
  compoundEncodeHdrMaxsz + encodeSequenceMaxsz + encodePutfhMaxsz + encodeLookupMaxsz +
    encodeGetattrMaxsz + encodeGetfhMaxsz

/-- `nfs4_xdr_dec_lookup`; the handle and the attributes of the result are those of slot 0. -/
def nfs4XdrDecLookup (idmap : IdMap) (session : Option Session) : Decode Unit := do
  decodeCompoundHdr
  decodeSequence session
  decodePutfh
  decodeLookup
  decodeGetfh 0
  decodeGetfattrLabel idmap 0

/-- The lookup's decoder on a whole reply. -/
def decodeLookupReply (idmap : IdMap) (session : Option Session) (reply : Bytes) (results : Results) :
    Int × Results :=
  returned ((nfs4XdrDecLookup idmap session).run ⟨reply, 0, results⟩)

/-! ### Inodes -/

/-- What `nfs_find_actor` compares: the file id, the type bits of the mode, and the handle. -/
structure InodeKey where
  fileid : UInt64
  format : UInt16
  handle : Bytes
deriving DecidableEq

/-- `S_IFMT`. -/
def sIfmt : UInt16 := 0o170000

/-- `fattr->valid & NFS_ATTR_FATTR_*`. -/
def Fattr.has (bit : Nat) (f : Fattr) : Bool := f.valid &&& attrBit bit ≠ 0

/-- `nfs_attr_check_mountpoint`. -/
def nfsAttrCheckMountpoint (fsid : Fsid) (f : Fattr) : Fattr :=
  if f.fsid ≠ fsid then { f with valid := f.valid ||| attrBit 21 } else f

/-- `nfs_attr_use_mounted_on_fileid`. -/
def nfsAttrUseMountedOnFileid (f : Fattr) : Bool := f.has 22 && (f.has 21 || f.has 20)

/-- `nfs_fhget`: the number of the inode, or nothing where it returns an error.  `inodes` is the inode
    cache, which may have no memory for another inode. -/
def nfsFhget (fsid : Fsid) (inodes : InodeKey → Option Nat) (fh : FhBuf) (f : Fattr) : Option Nat :=
  let f := nfsAttrCheckMountpoint fsid f
  if nfsAttrUseMountedOnFileid f then
    if f.has 0 then inodes ⟨f.mountedOnFileid, f.mode &&& sIfmt, fh.data.take fh.size⟩ else none
  else if f.has 11 then
    if f.has 0 then inodes ⟨f.fileid, f.mode &&& sIfmt, fh.data.take fh.size⟩ else none
  else
    none

/-! ### The server -/

theorem nfs4errNofilehandle_ne : (10020 : UInt32) ≠ 0 := by decide

theorem nfs4errStale_ne : (70 : UInt32) ≠ 0 := by decide

/-- `NFS4ERR_NOFILEHANDLE`. -/
def nfs4errNofilehandle : NfsErr := ⟨10020, nfs4errNofilehandle_ne⟩

/-- `NFS4ERR_STALE`. -/
def nfs4errStale : NfsErr := ⟨70, nfs4errStale_ne⟩

/-- A tree of numbered objects that a server exports. -/
structure Export where
  lookup : Nat → Bytes → Except NfsErr Nat
  handle : Nat → NfsFh
  object : NfsFh → Option Nat
  attrs : Nat → Bitmap → AttrReply
  sequence : Session → SequenceReply

/-- An operation on the current object. -/
def Export.exec (tree : Export) : (op : NfsOp) → Option Nat → Except NfsErr (OpReply op) × Option Nat
  | .sequence session, current => (.ok (tree.sequence session), current)
  | .putfh fh, current =>
      match tree.object fh with
      | some object => (.ok (), some object)
      | none => (.error nfs4errStale, current)
  | .lookup name, some dir =>
      match tree.lookup dir name with
      | .ok object => (.ok (), some object)
      | .error error => (.error error, some dir)
  | .getfh, some object => (.ok (tree.handle object), some object)
  | .getattr requested, some object => (.ok (tree.attrs object requested), some object)
  | .lookup _, none => (.error nfs4errNofilehandle, none)
  | .getfh, none => (.error nfs4errNofilehandle, none)
  | .getattr _, none => (.error nfs4errNofilehandle, none)

/-- The server of the tree; its state is the current object of the compound. -/
def Export.server (tree : Export) : Server (Option Nat) where
  exec := tree.exec

/-! ### The client -/

/-- The client of one mount.  Sessions and buffers belong to the call with a number; `handle` is
    `NFS_FH` of an inode, and `fsid` that of the superblock. -/
structure Client where
  session : Nat → Option Session
  labelWord : UInt32
  bitmask : Bitmap
  idmap : IdMap
  fsid : Fsid
  handle : Nat → NfsFh
  inodes : InodeKey → Option Nat
  buffers : Nat → Results
  recovery : Recovery

/-- The inode that `nfs_fhget` makes of a slot. -/
def Client.made (client : Client) (results : Results) (k : Nat) : Option Nat :=
  nfsFhget client.fsid client.inodes (results.fhandles k) (results.fattrs k)

/-- `nfs4_proc_lookup` and the `nfs_fhget` behind it, the whole way to the server and back; nothing where
    the request does not fit its buffer, or the call is made again.  The status of a compound is the word
    at the start of its reply. -/
def Client.lookup (client : Client) (tree : Export) (t dir : Nat) (name : Bytes) :
    Option (Int × Option Nat) := do
  let args : LookupArg := ⟨client.session t, client.handle dir, client.bitmask, name⟩
  let xdr ← nfs4XdrEncLookup client.labelWord (4 * encLookupSz) args
  let reply ← serve tree.server none xdr.out
  let status ← nfs4ProcLookupCommon client.recovery (fun _ => .nfs (wordOf reply)) 1
  let decoded := decodeLookupReply client.idmap args.session reply (client.buffers t)
  pure (status, client.made decoded.2 0)

/-- `nfs4_proc_chain_lookup`, in the least send buffer it can get, and what `nfs_fhget` makes of its
    slots. -/
def Client.chainLookup (client : Client) (tree : Export) (t dir : Nat) (names : List Bytes) :
    Option (Int × (Nat → Option Nat)) := do
  let args : ChainLookupArg := ⟨client.session t, client.handle dir, client.bitmask, names⟩
  let xdr ← nfs4XdrEncChainLookup client.labelWord (chainLookupRoom args) args
  let reply ← serve tree.server none xdr.out
  let decoded := decodeReply client.idmap args.session names.length reply (client.buffers t)
  pure (decoded.1, client.made decoded.2)

/-- What a call returns for the outcome of its lookups. -/
def callStatus : Except NfsErr Nat → Int
  | .ok _ => 0
  | .error error => nfs4StatToErrno (asInt32 error.status)

/-- The client and the server are at two ends of one mount: the handle that the client's inode has is the
    one of the object, and the server knows it again, or the object is gone and lookups in it are stale;
    what is found lies in the filesystem of the superblock, and its file id, its type and its handle tell
    it apart from the others; calls start with attributes that hold nothing; and the server refuses
    lookups only with errors that need no recovery. -/
structure Mounted (client : Client) (tree : Export) : Prop where
  handle : ∀ number, client.handle number = tree.handle number
  object : ∀ number, tree.object (tree.handle number) = some number ∨
    tree.object (tree.handle number) = none ∧ ∀ name, tree.lookup number name = .error nfs4errStale
  attrs : ∀ dir name number, tree.lookup dir name = .ok number → ∃ type fileid,
    let attrs := (tree.attrs number (client.bitmask.masked (nfs4FattrBitmap client.labelWord))).attrs
    attrs.type = some type ∧ attrs.fileid = some fileid ∧ attrs.fsid = some client.fsid ∧
      client.inodes ⟨fileid, nfsType2fmt type.code, (tree.handle number).data⟩ = some number
  fresh : ∀ t k, ((client.buffers t).fattrs k).valid = 0
  settled : ∀ dir name error, tree.lookup dir name = .error error →
    -1000 ≤ nfs4StatToErrno (asInt32 error.status)

end Nfs4Compound.Rpc
