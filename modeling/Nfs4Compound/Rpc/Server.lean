/-
Module: Nfs4Compound.Rpc.Server
Layer: Rpc
Purpose: The other end of the wire, as the protocol defines it: a server reads the operations out of a
  COMPOUND request, executes them in order on its own state, stops at the first one that fails, and
  replies with the results up to and including that one.  What the operations do is left open.
Imports: Nfs4Compound.Rpc.Reply
Trusted boundary: statement of the peer's behaviour, not a model of code in the repository
Main exports: FileAttrs, OpReply, Server, execute, parseRequest, serve
-/
import Nfs4Compound.Rpc.Reply

namespace Nfs4Compound.Rpc

open Xdr

/-! ### File attributes on the wire -/

/-- `nfs_ftype4`. -/
inductive FileType where
  | reg
  | dir
  | blk
  | chr
  | lnk
  | sock
  | fifo
  | attrdir
  | namedattr
deriving DecidableEq, Repr

def FileType.code : FileType → UInt32
  | .reg => 1
  | .dir => 2
  | .blk => 3
  | .chr => 4
  | .lnk => 5
  | .sock => 6
  | .fifo => 7
  | .attrdir => 8
  | .namedattr => 9

/-- The attributes a chain lookup can ask for; a server leaves out those it does not support. -/
structure FileAttrs where
  type : Option FileType
  change : Option UInt64
  size : Option UInt64
  fsid : Option Fsid
  fileid : Option UInt64
  mode : Option UInt32
  numlinks : Option UInt32
  owner : Option Bytes
  ownerGroup : Option Bytes
  rawdev : Option (UInt32 × UInt32)
  spaceUsed : Option UInt64
  timeAccess : Option Timespec
  timeMetadata : Option Timespec
  timeModify : Option Timespec
  mountedOnFileid : Option UInt64

def timeBytes (t : Timespec) : Bytes := hyperBytes t.tvSec ++ wordBytes t.tvNsec

/-- The attributes of the first bitmap word, by bit number, with their wire form when present. -/
def FileAttrs.fields0 (a : FileAttrs) : List (Nat × Option Bytes) :=
  [(1, (a.type.map FileType.code).map wordBytes), (3, a.change.map hyperBytes),
    (4, a.size.map hyperBytes), (8, a.fsid.map fun f => hyperBytes f.major ++ hyperBytes f.minor),
    (20, a.fileid.map hyperBytes)]

/-- The attributes of the second bitmap word. -/
def FileAttrs.fields1 (a : FileAttrs) : List (Nat × Option Bytes) :=
  [(1, a.mode.map wordBytes), (3, a.numlinks.map wordBytes), (4, a.owner.map opaqueBytes),
    (5, a.ownerGroup.map opaqueBytes),
    (9, a.rawdev.map fun d => wordBytes d.1 ++ wordBytes d.2), (13, a.spaceUsed.map hyperBytes),
    (15, a.timeAccess.map timeBytes), (20, a.timeMetadata.map timeBytes),
    (21, a.timeModify.map timeBytes), (23, a.mountedOnFileid.map hyperBytes)]

/-- The bitmap word that announces the fields which are present. -/
def maskOf : List (Nat × Option Bytes) → Nat
  | [] => 0
  | (bit, some _) :: fields => 2 ^ bit + maskOf fields
  | (_, none) :: fields => maskOf fields

/-- The fields which are present, one after the other. -/
def fieldsBytes : List (Nat × Option Bytes) → Bytes
  | [] => []
  | (_, some data) :: fields => data ++ fieldsBytes fields
  | (_, none) :: fields => fieldsBytes fields

/-- The list of attribute values. -/
def FileAttrs.values (a : FileAttrs) : Bytes := fieldsBytes a.fields0 ++ fieldsBytes a.fields1

/-- The two words of the bitmap. -/
def FileAttrs.word0 (a : FileAttrs) : UInt32 := UInt32.ofNat (maskOf a.fields0)
def FileAttrs.word1 (a : FileAttrs) : UInt32 := UInt32.ofNat (maskOf a.fields1)

/-- A `fattr4` the wire can carry: the values fit their length word, and the bitmap is sent with at
    least the words that are not zero. -/
structure AttrReply where
  attrs : FileAttrs
  fits : attrs.values.length < 2 ^ 32
  bitmapWords : Nat
  bitmapWords_lt : bitmapWords < 2 ^ 30
  sendsWord0 : attrs.word0 ≠ 0 → 1 ≤ bitmapWords
  sendsWord1 : attrs.word1 ≠ 0 → 2 ≤ bitmapWords

/-- The first `words` words of the bitmap; all words after the second are zero. -/
def AttrReply.bitmapData (r : AttrReply) : Bytes :=
  (wordBytes r.attrs.word0 ++ (wordBytes r.attrs.word1 ++ List.replicate (4 * r.bitmapWords) 0)).take
    (4 * r.bitmapWords)

/-- The body of a GETATTR result. -/
def AttrReply.bytes (r : AttrReply) : Bytes :=
  wordBytes (UInt32.ofNat r.bitmapWords) ++ (r.bitmapData ++
    (wordBytes (UInt32.ofNat r.attrs.values.length) ++ r.attrs.values))

/-! ### Results of operations -/

/-- What SEQUENCE adds to the values it echoes. -/
structure SequenceReply where
  highestSlotid : UInt32
  targetHighestSlotid : UInt32
  statusFlags : UInt32

/-- What each operation answers when it succeeds. -/
def OpReply : NfsOp → Type
  | .sequence _ => SequenceReply
  | .putfh _ => Unit
  | .lookup _ => Unit
  | .getfh => NfsFh
  | .getattr _ => AttrReply

/-- The body of a successful result. -/
def okBytes : (op : NfsOp) → OpReply op → Bytes
  | .sequence s, r =>
      s.sessId ++ (wordBytes s.seqNr ++ (wordBytes s.slotNr ++ (wordBytes r.highestSlotid ++
        (wordBytes r.targetHighestSlotid ++ wordBytes r.statusFlags))))
  | .putfh _, _ => []
  | .lookup _, _ => []
  | .getfh, fh => opaqueBytes (NfsFh.data fh)
  | .getattr _, r => AttrReply.bytes r

/-- The number of an operation. -/
def NfsOp.num : NfsOp → OpNum
  | .sequence _ => .sequence
  | .putfh _ => .putfh
  | .lookup _ => .lookup
  | .getfh => .getfh
  | .getattr _ => .getattr

/-- An error status. -/
structure NfsErr where
  status : UInt32
  status_ne : status ≠ 0
deriving DecidableEq

/-- One operation with its outcome. -/
structure OpResult where
  op : NfsOp
  outcome : Except NfsErr (OpReply op)

/-- An error result has no body. -/
def OpResult.bytes (r : OpResult) : Bytes :=
  wordBytes r.op.num.code ++
    match r.outcome with
    | .ok reply => wordBytes 0 ++ okBytes r.op reply
    | .error e => wordBytes e.status

/-- The status the compound as a whole reports: that of its last operation. -/
def OpResult.status (r : OpResult) : UInt32 :=
  match r.outcome with
  | .ok _ => 0
  | .error e => e.status

/-! ### Serving a request -/

/-- What the operations do to the state of the server, and what they answer. -/
structure Server (σ : Type) where
  exec : (op : NfsOp) → σ → Except NfsErr (OpReply op) × σ

/-- Execute in order, up to and including the first operation that fails. -/
def execute {σ : Type} (server : Server σ) : List NfsOp → σ → List OpResult
  | [], _ => []
  | op :: ops, st =>
      match server.exec op st with
      | (.ok reply, st') => ⟨op, .ok reply⟩ :: execute server ops st'
      | (.error e, _) => [⟨op, .error e⟩]

/-- The words of a bitmap; a missing word is zero. -/
def parseBitmap (stream : Bytes) : Option (Bitmap × Bytes) := do
  let (len, stream) ← readWord stream
  let (words, rest) ← inlineDecode (4 * len.toNat) stream
  pure ({ w0 := if 0 < len.toNat then wordOf words else 0
          w1 := if 1 < len.toNat then wordOf (words.drop 4) else 0
          w2 := if 2 < len.toNat then wordOf (words.drop 8) else 0 }, rest)

/-- The arguments of SEQUENCE. -/
def parseSequence (minorVersion : UInt32) (stream : Bytes) : Option (NfsOp × Bytes) := do
  let (sessId, stream) ← inlineDecode nfs4MaxSessionidLen stream
  let (seqNr, stream) ← readWord stream
  let (slotNr, stream) ← readWord stream
  let (highestUsedSlotid, stream) ← readWord stream
  let (cacheThis, rest) ← readWord stream
  if sessId_length : sessId.length = nfs4MaxSessionidLen then
    let session : Session :=
      { sessId := sessId, sessId_length, seqNr, slotNr, highestUsedSlotid, cacheThis, minorVersion }
    pure (.sequence session, rest)
  else none

/-- The operation a number stands for. -/
def OpNum.ofCode (code : UInt32) : Option OpNum :=
  [OpNum.getattr, .getfh, .lookup, .putfh, .sequence].find? fun op => op.code = code

/-- The arguments of an operation. -/
def parseArgs (minorVersion : UInt32) (stream : Bytes) : OpNum → Option (NfsOp × Bytes)
  | .sequence => parseSequence minorVersion stream
  | .putfh => do
      let (data, rest) ← readOpaque stream
      if size_le : data.length ≤ nfs4Fhsize then pure (.putfh ⟨data, size_le⟩, rest) else none
  | .lookup => do
      let (name, rest) ← readOpaque stream
      pure (.lookup name, rest)
  | .getfh => some (.getfh, stream)
  | .getattr => do
      let (requested, rest) ← parseBitmap stream
      pure (.getattr requested, rest)

/-- One operation of a request. -/
def parseOp (minorVersion : UInt32) (stream : Bytes) : Option (NfsOp × Bytes) := do
  let (code, stream) ← readWord stream
  let num ← OpNum.ofCode code
  parseArgs minorVersion stream num

/-- `count` operations. -/
def parseOps (minorVersion : UInt32) : (count : Nat) → Bytes → Option (List NfsOp)
  | 0, _ => some []
  | count + 1, stream => do
      let (op, stream) ← parseOp minorVersion stream
      let ops ← parseOps minorVersion count stream
      pure (op :: ops)

/-- The head of a COMPOUND request: tag, minor version and operation count. -/
def parseHeader (request : Bytes) : Option ((Bytes × UInt32 × UInt32) × Bytes) := do
  let (tag, stream) ← readOpaque request
  let (minorVersion, stream) ← readWord stream
  let (count, stream) ← readWord stream
  pure ((tag, minorVersion, count), stream)

/-- A COMPOUND request: its tag and its operations. -/
def parseRequest (request : Bytes) : Option (Bytes × List NfsOp) :=
  (parseHeader request).bind fun ((tag, minorVersion, count), stream) =>
    (parseOps minorVersion count.toNat stream).map fun ops => (tag, ops)

/-- The status of the last result. -/
def compoundStatus (results : List OpResult) : UInt32 := (results.getLast?.map OpResult.status).getD 0

/-- The header of a reply: the status, the tag of the request, the number of results. -/
def replyHeader (tag : Bytes) (results : List OpResult) : Bytes :=
  wordBytes (compoundStatus results) ++ (opaqueBytes tag ++
    wordBytes (UInt32.ofNat results.length))

/-- A whole reply. -/
def replyBytes (tag : Bytes) (results : List OpResult) : Bytes :=
  replyHeader tag results ++ results.flatMap OpResult.bytes

/-- From the bytes of a request to the bytes of its reply. -/
def serve {σ : Type} (server : Server σ) (st : σ) (request : Bytes) : Option Bytes := do
  let (tag, ops) ← parseRequest request
  pure (replyBytes tag (execute server ops st))

end Nfs4Compound.Rpc
