/-
Module: Nfs4Compound.Proofs.RequestFits
Layer: Proofs
Purpose: What `nfs4_xdr_enc_chain_lookup` writes, and exactly when it fits the buffer that
  `nfs4_proc_chain_lookup` asks for.  Every encode routine either appends a fixed string of bytes or
  stops at the `BUG_ON` of `reserve_space`; the routines compose, so the whole request is one append.
Imports: Nfs4Compound.Rpc.Request
Trusted boundary: none
Main exports: Emits, requestBytes, encChainLookup_eq, request_fits_iff, long_name_overflows_request
-/
import Nfs4Compound.Rpc.Request
import Mathlib.Algebra.BigOperators.Group.List.Basic

namespace Nfs4Compound.Rpc

open Xdr

/-! ### Routines that append -/

/-- The routine appends `data`, counts `ops` operations, and fails only when `data` does not fit. -/
def Emits (encode : XdrStream → Option XdrStream) (data : Bytes) (ops : Nat) : Prop :=
  ∀ xdr, xdr.out.length ≤ xdr.room → encode xdr =
    if xdr.out.length + data.length ≤ xdr.room then
      some { xdr with out := xdr.out ++ data, nops := xdr.nops + ops }
    else none

theorem emits_nothing : Emits some [] 0 := by
  intro xdr within
  rw [if_pos (by simpa using within)]
  simp

/-- Two routines in a row append both strings: when the second does not fit, neither does the whole. -/
theorem Emits.andThen {first second : XdrStream → Option XdrStream} {data data' : Bytes}
    {ops ops' : Nat} (one : Emits first data ops) (two : Emits second data' ops') :
    Emits (fun xdr => first xdr >>= second) (data ++ data') (ops + ops') := by
  intro xdr within
  simp only [one xdr within]
  by_cases fits : xdr.out.length + data.length ≤ xdr.room
  · rw [if_pos fits, Option.bind_eq_bind, Option.bind_some, two _ (by simpa using fits)]
    simp only [List.length_append, List.append_assoc, Nat.add_assoc]
  · rw [if_neg fits, Option.bind_eq_bind, Option.bind_none, if_neg]
    rw [List.length_append]
    omega

theorem reserveSpace_emits {nbytes : Nat} {data : Bytes}
    (whole : data.length = 4 * quadlen nbytes) : Emits (reserveSpace nbytes data) data 0 := by
  intro xdr _
  rw [reserveSpace, whole]
  rfl

theorem encodeString_emits (str : Bytes) : Emits (encodeString str) (opaqueBytes str) 0 := by
  apply reserveSpace_emits
  rw [length_opaqueBytes]
  unfold quadlen
  omega

theorem encodeUint32_emits (n : UInt32) : Emits (encodeUint32 n) (wordBytes n) 0 :=
  reserveSpace_emits rfl

theorem encodeOpHdr_emits (op : OpNum) : Emits (encodeOpHdr op) (wordBytes op.code) 1 := by
  intro xdr within
  show (encodeUint32 op.code xdr).bind _ = _
  rw [encodeUint32_emits _ _ within]
  split <;> rfl

/-! ### The operations of the compound -/

/-- The bytes of SEQUENCE, when there is a session. -/
def sequenceBytes : Option Session → Bytes
  | none => []
  | some s =>
      wordBytes OpNum.sequence.code ++
        (s.sessId ++ wordBytes s.seqNr ++ wordBytes s.slotNr ++ wordBytes s.highestUsedSlotid ++
          wordBytes s.cacheThis)

/-- The operations SEQUENCE adds. -/
def sequenceOps : Option Session → Nat
  | none => 0
  | some _ => 1

/-- The bytes of PUTFH. -/
def putfhBytes (fh : NfsFh) : Bytes := wordBytes OpNum.putfh.code ++ opaqueBytes fh.data

/-- The bytes of LOOKUP, GETFH and GETATTR for one name. -/
def componentBytes (requested : Bitmap) (name : Bytes) : Bytes :=
  (wordBytes OpNum.lookup.code ++ opaqueBytes name) ++
    (wordBytes OpNum.getfh.code ++ (wordBytes OpNum.getattr.code ++ bitmapBytes requested))

/-- The bytes of all operations on names. -/
def chainBytes (requested : Bitmap) : List Bytes → Bytes
  | [] => []
  | name :: names => componentBytes requested name ++ chainBytes requested names

theorem encodeSequence_emits (session : Option Session) :
    Emits (encodeSequence session) (sequenceBytes session) (sequenceOps session) := by
  cases session with
  | none => exact emits_nothing
  | some s =>
      refine (encodeOpHdr_emits .sequence).andThen (reserveSpace_emits ?_)
      simp only [List.length_append, s.sessId_length, length_wordBytes]
      rfl

theorem encodePutfh_emits (fh : NfsFh) : Emits (encodePutfh fh) (putfhBytes fh) 1 :=
  (encodeOpHdr_emits .putfh).andThen (encodeString_emits fh.data)

theorem encodeLookup_emits (name : Bytes) :
    Emits (encodeLookup name) (wordBytes OpNum.lookup.code ++ opaqueBytes name) 1 :=
  (encodeOpHdr_emits .lookup).andThen (encodeString_emits name)

/-- The bitmap of a GETATTR, in the form that leaves trailing zero words out. -/
theorem encodeBitmap_emits (bm : Bitmap) :
    Emits (fun xdr =>
      if bm.w2 ≠ 0 then reserveSpace 16 (bitmapBytes bm) xdr
      else if bm.w1 ≠ 0 then reserveSpace 12 (bitmapBytes bm) xdr
      else reserveSpace 8 (bitmapBytes bm) xdr) (bitmapBytes bm) 0 := by
  by_cases two : bm.w2 = 0
  · by_cases one : bm.w1 = 0
    · simp only [two, one, ne_eq, not_true_eq_false, if_false]
      exact reserveSpace_emits (by simp [bitmapBytes, two, one, quadlen])
    · simp only [two, one, ne_eq, not_true_eq_false, not_false_eq_true, if_false, if_true]
      exact reserveSpace_emits (by simp [bitmapBytes, two, one, quadlen])
  · simp only [two, ne_eq, not_false_eq_true, if_true]
    exact reserveSpace_emits (by simp [bitmapBytes, two, quadlen])

theorem encodeGetattrThree_emits (bm : Bitmap) :
    Emits (encodeGetattrThree bm) (wordBytes OpNum.getattr.code ++ bitmapBytes bm) 1 :=
  (encodeOpHdr_emits .getattr).andThen (encodeBitmap_emits bm)

theorem encodeComponent_emits (labelWord : UInt32) (bitmask : Bitmap) (name : Bytes) :
    Emits (encodeComponent labelWord bitmask name)
      (componentBytes (bitmask.masked (nfs4FattrBitmap labelWord)) name) 3 :=
  (encodeLookup_emits name).andThen
    ((encodeOpHdr_emits .getfh).andThen (encodeGetattrThree_emits _))

theorem encodeChain_emits (labelWord : UInt32) (bitmask : Bitmap) :
    ∀ names : List Bytes, Emits (encodeChain labelWord bitmask names)
      (chainBytes (bitmask.masked (nfs4FattrBitmap labelWord)) names) (3 * names.length)
  | [] => emits_nothing
  | name :: names => by
      have both := (encodeComponent_emits labelWord bitmask name).andThen
        (encodeChain_emits labelWord bitmask names)
      have count : 3 + 3 * names.length = 3 * (name :: names).length := by
        rw [List.length_cons]
        omega
      rw [count] at both
      exact both

/-! ### The whole request -/

/-- The operations the request holds. -/
def opCount (args : ChainLookupArg) : Nat := sequenceOps args.session + (1 + 3 * args.names.length)

/-- The compound header: an empty tag, the minor version and the operation count. -/
def compoundHdrBytes (minorversion : UInt32) (nops : Nat) : Bytes :=
  wordBytes 0 ++ (wordBytes minorversion ++ wordBytes (UInt32.ofNat nops))

/-- The operations after the header. -/
def bodyBytes (labelWord : UInt32) (args : ChainLookupArg) : Bytes :=
  sequenceBytes args.session ++ (putfhBytes args.dirFh ++
    chainBytes (args.bitmask.masked (nfs4FattrBitmap labelWord)) args.names)

/-- The whole request. -/
def requestBytes (labelWord : UInt32) (args : ChainLookupArg) : Bytes :=
  compoundHdrBytes (nfs4XdrMinorversion args.session) (opCount args) ++ bodyBytes labelWord args

@[simp] theorem length_compoundHdrBytes (minorversion : UInt32) (nops : Nat) :
    (compoundHdrBytes minorversion nops).length = 12 := rfl

theorem encodeBody_emits (labelWord : UInt32) (args : ChainLookupArg) :
    Emits (fun xdr => encodeSequence args.session xdr >>= fun xdr =>
        encodePutfh args.dirFh xdr >>= encodeChain labelWord args.bitmask args.names)
      (bodyBytes labelWord args) (opCount args) :=
  (encodeSequence_emits args.session).andThen
    ((encodePutfh_emits args.dirFh).andThen (encodeChain_emits labelWord args.bitmask args.names))

theorem encodeCompoundHdr_eq (minorversion : UInt32) (room : Nat) :
    encodeCompoundHdr minorversion { out := [], room, nops := 0, nopsAt := 0 } =
      if 12 ≤ room then
        some { out := compoundHdrBytes minorversion 0, room, nops := 0, nopsAt := 8 }
      else none := by
  simp only [encodeCompoundHdr, encodeString, reserveSpace, Option.bind_eq_bind, Option.pure_def,
    quadlen, List.length_nil, Nat.zero_add, Nat.reduceAdd, Nat.reduceDiv, Nat.reduceMul,
    List.nil_append]
  by_cases short : 4 ≤ room
  · simp only [short, if_true, Option.bind_some, length_opaqueBytes, List.length_nil, quadlen,
      Nat.zero_add, Nat.reduceDiv, Nat.mul_zero, Nat.add_zero, Nat.reduceAdd]
    split <;> rfl
  · rw [if_neg short, Option.bind_none, if_neg (by omega)]

/-- The encoder writes the request when it fits its buffer, and reaches the `BUG_ON` otherwise. -/
theorem encChainLookup_eq (labelWord : UInt32) (room : Nat) (args : ChainLookupArg) :
    nfs4XdrEncChainLookup labelWord room args =
      if (requestBytes labelWord args).length ≤ room then
        some { out := requestBytes labelWord args, room, nops := opCount args, nopsAt := 8 }
      else none := by
  have whole : nfs4XdrEncChainLookup labelWord room args =
      ((encodeCompoundHdr (nfs4XdrMinorversion args.session)
          { out := [], room, nops := 0, nopsAt := 0 }).bind fun xdr =>
        (encodeSequence args.session xdr >>= fun xdr =>
          encodePutfh args.dirFh xdr >>= encodeChain labelWord args.bitmask args.names)).map
        encodeNops := by
    simp only [nfs4XdrEncChainLookup, Option.bind_eq_bind, Option.pure_def, Option.map_bind]
    congr 1
    funext xdr
    simp only [Function.comp_def, Option.map_bind]
    congr 1
    funext xdr
    congr 1
    funext xdr
    cases encodeChain labelWord args.bitmask args.names xdr <;> rfl
  rw [whole, encodeCompoundHdr_eq]
  have lengths : (requestBytes labelWord args).length = 12 + (bodyBytes labelWord args).length := by
    rw [requestBytes, List.length_append, length_compoundHdrBytes]
  by_cases header : 12 ≤ room
  · have body := encodeBody_emits labelWord args
      { out := compoundHdrBytes (nfs4XdrMinorversion args.session) 0, room, nops := 0, nopsAt := 8 }
      header
    simp only [length_compoundHdrBytes, ← lengths] at body
    rw [if_pos header, Option.bind_some, body]
    by_cases fits : (requestBytes labelWord args).length ≤ room
    · rw [if_pos fits, if_pos fits, Option.map_some]
      simp only [Nat.zero_add]
      rfl
    · rw [if_neg fits, if_neg fits, Option.map_none]
  · rw [if_neg header, Option.bind_none, Option.map_none, if_neg (by omega)]

/-! ### Operations and words -/

/-- The bytes of one operation. -/
def opBytes : NfsOp → Bytes
  | .sequence s => sequenceBytes (some s)
  | .putfh fh => putfhBytes fh
  | .lookup name => wordBytes OpNum.lookup.code ++ opaqueBytes name
  | .getfh => wordBytes OpNum.getfh.code
  | .getattr requested => wordBytes OpNum.getattr.code ++ bitmapBytes requested

theorem chainBytes_eq (requested : Bitmap) :
    ∀ names : List Bytes, chainBytes requested names = (chainOps requested names).flatMap opBytes
  | [] => rfl
  | name :: names => by
      have rest := chainBytes_eq requested names
      simp only [chainOps] at rest
      simp only [chainBytes, componentBytes, rest, chainOps, List.flatMap_cons, List.flatMap_append,
        opBytes, List.append_assoc, List.flatMap_nil, List.append_nil]

/-- What follows the header is the operations, one after the other. -/
theorem bodyBytes_eq (labelWord : UInt32) (args : ChainLookupArg) :
    bodyBytes labelWord args = (requestOps labelWord args).flatMap opBytes := by
  rw [bodyBytes, chainBytes_eq, requestOps, List.flatMap_append, List.flatMap_cons]
  cases args.session with
  | none => rfl
  | some s => simp only [Option.toList_some, List.map_cons, List.map_nil, List.flatMap_cons,
      List.flatMap_nil, List.append_nil, opBytes]

theorem length_chainOps (requested : Bitmap) (names : List Bytes) :
    (chainOps requested names).length = 3 * names.length := by
  induction names with
  | nil => rfl
  | cons name names inductionHypothesis =>
      simp only [chainOps, List.flatMap_cons, List.length_append, List.length_cons,
        List.length_nil] at inductionHypothesis ⊢
      omega

theorem length_requestOps (labelWord : UInt32) (args : ChainLookupArg) :
    (requestOps labelWord args).length = opCount args := by
  rw [requestOps, opCount, List.length_append, List.length_cons, length_chainOps]
  cases args.session <;> simp [sequenceOps] <;> omega

/-- The words a bitmap takes in a GETATTR. -/
def bitmapWords (bm : Bitmap) : Nat := if bm.w2 ≠ 0 then 4 else if bm.w1 ≠ 0 then 3 else 2

theorem length_bitmapBytes (bm : Bitmap) : (bitmapBytes bm).length = 4 * bitmapWords bm := by
  unfold bitmapBytes bitmapWords
  split_ifs <;> rfl

/-- The words of the names alone, each padded to whole words. -/
def nameWords (names : List Bytes) : Nat := (names.map fun name => quadlen name.length).sum

/-- The words of everything but the names: header, SEQUENCE, PUTFH, and for each name the fixed parts
    of its three operations. -/
def fixedWords (labelWord : UInt32) (args : ChainLookupArg) : Nat :=
  5 + 9 * sequenceOps args.session + quadlen args.dirFh.data.length +
    args.names.length * (4 + bitmapWords (args.bitmask.masked (nfs4FattrBitmap labelWord)))

theorem length_chainBytes (requested : Bitmap) (names : List Bytes) :
    (chainBytes requested names).length =
      4 * (nameWords names + names.length * (4 + bitmapWords requested)) := by
  induction names with
  | nil => simp [chainBytes, nameWords]
  | cons name names inductionHypothesis =>
      simp only [chainBytes, componentBytes, List.length_append, length_wordBytes,
        length_opaqueBytes, length_bitmapBytes, inductionHypothesis, nameWords, List.map_cons,
        List.sum_cons, List.length_cons]
      ring

theorem length_sequenceBytes (session : Option Session) :
    (sequenceBytes session).length = 4 * (9 * sequenceOps session) := by
  cases session with
  | none => rfl
  | some s =>
      simp only [sequenceBytes, sequenceOps, List.length_append, s.sessId_length, length_wordBytes]
      rfl

/-- The length of the request in words. -/
theorem length_requestBytes (labelWord : UInt32) (args : ChainLookupArg) :
    (requestBytes labelWord args).length =
      4 * (fixedWords labelWord args + nameWords args.names) := by
  simp only [requestBytes, bodyBytes, putfhBytes, List.length_append, length_compoundHdrBytes,
    length_sequenceBytes, length_wordBytes, length_opaqueBytes, length_chainBytes, fixedWords]
  ring

/-! ### When the request fits -/

/-- In a send buffer of `room` bytes the request is written without reaching the `BUG_ON`, stays within
    `p_arglen`, and its header counts exactly the operations that follow it, no more than `NFS4_MAX_OPS`. -/
def RequestFits (room : Nat) (labelWord : UInt32) (args : ChainLookupArg) : Prop :=
  ∃ xdr, nfs4XdrEncChainLookup labelWord room args = some xdr ∧
    xdr.out.length ≤ 4 * (encChainLookupSz * args.names.length) ∧
    xdr.out.drop 12 = (requestOps labelWord args).flatMap opBytes ∧
    (wordOf (xdr.out.drop 8)).toNat = (requestOps labelWord args).length ∧
    (requestOps labelWord args).length ≤ nfs4MaxOps

theorem opCount_le {args : ChainLookupArg} (bounded : args.names.length ≤ chainMax) :
    opCount args ≤ 92 := by
  have most : args.names.length ≤ 30 := bounded
  unfold opCount
  cases args.session <;> simp only [sequenceOps] <;> omega

/-- A request of few enough words is written. -/
theorem requestFits_of_words (labelWord : UInt32) {args : ChainLookupArg} {room : Nat}
    (roomy : chainLookupRoom args ≤ room) (bounded : args.names.length ≤ chainMax)
    (fits : fixedWords labelWord args + nameWords args.names ≤ encChainLookupSz * args.names.length) :
    RequestFits room labelWord args := by
  have ops := opCount_le bounded
  have within : (requestBytes labelWord args).length ≤ chainLookupRoom args := by
    rw [length_requestBytes, chainLookupRoom]
    omega
  refine ⟨_, by rw [encChainLookup_eq, if_pos (Nat.le_trans within roomy)], within, ?_, ?_, ?_⟩
  · rw [← bodyBytes_eq]
    exact List.drop_left' rfl
  · have count : wordOf ((requestBytes labelWord args).drop 8) = UInt32.ofNat (opCount args) :=
      wordOf_wordBytes _ (bodyBytes labelWord args)
    rw [count, length_requestOps, UInt32.toNat_ofNat', Nat.mod_eq_of_lt (by omega)]
  · rw [length_requestOps]
    exact le_trans ops (by decide)

/-- A chain that `walk_chain` can hand over fits its buffer, of whatever size from `p_arglen` on, exactly
    when the padded lengths of its names leave room for the rest of the request. -/
theorem request_fits_iff (labelWord : UInt32) (args : ChainLookupArg) {room : Nat}
    (roomy : chainLookupRoom args ≤ room) (bounded : args.names.length ≤ chainMax) :
    RequestFits room labelWord args ↔
      fixedWords labelWord args + nameWords args.names ≤ encChainLookupSz * args.names.length := by
  constructor
  · rintro ⟨xdr, written, fits, -⟩
    rw [encChainLookup_eq] at written
    split at written
    · cases written
      rw [length_requestBytes] at fits
      omega
    · cases written
  · exact requestFits_of_words labelWord roomy bounded

/-- Names of at most 255 bytes take at most 64 words each. -/
theorem nameWords_le {names : List Bytes}
    (short : ∀ name ∈ names, name.length ≤ nfs4Maxnamlen) : nameWords names ≤ 64 * names.length := by
  induction names with
  | nil => exact le_refl 0
  | cons name names inductionHypothesis =>
      have rest := inductionHypothesis fun other member => short other (by simp [member])
      have own : quadlen name.length ≤ 64 := by
        have limit : name.length ≤ 255 := short name (by simp)
        unfold quadlen
        omega
      simp only [nameWords, List.map_cons, List.sum_cons, List.length_cons] at rest ⊢
      omega

/-- Names that pass the length check of the single lookup always fit. -/
theorem short_names_fit (labelWord : UInt32) (args : ChainLookupArg) {room : Nat}
    (roomy : chainLookupRoom args ≤ room) (bounded : args.names.length ≤ chainMax)
    (chain : 1 ≤ args.names.length) (short : ∀ name ∈ args.names, name.length ≤ nfs4Maxnamlen) :
    RequestFits room labelWord args := by
  apply requestFits_of_words labelWord roomy bounded
  have names := nameWords_le short
  have handle : quadlen args.dirFh.data.length ≤ 32 := by
    have limit : args.dirFh.data.length ≤ 128 := args.dirFh.size_le
    unfold quadlen
    omega
  have bitmap : bitmapWords (args.bitmask.masked (nfs4FattrBitmap labelWord)) ≤ 4 := by
    unfold bitmapWords
    split_ifs <;> omega
  have perName : args.names.length *
      (4 + bitmapWords (args.bitmask.masked (nfs4FattrBitmap labelWord))) ≤
      args.names.length * 8 := Nat.mul_le_mul_left _ (by omega)
  have sequence : sequenceOps args.session ≤ 1 := by
    cases args.session <;> simp [sequenceOps]
  have size : encChainLookupSz = 118 := rfl
  unfold fixedWords
  rw [size]
  omega

/-- A chain of one name, on a handle of the largest size. -/
def oneNameArg (len : Nat) : ChainLookupArg where
  session := none
  dirFh := { data := List.replicate 128 0, size_le := by simp [nfs4Fhsize] }
  bitmask := { w0 := 0, w1 := 0, w2 := 0 }
  names := [List.replicate len 97]

theorem oneName_words (len : Nat) :
    fixedWords 0 (oneNameArg len) + nameWords (oneNameArg len).names = 43 + quadlen len := by
  have requested : bitmapWords ((oneNameArg len).bitmask.masked (nfs4FattrBitmap 0)) = 2 := by
    simp [oneNameArg, Bitmap.masked, bitmapWords]
  simp only [fixedWords, requested]
  simp [oneNameArg, nameWords, sequenceOps, quadlen]

theorem oneName_room (len : Nat) : chainLookupRoom (oneNameArg len) = 4 * 118 := rfl

/-- A name of 255 bytes fits. -/
theorem oneName_255_fits : RequestFits 512 0 (oneNameArg 255) :=
  (request_fits_iff 0 (oneNameArg 255) (by rw [oneName_room]; decide) (by decide)).mpr
    (by rw [oneName_words]; decide)

/-- A name of 400 bytes, which no caller on the chain path refuses, overruns a buffer of just that size,
    and takes more than `p_arglen` words in any other. -/
theorem long_name_overflows_request :
    nfs4XdrEncChainLookup 0 (chainLookupRoom (oneNameArg 400)) (oneNameArg 400) = none ∧
      ∀ room, ¬ RequestFits room 0 (oneNameArg 400) := by
  have words : ¬ fixedWords 0 (oneNameArg 400) + nameWords (oneNameArg 400).names ≤ 118 := by
    rw [oneName_words]
    decide
  have overflow : ¬ (requestBytes 0 (oneNameArg 400)).length ≤ chainLookupRoom (oneNameArg 400) := by
    rw [length_requestBytes, oneName_room]
    omega
  refine ⟨by rw [encChainLookup_eq, if_neg overflow], ?_⟩
  rintro room ⟨xdr, written, fits, -⟩
  rw [encChainLookup_eq] at written
  split at written
  · cases written
    exact overflow fits
  · cases written

end Nfs4Compound.Rpc
