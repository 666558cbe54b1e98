/-
Module: Nfs4Compound.Proofs.RequestRoundTrip
Layer: Proofs
Purpose: A server reads back from the bytes of a chain request exactly the operations it stands for.
Imports: Nfs4Compound.Rpc.Server, Nfs4Compound.Proofs.RequestFits
Trusted boundary: none
Main exports: parseOp_opBytes, parseRequest_requestBytes
-/
import Nfs4Compound.Rpc.Server
import Nfs4Compound.Proofs.RequestFits

namespace Nfs4Compound.Rpc

open Xdr

/-! ### One operation -/

theorem parseBitmap_bitmapBytes (bm : Bitmap) (rest : Bytes) :
    parseBitmap (bitmapBytes bm ++ rest) = some (bm, rest) := by
  obtain ⟨w0, w1, w2⟩ := bm
  unfold bitmapBytes
  split_ifs with three two
  · have words : inlineDecode (4 * (3 : UInt32).toNat)
        ((wordBytes w0 ++ (wordBytes w1 ++ wordBytes w2)) ++ rest) =
        some (wordBytes w0 ++ (wordBytes w1 ++ wordBytes w2), rest) :=
      inlineDecode_aligned (k := 3) rfl rest
    have last := wordOf_wordBytes w2 []
    rw [List.append_nil] at last
    simp only [List.append_assoc] at words ⊢
    simp only [parseBitmap, readWord_wordBytes, Option.bind_eq_bind, Option.bind_some, words,
      Option.pure_def, wordOf_wordBytes]
    rw [show (wordBytes w0 ++ (wordBytes w1 ++ wordBytes w2)).drop 4 = wordBytes w1 ++ wordBytes w2
        from rfl, show (wordBytes w0 ++ (wordBytes w1 ++ wordBytes w2)).drop 8 = wordBytes w2 from rfl,
      wordOf_wordBytes, last]
    rfl
  · have words : inlineDecode (4 * (2 : UInt32).toNat) ((wordBytes w0 ++ wordBytes w1) ++ rest) =
        some (wordBytes w0 ++ wordBytes w1, rest) := inlineDecode_aligned (k := 2) rfl rest
    have last := wordOf_wordBytes w1 []
    rw [List.append_nil] at last
    have zero : w2 = 0 := not_not.mp three
    simp only [List.append_assoc] at words ⊢
    simp only [parseBitmap, readWord_wordBytes, Option.bind_eq_bind, Option.bind_some, words,
      Option.pure_def, wordOf_wordBytes]
    rw [show (wordBytes w0 ++ wordBytes w1).drop 4 = wordBytes w1 from rfl, last, zero]
    rfl
  · have words : inlineDecode (4 * (1 : UInt32).toNat) (wordBytes w0 ++ rest) =
        some (wordBytes w0, rest) := inlineDecode_aligned (k := 1) rfl rest
    have first := wordOf_wordBytes w0 []
    rw [List.append_nil] at first
    have zero : w2 = 0 := not_not.mp three
    have zero' : w1 = 0 := not_not.mp two
    simp only [List.append_assoc] at words ⊢
    simp only [parseBitmap, readWord_wordBytes, Option.bind_eq_bind, Option.bind_some, words,
      Option.pure_def, first, zero, zero']
    rfl

theorem parseSequence_bytes (s : Session) (rest : Bytes) :
    parseSequence s.minorVersion
      (s.sessId ++ (wordBytes s.seqNr ++ (wordBytes s.slotNr ++ (wordBytes s.highestUsedSlotid ++
        (wordBytes s.cacheThis ++ rest))))) = some (.sequence s, rest) := by
  have id : ∀ rest, inlineDecode nfs4MaxSessionidLen (s.sessId ++ rest) = some (s.sessId, rest) :=
    fun rest => inlineDecode_aligned (k := 4) s.sessId_length rest
  simp only [parseSequence, id, readWord_wordBytes, Option.bind_eq_bind, Option.bind_some,
    s.sessId_length, Option.pure_def, dif_pos]

/-- The names a request can carry: their length fits the count of a string. -/
def NfsOp.Wire : NfsOp → Prop
  | .lookup name => name.length < 2 ^ 32
  | _ => True

/-- The minor version of a session operation is that of the compound. -/
def NfsOp.OfMinor (minorVersion : UInt32) : NfsOp → Prop
  | .sequence s => s.minorVersion = minorVersion
  | _ => True

theorem OpNum.ofCode_code (num : OpNum) : OpNum.ofCode num.code = some num := by
  cases num <;> decide

/-- The arguments of an operation, behind its number. -/
def argBytes : NfsOp → Bytes
  | .sequence s =>
      s.sessId ++ wordBytes s.seqNr ++ wordBytes s.slotNr ++ wordBytes s.highestUsedSlotid ++
        wordBytes s.cacheThis
  | .putfh fh => opaqueBytes fh.data
  | .lookup name => opaqueBytes name
  | .getfh => []
  | .getattr requested => bitmapBytes requested

theorem opBytes_eq (op : NfsOp) : opBytes op = wordBytes op.num.code ++ argBytes op := by
  cases op with
  | getfh => exact (List.append_nil _).symm
  | _ => rfl

theorem parseArgs_argBytes {op : NfsOp} {minorVersion : UInt32} (wire : op.Wire)
    (minor : op.OfMinor minorVersion) (rest : Bytes) :
    parseArgs minorVersion (argBytes op ++ rest) op.num = some (op, rest) := by
  cases op with
  | sequence s =>
      have same : s.minorVersion = minorVersion := minor
      simp only [argBytes, NfsOp.num, parseArgs, List.append_assoc, ← same]
      exact parseSequence_bytes s rest
  | putfh fh =>
      have short : fh.data.length < 2 ^ 32 := by
        have size : fh.data.length ≤ 128 := fh.size_le
        omega
      simp only [argBytes, NfsOp.num, parseArgs, readOpaque_opaqueBytes short, Option.bind_eq_bind,
        Option.bind_some, dif_pos fh.size_le, Option.pure_def]
  | lookup name =>
      simp only [argBytes, NfsOp.num, parseArgs, readOpaque_opaqueBytes wire, Option.bind_eq_bind,
        Option.bind_some, Option.pure_def]
  | getfh => rfl
  | getattr requested =>
      simp only [argBytes, NfsOp.num, parseArgs, parseBitmap_bitmapBytes, Option.bind_eq_bind,
        Option.bind_some, Option.pure_def]

/-- The server reads back the operation that was written. -/
theorem parseOp_opBytes {op : NfsOp} {minorVersion : UInt32} (wire : op.Wire)
    (minor : op.OfMinor minorVersion) (rest : Bytes) :
    parseOp minorVersion (opBytes op ++ rest) = some (op, rest) := by
  rw [opBytes_eq, List.append_assoc]
  simp only [parseOp, readWord_wordBytes, Option.bind_eq_bind, Option.bind_some, OpNum.ofCode_code,
    parseArgs_argBytes wire minor]

/-! ### The whole request -/

theorem parseOps_opBytes {minorVersion : UInt32} :
    ∀ ops : List NfsOp, (∀ op ∈ ops, op.Wire ∧ op.OfMinor minorVersion) →
      parseOps minorVersion ops.length (ops.flatMap opBytes) = some ops
  | [], _ => rfl
  | op :: ops, wire => by
      have own := wire op (by simp)
      have rest := parseOps_opBytes ops fun other member => wire other (by simp [member])
      simp only [List.length_cons, List.flatMap_cons, parseOps, parseOp_opBytes own.1 own.2,
        Option.bind_eq_bind, Option.bind_some, rest, Option.pure_def]

theorem requestOps_wire {labelWord : UInt32} {args : ChainLookupArg}
    (short : ∀ name ∈ args.names, name.length < 2 ^ 32) :
    ∀ op ∈ requestOps labelWord args,
      op.Wire ∧ op.OfMinor (nfs4XdrMinorversion args.session) := by
  intro op member
  rw [requestOps, List.mem_append] at member
  rcases member with session | member
  · obtain ⟨s, present, rfl⟩ := List.mem_map.mp session
    rw [Option.mem_toList] at present
    refine ⟨trivial, ?_⟩
    rw [present]
    rfl
  · rcases List.mem_cons.mp member with rfl | chain
    · exact ⟨trivial, trivial⟩
    · obtain ⟨name, inside, own⟩ := List.mem_flatMap.mp chain
      simp only [List.mem_cons, List.not_mem_nil, or_false] at own
      rcases own with rfl | rfl | rfl
      · exact ⟨short name inside, trivial⟩
      · exact ⟨trivial, trivial⟩
      · exact ⟨trivial, trivial⟩

theorem parseHeader_compoundHdrBytes (minorVersion : UInt32) (count : Nat) (rest : Bytes) :
    parseHeader (compoundHdrBytes minorVersion count ++ rest) =
      some (([], minorVersion, UInt32.ofNat count), rest) := by
  have empty : wordBytes 0 = opaqueBytes [] := by decide
  have tag : ∀ rest, readOpaque (opaqueBytes [] ++ rest) = some ([], rest) :=
    readOpaque_opaqueBytes (by rw [List.length_nil]; omega)
  simp only [compoundHdrBytes, empty, List.append_assoc, parseHeader, tag, readWord_wordBytes,
    Option.bind_eq_bind, Option.bind_some, Option.pure_def]

/-- A server reads the operations of the chain out of the request, in order. -/
theorem parseRequest_requestBytes {labelWord : UInt32} {args : ChainLookupArg}
    (short : ∀ name ∈ args.names, name.length < 2 ^ 32)
    (count : (requestOps labelWord args).length < 2 ^ 32) :
    parseRequest (requestBytes labelWord args) = some ([], requestOps labelWord args) := by
  have nops : (UInt32.ofNat (opCount args)).toNat = (requestOps labelWord args).length := by
    rw [UInt32.toNat_ofNat', ← length_requestOps labelWord args, Nat.mod_eq_of_lt count]
  have ops := parseOps_opBytes _ (@requestOps_wire labelWord args short)
  rw [parseRequest, requestBytes, parseHeader_compoundHdrBytes, Option.bind_some]
  show (parseOps _ (UInt32.ofNat (opCount args)).toNat (bodyBytes labelWord args)).map _ = _
  rw [nops, bodyBytes_eq, ops, Option.map_some]

end Nfs4Compound.Rpc
