/-
Module: Nfs4Compound.Proofs.OpDecode
Layer: Proofs
Purpose: What the decoder of one operation makes of its result: a success fills the slot, an error stops
  with its errno, a foreign operation number stops with `-EREMOTEIO`, a result that breaks off stops
  with `-EIO`, and no decoder touches a slot other than its own.
Imports: Nfs4Compound.Proofs.AttrDecode
Trusted boundary: none
Main exports: decodeOp, OpResult.effect, decodeOp_reads, decodeOp_rejects, decodeOp_wrong, decodeOp_streams
-/
import Nfs4Compound.Proofs.AttrDecode

namespace Nfs4Compound.Rpc

open Xdr

/-! ### The operation header -/

theorem decodeOpHdr_words (code status : UInt32) (pos : Nat) (side : Results) :
    Reads (xdrInlineDecode 8) (wordBytes code ++ wordBytes status) pos side
      (wordBytes code ++ wordBytes status) side :=
  inline_reads_words (-eio) 2 rfl pos side

/-- The second of two words. -/
theorem wordOf_second (code status : UInt32) :
    wordOf ((wordBytes code ++ wordBytes status).drop 4) = status := by
  have second := (wordOf_two code status []).2
  rw [List.append_nil] at second
  exact second

theorem decodeOpHdr_reads (op : OpNum) (pos : Nat) (side : Results) :
    Reads (decodeOpHdr op) (wordBytes op.code ++ wordBytes 0) pos side () side := by
  apply (decodeOpHdr_words op.code 0 pos side).bind_done
  rw [wordOf_wordBytes, wordOf_second, if_neg (not_not.mpr rfl)]
  exact Reads.pure _ side ()

theorem asInt32_ne {status : UInt32} (nonzero : status ≠ 0) : asInt32 status ≠ 0 := by
  have value : status.toNat ≠ 0 := fun zero => nonzero (UInt32.toNat_inj.mp zero)
  have bound : status.toNat < 4294967296 := status.toNat_lt
  unfold asInt32
  split <;> omega

theorem decodeOpHdr_rejects (op : OpNum) (e : NfsErr) (pos : Nat) (side : Results) :
    Rejects (decodeOpHdr op) (wordBytes op.code ++ wordBytes e.status) pos side
      (nfs4StatToErrno (asInt32 e.status)) side := by
  have failed : Rejects (decodeOpHdr op) ((wordBytes op.code ++ wordBytes e.status) ++ []) pos side
      (nfs4StatToErrno (asInt32 e.status)) side := by
    apply (decodeOpHdr_words op.code e.status pos side).bind_rejects
    rw [wordOf_wordBytes, wordOf_second, if_neg (not_not.mpr rfl)]
    simp only [if_neg (asInt32_ne e.status_ne)]
    exact throw_rejects _ _ side
  rw [List.append_nil] at failed
  exact failed

theorem decodeOpHdr_wrong {op : OpNum} {code : UInt32} (other : code ≠ op.code) (status : UInt32)
    (pos : Nat) (side : Results) :
    Rejects (decodeOpHdr op) (wordBytes code ++ wordBytes status) pos side (-eremoteio) side := by
  have failed : Rejects (decodeOpHdr op) ((wordBytes code ++ wordBytes status) ++ []) pos side
      (-eremoteio) side := by
    apply (decodeOpHdr_words code status pos side).bind_rejects
    rw [wordOf_wordBytes, if_pos other]
    exact throw_rejects _ _ side
  rw [List.append_nil] at failed
  exact failed

/-! ### Successful results -/

/-- A handle in its memory form: the unused bytes stay zero. -/
def FhBuf.holding (fh : NfsFh) : FhBuf :=
  { size := fh.data.length, data := fh.data ++ List.replicate (nfs4Fhsize - fh.data.length) 0 }

/-- The results with another handle in slot `i`. -/
def Results.withFh (r : Results) (i : Nat) (fh : FhBuf) : Results :=
  { r with fhandles := setSlot r.fhandles i fh }

theorem setFhandle_reads (f : FhBuf → FhBuf) (r : Results) (i : Nat) (fh : FhBuf) (pos : Nat) :
    Reads (setFhandle i f) [] pos (r.withFh i fh) () (r.withFh i (f fh)) := by
  have stored := modifySide_reads (ε := Int)
    (fun r : Results => { r with fhandles := setSlot r.fhandles i (f (r.fhandles i)) }) pos
    (r.withFh i fh)
  simp only [Results.withFh, setSlot_same, setSlot_setSlot] at stored
  exact stored

theorem decodeGetfh_reads (fh : NfsFh) (i pos : Nat) (side : Results) :
    Reads (decodeGetfh i) (wordBytes OpNum.getfh.code ++ (wordBytes 0 ++ opaqueBytes fh.data)) pos
      side () (side.withFh i (FhBuf.holding fh)) := by
  have size : fh.data.length ≤ 128 := fh.size_le
  have count : (UInt32.ofNat fh.data.length).toNat = fh.data.length := by
    rw [UInt32.toNat_ofNat', Nat.mod_eq_of_lt (by omega)]
  have copied : fh.data ++ FhBuf.zero.data.drop fh.data.length =
      fh.data ++ List.replicate (nfs4Fhsize - fh.data.length) 0 := by
    rw [FhBuf.zero, List.drop_replicate]
  apply (modifySide_reads _ pos side).bind_nil
  rw [← List.append_assoc]
  apply (decodeOpHdr_reads .getfh pos _).bind
  apply (decodeWord_reads _ _ _).bind
  have room : ¬ (UInt32.ofNat fh.data.length).toNat > nfs4Fhsize := by
    rw [count]
    exact Nat.not_lt.mpr fh.size_le
  rw [if_neg room, count]
  apply (setFhandle_reads _ side i FhBuf.zero _).bind_nil
  apply (inline_reads (-eio) fh.data _ _).bind_done
  have stored := setFhandle_reads (fun buf => { buf with data := fh.data ++ buf.data.drop fh.data.length })
    side i { FhBuf.zero with size := fh.data.length }
    (pos + (wordBytes OpNum.getfh.code ++ wordBytes 0).length +
      (wordBytes (UInt32.ofNat fh.data.length)).length + (opaqueFixed fh.data).length)
  simp only [copied] at stored
  exact stored

theorem length_bitmapData (reply : AttrReply) :
    reply.bitmapData.length = 4 * reply.bitmapWords := by
  simp only [AttrReply.bitmapData, List.length_take, List.length_append, length_wordBytes,
    List.length_replicate]
  omega

/-- The words in front of a prefix that holds them. -/
theorem take_word (w : UInt32) (rest : Bytes) (words : Nat) :
    (wordBytes w ++ rest).take (4 * (words + 1)) = wordBytes w ++ rest.take (4 * words) := by
  rw [List.take_append, List.take_of_length_le (by rw [length_wordBytes]; omega)]
  rfl

/-- The words that are sent, and zero for those that are not, are the words of the bitmap. -/
theorem bitmapData_words (reply : AttrReply) :
    (if reply.bitmapWords > 0 then wordOf reply.bitmapData else 0) = reply.attrs.word0 ∧
    (if reply.bitmapWords > 1 then wordOf (reply.bitmapData.drop 4) else 0) = reply.attrs.word1 ∧
    (if reply.bitmapWords > 2 then wordOf (reply.bitmapData.drop 8) else 0) = 0 := by
  have sent0 := reply.sendsWord0
  have sent1 := reply.sendsWord1
  unfold AttrReply.bitmapData
  generalize reply.bitmapWords = words at sent0 sent1 ⊢
  rcases words with - | - | - | words
  · have zero0 : reply.attrs.word0 = 0 := not_not.mp fun nonzero => absurd (sent0 nonzero) (by omega)
    have zero1 : reply.attrs.word1 = 0 := not_not.mp fun nonzero => absurd (sent1 nonzero) (by omega)
    simp [zero0, zero1]
  · have zero1 : reply.attrs.word1 = 0 := not_not.mp fun nonzero => absurd (sent1 nonzero) (by omega)
    rw [take_word, wordOf_wordBytes]
    simp [zero1]
  · rw [take_word, take_word, wordOf_wordBytes, (wordOf_two _ _ _).2]
    simp
  · have zeros : List.replicate (4 * (words + 1 + 1 + 1)) (0 : UInt8) =
        wordBytes 0 ++ List.replicate (4 * (words + 2)) 0 := by
      rw [show wordBytes 0 = List.replicate 4 0 by decide, List.replicate_append_replicate]
      congr 1
      omega
    rw [zeros, take_word, take_word, take_word, wordOf_wordBytes, (wordOf_two _ _ _).2]
    have third : (wordBytes reply.attrs.word0 ++ (wordBytes reply.attrs.word1 ++ (wordBytes 0 ++
        (List.replicate (4 * (words + 2)) (0 : UInt8)).take (4 * words)))).drop 8 =
        wordBytes 0 ++ (List.replicate (4 * (words + 2)) (0 : UInt8)).take (4 * words) := rfl
    rw [third, wordOf_wordBytes]
    simp

/-- The bitmap words a server sends are read back, missing words as zero. -/
theorem decodeAttrBitmap_reads (reply : AttrReply) (pos : Nat) (side : Results) :
    Reads decodeAttrBitmap (wordBytes (UInt32.ofNat reply.bitmapWords) ++ reply.bitmapData) pos side ()
      { side with bitmap := { w0 := reply.attrs.word0, w1 := reply.attrs.word1, w2 := 0 } } := by
  have few := reply.bitmapWords_lt
  have count : (UInt32.ofNat reply.bitmapWords).toNat = reply.bitmapWords := by
    rw [UInt32.toNat_ofNat', Nat.mod_eq_of_lt (by omega)]
  have bytes : wrap32 (reply.bitmapWords * 4) = 4 * reply.bitmapWords := by
    unfold wrap32
    omega
  obtain ⟨word0, word1, word2⟩ := bitmapData_words reply
  apply (decodeWord_reads _ pos side).bind
  apply (modifySide_reads _ _ side).bind_nil
  rw [count, bytes]
  apply (inline_reads_words (-eio) reply.bitmapWords (length_bitmapData reply) _ _).bind_done
  simp only [word0, word1, word2]
  exact modifySide_reads _ _ _

theorem fieldsBytes_aligned {fields : List (Nat × Option Bytes)}
    (words : ∀ field ∈ fields, ∀ data, field.2 = some data → data.length % 4 = 0) :
    (fieldsBytes fields).length % 4 = 0 := by
  induction fields with
  | nil => rfl
  | cons field fields inductionHypothesis =>
      have rest := inductionHypothesis fun other member => words other (by simp [member])
      obtain ⟨bit, v⟩ := field
      cases v with
      | none => exact rest
      | some data =>
          have own := words (bit, some data) (by simp) data rfl
          rw [fieldsBytes, List.length_append]
          omega

/-- Every attribute fills whole words. -/
theorem values_aligned (a : FileAttrs) : a.values.length % 4 = 0 := by
  have first : (fieldsBytes a.fields0).length % 4 = 0 := by
    apply fieldsBytes_aligned
    intro field member data present
    simp only [FileAttrs.fields0, List.mem_cons, List.not_mem_nil, or_false] at member
    rcases member with rfl | rfl | rfl | rfl | rfl <;>
      · obtain ⟨_, -, rfl⟩ := Option.map_eq_some_iff.mp present
        simp
  have second : (fieldsBytes a.fields1).length % 4 = 0 := by
    apply fieldsBytes_aligned
    intro field member data present
    simp only [FileAttrs.fields1, List.mem_cons, List.not_mem_nil, or_false] at member
    rcases member with rfl | rfl | rfl | rfl | rfl | rfl | rfl | rfl | rfl | rfl <;>
      · obtain ⟨_, -, rfl⟩ := Option.map_eq_some_iff.mp present
        simp [timeBytes]
        try omega
  rw [FileAttrs.values, List.length_append]
  omega

theorem setSlot_self {α : Type} (slots : Nat → α) (i : Nat) : setSlot slots i (slots i) = slots := by
  funext j
  unfold setSlot
  split
  · rename_i same
    rw [same]
  · rfl

theorem decodeAttrLength_reads (attrlen : UInt32) (pos : Nat) (side : Results) :
    Reads decodeAttrLength (wordBytes attrlen) pos side (attrlen, pos + 4) side := by
  apply (decodeWord_reads attrlen pos side).bind_done
  exact (streamPos_reads _ side).bind_pure fun savep => (attrlen, savep)

theorem verifyAttrLen_reads {savep pos : Nat} {attrlen : UInt32}
    (consumed : wrap32 (attrlen.toNat + 3) / 4 = (pos - savep) / 4) (side : Results) :
    Reads (verifyAttrLen savep attrlen) [] pos side () side := by
  apply (streamPos_reads pos side).bind_nil
  rw [if_neg (not_not.mpr consumed)]
  exact Reads.pure pos side ()

theorem decodeGetfattrLabel_reads (idmap : IdMap) (reply : AttrReply) (i pos : Nat) (side : Results) :
    Reads (decodeGetfattrLabel idmap i)
      (wordBytes OpNum.getattr.code ++ (wordBytes 0 ++ reply.bytes)) pos side ()
      (progress side i (fattrOf idmap reply.attrs (side.fattrs i)) [] []) := by
  have fits := reply.fits
  have aligned := values_aligned reply.attrs
  have count : (UInt32.ofNat reply.attrs.values.length).toNat = reply.attrs.values.length := by
    rw [UInt32.toNat_ofNat', Nat.mod_eq_of_lt fits]
  apply (modifySide_reads _ pos side).bind_nil
  rw [← List.append_assoc, AttrReply.bytes]
  apply (decodeOpHdr_reads .getattr pos _).bind
  rw [← List.append_assoc]
  apply (decodeAttrBitmap_reads reply _ _).bind
  apply (decodeAttrLength_reads _ _ _).bind
  have attrs := decodeGetfattrAttrs_reads idmap reply i side (side.fattrs i)
  simp only [progress, setSlot_self] at attrs
  apply (attrs _).bind_done
  apply verifyAttrLen_reads
  rw [count, length_wordBytes, wrap32]
  omega

theorem decodeSequence_reads (s : Session) (reply : SequenceReply) (pos : Nat) (side : Results) :
    Reads (decodeSequence (some s))
      (wordBytes OpNum.sequence.code ++ (wordBytes 0 ++ okBytes (.sequence s) reply)) pos side ()
      side := by
  have id : Reads (xdrInlineDecode nfs4MaxSessionidLen) s.sessId (pos + 8) side s.sessId side :=
    inline_reads_words (-eio) 4 s.sessId_length (pos + 8) side
  rw [← List.append_assoc]
  apply (decodeOpHdr_reads .sequence pos side).bind
  apply id.bind
  rw [if_neg (not_not.mpr rfl)]
  apply (inline_reads_words (-eio) 5 rfl _ side).bind_done
  rw [wordOf_wordBytes, if_neg (not_not.mpr rfl), (wordOf_two _ _ _).2, if_neg (not_not.mpr rfl)]
  exact Reads.pure _ side ()

/-! ### The decoder of an operation -/

/-- The decode routine for one operation, with the slot its result goes to. -/
def decodeOp (idmap : IdMap) (i : Nat) : NfsOp → Decode Unit
  | .sequence s => decodeSequence (some s)
  | .putfh _ => decodePutfh
  | .lookup _ => decodeLookup
  | .getfh => decodeGetfh i
  | .getattr _ => decodeGetfattrLabel idmap i

/-- What a successful result leaves in its slot. -/
def okEffect (idmap : IdMap) (i : Nat) (side : Results) : (op : NfsOp) → OpReply op → Results
  | .getfh, fh => side.withFh i (FhBuf.holding fh)
  | .getattr _, reply =>
      progress side i (fattrOf idmap (AttrReply.attrs reply) (side.fattrs i)) [] []
  | .sequence _, _ => side
  | .putfh _, _ => side
  | .lookup _, _ => side

/-- What is left when the operation header is not the one of a success: GETFH has cleared the handle,
    GETATTR its local bitmap. -/
def stopEffect (i : Nat) (side : Results) : NfsOp → Results
  | .getfh => side.withFh i FhBuf.zero
  | .getattr _ => { side with bitmap := { w0 := 0, w1 := 0, w2 := 0 } }
  | _ => side

/-- A successful result is consumed exactly, and its data goes to the slot. -/
theorem decodeOp_reads (idmap : IdMap) (op : NfsOp) (reply : OpReply op) (i pos : Nat)
    (side : Results) :
    Reads (decodeOp idmap i op) (OpResult.bytes ⟨op, .ok reply⟩) pos side ()
      (okEffect idmap i side op reply) := by
  cases op with
  | sequence s => exact decodeSequence_reads s reply pos side
  | putfh fh => exact decodeOpHdr_reads .putfh pos side
  | lookup name => exact decodeOpHdr_reads .lookup pos side
  | getfh => exact decodeGetfh_reads reply i pos side
  | getattr requested => exact decodeGetfattrLabel_reads idmap reply i pos side

/-- Where the header is refused, so is the whole operation. -/
theorem decodeOp_of_header {op : NfsOp} {data : Bytes} {error : Int}
    (header : ∀ pos side, Rejects (decodeOpHdr op.num) data pos side error side) (idmap : IdMap)
    (i pos : Nat) (side : Results) :
    Rejects (decodeOp idmap i op) data pos side error (stopEffect i side op) := by
  cases op with
  | sequence s => exact (header pos side).bind
  | putfh fh => exact header pos side
  | lookup name => exact header pos side
  | getfh =>
      apply (modifySide_reads _ pos side).bind_nil_rejects
      exact (header pos _).bind
  | getattr requested =>
      apply (modifySide_reads _ pos side).bind_nil_rejects
      exact (header pos _).bind

/-- A failed result stops the decoder with the errno of its status. -/
theorem decodeOp_rejects (idmap : IdMap) (op : NfsOp) (e : NfsErr) (i pos : Nat) (side : Results) :
    Rejects (decodeOp idmap i op) (OpResult.bytes ⟨op, .error e⟩) pos side
      (nfs4StatToErrno (asInt32 e.status)) (stopEffect i side op) :=
  decodeOp_of_header (fun pos side => decodeOpHdr_rejects op.num e pos side) idmap i pos side

/-- A result of another operation stops the decoder with `-EREMOTEIO`. -/
theorem decodeOp_wrong (idmap : IdMap) {op : NfsOp} {code : UInt32} (other : code ≠ op.num.code)
    (status : UInt32) (i pos : Nat) (side : Results) :
    Rejects (decodeOp idmap i op) (wordBytes code ++ wordBytes status) pos side (-eremoteio)
      (stopEffect i side op) :=
  decodeOp_of_header (fun pos side => decodeOpHdr_wrong other status pos side) idmap i pos side

/-! ### Results that break off -/

/-- The two results agree outside slot `i`. -/
def OnlySlot (i : Nat) (r r' : Results) : Prop :=
  ∀ j, j ≠ i → r'.fhandles j = r.fhandles j ∧ r'.fattrs j = r.fattrs j ∧ r'.labels j = r.labels j

theorem OnlySlot.refl (i : Nat) (r : Results) : OnlySlot i r r := fun _ _ => ⟨rfl, rfl, rfl⟩

theorem OnlySlot.trans {i : Nat} {a b c : Results} (one : OnlySlot i a b) (two : OnlySlot i b c) :
    OnlySlot i a c := by
  intro j other
  obtain ⟨fh, fattr, label⟩ := one j other
  obtain ⟨fh', fattr', label'⟩ := two j other
  exact ⟨fh'.trans fh, fattr'.trans fattr, label'.trans label⟩

theorem setSlot_other {α : Type} (slots : Nat → α) {i j : Nat} (other : j ≠ i) (a : α) :
    setSlot slots i a j = slots j := if_neg other

/-- Decoders that read with `-EIO` for a short buffer and write to slot `i` only. -/
abbrev SlotDecoder {α : Type} (i : Nat) (m : Decode α) : Prop :=
  Built (-eio) (fun f => ∀ r, OnlySlot i r (f r)) m

theorem xdrInlineDecode_slot (i n : Nat) : SlotDecoder i (xdrInlineDecode n) := .inline n

theorem decodeWord_slot (i : Nat) : SlotDecoder i decodeWord := (xdrInlineDecode_slot i 4).bind fun _ => .pure _

theorem decodeHyper_slot (i : Nat) : SlotDecoder i decodeHyper :=
  (xdrInlineDecode_slot i 8).bind fun _ => .pure _

theorem decodeAttrTime_slot (i : Nat) : SlotDecoder i decodeAttrTime :=
  (xdrInlineDecode_slot i 12).bind fun _ => .pure _

theorem decodeString_slot (i : Nat) : SlotDecoder i decodeString :=
  (decodeWord_slot i).bind fun _ => xdrInlineDecode_slot i _

theorem setFhandle_slot (i : Nat) (f : FhBuf → FhBuf) : SlotDecoder i (setFhandle i f) :=
  .modifySide fun _ _ other => ⟨setSlot_other _ other _, rfl, rfl⟩

theorem setFattr_slot (i : Nat) (f : Fattr → Fattr) : SlotDecoder i (setFattr i f) :=
  .modifySide fun _ _ other => ⟨rfl, setSlot_other _ other _, rfl⟩

theorem setBitmap_slot (i : Nat) (f : Results → Bitmap) :
    SlotDecoder i (modifySide fun r => { r with bitmap := f r }) :=
  .modifySide fun _ _ _ => ⟨rfl, rfl, rfl⟩

theorem decodeOpHdr_slot (i : Nat) (op : OpNum) : SlotDecoder i (decodeOpHdr op) :=
  (xdrInlineDecode_slot i 8).bind fun _ => .ite (.throw _) (.ite (.pure _) (.throw _))

theorem decodeSequence_slot (i : Nat) (s : Session) : SlotDecoder i (decodeSequence (some s)) := by
  refine (decodeOpHdr_slot i .sequence).bind fun _ => ?_
  refine (xdrInlineDecode_slot i _).bind fun _ => .ite (.throw _) ?_
  exact (xdrInlineDecode_slot i _).bind fun _ => .ite (.throw _) (.ite (.throw _) (.pure _))

theorem decodeGetfh_slot (i : Nat) : SlotDecoder i (decodeGetfh i) := by
  refine (setFhandle_slot i _).bind fun _ => ?_
  refine (decodeOpHdr_slot i .getfh).bind fun _ => ?_
  refine (decodeWord_slot i).bind fun _ => .ite (.throw _) ?_
  refine (setFhandle_slot i _).bind fun _ => ?_
  exact (xdrInlineDecode_slot i _).bind fun _ => setFhandle_slot i _

section Attributes

variable {α : Type} {word : BitmapWord} {bit i : Nat} {read : Decode α}

theorem attrValue_slot (reads : SlotDecoder i read) : SlotDecoder i (attrValue word bit read) := by
  refine Built.getSide.bind fun _ => .ite (.throw _) (.ite ?_ (.pure _))
  exact reads.bind fun _ => (setBitmap_slot i _).bind fun _ => .pure _

theorem skip_slot (reads : SlotDecoder i read) :
    SlotDecoder i (do let _ ← attrValue word bit read; pure ()) :=
  (attrValue_slot reads).bind fun _ => .pure ()

/-- A value that is stored when it is there. -/
theorem storeAttr_slot (v : Option α) (f : α → Fattr → Fattr) :
    SlotDecoder i (storeAttr i f v) := by
  cases v with
  | none => exact .pure ()
  | some a => exact setFattr_slot i (f a)

theorem decodeField_slot {β : Type} {set : β → Fattr → Fattr} {default : β} {value : α → β}
    {valid : Nat} (reads : SlotDecoder i read) :
    SlotDecoder i (decodeField word bit read set default value valid i) :=
  (setFattr_slot i _).bind fun _ => (attrValue_slot reads).bind fun v => storeAttr_slot v _

end Attributes

theorem decodeName_slot {bit valid i : Nat} {map : Bytes → UInt32 → UInt32 × Bool}
    {set : UInt32 → Fattr → Fattr} : SlotDecoder i (decodeName bit map set valid i) :=
  (setFattr_slot i _).bind fun _ => (attrValue_slot (decodeString_slot i)).bind fun v => storeAttr_slot v _

theorem decodeAttrTypeMode_slot (i : Nat) : SlotDecoder i (decodeAttrTypeMode i) := by
  have read : SlotDecoder i (do
      let type ← decodeWord
      if type.toNat < 1 ∨ type.toNat > 9 then throw (-eio) else pure type) :=
    (decodeWord_slot i).bind fun _ => .ite (.throw _) (.pure _)
  exact (attrValue_slot read).bind fun v => (setFattr_slot i _).bind fun _ => storeAttr_slot v _

theorem decodeAttrLabel_slot (i : Nat) : SlotDecoder i (decodeAttrLabel i) := by
  have read : SlotDecoder i (do
      let lfs ← decodeWord
      let pi ← decodeWord
      let label ← decodeString
      pure ({ lfs, pi, label } : Nfs4Label)) :=
    (decodeWord_slot i).bind fun _ => (decodeWord_slot i).bind fun _ =>
      (decodeString_slot i).bind fun _ => .pure _
  refine Built.getSide.bind fun r => ?_
  cases r.labels i with
  | none => exact .pure ()
  | some _ =>
      refine (attrValue_slot read).bind fun v => ?_
      cases v with
      | none => exact .pure ()
      | some label =>
          refine .ite (.bind (.modifySide fun _ _ other => ?_) fun _ => setFattr_slot i _) (.pure ())
          exact ⟨rfl, rfl, setSlot_other _ other _⟩

theorem decodeGetfattrAttrs_slot (idmap : IdMap) (i : Nat) :
    SlotDecoder i (decodeGetfattrAttrs idmap i) := by
  have fsid : SlotDecoder i decodeFsid := (xdrInlineDecode_slot i 16).bind fun _ => .pure _
  have rdev : SlotDecoder i decodeRdev := (xdrInlineDecode_slot i 8).bind fun _ => .pure _
  have handle : SlotDecoder i (do
      let len ← decodeWord
      if asInt32 len > nfs4Fhsize then throw (-eio) else xdrInlineDecode len.toNat) :=
    (decodeWord_slot i).bind fun _ => .ite (.throw _) (xdrInlineDecode_slot i _)
  have mode : SlotDecoder i (decodeAttrMode i) :=
    (attrValue_slot (decodeWord_slot i)).bind fun v => storeAttr_slot v _
  refine (decodeAttrTypeMode_slot i).bind fun _ => ?_
  refine (decodeField_slot (decodeHyper_slot i)).bind fun _ => ?_
  refine (decodeField_slot (decodeHyper_slot i)).bind fun _ => ?_
  refine (decodeField_slot fsid).bind fun _ => ?_
  refine (skip_slot (decodeWord_slot i)).bind fun _ => ?_
  refine (skip_slot handle).bind fun _ => ?_
  refine (decodeField_slot (decodeHyper_slot i)).bind fun _ => ?_
  refine (skip_slot (.throw _)).bind fun _ => ?_
  refine mode.bind fun _ => ?_
  refine (decodeField_slot (decodeWord_slot i)).bind fun _ => ?_
  refine decodeName_slot.bind fun _ => ?_
  refine decodeName_slot.bind fun _ => ?_
  refine (decodeField_slot rdev).bind fun _ => ?_
  refine (decodeField_slot (decodeHyper_slot i)).bind fun _ => ?_
  refine (decodeField_slot (decodeAttrTime_slot i)).bind fun _ => ?_
  refine (decodeField_slot (decodeAttrTime_slot i)).bind fun _ => ?_
  refine (decodeField_slot (decodeAttrTime_slot i)).bind fun _ => ?_
  refine (decodeField_slot (decodeHyper_slot i)).bind fun _ => ?_
  exact (skip_slot (.throw _)).bind fun _ => decodeAttrLabel_slot i

theorem decodeGetfattrLabel_slot (idmap : IdMap) (i : Nat) :
    SlotDecoder i (decodeGetfattrLabel idmap i) := by
  have bitmap : SlotDecoder i decodeAttrBitmap :=
    (decodeWord_slot i).bind fun _ => (setBitmap_slot i _).bind fun _ =>
      (xdrInlineDecode_slot i _).bind fun _ => setBitmap_slot i _
  have length : SlotDecoder i decodeAttrLength :=
    (decodeWord_slot i).bind fun _ => Built.streamPos.bind fun _ => .pure _
  refine (setBitmap_slot i _).bind fun _ => ?_
  refine (decodeOpHdr_slot i .getattr).bind fun _ => ?_
  refine bitmap.bind fun _ => length.bind fun _ => ?_
  refine (decodeGetfattrAttrs_slot idmap i).bind fun _ => ?_
  exact Built.streamPos.bind fun _ => .ite (.throw _) (.pure _)

/-- The decoder of an operation writes to its own slot only, whatever the reply holds. -/
theorem decodeOp_slot (idmap : IdMap) (i : Nat) (op : NfsOp) :
    SlotDecoder i (decodeOp idmap i op) := by
  cases op with
  | sequence s => exact decodeSequence_slot i s
  | putfh fh => exact decodeOpHdr_slot i .putfh
  | lookup name => exact decodeOpHdr_slot i .lookup
  | getfh => exact decodeGetfh_slot i
  | getattr requested => exact decodeGetfattrLabel_slot idmap i

end Nfs4Compound.Rpc
