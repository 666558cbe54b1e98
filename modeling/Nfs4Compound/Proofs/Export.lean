/-
Module: Nfs4Compound.Proofs.Export
Layer: Proofs
Purpose: A lookup, or a chain of them, that goes over the wire brings back what the server's tree has: from
  the names to the request, through the server to the reply, and from its slots to inodes.
Imports: Nfs4Compound.Rpc.Export, Nfs4Compound.Proofs.ChainReply, Nfs4Compound.Proofs.Calls
Trusted boundary: none
Main exports: nfsFhget_decoded, execute_chain, chainLookup_answers, lookup_answers
-/
import Nfs4Compound.Rpc.Export
import Nfs4Compound.Proofs.ChainReply
import Nfs4Compound.Proofs.Calls

namespace Nfs4Compound.Rpc

open Xdr

/-! ### One name -/

/-- A LOOKUP is encoded as a chain of one name. -/
theorem encLookup_eq (labelWord : UInt32) (room : Nat) (args : LookupArg) :
    nfs4XdrEncLookup labelWord room args =
      nfs4XdrEncChainLookup labelWord room ⟨args.session, args.dirFh, args.bitmask, [args.name]⟩ := by
  simp only [nfs4XdrEncLookup, nfs4XdrEncChainLookup, encodeChain, encodeComponent, Option.bind_eq_bind,
    Option.pure_def, Option.bind_assoc, Option.bind_fun_some]

/-- Its reply is decoded as that of a chain of one name. -/
theorem decLookup_eq (idmap : IdMap) (session : Option Session) :
    nfs4XdrDecLookup idmap session = nfs4XdrDecChainLookup idmap session 1 := by
  simp only [nfs4XdrDecLookup, nfs4XdrDecChainLookup, decodeComponents, decodeComponent, bind_assoc,
    bind_pure_unit]

theorem decodeLookupReply_eq (idmap : IdMap) (session : Option Session) (reply : Bytes) (results : Results) :
    decodeLookupReply idmap session reply results = decodeReply idmap session 1 reply results := by
  rw [decodeLookupReply, decLookup_eq, decodeReply]

/-! ### Inodes of decoded attributes -/

theorem uint32_or_and (a b c : UInt32) : (a ||| b) &&& c = a &&& c ||| b &&& c := by
  apply UInt32.toBitVec_inj.mp
  ext i
  simp [Bool.and_or_distrib_right]

theorem markIf_and (present : Bool) (mark bit : Nat) (f : Fattr) :
    (f.markIf present mark).valid &&& attrBit bit =
      f.valid &&& attrBit bit ||| if present then attrBit mark &&& attrBit bit else 0 := by
  rw [Fattr.markIf, uint32_or_and]
  cases present with
  | false => simp
  | true => rfl

theorem markIf_mode (present : Bool) (mark : Nat) (f : Fattr) : (f.markIf present mark).mode = f.mode := rfl

theorem attrBit_and {mark bit : Nat} (markFits : mark < 32) (bitFits : bit < 32) :
    attrBit mark &&& attrBit bit = if mark = bit then attrBit bit else 0 := by
  have all : ∀ mark : Fin 32, ∀ bit : Fin 32,
      attrBit mark &&& attrBit bit = if mark = bit then attrBit bit else 0 := by decide +kernel
  have one := all ⟨mark, markFits⟩ ⟨bit, bitFits⟩
  simpa only [Fin.mk.injEq] using one

/-- Of the marks, decoding sets those of the attributes that are there. -/
theorem fattrOf_has (idmap : IdMap) (a : FileAttrs) {f : Fattr} (fresh : f.valid = 0) :
    (fattrOf idmap a f).has 0 = a.type.isSome ∧ (fattrOf idmap a f).has 11 = a.fileid.isSome ∧
      (fattrOf idmap a f).has 20 = false ∧ (fattrOf idmap a f).has 21 = false := by
  have isMark : ∀ (present : Bool) (bit : Nat), attrBit bit ≠ 0 →
      decide ((if present then attrBit bit else 0) ≠ 0) = present := by
    intro present bit nonzero
    cases present with
    | false => rfl
    | true => exact decide_eq_true nonzero
  refine ⟨?_, ?_, ?_, ?_⟩
  · simp (disch := decide) only [fattrOf, Fattr.has, markIf_and, fresh, attrBit_and, UInt32.zero_and]
    simpa using isMark a.type.isSome 0 (by decide)
  · simp (disch := decide) only [fattrOf, Fattr.has, markIf_and, fresh, attrBit_and, UInt32.zero_and]
    simpa using isMark a.fileid.isSome 11 (by decide)
  · simp (disch := decide) only [fattrOf, Fattr.has, markIf_and, fresh, attrBit_and, UInt32.zero_and]
    simp
  · simp (disch := decide) only [fattrOf, Fattr.has, markIf_and, fresh, attrBit_and, UInt32.zero_and]
    simp

theorem uint16_or_and (a b c : UInt16) : (a ||| b) &&& c = a &&& c ||| b &&& c := by
  apply UInt16.toBitVec_inj.mp
  ext i
  simp [Bool.and_or_distrib_right]

/-- The permission bits leave the type in a mode alone. -/
theorem typeBits (t : FileType) (tmp : UInt32) :
    (nfsType2fmt t.code ||| permBits tmp) &&& sIfmt = nfsType2fmt t.code := by
  have mask : (~~~0o170000 : UInt32).toUInt16 &&& sIfmt = 0 := by decide
  have apart : permBits tmp &&& sIfmt = 0 := by
    rw [permBits, UInt32.toUInt16_and, UInt16.and_assoc, mask, UInt16.and_zero]
  have own : nfsType2fmt t.code &&& sIfmt = nfsType2fmt t.code := by cases t <;> decide
  rw [uint16_or_and, apart, own, UInt16.or_zero]

theorem fattrOf_typeBits (idmap : IdMap) {a : FileAttrs} {type : FileType} (typed : a.type = some type)
    (f : Fattr) : (fattrOf idmap a f).mode &&& sIfmt = nfsType2fmt type.code := by
  have mode : (fattrOf idmap a f).mode = nfsType2fmt type.code ||| (a.mode.map permBits).getD 0 := by
    simp only [fattrOf, markIf_mode, typed, Option.map_some, Option.getD_some]
  rw [mode]
  cases a.mode with
  | none => exact typeBits type 0
  | some tmp => exact typeBits type tmp

variable {client : Client} {tree : Export}

/-- A slot with the handle and the attributes of an object makes its inode. -/
theorem Mounted.made_filled (mounted : Mounted client tree) {results : Results} {k dir number : Nat}
    {name : Bytes} {f : Fattr} (looked : tree.lookup dir name = .ok number)
    (handle : results.fhandles k = FhBuf.holding (tree.handle number))
    (attrs : results.fattrs k = fattrOf client.idmap
      (tree.attrs number (client.bitmask.masked (nfs4FattrBitmap client.labelWord))).attrs f)
    (fresh : f.valid = 0) : client.made results k = some number := by
  obtain ⟨type, fileid, typed, numbered, inside, found⟩ := mounted.attrs dir name number looked
  rw [Client.made, attrs, handle]
  generalize (tree.attrs number (client.bitmask.masked (nfs4FattrBitmap client.labelWord))).attrs = a at *
  obtain ⟨hasType, hasFileid, noReferral, noMountpoint⟩ := fattrOf_has client.idmap a fresh
  have bits := fattrOf_typeBits client.idmap typed f
  have sameFsid : (fattrOf client.idmap a f).fsid = client.fsid := by
    simp only [fattrOf, Fattr.markIf, inside, Option.getD_some]
  have sameFileid : (fattrOf client.idmap a f).fileid = fileid := by
    simp only [fattrOf, Fattr.markIf, numbered, Option.getD_some]
  have data : (FhBuf.holding (tree.handle number)).data.take (FhBuf.holding (tree.handle number)).size =
      (tree.handle number).data := List.take_left
  simp only [nfsFhget, nfsAttrCheckMountpoint, sameFsid, ne_eq, not_true_eq_false, if_false,
    nfsAttrUseMountedOnFileid, noReferral, noMountpoint, Bool.or_false, Bool.and_false, hasType, hasFileid,
    typed, numbered, Option.isSome_some, if_true, sameFileid, bits, data, found]
  simp

/-- An attribute buffer that nothing was decoded into makes no inode. -/
theorem made_fresh {results : Results} {k : Nat} (fresh : (results.fattrs k).valid = 0) :
    client.made results k = none := by
  have empty : ∀ bit, attrBit 21 &&& attrBit bit = 0 →
      (nfsAttrCheckMountpoint client.fsid (results.fattrs k)).has bit = false := by
    intro bit apart
    rw [nfsAttrCheckMountpoint]
    split
    · simp only [Fattr.has, fresh, UInt32.zero_or, apart]
      rfl
    · simp only [Fattr.has, fresh, UInt32.zero_and]
      rfl
  have unnumbered := empty 11 (by decide)
  have unmounted := empty 22 (by decide)
  simp only [Client.made, nfsFhget, nfsAttrUseMountedOnFileid, unnumbered, unmounted, Bool.false_and]
  rfl

/-! ### A chain on the server -/

variable {requested : Bitmap} {name : Bytes} {names : List Bytes} {dir child : Nat}

theorem execute_found (found : tree.lookup dir name = .ok child) :
    execute tree.server (chainOps requested (name :: names)) (some dir) =
      ⟨.lookup name, .ok ()⟩ :: ⟨.getfh, .ok (tree.handle child)⟩ ::
        ⟨.getattr requested, .ok (tree.attrs child requested)⟩ ::
        execute tree.server (chainOps requested names) (some child) := by
  simp only [chainOps, List.flatMap_cons, List.cons_append, List.nil_append, execute, Export.server,
    Export.exec, found]

theorem execute_refused {error : NfsErr} (refused : tree.lookup dir name = .error error) :
    execute tree.server (chainOps requested (name :: names)) (some dir) =
      [⟨.lookup name, .error error⟩] := by
  simp only [chainOps, List.flatMap_cons, List.cons_append, List.nil_append, execute, Export.server,
    Export.exec, refused]

/-- The error of an outcome. -/
def refusal : Except NfsErr Nat → Option NfsErr
  | .ok _ => none
  | .error error => some error

/-- The results of a chain whose first name has slot `i`: their error is that of the lookups, and the
    slot of each name makes the inode that the names up to it lead to. -/
structure ChainSettled (client : Client) (tree : Export) (names : List Bytes) (dir i : Nat)
    (results : List OpResult) (side after : Results) : Prop where
  failed : failure results = refusal (names.foldlM tree.lookup dir)
  earlier : ∀ j, j < i → SameSlot j side after
  made : ∀ k, k < names.length →
    client.made after (i + k) = ((names.take (k + 1)).foldlM tree.lookup dir).toOption

theorem SameSlot.made {results after : Results} {k : Nat} (same : SameSlot k results after) :
    client.made after k = client.made results k := by
  rw [Client.made, Client.made, same.1, same.2.1]

/-- What the lookups bring back from the server is settled name by name. -/
theorem Mounted.chain_settles (mounted : Mounted client tree)
    (requestedIs : requested = client.bitmask.masked (nfs4FattrBitmap client.labelWord)) :
    ∀ (names : List Bytes) (dir i : Nat) (side : Results), (∀ j, i ≤ j → (side.fattrs j).valid = 0) →
      ChainSettled client tree names dir i (execute tree.server (chainOps requested names) (some dir)) side
        (settle client.idmap (chainSlots requested names i)
          (execute tree.server (chainOps requested names) (some dir)) side)
  | [], dir, i, side, _ => ⟨rfl, fun j _ => .refl j side, fun k inside => absurd inside (Nat.not_lt_zero k)⟩
  | name :: names, dir, i, side, fresh => by
      cases looked : tree.lookup dir name with
      | error error =>
          rw [execute_refused looked]
          constructor
          · simp only [failure, List.foldlM_cons, looked]
            rfl
          · intro j _
            exact .refl j side
          · intro k _
            rw [List.take_succ_cons, List.foldlM_cons, looked]
            exact made_fresh (fresh (i + k) (Nat.le_add_right i k))
      | ok child =>
          rw [execute_found looked]
          let filled := okEffect client.idmap i (okEffect client.idmap i side .getfh (tree.handle child))
            (.getattr requested) (tree.attrs child requested)
          have others : ∀ j, j ≠ i → SameSlot j side filled := fun j other =>
            (okEffect_other client.idmap other side .getfh (tree.handle child)).trans
              (okEffect_other client.idmap other _ (.getattr requested) (tree.attrs child requested))
          have rest := mounted.chain_settles requestedIs names child (i + 1) filled (by
            intro j later
            rw [(others j (by omega)).2.1]
            exact fresh j (by omega))
          constructor
          · simp only [failure, rest.failed, List.foldlM_cons, looked]
            rfl
          · intro j before
            exact (others j (by omega)).trans (rest.earlier j (by omega))
          · intro k inside
            rw [List.take_succ_cons, List.foldlM_cons, looked]
            cases k with
            | zero =>
                have own := rest.earlier i (Nat.lt_succ_self i)
                have here : client.made filled i = some child := by
                  apply mounted.made_filled (f := side.fattrs i) looked
                  · exact setSlot_same _ i _
                  · rw [← requestedIs]
                    exact setSlot_same _ i _
                  · exact fresh i (le_refl i)
                exact own.made.trans here
            | succ k =>
                have later := rest.made k (Nat.lt_of_succ_lt_succ inside)
                rw [Nat.add_assoc, Nat.add_comm 1 k] at later
                exact later

/-! ### The whole compound -/

/-- A chain whose start directory the server does not know any more is refused before its first name. -/
theorem stale_settles {names : List Bytes} {dir : Nat} {start : Results} {results : List OpResult}
    (nonempty : names ≠ []) (stale : ∀ name, tree.lookup dir name = .error nfs4errStale)
    (failed : failure results = some nfs4errStale) (fresh : ∀ k, (start.fattrs k).valid = 0) :
    ChainSettled client tree names dir 0 results start start := by
  obtain ⟨name, rest, rfl⟩ := List.exists_cons_of_ne_nil nonempty
  constructor
  · rw [failed, List.foldlM_cons, stale name]
    rfl
  · intro j _
    exact .refl j start
  · intro k _
    rw [List.take_succ_cons, List.foldlM_cons, stale name]
    exact made_fresh (fresh _)

/-- In front of the chain stand operations that fill no slot. -/
theorem Mounted.request_settles (mounted : Mounted client tree) {args : ChainLookupArg}
    (nonempty : args.names ≠ []) (fromDir : args.dirFh = tree.handle dir)
    (asked : args.bitmask = client.bitmask) {start : Results} (fresh : ∀ k, (start.fattrs k).valid = 0) :
    ChainSettled client tree args.names dir 0
      (execute tree.server (requestOps client.labelWord args) none) start
      (settle client.idmap (requestSlots client.labelWord args)
        (execute tree.server (requestOps client.labelWord args) none) start) := by
  have chain := mounted.chain_settles
    (congrArg (Bitmap.masked · (nfs4FattrBitmap client.labelWord)) asked) args.names dir 0 start
    fun k _ => fresh k
  have known := mounted.object dir
  rw [← fromDir] at known
  rcases known with enters | ⟨gone, stale⟩
  · cases session : args.session with
    | none =>
        simp only [requestOps, requestSlots, session, Option.toList_none, List.map_nil, List.nil_append,
          execute, Export.server, Export.exec, enters]
        exact ⟨chain.failed, chain.earlier, chain.made⟩
    | some s =>
        simp only [requestOps, requestSlots, session, Option.toList_some, List.map_cons, List.map_nil,
          List.cons_append, List.nil_append, execute, Export.server, Export.exec, enters]
        exact ⟨chain.failed, chain.earlier, chain.made⟩
  · cases session : args.session with
    | none =>
        simp only [requestOps, requestSlots, session, Option.toList_none, List.map_nil, List.nil_append,
          execute, Export.server, Export.exec, gone]
        exact stale_settles nonempty stale rfl fresh
    | some s =>
        simp only [requestOps, requestSlots, session, Option.toList_some, List.map_cons, List.map_nil,
          List.cons_append, List.nil_append, execute, Export.server, Export.exec, gone]
        exact stale_settles nonempty stale rfl fresh

/-- A compound reports the status of the operation that failed. -/
theorem compoundStatus_of_answers {todo : List (NfsOp × Nat)} {results : List OpResult}
    (answers : Answers todo results) :
    compoundStatus results = (failure results).elim 0 NfsErr.status := by
  induction answers with
  | stop => rfl
  | error e => rfl
  | @ok op i todo results reply rest inductionHypothesis =>
      cases results with
      | nil => rfl
      | cons next results =>
          rw [failure, ← inductionHypothesis, compoundStatus, compoundStatus, List.getLast?_cons_cons]

/-- From the bytes of a request to what the decoder makes of the bytes that come back, for any server. -/
theorem request_served {σ : Type} (server : Server σ) (st : σ) (idmap : IdMap) {labelWord : UInt32}
    {args : ChainLookupArg} (start : Results) (short : ∀ name ∈ args.names, name.length < 2 ^ 32)
    (count : (requestOps labelWord args).length < 2 ^ 32) :
    ∃ reply, serve server st (requestBytes labelWord args) = some reply ∧
      wordOf reply =
        (failure (execute server (requestOps labelWord args) st)).elim 0 NfsErr.status ∧
      decodeReply idmap args.session args.names.length reply start =
        (match failure (execute server (requestOps labelWord args) st) with
          | none => 0
          | some e => nfs4StatToErrno (asInt32 e.status),
          settle idmap (requestSlots labelWord args) (execute server (requestOps labelWord args) st)
            start) := by
  obtain ⟨answers, complete⟩ := execute_answers server (requestSlots labelWord args) st
  obtain ⟨atMost, atLeast⟩ := execute_length server (requestOps labelWord args) st
  rw [requestSlots_fst] at answers complete
  have served : serve server st (requestBytes labelWord args) =
      some (replyBytes [] (execute server (requestOps labelWord args) st)) := by
    rw [serve, parseRequest_requestBytes short count]
    rfl
  generalize execute server (requestOps labelWord args) st = results at *
  have counted : UInt32.ofNat results.length ≠ 0 := by
    intro zero
    have value := congrArg UInt32.toNat zero
    rw [UInt32.toNat_ofNat', Nat.mod_eq_of_lt (by omega), UInt32.toNat_zero] at value
    exact atLeast (by simp [requestOps]) (List.length_eq_zero_iff.mp value)
  have decoded := decodeReply_results idmap labelWord args start (compoundStatus results) answers
    counted complete
  rw [← replyHeader_eq, ← replyBytes] at decoded
  refine ⟨_, served, ?_, decoded⟩
  rw [replyBytes, replyHeader, List.append_assoc, wordOf_wordBytes, compoundStatus_of_answers answers]

/-- What the client has when the names are looked up in its directory. -/
theorem Mounted.request_answered (mounted : Mounted client tree) {args : ChainLookupArg}
    (nonempty : args.names ≠ []) (fromDir : args.dirFh = tree.handle dir)
    (asked : args.bitmask = client.bitmask)
    (short : ∀ name ∈ args.names, name.length ≤ nfs4Maxnamlen) (bounded : args.names.length ≤ chainMax)
    (t : Nat) :
    ∃ reply, serve tree.server none (requestBytes client.labelWord args) = some reply ∧
      (CallReply.nfs (wordOf reply)).status = callStatus (args.names.foldlM tree.lookup dir) ∧
      ∃ after, decodeReply client.idmap args.session args.names.length reply (client.buffers t) =
          (callStatus (args.names.foldlM tree.lookup dir), after) ∧
        ∀ k, k < args.names.length →
          client.made after k = ((args.names.take (k + 1)).foldlM tree.lookup dir).toOption := by
  have settled := mounted.request_settles nonempty fromDir asked (mounted.fresh t)
  have few := @opCount_le args bounded
  rw [← length_requestOps client.labelWord args] at few
  have count : (requestOps client.labelWord args).length < 2 ^ 32 := by omega
  obtain ⟨reply, served, word, decoded⟩ := request_served tree.server none client.idmap
    (client.buffers t) (fun name inside => lt_of_le_of_lt (short name inside) (by decide)) count
  rw [settled.failed] at word decoded
  have made := settled.made
  simp only [Nat.zero_add] at made
  refine ⟨reply, served, ?_, settle client.idmap (requestSlots client.labelWord args)
    (execute tree.server (requestOps client.labelWord args) none) (client.buffers t), ?_, made⟩
  · rw [CallReply.status, word]
    cases args.names.foldlM tree.lookup dir with
    | ok inode => rfl
    | error error => rfl
  · rw [decoded]
    cases args.names.foldlM tree.lookup dir with
    | ok inode => rfl
    | error error => rfl

/-! ### The calls -/

/-- Names that pass the length check leave room in the buffer. -/
theorem request_within {args : ChainLookupArg} (nonempty : args.names ≠ [])
    (short : ∀ name ∈ args.names, name.length ≤ nfs4Maxnamlen) (bounded : args.names.length ≤ chainMax)
    (labelWord : UInt32) : (requestBytes labelWord args).length ≤ chainLookupRoom args := by
  obtain ⟨xdr, written, -⟩ :=
    short_names_fit labelWord args (Nat.le_refl _) bounded (List.length_pos_iff.mpr nonempty) short
  rw [encChainLookup_eq] at written
  split at written
  · assumption
  · cases written

/-- A chain lookup that goes over the wire brings back what the lookups one after the other would. -/
theorem Mounted.chainLookup_answers (mounted : Mounted client tree) (t dir : Nat) {names : List Bytes}
    (nonempty : names ≠ []) (short : ∀ name ∈ names, name.length ≤ nfs4Maxnamlen)
    (bounded : names.length ≤ chainMax) :
    ∃ slots, client.chainLookup tree t dir names = some (callStatus (names.foldlM tree.lookup dir), slots) ∧
      ∀ k, k < names.length → slots k = ((names.take (k + 1)).foldlM tree.lookup dir).toOption := by
  let args : ChainLookupArg := ⟨client.session t, client.handle dir, client.bitmask, names⟩
  have fromDir : args.dirFh = tree.handle dir := mounted.handle dir
  obtain ⟨reply, served, -, after, decoded, made⟩ :=
    mounted.request_answered nonempty fromDir rfl short bounded t
  have encoded := encChainLookup_eq client.labelWord (chainLookupRoom args) args
  rw [if_pos (request_within nonempty short bounded client.labelWord)] at encoded
  refine ⟨client.made after, ?_, made⟩
  simp only [Client.chainLookup, Option.bind_eq_bind]
  rw [encoded, Option.bind_some, served, Option.bind_some, decoded]
  rfl

/-- A status of the kernel's own comes back from the first call. -/
theorem lookupCommon_kept {replies : Nat → CallReply} (recovery : Recovery)
    (kept : -1000 ≤ (replies 0).status) :
    nfs4ProcLookupCommon recovery replies 1 = some (replies 0).status := by
  have other : ∀ c : Nfs4Err, 1000 < c.code → (replies 0).status ≠ -c.code := by
    intro c high same
    omega
  simp only [nfs4ProcLookupCommon, lookupCommonLoop, handleException_kept kept]
  rw [if_neg (other .badname (by decide)), if_neg (other .moved (by decide)),
    if_neg (other .wrongsec (by decide))]
  rfl

/-- A lookup that goes over the wire brings back what the server's tree has. -/
theorem Mounted.lookup_answers (mounted : Mounted client tree) (t dir : Nat) {name : Bytes}
    (short : name.length ≤ nfs4Maxnamlen) :
    client.lookup tree t dir name =
      some (callStatus (tree.lookup dir name), (tree.lookup dir name).toOption) := by
  let args : ChainLookupArg := ⟨client.session t, client.handle dir, client.bitmask, [name]⟩
  have alone : [name].foldlM tree.lookup dir = tree.lookup dir name := by
    rw [List.foldlM_cons]
    cases tree.lookup dir name with
    | ok inode => rfl
    | error error => rfl
  have fromDir : args.dirFh = tree.handle dir := mounted.handle dir
  have within : ∀ other ∈ args.names, other.length ≤ nfs4Maxnamlen := by
    intro other inside
    rw [List.mem_singleton.mp inside]
    exact short
  have one : args.names.length ≤ chainMax := show 1 ≤ chainMax by decide
  have nonempty : args.names ≠ [] := List.cons_ne_nil name []
  obtain ⟨reply, served, status, after, decoded, made⟩ :=
    mounted.request_answered nonempty fromDir rfl within one t
  have slot := made 0 Nat.zero_lt_one
  rw [show args.names.take (0 + 1) = [name] from rfl, alone] at slot
  rw [show args.names = [name] from rfl, alone] at status decoded
  rw [show args.session = client.session t from rfl, List.length_singleton, ← decodeLookupReply_eq] at decoded
  have encoded := (encLookup_eq client.labelWord (4 * encLookupSz)
    ⟨client.session t, client.handle dir, client.bitmask, name⟩).trans
      (encChainLookup_eq client.labelWord (4 * encLookupSz) args)
  have room : (requestBytes client.labelWord args).length ≤ 4 * encLookupSz :=
    request_within nonempty within one client.labelWord
  rw [if_pos room] at encoded
  have kept : -1000 ≤ (CallReply.nfs (wordOf reply)).status := by
    rw [status]
    cases looked : tree.lookup dir name with
    | ok inode => exact show (-1000 : Int) ≤ 0 by decide
    | error error => exact mounted.settled dir name error looked
  have returns : nfs4ProcLookupCommon client.recovery (fun _ => .nfs (wordOf reply)) 1 =
      some (CallReply.nfs (wordOf reply)).status := lookupCommon_kept client.recovery kept
  simp only [Client.lookup, Option.bind_eq_bind]
  rw [encoded, Option.bind_some, served, Option.bind_some, returns, Option.bind_some, status, decoded, slot]
  rfl

end Nfs4Compound.Rpc
