/-
Module: Nfs4Compound.Proofs.ChainReply
Layer: Proofs
Purpose: The chain compound and the decoder of its reply agree.  The decoder is the decoders of the
  requested operations one after the other, each with the slot of its component; so what it makes of a
  reply is settled by the results the server gave, and a reply that departs from the request or breaks
  off is refused at the operation where it does.
Imports: Nfs4Compound.Proofs.OpDecode, Nfs4Compound.Proofs.RequestRoundTrip
Trusted boundary: none
Main exports: requestSlots, Answers, settle, SlotsMatch, chain_reply_agrees
-/
import Nfs4Compound.Proofs.OpDecode
import Nfs4Compound.Proofs.RequestRoundTrip

namespace Nfs4Compound.Rpc

open Xdr

/-! ### The decoder, operation by operation -/

/-- The operations of a chain of names, with the slot of the component each belongs to. -/
def chainSlots (requested : Bitmap) : List Bytes → Nat → List (NfsOp × Nat)
  | [], _ => []
  | name :: names, i =>
      (.lookup name, i) :: (.getfh, i) :: (.getattr requested, i) :: chainSlots requested names (i + 1)

/-- The operations of the request; SEQUENCE and PUTFH have no slot. -/
def requestSlots (labelWord : UInt32) (args : ChainLookupArg) : List (NfsOp × Nat) :=
  args.session.toList.map (fun s => (.sequence s, 0)) ++ (.putfh args.dirFh, 0) ::
    chainSlots (args.bitmask.masked (nfs4FattrBitmap labelWord)) args.names 0

/-- One decoder after the other. -/
def decodeOps (idmap : IdMap) : List (NfsOp × Nat) → Decode Unit
  | [] => pure ()
  | (op, i) :: todo => do
      decodeOp idmap i op
      decodeOps idmap todo

theorem chainSlots_fst (requested : Bitmap) :
    ∀ (names : List Bytes) (i : Nat),
      (chainSlots requested names i).map Prod.fst = chainOps requested names
  | [], _ => rfl
  | name :: names, i => by
      simp only [chainSlots, List.map_cons, chainSlots_fst requested names (i + 1)]
      rfl

theorem requestSlots_fst (labelWord : UInt32) (args : ChainLookupArg) :
    (requestSlots labelWord args).map Prod.fst = requestOps labelWord args := by
  rw [requestSlots, List.map_append, List.map_cons, chainSlots_fst, List.map_map]
  rfl

theorem decodeComponents_eq (idmap : IdMap) (requested : Bitmap) :
    ∀ (names : List Bytes) (i : Nat),
      decodeComponents idmap names.length i = decodeOps idmap (chainSlots requested names i)
  | [], _ => rfl
  | name :: names, i => by
      rw [List.length_cons, decodeComponents, decodeComponents_eq idmap requested names (i + 1)]
      simp only [decodeComponent, chainSlots, decodeOps, decodeOp, bind_assoc]

theorem decChainLookup_eq (idmap : IdMap) (labelWord : UInt32) (args : ChainLookupArg) :
    nfs4XdrDecChainLookup idmap args.session args.names.length =
      decodeCompoundHdr >>= fun _ => decodeOps idmap (requestSlots labelWord args) := by
  rw [nfs4XdrDecChainLookup, requestSlots,
    decodeComponents_eq idmap (args.bitmask.masked (nfs4FattrBitmap labelWord))]
  cases args.session with
  | none => simp only [decodeSequence, Option.toList_none, List.map_nil, List.nil_append, decodeOps,
      decodeOp, pure_bind]
  | some s => rfl

/-! ### Results that answer the request -/

/-- The results answer the operations in order; they may end anywhere, and nothing follows an error. -/
inductive Answers : List (NfsOp × Nat) → List OpResult → Prop where
  | stop {todo : List (NfsOp × Nat)} : Answers todo []
  | ok {op : NfsOp} {i : Nat} {todo : List (NfsOp × Nat)} {results : List OpResult}
      (reply : OpReply op) (rest : Answers todo results) :
      Answers ((op, i) :: todo) (⟨op, .ok reply⟩ :: results)
  | error {op : NfsOp} {i : Nat} {todo : List (NfsOp × Nat)} (e : NfsErr) :
      Answers ((op, i) :: todo) [⟨op, .error e⟩]

/-- The error the results end with. -/
def failure : List OpResult → Option NfsErr
  | [] => none
  | ⟨_, .ok _⟩ :: results => failure results
  | ⟨_, .error e⟩ :: _ => some e

/-- What the results leave in the arrays. -/
def settle (idmap : IdMap) : List (NfsOp × Nat) → List OpResult → Results → Results
  | (_, i) :: todo, ⟨op, .ok reply⟩ :: results, side =>
      settle idmap todo results (okEffect idmap i side op reply)
  | (_, i) :: _, ⟨op, .error _⟩ :: _, side => stopEffect i side op
  | _, _, side => side

/-- A server's results answer the operations it was given; without an error they answer them all. -/
theorem execute_answers {σ : Type} (server : Server σ) :
    ∀ (todo : List (NfsOp × Nat)) (st : σ),
      Answers todo (execute server (todo.map Prod.fst) st) ∧
        (failure (execute server (todo.map Prod.fst) st) = none →
          (execute server (todo.map Prod.fst) st).length = todo.length)
  | [], _ => ⟨.stop, fun _ => rfl⟩
  | (op, i) :: todo, st => by
      simp only [List.map_cons, execute]
      cases outcome : server.exec op st with
      | mk reply st' =>
          cases reply with
          | error e => exact ⟨.error e, fun none => by cases none⟩
          | ok reply =>
              obtain ⟨answers, complete⟩ := execute_answers server todo st'
              exact ⟨.ok reply answers, fun none => by
                rw [List.length_cons, List.length_cons, complete none]⟩

/-- After results without an error the decoder goes on with the operations they do not answer. -/
theorem decodeOps_answers (idmap : IdMap) {todo : List (NfsOp × Nat)} {results : List OpResult}
    (answers : Answers todo results) :
    ∀ (pos : Nat) (side : Results) (tail : Bytes), failure results = none →
      (decodeOps idmap todo).run ⟨results.flatMap OpResult.bytes ++ tail, pos, side⟩ =
        (decodeOps idmap (todo.drop results.length)).run
          ⟨tail, pos + (results.flatMap OpResult.bytes).length, settle idmap todo results side⟩ := by
  induction answers with
  | stop =>
      intro pos side tail _
      cases ‹List (NfsOp × Nat)› <;> rfl
  | @ok op i todo results reply rest inductionHypothesis =>
      intro pos side tail noFailure
      have read := decodeOp_reads idmap op reply i pos side
        (results.flatMap OpResult.bytes ++ tail)
      rw [decodeOps, EStateM.run_bind, List.flatMap_cons, List.append_assoc, read]
      simp only [List.length_cons, List.drop_succ_cons, List.length_append, ← Nat.add_assoc]
      exact inductionHypothesis _ _ tail noFailure
  | error e =>
      intro pos side tail noFailure
      cases noFailure

/-- Results that answer everything, or end with an error, are consumed whole. -/
theorem decodeOps_results (idmap : IdMap) {todo : List (NfsOp × Nat)} {results : List OpResult}
    (answers : Answers todo results) :
    ∀ (pos : Nat) (side : Results), (failure results = none → results.length = todo.length) →
      (decodeOps idmap todo).run ⟨results.flatMap OpResult.bytes, pos, side⟩ =
        match failure results with
        | none => .ok () ⟨[], pos + (results.flatMap OpResult.bytes).length,
            settle idmap todo results side⟩
        | some e => .error (nfs4StatToErrno (asInt32 e.status))
            ⟨[], pos + (results.flatMap OpResult.bytes).length, settle idmap todo results side⟩ := by
  induction answers with
  | @stop todo =>
      intro pos side complete
      have none : todo = [] := List.length_eq_zero_iff.mp (complete rfl).symm
      rw [none]
      rfl
  | @ok op i todo results reply rest inductionHypothesis =>
      intro pos side complete
      have read := decodeOp_reads idmap op reply i pos side (results.flatMap OpResult.bytes)
      have others := inductionHypothesis (pos + (OpResult.bytes ⟨op, .ok reply⟩).length)
        (okEffect idmap i side op reply) fun none => by
          have lengths := complete none
          rw [List.length_cons, List.length_cons] at lengths
          omega
      rw [decodeOps, EStateM.run_bind, List.flatMap_cons, read, List.length_append, ← Nat.add_assoc]
      exact others
  | @error op i todo e =>
      intro pos side _
      have refused := decodeOp_rejects idmap op e i pos side []
      rw [List.append_nil] at refused
      rw [decodeOps, EStateM.run_bind, List.flatMap_cons, List.flatMap_nil, List.append_nil, refused]
      rfl

/-! ### Which slots the results fill -/

/-- The slot is as it was. -/
def SameSlot (j : Nat) (start after : Results) : Prop :=
  after.fhandles j = start.fhandles j ∧ after.fattrs j = start.fattrs j ∧
    after.labels j = start.labels j

/-- The slot holds exactly this handle and these attributes. -/
def SlotHolds (idmap : IdMap) (j : Nat) (fh : NfsFh) (attrs : FileAttrs) (start after : Results) :
    Prop :=
  after.fhandles j = FhBuf.holding fh ∧ after.fattrs j = fattrOf idmap attrs (start.fattrs j)

/-- The results of a chain whose first component has slot `i` and whose first operation is result
    `base`: a component whose GETFH and GETATTR succeeded has its own data, a component without results
    is untouched. -/
structure SlotsMatch (idmap : IdMap) (base i : Nat) (results : List OpResult) (start after : Results) :
    Prop where
  filled : ∀ (c : Nat) (fh : NfsFh) (requested : Bitmap) (reply : AttrReply),
    results[base + 3 * c + 1]? = some ⟨.getfh, .ok fh⟩ →
    results[base + 3 * c + 2]? = some ⟨.getattr requested, .ok reply⟩ →
    SlotHolds idmap (i + c) fh reply.attrs start after
  untouched : ∀ j, j < i ∨ i ≤ j ∧ results.length ≤ base + 3 * (j - i) → SameSlot j start after

/-- As long as the first component lacks its third result, nothing but its slot can have changed, and
    that only after its LOOKUP was answered. -/
theorem SlotsMatch.cutShort {idmap : IdMap} {base i : Nat} {results : List OpResult}
    {start after : Results} (few : results.length ≤ base + 2)
    (others : ∀ j, j ≠ i → SameSlot j start after)
    (unstarted : results.length ≤ base → SameSlot i start after) :
    SlotsMatch idmap base i results start after where
  filled := by
    intro c fh requested reply _ attrs
    rw [List.getElem?_eq_none (by omega)] at attrs
    cases attrs
  untouched := by
    intro j outside
    by_cases own : j = i
    · subst own
      exact unstarted (by omega)
    · exact others j own

theorem SameSlot.refl (j : Nat) (side : Results) : SameSlot j side side := ⟨rfl, rfl, rfl⟩

theorem okEffect_other (idmap : IdMap) {i j : Nat} (other : j ≠ i) (side : Results) (op : NfsOp)
    (reply : OpReply op) : SameSlot j side (okEffect idmap i side op reply) := by
  cases op with
  | getfh => exact ⟨setSlot_other _ other _, rfl, rfl⟩
  | getattr requested => exact ⟨rfl, setSlot_other _ other _, rfl⟩
  | _ => exact ⟨rfl, rfl, rfl⟩

theorem stopEffect_other {i j : Nat} (other : j ≠ i) (side : Results) (op : NfsOp) :
    SameSlot j side (stopEffect i side op) := by
  cases op with
  | getfh => exact ⟨setSlot_other _ other _, rfl, rfl⟩
  | _ => exact ⟨rfl, rfl, rfl⟩

theorem SameSlot.trans {j : Nat} {a b c : Results} (one : SameSlot j a b) (two : SameSlot j b c) :
    SameSlot j a c :=
  ⟨two.1.trans one.1, two.2.1.trans one.2.1, two.2.2.trans one.2.2⟩

/-- A chain whose first component is complete: its slot holds its data, and the other components are
    settled by the results after it. -/
theorem SlotsMatch.component {idmap : IdMap} {i : Nat} {name : Bytes} {requested : Bitmap}
    {lookup : Unit} {fh : NfsFh} {reply : AttrReply} {results : List OpResult} {side after : Results}
    (rest : SlotsMatch idmap 0 (i + 1) results
      (okEffect idmap i (okEffect idmap i side .getfh fh) (.getattr requested) reply) after) :
    SlotsMatch idmap 0 i
      (⟨.lookup name, .ok lookup⟩ :: ⟨.getfh, .ok fh⟩ :: ⟨.getattr requested, .ok reply⟩ :: results)
      side after where
  filled := by
    intro c fh' requested' reply' handle attrs
    cases c with
    | zero =>
        cases handle
        cases attrs
        obtain ⟨keptFh, keptFattr, -⟩ := rest.untouched i (Or.inl (Nat.lt_succ_self i))
        exact ⟨keptFh.trans (setSlot_same _ i _), keptFattr.trans (setSlot_same _ i _)⟩
    | succ c =>
        have index : i + (c + 1) = i + 1 + c := by omega
        have shift1 : 0 + 3 * (c + 1) + 1 = (0 + 3 * c + 1) + 1 + 1 + 1 := by omega
        have shift2 : 0 + 3 * (c + 1) + 2 = (0 + 3 * c + 2) + 1 + 1 + 1 := by omega
        rw [shift1, List.getElem?_cons_succ, List.getElem?_cons_succ,
          List.getElem?_cons_succ] at handle
        rw [shift2, List.getElem?_cons_succ, List.getElem?_cons_succ,
          List.getElem?_cons_succ] at attrs
        obtain ⟨fhandle, fattr⟩ := rest.filled c fh' requested' reply' handle attrs
        have other : i + 1 + c ≠ i := by omega
        rw [index]
        refine ⟨fhandle, fattr.trans ?_⟩
        congr 1
        exact setSlot_other _ other _
  untouched := by
    intro j outside
    have other : j ≠ i := by
      rintro rfl
      simp only [List.length_cons] at outside
      omega
    have later : j < i + 1 ∨ i + 1 ≤ j ∧ results.length ≤ 0 + 3 * (j - (i + 1)) := by
      simp only [List.length_cons] at outside
      omega
    exact ((okEffect_other idmap other side .getfh fh).trans
      (okEffect_other idmap other _ (.getattr requested) reply)).trans (rest.untouched j later)

/-- The results of the chain, component by component: the first three settle the first slot, the others
    the slots after it. -/
theorem settle_chain (idmap : IdMap) (requested : Bitmap) :
    ∀ (names : List Bytes) (i : Nat) (results : List OpResult) (side : Results),
      Answers (chainSlots requested names i) results →
      SlotsMatch idmap 0 i results side (settle idmap (chainSlots requested names i) results side)
  | [], i, results, side, answers => by
      cases answers
      exact .cutShort (by simp) (fun j _ => .refl j side) fun _ => .refl i side
  | name :: names, i, results, side, answers => by
      cases answers with
      | stop => exact .cutShort (by simp) (fun j _ => .refl j side) fun _ => .refl i side
      | error e => exact .cutShort (by simp) (fun j _ => .refl j side) fun _ => .refl i side
      | ok lookup afterLookup =>
          cases afterLookup with
          | stop => exact .cutShort (by simp) (fun j _ => .refl j side) fun _ => .refl i side
          | error e =>
              exact .cutShort (by simp) (fun j other => stopEffect_other other side .getfh)
                fun none => absurd none (by simp)
          | ok fh afterGetfh =>
              cases afterGetfh with
              | stop =>
                  exact .cutShort (by simp) (fun j other => okEffect_other idmap other side .getfh fh)
                    fun none => absurd none (by simp)
              | error e =>
                  refine ⟨?_, ?_⟩
                  · intro c fh' requested' reply _ attrs
                    cases c with
                    | zero => cases attrs
                    | succ c =>
                        rw [List.getElem?_eq_none (by simp; omega)] at attrs
                        cases attrs
                  · intro j outside
                    have other : j ≠ i := by
                      rintro rfl
                      simp at outside
                    exact (okEffect_other idmap other side .getfh fh).trans
                      (stopEffect_other other _ (.getattr requested))
              | ok reply rest =>
                  exact (settle_chain idmap requested names (i + 1) _ _ rest).component

/-- The operations in front of the chain: SEQUENCE, when there is a session, and PUTFH. -/
def baseOps (session : Option Session) : Nat := sequenceOps session + 1

/-- A successful operation without a slot moves the chain by one result. -/
theorem SlotsMatch.behind {idmap : IdMap} {base i : Nat} {results : List OpResult}
    {start after : Results} (result : OpResult) (rest : SlotsMatch idmap base i results start after) :
    SlotsMatch idmap (base + 1) i (result :: results) start after where
  filled := by
    intro c fh requested reply handle attrs
    rw [show base + 1 + 3 * c + 1 = base + 3 * c + 1 + 1 by omega, List.getElem?_cons_succ] at handle
    rw [show base + 1 + 3 * c + 2 = base + 3 * c + 2 + 1 by omega, List.getElem?_cons_succ] at attrs
    exact rest.filled c fh requested reply handle attrs
  untouched := by
    intro j outside
    rw [List.length_cons] at outside
    exact rest.untouched j (by omega)

theorem settle_putfh (idmap : IdMap) (requested : Bitmap) (fh : NfsFh) (names : List Bytes)
    (results : List OpResult) (side : Results)
    (answers : Answers ((.putfh fh, 0) :: chainSlots requested names 0) results) :
    SlotsMatch idmap 1 0 results side
      (settle idmap ((.putfh fh, 0) :: chainSlots requested names 0) results side) := by
  cases answers with
  | stop => exact .cutShort (by simp) (fun j _ => .refl j side) fun _ => .refl 0 side
  | error e => exact .cutShort (by simp) (fun j _ => .refl j side) fun _ => .refl 0 side
  | ok reply rest => exact (settle_chain idmap requested names 0 _ side rest).behind _

/-- The results of the whole request. -/
theorem settle_request (idmap : IdMap) {labelWord : UInt32} {args : ChainLookupArg}
    {results : List OpResult} (start : Results)
    (answers : Answers (requestSlots labelWord args) results) :
    SlotsMatch idmap (baseOps args.session) 0 results start
      (settle idmap (requestSlots labelWord args) results start) := by
  rw [requestSlots] at answers ⊢
  cases session : args.session with
  | none =>
      rw [session] at answers
      exact settle_putfh idmap _ args.dirFh args.names results start answers
  | some s =>
      rw [session] at answers
      cases answers with
      | stop => exact .cutShort (by simp) (fun j _ => .refl j start) fun _ => .refl 0 start
      | error e => exact .cutShort (by simp) (fun j _ => .refl j start) fun _ => .refl 0 start
      | ok reply rest => exact (settle_putfh idmap _ args.dirFh args.names _ start rest).behind _

/-! ### Where a reply breaks -/

/-- Operations whose results are not stored anywhere. -/
def NfsOp.Slotless : NfsOp → Prop
  | .getfh => False
  | .getattr _ => False
  | _ => True

/-- The place of an operation in the request: in front of its component's slot data, or inside them. -/
def PlacedAt (base m : Nat) (op : NfsOp) (i : Nat) : Prop :=
  op.Slotless ∨ base + 3 * i < m ∧ m < base + 3 * i + 3

theorem chainSlots_placed (requested : Bitmap) :
    ∀ (names : List Bytes) (i m : Nat) (op : NfsOp) (slot : Nat) (rest : List (NfsOp × Nat)),
      (chainSlots requested names i).drop m = (op, slot) :: rest →
      op.Slotless ∨ i ≤ slot ∧ 3 * (slot - i) < m ∧ m < 3 * (slot - i) + 3
  | [], _, m, _, _, _, here => by
      rw [chainSlots, List.drop_nil] at here
      cases here
  | name :: names, i, m, op, slot, rest, here => by
      match m with
      | 0 =>
          cases here
          exact Or.inl trivial
      | 1 =>
          cases here
          exact Or.inr (by omega)
      | 2 =>
          cases here
          exact Or.inr (by omega)
      | m + 3 =>
          rcases chainSlots_placed requested names (i + 1) m op slot rest here with free | inside
          · exact Or.inl free
          · exact Or.inr (by omega)

theorem requestSlots_placed {labelWord : UInt32} {args : ChainLookupArg} {m : Nat} {op : NfsOp}
    {i : Nat} {rest : List (NfsOp × Nat)}
    (here : (requestSlots labelWord args).drop m = (op, i) :: rest) :
    PlacedAt (baseOps args.session) m op i := by
  have chain : ∀ m, (chainSlots (args.bitmask.masked (nfs4FattrBitmap labelWord)) args.names 0).drop m =
      (op, i) :: rest → PlacedAt 0 m op i := by
    intro m here
    rcases chainSlots_placed _ _ _ _ _ _ _ here with free | inside
    · exact Or.inl free
    · exact Or.inr (by omega)
  rw [requestSlots] at here
  cases session : args.session with
  | none =>
      rw [session] at here
      cases m with
      | zero =>
          cases here
          exact Or.inl trivial
      | succ m =>
          rcases chain m here with free | inside
          · exact Or.inl free
          · exact Or.inr (by simp only [baseOps, sequenceOps]; omega)
  | some s =>
      rw [session] at here
      rcases m with _ | _ | m
      · cases here
        exact Or.inl trivial
      · cases here
        exact Or.inl trivial
      · rcases chain m here with free | inside
        · exact Or.inl free
        · exact Or.inr (by simp only [baseOps, sequenceOps]; omega)

/-- An operation that stops somewhere in its result changes no slot but its own, and none at all when it
    has none. -/
theorem decodeOp_keeps (idmap : IdMap) (i : Nat) (op : NfsOp) (s : Cursor Results) :
    OnlySlot i s.side (finalSide ((decodeOp idmap i op).run s)) ∧
      (op.Slotless → ∀ j, SameSlot j s.side (finalSide ((decodeOp idmap i op).run s))) := by
  refine ⟨(decodeOp_slot idmap i op).keeps (OnlySlot.refl i) OnlySlot.trans (fun _ update => update) s,
    ?_⟩
  intro free j
  by_cases same : j = i
  · -- without a slot of its own the decoder does not know `i`: take another one
    subst same
    have elsewhere : decodeOp idmap j op = decodeOp idmap (j + 1) op := by
      cases op with
      | getfh => exact absurd free id
      | getattr requested => exact absurd free id
      | _ => rfl
    rw [elsewhere]
    exact (decodeOp_slot idmap (j + 1) op).keeps (OnlySlot.refl _) OnlySlot.trans
      (fun _ update => update) s j (by omega)
  · exact (decodeOp_slot idmap i op).keeps (OnlySlot.refl i) OnlySlot.trans (fun _ update => update) s
      j same

/-- What stops at the operation after `kept` leaves the slots as `kept` settled them. -/
theorem SlotsMatch.broken {idmap : IdMap} {base i : Nat} {op : NfsOp} {kept : List OpResult}
    {start middle after : Results} (settled : SlotsMatch idmap base 0 kept start middle)
    (placed : PlacedAt base kept.length op i) (own : OnlySlot i middle after)
    (free : op.Slotless → ∀ j, SameSlot j middle after) :
    SlotsMatch idmap base 0 kept start after where
  filled := by
    intro c fh requested reply handle attrs
    obtain ⟨fhandle, fattr⟩ := settled.filled c fh requested reply handle attrs
    have complete : base + 3 * c + 2 < kept.length := (List.getElem?_eq_some_iff.mp attrs).1
    have same : SameSlot (0 + c) middle after := by
      rcases placed with slotless | inside
      · exact free slotless _
      · exact own _ (by omega)
    exact ⟨same.1.trans fhandle, same.2.1.trans fattr⟩
  untouched := by
    intro j outside
    have same : SameSlot j middle after := by
      rcases placed with slotless | inside
      · exact free slotless _
      · exact own _ (by omega)
    exact (settled.untouched j outside).trans same

theorem decodeOps_breaks (idmap : IdMap) {todo rest : List (NfsOp × Nat)} {kept : List OpResult}
    {op : NfsOp} {i pos : Nat} {side : Results} {tail : Bytes} {error : Int} {s : Cursor Results}
    (answers : Answers todo kept) (noFailure : failure kept = none)
    (here : todo.drop kept.length = (op, i) :: rest)
    (stops : (decodeOp idmap i op).run
      ⟨tail, pos + (kept.flatMap OpResult.bytes).length, settle idmap todo kept side⟩ = .error error s) :
    (decodeOps idmap todo).run ⟨kept.flatMap OpResult.bytes ++ tail, pos, side⟩ = .error error s := by
  rw [decodeOps_answers idmap answers pos side tail noFailure, here, decodeOps, run_bind_error stops]

/-- A cut inside the results leaves some of them whole and one of them cut. -/
theorem results_cut :
    ∀ (results : List OpResult) (t : Nat), t < (results.flatMap OpResult.bytes).length →
      ∃ kept result more u, results = kept ++ result :: more ∧ u < result.bytes.length ∧
        (results.flatMap OpResult.bytes).take t =
          kept.flatMap OpResult.bytes ++ result.bytes.take u
  | [], t, cut => absurd cut (by simp)
  | result :: results, t, cut => by
      rw [List.flatMap_cons, List.length_append] at cut
      by_cases inside : t < result.bytes.length
      · refine ⟨[], result, results, t, rfl, inside, ?_⟩
        rw [List.flatMap_cons, List.take_append_of_le_length (le_of_lt inside)]
        rfl
      · obtain ⟨kept, other, more, u, split, short, taken⟩ :=
          results_cut results (t - result.bytes.length) (by omega)
        refine ⟨result :: kept, other, more, u, by rw [split]; rfl, short, ?_⟩
        rw [List.flatMap_cons, List.take_append, taken, List.flatMap_cons,
          List.take_of_length_le (by omega), List.append_assoc]

/-- The results in front of another one are answers without an error, and that one answers the next
    operation. -/
theorem Answers.split {todo : List (NfsOp × Nat)} {kept more : List OpResult} {result : OpResult} :
    Answers todo (kept ++ result :: more) →
      Answers todo kept ∧ failure kept = none ∧
        ∃ i rest, todo.drop kept.length = (result.op, i) :: rest := by
  induction kept generalizing todo with
  | nil =>
      intro answers
      cases answers with
      | ok reply rest => exact ⟨.stop, rfl, _, _, rfl⟩
      | error e => exact ⟨.stop, rfl, _, _, rfl⟩
  | cons first kept inductionHypothesis =>
      intro answers
      rw [List.cons_append] at answers
      generalize others : kept ++ result :: more = tail at answers
      cases answers with
      | ok reply rest =>
          rw [← others] at rest
          obtain ⟨keptAnswers, noFailure, here⟩ := inductionHypothesis rest
          exact ⟨.ok reply keptAnswers, noFailure, here⟩
      | error e => simp at others

/-! ### The header of a reply -/

/-- A compound header with an empty tag. -/
def plainHeader (status nops : UInt32) : Bytes := wordBytes status ++ (wordBytes 0 ++ wordBytes nops)

theorem replyHeader_eq (results : List OpResult) :
    replyHeader [] results =
      plainHeader (compoundStatus results) (UInt32.ofNat results.length) := by
  have tag : opaqueBytes [] = wordBytes 0 := by decide
  rw [replyHeader, tag, plainHeader]

theorem decodeTag_reads {nops : UInt32} (some : nops ≠ 0) (status : Int) (pos : Nat)
    (side : Results) : Reads (decodeTag status 0) (wordBytes nops) pos side () side := by
  have count : ¬ (nops.toNat < 1 ∧ nfs4StatToErrno status ≠ 0) := by
    rintro ⟨zero, -⟩
    exact some (UInt32.toNat_inj.mp (by simpa using zero))
  have value := wordOf_wordBytes nops []
  rw [List.append_nil] at value
  apply (inline_reads_words (-eio) 1 rfl pos side).bind_done
  have behind : (wordBytes nops).drop (4 * (wrap32 (0 + 3) / 4)) = wordBytes nops := rfl
  simp only [behind, value, if_neg count]
  exact Reads.pure _ side ()

theorem decodeCompoundHdr_reads {nops : UInt32} (some : nops ≠ 0) (status : UInt32) (pos : Nat)
    (side : Results) :
    Reads decodeCompoundHdr (plainHeader status nops) pos side () side := by
  rw [plainHeader, ← List.append_assoc]
  apply (inline_reads_words (-eio) 2 rfl pos side).bind
  rw [wordOf_second]
  exact decodeTag_reads some _ _ side

/-- The header is read without touching the arrays. -/
theorem decodeCompoundHdr_slot (i : Nat) : SlotDecoder i decodeCompoundHdr :=
  (xdrInlineDecode_slot i 8).bind fun _ => (xdrInlineDecode_slot i _).bind fun _ =>
    .ite (.throw _) (.pure _)

theorem decodeReply_header (idmap : IdMap) (labelWord : UInt32) (args : ChainLookupArg)
    {nops : UInt32} (some : nops ≠ 0) (status : UInt32) (body : Bytes) (start : Results) :
    decodeReply idmap args.session args.names.length (plainHeader status nops ++ body) start =
      returned ((decodeOps idmap (requestSlots labelWord args)).run ⟨body, 12, start⟩) := by
  have length : 0 + (plainHeader status nops).length = 12 := by
    simp only [plainHeader, List.length_append, length_wordBytes]
  have header := decodeCompoundHdr_reads some status 0 start body
  rw [length] at header
  rw [decodeReply, decChainLookup_eq idmap labelWord args, run_bind_ok header]

theorem nfs4StatToErrno_ne {stat : Int} (failed : stat ≠ 0) : nfs4StatToErrno stat ≠ 0 := by
  have table : ∀ entry ∈ nfsErrtbl, entry.2 = 0 → entry.1 = 0 := by decide
  unfold nfs4StatToErrno
  split
  · rename_i entry found
    have same : entry.1 = stat := by simpa using List.find?_some found
    intro zero
    exact failed (same ▸ table entry (List.mem_of_find?_eq_some found) zero)
  · unfold eremoteio
    split <;> omega

/-! ### The agreement -/

/-- What the decoder makes of the reply to a chain request. -/
structure ReplyAgrees (idmap : IdMap) (labelWord : UInt32) (args : ChainLookupArg)
    (results : List OpResult) (reply : Bytes) (start : Results) : Prop where
  /-- The status is 0, or the errno of the operation that failed. -/
  status : (decodeReply idmap args.session args.names.length reply start).1 =
    match failure results with
    | none => 0
    | some e => nfs4StatToErrno (asInt32 e.status)
  /-- It is 0 exactly when every operation of the request succeeded. -/
  success : (decodeReply idmap args.session args.names.length reply start).1 = 0 ↔
    failure results = none ∧ results.length = (requestOps labelWord args).length
  /-- Components with all their results have their own data, components without results are
      untouched. -/
  slots : SlotsMatch idmap (baseOps args.session) 0 results start
    (decodeReply idmap args.session args.names.length reply start).2

/-- What the decoder makes of replies no server should send. -/
structure RefusesDamaged (idmap : IdMap) (labelWord : UInt32) (args : ChainLookupArg)
    (start : Results) : Prop where
  /-- After some successful results another operation than the requested one: `-EREMOTEIO`, and what
      was stored before stays where it belongs. -/
  wrongOperation : ∀ (kept : List OpResult) (op : NfsOp) (i : Nat) (rest : List (NfsOp × Nat))
    (status nops code opStatus : UInt32) (junk : Bytes),
    Answers (requestSlots labelWord args) kept → failure kept = none →
    (requestSlots labelWord args).drop kept.length = (op, i) :: rest →
    nops ≠ 0 → code ≠ op.num.code →
    let decoded := decodeReply idmap args.session args.names.length
      (plainHeader status nops ++ (kept.flatMap OpResult.bytes ++
        ((wordBytes code ++ wordBytes opStatus) ++ junk))) start
    decoded.1 = -eremoteio ∧
      decoded.2 = stopEffect i (settle idmap (requestSlots labelWord args) kept start) op ∧
      SlotsMatch idmap (baseOps args.session) 0 kept start decoded.2
  /-- Cut anywhere in its results: `-EIO`, the whole results before the cut are stored where they
      belong, and the cut one is at most stored, in part, where it belongs. -/
  endsEarly : ∀ (results : List OpResult) (status nops : UInt32) (t : Nat),
    Answers (requestSlots labelWord args) results →
    (failure results = none → results.length = (requestOps labelWord args).length) →
    nops ≠ 0 → t < (results.flatMap OpResult.bytes).length →
    let decoded := decodeReply idmap args.session args.names.length
      (plainHeader status nops ++ (results.flatMap OpResult.bytes).take t) start
    decoded.1 = -eio ∧ ∃ (kept : List OpResult) (cut : OpResult) (more : List OpResult) (u i : Nat),
      results = kept ++ cut :: more ∧ u < cut.bytes.length ∧
      t = (kept.flatMap OpResult.bytes).length + u ∧
      decoded.2 = finalSide ((decodeOp idmap i cut.op).run
        ⟨cut.bytes.take u, 12 + (kept.flatMap OpResult.bytes).length,
          settle idmap (requestSlots labelWord args) kept start⟩) ∧
      SlotsMatch idmap (baseOps args.session) 0 kept start decoded.2
  /-- Cut in its header: `-EIO`, and nothing is stored. -/
  shortHeader : ∀ (status nops : UInt32) (t : Nat), nops ≠ 0 → t < 12 →
    let decoded := decodeReply idmap args.session args.names.length
      ((plainHeader status nops).take t) start
    decoded.1 = -eio ∧ ∀ j, SameSlot j start decoded.2

theorem wrong_operation_refused (idmap : IdMap) (labelWord : UInt32) (args : ChainLookupArg)
    (start : Results) {kept : List OpResult} {op : NfsOp} {i : Nat} {rest : List (NfsOp × Nat)}
    (status opStatus : UInt32) {nops code : UInt32} (junk : Bytes)
    (answers : Answers (requestSlots labelWord args) kept) (noFailure : failure kept = none)
    (here : (requestSlots labelWord args).drop kept.length = (op, i) :: rest) (counted : nops ≠ 0)
    (other : code ≠ op.num.code) :
    decodeReply idmap args.session args.names.length
      (plainHeader status nops ++ (kept.flatMap OpResult.bytes ++
        ((wordBytes code ++ wordBytes opStatus) ++ junk))) start =
      (-eremoteio, stopEffect i (settle idmap (requestSlots labelWord args) kept start) op) := by
  have stops := decodeOp_wrong idmap other opStatus i
    (12 + (kept.flatMap OpResult.bytes).length)
    (settle idmap (requestSlots labelWord args) kept start) junk
  rw [decodeReply_header idmap labelWord args counted,
    decodeOps_breaks idmap answers noFailure here stops]
  rfl

/-- The operation whose result is cut stops with `-EIO`. -/
theorem decodeOp_cut (idmap : IdMap) (i pos : Nat) (result : OpResult) {u : Nat}
    (short : u < result.bytes.length) (side : Results) :
    ∃ s, (decodeOp idmap i result.op).run ⟨result.bytes.take u, pos, side⟩ = .error (-eio) s := by
  apply (decodeOp_slot idmap i result.op).streams.truncated short
  obtain ⟨op, outcome⟩ := result
  cases outcome with
  | ok reply =>
      have read := decodeOp_reads idmap op reply i pos side []
      rw [List.append_nil] at read
      exact Or.inl ⟨_, _, read, rfl⟩
  | error e =>
      have refused := decodeOp_rejects idmap op e i pos side []
      rw [List.append_nil] at refused
      exact Or.inr ⟨_, _, refused, rfl⟩

theorem refuses_damaged (idmap : IdMap) (labelWord : UInt32) (args : ChainLookupArg)
    (start : Results) : RefusesDamaged idmap labelWord args start where
  wrongOperation := by
    intro kept op i rest status nops code opStatus junk answers noFailure here counted other
    have decoded := wrong_operation_refused idmap labelWord args start status opStatus junk answers
      noFailure here counted other
    have own : OnlySlot i (settle idmap (requestSlots labelWord args) kept start)
        (stopEffect i (settle idmap (requestSlots labelWord args) kept start) op) :=
      fun j other => stopEffect_other other _ op
    have free : op.Slotless → ∀ j, SameSlot j (settle idmap (requestSlots labelWord args) kept start)
        (stopEffect i (settle idmap (requestSlots labelWord args) kept start) op) := by
      intro slotless j
      cases op with
      | getfh => exact absurd slotless id
      | getattr requested => exact absurd slotless id
      | _ => exact .refl j _
    simp only [decoded]
    exact ⟨trivial, trivial, (settle_request idmap start answers).broken (requestSlots_placed here) own free⟩
  endsEarly := by
    intro results status nops t answers _ counted cut
    obtain ⟨kept, result, more, u, split, short, taken⟩ := results_cut results t cut
    rw [split] at answers
    obtain ⟨keptAnswers, noFailure, i, rest, here⟩ := answers.split
    obtain ⟨s, stops⟩ := decodeOp_cut idmap i (12 + (kept.flatMap OpResult.bytes).length) result short
      (settle idmap (requestSlots labelWord args) kept start)
    have keeps := decodeOp_keeps idmap i result.op
      ⟨result.bytes.take u, 12 + (kept.flatMap OpResult.bytes).length,
        settle idmap (requestSlots labelWord args) kept start⟩
    have length : t = (kept.flatMap OpResult.bytes).length + u := by
      have lengths := congrArg List.length taken
      rw [List.length_take, List.length_append, List.length_take] at lengths
      omega
    rw [stops] at keeps
    have decoded : decodeReply idmap args.session args.names.length
        (plainHeader status nops ++ (results.flatMap OpResult.bytes).take t) start =
        (-eio, s.side) := by
      rw [decodeReply_header idmap labelWord args counted, taken,
        decodeOps_breaks idmap keptAnswers noFailure here stops]
      rfl
    simp only [decoded]
    refine ⟨trivial, kept, result, more, u, i, split, short, length, ?_, ?_⟩
    · rw [stops]
      rfl
    · exact (settle_request idmap start keptAnswers).broken (requestSlots_placed here) keeps.1 keeps.2
  shortHeader := by
    intro status nops t counted cut
    have header := decodeCompoundHdr_reads counted status 0 start []
    rw [List.append_nil] at header
    obtain ⟨s, stops⟩ := (decodeCompoundHdr_slot 0).streams.truncated
      (show t < (plainHeader status nops).length from cut) (Or.inl ⟨_, _, header, rfl⟩)
    have keeps : ∀ j, SameSlot j start s.side := by
      intro j
      have kept := (decodeCompoundHdr_slot (j + 1)).keeps (OnlySlot.refl _) OnlySlot.trans
        (fun _ update => update) ⟨(plainHeader status nops).take t, 0, start⟩
      rw [stops] at kept
      exact kept j (by omega)
    have decoded : decodeReply idmap args.session args.names.length
        ((plainHeader status nops).take t) start = (-eio, s.side) := by
      rw [decodeReply, decChainLookup_eq idmap labelWord args, run_bind_error stops]
      rfl
    simp only [decoded]
    exact ⟨trivial, keeps⟩

/-- Results of the request, decoded from a well-formed reply. -/
theorem decodeReply_results (idmap : IdMap) (labelWord : UInt32) (args : ChainLookupArg)
    (start : Results) {results : List OpResult} {nops : UInt32} (status : UInt32)
    (answers : Answers (requestSlots labelWord args) results) (counted : nops ≠ 0)
    (complete : failure results = none → results.length = (requestSlots labelWord args).length) :
    decodeReply idmap args.session args.names.length
      (plainHeader status nops ++ results.flatMap OpResult.bytes) start =
      (match failure results with
        | none => 0
        | some e => nfs4StatToErrno (asInt32 e.status),
        settle idmap (requestSlots labelWord args) results start) := by
  rw [decodeReply_header idmap labelWord args counted,
    decodeOps_results idmap answers 12 start complete]
  cases failure results <;> rfl

/-- A server answers at least the first operation, and no more than there are. -/
theorem execute_length {σ : Type} (server : Server σ) :
    ∀ (ops : List NfsOp) (st : σ), (execute server ops st).length ≤ ops.length ∧
      (ops ≠ [] → execute server ops st ≠ [])
  | [], _ => ⟨le_refl _, fun nonempty => absurd rfl nonempty⟩
  | op :: ops, st => by
      simp only [execute]
      split
      · rename_i reply st' _
        exact ⟨Nat.succ_le_succ (execute_length server ops st').1, fun _ => by simp⟩
      · exact ⟨by simp, fun _ => by simp⟩

/-- For every chain and every server, the reply to the encoded request is decoded to what the server
    answered, and damaged replies are refused. -/
theorem chain_reply_agrees {σ : Type} (server : Server σ) (st : σ) (idmap : IdMap)
    (labelWord : UInt32) (room : Nat) (args : ChainLookupArg) (xdr : XdrStream) (start : Results)
    (encoded : nfs4XdrEncChainLookup labelWord room args = some xdr)
    (short : ∀ name ∈ args.names, name.length < 2 ^ 32)
    (count : (requestOps labelWord args).length < 2 ^ 32) :
    ∃ reply, serve server st xdr.out = some reply ∧
      ReplyAgrees idmap labelWord args (execute server (requestOps labelWord args) st) reply start ∧
      RefusesDamaged idmap labelWord args start := by
  have request : xdr.out = requestBytes labelWord args := by
    rw [encChainLookup_eq] at encoded
    split at encoded
    · cases encoded
      rfl
    · cases encoded
  have served : serve server st xdr.out =
      some (replyBytes [] (execute server (requestOps labelWord args) st)) := by
    rw [serve, request, parseRequest_requestBytes short count]
    rfl
  obtain ⟨answers, complete⟩ := execute_answers server (requestSlots labelWord args) st
  obtain ⟨atMost, atLeast⟩ := execute_length server (requestOps labelWord args) st
  rw [requestSlots_fst] at answers complete
  generalize execute server (requestOps labelWord args) st = results at *
  have slotCount : (requestSlots labelWord args).length = (requestOps labelWord args).length := by
    rw [← requestSlots_fst, List.length_map]
  have counted : UInt32.ofNat results.length ≠ 0 := by
    intro zero
    have value := congrArg UInt32.toNat zero
    rw [UInt32.toNat_ofNat', Nat.mod_eq_of_lt (by omega), UInt32.toNat_zero] at value
    exact atLeast (by simp [requestOps]) (List.length_eq_zero_iff.mp value)
  have decoded := decodeReply_results idmap labelWord args start (compoundStatus results) answers
    counted complete
  rw [← replyHeader_eq, ← replyBytes] at decoded
  refine ⟨_, served, ⟨?_, ?_, ?_⟩, refuses_damaged idmap labelWord args start⟩
  · rw [decoded]
  · rw [decoded]
    cases failed : failure results with
    | none => simp only [true_and, ← slotCount, complete failed]
    | some e => simp only [nfs4StatToErrno_ne (asInt32_ne e.status_ne), reduceCtorEq, false_and]
  · rw [decoded]
    exact settle_request idmap start answers

/-- A server that knows one name and gives it an empty handle and no attributes. -/
def oneFileServer (known : Bytes) : Server Unit where
  exec
    | .sequence _, st => (.ok ⟨0, 0, 0⟩, st)
    | .putfh _, st => (.ok (), st)
    | .lookup name, st =>
        if name = known then (.ok (), st) else (.error ⟨2, by decide⟩, st)
    | .getfh, st => (.ok ⟨[], by decide⟩, st)
    | .getattr _, st =>
        (.ok
          { attrs :=
              { type := none, change := none, size := none, fsid := none, fileid := none, mode := none,
                numlinks := none, owner := none, ownerGroup := none, rawdev := none, spaceUsed := none,
                timeAccess := none, timeMetadata := none, timeModify := none, mountedOnFileid := none }
            fits := by decide
            bitmapWords := 0
            bitmapWords_lt := by decide
            sendsWord0 := fun nonzero => absurd rfl nonzero
            sendsWord1 := fun nonzero => absurd rfl nonzero }, st)

/-- Two names, of which the server knows the first. -/
def twoNameArg : ChainLookupArg where
  session := none
  dirFh := ⟨[], by decide⟩
  bitmask := { w0 := 0, w1 := 0, w2 := 0 }
  names := [[97], [98]]

/-- Arrays before the call, and a mapper that maps no name. -/
def blankResults : Results where
  fhandles := fun _ => FhBuf.zero
  fattrs := fun _ =>
    { valid := 0, mode := 0, nlink := 0, uid := 0, gid := 0, rdev := 0, size := 0, used := 0,
      fsid := { major := 0, minor := 0 }, fileid := 0, mountedOnFileid := 0, atime := Timespec.zero,
      mtime := Timespec.zero, ctime := Timespec.zero, changeAttr := 0 }
  labels := fun _ => none
  bitmap := { w0 := 0, w1 := 0, w2 := 0 }

def noIdMap : IdMap where
  uid := fun _ id => (id, false)
  gid := fun _ id => (id, false)

/-- The second name is missing: the reply stops there. -/
theorem twoName_reply_agrees :
    ∃ reply, serve (oneFileServer [97]) () (requestBytes 0 twoNameArg) = some reply ∧
      ReplyAgrees noIdMap 0 twoNameArg
        (execute (oneFileServer [97]) (requestOps 0 twoNameArg) ()) reply blankResults ∧
      RefusesDamaged noIdMap 0 twoNameArg blankResults :=
  chain_reply_agrees (oneFileServer [97]) () noIdMap 0 (chainLookupRoom twoNameArg) twoNameArg
    { out := requestBytes 0 twoNameArg, room := chainLookupRoom twoNameArg,
      nops := opCount twoNameArg, nopsAt := 8 } blankResults
    (by rw [encChainLookup_eq, if_pos (by rw [length_requestBytes]; decide)])
    (by intro name member; simp [twoNameArg] at member; rcases member with rfl | rfl <;> simp)
    (by rw [length_requestOps]; simp [opCount, twoNameArg, sequenceOps])

end Nfs4Compound.Rpc
