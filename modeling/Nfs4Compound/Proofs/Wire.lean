/-
Module: Nfs4Compound.Proofs.Wire
Layer: Proofs
Purpose: Lookups of paths whose compounds go over the wire answer with what the tree at the other end has:
  the walks of `fs/namei.c` on top of the requests and replies of `fs/nfs/nfs4xdr.c`.
Imports: Nfs4Compound.Vfs.Wire, Nfs4Compound.Proofs.PlainLookup, Nfs4Compound.Proofs.Export
Trusted boundary: none
Main exports: Wired.candid, wire_lookups_answer
-/
import Nfs4Compound.Vfs.Wire
import Nfs4Compound.Proofs.PlainLookup
import Nfs4Compound.Proofs.Export

namespace Nfs4Compound.Vfs

variable {env : Env} {client : Rpc.Client} {tree : Rpc.Export} {w : World}

/-! ### Outcomes on both sides -/

/-- A chain of names means the same in the tree and in what the client knows of it. -/
theorem exported_foldlM :
    ∀ (names : List Name) (dir : Ino),
      names.foldlM (exported tree) dir = errnoOf (names.foldlM tree.lookup dir)
  | [], _ => rfl
  | name :: names, dir => by
      rw [List.foldlM_cons, List.foldlM_cons, exported]
      cases tree.lookup dir name with
      | error error => rfl
      | ok child => exact exported_foldlM names child

theorem errnoOf_toOption (found : Except Rpc.NfsErr Ino) : (errnoOf found).toOption = found.toOption := by
  cases found <;> rfl

theorem callStatus_error (error : Rpc.NfsErr) : Rpc.callStatus (.error error) ≠ 0 :=
  Rpc.nfs4StatToErrno_ne (Rpc.asInt32_ne error.status_ne)

theorem lookupReplyOf_outcome (found : Except Rpc.NfsErr Ino) :
    lookupReplyOf (some (Rpc.callStatus found, found.toOption)) = singleReply (errnoOf found) := by
  cases found with
  | ok inode => rfl
  | error error => exact if_pos (callStatus_error error)

theorem chainReplyOf_status (found : Except Rpc.NfsErr Ino) (slot : Nat → Option Ino) :
    (chainReplyOf (some (Rpc.callStatus found, slot))).status = compoundStatus (errnoOf found) := by
  cases found with
  | ok inode => rfl
  | error error => exact if_neg (callStatus_error error)

/-! ### The server behind the wire -/

/-- What comes over the wire is what a candid server with the tree would say. -/
theorem Wired.candid (wired : Wired env client tree) : Candid (env.wired client tree) (exported tree) := by
  have chain : ∀ t dir names, Sendable (env.wired client tree) names → ∃ slots,
      client.chainLookup tree t dir names = some (Rpc.callStatus (names.foldlM tree.lookup dir), slots) ∧
        ∀ k, k < names.length → slots k = ((names.take (k + 1)).foldlM (exported tree) dir).toOption := by
    intro t dir names sendable
    obtain ⟨slots, looked, made⟩ := wired.chainLookup_answers t dir sendable.some
      (fun name inside => (sendable.short name inside).trans wired.namelen) sendable.limit
    refine ⟨slots, looked, ?_⟩
    intro k inside
    rw [made k inside, exported_foldlM, errnoOf_toOption]
  refine ⟨⟨?_, ?_, ?_, wired.files⟩, wired.refuses, ?_⟩
  · intro t dir name short
    change lookupReplyOf (client.lookup tree t dir name) = _
    rw [wired.lookup_answers t dir (short.trans wired.namelen), lookupReplyOf_outcome]
    rfl
  · intro t dir names sendable
    obtain ⟨slots, looked, -⟩ := chain t dir names sendable
    change (chainReplyOf (client.chainLookup tree t dir names)).status = _
    rw [looked, chainReplyOf_status, exported_foldlM]
  · intro t dir names k inode sendable inside found
    obtain ⟨slots, looked, made⟩ := chain t dir names sendable
    change (chainReplyOf (client.chainLookup tree t dir names)).slot k = _
    rw [looked]
    exact (made k inside).trans (congrArg Except.toOption found)
  · intro t dir names k error sendable inside refused
    obtain ⟨slots, looked, made⟩ := chain t dir names sendable
    change (chainReplyOf (client.chainLookup tree t dir names)).slot k = _
    rw [looked]
    exact (made k inside).trans (congrArg Except.toOption refused)

theorem Plain.wired (plain : Plain env) : Plain (env.wired client tree) :=
  ⟨plain.kinds, plain.alive, plain.valid, plain.weaklyValid, plain.dentries, plain.entries, plain.handles,
    plain.unaliased, plain.unmounted⟩

theorem Request.Ordinary.wired {request : Request} (ordinary : request.Ordinary env) :
    request.Ordinary (env.wired client tree) :=
  ⟨ordinary.whole, ordinary.own, ordinary.names⟩

/-- Lookups one after the other, each of whose compounds is written to bytes, served, and read back, find
    what the server's tree has: a tree of directories and files in one filesystem, on a client whose dcache
    agrees with it, and of a server that neither hides names behind `EACCES` and `ELOOP` nor asks for
    recovery. -/
theorem wire_lookups_answer (plain : Plain env) (wired : Wired env client tree) {root pwd : Ino}
    (requests : List Request) (ordinary : ∀ request ∈ requests, request.Ordinary env) (ok : HeapOk w.heap)
    (typed : Typed env w.heap) (agrees : Agrees (exported tree) w.heap) (free : w.heap.held = [])
    (stands : Stands env root pwd w.heap) (fuel : Nat) :
    lookups (env.wired client tree) (fuel + 1) requests w =
      requests.map fun request => some (treeLookup env (exported tree) root pwd request) := by
  have stands' : Stands (env.wired client tree) root pwd w.heap :=
    ⟨stands.fsRoot, stands.fsPwd, stands.rootDirectory, stands.pwdDirectory⟩
  exact lookups_run plain.wired wired.candid fuel requests
    (fun request member => (ordinary request member).wired) ok ⟨typed, agrees, fun _ _ before => before⟩ free
    stands'

/-! ### A file behind the wire -/

theorem nfs4errNotdir_ne : (20 : UInt32) ≠ 0 := by decide

theorem nfs4errNoent_ne : (2 : UInt32) ≠ 0 := by decide

/-- The attributes of the three objects: type, filesystem and number. -/
def fileAttrs (number : Nat) : Rpc.FileAttrs where
  type := some (if number = 3 then .reg else .dir)
  change := none
  size := none
  fsid := some ⟨1, 0⟩
  fileid := some (UInt64.ofNat number)
  mode := some 0o755
  numlinks := none
  owner := none
  ownerGroup := none
  rawdev := none
  spaceUsed := none
  timeAccess := none
  timeMetadata := none
  timeModify := none
  mountedOnFileid := none

theorem fileAttrs_fit (number : Nat) : (fileAttrs number).values.length < 2 ^ 32 := by
  simp only [Rpc.FileAttrs.values, Rpc.FileAttrs.fields0, Rpc.FileAttrs.fields1, fileAttrs, Option.map_some,
    Option.map_none, Rpc.fieldsBytes, List.length_append, Xdr.length_wordBytes, Xdr.length_hyperBytes,
    List.length_nil]
  decide

theorem two_words_count : 2 < 2 ^ 30 := by decide

def fileAttrReply (number : Nat) : Rpc.AttrReply where
  attrs := fileAttrs number
  fits := fileAttrs_fit number
  bitmapWords := 2
  bitmapWords_lt := two_words_count
  sendsWord0 _ := Nat.le_succ 1
  sendsWord1 _ := Nat.le_refl 2

theorem fileHandle_fits : [(0 : UInt8)].length ≤ Rpc.nfs4Fhsize := by decide

/-- A handle of one byte for the objects that are there, and zero for all others. -/
def fileHandle (number : Nat) : Rpc.NfsFh :=
  ⟨[if number = 1 ∨ number = 2 ∨ number = 3 then UInt8.ofNat number else 0], fileHandle_fits⟩

/-- The file `b` in the directory `a`, on a server of its own. -/
def fileExport : Rpc.Export where
  lookup dir name :=
    if dir = 3 then .error ⟨20, nfs4errNotdir_ne⟩
    else if dir = 1 ∧ name = [97] then .ok 2
    else if dir = 2 ∧ name = [98] then .ok 3
    else if dir = 1 ∨ dir = 2 then .error ⟨2, nfs4errNoent_ne⟩
    else .error Rpc.nfs4errStale
  handle := fileHandle
  object fh := [1, 2, 3].find? fun number => fileHandle number = fh
  attrs number _ := fileAttrReply number
  sequence _ := ⟨0, 0, 0⟩

theorem fileSession_id : (List.replicate 16 (0 : UInt8)).length = Rpc.nfs4MaxSessionidLen := rfl

/-- A client in its first session, with a cache of the inodes it may meet. -/
def fileClient : Rpc.Client where
  session t := some ⟨List.replicate 16 0, fileSession_id, UInt32.ofNat t, 0, 0, 0, 1⟩
  labelWord := 0
  bitmask := ⟨0xFFFFFFFF, 0xFFFFFFFF, 0⟩
  idmap := Rpc.noIdMap
  fsid := ⟨1, 0⟩
  handle := fileHandle
  inodes key := [1, 2, 3].find? fun number => key.handle = (fileHandle number).data
  buffers _ := Rpc.blankResults
  recovery :=
    { hz := 100, nomap := false, interrupted := fun _ => false, migrates := fun _ => false,
      waitClntRecover := fun _ => none, migFailed := fun _ => false, negotiateSecurity := fun _ => none,
      allocates := true, fsLocations := fun _ => .nfs 0, sameFsid := false }

theorem fileExport_found {dir number : Nat} {name : Name} (found : fileExport.lookup dir name = .ok number) :
    number = 2 ∨ number = 3 := by
  unfold fileExport at found
  dsimp only at found
  split at found
  · cases found
  · split at found
    · cases found
      exact .inl rfl
    · split at found
      · cases found
        exact .inr rfl
      · split at found
        · cases found
        · cases found

/-- The errors of the server: a file has no names, a name is missing, or the directory is. -/
theorem fileExport_refused {dir : Nat} {name : Name} {error : Rpc.NfsErr}
    (refused : fileExport.lookup dir name = .error error) :
    error.status = 20 ∨ error.status = 2 ∨ error.status = 70 := by
  unfold fileExport at refused
  dsimp only at refused
  split at refused
  · cases refused
    exact .inl rfl
  · split at refused
    · cases refused
    · split at refused
      · cases refused
      · split at refused
        · cases refused
          exact .inr (.inl rfl)
        · cases refused
          exact .inr (.inr rfl)

theorem fileExport_mounted : Rpc.Mounted fileClient fileExport where
  handle _ := rfl
  object number := by
    by_cases present : number = 1 ∨ number = 2 ∨ number = 3
    · left
      rcases present with rfl | rfl | rfl
      · decide
      · decide
      · decide
    · right
      have blank : fileHandle number = fileHandle 0 := by
        simp only [fileHandle, if_neg present]
        rfl
      obtain ⟨notRoot, notDir, notFile⟩ : number ≠ 1 ∧ number ≠ 2 ∧ number ≠ 3 := by
        simpa only [not_or] using present
      refine ⟨?_, ?_⟩
      · change [1, 2, 3].find? (fun number' => decide (fileHandle number' = fileHandle number)) = none
        rw [blank]
        decide
      · intro name
        simp only [fileExport, notRoot, notDir, notFile, false_and, or_self, if_false]
  attrs dir name number found := by
    rcases fileExport_found found with rfl | rfl
    · exact ⟨.dir, 2, rfl, rfl, rfl, by decide⟩
    · exact ⟨.reg, 3, rfl, rfl, rfl, by decide⟩
  fresh _ _ := rfl
  settled dir name error refused := by
    rcases fileExport_refused refused with status | status | status
    · rw [status]
      decide
    · rw [status]
      decide
    · rw [status]
      decide

/-- The client of the file, at the walk's end of the wire. -/
theorem fileExport_wired : Wired (Env.serving fileKind fileTree) fileClient fileExport where
  toMounted := fileExport_mounted
  namelen := le_refl 255
  files inode name file := by
    have isFile : inode = 3 := by
      by_contra other
      exact file (if_neg other)
    subst isFile
    rfl
  refuses dir name error refused := by
    unfold exported at refused
    cases looked : fileExport.lookup dir name with
    | ok number =>
        rw [looked] at refused
        cases refused
    | error known =>
        rw [looked] at refused
        cases refused
        rcases fileExport_refused looked with status | status | status
        · rw [status]
          decide
        · rw [status]
          decide
        · rw [status]
          decide

/-- A file, a missing name, the file again, and the file as if it were a directory, over the wire. -/
theorem file_lookups_over_wire :
    lookups ((Env.serving fileKind fileTree).wired fileClient fileExport) 1 fileRequests rootWorld =
      [some (.ok 3), some (.error .ENOENT), some (.ok 3), some (.error .ENOTDIR)] :=
  (wire_lookups_answer (plain_serving fileKind_plain) fileExport_wired fileRequests fileRequests_ordinary
    rootHeap_ok rootHeap_typed (by intro d name child dir found; cases found) rfl rootHeap_stands 0).trans
      (by rfl)

end Nfs4Compound.Vfs
