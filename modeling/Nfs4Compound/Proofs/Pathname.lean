/-
Module: Nfs4Compound.Proofs.Pathname
Layer: Proofs
Purpose: The passes of `path_lookupat` and `path_openat`, and what `path_openat` makes of the name it is
  given: it returns the one with which it has started over last.
Imports: Nfs4Compound.Vfs.Restarts, Nfs4Compound.Proofs.SearchPermission, Nfs4Compound.Proofs.Steady
Trusted boundary: none
Main exports: Passed, relookup_cases, openRelookup_cases, keeps_pathname_iff
-/
import Nfs4Compound.Vfs.Restarts
import Nfs4Compound.Proofs.SearchPermission
import Nfs4Compound.Proofs.Steady

namespace Nfs4Compound.Vfs

open Prog

variable {env : Env} {oenv : OpenEnv} {op : OpenFlags} {w : World}

/-! ### Restarts among events -/

theorem restartNames_append (first second : List Event) :
    restartNames (first ++ second) = restartNames first ++ restartNames second :=
  List.filterMap_append

theorem restartNames_eq_nil {events : List Event} (none : ∀ event ∈ events, NoRestart event) :
    restartNames events = [] := by
  apply List.filterMap_eq_nil_iff.mpr
  intro event member
  have kind := none event member
  cases event with
  | restart name w => exact kind.elim
  | _ => rfl

theorem Steady.restartNames {α : Type} {x : Walk α} (steady : Steady x) (w : World) :
    restartNames (x w).events = [] :=
  restartNames_eq_nil (steady w).2

/-! ### One pass -/

/-- The walk of a name got through its text, and `last` found that a chain stops at a symlink. -/
structure Passed (env : Env) (last : Walk Status) (name : List UInt8) (w w₁ w₂ : World) : Prop where
  walked : (walkText env (components name) w).result = .ok .done
  reached : (walkText env (components name) w).state = w₁
  stopped : ∃ path, (last w₁).result = .ok (.chainLink path)
  left : (last w₁).state = w₂

/-- The end of one pass of `path_lookupat` or `path_openat`: `last` makes it start over, go on with a
    trailing symlink, or end. -/
def lastThrough {α : Type} (last : Walk Status) (name : List UInt8) (again : Walk α)
    (trailing : Path → Walk α) (ends : Status → Walk α) : Walk α := do
  match ← last with
  | .chainLink path =>
      observe (.symlink path)
      observe (.restart name)
      again
  | .link path => trailing path
  | other => ends other

/-- One pass: the text first. -/
def passThrough {α : Type} (env : Env) (last : Walk Status) (name : List UInt8) (again : Walk α)
    (trailing : Path → Walk α) (ends : Status → Walk α) : Walk α := do
  match ← walkText env (components name) with
  | .done => lastThrough last name again trailing ends
  | other => ends other

theorem openRelookup_succ (fuel : Nat) (name : List UInt8) :
    openRelookup env oenv op (fuel + 1) name =
      passThrough env (doLast env oenv op) name
        (do openRelookup env oenv op fuel (← getNd).last.name)
        (fun path => do return (← openTrailing env oenv op (maxTotalLinks + 1) path, name))
        (fun status => return (status, name)) := rfl

theorem relookup_succ (fuel : Nat) (name : List UInt8) :
    relookup env false (fuel + 1) name =
      passThrough env (lookupLast env) name (do relookup env false fuel (← getNd).last.name)
        (trailingLinks env (maxTotalLinks + 1)) pure := rfl

section Pass

variable {α : Type} {last : Walk Status} {name : List UInt8} {again : Walk α} {trailing : Path → Walk α}
  {ends : Status → Walk α} {post : α → Prop}

/-- A program that starts nothing over, and what it may return. -/
structure Quits (x : Walk α) (post : α → Prop) : Prop where
  steady : Steady x
  returns : ∀ w value, (x w).result = .ok value → post value

/-- A program that quits behind events without a restart. -/
theorem Quits.behind {x : Walk α} (quits : Quits x post) {first : List Event}
    (quiet : ∀ event ∈ first, NoRestart event) (w : World) :
    restartNames (first ++ (x w).events) = [] ∧ ∀ value, (x w).result = .ok value → post value := by
  rw [restartNames_append, restartNames_eq_nil quiet, quits.steady.restartNames w]
  exact ⟨rfl, quits.returns w⟩

theorem lastThrough_cases (lasts : Steady last) (trails : ∀ path, Quits (trailing path) post)
    (quits : ∀ status, Quits (ends status) post) (w : World) :
    (restartNames (lastThrough last name again trailing ends w).events = [] ∧
      ∀ value, (lastThrough last name again trailing ends w).result = .ok value → post value) ∨
    ∃ path before, (last w).result = .ok (.chainLink path) ∧ (∀ event ∈ before, NoRestart event) ∧
      (lastThrough last name again trailing ends w).result = (again (last w).state).result ∧
      (lastThrough last name again trailing ends w).events =
        before ++ .restart name (last w).state :: (again (last w).state).events := by
  have quiet := (lasts w).2
  rcases bind_cases last _ w with ⟨fault, -, run⟩ | ⟨status, ended, run⟩
  · left
    unfold lastThrough
    rw [run]
    exact ⟨restartNames_eq_nil quiet, fun _ other => (by cases other)⟩
  · unfold lastThrough
    rw [run]
    cases status with
    | done => exact .inl ((quits _).behind quiet _)
    | fail error => exact .inl ((quits _).behind quiet _)
    | link path => exact .inl ((trails path).behind quiet _)
    | chainLink path =>
        right
        refine ⟨path, (last w).events ++ [.symlink path (last w).state], ended, ?_, rfl, ?_⟩
        · intro event member
          rcases List.mem_append.mp member with before | only
          · exact quiet event before
          · rw [List.mem_singleton.mp only]
            trivial
        · rw [List.append_assoc]
          rfl

/-- A pass ends by itself, or starts over where `last` leaves it. -/
theorem passThrough_cases (lasts : Steady last) (trails : ∀ path, Quits (trailing path) post)
    (quits : ∀ status, Quits (ends status) post) (w : World) :
    (restartNames (passThrough env last name again trailing ends w).events = [] ∧
      ∀ value, (passThrough env last name again trailing ends w).result = .ok value → post value) ∨
    ∃ w₁ w₂ before, Passed env last name w w₁ w₂ ∧ (∀ event ∈ before, NoRestart event) ∧
      (passThrough env last name again trailing ends w).result = (again w₂).result ∧
      (passThrough env last name again trailing ends w).events =
        before ++ .restart name w₂ :: (again w₂).events := by
  have quiet := ((walkText_steady (components name) : Steady (walkText env _)) w).2
  rcases bind_cases (walkText env (components name)) _ w with ⟨fault, -, run⟩ | ⟨status, walked, run⟩
  · left
    unfold passThrough
    rw [run]
    exact ⟨restartNames_eq_nil quiet, fun _ other => (by cases other)⟩
  · unfold passThrough
    rw [run]
    cases status with
    | fail error => exact .inl ((quits _).behind quiet _)
    | link path => exact .inl ((quits _).behind quiet _)
    | chainLink path => exact .inl ((quits _).behind quiet _)
    | done =>
        simp only
        rcases lastThrough_cases lasts trails quits (walkText env (components name) w).state with
          ⟨without, returns⟩ | ⟨path, before, stopped, quietLast, result, events⟩
        · left
          rw [restartNames_append, restartNames_eq_nil quiet, without]
          exact ⟨rfl, returns⟩
        · right
          refine ⟨_, _, (walkText env (components name) w).events ++ before,
            ⟨walked, rfl, ⟨path, stopped⟩, rfl⟩, ?_, result, ?_⟩
          · intro event member
            exact (List.mem_append.mp member).elim (quiet event) (quietLast event)
          · rw [events, List.append_assoc]

end Pass

/-! ### The name `path_openat` returns -/

section Name

variable {fuel : Nat} {dfd : Option Nat} {pathname pathname' : Filename} {flags : LookupFlags}
  {status : Status}

theorem openRelookup_name (fuel : Nat) {name name' : List UInt8} {w : World}
    (returned : (openRelookup env oenv op fuel name w).result = .ok (status, name')) :
    name' = (restartNames (openRelookup env oenv op fuel name w).events).getLastD name := by
  induction fuel generalizing name w with
  | zero => cases returned
  | succ fuel inductionHypothesis =>
      have kept : ∀ status : Status, Quits (return (status, name) : Walk (Status × List UInt8))
          fun value => value.2 = name := by
        intro status
        refine ⟨steady_pure _, ?_⟩
        rintro w value ⟨⟩
        rfl
      have trails : ∀ path, Quits (do return (← openTrailing env oenv op (maxTotalLinks + 1) path, name))
          fun value => value.2 = name := by
        intro path
        refine ⟨steady_bind (openTrailing_steady _ _ _) fun _ => steady_pure _, ?_⟩
        intro w value ended
        obtain ⟨opened, -, made, -⟩ := bind_returned ended
        cases made
        rfl
      rw [openRelookup_succ] at returned ⊢
      rcases passThrough_cases (doLast_steady op) trails kept w with
        ⟨without, keeps⟩ | ⟨w₁, w₂, before, -, quiet, result, events⟩
      · rw [without]
        exact keeps _ returned
      · rw [result] at returned
        have last := inductionHypothesis returned
        rw [events, restartNames_append, restartNames_eq_nil quiet]
        exact last.trans List.getLastD_cons.symm

/-- The name on return is the one with which the walk has started over last. -/
theorem openPathname_name
    (returned : (openPathname env oenv op fuel dfd pathname flags w).result = .ok (status, pathname')) :
    pathname' = { pathname with
      name := (restartNames (openPathname env oenv op fuel dfd pathname flags w).events).getLastD
        pathname.name } := by
  unfold openPathname at returned ⊢
  cases file : oenv.emptyFilp with
  | some error =>
      rw [file] at returned
      cases returned
      rfl
  | none =>
      rw [file] at returned
      simp only at returned ⊢
      have started := (pathInit_steady dfd pathname.name { flags with parent := true } :
        Steady (pathInit env _ _ _)).restartNames w
      obtain ⟨error, -, went, events⟩ := bind_returned returned
      rw [events, restartNames_append, started]
      generalize (pathInit env dfd pathname.name { flags with parent := true } w).state = w₁ at went
      cases error with
      | some error =>
          obtain ⟨finished, -, made, events⟩ := bind_returned went
          cases made
          rw [events, restartNames_append, (finishOpenat_steady _).restartNames]
          rfl
      | none =>
          obtain ⟨-, -, went, events⟩ := bind_returned went
          obtain ⟨⟨passed, name⟩, walked, went, events'⟩ := bind_returned went
          obtain ⟨finished, -, made, events''⟩ := bind_returned went
          cases made
          have reset : ∀ w : World, restartNames
              ((Prog.update fun w => { w with totalLinkCount := 0 } : Walk Unit) w).events = [] :=
            fun _ => rfl
          rw [events, events', events'', openRelookup_name fuel walked]
          simp only [restartNames_append, (finishOpenat_steady _).restartNames,
            (steady_pure _).restartNames, reset, List.append_nil, List.nil_append]

/-- `do_filp_open` behind a first attempt that ended in `-ESTALE`. -/
theorem doFilpOpen_again
    (stale : (openPathname env oenv op fuel dfd pathname flags w).result = .ok (.fail .ESTALE, pathname')) :
    (doFilpOpen env oenv op fuel dfd pathname flags w).result =
      (openPathname env oenv op fuel dfd pathname' flags
        (openPathname env oenv op fuel dfd pathname flags w).state).result := by
  unfold doFilpOpen
  rcases bind_cases (openPathname env oenv op fuel dfd pathname flags) _ w with
    ⟨fault, failed, -⟩ | ⟨value, ended, run⟩
  · rw [stale] at failed
    cases failed
  · rw [run]
    rw [stale] at ended
    cases ended
    rfl

/-- `path_openat` leaves its `pathname` alone exactly when it does not start over, or starts over last at
    the very beginning of the name. -/
theorem keeps_pathname_iff
    (returned : (openPathname env oenv op fuel dfd pathname flags w).result = .ok (status, pathname')) :
    KeepsPathname env oenv op fuel dfd pathname flags w ↔
      RestartsAtStart pathname.name (openPathname env oenv op fuel dfd pathname flags w).events := by
  have named := openPathname_name returned
  have kept : pathname'.name = pathname.name ↔
      RestartsAtStart pathname.name (openPathname env oenv op fuel dfd pathname flags w).events := by
    rw [named, RestartsAtStart]
    generalize restartNames (openPathname env oenv op fuel dfd pathname flags w).events = names
    cases last : names.getLast? with
    | none =>
        rw [List.getLast?_eq_none_iff.mp last]
        simp
    | some name =>
        rw [List.getLastD_eq_getLast?, last]
        simp
  constructor
  · intro keeps
    exact kept.mp (keeps.name _ _ returned)
  · intro atStart
    have same : ∀ other filename,
        (openPathname env oenv op fuel dfd pathname flags w).result = .ok (other, filename) →
          filename = pathname := by
      intro other filename ended
      rw [returned] at ended
      cases ended
      apply Filename.ext (kept.mpr atStart)
      rw [named]
    refine ⟨?_, ?_, ?_⟩
    · intro other filename ended
      rw [same _ _ ended]
    · intro filename ended
      rw [doFilpOpen_again ended, same _ _ ended]
    · intro other filename ended
      rw [same _ _ ended]

/-- A kernel caller that keeps its names gives back what it was given. -/
theorem doFileOpenRoot_frees {root : Path} {freed : Freed}
    (keeps : ∀ w, KeepsPathname env oenv op fuel none pathname { flags with root := true } w)
    (returned : (doFileOpenRoot env oenv op fuel root (.ok pathname) flags w).result =
      .ok (status, some freed)) : freed = putname pathname := by
  unfold doFileOpenRoot at returned
  obtain ⟨-, -, returned, -⟩ := bind_returned returned
  obtain ⟨h, -, returned, -⟩ := bind_returned returned
  split at returned
  · cases returned
  · obtain ⟨⟨second, filename⟩, tried, made, -⟩ := bind_returned returned
    cases made
    obtain ⟨⟨first, kept⟩, ended, went, -⟩ := bind_returned tried
    by_cases stale : first = .fail .ESTALE
    · rw [stale] at ended
      rw [(keeps _).again kept ended] at tried
      exact (keeps _).freed _ _ tried
    · simp only [if_neg stale] at went
      cases went
      exact (keeps _).freed _ _ ended

end Name

/-! ### A name that is lost -/

/-- The directory `d` holds the symlink `l`, whose text `e` names a directory of `d`, and there `x` is a
    file. -/
def linkedEnv : Env :=
  { Env.calm with
    kind := fun inode => if inode = 3 then .symlink else if inode = 5 then .regular else .directory
    chainRpc := fun _ _ names =>
      if names.length = 2 then ⟨none, fun index => if index = 0 then some 2 else some 3⟩
      else ⟨some .ENOENT, fun _ => none⟩
    readlink := fun _ _ => .ok (.ok [101])
    lookupRpc := fun _ dir _ => if dir = 2 then .found 4 else if dir = 4 then .found 5 else .status .ENOENT }

/-- Files can be looked up, but the handle of the file is stale when it is opened. -/
def staleOpen : OpenEnv where
  emptyFilp := none
  hasAtomicOpen _ := false
  wantWrite _ _ := true
  mayCreate _ _ := none
  create _ _ _ := .error .ENOENT
  atomicOpen _ _ _ := .failed .ENOENT
  mayOpen _ _ := none
  vfsOpen _ _ := .failed .ESTALE
  openChecks _ _ := none

/-- `open(2)` for reading. -/
def readFlags : OpenFlags := ⟨false, false, false, false, false, true⟩

def followFlags : LookupFlags := ⟨true, false, false, false, false, false⟩

/-- The same link in the root directory. -/
def rootLinkEnv : Env :=
  { linkedEnv with
    chainRpc := fun _ _ _ => ⟨none, fun _ => some 3⟩
    lookupRpc := fun _ dir _ => if dir = 4 then .found 5 else .found 4 }

/-- The open of `l/x` starts over at its first component, and leaves the name alone. -/
theorem leading_link_keeps_name :
    restartNames (openPathname rootLinkEnv staleOpen readFlags 3 none ⟨[108, slash, 120], true⟩ followFlags
        coldWorld).events = [[108, slash, 120]] ∧
      KeepsPathname rootLinkEnv staleOpen readFlags 3 none ⟨[108, slash, 120], true⟩ followFlags
        coldWorld := by
  have names : restartNames (openPathname rootLinkEnv staleOpen readFlags 3 none
      ⟨[108, slash, 120], true⟩ followFlags coldWorld).events = [[108, slash, 120]] := by decide +kernel
  have returned : (openPathname rootLinkEnv staleOpen readFlags 3 none ⟨[108, slash, 120], true⟩
      followFlags coldWorld).result = .ok (.fail .ESTALE, ⟨[108, slash, 120], true⟩) := by decide +kernel
  refine ⟨names, (keeps_pathname_iff returned).mpr ?_⟩
  intro last atLast
  rw [names] at atLast
  cases atLast
  rfl

/-- The name `d/l/x`, which is `l/x` after the open, so that the second attempt does not find the file. -/
theorem stale_open_loses_name :
    (openPathname linkedEnv staleOpen readFlags 3 none ⟨[100, slash, 108, slash, 120], true⟩ followFlags
        coldWorld).result = .ok (.fail .ESTALE, ⟨[108, slash, 120], true⟩) ∧
      (doFilpOpen linkedEnv staleOpen readFlags 3 none ⟨[100, slash, 108, slash, 120], true⟩ followFlags
        coldWorld).result = .ok (.fail .ENOENT, ⟨[108, slash, 120], true⟩) ∧
      ¬KeepsPathname linkedEnv staleOpen readFlags 3 none ⟨[100, slash, 108, slash, 120], true⟩ followFlags
        coldWorld := by
  have first : (openPathname linkedEnv staleOpen readFlags 3 none ⟨[100, slash, 108, slash, 120], true⟩
      followFlags coldWorld).result = .ok (.fail .ESTALE, ⟨[108, slash, 120], true⟩) := by decide +kernel
  have second : (doFilpOpen linkedEnv staleOpen readFlags 3 none ⟨[100, slash, 108, slash, 120], true⟩
      followFlags coldWorld).result = .ok (.fail .ENOENT, ⟨[108, slash, 120], true⟩) := by decide +kernel
  refine ⟨first, second, ?_⟩
  intro keeps
  have name := keeps.name _ _ first
  cases name

end Nfs4Compound.Vfs
