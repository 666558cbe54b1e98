/-
Module: Nfs4Compound.Lib.Attempts
Layer: Lib
Purpose: Calls that may fail one by one: a service answers the same to every call about a subject that
  succeeds, and any call may fail.  What a sequence of calls comes to is told by the first that fails.
Trusted boundary: none
Main exports: Calls, Service, Service.call, Service.callTwice, Service.firstFailure,
  Service.firstFailure_append, run_bind
-/
import Mathlib.Data.Option.Basic

namespace Nfs4Compound

/-- What a state operation continued by another one comes to. -/
theorem run_bind {σ α β : Type} {op : StateM σ α} {rest : α → StateM σ β} {s s' : σ} {value : α}
    (ran : op s = (value, s')) : (op >>= rest) s = rest value s' := by
  change rest (op s).1 (op s).2 = rest value s'
  rw [ran]

/-- The calls made so far: how many they are, and whether one has failed. -/
structure Calls where
  made : Nat
  failed : Bool
deriving DecidableEq, Repr

/-- No call has been made. -/
def Calls.none : Calls := ⟨0, false⟩

/-- What is answered about every subject, and which calls about it succeed. -/
structure Service (β α : Type) where
  answer : β → α
  succeeds : Nat → β → Bool

namespace Service

variable {α β : Type} (service : Service β α)

/-- What the call of this number brings. -/
def outcome (number : Nat) (subject : β) : Option α :=
  if service.succeeds number subject then some (service.answer subject) else none

/-- Make a call. -/
def call (subject : β) : StateM Calls (Option α) := fun calls =>
  (service.outcome calls.made subject,
    ⟨calls.made + 1, calls.failed || !service.succeeds calls.made subject⟩)

/-- Make a call; if it fails, make a second one, and give up with what that one brings. -/
def callTwice (first second : β) : StateM Calls (Except (Option α) α) := do
  match ← service.call first with
  | some value => pure (.ok value)
  | none =>
      let again ← service.call second
      pure (.error again)

variable {service}

theorem outcome_succeeds {number : Nat} {subject : β} (succeeds : service.succeeds number subject = true) :
    service.outcome number subject = some (service.answer subject) := if_pos succeeds

theorem outcome_fails {number : Nat} {subject : β} (fails : service.succeeds number subject = false) :
    service.outcome number subject = none := by
  simp [outcome, fails]

theorem outcome_eq_none_iff {number : Nat} {subject : β} :
    service.outcome number subject = none ↔ service.succeeds number subject = false := by
  cases succeeds : service.succeeds number subject <;> simp [outcome, succeeds]

theorem outcome_eq_some_iff {number : Nat} {subject : β} {value : α} :
    service.outcome number subject = some value ↔
      service.succeeds number subject = true ∧ service.answer subject = value := by
  cases succeeds : service.succeeds number subject <;> simp [outcome, succeeds]

/-- A call that succeeds leaves only its number behind. -/
theorem callTwice_succeeds {first : β} {calls : Calls} (second : β)
    (succeeds : service.succeeds calls.made first = true) :
    service.callTwice first second calls =
      (.ok (service.answer first), ⟨calls.made + 1, calls.failed⟩) := by
  have ran : service.call first calls =
      (some (service.answer first), ⟨calls.made + 1, calls.failed⟩) := by
    simp [call, outcome, succeeds]
  exact run_bind ran

theorem callTwice_fails {first : β} {calls : Calls} (second : β)
    (fails : service.succeeds calls.made first = false) :
    service.callTwice first second calls =
      (.error (service.outcome (calls.made + 1) second), ⟨calls.made + 2, true⟩) := by
  have ran : service.call first calls = (none, ⟨calls.made + 1, true⟩) := by
    simp [call, outcome, fails]
  exact run_bind ran

/-! ### Sequences of calls -/

variable (service)

/-- Of calls about these subjects, the first one having this number: the number and the subject of the
    first call that fails. -/
def firstFailure : Nat → List β → Option (Nat × β)
  | _, [] => none
  | number, subject :: rest =>
      if service.succeeds number subject then firstFailure (number + 1) rest
      else some (number, subject)

@[simp] theorem firstFailure_nil (number : Nat) : service.firstFailure number [] = none := rfl

variable {service}

theorem firstFailure_succeeds {number : Nat} {subject : β} (rest : List β)
    (succeeds : service.succeeds number subject = true) :
    service.firstFailure number (subject :: rest) = service.firstFailure (number + 1) rest := by
  rw [firstFailure, if_pos succeeds]

theorem firstFailure_fails {number : Nat} {subject : β} (rest : List β)
    (fails : service.succeeds number subject = false) :
    service.firstFailure number (subject :: rest) = some (number, subject) := by
  simp [firstFailure, fails]

theorem firstFailure_cons_eq_none {number : Nat} {subject : β} {rest : List β} :
    service.firstFailure number (subject :: rest) = none ↔
      service.succeeds number subject = true ∧ service.firstFailure (number + 1) rest = none := by
  cases succeeds : service.succeeds number subject with
  | false => simp [firstFailure_fails _ succeeds]
  | true => simp [firstFailure_succeeds _ succeeds]

theorem firstFailure_cons_eq_some {number : Nat} {subject : β} {rest : List β} {found : Nat × β} :
    service.firstFailure number (subject :: rest) = some found ↔
      (service.succeeds number subject = false ∧ (number, subject) = found) ∨
        (service.succeeds number subject = true ∧
          service.firstFailure (number + 1) rest = some found) := by
  cases succeeds : service.succeeds number subject with
  | false => simp [firstFailure_fails _ succeeds]
  | true => simp [firstFailure_succeeds _ succeeds]

/-- A call fails among the first subjects, or the rest of the calls decides. -/
theorem firstFailure_append (number : Nat) (subjects more : List β) :
    service.firstFailure number (subjects ++ more) =
      (service.firstFailure number subjects).or
        (service.firstFailure (number + subjects.length) more) := by
  induction subjects generalizing number with
  | nil => simp
  | cons subject rest inductionHypothesis =>
      cases succeeds : service.succeeds number subject with
      | false =>
          rw [List.cons_append, firstFailure_fails _ succeeds, firstFailure_fails _ succeeds]
          rfl
      | true =>
          rw [List.cons_append, firstFailure_succeeds _ succeeds, firstFailure_succeeds _ succeeds,
            inductionHypothesis, List.length_cons, Nat.add_right_comm, Nat.add_assoc]

end Service

end Nfs4Compound
