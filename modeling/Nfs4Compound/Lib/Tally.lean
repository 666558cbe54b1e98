/-
Module: Nfs4Compound.Lib.Tally
Layer: Lib
Purpose: Sums over the members of a list, when one member is exchanged for another or a new one comes:
  the bookkeeping of a quantity that is spread over the parts of a system.
Trusted boundary: none
Main exports: tally, tally_set, tally_concat, tally_pos_iff
-/
import Mathlib.Data.List.Basic

namespace Nfs4Compound

variable {α : Type*}

/-- The sum of a quantity over the members of a list. -/
def tally (f : α → Nat) : List α → Nat
  | [] => 0
  | first :: rest => f first + tally f rest

@[simp] theorem tally_nil (f : α → Nat) : tally f [] = 0 := rfl

@[simp] theorem tally_cons (f : α → Nat) (first : α) (rest : List α) :
    tally f (first :: rest) = f first + tally f rest := rfl

@[simp] theorem tally_append (f : α → Nat) (members more : List α) :
    tally f (members ++ more) = tally f members + tally f more := by
  induction members with
  | nil => rw [List.nil_append, tally_nil, Nat.zero_add]
  | cons first rest inductionHypothesis =>
      rw [List.cons_append, tally_cons, tally_cons, inductionHypothesis, Nat.add_assoc]

/-- One member is exchanged. -/
theorem tally_set {f : α → Nat} {members : List α} {i : Nat} {old : α} (new : α)
    (here : members[i]? = some old) : tally f (members.set i new) + f old = tally f members + f new := by
  induction members generalizing i with
  | nil => cases here
  | cons first rest inductionHypothesis =>
      cases i with
      | zero =>
          cases here
          simp only [List.set_cons_zero, tally_cons]
          omega
      | succ i =>
          have tail := inductionHypothesis here
          simp only [List.set_cons_succ, tally_cons]
          omega

/-- An exchange that keeps the quantity. -/
theorem tally_set_of_eq {f : α → Nat} {members : List α} {i : Nat} {old new : α}
    (here : members[i]? = some old) (same : f new = f old) : tally f (members.set i new) = tally f members := by
  have exchanged := @tally_set α f members i old new here
  omega

theorem tally_perm {members members' : List α} (f : α → Nat) (perm : members.Perm members') :
    tally f members = tally f members' := by
  induction perm with
  | nil => rfl
  | cons _ _ inductionHypothesis => rw [tally_cons, tally_cons, inductionHypothesis]
  | swap first second rest => exact Nat.add_left_comm _ _ _
  | trans _ _ one two => exact one.trans two

/-- With the weight one, the members are counted. -/
theorem tally_one (members : List α) : tally (fun _ => 1) members = members.length := by
  induction members with
  | nil => rfl
  | cons first rest inductionHypothesis => rw [tally_cons, inductionHypothesis, List.length_cons, Nat.add_comm]

theorem le_tally {f : α → Nat} {members : List α} {member : α} (inside : member ∈ members) :
    f member ≤ tally f members := by
  induction members with
  | nil => cases inside
  | cons first rest inductionHypothesis =>
      rw [tally_cons]
      rcases List.mem_cons.mp inside with rfl | later
      · exact Nat.le_add_right _ _
      · exact Nat.le_add_left_of_le (inductionHypothesis later)

theorem tally_eq_zero_iff {f : α → Nat} {members : List α} :
    tally f members = 0 ↔ ∀ member ∈ members, f member = 0 := by
  induction members with
  | nil => simp
  | cons first rest inductionHypothesis =>
      rw [tally_cons, Nat.add_eq_zero_iff, inductionHypothesis, List.forall_mem_cons]

end Nfs4Compound
