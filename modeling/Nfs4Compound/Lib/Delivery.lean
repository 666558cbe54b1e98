/-
Module: Nfs4Compound.Lib.Delivery
Layer: Lib
Purpose: Reading a sequence in several calls.  A call starts at a position, offers entries to a consumer
  that may refuse any of them, and leaves a position for the next call.  For two ways of treating a
  refusal, ignoring it and starting over, exactly the runs without one read everything once.
Trusted boundary: none
Main exports: Call, accepted, offersAt, acceptedUpTo, ReadOnce, RefusesNone, readOnce_iff_of_ignoring,
  readOnce_iff_of_restarting
-/
import Mathlib.Data.List.Basic

namespace Nfs4Compound.Delivery

variable {ε π : Type}

/-- The consumer's answers in one call: whether it accepts the first entry offered, the second, … -/
abbrev Answers := Nat → Bool

/-- What a call offers, given the answers and the position it starts at, and the position it leaves;
    nothing if it does not return. -/
abbrev Call (ε π : Type) := Answers → π → Option (List ε × π)

/-- The entries the consumer accepts, if the first one offered has the number `n`. -/
def acceptedFrom (answers : Answers) : Nat → List ε → List ε
  | _, [] => []
  | n, entry :: rest =>
      if answers n then entry :: acceptedFrom answers (n + 1) rest else acceptedFrom answers (n + 1) rest

def accepted (answers : Answers) (offers : List ε) : List ε := acceptedFrom answers 0 offers

/-- The entries up to the first one that is refused, and that one. -/
def untilRefusalFrom (answers : Answers) : Nat → List ε → List ε
  | _, [] => []
  | n, entry :: rest => entry :: if answers n then untilRefusalFrom answers (n + 1) rest else []

def untilRefusal (answers : Answers) (offers : List ε) : List ε := untilRefusalFrom answers 0 offers

/-! ### Sequences of calls -/

section Runs

variable (call : Call ε π) (answers : Nat → Answers) (start : π)

/-- The position after some calls. -/
def positionAfter : Nat → Option π
  | 0 => some start
  | k + 1 => (positionAfter k).bind fun position => (call (answers k) position).map Prod.snd

/-- What the `k`-th call offers, counted from 0. -/
def offersAt (k : Nat) : Option (List ε) :=
  (positionAfter call answers start k).bind fun position => (call (answers k) position).map Prod.fst

/-- The entries accepted over the first calls. -/
def acceptedUpTo : Nat → Option (List ε)
  | 0 => some []
  | k + 1 =>
      (acceptedUpTo k).bind fun earlier =>
        (offersAt call answers start k).map fun offers => earlier ++ accepted (answers k) offers

/-- A call that offers something has at least one of its entries accepted. -/
def AcceptsOne : Prop :=
  ∀ k offers, offersAt call answers start k = some offers → offers ≠ [] → accepted (answers k) offers ≠ []

/-- No entry is refused. -/
def RefusesNone : Prop :=
  ∀ k offers, offersAt call answers start k = some offers → ∀ i < offers.length, answers k i = true

/-- There is a full listing, the one a consumer that accepts everything is offered; after at most one
    call more than it has entries these have been accepted, each once and in order; and every later call
    offers nothing. -/
def ReadOnce : Prop :=
  ∃ entries, (∃ position, call (fun _ => true) start = some (entries, position)) ∧
    ∃ calls ≤ entries.length + 1,
      acceptedUpTo call answers start calls = some entries ∧
        ∀ later, calls ≤ later → offersAt call answers start later = some []

end Runs

/-! ### Answers -/

section Answers

variable {answers : Answers} {offers : List ε}

/-- All answers from the `n`-th on, and the first of them. -/
theorem forall_answers_succ {n count : Nat} :
    (∀ i < count + 1, answers (n + i) = true) ↔
      answers n = true ∧ ∀ i < count, answers (n + 1 + i) = true := by
  rw [Nat.forall_lt_succ_left]
  simp only [Nat.add_zero, Nat.add_right_comm n 1, Nat.add_assoc]

theorem length_acceptedFrom_le (n : Nat) : (acceptedFrom answers n offers).length ≤ offers.length := by
  induction offers generalizing n with
  | nil => exact Nat.le_refl _
  | cons entry rest inductionHypothesis =>
      have tail := inductionHypothesis (n + 1)
      rw [acceptedFrom]
      split
      · simpa using tail
      · simp only [List.length_cons]
        omega

/-- All entries are accepted exactly if none is refused. -/
theorem acceptedFrom_eq_iff (n : Nat) :
    acceptedFrom answers n offers = offers ↔ ∀ i < offers.length, answers (n + i) = true := by
  induction offers generalizing n with
  | nil => simp [acceptedFrom]
  | cons entry rest inductionHypothesis =>
      have tail := inductionHypothesis (n + 1)
      rw [acceptedFrom]
      rw [List.length_cons, forall_answers_succ, ← tail]
      by_cases first : answers n = true
      · rw [if_pos first, List.cons.injEq]
        simp [first]
      · rw [if_neg first]
        simp only [first, Bool.false_eq_true, false_and, iff_false]
        intro same
        have short := @length_acceptedFrom_le ε answers rest (n + 1)
        rw [same, List.length_cons] at short
        omega

theorem accepted_eq_iff : accepted answers offers = offers ↔ ∀ i < offers.length, answers i = true := by
  rw [accepted, acceptedFrom_eq_iff]
  simp only [Nat.zero_add]

theorem untilRefusalFrom_of_all {n : Nat} (all : ∀ i < offers.length, answers (n + i) = true) :
    untilRefusalFrom answers n offers = offers := by
  induction offers generalizing n with
  | nil => rfl
  | cons entry rest inductionHypothesis =>
      obtain ⟨first, others⟩ := forall_answers_succ.mp all
      rw [untilRefusalFrom, if_pos first, inductionHypothesis others]

theorem untilRefusal_of_all (all : ∀ i < offers.length, answers i = true) :
    untilRefusal answers offers = offers := by
  apply untilRefusalFrom_of_all
  simpa using all

/-- If nothing that is offered up to a refusal is refused, everything is offered. -/
theorem all_of_untilRefusalFrom {n : Nat}
    (all : ∀ i < (untilRefusalFrom answers n offers).length, answers (n + i) = true) :
    ∀ i < offers.length, answers (n + i) = true := by
  induction offers generalizing n with
  | nil => simp
  | cons entry rest inductionHypothesis =>
      have first : answers n = true := all 0 (by simp [untilRefusalFrom])
      rw [untilRefusalFrom, if_pos first] at all
      exact forall_answers_succ.mpr ⟨first, inductionHypothesis (forall_answers_succ.mp all).2⟩

theorem untilRefusal_ne_nil (nonempty : offers ≠ []) : untilRefusal answers offers ≠ [] := by
  obtain ⟨entry, rest, rfl⟩ := List.exists_cons_of_ne_nil nonempty
  simp [untilRefusal, untilRefusalFrom]

end Answers

/-! ### Finished positions -/

section Finished

variable {call : Call ε π} {answers : Nat → Answers} {start : π} {Finished : π → Prop}
  {entries : List ε}

/-- The first call is made at the start. -/
theorem offersAt_zero {offers : List ε} {position : π}
    (first : call (answers 0) start = some (offers, position)) :
    offersAt call answers start 0 = some offers ∧ positionAfter call answers start 1 = some position ∧
      acceptedUpTo call answers start 1 = some (accepted (answers 0) offers) := by
  simp [offersAt, positionAfter, acceptedUpTo, first]

/-- If every call offers the entries and leaves the position where it was, there is no end. -/
theorem not_readOnce_of_standing
    (stands : ∀ answered, call answered start = some (entries, start)) (nonempty : entries ≠ []) :
    ¬ReadOnce call answers start := by
  rintro ⟨_, _, calls, _, _, quiet⟩
  have here : ∀ k, positionAfter call answers start k = some start := by
    intro k
    induction k with
    | zero => rfl
    | succ k inductionHypothesis => simp [positionAfter, inductionHypothesis, stands]
  have silent := quiet calls (Nat.le_refl _)
  rw [offersAt, here, Option.bind_some, stands, Option.map_some, Option.some.injEq] at silent
  exact nonempty silent

variable (stays : ∀ answered position, Finished position →
  ∃ next, call answered position = some ([], next) ∧ Finished next)

include stays

/-- From a finished position on nothing is offered. -/
theorem nothing_offered {k : Nat} {position : π}
    (here : positionAfter call answers start k = some position) (finished : Finished position)
    (later : Nat) :
    offersAt call answers start (k + later) = some [] ∧
      acceptedUpTo call answers start (k + later) = acceptedUpTo call answers start k := by
  have reached : ∀ later, ∃ next, positionAfter call answers start (k + later) = some next ∧
      Finished next := by
    intro later
    induction later with
    | zero => exact ⟨position, here, finished⟩
    | succ later inductionHypothesis =>
        obtain ⟨middle, at_, finished⟩ := inductionHypothesis
        obtain ⟨next, moved, finished'⟩ := stays (answers (k + later)) middle finished
        refine ⟨next, ?_, finished'⟩
        rw [← Nat.add_assoc, positionAfter, at_]
        simp [moved]
  have silent : ∀ later, offersAt call answers start (k + later) = some [] := by
    intro later
    obtain ⟨middle, at_, finished⟩ := reached later
    obtain ⟨next, moved, _⟩ := stays (answers (k + later)) middle finished
    simp [offersAt, at_, moved]
  refine ⟨silent later, ?_⟩
  induction later with
  | zero => rfl
  | succ later inductionHypothesis =>
      rw [← Nat.add_assoc, acceptedUpTo, inductionHypothesis, silent later]
      simp [accepted, acceptedFrom]

/-- A first call that offers everything and has it all accepted is enough. -/
theorem readOnce_of_first {position : π}
    (listing : ∃ position, call (fun _ => true) start = some (entries, position))
    (first : call (answers 0) start = some (entries, position)) (finished : Finished position)
    (all : ∀ i < entries.length, answers 0 i = true) : ReadOnce call answers start := by
  obtain ⟨_, after, taken⟩ := offersAt_zero first
  refine ⟨entries, listing, 1, Nat.le_add_left _ _, ?_, ?_⟩
  · rw [taken, accepted_eq_iff.mpr all]
  · intro later low
    obtain ⟨more, rfl⟩ := Nat.exists_eq_add_of_le low
    exact (nothing_offered stays after finished more).1

/-- A call that ignores refusals offers everything and is finished: the entries refused are lost. -/
theorem readOnce_iff_of_ignoring
    (ignores : ∀ answered, ∃ position, call answered start = some (entries, position) ∧
      Finished position) :
    ReadOnce call answers start ↔ RefusesNone call answers start := by
  obtain ⟨position, first, finished⟩ := ignores (answers 0)
  obtain ⟨offered, after, taken⟩ := offersAt_zero first
  have listing : ∃ position, call (fun _ => true) start = some (entries, position) := by
    obtain ⟨position, whole, _⟩ := ignores fun _ => true
    exact ⟨position, whole⟩
  constructor
  · rintro ⟨entries', ⟨position', whole⟩, calls, _, read, _⟩
    obtain ⟨position'', listing⟩ := listing
    rw [whole] at listing
    cases listing
    have all : ∀ i < entries.length, answers 0 i = true := by
      cases calls with
      | zero =>
          have empty : [] = entries := Option.some.inj read
          rw [← empty]
          simp
      | succ calls =>
          rw [Nat.add_comm, (nothing_offered stays after finished calls).2, taken,
            Option.some.injEq] at read
          exact accepted_eq_iff.mp read
    intro k offers here
    cases k with
    | zero =>
        rw [offered] at here
        cases here
        exact all
    | succ k =>
        rw [Nat.add_comm, (nothing_offered stays after finished k).1] at here
        cases here
        simp
  · intro none
    exact readOnce_of_first stays listing first finished (none 0 entries offered)

/-- After a first call with a refusal the calls go on from the start, with something accepted already;
    until one of them accepts everything, and then too much has been accepted. -/
theorem restarts_or_repeats (one : AcceptsOne call answers start)
    (restarts : ∀ answered, ∃ position,
      call answered start = some (untilRefusal answered entries, position) ∧
        if ∀ i < entries.length, answered i = true then Finished position else position = start)
    (refused : ¬∀ i < entries.length, answers 0 i = true) (k : Nat) :
    (positionAfter call answers start k = some start ∧
        ∃ taken, acceptedUpTo call answers start k = some taken ∧ (0 < k → taken ≠ [])) ∨
      ∃ position, positionAfter call answers start k = some position ∧ Finished position ∧
        ∃ taken, acceptedUpTo call answers start k = some taken ∧ entries.length < taken.length := by
  have nonempty : entries ≠ [] := by
    rintro rfl
    exact refused (by simp)
  induction k with
  | zero => exact .inl ⟨rfl, [], rfl, fun impossible => absurd impossible (Nat.lt_irrefl 0)⟩
  | succ k inductionHypothesis =>
      rcases inductionHypothesis with ⟨here, taken, read, some_⟩ | ⟨position, here, finished, taken, read, many⟩
      · obtain ⟨position, offers, outcome⟩ := restarts (answers k)
        have offered : offersAt call answers start k = some (untilRefusal (answers k) entries) := by
          simp [offersAt, here, offers]
        have moved : positionAfter call answers start (k + 1) = some position := by
          simp [positionAfter, here, offers]
        have more : acceptedUpTo call answers start (k + 1) =
            some (taken ++ accepted (answers k) (untilRefusal (answers k) entries)) := by
          simp [acceptedUpTo, read, offered]
        split at outcome
        · rename_i all
          have later : 0 < k := by
            rcases Nat.eq_zero_or_pos k with rfl | later
            · exact absurd all refused
            · exact later
          have already := List.length_pos_iff.mpr (some_ later)
          rw [untilRefusal_of_all all, accepted_eq_iff.mpr all] at more
          refine .inr ⟨position, moved, outcome, _, more, ?_⟩
          rw [List.length_append]
          omega
        · subst outcome
          refine .inl ⟨moved, _, more, fun _ => ?_⟩
          have taken' := one k _ offered (untilRefusal_ne_nil nonempty)
          exact List.append_ne_nil_of_right_ne_nil _ taken'
      · obtain ⟨next, moved, finished'⟩ := stays (answers k) position finished
        refine .inr ⟨next, ?_, finished', taken, ?_, many⟩
        · simp [positionAfter, here, moved]
        · rw [(nothing_offered stays here finished 1).2, read]

/-- A call that stops at a refusal and leaves the position where it was: the next call offers again what
    has been accepted. -/
theorem readOnce_iff_of_restarting (one : AcceptsOne call answers start)
    (restarts : ∀ answered, ∃ position,
      call answered start = some (untilRefusal answered entries, position) ∧
        if ∀ i < entries.length, answered i = true then Finished position else position = start) :
    ReadOnce call answers start ↔ RefusesNone call answers start := by
  have listing : ∃ position, call (fun _ => true) start = some (entries, position) := by
    obtain ⟨position, whole, _⟩ := restarts fun _ => true
    rw [untilRefusal_of_all (by simp)] at whole
    exact ⟨position, whole⟩
  obtain ⟨position, first, outcome⟩ := restarts (answers 0)
  obtain ⟨offered, after, _⟩ := offersAt_zero first
  by_cases all : ∀ i < entries.length, answers 0 i = true
  · rw [if_pos all] at outcome
    rw [untilRefusal_of_all all] at first offered
    constructor
    · intro _ k offers here
      cases k with
      | zero =>
          rw [offered] at here
          cases here
          exact all
      | succ k =>
          rw [Nat.add_comm, (nothing_offered stays after outcome k).1] at here
          cases here
          simp
    · intro _
      exact readOnce_of_first stays listing first outcome all
  · constructor
    · rintro ⟨entries', ⟨position', whole⟩, calls, _, read, quiet⟩
      obtain ⟨position'', listing⟩ := listing
      rw [whole] at listing
      cases listing
      rcases restarts_or_repeats stays one restarts all calls with
        ⟨here, _⟩ | ⟨_, _, _, taken, read', many⟩
      · -- the next call would offer the entries again
        obtain ⟨next, offers, _⟩ := restarts (answers calls)
        have silent := quiet calls (Nat.le_refl _)
        have empty : untilRefusal (answers calls) entries = [] := by
          simpa [offersAt, here, offers] using silent
        have none : entries = [] := by
          by_contra nonempty
          exact untilRefusal_ne_nil nonempty empty
        rw [none] at all
        exact absurd (by simp) all
      · rw [read] at read'
        cases read'
        exact absurd many (Nat.lt_irrefl _)
    · intro none
      have accepted := none 0 _ offered
      apply absurd ?_ all
      simpa using @all_of_untilRefusalFrom ε (answers 0) entries 0 (by
        simpa [untilRefusal] using accepted)

end Finished

end Nfs4Compound.Delivery
