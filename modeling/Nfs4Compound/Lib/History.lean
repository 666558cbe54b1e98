/-
Module: Nfs4Compound.Lib.History
Layer: Lib
Purpose: Runs of a transition function together with the events its steps bring, in their order, and the
  past-time operator "since" on such histories.  What was the case when something happened, and what has
  not happened since then, is told by the history alone.
Trusted boundary: none
Main exports: HistoryRun, HistoryRun.invariant, HistoryRun.replay, Since, Since.last, Since.append,
  Since.imp, Since.of_append, since_concat, Always, Always.concat
-/
import Mathlib.Data.List.Basic

namespace Nfs4Compound.History

variable {σ l ev : Type*}

/-- The states reached from a start state, and the events on the way there. -/
inductive HistoryRun (step : σ → l → Option (σ × List ev)) (start : σ) : List ev → σ → Prop where
  | refl : HistoryRun step start [] start
  | tail {history events : List ev} {s s' : σ} {a : l} (run : HistoryRun step start history s)
      (move : step s a = some (s', events)) : HistoryRun step start (history ++ events) s'

/-- The invariant rule. -/
theorem HistoryRun.invariant {step : σ → l → Option (σ × List ev)} {start s : σ} {history : List ev}
    {holds : List ev → σ → Prop} (initial : holds [] start)
    (keeps : ∀ history s a s' events,
      holds history s → step s a = some (s', events) → holds (history ++ events) s')
    (run : HistoryRun step start history s) : holds history s := by
  induction run with
  | refl => exact initial
  | tail _ move inductionHypothesis => exact keeps _ _ _ _ _ inductionHypothesis move

/-- Run a list of labels. -/
def replayFrom (step : σ → l → Option (σ × List ev)) : σ → List l → Option (σ × List ev)
  | s, [] => some (s, [])
  | s, a :: rest =>
      (step s a).bind fun next => (replayFrom step next.1 rest).map fun last => (last.1, next.2 ++ last.2)

/-- A list of labels that replays is a run. -/
theorem HistoryRun.replay {step : σ → l → Option (σ × List ev)} {start : σ} :
    ∀ (labels : List l) {s s' : σ} {history events : List ev}, HistoryRun step start history s →
      replayFrom step s labels = some (s', events) → HistoryRun step start (history ++ events) s'
  | [], s, s', history, events, run, replayed => by
      cases replayed
      rw [List.append_nil]
      exact run
  | a :: rest, s, s', history, events, run, replayed => by
      rw [replayFrom] at replayed
      obtain ⟨next, move, after⟩ := Option.bind_eq_some_iff.mp replayed
      obtain ⟨last, further, same⟩ := Option.map_eq_some_iff.mp after
      cases same
      rw [← List.append_assoc]
      exact HistoryRun.replay rest (run.tail move) further

/-! ### Since -/

/-- At some point of the history something happened that was so there, and since then everything has
    kept it. -/
def Since (keeps : ev → Prop) (was : List ev → ev → Prop) (history : List ev) : Prop :=
  ∃ before event after, history = before ++ event :: after ∧ was before event ∧ ∀ later ∈ after, keeps later

namespace Since

variable {keeps keeps' : ev → Prop} {was was' : List ev → ev → Prop} {history more : List ev} {event : ev}

theorem last (was_ : was history event) : Since keeps was (history ++ [event]) :=
  ⟨history, event, [], rfl, was_, by simp⟩

theorem append (since : Since keeps was history) (kept : ∀ later ∈ more, keeps later) :
    Since keeps was (history ++ more) := by
  obtain ⟨before, event, after, whole, was_, keeps_⟩ := since
  refine ⟨before, event, after ++ more, by rw [whole, List.append_assoc, List.cons_append], was_, ?_⟩
  intro later inLater
  rcases List.mem_append.mp inLater with earlier | new
  · exact keeps_ later earlier
  · exact kept later new

theorem imp (since : Since keeps was history) (weaker : ∀ event, keeps event → keeps' event)
    (weaker' : ∀ before event, was before event → was' before event) : Since keeps' was' history := by
  obtain ⟨before, event, after, whole, was_, keeps_⟩ := since
  exact ⟨before, event, after, whole, weaker' before event was_, fun later inAfter =>
    weaker later (keeps_ later inAfter)⟩

/-- What has happened later did not start it. -/
theorem of_append (since : Since keeps was (history ++ more))
    (none : ∀ before event, event ∈ more → ¬was before event) : Since keeps was history := by
  obtain ⟨before, event, after, whole, was_, keeps_⟩ := since
  rcases List.append_eq_append_iff.mp whole with ⟨middle, rfl, rest⟩ | ⟨middle, rfl, rest⟩
  · have late : event ∈ more := rest ▸ List.mem_append_right middle List.mem_cons_self
    exact absurd was_ (none _ event late)
  · cases middle with
    | nil =>
        have late : event ∈ more := by
          rw [List.nil_append] at rest
          exact rest ▸ List.mem_cons_self
        exact absurd was_ (none _ event late)
    | cons first middle =>
        cases rest
        exact ⟨before, event, middle, rfl, was_, fun later inMiddle =>
          keeps_ later (List.mem_append_left more inMiddle)⟩

end Since

/-- One more event starts it, or keeps it. -/
theorem since_concat {keeps : ev → Prop} {was : List ev → ev → Prop} {history : List ev} {event : ev} :
    Since keeps was (history ++ [event]) ↔ was history event ∨ (keeps event ∧ Since keeps was history) := by
  constructor
  · rintro ⟨before, first, after, whole, was_, keeps_⟩
    rcases List.eq_nil_or_concat after with rfl | ⟨earlier, last, rfl⟩
    · obtain ⟨rfl, same⟩ := List.append_inj' whole rfl
      cases same
      exact .inl was_
    · rw [List.concat_eq_append] at whole keeps_
      rw [← List.cons_append, ← List.append_assoc] at whole
      obtain ⟨rfl, same⟩ := List.append_inj' whole rfl
      cases same
      exact .inr ⟨keeps_ event (by simp), before, first, earlier, rfl, was_, fun later inEarlier =>
        keeps_ later (List.mem_append_left _ inEarlier)⟩
  · rintro (was_ | ⟨keeps_, since⟩)
    · exact Since.last was_
    · exact since.append fun later inLater => List.mem_singleton.mp inLater ▸ keeps_

/-! ### Always -/

/-- Every event was so when it happened. -/
def Always (holds : List ev → ev → Prop) (history : List ev) : Prop :=
  ∀ earlier event later, history = earlier ++ event :: later → holds earlier event

theorem always_nil (holds : List ev → ev → Prop) : Always holds [] := fun earlier event later whole => by
  cases earlier <;> cases whole

theorem Always.concat {holds : List ev → ev → Prop} {history : List ev} {event : ev}
    (always : Always holds history) (this : holds history event) : Always holds (history ++ [event]) := by
  intro earlier other later whole
  rcases List.eq_nil_or_concat later with rfl | ⟨middle, last, rfl⟩
  · obtain ⟨rfl, same⟩ := List.append_inj' whole rfl
    cases same
    exact this
  · rw [List.concat_eq_append, ← List.cons_append, ← List.append_assoc] at whole
    obtain ⟨rfl, same⟩ := List.append_inj' whole rfl
    exact always earlier other middle rfl

end Nfs4Compound.History
